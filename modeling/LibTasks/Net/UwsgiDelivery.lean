import LibTasks.Foundation.Progress
import LibTasks.Net.UwsgiPacket

/-!
# Receiving a complete packet

On a healthy connection that keeps delivering, repeated calls of `read_data`
receive a packet however it is fragmented, provided that the first read returns
the whole packet header.
-/

namespace LibTasks.Net

open LibTasks.Foundation LibTasks.Tools

namespace Packet

/-! ## Reading a packet -/

variable {p : Packet} {r : UwsgiRequest} {rest : Bytes}

/-- The object while it reads the packet behind its header, and the bytes that
are still to come. -/
inductive Reading (p : Packet) (r : UwsgiRequest) (rest : Bytes) : UwsgiRequest → Bytes → Prop where
  | vars (data left : Bytes) (split : wire p.vars = data ++ left) (more : left ≠ []) :
      Reading p r rest (r.receivingVars p.header data) (left ++ (p.content ++ rest))
  | content (data left : Bytes) (split : p.content = data ++ left) (more : left ≠ []) :
      Reading p r rest ((p.parsed r).receivingContent r.contentBuffer p.content.length data)
        (left ++ rest)
  | done : Reading p r rest (p.received r) rest

/-- A stage that starts on `sock` and goes on reading, after which there were at
least `clock` reads. -/
def Continues (p : Packet) (r : UwsgiRequest) (rest : Bytes) (sock : Socket) (clock : Nat)
    (o : Outcome UwsgiRequest) : Prop :=
  ∃ next later, o = ⟨.ok (), next, later⟩ ∧ Reading p r rest next later.incoming ∧
    sock.Advances later ∧ clock ≤ later.reads.length

/-- The next bytes of a part of the packet. -/
theorem split_received {data left tail stream bytes unread : Bytes} {n : Nat}
    (total : n = (data ++ left).length) (fits : data.length + bytes.length ≤ n)
    (expected : stream = left ++ tail) (taken : stream = bytes ++ unread) :
    ∃ more, left = bytes ++ more ∧ unread = more ++ tail := by
  apply exists_split_of_append_eq (expected.symm.trans taken)
  rw [total, List.length_append] at fits
  omega

/-- After the variables were received, the content or the end follows. -/
theorem afterVars_continues (fresh : r.Fresh) {before sock : Socket} {data left : Bytes}
    (split : wire p.vars = data ++ left) (advances : before.Advances sock)
    (stream : sock.incoming = left ++ (p.content ++ rest)) :
    Continues p r rest before sock.reads.length (r.afterVars p.header data sock) := by
  unfold UwsgiRequest.afterVars
  have lengths := congrArg List.length split
  rw [List.length_append] at lengths
  by_cases complete : data.length = (wire p.vars).length
  · have empty : left = [] := List.eq_nil_of_length_eq_zero (by omega)
    rw [empty, List.append_nil] at split
    rw [empty, List.nil_append] at stream
    rw [if_pos ⟨complete.trans p.datasize_toNat.symm, rfl⟩, ← split, p.finishVars_eq fresh]
    by_cases bare : p.content = []
    · rw [if_pos bare]
      refine ⟨_, _, rfl, ?_, advances, Nat.le_refl _⟩
      have final : p.received r = { p.parsed r with state := .done } := if_pos bare
      rw [stream, bare, ← final]
      exact .done
    · rw [if_neg bare]
      refine ⟨_, _, rfl, ?_, advances, Nat.le_refl _⟩
      rw [stream]
      exact .content [] p.content rfl bare
  · rw [if_neg (by rw [datasize_toNat]; exact fun both => complete both.1)]
    refine ⟨_, _, rfl, ?_, advances, Nat.le_refl _⟩
    rw [stream]
    refine .vars data left split ?_
    rintro rfl
    rw [List.length_nil] at lengths
    omega

theorem varsStage_continues (fresh : r.Fresh) {sock : Socket} (healthy : sock.Healthy)
    {data left : Bytes} (split : wire p.vars = data ++ left) (more : left ≠ [])
    (stream : sock.incoming = left ++ (p.content ++ rest)) :
    Continues p r rest sock (sock.reads.length + 1)
      ((r.receivingVars p.header data).varsStage sock) := by
  have total : p.header.datasize.toNat = (data ++ left).length := by rw [datasize_toNat, split]
  have positive := List.length_pos_iff.mpr more
  have lengths := total
  rw [List.length_append] at lengths
  have room : data.length ≤ p.header.datasize.toNat := by omega
  have waiting : sock.incoming ≠ [] := by simp [stream, more]
  have asks : 0 < (fillCall r.dataBuffer p.header.datasize.toNat data).len := by
    simp only [fillCall]
    omega
  obtain ⟨e, failed, _⟩ | ⟨again, result⟩ |
      ⟨bytes, unread, nonempty, fits, taken, _, result⟩ :=
    UwsgiRequest.varsStage_cases fresh room sock
  · exact absurd failed (healthy.read_ne_error asks e _)
  · rw [result]
    simpa using afterVars_continues fresh split (.of_again waiting asks again) stream
  · obtain ⟨later, rfl, rfl⟩ := split_received total fits stream taken
    rw [result]
    rw [← List.append_assoc] at split
    simpa using afterVars_continues fresh split (.of_received nonempty taken) rfl

theorem afterContent_continues {before sock : Socket} {data left : Bytes}
    (split : p.content = data ++ left) (bare : p.content ≠ [])
    (advances : before.Advances sock) (stream : sock.incoming = left ++ rest) :
    Continues p r rest before sock.reads.length
      ((p.parsed r).afterContent r.contentBuffer p.content.length data sock) := by
  unfold UwsgiRequest.afterContent
  have lengths := congrArg List.length split
  rw [List.length_append] at lengths
  by_cases complete : data.length = p.content.length
  · have empty : left = [] := List.eq_nil_of_length_eq_zero (by omega)
    rw [empty, List.append_nil] at split
    rw [if_pos complete, ← split]
    refine ⟨_, _, rfl, ?_, advances, Nat.le_refl _⟩
    rw [stream, empty, List.nil_append, ← show p.received r = _ from if_neg bare]
    exact .done
  · rw [if_neg complete]
    refine ⟨_, _, rfl, ?_, advances, Nat.le_refl _⟩
    rw [stream]
    refine .content data left split ?_
    rintro rfl
    rw [List.length_nil] at lengths
    omega

theorem contentStage_continues (fresh : r.Fresh) {sock : Socket} (healthy : sock.Healthy)
    {data left : Bytes} (split : p.content = data ++ left) (more : left ≠ [])
    (stream : sock.incoming = left ++ rest) :
    Continues p r rest sock (sock.reads.length + 1)
      (((p.parsed r).receivingContent r.contentBuffer p.content.length data).contentStage
        sock) := by
  have total : p.content.length = (data ++ left).length := by rw [split]
  have positive := List.length_pos_iff.mpr more
  have lengths := total
  rw [List.length_append] at lengths
  have bare : p.content ≠ [] := by simp [split, more]
  have room : data.length ≤ p.content.length := by omega
  have waiting : sock.incoming ≠ [] := by simp [stream, more]
  have asks : 0 < (fillCall r.contentBuffer p.content.length data).len := by
    simp only [fillCall]
    omega
  obtain ⟨e, failed, _⟩ | ⟨again, result⟩ |
      ⟨bytes, unread, nonempty, fits, taken, _, result⟩ :=
    UwsgiRequest.contentStage_cases (r := p.parsed r) fresh.content room p.content_small sock
  · exact absurd failed (healthy.read_ne_error asks e _)
  · rw [result]
    simpa using afterContent_continues split bare (.of_again waiting asks again) stream
  · obtain ⟨later, rfl, rfl⟩ := split_received total fits stream taken
    rw [result]
    rw [← List.append_assoc] at split
    simpa using afterContent_continues split bare (.of_received nonempty taken) rfl

theorem Continues.refl {sock : Socket} {current : UwsgiRequest}
    (reading : Reading p r rest current sock.incoming) :
    Continues p r rest sock sock.reads.length ⟨.ok (), current, sock⟩ :=
  ⟨current, sock, rfl, reading, .refl sock, Nat.le_refl _⟩

/-- The last stage of a call, in whatever state it finds the object. -/
theorem contentStage_reading (fresh : r.Fresh) {sock : Socket} (healthy : sock.Healthy)
    {current : UwsgiRequest} (reading : Reading p r rest current sock.incoming) :
    Continues p r rest sock sock.reads.length (current.contentStage sock) := by
  generalize stream : sock.incoming = unread at reading
  cases reading with
  | vars data left split more => exact .refl (stream ▸ .vars data left split more)
  | content data left split more =>
      obtain ⟨next, later, result, reading, advances, clock⟩ :=
        contentStage_continues fresh healthy split more stream
      exact ⟨next, later, result, reading, advances, by omega⟩
  | done =>
      have same : (p.received r).contentStage sock = ⟨.ok (), p.received r, sock⟩ :=
        if_neg (by rw [received_state]; decide)
      rw [same]
      exact .refl (stream ▸ .done)

/-- The stages behind the header make at least one read. -/
theorem stages_continue (fresh : r.Fresh) {sock : Socket} (healthy : sock.Healthy)
    {current : UwsgiRequest} (reading : Reading p r rest current sock.incoming)
    (running : current.state ≠ .done) :
    Continues p r rest sock (sock.reads.length + 1)
      ((current.varsStage sock).andThen UwsgiRequest.contentStage) := by
  generalize stream : sock.incoming = unread at reading
  cases reading with
  | vars data left split more =>
      obtain ⟨next, middle, result, reading, advances, clock⟩ :=
        varsStage_continues fresh healthy split more stream
      have stillHealthy : middle.Healthy := fun k => advances.arrivals ▸ healthy k
      obtain ⟨last, later, finished, readingOn, advancesOn, clockOn⟩ :=
        contentStage_reading fresh stillHealthy reading
      rw [result, Outcome.andThen_ok, finished]
      exact ⟨last, later, rfl, readingOn, advances.trans advancesOn, by omega⟩
  | content data left split more =>
      exact contentStage_continues fresh healthy split more stream
  | done => exact absurd (p.received_state r) running

theorem Reading.readData_eq {current : UwsgiRequest} {unread : Bytes}
    (reading : Reading p r rest current unread) (sock : Socket) :
    current.readData sock = (current.varsStage sock).andThen UwsgiRequest.contentStage := by
  have later : current.state ≠ .ready := by
    cases reading with
    | vars data left split more => nofun
    | content data left split more => nofun
    | done =>
        rw [received_state]
        decide
  rw [UwsgiRequest.readData, UwsgiRequest.headerStage, if_neg later, Outcome.andThen_ok]

/-- The first call, when its first read returns the whole packet header. -/
theorem readData_start (fresh : r.Fresh) {sock : Socket} (healthy : sock.Healthy)
    (stream : sock.incoming = p.bytes ++ rest) (whole : UwsgiRequest.WholeHeader sock) :
    ∃ next later, r.readData sock = ⟨.ok (), next, later⟩ ∧
      Reading p r rest next later.incoming ∧ later.arrivals = sock.arrivals := by
  rw [bytes, List.append_assoc, List.append_assoc] at stream
  let behind := sock.advance UwsgiRequest.headerCall (wire p.vars ++ (p.content ++ rest))
  have reading : Reading p r rest (r.receivingVars p.header []) behind.incoming :=
    .vars [] (wire p.vars) rfl (wire_ne_nil p.nonempty)
  have stillHealthy : behind.Healthy := healthy
  obtain ⟨next, later, result, readingOn, advances, _⟩ :=
    stages_continue fresh stillHealthy reading (by nofun)
  refine ⟨next, later, ?_, readingOn, advances.arrivals⟩
  rw [UwsgiRequest.readData, UwsgiRequest.headerStage_whole fresh stream whole,
    Outcome.andThen_ok, result]

/-! ## Whole runs -/

open UwsgiRequest (readCall WholeHeader)

/-- Between two calls, after the first one. -/
structure Receiving (p : Packet) (r : UwsgiRequest) (rest : Bytes) (arrivals : Nat → Arrival)
    (s : Session UwsgiRequest) : Prop where
  alive : s.failure = none
  reading : Reading p r rest s.object s.socket.incoming
  arrivals : s.socket.arrivals = arrivals

/-- Further calls make progress until the request is complete. -/
theorem receiving_progress (fresh : r.Fresh) {sock : Socket} (healthy : sock.Healthy) :
    FairProgress readCall (Receiving p r rest sock.arrivals)
      (fun s => s.object.state = .done) (fun s => s.socket.reads.length)
      (fun s => s.socket.incoming.length) (fun t => ∃ n, sock.arrivals t = .deliver n) := by
  have step : ∀ s, Receiving p r rest sock.arrivals s → ¬s.object.state = .done →
      Receiving p r rest sock.arrivals (readCall s) ∧ s.socket.Advances (readCall s).socket ∧
        s.socket.reads.length + 1 ≤ (readCall s).socket.reads.length := by
    intro s receiving running
    have stillHealthy : s.socket.Healthy := fun k => receiving.arrivals ▸ healthy k
    obtain ⟨next, later, result, reading, advances, clock⟩ :=
      stages_continue fresh stillHealthy receiving.reading running
    rw [← receiving.reading.readData_eq] at result
    have called : readCall s = ⟨next, later, none⟩ := by
      simp [readCall, Session.call, HttpBase.done, running, receiving.alive, result]
    rw [called]
    exact ⟨⟨rfl, reading, advances.arrivals.trans receiving.arrivals⟩, advances, clock⟩
  constructor
  · intro s receiving running
    exact (step s receiving running).1
  · intro s receiving running
    exact (step s receiving running).2.2
  · intro s receiving running
    exact (step s receiving running).2.1.incoming
  · rintro s receiving running t before behind ⟨n, delivery⟩
    exact (step s receiving running).2.1.delivered t n before behind (receiving.arrivals ▸ delivery)

/-- A packet is received as a whole, and nothing behind it is read. -/
theorem endsAs_received (fresh : r.Fresh) {sock : Socket} (healthy : sock.Healthy)
    (fair : sock.Fair) (stream : sock.incoming = p.bytes ++ rest) (whole : WholeHeader sock) :
    ∃ later, EndsAs readCall ⟨r, sock, none⟩ ⟨p.received r, later, none⟩ ∧
      later.incoming = rest := by
  obtain ⟨next, first, result, reading, arrivals⟩ := readData_start fresh healthy stream whole
  have called : readCall ⟨r, sock, none⟩ = ⟨next, first, none⟩ :=
    Session.call_ok fresh.not_done result
  obtain ⟨n, receiving, finished⟩ := (receiving_progress fresh healthy).finishes fair
    ⟨next, first, none⟩ ⟨rfl, reading, arrivals⟩
  rw [← called, ← Function.iterate_succ_apply] at receiving finished
  generalize final : readCall^[n + 1] ⟨r, sock, none⟩ = last at receiving finished
  obtain ⟨object, later, failure⟩ := last
  obtain ⟨rfl, readingAtEnd, -⟩ := receiving
  dsimp only at readingAtEnd finished
  generalize unread : later.incoming = tail at readingAtEnd
  cases readingAtEnd with
  | vars data left split more => cases finished
  | content data left split more => cases finished
  | done =>
      refine ⟨later, endsAs_of_fixed final (Session.call_ended (.inl ?_)), unread⟩
      simp [HttpBase.done, received_state]

/-- Without the whole header in the first read, the first call ends the session
with an exception. -/
theorem endsAs_failed (fresh : r.Fresh) {sock : Socket} (short : ¬WholeHeader sock) :
    ∃ final e, EndsAs readCall ⟨r, sock, none⟩ final ∧ final.failure = some (.exception e) := by
  obtain ⟨e, partly, unread, result, -⟩ := UwsgiRequest.headerStage_short fresh short
  let failed : UwsgiRequest := { r with state := .readHeader, uwsgiHeader := partly }
  have called : readCall^[1] ⟨r, sock, none⟩ =
      ⟨failed, sock.advance UwsgiRequest.headerCall unread, some (.exception e)⟩ := by
    have failing : r.readData sock = ⟨.error (.exception e), failed,
        sock.advance UwsgiRequest.headerCall unread⟩ := by
      rw [UwsgiRequest.readData, result]
      rfl
    rw [Function.iterate_one]
    exact Session.call_error fresh.not_done failing
  exact ⟨_, e, endsAs_of_fixed called (Session.call_ended (.inr rfl)), rfl⟩

/-- Two runs on the same packet agree, and neither raises an exception, exactly
if the first read of each returns the whole packet header. -/
theorem runs_agree_iff (p : Packet) (fresh : r.Fresh) {one two : Socket}
    (healthy : one.Healthy ∧ two.Healthy) (fair : one.Fair ∧ two.Fair)
    (streams : one.incoming = p.bytes ∧ two.incoming = p.bytes) :
    (∃ first second, EndsAs readCall ⟨r, one, none⟩ first ∧ EndsAs readCall ⟨r, two, none⟩ second ∧
      first.object.state = .done ∧ first.object = second.object ∧
      first.failure = none ∧ second.failure = none) ↔
    WholeHeader one ∧ WholeHeader two := by
  constructor
  · rintro ⟨first, second, firstEnds, secondEnds, -, -, firstAlive, secondAlive⟩
    have needed : ∀ {sock : Socket} {final : Session UwsgiRequest},
        EndsAs readCall ⟨r, sock, none⟩ final → final.failure = none → WholeHeader sock := by
      intro sock final ends alive
      by_contra short
      obtain ⟨failed, e, failedEnds, failure⟩ := endsAs_failed fresh short
      rw [ends.unique failedEnds, failure] at alive
      cases alive
    exact ⟨needed firstEnds firstAlive, needed secondEnds secondAlive⟩
  · rintro ⟨firstWhole, secondWhole⟩
    obtain ⟨later, firstEnds, -⟩ := endsAs_received fresh healthy.1 fair.1
      (streams.1.trans (List.append_nil _).symm) firstWhole
    obtain ⟨latest, secondEnds, -⟩ := endsAs_received fresh healthy.2 fair.2
      (streams.2.trans (List.append_nil _).symm) secondWhole
    exact ⟨_, _, firstEnds, secondEnds, p.received_state r, rfl, rfl, rfl⟩

/-- A packet with one variable, and content of two bytes. -/
def sample : Packet where
  vars := [(text "A", text "b"), (text "CONTENT_LENGTH", text "2")]
  content := [1, 2]
  nonempty := by decide
  small := by decide
  announced := by decide

/-- The packet on a connection that delivers `first` bytes and then one at a time. -/
def trickle (first : Nat) : Socket where
  incoming := sample.bytes
  arrivals t := if t = 0 then .deliver first else .deliver 1

theorem trickle_healthy (first : Nat) : (trickle first).Healthy := by
  intro k
  simp only [trickle]
  split <;> simp

theorem trickle_fair (first : Nat) : (trickle first).Fair := by
  intro k
  refine ⟨k, Nat.le_refl k, ?_⟩
  simp only [trickle]
  split <;> simp

theorem runs_agree_sample :
    ∃ first second, EndsAs readCall ⟨{}, trickle 4, none⟩ first ∧
      EndsAs readCall ⟨{}, trickle 100, none⟩ second ∧
      first.object.state = .done ∧ first.object = second.object ∧
      first.failure = none ∧ second.failure = none :=
  (runs_agree_iff sample UwsgiRequest.fresh_default
    ⟨trickle_healthy 4, trickle_healthy 100⟩ ⟨trickle_fair 4, trickle_fair 100⟩
    ⟨rfl, rfl⟩).mpr ⟨⟨4, by decide, rfl⟩, ⟨100, by decide, rfl⟩⟩

/-- When only two bytes of the header arrive first, an exception ends the session
that succeeds when all four do. -/
theorem runs_differ_sample :
    (readCall^[1] ⟨{}, trickle 2, none⟩).failure =
      some (.exception UwsgiRequest.headerError) ∧
    (readCall^[40] ⟨{}, trickle 4, none⟩).failure = none ∧
    (readCall^[40] ⟨{}, trickle 4, none⟩).object.state = .done := by
  decide +kernel

end Packet

end LibTasks.Net

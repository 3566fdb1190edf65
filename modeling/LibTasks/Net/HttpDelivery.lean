import LibTasks.Foundation.Progress
import LibTasks.Net.HttpFraming

/-!
# Receiving a complete response

On a healthy connection that keeps delivering, repeated calls of `read_data` receive
a well-formed response, provided that the first read that returns anything returns
the whole header block, and that no read gets all it asks for.
-/

namespace LibTasks.Net

open LibTasks.Foundation LibTasks.Tools

namespace HttpResponse

/-! ## The growth of the buffer -/

/-- The storage grows by a block and the spare capacity, and not again before
something has been received. -/
def Bounded (base : Nat) (b : Buffer) : Prop :=
  b.storage.length ≤ base + 5120 * b.pptr + 5120 ∨
    b.pptr + readBufferSizeBlock ≤ b.size ∧ b.storage.length ≤ base + 5120 * b.pptr + 10240

theorem Bounded.room {base : Nat} {b : Buffer} (bounded : Bounded base b) (ok : b.Ok)
    (small : base + 5120 * b.pptr + 10240 ≤ maxSize) :
    ∃ next, Room b next ∧ next.storage.length ≤ base + 5120 * b.pptr + 10240 ∧
      (b.pptr + readBufferSizeBlock ≤ b.size → next = b) := by
  by_cases enough : b.pptr + readBufferSizeBlock ≤ b.size
  · refine ⟨b, .of_enough ok enough, ?_, fun _ => rfl⟩
    clear enough small
    rcases bounded with less | ⟨_, less⟩
    · omega
    · exact less
  · rcases bounded with less | ⟨more, _⟩
    · have length : (Buffer.grow b.storage (b.storage.length + readBufferSizeBlock)).length =
          b.storage.length + 5120 := by
        rw [Buffer.grow, if_pos (Nat.lt_add_of_pos_right (by decide)), length_resize]
        rfl
      refine ⟨_, .of_grown ok enough ?_, ?_, fun more => absurd more enough⟩
      · unfold readBufferSizeBlock at enough ⊢
        omega
      · change (Buffer.grow b.storage (b.storage.length + readBufferSizeBlock)).length ≤ _
        rw [length]
        clear length enough small
        omega
    · exact absurd more enough

/-- On a healthy connection that still has bytes, a read finds room, and gets something or
nothing. -/
theorem Bounded.attempt {base : Nat} {r : HttpResponse} {sock : Socket}
    (bounded : Bounded base r.contentBuffer) (ok : r.contentBuffer.Ok) (healthy : sock.Healthy)
    (waiting : sock.incoming ≠ [])
    (small : base + 5120 * r.contentBuffer.pptr + 10240 ≤ maxSize) :
    ∃ b, Room r.contentBuffer b ∧
      b.storage.length ≤ base + 5120 * r.contentBuffer.pptr + 10240 ∧
      (r.contentBuffer.pptr + readBufferSizeBlock ≤ r.contentBuffer.size →
        b = r.contentBuffer) ∧
      (sock.read (roomCall b) = (.ok none, sock.advance (roomCall b) sock.incoming) ∧
          sock.Advances (sock.advance (roomCall b) sock.incoming) ∨
        ∃ bytes rest, r.Arrives sock b bytes rest ∧
          sock.Advances (sock.advance (roomCall b) rest)) := by
  obtain ⟨b, room, length, same⟩ := bounded.room ok small
  have positive : 0 < (roomCall b).len := by
    have size := room.size
    have place := room.pptr
    unfold readBufferSizeBlock at size
    change 0 < b.size - b.pptr - 1
    omega
  refine ⟨b, room, length, same, ?_⟩
  rcases sock.read_cases (roomCall b) with
    ⟨e, failed⟩ | again | ⟨bytes, rest, nonempty, within, stream, read⟩
  · exact absurd failed (healthy.read_ne_error positive e _)
  · exact .inl ⟨again, .of_again waiting positive again⟩
  · exact .inr ⟨bytes, rest, room.arrives nonempty within stream read,
      .of_received nonempty stream⟩

/-- What a read leaves when it found nothing. -/
theorem Bounded.of_room {base : Nat} {b next : Buffer} (room : Room b next)
    (length : next.storage.length ≤ base + 5120 * b.pptr + 10240) : Bounded base next := by
  have size := room.size
  rw [← room.pptr] at length size
  exact .inr ⟨size, length⟩

/-- What a read leaves when it received something. -/
theorem Bounded.of_arrives {base : Nat} {r q : HttpResponse} {sock : Socket} {b : Buffer}
    {bytes rest : Bytes} (arrives : r.Arrives sock b bytes rest)
    (length : b.storage.length ≤ base + 5120 * r.contentBuffer.pptr + 10240)
    (parsed : Parsed r b bytes q) : Bounded base q.contentBuffer := by
  obtain ⟨pptr, -, -, storage⟩ := parsed.places arrives
  have some := List.length_pos_iff.mpr arrives.nonempty
  have place := arrives.room.pptr
  left
  omega

/-! ## Conditions on the reads -/

/-- The iteration that starts with `r` and `sock` gets less than it asks for. -/
def ReadsShort (r : HttpResponse) (sock : Socket) : Prop :=
  ∀ b bytes rest, r.Arrives sock b bytes rest → bytes.length ≠ (roomCall b).len

/-- If the iteration is the first that receives anything, it receives at least `count`
bytes. -/
def ReadsFirst (count : Nat) (r : HttpResponse) (sock : Socket) : Prop :=
  r.contentBuffer.pptr = 0 →
    ∀ b bytes rest, r.Arrives sock b bytes rest → count ≤ bytes.length

theorem status_foldl_withHeader (h : HttpResponse) (lines : List Bytes) :
    (lines.foldl withHeader h).status = h.status ∧
      (lines.foldl withHeader h).statusCode = h.statusCode := by
  induction lines generalizing h with
  | nil => exact ⟨rfl, rfl⟩
  | cons line lines ih =>
      have same : (h.withHeader line).status = h.status ∧
          (h.withHeader line).statusCode = h.statusCode := by
        simp only [withHeader, insertHeader]
        split
        · exact ⟨rfl, rfl⟩
        · split
          · exact ⟨rfl, rfl⟩
          · split <;> exact ⟨rfl, rfl⟩
      rw [List.foldl_cons]
      exact ⟨(ih _).1.trans same.1, (ih _).2.trans same.2⟩

theorem readIteration_arrivals {r q : HttpResponse} {sock next : Socket} {go : Bool}
    (reading : r.Reading) (result : r.readIteration sock = ⟨.ok go, q, next⟩) :
    next.arrivals = sock.arrivals := by
  have iterates := reading.iterates sock
  rw [result] at iterates
  cases iterates with
  | again | more | done => rfl

end HttpResponse

namespace Response

open HttpResponse

variable {p : Response} {trailing : Bytes} {start r q : HttpResponse}

theorem length_bytes (p : Response) : p.bytes.length = p.headLength + p.body.length :=
  length_linesText _ _

/-- The response `r` has been received as a whole. -/
structure Received (p : Response) (start r : HttpResponse) : Prop where
  fields : r.fields = { start.said p.lines with state := .done }
  readable : r.contentBuffer.readable = p.body

theorem Received.state_eq (received : p.Received start r) : r.state = .done :=
  congrArg (·.state) received.fields

/-- What a received response says. -/
theorem Received.seen (received : p.Received (startFields r) q) (fresh : r.Fresh) :
    q.status = statusTextOf p.statusLine ∧ q.statusCode = atoi (statusTextOf p.statusLine) ∧
      q.headers = (describe {} p.headerLines).headers ∧ q.contentLength = p.body.length := by
  have statuses := status_foldl_withHeader ((startFields r).withStatus p.statusLine) p.headerLines
  have described : ((startFields r).said p.lines).announcement = describe {} p.headerLines :=
    said_announcement p fresh
  refine ⟨?_, ?_, ?_, ?_⟩
  · exact (congrArg (·.status) received.fields).trans statuses.1
  · exact (congrArg (·.statusCode) received.fields).trans statuses.2
  · exact (congrArg (·.headers) received.fields).trans (congrArg (·.headers) described)
  · rw [← p.length, ← described]
    exact congrArg (·.contentLength) received.fields

theorem InContent.received (inContent : p.InContent trailing start q) (reading : q.Reading)
    (room : q.contentBuffer.pptr < q.contentBuffer.size)
    (whole : q.contentBuffer.pptr = q.contentStart + q.contentLength)
    (length : q.contentLength = p.body.length) : p.Received start q.finished := by
  constructor
  · have same := congrArg (fun r : HttpResponse => { r with state := .done }) inContent.fields
    exact same
  · obtain ⟨toRead, read⟩ := inContent.read_finished reading room whole length
    have all := read q.contentLength
    rw [length, List.take_length, HttpBase.read, Buffer.read, toRead, length] at all
    rw [← all]
    change slice _ q.contentStart (q.contentBuffer.pptr - q.contentStart) =
      slice _ q.contentStart (min p.body.length p.body.length)
    rw [Nat.min_self, whole, Nat.add_sub_cancel_left, length]

/-! ## One call -/

/-- Between two calls, while nothing but the response arrives. -/
structure Receiving (p : Response) (base : Nat) (start : HttpResponse)
    (arrivals : Nat → Arrival) (s : Session HttpResponse) : Prop where
  alive : s.failure = none
  arriving : p.Arriving [] start s.object s.socket
  arrivals : s.socket.arrivals = arrivals
  balance : s.object.contentBuffer.pptr + s.socket.incoming.length = p.bytes.length
  bounded : Bounded base s.object.contentBuffer
  phase :
    s.object.state = .readData ∧ s.object.contentBuffer.pptr = 0 ∧
        s.object.contentBuffer.size = readBufferSizeBlock ∨
      s.object.state = .readContent ∧ p.headLength < readBufferSizeBlock ∧
        s.object.contentBuffer.pptr ≠ s.object.contentStart + s.object.contentLength ∨
      p.Received start s.object ∧ p.headLength < readBufferSizeBlock

variable {base : Nat} {arrivals : Nat → Arrival} {s : Session HttpResponse}

theorem Arriving.inContent {sock : Socket} (arriving : p.Arriving trailing start q sock)
    (state : q.state = .readContent) : p.InContent trailing start q := by
  rcases arriving.phase with inHead | inContent | done
  · cases state.symm.trans inHead.state
  · exact inContent
  · cases state.symm.trans done

/-- As long as the response is not complete, there is more to come. -/
theorem Receiving.waiting (receiving : p.Receiving base (startFields r) arrivals s)
    (fresh : r.Fresh) (running : s.object.state ≠ .done) : s.socket.incoming ≠ [] := by
  intro nothing
  have balance := receiving.balance
  have length := p.length_bytes
  rw [nothing, List.length_nil] at balance
  rcases receiving.phase with ⟨_, pptr, _⟩ | ⟨state, _, incomplete⟩ | ⟨received, _⟩
  · unfold headLength at length
    omega
  · have inContent := receiving.arriving.inContent state
    have place := inContent.place
    have announced := inContent.contentLength_eq fresh
    omega
  · exact running received.state_eq

theorem Receiving.pptr_le (receiving : p.Receiving base start arrivals s)
    (running : s.object.state ≠ .done) :
    s.object.contentBuffer.pptr ≤ readBufferSizeBlock + p.body.length := by
  have balance := receiving.balance
  have length := p.length_bytes
  rcases receiving.phase with ⟨_, pptr, _⟩ | ⟨_, fits, _⟩ | ⟨received, _⟩
  · omega
  · omega
  · exact absurd received.state_eq running

/-- An iteration of the loop is the last one of its call, and gets on. -/
theorem Receiving.iterate (receiving : p.Receiving base (startFields r) arrivals s)
    (fresh : r.Fresh) (healthy : s.socket.Healthy) (running : s.object.state ≠ .done)
    (small : base + 5120 * (readBufferSizeBlock + p.body.length) + 10240 ≤ maxSize)
    (short : ReadsShort s.object s.socket) (first : ReadsFirst p.headLength s.object s.socket) :
    ∃ next later, s.object.readIteration s.socket = ⟨.ok false, next, later⟩ ∧
      p.Receiving base (startFields r) arrivals ⟨next, later, none⟩ ∧
      s.socket.Advances later ∧ later.reads.length = s.socket.reads.length + 1 := by
  have arriving := receiving.arriving
  have reading := arriving.reading
  have balance := receiving.balance
  have waiting := receiving.waiting fresh running
  have inside := receiving.pptr_le running
  obtain ⟨b, room, length, same, attempt⟩ :=
    receiving.bounded.attempt reading.ok healthy waiting (by omega)
  clear small
  have samePlace := room.pptr
  rcases attempt with ⟨again, advances⟩ | ⟨bytes, rest, arrives, advances⟩
  · have result := room.readIteration_again (room.receive_again again)
    refine ⟨_, _, result, ⟨rfl, arriving.next result, receiving.arrivals, ?_,
      .of_room room length, ?_⟩, advances, by simp⟩
    · change b.pptr + s.socket.incoming.length = _
      omega
    · rcases receiving.phase with ⟨state, pptr, size⟩ | ⟨state, fits, incomplete⟩ | ⟨received, _⟩
      · have kept := same (by omega)
        subst kept
        exact .inl ⟨state, pptr, size⟩
      · right
        left
        refine ⟨state, fits, ?_⟩
        change b.pptr ≠ s.object.contentStart + s.object.contentLength
        omega
      · exact absurd received.state_eq running
  · have stream := arrives.stream
    obtain ⟨q, parse⟩ := arriving.parse_ok fresh arrives
    have parsed := arrives.parsed reading parse
    obtain ⟨pptr, size, -, storage⟩ := parsed.places arrives
    have reads := parsed.reading arrives reading
    have fits := arrives.fits
    -- Neither a read that starts before the header block nor one behind it ends inside.
    have behind : p.headLength ≤ q.contentBuffer.pptr ∧ p.headLength < readBufferSizeBlock := by
      rcases receiving.phase with ⟨state, zero, block⟩ | ⟨state, fits, _⟩ | ⟨received, _⟩
      · have whole := first zero b bytes rest arrives
        have kept := same (by omega)
        rw [kept] at fits pptr
        omega
      · have already := (arriving.inContent state).behind
        omega
      · exact absurd received.state_eq running
    have inContent : p.InContent [] (startFields r) q := by
      rcases arriving.parsed arrives parsed running with inHead | inContent
      · have short := inHead.short
        omega
      · exact inContent
    have result := arrives.readIteration_eq reading parse
    rw [decide_eq_false (short b bytes rest arrives)] at result
    have unread : q.contentBuffer.pptr + rest.length = p.bytes.length := by
      rw [stream, List.length_append] at balance
      omega
    have bounded : Bounded base q.contentBuffer := .of_arrives arrives length parsed
    refine ⟨_, _, result, ⟨rfl, arriving.next result, receiving.arrivals, ?_, ?_, ?_⟩, advances,
      by simp⟩
    · dsimp only
      split
      · exact unread
      · exact unread
    · dsimp only
      split
      · have kept : q.finished.contentBuffer.storage.length = q.contentBuffer.storage.length :=
          length_overwrite (by
            have size := reads.ok.size
            rw [List.length_singleton]
            omega)
        left
        have some := List.length_pos_iff.mpr arrives.nonempty
        rw [kept]
        change q.contentBuffer.storage.length ≤ base + 5120 * q.contentBuffer.pptr + 5120
        omega
      · exact bounded
    · dsimp only
      split
      · next whole =>
          right
          right
          exact ⟨inContent.received reads (by omega) whole (inContent.contentLength_eq fresh),
            behind.2⟩
      · next incomplete => exact .inr (.inl ⟨inContent.state, behind.2, incomplete⟩)

theorem Receiving.begun (receiving : p.Receiving base start arrivals s) :
    s.object.startReading = .ok s.object :=
  if_neg receiving.arriving.reading.begun

theorem Receiving.mem_heads (receiving : p.Receiving base start arrivals s)
    (running : s.object.state ≠ .done) : (s.object, s.socket) ∈ heads s := by
  have going : ¬(s.object.done ∨ s.failure.isSome) := by
    simp [HttpBase.done, running, receiving.alive]
  rw [heads, if_neg going, receiving.begun]
  exact List.mem_cons_self

/-- A call makes progress. -/
theorem Receiving.call (receiving : p.Receiving base (startFields r) arrivals s)
    (fresh : r.Fresh) (healthy : s.socket.Healthy) (running : s.object.state ≠ .done)
    (small : base + 5120 * (readBufferSizeBlock + p.body.length) + 10240 ≤ maxSize)
    (conditions : ∀ head ∈ heads s,
      ReadsShort head.1 head.2 ∧ ReadsFirst p.headLength head.1 head.2) :
    p.Receiving base (startFields r) arrivals (readCall s) ∧
      s.socket.Advances (readCall s).socket ∧
      (readCall s).socket.reads.length = s.socket.reads.length + 1 := by
  obtain ⟨short, first⟩ := conditions _ (receiving.mem_heads running)
  obtain ⟨next, later, result, receivingOn, advances, clock⟩ :=
    receiving.iterate fresh healthy running small short first
  have read : s.object.readData s.socket = ⟨.ok (), next, later⟩ := by
    rw [readData, receiving.begun]
    dsimp only
    rw [if_neg running, readLoop, Outcome.loop, result]
  have called : readCall s = ⟨next, later, none⟩ := by
    have alive := receiving.alive
    obtain ⟨object, sock, failure⟩ := s
    subst alive
    exact Session.call_ok (decide_eq_false running) read
  rw [called]
  exact ⟨receivingOn, advances, clock⟩

/-! ## Whole runs -/

/-- The storage of a new response before its first iteration. -/
theorem bounded_of_fresh (fresh : r.Fresh) (started : r.startReading = .ok q) :
    Bounded r.contentBuffer.storage.length q.contentBuffer := by
  rw [fresh.startReading_eq] at started
  cases started
  left
  change (overwrite (Buffer.grow r.contentBuffer.storage readBufferSizeBlock) 0 []).length ≤
    r.contentBuffer.storage.length + 5120 * 0 + 5120
  rw [overwrite_nil]
  exact Buffer.length_grow_le (Nat.le_add_right _ _) (by unfold readBufferSizeBlock; omega)

/-- A new response before its first iteration. -/
theorem receiving_of_fresh (p : Response) (fresh : r.Fresh) {sock : Socket}
    (stream : sock.incoming = p.bytes) (started : r.startReading = .ok q) :
    p.Receiving r.contentBuffer.storage.length (startFields r) sock.arrivals ⟨q, sock, none⟩ := by
  have arriving := p.arriving_of_fresh fresh (by rw [List.append_nil]; exact stream) started
  have bounded := bounded_of_fresh fresh started
  rw [fresh.startReading_eq] at started
  cases started
  refine ⟨rfl, arriving, rfl, ?_, bounded, .inl ⟨rfl, rfl, rfl⟩⟩
  change 0 + sock.incoming.length = _
  rw [stream, Nat.zero_add]

/-- Calls make progress until the response is complete. -/
theorem receiving_progress (fresh : r.Fresh) {origin : Session HttpResponse}
    (healthy : ∀ k, arrivals k = .again ∨ ∃ n, arrivals k = .deliver n)
    (small : base + 5120 * (readBufferSizeBlock + p.body.length) + 10240 ≤ maxSize)
    (conditions : ∀ n, ∀ head ∈ heads (readCall^[n] origin),
      ReadsShort head.1 head.2 ∧ ReadsFirst p.headLength head.1 head.2) :
    FairProgress readCall
      (fun s => (∃ n, readCall^[n] origin = s) ∧ p.Receiving base (startFields r) arrivals s)
      (fun s => s.object.state = .done) (fun s => s.socket.reads.length)
      (fun s => s.socket.incoming.length) (fun t => ∃ n, arrivals t = .deliver n) := by
  have step : ∀ s, ((∃ n, readCall^[n] origin = s) ∧
      p.Receiving base (startFields r) arrivals s) → ¬s.object.state = .done →
      p.Receiving base (startFields r) arrivals (readCall s) ∧
        s.socket.Advances (readCall s).socket ∧
        (readCall s).socket.reads.length = s.socket.reads.length + 1 := by
    rintro s ⟨⟨n, rfl⟩, receiving⟩ running
    have stillHealthy : (readCall^[n] origin).socket.Healthy := fun k =>
      receiving.arrivals ▸ healthy k
    exact receiving.call fresh stillHealthy running small (conditions n)
  constructor
  · rintro s ⟨⟨n, rfl⟩, receiving⟩ running
    exact ⟨⟨n + 1, Function.iterate_succ_apply' _ _ _⟩, (step _ ⟨⟨n, rfl⟩, receiving⟩ running).1⟩
  · intro s good running
    have clock := (step s good running).2.2
    omega
  · intro s good running
    exact (step s good running).2.1.incoming
  · rintro s good running t before behind ⟨n, delivery⟩
    exact (step s good running).2.1.delivered t n before behind (good.2.arrivals ▸ delivery)

/-- The first call starts like a call on the response with its buffer set up. -/
theorem readCall_started (fresh : r.Fresh) (started : r.startReading = .ok q) (sock : Socket) :
    readCall ⟨r, sock, none⟩ = readCall ⟨q, sock, none⟩ ∧
      heads ⟨r, sock, none⟩ = heads ⟨q, sock, none⟩ := by
  have notDone : r.done = false := by simp [HttpBase.done, fresh.state]
  rw [fresh.startReading_eq] at started
  have begun : q.startReading = .ok q := by
    cases started
    rfl
  have notDoneYet : q.done = false := by
    cases started
    rfl
  rw [← fresh.startReading_eq] at started
  have sameRead : r.readData sock = q.readData sock := by
    rw [readData, readData, started, begun]
  constructor
  · simp [readCall, Session.call, notDone, notDoneYet, sameRead]
  · simp only [heads, notDone, notDoneYet, started, begun]

/-- What holds wherever an iteration starts does so from then on. -/
theorem heads_started (fresh : r.Fresh) (started : r.startReading = .ok q) {sock : Socket}
    {condition : HttpResponse × Socket → Prop}
    (always : ∀ n, ∀ head ∈ heads (readCall^[n] ⟨r, sock, none⟩), condition head) :
    ∀ n, ∀ head ∈ heads (readCall^[n] ⟨q, sock, none⟩), condition head := by
  obtain ⟨same, sameHeads⟩ := readCall_started fresh started sock
  intro n
  cases n with
  | zero =>
      rw [Function.iterate_zero_apply, ← sameHeads]
      exact always 0
  | succ n =>
      rw [Function.iterate_succ_apply, ← same, ← Function.iterate_succ_apply]
      exact always (n + 1)

/-- A response is received as a whole, and its header block is shorter than the first
read. -/
theorem endsAs_received (p : Response) (fresh : r.Fresh) {sock : Socket}
    (small : r.contentBuffer.storage.length +
      5120 * (readBufferSizeBlock + p.body.length) + 10240 ≤ maxSize)
    (healthy : sock.Healthy) (fair : sock.Fair) (stream : sock.incoming = p.bytes)
    (conditions : ∀ n, ∀ head ∈ heads (readCall^[n] ⟨r, sock, none⟩),
      ReadsShort head.1 head.2 ∧ ReadsFirst p.headLength head.1 head.2) :
    ∃ final, EndsAs readCall ⟨r, sock, none⟩ final ∧ final.failure = none ∧
      p.Received (startFields r) final.object ∧ p.headLength < readBufferSizeBlock := by
  obtain ⟨q, started⟩ : ∃ q, r.startReading = .ok q := ⟨_, fresh.startReading_eq⟩
  have receiving := p.receiving_of_fresh fresh stream started
  have conditionsOn := heads_started fresh started conditions
  obtain ⟨n, ⟨-, receivingAtEnd⟩, finished⟩ :=
    (receiving_progress fresh healthy small conditionsOn).finishes fair ⟨q, sock, none⟩
      ⟨⟨0, rfl⟩, receiving⟩
  have ended : readCall (readCall^[n] ⟨q, sock, none⟩) = readCall^[n] ⟨q, sock, none⟩ :=
    Session.call_ended (.inl (decide_eq_true finished))
  refine ⟨_, EndsAs.of_step_eq (readCall_started fresh started sock).1
    (endsAs_of_fixed rfl ended), receivingAtEnd.alive, ?_⟩
  rcases receivingAtEnd.phase with ⟨state, _⟩ | ⟨state, _⟩ | received
  · cases state.symm.trans finished
  · cases state.symm.trans finished
  · exact received

/-- The conditions on the reads hold when the bytes come in pieces that are long
enough for the header block and too short for a read. -/
theorem reads_of_pieces (p : Response) (fresh : r.Fresh) {sock : Socket}
    (stream : sock.incoming = p.bytes)
    (pieces : ∀ k n, sock.arrivals k = .deliver n →
      p.headLength ≤ n ∧ n + 1 < readBufferSizeBlock) :
    ∀ n, ∀ head ∈ heads (readCall^[n] ⟨r, sock, none⟩),
      ReadsShort head.1 head.2 ∧ ReadsFirst p.headLength head.1 head.2 := by
  have invariant := run_rule (r := r)
    (P := fun q now => p.Arriving [] (startFields r) q now ∧ now.arrivals = sock.arrivals)
    (fun holds result => ⟨holds.1.next result,
      (readIteration_arrivals holds.1.reading result).trans holds.2⟩)
    (fun holds => holds.1.reading.begun) sock
    ⟨_, fresh.startReading_eq, p.arriving_of_fresh fresh (by rw [List.append_nil]; exact stream)
      fresh.startReading_eq, rfl⟩
  intro n head member
  obtain ⟨arriving, arrivals⟩ := invariant n head member
  have piece : ∀ b bytes rest, head.1.Arrives head.2 b bytes rest →
      ∃ k, p.headLength ≤ k ∧ k + 1 < readBufferSizeBlock ∧
        bytes = head.2.incoming.take (min (max k 1) (roomCall b).len) := by
    intro b bytes rest arrives
    obtain ⟨k, delivery, taken⟩ := Socket.deliver_of_read arrives.read
    rw [arrivals] at delivery
    exact ⟨k, (pieces _ k delivery).1, (pieces _ k delivery).2, taken⟩
  have room : ∀ b bytes rest, head.1.Arrives head.2 b bytes rest →
      readBufferSizeBlock ≤ (roomCall b).len + 1 := by
    intro b bytes rest arrives
    have size := arrives.room.size
    have same := arrives.room.pptr
    change _ ≤ b.size - b.pptr - 1 + 1
    omega
  constructor
  · intro b bytes rest arrives
    obtain ⟨k, long, short, taken⟩ := piece b bytes rest arrives
    have asked := room b bytes rest arrives
    have less : bytes.length ≤ max k 1 := by
      rw [taken, List.length_take]
      omega
    unfold readBufferSizeBlock at *
    omega
  · intro zero b bytes rest arrives
    obtain ⟨k, long, short, taken⟩ := piece b bytes rest arrives
    have asked := room b bytes rest arrives
    have whole : head.2.incoming.length = p.bytes.length := by
      rw [arriving.stream, zero, List.append_nil, List.drop_zero]
      rfl
    have total := p.length_bytes
    rw [taken, List.length_take]
    omega

end Response

end LibTasks.Net

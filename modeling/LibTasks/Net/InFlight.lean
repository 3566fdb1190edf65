import LibTasks.Net.HttpTrailing
import LibTasks.Net.ResumableWriting
import LibTasks.Net.UwsgiRuns

/-!
# Reading what has arrived

The results about readers are about a stream of which all bytes wait in the socket, and a
schedule that says how many of them a read gets.  When the peer is still sending, only the
bytes in flight can be read.  A read from these is a read from the complete stream with a
schedule that delivers no more than has arrived, so what holds for the complete stream holds
here.
-/

namespace LibTasks.Net

open LibTasks.Foundation LibTasks.Tools

/-! ## One read -/

namespace Socket

/-- The same socket when `late` is going to arrive behind what is in flight. -/
def ahead (sock : Socket) (late : Bytes) (arrival : Arrival) : Socket :=
  { sock with incoming := sock.incoming ++ late, arrivals := fun _ => arrival }

/-- What the next read finds, without anything that has not arrived. -/
def arrived (sock : Socket) : Arrival :=
  match sock.arrivals sock.reads.length with
  | .deliver n =>
      if sock.incoming = [] then .again else .deliver (min (max n 1) sock.incoming.length)
  | arrival => arrival

@[simp] theorem ahead_incoming (sock : Socket) (late : Bytes) (arrival : Arrival) :
    (sock.ahead late arrival).incoming = sock.incoming ++ late := rfl

@[simp] theorem ahead_reads (sock : Socket) (late : Bytes) (arrival : Arrival) :
    (sock.ahead late arrival).reads = sock.reads := rfl

theorem ahead_advance (sock : Socket) (late : Bytes) (arrival : Arrival) (call : ReadCall)
    (rest : Bytes) :
    (sock.ahead late arrival).advance call (rest ++ late) =
      (sock.advance call rest).ahead late arrival := rfl

/-- Bytes that have not arrived make no difference to a read. -/
theorem read_ahead (sock : Socket) (late : Bytes) (call : ReadCall) :
    (sock.ahead late sock.arrived).read call =
      ((sock.read call).1, (sock.read call).2.ahead late sock.arrived) := by
  generalize same : sock.arrived = arrival
  unfold read
  simp only [ahead, arrived] at same ⊢
  cases found : sock.arrivals sock.reads.length with
  | again | closed =>
      rw [found] at same
      subst same
      rfl
  | failed errno reason =>
      rw [found] at same
      subst same
      rfl
  | deliver n =>
      simp only [found] at same
      by_cases empty : sock.incoming = []
      · rw [if_pos empty] at same
        subst same
        simp [empty, advance]
      · rw [if_neg empty] at same
        subst same
        simp only [List.append_eq_nil_iff, empty, false_and, ↓reduceIte]
        split
        · rfl
        · have positive := List.length_pos_iff.mpr empty
          have count : min (max (min (max n 1) sock.incoming.length) 1) call.len =
              min (min (max n 1) call.len) sock.incoming.length := by omega
          have inside : min (min (max n 1) call.len) sock.incoming.length ≤
              sock.incoming.length := Nat.min_le_right _ _
          rw [count, List.take_append_of_le_length inside, List.drop_append_of_le_length inside,
            ← List.take_eq_take_min, ← List.drop_eq_drop_min]
          rfl

end Socket

/-- An outcome when `late` is going to arrive. -/
def Outcome.ahead {σ α : Type} (o : Outcome σ α) (late : Bytes) (arrival : Arrival) :
    Outcome σ α :=
  { o with socket := o.socket.ahead late arrival }

/-- A computation that makes at most one read, so that bytes that have not arrived make no
difference to it. -/
def ReadsOnce {σ α : Type} (run : Socket → Outcome σ α) : Prop :=
  ∀ sock late, run (sock.ahead late sock.arrived) = (run sock).ahead late sock.arrived

theorem fillFrom_readsOnce (b : Buffer) (len : Nat) : ReadsOnce (fillFrom b len) := by
  intro sock late
  simp only [fillFrom, Socket.read_ahead]
  rcases sock.read ⟨b.pptr, len, b.size, b.bufferSize⟩ with ⟨result, next⟩
  cases result with
  | error e => rfl
  | ok received =>
      cases received with
      | none => rfl
      | some bytes =>
          dsimp only
          cases b.store b.pptr bytes <;> rfl

/-! ## The stages of `uwsgi_request::read_data` -/

namespace UwsgiRequest

theorem headerStage_readsOnce (r : UwsgiRequest) : ReadsOnce r.headerStage := by
  intro sock late
  simp only [headerStage, readHeader, Socket.read_ahead]
  split
  · rcases sock.read headerCall with ⟨result, next⟩
    cases result with
    | error e => rfl
    | ok received =>
        by_cases whole : (received.getD []).length = 4
        · simp only [whole, ↓reduceIte]
          split <;> rfl
        · simp only [whole, ↓reduceIte]
          rfl
  · rfl

theorem finishVars_ahead (r : UwsgiRequest) (sock : Socket) (late : Bytes) (arrival : Arrival) :
    r.finishVars (sock.ahead late arrival) = (r.finishVars sock).ahead late arrival := by
  unfold finishVars
  cases parseVars r.toHttpBase with
  | error f => rfl
  | ok h =>
      dsimp only
      split
      · rfl
      · split <;> rfl

theorem varsStage_readsOnce (r : UwsgiRequest) : ReadsOnce r.varsStage := by
  intro sock late
  unfold varsStage
  by_cases state : r.state = .readData
  · rw [if_pos state, if_pos state, readVars, readVars, fillFrom_readsOnce]
    rcases fillFrom r.dataBuffer (toSize r.dataBuffer.toWrite) sock with ⟨result, b, next⟩
    cases result with
    | error e => rfl
    | ok received =>
        change ite (b.toWrite = 0 ∧ r.uwsgiHeader.modifier1 = uwsgiVars) _ _ =
          Outcome.ahead (ite (b.toWrite = 0 ∧ r.uwsgiHeader.modifier1 = uwsgiVars) _ _) _ _
        split
        · exact finishVars_ahead ..
        · rfl
  · rw [if_neg state, if_neg state]
    rfl

theorem contentStage_readsOnce (r : UwsgiRequest) : ReadsOnce r.contentStage := by
  intro sock late
  unfold contentStage
  by_cases state : r.state = .readContent
  · rw [if_pos state, if_pos state, readContent, readContent, fillFrom_readsOnce]
    rcases fillFrom r.contentBuffer (toSize r.contentBuffer.toWrite) sock with ⟨result, b, next⟩
    cases result with
    | error e => rfl
    | ok received =>
        change ite (b.toWrite = 0) _ _ = Outcome.ahead (ite (b.toWrite = 0) _ _) _ _
        split <;> rfl
  · rw [if_neg state, if_neg state]
    rfl

end UwsgiRequest

/-! ## A packet in flight -/

namespace Packet

variable {p : Packet} {r : UwsgiRequest} {rest late : Bytes}

/-- A part of a call goes on reading the packet of which `late` has not arrived. -/
def ProceedsInFlight (p : Packet) (r : UwsgiRequest) (rest late : Bytes)
    (o : Outcome UwsgiRequest) : Prop :=
  Proceeds p r rest (o.ahead late .again)

/-- What is said of an outcome does not depend on the schedule. -/
theorem Proceeds.inFlight {o : Outcome UwsgiRequest} (arrival : Arrival)
    (proceeds : Proceeds p r rest (o.ahead late arrival)) : ProceedsInFlight p r rest late o :=
  ⟨proceeds.asks, proceeds.reading, proceeds.failed⟩

theorem ProceedsInFlight.andThen {o : Outcome UwsgiRequest}
    {next : UwsgiRequest → Socket → Outcome UwsgiRequest}
    (first : ProceedsInFlight p r rest late o)
    (second : ∀ current sock, Reading p r rest current (sock.incoming ++ late) →
      (∀ call ∈ sock.reads, call.len ≠ 0) →
        ProceedsInFlight p r rest late (next current sock)) :
    ProceedsInFlight p r rest late (o.andThen next) := by
  rcases o with ⟨result, current, sock⟩
  cases result with
  | error e => exact first
  | ok value => exact second current sock (first.reading rfl) first.asks

theorem headerStage_inFlight (fresh : r.Fresh) {sock : Socket}
    (stream : sock.incoming ++ late = p.bytes ++ rest)
    (before : ∀ call ∈ sock.reads, call.len ≠ 0) :
    ProceedsInFlight p r rest late (r.headerStage sock) := by
  refine Proceeds.inFlight sock.arrived ?_
  rw [← UwsgiRequest.headerStage_readsOnce]
  rw [bytes, List.append_assoc, List.append_assoc] at stream
  by_cases whole : UwsgiRequest.WholeHeader (sock.ahead late sock.arrived)
  · rw [UwsgiRequest.headerStage_whole fresh stream whole]
    refine .of_reading (.vars [] (wire p.vars) rfl (wire_ne_nil p.nonempty)) ?_
    exact Socket.forall_reads_advance _ before (by decide)
  · rcases UwsgiRequest.headerStage_short fresh whole with ⟨e, partly, left, result, few⟩
    rw [result]
    refine .of_failed (Socket.forall_reads_advance _ before (by decide)) IoState.noConfusion ?_
    rw [Socket.ahead_incoming, stream] at few
    simp only [List.length_append, UwsgiPacketHeader.length_encode] at few
    rw [Socket.advance_incoming]
    omega

theorem varsStage_inFlight (fresh : r.Fresh) {current : UwsgiRequest} {sock : Socket}
    (reading : Reading p r rest current (sock.incoming ++ late))
    (before : ∀ call ∈ sock.reads, call.len ≠ 0) :
    ProceedsInFlight p r rest late (current.varsStage sock) := by
  refine Proceeds.inFlight sock.arrived ?_
  rw [← UwsgiRequest.varsStage_readsOnce]
  exact varsStage_proceeds fresh reading before

theorem contentStage_inFlight (fresh : r.Fresh) {current : UwsgiRequest} {sock : Socket}
    (reading : Reading p r rest current (sock.incoming ++ late))
    (before : ∀ call ∈ sock.reads, call.len ≠ 0) :
    ProceedsInFlight p r rest late (current.contentStage sock) := by
  refine Proceeds.inFlight sock.arrived ?_
  rw [← UwsgiRequest.contentStage_readsOnce]
  exact contentStage_proceeds fresh reading before

/-- A call of `read_data` while the packet is in flight. -/
theorem readData_inFlight (fresh : r.Fresh) {current : UwsgiRequest} {sock : Socket}
    (place : current = r ∧ sock.incoming ++ late = p.bytes ++ rest ∨
      Reading p r rest current (sock.incoming ++ late))
    (before : ∀ call ∈ sock.reads, call.len ≠ 0) :
    ProceedsInFlight p r rest late (current.readData sock) := by
  have behind (current : UwsgiRequest) (sock : Socket)
      (reading : Reading p r rest current (sock.incoming ++ late))
      (before : ∀ call ∈ sock.reads, call.len ≠ 0) :
      ProceedsInFlight p r rest late
        ((current.varsStage sock).andThen UwsgiRequest.contentStage) :=
    (varsStage_inFlight fresh reading before).andThen fun _ _ => contentStage_inFlight fresh
  rcases place with ⟨rfl, stream⟩ | reading
  · exact ((headerStage_inFlight fresh stream before).andThen fun _ _ =>
      varsStage_inFlight fresh).andThen fun _ _ => contentStage_inFlight fresh
  · rw [reading.readData_eq]
    exact behind current sock reading before

theorem Reading.eq_received {current : UwsgiRequest} {unread : Bytes}
    (reading : p.Reading r rest current unread) (done : current.state = .done) :
    current = p.received r := by
  cases reading with
  | vars data left split more => cases done
  | content data left split more => cases done
  | done => rfl

end Packet

/-! ## A response in flight -/

namespace HttpResponse

theorem receive_readsOnce (r : HttpResponse) : ReadsOnce r.receive := by
  intro sock late
  unfold receive
  cases makeRoom r.contentBuffer with
  | error f => rfl
  | ok b =>
      dsimp only
      rw [fillFrom_readsOnce]
      rcases fillFrom b (toSize (b.toWrite - 1)) sock with ⟨result, filled, next⟩
      cases result with
      | error e => rfl
      | ok received =>
          cases received with
          | none => rfl
          | some bytes =>
              dsimp only [Outcome.ahead]
              rcases parseReceived { r with contentBuffer := filled } with ⟨parsed, q⟩
              cases parsed <;> rfl

theorem readIteration_readsOnce (r : HttpResponse) : ReadsOnce r.readIteration := by
  intro sock late
  unfold readIteration
  rw [receive_readsOnce]
  rcases r.receive sock with ⟨result, q, next⟩
  cases result with
  | error e => rfl
  | ok received =>
      rcases received with ⟨towrite, bytes⟩
      cases bytes with
      | none => rfl
      | some bytes =>
          change ite (q.contentComplete = true) _ _ =
            Outcome.ahead (ite (q.contentComplete = true) _ _) late sock.arrived
          split
          · dsimp only [Outcome.ahead]
            cases q.complete <;> rfl
          · rfl

variable {q : HttpResponse} {sock : Socket} {late : Bytes} {b : Buffer} {bytes rest : Bytes}

/-- What arrives has been in flight. -/
theorem Arrives.of_ahead (arrives : q.Arrives (sock.ahead late sock.arrived) b bytes rest) :
    ∃ left, q.Arrives sock b bytes left ∧ rest = left ++ late := by
  have read := arrives.read
  rw [Socket.read_ahead] at read
  rcases sock.read_cases (roomCall b) with
    ⟨e, failed⟩ | again | ⟨found, left, nonempty, within, stream, received⟩
  · rw [failed] at read
    cases (Prod.mk.inj read).1
  · rw [again] at read
    cases (Prod.mk.inj read).1
  · rw [received] at read
    rcases Prod.mk.inj read with ⟨same, next⟩
    cases same
    refine ⟨left, ⟨arrives.room, nonempty, arrives.fits, stream, received⟩, ?_⟩
    exact (congrArg Socket.incoming next).symm

end HttpResponse

namespace Response

open HttpResponse

variable {p : Response} {start r q : HttpResponse} {sock : Socket} {late : Bytes}

theorem Arriving.of_incoming {trailing : Bytes} {other : Socket}
    (arriving : p.Arriving trailing start q sock) (same : other.incoming = sock.incoming) :
    p.Arriving trailing start q other :=
  ⟨arriving.reading, same.trans arriving.stream, arriving.phase⟩

/-- How far an iteration gets. -/
theorem OnTime.place {trailing : Bytes} (onTime : p.OnTime trailing (startFields r) q sock)
    (fresh : r.Fresh) :
    (q.readIteration sock).object.contentBuffer.pptr = q.contentBuffer.pptr ∨
      ∃ b bytes rest, q.Arrives sock b bytes rest ∧
        (q.readIteration sock).object.contentBuffer.pptr =
          q.contentBuffer.pptr + bytes.length := by
  rcases attempt_cases onTime.arriving.reading.ok sock with
    tooLarge | ⟨b, e, room, failed⟩ | ⟨b, room, again⟩ | ⟨b, bytes, rest, arrives⟩
  · rw [readIteration_tooLarge tooLarge]
    exact .inl rfl
  · rw [room.readIteration_failed failed]
    exact .inl room.pptr
  · rw [room.readIteration_again (room.receive_again again)]
    exact .inl room.pptr
  · right
    refine ⟨b, bytes, rest, arrives, ?_⟩
    rcases onTime.arriving.arrive fresh arrives onTime.running with ⟨next, result, _, pptr, _⟩
    rw [result, ← arrives.room.pptr, ← pptr]
    dsimp only
    split <;> rfl

/-- The reader waits for a response of which `late` has not arrived, and is not inside its
header block. -/
structure Awaits (p : Response) (start : HttpResponse) (late : Bytes) (q : HttpResponse)
    (sock : Socket) : Prop where
  onTime : p.OnTime [] start q (sock.ahead late .again)
  outside : q.contentBuffer.pptr = 0 ∨ p.headLength ≤ q.contentBuffer.pptr

theorem Awaits.of_incoming (awaits : p.Awaits start late q sock) {other : Socket} {rest : Bytes}
    (same : other.incoming ++ rest = sock.incoming ++ late) : p.Awaits start rest q other :=
  ⟨⟨awaits.onTime.arriving.of_incoming same, awaits.onTime.running, awaits.onTime.short⟩,
    awaits.outside⟩

/-- The conditions under which a read does not end in the wrong place. -/
def ReadsWell (p : Response) (q : HttpResponse) (sock : Socket) : Prop :=
  ReadsShort q sock ∧ ReadsFirst p.headLength q sock

theorem Awaits.not_misframes (awaits : p.Awaits start late q sock) (well : p.ReadsWell q sock) :
    ¬Misframes p q (sock.ahead late sock.arrived) := by
  rintro (⟨_, b, bytes, rest, arrives, place⟩ | ⟨_, b, bytes, rest, arrives, place⟩)
  · rcases arrives.of_ahead with ⟨left, arrivesHere, _⟩
    have same := arrives.room.pptr
    rcases place with ⟨inside, _⟩ | ⟨_, full⟩
    · rcases awaits.outside with zero | behind
      · have whole := well.2 zero b bytes left arrivesHere
        omega
      · omega
    · exact well.1 b bytes left arrivesHere full
  · -- Nothing follows the response.
    have stream := congrArg List.length
      (arrives.stream.symm.trans awaits.onTime.arriving.stream)
    have short := awaits.onTime.short
    have total : (linesText p.lines (p.body ++ [])).length = p.headLength + p.body.length := by
      rw [List.append_nil]
      exact p.length_bytes
    have same := arrives.room.pptr
    rw [List.length_append, List.length_drop, total] at stream
    omega

/-- An iteration while the response is in flight. -/
theorem Awaits.step (awaits : p.Awaits (startFields r) late q sock) (fresh : r.Fresh)
    (well : p.ReadsWell q sock) :
    p.Awaits (startFields r) late (q.readIteration sock).object (q.readIteration sock).socket ∨
      (q.readIteration sock).result = .ok false ∧
        p.Complete [] (startFields r) (q.readIteration sock).object
          ((q.readIteration sock).socket.ahead late .again) := by
  have onTime : p.OnTime [] (startFields r) q (sock.ahead late sock.arrived) :=
    ⟨awaits.onTime.arriving.of_incoming rfl, awaits.onTime.running, awaits.onTime.short⟩
  have places := onTime.place fresh
  have steps := onTime.step fresh (awaits.not_misframes well)
  rw [readIteration_readsOnce] at places steps
  rcases steps with later | ⟨stops, complete⟩
  · refine .inl ⟨⟨later.arriving.of_incoming rfl, later.running, later.short⟩, ?_⟩
    rcases places with same | ⟨b, bytes, rest, arrives, pptr⟩
    · rw [show (q.readIteration sock).object.contentBuffer.pptr = q.contentBuffer.pptr from same]
      exact awaits.outside
    · rcases arrives.of_ahead with ⟨left, arrivesHere, _⟩
      right
      rw [show (q.readIteration sock).object.contentBuffer.pptr =
        q.contentBuffer.pptr + bytes.length from pptr]
      rcases awaits.outside with zero | behind
      · have whole := well.2 zero b bytes left arrivesHere
        omega
      · omega
  · exact .inr ⟨stops, complete.arriving.of_incoming rfl, complete.received, complete.place⟩

/-- A call of `read_data` while the response is in flight. -/
theorem Awaits.loop (awaits : p.Awaits (startFields r) late q sock) (fresh : r.Fresh) (fuel : Nat)
    (well : ∀ head ∈ Outcome.loopHeads readIteration fuel q sock, p.ReadsWell head.1 head.2) :
    let o := readLoop fuel q sock
    p.Awaits (startFields r) late o.object o.socket ∨
      o.result = .ok () ∧ p.Complete [] (startFields r) o.object (o.socket.ahead late .again) :=
  Outcome.loop_until
    (R := fun q sock => p.Complete [] (startFields r) q (sock.ahead late .again))
    (fun holds well => holds.step fresh well) fuel awaits well

end Response

/-! ## The other direction -/

namespace Socket

/-- Reading leaves what is sent as it is. -/
structure Receives (before after : Socket) : Prop where
  sent : after.sent = before.sent
  acceptances : after.acceptances = before.acceptances

/-- Writing leaves what is received as it is. -/
structure Sends (before after : Socket) : Prop where
  incoming : after.incoming = before.incoming
  reads : after.reads = before.reads
  sent : before.sent <+: after.sent
  acceptances : after.acceptances = before.acceptances

theorem Receives.refl (sock : Socket) : sock.Receives sock := ⟨rfl, rfl⟩

theorem Receives.trans {first second third : Socket} (one : first.Receives second)
    (two : second.Receives third) : first.Receives third :=
  ⟨two.sent.trans one.sent, two.acceptances.trans one.acceptances⟩

theorem read_receives (sock : Socket) (call : ReadCall) : sock.Receives (sock.read call).2 := by
  rcases sock.read_cases call with ⟨e, failed⟩ | again | ⟨bytes, rest, _, _, _, received⟩
  · rw [failed]
    exact ⟨rfl, rfl⟩
  · rw [again]
    exact ⟨rfl, rfl⟩
  · rw [received]
    exact ⟨rfl, rfl⟩

theorem Sends.refl (sock : Socket) : sock.Sends sock := ⟨rfl, rfl, List.prefix_refl _, rfl⟩

theorem Sends.trans {first second third : Socket} (one : first.Sends second)
    (two : second.Sends third) : first.Sends third :=
  ⟨two.incoming.trans one.incoming, two.reads.trans one.reads, one.sent.trans two.sent,
    two.acceptances.trans one.acceptances⟩

theorem write_sends (sock : Socket) (data : Bytes) : sock.Sends (sock.write data).2 := by
  unfold write
  cases sock.acceptances sock.writes with
  | again => exact ⟨rfl, rfl, List.prefix_refl _, rfl⟩
  | failed errno reason => exact ⟨rfl, rfl, List.prefix_refl _, rfl⟩
  | accept n => exact ⟨rfl, rfl, List.prefix_append _ _, rfl⟩

end Socket

theorem fillFrom_receives (b : Buffer) (len : Nat) (sock : Socket) :
    sock.Receives (fillFrom b len sock).socket := by
  have received := sock.read_receives ⟨b.pptr, len, b.size, b.bufferSize⟩
  unfold fillFrom
  dsimp only
  generalize sock.read ⟨b.pptr, len, b.size, b.bufferSize⟩ = found at received
  rcases found with ⟨result, next⟩
  cases result with
  | error e => exact received
  | ok bytes =>
      cases bytes with
      | none => exact received
      | some bytes =>
          dsimp only
          split <;> exact received

theorem offerRest_sends (head content before : Bytes) (sock : Socket) :
    sock.Sends (offerRest head content before sock) :=
  sock.write_sends _

theorem offerRest_iterate_sends (head content before : Bytes) (count : Nat) (sock : Socket) :
    sock.Sends ((offerRest head content before)^[count] sock) := by
  induction count generalizing sock with
  | zero => exact .refl sock
  | succ count ih => exact (offerRest_sends ..).trans (ih _)

theorem Socket.Receives.andThen {σ : Type} {o : Outcome σ} {next : σ → Socket → Outcome σ}
    {sock : Socket} (first : sock.Receives o.socket)
    (second : ∀ x later, Socket.Receives later (next x later).socket) :
    sock.Receives (o.andThen next).socket := by
  rcases o with ⟨result, x, later⟩
  cases result with
  | error e => exact first
  | ok value => exact first.trans (second x later)

namespace UwsgiRequest

theorem headerStage_receives (r : UwsgiRequest) (sock : Socket) :
    sock.Receives (r.headerStage sock).socket := by
  have received := sock.read_receives headerCall
  unfold headerStage readHeader
  split
  · dsimp only
    generalize sock.read headerCall = found at received
    rcases found with ⟨result, next⟩
    cases result with
    | error e => exact received
    | ok bytes =>
        by_cases whole : (bytes.getD []).length = 4
        · simp only [if_pos whole]
          split <;> exact received
        · simp only [if_neg whole]
          exact received
  · exact .refl sock

theorem varsStage_receives (r : UwsgiRequest) (sock : Socket) :
    sock.Receives (r.varsStage sock).socket := by
  by_cases state : r.state = .readData
  · rw [varsStage_socket state]
    exact fillFrom_receives ..
  · rw [varsStage, if_neg state]
    exact .refl sock

theorem contentStage_receives (r : UwsgiRequest) (sock : Socket) :
    sock.Receives (r.contentStage sock).socket := by
  by_cases state : r.state = .readContent
  · rw [contentStage_socket state]
    exact fillFrom_receives ..
  · rw [contentStage, if_neg state]
    exact .refl sock

theorem readData_receives (r : UwsgiRequest) (sock : Socket) :
    sock.Receives (r.readData sock).socket :=
  ((r.headerStage_receives sock).andThen varsStage_receives).andThen contentStage_receives

end UwsgiRequest

namespace HttpResponse

theorem receive_receives (r : HttpResponse) (sock : Socket) :
    sock.Receives (r.receive sock).socket := by
  unfold receive
  cases makeRoom r.contentBuffer with
  | error f => exact .refl sock
  | ok b =>
      have received := fillFrom_receives b (toSize (b.toWrite - 1)) sock
      dsimp only
      generalize fillFrom b (toSize (b.toWrite - 1)) sock = o at received
      rcases o with ⟨result, filled, next⟩
      cases result with
      | error e => exact received
      | ok bytes =>
          cases bytes with
          | none => exact received
          | some bytes =>
              dsimp only
              split <;> exact received

theorem readIteration_receives (r : HttpResponse) (sock : Socket) :
    sock.Receives (r.readIteration sock).socket := by
  have received := r.receive_receives sock
  unfold readIteration
  dsimp only
  generalize r.receive sock = o at received
  rcases o with ⟨result, q, next⟩
  cases result with
  | error e => exact received
  | ok found =>
      rcases found with ⟨towrite, bytes⟩
      cases bytes with
      | none => exact received
      | some bytes =>
          dsimp only
          split
          · split <;> exact received
          · exact received

theorem readLoop_receives (fuel : Nat) (r : HttpResponse) (sock : Socket) :
    sock.Receives (readLoop fuel r sock).socket := by
  induction fuel generalizing r sock with
  | zero => exact .refl sock
  | succ fuel ih =>
      have received := r.readIteration_receives sock
      rw [readLoop, Outcome.loop]
      generalize r.readIteration sock = o at received
      rcases o with ⟨result, q, next⟩
      cases result with
      | error e => exact received
      | ok go =>
          cases go with
          | false => exact received
          | true => exact received.trans (ih q next)

theorem readData_receives (r : HttpResponse) (sock : Socket) :
    sock.Receives (r.readData sock).socket := by
  unfold readData
  cases r.startReading with
  | error f => exact .refl sock
  | ok q =>
      dsimp only
      split
      · exact .refl sock
      · exact readLoop_receives ..

end HttpResponse

/-! ## A message on its way -/

/-- A call of `write_data` that was one of a session. -/
theorem writeData_of_writeCall {σ : Type} {writeData : σ → Socket → Outcome σ} {x next : σ}
    {sock later : Socket} (called : writeCall writeData ⟨x, sock, none⟩ = ⟨next, later, none⟩) :
    writeData x sock = ⟨.ok (), next, later⟩ := by
  simp only [writeCall, Session.call, Bool.false_eq_true, Option.isSome_none, or_self,
    ↓reduceIte, Session.mk.injEq] at called
  generalize writeData x sock = o at called
  rcases o with ⟨result, object, socket⟩
  rcases called with ⟨rfl, rfl, alive⟩
  cases result with
  | error e => cases alive
  | ok value => rfl

namespace MessageClass

open HttpBase (Writing)

variable {σ : Type} (c : MessageClass σ) {x : σ} {sock : Socket} {head content : Bytes}

/-- A message that is going to be sent as `head` and `content`. -/
structure Ready (head content : Bytes) (x : σ) : Prop where
  state : (c.base x).state = .ready
  cleared : (c.base x).dataBuffer.Cleared
  ok : (c.base x).contentBuffer.Ok
  start : (c.base x).contentBuffer.gptr = 0
  readable : (c.base x).contentBuffer.readable = content
  prepares : ∃ y, c.prepare x = .ok y ∧ (c.base y).dataBuffer.readable = head

/-- Only the message has been sent, and all of it if it is done. -/
def Emitting (head content : Bytes) (x : σ) (sock : Socket) : Prop :=
  c.Ready head content x ∧ sock.sent = [] ∧ sock.Writable ∨
    Writing head content [] (c.base x) sock

variable {c}

theorem writing_sent (writing : Writing head content [] (c.base x) sock) :
    sock.sent <+: head ++ content := by
  rcases writing.stands with ⟨accepted, sent, stands⟩
  rw [sent]
  exact stands.accepted_first

/-- The bytes of the peer do not matter for what is sent. -/
theorem Emitting.of_sent (emitting : c.Emitting head content x sock) {other : Socket}
    (sent : other.sent = sock.sent) (acceptances : other.acceptances = sock.acceptances) :
    c.Emitting head content x other := by
  have writable (before : sock.Writable) : other.Writable := fun k => acceptances ▸ before k
  rcases emitting with ⟨ready, nothing, before⟩ | writing
  · exact .inl ⟨ready, sent.trans nothing, writable before⟩
  · refine .inr ⟨writing.dataOk, writing.contentOk, writable writing.writable, ?_⟩
    rw [sent]
    exact writing.stands

/-- A call of `write_data`. -/
theorem Emitting.writeData (emitting : c.Emitting head content x sock) :
    ∃ next later, c.writeData x sock = ⟨.ok (), next, later⟩ ∧ sock.Sends later ∧
      Writing head content [] (c.base next) later := by
  rcases emitting with ⟨ready, nothing, writable⟩ | writing
  · rcases ready.prepares with ⟨y, prepared, same⟩
    rcases writeCall_ready ready.state ready.cleared ready.ok ready.start writable prepared with
      ⟨_, next, count, called, writing⟩
    rw [ready.readable, nothing, same] at called writing
    exact ⟨next, _, writeData_of_writeCall called, offerRest_iterate_sends .., writing⟩
  · rcases writeCall_writing writing with ⟨next, count, called, writingOn, _⟩
    exact ⟨next, _, writeData_of_writeCall called, offerRest_iterate_sends .., writingOn⟩

end MessageClass

end LibTasks.Net

import LibTasks.Net.HttpDelivery

/-!
# Bytes behind a response

A response is followed on its connection by further bytes.  `read_data` asks for all the
room that its buffer has, and compares counters for equality after each read.  So it is
done in the call that receives the last byte of the content, with the content alone,
exactly when each read ends in the right place: not behind the response, not inside the
header block where the lines so far announce what was received, and with the response
only if the read got less than it asked for.
-/

namespace LibTasks.Net

open LibTasks.Foundation LibTasks.Tools

namespace Response

open HttpResponse

/-- The next call of `read_data` gets to `DONE` if and only if the last byte of the
content has been received then; and in this case it returns normally with exactly the
content. -/
structure Framed (p : Response) (trailing : Bytes) (s : Session HttpResponse) : Prop where
  done_iff : (readCall s).object.state = .done ↔
    (readCall s).socket.incoming.length ≤ trailing.length
  returns : (readCall s).object.state = .done → (readCall s).failure = none
  length : (readCall s).object.state = .done →
    (readCall s).object.contentLength = p.body.length
  content : (readCall s).object.state = .done →
    (readCall s).object.contentBuffer.readable = p.body

/-- The iteration receives bytes from behind the response. -/
def Overruns (p : Response) (r : HttpResponse) (sock : Socket) : Prop :=
  r.state ≠ .done ∧ ∃ b bytes rest, r.Arrives sock b bytes rest ∧
    p.headLength + p.body.length < b.pptr + bytes.length

variable {p : Response} {trailing : Bytes} {start r q : HttpResponse} {sock : Socket}
  {b : Buffer}

/-! ## Single iterations -/

/-- The last byte of the content has been received. -/
theorem Arriving.received_iff (arriving : p.Arriving trailing start q sock) :
    sock.incoming.length ≤ trailing.length ↔
      p.headLength + p.body.length ≤ q.contentBuffer.pptr := by
  rw [arriving.stream, List.length_drop, length_linesText, List.length_append]
  unfold headLength
  omega

/-- An iteration keeps the reader on the response, also one that fails. -/
theorem Arriving.step (arriving : p.Arriving trailing (startFields r) q sock) (fresh : r.Fresh) :
    p.Arriving trailing (startFields r) (q.readIteration sock).object
      (q.readIteration sock).socket := by
  obtain tooLarge | ⟨b, e, room, failed⟩ | ⟨b, room, again⟩ | ⟨b, bytes, rest, arrives⟩ :=
    attempt_cases arriving.reading.ok sock
  · rw [readIteration_tooLarge tooLarge]
    exact arriving
  · rw [room.readIteration_failed failed]
    exact arriving.room room
  · rw [room.readIteration_again (room.receive_again again)]
    exact arriving.room room
  · obtain ⟨next, parse⟩ := arriving.parse_ok fresh arrives
    have result := arrives.readIteration_eq arriving.reading parse
    rw [result]
    exact arriving.next result

/-- Where a read that receives something leaves a reader that was not done. -/
theorem Arriving.arrive (arriving : p.Arriving trailing (startFields r) q sock) (fresh : r.Fresh)
    {bytes rest : Bytes} (arrives : q.Arrives sock b bytes rest) (notDone : q.state ≠ .done) :
    ∃ next, q.readIteration sock = ⟨.ok (bytes.length = (roomCall b).len),
        if next.contentBuffer.pptr = next.contentStart + next.contentLength then next.finished
        else next, sock.advance (roomCall b) rest⟩ ∧
      next.Reading ∧ next.contentBuffer.pptr = b.pptr + bytes.length ∧
      next.contentBuffer.pptr < next.contentBuffer.size ∧
      (p.InHead trailing (startFields r) next ∧ next.contentStart = 0 ∧
          next.contentLength = p.announcedAt (b.pptr + bytes.length) ∨
        p.InContent trailing (startFields r) next ∧ next.contentLength = p.body.length) := by
  obtain ⟨next, parse⟩ := arriving.parse_ok fresh arrives
  have parsed := arrives.parsed arriving.reading parse
  have reading := parsed.reading arrives arriving.reading
  obtain ⟨pptr, size, _⟩ := parsed.places arrives
  refine ⟨next, arrives.readIteration_eq arriving.reading parse, reading, pptr, ?_, ?_⟩
  · rw [pptr, size]
    exact arrives.fits
  · rcases arriving.parsed arrives parsed notDone with inHead | inContent
    · refine .inl ⟨inHead, reading.data inHead.state, ?_⟩
      rw [← pptr]
      exact inHead.contentLength_eq fresh
    · exact .inr ⟨inContent, inContent.contentLength_eq fresh⟩

/-- After `DONE` an iteration has no room, or leaves a buffer that is larger than the
content. -/
theorem step_done (reading : q.Reading) (done : q.state = .done) (sock : Socket) :
    q.readIteration sock = ⟨.error (.fault .lengthError), q, sock⟩ ∨
    let next := (q.readIteration sock).object
    next.state = .done ∧ next.contentBuffer.gptr = q.contentBuffer.gptr ∧
      q.contentBuffer.pptr ≤ next.contentBuffer.pptr ∧
      q.contentBuffer.pptr < next.contentBuffer.size := by
  have larger {b : Buffer} (room : Room q.contentBuffer b) : q.contentBuffer.pptr < b.size := by
    have size := room.size
    unfold readBufferSizeBlock at size
    omega
  have idle {b : Buffer} (room : Room q.contentBuffer b) :
      q.state = .done ∧ b.gptr = q.contentBuffer.gptr ∧ q.contentBuffer.pptr ≤ b.pptr ∧
        q.contentBuffer.pptr < b.size :=
    ⟨done, room.gptr, Nat.le_of_eq room.pptr.symm, larger room⟩
  obtain tooLarge | ⟨b, e, room, failed⟩ | ⟨b, room, again⟩ | ⟨b, bytes, rest, arrives⟩ :=
    attempt_cases reading.ok sock
  · exact .inl (readIteration_tooLarge tooLarge)
  · rw [room.readIteration_failed failed]
    exact .inr (idle room)
  · rw [room.readIteration_again (room.receive_again again)]
    exact .inr (idle room)
  · have other : q.state ≠ .readData := by
      rw [done]
      exact nofun
    have parse : parseReceived { q with contentBuffer := received b bytes } =
        (.ok (), { q with contentBuffer := received b bytes }) := if_neg other
    have parsed := arrives.parsed reading parse
    rw [arrives.readIteration_eq reading parse,
      if_neg (parsed.incomplete_of_done arrives reading done)]
    refine .inr ⟨done, arrives.room.gptr, ?_, ?_⟩
    · change q.contentBuffer.pptr ≤ b.pptr + bytes.length
      rw [arrives.room.pptr]
      exact Nat.le_add_right _ _
    · exact larger (b := b) arrives.room

/-! ## Reads that end in the wrong place -/

/-- The reader has missed the end of the content, has taken a part of the header block for
the end, or has a buffer that is larger than the content. -/
def Lost (p : Response) (r : HttpResponse) : Prop :=
  r.state ≠ .done ∧ p.headLength + p.body.length < r.contentBuffer.pptr ∨
  r.state = .done ∧ (r.contentBuffer.gptr = 0 ∨
    r.contentBuffer.gptr = p.headLength ∧
      p.headLength + p.body.length ≤ r.contentBuffer.pptr ∧
      p.headLength + p.body.length < r.contentBuffer.size)

/-- No read brings a lost reader back. -/
theorem Lost.step (lost : p.Lost q) (arriving : p.Arriving trailing (startFields r) q sock)
    (fresh : r.Fresh) : p.Lost (q.readIteration sock).object := by
  rcases lost with ⟨notDone, behind⟩ | ⟨done, wrong⟩
  · left
    obtain tooLarge | ⟨b, e, room, failed⟩ | ⟨b, room, again⟩ | ⟨b, bytes, rest, arrives⟩ :=
      attempt_cases arriving.reading.ok sock
    · rw [readIteration_tooLarge tooLarge]
      exact ⟨notDone, behind⟩
    · rw [room.readIteration_failed failed]
      exact ⟨notDone, room.pptr ▸ behind⟩
    · rw [room.readIteration_again (room.receive_again again)]
      exact ⟨notDone, room.pptr ▸ behind⟩
    · obtain ⟨next, result, _, pptr, _, ⟨inHead, _⟩ | ⟨inContent, length⟩⟩ :=
        arriving.arrive fresh arrives notDone
      · have short := inHead.short
        rw [pptr, arrives.room.pptr] at short
        omega
      · have further : p.headLength + p.body.length < next.contentBuffer.pptr := by
          rw [pptr, arrives.room.pptr]
          omega
        have place := inContent.place
        rw [result, if_neg (by omega)]
        refine ⟨?_, further⟩
        rw [inContent.state]
        exact nofun
  · right
    rcases step_done arriving.reading done sock with stuck | ⟨still, gptr, further, larger⟩
    · rw [stuck]
      exact ⟨done, wrong⟩
    · refine ⟨still, ?_⟩
      rw [gptr]
      rcases wrong with zero | ⟨place, behind, _⟩
      · exact .inl zero
      · exact .inr ⟨place, by omega, by omega⟩

/-- The call that leaves a lost reader has not framed the response. -/
theorem Lost.not_framed {s : Session HttpResponse} (lost : p.Lost (readCall s).object)
    (arriving : p.Arriving trailing start (readCall s).object (readCall s).socket) :
    ¬p.Framed trailing s := by
  intro framed
  have received := framed.done_iff.trans arriving.received_iff
  rcases lost with ⟨notDone, behind⟩ | ⟨done, wrong⟩
  · exact notDone (received.mpr (Nat.le_of_lt behind))
  · have whole := received.mp done
    have length := congrArg List.length (framed.content done)
    have bounded := arriving.reading.ok.pptr
    rw [arriving.reading.ok.length_readable] at length
    unfold headLength at *
    omega

/-- The iteration receives bytes up to a wrong place. -/
def Misframes (p : Response) (r : HttpResponse) (sock : Socket) : Prop :=
  Misses p r sock ∨ Overruns p r sock

/-- After a read that ends in the wrong place the reader is lost, or it is done and the
loop goes on. -/
theorem Arriving.step_misframes (arriving : p.Arriving trailing (startFields r) q sock)
    (fresh : r.Fresh) (misframes : Misframes p q sock) :
    p.Lost (q.readIteration sock).object ∨
      (q.readIteration sock).result = .ok true ∧
        let next := (q.readIteration sock).object
        next.state = .done ∧ next.contentBuffer.gptr = p.headLength ∧
          next.contentBuffer.pptr = p.headLength + p.body.length := by
  rcases misframes with ⟨notDone, b, bytes, rest, arrives, place⟩ |
    ⟨notDone, b, bytes, rest, arrives, behind⟩
  · obtain ⟨next, result, _, pptr, _, ⟨inHead, noContent, length⟩ | ⟨inContent, length⟩⟩ :=
      arriving.arrive fresh arrives notDone
    · have short := inHead.short
      rcases place with ⟨_, early⟩ | ⟨ends, _⟩
      · rw [result, if_pos (by omega)]
        exact .inl (.inr ⟨rfl, .inl noContent⟩)
      · omega
    · have beyond := inContent.behind
      have start := inContent.place
      rcases place with ⟨short, _⟩ | ⟨ends, full⟩
      · omega
      · rw [result, if_pos (by omega)]
        exact .inr ⟨by simp [full], rfl, start, pptr.trans ends⟩
  · obtain ⟨next, result, _, pptr, _, ⟨inHead, _⟩ | ⟨inContent, length⟩⟩ :=
      arriving.arrive fresh arrives notDone
    · have short := inHead.short
      omega
    · have start := inContent.place
      rw [result, if_neg (by omega)]
      refine .inl (.inl ⟨?_, pptr ▸ behind⟩)
      rw [inContent.state]
      exact nofun

/-- A reader that is lost after an iteration is lost at the end of the loop. -/
theorem Arriving.loop_lost (arriving : p.Arriving trailing (startFields r) q sock)
    (fresh : r.Fresh) (lost : p.Lost (q.readIteration sock).object) (left : Nat) :
    p.Lost (readLoop (left + 1) q sock).object :=
  (Outcome.loop_keeps
    (P := fun q sock => p.Arriving trailing (startFields r) q sock ∧ p.Lost q)
    (fun holds => ⟨holds.1.step fresh, holds.2.step holds.1 fresh⟩) left
    ⟨arriving.step fresh, lost⟩).2

/-- A loop that goes on after `DONE` loses the reader or fails. -/
theorem Arriving.loop_done (arriving : p.Arriving trailing (startFields r) q sock)
    (fresh : r.Fresh) (done : q.state = .done) (gptr : q.contentBuffer.gptr = p.headLength)
    (pptr : q.contentBuffer.pptr = p.headLength + p.body.length) (left : Nat) :
    let o := readLoop left q sock
    p.Lost o.object ∨ o.object.state = .done ∧ o.result ≠ .ok () := by
  cases left with
  | zero =>
      refine .inr ⟨done, fun returns => ?_⟩
      cases returns
  | succ left =>
      rcases step_done arriving.reading done sock with stuck | ⟨still, same, further, larger⟩
      · right
        rw [readLoop, Outcome.loop, stuck]
        refine ⟨done, fun returns => ?_⟩
        cases returns
      · left
        rw [pptr] at further larger
        apply arriving.loop_lost fresh
        exact .inr ⟨still, .inr ⟨same.trans gptr, further, larger⟩⟩

/-- A loop with a read that ends in the wrong place leaves a lost reader or fails after
`DONE`. -/
theorem Arriving.loop_misframes (arriving : p.Arriving trailing (startFields r) q sock)
    (fresh : r.Fresh) (misframes : Misframes p q sock) (left : Nat) :
    let o := readLoop (left + 1) q sock
    p.Lost o.object ∨ o.object.state = .done ∧ o.result ≠ .ok () := by
  rcases arriving.step_misframes fresh misframes with lost | ⟨goes, done, gptr, pptr⟩
  · exact .inl (arriving.loop_lost fresh lost left)
  · have rest : readLoop (left + 1) q sock =
        readLoop left (q.readIteration sock).object (q.readIteration sock).socket := by
      rw [readLoop, Outcome.loop, goes]
    rw [rest]
    exact (arriving.step fresh).loop_done fresh done gptr pptr left

/-! ## Reads that end in the right place -/

/-- The reader has not received all of the response. -/
structure OnTime (p : Response) (trailing : Bytes) (start r : HttpResponse) (sock : Socket) :
    Prop where
  arriving : p.Arriving trailing start r sock
  running : r.state ≠ .done
  short : r.contentBuffer.pptr < p.headLength + p.body.length

/-- The reader has received the response and nothing more. -/
structure Complete (p : Response) (trailing : Bytes) (start r : HttpResponse) (sock : Socket) :
    Prop where
  arriving : p.Arriving trailing start r sock
  received : p.Received start r
  place : r.contentBuffer.pptr = p.headLength + p.body.length

/-- A read that ends in the right place leaves the reader on time, or ends the loop with
the response. -/
theorem OnTime.step (onTime : p.OnTime trailing (startFields r) q sock) (fresh : r.Fresh)
    (right : ¬Misframes p q sock) :
    p.OnTime trailing (startFields r) (q.readIteration sock).object
        (q.readIteration sock).socket ∨
      (q.readIteration sock).result = .ok false ∧
        p.Complete trailing (startFields r) (q.readIteration sock).object
          (q.readIteration sock).socket := by
  have arriving := onTime.arriving.step fresh
  have idle {b : Buffer} (room : Room q.contentBuffer b) :
      b.pptr < p.headLength + p.body.length := room.pptr ▸ onTime.short
  obtain tooLarge | ⟨b, e, room, failed⟩ | ⟨b, room, again⟩ | ⟨b, bytes, rest, arrives⟩ :=
    attempt_cases onTime.arriving.reading.ok sock
  · rw [readIteration_tooLarge tooLarge]
    exact .inl onTime
  · rw [room.readIteration_failed failed] at arriving ⊢
    exact .inl ⟨arriving, onTime.running, idle room⟩
  · rw [room.readIteration_again (room.receive_again again)] at arriving ⊢
    exact .inl ⟨arriving, onTime.running, idle room⟩
  · have misses := fun place => right (.inl ⟨onTime.running, b, bytes, rest, arrives, place⟩)
    have overruns := fun place => right (.inr ⟨onTime.running, b, bytes, rest, arrives, place⟩)
    obtain ⟨next, result, reading, pptr, room, ⟨inHead, noContent, length⟩ | ⟨inContent, length⟩⟩ :=
      onTime.arriving.arrive fresh arrives onTime.running
    · have short := inHead.short
      have incomplete : next.contentBuffer.pptr ≠ next.contentStart + next.contentLength := by
        intro whole
        exact misses (.inl ⟨by omega, by omega⟩)
      rw [result, if_neg incomplete] at arriving ⊢
      refine .inl ⟨arriving, ?_, Nat.lt_of_lt_of_le short (Nat.le_add_right _ _)⟩
      rw [inHead.state]
      exact nofun
    · have place := inContent.place
      by_cases whole : next.contentBuffer.pptr = next.contentStart + next.contentLength
      · have part : bytes.length ≠ (roomCall b).len := fun full =>
          misses (.inr ⟨by omega, full⟩)
        rw [result, if_pos whole] at arriving ⊢
        refine .inr ⟨by simp [part], arriving, inContent.received reading room whole length, ?_⟩
        change next.contentBuffer.pptr = _
        omega
      · have inside : next.contentBuffer.pptr < p.headLength + p.body.length := by
          have notBehind := Nat.not_lt.mp overruns
          omega
        rw [result, if_neg whole] at arriving ⊢
        refine .inl ⟨arriving, ?_, inside⟩
        rw [inContent.state]
        exact nofun

/-- A loop in which every read ends in the right place. -/
theorem OnTime.loop (onTime : p.OnTime trailing (startFields r) q sock) (fresh : r.Fresh)
    (fuel : Nat)
    (right : ∀ head ∈ Outcome.loopHeads readIteration fuel q sock, ¬Misframes p head.1 head.2) :
    let o := readLoop fuel q sock
    p.OnTime trailing (startFields r) o.object o.socket ∨
      o.result = .ok () ∧ p.Complete trailing (startFields r) o.object o.socket :=
  Outcome.loop_until (fun holds right => holds.step fresh right) fuel onTime right

/-! ## Runs -/

/-- What a call leaves. -/
theorem readCall_running {s : Session HttpResponse}
    (running : ¬(s.object.done ∨ s.failure.isSome)) (started : s.object.startReading = .ok q) :
    let o := readLoop (s.socket.incoming.length + 1) q s.socket
    (readCall s).object = o.object ∧ (readCall s).socket = o.socket ∧
      ((readCall s).failure = none ↔ o.result = .ok ()) := by
  have undone : s.object.done = false := Bool.eq_false_iff.mpr (not_or.mp running).1
  rw [readCall, Session.call, if_neg running, readData_running undone started]
  refine ⟨rfl, rfl, ?_⟩
  dsimp only
  split
  · next ok => simp [ok]
  · next e failed => simp [failed]

/-- A call in which a read ends in the wrong place does not frame the response. -/
theorem Arriving.not_framed {s : Session HttpResponse} {head : HttpResponse × Socket}
    (running : ¬(s.object.done ∨ s.failure.isSome)) (started : s.object.startReading = .ok q)
    (arriving : p.Arriving trailing (startFields r) q s.socket) (fresh : r.Fresh)
    (member : head ∈ heads s) (there : p.Arriving trailing (startFields r) head.1 head.2)
    (misframes : Misframes p head.1 head.2) : ¬p.Framed trailing s := by
  obtain ⟨object, socket, failure⟩ := readCall_running running started
  have last := Outcome.loop_keeps (fun holds => Arriving.step holds fresh)
    s.socket.incoming.length (arriving.step fresh)
  rw [heads_running running started] at member
  obtain ⟨left, same⟩ := Outcome.loop_of_head member
  have outcome := there.loop_misframes fresh misframes left
  dsimp only at outcome
  rw [readLoop, ← same] at outcome
  change p.Arriving trailing _ (readLoop _ q s.socket).object (readLoop _ q s.socket).socket at last
  rw [← object, ← socket] at last
  rcases outcome with lost | ⟨done, failed⟩
  · apply Lost.not_framed _ last
    rw [object]
    exact lost
  · intro framed
    rw [← readLoop, ← object] at done
    exact failed (failure.mp (framed.returns done))

/-- A call in which every read ends in the right place frames the response. -/
theorem OnTime.framed {s : Session HttpResponse}
    (running : ¬(s.object.done ∨ s.failure.isSome)) (started : s.object.startReading = .ok q)
    (onTime : p.OnTime trailing (startFields r) q s.socket) (fresh : r.Fresh)
    (right : ∀ head ∈ heads s, ¬Misframes p head.1 head.2) :
    p.Framed trailing s ∧ ((readCall s).object.state ≠ .done →
      p.OnTime trailing (startFields r) (readCall s).object (readCall s).socket) := by
  obtain ⟨object, socket, failure⟩ := readCall_running running started
  rw [heads_running running started] at right
  have outcome := onTime.loop fresh _ right
  dsimp only at outcome
  rw [← object, ← socket, ← failure] at outcome
  rcases outcome with later | ⟨returns, complete⟩
  · have absent {P : Prop} (done : (readCall s).object.state = .done) : P :=
      absurd done later.running
    refine ⟨⟨?_, absent, absent, absent⟩, fun _ => later⟩
    rw [later.arriving.received_iff]
    exact iff_of_false later.running (Nat.not_le.mpr later.short)
  · have received := complete.received
    refine ⟨⟨?_, fun _ => returns, fun _ => ?_, fun _ => received.readable⟩, ?_⟩
    · rw [complete.arriving.received_iff]
      exact iff_of_true received.state_eq (Nat.le_of_eq complete.place.symm)
    · rw [← p.length, ← said_announcement p fresh]
      exact congrArg (·.contentLength) received.fields
    · exact fun running => absurd received.state_eq running

/-- A new response is on time. -/
theorem onTime_of_fresh (p : Response) (fresh : r.Fresh)
    (stream : sock.incoming = p.bytes ++ trailing) (started : r.startReading = .ok q) :
    p.OnTime trailing (startFields r) q sock := by
  have arriving := p.arriving_of_fresh fresh stream started
  rw [fresh.startReading_eq] at started
  cases started
  exact ⟨arriving, nofun, Nat.lt_of_lt_of_le (Nat.succ_pos _) (Nat.le_add_right _ _)⟩

/-- As long as every read ends in the right place, each call starts on time. -/
theorem onTime_run (p : Response) (fresh : r.Fresh)
    (stream : sock.incoming = p.bytes ++ trailing)
    (right : ∀ n, ∀ head ∈ heads (readCall^[n] ⟨r, sock, none⟩), ¬Misframes p head.1 head.2)
    (n : Nat) :
    let s := readCall^[n] ⟨r, sock, none⟩
    ¬(s.object.done ∨ s.failure.isSome) →
      ∃ q, s.object.startReading = .ok q ∧ p.OnTime trailing (startFields r) q s.socket := by
  induction n with
  | zero =>
      exact fun _ =>
        ⟨_, fresh.startReading_eq, p.onTime_of_fresh fresh stream fresh.startReading_eq⟩
  | succ n ih =>
      have now := right n
      rw [Function.iterate_succ_apply']
      generalize readCall^[n] ⟨r, sock, none⟩ = s at ih now
      intro next running
      by_cases ended : s.object.done ∨ s.failure.isSome
      · have same : next = s := Session.call_ended ended
        rw [same] at running
        exact absurd ended running
      · obtain ⟨q, started, onTime⟩ := ih ended
        have undone : next.object.state ≠ .done := fun done =>
          running (.inl (decide_eq_true done))
        have later := (onTime.framed ended started fresh now).2 undone
        exact ⟨next.object, if_neg later.arriving.reading.begun, later⟩

/-- In every run of calls that reads a well-formed response and the bytes that follow it,
however they are split, each call frames the response exactly when no read ends in the
wrong place. -/
theorem framed_iff (p : Response) (fresh : r.Fresh)
    (stream : sock.incoming = p.bytes ++ trailing) :
    (∀ n, let s := readCall^[n] ⟨r, sock, none⟩
      ¬(s.object.done ∨ s.failure.isSome) → p.Framed trailing s) ↔
    ∀ n, ∀ head ∈ heads (readCall^[n] ⟨r, sock, none⟩), ¬Misframes p head.1 head.2 := by
  constructor
  · intro framed n head member misframes
    have start : ∃ q, r.startReading = .ok q ∧ p.Arriving trailing (startFields r) q sock :=
      ⟨_, fresh.startReading_eq, p.arriving_of_fresh fresh stream fresh.startReading_eq⟩
    have keeps := fun {q sock go next later}
      (holds : p.Arriving trailing (startFields r) q sock)
      (result : q.readIteration sock = ⟨.ok go, next, later⟩) => holds.next result
    have there := run_rule keeps (fun holds => holds.reading.begun) sock start n head member
    have starts := session_rule keeps (fun holds => holds.reading.begun) sock start n
    have call := framed n
    generalize readCall^[n] ⟨r, sock, none⟩ = s at *
    have running : ¬(s.object.done ∨ s.failure.isSome) := by
      intro ended
      rw [heads, if_pos ended] at member
      cases member
    have alive : s.failure = none := by
      rw [not_or, Option.not_isSome_iff_eq_none] at running
      exact running.2
    obtain ⟨q, started, arriving⟩ := starts alive
    exact arriving.not_framed running started fresh member there misframes (call running)
  · intro right n s running
    obtain ⟨q, started, onTime⟩ := p.onTime_run fresh stream right n running
    exact (onTime.framed running started fresh (right n)).1

/-- A response with a content of three bytes. -/
def okResponse : Response where
  statusLine := text "HTTP/1.0 200 OK"
  headerLines := [text "Content-Length: 3"]
  body := text "yes"
  proper := by
    intro line member
    simp only [List.mem_cons, List.not_mem_nil, or_false] at member
    rcases member with rfl | rfl
    · exact ⟨by decide, by decide, by decide, by decide⟩
    · exact ⟨by decide, by decide, by decide, by decide⟩
  version := by decide
  code := by decide
  headers := by decide
  announced := by decide
  plain := by decide
  length := by decide

/-- The response and one more byte arrive at once. -/
def crowdedSocket : Socket where
  incoming := okResponse.bytes ++ text "x"
  arrivals := fun _ => .deliver 64

theorem framed_crowded :
    (∀ n, let s := readCall^[n] ⟨{}, crowdedSocket, none⟩
      ¬(s.object.done ∨ s.failure.isSome) → okResponse.Framed (text "x") s) ↔
    ∀ n, ∀ head ∈ heads (readCall^[n] ⟨{}, crowdedSocket, none⟩),
      ¬Misframes okResponse head.1 head.2 :=
  framed_iff okResponse fresh_default rfl

/-- The call that receives the whole response and the byte behind it is not done, and
there is nothing left to read. -/
theorem not_framed_crowded :
    ¬okResponse.Framed (text "x") ⟨{}, crowdedSocket, none⟩ ∧
      (readCall ⟨{}, crowdedSocket, none⟩).object.state = .readContent ∧
      (readCall ⟨{}, crowdedSocket, none⟩).socket.incoming = [] ∧
      (readCall ⟨{}, crowdedSocket, none⟩).failure = none := by
  have state : (readCall ⟨{}, crowdedSocket, none⟩).object.state = .readContent := by
    decide +kernel
  have nothing : (readCall ⟨{}, crowdedSocket, none⟩).socket.incoming = [] := by
    decide +kernel
  refine ⟨fun framed => ?_, state, nothing, by decide +kernel⟩
  have done := framed.done_iff.mpr (by rw [nothing]; exact Nat.zero_le _)
  cases state.symm.trans done

end Response

end LibTasks.Net

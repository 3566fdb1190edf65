import LibTasks.Net.HttpTrailing
import LibTasks.Net.ResponseUses

/-!
# A response object that is used again

`http_sender` clears its response before it reads the next one into it.  Where every read
ends in the right place, a cleared response receives what a new one receives, whatever
it was used for.  But `clear` does not touch `m_content_istream`: once an extraction has
found the end of a content, the stream gives nothing of the contents that follow.
-/

namespace LibTasks.Net

open LibTasks.Foundation LibTasks.Tools

namespace Response

open HttpResponse

variable {p : Response} {trailing : Bytes} {r q : HttpResponse} {sock : Socket} {base : Nat}

/-! ## A response is read to its end -/

theorem OnTime.waiting (onTime : p.OnTime trailing (startFields r) q sock) :
    sock.incoming ≠ [] := by
  intro nothing
  have received := onTime.arriving.received_iff.mp (by rw [nothing]; exact Nat.zero_le _)
  exact Nat.not_le.mpr onTime.short received

/-- An iteration on a healthy connection, if its read ends in the right place. -/
theorem OnTime.iterate (onTime : p.OnTime trailing (startFields r) q sock) (fresh : r.Fresh)
    (bounded : Bounded base q.contentBuffer) (healthy : sock.Healthy)
    (small : base + 5120 * p.bytes.length + 10240 ≤ maxSize) (right : ¬Misframes p q sock) :
    ∃ go next later, q.readIteration sock = ⟨.ok go, next, later⟩ ∧ sock.Advances later ∧
      sock.reads.length < later.reads.length ∧
      (go = true → later.incoming.length < sock.incoming.length) ∧
      (p.OnTime trailing (startFields r) next later ∧ Bounded base next.contentBuffer ∨
        go = false ∧ p.Complete trailing (startFields r) next later) := by
  have step := onTime.step fresh right
  have reading := onTime.arriving.reading
  have place : base + 5120 * q.contentBuffer.pptr + 10240 ≤ maxSize := by
    have short := onTime.short
    rw [p.length_bytes] at small
    omega
  obtain ⟨b, room, length, -, ⟨again, advances⟩ | ⟨bytes, rest, arrives, advances⟩⟩ :=
    bounded.attempt reading.ok healthy onTime.waiting place
  · have result := room.readIteration_again (room.receive_again again)
    rw [result] at step
    refine ⟨false, _, _, result, advances, by simp, fun goes => (by cases goes), ?_⟩
    rcases step with later | ⟨-, complete⟩
    · exact .inl ⟨later, .of_room room length⟩
    · exact .inr ⟨rfl, complete⟩
  · obtain ⟨next, parse⟩ := onTime.arriving.parse_ok fresh arrives
    have result := arrives.readIteration_eq reading parse
    rw [result] at step
    refine ⟨_, _, _, result, advances, by simp, fun _ => ?_, ?_⟩
    · have some := List.length_pos_iff.mpr arrives.nonempty
      rw [Socket.advance_incoming, arrives.stream, List.length_append]
      omega
    · rcases step with later | ⟨stops, complete⟩
      · have incomplete : next.contentBuffer.pptr ≠ next.contentStart + next.contentLength := by
          intro whole
          apply later.running
          rw [if_pos whole]
          rfl
        refine .inl ⟨later, ?_⟩
        rw [if_neg incomplete]
        exact .of_arrives arrives length (arrives.parsed reading parse)
      · exact .inr ⟨Except.ok.inj stops, complete⟩

/-- A call on a healthy connection, if its reads end in the right places. -/
theorem OnTime.readLoop_returns (onTime : p.OnTime trailing (startFields r) q sock)
    (fresh : r.Fresh) (bounded : Bounded base q.contentBuffer) (healthy : sock.Healthy)
    (small : base + 5120 * p.bytes.length + 10240 ≤ maxSize) {fuel : Nat}
    (enough : sock.incoming.length < fuel)
    (right : ∀ head ∈ Outcome.loopHeads readIteration fuel q sock, ¬Misframes p head.1 head.2) :
    ∃ next later, readLoop fuel q sock = ⟨.ok (), next, later⟩ ∧ sock.Advances later ∧
      sock.reads.length < later.reads.length ∧
      (p.OnTime trailing (startFields r) next later ∧ Bounded base next.contentBuffer ∨
        p.Complete trailing (startFields r) next later) := by
  induction fuel generalizing q sock with
  | zero => exact absurd enough (Nat.not_lt_zero _)
  | succ fuel ih =>
      rw [Outcome.loopHeads, List.forall_mem_cons] at right
      obtain ⟨go, next, later, result, advances, clock, received, outcome⟩ :=
        onTime.iterate fresh bounded healthy small right.1
      rw [readLoop, Outcome.loop, result]
      cases go with
      | false => exact ⟨next, later, rfl, advances, clock, outcome.imp_right And.right⟩
      | true =>
          have shorter := received rfl
          rcases outcome with ⟨onTimeThen, boundedThen⟩ | ⟨stops, -⟩
          · simp only [result] at right
            have healthyThen : later.Healthy := fun k => advances.arrivals ▸ healthy k
            obtain ⟨final, last, returns, further, clockThen, outcome⟩ :=
              ih onTimeThen boundedThen healthyThen (by omega) right.2
            exact ⟨final, last, returns, advances.trans further, Nat.lt_trans clock clockThen,
              outcome⟩
          · cases stops

/-- Between two calls on a healthy connection. -/
structure Underway (p : Response) (trailing : Bytes) (base : Nat) (start : HttpResponse)
    (arrivals : Nat → Arrival) (s : Session HttpResponse) : Prop where
  alive : s.failure = none
  arrivals : s.socket.arrivals = arrivals
  place : p.OnTime trailing start s.object s.socket ∧ Bounded base s.object.contentBuffer ∨
    p.Complete trailing start s.object s.socket

theorem Underway.call {arrivals : Nat → Arrival} {s : Session HttpResponse}
    (underway : p.Underway trailing base (startFields r) arrivals s) (fresh : r.Fresh)
    (healthy : s.socket.Healthy) (small : base + 5120 * p.bytes.length + 10240 ≤ maxSize)
    (running : s.object.state ≠ .done) (right : ∀ head ∈ heads s, ¬Misframes p head.1 head.2) :
    p.Underway trailing base (startFields r) arrivals (readCall s) ∧
      s.socket.Advances (readCall s).socket ∧
      s.socket.reads.length < (readCall s).socket.reads.length := by
  obtain ⟨object, socket, failure⟩ := s
  have alive : failure = none := underway.alive
  subst alive
  rcases underway.place with ⟨onTime, bounded⟩ | complete
  · have undone : object.done = false := decide_eq_false running
    have begun : object.startReading = .ok object := if_neg onTime.arriving.reading.begun
    have going : ¬(object.done ∨ (none : Option Failure).isSome) := by simp [undone]
    rw [heads_running going begun] at right
    obtain ⟨next, later, returns, advances, clock, place⟩ :=
      onTime.readLoop_returns fresh bounded healthy small (Nat.lt_succ_self _) right
    have called : readCall ⟨object, socket, none⟩ = ⟨next, later, none⟩ :=
      Session.call_ok undone ((readData_running undone begun socket).trans returns)
    rw [called]
    exact ⟨⟨rfl, advances.arrivals.trans underway.arrivals, place⟩, advances, clock⟩
  · exact absurd complete.received.state_eq running

/-- On a healthy connection that keeps delivering, a response is received as a whole if
every read ends in the right place. -/
theorem endsAs_complete (p : Response) (fresh : r.Fresh)
    (stream : sock.incoming = p.bytes ++ trailing) (healthy : sock.Healthy) (fair : sock.Fair)
    (small : r.contentBuffer.storage.length + 5120 * p.bytes.length + 10240 ≤ maxSize)
    (right : ∀ n, ∀ head ∈ heads (readCall^[n] ⟨r, sock, none⟩), ¬Misframes p head.1 head.2) :
    ∃ final, EndsAs readCall ⟨r, sock, none⟩ final ∧ final.failure = none ∧
      p.Complete trailing (startFields r) final.object final.socket := by
  obtain ⟨q, started⟩ : ∃ q, r.startReading = .ok q := ⟨_, fresh.startReading_eq⟩
  have onTime := p.onTime_of_fresh fresh stream started
  have rightOn := heads_started fresh started right
  let good (s : Session HttpResponse) : Prop := (∃ n, readCall^[n] ⟨q, sock, none⟩ = s) ∧
    p.Underway trailing r.contentBuffer.storage.length (startFields r) sock.arrivals s
  have step : ∀ s, good s → ¬s.object.state = .done → good (readCall s) ∧
      s.socket.Advances (readCall s).socket ∧
      s.socket.reads.length < (readCall s).socket.reads.length := by
    rintro s ⟨⟨n, rfl⟩, underway⟩ running
    have stillHealthy : (readCall^[n] ⟨q, sock, none⟩).socket.Healthy := fun k =>
      underway.arrivals ▸ healthy k
    obtain ⟨next, advances, clock⟩ :=
      underway.call fresh stillHealthy small running (rightOn n)
    exact ⟨⟨⟨n + 1, Function.iterate_succ_apply' _ _ _⟩, next⟩, advances, clock⟩
  have progress : FairProgress readCall good (fun s => s.object.state = .done)
      (fun s => s.socket.reads.length) (fun s => s.socket.incoming.length)
      (fun t => ∃ n, sock.arrivals t = .deliver n) := by
    constructor
    · exact fun s isGood running => (step s isGood running).1
    · exact fun s isGood running => (step s isGood running).2.2
    · exact fun s isGood running => (step s isGood running).2.1.incoming
    · rintro s isGood running t before behind ⟨n, delivery⟩
      exact (step s isGood running).2.1.delivered t n before behind
        (isGood.2.arrivals ▸ delivery)
  obtain ⟨n, ⟨-, underway⟩, finished⟩ := progress.finishes fair ⟨q, sock, none⟩
    ⟨⟨0, rfl⟩, rfl, rfl, .inl ⟨onTime, bounded_of_fresh fresh started⟩⟩
  have ended : readCall (readCall^[n] ⟨q, sock, none⟩) = readCall^[n] ⟨q, sock, none⟩ :=
    Session.call_ended (.inl (decide_eq_true finished))
  refine ⟨_, EndsAs.of_step_eq (readCall_started fresh started sock).1
    (endsAs_of_fixed rfl ended), underway.alive, ?_⟩
  rcases underway.place with ⟨onTime, -⟩ | complete
  · exact absurd finished onTime.running
  · exact complete

end Response

/-! ## What is seen of a response -/

/-- The ways to take content from a response. -/
inductive Taking where
  | read (size : Nat)
  | extract (count : Nat)

namespace ResponseObject

/-- What `read` and `content_istream` give, one after the other. -/
def takes : ResponseObject → List Taking → List Bytes
  | _, [] => []
  | x, .read size :: rest =>
      (x.response.toHttpBase.read size).1 :: takes (x.use (.read size)) rest
  | x, .extract count :: rest => (x.extract count).1 :: takes (x.use (.extract count)) rest

/-- Two responses that cannot be told apart. -/
structure SeenAlike (x y : ResponseObject) : Prop where
  status : x.response.status = y.response.status
  statusCode : x.response.statusCode = y.response.statusCode
  headers : x.response.headers = y.response.headers
  contentLength : x.response.contentLength = y.response.contentLength
  takes : ∀ takings, x.takes takings = y.takes takings

/-- What content gives to those who take from it, and whether the stream is blocked. -/
def givenBy : Bytes → Bool → List Taking → List Bytes
  | _, _, [] => []
  | content, blocked, .read size :: rest =>
      content.take size :: givenBy (content.drop size) blocked rest
  | content, true, .extract _ :: rest => [] :: givenBy content true rest
  | content, false, .extract count :: rest =>
      content.take count :: givenBy (content.drop count) ((content.take count).length < count) rest

/-- What can be taken depends on the rest of the content and on the stream only. -/
theorem takes_eq {x : ResponseObject} (ok : x.response.contentBuffer.Ok)
    (takings : List Taking) :
    x.takes takings = givenBy x.response.contentBuffer.readable x.blocked takings := by
  induction takings generalizing x with
  | nil => rfl
  | cons taking rest ih =>
      cases taking with
      | read size =>
          obtain ⟨data, moved, left⟩ := ok.read_eq size
          have next := @ih (x.use (.read size)) moved
          rw [takes, givenBy, next, ← data, ← left]
          rfl
      | extract count =>
          obtain ⟨response, blocked⟩ := x
          cases blocked with
          | true =>
              have next := @ih ⟨response, true⟩ ok
              exact congrArg ([] :: ·) next
          | false =>
              obtain ⟨data, moved, left⟩ := ok.read_eq count
              have next := @ih (use ⟨response, false⟩ (.extract count)) moved
              rw [takes, givenBy, next, ← data, ← left]
              rfl

theorem givenBy_nil (blocked : Bool) (takings : List Taking) :
    givenBy [] blocked takings = takings.map fun _ => [] := by
  induction takings generalizing blocked with
  | nil => rfl
  | cons taking rest ih =>
      cases taking with
      | read size => simp [givenBy, ih]
      | extract count => cases blocked <;> simp [givenBy, ih]

/-- A blocked stream shows unless there is no content. -/
theorem givenBy_alike_iff (content : Bytes) (blocked : Bool) :
    (∀ takings, givenBy content blocked takings = givenBy content false takings) ↔
      blocked = false ∨ content = [] := by
  constructor
  · intro same
    cases blocked with
    | false => exact .inl rfl
    | true =>
        have first := same [.extract 1]
        cases content with
        | nil => exact .inr rfl
        | cons c content => cases first
  · rintro (rfl | rfl) takings
    · rfl
    · rw [givenBy_nil, givenBy_nil]

/-! ## A cleared response -/

open HttpResponse
open Response (Misframes startFields)

/-- A response after any calls and `clear`. -/
def cleared (uses : List Use) : ResponseObject := (after uses).use .clear

theorem cleared_fresh (uses : List Use) : (cleared uses).response.Fresh :=
  fresh_clear (after_usable uses).ok

/-- What is seen of two new responses that have received the same, of one with a stream
that may be blocked. -/
theorem seenAlike_iff {p : Response} {trailing : Bytes} {r s q t : HttpResponse}
    {sock later : Socket} (freshFirst : r.Fresh) (freshSecond : s.Fresh)
    (first : p.Complete trailing (startFields r) q sock)
    (second : p.Complete trailing (startFields s) t later) (blocked : Bool) :
    SeenAlike ⟨q, blocked⟩ ⟨t, false⟩ ↔ blocked = false ∨ p.body = [] := by
  obtain ⟨status, code, headers, length⟩ := first.received.seen freshFirst
  obtain ⟨sameStatus, sameCode, sameHeaders, sameLength⟩ := second.received.seen freshSecond
  have taken := @takes_eq ⟨q, blocked⟩ first.arriving.reading.ok
  have sameTaken := @takes_eq ⟨t, false⟩ second.arriving.reading.ok
  dsimp only at taken sameTaken
  rw [first.received.readable] at taken
  rw [second.received.readable] at sameTaken
  rw [← givenBy_alike_iff]
  constructor
  · intro alike takings
    rw [← taken, ← sameTaken]
    exact alike.takes takings
  · intro same
    refine ⟨status.trans sameStatus.symm, code.trans sameCode.symm,
      headers.trans sameHeaders.symm, length.trans sameLength.symm, fun takings => ?_⟩
    rw [taken, sameTaken]
    exact same takings

/-- **Reuse of a response.**  On a healthy connection that keeps delivering, a response is
read into a cleared object and into a new one.  If no read of the two runs ends in the
wrong place, both receive all of it, and the two cannot be told apart exactly if the
stream of the cleared one was not blocked, or there is no content. -/
theorem cleared_like_new_iff (uses : List Use) (p : Response) {trailing : Bytes} {sock : Socket}
    (stream : sock.incoming = p.bytes ++ trailing) (healthy : sock.Healthy) (fair : sock.Fair)
    (small : (cleared uses).response.contentBuffer.storage.length + 5120 * p.bytes.length +
      10240 ≤ maxSize)
    (right : ∀ n, ∀ head ∈ heads (readCall^[n] ⟨(cleared uses).response, sock, none⟩),
      ¬Misframes p head.1 head.2)
    (rightNew : ∀ n, ∀ head ∈ heads (readCall^[n] ⟨{}, sock, none⟩), ¬Misframes p head.1 head.2) :
    ∃ reused new, EndsAs readCall ⟨(cleared uses).response, sock, none⟩ reused ∧
      EndsAs readCall ⟨{}, sock, none⟩ new ∧ reused.failure = none ∧ new.failure = none ∧
      reused.object.state = .done ∧ new.object.state = .done ∧
      (SeenAlike ⟨reused.object, (cleared uses).blocked⟩ ⟨new.object, false⟩ ↔
        (cleared uses).blocked = false ∨ p.body = []) := by
  have smallNew : ({} : HttpResponse).contentBuffer.storage.length + 5120 * p.bytes.length +
      10240 ≤ maxSize := by
    change 0 + _ + _ ≤ _
    omega
  obtain ⟨reused, ends, alive, complete⟩ :=
    p.endsAs_complete (cleared_fresh uses) stream healthy fair small right
  obtain ⟨new, endsNew, aliveNew, completeNew⟩ :=
    p.endsAs_complete fresh_default stream healthy fair smallNew rightNew
  exact ⟨reused, new, ends, endsNew, alive, aliveNew, complete.received.state_eq,
    completeNew.received.state_eq,
    seenAlike_iff (cleared_fresh uses) fresh_default complete completeNew _⟩

end ResponseObject

namespace Response

open HttpResponse

variable {p : Response} {r q : HttpResponse} {sock now : Socket} {b : Buffer} {bytes rest : Bytes}

/-! ## A response that arrives at once -/

/-- The first read gets the whole response, and less than it asks for. -/
theorem Arriving.whole (arriving : p.Arriving [] (startFields r) q now)
    (first : q.contentBuffer.pptr = 0) {size : Nat} (enough : p.bytes.length ≤ size)
    (short : size + 1 < readBufferSizeBlock) (arrivals : ∀ k, now.arrivals k = .deliver size)
    (arrives : q.Arrives now b bytes rest) :
    b.pptr + bytes.length = p.headLength + p.body.length ∧
      bytes.length ≠ (roomCall b).len := by
  obtain ⟨k, delivery, taken⟩ := Socket.deliver_of_read arrives.read
  cases (arrivals _).symm.trans delivery
  have incoming : now.incoming.length = p.bytes.length := by
    rw [arriving.stream, first, List.append_nil]
    rfl
  have asked : readBufferSizeBlock ≤ (roomCall b).len + 1 := by
    have room := arrives.room.size
    have place := arrives.room.pptr
    change _ ≤ b.size - b.pptr - 1 + 1
    omega
  have length : bytes.length = p.bytes.length := by
    rw [taken, List.length_take]
    omega
  have total := p.length_bytes
  have place := arrives.room.pptr
  omega

/-- A response that arrives at once ends in the right place. -/
theorem right_of_whole (p : Response) (fresh : r.Fresh) (stream : sock.incoming = p.bytes)
    {size : Nat} (enough : p.bytes.length ≤ size) (short : size + 1 < readBufferSizeBlock)
    (arrivals : ∀ k, sock.arrivals k = .deliver size) :
    ∀ n, ∀ head ∈ heads (readCall^[n] ⟨r, sock, none⟩), ¬Misframes p head.1 head.2 := by
  have invariant := run_rule (r := r)
    (P := fun q now => p.Arriving [] (startFields r) q now ∧ now.arrivals = sock.arrivals ∧
      (q.contentBuffer.pptr = 0 ∨ q.state = .done))
    (fun {q now go next later} holds result => by
      obtain ⟨arriving, same, place⟩ := holds
      refine ⟨arriving.next result,
        (readIteration_arrivals arriving.reading result).trans same, ?_⟩
      by_cases done : q.state = .done
      · rcases step_done arriving.reading done now with stuck | ⟨still, -⟩
        · rw [stuck] at result
          cases result
        · rw [result] at still
          exact .inr still
      · have first := place.resolve_right done
        obtain tooLarge | ⟨b, e, room, failed⟩ | ⟨b, room, again⟩ | ⟨b, bytes, rest, arrives⟩ :=
          attempt_cases arriving.reading.ok now
        · rw [readIteration_tooLarge tooLarge] at result
          cases result
        · rw [room.readIteration_failed failed] at result
          cases result
        · rw [room.readIteration_again (room.receive_again again)] at result
          cases result
          exact .inl (room.pptr.trans first)
        · have arrivalsNow : ∀ k, now.arrivals k = .deliver size := fun k => same ▸ arrivals k
          obtain ⟨ends, -⟩ := arriving.whole first enough short arrivalsNow arrives
          obtain ⟨final, reached, -, pptr, -, ⟨inHead, -⟩ | ⟨inContent, length⟩⟩ :=
            arriving.arrive fresh arrives done
          · have inside := inHead.short
            omega
          · have start := inContent.place
            rw [reached, if_pos (by omega)] at result
            cases result
            exact .inr rfl)
    (fun holds => holds.1.reading.begun) sock
    ⟨_, fresh.startReading_eq, p.arriving_of_fresh fresh (by rw [List.append_nil]; exact stream)
      fresh.startReading_eq, rfl, .inl rfl⟩
  intro n head member misframes
  obtain ⟨arriving, same, place⟩ := invariant n head member
  have arrivalsNow : ∀ k, head.2.arrivals k = .deliver size := fun k => same ▸ arrivals k
  rcases misframes with ⟨running, b, bytes, rest, arrives, wrong⟩ |
    ⟨running, b, bytes, rest, arrives, behind⟩
  · obtain ⟨ends, part⟩ := arriving.whole (place.resolve_right running) enough short arrivalsNow
      arrives
    rcases wrong with ⟨inside, -⟩ | ⟨-, full⟩
    · omega
    · exact part full
  · obtain ⟨ends, -⟩ := arriving.whole (place.resolve_right running) enough short arrivalsNow
      arrives
    omega

end Response

namespace ResponseObject

open HttpResponse Response

/-- A response with a content of three bytes arrives at once. -/
def wholeSocket : Socket where
  incoming := okResponse.bytes
  arrivals := fun _ => .deliver 64

/-- A response was read, and its content taken in part. -/
def someUses : List Use := [.readData wholeSocket, .extract 1, .read 1]

theorem cleared_like_new_someUses :
    ∃ reused new, EndsAs readCall ⟨(cleared someUses).response, wholeSocket, none⟩ reused ∧
      EndsAs readCall ⟨{}, wholeSocket, none⟩ new ∧ reused.failure = none ∧
      new.failure = none ∧ reused.object.state = .done ∧ new.object.state = .done ∧
      (SeenAlike ⟨reused.object, (cleared someUses).blocked⟩ ⟨new.object, false⟩ ↔
        (cleared someUses).blocked = false ∨ okResponse.body = []) :=
  cleared_like_new_iff someUses okResponse (List.append_nil _).symm (fun _ => .inr ⟨64, rfl⟩)
    (fun k => ⟨k, Nat.le_refl k, 64, rfl⟩) (by decide +kernel)
    (right_of_whole okResponse (cleared_fresh someUses) rfl (by decide) (by decide) fun _ => rfl)
    (right_of_whole okResponse fresh_default rfl (by decide) (by decide) fun _ => rfl)

/-- After an extraction that found the end, the content of the next response can be read,
but not extracted. -/
theorem cleared_not_like_new :
    let x := after [.readData wholeSocket, .extract 4, .clear, .readData wholeSocket]
    let y := after [.readData wholeSocket]
    x.response.state = .done ∧ y.response.state = .done ∧
      x.takes [.extract 3] = [[]] ∧ y.takes [.extract 3] = [text "yes"] ∧
      x.takes [.read 3] = [text "yes"] := by
  refine ⟨?_, ?_, ?_, ?_, ?_⟩ <;> decide +kernel

end ResponseObject

end LibTasks.Net

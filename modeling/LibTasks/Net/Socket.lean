import Mathlib
import LibTasks.Tools.Buffer

/-!
# `tasks::net::socket`

`socket::read` and `socket::write` of `tasks/net/socket.cpp` on a connected stream
socket.  The peer and the kernel are an environment: a schedule says for every
call what it finds, so that a statement about all schedules is a statement about
every fragmentation, every `EAGAIN` and every disconnect.
-/

namespace LibTasks.Net

open LibTasks.Foundation LibTasks.Tools

/-- The `tasks_error` codes that the modelled functions raise. -/
inductive TasksError where
  | socketWrite
  | socketRead
  | socketNocon
  | httpNotImpl
  | httpNoContentLength
  | httpInvalidStatusCode
  | httpInvalidHeader
  | uwsgiHeaderError
  | uwsgiNotImpl
  | socketSocket
  | socketSockoptNosigpipe
  | socketConnect
  | socketFnctl
  | socketNohost
  | httpSenderInvalidRemote
  deriving DecidableEq, Repr

/-- `tasks_exception`. -/
structure TasksException where
  error : TasksError
  what : String
  sysErrno : Int := 0
  deriving DecidableEq, Repr

/-- Why a call did not return normally. -/
inductive Failure where
  | exception (e : TasksException)
  | fault (f : Fault)
  deriving DecidableEq, Repr

/-- What a call of `recvfrom` finds. -/
inductive Arrival where
  /-- No data: `EAGAIN`. -/
  | again
  /-- At least one byte, and `n` if there are so many. -/
  | deliver (n : Nat)
  /-- The peer has closed the connection. -/
  | closed
  /-- Any other error, with its `strerror`. -/
  | failed (errno : Int) (reason : String)
  deriving DecidableEq, Repr

/-- What a call of `sendto` finds. -/
inductive Acceptance where
  | again
  /-- Room for at least one byte, and for `n` if so many are offered. -/
  | accept (n : Nat)
  | failed (errno : Int) (reason : String)
  deriving DecidableEq, Repr

/-- A read, with the memory it writes to: the offset of the target in a block,
the requested length, and the logical and the real size of that block. -/
structure ReadCall where
  offset : Nat
  len : Nat
  size : Nat
  capacity : Nat
  deriving DecidableEq, Repr

/-- A connected socket and its environment. -/
structure Socket where
  fd : Int := 0
  /-- The bytes of the peer that have not been read yet. -/
  incoming : Bytes := []
  arrivals : Nat → Arrival := fun _ => .again
  /-- All reads so far; their number is the time of the next one. -/
  reads : List ReadCall := []
  /-- The bytes that `sendto` has accepted so far. -/
  sent : Bytes := []
  acceptances : Nat → Acceptance := fun _ => .again
  writes : Nat := 0

/-- The outcome of a call: its result, and the state it leaves, which is kept
when an exception is raised. -/
structure Outcome (σ : Type) (α : Type := Unit) where
  result : Except Failure α
  object : σ
  socket : Socket

/-- Go on after a call that returned normally. -/
def Outcome.andThen {σ : Type} (o : Outcome σ) (next : σ → Socket → Outcome σ) : Outcome σ :=
  match o.result with
  | .error _ => o
  | .ok () => next o.object o.socket

@[simp] theorem Outcome.andThen_ok {σ : Type} (object : σ) (sock : Socket)
    (next : σ → Socket → Outcome σ) :
    Outcome.andThen ⟨.ok (), object, sock⟩ next = next object sock := rfl

@[simp] theorem Outcome.andThen_error {σ : Type} (e : Failure) (object : σ) (sock : Socket)
    (next : σ → Socket → Outcome σ) :
    Outcome.andThen ⟨.error e, object, sock⟩ next = ⟨.error e, object, sock⟩ := rfl

/-- A loop whose step says whether it goes on. -/
def Outcome.loop {σ : Type} (step : σ → Socket → Outcome σ Bool) : Nat → σ → Socket → Outcome σ
  | 0, object, sock => ⟨.error (.fault .diverges), object, sock⟩
  | fuel + 1, object, sock =>
      let o := step object sock
      match o.result with
      | .error e => ⟨.error e, o.object, o.socket⟩
      | .ok true => loop step fuel o.object o.socket
      | .ok false => ⟨.ok (), o.object, o.socket⟩

/-- The object and the socket wherever such a loop starts a step. -/
def Outcome.loopHeads {σ : Type} (step : σ → Socket → Outcome σ Bool) :
    Nat → σ → Socket → List (σ × Socket)
  | 0, _, _ => []
  | fuel + 1, object, sock =>
      let o := step object sock
      (object, sock) :: match o.result with
        | .ok true => loopHeads step fuel o.object o.socket
        | _ => []

/-- What a step keeps holds wherever the loop starts one, and at its end. -/
theorem Outcome.loop_rule {σ : Type} {step : σ → Socket → Outcome σ Bool}
    {P : σ → Socket → Prop}
    (keeps : ∀ {object sock go next later}, P object sock →
      step object sock = ⟨.ok go, next, later⟩ → P next later)
    (fuel : Nat) {object : σ} {sock : Socket} (start : P object sock) :
    (∀ head ∈ loopHeads step fuel object sock, P head.1 head.2) ∧
      ∀ {next later}, loop step fuel object sock = ⟨.ok (), next, later⟩ → P next later := by
  induction fuel generalizing object sock with
  | zero => exact ⟨nofun, nofun⟩
  | succ fuel ih =>
      rw [loopHeads, loop, List.forall_mem_cons]
      cases result : step object sock with
      | mk outcome next later =>
          match outcome, result with
          | .error e, _ => exact ⟨⟨start, nofun⟩, nofun⟩
          | .ok false, result =>
              refine ⟨⟨start, nofun⟩, fun same => ?_⟩
              cases same
              exact keeps start result
          | .ok true, result =>
              obtain ⟨heads, last⟩ := ih (keeps start result)
              exact ⟨⟨start, heads⟩, last⟩

/-- A loop ends when every step after which it goes on has received something. -/
theorem Outcome.loop_ends {σ : Type} {step : σ → Socket → Outcome σ Bool}
    {P : σ → Socket → Prop}
    (keeps : ∀ {object sock go next later}, P object sock →
      step object sock = ⟨.ok go, next, later⟩ → P next later)
    (ends : ∀ {object sock}, P object sock →
      (step object sock).result ≠ .error (.fault .diverges))
    (receives : ∀ {object sock next later}, P object sock →
      step object sock = ⟨.ok true, next, later⟩ → later.incoming.length < sock.incoming.length)
    {fuel : Nat} {object : σ} {sock : Socket} (start : P object sock)
    (enough : sock.incoming.length < fuel) :
    (loop step fuel object sock).result ≠ .error (.fault .diverges) := by
  induction fuel generalizing object sock with
  | zero => omega
  | succ fuel ih =>
      have sane := ends start
      rw [loop]
      cases result : step object sock with
      | mk outcome next later =>
          rw [result] at sane
          match outcome, result, sane with
          | .error e, _, sane =>
              intro same
              cases same
              exact sane rfl
          | .ok false, _, _ => exact nofun
          | .ok true, result, _ =>
              have shorter := receives start result
              exact ih (keeps start result) (show later.incoming.length < fuel by omega)

/-- A loop fails with a step. -/
theorem Outcome.loop_failed {σ : Type} {step : σ → Socket → Outcome σ Bool} {fuel : Nat}
    {object : σ} {sock : Socket} {e : Failure}
    (failed : (loop step fuel object sock).result = .error e) :
    e = .fault .diverges ∨
      ∃ head ∈ loopHeads step fuel object sock, (step head.1 head.2).result = .error e := by
  induction fuel generalizing object sock with
  | zero =>
      cases failed
      exact .inl rfl
  | succ fuel ih =>
      rw [loop] at failed
      rw [loopHeads]
      cases result : (step object sock).result with
      | error f =>
          simp only [result] at failed
          cases failed
          exact .inr ⟨_, List.mem_cons_self, result⟩
      | ok go =>
          cases go with
          | false =>
              simp only [result] at failed
              cases failed
          | true =>
              simp only [result] at failed
              apply (ih failed).imp_right
              rintro ⟨head, member, same⟩
              exact ⟨head, List.mem_cons_of_mem _ member, same⟩

/-- From where it starts a step, the loop goes on to the same end. -/
theorem Outcome.loop_of_head {σ : Type} {step : σ → Socket → Outcome σ Bool} {fuel : Nat}
    {object : σ} {sock : Socket} {head : σ × Socket}
    (member : head ∈ loopHeads step fuel object sock) :
    ∃ left, loop step fuel object sock = loop step (left + 1) head.1 head.2 := by
  induction fuel generalizing object sock with
  | zero => cases member
  | succ fuel ih =>
      rw [loopHeads] at member
      rcases List.mem_cons.mp member with rfl | later
      · exact ⟨fuel, rfl⟩
      · rw [loop]
        cases result : (step object sock).result with
        | error f => simp [result] at later
        | ok go =>
            cases go with
            | false => simp [result] at later
            | true =>
                simp only [result] at later
                exact ih later

/-- A step that fails ends the loop. -/
theorem Outcome.loop_of_failed {σ : Type} {step : σ → Socket → Outcome σ Bool} {fuel : Nat}
    {object : σ} {sock : Socket} {e : Failure} {head : σ × Socket}
    (member : head ∈ loopHeads step fuel object sock)
    (failed : (step head.1 head.2).result = .error e) :
    (loop step fuel object sock).result = .error e := by
  obtain ⟨left, same⟩ := loop_of_head member
  rw [same, loop]
  simp only [failed]

/-- A loop in which every step keeps `P`, also one that fails, or reaches `R` and ends
the loop. -/
theorem Outcome.loop_until {σ : Type} {step : σ → Socket → Outcome σ Bool}
    {P Q R : σ → Socket → Prop}
    (steps : ∀ {object sock}, P object sock → Q object sock →
      P (step object sock).object (step object sock).socket ∨
        (step object sock).result = .ok false ∧
          R (step object sock).object (step object sock).socket)
    (fuel : Nat) {object : σ} {sock : Socket} (start : P object sock)
    (always : ∀ head ∈ loopHeads step fuel object sock, Q head.1 head.2) :
    let o := loop step fuel object sock
    P o.object o.socket ∨ o.result = .ok () ∧ R o.object o.socket := by
  induction fuel generalizing object sock with
  | zero => exact .inl start
  | succ fuel ih =>
      rw [loopHeads, List.forall_mem_cons] at always
      rw [loop]
      rcases steps start always.1 with next | ⟨stops, reached⟩
      · cases result : (step object sock).result with
        | error e => exact .inl next
        | ok go =>
            cases go with
            | false => exact .inl next
            | true =>
                simp only [result] at always
                exact ih next always.2
      · dsimp only
        rw [stops]
        exact .inr ⟨rfl, reached⟩

/-- What every step keeps, also one that fails, holds of what the loop leaves. -/
theorem Outcome.loop_leaves {σ : Type} {step : σ → Socket → Outcome σ Bool}
    {P : σ → Socket → Prop}
    (keeps : ∀ {object sock}, P object sock →
      P (step object sock).object (step object sock).socket)
    (fuel : Nat) {object : σ} {sock : Socket} (start : P object sock) :
    P (loop step fuel object sock).object (loop step fuel object sock).socket := by
  have kept := loop_until (Q := fun _ _ => True) (R := fun _ _ => False)
    (fun holds _ => .inl (keeps holds)) fuel start fun _ _ => trivial
  exact kept.resolve_right fun ends => ends.2

/-- It is enough that this holds after the first step. -/
theorem Outcome.loop_keeps {σ : Type} {step : σ → Socket → Outcome σ Bool}
    {P : σ → Socket → Prop}
    (keeps : ∀ {object sock}, P object sock →
      P (step object sock).object (step object sock).socket)
    (fuel : Nat) {object : σ} {sock : Socket}
    (first : P (step object sock).object (step object sock).socket) :
    P (loop step (fuel + 1) object sock).object (loop step (fuel + 1) object sock).socket := by
  rw [loop]
  cases result : (step object sock).result with
  | error e => exact first
  | ok go =>
      cases go with
      | false => exact first
      | true => exact loop_leaves keeps fuel first

/-- An object on which a call is made whenever the socket is ready, and the
failure that ended this. -/
structure Session (σ : Type) where
  object : σ
  socket : Socket
  failure : Option Failure := none

/-- The next call, unless the object is done or a call has failed. -/
def Session.call {σ : Type} (step : σ → Socket → Outcome σ) (done : σ → Bool) (s : Session σ) :
    Session σ :=
  if done s.object ∨ s.failure.isSome then
    s
  else
    let o := step s.object s.socket
    { object := o.object
      socket := o.socket
      failure := match o.result with
        | .ok () => none
        | .error e => some e }

namespace Session

variable {σ : Type} {step : σ → Socket → Outcome σ} {done : σ → Bool}

/-- A call that returns normally. -/
theorem call_ok {object next : σ} {sock later : Socket} (running : done object = false)
    (result : step object sock = ⟨.ok (), next, later⟩) :
    call step done ⟨object, sock, none⟩ = ⟨next, later, none⟩ := by
  simp [call, running, result]

/-- A call that fails. -/
theorem call_error {object next : σ} {sock later : Socket} {e : Failure}
    (running : done object = false) (result : step object sock = ⟨.error e, next, later⟩) :
    call step done ⟨object, sock, none⟩ = ⟨next, later, some e⟩ := by
  simp [call, running, result]

/-- A session that is done or has failed stays as it is. -/
theorem call_ended {s : Session σ} (ended : done s.object ∨ s.failure.isSome) :
    call step done s = s :=
  if_pos ended

end Session

namespace Socket

/-- Record a read that leaves `rest` unread. -/
def advance (sock : Socket) (call : ReadCall) (rest : Bytes) : Socket :=
  { sock with incoming := rest, reads := sock.reads ++ [call] }

/-- The exception for a read of zero bytes. -/
def disconnected (sock : Socket) : TasksException where
  error := .socketNocon
  what := "client " ++ toString sock.fd ++ " disconnected"

def readError (sock : Socket) (errno : Int) (reason : String) : TasksException where
  error := .socketRead
  what := "error reading from client file descriptor " ++ toString sock.fd ++ ": " ++ reason
  sysErrno := errno

def writeError (sock : Socket) (errno : Int) (reason : String) : TasksException where
  error := .socketWrite
  what := "error writing to client file descriptor " ++ toString sock.fd ++ ": " ++ reason
  sysErrno := errno

/-- `read`.  The result is `none` for `EAGAIN`, where the code returns -1.  A
request for zero bytes returns zero while data is waiting, which the code takes
for a disconnect. -/
def read (sock : Socket) (call : ReadCall) : Except TasksException (Option Bytes) × Socket :=
  match sock.arrivals sock.reads.length with
  | .again => (.ok none, sock.advance call sock.incoming)
  | .failed errno reason =>
      (.error (sock.readError errno reason), sock.advance call sock.incoming)
  | .closed => (.error sock.disconnected, sock.advance call sock.incoming)
  | .deliver n =>
      if sock.incoming = [] then
        (.ok none, sock.advance call sock.incoming)
      else if call.len = 0 then
        (.error sock.disconnected, sock.advance call sock.incoming)
      else
        let count := min (max n 1) call.len
        (.ok (some (sock.incoming.take count)), sock.advance call (sock.incoming.drop count))

/-- `write`: the number of bytes accepted, and `none` for `EAGAIN`. -/
def write (sock : Socket) (data : Bytes) : Except TasksException (Option Nat) × Socket :=
  let next := { sock with writes := sock.writes + 1 }
  match sock.acceptances sock.writes with
  | .again => (.ok none, next)
  | .failed errno reason => (.error (sock.writeError errno reason), next)
  | .accept n =>
      let count := min (max n 1) data.length
      (.ok (some count), { next with sent := sock.sent ++ data.take count })

/-- No call finds the connection closed or broken. -/
def Healthy (sock : Socket) : Prop :=
  ∀ k, sock.arrivals k = .again ∨ ∃ n, sock.arrivals k = .deliver n

/-- Data is delivered again and again. -/
def Fair (sock : Socket) : Prop :=
  ∀ k, ∃ later, k ≤ later ∧ ∃ n, sock.arrivals later = .deliver n

@[simp] theorem advance_incoming (sock : Socket) (call : ReadCall) (rest : Bytes) :
    (sock.advance call rest).incoming = rest := rfl

@[simp] theorem advance_arrivals (sock : Socket) (call : ReadCall) (rest : Bytes) :
    (sock.advance call rest).arrivals = sock.arrivals := rfl

@[simp] theorem advance_reads (sock : Socket) (call : ReadCall) (rest : Bytes) :
    (sock.advance call rest).reads = sock.reads ++ [call] := rfl

/-- What holds of all reads so far and of one more. -/
theorem forall_reads_advance {P : ReadCall → Prop} {sock : Socket} {call : ReadCall}
    (rest : Bytes) (before : ∀ earlier ∈ sock.reads, P earlier) (now : P call) :
    ∀ other ∈ (sock.advance call rest).reads, P other := by
  intro other member
  cases List.mem_append.mp member with
  | inl earlier => exact before other earlier
  | inr last => exact List.mem_singleton.mp last ▸ now

/-- What a read can do. -/
theorem read_cases (sock : Socket) (call : ReadCall) :
    (∃ e, sock.read call = (.error e, sock.advance call sock.incoming)) ∨
    sock.read call = (.ok none, sock.advance call sock.incoming) ∨
    ∃ bytes rest, bytes ≠ [] ∧ bytes.length ≤ call.len ∧ sock.incoming = bytes ++ rest ∧
      sock.read call = (.ok (some bytes), sock.advance call rest) := by
  unfold read
  cases sock.arrivals sock.reads.length with
  | again => exact .inr (.inl rfl)
  | failed errno reason => exact .inl ⟨_, rfl⟩
  | closed => exact .inl ⟨_, rfl⟩
  | deliver n =>
      dsimp only
      split_ifs with empty zero
      · exact .inr (.inl rfl)
      · exact .inl ⟨_, rfl⟩
      refine .inr (.inr ⟨_, _, ?_, ?_, ?_, rfl⟩)
      · simp only [ne_eq, List.take_eq_nil_iff, empty, or_false]
        omega
      · rw [List.length_take]
        omega
      · exact (List.take_append_drop _ _).symm

/-- On a healthy connection only a request for zero bytes fails. -/
theorem Healthy.read_ne_error {sock : Socket} (healthy : sock.Healthy) {call : ReadCall}
    (positive : 0 < call.len) (e : TasksException) (next : Socket) :
    sock.read call ≠ (.error e, next) := by
  unfold read
  obtain again | ⟨n, delivered⟩ := healthy sock.reads.length
  · simp [again]
  · have nonzero : call.len ≠ 0 := by omega
    simp only [delivered, if_neg nonzero]
    split <;> simp

/-- A delivery makes progress. -/
theorem read_deliver {sock : Socket} (call : ReadCall) {n : Nat}
    (delivered : sock.arrivals sock.reads.length = .deliver n) (waiting : sock.incoming ≠ [])
    (positive : 0 < call.len) :
    sock.read call = (.ok (some (sock.incoming.take (min (max n 1) call.len))),
      sock.advance call (sock.incoming.drop (min (max n 1) call.len))) := by
  have nonzero : call.len ≠ 0 := by omega
  simp [read, delivered, waiting, nonzero]

/-- Bytes are received only by a delivery. -/
theorem deliver_of_read {sock next : Socket} {call : ReadCall} {bytes : Bytes}
    (received : sock.read call = (.ok (some bytes), next)) :
    ∃ n, sock.arrivals sock.reads.length = .deliver n ∧
      bytes = sock.incoming.take (min (max n 1) call.len) := by
  unfold read at received
  cases arrival : sock.arrivals sock.reads.length with
  | again => simp [arrival] at received
  | failed errno reason => simp [arrival] at received
  | closed => simp [arrival] at received
  | deliver n =>
      simp only [arrival] at received
      split_ifs at received with empty zero
      · simp at received
      · simp at received
      · simp only [Prod.mk.injEq, Except.ok.injEq, Option.some.injEq] at received
        exact ⟨n, rfl, received.1.symm⟩

theorem read_again {sock : Socket} {call : ReadCall}
    (again : sock.arrivals sock.reads.length = .again) :
    sock.read call = (.ok none, sock.advance call sock.incoming) := by
  simp [read, again]

end Socket

/-! ## Progress on a socket -/

/-- From one socket state to a later one: a delivery in between takes bytes off
the stream. -/
structure Socket.Advances (before after : Socket) : Prop where
  arrivals : after.arrivals = before.arrivals
  clock : before.reads.length ≤ after.reads.length
  incoming : after.incoming.length ≤ before.incoming.length
  delivered : ∀ t n, before.reads.length ≤ t → t < after.reads.length →
    before.arrivals t = .deliver n → after.incoming.length < before.incoming.length

namespace Socket.Advances

theorem refl (sock : Socket) : sock.Advances sock where
  arrivals := rfl
  clock := Nat.le_refl _
  incoming := Nat.le_refl _
  delivered t n before behind := by omega

theorem trans {first second third : Socket} (one : first.Advances second)
    (two : second.Advances third) : first.Advances third where
  arrivals := two.arrivals.trans one.arrivals
  clock := Nat.le_trans one.clock two.clock
  incoming := Nat.le_trans two.incoming one.incoming
  delivered t n before behind delivery := by
    have shorter := one.incoming
    have shorterStill := two.incoming
    by_cases early : t < second.reads.length
    · have taken := one.delivered t n before early delivery
      omega
    · have taken := two.delivered t n (by omega) behind (one.arrivals ▸ delivery)
      omega

/-- A read that finds nothing, although there is something to deliver. -/
theorem of_again {sock : Socket} {call : ReadCall} (waiting : sock.incoming ≠ [])
    (positive : 0 < call.len)
    (again : sock.read call = (.ok none, sock.advance call sock.incoming)) :
    sock.Advances (sock.advance call sock.incoming) where
  arrivals := rfl
  clock := by simp
  incoming := Nat.le_refl _
  delivered t n before behind delivery := by
    have now : t = sock.reads.length := by
      simp only [advance_reads, List.length_append, List.length_singleton] at behind
      omega
    rw [now] at delivery
    rw [read_deliver call delivery waiting positive] at again
    cases again

/-- A read that returns bytes. -/
theorem of_received {sock : Socket} {call : ReadCall} {bytes rest : Bytes} (nonempty : bytes ≠ [])
    (split : sock.incoming = bytes ++ rest) : sock.Advances (sock.advance call rest) := by
  have less : rest.length < sock.incoming.length := by
    have positive := List.length_pos_iff.mpr nonempty
    rw [split, List.length_append]
    omega
  exact ⟨rfl, by simp, Nat.le_of_lt less, fun _ _ _ _ _ => less⟩

end Socket.Advances

end LibTasks.Net

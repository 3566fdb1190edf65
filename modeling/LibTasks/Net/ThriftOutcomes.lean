import LibTasks.Foundation.Transition

/-!
# The outcomes of `handle_request`

`uwsgi_thrift_async_processor::handle_request` with its finish callback
(`include/tasks/net/uwsgi_thrift_async_processor.h`), and the two places that ask
`can_dispose()` (`remove_event_task` of `tasks/dispatcher.cpp` and
`include/tasks/cleanup_task.h`).  `disable_dispose` is called before `service`, and
`enable_dispose` at the end of the finish callback; the `catch` clause calls neither.

A handler may call `finish()` inside of `service`, or from another thread at any time, and
`service` may raise a `TException` before or after that.  How the response gets to the socket
is left out.
-/

namespace LibTasks.Net.ThriftOutcomes

open LibTasks.Foundation

/-- `TMessageType` -/
inductive MessageType where
  | call
  | reply
  | exception
  | oneway
  deriving DecidableEq, Repr

/-- What thrift makes of the content of a request.  A text is the `what()` of a
`TException`. -/
inductive Message where
  /-- `readMessageBegin` raises. -/
  | unreadable (what : String)
  /-- `args->read` raises if `args` is a text. -/
  | message (fname : String) (mtype : MessageType) (seqid : Int) (args : Option String)
  deriving DecidableEq, Repr

/-- What is written to the response. -/
structure Reply where
  name : String
  seqid : Int
  status : String
  /-- The text of the exception, which is a header too. -/
  error : Option String
  contentType : String := "application/x-thrift"
  deriving DecidableEq, Repr

/-- Where the call of a handler is. -/
inductive HandlerCall where
  | none
  /-- `disable_dispose` was called, `service` comes next. -/
  | starting
  /-- `service` was called, and `finish()` is to come. -/
  | serving
  /-- `finish()` was called, with the error of the handler, if it has one. -/
  | finished (inWorker : Bool) (error : Option String)
  /-- The reply was written, `enable_dispose` comes next. -/
  | enabling (inWorker : Bool)
  /-- The finish callback has ended, or nobody is left to call `finish()`. -/
  | ended
  deriving DecidableEq, Repr

/-- The call was prepared, and nothing ended it. -/
def HandlerCall.outstanding : HandlerCall → Bool
  | .none | .ended => false
  | _ => true

/-- The finish callback runs in the worker that is in `service`. -/
def HandlerCall.inWorker : HandlerCall → Bool
  | .finished inWorker _ | .enabling inWorker => inWorker
  | _ => false

/-- Where the worker is in `handle_request`. -/
inductive Point where
  | away
  | disable (r : Nat)
  | serve (r : Nat)
  /-- In `service`. -/
  | inside (r : Nat)
  deriving DecidableEq, Repr

structure State where
  point : Point := .away
  canDispose : Bool := true
  seqid : Int := 0
  calls : Nat → HandlerCall := fun _ => .none
  /-- The number of requests. -/
  count : Nat := 0
  replies : List Reply := []

inductive Action where
  | request (message : Message)
  /-- The next operation of the worker, where it has no choice. -/
  | worker
  /-- `finish()` is called for request `r`. -/
  | finish (r : Nat) (inWorker : Bool) (error : Option String)
  /-- The next operation of the finish callback. -/
  | callback (r : Nat)
  | serviceReturns
  /-- `service` raises a `TException`; `later` says whether `finish()` is still to be called
  by another thread. -/
  | serviceRaises (what : String) (later : Bool)
  deriving DecidableEq, Repr

namespace State

/-- `write_thrift_error` -/
def writeThriftError (serviceName : String) (s : State) (msg : String) : State :=
  { s with replies := s.replies ++ [⟨serviceName, s.seqid, "400 Bad Request", some msg,
      "application/x-thrift"⟩] }

/-- `handle_request` up to the call of `disable_dispose`. -/
def handleRequest (serviceName : String) (s : State) : Message → State
  | .unreadable what => s.writeThriftError serviceName ("TException: " ++ what)
  | .message fname mtype seqid args =>
      let s := { s with seqid }
      if mtype ≠ .call ∧ mtype ≠ .oneway then
        s.writeThriftError serviceName "invalid message type"
      else if fname ≠ serviceName then
        s.writeThriftError serviceName "invalid method name"
      else match args with
        | some what => s.writeThriftError serviceName ("TException: " ++ what)
        | none => { s with point := .disable s.count, count := s.count + 1 }

def setCall (s : State) (r : Nat) (x : HandlerCall) : State :=
  { s with calls := Function.update s.calls r x }

/-- The finish callback up to `enable_dispose`. -/
def writeReply (serviceName : String) (s : State) : Option String → State
  | some message => s.writeThriftError serviceName ("Handler Error: " ++ message)
  | none => { s with replies := s.replies ++ [⟨serviceName, s.seqid, "200 OK", none,
      "application/x-thrift"⟩] }

/-- The `catch` clause of `handle_request`.  The call of the handler is over unless `finish()`
is still to come. -/
def caught (serviceName : String) (s : State) (r : Nat) (what : String) (later : Bool) : State :=
  let s := { s with point := .away }.writeThriftError serviceName ("TException: " ++ what)
  if s.calls r = .serving ∧ later = false then s.setCall r .ended else s

/-- `remove_event_task` disposes the task now, and else starts a `cleanup_task`. -/
def removeEventTask (s : State) : Bool := s.canDispose

/-- `cleanup_task::handle_event` disposes the task, and else returns to be called again. -/
def cleanupHandleEvent (s : State) : Bool := s.canDispose

end State

def step (serviceName : String) : Action → State → Option State
  | .request message, s =>
      if s.point = .away then some (s.handleRequest serviceName message) else none
  | .worker, s =>
      match s.point with
      | .disable r => some ({ s with canDispose := false, point := .serve r }.setCall r .starting)
      | .serve r => some ({ s with point := .inside r }.setCall r .serving)
      | .away | .inside _ => none
  | .finish r inWorker error, s =>
      if s.calls r = .serving ∧ (inWorker = true → s.point = .inside r) then
        some (s.setCall r (.finished inWorker error))
      else none
  | .callback r, s =>
      match s.calls r with
      | .finished inWorker error =>
          some ((s.writeReply serviceName error).setCall r (.enabling inWorker))
      | .enabling _ => some ({ s with canDispose := true }.setCall r .ended)
      | _ => none
  | .serviceReturns, s =>
      match s.point with
      | .inside r => if (s.calls r).inWorker then none else some { s with point := .away }
      | _ => none
  | .serviceRaises what later, s =>
      match s.point with
      | .inside r =>
          if (s.calls r).inWorker then none else some (s.caught serviceName r what later)
      | _ => none

/-- A processor that handles one request after the other. -/
def system (serviceName : String) : System State Action where
  init := {}
  step := step serviceName

/-- No call of a handler is outstanding. -/
def Quiet (s : State) : Prop := ∀ r, (s.calls r).outstanding = false

/-- When a reply has been written and no call is outstanding, the task can be disposed, which
`remove_event_task` and the `cleanup_task` then do. -/
def Disposable (s : State) : Prop :=
  s.replies ≠ [] → Quiet s →
    s.canDispose = true ∧ s.removeEventTask = true ∧ s.cleanupHandleEvent = true

/-- `service` raises an exception, `finish()` was not called and never will be, `can_dispose()`
is false, and no other call is outstanding whose finish callback could change that. -/
def Abandons : Action → State → Prop
  | .serviceRaises _ later, s => later = false ∧ s.canDispose = false ∧
      ∃ r, s.point = .inside r ∧ s.calls r = .serving ∧
        ∀ v, v ≠ r → (s.calls v).outstanding = false
  | _, _ => False

/-- As long as no reply was written, no call has ended. -/
def Begun (s : State) : Prop := s.replies = [] → Quiet s → s.canDispose = true

/-- The steps of the processor, each with its conditions. -/
inductive Moves (serviceName : String) (s : State) : Action → State → Prop where
  | request (message : Message) (away : s.point = .away) :
      Moves serviceName s (.request message) (s.handleRequest serviceName message)
  | disable {r : Nat} (here : s.point = .disable r) :
      Moves serviceName s .worker
        ({ s with canDispose := false, point := .serve r }.setCall r .starting)
  | serve {r : Nat} (here : s.point = .serve r) :
      Moves serviceName s .worker ({ s with point := .inside r }.setCall r .serving)
  | finish {r : Nat} {inWorker : Bool} (error : Option String) (serving : s.calls r = .serving)
      (inside : inWorker = true → s.point = .inside r) :
      Moves serviceName s (.finish r inWorker error) (s.setCall r (.finished inWorker error))
  | write {r : Nat} {inWorker : Bool} {error : Option String}
      (called : s.calls r = .finished inWorker error) :
      Moves serviceName s (.callback r)
        ((s.writeReply serviceName error).setCall r (.enabling inWorker))
  | enable {r : Nat} {inWorker : Bool} (written : s.calls r = .enabling inWorker) :
      Moves serviceName s (.callback r) ({ s with canDispose := true }.setCall r .ended)
  | returns {r : Nat} (inside : s.point = .inside r) (left : (s.calls r).inWorker = false) :
      Moves serviceName s .serviceReturns { s with point := .away }
  | raises {r : Nat} (what : String) (later : Bool) (inside : s.point = .inside r)
      (left : (s.calls r).inWorker = false) :
      Moves serviceName s (.serviceRaises what later) (s.caught serviceName r what later)

section Steps

variable {serviceName : String} {s next : State} {action : Action} {r : Nat} {x : HandlerCall}

theorem moves_of_step (stepped : (system serviceName).step action s = some next) :
    Moves serviceName s action next := by
  change step serviceName action s = some next at stepped
  cases action with
  | request message =>
      rw [step] at stepped
      split at stepped
      · next away =>
          cases stepped
          exact .request message away
      · cases stepped
  | worker =>
      rw [step] at stepped
      split at stepped
      · next r here =>
          cases stepped
          exact .disable here
      · next r here =>
          cases stepped
          exact .serve here
      · cases stepped
      · cases stepped
  | finish r inWorker error =>
      rw [step] at stepped
      split at stepped
      · next allowed =>
          cases stepped
          exact .finish error allowed.1 allowed.2
      · cases stepped
  | callback r =>
      rw [step] at stepped
      split at stepped
      · next inWorker error called =>
          cases stepped
          exact .write called
      · next inWorker written =>
          cases stepped
          exact .enable written
      · cases stepped
  | serviceReturns =>
      rw [step] at stepped
      split at stepped
      · next r inside =>
          split at stepped
          · cases stepped
          · next left =>
              cases stepped
              exact .returns inside (Bool.eq_false_iff.mpr left)
      · cases stepped
  | serviceRaises what later =>
      rw [step] at stepped
      split at stepped
      · next r inside =>
          split at stepped
          · cases stepped
          · next left =>
              cases stepped
              exact .raises what later inside (Bool.eq_false_iff.mpr left)
      · cases stepped

/-- What is known before each step: without outstanding calls the task can be disposed. -/
theorem canDispose_of_quiet (begun : Begun s) (disposable : Disposable s) (quiet : Quiet s) :
    s.canDispose = true := by
  by_cases unanswered : s.replies = []
  · exact begun unanswered quiet
  · exact (disposable unanswered quiet).1

theorem disposable_of_canDispose (known : Quiet s → s.canDispose = true) : Disposable s :=
  fun _ quiet => ⟨known quiet, known quiet, known quiet⟩

theorem not_quiet (out : x.outstanding = true) : ¬Quiet (s.setCall r x) := by
  intro quiet
  have own : (Function.update s.calls r x r).outstanding = false := quiet r
  rw [Function.update_self, out] at own
  cases own

theorem quiet_setCall_iff (ended : x.outstanding = false) :
    Quiet (s.setCall r x) ↔ ∀ v, v ≠ r → (s.calls v).outstanding = false := by
  refine (Function.forall_update_iff s.calls fun _ y => y.outstanding = false).trans ?_
  exact ⟨fun both => both.2, fun others => ⟨ended, others⟩⟩

/-- A message leaves the calls and the flag as they are. -/
theorem handleRequest_keeps (serviceName : String) (s : State) (message : Message) :
    (s.handleRequest serviceName message).calls = s.calls ∧
      (s.handleRequest serviceName message).canDispose = s.canDispose := by
  cases message with
  | unreadable what => exact ⟨rfl, rfl⟩
  | message fname mtype seqid args =>
      simp only [State.handleRequest]
      split
      · exact ⟨rfl, rfl⟩
      · split
        · exact ⟨rfl, rfl⟩
        · cases args <;> exact ⟨rfl, rfl⟩

/-- A step that leaves the calls and the flag as they are. -/
theorem known_of_same (known : Quiet s → s.canDispose = true) (calls : next.calls = s.calls)
    (canDispose : next.canDispose = s.canDispose) : Quiet next → next.canDispose = true := by
  intro quiet
  rw [canDispose]
  apply known
  rwa [Quiet, calls] at quiet

/-- The `catch` clause.  A call that is given up leaves the flag as it is. -/
theorem caught_known_iff (known : Quiet s → s.canDispose = true) (inside : s.point = .inside r)
    (what : String) (later : Bool) :
    (Quiet (s.caught serviceName r what later) →
        (s.caught serviceName r what later).canDispose = true) ↔
      ¬Abandons (.serviceRaises what later) s := by
  rw [State.caught]
  split
  next given =>
    change (Quiet (State.setCall _ r .ended) → s.canDispose = true) ↔ _
    rw [quiet_setCall_iff rfl]
    constructor
    · intro kept abandons
      have ⟨_, flag, v, point, _, others⟩ := abandons
      cases inside.symm.trans point
      exact Bool.false_ne_true (flag.symm.trans (kept others))
    · intro kept others
      apply Bool.not_eq_false _ |>.mp
      intro flag
      exact kept ⟨given.2, flag, r, inside, given.1, others⟩
  next held =>
    refine ⟨?_, fun _ => known_of_same known rfl rfl⟩
    intro _ abandons
    have ⟨finishes, _, v, point, serving, _⟩ := abandons
    cases inside.symm.trans point
    exact held ⟨serving, finishes⟩

/-- One step, when the task could be disposed before it. -/
theorem step_known_iff (known : Quiet s → s.canDispose = true)
    (moves : Moves serviceName s action next) :
    (Quiet next → next.canDispose = true) ↔ ¬Abandons action s := by
  cases moves with
  | request message _ =>
      have same := handleRequest_keeps serviceName s message
      exact iff_of_true (known_of_same known same.1 same.2) id
  | disable | serve | finish | write =>
      exact iff_of_true (fun quiet => absurd quiet (not_quiet rfl)) id
  | enable => exact iff_of_true (fun _ => rfl) id
  | returns => exact iff_of_true (known_of_same known rfl rfl) id
  | raises what later inside _ => exact caught_known_iff known inside what later

theorem replies_handleRequest (serviceName : String) (s : State) (message : Message) :
    ∃ more, (s.handleRequest serviceName message).replies = s.replies ++ more := by
  cases message with
  | unreadable what => exact ⟨_, rfl⟩
  | message fname mtype seqid args =>
      simp only [State.handleRequest]
      split
      · exact ⟨_, rfl⟩
      · split
        · exact ⟨_, rfl⟩
        · cases args with
          | none => exact ⟨[], (List.append_nil _).symm⟩
          | some what => exact ⟨_, rfl⟩

theorem replies_caught (serviceName : String) (s : State) (r : Nat) (what : String)
    (later : Bool) :
    ∃ reply, (s.caught serviceName r what later).replies = s.replies ++ [reply] := by
  rw [State.caught]
  split <;> exact ⟨_, rfl⟩

/-- The replies of a step come behind those before. -/
theorem replies_of_moves (moves : Moves serviceName s action next) :
    ∃ more, next.replies = s.replies ++ more := by
  cases moves with
  | request message _ => exact replies_handleRequest serviceName s message
  | @write _ _ error _ => cases error <;> exact ⟨_, rfl⟩
  | disable | serve | finish | enable | returns => exact ⟨[], (List.append_nil _).symm⟩
  | @raises r what later _ _ =>
      have ⟨reply, replies⟩ := replies_caught serviceName s r what later
      exact ⟨[reply], replies⟩

/-- A call that is given up is answered. -/
theorem replies_of_abandons (abandons : Abandons action s)
    (moves : Moves serviceName s action next) : next.replies ≠ [] := by
  cases moves with
  | @raises r what later _ _ =>
      have ⟨reply, replies⟩ := replies_caught serviceName s r what later
      rw [replies]
      exact List.append_ne_nil_of_right_ne_nil _ (List.cons_ne_nil _ _)
  | _ => exact abandons.elim

theorem begun_step (begun : Begun s)
    (stepped : (system serviceName).step action s = some next) : Begun next := by
  have moves := moves_of_step stepped
  intro unanswered
  have ⟨more, replies⟩ := replies_of_moves moves
  rw [unanswered] at replies
  have before : s.replies = [] := (List.nil_eq_append_iff.mp replies).1
  apply (step_known_iff (begun before) moves).mpr
  intro abandons
  exact replies_of_abandons abandons moves unanswered

theorem step_disposable_iff (begun : Begun s) (disposable : Disposable s)
    (stepped : (system serviceName).step action s = some next) :
    Disposable next ↔ ¬Abandons action s := by
  have moves := moves_of_step stepped
  have known := step_known_iff (canDispose_of_quiet begun disposable) moves
  constructor
  · intro kept abandons
    have answered := replies_of_abandons abandons moves
    exact known.mp (fun quiet => (kept answered quiet).1) abandons
  · exact fun kept => disposable_of_canDispose (known.mpr kept)

end Steps

/-- **Completed requests leave the task disposable**, along every run of messages, handlers
and threads, exactly when no `service` raises an exception for a call that nobody will
finish. -/
theorem disposable_iff (serviceName : String) (actions : List Action) :
    (system serviceName).Throughout Disposable actions (system serviceName).init ↔
      (system serviceName).Along (fun action s => ¬Abandons action s) actions
        (system serviceName).init := by
  apply System.throughout_iff_along Begun begun_step step_disposable_iff
  · exact fun _ _ => rfl
  · exact fun answered => absurd rfl answered

/-- A service that raises an exception at once. -/
def raisesAtOnce : List Action :=
  [.request (.message "add" .call 7 none), .worker, .worker, .serviceRaises "no memory" false]

/-- The request is answered and no call is outstanding, but the task can never be disposed. -/
theorem not_disposable :
    ∃ s, (system "add").exec raisesAtOnce (system "add").init = some s ∧
      s.replies = [⟨"add", 7, "400 Bad Request", some "TException: no memory",
        "application/x-thrift"⟩] ∧
      Quiet s ∧ s.point = .away ∧ s.canDispose = false ∧ ¬Disposable s := by
  have ended (v : Nat) :
      (Function.update (Function.update (Function.update (fun _ => HandlerCall.none) 0 .starting)
        0 .serving) 0 .ended v).outstanding = false := by
    cases v with
    | zero => rfl
    | succ v => rfl
  refine ⟨_, rfl, rfl, ended, rfl, rfl, ?_⟩
  intro disposable
  have allowed := (disposable (List.cons_ne_nil _ _) ended).1
  cases allowed

end LibTasks.Net.ThriftOutcomes

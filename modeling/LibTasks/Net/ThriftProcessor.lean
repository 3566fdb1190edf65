import LibTasks.Net.HttpSender

/-!
# `uwsgi_thrift_async_processor`

One processor with its connection, its handlers and the workers
(`include/tasks/net/uwsgi_thrift_async_processor.h`, `tasks/net/uwsgi_task.cpp`,
`tasks/worker.cpp`, `tasks/dispatcher.cpp`, `include/tasks/cleanup_task.h`).  The service of
a handler runs in a thread of its own and calls `finish()` from there, so that each request
is a thread.  Of a packet only its sequence id is left, and whether it is a call of the
service; of the dispatcher, the leader, the threads of the workers and the functor queues.

`tasks_event_callback` stops the watcher and adds the event in one step: the worker that it
finds is the one that runs the loop.  Where it is not the leader, `exec_in_worker_ctx`
queues the functor; the test and the direct call are one step, since a worker stops being
the leader in its own thread only.
-/

namespace LibTasks.Net.ThriftProcessor

open LibTasks.Foundation
open LibTasks.Net.HttpSender (Mode)

structure Config where
  mode : Mode
  numWorkers : Nat
  /-- `assigned_worker()` of the processor in multi loop mode. -/
  home : Nat

/-- Events of the processor, and of the `cleanup_task` that disposes it later. -/
inductive Ev where
  | read
  | write
  | timer
  deriving DecidableEq, Repr

/-- The functors that are passed to `exec_in_worker_ctx`. -/
inductive Func where
  /-- `start_watcher` of the processor -/
  | start
  /-- `start_watcher` of the `cleanup_task` -/
  | startTimer
  /-- The functor of the finish callback, that calls `send_response`. -/
  | send
  /-- `dispose` of the processor -/
  | dispose
  deriving DecidableEq, Repr

/-- Where the thread of a worker is. -/
inductive Point where
  /-- Outside of what concerns the processor. -/
  | away
  /-- In the event loop, between two callbacks. -/
  | loop
  /-- In `tasks_async_callback`, with the remaining functors. -/
  | drain (rest : List Func)
  /-- In `uwsgi_task::handle_event` for `EV_READ`. -/
  | reading
  /-- `handle_request` was called, `m_handler.reset` comes next. -/
  | reset (seqid : Int) (valid : Bool)
  /-- `readMessageBegin` of request `r` comes next. -/
  | parse (r : Nat) (valid : Bool)
  /-- `disable_dispose` comes next. -/
  | disable (r : Nat)
  /-- `m_handler->service(args)` comes next. -/
  | serve (r : Nat)
  /-- In `uwsgi_task::handle_event` for `EV_WRITE`. -/
  | writing
  /-- `handle_event` has returned. -/
  | handled (cont : Bool)
  /-- In `remove_event_task`, testing `can_dispose()`. -/
  | remove
  /-- In `cleanup_task::handle_event`, testing `can_dispose()`. -/
  | cleanup
  deriving DecidableEq, Repr

/-- A call of `exec_in_worker_ctx` of the own worker in progress. -/
inductive Call where
  | idle
  | test (f : Func)
  | push (f : Func)
  deriving DecidableEq, Repr

/-- The thread of a worker. -/
structure Thread where
  point : Point := .away
  call : Call := .idle
  /-- The events in `m_events_queue`, without the one that is handled. -/
  events : List Ev := []
  deriving DecidableEq, Repr

/-- Where the thread of a request is. -/
inductive Request where
  /-- `service` was not called. -/
  | none
  | serving
  /-- `finish()` was called, `m_handler->error()` comes next. -/
  | finished
  /-- The reply is written next; `tested` is the handler whose `error()` was called. -/
  | writing (tested : Option Nat)
  /-- The test of `error_code()` comes next. -/
  | checking
  /-- `get_worker_by_task` comes next. -/
  | choosing
  /-- `async_call` of worker `w` comes next. -/
  | pushing (w : Nat)
  /-- `enable_dispose` comes next. -/
  | enabling
  | done
  deriving DecidableEq, Repr

structure Processor where
  /-- `ev_is_active` of the watcher -/
  active : Bool := true
  /-- `m_events` -/
  events : Ev := .read
  /-- Whether the watcher of the `cleanup_task` is active. -/
  timer : Bool := false
  /-- `error()` -/
  error : Bool := false
  canDispose : Bool := true
  /-- The request whose handler `m_handler` is. -/
  handler : Option Nat := none
  /-- `m_seqid` -/
  seqid : Int := 0
  deleted : Bool := false
  deriving DecidableEq, Repr

/-- What the finish callback of a request has written. -/
structure Reply where
  request : Nat
  /-- The handler whose `error()` was called. -/
  tested : Option Nat
  /-- The handler whose result was written. -/
  handler : Option Nat
  seqid : Int
  deriving DecidableEq, Repr

structure State where
  /-- The worker whose `m_leader` is set, in single loop mode. -/
  leader : Option Nat := none
  lastWorker : Nat := 0
  threads : Nat → Thread := fun _ => {}
  queues : Nat → List Func := fun _ => []
  processor : Processor := {}
  requests : Nat → Request := fun _ => .none
  /-- The number of requests. -/
  count : Nat := 0
  /-- The sequence ids of the packets. -/
  asked : Nat → Int := fun _ => 0
  replies : List Reply := []
  /-- `send_response` was called for the deleted processor. -/
  sentLate : Bool := false

inductive Action where
  /-- The next operation of the thread of a worker. -/
  | worker (i : Nat)
  /-- The next operation of `exec_in_worker_ctx`. -/
  | call (i : Nat)
  | fire (i : Nat)
  | fireTimer (i : Nat)
  | drain (i q : Nat)
  | enterLoop (i : Nat)
  | leaveLoop (i : Nat)
  | handle (i : Nat)
  /-- `read_data` or `write_data` returns, and there is more to come. -/
  | more (i : Nat)
  /-- `read_data` or `write_data` throws, or the packet is not supported. -/
  | fail (i : Nat)
  /-- A packet is complete. -/
  | packet (i : Nat) (seqid : Int) (valid : Bool)
  /-- The response was written. -/
  | written (i : Nat)
  | demote (i : Nat)
  | promote (i : Nat)
  /-- The next operation of the thread of a request. -/
  | request (r : Nat)
  deriving DecidableEq, Repr

/-- The point at which an event is handled. -/
def Ev.point : Ev → Point
  | .read => .reading
  | .write => .writing
  | .timer => .cleanup

namespace State

/-- `m_leader` of a worker. -/
def leads (cfg : Config) (s : State) (i : Nat) : Bool :=
  match cfg.mode with
  | .singleLoop => s.leader == some i
  | .multiLoop => true

/-- `get_worker_by_task` in a thread that is not the thread of a worker. -/
def getWorkerByTask (cfg : Config) (s : State) : Nat :=
  match cfg.mode with
  | .singleLoop => s.lastWorker
  | .multiLoop => cfg.home

def setThread (s : State) (i : Nat) (x : Thread) : State :=
  { s with threads := Function.update s.threads i x }

def setRequest (s : State) (r : Nat) (x : Request) : State :=
  { s with requests := Function.update s.requests r x }

def push (s : State) (w : Nat) (f : Func) : State :=
  { s with queues := Function.update s.queues w (s.queues w ++ [f]) }

/-- A functor is executed. -/
def exec (s : State) : Func → State
  | .start => { s with processor := { s.processor with active := true } }
  | .startTimer => { s with processor := { s.processor with timer := true } }
  | .send =>
      if s.processor.deleted then { s with sentLate := true }
      else { s with processor := { s.processor with events := .write } }
  | .dispose => { s with
      processor := { s.processor with active := false, handler := none, deleted := true } }

section Exec

variable (s : State) (f : Func)

@[simp] theorem exec_threads : (s.exec f).threads = s.threads := by
  unfold exec
  split <;> (try split) <;> rfl

@[simp] theorem exec_queues : (s.exec f).queues = s.queues := by
  unfold exec
  split <;> (try split) <;> rfl

@[simp] theorem exec_requests : (s.exec f).requests = s.requests := by
  unfold exec
  split <;> (try split) <;> rfl

@[simp] theorem exec_count : (s.exec f).count = s.count := by
  unfold exec
  split <;> (try split) <;> rfl

@[simp] theorem exec_asked : (s.exec f).asked = s.asked := by
  unfold exec
  split <;> (try split) <;> rfl

@[simp] theorem exec_replies : (s.exec f).replies = s.replies := by
  unfold exec
  split <;> (try split) <;> rfl

@[simp] theorem exec_seqid : (s.exec f).processor.seqid = s.processor.seqid := by
  unfold exec
  split <;> (try split) <;> rfl

@[simp] theorem exec_canDispose : (s.exec f).processor.canDispose = s.processor.canDispose := by
  unfold exec
  split <;> (try split) <;> rfl

variable {f}

theorem exec_handler (other : f ≠ .dispose) :
    (s.exec f).processor.handler = s.processor.handler := by
  unfold exec
  split
  · rfl
  · rfl
  · split <;> rfl
  · exact absurd rfl other

theorem exec_deleted (other : f ≠ .dispose) :
    (s.exec f).processor.deleted = s.processor.deleted := by
  unfold exec
  split
  · rfl
  · rfl
  · split <;> rfl
  · exact absurd rfl other

end Exec

/-- The next operation of the thread of a worker, where it has no choice. -/
def workerStep (s : State) (i : Nat) : Option State :=
  let x := s.threads i
  match x.point with
  | .drain [] => some (s.setThread i { x with point := .loop })
  | .drain (f :: rest) => some ((s.setThread i { x with point := .drain rest }).exec f)
  | .reset seqid valid =>
      some ({ s with
        processor := { s.processor with handler := some s.count }
        count := s.count + 1, asked := Function.update s.asked s.count seqid }.setThread i
          { x with point := .parse s.count valid })
  | .parse r true =>
      some ({ s with processor := { s.processor with seqid := s.asked r } }.setThread i
        { x with point := .disable r })
  -- The error is written and sent in the thread of the worker.
  | .parse r false =>
      some ({ s with
        processor := { s.processor with seqid := s.asked r, events := .write } }.setThread i
          { x with point := .handled true })
  | .disable r =>
      some ({ s with processor := { s.processor with canDispose := false } }.setThread i
        { x with point := .serve r })
  | .serve r => some ((s.setRequest r .serving).setThread i { x with point := .handled true })
  | .handled true =>
      some ({ s with processor := { s.processor with error := false } }.setThread i
        { x with point := .away, call := .test .start })
  | .handled false => some (s.setThread i { x with point := .remove })
  | .remove | .cleanup =>
      if s.processor.canDispose then
        some (s.setThread i { x with point := .away, call := .test .dispose })
      else some (s.setThread i { x with point := .away, call := .test .startTimer })
  | .away | .loop | .reading | .writing => none

/-- The next operation of `exec_in_worker_ctx`. -/
def callStep (cfg : Config) (s : State) (i : Nat) : Option State :=
  let x := s.threads i
  match x.call with
  | .idle => none
  | .test f =>
      if s.leads cfg i then some ((s.setThread i { x with call := .idle }).exec f)
      else some (s.setThread i { x with call := .push f })
  | .push f => some ((s.setThread i { x with call := .idle }).push i f)

/-- The next operation of the thread of a request: the finish callback. -/
def requestStep (cfg : Config) (s : State) (r : Nat) : Option State :=
  match s.requests r with
  | .none | .done => none
  | .serving => some (s.setRequest r .finished)
  | .finished => some (s.setRequest r (.writing s.processor.handler))
  | .writing tested =>
      let reply : Reply := ⟨r, tested, s.processor.handler, s.processor.seqid⟩
      some ({ s with replies := s.replies ++ [reply] }.setRequest r .checking)
  | .checking =>
      if s.processor.error then some (s.setRequest r .enabling)
      else some (s.setRequest r .choosing)
  | .choosing => some (s.setRequest r (.pushing (s.getWorkerByTask cfg)))
  | .pushing w => some ((s.push w .send).setRequest r .enabling)
  | .enabling =>
      some ({ s with processor := { s.processor with canDispose := true } }.setRequest r .done)

end State

/-- The thread of a worker is at a point, and not in a call. -/
def isAt (cfg : Config) (s : State) (i : Nat) (p : Point) : Prop :=
  i < cfg.numWorkers ∧ (s.threads i).call = .idle ∧ (s.threads i).point = p

instance (cfg : Config) (s : State) (i : Nat) (p : Point) : Decidable (isAt cfg s i p) :=
  inferInstanceAs (Decidable (_ ∧ _ ∧ _))

open State in
def step (cfg : Config) : Action → State → Option State
  | .worker i, s =>
      if i < cfg.numWorkers ∧ (s.threads i).call = .idle then s.workerStep i else none
  | .call i, s => s.callStep cfg i
  | .fire i, s =>
      if isAt cfg s i .loop ∧ s.processor.active = true ∧
          (cfg.mode = .multiLoop → i = cfg.home) then
        some ({ s with processor := { s.processor with active := false } }.setThread i
          { s.threads i with events := (s.threads i).events ++ [s.processor.events] })
      else none
  | .fireTimer i, s =>
      if isAt cfg s i .loop ∧ s.processor.timer = true ∧
          (cfg.mode = .multiLoop → i = cfg.home) then
        some ({ s with processor := { s.processor with timer := false } }.setThread i
          { s.threads i with events := (s.threads i).events ++ [Ev.timer] })
      else none
  | .drain i q, s =>
      if isAt cfg s i .loop ∧ (cfg.mode = .multiLoop → q = i) then
        some ({ s with queues := Function.update s.queues q [] }.setThread i
          { s.threads i with point := .drain (s.queues q) })
      else none
  | .enterLoop i, s =>
      if isAt cfg s i .away ∧ (s.threads i).events = [] ∧ s.leads cfg i then
        some (s.setThread i { s.threads i with point := .loop })
      else none
  | .leaveLoop i, s =>
      if isAt cfg s i .loop then some (s.setThread i { s.threads i with point := .away })
      else none
  | .handle i, s =>
      match (s.threads i).events with
      | e :: rest =>
          if isAt cfg s i .away then
            some (s.setThread i { s.threads i with point := e.point, events := rest })
          else none
      | [] => none
  | .more i, s =>
      if isAt cfg s i .reading ∨ isAt cfg s i .writing then
        some (s.setThread i { s.threads i with point := .handled true })
      else none
  | .fail i, s =>
      if isAt cfg s i .reading ∨ isAt cfg s i .writing then
        some ({ s with processor := { s.processor with error := true } }.setThread i
          { s.threads i with point := .handled false })
      else none
  | .packet i seqid valid, s =>
      if isAt cfg s i .reading then
        some (s.setThread i { s.threads i with point := .reset seqid valid })
      else none
  | .written i, s =>
      if isAt cfg s i .writing then
        some (s.setThread i { s.threads i with point := .handled false })
      else none
  | .demote i, s =>
      if cfg.mode = .singleLoop ∧ s.leader = some i ∧ isAt cfg s i .away then
        some { s with leader := none }
      else none
  | .promote i, s =>
      if cfg.mode = .singleLoop ∧ s.leader = none ∧ isAt cfg s i .away ∧
          (s.threads i).events = [] then
        some { s with leader := some i, lastWorker := i }
      else none
  | .request r, s => s.requestStep cfg r

/-- A processor whose watcher was started, the workers and the requests. -/
def system (cfg : Config) : System State Action where
  init := {}
  step := step cfg

/-! ## What a step can do -/

/-- The point comes before or after the request is passed on. -/
def Point.isPlain : Point → Bool
  | .away | .loop | .reading | .reset .. | .writing | .handled _ | .remove | .cleanup => true
  | _ => false

/-- The point belongs to an event that is handled. -/
def Point.handles : Point → Bool
  | .away | .loop | .drain _ => false
  | _ => true

/-- What the thread of a request does. -/
inductive Finishes (cfg : Config) (s : State) (r : Nat) : State → Prop where
  | call (here : s.requests r = .serving) : Finishes cfg s r (s.setRequest r .finished)
  | test (here : s.requests r = .finished) :
      Finishes cfg s r (s.setRequest r (.writing s.processor.handler))
  | reply {tested : Option Nat} (here : s.requests r = .writing tested) :
      Finishes cfg s r
        ({ s with
          replies := s.replies ++
            [Reply.mk r tested s.processor.handler s.processor.seqid] }.setRequest r .checking)
  | error (here : s.requests r = .checking) : Finishes cfg s r (s.setRequest r .enabling)
  | check (here : s.requests r = .checking) : Finishes cfg s r (s.setRequest r .choosing)
  | choose (here : s.requests r = .choosing) :
      Finishes cfg s r (s.setRequest r (.pushing (s.getWorkerByTask cfg)))
  | push {w : Nat} (here : s.requests r = .pushing w) :
      Finishes cfg s r ((s.push w .send).setRequest r .enabling)
  | enable (here : s.requests r = .enabling) :
      Finishes cfg s r
        ({ s with processor := { s.processor with canDispose := true } }.setRequest r .done)

inductive Moves (cfg : Config) (s : State) : Action → State → Prop where
  | lead {action : Action} (leader : Option Nat) (lastWorker : Nat)
      (bound : lastWorker = s.lastWorker ∨ lastWorker < cfg.numWorkers) :
      Moves cfg s action { s with leader := leader, lastWorker := lastWorker }
  /-- The thread of a worker goes on without touching anything else. -/
  | goto {action : Action} {i : Nat} (p : Point) (idle : (s.threads i).call = .idle)
      (plain : p.isPlain = true) (other : (s.threads i).point = .drain [] ∨
        (s.threads i).point.isPlain = true)
      (handles : p.handles = (s.threads i).point.handles) :
      Moves cfg s action (s.setThread i { s.threads i with point := p })
  | fire {i : Nat} (isActive : s.processor.active = true) :
      Moves cfg s (.fire i)
        ({ s with processor := { s.processor with active := false } }.setThread i
          { s.threads i with events := (s.threads i).events ++ [s.processor.events] })
  | fireTimer {i : Nat} (isActive : s.processor.timer = true) :
      Moves cfg s (.fireTimer i)
        ({ s with processor := { s.processor with timer := false } }.setThread i
          { s.threads i with events := (s.threads i).events ++ [Ev.timer] })
  | drain {i q : Nat} (bound : i < cfg.numWorkers) (here : (s.threads i).point = .loop) :
      Moves cfg s (.drain i q)
        ({ s with queues := Function.update s.queues q [] }.setThread i
          { s.threads i with point := .drain (s.queues q) })
  | execFront {i : Nat} {f : Func} {rest : List Func}
      (here : (s.threads i).point = .drain (f :: rest)) :
      Moves cfg s (.worker i)
        ((s.setThread i { s.threads i with point := .drain rest }).exec f)
  | direct {i : Nat} {f : Func} (here : (s.threads i).call = .test f) :
      Moves cfg s (.call i) ((s.setThread i { s.threads i with call := .idle }).exec f)
  | notDirect {i : Nat} {f : Func} (here : (s.threads i).call = .test f) :
      Moves cfg s (.call i) (s.setThread i { s.threads i with call := .push f })
  | push {i : Nat} {f : Func} (here : (s.threads i).call = .push f) :
      Moves cfg s (.call i) ((s.setThread i { s.threads i with call := .idle }).push i f)
  | handle {i : Nat} {e : Ev} {rest : List Ev} (here : (s.threads i).point = .away)
      (event : (s.threads i).events = e :: rest) :
      Moves cfg s (.handle i)
        (s.setThread i { s.threads i with point := e.point, events := rest })
  | fail {i : Nat} (here : (s.threads i).point = .reading ∨ (s.threads i).point = .writing) :
      Moves cfg s (.fail i)
        ({ s with processor := { s.processor with error := true } }.setThread i
          { s.threads i with point := .handled false })
  | reset {i : Nat} {seqid : Int} {valid : Bool}
      (here : (s.threads i).point = .reset seqid valid) :
      Moves cfg s (.worker i)
        ({ s with
          processor := { s.processor with handler := some s.count }
          count := s.count + 1, asked := Function.update s.asked s.count seqid }.setThread i
            { s.threads i with point := .parse s.count valid })
  | parse {i r : Nat} (here : (s.threads i).point = .parse r true) :
      Moves cfg s (.worker i)
        ({ s with processor := { s.processor with seqid := s.asked r } }.setThread i
          { s.threads i with point := .disable r })
  | refuse {i r : Nat} (here : (s.threads i).point = .parse r false) :
      Moves cfg s (.worker i)
        ({ s with
          processor := { s.processor with seqid := s.asked r, events := .write } }.setThread i
            { s.threads i with point := .handled true })
  | disable {i r : Nat} (here : (s.threads i).point = .disable r) :
      Moves cfg s (.worker i)
        ({ s with processor := { s.processor with canDispose := false } }.setThread i
          { s.threads i with point := .serve r })
  | serve {i r : Nat} (here : (s.threads i).point = .serve r) :
      Moves cfg s (.worker i)
        ((s.setRequest r .serving).setThread i { s.threads i with point := .handled true })
  | rearm {i : Nat} (here : (s.threads i).point = .handled true)
      (idle : (s.threads i).call = .idle) :
      Moves cfg s (.worker i)
        ({ s with processor := { s.processor with error := false } }.setThread i
          { s.threads i with point := .away, call := .test .start })
  | dispose {i : Nat} (here : (s.threads i).point = .remove ∨ (s.threads i).point = .cleanup)
      (idle : (s.threads i).call = .idle) (allowed : s.processor.canDispose = true) :
      Moves cfg s (.worker i)
        (s.setThread i { s.threads i with point := .away, call := .test .dispose })
  | retry {i : Nat} (here : (s.threads i).point = .remove ∨ (s.threads i).point = .cleanup)
      (idle : (s.threads i).call = .idle) :
      Moves cfg s (.worker i)
        (s.setThread i { s.threads i with point := .away, call := .test .startTimer })
  | request {r : Nat} {next : State} (finishes : Finishes cfg s r next) :
      Moves cfg s (.request r) next

variable {cfg : Config} {s next : State}

theorem moves_of_workerStep {i : Nat} (idle : (s.threads i).call = .idle)
    (stepped : s.workerStep i = some next) : Moves cfg s (.worker i) next := by
  simp only [State.workerStep] at stepped
  split at stepped
  · next here =>
      cases stepped
      exact .goto _ idle rfl (.inl here) (by rw [here]; rfl)
  · next f rest here =>
      cases stepped
      exact .execFront here
  · next seqid valid here =>
      cases stepped
      exact .reset here
  · next r here =>
      cases stepped
      exact .parse here
  · next r here =>
      cases stepped
      exact .refuse here
  · next r here =>
      cases stepped
      exact .disable here
  · next r here =>
      cases stepped
      exact .serve here
  · next here =>
      cases stepped
      exact .rearm here idle
  · next here =>
      cases stepped
      exact .goto _ idle rfl (.inr (by rw [here]; rfl)) (by rw [here]; rfl)
  · next here =>
      split at stepped
      · next allowed =>
          cases stepped
          exact .dispose (.inl here) idle allowed
      · cases stepped
        exact .retry (.inl here) idle
  · next here =>
      split at stepped
      · next allowed =>
          cases stepped
          exact .dispose (.inr here) idle allowed
      · cases stepped
        exact .retry (.inr here) idle
  all_goals cases stepped

theorem moves_of_callStep {i : Nat} (stepped : s.callStep cfg i = some next) :
    Moves cfg s (.call i) next := by
  simp only [State.callStep] at stepped
  split at stepped
  · cases stepped
  · next f here =>
      split at stepped
      · cases stepped
        exact .direct here
      · cases stepped
        exact .notDirect here
  · next f here =>
      cases stepped
      exact .push here

theorem finishes_of_requestStep {r : Nat} (stepped : s.requestStep cfg r = some next) :
    Finishes cfg s r next := by
  simp only [State.requestStep] at stepped
  split at stepped
  · cases stepped
  · cases stepped
  · next here =>
      cases stepped
      exact .call here
  · next here =>
      cases stepped
      exact .test here
  · next tested here =>
      cases stepped
      exact .reply here
  · next here =>
      split at stepped
      · cases stepped
        exact .error here
      · cases stepped
        exact .check here
  · next here =>
      cases stepped
      exact .choose here
  · next w here =>
      cases stepped
      exact .push here
  · next here =>
      cases stepped
      exact .enable here

/-- A choice of the thread of a worker that touches nothing else. -/
theorem moves_of_isAt {action : Action} {i : Nat} {q : Point} (at_ : isAt cfg s i q) (p : Point)
    (plain : p.isPlain = true) (other : q.isPlain = true)
    (handles : p.handles = q.handles) :
    Moves cfg s action (s.setThread i { s.threads i with point := p }) := by
  rcases at_ with ⟨_, idle, here⟩
  apply Moves.goto p idle plain
  · exact .inr (here ▸ other)
  · rw [here]
    exact handles

theorem moves_of_step {action : Action} (stepped : (system cfg).step action s = some next) :
    Moves cfg s action next := by
  cases action with
  | worker i =>
      simp only [system, step] at stepped
      split at stepped
      · next allowed => exact moves_of_workerStep allowed.2 stepped
      · cases stepped
  | call i => exact moves_of_callStep stepped
  | fire i =>
      simp only [system, step] at stepped
      split at stepped
      · next allowed =>
          cases stepped
          exact .fire allowed.2.1
      · cases stepped
  | fireTimer i =>
      simp only [system, step] at stepped
      split at stepped
      · next allowed =>
          cases stepped
          exact .fireTimer allowed.2.1
      · cases stepped
  | drain i q =>
      simp only [system, step] at stepped
      split at stepped
      · next allowed =>
          cases stepped
          exact .drain allowed.1.1 allowed.1.2.2
      · cases stepped
  | enterLoop i =>
      simp only [system, step] at stepped
      split at stepped
      · next allowed =>
          cases stepped
          exact moves_of_isAt allowed.1 _ rfl rfl rfl
      · cases stepped
  | leaveLoop i =>
      simp only [system, step] at stepped
      split at stepped
      · next allowed =>
          cases stepped
          exact moves_of_isAt allowed _ rfl rfl rfl
      · cases stepped
  | handle i =>
      simp only [system, step] at stepped
      split at stepped
      · next e rest event =>
          split at stepped
          · next allowed =>
              cases stepped
              exact .handle allowed.2.2 event
          · cases stepped
      · cases stepped
  | more i =>
      simp only [system, step] at stepped
      split at stepped
      · next allowed =>
          cases stepped
          rcases allowed with reading | writing
          · exact moves_of_isAt reading _ rfl rfl rfl
          · exact moves_of_isAt writing _ rfl rfl rfl
      · cases stepped
  | fail i =>
      simp only [system, step] at stepped
      split at stepped
      · next allowed =>
          cases stepped
          exact .fail (allowed.imp (·.2.2) (·.2.2))
      · cases stepped
  | packet i seqid valid =>
      simp only [system, step] at stepped
      split at stepped
      · next allowed =>
          cases stepped
          exact moves_of_isAt allowed _ rfl rfl rfl
      · cases stepped
  | written i =>
      simp only [system, step] at stepped
      split at stepped
      · next allowed =>
          cases stepped
          exact moves_of_isAt allowed _ rfl rfl rfl
      · cases stepped
  | demote i =>
      simp only [system, step] at stepped
      split at stepped
      · cases stepped
        exact .lead none s.lastWorker (.inl rfl)
      · cases stepped
  | promote i =>
      simp only [system, step] at stepped
      split at stepped
      · next allowed =>
          cases stepped
          exact .lead (some i) i (.inr allowed.2.2.1.1)
      · cases stepped
  | request r => exact .request (finishes_of_requestStep stepped)

end LibTasks.Net.ThriftProcessor

import LibTasks.Foundation.Transition

/-!
# `http_sender` and its watcher

One `http_sender` (`include/tasks/net/http_sender.h`) with its I/O watcher
(`tasks/io_task_base.cpp`), the threads that call `send`, and the workers that handle its
events and execute its functors.  Of the dispatcher only what concerns the watcher is
left: which worker is the leader, where the thread of a worker is, and the functor
queues.  A worker may drain a queue whenever it is in its event loop, so `ev_async_send`
needs no step.  A run ends where `send` fails the assertion that the watcher was
initialized; elsewhere the watcher was started before.
-/

namespace LibTasks.Net.HttpSender

open LibTasks.Foundation

/-- `dispatcher::mode` -/
inductive Mode where
  | singleLoop
  | multiLoop
  deriving DecidableEq, Repr

structure Config where
  mode : Mode
  numWorkers : Nat
  /-- `auto_delete()` of the sender -/
  autoDelete : Bool

/-- The event masks. -/
inductive Ev where
  | undef
  | read
  | write
  deriving DecidableEq, Repr

/-- Functors that are passed to `exec_in_worker_ctx`: those of `start_watcher`,
`stop_watcher`, `update_watcher` and `dispose` of the sender, and any other one. -/
inductive Func where
  | start
  | stop
  | update
  | dispose
  | other
  deriving DecidableEq, Repr

/-- A functor that is being executed. -/
inductive Running where
  | fresh (f : Func)
  /-- `update_watcher` is about to stop an active watcher. -/
  | updateStop
  /-- `update_watcher` is about to call `ev_io_set`. -/
  | updateSet (active : Bool)
  /-- `update_watcher` is about to start the watcher again. -/
  | updateStart
  /-- `dispose` is about to delete the sender. -/
  | delete
  deriving DecidableEq, Repr

/-- The sender. -/
structure Sender where
  /-- `ev_is_active` of the watcher -/
  active : Bool := false
  fd : Option Nat := none
  remote : Option Nat := none
  events : Ev := .undef
  changePending : Bool := false
  /-- `m_watcher_initialized` -/
  initialized : Bool := false
  /-- `assigned_worker()` -/
  assigned : Option Nat := none
  deleted : Bool := false
  /-- `ev_io_set` was called for an active watcher, or its file descriptor was closed. -/
  violated : Bool := false
  deriving DecidableEq, Repr

namespace Sender

/-- `ev_io_set` -/
def ioSet (x : Sender) : Sender := { x with violated := x.violated || x.active }

/-- `init_watcher` -/
def initWatcher (x : Sender) : Sender := { x.ioSet with initialized := true }

/-- `socket().close()` -/
def close (x : Sender) : Sender :=
  { x with fd := none, violated := x.violated || (x.active && x.fd.isSome) }

def setEvents (x : Sender) (events : Ev) : Sender :=
  if x.events ≠ events then { x with events := events, changePending := true } else x

section SetEvents

variable (x : Sender) (events : Ev)

@[simp] theorem setEvents_active : (x.setEvents events).active = x.active := by
  rw [setEvents]
  split <;> rfl

@[simp] theorem setEvents_fd : (x.setEvents events).fd = x.fd := by
  rw [setEvents]
  split <;> rfl

@[simp] theorem setEvents_assigned : (x.setEvents events).assigned = x.assigned := by
  rw [setEvents]
  split <;> rfl

@[simp] theorem setEvents_initialized : (x.setEvents events).initialized = x.initialized := by
  rw [setEvents]
  split <;> rfl

@[simp] theorem setEvents_deleted : (x.setEvents events).deleted = x.deleted := by
  rw [setEvents]
  split <;> rfl

@[simp] theorem setEvents_violated : (x.setEvents events).violated = x.violated := by
  rw [setEvents]
  split <;> rfl

end SetEvents

/-- One operation of a functor, and what is left of it. -/
def run (x : Sender) : Running → Sender × Option Running
  | .fresh .start => ({ x with active := true }, none)
  | .fresh .stop => ({ x with active := false }, none)
  | .fresh .update => (x, some (if x.active then .updateStop else .updateSet false))
  | .updateStop => ({ x with active := false }, some (.updateSet true))
  | .updateSet active => (x.ioSet, if active then some .updateStart else none)
  | .updateStart => ({ x with active := true }, none)
  | .fresh .dispose => ({ x with active := false }, some .delete)
  | .delete => ({ x.close with deleted := true }, none)
  | .fresh .other => (x, none)

/-- The functors of a sender that was deleted do nothing here. -/
def exec (x : Sender) (r : Running) : Sender × Option Running :=
  if x.deleted then (x, none) else x.run r

end Sender

/-- Where the thread of a worker is. -/
inductive Point where
  /-- Outside of what concerns the sender. -/
  | away
  /-- In the event loop, between two callbacks. -/
  | loop
  /-- In `tasks_event_callback`, before `stop_watcher`. -/
  | fired (e : Ev)
  /-- In `tasks_event_callback`, before `add_event`. -/
  | addEvent (e : Ev)
  /-- In `tasks_async_callback`, with the functor that is executed and the remaining ones. -/
  | drain (running : Option Running) (rest : List Func)
  /-- In other code that may call `send`. -/
  | user
  /-- In `handle_event`. -/
  | handling (e : Ev)
  /-- `handle_event` has called `set_events`, `update_watcher` comes next. -/
  | written
  /-- `update_watcher` is about to clear `m_change_pending`. -/
  | clearing
  /-- `handle_event` has returned; the error callbacks may run. -/
  | handled (cont : Bool)
  deriving DecidableEq, Repr

/-- A call of `exec_in_worker_ctx` in progress. -/
inductive Call where
  | idle
  | test (w : Nat) (f : Func)
  | direct (r : Running)
  | push (w : Nat) (f : Func)
  deriving DecidableEq, Repr

/-- A thread.  The threads of the workers come first. -/
structure Thread where
  point : Point := .away
  call : Call := .idle
  /-- The events of the sender in `m_events_queue`, without the one that is handled. -/
  events : List Ev := []
  deriving DecidableEq, Repr

/-- Where a call of `send` is. -/
inductive SendPoint where
  | close (remote w : Nat)
  | assign (remote w : Nat)
  | connect
  /-- `add_event_task` was called, `init_watcher` comes next. -/
  | add
  /-- `start_watcher` comes next. -/
  | start (w : Nat)
  | update (w : Nat)
  /-- `update_watcher` is about to clear `m_change_pending`. -/
  | clear
  deriving DecidableEq, Repr

structure State where
  /-- The worker whose `m_leader` is set, in single loop mode. -/
  leader : Option Nat := none
  lastWorker : Nat := 0
  /-- `m_rr_worker_id` -/
  roundRobin : Nat := 0
  threads : Nat → Thread := fun _ => {}
  queues : Nat → List Func := fun _ => []
  sender : Sender := {}
  /-- The thread that is in `send`.  The calls do not overlap. -/
  sending : Option (Nat × SendPoint) := none

/-- How `connect` ends: it succeeds, it throws before a socket was made, or after. -/
inductive Connected where
  | success (fd : Nat)
  | noSocket
  | failed (fd : Nat)
  deriving DecidableEq, Repr

inductive Action where
  /-- The next operation of `exec_in_worker_ctx`. -/
  | call (t : Nat)
  /-- The next operation of the thread of a worker. -/
  | worker (i : Nat)
  | fire (i : Nat) (e : Ev)
  | drain (i q : Nat)
  | enterLoop (i : Nat)
  | leaveLoop (i : Nat)
  | enterUser (i : Nat)
  | leaveUser (i : Nat)
  | handle (i : Nat)
  /-- The request was written. -/
  | written (i : Nat)
  | handlerReturn (i : Nat) (cont : Bool)
  /-- User code passes another functor to `exec_in_worker_ctx`. -/
  | user (t w : Nat)
  | demote (i : Nat)
  | promote (i : Nat)
  | send (t remote : Nat)
  | sendStep (t : Nat)
  | connect (t : Nat) (result : Connected)
  deriving DecidableEq, Repr

/-- Whether code of the user may run at a point. -/
def Point.inUserCode : Point → Bool
  | .user | .handling .read | .handled _ | .drain (some (.fresh .other)) _ => true
  | _ => false

namespace State

/-- `m_leader` of a worker. -/
def leads (cfg : Config) (s : State) (i : Nat) : Bool :=
  match cfg.mode with
  | .singleLoop => s.leader == some i
  | .multiLoop => true

/-- The test of `exec_in_worker_ctx` of the worker `w` in the thread `t`. -/
def isDirect (cfg : Config) (s : State) (t w : Nat) : Bool :=
  decide (t < cfg.numWorkers) && decide (t = w) && s.leads cfg w

/-- `dispatcher::get_worker_by_task` -/
def getWorkerByTask (cfg : Config) (s : State) (t : Nat) : Nat :=
  match s.sender.assigned, cfg.mode with
  | some w, _ => w
  | none, .multiLoop => s.roundRobin % cfg.numWorkers
  | none, .singleLoop => if t < cfg.numWorkers then t else s.lastWorker

/-- `m_rr_worker_id` after `get_worker_by_task`. -/
def nextRoundRobin (cfg : Config) (s : State) : Nat :=
  match s.sender.assigned, cfg.mode with
  -- `m_rr_worker_id` is an `uint8_t`.
  | none, .multiLoop => (s.roundRobin + 1) % 256
  | _, _ => s.roundRobin

/-- `event_task::assign_worker` -/
def assignWorker (cfg : Config) (x : Sender) (w : Nat) : Sender :=
  match cfg.mode with
  | .multiLoop => if x.assigned = none then { x with assigned := some w } else x
  | .singleLoop => x

/-- The thread is not in a call of `exec_in_worker_ctx` or `send`. -/
def ready (s : State) (t : Nat) : Bool :=
  (s.threads t).call == .idle && s.sending.map Prod.fst != some t

def setThread (s : State) (t : Nat) (x : Thread) : State :=
  { s with threads := Function.update s.threads t x }

/-- The next operation of `exec_in_worker_ctx`. -/
def callStep (cfg : Config) (s : State) (t : Nat) : Option State :=
  let x := s.threads t
  match x.call with
  | .idle => none
  | .test w f =>
      if s.isDirect cfg t w then some (s.setThread t { x with call := .direct (.fresh f) })
      else some (s.setThread t { x with call := .push w f })
  | .direct r =>
      let result := s.sender.exec r
      some ({ s with sender := result.1 }.setThread t
        { x with call := result.2.elim .idle .direct })
  | .push w f =>
      some ({ s with queues := Function.update s.queues w (s.queues w ++ [f]) }.setThread t
        { x with call := .idle })

/-- The next operation of the thread of a worker, where it has no choice. -/
def workerStep (cfg : Config) (s : State) (i : Nat) : Option State :=
  let x := s.threads i
  match x.point with
  | .fired e =>
      some ({ s with sender := (s.sender.exec (.fresh .stop)).1 }.setThread i
        { x with point := .addEvent e })
  | .addEvent e => some (s.setThread i { x with point := .loop, events := x.events ++ [e] })
  | .drain none [] => some (s.setThread i { x with point := .loop })
  | .drain none (f :: rest) =>
      some (s.setThread i { x with point := .drain (some (.fresh f)) rest })
  | .drain (some r) rest =>
      let result := s.sender.exec r
      some ({ s with sender := result.1 }.setThread i { x with point := .drain result.2 rest })
  | .written =>
      if s.sender.changePending then
        some (s.setThread i { x with point := .clearing, call := .test i .update })
      else some (s.setThread i { x with point := .handled true })
  | .clearing =>
      some ({ s with sender := { s.sender with changePending := false } }.setThread i
        { x with point := .handled true })
  | .handled true => some (s.setThread i { x with point := .away, call := .test i .start })
  | .handled false =>
      if cfg.autoDelete then
        some ({ s with roundRobin := s.nextRoundRobin cfg }.setThread i
          { x with point := .away, call := .test (s.getWorkerByTask cfg i) .dispose })
      else some (s.setThread i { x with point := .away })
  | .away | .loop | .user | .handling _ => none

/-- The next operation of `send`. -/
def sendStep (cfg : Config) (s : State) (t : Nat) : SendPoint → Option State
  | .close remote w => some { s with
      sender := s.sender.close, sending := some (t, .assign remote w) }
  | .assign remote w =>
      let x := { s.sender with remote := some remote }.setEvents .write
      some { s with
        sender := x, sending := some (t, if x.fd.isSome then .update w else .connect) }
  | .connect => none
  | .add => some { s with
      sender := s.sender.initWatcher, roundRobin := s.nextRoundRobin cfg
      sending := some (t, .start (s.getWorkerByTask cfg t)) }
  | .start w =>
      some ({ s with sender := assignWorker cfg s.sender w, sending := none }.setThread t
        { s.threads t with call := .test w .start })
  | .update w =>
      if s.sender.initialized = false then none
      else if s.sender.changePending then
        some ({ s with sending := some (t, .clear) }.setThread t
          { s.threads t with call := .test w .update })
      else some { s with sending := none }
  | .clear =>
      some { s with sender := { s.sender with changePending := false }, sending := none }

/-- `send` finds out whether it has to leave another remote. -/
def beginSend (cfg : Config) (s : State) (t remote : Nat) : Option State :=
  let w := s.getWorkerByTask cfg t
  if s.sender.fd ≠ none ∧ s.sender.remote ≠ some remote then
    if s.sender.initialized = false then none
    else some ({ s with
        roundRobin := s.nextRoundRobin cfg, sending := some (t, .close remote w) }.setThread t
      { s.threads t with call := .test w .stop })
  else some { s with
    roundRobin := s.nextRoundRobin cfg, sending := some (t, .assign remote w) }

end State

/-- Code of the user may make a call in the thread `t`. -/
def canCall (cfg : Config) (s : State) (t : Nat) : Bool :=
  s.ready t && (decide (cfg.numWorkers ≤ t) || (s.threads t).point.inUserCode)

open State in
def step (cfg : Config) : Action → State → Option State
  | .call t, s => s.callStep cfg t
  | .worker i, s => if i < cfg.numWorkers ∧ s.ready i then s.workerStep cfg i else none
  | .fire i e, s =>
      if i < cfg.numWorkers ∧ s.ready i ∧ (s.threads i).point = .loop ∧ s.sender.active = true ∧
          (cfg.mode = .multiLoop → s.sender.assigned = some i) then
        some (s.setThread i { s.threads i with point := .fired e })
      else none
  | .drain i q, s =>
      if i < cfg.numWorkers ∧ s.ready i ∧ (s.threads i).point = .loop ∧
          (cfg.mode = .multiLoop → q = i) then
        some ({ s with queues := Function.update s.queues q [] }.setThread i
          { s.threads i with point := .drain none (s.queues q) })
      else none
  | .enterLoop i, s =>
      if i < cfg.numWorkers ∧ s.ready i ∧ (s.threads i).point = .away ∧
          (s.threads i).events = [] ∧ s.leads cfg i then
        some (s.setThread i { s.threads i with point := .loop })
      else none
  | .leaveLoop i, s =>
      if i < cfg.numWorkers ∧ s.ready i ∧ (s.threads i).point = .loop then
        some (s.setThread i { s.threads i with point := .away })
      else none
  | .enterUser i, s =>
      if i < cfg.numWorkers ∧ s.ready i ∧ (s.threads i).point = .away then
        some (s.setThread i { s.threads i with point := .user })
      else none
  | .leaveUser i, s =>
      if i < cfg.numWorkers ∧ s.ready i ∧ (s.threads i).point = .user then
        some (s.setThread i { s.threads i with point := .away })
      else none
  | .handle i, s =>
      match (s.threads i).events with
      | e :: rest =>
          if i < cfg.numWorkers ∧ s.ready i ∧ (s.threads i).point = .away then
            some (s.setThread i { s.threads i with point := .handling e, events := rest })
          else none
      | [] => none
  | .written i, s =>
      if i < cfg.numWorkers ∧ s.ready i ∧ (s.threads i).point = .handling .write then
        some ({ s with sender := s.sender.setEvents .read }.setThread i
          { s.threads i with point := .written })
      else none
  | .handlerReturn i cont, s =>
      match (s.threads i).point with
      | .handling _ =>
          if i < cfg.numWorkers ∧ s.ready i then
            some (s.setThread i { s.threads i with point := .handled cont })
          else none
      | _ => none
  | .user t w, s =>
      if canCall cfg s t then some (s.setThread t { s.threads t with call := .test w .other })
      else none
  | .demote i, s =>
      if cfg.mode = .singleLoop ∧ s.leader = some i ∧ s.ready i ∧ (s.threads i).point = .away then
        some { s with leader := none }
      else none
  | .promote i, s =>
      if cfg.mode = .singleLoop ∧ s.leader = none ∧ i < cfg.numWorkers ∧ s.ready i ∧
          (s.threads i).point = .away ∧ (s.threads i).events = [] then
        some { s with leader := some i, lastWorker := i }
      else none
  | .send t remote, s =>
      if canCall cfg s t ∧ s.sending = none ∧ s.sender.deleted = false then
        s.beginSend cfg t remote
      else none
  | .sendStep t, s =>
      match s.sending with
      | some (u, point) =>
          if t = u ∧ (s.threads t).call = .idle then s.sendStep cfg t point else none
      | none => none
  | .connect t result, s =>
      if s.sending = some (t, .connect) then
        match result with
        | .success fd =>
            some { s with sender := { s.sender with fd := some fd }, sending := some (t, .add) }
        | .noSocket => some { s with sending := none }
        | .failed fd =>
            some { s with sender := { s.sender with fd := some fd }, sending := none }
      else none

/-- A sender, the workers and any other threads. -/
def system (cfg : Config) : System State Action where
  init := {}
  step := step cfg

/-! ## What a step can do -/

/-- What a thread does outside of `send`: its new record, the functor queues and the sender. -/
inductive Acts (cfg : Config) (s : State) (u : Nat) :
    Thread → (Nat → List Func) → Sender → Prop where
  | testDirect {w : Nat} {f : Func} (here : (s.threads u).call = .test w f)
      (isDirect : s.isDirect cfg u w = true) :
      Acts cfg s u { s.threads u with call := .direct (.fresh f) } s.queues s.sender
  | testPush {w : Nat} {f : Func} (here : (s.threads u).call = .test w f)
      (notDirect : s.isDirect cfg u w = false) :
      Acts cfg s u { s.threads u with call := .push w f } s.queues s.sender
  | direct {r : Running} (here : (s.threads u).call = .direct r) :
      Acts cfg s u { s.threads u with call := (s.sender.exec r).2.elim .idle .direct } s.queues
        (s.sender.exec r).1
  | push {w : Nat} {f : Func} (here : (s.threads u).call = .push w f) :
      Acts cfg s u { s.threads u with call := .idle }
        (Function.update s.queues w (s.queues w ++ [f])) s.sender
  | stopFired {e : Ev} (ready : u < cfg.numWorkers ∧ s.ready u = true)
      (here : (s.threads u).point = .fired e) :
      Acts cfg s u { s.threads u with point := .addEvent e } s.queues
        (s.sender.exec (.fresh .stop)).1
  | addEvent {e : Ev} (ready : u < cfg.numWorkers ∧ s.ready u = true)
      (here : (s.threads u).point = .addEvent e) :
      Acts cfg s u { s.threads u with point := .loop, events := (s.threads u).events ++ [e] }
        s.queues s.sender
  | drainEnd (ready : u < cfg.numWorkers ∧ s.ready u = true)
      (here : (s.threads u).point = .drain none []) :
      Acts cfg s u { s.threads u with point := .loop } s.queues s.sender
  | drainNext {f : Func} {rest : List Func} (ready : u < cfg.numWorkers ∧ s.ready u = true)
      (here : (s.threads u).point = .drain none (f :: rest)) :
      Acts cfg s u { s.threads u with point := .drain (some (.fresh f)) rest } s.queues s.sender
  | drainRun {r : Running} {rest : List Func} (ready : u < cfg.numWorkers ∧ s.ready u = true)
      (here : (s.threads u).point = .drain (some r) rest) :
      Acts cfg s u { s.threads u with point := .drain (s.sender.exec r).2 rest } s.queues
        (s.sender.exec r).1
  | update (ready : u < cfg.numWorkers ∧ s.ready u = true) (here : (s.threads u).point = .written) :
      Acts cfg s u { s.threads u with point := .clearing, call := .test u .update } s.queues
        s.sender
  | noUpdate (ready : u < cfg.numWorkers ∧ s.ready u = true)
      (here : (s.threads u).point = .written) :
      Acts cfg s u { s.threads u with point := .handled true } s.queues s.sender
  | clear (ready : u < cfg.numWorkers ∧ s.ready u = true) (here : (s.threads u).point = .clearing) :
      Acts cfg s u { s.threads u with point := .handled true } s.queues
        { s.sender with changePending := false }
  | rearm (ready : u < cfg.numWorkers ∧ s.ready u = true)
      (here : (s.threads u).point = .handled true) :
      Acts cfg s u { s.threads u with point := .away, call := .test u .start } s.queues s.sender
  | dispose (ready : u < cfg.numWorkers ∧ s.ready u = true)
      (here : (s.threads u).point = .handled false) :
      Acts cfg s u
        { s.threads u with point := .away, call := .test (s.getWorkerByTask cfg u) .dispose }
        s.queues s.sender
  | abandon (ready : u < cfg.numWorkers ∧ s.ready u = true)
      (here : (s.threads u).point = .handled false) :
      Acts cfg s u { s.threads u with point := .away } s.queues s.sender
  | fire (e : Ev) (ready : u < cfg.numWorkers ∧ s.ready u = true)
      (here : (s.threads u).point = .loop)
      (isActive : s.sender.active = true)
      (home : cfg.mode = .multiLoop → s.sender.assigned = some u) :
      Acts cfg s u { s.threads u with point := .fired e } s.queues s.sender
  | drain (q : Nat) (ready : u < cfg.numWorkers ∧ s.ready u = true)
      (here : (s.threads u).point = .loop)
      (home : cfg.mode = .multiLoop → q = u) :
      Acts cfg s u { s.threads u with point := .drain none (s.queues q) }
        (Function.update s.queues q []) s.sender
  | enterLoop (ready : u < cfg.numWorkers ∧ s.ready u = true) (here : (s.threads u).point = .away)
      (leads : s.leads cfg u = true) :
      Acts cfg s u { s.threads u with point := .loop } s.queues s.sender
  | leave (ready : u < cfg.numWorkers ∧ s.ready u = true)
      (here : (s.threads u).point = .loop ∨ (s.threads u).point = .user) :
      Acts cfg s u { s.threads u with point := .away } s.queues s.sender
  | enterUser (ready : u < cfg.numWorkers ∧ s.ready u = true) (here : (s.threads u).point = .away) :
      Acts cfg s u { s.threads u with point := .user } s.queues s.sender
  | handle {e : Ev} {rest : List Ev} (ready : u < cfg.numWorkers ∧ s.ready u = true)
      (here : (s.threads u).point = .away) (event : (s.threads u).events = e :: rest) :
      Acts cfg s u { s.threads u with point := .handling e, events := rest } s.queues s.sender
  | written (ready : u < cfg.numWorkers ∧ s.ready u = true)
      (here : (s.threads u).point = .handling .write) :
      Acts cfg s u { s.threads u with point := .written } s.queues (s.sender.setEvents .read)
  | handled {e : Ev} (cont : Bool) (ready : u < cfg.numWorkers ∧ s.ready u = true)
      (here : (s.threads u).point = .handling e) :
      Acts cfg s u { s.threads u with point := .handled cont } s.queues s.sender
  | user (w : Nat) (allowed : canCall cfg s u = true) :
      Acts cfg s u { s.threads u with call := .test w .other } s.queues s.sender

inductive Moves (cfg : Config) (s : State) : Action → State → Prop where
  | act {action : Action} {u roundRobin : Nat} {x : Thread} {queues : Nat → List Func} {y : Sender}
      (noSend : ∀ t remote, action ≠ .send t remote) (acts : Acts cfg s u x queues y) :
      Moves cfg s action
        { s with
          threads := Function.update s.threads u x, queues := queues, sender := y
          roundRobin := roundRobin }
  | demote {i : Nat} (single : cfg.mode = .singleLoop) (here : s.leader = some i)
      (ready : s.ready i = true) (away : (s.threads i).point = .away) :
      Moves cfg s (.demote i) { s with leader := none }
  | promote {i : Nat} (single : cfg.mode = .singleLoop) (here : s.leader = none)
      (bound : i < cfg.numWorkers) :
      Moves cfg s (.promote i) { s with leader := some i, lastWorker := i }
  | leave {t remote : Nat} (allowed : canCall cfg s t = true) (here : s.sending = none)
      (other : s.sender.fd ≠ none ∧ s.sender.remote ≠ some remote)
      (initialized : s.sender.initialized = true) :
      Moves cfg s (.send t remote)
        ({ s with
            roundRobin := s.nextRoundRobin cfg
            sending := some (t, .close remote (s.getWorkerByTask cfg t)) }.setThread t
          { s.threads t with call := .test (s.getWorkerByTask cfg t) .stop })
  | stay {t remote : Nat} (allowed : canCall cfg s t = true) (here : s.sending = none)
      (same : ¬ (s.sender.fd ≠ none ∧ s.sender.remote ≠ some remote)) :
      Moves cfg s (.send t remote)
        { s with
          roundRobin := s.nextRoundRobin cfg
          sending := some (t, .assign remote (s.getWorkerByTask cfg t)) }
  | sendStep {t : Nat} {point : SendPoint} {next : State} (here : s.sending = some (t, point))
      (idle : (s.threads t).call = .idle) (stepped : s.sendStep cfg t point = some next) :
      Moves cfg s (.sendStep t) next
  | connected {t fd : Nat} (here : s.sending = some (t, .connect)) :
      Moves cfg s (.connect t (.success fd))
        { s with sender := { s.sender with fd := some fd }, sending := some (t, .add) }
  | noSocket {t : Nat} (here : s.sending = some (t, .connect)) :
      Moves cfg s (.connect t .noSocket) { s with sending := none }
  | notConnected {t fd : Nat} (here : s.sending = some (t, .connect)) :
      Moves cfg s (.connect t (.failed fd))
        { s with sender := { s.sender with fd := some fd }, sending := none }

variable {cfg : Config} {s next : State}

theorem moves_of_callStep {t : Nat} (stepped : s.callStep cfg t = some next) :
    Moves cfg s (.call t) next := by
  simp only [State.callStep] at stepped
  split at stepped
  · cases stepped
  · next w f here =>
      split at stepped
      · next isDirect =>
          cases stepped
          exact .act nofun (.testDirect here isDirect)
      · next notDirect =>
          cases stepped
          exact .act nofun (.testPush here (Bool.eq_false_iff.mpr notDirect))
  · next r here =>
      cases stepped
      exact .act nofun (.direct here)
  · next w f here =>
      cases stepped
      exact .act nofun (.push here)

theorem moves_of_workerStep {i : Nat} (ready : i < cfg.numWorkers ∧ s.ready i = true)
    (stepped : s.workerStep cfg i = some next) : Moves cfg s (.worker i) next := by
  simp only [State.workerStep] at stepped
  split at stepped
  · next e here =>
      cases stepped
      exact .act nofun (.stopFired ready here)
  · next e here =>
      cases stepped
      exact .act nofun (.addEvent ready here)
  · next here =>
      cases stepped
      exact .act nofun (.drainEnd ready here)
  · next f rest here =>
      cases stepped
      exact .act nofun (.drainNext ready here)
  · next r rest here =>
      cases stepped
      exact .act nofun (.drainRun ready here)
  · next here =>
      split at stepped
      · cases stepped
        exact .act nofun (.update ready here)
      · cases stepped
        exact .act nofun (.noUpdate ready here)
  · next here =>
      cases stepped
      exact .act nofun (.clear ready here)
  · next here =>
      cases stepped
      exact .act nofun (.rearm ready here)
  · next here =>
      split at stepped
      · cases stepped
        exact .act nofun (.dispose ready here)
      · cases stepped
        exact .act nofun (.abandon ready here)
  all_goals cases stepped

theorem moves_of_step {action : Action} (stepped : (system cfg).step action s = some next) :
    Moves cfg s action next := by
  cases action with
  | call t => exact moves_of_callStep stepped
  | worker i =>
      simp only [system, step] at stepped
      split at stepped
      · next allowed => exact moves_of_workerStep allowed stepped
      · cases stepped
  | fire i e =>
      simp only [system, step] at stepped
      split at stepped
      · next allowed =>
          cases stepped
          exact .act nofun
            (.fire e ⟨allowed.1, allowed.2.1⟩ allowed.2.2.1 allowed.2.2.2.1 allowed.2.2.2.2)
      · cases stepped
  | drain i q =>
      simp only [system, step] at stepped
      split at stepped
      · next allowed =>
          cases stepped
          exact .act nofun (.drain q ⟨allowed.1, allowed.2.1⟩ allowed.2.2.1 allowed.2.2.2)
      · cases stepped
  | enterLoop i =>
      simp only [system, step] at stepped
      split at stepped
      · next allowed =>
          cases stepped
          exact .act nofun (.enterLoop ⟨allowed.1, allowed.2.1⟩ allowed.2.2.1 allowed.2.2.2.2)
      · cases stepped
  | leaveLoop i =>
      simp only [system, step] at stepped
      split at stepped
      · next allowed =>
          cases stepped
          exact .act nofun (.leave ⟨allowed.1, allowed.2.1⟩ (.inl allowed.2.2))
      · cases stepped
  | enterUser i =>
      simp only [system, step] at stepped
      split at stepped
      · next allowed =>
          cases stepped
          exact .act nofun (.enterUser ⟨allowed.1, allowed.2.1⟩ allowed.2.2)
      · cases stepped
  | leaveUser i =>
      simp only [system, step] at stepped
      split at stepped
      · next allowed =>
          cases stepped
          exact .act nofun (.leave ⟨allowed.1, allowed.2.1⟩ (.inr allowed.2.2))
      · cases stepped
  | handle i =>
      simp only [system, step] at stepped
      split at stepped
      · next e rest event =>
          split at stepped
          · next allowed =>
              cases stepped
              exact .act nofun (.handle ⟨allowed.1, allowed.2.1⟩ allowed.2.2 event)
          · cases stepped
      · cases stepped
  | written i =>
      simp only [system, step] at stepped
      split at stepped
      · next allowed =>
          cases stepped
          exact .act nofun (.written ⟨allowed.1, allowed.2.1⟩ allowed.2.2)
      · cases stepped
  | handlerReturn i cont =>
      simp only [system, step] at stepped
      split at stepped
      · next e here =>
          split at stepped
          · next allowed =>
              cases stepped
              exact .act nofun (.handled cont allowed here)
          · cases stepped
      · cases stepped
  | user t w =>
      simp only [system, step] at stepped
      split at stepped
      · next allowed =>
          cases stepped
          exact .act nofun (.user w allowed)
      · cases stepped
  | demote i =>
      simp only [system, step] at stepped
      split at stepped
      · next allowed =>
          cases stepped
          exact .demote allowed.1 allowed.2.1 allowed.2.2.1 allowed.2.2.2
      · cases stepped
  | promote i =>
      simp only [system, step] at stepped
      split at stepped
      · next allowed =>
          cases stepped
          exact .promote allowed.1 allowed.2.1 allowed.2.2.1
      · cases stepped
  | send t remote =>
      simp only [system, step] at stepped
      split at stepped
      · next allowed =>
          simp only [State.beginSend] at stepped
          split at stepped
          · next other =>
              split at stepped
              · cases stepped
              · next initialized =>
                  cases stepped
                  exact .leave allowed.1 allowed.2.1 other (Bool.not_eq_false _ ▸ initialized)
          · next same =>
              cases stepped
              exact .stay allowed.1 allowed.2.1 same
      · cases stepped
  | sendStep t =>
      simp only [system, step] at stepped
      split at stepped
      · next u point here =>
          split at stepped
          · next allowed =>
              rcases allowed with ⟨rfl, idle⟩
              exact .sendStep here idle stepped
          · cases stepped
      · cases stepped
  | connect t result =>
      simp only [system, step] at stepped
      split at stepped
      · next here =>
          cases result with
          | success fd =>
              cases stepped
              exact .connected here
          | noSocket =>
              cases stepped
              exact .noSocket here
          | failed fd =>
              cases stepped
              exact .notConnected here
      · cases stepped

end LibTasks.Net.HttpSender

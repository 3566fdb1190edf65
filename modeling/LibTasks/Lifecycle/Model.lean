import LibTasks.Net.HttpSender

/-!
# The life of event tasks

Event tasks from `add_task` to `delete` (`tasks/dispatcher.cpp`, `tasks/worker.cpp`,
`tasks/io_task_base.cpp`, `tasks/timer_task.cpp`, `tasks/net_io_task.cpp`,
`tasks/disk_io_task.cpp`, `tasks/task.cpp`, `include/tasks/cleanup_task.h`,
`include/tasks/disposable.h`) in both run modes.  There are `n` workers and `m` other
threads.  Of the dispatcher the leader, the threads of the workers and the functor queues
are left; a worker may drain a queue whenever it is in its event loop, so `ev_async_send`
needs no step.  A watcher is initialized before it is started, so that
`m_watcher_initialized` is left out.  A run ends where an assertion fails.

What a handler computes is left open: it returns `true` or `false`, it may change the
events of its task and forbid the disposal of it.  Code of the user runs in any thread that
is between two operations.  It creates tasks, adds them, deletes those that it has, and
allows the disposal of a task again.  A task is disabled by its own handler only, and a
handler that has changed the events does not give the task back to the user in the same
call: its functor may still be in a queue.
-/

namespace LibTasks.Lifecycle

open LibTasks.Foundation
open LibTasks.Net.HttpSender (Mode)

/-- The classes of event tasks. -/
inductive Kind where
  /-- `io_task_base`, the one that is `disposable` -/
  | io
  | timer
  /-- `cleanup_task` for the disposable task with this number -/
  | cleanup (disposable : Nat)
  | disk
  deriving DecidableEq, Repr

/-- A pointer to a task, with what never changes of the task. -/
structure Ref where
  id : Nat
  kind : Kind
  /-- `disable_auto_delete` was called. -/
  kept : Bool := false
  deriving DecidableEq, Repr

/-- `auto_delete()`, which stays set for a `cleanup_task` -/
def Ref.autoDelete (r : Ref) : Bool :=
  match r.kind with
  | .cleanup _ => true
  | .io | .timer | .disk => !r.kept

/-- The functors that are passed to `exec_in_worker_ctx` and `async_call`. -/
inductive Func (n : Nat) where
  /-- `start_watcher` -/
  | start (r : Ref)
  /-- `stop_watcher` -/
  | stop (t : Nat)
  /-- `update_watcher` -/
  | update (t : Nat)
  /-- `dispose` of an `io_task_base` -/
  | dispose (t : Nat)
  /-- `net_io_task::add_task` with worker `w` -/
  | add (r : Ref) (w : Fin n)
  /-- `worker::add_async_event` -/
  | addEvent (r : Ref)
  | other
  deriving DecidableEq, Repr

/-- A call of `exec_event_handler`. -/
structure Frame (n : Nat) where
  task : Ref
  worker : Fin n
  /-- What `handle_event` has returned. -/
  result : Option Bool := none
  /-- The handler has called `update_watcher`. -/
  updated : Bool := false
  deriving DecidableEq, Repr

/-- Where the thread of a worker is in `worker::run`. -/
inductive Point (n : Nat) where
  /-- Outside of the event loop. -/
  | away
  /-- In the event loop, between two callbacks. -/
  | loop
  /-- In `tasks_event_callback`, before `stop_watcher`. -/
  | fired (r : Ref)
  /-- In `tasks_event_callback`, before `add_event`. -/
  | addEvent (r : Ref)
  /-- In `tasks_async_callback` for the queue of `q`, with the remaining functors. -/
  | drain (q : Fin n) (rest : List (Func n))
  deriving DecidableEq, Repr

/-- A call of `exec_in_worker_ctx` in progress. -/
inductive Call (n : Nat) where
  | idle
  | test (w : Fin n) (f : Func n)
  | direct (f : Func n)
  | push (w : Fin n) (f : Func n)
  deriving DecidableEq, Repr

structure Thread (n : Nat) where
  point : Point n := .away
  /-- The calls of `exec_event_handler`, the innermost one first. -/
  frames : List (Frame n) := []
  call : Call n := .idle
  /-- `m_events_queue`, without the event that is handled -/
  events : List Ref := []
  deriving DecidableEq, Repr

/-- What changes of a task. -/
structure Task (n : Nat) where
  /-- `m_immediate` of a `timer_task` -/
  immediate : Bool := false
  /-- `m_can_dispose` -/
  canDispose : Bool := true
  /-- `assigned_worker()` -/
  assigned : Option (Fin n) := none
  /-- How often `finish` was called. -/
  finishes : Nat := 0
  /-- How often the dispatcher has deleted the task. -/
  deletes : Nat := 0
  /-- How often the user has deleted the task. -/
  freed : Nat := 0
  /-- The task was used after it was deleted. -/
  misused : Bool := false
  /-- The watcher was touched in a loop other than its own. -/
  strayed : Bool := false
  deriving DecidableEq, Repr

/-- The threads of the workers, and other ones. -/
abbrev ThreadId (n m : Nat) := Fin n ⊕ Fin m

structure State (n m : Nat) where
  /-- The worker whose `m_leader` is set, in single loop mode. -/
  leader : Fin n
  /-- `m_last_worker_id` -/
  lastWorker : Fin n
  /-- `m_rr_worker_id` -/
  roundRobin : Nat := 0
  threads : ThreadId n m → Thread n := fun _ => {}
  queues : Fin n → List (Func n) := fun _ => []
  /-- The active watchers with their loops. -/
  watchers : List (Ref × Fin n) := []
  /-- The tasks that the user has. -/
  owned : List Ref := []
  tasks : Nat → Task n := fun _ => {}
  /-- The number of tasks that were created. -/
  made : Nat := 0

/-! ## Tasks and watchers -/

namespace Task

variable {n : Nat}

/-- Something of the task is read or written. -/
def use (x : Task n) : Task n :=
  { x with misused := x.misused || decide (0 < x.deletes + x.freed) }

/-- `m_immediate` is cleared before the handler is called. -/
def clearImmediate (x : Task n) : Task n := { x with immediate := false }

/-- `disposable::disable_dispose` -/
def disableDispose (x : Task n) : Task n := { x.use with canDispose := false }

/-- `disposable::enable_dispose` -/
def enableDispose (x : Task n) : Task n := { x.use with canDispose := true }

/-- The finish functions are called. -/
def finish (x : Task n) : Task n := { x with finishes := x.finishes + 1 }

/-- The dispatcher deletes the task. -/
def delete (x : Task n) : Task n := { x with deletes := x.deletes + 1 }

/-- The user deletes the task. -/
def free (x : Task n) : Task n := { x.use with freed := x.freed + 1 }

/-- The watcher is touched, possibly in the wrong loop. -/
def stray (wrong : Bool) (x : Task n) : Task n := { x with strayed := x.strayed || wrong }

/-- `event_task::assign_worker`, with its assertion. -/
def assignWorker (mode : Mode) (x : Task n) (w : Fin n) : Option (Task n) :=
  match mode, x.assigned with
  | .singleLoop, _ => some x
  | .multiLoop, none => some { x with assigned := some w }
  | .multiLoop, some assigned => if w = assigned then some x else none

/-- `assign_worker` changes nothing else. -/
theorem assignWorker_field {α : Type} (field : Task n → α)
    (kept : ∀ x assigned, field { x with assigned := assigned } = field x) {mode : Mode}
    {x y : Task n} {w : Fin n} (assigned : x.assignWorker mode w = some y) :
    field y = field x := by
  unfold assignWorker at assigned
  split at assigned
  · exact Option.some.inj assigned ▸ rfl
  · exact Option.some.inj assigned ▸ kept x (some w)
  · rw [Option.ite_none_right_eq_some] at assigned
    exact Option.some.inj assigned.2 ▸ rfl

end Task

namespace State

variable {n m : Nat}

def setThread (s : State n m) (th : ThreadId n m) (x : Thread n) : State n m :=
  { s with threads := Function.update s.threads th x }

def setTask (s : State n m) (t : Nat) (x : Task n) : State n m :=
  { s with tasks := Function.update s.tasks t x }

def modify (s : State n m) (t : Nat) (g : Task n → Task n) : State n m :=
  s.setTask t (g (s.tasks t))

@[simp] theorem setThread_made (s : State n m) (th : ThreadId n m) (x : Thread n) :
    (s.setThread th x).made = s.made := rfl

@[simp] theorem setThread_tasks (s : State n m) (th : ThreadId n m) (x : Thread n) :
    (s.setThread th x).tasks = s.tasks := rfl

@[simp] theorem setTask_self (s : State n m) (t : Nat) (x : Task n) :
    (s.setTask t x).tasks t = x :=
  Function.update_self ..

section Modify

variable (s : State n m) (t : Nat) (g : Task n → Task n)

@[simp] theorem modify_threads : (s.modify t g).threads = s.threads := rfl

@[simp] theorem modify_queues : (s.modify t g).queues = s.queues := rfl

@[simp] theorem modify_watchers : (s.modify t g).watchers = s.watchers := rfl

@[simp] theorem modify_owned : (s.modify t g).owned = s.owned := rfl

@[simp] theorem modify_made : (s.modify t g).made = s.made := rfl

theorem modify_tasks (u : Nat) :
    (s.modify t g).tasks u = if u = t then g (s.tasks t) else s.tasks u :=
  Function.update_apply ..

/-- What `g` keeps of every task, `modify` keeps. -/
theorem modify_field {α : Type} (field : Task n → α) (kept : ∀ x, field (g x) = field x)
    (u : Nat) : field ((s.modify t g).tasks u) = field (s.tasks u) := by
  rw [modify_tasks]
  split
  · next same => rw [kept, same]
  · rfl

theorem modify_use_canDispose (u : Nat) :
    ((s.modify t Task.use).tasks u).canDispose = (s.tasks u).canDispose :=
  s.modify_field t Task.use Task.canDispose (fun _ => rfl) u

end Modify

/-- The queue of `async_call` -/
def push (s : State n m) (w : Fin n) (f : Func n) : State n m :=
  { s with queues := Function.update s.queues w (s.queues w ++ [f]) }

/-- `ev_is_active` of the watcher of a task -/
def isActive (s : State n m) (t : Nat) : Bool := s.watchers.any fun entry => entry.1.id == t

/-- `ev_io_start` and `ev_timer_start`, which do nothing for an active watcher -/
def evStart (s : State n m) (r : Ref) (loop : Fin n) : State n m :=
  if s.isActive r.id then s else { s with watchers := s.watchers ++ [(r, loop)] }

/-- Something is done to an active watcher by the thread that runs `loop`. -/
def touch (s : State n m) (t : Nat) (loop : Fin n) : State n m :=
  s.modify t (Task.stray (s.watchers.any fun entry => entry.1.id == t && entry.2 != loop))

/-- `ev_io_stop` and `ev_timer_stop` -/
def evStop (s : State n m) (t : Nat) (loop : Fin n) : State n m :=
  { s.touch t loop with watchers := s.watchers.filter fun entry => entry.1.id != t }

/-! ## Workers -/

variable (mode : Mode)

/-- `m_leader` of a worker -/
def leads (s : State n m) (i : Fin n) : Bool :=
  match mode with
  | .singleLoop => s.leader == i
  | .multiLoop => true

/-- The test of `exec_in_worker_ctx` of the worker `w`. -/
def isDirect (s : State n m) (th : ThreadId n m) (w : Fin n) : Bool :=
  decide (th = .inl w) && s.leads mode w

/-- `worker::loop_ptr` -/
def loopOf [NeZero n] (i : Fin n) : Fin n :=
  match mode with
  | .singleLoop => 0
  | .multiLoop => i

/-- `dispatcher::get_worker_by_task` -/
def getWorkerByTask [NeZero n] (s : State n m) (th : ThreadId n m) (t : Nat) : Fin n :=
  match (s.tasks t).assigned, mode, th with
  | some w, _, _ => w
  | none, .multiLoop, _ => Fin.ofNat n s.roundRobin
  | none, .singleLoop, .inl i => i
  | none, .singleLoop, .inr _ => s.lastWorker

/-- `m_rr_worker_id` after `get_worker_by_task`. -/
def nextRoundRobin (s : State n m) (t : Nat) : Nat :=
  match (s.tasks t).assigned, mode with
  -- `m_rr_worker_id` is an `uint8_t`.
  | none, .multiLoop => (s.roundRobin + 1) % 256
  | _, _ => s.roundRobin

variable [NeZero n]

/-- A functor is executed by the thread of worker `i`, which runs a loop. -/
def exec (s : State n m) (i : Fin n) : Func n → Option (State n m)
  | .start r => some ((s.modify r.id Task.use).evStart r (loopOf mode i))
  | .stop t => some ((s.modify t Task.use).evStop t (loopOf mode i))
  -- An active watcher is stopped, set and started again.
  | .update t => some ((s.modify t Task.use).touch t (loopOf mode i))
  | .dispose t =>
      some (((s.modify t Task.use).evStop t (loopOf mode i)).modify t Task.delete)
  | .add r w => ((s.tasks r.id).use.assignWorker mode w).map
      fun x => (s.setTask r.id x).evStart r (loopOf mode i)
  | .addEvent r => some (s.setThread (.inl i)
      { s.threads (.inl i) with events := (s.threads (.inl i)).events ++ [r] })
  | .other => some s

/-- The next operation of `exec_in_worker_ctx`. -/
def callStep (s : State n m) (th : ThreadId n m) : Option (State n m) :=
  let x := s.threads th
  match x.call, th with
  | .test w f, _ =>
      if s.isDirect mode th w then some (s.setThread th { x with call := .direct f })
      else some (s.setThread th { x with call := .push w f })
  | .direct f, .inl i => (s.setThread th { x with call := .idle }).exec mode i f
  | .push w f, _ => some ((s.setThread th { x with call := .idle }).push w f)
  | .idle, _ | .direct _, .inr _ => none

/-- The next operation of the callbacks of the loop of worker `i`. -/
def workerStep (s : State n m) (i : Fin n) : Option (State n m) :=
  let x := s.threads (.inl i)
  match x.point with
  | .fired r =>
      let s' := s.setThread (.inl i) { x with point := .addEvent r }
      if s.isDirect mode (.inl i) i then s'.exec mode i (.stop r.id)
      else some (s'.push i (.stop r.id))
  | .addEvent r =>
      some (s.setThread (.inl i) { x with point := .loop, events := x.events ++ [r] })
  | .drain _ [] => some (s.setThread (.inl i) { x with point := .loop })
  | .drain q (f :: rest) =>
      -- The source asserts that the functor was executed.
      if s.isDirect mode (.inl i) i then
        (s.setThread (.inl i) { x with point := .drain q rest }).exec mode i f
      else none
  | .away | .loop => none

/-! ## `exec_event_handler` -/

omit [NeZero n] in
/-- `start_watcher` of a task.  That of a `disk_io_task` does nothing, so the caller keeps the
task; an immediate timer is executed at once. -/
def startWatcher (s : State n m) (th : ThreadId n m) (w : Fin n) (r : Ref) : State n m :=
  let s := s.modify r.id Task.use
  let x := s.threads th
  match r.kind with
  | .disk => { s with owned := s.owned ++ [r] }
  | .io => s.setThread th { x with call := .test w (.start r) }
  | .timer | .cleanup _ =>
      if (s.tasks r.id).immediate then
        (s.modify r.id Task.clearImmediate).setThread th
          { x with frames := ⟨r, w, none, false⟩ :: x.frames }
      else s.setThread th { x with call := .test w (.start r) }

omit [NeZero n] in
/-- `start_watcher` keeps a disk task with the user, calls `exec_in_worker_ctx` or calls
`exec_event_handler`. -/
theorem startWatcher_cases (s : State n m) (th : ThreadId n m) (w : Fin n) (r : Ref) :
    r.kind = .disk ∧ s.startWatcher th w r =
        { s.modify r.id Task.use with owned := s.owned ++ [r] } ∨
      r.kind ≠ .disk ∧ s.startWatcher th w r = (s.modify r.id Task.use).setThread th
        { s.threads th with call := .test w (.start r) } ∨
      r.kind ≠ .io ∧ (s.tasks r.id).immediate = true ∧ s.startWatcher th w r =
        ((s.modify r.id Task.use).modify r.id Task.clearImmediate).setThread th
          { s.threads th with frames := ⟨r, w, none, false⟩ :: (s.threads th).frames } := by
  have kept : ((s.modify r.id Task.use).tasks r.id).immediate = (s.tasks r.id).immediate :=
    s.modify_field r.id Task.use Task.immediate (fun _ => rfl) r.id
  cases kind : r.kind with
  | disk => simp [startWatcher, kind]
  | io => simp [startWatcher, kind]
  | timer | cleanup d =>
      simp only [startWatcher, kind, modify_threads, kept]
      split
      · next immediate => simp [immediate]
      · simp

/-- `dispatcher::add_event_task` -/
def addEventTask (s : State n m) (th : ThreadId n m) (r : Ref) : Option (State n m) :=
  let w := s.getWorkerByTask mode th r.id
  ((s.tasks r.id).use.assignWorker mode w).map fun x =>
    ({ s with roundRobin := s.nextRoundRobin mode r.id }.setTask r.id x).startWatcher th w r

/-- `dispatcher::remove_event_task`.  What is not disposable is deleted at once. -/
def removeEventTask (s : State n m) (th : ThreadId n m) (r : Ref) : State n m :=
  match r.kind with
  | .io =>
      let w := s.getWorkerByTask mode th r.id
      let s := { s with roundRobin := s.nextRoundRobin mode r.id }
      if (s.tasks r.id).canDispose then
        s.setThread th { s.threads th with call := .test w (.dispose r.id) }
      else
        let assigned := match mode with | .singleLoop => none | .multiLoop => some w
        ({ s with made := s.made + 1 }.setTask s.made { assigned := assigned }).startWatcher
          th w ⟨s.made, .cleanup r.id, false⟩
  | .timer | .cleanup _ | .disk => s.modify r.id Task.delete

/-- The next operation of the innermost `exec_event_handler` of a thread: `handle_event` of a
`cleanup_task` or `disk_io_task`, and what follows after `handle_event` has returned. -/
def frameStep (s : State n m) (th : ThreadId n m) : Option (State n m) :=
  let x := s.threads th
  match x.frames with
  | [] => none
  | frame :: rest =>
      let r := frame.task
      let s := s.modify r.id Task.use
      match frame.result, r.kind with
      | none, .cleanup d =>
          let s := s.modify d Task.use
          if (s.tasks d).canDispose then
            some (s.setThread th { x with
              frames := { frame with result := some false } :: rest
              call := .test frame.worker (.dispose d) })
          else
            some (s.setThread th { x with frames := { frame with result := some true } :: rest })
      | none, .disk =>
          some (s.setThread th { x with frames := { frame with result := some false } :: rest })
      | none, .io | none, .timer => none
      | some true, _ => some ((s.setThread th { x with frames := rest }).startWatcher th
          frame.worker r)
      | some false, _ =>
          let s := s.setThread th { x with frames := rest }
          if r.autoDelete then
            some ((s.modify r.id Task.finish).removeEventTask mode th r)
          else some { s with owned := s.owned ++ [r] }

end State

/-! ## Runs -/

inductive Action (n m : Nat) where
  /-- The next operation of `exec_in_worker_ctx`. -/
  | call (th : ThreadId n m)
  /-- The next operation of a callback. -/
  | worker (i : Fin n)
  /-- The next operation of `exec_event_handler`. -/
  | frame (th : ThreadId n m)
  | fire (i : Fin n) (r : Ref)
  | drain (i q : Fin n)
  | enterLoop (i : Fin n)
  | leaveLoop (i : Fin n)
  /-- The first event of a worker is taken. -/
  | handle (i : Fin n)
  | handlerReturn (th : ThreadId n m) (cont : Bool)
  /-- The handler has changed the events and calls `update_watcher`. -/
  | update (th : ThreadId n m)
  /-- The handler calls `disable_dispose`. -/
  | disableDispose (th : ThreadId n m)
  | enableDispose (t : Nat)
  /-- Code of the user passes a functor of its own to `exec_in_worker_ctx`. -/
  | user (th : ThreadId n m) (w : Fin n)
  /-- A task is created. -/
  | new (kind : Kind) (kept immediate : Bool)
  /-- `dispatcher::add_event_task` -/
  | addEventTask (th : ThreadId n m) (r : Ref)
  /-- `net_io_task::add_task` with a worker -/
  | addNetTask (th : ThreadId n m) (w : Fin n) (r : Ref)
  /-- `disk_io_task::add_task`: the operation is done, the event is sent. -/
  | addDiskTask (th : ThreadId n m) (r : Ref)
  /-- The user deletes a task. -/
  | free (r : Ref)
  /-- `promote_leader` of worker `i` finds worker `j`. -/
  | promote (i j : Fin n)
  deriving DecidableEq, Repr

variable {n m : Nat}

/-- The thread is not in a call of `exec_in_worker_ctx`. -/
def Thread.ready (x : Thread n) : Bool := x.call == .idle

/-- The thread is not in a call of `exec_event_handler` either. -/
def Thread.free (x : Thread n) : Bool := x.call == .idle && x.frames == []

variable [NeZero n]

def step (mode : Mode) : Action n m → State n m → Option (State n m)
  | .call th, s => s.callStep mode th
  | .worker i, s => if (s.threads (.inl i)).free then s.workerStep mode i else none
  | .frame th, s => if (s.threads th).ready then s.frameStep mode th else none
  | .fire i r, s =>
      let x := s.threads (.inl i)
      if x.free ∧ x.point = .loop ∧ (r, State.loopOf mode i) ∈ s.watchers then
        some ((s.modify r.id Task.use).setThread (.inl i) { x with point := .fired r })
      else none
  | .drain i q, s =>
      let x := s.threads (.inl i)
      if x.free ∧ x.point = .loop ∧ (mode = .multiLoop → q = i) then
        some ({ s with queues := Function.update s.queues q [] }.setThread (.inl i)
          { x with point := .drain q (s.queues q) })
      else none
  | .enterLoop i, s =>
      let x := s.threads (.inl i)
      if x.free ∧ x.point = .away ∧ x.events = [] ∧ s.leads mode i then
        some (s.setThread (.inl i) { x with point := .loop })
      else none
  | .leaveLoop i, s =>
      let x := s.threads (.inl i)
      if x.free ∧ x.point = .loop then some (s.setThread (.inl i) { x with point := .away })
      else none
  | .handle i, s =>
      let x := s.threads (.inl i)
      match x.events with
      | r :: rest =>
          if x.free ∧ x.point = .away then
            some (s.setThread (.inl i)
              { x with events := rest, frames := [⟨r, i, none, false⟩] })
          else none
      | [] => none
  | .handlerReturn th cont, s =>
      let x := s.threads th
      match x.frames with
      | frame :: rest =>
          if x.ready ∧ frame.result = none ∧ (frame.task.kind = .io ∨ frame.task.kind = .timer) ∧
              (frame.updated = true → cont = true ∨ frame.task.autoDelete = true) then
            some ((s.modify frame.task.id Task.use).setThread th
              { x with frames := { frame with result := some cont } :: rest })
          else none
      | [] => none
  | .update th, s =>
      let x := s.threads th
      match x.frames with
      | frame :: rest =>
          if x.ready ∧ frame.result = none ∧ frame.task.kind = .io then
            some ((s.modify frame.task.id Task.use).setThread th { x with
              frames := { frame with updated := true } :: rest
              call := .test frame.worker (.update frame.task.id) })
          else none
      | [] => none
  | .disableDispose th, s =>
      let x := s.threads th
      match x.frames with
      | frame :: _ =>
          if x.ready ∧ frame.result = none ∧ frame.task.kind = .io then
            some (s.modify frame.task.id Task.disableDispose)
          else none
      | [] => none
  | .enableDispose t, s =>
      if (s.tasks t).canDispose = false then
        some (s.modify t Task.enableDispose)
      else none
  | .user th w, s =>
      let x := s.threads th
      if x.ready then some (s.setThread th { x with call := .test w .other }) else none
  | .new kind kept immediate, s =>
      match kind with
      | .cleanup _ => none
      | .io | .timer | .disk =>
          let r : Ref := ⟨s.made, kind, kept⟩
          some ({ s with made := s.made + 1, owned := s.owned ++ [r] }.setTask s.made
            { immediate := immediate && r.kind == Kind.timer })
  | .addEventTask th r, s =>
      if (s.threads th).ready ∧ r ∈ s.owned then
        { s with owned := s.owned.erase r }.addEventTask mode th r
      else none
  | .addNetTask th w r, s =>
      let x := s.threads th
      if x.ready ∧ r ∈ s.owned ∧ r.kind = .io then
        some ({ s with owned := s.owned.erase r }.setThread th
          { x with call := .test w (.add r w) })
      else none
  | .addDiskTask th r, s =>
      let x := s.threads th
      if x.ready ∧ r ∈ s.owned ∧ r.kind = .disk then
        some (({ s with owned := s.owned.erase r }.modify r.id Task.use).setThread th
          { x with call := .push s.lastWorker (.addEvent r) })
      else none
  | .free r, s =>
      if r ∈ s.owned ∧ (s.tasks r.id).canDispose then
        some ({ s with owned := s.owned.erase r }.modify r.id Task.free)
      else none
  | .promote i j, s =>
      let x := s.threads (.inl i)
      let y := s.threads (.inl j)
      if mode = .singleLoop ∧ s.leader = i ∧ x.free ∧ x.point = .away ∧ x.events ≠ [] ∧
          y.free ∧ y.point = .away ∧ y.events = [] then
        some { s with leader := j, lastWorker := j }
      else none

/-- The system after `dispatcher::start`. -/
def system (mode : Mode) : System (State n m) (Action n m) where
  init := { leader := 0, lastWorker := 0 }
  step := step mode

/-! ## Steps -/

/-- What one step can do. -/
inductive Moves (mode : Mode) (s : State n m) : State n m → Prop where
  | testDirect (th : ThreadId n m) (w : Fin n) (f : Func n)
      (at' : (s.threads th).call = .test w f) (direct : s.isDirect mode th w = true) :
      Moves mode s (s.setThread th { s.threads th with call := .direct f })
  | testPush (th : ThreadId n m) (w : Fin n) (f : Func n)
      (at' : (s.threads th).call = .test w f) (indirect : s.isDirect mode th w = false) :
      Moves mode s (s.setThread th { s.threads th with call := .push w f })
  | direct (i : Fin n) (f : Func n) (s' : State n m)
      (at' : (s.threads (.inl i)).call = .direct f)
      (executed : (s.setThread (.inl i) { s.threads (.inl i) with call := .idle }).exec mode i f =
        some s') : Moves mode s s'
  | push (th : ThreadId n m) (w : Fin n) (f : Func n) (at' : (s.threads th).call = .push w f) :
      Moves mode s ((s.setThread th { s.threads th with call := .idle }).push w f)
  | stopDirect (i : Fin n) (r : Ref) (free : (s.threads (.inl i)).free = true)
      (at' : (s.threads (.inl i)).point = .fired r) (s' : State n m)
      (executed : (s.setThread (.inl i) { s.threads (.inl i) with point := .addEvent r }).exec
        mode i (.stop r.id) = some s') : Moves mode s s'
  | stopPush (i : Fin n) (r : Ref) (free : (s.threads (.inl i)).free = true)
      (at' : (s.threads (.inl i)).point = .fired r)
      (indirect : s.isDirect mode (.inl i) i = false) :
      Moves mode s ((s.setThread (.inl i) { s.threads (.inl i) with point := .addEvent r }).push i
        (.stop r.id))
  | addEvent (i : Fin n) (r : Ref) (free : (s.threads (.inl i)).free = true)
      (at' : (s.threads (.inl i)).point = .addEvent r) :
      Moves mode s (s.setThread (.inl i) { s.threads (.inl i) with
        point := .loop, events := (s.threads (.inl i)).events ++ [r] })
  | drained (i q : Fin n) (free : (s.threads (.inl i)).free = true)
      (at' : (s.threads (.inl i)).point = .drain q []) :
      Moves mode s (s.setThread (.inl i) { s.threads (.inl i) with point := .loop })
  | drainFront (i q : Fin n) (f : Func n) (rest : List (Func n))
      (free : (s.threads (.inl i)).free = true)
      (at' : (s.threads (.inl i)).point = .drain q (f :: rest)) (s' : State n m)
      (executed : (s.setThread (.inl i) { s.threads (.inl i) with point := .drain q rest }).exec
        mode i f = some s') : Moves mode s s'
  | cleanupDisposes (th : ThreadId n m) (frame : Frame n) (rest : List (Frame n)) (d : Nat)
      (ready : (s.threads th).ready = true) (at' : (s.threads th).frames = frame :: rest)
      (running : frame.result = none) (kind : frame.task.kind = .cleanup d)
      (disposable : (s.tasks d).canDispose = true) :
      Moves mode s (((s.modify frame.task.id Task.use).modify d Task.use).setThread th
        { s.threads th with
          frames := { frame with result := some false } :: rest
          call := .test frame.worker (.dispose d) })
  | cleanupWaits (th : ThreadId n m) (frame : Frame n) (rest : List (Frame n)) (d : Nat)
      (ready : (s.threads th).ready = true) (at' : (s.threads th).frames = frame :: rest)
      (running : frame.result = none) (kind : frame.task.kind = .cleanup d) :
      Moves mode s (((s.modify frame.task.id Task.use).modify d Task.use).setThread th
        { s.threads th with frames := { frame with result := some true } :: rest })
  | diskHandled (th : ThreadId n m) (frame : Frame n) (rest : List (Frame n))
      (ready : (s.threads th).ready = true) (at' : (s.threads th).frames = frame :: rest)
      (running : frame.result = none) (kind : frame.task.kind = .disk) :
      Moves mode s ((s.modify frame.task.id Task.use).setThread th
        { s.threads th with frames := { frame with result := some false } :: rest })
  | continues (th : ThreadId n m) (frame : Frame n) (rest : List (Frame n))
      (ready : (s.threads th).ready = true) (at' : (s.threads th).frames = frame :: rest)
      (returned : frame.result = some true) :
      Moves mode s (((s.modify frame.task.id Task.use).setThread th
        { s.threads th with frames := rest }).startWatcher th frame.worker frame.task)
  | finishes (th : ThreadId n m) (frame : Frame n) (rest : List (Frame n))
      (ready : (s.threads th).ready = true) (at' : (s.threads th).frames = frame :: rest)
      (returned : frame.result = some false) (autoDelete : frame.task.autoDelete = true) :
      Moves mode s ((((s.modify frame.task.id Task.use).setThread th
        { s.threads th with frames := rest }).modify frame.task.id Task.finish).removeEventTask
          mode th frame.task)
  | givesBack (th : ThreadId n m) (frame : Frame n) (rest : List (Frame n))
      (ready : (s.threads th).ready = true) (at' : (s.threads th).frames = frame :: rest)
      (returned : frame.result = some false) (autoDelete : frame.task.autoDelete = false) :
      Moves mode s { (s.modify frame.task.id Task.use).setThread th
        { s.threads th with frames := rest } with owned := s.owned ++ [frame.task] }
  | fire (i : Fin n) (r : Ref) (free : (s.threads (.inl i)).free = true)
      (at' : (s.threads (.inl i)).point = .loop)
      (active : (r, State.loopOf mode i) ∈ s.watchers) :
      Moves mode s ((s.modify r.id Task.use).setThread (.inl i)
        { s.threads (.inl i) with point := .fired r })
  | drain (i q : Fin n) (free : (s.threads (.inl i)).free = true)
      (at' : (s.threads (.inl i)).point = .loop) (own : mode = .multiLoop → q = i) :
      Moves mode s ({ s with queues := Function.update s.queues q [] }.setThread (.inl i)
        { s.threads (.inl i) with point := .drain q (s.queues q) })
  | enterLoop (i : Fin n) (free : (s.threads (.inl i)).free = true)
      (at' : (s.threads (.inl i)).point = .away) (leads : s.leads mode i = true) :
      Moves mode s (s.setThread (.inl i) { s.threads (.inl i) with point := .loop })
  | leaveLoop (i : Fin n) (free : (s.threads (.inl i)).free = true)
      (at' : (s.threads (.inl i)).point = .loop) :
      Moves mode s (s.setThread (.inl i) { s.threads (.inl i) with point := .away })
  | handle (i : Fin n) (r : Ref) (rest : List Ref) (free : (s.threads (.inl i)).free = true)
      (at' : (s.threads (.inl i)).point = .away)
      (events : (s.threads (.inl i)).events = r :: rest) :
      Moves mode s (s.setThread (.inl i) { s.threads (.inl i) with
        events := rest, frames := [⟨r, i, none, false⟩] })
  | returns (th : ThreadId n m) (frame : Frame n) (rest : List (Frame n)) (cont : Bool)
      (ready : (s.threads th).ready = true) (at' : (s.threads th).frames = frame :: rest)
      (running : frame.result = none) (kind : frame.task.kind = .io ∨ frame.task.kind = .timer)
      (kept : frame.updated = true → cont = true ∨ frame.task.autoDelete = true) :
      Moves mode s ((s.modify frame.task.id Task.use).setThread th
        { s.threads th with frames := { frame with result := some cont } :: rest })
  | update (th : ThreadId n m) (frame : Frame n) (rest : List (Frame n))
      (ready : (s.threads th).ready = true) (at' : (s.threads th).frames = frame :: rest)
      (running : frame.result = none) (kind : frame.task.kind = .io) :
      Moves mode s ((s.modify frame.task.id Task.use).setThread th { s.threads th with
        frames := { frame with updated := true } :: rest
        call := .test frame.worker (.update frame.task.id) })
  | disable (th : ThreadId n m) (frame : Frame n) (rest : List (Frame n))
      (ready : (s.threads th).ready = true) (at' : (s.threads th).frames = frame :: rest)
      (running : frame.result = none) (kind : frame.task.kind = .io) :
      Moves mode s (s.modify frame.task.id Task.disableDispose)
  | enable (t : Nat) (disabled : (s.tasks t).canDispose = false) :
      Moves mode s (s.modify t Task.enableDispose)
  | user (th : ThreadId n m) (w : Fin n) (ready : (s.threads th).ready = true) :
      Moves mode s (s.setThread th { s.threads th with call := .test w .other })
  | new (kind : Kind) (kept immediate : Bool) (made : ∀ d, kind ≠ .cleanup d) :
      Moves mode s ({ s with
        made := s.made + 1, owned := s.owned ++ [Ref.mk s.made kind kept] }.setTask s.made
          { immediate := immediate })
  | addTask (th : ThreadId n m) (r : Ref) (ready : (s.threads th).ready = true)
      (owned : r ∈ s.owned) (s' : State n m)
      (added : { s with owned := s.owned.erase r }.addEventTask mode th r = some s') :
      Moves mode s s'
  | addNet (th : ThreadId n m) (w : Fin n) (r : Ref) (ready : (s.threads th).ready = true)
      (owned : r ∈ s.owned) (kind : r.kind = .io) :
      Moves mode s ({ s with owned := s.owned.erase r }.setThread th
        { s.threads th with call := .test w (.add r w) })
  | addDisk (th : ThreadId n m) (r : Ref) (ready : (s.threads th).ready = true)
      (owned : r ∈ s.owned) (kind : r.kind = .disk) :
      Moves mode s (({ s with owned := s.owned.erase r }.modify r.id Task.use).setThread th
        { s.threads th with call := .push s.lastWorker (.addEvent r) })
  | free (r : Ref) (owned : r ∈ s.owned) (disposable : (s.tasks r.id).canDispose = true) :
      Moves mode s ({ s with owned := s.owned.erase r }.modify r.id Task.free)
  | promote (i j : Fin n) (single : mode = .singleLoop) (leads : s.leader = i)
      (at' : (s.threads (.inl i)).point = .away) (free : (s.threads (.inl i)).free = true)
      (atOther : (s.threads (.inl j)).point = .away)
      (freeOther : (s.threads (.inl j)).free = true) :
      Moves mode s { s with leader := j, lastWorker := j }

theorem moves_of_step {mode : Mode} {s s' : State n m} {action : Action n m}
    (stepped : step mode action s = some s') : Moves mode s s' := by
  cases action with
  | call th =>
      cases at' : (s.threads th).call with
      | idle => simp [step, State.callStep, at'] at stepped
      | test w f =>
          simp only [step, State.callStep, at'] at stepped
          split at stepped
          · next direct => exact Option.some.inj stepped ▸ .testDirect th w f at' direct
          · next indirect =>
              exact Option.some.inj stepped ▸
                .testPush th w f at' (Bool.eq_false_of_not_eq_true indirect)
      | direct f =>
          cases th with
          | inl i =>
              simp only [step, State.callStep, at'] at stepped
              exact .direct i f s' at' stepped
          | inr => simp [step, State.callStep, at'] at stepped
      | push w f =>
          simp only [step, State.callStep, at'] at stepped
          exact Option.some.inj stepped ▸ .push th w f at'
  | worker i =>
      simp only [step, Option.ite_none_right_eq_some] at stepped
      rcases stepped with ⟨free, stepped⟩
      cases at' : (s.threads (.inl i)).point with
      | away | loop => simp [State.workerStep, at'] at stepped
      | fired r =>
          simp only [State.workerStep, at'] at stepped
          split at stepped
          · exact .stopDirect i r free at' s' stepped
          · next indirect =>
              exact Option.some.inj stepped ▸
                .stopPush i r free at' (Bool.eq_false_of_not_eq_true indirect)
      | addEvent r =>
          simp only [State.workerStep, at'] at stepped
          exact Option.some.inj stepped ▸ .addEvent i r free at'
      | drain q rest =>
          cases rest with
          | nil =>
              simp only [State.workerStep, at'] at stepped
              exact Option.some.inj stepped ▸ .drained i q free at'
          | cons f rest =>
              simp only [State.workerStep, at', Option.ite_none_right_eq_some] at stepped
              exact .drainFront i q f rest free at' s' stepped.2
  | frame th =>
      simp only [step, Option.ite_none_right_eq_some] at stepped
      rcases stepped with ⟨ready, stepped⟩
      cases at' : (s.threads th).frames with
      | nil => simp [State.frameStep, at'] at stepped
      | cons frame rest =>
          cases result : frame.result with
          | none =>
              cases kind : frame.task.kind with
              | io | timer => simp [State.frameStep, at', result, kind] at stepped
              | disk =>
                  simp only [State.frameStep, at', result, kind] at stepped
                  exact Option.some.inj stepped ▸ .diskHandled th frame rest ready at' result kind
              | cleanup d =>
                  simp only [State.frameStep, at', result, kind] at stepped
                  split at stepped
                  · next disposable =>
                      refine Option.some.inj stepped ▸
                        .cleanupDisposes th frame rest d ready at' result kind ?_
                      simpa only [State.modify_use_canDispose] using disposable
                  · exact Option.some.inj stepped ▸
                      .cleanupWaits th frame rest d ready at' result kind
          | some cont =>
              cases cont with
              | true =>
                  simp only [State.frameStep, at', result] at stepped
                  exact Option.some.inj stepped ▸ .continues th frame rest ready at' result
              | false =>
                  simp only [State.frameStep, at', result] at stepped
                  split at stepped
                  · next autoDelete =>
                      exact Option.some.inj stepped ▸
                        .finishes th frame rest ready at' result autoDelete
                  · next kept =>
                      exact Option.some.inj stepped ▸ .givesBack th frame rest ready at' result
                        (Bool.eq_false_of_not_eq_true kept)
  | fire i r =>
      simp only [step, Option.ite_none_right_eq_some, Option.some.injEq] at stepped
      rcases stepped with ⟨⟨free, at', active⟩, rfl⟩
      exact .fire i r free at' active
  | drain i q =>
      simp only [step, Option.ite_none_right_eq_some, Option.some.injEq] at stepped
      rcases stepped with ⟨⟨free, at', own⟩, rfl⟩
      exact .drain i q free at' own
  | enterLoop i =>
      simp only [step, Option.ite_none_right_eq_some, Option.some.injEq] at stepped
      rcases stepped with ⟨⟨free, at', _, leads⟩, rfl⟩
      exact .enterLoop i free at' leads
  | leaveLoop i =>
      simp only [step, Option.ite_none_right_eq_some, Option.some.injEq] at stepped
      rcases stepped with ⟨⟨free, at'⟩, rfl⟩
      exact .leaveLoop i free at'
  | handle i =>
      cases events : (s.threads (.inl i)).events with
      | nil => simp [step, events] at stepped
      | cons r rest =>
          simp only [step, events, Option.ite_none_right_eq_some, Option.some.injEq] at stepped
          rcases stepped with ⟨⟨free, at'⟩, rfl⟩
          exact .handle i r rest free at' events
  | handlerReturn th cont =>
      cases at' : (s.threads th).frames with
      | nil => simp [step, at'] at stepped
      | cons frame rest =>
          simp only [step, at', Option.ite_none_right_eq_some, Option.some.injEq] at stepped
          rcases stepped with ⟨⟨ready, running, kind, kept⟩, rfl⟩
          exact .returns th frame rest cont ready at' running kind kept
  | update th =>
      cases at' : (s.threads th).frames with
      | nil => simp [step, at'] at stepped
      | cons frame rest =>
          simp only [step, at', Option.ite_none_right_eq_some, Option.some.injEq] at stepped
          rcases stepped with ⟨⟨ready, running, kind⟩, rfl⟩
          exact .update th frame rest ready at' running kind
  | disableDispose th =>
      cases at' : (s.threads th).frames with
      | nil => simp [step, at'] at stepped
      | cons frame rest =>
          simp only [step, at', Option.ite_none_right_eq_some, Option.some.injEq] at stepped
          rcases stepped with ⟨⟨ready, running, kind⟩, rfl⟩
          exact .disable th frame rest ready at' running kind
  | enableDispose t =>
      simp only [step, Option.ite_none_right_eq_some, Option.some.injEq] at stepped
      rcases stepped with ⟨disabled, rfl⟩
      exact .enable t disabled
  | user th w =>
      simp only [step, Option.ite_none_right_eq_some, Option.some.injEq] at stepped
      rcases stepped with ⟨ready, rfl⟩
      exact .user th w ready
  | new kind kept immediate =>
      cases kind with
      | cleanup => simp [step] at stepped
      | io | timer | disk =>
          simp only [step] at stepped
          refine Option.some.inj stepped ▸ .new _ kept _ fun d same => ?_
          cases same
  | addEventTask th r =>
      simp only [step, Option.ite_none_right_eq_some] at stepped
      rcases stepped with ⟨⟨ready, owned⟩, added⟩
      exact .addTask th r ready owned s' added
  | addNetTask th w r =>
      simp only [step, Option.ite_none_right_eq_some, Option.some.injEq] at stepped
      rcases stepped with ⟨⟨ready, owned, kind⟩, rfl⟩
      exact .addNet th w r ready owned kind
  | addDiskTask th r =>
      simp only [step, Option.ite_none_right_eq_some, Option.some.injEq] at stepped
      rcases stepped with ⟨⟨ready, owned, kind⟩, rfl⟩
      exact .addDisk th r ready owned kind
  | free r =>
      simp only [step, Option.ite_none_right_eq_some, Option.some.injEq] at stepped
      rcases stepped with ⟨⟨owned, disposable⟩, rfl⟩
      exact .free r owned disposable
  | promote i j =>
      simp only [step, Option.ite_none_right_eq_some, Option.some.injEq] at stepped
      rcases stepped with ⟨⟨single, leads, free, at', _, freeOther, atOther, _⟩, rfl⟩
      exact .promote i j single leads at' free atOther freeOther

end LibTasks.Lifecycle

import Mathlib
import LibTasks.Foundation.Transition

/-!
# The leader/followers dispatcher in `SINGLE_LOOP` mode

The state of `dispatcher`, of its `worker` objects and of the threads that run
or call into them, with one step for each atomic operation of the source.  A
worker thread is described by the program point it has reached in `worker::run`
and in the functions called from there (`tasks/worker.cpp`,
`include/tasks/worker.h`, `tasks/dispatcher.cpp`); `dispatcher::start` runs in a
thread of its own; `exec_in_worker_ctx` and `async_call` can be called by every
thread that executes user code.

`m_term` is never set here: termination is not part of this system.
-/

namespace LibTasks.Dispatcher

open LibTasks.Foundation

/-- `task_func_t`, the functors handed to `exec_in_worker_ctx` and `async_call`:
the ones built by `start_watcher` and `stop_watcher` of an event task, and any
other. -/
inductive TaskFunc (Task Other : Type) where
  | start (task : Task)
  | stop (task : Task)
  | other (f : Other)
  deriving DecidableEq, Repr

/-- `struct event`. -/
structure Event (Task : Type) where
  task : Task
  revents : Int
  deriving DecidableEq, Repr

/-- Program points of a worker thread.  The argument `worker` of the callback
points is the local variable that holds `ev_userdata(loop)`. -/
inductive Pc (Task Other : Type) where
  /-- The thread does not exist yet. -/
  | unborn
  /-- About to call `mark_free`. -/
  | markFree
  /-- Testing `!m_leader` at the head of the outer loop. -/
  | top
  /-- Inside `m_work_cond.wait_for`. -/
  | waiting
  /-- Testing `m_leader` at the head of the inner loop. -/
  | lead
  /-- Inside `ev_loop`, between two callbacks. -/
  | inLoop
  /-- `tasks_event_callback` entered, `stop_watcher(worker)` comes next. -/
  | fired (worker : Nat) (event : Event Task)
  /-- `exec_in_worker_ctx` chose the direct branch for the stop functor. -/
  | stopWatcher (worker : Nat) (event : Event Task)
  /-- `worker->add_event(event)` comes next. -/
  | addEvent (worker : Nat) (event : Event Task)
  /-- `tasks_async_callback` entered for the watcher of worker `queue`. -/
  | swap (worker queue : Nat)
  /-- Head of the loop over `qcpy`. -/
  | drain (worker queue : Nat) (qcpy : List (TaskFunc Task Other))
  /-- `exec_in_worker_ctx(qcpy.front())` chose the direct branch. -/
  | execFront (worker queue : Nat) (front : TaskFunc Task Other)
      (qcpy : List (TaskFunc Task Other))
  /-- The front functor is running. -/
  | inFunctor (worker queue : Nat) (front : TaskFunc Task Other)
      (qcpy : List (TaskFunc Task Other))
  /-- An assertion failed. -/
  | aborted
  /-- `ev_loop` returned; testing `m_events_queue.empty()`. -/
  | loopReturned
  /-- `promote_leader` entered `free_worker`. -/
  | freeWorker
  /-- The loop of `bitset::next`, about to test bit `chkIdx`. -/
  | next (chkIdx chkCnt : Nat)
  /-- `next` found `id`; `m_last_worker_id = id` comes next. -/
  | foundId (id : Nat)
  /-- `m_workers_busy.unset(id)` comes next. -/
  | unsetId (id : Nat)
  /-- `m_leader = false` comes next. -/
  | demote (id : Nat)
  /-- `set_event_loop` of worker `id`: `m_loop = std::move(loop)`. -/
  | moveLoop (id : Nat)
  /-- `set_event_loop` of worker `id`: `ev_set_userdata`. -/
  | setUserdata (id : Nat)
  /-- `set_event_loop` of worker `id`: `m_leader = true`. -/
  | setLeader (id : Nat)
  /-- Head of the loop over `m_events_queue`. -/
  | handle
  /-- `handle_event` is running. -/
  | handling (event : Event Task)
  /-- `handle_event` returned `cont`; error and finish callbacks may run. -/
  | handled (event : Event Task) (cont : Bool)
  /-- `exec_event_handler` is done, `m_events_queue.pop()` comes next. -/
  | pop
  deriving DecidableEq, Repr

/-- A `worker` object together with the state of its thread. -/
structure Worker (Task Other : Type) where
  /-- The worker's bit in `m_workers_busy`, set while the worker is free. -/
  busyBit : Bool := false
  /-- `m_leader`. -/
  leader : Bool := false
  /-- Whether `m_loop` is not null. -/
  loop : Bool := false
  /-- `m_events_queue`. -/
  events : List (Event Task) := []
  pc : Pc Task Other := .unborn
  /-- Every event for which the loop run by this thread invoked a callback. -/
  firings : List (Event Task) := []
  /-- Every call of `handle_event` made by this worker's thread so far. -/
  calls : List (Event Task) := []

/-- `task_func_queue_t` of a worker and its async watcher. -/
structure FuncQueue (Task Other : Type) where
  queue : List (TaskFunc Task Other) := []
  /-- The watcher's sticky pending flag. -/
  sent : Bool := false
  /-- Every functor pushed so far. -/
  pushed : List (TaskFunc Task Other) := []
  /-- Every functor taken from this queue and executed so far. -/
  executed : List (TaskFunc Task Other) := []

/-- Progress of `dispatcher::start`. -/
inductive Starter where
  | spawn (i : Nat)
  | waitBit (i : Nat)
  | unsetFirst
  | moveLoop
  | setUserdata
  | setLeader
  | started
  deriving DecidableEq, Repr

/-- A call of `exec_in_worker_ctx` or `async_call` in progress in a thread. -/
inductive Call (Task Other : Type) where
  | idle
  /-- `exec_in_worker_ctx` on `worker`, before its test. -/
  | test (worker : Nat) (f : TaskFunc Task Other)
  /-- The direct branch was taken, `f(m_loop->ptr)` comes next. -/
  | direct (worker : Nat) (f : TaskFunc Task Other)
  /-- `async_call` on `worker`, before the push under the queue mutex. -/
  | push (worker : Nat) (f : TaskFunc Task Other)
  /-- Between the push and `ev_async_send`. -/
  | send (worker : Nat)
  deriving DecidableEq, Repr

structure State (Task Other : Type) where
  workers : Nat → Worker Task Other
  lastWorkerId : Nat
  /-- `ev_userdata` of the event loop. -/
  userdata : Option Nat
  starter : Starter
  /-- The call in progress in each thread. -/
  calls : Nat → Call Task Other
  queues : Nat → FuncQueue Task Other
  /-- Whether a task's watcher is active. -/
  active : Task → Bool
  /-- Whether a task was passed to `add_event_task`. -/
  added : Task → Bool

/-- Whether the expressions inside `assert` are evaluated. -/
inductive Build where
  | asserts
  | ndebug
  deriving DecidableEq, Repr

/-- Number of workers and of the other threads, the build, and the functors that
user code hands to a worker on its own. -/
structure Config (Task Other : Type) where
  numWorkers : Nat
  otherThreads : Nat
  build : Build := .asserts
  userFunc : TaskFunc Task Other → Bool

/-- The worker threads come first, then the other ones. -/
def Config.numThreads {Task Other : Type} (cfg : Config Task Other) : Nat :=
  cfg.numWorkers + cfg.otherThreads

/-- The atomic steps of the system. -/
inductive Action (Task Other : Type) where
  /-- The next operation of `dispatcher::start`. -/
  | starter
  /-- The next operation of a worker thread. -/
  | worker (i : Nat)
  /-- The event loop run by worker `i` invokes a task's callback. -/
  | fire (i : Nat) (event : Event Task)
  /-- The event loop run by worker `i` invokes the async callback of `queue`. -/
  | asyncReady (i queue : Nat)
  /-- The event loop run by worker `i` returns. -/
  | loopReturn (i : Nat)
  /-- The handler run by worker `i` returns. -/
  | handlerReturn (i : Nat) (cont : Bool)
  /-- The next operation of the call in progress in a thread. -/
  | call (thread : Nat)
  /-- User code calls `exec_in_worker_ctx`. -/
  | exec (thread worker : Nat) (f : TaskFunc Task Other)
  /-- User code calls `async_call`. -/
  | async (thread worker : Nat) (f : TaskFunc Task Other)
  /-- User code calls `dispatcher::add_event_task`. -/
  | addTask (thread : Nat) (task : Task)
  deriving DecidableEq, Repr

variable {Task Other : Type}

/-- The program points at which a worker thread runs code of a task or of a
functor. -/
def Pc.inUserCode : Pc Task Other → Bool
  | .inFunctor .. => true
  | .handling _ => true
  | .handled _ _ => true
  | _ => false

/-- The same worker with its thread at another program point. -/
@[simps] def Worker.moveTo (w : Worker Task Other) (pc : Pc Task Other) :
    Worker Task Other :=
  { w with pc }

namespace State

/-- Replace the record of one worker. -/
@[simps -fullyApplied] def setWorker (s : State Task Other) (i : Nat) (w : Worker Task Other) :
    State Task Other :=
  { s with workers := Function.update s.workers i w }

/-- Move a worker thread to another program point. -/
@[simps -fullyApplied] def goto (s : State Task Other) (i : Nat) (pc : Pc Task Other) :
    State Task Other :=
  { s with workers := Function.update s.workers i ((s.workers i).moveTo pc) }

/-- Replace the functor queue of one worker. -/
@[simps -fullyApplied] def setQueue (s : State Task Other) (i : Nat) (q : FuncQueue Task Other) :
    State Task Other :=
  { s with queues := Function.update s.queues i q }

/-- Replace the call in progress in one thread. -/
@[simps -fullyApplied] def setCall (s : State Task Other) (thread : Nat) (c : Call Task Other) :
    State Task Other :=
  { s with calls := Function.update s.calls thread c }

/-- Effect of a functor: the start functor starts an inactive watcher, the stop
functor stops an active one. -/
def runFunc [DecidableEq Task] (s : State Task Other) :
    TaskFunc Task Other → State Task Other
  | .start task => { s with active := Function.update s.active task true }
  | .stop task => { s with active := Function.update s.active task false }
  | .other _ => s

section RunFunc

variable [DecidableEq Task] (s : State Task Other) (f : TaskFunc Task Other)

@[simp] theorem runFunc_workers : (s.runFunc f).workers = s.workers := by
  cases f <;> rfl

@[simp] theorem runFunc_lastWorkerId : (s.runFunc f).lastWorkerId = s.lastWorkerId := by
  cases f <;> rfl

@[simp] theorem runFunc_userdata : (s.runFunc f).userdata = s.userdata := by
  cases f <;> rfl

@[simp] theorem runFunc_starter : (s.runFunc f).starter = s.starter := by
  cases f <;> rfl

@[simp] theorem runFunc_calls : (s.runFunc f).calls = s.calls := by
  cases f <;> rfl

@[simp] theorem runFunc_queues : (s.runFunc f).queues = s.queues := by
  cases f <;> rfl

@[simp] theorem runFunc_added : (s.runFunc f).added = s.added := by
  cases f <;> rfl

end RunFunc

end State

/-- `worker::get()` in a thread. -/
def workerGet (cfg : Config Task Other) (thread : Nat) : Option Nat :=
  if thread < cfg.numWorkers then some thread else none

/-- The test of `exec_in_worker_ctx` on `worker` in a thread. -/
def isDirect (cfg : Config Task Other) (s : State Task Other) (thread worker : Nat) :
    Bool :=
  (s.workers worker).leader && workerGet cfg thread == some worker

/-- Whether user code may run in a thread. -/
def mayCall (cfg : Config Task Other) (s : State Task Other) (thread : Nat) : Bool :=
  decide (thread < cfg.numThreads) &&
    (decide (cfg.numWorkers ≤ thread) || (s.workers thread).pc.inUserCode)

/-- One operation of `dispatcher::start`. -/
def starterStep (cfg : Config Task Other) (s : State Task Other) :
    Option (State Task Other) :=
  match s.starter with
  | .spawn i =>
      if i < cfg.numWorkers then
        some { s.setWorker i { s.workers i with busyBit := false, pc := .markFree } with
          starter := .spawn (i + 1) }
      else
        some { s with starter := .waitBit 0 }
  | .waitBit i =>
      if i < cfg.numWorkers then
        -- Sleeps and tests again while the bit is not set.
        if (s.workers i).busyBit then some { s with starter := .waitBit (i + 1) } else none
      else
        some { s with starter := .unsetFirst }
  | .unsetFirst =>
      some { s.setWorker 0 { s.workers 0 with busyBit := false } with
        starter := .moveLoop }
  | .moveLoop =>
      some { s.setWorker 0 { s.workers 0 with loop := true } with
        starter := .setUserdata }
  | .setUserdata => some { s with userdata := some 0, starter := .setLeader }
  | .setLeader =>
      some { s.setWorker 0 { s.workers 0 with leader := true } with
        starter := .started }
  | .started => none

/-- The index that `bitset::next` tests after `idx`. -/
def nextIdx (cfg : Config Task Other) (idx : Nat) : Nat :=
  if idx + 1 = cfg.numWorkers then 0 else idx + 1

/-- One operation of the thread of worker `i`, except those chosen by the event
loop or by a handler. -/
def workerStep [DecidableEq Task] (cfg : Config Task Other) (s : State Task Other)
    (i : Nat) : Option (State Task Other) :=
  let w := s.workers i
  match w.pc with
  | .unborn | .inLoop | .aborted | .handling _ => none
  | .markFree => some (s.setWorker i { w with busyBit := true, pc := .top })
  | .top => some (s.goto i (if w.leader then .lead else .waiting))
  | .waiting => if w.leader then some (s.goto i .lead) else none
  | .lead => some (s.goto i (if w.leader then .inLoop else .markFree))
  | .fired worker event =>
      if isDirect cfg s i worker then
        some (s.goto i (.stopWatcher worker event))
      else
        some ((s.goto i (.addEvent worker event)).setCall i
          (.push worker (.stop event.task)))
  | .stopWatcher worker event =>
      some ((s.runFunc (.stop event.task)).goto i (.addEvent worker event))
  | .addEvent worker event =>
      let s := s.goto i .inLoop
      some (s.setWorker worker { s.workers worker with
        events := (s.workers worker).events ++ [event] })
  | .swap worker queue =>
      some ((s.setQueue queue { s.queues queue with queue := [] }).goto i
        (.drain worker queue (s.queues queue).queue))
  | .drain _ _ [] => some (s.goto i .inLoop)
  | .drain worker queue (front :: qcpy) =>
      match cfg.build with
      | .asserts =>
          if isDirect cfg s i worker then
            some (s.goto i (.execFront worker queue front qcpy))
          else
            -- The functor is queued again, and the assertion fails.
            some ((s.goto i .aborted).setCall i (.push worker front))
      | .ndebug => some (s.goto i (.drain worker queue qcpy))
  | .execFront worker queue front qcpy =>
      let s := s.runFunc front
      some ((s.setQueue queue { s.queues queue with
        executed := (s.queues queue).executed ++ [front] }).goto i
          (.inFunctor worker queue front qcpy))
  | .inFunctor worker queue _ qcpy => some (s.goto i (.drain worker queue qcpy))
  | .loopReturned => some (s.goto i (if w.events.isEmpty then .lead else .freeWorker))
  | .freeWorker =>
      some (s.goto i (if 1 < cfg.numWorkers then .next s.lastWorkerId 0 else .handle))
  | .next chkIdx chkCnt =>
      if chkIdx < cfg.numWorkers then
        if (s.workers chkIdx).busyBit then
          some (s.goto i (.foundId chkIdx))
        else if chkCnt + 1 < cfg.numWorkers then
          some (s.goto i (.next (nextIdx cfg chkIdx) (chkCnt + 1)))
        else
          some (s.goto i .handle)
      else
        some (s.goto i .aborted)
  | .foundId id => some { s.goto i (.unsetId id) with lastWorkerId := id }
  | .unsetId id =>
      let s := s.goto i (.demote id)
      some (s.setWorker id { s.workers id with busyBit := false })
  | .demote id => some (s.setWorker i { w with leader := false, pc := .moveLoop id })
  | .moveLoop id =>
      let s := s.setWorker i { w with loop := false, pc := .setUserdata id }
      some (s.setWorker id { s.workers id with loop := w.loop })
  | .setUserdata id => some { s.goto i (.setLeader id) with userdata := some id }
  | .setLeader id =>
      let s := s.goto i .handle
      some (s.setWorker id { s.workers id with leader := true })
  | .handle =>
      match w.events with
      | [] => some (s.goto i .lead)
      | event :: _ =>
          some (s.setWorker i { w with pc := .handling event, calls := w.calls ++ [event] })
  | .handled event true => some ((s.goto i .pop).setCall i (.test i (.start event.task)))
  | .handled _ false => some (s.goto i .pop)
  | .pop => some (s.setWorker i { w with events := w.events.tail, pc := .handle })

/-- One operation of the call in progress in a thread. -/
def callStep [DecidableEq Task] (cfg : Config Task Other) (s : State Task Other)
    (thread : Nat) : Option (State Task Other) :=
  match s.calls thread with
  | .idle => none
  | .test worker f =>
      some (s.setCall thread
        (if isDirect cfg s thread worker then .direct worker f else .push worker f))
  | .direct _ f => some ((s.runFunc f).setCall thread .idle)
  | .push worker f =>
      some ((s.setQueue worker { s.queues worker with
        queue := (s.queues worker).queue ++ [f]
        pushed := (s.queues worker).pushed ++ [f] }).setCall thread (.send worker))
  | .send worker =>
      some ((s.setQueue worker { s.queues worker with sent := true }).setCall thread .idle)

/-- The callbacks read `ev_userdata(loop)` first and assert that it is set. -/
def enterCallback (s : State Task Other) (i : Nat) (point : Nat → Pc Task Other) :
    State Task Other :=
  match s.userdata with
  | none => s.goto i .aborted
  | some worker => s.goto i (point worker)

/-- Worker thread `i` exists and has no call in progress. -/
def runnable (cfg : Config Task Other) (s : State Task Other) (i : Nat) : Prop :=
  i < cfg.numWorkers ∧ s.calls i = .idle

instance [DecidableEq Task] [DecidableEq Other] (cfg : Config Task Other)
    (s : State Task Other) (i : Nat) : Decidable (runnable cfg s i) :=
  inferInstanceAs (Decidable (_ ∧ _))

/-- User code of a thread may begin a call on `worker`. -/
def canCall (cfg : Config Task Other) (s : State Task Other) (thread worker : Nat)
    (f : TaskFunc Task Other) : Prop :=
  mayCall cfg s thread = true ∧ s.calls thread = .idle ∧ worker < cfg.numWorkers ∧
    (s.workers worker).pc ≠ .unborn ∧ cfg.userFunc f = true

instance [DecidableEq Task] [DecidableEq Other] (cfg : Config Task Other)
    (s : State Task Other) (thread worker : Nat) (f : TaskFunc Task Other) :
    Decidable (canCall cfg s thread worker f) :=
  inferInstanceAs (Decidable (_ ∧ _))

/-- `dispatcher::get_worker_by_task` for a task without an assigned worker. -/
def getWorkerByTask (cfg : Config Task Other) (s : State Task Other) (thread : Nat) : Nat :=
  (workerGet cfg thread).getD s.lastWorkerId

variable [DecidableEq Task] [DecidableEq Other]

/-- The step function of the system. -/
def step (cfg : Config Task Other) :
    Action Task Other → State Task Other → Option (State Task Other)
  | .starter, s => starterStep cfg s
  | .worker i, s => if runnable cfg s i then workerStep cfg s i else none
  | .fire i event, s =>
      if runnable cfg s i ∧ (s.workers i).pc = .inLoop ∧ s.active event.task = true then
        some (enterCallback
          (s.setWorker i { s.workers i with firings := (s.workers i).firings ++ [event] }) i
          fun worker => .fired worker event)
      else none
  | .asyncReady i queue, s =>
      if runnable cfg s i ∧ (s.workers i).pc = .inLoop ∧ queue < cfg.numWorkers ∧
          (s.queues queue).sent = true then
        some (enterCallback
          (s.setQueue queue { s.queues queue with sent := false }) i
          fun worker => .swap worker queue)
      else none
  | .loopReturn i, s =>
      if runnable cfg s i ∧ (s.workers i).pc = .inLoop then
        some (s.goto i .loopReturned)
      else none
  | .handlerReturn i cont, s =>
      if runnable cfg s i then
        match (s.workers i).pc with
        | .handling event => some (s.goto i (.handled event cont))
        | _ => none
      else none
  | .call thread, s =>
      if thread < cfg.numThreads then callStep cfg s thread else none
  | .exec thread worker f, s =>
      if canCall cfg s thread worker f then
        some (s.setCall thread (.test worker f))
      else none
  | .async thread worker f, s =>
      if canCall cfg s thread worker f then
        some (s.setCall thread (.push worker f))
      else none
  | .addTask thread task, s =>
      if mayCall cfg s thread = true ∧ s.calls thread = .idle ∧ s.starter = .started ∧
          s.added task = false then
        some ({ s with added := Function.update s.added task true }.setCall thread
          (.test (getWorkerByTask cfg s thread) (.start task)))
      else none

/-- Before `dispatcher::start`: no worker exists and no task was added. -/
def initState : State Task Other where
  workers _ := {}
  lastWorkerId := 0
  userdata := none
  starter := .spawn 0
  calls _ := .idle
  queues _ := {}
  active _ := false
  added _ := false

/-- The dispatcher with its workers as a transition system. -/
def system (cfg : Config Task Other) : System (State Task Other) (Action Task Other) where
  init := initState
  step := step cfg

/-! ## What a step does -/

/-- The steps of the system, each with its conditions. -/
inductive Moves (cfg : Config Task Other) (s : State Task Other) :
    Action Task Other → State Task Other → Prop where
  | starter {next : State Task Other} (stepped : starterStep cfg s = some next) :
      Moves cfg s .starter next
  | worker {i : Nat} {next : State Task Other} (run : runnable cfg s i)
      (stepped : workerStep cfg s i = some next) : Moves cfg s (.worker i) next
  | fire {i : Nat} {event : Event Task} (run : runnable cfg s i)
      (inLoop : (s.workers i).pc = .inLoop) (active : s.active event.task = true) :
      Moves cfg s (.fire i event) (enterCallback
        (s.setWorker i { s.workers i with firings := (s.workers i).firings ++ [event] }) i
        fun worker => .fired worker event)
  | asyncReady {i queue : Nat} (run : runnable cfg s i) (inLoop : (s.workers i).pc = .inLoop)
      (inside : queue < cfg.numWorkers) (sent : (s.queues queue).sent = true) :
      Moves cfg s (.asyncReady i queue) (enterCallback
        (s.setQueue queue { s.queues queue with sent := false }) i
        fun worker => .swap worker queue)
  | loopReturn {i : Nat} (run : runnable cfg s i) (inLoop : (s.workers i).pc = .inLoop) :
      Moves cfg s (.loopReturn i) (s.goto i .loopReturned)
  | handlerReturn {i : Nat} {event : Event Task} (cont : Bool) (run : runnable cfg s i)
      (point : (s.workers i).pc = .handling event) :
      Moves cfg s (.handlerReturn i cont) (s.goto i (.handled event cont))
  | call {thread : Nat} {next : State Task Other} (inside : thread < cfg.numThreads)
      (stepped : callStep cfg s thread = some next) : Moves cfg s (.call thread) next
  | exec {thread worker : Nat} {f : TaskFunc Task Other}
      (allowed : canCall cfg s thread worker f) :
      Moves cfg s (.exec thread worker f) (s.setCall thread (.test worker f))
  | async {thread worker : Nat} {f : TaskFunc Task Other}
      (allowed : canCall cfg s thread worker f) :
      Moves cfg s (.async thread worker f) (s.setCall thread (.push worker f))
  | addTask {thread : Nat} {task : Task} (allowed : mayCall cfg s thread = true)
      (idle : s.calls thread = .idle) (started : s.starter = .started)
      (fresh : s.added task = false) :
      Moves cfg s (.addTask thread task)
        ({ s with added := Function.update s.added task true }.setCall thread
          (.test (getWorkerByTask cfg s thread) (.start task)))

theorem moves_of_step {cfg : Config Task Other} {s next : State Task Other}
    {action : Action Task Other} (stepped : step cfg action s = some next) :
    Moves cfg s action next := by
  cases action with
  | starter => exact .starter stepped
  | worker i =>
      have ⟨run, stepped⟩ := Option.ite_none_right_eq_some.mp stepped
      exact .worker run stepped
  | fire i event =>
      have ⟨⟨run, inLoop, active⟩, same⟩ := Option.ite_none_right_eq_some.mp stepped
      cases same
      exact .fire run inLoop active
  | asyncReady i queue =>
      have ⟨⟨run, inLoop, inside, sent⟩, same⟩ := Option.ite_none_right_eq_some.mp stepped
      cases same
      exact .asyncReady run inLoop inside sent
  | loopReturn i =>
      have ⟨⟨run, inLoop⟩, same⟩ := Option.ite_none_right_eq_some.mp stepped
      cases same
      exact .loopReturn run inLoop
  | handlerReturn i cont =>
      have ⟨run, stepped⟩ := Option.ite_none_right_eq_some.mp stepped
      split at stepped
      · next event point =>
          cases stepped
          exact .handlerReturn cont run point
      · cases stepped
  | call thread =>
      have ⟨inside, stepped⟩ := Option.ite_none_right_eq_some.mp stepped
      exact .call inside stepped
  | exec thread worker f =>
      have ⟨allowed, same⟩ := Option.ite_none_right_eq_some.mp stepped
      cases same
      exact .exec allowed
  | async thread worker f =>
      have ⟨allowed, same⟩ := Option.ite_none_right_eq_some.mp stepped
      cases same
      exact .async allowed
  | addTask thread task =>
      have ⟨⟨allowed, idle, started, fresh⟩, same⟩ := Option.ite_none_right_eq_some.mp stepped
      cases same
      exact .addTask allowed idle started fresh

end LibTasks.Dispatcher

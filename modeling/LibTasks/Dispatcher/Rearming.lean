import LibTasks.Foundation.Transition

/-!
# Re-arming the watcher of an `io_task_base`

A worker that handles an event of a task calls `set_events`, `update_watcher`, `start_watcher`
and `stop_watcher` (`io_task_base.cpp`).  As the leader it executes their functors itself;
otherwise it queues them, and the leader of the moment executes them at any time from then on,
also while the worker goes on with its calls.  Either way, once all functors have run, the
watcher has the mask that was set last, and it is active or not as the last call of
`start_watcher` or `stop_watcher` says.
-/

namespace LibTasks.Rearming

open LibTasks.Foundation

/-! ## The task -/

/-- `io_task_base` and its `ev_io`. -/
structure IoTask where
  /-- `iob().fd()` -/
  fd : Int
  /-- `m_events` -/
  events : Int
  /-- `m_change_pending` -/
  changePending : Bool := false
  /-- `m_watcher_initialized` -/
  initialized : Bool := false
  /-- The file descriptor of the watcher. -/
  ioFd : Int := -1
  /-- The mask of the watcher. -/
  ioEvents : Int := -1
  /-- `ev_is_active` of the watcher. -/
  active : Bool := false
  deriving DecidableEq, Repr

/-- The functors of `start_watcher`, `stop_watcher` and `update_watcher`. -/
inductive Func where
  | start
  | stop
  | update
  deriving DecidableEq, Repr

/-- A functor that is being executed. -/
inductive Running where
  | fresh (f : Func)
  /-- `update_watcher` has stopped the watcher if it was active, and calls `ev_io_set`. -/
  | updateSet (active : Bool)
  /-- `update_watcher` starts the watcher again. -/
  | updateStart
  deriving DecidableEq, Repr

namespace IoTask

/-- `ev_io_set` with the file descriptor and the events of the task. -/
def ioSet (x : IoTask) : IoTask := { x with ioFd := x.fd, ioEvents := x.events }

/-- `init_watcher` -/
def initWatcher (x : IoTask) : IoTask := { x.ioSet with initialized := true }

/-- `set_events` -/
def setEvents (x : IoTask) (events : Int) : IoTask :=
  if x.events ≠ events then { x with events, changePending := true } else x

/-- One operation of a functor, and what is left of it. -/
def run (x : IoTask) : Running → IoTask × Option Running
  | .fresh .start => ({ x with active := true }, none)
  | .fresh .stop => ({ x with active := false }, none)
  | .fresh .update => ({ x with active := false }, some (.updateSet x.active))
  | .updateSet active => (x.ioSet, if active then some .updateStart else none)
  | .updateStart => ({ x with active := true }, none)

/-- A watcher that is initialised and has the file descriptor and the events of the task. -/
structure Settled (x : IoTask) : Prop where
  initialized : x.initialized = true
  ioFd : x.ioFd = x.fd
  ioEvents : x.ioEvents = x.events

theorem initWatcher_settled (x : IoTask) : x.initWatcher.Settled := ⟨rfl, rfl, rfl⟩

end IoTask

/-! ## The worker and the leader -/

/-- The calls that a worker makes. -/
inductive Call where
  | setEvents (events : Int)
  | updateWatcher
  | startWatcher
  | stopWatcher
  deriving DecidableEq, Repr

/-- The calls of `exec_event_handler`: those of `handle_event`, and `start_watcher` if it
returned true. -/
def execEventHandler (handled : List Call) (cont : Bool) : List Call :=
  if cont then handled ++ [.startWatcher] else handled

/-- The task, the calls that are still to be made, and the functors that are still to be run. -/
structure State where
  task : IoTask
  calls : List Call
  /-- `update_watcher` has passed its functor on, and has not reset `m_change_pending` yet. -/
  updating : Bool := false
  /-- The functors of the task in the queue of the worker. -/
  queue : List Func := []
  /-- The functor that is being executed, by the worker as leader or by another one. -/
  running : Option Running := none
  deriving DecidableEq, Repr

namespace State

/-- `exec_in_worker_ctx`, called by the worker for itself. -/
def execInWorkerCtx (leader : Bool) (s : State) (f : Func) : State :=
  if leader then { s with running := some (.fresh f) } else { s with queue := s.queue ++ [f] }

/-- `assert(m_watcher_initialized)` -/
def asserted (s next : State) : Option State := if s.task.initialized then some next else none

theorem eq_of_asserted {s after next : State} (stepped : s.asserted after = some next) :
    next = after := by
  unfold asserted at stepped
  split at stepped
  · exact (Option.some.inj stepped).symm
  · cases stepped

/-- The call of a function. -/
def call (leader : Bool) (s : State) : Call → Option State
  | .setEvents events => some { s with task := s.task.setEvents events }
  | .updateWatcher => s.asserted <|
      if s.task.changePending then { s.execInWorkerCtx leader .update with updating := true } else s
  | .startWatcher => s.asserted (s.execInWorkerCtx leader .start)
  | .stopWatcher => s.asserted (s.execInWorkerCtx leader .stop)

/-- The next step of the worker.  As the leader it runs its functors before it goes on. -/
def workerStep (leader : Bool) (s : State) : Option State :=
  if leader && s.running.isSome then
    none
  else if s.updating then
    some { s with task := { s.task with changePending := false }, updating := false }
  else
    match s.calls with
    | [] => none
    | call :: calls => State.call leader { s with calls } call

/-- The next step of the thread that executes the functors. -/
def functorStep (s : State) : Option State :=
  match s.running, s.queue with
  | some r, _ => some { s with task := (s.task.run r).1, running := (s.task.run r).2 }
  | none, f :: queue => some { s with queue, running := some (.fresh f) }
  | none, [] => none

/-- All calls have been made and all functors have run. -/
structure Finished (s : State) : Prop where
  calls : s.calls = []
  updating : s.updating = false
  queue : s.queue = []
  running : s.running = none

instance (s : State) : Decidable s.Finished :=
  decidable_of_iff (s.calls = [] ∧ s.updating = false ∧ s.queue = [] ∧ s.running = none)
    ⟨fun ⟨calls, updating, queue, running⟩ => ⟨calls, updating, queue, running⟩,
      fun finished => ⟨finished.calls, finished.updating, finished.queue, finished.running⟩⟩

end State

inductive Action where
  | worker
  | functor
  deriving DecidableEq, Repr

/-- A worker that makes `calls` on the task `x`, while its watcher does not fire. -/
def system (leader : Bool) (x : IoTask) (calls : List Call) : System State Action where
  init := { task := x, calls }
  step
    | .worker, s => s.workerStep leader
    | .functor, s => s.functorStep

/-! ## What the calls ask for -/

/-- The mask that a call sets. -/
def Call.mask : Call → Option Int
  | .setEvents events => some events
  | _ => none

/-- Whether a call starts or stops the watcher. -/
def Call.switch : Call → Option Bool
  | .startWatcher => some true
  | .stopWatcher => some false
  | _ => none

/-- The mask that is set last. -/
def lastMask (events : Int) (calls : List Call) : Int :=
  (calls.filterMap Call.mask).getLastD events

/-- Whether the last call of `start_watcher` or `stop_watcher` is a start. -/
def lastSwitch (active : Bool) (calls : List Call) : Bool :=
  (calls.filterMap Call.switch).getLastD active

/-- Every `set_events` is eventually followed by an `update_watcher`. -/
def Followed (calls : List Call) : Prop :=
  ∀ before events after, calls = before ++ .setEvents events :: after → .updateWatcher ∈ after

/-- Some `set_events` has not been followed by an `update_watcher`. -/
def Dirty (calls : List Call) : Prop :=
  ∃ before events after, calls = before ++ .setEvents events :: after ∧ .updateWatcher ∉ after

theorem Followed.not_dirty {calls : List Call} (followed : Followed calls) : ¬Dirty calls := by
  rintro ⟨before, events, after, split, missing⟩
  exact missing (followed before events after split)

theorem Dirty.concat {calls : List Call} (dirty : Dirty calls) {call : Call}
    (other : call ≠ .updateWatcher) : Dirty (calls ++ [call]) := by
  obtain ⟨before, events, after, rfl, missing⟩ := dirty
  refine ⟨before, events, after ++ [call], by simp, ?_⟩
  rw [List.mem_append, List.mem_singleton, not_or]
  exact ⟨missing, other.symm⟩

theorem lastMask_concat (events : Int) (calls : List Call) (call : Call) :
    lastMask events (calls ++ [call]) = call.mask.getD (lastMask events calls) := by
  cases call with
  | setEvents mask => simp [lastMask, Call.mask]
  | updateWatcher | startWatcher | stopWatcher => simp [lastMask, Call.mask]

theorem lastSwitch_concat (active : Bool) (calls : List Call) (call : Call) :
    lastSwitch active (calls ++ [call]) = call.switch.getD (lastSwitch active calls) := by
  cases call with
  | setEvents | updateWatcher => simp [lastSwitch, Call.switch]
  | startWatcher | stopWatcher => simp [lastSwitch, Call.switch]

/-! ## What the functors will do -/

/-- Whether the watcher is active after a functor. -/
def Func.effect (active : Bool) : Func → Bool
  | .start => true
  | .stop => false
  | .update => active

/-- Whether the watcher is active after the rest of a functor. -/
def Running.effect (active : Bool) : Running → Bool
  | .fresh f => f.effect active
  | .updateSet again => again || active
  | .updateStart => true

namespace State

/-- Whether the watcher is active after all functors. -/
def activeAfter (s : State) : Bool :=
  s.queue.foldl Func.effect (s.running.elim s.task.active (Running.effect s.task.active))

/-- A functor of `update_watcher` has still to call `ev_io_set`. -/
def UpdateComing (s : State) : Prop :=
  .update ∈ s.queue ∨ s.running = some (.fresh .update) ∨
    ∃ active, s.running = some (.updateSet active)

theorem UpdateComing.queued {s : State} (coming : s.UpdateComing)
    (notFresh : s.running ≠ some (.fresh .update))
    (notSet : ∀ active, s.running ≠ some (.updateSet active)) : .update ∈ s.queue := by
  rcases coming with queued | fresh | ⟨active, set⟩
  · exact queued
  · exact absurd fresh notFresh
  · exact absurd set (notSet active)

section

variable {leader : Bool} {s : State} (f : Func)

@[simp] theorem execInWorkerCtx_task : (s.execInWorkerCtx leader f).task = s.task := by
  cases leader <;> rfl

@[simp] theorem execInWorkerCtx_calls : (s.execInWorkerCtx leader f).calls = s.calls := by
  cases leader <;> rfl

@[simp] theorem execInWorkerCtx_updating : (s.execInWorkerCtx leader f).updating = s.updating := by
  cases leader <;> rfl

/-- A functor takes effect after those that were passed on before it. -/
theorem activeAfter_execInWorkerCtx (direct : leader = true → s.queue = [])
    (idle : leader = true → s.running = none) :
    (s.execInWorkerCtx leader f).activeAfter = f.effect s.activeAfter := by
  cases leader with
  | false => simp [execInWorkerCtx, activeAfter]
  | true => simp [execInWorkerCtx, activeAfter, direct rfl, idle rfl, Running.effect]

theorem updateComing_execInWorkerCtx (direct : leader = true → s.queue = [])
    (idle : leader = true → s.running = none) (coming : s.UpdateComing) :
    (s.execInWorkerCtx leader f).UpdateComing := by
  cases leader with
  | false => exact coming.imp_left (List.mem_append_left _)
  | true => simp [UpdateComing, direct rfl, idle rfl] at coming

theorem updateComing_update : (s.execInWorkerCtx leader .update).UpdateComing := by
  cases leader with
  | false => exact .inl (List.mem_append_right _ List.mem_cons_self)
  | true => exact .inr (.inl rfl)

theorem direct_execInWorkerCtx (direct : leader = true → s.queue = []) :
    leader = true → (s.execInWorkerCtx leader f).queue = [] := by
  intro lead
  rw [execInWorkerCtx, if_pos lead]
  exact direct lead

end

end State

/-- After the calls `done` of a worker on the task `x`. -/
structure Inv (leader : Bool) (x : IoTask) (done : List Call) (s : State) : Prop where
  initialized : s.task.initialized = true
  fd : s.task.fd = x.fd
  ioFd : s.task.ioFd = x.fd
  events : s.task.events = lastMask x.events done
  active : s.activeAfter = lastSwitch x.active done
  /-- The leader executes its functors at once. -/
  direct : leader = true → s.queue = []
  /-- A mask that is not the one of the task will be replaced, or its change is still pending. -/
  current : s.task.ioEvents = s.task.events ∨ s.UpdateComing ∨
    (s.updating = false ∧ s.task.changePending = true ∧ Dirty done)

variable {leader : Bool} {x : IoTask} {done : List Call} {s next : State}

/-- A step of a functor that does not call `ev_io_set`. -/
theorem Inv.current_of_queued (inv : Inv leader x done s)
    (notFresh : s.running ≠ some (.fresh .update))
    (notSet : ∀ active, s.running ≠ some (.updateSet active))
    (events : next.task.events = s.task.events) (ioEvents : next.task.ioEvents = s.task.ioEvents)
    (pending : next.task.changePending = s.task.changePending)
    (updating : next.updating = s.updating) (queue : .update ∈ s.queue → next.UpdateComing) :
    next.task.ioEvents = next.task.events ∨ next.UpdateComing ∨
      (next.updating = false ∧ next.task.changePending = true ∧ Dirty done) := by
  rw [events, ioEvents, pending, updating]
  exact inv.current.imp_right (Or.imp_left fun coming => queue (coming.queued notFresh notSet))

theorem Inv.functorStep (inv : Inv leader x done s) (stepped : s.functorStep = some next) :
    Inv leader x done next ∧ next.calls = s.calls := by
  obtain ⟨task, calls, updating, queue, running⟩ := s
  cases running with
  | none =>
      cases queue with
      | nil => cases stepped
      | cons f queue =>
          cases stepped
          have coming : .update ∈ f :: queue → State.UpdateComing
              ⟨task, calls, updating, queue, some (.fresh f)⟩ := by
            intro member
            rcases List.mem_cons.mp member with rfl | later
            · exact .inr (.inl rfl)
            · exact .inl later
          refine ⟨⟨inv.initialized, inv.fd, inv.ioFd, inv.events, inv.active, fun lead => ?_, ?_⟩,
            rfl⟩
          · cases inv.direct lead
          · exact inv.current_of_queued (by simp) (by simp) rfl rfl rfl rfl coming
  | some r =>
      cases stepped
      cases r with
      | fresh f =>
          cases f with
          | start | stop =>
              refine ⟨⟨inv.initialized, inv.fd, inv.ioFd, inv.events, inv.active, inv.direct, ?_⟩,
                rfl⟩
              exact inv.current_of_queued (by simp) (by simp) rfl rfl rfl rfl .inl
          | update =>
              refine ⟨⟨inv.initialized, inv.fd, inv.ioFd, inv.events, ?_, inv.direct, ?_⟩, rfl⟩
              · rw [← inv.active]
                simp [State.activeAfter, IoTask.run, Running.effect, Func.effect]
              · exact .inr (.inl (.inr (.inr ⟨_, rfl⟩)))
      | updateSet again =>
          refine ⟨⟨inv.initialized, inv.fd, inv.fd, inv.events, ?_, inv.direct, .inl rfl⟩, rfl⟩
          rw [← inv.active]
          cases again with
          | true => rfl
          | false => rfl
      | updateStart =>
          refine ⟨⟨inv.initialized, inv.fd, inv.ioFd, inv.events, inv.active, inv.direct, ?_⟩, rfl⟩
          exact inv.current_of_queued (by simp) (by simp) rfl rfl rfl rfl .inl

theorem Inv.setEvents (inv : Inv leader x done s) (ready : s.updating = false) (events : Int) :
    Inv leader x (done ++ [.setEvents events])
      { s with task := s.task.setEvents events } := by
  by_cases changes : s.task.events ≠ events
  · have set : s.task.setEvents events = { s.task with events, changePending := true } :=
      if_pos changes
    rw [set]
    refine ⟨inv.initialized, inv.fd, inv.ioFd, ?_, ?_, inv.direct, ?_⟩
    · rw [lastMask_concat]
      rfl
    · rw [lastSwitch_concat]
      exact inv.active
    · exact .inr (.inr ⟨ready, rfl, done, events, [], rfl, List.not_mem_nil⟩)
  · have set : s.task.setEvents events = s.task := if_neg changes
    rw [set]
    refine ⟨inv.initialized, inv.fd, inv.ioFd, ?_, ?_, inv.direct, ?_⟩
    · rw [lastMask_concat]
      exact not_ne_iff.mp changes
    · rw [lastSwitch_concat]
      exact inv.active
    · exact inv.current.imp_right (Or.imp_right fun pending =>
        ⟨pending.1, pending.2.1, pending.2.2.concat (by simp)⟩)

/-- Passing on the functor of `start_watcher` or `stop_watcher`. -/
theorem Inv.switch (inv : Inv leader x done s) (idle : leader = true → s.running = none) {f : Func}
    {call : Call} (mask : call.mask = none) (switch : call.switch = some (f.effect true))
    (constant : ∀ active, f.effect active = f.effect true) (other : call ≠ .updateWatcher) :
    Inv leader x (done ++ [call]) (s.execInWorkerCtx leader f) where
  initialized := by rw [State.execInWorkerCtx_task, inv.initialized]
  fd := by rw [State.execInWorkerCtx_task, inv.fd]
  ioFd := by rw [State.execInWorkerCtx_task, inv.ioFd]
  events := by rw [State.execInWorkerCtx_task, lastMask_concat, mask, inv.events, Option.getD_none]
  active := by
    rw [State.activeAfter_execInWorkerCtx f inv.direct idle, lastSwitch_concat, switch, constant,
      Option.getD_some]
  direct := State.direct_execInWorkerCtx f inv.direct
  current := by
    rw [State.execInWorkerCtx_task, State.execInWorkerCtx_updating]
    exact inv.current.imp_right (Or.imp
      (State.updateComing_execInWorkerCtx f inv.direct idle) fun pending =>
        ⟨pending.1, pending.2.1, pending.2.2.concat other⟩)

theorem Inv.updateWatcher (inv : Inv leader x done s) (idle : leader = true → s.running = none) :
    Inv leader x (done ++ [.updateWatcher])
      (if s.task.changePending then { s.execInWorkerCtx leader .update with updating := true }
        else s) := by
  by_cases pending : s.task.changePending = true
  · rw [if_pos pending]
    refine ⟨?_, ?_, ?_, ?_, ?_, State.direct_execInWorkerCtx _ inv.direct, ?_⟩
    · rw [State.execInWorkerCtx_task, inv.initialized]
    · rw [State.execInWorkerCtx_task, inv.fd]
    · rw [State.execInWorkerCtx_task, inv.ioFd]
    · rw [State.execInWorkerCtx_task, lastMask_concat, inv.events]
      rfl
    · rw [lastSwitch_concat]
      exact (State.activeAfter_execInWorkerCtx .update inv.direct idle).trans inv.active
    · exact .inr (.inl State.updateComing_update)
  · rw [if_neg pending]
    refine ⟨inv.initialized, inv.fd, inv.ioFd, ?_, ?_, inv.direct, ?_⟩
    · rw [lastMask_concat]
      exact inv.events
    · rw [lastSwitch_concat]
      exact inv.active
    · rcases inv.current with same | coming | ⟨_, stillPending, _⟩
      · exact .inl same
      · exact .inr (.inl coming)
      · exact absurd stillPending pending

theorem Inv.call (inv : Inv leader x done s) (idle : leader = true → s.running = none)
    (ready : s.updating = false) {call : Call} (stepped : s.call leader call = some next) :
    Inv leader x (done ++ [call]) next ∧ next.calls = s.calls := by
  cases call with
  | setEvents events =>
      cases stepped
      exact ⟨inv.setEvents ready events, rfl⟩
  | updateWatcher =>
      rw [State.eq_of_asserted stepped]
      refine ⟨inv.updateWatcher idle, ?_⟩
      split
      · exact State.execInWorkerCtx_calls _
      · rfl
  | startWatcher | stopWatcher =>
      rw [State.eq_of_asserted stepped]
      exact ⟨inv.switch idle rfl rfl (fun _ => rfl) (by simp), State.execInWorkerCtx_calls _⟩

/-- A step of the worker goes on with a call, or makes the next one. -/
theorem Inv.workerStep (inv : Inv leader x done s) (stepped : s.workerStep leader = some next) :
    ∃ more, Inv leader x (done ++ more) next ∧ s.calls = more ++ next.calls := by
  unfold State.workerStep at stepped
  split at stepped
  · cases stepped
  · next free =>
      have idle : leader = true → s.running = none := by
        intro lead
        cases running : s.running with
        | none => rfl
        | some r => simp [lead, running] at free
      split at stepped
      · next updating =>
          cases stepped
          refine ⟨[], ?_, rfl⟩
          rw [List.append_nil]
          refine ⟨inv.initialized, inv.fd, inv.ioFd, inv.events, inv.active, inv.direct, ?_⟩
          rcases inv.current with same | coming | ⟨ready, _⟩
          · exact .inl same
          · exact .inr (.inl coming)
          · cases updating.symm.trans ready
      · next ready =>
          split at stepped
          · cases stepped
          · next call calls pending =>
              have before : Inv leader x done { s with calls } :=
                ⟨inv.initialized, inv.fd, inv.ioFd, inv.events, inv.active, inv.direct, inv.current⟩
              obtain ⟨after, rest⟩ := before.call idle (Bool.eq_false_of_not_eq_true ready) stepped
              exact ⟨[call], after, by rw [pending, rest]; rfl⟩

/-! ## Whole runs -/

theorem inv_of_reachable {calls : List Call} (settled : x.Settled)
    (reachable : (system leader x calls).Reachable s) :
    ∃ done, Inv leader x done s ∧ calls = done ++ s.calls := by
  apply reachable.invariant fun s => ∃ done, Inv leader x done s ∧ calls = done ++ s.calls
  · exact ⟨[], ⟨settled.initialized, rfl, settled.ioFd, rfl, rfl, fun _ => rfl,
      .inl settled.ioEvents⟩, rfl⟩
  · rintro state next action - ⟨done, inv, split⟩ stepped
    cases action with
    | worker =>
        obtain ⟨more, after, rest⟩ := inv.workerStep stepped
        exact ⟨done ++ more, after, by rw [split, rest, List.append_assoc]⟩
    | functor =>
        obtain ⟨after, rest⟩ := inv.functorStep stepped
        exact ⟨done, after, by rw [split, rest]⟩

/-- Once all functors have run, the watcher has the file descriptor of the task and the mask that
was set last, and it is active as the last start or stop says.  After `handle_event` has returned
true it is active. -/
theorem rearmed (leader : Bool) {x : IoTask} (settled : x.Settled) {calls : List Call}
    (followed : Followed calls) {s : State} (reachable : (system leader x calls).Reachable s)
    (finished : s.Finished) :
    s.task.ioEvents = s.task.events ∧ s.task.events = lastMask x.events calls ∧
      s.task.ioFd = s.task.fd ∧ s.task.fd = x.fd ∧
      s.task.active = lastSwitch x.active calls ∧
      (∀ handled, calls = execEventHandler handled true → s.task.active = true ∧
        s.task.ioEvents = lastMask x.events handled) := by
  obtain ⟨done, inv, split⟩ := inv_of_reachable settled reachable
  rw [finished.calls, List.append_nil] at split
  rw [← split] at inv
  have active : s.task.active = lastSwitch x.active calls := by
    rw [← inv.active, State.activeAfter, finished.queue, finished.running]
    rfl
  have mask : s.task.ioEvents = s.task.events := by
    rcases inv.current with same | (queued | running | ⟨_, running⟩) | ⟨_, _, dirty⟩
    · exact same
    · rw [finished.queue] at queued
      cases queued
    · cases finished.running.symm.trans running
    · cases finished.running.symm.trans running
    · exact absurd dirty followed.not_dirty
  refine ⟨mask, inv.events, inv.ioFd.trans inv.fd.symm, inv.fd, active, fun handled all => ?_⟩
  have split : calls = handled ++ [.startWatcher] := all
  constructor
  · rw [active, split, lastSwitch_concat]
    rfl
  · rw [mask, inv.events, split, lastMask_concat]
    rfl

/-- A task that waits for `EV_READ`, and whose watcher was stopped when it fired. -/
def fired : IoTask := IoTask.initWatcher { fd := 5, events := 1 }

/-- The calls of a handler that waits for `EV_WRITE` from then on. -/
def toWrite : List Call := execEventHandler [.setEvents 2, .updateWatcher] true

theorem toWrite_followed : Followed toWrite := by
  intro before events after split
  match before with
  | [] =>
      cases split
      exact List.mem_cons_self
  | first :: before =>
      have other : Call.setEvents events ∈ [.updateWatcher, .startWatcher] := by
        have tail := congrArg List.tail split
        change [.updateWatcher, .startWatcher] = before ++ .setEvents events :: after at tail
        rw [tail]
        exact List.mem_append_right _ List.mem_cons_self
      simp at other

/-- Another leader runs the functors while the worker goes on. -/
theorem rearmed_toWrite :
    ∃ s, (system false fired toWrite).Reachable s ∧ s.Finished ∧ s.task.active = true ∧
      s.task.ioEvents = 2 := by
  have run : ((system false fired toWrite).exec [.worker, .worker, .functor, .functor, .functor,
      .worker, .worker, .functor, .functor] (system false fired toWrite).init).any
        (fun s => decide s.Finished) = true := by
    decide +kernel
  obtain ⟨s, reachable, finished⟩ := System.exists_reachable_of_exec run
  have done := of_decide_eq_true finished
  obtain ⟨-, -, -, -, -, handled⟩ :=
    rearmed false (IoTask.initWatcher_settled _) toWrite_followed reachable done
  exact ⟨s, reachable, done, handled _ rfl⟩

/-! ## The functors do run -/

/-- The steps that a functor still needs. -/
def Running.remaining : Running → Nat
  | .fresh _ => 3
  | .updateSet _ => 2
  | .updateStart => 1

/-- A bound on the steps that are still to be made. -/
def State.remaining (s : State) : Nat :=
  8 * s.calls.length + s.updating.toNat + 5 * s.queue.length + s.running.elim 0 Running.remaining

theorem remaining_execInWorkerCtx (idle : leader = true → s.running = none) (f : Func) :
    (s.execInWorkerCtx leader f).remaining ≤ s.remaining + 5 := by
  cases leader with
  | false =>
      simp only [State.execInWorkerCtx, State.remaining, List.length_append, List.length_singleton,
        Bool.false_eq_true, if_false]
      omega
  | true =>
      simp only [State.execInWorkerCtx, State.remaining, idle rfl, if_true, Option.elim,
        Running.remaining]
      omega

theorem remaining_call (idle : leader = true → s.running = none) (ready : s.updating = false)
    {call : Call} (stepped : s.call leader call = some next) :
    next.remaining ≤ s.remaining + 6 := by
  have passed := fun f => remaining_execInWorkerCtx (s := s) idle f
  cases call with
  | setEvents events =>
      cases stepped
      exact Nat.le_add_right _ _
  | updateWatcher =>
      rw [State.eq_of_asserted stepped]
      have less := passed .update
      split
      · simp only [State.remaining, State.execInWorkerCtx_updating, ready, Bool.toNat_true,
          Bool.toNat_false] at less ⊢
        omega
      · exact Nat.le_add_right _ _
  | startWatcher | stopWatcher =>
      rw [State.eq_of_asserted stepped]
      exact Nat.le_succ_of_le (passed _)

theorem remaining_workerStep (stepped : s.workerStep leader = some next) :
    next.remaining < s.remaining := by
  unfold State.workerStep at stepped
  split at stepped
  · cases stepped
  · next free =>
      have idle : leader = true → s.running = none := by
        intro lead
        cases running : s.running with
        | none => rfl
        | some r => simp [lead, running] at free
      split at stepped
      · next updating =>
          cases stepped
          simp only [State.remaining, updating, Bool.toNat_true, Bool.toNat_false]
          omega
      · next ready =>
          split at stepped
          · cases stepped
          · next call calls pending =>
              have less := remaining_call (s := { s with calls }) idle
                (Bool.eq_false_of_not_eq_true ready) stepped
              simp only [State.remaining, pending, List.length_cons] at less ⊢
              omega

theorem remaining_functorStep (stepped : s.functorStep = some next) :
    next.remaining < s.remaining := by
  obtain ⟨task, calls, updating, queue, running⟩ := s
  cases running with
  | none =>
      cases queue with
      | nil => cases stepped
      | cons f queue =>
          cases stepped
          simp only [State.remaining, List.length_cons, Option.elim, Running.remaining]
          omega
  | some r =>
      cases stepped
      have shorter : (task.run r).2.elim 0 Running.remaining < r.remaining := by
        cases r with
        | fresh f => cases f <;> simp [IoTask.run, Running.remaining]
        | updateSet again => cases again <;> simp [IoTask.run, Running.remaining]
        | updateStart => simp [IoTask.run, Running.remaining]
      simp only [State.remaining, Option.elim] at shorter ⊢
      omega

/-- As long as something is to be done, the worker or the thread that runs the functors can do
it. -/
theorem exists_step (initialized : s.task.initialized = true) (unfinished : ¬s.Finished)
    {calls : List Call} :
    ∃ action next, (system leader x calls).step action s = some next := by
  obtain ⟨task, pending, updating, queue, running⟩ := s
  cases running with
  | some r => exact ⟨.functor, _, rfl⟩
  | none =>
      cases queue with
      | cons f queue => exact ⟨.functor, _, rfl⟩
      | nil =>
          refine ⟨.worker, ?_⟩
          change ∃ next, State.workerStep leader _ = some next
          unfold State.workerStep
          rw [if_neg (by simp)]
          cases updating with
          | true => exact ⟨_, rfl⟩
          | false =>
              cases pending with
              | nil => exact absurd ⟨rfl, rfl, rfl, rfl⟩ unfinished
              | cons call pending =>
                  cases call with
                  | setEvents events => exact ⟨_, rfl⟩
                  | updateWatcher | startWatcher | stopWatcher => exact ⟨_, if_pos initialized⟩

/-- Every run can be completed. -/
theorem finishes (settled : x.Settled) {calls : List Call}
    (reachable : (system leader x calls).Reachable s) :
    ∃ actions final, (system leader x calls).exec actions s = some final ∧ final.Finished := by
  induction n : s.remaining using Nat.strong_induction_on generalizing s with
  | h n ih =>
      by_cases finished : s.Finished
      · exact ⟨[], s, rfl, finished⟩
      · obtain ⟨done, inv, -⟩ := inv_of_reachable settled reachable
        obtain ⟨action, next, stepped⟩ := exists_step inv.initialized finished
        have less : next.remaining < s.remaining := by
          cases action with
          | worker => exact remaining_workerStep stepped
          | functor => exact remaining_functorStep stepped
        obtain ⟨actions, final, run, ends⟩ :=
          ih next.remaining (n ▸ less) (reachable.step action stepped) rfl
        refine ⟨action :: actions, final, ?_, ends⟩
        rw [System.exec, stepped]
        exact run

end LibTasks.Rearming

import LibTasks.Dispatcher.LeaderFollowers
import LibTasks.Foundation.Mailbox

/-!
# The functor queues

Every worker has a queue of functors that any thread may append to and that the
leader empties in `tasks_async_callback`.  In the build with assertions each
queue behaves like a mailbox, whichever worker is leader while it is emptied, and
a queue with content never waits without a wakeup on its way.
-/

namespace LibTasks.Dispatcher

open LibTasks.Foundation

variable {Task Other : Type}

/-- Program points inside `tasks_async_callback`. -/
def Pc.isQueuePoint : Pc Task Other → Bool
  | .swap .. | .drain .. | .execFront .. | .inFunctor .. => true
  | _ => false

/-- What a running callback still has to execute of the functors it took from a
queue. -/
def Pc.swapped (w : Nat) : Pc Task Other → List (TaskFunc Task Other)
  | .drain _ queue qcpy | .inFunctor _ queue _ qcpy => if queue = w then qcpy else []
  | .execFront _ queue front qcpy => if queue = w then front :: qcpy else []
  | _ => []

theorem Pc.swapped_eq_nil {pc : Pc Task Other} (outside : pc.isQueuePoint = false) (w : Nat) :
    pc.swapped w = [] := by
  cases pc <;> first | rfl | cases outside

/-- The functors of queue `w` that running callbacks have swapped out. -/
def swappedCopies (cfg : Config Task Other) (s : State Task Other) (w : Nat) :
    List (TaskFunc Task Other) :=
  (List.range cfg.numWorkers).flatMap fun i => (s.workers i).pc.swapped w

/-- The queue of worker `w` as a mailbox whose consumer is the running callback. -/
def mailbox (cfg : Config Task Other) (s : State Task Other) (w : Nat) :
    Mailbox (TaskFunc Task Other) where
  pushed := (s.queues w).pushed
  executed := (s.queues w).executed
  held := swappedCopies cfg s w
  queued := (s.queues w).queue

/-- A wakeup for queue `w` is on its way: the watcher's flag is set, a thread is
between its push and its `ev_async_send`, or a callback is about to swap. -/
def WakeupPending (cfg : Config Task Other) (s : State Task Other) (w : Nat) : Prop :=
  (s.queues w).sent = true ∨ (∃ thread, s.calls thread = .send w) ∨
    ∃ i < cfg.numWorkers, ∃ worker, (s.workers i).pc = .swap worker w

section Frames

variable {cfg : Config Task Other} {s s' : State Task Other} {phase : Phase}

theorem swappedCopies_congr {w : Nat}
    (points : ∀ j < cfg.numWorkers, (s'.workers j).pc.swapped w = (s.workers j).pc.swapped w) :
    swappedCopies cfg s' w = swappedCopies cfg s w := by
  unfold swappedCopies
  refine List.flatMap_congr fun j inside => points j (List.mem_range.mp inside)

/-- A worker that is not in the middle of a callback holds no functors. -/
theorem InPhase.outside_queue (inv : InPhase cfg s phase) {j : Nat}
    (bound : j < cfg.numWorkers) (other : phase ≠ .led j) :
    (s.workers j).pc.isQueuePoint = false := by
  by_contra inside
  refine other (inv.eq_led bound ?_)
  revert inside
  cases (s.workers j).pc <;> simp [Pc.isQueuePoint, Pc.isLeaderPoint]

/-- While one worker leads, all swapped functors are in its callback. -/
theorem InPhase.swappedCopies_eq {i : Nat} (inv : InPhase cfg s (.led i))
    (others : ∀ j, j ≠ i → (s'.workers j).pc = (s.workers j).pc) (w : Nat) :
    swappedCopies cfg s' w = (s'.workers i).pc.swapped w := by
  refine flatMap_range_eq inv.shared.1 ?_
  intro j bound different
  rw [others j different]
  refine Pc.swapped_eq_nil (inv.outside_queue bound ?_) w
  simpa using Ne.symm different

/-- What one step does to the queue of worker `w`: an operation of the mailbox,
after which a queue with content has its wakeup if it had one before. -/
structure QueueStep (cfg : Config Task Other) (s s' : State Task Other) (w : Nat) : Prop where
  mailbox : Mailbox.Step (mailbox cfg s w) (mailbox cfg s' w)
  wakeup : ((s.queues w).queue ≠ [] → WakeupPending cfg s w) →
    (s'.queues w).queue ≠ [] → WakeupPending cfg s' w

/-- A step that leaves the queue, its swapped functors and its wakeups alone. -/
theorem QueueStep.of_same {w : Nat} (queues : s'.queues w = s.queues w)
    (held : swappedCopies cfg s' w = swappedCopies cfg s w)
    (sends : ∀ thread, s.calls thread = .send w → s'.calls thread = .send w)
    (swaps : ∀ j worker, (s.workers j).pc = .swap worker w →
      (s'.workers j).pc = .swap worker w) : QueueStep cfg s s' w where
  mailbox := by
    have same : Dispatcher.mailbox cfg s' w = Dispatcher.mailbox cfg s w := by
      simp only [Dispatcher.mailbox, queues, held]
    exact same ▸ .stutter _
  wakeup := by
    intro pending content
    rw [queues] at content
    rcases pending content with sent | ⟨thread, send⟩ | ⟨j, bound, worker, swap⟩
    · exact .inl (queues ▸ sent)
    · exact .inr (.inl ⟨thread, sends thread send⟩)
    · exact .inr (.inr ⟨j, bound, worker, swaps j worker swap⟩)

/-- A step after which every worker thread is where it was, unless it moved
outside `tasks_async_callback`. -/
theorem QueueStep.of_points {w : Nat} (queues : s'.queues w = s.queues w)
    (sends : ∀ thread, s.calls thread = .send w → s'.calls thread = .send w)
    (points : ∀ j, (s'.workers j).pc = (s.workers j).pc ∨
      (s.workers j).pc.isQueuePoint = false ∧ (s'.workers j).pc.isQueuePoint = false) :
    QueueStep cfg s s' w := by
  refine QueueStep.of_same queues (swappedCopies_congr fun j _ => ?_) sends ?_
  · rcases points j with same | ⟨before, after⟩
    · rw [same]
    · rw [Pc.swapped_eq_nil before, Pc.swapped_eq_nil after]
  · intro j worker swap
    rcases points j with same | ⟨before, -⟩
    · rw [same, swap]
    · simp [swap, Pc.isQueuePoint] at before

end Frames

section Steps

variable [DecidableEq Task] {cfg : Config Task Other} {s s' : State Task Other} {phase : Phase}

/-- An operation of a worker thread leaves the other threads where they are, and
adds an event to the queue of another worker only from a callback on it. -/
theorem workerStep_others {i : Nat} (stepped : workerStep cfg s i = some s') {j : Nat}
    (other : j ≠ i) :
    (s'.workers j).pc = (s.workers j).pc ∧ s'.calls j = s.calls j ∧
      (s'.workers j).firings = (s.workers j).firings ∧
      (s'.workers j).calls = (s.workers j).calls ∧
      ((s.workers i).pc.callbackWorker ≠ some j →
        (s'.workers j).events = (s.workers j).events) := by
  revert stepped
  fun_cases workerStep cfg s i
  all_goals
    intro stepped
    simp only [Option.some.injEq, reduceCtorEq] at stepped
  all_goals
    subst stepped
    simp +zetaDelta [Function.update_apply, other]
  -- The hand-over and `add_event` also write to the record of another worker.
  case case13 worker event point _ =>
    have inCallback : (s.workers i).pc.callbackWorker = some worker :=
      congrArg Pc.callbackWorker point
    by_cases same : j = worker
    · simp [← same, other, inCallback]
    · simp [same]
  all_goals
    split
    · next same => simp [← same, other]
    · simp

/-- An operation of a worker thread outside `tasks_async_callback` does not enter
it and leaves the queues alone. -/
theorem workerStep_outside {i : Nat} (outside : (s.workers i).pc.isQueuePoint = false)
    (stepped : workerStep cfg s i = some s') :
    (s'.workers i).pc.isQueuePoint = false ∧ s'.queues = s.queues := by
  cases at' : (s.workers i).pc with
  | unborn | inLoop | aborted | handling => simp [workerStep, at'] at stepped
  | swap | drain | execFront | inFunctor => simp [at', Pc.isQueuePoint] at outside
  | addEvent worker event | unsetId worker | moveLoop worker | setLeader worker =>
      simp only [workerStep, at', Option.some.injEq] at stepped
      subst stepped
      refine ⟨?_, rfl⟩
      by_cases same : i = worker <;> simp [Function.update_apply, same, Pc.isQueuePoint]
  | waiting | fired | next | handle =>
      simp only [workerStep, at'] at stepped
      repeat' split at stepped
      all_goals
        simp only [Option.some.injEq, reduceCtorEq] at stepped
      all_goals
        subst stepped
        simp [Pc.isQueuePoint]
  | top | lead | loopReturned | freeWorker =>
      simp only [workerStep, at', Option.some.injEq] at stepped
      subst stepped
      refine ⟨?_, rfl⟩
      simp only [State.goto_workers, Function.update_self, Worker.moveTo_pc]
      split <;> rfl
  | handled event cont =>
      cases cont <;> simp only [workerStep, at', Option.some.injEq] at stepped <;>
        subst stepped <;> simp [Pc.isQueuePoint]
  | markFree | stopWatcher | foundId | demote | setUserdata | pop =>
      simp only [workerStep, at', Option.some.injEq] at stepped
      subst stepped
      simp [Pc.isQueuePoint]

/-- A worker thread that can move has no send in progress. -/
theorem workerStep_sends {i : Nat} (run : runnable cfg s i)
    (stepped : workerStep cfg s i = some s') (thread w : Nat)
    (sends : s.calls thread = .send w) : s'.calls thread = .send w := by
  have other : thread ≠ i := by
    rintro rfl
    simp [run.2] at sends
  rwa [(workerStep_others stepped other).2.1]

/-- The operations of `tasks_async_callback` in the build with assertions. -/
theorem callback_queueStep {i : Nat} (inv : InPhase cfg s phase)
    (run : runnable cfg s i) (asserts : cfg.build = .asserts)
    (inside : (s.workers i).pc.isQueuePoint = true)
    (stepped : workerStep cfg s i = some s') (w : Nat) : QueueStep cfg s s' w := by
  have point : (s.workers i).pc.isLeaderPoint = true := by
    revert inside
    cases (s.workers i).pc <;> simp [Pc.isQueuePoint, Pc.isLeaderPoint]
  obtain rfl := inv.eq_led run.1 point
  have others := fun j (other : j ≠ i) => (workerStep_others stepped other).1
  have sends := fun thread => workerStep_sends run stepped thread w
  have before := inv.swappedCopies_eq (fun _ _ => rfl) w
  have after := inv.swappedCopies_eq others w
  have swaps (notSwap : ∀ worker, (s.workers i).pc ≠ .swap worker w) (j worker : Nat)
      (swap : (s.workers j).pc = .swap worker w) : (s'.workers j).pc = .swap worker w := by
    have other : j ≠ i := by
      rintro rfl
      exact notSwap worker swap
    rwa [others j other]
  cases at' : (s.workers i).pc <;> simp only [at', Pc.isQueuePoint, Bool.false_eq_true] at inside
  case swap worker queue =>
    simp only [workerStep, at', Option.some.injEq] at stepped
    subst stepped
    simp only [at', Pc.swapped] at before
    simp only [State.goto_workers, Function.update_self, Worker.moveTo_pc, Pc.swapped] at after
    by_cases same : queue = w
    · subst same
      rw [if_pos rfl] at after
      refine ⟨?_, ?_⟩
      · simpa [mailbox, after] using
          Mailbox.Step.swap (mailbox cfg s queue) (by simp [mailbox, before])
      · simp
    · rw [if_neg same] at after
      refine QueueStep.of_same ?_ (after.trans before.symm) sends (swaps ?_)
      · simp [Ne.symm same]
      · simp [at', same]
  case drain worker queue qcpy =>
    obtain ⟨-, rfl⟩ := inv.callback run.1 (by rw [at']; rfl)
    have moved : s'.queues = s.queues ∧
        (s'.workers worker).pc.swapped w = (s.workers worker).pc.swapped w := by
      cases qcpy with
      | nil =>
          simp only [workerStep, at', Option.some.injEq] at stepped
          subst stepped
          simp [at', Pc.swapped]
      | cons front rest =>
          simp only [workerStep, at', asserts, inv.isDirect_self, ↓reduceIte,
            Option.some.injEq] at stepped
          subst stepped
          simp [at', Pc.swapped]
    refine QueueStep.of_same (congrFun moved.1 w) ?_ sends (swaps (by simp [at']))
    rw [after, before, moved.2]
  case execFront worker queue front qcpy =>
    simp only [workerStep, at', Option.some.injEq] at stepped
    subst stepped
    simp only [at', Pc.swapped] at before
    simp only [State.runFunc_queues, State.goto_workers, Function.update_self,
      Worker.moveTo_pc, Pc.swapped] at after
    by_cases same : queue = w
    · subst same
      rw [if_pos rfl] at before after
      have held : (mailbox cfg s queue).held = front :: qcpy := before
      refine ⟨?_, ?_⟩
      · simpa [mailbox, after] using Mailbox.Step.execute _ held
      · intro pending content
        rcases pending (by simpa using content) with sent | send | ⟨j, bound, worker, swap⟩
        · exact .inl (by simpa using sent)
        · exact .inr (.inl (by simpa using send))
        · exact .inr (.inr ⟨j, bound, worker, swaps (by simp [at']) j worker swap⟩)
    · rw [if_neg same] at before after
      refine QueueStep.of_same ?_ (after.trans before.symm) sends (swaps (by simp [at']))
      simp [Ne.symm same]
  case inFunctor worker queue front qcpy =>
    simp only [workerStep, at', Option.some.injEq] at stepped
    subst stepped
    refine QueueStep.of_same rfl ?_ sends (swaps (by simp [at']))
    rw [after, before, at']
    simp [Pc.swapped]

/-- The operations of a call in progress: only the push touches the mailbox, and
the send that follows it is the wakeup. -/
theorem callStep_queueStep {thread : Nat} (stepped : callStep cfg s thread = some s')
    (w : Nat) : QueueStep cfg s s' w := by
  have keeps (c : Call Task Other) (now : s.calls thread ≠ .send w)
      (other : Nat) (sends : s.calls other = .send w) :
      Function.update s.calls thread c other = .send w := by
    have different : other ≠ thread := by
      rintro rfl
      exact now sends
    rwa [Function.update_of_ne different]
  cases call : s.calls thread with
  | idle => simp [callStep, call] at stepped
  | test worker f =>
      simp only [callStep, call, Option.some.injEq] at stepped
      subst stepped
      exact QueueStep.of_points rfl (keeps _ (by simp [call])) fun _ => .inl rfl
  | direct worker f =>
      simp only [callStep, call, Option.some.injEq] at stepped
      subst stepped
      refine QueueStep.of_points (by simp) ?_ fun _ => .inl (by simp)
      simpa using keeps .idle (by simp [call])
  | push worker f =>
      simp only [callStep, call, Option.some.injEq] at stepped
      subst stepped
      by_cases same : worker = w
      · subst same
        refine ⟨?_, fun _ _ => .inr (.inl ⟨thread, by simp⟩)⟩
        simpa [mailbox, swappedCopies] using Mailbox.Step.push (mailbox cfg s worker) f
      · refine QueueStep.of_points ?_ (keeps _ (by simp [call])) fun _ => .inl rfl
        simp [Ne.symm same]
  | send worker =>
      simp only [callStep, call, Option.some.injEq] at stepped
      subst stepped
      by_cases same : worker = w
      · subst same
        refine ⟨?_, fun _ _ => .inl (by simp)⟩
        simpa [mailbox, swappedCopies] using Mailbox.Step.stutter (mailbox cfg s worker)
      · refine QueueStep.of_points ?_ (keeps _ (by simp [call, same])) fun _ => .inl rfl
        simp [Ne.symm same]

omit [DecidableEq Task] in
/-- The operations of `dispatcher::start`. -/
theorem starterStep_queueStep (inv : InPhase cfg s phase)
    (stepped : starterStep cfg s = some s') (w : Nat) : QueueStep cfg s s' w := by
  cases point : s.starter with
  | spawn k =>
      simp only [starterStep, point] at stepped
      split at stepped
      · next inside =>
        have before : (s.workers k).pc.isQueuePoint = false := by
          rw [inv.unborn_of_spawn point]
          rfl
        simp only [Option.some.injEq] at stepped
        subst stepped
        refine QueueStep.of_points rfl (fun _ => id) fun j => ?_
        by_cases same : j = k
        · subst same
          exact .inr ⟨before, by simp [Pc.isQueuePoint]⟩
        · exact .inl (by simp [same])
      · simp only [Option.some.injEq] at stepped
        subst stepped
        exact QueueStep.of_points rfl (fun _ => id) fun _ => .inl rfl
  | waitBit k =>
      simp only [starterStep, point] at stepped
      repeat' split at stepped
      all_goals simp only [Option.some.injEq, reduceCtorEq] at stepped
      all_goals
        subst stepped
        exact QueueStep.of_points rfl (fun _ => id) fun _ => .inl rfl
  | unsetFirst | moveLoop | setUserdata | setLeader =>
      simp only [starterStep, point, Option.some.injEq] at stepped
      subst stepped
      refine QueueStep.of_points rfl (fun _ => id) fun j => .inl ?_
      by_cases first : j = 0 <;> simp [first]
  | started => simp [starterStep, point] at stepped

omit [DecidableEq Task] in
/-- A thread begins a call. -/
theorem beginCall_queueStep {thread : Nat} {c : Call Task Other}
    (idle : s.calls thread = .idle) (workers : s'.workers = s.workers)
    (queues : s'.queues = s.queues) (calls : s'.calls = s.calls) (w : Nat) :
    QueueStep cfg s (s'.setCall thread c) w := by
  refine QueueStep.of_points (congrFun queues w) ?_ fun j => .inl (by simp [workers])
  intro other sends
  have different : other ≠ thread := by
    rintro rfl
    simp [idle] at sends
  simpa [different, calls] using sends

omit [DecidableEq Task] in
/-- The event loop invokes a task's callback. -/
theorem fire_queueStep {i : Nat} {event : Event Task} (inv : InPhase cfg s phase)
    (run : runnable cfg s i) (inLoop : (s.workers i).pc = .inLoop) (w : Nat) :
    QueueStep cfg s (enterCallback
      (s.setWorker i { s.workers i with firings := (s.workers i).firings ++ [event] }) i
      fun worker => .fired worker event) w := by
  obtain rfl := inv.eq_led run.1 (by rw [inLoop]; rfl)
  simp only [enterCallback, State.setWorker_userdata, inv.shared.2.2.1]
  refine QueueStep.of_points rfl (fun _ => id) fun j => ?_
  by_cases same : j = i
  · subst same
    exact .inr (by simp [inLoop, Pc.isQueuePoint])
  · exact .inl (by simp [same])

omit [DecidableEq Task] in
/-- The event loop clears the flag of a watcher and invokes its async callback. -/
theorem asyncReady_queueStep {i queue : Nat} (inv : InPhase cfg s phase)
    (run : runnable cfg s i) (inLoop : (s.workers i).pc = .inLoop) (w : Nat) :
    QueueStep cfg s (enterCallback
      (s.setQueue queue { s.queues queue with sent := false }) i
      fun worker => .swap worker queue) w := by
  obtain rfl := inv.eq_led run.1 (by rw [inLoop]; rfl)
  simp only [enterCallback, State.setQueue_userdata, inv.shared.2.2.1]
  have held : swappedCopies cfg ((s.setQueue queue { s.queues queue with sent := false }).goto i
      (.swap i queue)) w = swappedCopies cfg s w := by
    refine swappedCopies_congr fun j _ => ?_
    by_cases same : j = i
    · subst same
      simp [inLoop, Pc.swapped]
    · simp [same]
  by_cases same : queue = w
  · subst same
    refine ⟨?_, fun _ _ => .inr (.inr ⟨i, run.1, i, by simp⟩)⟩
    simpa [mailbox, held] using Mailbox.Step.stutter (mailbox cfg s queue)
  · refine QueueStep.of_same (by simp [Ne.symm same]) held (fun _ => id) ?_
    intro j worker swap
    have other : j ≠ i := by
      rintro rfl
      simp [inLoop] at swap
    simpa [other] using swap

variable [DecidableEq Other]

/-- The step lemma: every action is an operation of each mailbox. -/
theorem step_queueStep {action : Action Task Other} (inv : InPhase cfg s phase)
    (asserts : cfg.build = .asserts) (stepped : step cfg action s = some s') (w : Nat) :
    QueueStep cfg s s' w := by
  cases moves_of_step stepped with
  | starter stepped => exact starterStep_queueStep inv stepped w
  | @worker i _ run stepped =>
      cases inside : (s.workers i).pc.isQueuePoint with
      | true => exact callback_queueStep inv run asserts inside stepped w
      | false =>
          have after := workerStep_outside inside stepped
          refine QueueStep.of_points (congrFun after.2 w)
            (fun thread => workerStep_sends run stepped thread w) fun j => ?_
          by_cases same : j = i
          · subst same
            exact .inr ⟨inside, after.1⟩
          · exact .inl (workerStep_others stepped same).1
  | fire run inLoop _ => exact fire_queueStep inv run inLoop w
  | asyncReady run inLoop _ _ => exact asyncReady_queueStep inv run inLoop w
  | @loopReturn i _ point | @handlerReturn i _ _ _ point =>
      refine QueueStep.of_points rfl (fun _ => id) fun j => ?_
      by_cases same : j = i
      · subst same
        exact .inr (by simp [point, Pc.isQueuePoint])
      · exact .inl (by simp [same])
  | call _ stepped => exact callStep_queueStep stepped w
  | exec allowed | async allowed => exact beginCall_queueStep allowed.2.1 rfl rfl rfl w
  | addTask _ idle _ _ => refine beginCall_queueStep idle ?_ ?_ ?_ w <;> rfl

end Steps

/-! ## No functor is lost, duplicated or reordered -/

/-- What holds of the functor queues in a state. -/
structure FunctorsSafe (cfg : Config Task Other) (s : State Task Other) : Prop where
  ordered : ∀ w < cfg.numWorkers, (s.queues w).pushed =
    (s.queues w).executed ++ swappedCopies cfg s w ++ (s.queues w).queue
  wakeup : ∀ w < cfg.numWorkers, (s.queues w).queue ≠ [] → WakeupPending cfg s w
  taken : ∀ i < cfg.numWorkers, ∀ worker queue front qcpy,
    (s.workers i).pc = .drain worker queue (front :: qcpy) ∨
      (s.workers i).pc = .execFront worker queue front qcpy →
    worker = i ∧ (s.workers i).leader = true ∧ isDirect cfg s i worker = true
  running : ∀ i < cfg.numWorkers, ∀ worker queue front qcpy,
    (s.workers i).pc = .inFunctor worker queue front qcpy →
    worker = i ∧ (s.workers i).leader = true
  direct : ∀ thread worker f, s.calls thread = .direct worker f →
    thread < cfg.numWorkers ∧ worker = thread ∧ (s.workers thread).leader = true
  noAbort : ∀ i < cfg.numWorkers, (s.workers i).pc ≠ .aborted

theorem InPhase.noAbort {cfg : Config Task Other} {s : State Task Other} {phase : Phase}
    (inv : InPhase cfg s phase) {i : Nat} (bound : i < cfg.numWorkers) :
    (s.workers i).pc ≠ .aborted := by
  intro aborted
  have role := inv.roles i bound
  generalize phase.role i = part at role
  cases part <;> simp [RoleOk, FollowerAt, LeaderAt, aborted] at role

variable [DecidableEq Task] [DecidableEq Other]

/-- The run lemma for the queue of one worker. -/
theorem queue_of_reachable {cfg : Config Task Other} {s : State Task Other}
    (nonempty : 0 < cfg.numWorkers) (asserts : cfg.build = .asserts)
    (reachable : (system cfg).Reachable s) (w : Nat) :
    (mailbox cfg s w).Ordered ∧ ((s.queues w).queue ≠ [] → WakeupPending cfg s w) := by
  refine reachable.invariant
    (fun s => (mailbox cfg s w).Ordered ∧ ((s.queues w).queue ≠ [] → WakeupPending cfg s w))
    ⟨?_, fun content => absurd rfl content⟩ ?_
  · have empty : swappedCopies cfg (initState : State Task Other) w = [] := by
      simp [swappedCopies, initState, Pc.swapped]
    simp only [Mailbox.Ordered, mailbox, system, empty]
    rfl
  · rintro state next action reached ⟨ordered, wakeup⟩ stepped
    obtain ⟨phase, inv⟩ := inPhase_of_reachable nonempty reached
    have queueStep := step_queueStep inv asserts stepped w
    exact ⟨queueStep.mailbox.ordered ordered, queueStep.wakeup wakeup⟩

/-- With assertions enabled, however pushes, sends, callbacks and hand-overs
interleave, every functor pushed is executed at most once and in order, always in
the thread of the current leader, and none waits without a wakeup. -/
theorem functorsSafe_of_reachable {cfg : Config Task Other} {s : State Task Other}
    (nonempty : 0 < cfg.numWorkers) (asserts : cfg.build = .asserts)
    (reachable : (system cfg).Reachable s) : FunctorsSafe cfg s := by
  obtain ⟨phase, inv⟩ := inPhase_of_reachable nonempty reachable
  have safe := inv.handOverSafe nonempty
  refine ⟨?_, ?_, ?_, ?_, ?_, fun i bound => inv.noAbort bound⟩
  · intro w _
    exact (queue_of_reachable nonempty asserts reachable w).1
  · intro w _
    exact (queue_of_reachable nonempty asserts reachable w).2
  · intro i bound worker queue front qcpy point
    obtain ⟨rfl, rfl⟩ : phase = .led i ∧ worker = i :=
      inv.callback bound (by rcases point with at' | at' <;> rw [at'] <;> rfl)
    exact ⟨rfl, inv.leader.1, inv.isDirect_self⟩
  · intro i bound worker queue front qcpy point
    obtain ⟨rfl, rfl⟩ : phase = .led i ∧ worker = i := inv.callback bound (by rw [point]; rfl)
    exact ⟨rfl, inv.leader.1⟩
  · intro thread worker f taken
    obtain ⟨inside, rfl, leads⟩ := safe.direct thread worker f taken
    exact ⟨inside, rfl, leads⟩

/-- The start functor of the first task is swapped out but not executed yet, and
the one of a second task is queued behind it. -/
theorem functorsSafe_midway : ∃ s, (system twoWorkers).Reachable s ∧
    swappedCopies twoWorkers s 0 = [.start 7] ∧ (s.queues 0).queue = [.start 8] ∧
      FunctorsSafe twoWorkers s := by
  have run : ((system twoWorkers).exec (bootTwoWorkers ++
      [.addTask 2 7, .call 2, .call 2, .call 2, .worker 0, .worker 0, .asyncReady 0 0,
        .worker 0, .addTask 2 8, .call 2, .call 2]) (system twoWorkers).init).any
        (fun s => swappedCopies twoWorkers s 0 == [.start 7] &&
          (s.queues 0).queue == [.start 8]) = true := by
    decide
  obtain ⟨s, reachable, test⟩ := System.exists_reachable_of_exec run
  simp only [Bool.and_eq_true, beq_iff_eq] at test
  exact ⟨s, reachable, test.1, test.2,
    functorsSafe_of_reachable (by decide) rfl reachable⟩

end LibTasks.Dispatcher

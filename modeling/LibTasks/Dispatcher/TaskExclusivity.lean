import LibTasks.Dispatcher.FunctorQueue

/-!
# Tasks are handled by one worker at a time

A task that was added once is in exactly one place on its way around the system:
its watcher is active, its start functor is queued, or one of its events waits in
or is handled from the event queue of a worker.  The places are counted as tokens;
no step creates one except `add_event_task`.

The second half is about the events of one worker: the calls of `handle_event`
made by its thread are the firings it collected, in the order of collection.
-/

namespace LibTasks.Dispatcher

open LibTasks.Foundation

variable {Task Other : Type}

/-! ## Tokens -/

section Tokens

variable [DecidableEq Task] [DecidableEq Other] (task : Task)

/-- Start functors of a task in a list of functors. -/
def startsIn (functors : List (TaskFunc Task Other)) : Nat :=
  functors.count (.start task)

/-- Events of a task in a list of events. -/
def eventsOf (events : List (Event Task)) : Nat :=
  events.countP fun event => event.task = task

/-- Start functors in a swapped copy, and the event of a stopped watcher that is
about to be added to an event queue. -/
def Pc.tokens : Pc Task Other → Nat
  | .addEvent _ event => eventsOf task [event]
  | .drain _ _ qcpy | .inFunctor _ _ _ qcpy => startsIn task qcpy
  | .execFront _ _ front qcpy => startsIn task (front :: qcpy)
  | _ => 0

/-- The events whose handling is not finished.  At `pop` the front event was
handled and its task started again or finished; only its entry is left. -/
def Worker.live (w : Worker Task Other) : List (Event Task) :=
  match w.pc with
  | .pop => w.events.tail
  | _ => w.events

/-- The tokens a worker holds. -/
def Worker.tokens (w : Worker Task Other) : Nat :=
  w.pc.tokens task + eventsOf task w.live

/-- The token of a functor in the hands of a calling thread. -/
def Call.tokens : Call Task Other → Nat
  | .test _ f | .direct _ f | .push _ f => startsIn task [f]
  | .idle | .send _ => 0

/-- All the places where a task can be. -/
def tokens (cfg : Config Task Other) (s : State Task Other) : Nat :=
  (s.active task).toNat +
    (∑ w ∈ Finset.range cfg.numWorkers, startsIn task (s.queues w).queue) +
    (∑ i ∈ Finset.range cfg.numWorkers, (s.workers i).tokens task) +
    ∑ thread ∈ Finset.range cfg.numThreads, (s.calls thread).tokens task

end Tokens

/-! ## The events of one worker -/

/-- The event whose handler is running or has just returned. -/
def Pc.current : Pc Task Other → Option (Event Task)
  | .handling event | .handled event _ => some event
  | _ => none

/-- The event of a callback on its way into the event queue. -/
def Pc.collecting : Pc Task Other → List (Event Task)
  | .fired _ event | .stopWatcher _ event | .addEvent _ event => [event]
  | _ => []

/-- Whether `handle_event` was already called for the front of the event queue. -/
def Pc.frontHandled : Pc Task Other → Bool
  | .handling _ | .handled _ _ | .pop => true
  | _ => false

/-- Collected events for which `handle_event` was not called yet. -/
def Worker.pending (w : Worker Task Other) : List (Event Task) :=
  (if w.pc.frontHandled then w.events.tail else w.events) ++ w.pc.collecting

/-- The calls made by a worker's thread, followed by what is still pending, are
the firings it collected. -/
structure HistoryOk (w : Worker Task Other) : Prop where
  current : ∀ event, w.pc.current = some event → ∃ rest, w.events = event :: rest
  collected : w.firings = w.calls ++ w.pending

/-- Program points without an event under way or being handled. -/
def Pc.isPlain : Pc Task Other → Bool
  | .fired .. | .stopWatcher .. | .addEvent .. | .handling _ | .handled _ _ | .pop => false
  | _ => true

theorem Pc.plain_facts {pc : Pc Task Other} (plain : pc.isPlain = true) :
    pc.current = none ∧ pc.collecting = [] ∧ pc.frontHandled = false := by
  cases pc <;> simp_all [Pc.isPlain, Pc.current, Pc.collecting, Pc.frontHandled]

/-- Moving between such points keeps the history. -/
theorem HistoryOk.of_plain {w w' : Worker Task Other} (ok : HistoryOk w)
    (before : w.pc.isPlain = true) (after : w'.pc.isPlain = true)
    (events : w'.events = w.events) (firings : w'.firings = w.firings)
    (calls : w'.calls = w.calls) : HistoryOk w' where
  current := by
    intro event inside
    simp [(Pc.plain_facts after).1] at inside
  collected := by
    rw [firings, calls, ok.collected]
    simp [Worker.pending, Pc.plain_facts before, Pc.plain_facts after, events]

theorem HistoryOk.congr {w w' : Worker Task Other} (ok : HistoryOk w) (pc : w'.pc = w.pc)
    (events : w'.events = w.events) (firings : w'.firings = w.firings)
    (calls : w'.calls = w.calls) : HistoryOk w' where
  current := by
    rw [pc, events]
    exact ok.current
  collected := by
    rw [firings, calls, ok.collected, Worker.pending, Worker.pending, pc, events]

section Histories

variable [DecidableEq Task] {cfg : Config Task Other} {s s' : State Task Other} {phase : Phase}

/-- Between plain points a worker thread does not touch its events. -/
theorem workerStep_plain {i : Nat} (plain : (s.workers i).pc.isPlain = true)
    (noEvent : (s.workers i).pc = .handle → (s.workers i).events = [])
    (stepped : workerStep cfg s i = some s') :
    (s'.workers i).pc.isPlain = true ∧ (s'.workers i).events = (s.workers i).events ∧
      (s'.workers i).firings = (s.workers i).firings ∧
      (s'.workers i).calls = (s.workers i).calls := by
  cases at' : (s.workers i).pc with
  | unborn | inLoop | aborted | handling => simp [workerStep, at'] at stepped
  | fired | stopWatcher | addEvent | handled | pop => simp [at', Pc.isPlain] at plain
  | markFree | foundId | demote | setUserdata | swap | execFront | inFunctor =>
      simp only [workerStep, at', Option.some.injEq] at stepped
      subst stepped
      simp [Pc.isPlain]
  | top | lead | loopReturned | freeWorker =>
      simp only [workerStep, at', Option.some.injEq] at stepped
      subst stepped
      simp only [State.goto_workers, Function.update_self, Worker.moveTo_pc,
        Worker.moveTo_events, Worker.moveTo_firings, Worker.moveTo_calls, and_self, and_true]
      split <;> rfl
  | unsetId id | moveLoop id | setLeader id =>
      simp only [workerStep, at', Option.some.injEq] at stepped
      subst stepped
      by_cases same : i = id <;> simp [Function.update_apply, same, Pc.isPlain]
  | handle =>
      simp only [workerStep, at', noEvent at', Option.some.injEq] at stepped
      subst stepped
      simp [Pc.isPlain]
  | drain worker queue qcpy =>
      cases qcpy <;> simp only [workerStep, at'] at stepped
      all_goals
        repeat' split at stepped
        all_goals
          simp only [Option.some.injEq] at stepped
          subst stepped
          simp [Pc.isPlain]
  | waiting | next =>
      simp only [workerStep, at'] at stepped
      repeat' split at stepped
      all_goals simp only [Option.some.injEq, reduceCtorEq] at stepped
      all_goals
        subst stepped
        simp [Pc.isPlain]

/-- The operations of a worker thread keep its own history. -/
theorem workerStep_history {i : Nat} (inv : InPhase cfg s phase) (run : runnable cfg s i)
    (ok : HistoryOk (s.workers i)) (stepped : workerStep cfg s i = some s') :
    HistoryOk (s'.workers i) := by
  have collected := ok.collected
  cases at' : (s.workers i).pc with
  | fired worker event =>
      obtain ⟨rfl, rfl⟩ := inv.callback run.1 (by rw [at']; rfl)
      simp only [workerStep, at', inv.isDirect_self, ↓reduceIte, Option.some.injEq] at stepped
      subst stepped
      constructor
      · simp [Pc.current]
      · simpa [Worker.pending, at', Pc.frontHandled, Pc.collecting] using collected
  | stopWatcher worker event =>
      simp only [workerStep, at', Option.some.injEq] at stepped
      subst stepped
      constructor
      · simp [Pc.current]
      · simpa [Worker.pending, at', Pc.frontHandled, Pc.collecting] using collected
  | addEvent worker event =>
      obtain ⟨rfl, rfl⟩ := inv.callback run.1 (by rw [at']; rfl)
      simp only [workerStep, at', Option.some.injEq] at stepped
      subst stepped
      constructor
      · simp [Pc.current]
      · simpa [Worker.pending, at', Pc.frontHandled, Pc.collecting] using collected
  | handle =>
      cases queued : (s.workers i).events with
      | nil =>
          have moved := workerStep_plain (by rw [at']; rfl) (fun _ => queued) stepped
          exact ok.of_plain (by rw [at']; rfl) moved.1 moved.2.1 moved.2.2.1 moved.2.2.2
      | cons event rest =>
          simp only [workerStep, at', queued, Option.some.injEq] at stepped
          subst stepped
          constructor
          · simp [Pc.current]
          · simpa [Worker.pending, at', queued, Pc.frontHandled, Pc.collecting] using collected
  | handled event cont =>
      cases cont <;> simp only [workerStep, at', Option.some.injEq] at stepped <;>
        subst stepped <;> constructor
      all_goals first
        | simp [Pc.current]; done
        | simpa [Worker.pending, at', Pc.frontHandled, Pc.collecting] using collected
  | pop =>
      simp only [workerStep, at', Option.some.injEq] at stepped
      subst stepped
      constructor
      · simp [Pc.current]
      · simpa [Worker.pending, at', Pc.frontHandled, Pc.collecting] using collected
  | handling => simp [workerStep, at'] at stepped
  | unborn | markFree | top | waiting | lead | inLoop | swap | drain | execFront | inFunctor
  | aborted | loopReturned | freeWorker | next | foundId | unsetId | demote | moveLoop
  | setUserdata | setLeader =>
      have before : (s.workers i).pc.isPlain = true := by rw [at']; rfl
      have moved := workerStep_plain before (by simp [at']) stepped
      exact ok.of_plain before moved.1 moved.2.1 moved.2.2.1 moved.2.2.2

omit [DecidableEq Task] in
/-- The operations of `dispatcher::start` do not touch events, and move a thread
only to create it. -/
theorem starterStep_record (inv : InPhase cfg s phase) (stepped : starterStep cfg s = some s')
    (j : Nat) :
    (s'.workers j).events = (s.workers j).events ∧
      (s'.workers j).firings = (s.workers j).firings ∧
      (s'.workers j).calls = (s.workers j).calls ∧
      ((s'.workers j).pc = (s.workers j).pc ∨
        (s.workers j).pc = .unborn ∧ (s'.workers j).pc = .markFree) := by
  cases point : s.starter with
  | spawn k =>
      have unborn := inv.unborn_of_spawn point
      simp only [starterStep, point] at stepped
      split at stepped <;> simp only [Option.some.injEq] at stepped <;> subst stepped
      · by_cases same : j = k <;> simp [same, unborn]
      · simp
  | waitBit k =>
      simp only [starterStep, point] at stepped
      repeat' split at stepped
      all_goals simp only [Option.some.injEq, reduceCtorEq] at stepped
      all_goals
        subst stepped
        simp
  | unsetFirst | moveLoop | setUserdata | setLeader =>
      simp only [starterStep, point, Option.some.injEq] at stepped
      subst stepped
      by_cases first : j = 0 <;> simp [first]
  | started => simp [starterStep, point] at stepped

/-- The operations of a call do not touch the worker records. -/
theorem callStep_workers {thread : Nat} (stepped : callStep cfg s thread = some s') :
    s'.workers = s.workers := by
  cases call : s.calls thread <;>
    simp only [callStep, call, Option.some.injEq, reduceCtorEq] at stepped
  all_goals
    subst stepped
    simp

variable [DecidableEq Other]

/-- The step lemma for the histories of all workers. -/
theorem step_history {action : Action Task Other} (inv : InPhase cfg s phase)
    (ok : ∀ j < cfg.numWorkers, HistoryOk (s.workers j))
    (stepped : step cfg action s = some s') :
    ∀ j < cfg.numWorkers, HistoryOk (s'.workers j) := by
  have moved {i : Nat} {w : Worker Task Other} (own : HistoryOk w)
      (workers : s'.workers = Function.update s.workers i w) :
      ∀ j < cfg.numWorkers, HistoryOk (s'.workers j) := by
    intro j bound
    rw [workers, Function.update_apply]
    split
    · exact own
    · exact ok j bound
  cases moves_of_step stepped with
  | starter stepped =>
      intro j bound
      obtain ⟨events, firings, calls, pc | ⟨before, after⟩⟩ := starterStep_record inv stepped j
      · exact (ok j bound).congr pc events firings calls
      · exact (ok j bound).of_plain (by rw [before]; rfl) (by rw [after]; rfl) events firings calls
  | @worker i _ run stepped =>
      intro j bound
      by_cases same : j = i
      · subst same
        exact workerStep_history inv run (ok j bound) stepped
      · obtain ⟨pc, -, firings, calls, events⟩ := workerStep_others stepped same
        have notHere : (s.workers i).pc.callbackWorker ≠ some j :=
          fun inside => same (inv.callback run.1 inside).2
        exact (ok j bound).congr pc (events notHere) firings calls
  | @fire i event run inLoop _ =>
      obtain rfl := inv.eq_led run.1 (by rw [inLoop]; rfl)
      have collected : (s.workers i).firings = (s.workers i).calls ++ (s.workers i).events := by
        simpa [Worker.pending, inLoop, Pc.frontHandled, Pc.collecting] using
          (ok i run.1).collected
      simp only [enterCallback, State.setWorker_userdata, inv.shared.2.2.1] at moved ⊢
      refine moved (i := i) (w := { s.workers i with
        firings := (s.workers i).firings ++ [event], pc := .fired i event }) ⟨?_, ?_⟩ ?_
      · simp [Pc.current]
      · simp [Worker.pending, Pc.frontHandled, Pc.collecting, collected]
      · simp [Worker.moveTo]
  | @asyncReady i _ run inLoop _ _ =>
      obtain rfl := inv.eq_led run.1 (by rw [inLoop]; rfl)
      simp only [enterCallback, State.setQueue_userdata, inv.shared.2.2.1] at moved ⊢
      refine moved (i := i) ?_ rfl
      exact (ok i run.1).of_plain (by rw [inLoop]; rfl) rfl rfl rfl rfl
  | @loopReturn i run inLoop =>
      refine moved (i := i) ?_ rfl
      exact (ok i run.1).of_plain (by rw [inLoop]; rfl) rfl rfl rfl rfl
  | @handlerReturn i event _ run point =>
      have before := ok i run.1
      refine moved (i := i) ⟨?_, ?_⟩ rfl
      · simpa [point, Pc.current] using before.current
      · simpa [Worker.pending, point, Pc.frontHandled, Pc.collecting] using before.collected
  | call _ stepped =>
      rw [callStep_workers stepped]
      exact ok
  | exec | async | addTask => exact ok

/-- The run lemma: in every reachable state, what a worker's thread has called
`handle_event` for and what is pending are the firings it collected. -/
theorem history_of_reachable (nonempty : 0 < cfg.numWorkers)
    (reachable : (system cfg).Reachable s) {i : Nat} (bound : i < cfg.numWorkers) :
    HistoryOk (s.workers i) := by
  refine reachable.invariant (fun s => ∀ j < cfg.numWorkers, HistoryOk (s.workers j)) ?_ ?_ i bound
  · exact fun _ _ => ⟨nofun, rfl⟩
  · intro state next action reached ok stepped
    obtain ⟨phase, inv⟩ := inPhase_of_reachable nonempty reached
    exact step_history inv ok stepped

end Histories

/-! ## No step creates a token -/

section TokenSteps

variable [DecidableEq Task] [DecidableEq Other] {cfg : Config Task Other}
  {s s' : State Task Other} {phase : Phase} (task : Task)

@[simp] theorem startsIn_nil : startsIn task ([] : List (TaskFunc Task Other)) = 0 := rfl

@[simp] theorem startsIn_append (first second : List (TaskFunc Task Other)) :
    startsIn task (first ++ second) = startsIn task first + startsIn task second :=
  List.count_append

theorem startsIn_cons (f : TaskFunc Task Other) (rest : List (TaskFunc Task Other)) :
    startsIn task (f :: rest) = startsIn task [f] + startsIn task rest := by
  rw [← startsIn_append, List.singleton_append]

@[simp] theorem eventsOf_nil : eventsOf task [] = 0 := rfl

@[simp] theorem eventsOf_append (first second : List (Event Task)) :
    eventsOf task (first ++ second) = eventsOf task first + eventsOf task second :=
  List.countP_append

theorem eventsOf_cons (event : Event Task) (rest : List (Event Task)) :
    eventsOf task (event :: rest) = eventsOf task [event] + eventsOf task rest := by
  rw [← eventsOf_append, List.singleton_append]

/-- The start functor of a task counts as much as an event of the task. -/
theorem startsIn_start (event : Event Task) :
    startsIn task [(.start event.task : TaskFunc Task Other)] = eventsOf task [event] := by
  by_cases same : event.task = task <;> simp [startsIn, eventsOf, same]

/-- Executing a functor turns its token into an active watcher. -/
theorem runFunc_active_le (f : TaskFunc Task Other) :
    ((s.runFunc f).active task).toNat ≤ (s.active task).toNat + startsIn task [f] := by
  cases f with
  | start other =>
      by_cases same : task = other
      · subst same
        simp [State.runFunc, startsIn]
      · simp [State.runFunc, same]
  | stop other =>
      by_cases same : task = other
      · simp [State.runFunc, same]
      · simp [State.runFunc, same]
  | other f => simp [State.runFunc]

/-- The balance of a step that changes at most one queue, one worker and one
call. -/
theorem tokens_balance {q i thread : Nat} (queueBound : q < cfg.numWorkers)
    (bound : i < cfg.numWorkers) (threadBound : thread < cfg.numThreads)
    (queues : ∀ w < cfg.numWorkers, w ≠ q → (s'.queues w).queue = (s.queues w).queue)
    (workers : ∀ j, j ≠ i → (s'.workers j).tokens task = (s.workers j).tokens task)
    (calls : ∀ other, other ≠ thread → s'.calls other = s.calls other) :
    tokens task cfg s' + (s.active task).toNat + startsIn task (s.queues q).queue +
        (s.workers i).tokens task + (s.calls thread).tokens task =
      tokens task cfg s + (s'.active task).toNat + startsIn task (s'.queues q).queue +
        (s'.workers i).tokens task + (s'.calls thread).tokens task := by
  have queueSum := sum_range_change (fun w => startsIn task (s.queues w).queue)
    (fun w => startsIn task (s'.queues w).queue) queueBound
    fun w inside other => by rw [queues w inside other]
  have workerSum := sum_range_change (fun j => (s.workers j).tokens task)
    (fun j => (s'.workers j).tokens task) bound fun j _ other => workers j other
  have callSum := sum_range_change (fun t => (s.calls t).tokens task)
    (fun t => (s'.calls t).tokens task) threadBound fun t _ other => by rw [calls t other]
  simp only [tokens]
  omega

theorem Worker.tokens_congr {w w' : Worker Task Other} (pc : w'.pc = w.pc)
    (events : w'.events = w.events) : w'.tokens task = w.tokens task := by
  simp only [Worker.tokens, Worker.live, pc, events]

/-- An operation of a worker thread creates no token if it creates none among the
watcher, one queue, its own record and its own call. -/
theorem workerStep_tokens_le {i : Nat} (inv : InPhase cfg s phase) (run : runnable cfg s i)
    (stepped : workerStep cfg s i = some s') (q : Nat) (queueBound : q < cfg.numWorkers)
    (queues : ∀ w, w ≠ q → (s'.queues w).queue = (s.queues w).queue)
    (le : (s'.active task).toNat + startsIn task (s'.queues q).queue +
        (s'.workers i).tokens task + (s'.calls i).tokens task ≤
      (s.active task).toNat + startsIn task (s.queues q).queue + (s.workers i).tokens task) :
    tokens task cfg s' ≤ tokens task cfg s := by
  have threadBound : i < cfg.numThreads := Nat.lt_add_right _ run.1
  have balance := tokens_balance task queueBound run.1 threadBound (fun w _ => queues w)
    (fun j other => by
      obtain ⟨pc, -, -, -, events⟩ := workerStep_others stepped other
      exact Worker.tokens_congr task pc
        (events fun inside => other (inv.callback run.1 inside).2))
    (fun j other => (workerStep_others stepped other).2.1)
  omega

omit [DecidableEq Other] in
/-- Outside callbacks and handlers a worker thread touches neither watchers nor
queues, and calls nothing. -/
theorem workerStep_unrelated {i : Nat} (plain : (s.workers i).pc.isPlain = true)
    (outside : (s.workers i).pc.isQueuePoint = false)
    (stepped : workerStep cfg s i = some s') :
    s'.active = s.active ∧ s'.calls = s.calls ∧ s'.added = s.added := by
  cases at' : (s.workers i).pc with
  | unborn | inLoop | aborted | handling => simp [workerStep, at'] at stepped
  | fired | stopWatcher | addEvent | handled | pop => simp [at', Pc.isPlain] at plain
  | swap | drain | execFront | inFunctor => simp [at', Pc.isQueuePoint] at outside
  | markFree | top | lead | loopReturned | freeWorker | foundId | unsetId | demote | moveLoop
  | setUserdata | setLeader =>
      simp only [workerStep, at', Option.some.injEq] at stepped
      subst stepped
      simp
  | waiting | next | handle =>
      simp only [workerStep, at'] at stepped
      repeat' split at stepped
      all_goals simp only [Option.some.injEq, reduceCtorEq] at stepped
      all_goals
        subst stepped
        simp

theorem Worker.tokens_of_plain {w : Worker Task Other} (plain : w.pc.isPlain = true)
    (outside : w.pc.isQueuePoint = false) : w.tokens task = eventsOf task w.events := by
  cases at' : w.pc <;>
    simp_all [Worker.tokens, Worker.live, Pc.tokens, Pc.isPlain, Pc.isQueuePoint]

/-- The operations of a worker thread create no token. -/
theorem workerStep_tokens {i : Nat} (inv : InPhase cfg s phase) (run : runnable cfg s i)
    (ok : HistoryOk (s.workers i))
    (firing : ∀ worker event, (s.workers i).pc = .stopWatcher worker event →
      s.active event.task = true)
    (stepped : workerStep cfg s i = some s') : tokens task cfg s' ≤ tokens task cfg s := by
  have least := workerStep_tokens_le task inv run stepped
  cases at' : (s.workers i).pc with
  | fired worker event =>
      obtain ⟨rfl, rfl⟩ := inv.callback run.1 (by rw [at']; rfl)
      simp only [workerStep, at', inv.isDirect_self, ↓reduceIte, Option.some.injEq] at stepped
      subst stepped
      refine least worker run.1 (fun _ _ => rfl) ?_
      simp [Worker.tokens, Worker.live, Pc.tokens, Call.tokens, at', run.2]
  | stopWatcher worker event =>
      have active := firing worker event at'
      simp only [workerStep, at', Option.some.injEq] at stepped
      subst stepped
      refine least i run.1 (fun _ _ => rfl) ?_
      -- The stopped watcher's token moves to the event.
      by_cases same : event.task = task
      · subst same
        simp [Worker.tokens, Worker.live, Pc.tokens, Call.tokens, at', run.2, active,
          State.runFunc, eventsOf]
        omega
      · simp [Worker.tokens, Worker.live, Pc.tokens, Call.tokens, at', run.2, same, Ne.symm same,
          State.runFunc, eventsOf]
  | addEvent worker event =>
      obtain ⟨rfl, rfl⟩ := inv.callback run.1 (by rw [at']; rfl)
      simp only [workerStep, at', Option.some.injEq] at stepped
      subst stepped
      refine least worker run.1 (fun _ _ => rfl) ?_
      simp [Worker.tokens, Worker.live, Pc.tokens, Call.tokens, at', run.2]
      omega
  | swap worker queue =>
      obtain rfl := inv.eq_led run.1 (by rw [at']; rfl)
      have inside : queue < cfg.numWorkers := by
        have point := inv.leader.2.2.2
        simp only [LeaderAt, at'] at point
        exact point.2
      simp only [workerStep, at', Option.some.injEq] at stepped
      subst stepped
      refine least queue inside (fun w other => by simp [other]) ?_
      simp [Worker.tokens, Worker.live, Pc.tokens, Call.tokens, at', run.2]
      omega
  | drain worker queue qcpy =>
      obtain ⟨rfl, rfl⟩ := inv.callback run.1 (by rw [at']; rfl)
      cases qcpy with
      | nil =>
          simp only [workerStep, at', Option.some.injEq] at stepped
          subst stepped
          refine least worker run.1 (fun _ _ => rfl) ?_
          simp [Worker.tokens, Worker.live, Pc.tokens, Call.tokens, at', run.2]
      | cons front rest =>
          have split := startsIn_cons task front rest
          cases build : cfg.build <;>
            simp only [workerStep, at', build, inv.isDirect_self, ↓reduceIte,
              Option.some.injEq] at stepped <;>
            subst stepped <;>
            refine least worker run.1 (fun _ _ => rfl) ?_ <;>
            simp [Worker.tokens, Worker.live, Pc.tokens, Call.tokens, at', run.2]
          omega
  | execFront worker queue front qcpy =>
      have split := startsIn_cons task front qcpy
      have started := runFunc_active_le (s := s) task front
      simp only [workerStep, at', Option.some.injEq] at stepped
      have queues : ∀ w, (s'.queues w).queue = (s.queues w).queue := by
        intro w
        subst stepped
        by_cases same : w = queue <;> simp [same]
      refine least i run.1 (fun w _ => queues w) ?_
      rw [queues i]
      subst stepped
      simp [Worker.tokens, Worker.live, Pc.tokens, Call.tokens, at', run.2]
      omega
  | inFunctor worker queue front qcpy =>
      simp only [workerStep, at', Option.some.injEq] at stepped
      subst stepped
      refine least i run.1 (fun _ _ => rfl) ?_
      simp [Worker.tokens, Worker.live, Pc.tokens, Call.tokens, at', run.2]
  | handle =>
      simp only [workerStep, at'] at stepped
      split at stepped <;> simp only [Option.some.injEq] at stepped <;> subst stepped <;>
        refine least i run.1 (fun _ _ => rfl) ?_ <;>
        simp [Worker.tokens, Worker.live, Pc.tokens, Call.tokens, at', run.2]
  | handled event cont =>
      obtain ⟨rest, queued⟩ := ok.current event (by rw [at']; rfl)
      have split := eventsOf_cons task event rest
      have token : startsIn task [(.start event.task : TaskFunc Task Other)] =
          eventsOf task [event] := startsIn_start task event
      -- The front event's token moves to the start functor, or vanishes.
      cases cont <;> simp only [workerStep, at', Option.some.injEq] at stepped <;>
        subst stepped <;> refine least i run.1 (fun _ _ => rfl) ?_ <;>
        simp [Worker.tokens, Worker.live, Pc.tokens, Call.tokens, at', run.2, queued]
      all_goals omega
  | pop =>
      simp only [workerStep, at', Option.some.injEq] at stepped
      subst stepped
      refine least i run.1 (fun _ _ => rfl) ?_
      simp [Worker.tokens, Worker.live, Pc.tokens, Call.tokens, at', run.2]
  | handling => simp [workerStep, at'] at stepped
  | unborn | markFree | top | waiting | lead | inLoop | aborted | loopReturned | freeWorker
  | next | foundId | unsetId | demote | moveLoop | setUserdata | setLeader =>
      have plain : (s.workers i).pc.isPlain = true := by rw [at']; rfl
      have outside : (s.workers i).pc.isQueuePoint = false := by rw [at']; rfl
      have moved := workerStep_plain plain (by simp [at']) stepped
      have after := workerStep_outside outside stepped
      have unrelated := workerStep_unrelated plain outside stepped
      refine least i run.1 (fun w _ => by rw [after.2]) ?_
      rw [Worker.tokens_of_plain task plain outside,
        Worker.tokens_of_plain task moved.1 after.1, moved.2.1, unrelated.1, unrelated.2.1,
        after.2, run.2]
      simp [Call.tokens]

/-- The event of a watcher that fired and was not stopped yet. -/
def Pc.firing : Pc Task Other → Option (Event Task)
  | .fired _ event | .stopWatcher _ event => some event
  | _ => none

/-- Watchers that fired stay active until their callback stops them. -/
def FiringActive (cfg : Config Task Other) (s : State Task Other) : Prop :=
  ∀ i < cfg.numWorkers, ∀ event, (s.workers i).pc.firing = some event →
    s.active event.task = true

omit [DecidableEq Task] [DecidableEq Other] in
theorem InPhase.eq_led_of_firing (inv : InPhase cfg s phase) {i : Nat}
    (bound : i < cfg.numWorkers) {event : Event Task}
    (firing : (s.workers i).pc.firing = some event) : phase = .led i := by
  refine inv.eq_led bound ?_
  revert firing
  cases (s.workers i).pc <;> simp [Pc.firing, Pc.isLeaderPoint]

omit [DecidableEq Other] in
/-- A worker thread outside the callbacks does not touch the watchers. -/
theorem workerStep_active {i : Nat} (outside : (s.workers i).pc.callbackWorker = none)
    (stepped : workerStep cfg s i = some s') : s'.active = s.active := by
  revert stepped outside
  fun_cases workerStep cfg s i
  all_goals
    intro outside stepped
    simp only [Option.some.injEq, reduceCtorEq] at stepped
  case case12 worker event point =>
    rw [show (s.workers i).pc = _ from point] at outside
    cases outside
  case case19 worker queue front qcpy point _ =>
    rw [show (s.workers i).pc = _ from point] at outside
    cases outside
  all_goals
    subst stepped
    rfl

omit [DecidableEq Other] in
theorem workerStep_added {i : Nat} (stepped : workerStep cfg s i = some s') :
    s'.added = s.added := by
  revert stepped
  fun_cases workerStep cfg s i
  all_goals
    intro stepped
    simp only [Option.some.injEq, reduceCtorEq] at stepped
  all_goals
    subst stepped
    simp +zetaDelta

omit [DecidableEq Other] in
/-- A worker thread is about to stop a watcher only after its callback began. -/
theorem workerStep_firing {i : Nat} {event : Event Task}
    (stepped : workerStep cfg s i = some s') (firing : (s'.workers i).pc.firing = some event) :
    (s.workers i).pc.firing = some event ∧ s'.active = s.active := by
  have notPlain {pc : Pc Task Other} (plain : pc.isPlain = true) : pc.firing = none := by
    cases pc <;> first | rfl | cases plain
  cases at' : (s.workers i).pc with
  | fired worker fired =>
      simp only [workerStep, at'] at stepped
      split at stepped <;> simp only [Option.some.injEq] at stepped <;> subst stepped
      · simpa [Pc.firing] using firing
      · simp [Pc.firing] at firing
  | stopWatcher worker stopped =>
      simp only [workerStep, at', Option.some.injEq] at stepped
      subst stepped
      simp [Pc.firing] at firing
  | addEvent worker added =>
      simp only [workerStep, at', Option.some.injEq] at stepped
      subst stepped
      by_cases same : i = worker <;> simp [Function.update_apply, same, Pc.firing] at firing
  | handling => simp [workerStep, at'] at stepped
  | handled handled cont =>
      cases cont <;> simp only [workerStep, at', Option.some.injEq] at stepped <;>
        subst stepped <;> simp [Pc.firing] at firing
  | pop =>
      simp only [workerStep, at', Option.some.injEq] at stepped
      subst stepped
      simp [Pc.firing] at firing
  | handle =>
      simp only [workerStep, at'] at stepped
      split at stepped <;> simp only [Option.some.injEq] at stepped <;> subst stepped <;>
        simp [Pc.firing] at firing
  | unborn | markFree | top | waiting | lead | inLoop | swap | drain | execFront | inFunctor
  | aborted | loopReturned | freeWorker | next | foundId | unsetId | demote | moveLoop
  | setUserdata | setLeader =>
      have moved := workerStep_plain (by rw [at']; rfl) (by simp [at']) stepped
      simp [notPlain moved.1] at firing

/-- A state in which every added task has at most one token. -/
structure TokensOk (cfg : Config Task Other) (s : State Task Other) : Prop where
  tokens : ∀ task, tokens task cfg s ≤ (s.added task).toNat
  firing : FiringActive cfg s

/-- A step that creates no token and leaves watchers and firing threads alone. -/
theorem TokensOk.of_frame (ok : TokensOk cfg s) (added : s'.added = s.added)
    (le : ∀ task, Dispatcher.tokens task cfg s' ≤ Dispatcher.tokens task cfg s)
    (active : s'.active = s.active)
    (points : ∀ j event, (s'.workers j).pc.firing = some event →
      (s.workers j).pc.firing = some event) : TokensOk cfg s' where
  tokens := fun task => (le task).trans (added ▸ ok.tokens task)
  firing := by
    intro j bound event firing
    rw [active]
    exact ok.firing j bound event (points j event firing)

/-- The operations of a worker thread. -/
theorem workerStep_tokensOk {i : Nat} (inv : InPhase cfg s phase) (run : runnable cfg s i)
    (history : HistoryOk (s.workers i)) (ok : TokensOk cfg s)
    (stepped : workerStep cfg s i = some s') : TokensOk cfg s' where
  tokens := by
    intro task
    rw [workerStep_added stepped]
    refine (workerStep_tokens task inv run history ?_ stepped).trans (ok.tokens task)
    intro worker event point
    exact ok.firing i run.1 event (by rw [point]; rfl)
  firing := by
    intro j bound event firing
    by_cases same : j = i
    · subst same
      obtain ⟨before, active⟩ := workerStep_firing stepped firing
      rw [active]
      exact ok.firing j bound event before
    · rw [(workerStep_others stepped same).1] at firing
      obtain rfl := inv.eq_led_of_firing bound firing
      have outside : (s.workers i).pc.callbackWorker = none := by
        rw [Option.eq_none_iff_forall_ne_some]
        intro worker inside
        have other := (inv.callback run.1 inside).1
        simp only [Phase.led.injEq] at other
        exact same other
      rw [workerStep_active outside stepped]
      exact ok.firing j bound event firing

/-- Steps that move no task around. -/
theorem tokens_congr (active : s'.active = s.active)
    (queues : ∀ w, (s'.queues w).queue = (s.queues w).queue)
    (workers : ∀ j, (s'.workers j).tokens task = (s.workers j).tokens task)
    (calls : s'.calls = s.calls) : tokens task cfg s' = tokens task cfg s := by
  simp only [tokens, active, queues, workers, calls]

omit [DecidableEq Task] [DecidableEq Other] in
theorem starterStep_unrelated (stepped : starterStep cfg s = some s') :
    s'.active = s.active ∧ s'.queues = s.queues ∧ s'.calls = s.calls ∧ s'.added = s.added := by
  revert stepped
  fun_cases starterStep cfg s
  all_goals
    intro stepped
    simp only [Option.some.injEq, reduceCtorEq] at stepped
  all_goals
    subst stepped
    simp

/-- The operations of `dispatcher::start`. -/
theorem starterStep_tokensOk (inv : InPhase cfg s phase) (ok : TokensOk cfg s)
    (stepped : starterStep cfg s = some s') : TokensOk cfg s' := by
  obtain ⟨active, queues, calls, added⟩ := starterStep_unrelated stepped
  have record := starterStep_record inv stepped
  refine ok.of_frame added (fun task => le_of_eq (tokens_congr task active ?_ ?_ calls)) active ?_
  · intro w
    rw [queues]
  · intro j
    obtain ⟨events, -, -, pc | ⟨before, after⟩⟩ := record j
    · exact Worker.tokens_congr task pc events
    · simp [Worker.tokens, Worker.live, before, after, events, Pc.tokens]
  · intro j event firing
    obtain ⟨-, -, -, pc | ⟨-, after⟩⟩ := record j
    · rwa [pc] at firing
    · simp [after, Pc.firing] at firing

/-- A thread begins or continues a call: the token of the functor may move to the
watcher or to a queue. -/
theorem call_tokens_le {thread : Nat} (q extra : Nat) (queueBound : q < cfg.numWorkers)
    (threadBound : thread < cfg.numThreads) (workers : s'.workers = s.workers)
    (queues : ∀ w < cfg.numWorkers, w ≠ q → (s'.queues w).queue = (s.queues w).queue)
    (calls : ∀ other, other ≠ thread → s'.calls other = s.calls other)
    (le : (s'.active task).toNat + startsIn task (s'.queues q).queue +
        (s'.calls thread).tokens task ≤
      (s.active task).toNat + startsIn task (s.queues q).queue +
        (s.calls thread).tokens task + extra) :
    tokens task cfg s' ≤ tokens task cfg s + extra := by
  have balance := tokens_balance task queueBound queueBound threadBound queues
    (fun j _ => by rw [workers]) calls
  rw [workers] at balance
  omega

/-- The operations of a call create no token. -/
theorem callStep_tokens {thread : Nat} (nonempty : 0 < cfg.numWorkers)
    (threadBound : thread < cfg.numThreads) (stepped : callStep cfg s thread = some s') :
    tokens task cfg s' ≤ tokens task cfg s := by
  have workers := callStep_workers stepped
  cases call : s.calls thread with
  | idle => simp [callStep, call] at stepped
  | test worker f =>
      simp only [callStep, call, Option.some.injEq] at stepped
      subst stepped
      refine call_tokens_le task 0 0 nonempty threadBound workers (fun _ _ _ => rfl)
        (fun other different => by simp [different]) ?_
      simp only [State.setCall_active, State.setCall_queues, State.setCall_calls,
        Function.update_self, call]
      split <;> simp [Call.tokens]
  | direct worker f =>
      have started := runFunc_active_le (s := s) task f
      simp only [callStep, call, Option.some.injEq] at stepped
      subst stepped
      refine call_tokens_le task 0 0 nonempty threadBound workers (fun _ _ _ => by simp)
        (fun other different => by simp [different]) ?_
      simp [Call.tokens, call]
      omega
  | push worker f =>
      simp only [callStep, call, Option.some.injEq] at stepped
      subst stepped
      by_cases inside : worker < cfg.numWorkers
      · refine call_tokens_le task worker 0 inside threadBound workers
          (fun w _ other => by simp [other]) (fun other different => by simp [different]) ?_
        simp [Call.tokens, call]
        omega
      · refine call_tokens_le task 0 0 nonempty threadBound workers (fun w bound _ => ?_)
          (fun other different => by simp [different]) ?_
        · have other : w ≠ worker := by omega
          simp [other]
        · have other : 0 ≠ worker := by omega
          simp [Call.tokens, call, other]
  | send worker =>
      simp only [callStep, call, Option.some.injEq] at stepped
      subst stepped
      have queues : ∀ w, (Function.update s.queues worker
          { s.queues worker with sent := true } w).queue = (s.queues w).queue := by
        intro w
        by_cases same : w = worker <;> simp [same]
      refine call_tokens_le task 0 0 nonempty threadBound workers (fun w _ _ => queues w)
        (fun other different => by simp [different]) ?_
      simp [Call.tokens, call, queues]

omit [DecidableEq Other] in
/-- While a watcher is firing, no call executes a functor. -/
theorem callStep_firing {thread : Nat} (inv : InPhase cfg s phase)
    (stepped : callStep cfg s thread = some s') {j : Nat} (bound : j < cfg.numWorkers)
    {event : Event Task} (firing : (s.workers j).pc.firing = some event) :
    s'.active = s.active := by
  cases call : s.calls thread with
  | direct worker f =>
      obtain ⟨-, inside, leads⟩ := inv.calls.direct call
      obtain rfl := inv.eq_led_of_firing bound firing
      rw [inv.leader_iff inside] at leads
      simp only [Phase.leaderId, Option.some.injEq] at leads
      subst leads
      have inCall := inv.calls.point j bound (by simp [call])
      revert firing inCall
      cases (s.workers j).pc <;> simp [Pc.firing, Pc.isCallPoint]
  | idle => simp [callStep, call] at stepped
  | test | push | send =>
      simp only [callStep, call, Option.some.injEq] at stepped
      subst stepped
      rfl

/-- A worker thread moves on inside the event loop or in a handler. -/
theorem TokensOk.of_point (ok : TokensOk cfg s) {i : Nat} {w : Worker Task Other}
    (added : s'.added = s.added) (active : s'.active = s.active)
    (queues : ∀ w, (s'.queues w).queue = (s.queues w).queue) (calls : s'.calls = s.calls)
    (workers : s'.workers = Function.update s.workers i w)
    (own : ∀ task, w.tokens task = (s.workers i).tokens task)
    (firing : i < cfg.numWorkers → ∀ event, w.pc.firing = some event →
      s.active event.task = true) : TokensOk cfg s' where
  tokens := by
    intro task
    rw [added, tokens_congr task active queues ?_ calls]
    · exact ok.tokens task
    · intro j
      rw [workers, Function.update_apply]
      split
      · next same => rw [own, same]
      · rfl
  firing := by
    intro j bound event inside
    rw [workers, Function.update_apply] at inside
    rw [active]
    split at inside
    · next same => exact firing (same ▸ bound) event inside
    · exact ok.firing j bound event inside

/-- User code begins a call with a functor that starts no watcher. -/
theorem TokensOk.beginCall (ok : TokensOk cfg s) (nonempty : 0 < cfg.numWorkers)
    {thread : Nat} {c : Call Task Other} (threadBound : thread < cfg.numThreads)
    (noToken : ∀ task, c.tokens task = 0) :
    TokensOk cfg (s.setCall thread c) := by
  refine ok.of_frame rfl (fun task => ?_) rfl fun _ _ => id
  refine call_tokens_le task 0 0 nonempty threadBound rfl (fun _ _ _ => rfl)
    (fun other different => by simp [different]) ?_
  simp [noToken]

/-- The step lemma for the tokens. -/
theorem step_tokensOk {action : Action Task Other} (nonempty : 0 < cfg.numWorkers)
    (noUserStart : ∀ task, cfg.userFunc (.start task) = false) (inv : InPhase cfg s phase)
    (history : ∀ j < cfg.numWorkers, HistoryOk (s.workers j)) (ok : TokensOk cfg s)
    (stepped : step cfg action s = some s') : TokensOk cfg s' := by
  have noToken {f : TaskFunc Task Other} (user : cfg.userFunc f = true) (task : Task) :
      startsIn task [f] = 0 := by
    cases f with
    | start other => simp [noUserStart] at user
    | stop | other => simp [startsIn]
  have inThreads {thread : Nat} (allowed : mayCall cfg s thread = true) :
      thread < cfg.numThreads := by
    simp only [mayCall, Bool.and_eq_true, decide_eq_true_eq] at allowed
    exact allowed.1
  cases moves_of_step stepped with
  | starter stepped => exact starterStep_tokensOk inv ok stepped
  | @worker i _ run stepped => exact workerStep_tokensOk inv run (history i run.1) ok stepped
  | @fire i event run inLoop active =>
      obtain rfl := inv.eq_led run.1 (by rw [inLoop]; rfl)
      simp only [enterCallback, State.setWorker_userdata, inv.shared.2.2.1]
      refine ok.of_point (i := i) rfl rfl (fun _ => rfl) rfl (Function.update_idem ..) ?_ ?_
      · simp [Worker.tokens, Worker.live, Pc.tokens, inLoop]
      · simp [Pc.firing, active]
  | @asyncReady i queue run inLoop _ _ =>
      obtain rfl := inv.eq_led run.1 (by rw [inLoop]; rfl)
      simp only [enterCallback, State.setQueue_userdata, inv.shared.2.2.1]
      refine ok.of_point (i := i) rfl rfl ?_ rfl rfl ?_ ?_
      · intro w
        by_cases same : w = queue <;> simp [same]
      · simp [Worker.tokens, Worker.live, Pc.tokens, inLoop]
      · simp [Pc.firing]
  | @loopReturn i _ point | @handlerReturn i _ _ _ point =>
      refine ok.of_point (i := i) rfl rfl (fun _ => rfl) rfl rfl ?_ ?_
      · simp [Worker.tokens, Worker.live, Pc.tokens, point]
      · simp [Pc.firing]
  | @call thread _ inside stepped =>
      have added : s'.added = s.added := by
        cases call : s.calls thread <;>
          simp only [callStep, call, Option.some.injEq, reduceCtorEq] at stepped
        all_goals
          subst stepped
          simp
      constructor
      · intro task
        rw [added]
        exact (callStep_tokens task nonempty inside stepped).trans (ok.tokens task)
      · intro j bound event firing
        rw [callStep_workers stepped] at firing
        rw [callStep_firing inv stepped bound firing]
        exact ok.firing j bound event firing
  | exec may | async may =>
      exact ok.beginCall nonempty (inThreads may.1) fun task => noToken may.2.2.2.2 task
  | @addTask thread added allowed idle _ fresh =>
      refine ⟨fun task => ?_, ok.firing⟩
      have before := ok.tokens task
      have grows : tokens task cfg ({ s with added := Function.update s.added added true }.setCall
          thread (.test (getWorkerByTask cfg s thread) (.start added))) ≤
          tokens task cfg s + startsIn task [(.start added : TaskFunc Task Other)] := by
        refine call_tokens_le task 0 _ nonempty (inThreads allowed) rfl (fun _ _ _ => rfl)
          (fun other different => by simp [different]) ?_
        simp [idle, Call.tokens]
      by_cases same : task = added
      · subst same
        simp [fresh, startsIn] at before grows ⊢
        omega
      · simp [startsIn, Ne.symm same] at grows
        simp [same]
        omega

/-- The run lemma for the tokens. -/
theorem tokensOk_of_reachable (nonempty : 0 < cfg.numWorkers)
    (noUserStart : ∀ task, cfg.userFunc (.start task) = false)
    (reachable : (system cfg).Reachable s) : TokensOk cfg s := by
  refine reachable.invariant (TokensOk cfg) ⟨?_, ?_⟩ ?_
  · intro task
    simp [tokens, system, initState, Worker.tokens, Worker.live, Pc.tokens, Call.tokens]
  · intro i _ event firing
    cases firing
  · intro state next action reached ok stepped
    obtain ⟨phase, inv⟩ := inPhase_of_reachable nonempty reached
    exact step_tokensOk nonempty noUserStart inv
      (fun j bound => history_of_reachable nonempty reached bound) ok stepped

end TokenSteps

end LibTasks.Dispatcher

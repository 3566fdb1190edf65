import Mathlib
import LibTasks.Dispatcher.TaskExclusivity

/-!
# Every firing is handled exactly once

A worker that collected events can always finish handling them by steps of its
own thread, whatever its handlers return and without waiting for any other
thread.  Together with the token and history invariants this gives exclusivity of
tasks and exactly-once handling of events.
-/

namespace LibTasks.Dispatcher

open LibTasks.Foundation

variable {Task Other : Type} [DecidableEq Task] [DecidableEq Other]

/-! ## A worker finishes on its own -/

/-- Steps of the thread of worker `i` alone: its own operations, the operations
of its calls, the return of the event loop once it collected an event, and the
return of a handler with the given result. -/
inductive SoloStep (cfg : Config Task Other) (i : Nat) (result : Event Task → Bool) :
    State Task Other → State Task Other → Prop where
  | worker {s s' : State Task Other} :
      step cfg (.worker i) s = some s' → SoloStep cfg i result s s'
  | call {s s' : State Task Other} :
      step cfg (.call i) s = some s' → SoloStep cfg i result s s'
  | loopReturn {s s' : State Task Other} : (s.workers i).events ≠ [] →
      step cfg (.loopReturn i) s = some s' → SoloStep cfg i result s s'
  | handlerReturn {s s' : State Task Other} {event : Event Task} :
      (s.workers i).pc = .handling event →
      step cfg (.handlerReturn i (result event)) s = some s' → SoloStep cfg i result s s'

/-- An upper bound for the operations left in a call. -/
def Call.weight : Call Task Other → Nat
  | .idle => 0
  | .direct _ _ | .send _ => 1
  | .push _ _ => 2
  | .test _ _ => 3

/-- An upper bound for the steps of a worker thread until its event queue is empty. -/
def Pc.weight (numWorkers : Nat) (queued : Nat → Nat) (events : Nat) : Pc Task Other → Nat
  | .handle => 10 * events
  | .handling _ => 10 * (events - 1) + 9
  | .handled _ _ => 10 * (events - 1) + 8
  | .pop => 10 * (events - 1) + 1
  | .setLeader _ => 10 * events + 1
  | .setUserdata _ => 10 * events + 2
  | .moveLoop _ => 10 * events + 3
  | .demote _ => 10 * events + 4
  | .unsetId _ => 10 * events + 5
  | .foundId _ => 10 * events + 6
  | .next _ chkCnt => 10 * events + 7 + (numWorkers - chkCnt)
  | .freeWorker => 10 * events + numWorkers + 8
  | .loopReturned => 10 * events + numWorkers + 9
  | .inLoop => 10 * events + numWorkers + 10
  | .drain _ _ qcpy => 10 * events + numWorkers + 11 + 10 * qcpy.length
  | .inFunctor _ _ _ qcpy => 10 * events + numWorkers + 12 + 10 * qcpy.length
  | .execFront _ _ _ qcpy => 10 * events + numWorkers + 20 + 10 * qcpy.length
  | .swap _ queue => 10 * events + numWorkers + 12 + 10 * queued queue
  | .addEvent _ _ => 10 * events + numWorkers + 21
  | .stopWatcher _ _ => 10 * events + numWorkers + 22
  | .fired _ _ => 10 * events + numWorkers + 23
  | _ => 0

/-- The bound for worker `i` in a state. -/
def weight (cfg : Config Task Other) (s : State Task Other) (i : Nat) : Nat :=
  (s.workers i).pc.weight cfg.numWorkers (fun w => (s.queues w).queue.length)
    (s.workers i).events.length + (s.calls i).weight

section Progress

variable {cfg : Config Task Other} {s s' : State Task Other} {phase : Phase} {i : Nat}
  {result : Event Task → Bool}

/-- A call in progress can go on. -/
theorem solo_call (inv : InPhase cfg s phase) (bound : i < cfg.numWorkers)
    (busy : s.calls i ≠ .idle) :
    ∃ s', SoloStep cfg i result s s' ∧ weight cfg s' i < weight cfg s i := by
  have threadBound : i < cfg.numThreads := Nat.lt_add_right _ bound
  have point := inv.calls.point i bound busy
  have steady (queued queued' : Nat → Nat) :
      (s.workers i).pc.weight cfg.numWorkers queued' (s.workers i).events.length =
        (s.workers i).pc.weight cfg.numWorkers queued (s.workers i).events.length := by
    revert point
    cases (s.workers i).pc <;> simp [Pc.isCallPoint, Pc.weight]
  obtain ⟨s', stepped⟩ : ∃ s', callStep cfg s i = some s' := by
    cases call : s.calls i with
    | idle => exact absurd call busy
    | test | direct | push | send => simp [callStep, call]
  refine ⟨s', .call (by simp [step, threadBound, stepped]), ?_⟩
  have lighter : (s'.calls i).weight < (s.calls i).weight := by
    cases call : s.calls i with
    | idle => exact absurd call busy
    | test worker f =>
        simp only [callStep, call, Option.some.injEq] at stepped
        subst stepped
        simp only [State.setCall_calls, Function.update_self]
        split <;> simp [Call.weight]
    | direct | push | send =>
        simp only [callStep, call, Option.some.injEq] at stepped
        subst stepped
        simp [Call.weight]
  simp only [weight, callStep_workers stepped]
  rw [steady (fun w => (s.queues w).queue.length) (fun w => (s'.queues w).queue.length)]
  omega

omit [DecidableEq Task] [DecidableEq Other] in
/-- A worker waiting for its promotion has handled everything. -/
theorem InPhase.no_pending (inv : InPhase cfg s phase) (bound : i < cfg.numWorkers)
    (waits : (s.workers i).pc = .unborn ∨ (s.workers i).pc = .markFree ∨
      (s.workers i).pc = .top ∨ (s.workers i).pc = .waiting ∨ (s.workers i).pc = .lead) :
    (s.workers i).pending = [] := by
  have role := inv.roles i bound
  have events : (s.workers i).events = [] := by
    generalize phase.role i = part at role
    rcases waits with at' | at' | at' | at' | at' <;> cases part <;>
      simp_all [RoleOk, FollowerAt, LeaderAt]
  rcases waits with at' | at' | at' | at' | at' <;>
    simp [Worker.pending, at', events, Pc.frontHandled, Pc.collecting]

omit [DecidableEq Other] in
/-- An operation of the worker's own code brings it closer to the end. -/
theorem solo_worker (inv : InPhase cfg s phase) (run : runnable cfg s i)
    (pending : (s.workers i).pending ≠ []) (notLoop : (s.workers i).pc ≠ .inLoop)
    (notHandler : ∀ event, (s.workers i).pc ≠ .handling event) :
    ∃ s', workerStep cfg s i = some s' ∧ weight cfg s' i < weight cfg s i := by
  cases at' : (s.workers i).pc with
  | unborn | markFree | top | waiting | lead =>
      exact absurd (inv.no_pending run.1 (by simp [at'])) pending
  | inLoop => exact absurd at' notLoop
  | handling event => exact absurd at' (notHandler event)
  | aborted => exact absurd at' (inv.noAbort run.1)
  | fired worker event =>
      obtain ⟨rfl, rfl⟩ := inv.callback run.1 (by rw [at']; rfl)
      simp only [workerStep, at', inv.isDirect_self, ↓reduceIte]
      refine ⟨_, rfl, ?_⟩
      simp [weight, Pc.weight, at', run.2]
  | stopWatcher worker event =>
      simp only [workerStep, at']
      refine ⟨_, rfl, ?_⟩
      simp [weight, Pc.weight, at', run.2]
  | addEvent worker event =>
      obtain ⟨rfl, rfl⟩ := inv.callback run.1 (by rw [at']; rfl)
      simp only [workerStep, at']
      refine ⟨_, rfl, ?_⟩
      simp [weight, Pc.weight, at', run.2]
      omega
  | swap worker queue =>
      simp only [workerStep, at']
      refine ⟨_, rfl, ?_⟩
      simp [weight, Pc.weight, at', run.2]
  | drain worker queue qcpy =>
      obtain ⟨rfl, rfl⟩ := inv.callback run.1 (by rw [at']; rfl)
      cases qcpy with
      | nil =>
          simp only [workerStep, at']
          refine ⟨_, rfl, ?_⟩
          simp [weight, Pc.weight, at', run.2]
      | cons front rest =>
          cases build : cfg.build <;>
            simp only [workerStep, at', build, inv.isDirect_self, ↓reduceIte] <;>
            refine ⟨_, rfl, ?_⟩ <;>
            simp only [weight, Pc.weight, at', run.2, State.goto_workers, State.goto_calls,
              Function.update_self, Worker.moveTo_pc, Worker.moveTo_events, List.length_cons] <;>
            omega
  | execFront worker queue front qcpy =>
      simp only [workerStep, at']
      refine ⟨_, rfl, ?_⟩
      simp [weight, Pc.weight, at', run.2]
  | inFunctor worker queue front qcpy =>
      simp only [workerStep, at']
      refine ⟨_, rfl, ?_⟩
      simp [weight, Pc.weight, at', run.2]
  | loopReturned =>
      have events : (s.workers i).events ≠ [] := by
        simpa [Worker.pending, at', Pc.frontHandled, Pc.collecting] using pending
      simp only [workerStep, at']
      refine ⟨_, rfl, ?_⟩
      simp [weight, Pc.weight, at', run.2, events]
  | freeWorker =>
      simp only [workerStep, at']
      refine ⟨_, rfl, ?_⟩
      simp only [weight, at', run.2, State.goto_workers, Function.update_self, Worker.moveTo_pc,
        Worker.moveTo_events, State.goto_calls, State.goto_queues]
      split <;> simp [Pc.weight] <;> omega
  | next chkIdx chkCnt =>
      obtain rfl := inv.eq_led run.1 (by rw [at']; rfl)
      have inside : chkIdx < cfg.numWorkers := by
        simpa [LeaderAt, at'] using inv.leader.2.2.2
      simp only [workerStep, at', inside, ↓reduceIte]
      split
      · refine ⟨_, rfl, ?_⟩
        simp [weight, Pc.weight, at', run.2]
        omega
      · split
        · refine ⟨_, rfl, ?_⟩
          simp [weight, Pc.weight, at', run.2]
          omega
        · refine ⟨_, rfl, ?_⟩
          simp [weight, Pc.weight, at', run.2]
          omega
  | foundId id | demote id | setUserdata id =>
      simp only [workerStep, at']
      refine ⟨_, rfl, ?_⟩
      simp [weight, Pc.weight, at', run.2]
  | unsetId id | moveLoop id | setLeader id =>
      have different := (inv.handOverSafe (Nat.zero_lt_of_lt run.1)).successor i run.1 id
        (by rw [at']; rfl)
      simp only [workerStep, at']
      refine ⟨_, rfl, ?_⟩
      simp [weight, Pc.weight, at', run.2, Ne.symm different.2]
  | handle =>
      cases queued : (s.workers i).events with
      | nil => simp [Worker.pending, at', queued, Pc.frontHandled, Pc.collecting] at pending
      | cons event rest =>
          simp only [workerStep, at', queued]
          refine ⟨_, rfl, ?_⟩
          simp [weight, Pc.weight, at', run.2, queued]
          omega
  | handled event cont =>
      cases cont <;> simp only [workerStep, at'] <;> refine ⟨_, rfl, ?_⟩ <;>
        simp [weight, Pc.weight, at', run.2, Call.weight]
  | pop =>
      simp only [workerStep, at']
      refine ⟨_, rfl, ?_⟩
      simp [weight, Pc.weight, at', run.2]

omit [DecidableEq Other] in
/-- Only the event loop invokes callbacks. -/
theorem workerStep_firings (stepped : workerStep cfg s i = some s') :
    (s'.workers i).firings = (s.workers i).firings := by
  revert stepped
  fun_cases workerStep cfg s i
  all_goals
    intro stepped
    simp only [Option.some.injEq, reduceCtorEq] at stepped
  all_goals
    subst stepped
    simp +zetaDelta [Function.update_apply]
  all_goals
    split
    · next same => simp [← same]
    · rfl

theorem SoloStep.firings (solo : SoloStep cfg i result s s') :
    (s'.workers i).firings = (s.workers i).firings := by
  cases solo with
  | worker stepped =>
      cases moves_of_step stepped with
      | worker _ stepped => exact workerStep_firings stepped
  | call stepped =>
      cases moves_of_step stepped with
      | call _ stepped => rw [callStep_workers stepped]
  | loopReturn _ stepped =>
      cases moves_of_step stepped
      simp
  | handlerReturn _ stepped =>
      cases moves_of_step stepped
      simp

theorem SoloStep.reachable (solo : SoloStep cfg i result s s')
    (reachable : (system cfg).Reachable s) : (system cfg).Reachable s' := by
  cases solo with
  | worker stepped => exact reachable.step (.worker i) stepped
  | call stepped => exact reachable.step (.call i) stepped
  | loopReturn _ stepped => exact reachable.step (.loopReturn i) stepped
  | @handlerReturn event _ stepped =>
      exact reachable.step (.handlerReturn i (result event)) stepped

/-- As long as an event is pending, the worker's own thread can make progress. -/
theorem solo_step (inv : InPhase cfg s phase) (bound : i < cfg.numWorkers)
    (result : Event Task → Bool) (pending : (s.workers i).pending ≠ []) :
    ∃ s', SoloStep cfg i result s s' ∧ weight cfg s' i < weight cfg s i := by
  by_cases idle : s.calls i = .idle
  · have run : runnable cfg s i := ⟨bound, idle⟩
    by_cases inLoop : (s.workers i).pc = .inLoop
    · have events : (s.workers i).events ≠ [] := by
        simpa [Worker.pending, inLoop, Pc.frontHandled, Pc.collecting] using pending
      refine ⟨s.goto i .loopReturned, .loopReturn events (by simp [step, run, inLoop]), ?_⟩
      simp [weight, Pc.weight, inLoop]
    · by_cases handler : ∃ event, (s.workers i).pc = .handling event
      · obtain ⟨event, point⟩ := handler
        refine ⟨s.goto i (.handled event (result event)),
          .handlerReturn point (by simp [step, run, point]), ?_⟩
        simp [weight, Pc.weight, point]
      · have notHandler := not_exists.mp handler
        obtain ⟨s', stepped, lighter⟩ := solo_worker inv run pending inLoop notHandler
        exact ⟨s', .worker (by simp [step, run, stepped]), lighter⟩
  · exact solo_call inv bound idle

/-- By steps of its own thread a worker calls `handle_event` for everything it has
collected. -/
theorem solo_finishes (nonempty : 0 < cfg.numWorkers) (bound : i < cfg.numWorkers)
    (result : Event Task → Bool) (reachable : (system cfg).Reachable s) :
    ∃ s', Relation.ReflTransGen (SoloStep cfg i result) s s' ∧
      (s'.workers i).calls = (s.workers i).firings := by
  -- Induction on the bound for the remaining steps.
  induction size : weight cfg s i using Nat.strong_induction_on generalizing s with
  | h size ih =>
      by_cases pending : (s.workers i).pending = []
      · refine ⟨s, .refl, ?_⟩
        rw [(history_of_reachable nonempty reachable bound).collected, pending, List.append_nil]
      · obtain ⟨phase, inv⟩ := inPhase_of_reachable nonempty reachable
        obtain ⟨next, solo, lighter⟩ := solo_step inv bound result pending
        obtain ⟨s', run, handled⟩ := ih _ (size ▸ lighter) (solo.reachable reachable) rfl
        exact ⟨s', .head solo run, solo.firings ▸ handled⟩

end Progress

/-! ## Exclusivity and exactly-once handling -/

section Exclusivity

variable {cfg : Config Task Other} {s s' : State Task Other} {phase : Phase}

/-- The event queue of a worker is modified by its own thread only. -/
theorem step_ownQueue {action : Action Task Other} (inv : InPhase cfg s phase)
    (stepped : step cfg action s = some s') {i : Nat}
    (changed : (s'.workers i).events ≠ (s.workers i).events) : action = .worker i := by
  cases moves_of_step stepped with
  | starter stepped => exact absurd (starterStep_record inv stepped i).1 changed
  | @worker j _ run stepped =>
      by_contra other
      have different : i ≠ j := fun same => other (same ▸ rfl)
      obtain ⟨-, -, -, -, events⟩ := workerStep_others stepped different
      exact changed (events fun inside => different (inv.callback run.1 inside).2)
  | @fire j _ run inLoop _ | @asyncReady j _ run inLoop _ _ =>
      obtain rfl := inv.eq_led run.1 (by rw [inLoop]; rfl)
      refine absurd ?_ changed
      simp only [enterCallback, State.setWorker_userdata, State.setQueue_userdata,
        inv.shared.2.2.1]
      by_cases same : i = j <;> simp [same]
  | @loopReturn j | @handlerReturn j =>
      refine absurd ?_ changed
      by_cases same : i = j <;> simp [same]
  | call _ stepped => exact absurd (by rw [callStep_workers stepped]) changed
  | exec | async | addTask => exact absurd rfl changed

/-- A worker that runs the handler of a task holds a token of it. -/
theorem Worker.tokens_of_current {w : Worker Task Other} (ok : HistoryOk w) {event : Event Task}
    (current : w.pc.current = some event) : 1 ≤ w.tokens event.task := by
  obtain ⟨rest, queued⟩ := ok.current event current
  have live : w.live = event :: rest := by
    revert current
    cases at' : w.pc <;> simp [Pc.current, Worker.live, at', queued]
  have counted : 1 ≤ eventsOf event.task (event :: rest) := by
    simp [eventsOf]
  rw [Worker.tokens, live]
  omega

/-- What holds of tasks and their events in a state. -/
structure EventsSafe (cfg : Config Task Other) (s : State Task Other) : Prop where
  oneToken : ∀ task, tokens task cfg s ≤ 1
  exclusive : ∀ i < cfg.numWorkers, ∀ j < cfg.numWorkers, ∀ event event',
    (s.workers i).pc.current = some event → (s.workers j).pc.current = some event' →
    event.task = event'.task → i = j
  collected : ∀ i < cfg.numWorkers,
    (s.workers i).firings = (s.workers i).calls ++ (s.workers i).pending
  finishes : ∀ i < cfg.numWorkers, ∀ result : Event Task → Bool,
    ∃ s', Relation.ReflTransGen (SoloStep cfg i result) s s' ∧
      (s'.workers i).calls = (s.workers i).firings
  ownQueue : ∀ action s', step cfg action s = some s' → ∀ i < cfg.numWorkers,
    (s'.workers i).events ≠ (s.workers i).events → action = .worker i

/-- Tasks that are added once and afterwards started only by `exec_event_handler`
are in one place at a time: the watcher is active, a start functor is on its way,
or an event of the task is queued and its handling is not finished.  So a task is
never handled by two workers at once, and every firing is handled exactly once,
by the worker that collected it and in the order of collection. -/
theorem eventsSafe_of_reachable {cfg : Config Task Other} {s : State Task Other}
    (nonempty : 0 < cfg.numWorkers)
    (noUserStart : ∀ task, cfg.userFunc (.start task) = false)
    (reachable : (system cfg).Reachable s) : EventsSafe cfg s := by
  have history := fun i (bound : i < cfg.numWorkers) =>
    history_of_reachable nonempty reachable bound
  have oneToken : ∀ task, tokens task cfg s ≤ 1 := by
    intro task
    exact ((tokensOk_of_reachable nonempty noUserStart reachable).tokens task).trans
      (Bool.toNat_le _)
  refine ⟨oneToken, ?_, fun i bound => (history i bound).collected, ?_, ?_⟩
  · intro i inside j inside' event event' current current' same
    by_contra different
    have first := Worker.tokens_of_current (history i inside) current
    have second := Worker.tokens_of_current (history j inside') current'
    rw [← same] at second
    have both := add_le_sum_range (fun k => (s.workers k).tokens event.task) inside inside'
      different
    have total := oneToken event.task
    simp only [tokens] at total
    omega
  · intro i bound result
    exact solo_finishes nonempty bound result reachable
  · intro action s' stepped i _ changed
    obtain ⟨phase, inv⟩ := inPhase_of_reachable nonempty reachable
    exact step_ownQueue inv stepped changed

/-- A run after which worker 0 has started the watcher of task 7 again, but has not
removed the handled event from its queue. -/
def rearmTask : List (Action Nat Empty) :=
  bootTwoWorkers ++
    ([.addTask 2 7, .call 2, .call 2, .call 2, .worker 0, .worker 0, .asyncReady 0 0,
      .worker 0, .worker 0, .worker 0, .worker 0, .worker 0, .fire 0 ⟨7, 1⟩, .worker 0,
      .worker 0, .worker 0, .loopReturn 0, .worker 0, .worker 0, .worker 0, .worker 0,
      .worker 0, .worker 0, .worker 0, .worker 0, .worker 0, .worker 0, .worker 0,
      .handlerReturn 0 true, .worker 0, .call 0, .call 0] : List (Action Nat Empty))

/-- The invariant at the end of that run, where the start functor of the task is
queued. -/
theorem eventsSafe_rearmed : ∃ s, (system twoWorkers).Reachable s ∧
    (s.queues 0).queue = [.start 7] ∧ EventsSafe twoWorkers s := by
  have run : ((system twoWorkers).exec rearmTask (system twoWorkers).init).any
      (fun s => (s.queues 0).queue == [.start 7]) = true := by
    decide +kernel
  obtain ⟨s, reachable, test⟩ := System.exists_reachable_of_exec run
  exact ⟨s, reachable, by simpa using test,
    eventsSafe_of_reachable (by decide) (fun _ => rfl) reachable⟩

/-- The entry of an event that was handled stays in the queue until `pop`, so if
all entries are counted the sum for one task can be two. -/
theorem entries_not_exclusive : ∃ s, (system twoWorkers).Reachable s ∧
    (s.active 7).toNat +
      (∑ w ∈ Finset.range twoWorkers.numWorkers, startsIn 7 (s.queues w).queue) +
      (∑ i ∈ Finset.range twoWorkers.numWorkers, eventsOf 7 (s.workers i).events) = 2 := by
  have run : ((system twoWorkers).exec rearmTask (system twoWorkers).init).any
      (fun s => (s.active 7).toNat +
        (∑ w ∈ Finset.range twoWorkers.numWorkers, startsIn 7 (s.queues w).queue) +
        (∑ i ∈ Finset.range twoWorkers.numWorkers, eventsOf 7 (s.workers i).events) == 2) =
      true := by
    decide +kernel
  obtain ⟨s, reachable, test⟩ := System.exists_reachable_of_exec run
  exact ⟨s, reachable, by simpa using test⟩

end Exclusivity

end LibTasks.Dispatcher

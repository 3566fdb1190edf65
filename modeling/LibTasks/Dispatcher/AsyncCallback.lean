import LibTasks.Dispatcher.FunctorQueue

/-!
# `tasks_async_callback` in the two builds

The callback as one function on the state, the form in which it is written in
`tasks/worker.cpp`.  It agrees with the atomic steps of the system when the thread
runs through it without interruption.  The functors are executed inside the
argument of `assert`, so a build with `NDEBUG` removes them from the queue without
executing any.
-/

namespace LibTasks.Dispatcher

open LibTasks.Foundation

variable {Task Other : Type} [DecidableEq Task]

/-- The loop over the swapped functors, run by the thread of worker `i` on the
worker that the event loop belongs to. -/
def asyncLoop (cfg : Config Task Other) (i worker queue : Nat) :
    List (TaskFunc Task Other) → State Task Other → State Task Other
  | [], s => s.goto i .inLoop
  | front :: qcpy, s =>
      match cfg.build with
      | .asserts =>
          if isDirect cfg s i worker then
            let s := s.runFunc front
            asyncLoop cfg i worker queue qcpy (s.setQueue queue
              { s.queues queue with executed := (s.queues queue).executed ++ [front] })
          else
            (s.goto i .aborted).setCall i (.push worker front)
      | .ndebug => asyncLoop cfg i worker queue qcpy s

/-- `tasks_async_callback` for the watcher of worker `queue`. -/
def tasksAsyncCallback (cfg : Config Task Other) (i worker queue : Nat)
    (s : State Task Other) : State Task Other :=
  asyncLoop cfg i worker queue (s.queues queue).queue
    (s.setQueue queue { s.queues queue with queue := [] })

/-! ## Agreement with the atomic steps -/

section Steps

variable {cfg : Config Task Other} {i worker queue : Nat}

omit [DecidableEq Task] in
@[simp] theorem State.goto_goto (s : State Task Other) (pc pc' : Pc Task Other) :
    (s.goto i pc).goto i pc' = s.goto i pc' := by
  simp [State.goto, Worker.moveTo]

omit [DecidableEq Task] in
@[simp] theorem isDirect_goto (s : State Task Other) (pc : Pc Task Other) :
    isDirect cfg (s.goto i pc) i worker = isDirect cfg s i worker := by
  by_cases same : worker = i <;> simp [isDirect, same]

omit [DecidableEq Task] in
@[simp] theorem isDirect_setQueue (s : State Task Other) (q : FuncQueue Task Other) :
    isDirect cfg (s.setQueue queue q) i worker = isDirect cfg s i worker := rfl

@[simp] theorem isDirect_runFunc (s : State Task Other) (f : TaskFunc Task Other) :
    isDirect cfg (s.runFunc f) i worker = isDirect cfg s i worker := by
  simp [isDirect]

variable [DecidableEq Other]

/-- Running the thread alone through the loop gives the result of `asyncLoop`. -/
theorem exec_asyncLoop (queue : Nat) (bound : i < cfg.numWorkers)
    (qcpy : List (TaskFunc Task Other)) {s : State Task Other} (idle : s.calls i = .idle)
    (direct : cfg.build = .ndebug ∨ isDirect cfg s i worker = true) :
    ∃ count, (system cfg).exec (List.replicate count (.worker i))
        (s.goto i (.drain worker queue qcpy)) =
      some (asyncLoop cfg i worker queue qcpy s) := by
  induction qcpy generalizing s with
  | nil =>
      refine ⟨1, ?_⟩
      simp [System.exec, system, step, runnable, bound, idle, workerStep, asyncLoop]
  | cons front rest ih =>
      cases build : cfg.build with
      | ndebug =>
          obtain ⟨count, run⟩ := ih idle (.inl build)
          refine ⟨count + 1, ?_⟩
          rw [List.replicate_succ, System.exec]
          have stepped : (system cfg).step (.worker i)
              (s.goto i (.drain worker queue (front :: rest))) =
              some (s.goto i (.drain worker queue rest)) := by
            simp [system, step, runnable, bound, idle, workerStep, build]
          rw [stepped, Option.bind_some, run, asyncLoop, build]
      | asserts =>
          have test : isDirect cfg s i worker = true := by
            simpa [build] using direct
          let next := (s.runFunc front).setQueue queue { s.queues queue with
            executed := (s.queues queue).executed ++ [front] }
          have nextIdle : next.calls i = .idle := by
            simpa [next] using idle
          obtain ⟨count, run⟩ := ih nextIdle (.inr (by simpa [next] using test))
          refine ⟨count + 3, ?_⟩
          have taken : (system cfg).step (.worker i)
              (s.goto i (.drain worker queue (front :: rest))) =
              some (s.goto i (.execFront worker queue front rest)) := by
            simp [system, step, runnable, bound, idle, workerStep, build, test]
          have executed : (system cfg).step (.worker i)
              (s.goto i (.execFront worker queue front rest)) =
              some (next.goto i (.inFunctor worker queue front rest)) := by
            simp [system, step, runnable, bound, idle, workerStep, next, State.setQueue,
              State.goto, Worker.moveTo]
            cases front <;> rfl
          have returned : (system cfg).step (.worker i)
              (next.goto i (.inFunctor worker queue front rest)) =
              some (next.goto i (.drain worker queue rest)) := by
            simp [system, step, runnable, bound, nextIdle, workerStep]
          simp only [List.replicate_succ, System.exec, taken, executed, returned,
            Option.bind_some, run]
          simp [asyncLoop, build, test, next]

/-- Running the thread alone through the callback gives the result of
`tasksAsyncCallback`. -/
theorem exec_tasksAsyncCallback {s : State Task Other} (run : runnable cfg s i)
    (entered : (s.workers i).pc = .swap worker queue)
    (direct : cfg.build = .ndebug ∨ isDirect cfg s i worker = true) :
    ∃ count, (system cfg).exec (List.replicate count (.worker i)) s =
      some (tasksAsyncCallback cfg i worker queue s) := by
  obtain ⟨count, steps⟩ := exec_asyncLoop queue run.1 (s.queues queue).queue
    (s := s.setQueue queue { s.queues queue with queue := [] }) run.2 direct
  refine ⟨count + 1, ?_⟩
  have swapped : (system cfg).step (.worker i) s =
      some ((s.setQueue queue { s.queues queue with queue := [] }).goto i
        (.drain worker queue (s.queues queue).queue)) := by
    simp [system, step, run, workerStep, entered]
  simp only [List.replicate_succ, System.exec, swapped, Option.bind_some, steps,
    tasksAsyncCallback]

end Steps

/-! ## What the callback executes -/

section Executed

variable (cfg : Config Task Other) (i worker queue : Nat)

/-- The functors of queue `queue` that a run of the callback executes. -/
def executedBy (build : Build) (s : State Task Other) : List (TaskFunc Task Other) :=
  ((tasksAsyncCallback { cfg with build } i worker queue s).queues queue).executed.drop
    (s.queues queue).executed.length

theorem asyncLoop_executed_ndebug (build : cfg.build = .ndebug)
    (qcpy : List (TaskFunc Task Other)) (s : State Task Other) :
    ((asyncLoop cfg i worker queue qcpy s).queues queue).executed =
      (s.queues queue).executed := by
  induction qcpy with
  | nil => simp [asyncLoop]
  | cons front rest ih => simp [asyncLoop, build, ih]

theorem asyncLoop_executed_direct (build : cfg.build = .asserts)
    (qcpy : List (TaskFunc Task Other)) {s : State Task Other}
    (direct : isDirect cfg s i worker = true) :
    ((asyncLoop cfg i worker queue qcpy s).queues queue).executed =
      (s.queues queue).executed ++ qcpy := by
  induction qcpy generalizing s with
  | nil => simp [asyncLoop]
  | cons front rest ih =>
      simp only [asyncLoop, build, direct, ↓reduceIte]
      rw [ih (by simpa using direct)]
      simp

/-- Outside the leader's thread the first functor is queued again and the assertion
fails. -/
theorem asyncLoop_executed_delegated (build : cfg.build = .asserts)
    (qcpy : List (TaskFunc Task Other)) {s : State Task Other}
    (delegated : isDirect cfg s i worker = false) :
    ((asyncLoop cfg i worker queue qcpy s).queues queue).executed =
      (s.queues queue).executed := by
  cases qcpy with
  | nil => simp [asyncLoop]
  | cons front rest => simp [asyncLoop, build, delegated]

/-- Without assertions the callback executes nothing. -/
theorem executedBy_ndebug (s : State Task Other) :
    executedBy cfg i worker queue .ndebug s = [] := by
  simp [executedBy, tasksAsyncCallback, asyncLoop_executed_ndebug]

/-- With assertions the callback executes the whole queue in order if it runs in
the leader's thread, and nothing otherwise. -/
theorem executedBy_asserts (s : State Task Other) :
    executedBy cfg i worker queue .asserts s =
      if isDirect cfg s i worker then (s.queues queue).queue else [] := by
  have test : isDirect { cfg with build := .asserts }
      (s.setQueue queue { s.queues queue with queue := [] }) i worker =
      isDirect cfg s i worker := rfl
  cases direct : isDirect cfg s i worker with
  | true =>
      rw [executedBy, tasksAsyncCallback,
        asyncLoop_executed_direct _ _ _ _ rfl _ (test.trans direct)]
      simp
  | false =>
      rw [executedBy, tasksAsyncCallback,
        asyncLoop_executed_delegated _ _ _ _ rfl _ (test.trans direct)]
      simp

/-- The two builds execute the same functors, and all of them, only when there is
nothing to execute. -/
theorem builds_agree_iff (s : State Task Other) :
    (executedBy cfg i worker queue .ndebug s = executedBy cfg i worker queue .asserts s ∧
        ∀ build, executedBy cfg i worker queue build s = (s.queues queue).queue) ↔
      (s.queues queue).queue = [] := by
  constructor
  · rintro ⟨-, all⟩
    rw [← all .ndebug, executedBy_ndebug]
  · intro empty
    have nothing : ∀ build, executedBy cfg i worker queue build s = [] := by
      intro build
      cases build with
      | ndebug => exact executedBy_ndebug cfg i worker queue s
      | asserts => simp [executedBy_asserts, empty]
    simp [nothing, empty]

end Executed

/-- A reachable state in which the leader is about to empty a queue with one start
functor: the build with assertions executes it, the one without does not. -/
theorem builds_differ : ∃ s, (system twoWorkers).Reachable s ∧
    (s.workers 0).pc = .swap 0 0 ∧ (s.queues 0).queue = [.start 7] ∧
    executedBy twoWorkers 0 0 0 .asserts s = [.start 7] ∧
    executedBy twoWorkers 0 0 0 .ndebug s = [] := by
  have run : ((system twoWorkers).exec (bootTwoWorkers ++
      [.addTask 2 7, .call 2, .call 2, .call 2, .worker 0, .worker 0, .asyncReady 0 0])
        (system twoWorkers).init).any
        (fun s => (s.workers 0).pc == .swap 0 0 && (s.queues 0).queue == [.start 7] &&
          executedBy twoWorkers 0 0 0 .asserts s == [.start 7] &&
          executedBy twoWorkers 0 0 0 .ndebug s == []) = true := by
    decide
  obtain ⟨s, reachable, test⟩ := System.exists_reachable_of_exec run
  simp only [Bool.and_eq_true, beq_iff_eq] at test
  exact ⟨s, reachable, test.1.1.1, test.1.1.2, test.1.2, test.2⟩

end LibTasks.Dispatcher

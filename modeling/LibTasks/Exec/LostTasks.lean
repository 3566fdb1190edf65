import LibTasks.Exec.Assignment

/-!
# Tasks that no executor executes

`free_executor` tests `terminated()` under `m_executor_mutex`, an executor sets `m_term`
under its own `m_mutex`.  An executor can therefore give up after it was chosen and
before `add_task` has stored the task.  This is the only way to lose a task: an executor
never gives up while it has one.
-/

namespace LibTasks.Exec

open LibTasks.Foundation

/-- A task was stored for an executor that has set `m_term` or left `run`, and was not
executed. -/
def Lost (s : State) : Prop :=
  ∃ e t, (e, t) ∈ s.stored ∧ t ∉ s.executed ∧
    ((s.executors e).term = true ∨ (s.executors e).pc = .left)

/-- If the step is the store of `add_task`, then `terminated()` does not hold. -/
def StoresInTime : Action → State → Prop
  | .caller c, s =>
      match s.callers c with
      | .storing _ e => (s.executors e).term = false
      | _ => True
  | _, _ => True

variable {phase : Nat → Phase} {current : Nat → Option Nat} {s next : State}
variable {autoDelete : Nat → Bool} {action : Action}

theorem Inv.lost_iff (inv : Inv phase current s) :
    Lost s ↔ ∃ e t, (e, t) ∈ s.stored ∧ t ∉ s.executed ∧ (s.executors e).term = true := by
  constructor
  · rintro ⟨e, t, stored, notExecuted, term | left⟩
    · exact ⟨e, t, stored, notExecuted, term⟩
    · have point := (inv.executors e).point
      rw [left] at point
      exact ⟨e, t, stored, notExecuted, point⟩
  · rintro ⟨e, t, stored, notExecuted, term⟩
    exact ⟨e, t, stored, notExecuted, .inl term⟩

/-- A task that was stored and not executed is still the executor's task. -/
theorem Inv.task_of_stored (inv : Inv phase current s) {e t : Nat} (stored : (e, t) ∈ s.stored)
    (notExecuted : t ∉ s.executed) : (s.executors e).task ≠ none := by
  intro nothing
  have way := inv.tasks t
  rcases way.stored e stored with ⟨stage, there, notHanded⟩
  have open_ : stage ≠ .completed := by
    rintro rfl
    exact notExecuted (way.executed.mpr (by rw [there]; rfl))
  rcases (inv.executors e).empty nothing t (way.active e stage there open_) with ⟨c, handed⟩
  cases there.symm.trans handed
  exact notHanded c rfl

theorem Inv.not_lost (inv : Inv phase current s) {after : Nat → Phase}
    {assigned : Nat → Option Nat} (invNext : Inv after assigned next) (kept : ¬ Lost s)
    (stored : ∀ e t, (e, t) ∈ next.stored → t ∉ next.executed →
      (next.executors e).term = true → (e, t) ∈ s.stored)
    (executed : ∀ t ∈ s.executed, t ∈ next.executed)
    (term : ∀ e, (next.executors e).term = true → (s.executors e).task ≠ none →
      (s.executors e).term = true) : ¬ Lost next := by
  intro lost
  rcases invNext.lost_iff.mp lost with ⟨e, t, isStored, notExecuted, ended⟩
  have before := stored e t isStored notExecuted ended
  have notBefore : t ∉ s.executed := fun member => notExecuted (executed t member)
  have task := inv.task_of_stored before notBefore
  exact kept ⟨e, t, before, notBefore, .inl (term e ended task)⟩

/-- The only step that sets `m_term` is taken without a task. -/
theorem ExecutorOk.runs_term {e : Nat} {x y : Executor} {timeout : BitVec 32}
    (ok : ExecutorOk phase current e x) (runs : Runs timeout x y) (task : x.task ≠ none)
    (ended : y.term = true) : x.term = true := by
  cases runs with
  | count here =>
      have point := ok.point
      rw [here] at point
      exact absurd point.2 task
  | _ => exact ended

theorem term_update {e : Nat} {x : Executor}
    (this : x.term = true → (s.executors e).task ≠ none → (s.executors e).term = true) (u : Nat)
    (ended : (Function.update s.executors e x u).term = true)
    (task : (s.executors u).task ≠ none) : (s.executors u).term = true := by
  by_cases same : u = e
  · subst same
    rw [Function.update_self] at ended
    exact this ended task
  · rw [Function.update_of_ne same] at ended
    exact ended

theorem storesInTime_of_ne {c : Nat} (other : ∀ t e, s.callers c ≠ .storing t e) :
    StoresInTime (.caller c) s := by
  cases here : s.callers c with
  | storing t e => exact absurd here (other t e)
  | _ =>
      simp only [StoresInTime, here]

theorem Scans.not_storing {c : Nat} {pc : CallerPc} {mutex : Option Nat} {list : List Nat}
    (scans : Scans s c pc mutex list) (t e : Nat) : s.callers c ≠ .storing t e := by
  intro here
  cases scans <;> simp_all

/-- A step loses a task exactly if it stores one for an executor that has ended. -/
theorem Inv.lost_step (inv : Inv phase current s) (kept : ¬ Lost s)
    (moves : Moves autoDelete s action next) : ¬ Lost next ↔ StoresInTime action s := by
  rcases inv.moves moves with ⟨after, assigned, invNext⟩
  cases moves with
  | setTimeout | submit =>
      exact iff_of_true (inv.not_lost invNext kept (fun _ _ stored _ _ => stored) (fun _ => id)
        fun _ ended _ => ended) trivial
  | scan scans =>
      exact iff_of_true (inv.not_lost invNext kept (fun _ _ stored _ _ => stored) (fun _ => id)
        fun _ ended _ => ended) (storesInTime_of_ne scans.not_storing)
  | setBusy here | create here | lock here | unlock here =>
      refine iff_of_true (inv.not_lost invNext kept (fun _ _ stored _ _ => stored) (fun _ => id)
        (term_update fun ended _ => ended)) (storesInTime_of_ne ?_)
      rw [here]
      nofun
  | @run e x action own runs =>
      refine iff_of_true (inv.not_lost invNext kept (fun _ _ stored _ _ => stored) (fun _ => id)
        (term_update fun ended task => (inv.executors e).runs_term runs task ended)) ?_
      cases action with
      | caller c => exact absurd rfl (own c)
      | _ => trivial
  | execute =>
      exact iff_of_true (inv.not_lost invNext kept (fun _ _ stored _ _ => stored)
        (fun _ => List.mem_append_left _) (term_update fun ended _ => ended)) trivial
  | finish | clear =>
      exact iff_of_true (inv.not_lost invNext kept (fun _ _ stored _ _ => stored) (fun _ => id)
        (term_update fun ended _ => ended)) trivial
  | @store c t e here =>
      have mine := inv.callers c
      rw [here] at mine
      simp only [StoresInTime, here]
      constructor
      · intro notLost
        cases ended : (s.executors e).term with
        | false => rfl
        | true =>
            refine absurd ⟨e, t, List.mem_append_right _ (List.mem_singleton_self _), ?_, .inl ?_⟩
              notLost
            · intro executed
              have way := (inv.tasks t).executed.mp executed
              rw [mine.1] at way
              cases way
            · refine field_update (f := Executor.term) ?_ e ended
              exact id
      · intro inTime
        refine inv.not_lost invNext kept ?_ (fun _ => id) (term_update fun ended _ => ended)
        intro u w stored _ ended
        rcases List.mem_append.mp stored with before | new
        · exact before
        · cases List.mem_singleton.mp new
          have isEnded := (congrArg Executor.term (Function.update_self e _ s.executors)).symm.trans
            ended
          cases inTime.symm.trans isEnded

/-- In every run, no task is lost if and only if no task is stored for an executor whose
`terminated()` holds by then. -/
theorem no_task_lost_iff (autoDelete : Nat → Bool) (actions : List Action) :
    (system autoDelete).Throughout (fun s => ¬ Lost s) actions (system autoDelete).init ↔
      (system autoDelete).Along StoresInTime actions (system autoDelete).init := by
  have start : ¬ Lost (system autoDelete).init := by
    rintro ⟨e, t, stored, _⟩
    cases stored
  apply System.throughout_iff_along fun s => ∃ phase current, Inv phase current s
  · rintro state next action ⟨phase, current, inv⟩ stepped
    exact inv.moves (moves_of_step stepped)
  · rintro state next action ⟨phase, current, inv⟩ kept stepped
    exact inv.lost_step kept (moves_of_step stepped)
  · exact ⟨_, _, inv_init⟩
  · exact start

/-- One wait of 100 ms that ends without a task. -/
def idleRound : List Action :=
  [.wake 0 true, .executor 0, .executor 0, .executor 0, .executor 0]

/-- The caller 1 gets the executor 0 from `free_executor`. -/
def takeExecutor : List Action :=
  [.submit 1, .caller 1, .caller 1, .caller 1, .caller 1, .caller 1]

/-- The executor 0 reaches its timeout and ends, then the caller 1 goes on to `add_task`. -/
def storeLate : List Action :=
  [.wake 0 true, .executor 0, .executor 0, .executor 0, .executor 0, .executor 0, .executor 0,
    .executor 0, .caller 1, .caller 1, .caller 1]

/-- The executor 0 was idle for 0.9 of the 1 s of its timeout when `free_executor` returns
it to the caller 1.  It gives up before `add_task` is called. -/
theorem task_lost : ∃ s, (system fun _ => true).Reachable s ∧ Lost s := by
  have run : ((system fun _ => true).exec
      (Action.setTimeout 1 :: firstTask ++ List.replicate 3 (Action.executor 0) ++
        (List.replicate 9 idleRound).flatten ++ takeExecutor ++ storeLate)
        (system fun _ => true).init).any
      (fun s => s.stored == [(0, 0), (0, 1)] && s.executed == [0] &&
        (s.executors 0).pc == .left) = true := by
    decide +kernel
  obtain ⟨s, reachable, test⟩ := System.exists_reachable_of_exec run
  simp only [Bool.and_eq_true, beq_iff_eq] at test
  refine ⟨s, reachable, 0, 1, ?_, ?_, .inr test.2⟩
  · rw [test.1.1]
    decide
  · rw [test.1.2]
    decide

end LibTasks.Exec

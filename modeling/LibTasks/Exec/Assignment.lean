import LibTasks.Exec.Model

/-!
# Every executor has one task at a time

The way of a task, from the call of `add_exec_task` until an executor is done with it,
and the task that each executor is assigned to.  `m_busy` is cleared only after both the
task and the assignment are gone, so `free_executor` never hands out an executor that
has a task.
-/

namespace LibTasks.Exec

open LibTasks.Foundation

/-- Where a task that was handed to an executor is. -/
inductive Stage where
  | handed (c : Nat)
  | stored
  | executed
  | finished
  | completed
  deriving DecidableEq, Repr

/-- The way of a task. -/
inductive Phase where
  | fresh
  | submitted (c : Nat)
  | at (e : Nat) (stage : Stage)
  deriving DecidableEq, Repr

namespace Phase

/-- The caller that still has the task. -/
def caller : Phase → Option Nat
  | .submitted c | .at _ (.handed c) => some c
  | _ => none

def wasExecuted : Phase → Bool
  | .at _ .executed | .at _ .finished | .at _ .completed => true
  | _ => false

def wasFinished : Phase → Bool
  | .at _ .finished | .at _ .completed => true
  | _ => false

def wasCompleted : Phase → Bool
  | .at _ .completed => true
  | _ => false

end Phase

/-- How far the task in `m_task` is. -/
def Pc.stage : Pc → Stage
  | .executed => .executed
  | .finished => .finished
  | _ => .stored

/-- What the thread of an executor can rely on. -/
def PointOk (current : Nat → Option Nat) (e : Nat) (x : Executor) : Pc → Prop
  | .unborn => current e = none ∧ x.busy = true
  | .loop | .locking | .waiting | .woken _ => True
  | .checking _ | .unlocking => x.mutex = some .thread
  | .expired => x.mutex = some .thread ∧ x.task = none
  | .awake => x.mutex = some .thread ∧ (x.task ≠ none ∨ x.term = true)
  | .executing | .executed | .finished => x.mutex = some .thread ∧ x.task ≠ none
  | .cleared => x.mutex = some .thread ∧ current e = none ∧ x.busy = true
  | .left => x.term = true
  | .crashed => False

/-- What an executor and the task assigned to it have in common. -/
structure ExecutorOk (phase : Nat → Phase) (current : Nat → Option Nat) (e : Nat)
    (x : Executor) : Prop where
  free : x.busy = false → current e = none
  empty : x.task = none → ∀ t, current e = some t → ∃ c, phase t = .at e (.handed c)
  assigned : ∀ t, x.task = some t → current e = some t ∧ phase t = .at e x.pc.stage
  point : PointOk current e x x.pc

/-- What a caller of `add_exec_task` can rely on. -/
def CallerOk (phase : Nat → Phase) (s : State) (c : Nat) : CallerPc → Prop
  | .idle => True
  | .entering t => phase t = .submitted c
  | .scanning t _ | .testBusy t _ _ | .creating t =>
      phase t = .submitted c ∧ s.executorMutex = some c
  | .setBusy t e =>
      phase t = .submitted c ∧ s.executorMutex = some c ∧ (s.executors e).busy = false
  | .returning t e => phase t = .at e (.handed c) ∧ s.executorMutex = some c
  | .holding t e => phase t = .at e (.handed c)
  | .storing t e => phase t = .at e (.handed c) ∧ (s.executors e).mutex = some (.caller c)
  | .stored _ e => (s.executors e).mutex = some (.caller c)

/-- What has happened to a task. -/
structure TaskOk (current : Nat → Option Nat) (s : State) (t : Nat) (p : Phase) : Prop where
  executed : t ∈ s.executed ↔ p.wasExecuted = true
  finished : t ∈ s.finished → p.wasFinished = true
  completed : t ∈ s.completed ↔ p.wasCompleted = true
  handed : ∀ e, (e, t) ∈ s.handed → ∃ stage, p = .at e stage
  stored : ∀ e, (e, t) ∈ s.stored → ∃ stage, p = .at e stage ∧ ∀ c, stage ≠ .handed c
  active : ∀ e stage, p = .at e stage → stage ≠ .completed → current e = some t

/-- What holds between any two steps. -/
structure Inv (phase : Nat → Phase) (current : Nat → Option Nat) (s : State) : Prop where
  executors : ∀ e, ExecutorOk phase current e (s.executors e)
  callers : ∀ c, CallerOk phase s c (s.callers c)
  tasks : ∀ t, TaskOk current s t (phase t)
  handedOnce : (s.handed.map Prod.snd).Nodup
  executedOnce : s.executed.Nodup
  finishedOnce : s.finished.Nodup
  fresh : ∀ t, s.submitted ≤ t → phase t = .fresh
  unborn : ∀ e, s.created ≤ e → (s.executors e).pc = .unborn

variable {phase after : Nat → Phase} {current assigned : Nat → Option Nat} {s next : State}

/-! ## Steps of others -/

theorem PointOk.frame {e : Nat} {x : Executor} {pc : Pc} (ok : PointOk current e x pc)
    (still : assigned e = current e) : PointOk assigned e x pc := by
  cases pc with
  | unborn => exact ⟨still.trans ok.1, ok.2⟩
  | cleared => exact ⟨ok.1, still.trans ok.2.1, ok.2.2⟩
  | _ => exact ok

/-- An executor that is not busy can be assigned a task. -/
theorem PointOk.assign {e : Nat} {x : Executor} {pc : Pc} (ok : PointOk current e x pc)
    (free : x.busy = false) : PointOk assigned e { x with busy := true } pc := by
  cases pc with
  | unborn => cases free.symm.trans ok.2
  | cleared => cases free.symm.trans ok.2.2
  | _ => exact ok

/-- An executor only depends on the task that is assigned to it. -/
theorem ExecutorOk.frame {e : Nat} {x : Executor} (ok : ExecutorOk phase current e x)
    (same : ∀ t stage, phase t = .at e stage → after t = phase t)
    (still : assigned e = current e) : ExecutorOk after assigned e x where
  free notBusy := still.trans (ok.free notBusy)
  empty nothing t isCurrent := by
    rcases ok.empty nothing t (still.symm.trans isCurrent) with ⟨c, handed⟩
    exact ⟨c, (same t _ handed).trans handed⟩
  assigned t task := by
    rcases ok.assigned t task with ⟨isCurrent, there⟩
    exact ⟨still.trans isCurrent, (same t _ there).trans there⟩
  point := ok.point.frame still

/-- A caller only depends on its own task and on what it has locked. -/
theorem CallerOk.frame {c : Nat} {pc : CallerPc} (ok : CallerOk phase s c pc)
    (same : ∀ t, (phase t).caller = some c → after t = phase t)
    (owner : s.executorMutex = some c → next.executorMutex = some c ∧
      ∀ e, (s.executors e).busy = false → (next.executors e).busy = false)
    (locked : ∀ e, (s.executors e).mutex = some (.caller c) →
      (next.executors e).mutex = some (.caller c)) : CallerOk after next c pc := by
  have submitted : ∀ {t}, phase t = .submitted c → after t = .submitted c := fun there =>
    (same _ (by rw [there]; rfl)).trans there
  have handed : ∀ {t e}, phase t = .at e (.handed c) → after t = .at e (.handed c) := fun there =>
    (same _ (by rw [there]; rfl)).trans there
  cases pc with
  | idle => trivial
  | entering t => exact submitted ok
  | scanning t rest => exact ⟨submitted ok.1, (owner ok.2).1⟩
  | testBusy t e rest => exact ⟨submitted ok.1, (owner ok.2).1⟩
  | creating t => exact ⟨submitted ok.1, (owner ok.2).1⟩
  | setBusy t e => exact ⟨submitted ok.1, (owner ok.2.1).1, (owner ok.2.1).2 e ok.2.2⟩
  | returning t e => exact ⟨handed ok.1, (owner ok.2).1⟩
  | holding t e => exact handed ok
  | storing t e => exact ⟨handed ok.1, locked e ok.2⟩
  | stored t e => exact locked e ok

/-- The ways of the other tasks stay as they are. -/
theorem phase_update (special : Phase → Prop) {t : Nat} {p : Phase} (other : ¬ special (phase t))
    (u : Nat) (isSpecial : special (phase u)) : Function.update phase t p u = phase u := by
  apply Function.update_of_ne
  rintro rfl
  exact other isSpecial

/-- A step that does something with another task. -/
theorem TaskOk.frame {t : Nat} {p : Phase} (ok : TaskOk current s t p)
    (executed : t ∈ next.executed ↔ t ∈ s.executed) (finished : t ∈ next.finished → t ∈ s.finished)
    (completed : t ∈ next.completed ↔ t ∈ s.completed)
    (handed : ∀ e, (e, t) ∈ next.handed → (e, t) ∈ s.handed)
    (stored : ∀ e, (e, t) ∈ next.stored → (e, t) ∈ s.stored)
    (still : ∀ e, current e = some t → assigned e = some t) : TaskOk assigned next t p where
  executed := executed.trans ok.executed
  finished isFinished := ok.finished (finished isFinished)
  completed := completed.trans ok.completed
  handed e isHanded := ok.handed e (handed e isHanded)
  stored e isStored := ok.stored e (stored e isStored)
  active e stage there active := still e (ok.active e stage there active)

/-- What holds of an executor still holds when another one changes. -/
theorem field_update {β : Type} {f : Executor → β} {v : β} {e : Nat} {x : Executor}
    (this : f (s.executors e) = v → f x = v) (u : Nat) (holds : f (s.executors u) = v) :
    f (Function.update s.executors e x u) = v := by
  by_cases same : u = e
  · subst same
    rw [Function.update_self]
    exact this holds
  · rw [Function.update_of_ne same]
    exact holds

theorem unborn_update {e : Nat} {x : Executor} (inv : Inv phase current s)
    (born : (s.executors e).pc ≠ .unborn) :
    ∀ u, s.created ≤ u → (Function.update s.executors e x u).pc = .unborn := by
  intro u bound
  have other : u ≠ e := fun same => born (same ▸ inv.unborn u bound)
  rw [Function.update_of_ne other]
  exact inv.unborn u bound

theorem fresh_update {t : Nat} {p : Phase} (inv : Inv phase current s)
    (known : phase t ≠ .fresh) :
    ∀ u, s.submitted ≤ u → Function.update phase t p u = .fresh := by
  intro u bound
  have other : u ≠ t := fun same => known (same ▸ inv.fresh u bound)
  rw [Function.update_of_ne other]
  exact inv.fresh u bound

/-- A task comes on at one executor, which does not matter to the others. -/
theorem Inv.otherExecutor {e t u : Nat} {stage : Stage} {p : Phase} (inv : Inv phase current s)
    (there : phase t = .at e stage) (other : u ≠ e) (still : assigned u = current u) :
    ExecutorOk (Function.update phase t p) assigned u (s.executors u) := by
  apply (inv.executors u).frame _ still
  intro w stage
  apply phase_update (· = .at u stage)
  rw [there]
  intro same
  cases same
  exact other rfl

theorem mem_of_mem_concat {e t u w : Nat} {l : List (Nat × Nat)} (other : u ≠ t)
    (member : (w, u) ∈ l ++ [(e, t)]) : (w, u) ∈ l := by
  rcases List.mem_append.mp member with before | new
  · exact before
  · cases List.mem_singleton.mp new
    exact absurd rfl other

/-! ## The steps that leave the tasks as they are -/

theorem Inv.scan (inv : Inv phase current s) {c : Nat} {pc : CallerPc} {mutex : Option Nat}
    {list : List Nat} (scans : Scans s c pc mutex list) :
    Inv phase current ({ s with executorMutex := mutex, list := list }.setCaller c pc) where
  executors := inv.executors
  callers := by
    have mine := inv.callers c
    apply (Function.forall_update_iff s.callers fun u pc => CallerOk phase _ u pc).mpr
    constructor
    · cases scans with
      | enter here free =>
          rw [here] at mine
          exact ⟨mine, rfl⟩
      | atEnd here =>
          rw [here] at mine
          exact mine
      | erase here ended =>
          rw [here] at mine
          exact mine
      | alive here =>
          rw [here] at mine
          exact mine
      | isBusy here =>
          rw [here] at mine
          exact mine
      | notBusy here free =>
          rw [here] at mine
          exact ⟨mine.1, mine.2, free⟩
      | leave here =>
          rw [here] at mine
          exact mine.1
    · intro u other
      refine (inv.callers u).frame (fun _ _ => rfl) (fun owns => ⟨?_, fun _ => id⟩) fun _ => id
      cases scans with
      | enter here free => cases free.symm.trans owns
      | leave here =>
          rw [here] at mine
          cases mine.2.symm.trans owns
          exact absurd rfl other
      | _ => exact owns
  tasks t := { inv.tasks t with }
  handedOnce := inv.handedOnce
  executedOnce := inv.executedOnce
  finishedOnce := inv.finishedOnce
  fresh := inv.fresh
  unborn := inv.unborn

theorem ExecutorOk.goto {e : Nat} {x y : Executor} (ok : ExecutorOk phase current e x)
    (task : y.task = x.task) (busy : y.busy = x.busy) (stage : y.pc.stage = x.pc.stage)
    (point : PointOk current e y y.pc) : ExecutorOk phase current e y where
  free := by
    rw [busy]
    exact ok.free
  empty := by
    rw [task]
    exact ok.empty
  assigned := by
    rw [task, stage]
    exact ok.assigned
  point := point

theorem ExecutorOk.runs {e : Nat} {x y : Executor} {timeout : BitVec 32}
    (ok : ExecutorOk phase current e x) (runs : Runs timeout x y) :
    ExecutorOk phase current e y := by
  have point := ok.point
  cases runs with
  | enter here _ => exact ok.goto rfl rfl (by rw [here]; rfl) trivial
  | leave here ends => exact ok.goto rfl rfl (by rw [here]; rfl) ends
  | lock here _ => exact ok.goto rfl rfl (by rw [here]; rfl) rfl
  | ready here reason =>
      rw [here] at point
      exact ok.goto rfl rfl (by rw [here]; rfl) ⟨point, reason⟩
  | expire here nothing _ =>
      rw [here] at point
      exact ok.goto rfl rfl (by rw [here]; rfl) ⟨point, nothing⟩
  | wait here _ _ => exact ok.goto rfl rfl (by rw [here]; rfl) trivial
  | wake _ here => exact ok.goto rfl rfl (by rw [here]; rfl) trivial
  | relock here _ => exact ok.goto rfl rfl (by rw [here]; rfl) rfl
  | count here =>
      rw [here] at point
      exact ok.goto rfl rfl (by rw [here]; rfl) point.1
  | start here goesOn =>
      rw [here] at point
      refine ok.goto rfl rfl (by rw [here]; rfl) ⟨point.1, ?_⟩
      rcases point.2 with task | ends
      · exact task
      · cases goesOn.symm.trans ends
  | giveUp here _ =>
      rw [here] at point
      exact ok.goto rfl rfl (by rw [here]; rfl) point.1
  | crash here nothing =>
      rcases here with here | here <;> rw [here] at point <;> exact absurd nothing point.2
  | clearBusy here =>
      rw [here] at point
      have assigned := ok.assigned
      rw [here] at assigned
      exact ⟨fun _ => point.2.1, ok.empty, assigned, point.1⟩
  | unlock here => exact ok.goto rfl rfl (by rw [here]; rfl) trivial

/-- While its thread has not locked `m_mutex`, the rest of an executor does not matter. -/
theorem ExecutorOk.outside {e : Nat} {x : Executor} (ok : ExecutorOk phase current e x)
    (notLocked : x.mutex ≠ some .thread) :
    x.pc.stage = .stored ∧
      ∀ y : Executor, y.term = x.term → y.busy = x.busy → PointOk current e y x.pc := by
  have point := ok.point
  cases here : x.pc with
  | unborn =>
      rw [here] at point
      exact ⟨rfl, fun _ _ busy => ⟨point.1, busy.trans point.2⟩⟩
  | loop | locking | waiting | woken => exact ⟨rfl, fun _ _ _ => trivial⟩
  | left =>
      rw [here] at point
      exact ⟨rfl, fun _ term _ => term.trans point⟩
  | checking | unlocking =>
      rw [here] at point
      exact absurd point notLocked
  | crashed =>
      rw [here] at point
      cases point
  | _ =>
      rw [here] at point
      exact absurd point.1 notLocked

/-- The thread of an executor keeps off the lock of a caller. -/
theorem ExecutorOk.runs_mutex {e c : Nat} {x y : Executor} {timeout : BitVec 32}
    (ok : ExecutorOk phase current e x) (runs : Runs timeout x y)
    (locked : x.mutex = some (.caller c)) : y.mutex = some (.caller c) := by
  have point := ok.point
  cases runs with
  | lock _ free => cases free.symm.trans locked
  | relock _ free => cases free.symm.trans locked
  | wait here _ _ =>
      rw [here] at point
      cases point.symm.trans locked
  | unlock here =>
      rw [here] at point
      cases point.symm.trans locked
  | _ => exact locked

theorem Runs.busy {x y : Executor} {timeout : BitVec 32} (runs : Runs timeout x y)
    (free : x.busy = false) : y.busy = false := by
  cases runs with
  | clearBusy => rfl
  | _ => exact free

theorem Runs.born {x y : Executor} {timeout : BitVec 32} (runs : Runs timeout x y) :
    x.pc ≠ .unborn := by
  intro unborn
  cases runs with
  | crash here => rcases here with here | here <;> cases here.symm.trans unborn
  | _ => simp_all

theorem Inv.run (inv : Inv phase current s) {e : Nat} {x : Executor}
    (runs : Runs s.timeout (s.executors e) x) : Inv phase current (s.setExecutor e x) where
  executors := by
    apply (Function.forall_update_iff s.executors fun u x => ExecutorOk phase current u x).mpr
    exact ⟨(inv.executors e).runs runs, fun u _ => inv.executors u⟩
  callers u := by
    apply (inv.callers u).frame (fun _ _ => rfl)
    · exact fun owns => ⟨owns, field_update runs.busy⟩
    · exact field_update ((inv.executors e).runs_mutex runs)
  tasks t := { inv.tasks t with }
  handedOnce := inv.handedOnce
  executedOnce := inv.executedOnce
  finishedOnce := inv.finishedOnce
  fresh := inv.fresh
  unborn := unborn_update inv runs.born

/-- A caller of `add_task` locks or unlocks `m_mutex`. -/
theorem Inv.changeLock (inv : Inv phase current s) {c e : Nat} {pc : CallerPc}
    {mutex : Option Holder} (notLocked : (s.executors e).mutex ≠ some .thread)
    (notOther : ∀ u, u ≠ c → (s.executors e).mutex ≠ some (.caller u))
    (mine : CallerOk phase (s.setExecutor e { s.executors e with mutex := mutex }) c pc) :
    Inv phase current
      ((s.setExecutor e { s.executors e with mutex := mutex }).setCaller c pc) where
  executors := by
    apply (Function.forall_update_iff s.executors fun u x => ExecutorOk phase current u x).mpr
    refine ⟨?_, fun u _ => inv.executors u⟩
    exact (inv.executors e).goto rfl rfl rfl (((inv.executors e).outside notLocked).2 _ rfl rfl)
  callers := by
    apply (Function.forall_update_iff s.callers fun u pc => CallerOk phase _ u pc).mpr
    constructor
    · cases pc <;> exact mine
    · intro u other
      apply (inv.callers u).frame (fun _ _ => rfl)
      · exact fun owns => ⟨owns, field_update id⟩
      · exact field_update fun locked => absurd locked (notOther u other)
  tasks t := { inv.tasks t with }
  handedOnce := inv.handedOnce
  executedOnce := inv.executedOnce
  finishedOnce := inv.finishedOnce
  fresh := inv.fresh
  unborn u bound := by
    refine field_update (f := Executor.pc) ?_ u (inv.unborn u bound)
    exact id

/-! ## The way of a task -/

/-- `add_exec_task` was called. -/
theorem Inv.submit (inv : Inv phase current s) (c : Nat) :
    Inv (Function.update phase s.submitted (.submitted c)) current
      ({ s with submitted := s.submitted + 1 }.setCaller c (.entering s.submitted)) := by
  have new := inv.fresh s.submitted (Nat.le_refl _)
  have task := inv.tasks s.submitted
  rw [new] at task
  exact
    { executors := by
        intro e
        apply (inv.executors e).frame _ rfl
        exact fun t stage => phase_update (· = .at e stage) (by rw [new]; nofun) t
      callers := by
        apply (Function.forall_update_iff s.callers fun u pc => CallerOk _ _ u pc).mpr
        constructor
        · exact Function.update_self ..
        · intro u _
          apply (inv.callers u).frame
          · exact phase_update (·.caller = some u) (by rw [new]; nofun)
          · exact fun owns => ⟨owns, fun _ => id⟩
          · exact fun _ => id
      tasks := by
        apply (Function.forall_update_iff phase fun t p => TaskOk _ _ t p).mpr
        constructor
        · exact ⟨task.executed, task.finished, task.completed,
            (fun e handed => nomatch task.handed e handed),
            (fun e stored => nomatch task.stored e stored), nofun⟩
        · exact fun t _ => { inv.tasks t with }
      handedOnce := inv.handedOnce
      executedOnce := inv.executedOnce
      finishedOnce := inv.finishedOnce
      fresh := by
        intro t bound
        have other : t ≠ s.submitted := by
          rintro rfl
          exact absurd bound (Nat.not_succ_le_self _)
        rw [Function.update_of_ne other]
        exact inv.fresh t (Nat.le_of_succ_le bound)
      unborn := inv.unborn }

/-- `free_executor` has chosen an executor that no task is assigned to. -/
theorem Inv.handOut (inv : Inv phase current s) {c t e : Nat} {x : Executor} {list : List Nat}
    {created : Nat} (submitted : phase t = .submitted c) (owner : s.executorMutex = some c)
    (nobody : current e = none) (mutex : x.mutex = (s.executors e).mutex)
    (task : x.task = (s.executors e).task) (busy : x.busy = true)
    (point : PointOk (Function.update current e (some t)) e x x.pc)
    (unborn : ∀ u, created ≤ u → (Function.update s.executors e x u).pc = .unborn) :
    Inv (Function.update phase t (.at e (.handed c))) (Function.update current e (some t))
      (({ s with created := created, list := list, handed := s.handed ++ [(e, t)] }.setExecutor e
        x).setCaller c (.returning t e)) := by
  have noTask : x.task = none := by
    cases has : (s.executors e).task with
    | none => exact task.trans has
    | some u => cases nobody.symm.trans ((inv.executors e).assigned u has).1
  have way := inv.tasks t
  rw [submitted] at way
  exact
    { executors := by
        apply (Function.forall_update_iff s.executors fun u x => ExecutorOk _ _ u x).mpr
        constructor
        · constructor
          · intro free
            cases busy.symm.trans free
          · intro _ u isCurrent
            rw [Function.update_self] at isCurrent
            cases isCurrent
            exact ⟨c, Function.update_self ..⟩
          · intro u has
            cases noTask.symm.trans has
          · exact point
        · intro u other
          apply (inv.executors u).frame
          · exact fun w stage => phase_update (· = .at u stage) (by rw [submitted]; nofun) w
          · exact Function.update_of_ne other ..
      callers := by
        apply (Function.forall_update_iff s.callers fun u pc => CallerOk _ _ u pc).mpr
        constructor
        · exact ⟨Function.update_self .., owner⟩
        · intro u other
          apply (inv.callers u).frame
          · apply phase_update (·.caller = some u)
            rw [submitted]
            rintro same
            cases same
            exact other rfl
          · intro owns
            cases owner.symm.trans owns
            exact absurd rfl other
          · exact field_update fun locked => mutex.trans locked
      tasks := by
        apply (Function.forall_update_iff phase fun t p => TaskOk _ _ t p).mpr
        constructor
        · refine ⟨way.executed, way.finished, way.completed, ?_,
            (fun e stored => nomatch way.stored e stored), ?_⟩
          · intro u handed
            rcases List.mem_append.mp handed with before | new
            · exact nomatch way.handed u before
            · cases List.mem_singleton.mp new
              exact ⟨_, rfl⟩
          · intro u stage there _
            cases there
            exact Function.update_self ..
        · intro u other
          refine (inv.tasks u).frame .rfl id .rfl (fun _ => mem_of_mem_concat other)
            (fun _ => id) ?_
          intro w isCurrent
          rw [Function.update_of_ne]
          · exact isCurrent
          · rintro rfl
            cases nobody.symm.trans isCurrent
      handedOnce := by
        change ((s.handed ++ [(e, t)]).map Prod.snd).Nodup
        rw [List.map_append, List.map_singleton, ← List.concat_eq_append]
        refine .concat ?_ inv.handedOnce
        intro before
        rcases List.mem_map.mp before with ⟨⟨u, _⟩, member, rfl⟩
        exact nomatch way.handed u member
      executedOnce := inv.executedOnce
      finishedOnce := inv.finishedOnce
      fresh := by
        apply fresh_update inv
        rw [submitted]
        nofun
      unborn := unborn }

/-- `add_task` has stored the task. -/
theorem Inv.store (inv : Inv phase current s) {c t e : Nat} (here : s.callers c = .storing t e) :
    Inv (Function.update phase t (.at e .stored)) current
      (({ s with stored := s.stored ++ [(e, t)] }.setExecutor e
        { s.executors e with task := some t }).setCaller c (.stored t e)) := by
  have mine := inv.callers c
  rw [here] at mine
  rcases mine with ⟨handed, locked⟩
  have way := inv.tasks t
  rw [handed] at way
  have isCurrent := way.active e _ rfl nofun
  have outside := (inv.executors e).outside (by rw [locked]; nofun)
  exact
    { executors := by
        apply (Function.forall_update_iff s.executors fun u x => ExecutorOk _ _ u x).mpr
        constructor
        · constructor
          · exact (inv.executors e).free
          · exact nofun
          · intro u has
            cases has
            exact ⟨isCurrent, (Function.update_self ..).trans (congrArg _ outside.1.symm)⟩
          · exact outside.2 _ rfl rfl
        · exact fun u other => inv.otherExecutor handed other rfl
      callers := by
        apply (Function.forall_update_iff s.callers fun u pc => CallerOk _ _ u pc).mpr
        constructor
        · refine field_update (f := Executor.mutex) ?_ e locked
          exact id
        · intro u other
          apply (inv.callers u).frame
          · apply phase_update (·.caller = some u)
            rw [handed]
            rintro same
            cases same
            exact other rfl
          · exact fun owns => ⟨owns, field_update id⟩
          · exact field_update id
      tasks := by
        apply (Function.forall_update_iff phase fun t p => TaskOk _ _ t p).mpr
        constructor
        · refine ⟨way.executed, (fun finished => nomatch way.finished finished), way.completed, ?_,
            ?_, ?_⟩
          · intro u handed
            rcases way.handed u handed with ⟨_, there⟩
            cases there
            exact ⟨_, rfl⟩
          · intro u stored
            rcases List.mem_append.mp stored with before | new
            · rcases way.stored u before with ⟨_, there, notHanded⟩
              cases there
              exact absurd rfl (notHanded c)
            · cases List.mem_singleton.mp new
              exact ⟨_, rfl, nofun⟩
          · intro u stage there _
            cases there
            exact isCurrent
        · intro u other
          exact (inv.tasks u).frame .rfl id .rfl (fun _ => id) (fun _ => mem_of_mem_concat other)
            (fun _ => id)
      handedOnce := inv.handedOnce
      executedOnce := inv.executedOnce
      finishedOnce := inv.finishedOnce
      fresh := by
        apply fresh_update inv
        rw [handed]
        nofun
      unborn := by
        intro u bound
        refine field_update (f := Executor.pc) ?_ u (inv.unborn u bound)
        exact id }

/-- The executor has come on with its task. -/
theorem Inv.advance (inv : Inv phase current s) (pc : Pc) {e t : Nat}
    {executed finished : List Nat} (task : (s.executors e).task = some t)
    (point : PointOk current e { s.executors e with pc := pc } pc)
    (born : (s.executors e).pc ≠ .unborn)
    (isExecuted : t ∈ executed ↔ (Phase.at e pc.stage).wasExecuted = true)
    (isFinished : t ∈ finished → (Phase.at e pc.stage).wasFinished = true)
    (others : ∀ u, u ≠ t → (u ∈ executed ↔ u ∈ s.executed) ∧ (u ∈ finished → u ∈ s.finished))
    (executedOnce : executed.Nodup) (finishedOnce : finished.Nodup) :
    Inv (Function.update phase t (.at e pc.stage)) current
      ({ s with executed := executed, finished := finished }.setExecutor e
        { s.executors e with pc := pc }) := by
  have ok := inv.executors e
  have there := (ok.assigned t task).2
  have way := inv.tasks t
  rw [there] at way
  exact
    { executors := by
        apply (Function.forall_update_iff s.executors fun u x => ExecutorOk _ _ u x).mpr
        constructor
        · constructor
          · exact ok.free
          · intro nothing
            cases task.symm.trans nothing
          · intro u has
            cases task.symm.trans has
            exact ⟨(ok.assigned t task).1, Function.update_self ..⟩
          · exact point
        · exact fun u other => inv.otherExecutor there other rfl
      callers := by
        intro u
        apply (inv.callers u).frame
        · apply phase_update (·.caller = some u)
          rw [there]
          cases (s.executors e).pc <;> nofun
        · exact fun owns => ⟨owns, field_update id⟩
        · exact field_update id
      tasks := by
        apply (Function.forall_update_iff phase fun t p => TaskOk _ _ t p).mpr
        constructor
        · refine ⟨isExecuted, isFinished, ?_, ?_, ?_, ?_⟩
          · apply way.completed.trans
            cases (s.executors e).pc <;> cases pc <;> exact .rfl
          · intro u handed
            rcases way.handed u handed with ⟨_, same⟩
            cases same
            exact ⟨_, rfl⟩
          · intro u stored
            rcases way.stored u stored with ⟨_, same, _⟩
            cases same
            exact ⟨_, rfl, by cases pc <;> nofun⟩
          · intro u stage same _
            cases same
            exact way.active e _ rfl (by cases (s.executors e).pc <;> nofun)
        · intro u other
          exact (inv.tasks u).frame (others u other).1 (others u other).2 .rfl (fun _ => id)
            (fun _ => id) fun _ => id
      handedOnce := inv.handedOnce
      executedOnce := executedOnce
      finishedOnce := finishedOnce
      fresh := by
        apply fresh_update inv
        rw [there]
        nofun
      unborn := unborn_update inv born }

theorem Inv.execute (inv : Inv phase current s) {e t : Nat}
    (here : (s.executors e).pc = .executing) (task : (s.executors e).task = some t) :
    Inv (Function.update phase t (.at e .executed)) current
      ({ s with executed := s.executed ++ [t] }.setExecutor e
        { s.executors e with pc := .executed }) := by
  have there := ((inv.executors e).assigned t task).2
  have way := inv.tasks t
  have point := (inv.executors e).point
  rw [here] at there point
  rw [there] at way
  have new : t ∉ s.executed := fun before => nomatch way.executed.mp before
  apply inv.advance .executed task point (by rw [here]; nofun)
  · simp [Phase.wasExecuted, Pc.stage]
  · exact fun finished => nomatch way.finished finished
  · intro u other
    exact ⟨by simp [other], id⟩
  · rw [← List.concat_eq_append]
    exact .concat new inv.executedOnce
  · exact inv.finishedOnce

theorem Inv.finish (inv : Inv phase current s) {autoDelete : Nat → Bool} {e t : Nat}
    (here : (s.executors e).pc = .executed) (task : (s.executors e).task = some t) :
    Inv (Function.update phase t (.at e .finished)) current
      ({ s with finished := if autoDelete t then s.finished ++ [t] else s.finished }.setExecutor e
        { s.executors e with pc := .finished }) := by
  have there := ((inv.executors e).assigned t task).2
  have way := inv.tasks t
  have point := (inv.executors e).point
  rw [here] at there point
  rw [there] at way
  have new : t ∉ s.finished := fun before => nomatch way.finished before
  apply inv.advance .finished task point (by rw [here]; nofun)
  · exact way.executed
  · exact fun _ => rfl
  · intro u other
    refine ⟨.rfl, fun finished => ?_⟩
    split at finished
    · simpa [other] using finished
    · exact finished
  · exact inv.executedOnce
  · split
    · rw [← List.concat_eq_append]
      exact .concat new inv.finishedOnce
    · exact inv.finishedOnce

/-- The executor has cleared `m_task`. -/
theorem Inv.clear (inv : Inv phase current s) {e t : Nat}
    (here : (s.executors e).pc = .finished) (task : (s.executors e).task = some t) :
    Inv (Function.update phase t (.at e .completed)) (Function.update current e none)
      ({ s with completed := s.completed ++ [t] }.setExecutor e
        { s.executors e with task := none, pc := .cleared }) := by
  have ok := inv.executors e
  have there := (ok.assigned t task).2
  have isCurrent := (ok.assigned t task).1
  have way := inv.tasks t
  have point := ok.point
  rw [here] at there point
  rw [there] at way
  have busy : (s.executors e).busy = true := by
    cases isBusy : (s.executors e).busy with
    | true => rfl
    | false => cases isCurrent.symm.trans (ok.free isBusy)
  exact
    { executors := by
        apply (Function.forall_update_iff s.executors fun u x => ExecutorOk _ _ u x).mpr
        constructor
        · constructor
          · exact fun _ => Function.update_self ..
          · intro _ u assigned
            cases (Function.update_self e none current).symm.trans assigned
          · exact nofun
          · exact ⟨point.1, Function.update_self .., busy⟩
        · exact fun u other => inv.otherExecutor there other (Function.update_of_ne other ..)
      callers := by
        intro u
        apply (inv.callers u).frame
        · apply phase_update (·.caller = some u)
          rw [there]
          nofun
        · exact fun owns => ⟨owns, field_update id⟩
        · exact field_update id
      tasks := by
        apply (Function.forall_update_iff phase fun t p => TaskOk _ _ t p).mpr
        constructor
        · refine ⟨way.executed, fun _ => rfl, ?_, ?_, ?_, ?_⟩
          · exact ⟨fun _ => rfl, fun _ => List.mem_append_right _ (List.mem_singleton_self t)⟩
          · intro u handed
            rcases way.handed u handed with ⟨_, same⟩
            cases same
            exact ⟨_, rfl⟩
          · intro u stored
            rcases way.stored u stored with ⟨_, same, _⟩
            cases same
            exact ⟨_, rfl, nofun⟩
          · intro u stage same active
            cases same
            exact absurd rfl active
        · intro u other
          refine (inv.tasks u).frame .rfl id ?_ (fun _ => id) (fun _ => id) ?_
          · change u ∈ s.completed ++ [t] ↔ _
            simp [other]
          · intro w assigned
            rw [Function.update_of_ne]
            · exact assigned
            · rintro rfl
              cases isCurrent.symm.trans assigned
              exact absurd rfl other
      handedOnce := inv.handedOnce
      executedOnce := inv.executedOnce
      finishedOnce := inv.finishedOnce
      fresh := by
        apply fresh_update inv
        rw [there]
        nofun
      unborn := unborn_update inv (by rw [here]; nofun) }

/-! ## Every run -/

theorem Inv.moves {autoDelete : Nat → Bool} {action : Action} (inv : Inv phase current s)
    (moves : Moves autoDelete s action next) : ∃ phase current, Inv phase current next := by
  cases moves with
  | setTimeout timeout =>
      exact ⟨phase, current, { inv with tasks := fun t => { inv.tasks t with } }⟩
  | @submit c here => exact ⟨_, _, inv.submit c⟩
  | scan scans => exact ⟨_, _, inv.scan scans⟩
  | @setBusy c t e here =>
      have mine := inv.callers c
      rw [here] at mine
      have nobody := (inv.executors e).free mine.2.2
      refine ⟨_, _, inv.handOut mine.1 mine.2.1 nobody rfl rfl rfl
        ((inv.executors e).point.assign mine.2.2) fun u bound => ?_⟩
      refine field_update (f := Executor.pc) ?_ u (inv.unborn u bound)
      exact id
  | @create c t here =>
      have mine := inv.callers c
      rw [here] at mine
      have new := inv.unborn s.created (Nat.le_refl _)
      have point := (inv.executors s.created).point
      rw [new] at point
      refine ⟨_, _, inv.handOut mine.1 mine.2 point.1 rfl rfl point.2 trivial fun u bound => ?_⟩
      have other : u ≠ s.created := by
        rintro rfl
        exact absurd bound (Nat.not_succ_le_self _)
      rw [Function.update_of_ne other]
      exact inv.unborn u (Nat.le_of_succ_le bound)
  | @lock c t e here free =>
      have mine := inv.callers c
      rw [here] at mine
      refine ⟨_, _, inv.changeLock (by rw [free]; nofun) (by rw [free]; nofun) ⟨mine, ?_⟩⟩
      change (Function.update s.executors e _ e).mutex = _
      rw [Function.update_self]
  | store here => exact ⟨_, _, inv.store here⟩
  | @unlock c t e here =>
      have mine := inv.callers c
      rw [here] at mine
      refine ⟨_, _, inv.changeLock (by rw [mine]; nofun) ?_ trivial⟩
      intro u other locked
      cases mine.symm.trans locked
      exact other rfl
  | run _ runs => exact ⟨_, _, inv.run runs⟩
  | execute here task => exact ⟨_, _, inv.execute here task⟩
  | finish here task => exact ⟨_, _, inv.finish here task⟩
  | @clear e here =>
      have point := (inv.executors e).point
      rw [here] at point
      rcases Option.ne_none_iff_exists'.mp point.2 with ⟨t, task⟩
      rw [task]
      exact ⟨_, _, inv.clear here task⟩

theorem inv_init : Inv (fun _ => .fresh) (fun _ => none) {} where
  executors _ := ⟨fun _ => rfl, nofun, nofun, rfl, rfl⟩
  callers _ := trivial
  tasks _ := ⟨⟨nofun, nofun⟩, nofun, ⟨nofun, nofun⟩, nofun, nofun, nofun⟩
  handedOnce := List.nodup_nil
  executedOnce := List.nodup_nil
  finishedOnce := List.nodup_nil
  fresh _ _ := rfl
  unborn _ _ := rfl

theorem inv_of_reachable {autoDelete : Nat → Bool} (reachable : (system autoDelete).Reachable s) :
    ∃ phase current, Inv phase current s := by
  apply reachable.invariant fun s => ∃ phase current, Inv phase current s
  · exact ⟨_, _, inv_init⟩
  · rintro state next action _ ⟨phase, current, inv⟩ stepped
    exact inv.moves (moves_of_step stepped)

/-- Every executor has one task at a time, and every task is executed once. -/
structure ExecutorsSafe (s : State) : Prop where
  /-- At most one of the tasks an executor was handed out for is not completed. -/
  single : ∀ e t u, (e, t) ∈ s.handed → (e, u) ∈ s.handed → t ∉ s.completed → u ∉ s.completed →
    t = u
  /-- No task is handed out twice. -/
  handedOnce : (s.handed.map Prod.snd).Nodup
  /-- `add_task` overwrites no task. -/
  vacant : ∀ c t e, s.callers c = .storing t e → (s.executors e).task = none
  executedOnce : s.executed.Nodup
  finishedOnce : s.finished.Nodup

theorem Inv.current_of_handed (inv : Inv phase current s) {e t : Nat} (handed : (e, t) ∈ s.handed)
    (open_ : t ∉ s.completed) : current e = some t := by
  rcases (inv.tasks t).handed e handed with ⟨stage, there⟩
  apply (inv.tasks t).active e stage there
  rintro rfl
  exact open_ ((inv.tasks t).completed.mpr (by rw [there]; rfl))

theorem Inv.safe (inv : Inv phase current s) : ExecutorsSafe s where
  single e t u first second openFirst openSecond := by
    have left := inv.current_of_handed first openFirst
    have right := inv.current_of_handed second openSecond
    exact Option.some.inj (left.symm.trans right)
  handedOnce := inv.handedOnce
  vacant c t e here := by
    have mine := inv.callers c
    rw [here] at mine
    have isCurrent := (inv.tasks t).active e _ mine.1 nofun
    cases task : (s.executors e).task with
    | none => rfl
    | some u =>
        rcases (inv.executors e).assigned u task with ⟨isAssigned, there⟩
        cases isCurrent.symm.trans isAssigned
        have same := mine.1.symm.trans there
        cases pc : (s.executors e).pc <;> rw [pc] at same <;> cases same
  executedOnce := inv.executedOnce
  finishedOnce := inv.finishedOnce

theorem executorsSafe_of_reachable {autoDelete : Nat → Bool}
    (reachable : (system autoDelete).Reachable s) : ExecutorsSafe s := by
  rcases inv_of_reachable reachable with ⟨phase, current, inv⟩
  exact inv.safe

/-- The caller 0 passes a task, and the executor that is created for it executes it. -/
def firstTask : List Action :=
  [.submit 0, .caller 0, .caller 0, .caller 0, .caller 0, .caller 0, .caller 0, .caller 0,
    .executor 0, .executor 0, .executor 0, .executor 0, .executor 0, .executor 0, .executor 0,
    .executor 0, .executor 0]

/-- The same executor is handed to a second caller, which is about to store its task. -/
theorem executorsSafe_reused : ∃ s, (system fun _ => true).Reachable s ∧
    s.callers 1 = .storing 1 0 ∧ s.handed = [(0, 0), (0, 1)] ∧ s.finished = [0] ∧
      ExecutorsSafe s := by
  have run : ((system fun _ => true).exec (firstTask ++
      [.submit 1, .caller 1, .caller 1, .caller 1, .caller 1, .caller 1, .caller 1])
        (system fun _ => true).init).any
      (fun s => s.callers 1 == .storing 1 0 && s.handed == [(0, 0), (0, 1)] &&
        s.finished == [0]) = true := by
    decide
  obtain ⟨s, reachable, test⟩ := System.exists_reachable_of_exec run
  simp only [Bool.and_eq_true, beq_iff_eq] at test
  exact ⟨s, reachable, test.1.1, test.1.2, test.2, executorsSafe_of_reachable reachable⟩

end LibTasks.Exec

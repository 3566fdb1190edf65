import LibTasks.Foundation.Accounts
import LibTasks.Lifecycle.Model

/-!
# Where a task is

Every task that was created is in exactly one place until it is finished: the user has it,
its watcher is active, or a functor, an event or a call of `exec_event_handler` has its
pointer.  A task that was finished waits for its `cleanup_task` or for the functor of
`dispose`, until it is deleted.  The places are counted, and no step changes the count.
-/

namespace LibTasks.Lifecycle

open LibTasks.Foundation
open LibTasks.Net.HttpSender (Mode)

variable {n m : Nat}

/-! ## Places -/

/-- How far a task is. -/
inductive Stage where
  /-- An `io_task_base` that was not finished. -/
  | io
  /-- Another task that was not finished. -/
  | plain
  /-- A `cleanup_task` will dispose the task. -/
  | cleaning
  /-- A functor will delete the task. -/
  | disposing
  deriving DecidableEq, Repr

def Kind.stage : Kind → Stage
  | .io => .io
  | .timer | .cleanup _ | .disk => .plain

section Tokens

variable (t : Nat) (g : Stage)

/-- A pointer to the task. -/
def Ref.own (r : Ref) : Nat := if r.id = t ∧ r.kind.stage = g then 1 else 0

/-- A `cleanup_task` for the task. -/
def Ref.target (r : Ref) : Nat :=
  match r.kind with
  | .cleanup d => if d = t ∧ g = .cleaning then 1 else 0
  | .io | .timer | .disk => 0

def Ref.tokens (r : Ref) : Nat := r.own t g + r.target t g

def Func.tokens : Func n → Nat
  | .start r | .add r _ | .addEvent r => r.tokens t g
  | .dispose d => if d = t ∧ g = .disposing then 1 else 0
  | .stop _ | .update _ | .other => 0

/-- A `cleanup_task` that has returned `false` has called `dispose`. -/
def Frame.tokens (frame : Frame n) : Nat :=
  match frame.result with
  | none | some true => frame.task.tokens t g
  | some false => frame.task.own t g

/-- The watcher of a task is active until `stop_watcher` was called. -/
def Point.tokens : Point n → Nat
  | .addEvent r => r.tokens t g
  | .drain _ rest => total (Func.tokens t g) rest
  | .away | .loop | .fired _ => 0

def Call.tokens : Call n → Nat
  | .test _ f | .direct f | .push _ f => f.tokens t g
  | .idle => 0

def Thread.tokens (x : Thread n) : Nat :=
  x.point.tokens t g + total (Frame.tokens t g) x.frames + x.call.tokens t g +
    total (Ref.tokens t g) x.events

/-- The number of places where a task is. -/
def State.tokens (s : State n m) : Nat :=
  total (fun entry => entry.1.tokens t g) s.watchers + total (Ref.tokens t g) s.owned +
    (∑ q, total (Func.tokens t g) (s.queues q)) + ∑ th, (s.threads th).tokens t g

section Constructors

variable (r : Ref) (w : Fin n) (f : Func n) (d : Nat)

@[simp] theorem tokens_start : (Func.start r : Func n).tokens t g = r.tokens t g := rfl

@[simp] theorem tokens_add : (Func.add r w).tokens t g = r.tokens t g := rfl

@[simp] theorem tokens_addEvent : (Func.addEvent r : Func n).tokens t g = r.tokens t g := rfl

@[simp] theorem tokens_stop : (Func.stop d : Func n).tokens t g = 0 := rfl

@[simp] theorem tokens_update : (Func.update d : Func n).tokens t g = 0 := rfl

@[simp] theorem tokens_other : (Func.other : Func n).tokens t g = 0 := rfl

@[simp] theorem tokens_idle : (Call.idle : Call n).tokens t g = 0 := rfl

@[simp] theorem tokens_test : (Call.test w f).tokens t g = f.tokens t g := rfl

@[simp] theorem tokens_direct : (Call.direct f).tokens t g = f.tokens t g := rfl

@[simp] theorem tokens_pushing : (Call.push w f).tokens t g = f.tokens t g := rfl

@[simp] theorem tokens_away : (Point.away : Point n).tokens t g = 0 := rfl

@[simp] theorem tokens_loop : (Point.loop : Point n).tokens t g = 0 := rfl

@[simp] theorem tokens_fired : (Point.fired r : Point n).tokens t g = 0 := rfl

@[simp] theorem tokens_adding : (Point.addEvent r : Point n).tokens t g = r.tokens t g := rfl

@[simp] theorem tokens_drain (rest : List (Func n)) :
    (Point.drain w rest).tokens t g = total (Func.tokens t g) rest := rfl

@[simp] theorem tokens_running (updated : Bool) :
    (Frame.mk r w none updated).tokens t g = r.tokens t g := rfl

end Constructors

end Tokens

section Changes

variable (s : State n m) (t : Nat) (g : Stage)

/-- What is taken from a thread or given to it is taken from the state or given to it. -/
theorem tokens_setThread {th : ThreadId n m} {x : Thread n} (taken given : Nat)
    (exchange : x.tokens t g + taken = (s.threads th).tokens t g + given) :
    (s.setThread th x).tokens t g + taken = s.tokens t g + given := by
  have change := sum_update (Thread.tokens t g) s.threads th x
  simp only [State.tokens, State.setThread]
  omega

theorem tokens_push (w : Fin n) (f : Func n) :
    (s.push w f).tokens t g = s.tokens t g + f.tokens t g := by
  have change := sum_update (total (Func.tokens t g)) s.queues w (s.queues w ++ [f])
  rw [total_append, total_cons, total_nil] at change
  simp only [State.tokens, State.push]
  omega

@[simp] theorem tokens_setTask (u : Nat) (x : Task n) :
    (s.setTask u x).tokens t g = s.tokens t g := rfl

@[simp] theorem tokens_modify (u : Nat) (change : Task n → Task n) :
    (s.modify u change).tokens t g = s.tokens t g := rfl

@[simp] theorem tokens_touch (u : Nat) (loop : Fin n) :
    (s.touch u loop).tokens t g = s.tokens t g := rfl

theorem tokens_owned (r : Ref) :
    { s with owned := s.owned ++ [r] }.tokens t g = s.tokens t g + r.tokens t g := by
  simp only [State.tokens, total_append, total_cons, total_nil]
  omega

theorem tokens_erase {r : Ref} (owned : r ∈ s.owned) :
    { s with owned := s.owned.erase r }.tokens t g + r.tokens t g = s.tokens t g := by
  have change := total_erase (Ref.tokens t g) owned
  simp only [State.tokens]
  omega

theorem tokens_evStart {r : Ref} (loop : Fin n) (inactive : s.isActive r.id = false) :
    (s.evStart r loop).tokens t g = s.tokens t g + r.tokens t g := by
  simp only [State.evStart, inactive, Bool.false_eq_true, ↓reduceIte, State.tokens, total_append,
    total_cons, total_nil]
  omega

end Changes

/-! ## The books -/

/-- What the books say about a task. -/
def Task.books (x : Task n) : Nat × Nat × Nat × Bool :=
  (x.finishes, x.deletes, x.freed, x.canDispose)

theorem Task.assignWorker_books {mode : Mode} {x y : Task n} {w : Fin n}
    (assigned : x.assignWorker mode w = some y) : y.books = x.books :=
  Task.assignWorker_field Task.books (fun _ _ => rfl) assigned

/-- The books of one task are right, where `count` says how often it is at each stage. -/
structure Balanced (count : Stage → Nat) (x : Task n) (made : Bool) : Prop where
  unfinished : count .io + count .plain + x.finishes + x.freed = made.toNat
  finished : count .cleaning + count .disposing + x.deletes = x.finishes
  /-- A task whose disposal is disabled is not deleted, and no functor will delete it. -/
  interlock : x.canDispose = false →
    count .plain = 0 ∧ count .disposing = 0 ∧ x.deletes = 0 ∧ x.freed = 0

theorem Balanced.congr {count count' : Stage → Nat} {x x' : Task n} {made : Bool}
    (ok : Balanced count x made) (counts : ∀ g, count' g = count g) (books : x'.books = x.books) :
    Balanced count' x' made := by
  simp only [Task.books, Prod.mk.injEq] at books
  rw [funext counts]
  rcases books with ⟨finishes, deletes, freed, canDispose⟩
  constructor
  · rw [finishes, freed]
    exact ok.unfinished
  · rw [finishes, deletes]
    exact ok.finished
  · rw [deletes, freed, canDispose]
    exact ok.interlock

/-- A task that was not finished. -/
theorem Balanced.of_unfinished {count : Stage → Nat} {x : Task n} {made : Bool}
    (ok : Balanced count x made) (positive : 0 < count .io + count .plain) :
    count .io + count .plain = 1 ∧ made = true ∧ x.finishes = 0 ∧ x.freed = 0 ∧
      count .cleaning = 0 ∧ count .disposing = 0 ∧ x.deletes = 0 := by
  have unfinished := ok.unfinished
  have finished := ok.finished
  have bound := Bool.toNat_le made
  refine ⟨by omega, ?_, by omega, by omega, by omega, by omega, by omega⟩
  cases made with
  | true => rfl
  | false =>
      rw [Bool.toNat_false] at unfinished
      omega

/-- A task that waits for being deleted. -/
theorem Balanced.of_finished {count : Stage → Nat} {x : Task n} {made : Bool}
    (ok : Balanced count x made) (positive : 0 < x.finishes) :
    count .io = 0 ∧ count .plain = 0 ∧ x.finishes = 1 ∧ x.freed = 0 := by
  have unfinished := ok.unfinished
  have bound := Bool.toNat_le made
  omega

/-- The books are right.  What is in no place at the moment is in the hand of the function that
is executed. -/
def Accounts (hand : Nat → Stage → Nat) (s : State n m) : Prop :=
  ∀ t, Balanced (fun g => s.tokens t g + hand t g) (s.tasks t) (decide (t < s.made))

/-- The hand is empty. -/
def nothing : Nat → Stage → Nat := fun _ _ => 0

namespace Accounts

variable {s s' : State n m} {hand hand' : Nat → Stage → Nat}

/-- Tasks were moved from place to place. -/
theorem transfer (ok : Accounts hand s) (made : s'.made = s.made)
    (books : ∀ t, (s'.tasks t).books = (s.tasks t).books)
    (tokens : ∀ t g, s'.tokens t g + hand' t g = s.tokens t g + hand t g) :
    Accounts hand' s' := by
  intro t
  rw [made]
  exact (ok t).congr (tokens t) (books t)

/-- The books of one task change. -/
theorem change (ok : Accounts hand s) (t : Nat) {change : Task n → Task n}
    (others : ∀ u, u ≠ t → ∀ g, hand' u g = hand u g)
    (here : Balanced (fun g => s.tokens t g + hand t g) (s.tasks t) (decide (t < s.made)) →
      Balanced (fun g => s.tokens t g + hand' t g) (change (s.tasks t)) (decide (t < s.made))) :
    Accounts hand' (s.modify t change) := by
  intro u
  rw [State.modify_tasks]
  by_cases same : u = t
  · subst same
    rw [if_pos rfl]
    exact here (ok u)
  · rw [if_neg same]
    refine (ok u).congr (fun g => ?_) rfl
    rw [others u same g]
    rfl

theorem setThread (ok : Accounts hand s) {th : ThreadId n m} {x : Thread n}
    (exchange : ∀ t g, x.tokens t g + hand' t g = (s.threads th).tokens t g + hand t g) :
    Accounts hand' (s.setThread th x) :=
  ok.transfer rfl (fun _ => rfl) fun t g => tokens_setThread s t g _ _ (exchange t g)

theorem setTask (ok : Accounts hand s) {u : Nat} {x : Task n}
    (kept : x.books = (s.tasks u).books) : Accounts hand (s.setTask u x) := by
  refine ok.transfer rfl (fun t => ?_) fun _ _ => rfl
  simp only [State.setTask, Function.update_apply]
  split
  · next same => rw [kept, same]
  · rfl

theorem modify (ok : Accounts hand s) (u : Nat) (change : Task n → Task n)
    (kept : ∀ x, (change x).books = x.books) : Accounts hand (s.modify u change) :=
  ok.setTask (kept (s.tasks u))

theorem use (ok : Accounts hand s) (u : Nat) : Accounts hand (s.modify u Task.use) :=
  ok.modify u Task.use fun _ => rfl

/-- `m_rr_worker_id` is in no account. -/
theorem turn (ok : Accounts hand s) (roundRobin : Nat) :
    Accounts hand { s with roundRobin := roundRobin } :=
  ok.transfer rfl (fun _ => rfl) fun _ _ => rfl

theorem push {f : Func n} (ok : Accounts (fun t g => f.tokens t g) s) (w : Fin n) :
    Accounts nothing (s.push w f) :=
  ok.transfer rfl (fun _ => rfl) fun t g => tokens_push s t g w f

/-- `tasks_async_callback` takes the functors of a queue. -/
theorem takeQueue (ok : Accounts nothing s) (q : Fin n) :
    Accounts (fun t g => total (Func.tokens t g) (s.queues q))
      { s with queues := Function.update s.queues q [] } := by
  refine ok.transfer rfl (fun _ => rfl) fun t g => ?_
  have change := sum_update (total (Func.tokens t g)) s.queues q []
  simp only [State.tokens, total_nil, nothing] at change ⊢
  omega

theorem erase (ok : Accounts nothing s) {r : Ref} (owned : r ∈ s.owned) :
    Accounts (fun t g => r.tokens t g) { s with owned := s.owned.erase r } :=
  ok.transfer rfl (fun _ => rfl) fun t g => tokens_erase s t g owned

theorem giveBack {r : Ref} (ok : Accounts (fun t g => r.tokens t g) s) :
    Accounts nothing { s with owned := s.owned ++ [r] } :=
  ok.transfer rfl (fun _ => rfl) fun t g => tokens_owned s t g r

theorem startWatcher {r : Ref} (ok : Accounts (fun t g => r.tokens t g) s) {th : ThreadId n m}
    (w : Fin n) (idle : (s.threads th).call = .idle) :
    Accounts nothing (s.startWatcher th w r) := by
  rcases s.startWatcher_cases th w r with ⟨_, eq⟩ | ⟨_, eq⟩ | ⟨_, _, eq⟩ <;> rw [eq]
  · exact (ok.use r.id).giveBack
  · apply (ok.use r.id).setThread
    intro t g
    simp [Thread.tokens, idle, nothing]
    omega
  · apply ((ok.use r.id).modify r.id Task.clearImmediate fun _ => rfl).setThread
    intro t g
    simp [Thread.tokens, nothing]
    omega

end Accounts

/-! ## Exclusive pointers -/

section Frames

variable {frame : Frame n} (t : Nat) (g : Stage)

theorem Frame.tokens_running (running : frame.result = none) :
    frame.tokens t g = frame.task.tokens t g := by
  rw [Frame.tokens, running]

theorem Frame.tokens_continues (returned : frame.result = some true) :
    frame.tokens t g = frame.task.tokens t g := by
  rw [Frame.tokens, returned]

theorem Frame.tokens_ended (returned : frame.result = some false) :
    frame.tokens t g = frame.task.own t g := by
  rw [Frame.tokens, returned]

end Frames

/-- A pointer is counted as unfinished. -/
theorem Ref.own_add (r : Ref) : r.own r.id .io + r.own r.id .plain = 1 := by
  cases kind : r.kind <;> simp [Ref.own, kind, Kind.stage]

theorem Ref.tokens_add (r : Ref) : r.tokens r.id .io + r.tokens r.id .plain = 1 := by
  have own := r.own_add
  cases kind : r.kind <;> simpa [Ref.tokens, Ref.target, kind] using own

theorem Ref.tokens_eq_own {r : Ref} (kind : ∀ d, r.kind ≠ .cleanup d) (t : Nat) (g : Stage) :
    r.tokens t g = r.own t g := by
  cases kind' : r.kind with
  | cleanup d => exact absurd kind' (kind d)
  | io | timer | disk => simp [Ref.tokens, Ref.target, kind']

/-- An active watcher counts for its task. -/
theorem tokens_of_active {s : State n m} {entry : Ref × Fin n} (member : entry ∈ s.watchers) :
    1 ≤ s.tokens entry.1.id .io + s.tokens entry.1.id .plain := by
  have own := entry.1.tokens_add
  have io := le_total_of_mem (fun other => other.1.tokens entry.1.id .io) member
  have plain := le_total_of_mem (fun other => other.1.tokens entry.1.id .plain) member
  simp only [State.tokens]
  omega

namespace Accounts

variable {s s' : State n m} {hand hand' : Nat → Stage → Nat}

/-- A task whose pointer is in the hand has no active watcher. -/
theorem inactive {r : Ref} (ok : Accounts (fun t g => r.tokens t g) s) :
    s.isActive r.id = false := by
  rw [State.isActive, List.any_eq_false]
  intro entry member same
  have active := tokens_of_active member
  have own := r.tokens_add
  rw [beq_iff_eq.mp same] at active
  have once := (ok r.id).of_unfinished
  dsimp only at once
  have alone := (once (by omega)).1
  omega

/-- A task that was finished has no active watcher. -/
theorem inactive_of_finished (ok : Accounts hand s) {t : Nat}
    (finished : 0 < (s.tasks t).finishes) {entry : Ref × Fin n} (member : entry ∈ s.watchers) :
    entry.1.id ≠ t := by
  rintro rfl
  have active := tokens_of_active member
  have none := (ok entry.1.id).of_finished finished
  omega

theorem touch (ok : Accounts hand s) (u : Nat) (loop : Fin n) :
    Accounts hand (s.touch u loop) :=
  ok.modify u _ fun _ => rfl

theorem evStart {r : Ref} (ok : Accounts (fun t g => r.tokens t g) s) (loop : Fin n) :
    Accounts nothing (s.evStart r loop) := by
  refine ok.transfer ?_ (fun t => ?_) fun t g => tokens_evStart s t g loop ok.inactive
  all_goals rw [State.evStart, ok.inactive]; rfl

/-- Stopping the watcher of a task that was finished changes nothing. -/
theorem evStop (ok : Accounts hand s) {t : Nat} (finished : 0 < (s.tasks t).finishes)
    (loop : Fin n) : Accounts hand (s.evStop t loop) := by
  have same : s.watchers.filter (fun entry => entry.1.id != t) = s.watchers := by
    rw [List.filter_eq_self]
    intro entry member
    exact bne_iff_ne.mpr (ok.inactive_of_finished finished member)
  rw [State.evStop, same]
  exact ok.touch t loop

/-- The functor of `dispose` is in the hand. -/
theorem delete {t : Nat} (ok : Accounts (fun u g => (Func.dispose t : Func n).tokens u g) s) :
    Accounts nothing (s.modify t Task.delete) := by
  apply ok.change t
  · intro u other g
    simp [nothing, Func.tokens, Ne.symm other]
  · intro balanced
    have unfinished := balanced.unfinished
    have finished := balanced.finished
    have interlock := balanced.interlock
    simp only [Func.tokens, true_and, reduceCtorEq, ↓reduceIte] at unfinished finished interlock
    constructor
    · exact unfinished
    · simp only [nothing, Task.delete]
      omega
    · intro disabled
      exact (interlock disabled).2.1.elim

/-- A functor was executed. -/
theorem exec [NeZero n] {mode : Mode} {i : Fin n} {f : Func n}
    (ok : Accounts (fun t g => f.tokens t g) s) (noStop : ∀ t, f ≠ .stop t)
    (executed : s.exec mode i f = some s') : Accounts nothing s' := by
  cases f with
  | start r =>
      simp only [State.exec, Option.some.injEq] at executed
      exact executed ▸ (ok.use r.id).evStart _
  | stop t => exact absurd rfl (noStop t)
  | update t =>
      simp only [State.exec, Option.some.injEq] at executed
      exact executed ▸ (ok.use t).touch t _
  | dispose t =>
      simp only [State.exec, Option.some.injEq] at executed
      have finished := (ok t).finished
      simp only [Func.tokens, true_and, ↓reduceIte] at finished
      refine executed ▸ ((ok.use t).evStop ?_ _).delete
      rw [s.modify_field t Task.use Task.finishes (fun _ => rfl)]
      omega
  | add r w =>
      simp only [State.exec, Option.map_eq_some_iff] at executed
      rcases executed with ⟨x, assigned, rfl⟩
      exact (ok.setTask ((Task.assignWorker_books assigned).trans rfl)).evStart _
  | addEvent r =>
      simp only [State.exec, Option.some.injEq] at executed
      refine executed ▸ ok.setThread fun t g => ?_
      simp [Thread.tokens, nothing]
      omega
  | other =>
      simp only [State.exec, Option.some.injEq] at executed
      exact executed ▸ ok.transfer rfl (fun _ => rfl) fun _ _ => rfl

theorem addEventTask [NeZero n] {mode : Mode} {th : ThreadId n m} {r : Ref}
    (ok : Accounts (fun t g => r.tokens t g) s) (idle : (s.threads th).call = .idle)
    (added : s.addEventTask mode th r = some s') : Accounts nothing s' := by
  simp only [State.addEventTask, Option.map_eq_some_iff] at added
  rcases added with ⟨x, assigned, rfl⟩
  refine startWatcher ?_ _ ?_
  · exact (ok.turn (s.nextRoundRobin mode r.id)).setTask
      ((Task.assignWorker_books assigned).trans rfl)
  · exact idle

/-- A task is created, and its pointer is in the hand. -/
theorem create (ok : Accounts hand s) {x : Task n} (blank : x.books = (0, 0, 0, true))
    {r : Ref} (fresh : r.id = s.made) :
    Accounts (fun t g => r.own t g + hand t g)
      ({ s with made := s.made + 1 }.setTask s.made x) := by
  intro t
  change Balanced (fun g => s.tokens t g + (r.own t g + hand t g))
    (Function.update s.tasks s.made x t) (decide (t < s.made + 1))
  rw [Function.update_apply]
  by_cases new : t = s.made
  · subst new
    have unfinished := (ok s.made).unfinished
    have finished := (ok s.made).finished
    have own := r.own_add
    simp only [Nat.lt_irrefl, decide_false, Bool.toNat_false] at unfinished
    simp only [Task.books, Prod.mk.injEq] at blank
    rw [fresh] at own
    rw [if_pos rfl, decide_eq_true (Nat.lt_succ_self s.made)]
    constructor
    · rw [Bool.toNat_true]
      omega
    · have late (g : Stage) (stage : r.kind.stage ≠ g) : r.own s.made g = 0 := by
        simp [Ref.own, stage]
      have cleaning := late .cleaning (by cases r.kind <;> simp [Kind.stage])
      have disposing := late .disposing (by cases r.kind <;> simp [Kind.stage])
      omega
    · intro disabled
      rw [blank.2.2.2] at disabled
      cases disabled
  · have others (g : Stage) : r.own t g = 0 := by
      simp [Ref.own, fresh, Ne.symm new]
    rw [if_neg new, decide_eq_decide.mpr (Nat.lt_succ_iff_lt_or_eq.trans (or_iff_left new))]
    refine (ok t).congr (fun g => ?_) rfl
    rw [others g, Nat.zero_add]

section Finish

variable {r : Ref}

/-- A disposable task was finished, and the functor of `dispose` is in the hand. -/
theorem finish (ok : Accounts (fun t g => r.own t g) s)
    (enabled : (s.tasks r.id).canDispose = true) :
    Accounts (fun t g => (Func.dispose r.id : Func n).tokens t g) (s.modify r.id Task.finish) := by
  apply ok.change r.id
  · intro u other g
    simp [Func.tokens, Ref.own, Ne.symm other]
  · intro balanced
    have own := r.own_add
    have before := balanced.of_unfinished
    have unfinished := balanced.unfinished
    rcases before (by omega) with ⟨once, made, finishes, freed, cleaning, disposing, deletes⟩
    constructor
    · simp only [Func.tokens, true_and, reduceCtorEq, ↓reduceIte, Task.finish]
      omega
    · simp only [Func.tokens, true_and, reduceCtorEq, ↓reduceIte, Task.finish]
      omega
    · intro disabled
      rw [Task.finish, enabled] at disabled
      cases disabled

/-- A task that cannot be disposed was finished, and its `cleanup_task` is in the hand. -/
theorem finish_later (ok : Accounts (fun t g => r.own t g) s) (kind : r.kind = .io)
    (disabled : (s.tasks r.id).canDispose = false) (c : Nat) (kept : Bool) :
    Accounts (fun t g => (Ref.mk c (.cleanup r.id) kept).target t g)
      (s.modify r.id Task.finish) := by
  apply ok.change r.id
  · intro u other g
    simp [Ref.target, Ref.own, Ne.symm other]
  · intro balanced
    have own := r.own_add
    have before := balanced.of_unfinished
    have unfinished := balanced.unfinished
    have locked := balanced.interlock disabled
    rcases before (by omega) with ⟨once, made, finishes, freed, cleaning, disposing, deletes⟩
    simp only [Ref.own, kind, Kind.stage, true_and, reduceCtorEq, ↓reduceIte] at *
    constructor
    · simp only [Ref.target, true_and, reduceCtorEq, ↓reduceIte, Task.finish]
      omega
    · simp only [Ref.target, true_and, reduceCtorEq, ↓reduceIte, Task.finish]
      omega
    · intro _
      simp only [Ref.target, true_and, reduceCtorEq, ↓reduceIte, Task.finish]
      omega

theorem removeEventTask [NeZero n] {mode : Mode} {th : ThreadId n m}
    (ok : Accounts (fun t g => r.own t g) s) (idle : (s.threads th).call = .idle) :
    Accounts nothing ((s.modify r.id Task.finish).removeEventTask mode th r) := by
  have kept : ((s.modify r.id Task.finish).tasks r.id).canDispose = (s.tasks r.id).canDispose :=
    s.modify_field r.id Task.finish Task.canDispose (fun _ => rfl) r.id
  cases kind : r.kind with
  | io =>
      simp only [State.removeEventTask, kind]
      split
      · next enabled =>
          apply ((ok.finish (kept ▸ enabled)).turn _).setThread
          intro t g
          simp [Thread.tokens, idle, nothing]
          omega
      · next disabled =>
          have later := ok.finish_later kind
            (kept ▸ Bool.eq_false_of_not_eq_true disabled) s.made false
          refine startWatcher ?_ _ ?_
          · exact (later.turn ((s.modify r.id Task.finish).nextRoundRobin mode r.id)).create
              (r := ⟨s.made, .cleanup r.id, false⟩) rfl rfl
          · exact idle
  | timer | cleanup d | disk =>
      have enabled : (s.tasks r.id).canDispose = true := by
        by_contra disabled
        have none := ((ok r.id).interlock (Bool.eq_false_of_not_eq_true disabled)).1
        simp [Ref.own, kind, Kind.stage] at none
      simp only [State.removeEventTask, kind]
      exact (ok.finish enabled).delete

end Finish

/-- A `cleanup_task` calls `dispose`. -/
theorem disposes {c : Ref} {d : Nat} (kind : c.kind = .cleanup d)
    (ok : Accounts (fun t g => c.target t g) s) (enabled : (s.tasks d).canDispose = true) :
    Accounts (fun t g => (Func.dispose d : Func n).tokens t g) s := by
  intro t
  by_cases same : t = d
  · subst same
    have unfinished := (ok t).unfinished
    have finished := (ok t).finished
    simp only [Ref.target, kind, true_and, reduceCtorEq, ↓reduceIte] at unfinished finished
    refine ⟨?_, ?_, fun disabled => ?_⟩
    · simp only [Func.tokens, true_and, reduceCtorEq, ↓reduceIte]
      omega
    · simp only [Func.tokens, true_and, reduceCtorEq, ↓reduceIte]
      omega
    · rw [enabled] at disabled
      cases disabled
  · refine (ok t).congr (fun g => ?_) rfl
    simp [Func.tokens, Ref.target, kind, Ne.symm same]

theorem free {r : Ref} (ok : Accounts (fun t g => r.tokens t g) s)
    (kind : ∀ d, r.kind ≠ .cleanup d) (enabled : (s.tasks r.id).canDispose = true) :
    Accounts nothing (s.modify r.id Task.free) := by
  apply ok.change r.id
  · intro u other g
    simp [nothing, Ref.tokens_eq_own kind, Ref.own, Ne.symm other]
  · intro balanced
    have once := r.tokens_add
    have before := balanced.of_unfinished
    have unfinished := balanced.unfinished
    rcases before (by omega) with ⟨single, made, finishes, freed, cleaning, disposing, deletes⟩
    constructor
    · simp only [nothing, Task.free, Task.use]
      omega
    · simp only [nothing, Task.free, Task.use]
      omega
    · intro disabled
      rw [Task.free, Task.use, enabled] at disabled
      cases disabled

theorem enableDispose (ok : Accounts hand s) (t : Nat) :
    Accounts hand (s.modify t Task.enableDispose) := by
  apply ok.change t (fun _ _ _ => rfl)
  intro balanced
  exact ⟨balanced.unfinished, balanced.finished, fun disabled => Bool.noConfusion disabled⟩

/-- A task is disabled while it is an unfinished `io_task_base`. -/
theorem disableDispose (ok : Accounts hand s) {t : Nat}
    (running : 0 < s.tokens t .io + hand t .io) :
    Accounts hand (s.modify t Task.disableDispose) := by
  apply ok.change t (fun _ _ _ => rfl)
  intro balanced
  have before := balanced.of_unfinished
  rcases before (by omega) with ⟨once, made, finishes, freed, cleaning, disposing, deletes⟩
  refine ⟨balanced.unfinished, balanced.finished, fun _ => ⟨?_, disposing, deletes, freed⟩⟩
  omega

/-- The only active watcher of a task is stopped. -/
theorem evStop_active {r : Ref} {l : Fin n} (ok : Accounts nothing s)
    (active : (r, l) ∈ s.watchers) (loop : Fin n) :
    Accounts (fun t g => r.tokens t g) (s.evStop r.id loop) := by
  refine (ok.touch r.id loop).transfer rfl (fun _ => rfl) fun t g => ?_
  have removed : total (fun entry => entry.1.tokens t g)
      (s.watchers.filter fun entry => entry.1.id != r.id) + r.tokens t g =
        total (fun entry => entry.1.tokens t g) s.watchers := by
    apply total_filter_of_unique
      (fun entry => entry.1.tokens r.id .io + entry.1.tokens r.id .plain) ?_ ?_ active
    · exact bne_self_eq_false r.id
    · intro entry member dropped
      have own := entry.1.tokens_add
      rw [bne_eq_false_iff_eq.mp dropped] at own
      omega
    · rw [total_add]
      have unfinished := (ok r.id).unfinished
      have bound := Bool.toNat_le (decide (r.id < s.made))
      simp only [State.tokens] at unfinished
      omega
  simp only [State.tokens, State.evStop, nothing] at removed ⊢
  change _ = total (fun entry => entry.1.tokens t g) s.watchers + _ + _ + _ + 0
  omega

end Accounts

end LibTasks.Lifecycle

import LibTasks.Lifecycle.Places

/-!
# The end of a task

What the books say about every reachable state: a task is finished and deleted at most once,
nobody else has a task whose handler runs, a task whose disposal is disabled is not deleted,
and when nothing is under way every task is with the user, active or deleted.
-/

namespace LibTasks.Lifecycle

open LibTasks.Foundation
open LibTasks.Net.HttpSender (Mode)

variable {n m : Nat} [NeZero n] {mode : Mode} {s : State n m}

/-! ## Some runs -/

/-- A connection. -/
def connection : Ref := ⟨0, .io, false⟩

/-- The `cleanup_task` that disposes it. -/
def cleaner : Ref := ⟨1, .cleanup 0, false⟩

/-- The first worker handles an event of a connection after the second one became the leader. -/
def handledRun : List (Action 2 1) :=
  [.new .io false false, .addEventTask (.inr 0) connection, .call (.inr 0), .call (.inr 0),
    .enterLoop 0, .drain 0 0, .worker 0, .worker 0, .fire 0 connection, .worker 0, .worker 0,
    .leaveLoop 0, .promote 0 1, .handle 0]

/-- The handler changes the events, forbids the disposal and ends the task. -/
def disabledRun : List (Action 2 1) :=
  handledRun ++ [Action.update (.inl 0), Action.call (.inl 0), Action.call (.inl 0),
    Action.disableDispose (.inl 0), Action.handlerReturn (.inl 0) false, Action.frame (.inl 0),
    Action.call (.inl 0), Action.call (.inl 0)]

/-- The `cleanup_task` tries twice. -/
def cleanupRun : List (Action 2 1) :=
  disabledRun ++ [Action.enterLoop 1, Action.drain 1 0, Action.worker 1, Action.worker 1,
    Action.worker 1, Action.fire 1 cleaner, Action.worker 1, Action.worker 1, Action.leaveLoop 1,
    Action.handle 1, Action.frame (.inl 1), Action.frame (.inl 1), Action.call (.inl 1),
    Action.call (.inl 1), Action.enableDispose 0, Action.enterLoop 1, Action.fire 1 cleaner,
    Action.worker 1, Action.worker 1, Action.leaveLoop 1, Action.handle 1, Action.frame (.inl 1),
    Action.call (.inl 1), Action.call (.inl 1), Action.frame (.inl 1)]

/-- A connection is handled once in multi loop mode. -/
def firstEvent : List (Action 2 1) :=
  [.new .io false false, .addEventTask (.inr 0) connection, .call (.inr 0), .call (.inr 0),
    .enterLoop 0, .drain 0 0, .worker 0, .worker 0, .fire 0 connection, .worker 0, .worker 0,
    .leaveLoop 0, .handle 0]

/-- The watcher is started again, and the connection is handled once more. -/
def nextEvent : List (Action 2 1) :=
  [.handlerReturn (.inl 0) true, .frame (.inl 0), .call (.inl 0), .call (.inl 0), .enterLoop 0,
    .fire 0 connection, .worker 0, .worker 0, .leaveLoop 0, .handle 0]

/-! ## Once -/

/-- The finish functions of a task are called at most once, and the dispatcher deletes the task
at most once and only after that.  What the dispatcher finishes the user does not delete. -/
theorem deleted_once (reachable : (system (n := n) (m := m) mode).Reachable s) (t : Nat) :
    (s.tasks t).deletes ≤ (s.tasks t).finishes ∧
      (s.tasks t).finishes + (s.tasks t).freed ≤ 1 := by
  have unfinished := ((reachable_inv reachable).accounts t).unfinished
  have finished := ((reachable_inv reachable).accounts t).finished
  have bound := Bool.toNat_le (decide (t < s.made))
  omega

theorem deleted_once_cleanup : ∃ s : State 2 1, (system .singleLoop).Reachable s ∧
    (s.tasks 0).deletes = 1 ∧ (s.tasks 0).deletes ≤ (s.tasks 0).finishes ∧
      (s.tasks 0).finishes + (s.tasks 0).freed ≤ 1 := by
  have run : ((system (n := 2) (m := 1) .singleLoop).exec cleanupRun
      (system .singleLoop).init).any (fun s => (s.tasks 0).deletes == 1) = true := by
    decide +kernel
  rcases System.exists_reachable_of_exec run with ⟨s, reachable, deleted⟩
  exact ⟨s, reachable, beq_iff_eq.mp deleted, deleted_once reachable 0⟩

/-! ## At rest -/

/-- A thread is between two operations, and it has no event to handle. -/
def Thread.Quiet (x : Thread n) : Prop :=
  (x.point = .away ∨ x.point = .loop) ∧ x.frames = [] ∧ x.call = .idle ∧ x.events = []

/-- No functor, no event and no handler is under way. -/
def Quiet (s : State n m) : Prop := (∀ th, (s.threads th).Quiet) ∧ ∀ q, s.queues q = []

/-- How often the task is in the hands of the user, active, or to be disposed by an active
`cleanup_task`. -/
def restingPlaces (s : State n m) (t : Nat) : Nat :=
  s.owned.countP (fun r => r.id = t) + s.watchers.countP (fun entry => entry.1.id = t) +
    s.watchers.countP fun entry => entry.1.kind = .cleanup t

omit [NeZero n] in
theorem Thread.Quiet.tokens {x : Thread n} (quiet : x.Quiet) (t : Nat) (g : Stage) :
    x.tokens t g = 0 := by
  rcases quiet with ⟨point, frames, call, events⟩
  rcases point with point | point <;> simp [Thread.tokens, point, frames, call, events]

theorem Ref.unfinished_eq (r : Ref) (t : Nat) :
    r.tokens t .io + r.tokens t .plain = if r.id = t then 1 else 0 := by
  by_cases same : r.id = t
  · rw [if_pos same, ← same, r.tokens_add]
  · have target (g : Stage) (early : g ≠ .cleaning) : r.target t g = 0 := by
      cases kind : r.kind <;> simp [Ref.target, kind, early]
    simp [Ref.tokens, Ref.own, same, target]

theorem Ref.finished_eq (r : Ref) (t : Nat) :
    r.tokens t .cleaning + r.tokens t .disposing = if r.kind = .cleanup t then 1 else 0 := by
  cases kind : r.kind <;> simp [Ref.tokens, Ref.own, Ref.target, kind, Kind.stage]

omit [NeZero n] in
/-- At rest only the user and the loops have tasks. -/
theorem Quiet.tokens (quiet : Quiet s) (t : Nat) (g : Stage) :
    s.tokens t g =
      total (fun entry => entry.1.tokens t g) s.watchers + total (Ref.tokens t g) s.owned := by
  simp [State.tokens, quiet.2, (quiet.1 _).tokens]

/-- **No task is lost.**  When nothing is under way, each task that was created is in exactly one
place: the user has it, its watcher is active, an active `cleanup_task` will dispose it, or it
was deleted. -/
theorem no_task_lost (reachable : (system (n := n) (m := m) mode).Reachable s) (quiet : Quiet s)
    {t : Nat} (made : t < s.made) :
    restingPlaces s t + (s.tasks t).deletes + (s.tasks t).freed = 1 := by
  have inv := reachable_inv reachable
  have unfinished := (inv.accounts t).unfinished
  have finished := (inv.accounts t).finished
  have active := total_add (fun entry : Ref × Fin n => entry.1.tokens t .io)
    (fun entry => entry.1.tokens t .plain) s.watchers
  have owned := total_add (Ref.tokens t .io) (Ref.tokens t .plain) s.owned
  have cleaned := total_add (fun entry : Ref × Fin n => entry.1.tokens t .cleaning)
    (fun entry => entry.1.tokens t .disposing) s.watchers
  have late := total_add (Ref.tokens t .cleaning) (Ref.tokens t .disposing) s.owned
  have kept : s.owned.countP (fun r => r.kind = .cleanup t) = 0 := by
    rw [List.countP_eq_zero]
    intro r member
    simpa using inv.placed.owned r member t
  simp only [Ref.unfinished_eq, Ref.finished_eq, total_ite] at active owned cleaned late
  simp only [quiet.tokens, nothing, made, decide_true, Bool.toNat_true] at unfinished finished
  simp only [restingPlaces]
  omega

instance (x : Thread n) : Decidable x.Quiet :=
  inferInstanceAs (Decidable ((x.point = .away ∨ x.point = .loop) ∧ x.frames = [] ∧
    x.call = .idle ∧ x.events = []))

instance (s : State n m) : Decidable (Quiet s) :=
  inferInstanceAs (Decidable ((∀ th, (s.threads th).Quiet) ∧ ∀ q, s.queues q = []))

theorem no_task_lost_cleanup : ∃ s : State 2 1, (system .singleLoop).Reachable s ∧ Quiet s ∧
    1 < s.made ∧ restingPlaces s 1 + (s.tasks 1).deletes + (s.tasks 1).freed = 1 := by
  have run : ((system (n := 2) (m := 1) .singleLoop).exec cleanupRun
      (system .singleLoop).init).any (fun s => Quiet s ∧ 1 < s.made) = true := by
    decide +kernel
  rcases System.exists_reachable_of_exec run with ⟨s, reachable, rest⟩
  have quiet := of_decide_eq_true rest
  exact ⟨s, reachable, quiet.1, quiet.2, no_task_lost reachable quiet.1 quiet.2⟩

/-! ## Exclusive handling -/

section Alone

omit [NeZero n] in
theorem Frame.unfinished_eq (frame : Frame n) (t : Nat) :
    frame.tokens t .io + frame.tokens t .plain = if frame.task.id = t then 1 else 0 := by
  have own : frame.task.own t .io + frame.task.own t .plain =
      if frame.task.id = t then 1 else 0 := by
    by_cases same : frame.task.id = t
    · rw [if_pos same, ← same, frame.task.own_add]
    · simp [Ref.own, same]
  rw [Frame.tokens, Frame.tokens]
  split
  · exact frame.task.unfinished_eq t
  · exact frame.task.unfinished_eq t
  · exact own

/-- How often a thread has a task that was not finished. -/
def Thread.unfinished (t : Nat) (x : Thread n) : Nat := x.tokens t .io + x.tokens t .plain

omit [NeZero n] in
theorem Thread.unfinished_ge (t : Nat) (x : Thread n) :
    x.frames.countP (fun frame => frame.task.id = t) + x.events.countP (fun r => r.id = t) ≤
      x.unfinished t := by
  have frames := total_add (Frame.tokens t .io) (Frame.tokens t .plain) x.frames
  have events := total_add (Ref.tokens t .io) (Ref.tokens t .plain) x.events
  simp only [Frame.unfinished_eq, Ref.unfinished_eq, total_ite] at frames events
  simp only [Thread.unfinished, Thread.tokens]
  omega

/-- How often a queue starts the watcher of a task. -/
def startsIn (t : Nat) (queue : List (Func n)) : Nat :=
  queue.countP fun
    | .start r => r.id = t
    | _ => false

omit [NeZero n] in
theorem startsIn_le (t : Nat) (queue : List (Func n)) :
    startsIn t queue ≤ total (Func.tokens t .io) queue + total (Func.tokens t .plain) queue := by
  induction queue with
  | nil => exact Nat.le_refl 0
  | cons f rest ih =>
      rw [startsIn, List.countP_cons, total_cons, total_cons]
      simp only [startsIn] at ih
      cases f with
      | start r =>
          have own := r.unfinished_eq t
          simp only [tokens_start, decide_eq_true_eq]
          omega
      | stop | update | dispose | add | addEvent | other =>
          simp only [Bool.false_eq_true, ↓reduceIte]
          omega

/-- Where a task that was not finished can be. -/
theorem Inv.places_le (inv : Inv mode s) (t : Nat) :
    s.watchers.countP (fun entry => entry.1.id = t) + (∑ q, startsIn t (s.queues q)) +
      (∑ th, (s.threads th).unfinished t) + (s.tasks t).finishes + (s.tasks t).freed ≤ 1 := by
  have unfinished := (inv.accounts t).unfinished
  have bound := Bool.toNat_le (decide (t < s.made))
  have active := total_add (fun entry : Ref × Fin n => entry.1.tokens t .io)
    (fun entry => entry.1.tokens t .plain) s.watchers
  have queued : ∑ q, startsIn t (s.queues q) ≤
      ∑ q, (total (Func.tokens t .io) (s.queues q) + total (Func.tokens t .plain) (s.queues q)) :=
    Finset.sum_le_sum fun q _ => startsIn_le t (s.queues q)
  simp only [Ref.unfinished_eq, total_ite] at active
  simp only [Finset.sum_add_distrib] at queued
  simp only [Thread.unfinished, Finset.sum_add_distrib]
  simp only [State.tokens, nothing] at unfinished
  omega

end Alone

/-- A task whose disposal is disabled was not deleted, and no functor that deletes it is in a
queue, in a call or being drained. -/
theorem disabled_not_deleted (reachable : (system (n := n) (m := m) mode).Reachable s) {t : Nat}
    (disabled : (s.tasks t).canDispose = false) :
    (s.tasks t).deletes = 0 ∧ (s.tasks t).freed = 0 ∧ (∀ q, .dispose t ∉ s.queues q) ∧
      (∀ i q rest, (s.threads (.inl i)).point = .drain q rest → .dispose t ∉ rest) ∧
      ∀ th w, (s.threads th).call ≠ .test w (.dispose t) ∧
        (s.threads th).call ≠ .push w (.dispose t) ∧
        (s.threads th).call ≠ .direct (.dispose t) := by
  have inv := reachable_inv reachable
  rcases (inv.accounts t).interlock disabled with ⟨_, none, deletes, freed⟩
  have counted : (Func.dispose t : Func n).tokens t .disposing = 1 := by simp [Func.tokens]
  have thread (th : ThreadId n m) : (s.threads th).point.tokens t .disposing = 0 ∧
      (s.threads th).call.tokens t .disposing = 0 := by
    have bound := le_sum (Thread.tokens t .disposing) s.threads th
    simp only [State.tokens] at none
    simp only [Thread.tokens] at bound
    simp only [Thread.tokens] at none
    omega
  refine ⟨deletes, freed, ?_, ?_, ?_⟩
  · intro q member
    have bound := le_sum (total (Func.tokens t .disposing)) s.queues q
    have positive := le_total_of_mem (Func.tokens t .disposing) member
    simp only [State.tokens] at none
    omega
  · intro i q rest at' member
    have empty := (thread (.inl i)).1
    have positive := le_total_of_mem (Func.tokens t .disposing) member
    rw [at', tokens_drain] at empty
    omega
  · intro th w
    have empty := (thread th).2
    refine ⟨?_, ?_, ?_⟩
    all_goals
      intro at'
      rw [at'] at empty
      simp [Func.tokens] at empty

theorem disabled_not_deleted_connection : ∃ s : State 2 1, (system .singleLoop).Reachable s ∧
    (s.tasks 0).canDispose = false ∧ (s.tasks 0).finishes = 1 ∧ (s.tasks 0).deletes = 0 := by
  have run : ((system (n := 2) (m := 1) .singleLoop).exec disabledRun
      (system .singleLoop).init).any
        (fun s => (s.tasks 0).canDispose = false ∧ (s.tasks 0).finishes = 1) = true := by
    decide +kernel
  rcases System.exists_reachable_of_exec run with ⟨s, reachable, both⟩
  have disabled := of_decide_eq_true both
  exact ⟨s, reachable, disabled.1, disabled.2, (disabled_not_deleted reachable disabled.1).1⟩

end LibTasks.Lifecycle

import Mathlib

/-!
# Executable transition systems

A system is an initial state together with a partial step function indexed by
actions.  Interleavings are lists of actions, so a run is computable and a
concrete run can be evaluated; safety properties are proved once for all runs
through the invariant rule.
-/

namespace LibTasks.Foundation

universe u v

/-- An initial state and a partial, action-indexed step function. -/
structure System (State : Type u) (Action : Type v) where
  init : State
  step : Action → State → Option State

namespace System

variable {State : Type u} {Action : Type v} (system : System State Action)

/-- Perform a list of actions; undefined as soon as one of them is disabled. -/
def exec : List Action → State → Option State
  | [], state => some state
  | action :: rest, state => (system.step action state).bind (exec rest)

/-- States reached from the initial one by some sequence of enabled actions. -/
inductive Reachable : State → Prop where
  | init : Reachable system.init
  | step {state next : State} (action : Action) :
      Reachable state → system.step action state = some next → Reachable next

variable {system}

/-- Inductive invariants hold in every reachable state.  The preservation
premise may use that the state before the step is itself reachable. -/
theorem Reachable.invariant (property : State → Prop)
    (initial : property system.init)
    (preserved : ∀ {state next : State} {action : Action},
      system.Reachable state → property state →
        system.step action state = some next → property next)
    {state : State} (reachable : system.Reachable state) : property state := by
  induction reachable with
  | init => exact initial
  | step action before stepped ih => exact preserved before ih stepped

/-- Running further actions from a reachable state stays inside the reachable
states. -/
theorem Reachable.exec {actions : List Action} {state final : State}
    (reachable : system.Reachable state)
    (run : system.exec actions state = some final) : system.Reachable final := by
  induction actions generalizing state with
  | nil =>
      simp only [System.exec, Option.some.injEq] at run
      exact run ▸ reachable
  | cons action rest ih =>
      simp only [System.exec, Option.bind_eq_some_iff] at run
      obtain ⟨next, stepped, run⟩ := run
      exact ih (reachable.step action stepped) run

/-- A computed run whose last state passes an executable test exhibits a
reachable state with that test. -/
theorem exists_reachable_of_exec {actions : List Action} {test : State → Bool}
    (run : (system.exec actions system.init).any test = true) :
    ∃ state, system.Reachable state ∧ test state = true := by
  cases computed : system.exec actions system.init with
  | none => simp [computed] at run
  | some state =>
      refine ⟨state, Reachable.init.exec computed, ?_⟩
      simpa [computed] using run

/-! ## Conditions on the steps of a run -/

variable (system) in
/-- The property holds in every state of the run. -/
def Throughout (property : State → Prop) : List Action → State → Prop
  | [], state => property state
  | action :: rest, state => property state ∧
      ∀ next, system.step action state = some next → Throughout property rest next

variable (system) in
/-- Every step of the run is taken in a state that meets its condition. -/
def Along (condition : Action → State → Prop) : List Action → State → Prop
  | [], _ => True
  | action :: rest, state => ∀ next, system.step action state = some next →
      condition action state ∧ Along condition rest next

variable (system) in
/-- Test an executable condition along a run. -/
def checkAlong (condition : Action → State → Bool) : List Action → State → Bool
  | [], _ => true
  | action :: rest, state =>
      match system.step action state with
      | some next => condition action state && checkAlong condition rest next
      | none => true

theorem along_of_checkAlong {condition : Action → State → Bool} {actions : List Action}
    {state : State} (passes : system.checkAlong condition actions state = true) :
    system.Along (fun action state => condition action state = true) actions state := by
  induction actions generalizing state with
  | nil => trivial
  | cons action rest ih =>
      intro next stepped
      rw [checkAlong, stepped] at passes
      simp only [Bool.and_eq_true] at passes
      exact ⟨passes.1, ih passes.2⟩

theorem along_of_forall {condition : Action → State → Prop} {actions : List Action} {state : State}
    (met : ∀ action ∈ actions, ∀ state, condition action state) :
    system.Along condition actions state := by
  induction actions generalizing state with
  | nil => trivial
  | cons action rest ih =>
      intro next _
      refine ⟨met action List.mem_cons_self state, ih fun other member => ?_⟩
      exact met other (List.mem_cons_of_mem action member)

theorem along_mono {weak strong : Action → State → Prop} {actions : List Action} {state : State}
    (implies : ∀ {action : Action} {state : State}, strong action state → weak action state)
    (along : system.Along strong actions state) : system.Along weak actions state := by
  induction actions generalizing state with
  | nil => trivial
  | cons action rest ih =>
      intro next stepped
      rcases along next stepped with ⟨met, later⟩
      exact ⟨implies met, ih later⟩

/-- The second part of a run starts where the first part ends. -/
theorem along_append {condition : Action → State → Prop} {first second : List Action}
    {state : State} (along : system.Along condition first state)
    (later : ∀ next, system.exec first state = some next → system.Along condition second next) :
    system.Along condition (first ++ second) state := by
  induction first generalizing state with
  | nil => exact later state rfl
  | cons action rest ih =>
      intro next stepped
      refine ⟨(along next stepped).1, ih (along next stepped).2 fun final run => later final ?_⟩
      rw [exec, stepped]
      exact run

/-- If each step that meets the condition keeps the invariant, then the invariant's
consequences hold throughout. -/
theorem throughout_of_along (invariant : State → Prop) {property : State → Prop}
    {condition : Action → State → Prop}
    (holds : ∀ {state : State}, invariant state → property state)
    (preserved : ∀ {state next : State} {action : Action}, invariant state →
      condition action state → system.step action state = some next → invariant next)
    {actions : List Action} {state : State} (initial : invariant state)
    (along : system.Along condition actions state) :
    system.Throughout property actions state := by
  induction actions generalizing state with
  | nil => exact holds initial
  | cons action rest ih =>
      refine ⟨holds initial, fun next stepped => ?_⟩
      rcases along next stepped with ⟨met, later⟩
      exact ih (preserved initial met stepped) later

/-- If a step that does not meet the condition breaks something for good, then every step of
a run that ends unbroken meets the condition. -/
theorem along_of_exec (invariant broken : State → Prop) {condition : Action → State → Prop}
    (preserved : ∀ {state next : State} {action : Action}, invariant state →
      condition action state → system.step action state = some next → invariant next)
    (breaks : ∀ {state next : State} {action : Action}, invariant state →
      ¬ condition action state → system.step action state = some next → broken next)
    (stays : ∀ {state next : State} {action : Action}, broken state →
      system.step action state = some next → broken next)
    {actions : List Action} {state final : State} (initial : invariant state)
    (run : system.exec actions state = some final) (unbroken : ¬ broken final) :
    system.Along condition actions state := by
  have lasts (actions : List Action) {state : State} (isBroken : broken state)
      (run : system.exec actions state = some final) : broken final := by
    induction actions generalizing state with
    | nil => exact Option.some.inj run ▸ isBroken
    | cons action rest ih =>
        rcases Option.bind_eq_some_iff.mp run with ⟨next, stepped, later⟩
        exact ih (stays isBroken stepped) later
  induction actions generalizing state with
  | nil => trivial
  | cons action rest ih =>
      intro next stepped
      have later : system.exec rest next = some final := by
        rwa [exec, stepped] at run
      by_cases met : condition action state
      · exact ⟨met, ih (preserved initial met stepped) later⟩
      · exact absurd (lasts rest (breaks initial met stepped) later) unbroken

/-- If the condition decides for each single step whether the property is kept, it does
so for whole runs. -/
theorem throughout_iff_along (invariant : State → Prop) {property : State → Prop}
    {condition : Action → State → Prop}
    (preserved : ∀ {state next : State} {action : Action}, invariant state →
      system.step action state = some next → invariant next)
    (decides : ∀ {state next : State} {action : Action}, invariant state → property state →
      system.step action state = some next → (property next ↔ condition action state))
    (actions : List Action) {state : State} (initial : invariant state)
    (start : property state) :
    system.Throughout property actions state ↔ system.Along condition actions state := by
  induction actions generalizing state with
  | nil => exact ⟨fun _ => trivial, fun _ => start⟩
  | cons action rest ih =>
      constructor
      · rintro ⟨_, later⟩ next stepped
        have kept : property next := by
          have remaining := later next stepped
          cases rest with
          | nil => exact remaining
          | cons => exact remaining.1
        exact ⟨(decides initial start stepped).mp kept,
          (ih (preserved initial stepped) kept).mp (later next stepped)⟩
      · intro along
        refine ⟨start, fun next stepped => ?_⟩
        rcases along next stepped with ⟨met, later⟩
        have kept := (decides initial start stepped).mpr met
        exact (ih (preserved initial stepped) kept).mpr later

end System

/-! ## Collecting over finitely many indexed components -/

/-- If only one component contributes, the concatenation of all contributions is
that component's. -/
theorem flatMap_range_eq {Element : Type u} {part : Nat → List Element} {index size : Nat}
    (bound : index < size) (others : ∀ i < size, i ≠ index → part i = []) :
    (List.range size).flatMap part = part index := by
  induction size with
  | zero => exact absurd bound (Nat.not_lt_zero index)
  | succ size ih =>
      rw [List.range_succ, List.flatMap_append, List.flatMap_singleton]
      by_cases last : index = size
      · subst last
        have earlier : (List.range index).flatMap part = [] := by
          rw [List.flatMap_eq_nil_iff]
          intro i inside
          have below := List.mem_range.mp inside
          exact others i (Nat.lt_succ_of_lt below) (Nat.ne_of_lt below)
        rw [earlier, List.nil_append]
      · have below : index < size := Nat.lt_of_le_of_ne (Nat.lt_succ_iff.mp bound) last
        rw [ih below fun i inside => others i (Nat.lt_succ_of_lt inside),
          others size (Nat.lt_succ_self size) (Ne.symm last), List.append_nil]

/-! ## Counting over finitely many indexed components -/

section Sums

/-- Changing one component changes a finite count by the difference of the two
contributions. -/
theorem sum_range_change (before after : Nat → Nat) {index size : Nat}
    (bound : index < size) (others : ∀ i < size, i ≠ index → after i = before i) :
    (∑ i ∈ Finset.range size, after i) + before index =
      (∑ i ∈ Finset.range size, before i) + after index := by
  have member : index ∈ Finset.range size := Finset.mem_range.mpr bound
  rw [← Finset.sum_erase_add (Finset.range size) before member,
    ← Finset.sum_erase_add (Finset.range size) after member]
  have same : ∑ i ∈ (Finset.range size).erase index, after i =
      ∑ i ∈ (Finset.range size).erase index, before i := by
    refine Finset.sum_congr rfl fun i inside => ?_
    exact others i (Finset.mem_range.mp (Finset.mem_of_mem_erase inside))
      (Finset.ne_of_mem_erase inside)
  omega

/-- Two different components' contributions are together bounded by the whole
count. -/
theorem add_le_sum_range (measure : Nat → Nat) {first second size : Nat}
    (firstBound : first < size) (secondBound : second < size)
    (different : first ≠ second) :
    measure first + measure second ≤ ∑ i ∈ Finset.range size, measure i := by
  have member : first ∈ Finset.range size := Finset.mem_range.mpr firstBound
  have rest : measure second ≤ ∑ i ∈ (Finset.range size).erase first, measure i :=
    Finset.single_le_sum (fun _ _ => Nat.zero_le _)
      (Finset.mem_erase.mpr ⟨different.symm, Finset.mem_range.mpr secondBound⟩)
  rw [← Finset.sum_erase_add (Finset.range size) measure member]
  omega

end Sums

end LibTasks.Foundation

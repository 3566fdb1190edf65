import Mathlib

/-!
# Progress in a fair environment

When a deterministic process that waits for its environment gets done.
-/

namespace LibTasks.Foundation

/-- A deterministic process in an environment that ticks: as long as it is not
finished, a step moves the clock on and never adds to what remains, and a tick
that falls into a step takes something away. -/
structure FairProgress {σ : Type} (step : σ → σ) (good finished : σ → Prop)
    (clock remaining : σ → Nat) (tick : Nat → Prop) : Prop where
  keeps : ∀ s, good s → ¬finished s → good (step s)
  advances : ∀ s, good s → ¬finished s → clock s < clock (step s)
  shrinks : ∀ s, good s → ¬finished s → remaining (step s) ≤ remaining s
  ticks : ∀ s, good s → ¬finished s → ∀ t, clock s ≤ t → t < clock (step s) → tick t →
    remaining (step s) < remaining s

namespace FairProgress

variable {σ : Type} {step : σ → σ} {good finished : σ → Prop} {clock remaining : σ → Nat}
  {tick : Nat → Prop}

/-- Up to a tick, the process finishes or makes progress. -/
theorem until_tick (progress : FairProgress step good finished clock remaining tick) {t : Nat}
    (ticked : tick t) (distance : Nat) :
    ∀ s, good s → clock s ≤ t → t < clock s + distance →
      ∃ n, good (step^[n] s) ∧
        (finished (step^[n] s) ∨ remaining (step^[n] s) < remaining s) := by
  induction distance with
  | zero =>
      intro s _ before behind
      omega
  | succ distance ih =>
      intro s isGood before behind
      by_cases isFinished : finished s
      · exact ⟨0, isGood, .inl isFinished⟩
      have later := progress.advances s isGood isFinished
      have kept := progress.keeps s isGood isFinished
      by_cases inside : t < clock (step s)
      · exact ⟨1, kept, .inr (progress.ticks s isGood isFinished t before inside ticked)⟩
      obtain ⟨n, goodThen, outcome⟩ := ih (step s) kept (by omega) (by omega)
      refine ⟨n + 1, goodThen, outcome.imp id fun less => ?_⟩
      exact Nat.lt_of_lt_of_le less (progress.shrinks s isGood isFinished)

/-- If the environment ticks again and again, the process finishes. -/
theorem finishes (progress : FairProgress step good finished clock remaining tick)
    (fair : ∀ k, ∃ later, k ≤ later ∧ tick later) (s : σ) (start : good s) :
    ∃ n, good (step^[n] s) ∧ finished (step^[n] s) := by
  induction amount : remaining s using Nat.strongRecOn generalizing s with
  | _ amount ih =>
      obtain ⟨t, after, ticked⟩ := fair (clock s)
      obtain ⟨n, goodThen, isFinished | less⟩ :=
        progress.until_tick ticked (t - clock s + 1) s start after (by omega)
      · exact ⟨n, goodThen, isFinished⟩
      · obtain ⟨m, goodAtEnd, finishedAtEnd⟩ := ih _ (amount ▸ less) _ goodThen rfl
        rw [← Function.iterate_add_apply] at goodAtEnd finishedAtEnd
        exact ⟨m + n, goodAtEnd, finishedAtEnd⟩

end FairProgress

/-- If whatever is not finished can take a step that brings it closer, it can finish. -/
theorem exists_finished_of_rank {σ : Type*} {R : σ → σ → Prop} {good finished : σ → Prop}
    (rank : σ → Nat)
    (progress : ∀ s, good s → ¬finished s → ∃ next, R s next ∧ good next ∧ rank next < rank s)
    {s : σ} (start : good s) :
    ∃ final, Relation.ReflTransGen R s final ∧ good final ∧ finished final := by
  induction amount : rank s using Nat.strong_induction_on generalizing s with
  | h amount ih =>
      by_cases isFinished : finished s
      · exact ⟨s, .refl, start, isFinished⟩
      · rcases progress s start isFinished with ⟨next, step, kept, closer⟩
        rcases ih _ (amount ▸ closer) kept rfl with ⟨final, run, goodThen, done⟩
        exact ⟨final, .head step run, goodThen, done⟩

/-- Repeated steps end in the state `final` and stay there. -/
def EndsAs {σ : Type} (step : σ → σ) (s final : σ) : Prop :=
  ∃ n, ∀ m, n ≤ m → step^[m] s = final

theorem endsAs_of_fixed {σ : Type} {step : σ → σ} {s final : σ} {n : Nat}
    (reached : step^[n] s = final) (fixed : step final = final) : EndsAs step s final := by
  refine ⟨n, fun m later => ?_⟩
  obtain ⟨k, rfl⟩ := Nat.exists_eq_add_of_le' later
  rw [Function.iterate_add_apply, reached]
  exact Function.iterate_fixed fixed k

/-- Two states with the same next state end alike. -/
theorem EndsAs.of_step_eq {σ : Type} {step : σ → σ} {s t final : σ} (same : step s = step t)
    (ends : EndsAs step t final) : EndsAs step s final := by
  obtain ⟨n, ends⟩ := ends
  refine ⟨n + 1, fun m later => ?_⟩
  obtain ⟨k, rfl⟩ := Nat.exists_eq_succ_of_ne_zero (Nat.ne_zero_of_lt later)
  rw [Function.iterate_succ_apply, same, ← Function.iterate_succ_apply]
  exact ends _ (by omega)

theorem EndsAs.of_step {σ : Type} {step : σ → σ} {s final : σ}
    (ends : EndsAs step (step s) final) : EndsAs step s final := by
  obtain ⟨n, ends⟩ := ends
  refine ⟨n + 1, fun m later => ?_⟩
  obtain ⟨k, rfl⟩ := Nat.exists_eq_succ_of_ne_zero (Nat.ne_zero_of_lt later)
  exact ends k (Nat.le_of_succ_le_succ later)

theorem EndsAs.unique {σ : Type} {step : σ → σ} {s first second : σ}
    (one : EndsAs step s first) (two : EndsAs step s second) : first = second := by
  obtain ⟨n, first⟩ := one
  obtain ⟨m, second⟩ := two
  exact (first (max n m) (Nat.le_max_left n m)).symm.trans
    (second (max n m) (Nat.le_max_right n m))

end LibTasks.Foundation

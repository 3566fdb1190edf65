import Mathlib

/-!
# Balanced sequences

A sequence hands out the elements of a finite type one after another.  It is balanced when
at no time two elements were handed out numbers of times that differ by more than one.  The
sequence is cut into rounds of as many elements as the type has: it stays balanced exactly
as long as no element comes twice in a round.
-/

namespace LibTasks.Foundation

variable {α : Type*} [DecidableEq α]

/-- How often an element is among the first `k`. -/
def handedOut (f : Nat → α) (k : Nat) (a : α) : Nat := Nat.count (f · = a) k

/-- After `k` elements no two of them differ by more than one. -/
def BalancedAt (f : Nat → α) (k : Nat) : Prop :=
  ∀ a b, handedOut f k a ≤ handedOut f k b + 1

theorem handedOut_succ (f : Nat → α) (k : Nat) (a : α) :
    handedOut f (k + 1) a = handedOut f k a + if f k = a then 1 else 0 :=
  Nat.count_succ ..

variable [Fintype α]

/-- No element comes twice in a round among the first `k`. -/
def DistinctRounds (f : Nat → α) (k : Nat) : Prop :=
  ∀ i j, i < j → j < k → i / Fintype.card α = j / Fintype.card α → f i ≠ f j

/-- The element came in the round that `k` belongs to. -/
def Seen (f : Nat → α) (k : Nat) (a : α) : Prop :=
  ∃ i < k, i / Fintype.card α = k / Fintype.card α ∧ f i = a

variable {f : Nat → α} {k : Nat}

omit [DecidableEq α] in
theorem card_positive (f : Nat → α) : 0 < Fintype.card α := Fintype.card_pos_iff.mpr ⟨f 0⟩

omit [DecidableEq α] in
theorem DistinctRounds.mono {l : Nat} (distinct : DistinctRounds f k) (le : l ≤ k) :
    DistinctRounds f l :=
  fun i j before inside => distinct i j before (Nat.lt_of_lt_of_le inside le)

omit [DecidableEq α] in
theorem seen_succ {a : α}
    (same : (k + 1) / Fintype.card α = k / Fintype.card α) :
    Seen f (k + 1) a ↔ Seen f k a ∨ f k = a := by
  constructor
  · intro ⟨i, before, round, here⟩
    rcases Nat.lt_succ_iff_lt_or_eq.mp before with earlier | rfl
    · exact .inl ⟨i, earlier, round.trans same, here⟩
    · exact .inr here
  · intro seen
    rcases seen with ⟨i, before, round, here⟩ | here
    · exact ⟨i, Nat.lt_succ_of_lt before, round.trans same.symm, here⟩
    · exact ⟨k, Nat.lt_succ_self k, same.symm, here⟩

omit [DecidableEq α] in
/-- Nothing was seen where a round begins. -/
theorem not_seen_of_begins {a : α}
    (begins : (k + 1) / Fintype.card α = k / Fintype.card α + 1) : ¬Seen f (k + 1) a := by
  intro ⟨i, before, round, _⟩
  have le := Nat.div_le_div_right (c := Fintype.card α) (Nat.le_of_lt_succ before)
  omega

omit [DecidableEq α] in
/-- Where a round ends without a repetition, everything was seen in it. -/
theorem seen_of_ends (distinct : DistinctRounds f (k + 1))
    (ends : (k + 1) / Fintype.card α = k / Fintype.card α + 1) (a : α) :
    Seen f k a ∨ f k = a := by
  have positive := card_positive f
  generalize size : Fintype.card α = n at *
  -- The positions of the round, as a map that hits every element.
  let round (i : Fin n) : α := f (n * (k / n) + i)
  have last : k + 1 = n * (k / n) + n := by
    have whole : n ∣ k + 1 := by
      by_contra inside
      rw [Nat.succ_div, if_neg inside] at ends
      omega
    rw [← Nat.mul_add_one, ← ends, Nat.mul_div_cancel' whole]
  have index (i : Fin n) : (n * (k / n) + i) / n = k / n := by
    rw [Nat.mul_add_div positive, Nat.div_eq_of_lt i.isLt, Nat.add_zero]
  have injective : Function.Injective round := by
    intro i j equal
    rcases Nat.lt_trichotomy i j with before | same | behind
    · exact (distinct _ _ (by omega) (by omega) (by rw [size, index, index]) equal).elim
    · exact Fin.ext same
    · exact (distinct _ _ (by omega) (by omega) (by rw [size, index, index]) equal.symm).elim
  have bijective := (Fintype.bijective_iff_injective_and_card round).mpr
    ⟨injective, by rw [Fintype.card_fin, size]⟩
  have ⟨i, here⟩ := bijective.surjective a
  rcases Nat.lt_or_ge (n * (k / n) + i) k with before | behind
  · exact .inl ⟨_, before, by rw [size]; exact index i, here⟩
  · have here' : n * (k / n) + i = k := by omega
    rw [← here']
    exact .inr here

theorem succ_div_cases (k n : Nat) : (k + 1) / n = k / n ∨ (k + 1) / n = k / n + 1 := by
  rw [Nat.succ_div]
  split
  · exact .inr rfl
  · exact .inl rfl

open Classical in
/-- Without a repetition an element was handed out once in every round that is over, and
once more if it was seen in the last one. -/
theorem handedOut_eq (distinct : DistinctRounds f k) (a : α) :
    handedOut f k a = k / Fintype.card α + if Seen f k a then 1 else 0 := by
  induction k with
  | zero =>
      have none : ¬Seen f 0 a := fun ⟨i, before, _⟩ => Nat.not_lt_zero i before
      rw [if_neg none, Nat.zero_div]
      exact Nat.count_zero _
  | succ k ih =>
      have once : ¬(Seen f k a ∧ f k = a) := by
        intro ⟨⟨i, before, round, here⟩, again⟩
        exact distinct i k before (Nat.lt_succ_self k) round (here.trans again.symm)
      rw [handedOut_succ, ih (distinct.mono (Nat.le_succ k))]
      rcases succ_div_cases k (Fintype.card α) with same | ends
      · rw [seen_succ same, same]
        grind
      · have all := seen_of_ends distinct ends a
        rw [if_neg (not_seen_of_begins ends), ends]
        grind

/-- A repetition leaves an element out. -/
theorem exists_not_seen (again : Seen f k (f k)) : ∃ a, ¬Seen f k a ∧ f k ≠ a := by
  have positive := card_positive f
  by_contra every
  push Not at every
  have all (a : α) : a ∈ (Finset.Ico (Fintype.card α * (k / Fintype.card α)) k).image f := by
    have seen : Seen f k a := by
      by_contra unseen
      exact unseen (every a unseen ▸ again)
    have ⟨i, before, round, here⟩ := seen
    refine Finset.mem_image.mpr ⟨i, Finset.mem_Ico.mpr ⟨?_, before⟩, here⟩
    rw [← round]
    exact Nat.mul_div_le i _
  have card := Finset.card_le_card (fun a _ => all a :
    Finset.univ ⊆ (Finset.Ico (Fintype.card α * (k / Fintype.card α)) k).image f)
  have image := Finset.card_image_le
    (s := Finset.Ico (Fintype.card α * (k / Fintype.card α)) k) (f := f)
  rw [Nat.card_Ico] at image
  rw [Finset.card_univ] at card
  have bound := Nat.mod_lt k positive
  have split := Nat.div_add_mod k (Fintype.card α)
  omega

/-- **Balance.**  A sequence is balanced all along exactly when no element comes twice in a
round. -/
theorem balancedAt_iff (f : Nat → α) (length : Nat) :
    (∀ k ≤ length, BalancedAt f k) ↔ DistinctRounds f length := by
  constructor
  · intro balanced
    induction length with
    | zero => exact fun i j _ inside => (Nat.not_lt_zero j inside).elim
    | succ k ih =>
        have distinct := ih fun l le => balanced l (Nat.le_succ_of_le le)
        intro i j before inside round same
        rcases Nat.lt_succ_iff_lt_or_eq.mp inside with earlier | rfl
        · exact distinct i j before earlier round same
        · have seen : Seen f j (f j) := ⟨i, before, round, same⟩
          have ⟨a, unseen, other⟩ := exists_not_seen seen
          have compare := balanced (j + 1) (Nat.le_refl _) (f j) a
          rw [handedOut_succ, handedOut_succ, handedOut_eq distinct, handedOut_eq distinct,
            if_pos seen, if_neg unseen, if_pos rfl, if_neg other] at compare
          omega
  · intro distinct k le a b
    have until_ := distinct.mono le
    rw [handedOut_eq until_, handedOut_eq until_]
    grind

end LibTasks.Foundation

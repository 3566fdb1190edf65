import Mathlib

/-!
# Totals over lists and finite families

What a measure adds up to over the elements of a list, or over the members of a finite
family, and how the total changes with one element.
-/

namespace LibTasks.Foundation

universe u v

variable {α : Type u} {ι : Type v}

/-- What a measure adds up to over a list. -/
def total (measure : α → Nat) (list : List α) : Nat := (list.map measure).sum

section Lists

variable (measure : α → Nat)

@[simp] theorem total_nil : total measure [] = 0 := rfl

@[simp] theorem total_cons (a : α) (list : List α) :
    total measure (a :: list) = measure a + total measure list := by
  rw [total, total, List.map_cons, List.sum_cons]

@[simp] theorem total_append (first second : List α) :
    total measure (first ++ second) = total measure first + total measure second := by
  rw [total, total, total, List.map_append, List.sum_append]

/-- A filter splits a total. -/
theorem total_filter_add (keep : α → Bool) (list : List α) :
    total measure (list.filter keep) + total measure (list.filter fun a => !keep a) =
      total measure list := by
  induction list with
  | nil => rfl
  | cons a rest ih =>
      rw [List.filter_cons, List.filter_cons, total_cons, ← ih]
      cases keep a with
      | true =>
          simp only [↓reduceIte, Bool.not_true, Bool.false_eq_true, total_cons]
          omega
      | false =>
          simp only [Bool.false_eq_true, ↓reduceIte, Bool.not_false, total_cons]
          omega

theorem total_add (other : α → Nat) (list : List α) :
    total (fun a => measure a + other a) list = total measure list + total other list :=
  List.sum_map_add

theorem total_congr {other : α → Nat} {list : List α} (same : ∀ a ∈ list, measure a = other a) :
    total measure list = total other list := by
  rw [total, total, List.map_congr_left same]

/-- Counting is adding ones. -/
theorem total_ite (p : α → Prop) [DecidablePred p] (list : List α) :
    total (fun a => if p a then 1 else 0) list = list.countP (fun a => p a) := by
  induction list with
  | nil => rfl
  | cons a rest ih =>
      rw [total_cons, ih, List.countP_cons, Nat.add_comm]
      simp

theorem le_total_of_mem {a : α} {list : List α} (member : a ∈ list) :
    measure a ≤ total measure list :=
  List.le_sum_of_mem (List.mem_map_of_mem member)

theorem total_erase [DecidableEq α] {a : α} {list : List α} (member : a ∈ list) :
    measure a + total measure (list.erase a) = total measure list :=
  List.sum_map_erase measure member

theorem add_le_total_of_mem {a b : α} {list : List α} (different : a ≠ b) (first : a ∈ list)
    (second : b ∈ list) : measure a + measure b ≤ total measure list := by
  classical
  have rest : b ∈ list.erase a := (List.mem_erase_of_ne different.symm).mpr second
  rw [← total_erase measure first]
  exact Nat.add_le_add_left (le_total_of_mem measure rest) _

variable {measure}

theorem exists_mem_of_total_pos {list : List α} (positive : 0 < total measure list) :
    ∃ a ∈ list, 0 < measure a := by
  induction list with
  | nil => exact absurd positive (Nat.lt_irrefl 0)
  | cons a rest ih =>
      by_cases here : 0 < measure a
      · exact ⟨a, List.mem_cons_self, here⟩
      · rw [total_cons, Nat.eq_zero_of_not_pos here, Nat.zero_add] at positive
        rcases ih positive with ⟨b, member, found⟩
        exact ⟨b, List.mem_cons_of_mem a member, found⟩

/-- If only one element of the list is counted by `weight`, a filter that drops what is
counted drops that element only. -/
theorem total_filter_of_unique (weight : α → Nat) {keep : α → Bool} {a : α} {list : List α}
    (counted : ∀ b ∈ list, keep b = false → 0 < weight b) (unique : total weight list ≤ 1)
    (member : a ∈ list) (dropped : keep a = false) :
    total measure (list.filter keep) + measure a = total measure list := by
  have split := total_filter_add measure keep list
  have rest : list.filter (fun b => !keep b) = [a] := by
    have inside : a ∈ list.filter fun b => !keep b := by
      rw [List.mem_filter, dropped]
      exact ⟨member, rfl⟩
    have bound : (list.filter fun b => !keep b).length ≤ 1 := by
      have weights := total_filter_add weight keep list
      have length_le (part : List α) (all : ∀ b ∈ part, 0 < weight b) :
          part.length ≤ total weight part := by
        induction part with
        | nil => exact Nat.le_refl 0
        | cons b part ih =>
            have here := all b List.mem_cons_self
            have later := ih fun c inside => all c (List.mem_cons_of_mem b inside)
            rw [List.length_cons, total_cons]
            omega
      have dropped_le := length_le (list.filter fun b => !keep b) (by
        intro b inside
        rw [List.mem_filter] at inside
        exact counted b inside.1 (by simpa using inside.2))
      omega
    rcases List.length_eq_one_iff.mp
      (Nat.le_antisymm bound (List.length_pos_of_mem inside)) with ⟨b, only⟩
    rw [only] at inside ⊢
    rw [List.mem_singleton.mp inside]
  rw [rest, total_cons, total_nil] at split
  exact split

end Lists

section Families

variable [Fintype ι] [DecidableEq ι] (measure : α → Nat) (family : ι → α) (i : ι)

/-- Changing one member changes the total by the difference of the two measures. -/
theorem sum_update (new : α) :
    (∑ j, measure (Function.update family i new j)) + measure (family i) =
      (∑ j, measure (family j)) + measure new := by
  rw [← Finset.add_sum_erase _ _ (Finset.mem_univ i),
    ← Finset.add_sum_erase _ _ (Finset.mem_univ i)]
  have others : ∑ j ∈ Finset.univ.erase i, measure (Function.update family i new j) =
      ∑ j ∈ Finset.univ.erase i, measure (family j) := by
    refine Finset.sum_congr rfl fun j inside => ?_
    rw [Function.update_of_ne (Finset.ne_of_mem_erase inside)]
  rw [others, Function.update_self]
  omega

omit [DecidableEq ι] in
theorem le_sum : measure (family i) ≤ ∑ j, measure (family j) :=
  Finset.single_le_sum (f := fun j => measure (family j)) (fun _ _ => Nat.zero_le _)
    (Finset.mem_univ i)

theorem add_le_sum {i j : ι} (different : i ≠ j) :
    measure (family i) + measure (family j) ≤ ∑ k, measure (family k) := by
  have rest : measure (family j) ≤ ∑ k ∈ Finset.univ.erase i, measure (family k) :=
    Finset.single_le_sum (f := fun k => measure (family k)) (fun _ _ => Nat.zero_le _)
      (Finset.mem_erase.mpr ⟨different.symm, Finset.mem_univ j⟩)
  rw [← Finset.sum_erase_add _ _ (Finset.mem_univ i)]
  omega

end Families

end LibTasks.Foundation

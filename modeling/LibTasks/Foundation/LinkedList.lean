import Mathlib

/-!
# Singly linked lists in memory

Nodes at addresses, with a value and the address of the next node, and the list that
is found when the addresses are followed from a given one.
-/

namespace LibTasks.Foundation

/-- A node in memory. -/
structure Node (α : Type) where
  val : α
  next : Option Nat
  deriving DecidableEq, Repr

/-- The nodes that are allocated, by their addresses. -/
abbrev Heap (α : Type) := Nat → Option (Node α)

/-- The node at `p` is followed by those at `places`, which hold `values`. -/
inductive Follow {α : Type} (heap : Heap α) : Nat → List Nat → List α → Prop where
  | last {p : Nat} {u : α} (here : heap p = some ⟨u, none⟩) : Follow heap p [] []
  | cons {p q : Nat} {u v : α} {next : Option Nat} {places : List Nat} {values : List α}
      (here : heap p = some ⟨u, some q⟩) (there : heap q = some ⟨v, next⟩)
      (rest : Follow heap q places values) : Follow heap p (q :: places) (v :: values)

namespace Follow

variable {α : Type} {heap : Heap α} {p : Nat} {places : List Nat} {values : List α}

theorem live (follow : Follow heap p places values) :
    ∀ a ∈ p :: places, ∃ node, heap a = some node := by
  induction follow with
  | last here => simpa using ⟨_, here⟩
  | cons here there rest ih =>
      intro a member
      rcases List.mem_cons.mp member with rfl | later
      · exact ⟨_, here⟩
      · exact ih a later

/-- Only the nodes of the list matter. -/
theorem congr (follow : Follow heap p places values) {other : Heap α}
    (same : ∀ a ∈ p :: places, other a = heap a) : Follow other p places values := by
  induction follow with
  | last here => exact .last ((same _ List.mem_cons_self).trans here)
  | cons here there rest ih =>
      have second := (same _ (List.mem_cons_of_mem _ List.mem_cons_self)).trans there
      exact .cons ((same _ List.mem_cons_self).trans here) second
        (ih fun a member => same a (List.mem_cons_of_mem _ member))

/-- A change of a node that is not in the list. -/
theorem update (follow : Follow heap p places values) {a : Nat} (outside : a ∉ p :: places)
    (content : Option (Node α)) : Follow (Function.update heap a content) p places values := by
  apply follow.congr
  intro b member
  have other : b ≠ a := fun same => outside (same ▸ member)
  exact Function.update_of_ne other _ _

theorem eq_nil_of_next (follow : Follow heap p places values) {u : α}
    (here : heap p = some ⟨u, none⟩) : places = [] ∧ values = [] := by
  cases follow with
  | last _ => exact ⟨rfl, rfl⟩
  | cons other => cases here.symm.trans other

theorem exists_of_next (follow : Follow heap p places values) {u : α} {q : Nat}
    (here : heap p = some ⟨u, some q⟩) :
    ∃ v next others rest, heap q = some ⟨v, next⟩ ∧ places = q :: others ∧
      values = v :: rest ∧ Follow heap q others rest := by
  cases follow with
  | last other => cases here.symm.trans other
  | cons other there rest =>
      cases here.symm.trans other
      exact ⟨_, _, _, _, there, rfl, rfl, rest⟩

theorem exists_last (follow : Follow heap p places values) :
    ∃ u, heap ((p :: places).getLast (List.cons_ne_nil p places)) = some ⟨u, none⟩ := by
  induction follow with
  | last here => exact ⟨_, here⟩
  | cons here there rest ih =>
      rw [List.getLast_cons (List.cons_ne_nil _ _)]
      exact ih

/-- Linking a node behind the last one. -/
theorem snoc (follow : Follow heap p places values) (different : (p :: places).Nodup) {n e : Nat}
    {u v : α} (isLast : (p :: places).getLast (List.cons_ne_nil p places) = e)
    (last : heap e = some ⟨u, none⟩) (new : heap n = some ⟨v, none⟩) (outside : n ∉ p :: places) :
    Follow (Function.update heap e (some ⟨u, some n⟩)) p (places ++ [n]) (values ++ [v]) := by
  have apart : n ≠ e := fun same => outside (by
    rw [same, ← isLast]
    exact List.getLast_mem _)
  induction follow with
  | @last p w here =>
      cases isLast
      have behind := (Function.update_of_ne apart (some ⟨u, some n⟩) heap).trans new
      exact .cons (Function.update_self ..) behind (.last behind)
  | @cons p q w x next places values here there rest ih =>
      rw [List.getLast_cons (List.cons_ne_nil _ _)] at isLast
      rw [List.nodup_cons] at different
      have later := ih different.2 isLast fun member => outside (List.mem_cons_of_mem _ member)
      have first : p ≠ e := fun same => different.1 (by
        rw [same, ← isLast]
        exact List.getLast_mem _)
      have front : Function.update heap e (some ⟨u, some n⟩) p = some ⟨w, some q⟩ :=
        (Function.update_of_ne first _ _).trans here
      by_cases atEnd : q = e
      · subst atEnd
        cases there.symm.trans last
        exact .cons front (Function.update_self ..) later
      · exact .cons front ((Function.update_of_ne atEnd _ _).trans there) later

end Follow

end LibTasks.Foundation

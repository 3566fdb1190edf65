import Mathlib

/-!
# Mutual exclusion by a flag

What a flag that is set by whoever enters, and cleared by whoever leaves, says about
the threads inside.
-/

namespace LibTasks.Foundation

/-- At most one thread is inside, and none while the flag is clear. -/
structure Exclusive (inside : Nat → Bool) (flag : Bool) : Prop where
  unique : ∀ {t u}, inside t = true → inside u = true → t = u
  free : flag = false → ∀ t, inside t = false

namespace Exclusive

variable {inside next : Nat → Bool} {flag : Bool} {t : Nat}

/-- A thread enters when the flag is clear. -/
theorem enter (exclusive : Exclusive inside false) (others : ∀ u, u ≠ t → next u = inside u) :
    Exclusive next true where
  unique {u w} left right := by
    have onlyThis : ∀ x, next x = true → x = t := by
      intro x isInside
      by_contra other
      have outside := exclusive.free rfl x
      rw [← others x other, isInside] at outside
      cases outside
    exact (onlyThis u left).trans (onlyThis w right).symm
  free := nofun

/-- The thread inside leaves and clears the flag. -/
theorem leave (exclusive : Exclusive inside flag) (isInside : inside t = true)
    (out : next t = false) (others : ∀ u, u ≠ t → next u = inside u) : Exclusive next false := by
  have nobody : ∀ u, next u = false := by
    intro u
    by_cases same : u = t
    · rw [same]
      exact out
    · rw [others u same]
      cases still : inside u with
      | false => rfl
      | true => exact absurd (exclusive.unique still isInside) same
  constructor
  · intro u _ left
    cases (nobody u).symm.trans left
  · exact fun _ => nobody

/-- The threads inside stay. -/
theorem stay (exclusive : Exclusive inside flag) (same : ∀ u, next u = inside u) :
    Exclusive next flag where
  unique left right := exclusive.unique ((same _).symm.trans left) ((same _).symm.trans right)
  free clear u := (same u).trans (exclusive.free clear u)

end Exclusive

end LibTasks.Foundation

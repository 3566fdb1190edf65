import LibTasks.Tools.Buffer
import Mathlib

/-!
# `tasks::tools::bitset`

The bitset of `include/tasks/tools/bitset.h` and its cyclic search `next`.  Every access
goes through an assertion on the index, so a result other than a fault says that all
indices were inside.
-/

namespace LibTasks.Tools

/-- The vector `m_bitset` and its length `m_bits`. -/
structure Bitset where
  bitset : List Bool
  bits : Nat
  buckets : bitset.length = bits
  deriving DecidableEq

namespace Bitset

/-- The constructor.  The atomics of the vector are value-initialized. -/
def create (bits : Nat) : Bitset := ⟨List.replicate bits false, bits, List.length_replicate⟩

/-- An assignment to `m_bitset[p]` behind the assertion. -/
def assign (b : Bitset) (p : Nat) (bit : Bool → Bool) : Except Fault Bitset :=
  if p < b.bits then
    .ok ⟨b.bitset.modify p bit, b.bits, (List.length_modify ..).trans b.buckets⟩
  else .error .assertion

/-- `toggle` -/
def toggle (b : Bitset) (p : Nat) : Except Fault Bitset := b.assign p (!·)

/-- `set` -/
def set (b : Bitset) (p : Nat) : Except Fault Bitset := b.assign p fun _ => true

/-- `unset` -/
def unset (b : Bitset) (p : Nat) : Except Fault Bitset := b.assign p fun _ => false

/-- `test` -/
def test (b : Bitset) (p : Nat) : Except Fault Bool :=
  if p < b.bits then .ok (b.bitset.getD p false) else .error .assertion

/-- The loop of `any`.  The second component is the reference parameter `offset`. -/
def anyLoop : List Bool → Nat → Bool × Nat
  | [], offset => (false, offset)
  | bit :: rest, offset => if bit = true then (true, offset) else anyLoop rest (offset + 1)

/-- `any` -/
def any (b : Bitset) : Bool × Nat := anyLoop b.bitset 0

/-- `first` -/
def first (b : Bitset) : Bool × Nat := b.any

/-- The loop of `next`.  The second component is the reference parameter `idx`. -/
def nextLoop (b : Bitset) (idx chkIdx chkCnt : Nat) : Except Fault (Bool × Nat) := do
  if ← b.test chkIdx then
    return (true, chkIdx)
  -- overflow check
  let chkIdx := if chkIdx + 1 = b.bits then 0 else chkIdx + 1
  if chkCnt + 1 < b.bits then
    nextLoop b idx chkIdx (chkCnt + 1)
  else
    return (false, idx)
termination_by b.bits - chkCnt

/-- `next` -/
def next (b : Bitset) (idx start : Nat) : Except Fault (Bool × Nat) :=
  if start < b.bits then b.nextLoop idx start 0 else .error .assertion

/-- The calls that change a bitset. -/
inductive Op where
  | toggle (p : Nat)
  | set (p : Nat)
  | unset (p : Nat)
  deriving DecidableEq, Repr

def apply (b : Bitset) : Op → Except Fault Bitset
  | .toggle p => b.toggle p
  | .set p => b.set p
  | .unset p => b.unset p

/-- A sequence of calls on a new bitset. -/
def run (b : Bitset) (ops : List Op) : Except Fault Bitset := ops.foldlM apply b

/-- Whether a bit is set. -/
def IsSet (b : Bitset) (i : Nat) : Prop := b.bitset[i]? = some true

instance (b : Bitset) : DecidablePred b.IsSet :=
  fun i => inferInstanceAs (Decidable (b.bitset[i]? = some true))

/-- The number of steps from `start` to `i` on a cycle of `n` indices. -/
def cyclicDistance (n start i : Nat) : Nat := (i + n - start) % n

theorem assign_bits {b next : Bitset} {p : Nat} {bit : Bool → Bool}
    (assigned : b.assign p bit = .ok next) : next.bits = b.bits := by
  rw [assign] at assigned
  split at assigned
  · cases assigned
    rfl
  · cases assigned

theorem apply_bits {b next : Bitset} {op : Op} (applied : b.apply op = .ok next) :
    next.bits = b.bits := by
  cases op <;> exact assign_bits applied

theorem run_bits {b next : Bitset} {ops : List Op} (ran : b.run ops = .ok next) :
    next.bits = b.bits := by
  induction ops generalizing b with
  | nil =>
      cases ran
      rfl
  | cons op ops ih =>
      rw [run, List.foldlM_cons] at ran
      cases applied : b.apply op with
      | error fault =>
          rw [applied] at ran
          cases ran
      | ok middle =>
          rw [applied] at ran
          exact (ih ran).trans (apply_bits applied)

namespace IsSet

variable {b : Bitset} {i : Nat}

theorem inside (isSet : b.IsSet i) : i < b.bits := by
  rw [← b.buckets]
  exact (List.getElem?_eq_some_iff.mp isSet).1

/-- The test of a set bit. -/
theorem test (isSet : b.IsSet i) : b.test i = .ok true := by
  have value : b.bitset.getD i false = true := by
    rw [List.getD_eq_getElem?_getD, isSet]
    rfl
  rw [Bitset.test, if_pos isSet.inside, value]

end IsSet

theorem test_of_not_isSet {b : Bitset} {i : Nat} (inside : i < b.bits) (unset : ¬b.IsSet i) :
    b.test i = .ok false := by
  have value : b.bitset.getD i false = false := by
    rw [← b.buckets] at inside
    rw [IsSet, List.getElem?_eq_getElem inside] at unset
    rw [List.getD_eq_getElem _ _ inside]
    simpa using unset
  rw [test, if_pos inside, value]

section Cycle

variable {n start i k : Nat}

theorem cyclicDistance_lt (inside : start < n) : cyclicDistance n start i < n :=
  Nat.mod_lt _ (Nat.zero_lt_of_lt inside)

/-- Going as many steps from `start` as the distance says reaches the index. -/
theorem add_cyclicDistance (inside : start < n) (reached : i < n) :
    (start + cyclicDistance n start i) % n = i := by
  have whole : start + (i + n - start) = i + n := by omega
  rw [cyclicDistance, Nat.add_mod_mod, whole, Nat.add_mod_right, Nat.mod_eq_of_lt reached]

/-- The distance of the index reached after fewer than `n` steps. -/
theorem cyclicDistance_add (inside : start < n) (steps : k < n) :
    cyclicDistance n start ((start + k) % n) = k := by
  rw [cyclicDistance]
  rcases Nat.lt_or_ge (start + k) n with before | wrapped
  · have whole : start + k + n - start = k + n := by omega
    rw [Nat.mod_eq_of_lt before, whole, Nat.add_mod_right, Nat.mod_eq_of_lt steps]
  · have once : start + k - n < n := by omega
    have whole : start + k - n + n - start = k := by omega
    rw [Nat.mod_eq_sub_mod wrapped, Nat.mod_eq_of_lt once, whole, Nat.mod_eq_of_lt steps]

/-- The overflow check keeps the index on the cycle. -/
theorem succ_mod (positive : 0 < n) :
    (if (start + k) % n + 1 = n then 0 else (start + k) % n + 1) = (start + (k + 1)) % n := by
  have bound := Nat.mod_lt (start + k) positive
  rw [← Nat.add_assoc, ← Nat.mod_add_mod (start + k)]
  split
  next full => rw [full, Nat.mod_self]
  next free => exact (Nat.mod_eq_of_lt (by omega)).symm

end Cycle

/-- The result of `next` among the bits at `start`, `start + 1`, … -/
inductive Search (b : Bitset) (idx start : Nat) : Bool × Nat → Prop where
  | found (k : Nat) (inside : k < b.bits) (isSet : b.IsSet ((start + k) % b.bits))
      (unset : ∀ j < k, ¬b.IsSet ((start + j) % b.bits)) :
      Search b idx start (true, (start + k) % b.bits)
  | missed (unset : ∀ j < b.bits, ¬b.IsSet ((start + j) % b.bits)) :
      Search b idx start (false, idx)

/-- The loop, when the first `chkCnt` bits from `start` are not set.  By induction on the
number of bits that are left. -/
theorem nextLoop_search (b : Bitset) (idx start chkCnt : Nat) (counted : chkCnt < b.bits)
    (unset : ∀ j < chkCnt, ¬b.IsSet ((start + j) % b.bits)) :
    ∃ result, b.nextLoop idx ((start + chkCnt) % b.bits) chkCnt = .ok result ∧
      Search b idx start result := by
  have positive : 0 < b.bits := Nat.zero_lt_of_lt counted
  have inside : (start + chkCnt) % b.bits < b.bits := Nat.mod_lt _ positive
  rw [nextLoop]
  by_cases isSet : b.IsSet ((start + chkCnt) % b.bits)
  · rw [isSet.test]
    exact ⟨_, rfl, .found chkCnt counted isSet unset⟩
  · have further : ∀ j < chkCnt + 1, ¬b.IsSet ((start + j) % b.bits) := by
      intro j before
      rcases Nat.lt_succ_iff_lt_or_eq.mp before with earlier | rfl
      · exact unset j earlier
      · exact isSet
    rw [test_of_not_isSet inside isSet]
    simp only [bind, Except.bind, Bool.false_eq_true, if_false, succ_mod positive]
    split
    next more => exact nextLoop_search b idx start (chkCnt + 1) more further
    next last =>
      have all : b.bits = chkCnt + 1 := by omega
      exact ⟨_, rfl, .missed (all ▸ further)⟩
termination_by b.bits - chkCnt

theorem next_search {b : Bitset} {start : Nat} (idx : Nat) (inside : start < b.bits) :
    ∃ result, b.next idx start = .ok result ∧ Search b idx start result := by
  have search := nextLoop_search b idx start 0 (Nat.zero_lt_of_lt inside) (by simp)
  rwa [Nat.add_zero, Nat.mod_eq_of_lt inside, ← if_pos (t := b.nextLoop idx start 0)
    (e := .error .assertion) inside] at search

/-- The loop of `any` finds the first set bit, or ends behind the last one. -/
theorem anyLoop_cases (bitset : List Bool) (offset : Nat) :
    (∃ i : Nat, bitset[i]? = some true ∧ (∀ j < i, bitset[j]? ≠ some true) ∧
      anyLoop bitset offset = (true, offset + i)) ∨
    ((∀ i : Nat, bitset[i]? ≠ some true) ∧ (anyLoop bitset offset).1 = false) := by
  induction bitset generalizing offset with
  | nil => exact .inr ⟨by simp, rfl⟩
  | cons bit rest ih =>
      cases bit with
      | true => exact .inl ⟨0, by simp [anyLoop]⟩
      | false =>
          rw [anyLoop, if_neg Bool.false_ne_true]
          rcases ih (offset + 1) with ⟨i, isSet, unset, found⟩ | ⟨unset, missed⟩
          · refine .inl ⟨i + 1, isSet, ?_, by rw [found, Nat.add_assoc, Nat.add_comm 1]⟩
            intro j before
            cases j with
            | zero => simp
            | succ j => exact unset j (Nat.lt_of_succ_lt_succ before)
          · refine .inr ⟨?_, missed⟩
            intro i
            cases i with
            | zero => simp
            | succ i => exact unset i

namespace Search

variable {b : Bitset} {idx start : Nat} {result : Bool × Nat}

/-- A bit is found unless none is set. -/
theorem found_iff (search : Search b idx start result) (inside : start < b.bits) :
    result.1 = true ↔ ∃ i, b.IsSet i := by
  cases search with
  | found k _ isSet _ => exact ⟨fun _ => ⟨_, isSet⟩, fun _ => rfl⟩
  | missed unset =>
      refine ⟨fun found => (Bool.false_ne_true found).elim, ?_⟩
      intro ⟨i, isSet⟩
      refine (unset (cyclicDistance b.bits start i) (cyclicDistance_lt inside) ?_).elim
      rwa [add_cyclicDistance inside isSet.inside]

/-- The bit that is found is set, and no set bit is nearer. -/
theorem nearest (search : Search b idx start result) (inside : start < b.bits)
    (found : result.1 = true) :
    b.IsSet result.2 ∧ ∀ i, b.IsSet i →
      cyclicDistance b.bits start result.2 ≤ cyclicDistance b.bits start i := by
  cases search with
  | found k steps isSet unset =>
      refine ⟨isSet, ?_⟩
      intro i other
      rw [cyclicDistance_add inside steps]
      apply Nat.le_of_not_lt
      intro nearer
      refine unset _ nearer ?_
      rwa [add_cyclicDistance inside other.inside]
  | missed => cases found

theorem idx_eq (search : Search b idx start result) (missed : result.1 = false) :
    result.2 = idx := by
  cases search with
  | found => cases missed
  | missed => rfl

/-- From the first index on, `next` and `first` agree. -/
theorem eq_first (search : Search b idx 0 result) (inside : 0 < b.bits) :
    result.1 = b.first.1 ∧ (result.1 = true → result.2 = b.first.2) := by
  have found := search.found_iff inside
  rcases anyLoop_cases b.bitset 0 with ⟨i, isSet, unset, any⟩ | ⟨unset, any⟩
  · have here := found.mpr ⟨i, isSet⟩
    have first : b.first = (true, i) := by rw [first, Bitset.any, any, Nat.zero_add]
    refine ⟨here.trans (congrArg Prod.fst first).symm, fun _ => ?_⟩
    have nearest := search.nearest inside here
    have distance (j : Nat) (set : b.IsSet j) : cyclicDistance b.bits 0 j = j := by
      rw [cyclicDistance, Nat.sub_zero, Nat.add_mod_right, Nat.mod_eq_of_lt set.inside]
    have le := nearest.2 i isSet
    rw [distance _ nearest.1, distance _ isSet] at le
    have ge : ¬result.2 < i := fun before => unset _ before nearest.1
    rw [first]
    omega
  · have missed : result.1 = false := by
      apply Bool.eq_false_iff.mpr
      intro here
      have ⟨i, isSet⟩ := found.mp here
      exact unset i isSet
    exact ⟨missed.trans any.symm, fun here => by rw [missed] at here; cases here⟩

end Search

/-- **The search is exact.**  On a bitset reached by any calls, `next` fails no assertion,
so it tests no index outside; it returns the set bit with the smallest cyclic distance from
`start`, or leaves `idx` alone when there is none. -/
theorem next_exact (n start idx : Nat) (ops : List Op) (b : Bitset)
    (reached : (create n).run ops = .ok b) (inside : start < n) :
    ∃ found result, b.next idx start = .ok (found, result) ∧
      (found = true ↔ ∃ i < n, b.IsSet i) ∧
      (found = true → result < n ∧ b.IsSet result ∧ ∀ i, b.IsSet i →
        cyclicDistance n start result ≤ cyclicDistance n start i) ∧
      (found = false → result = idx) ∧
      (start = 0 → found = b.first.1 ∧ (found = true → result = b.first.2)) := by
  have bits : b.bits = n := run_bits reached
  rw [← bits] at inside
  have ⟨result, found, search⟩ := next_search idx inside
  refine ⟨result.1, result.2, found, ?_, ?_, search.idx_eq, ?_⟩
  · rw [search.found_iff inside]
    exact ⟨fun ⟨i, isSet⟩ => ⟨i, bits ▸ isSet.inside, isSet⟩, fun ⟨i, _, isSet⟩ => ⟨i, isSet⟩⟩
  · intro here
    have ⟨isSet, nearest⟩ := search.nearest inside here
    rw [← bits]
    exact ⟨isSet.inside, isSet, nearest⟩
  · intro zero
    subst zero
    exact search.eq_first inside

/-- Five bits of which two are set, searched from behind the last one. -/
theorem next_exact_wraps :
    ∃ b, (create 5).run [.set 1, .toggle 2, .toggle 4, .unset 4] = .ok b ∧
      b.next 7 3 = .ok (true, 1) := by
  have ⟨found, result, next, iff, nearest, _⟩ :=
    next_exact 5 3 7 [.set 1, .toggle 2, .toggle 4, .unset 4] ⟨[false, true, true, false, false],
      5, rfl⟩ rfl (by decide)
  have here : found = true := iff.mpr ⟨1, by decide, rfl⟩
  have ⟨inside, isSet, near⟩ := nearest here
  have one := near 1 rfl
  refine ⟨_, rfl, next.trans ?_⟩
  interval_cases result
  all_goals first | exact absurd isSet (by decide) | exact absurd one (by decide) | rw [here]

end Bitset

end LibTasks.Tools

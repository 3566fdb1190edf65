import Mathlib
import LibTasks.Foundation.Bytes

/-!
# C strings and decimal numbers

The functions of the C and C++ libraries on character data: numbers in decimal,
`atoi`, comparison without regard to case, and searching in a string that ends at
its first zero byte.
-/

namespace LibTasks.Foundation

/-- The characters of a string literal. -/
def text (s : String) : Bytes := s.toList.map fun c => UInt8.ofNat c.toNat

def toUpper (c : UInt8) : UInt8 := if 97 ≤ c && c ≤ 122 then c - 32 else c

/-- `boost::iequals` in the C locale. -/
def iequals (s t : Bytes) : Bool := s.map toUpper == t.map toUpper

/-! ## Numbers -/

def isDigit (c : UInt8) : Bool := 48 ≤ c && c ≤ 57

/-- `isspace` in the C locale. -/
def isSpace (c : UInt8) : Bool := c == 32 || 9 ≤ c && c ≤ 13

/-- The value of a string of digits, continuing from `acc`. -/
def digitsValue (acc : Nat) (digits : Bytes) : Nat :=
  digits.foldl (fun acc c => 10 * acc + (c.toNat - 48)) acc

/-- The number that the leading digits of a string form. -/
def leadingNumber (s : Bytes) : Nat :=
  digitsValue 0 (s.takeWhile isDigit)

/-- `strtol` in base 10, on a 64-bit platform. -/
def strtol (s : Bytes) : Int :=
  match s.dropWhile isSpace with
  | 45 :: rest => max (-2 ^ 63) (-(leadingNumber rest : Int))
  | 43 :: rest => min (2 ^ 63 - 1) (leadingNumber rest : Int)
  | rest => min (2 ^ 63 - 1) (leadingNumber rest : Int)

/-- `atoi`, which converts the result of `strtol` to an `int`. -/
def atoi (s : Bytes) : Int :=
  (strtol s).bmod (2 ^ 32)

/-- The result of `atoi` is an `int`. -/
theorem atoi_bounds (s : Bytes) : -2 ^ 31 ≤ atoi s ∧ atoi s < 2 ^ 31 := by
  have low := Int.le_bmod (x := strtol s) (m := 2 ^ 32) (by decide)
  have high := Int.bmod_lt (x := strtol s) (m := 2 ^ 32) (by decide)
  unfold atoi
  omega

/-- The decimal digits of `n` in front of `acc`. -/
def decimalOnto : Nat → Nat → Bytes → Bytes
  | 0, _, acc => acc
  | fuel + 1, n, acc =>
      let acc := UInt8.ofNat (48 + n % 10) :: acc
      if n / 10 = 0 then acc else decimalOnto fuel (n / 10) acc

/-- `std::to_string` of an unsigned number. -/
def decimal (n : Nat) : Bytes :=
  decimalOnto (n + 1) n []

theorem toNat_digit (d : Nat) (small : d < 10) : (UInt8.ofNat (48 + d)).toNat = 48 + d := by
  simp
  omega

theorem isDigit_digit (d : Nat) (small : d < 10) : isDigit (UInt8.ofNat (48 + d)) = true := by
  have value := toNat_digit d small
  simp only [isDigit, Bool.and_eq_true, decide_eq_true_eq, UInt8.le_iff_toNat_le, value]
  constructor
  · exact Nat.le_add_right 48 d
  · exact Nat.add_le_add_left (Nat.le_of_lt_succ small) 48

@[simp] theorem digitsValue_cons (acc : Nat) (c : UInt8) (rest : Bytes) :
    digitsValue acc (c :: rest) = digitsValue (10 * acc + (c.toNat - 48)) rest := by
  rw [digitsValue, List.foldl_cons, digitsValue]

/-- Writing the digits of `n` in front of further digits continues `n` with them. -/
theorem digitsValue_decimalOnto {fuel n : Nat} (enough : n < 10 ^ (fuel + 1)) (acc : Bytes) :
    digitsValue 0 (decimalOnto (fuel + 1) n acc) = digitsValue n acc := by
  induction fuel generalizing n acc with
  | zero =>
      have single : n / 10 = 0 := by omega
      rw [decimalOnto, if_pos single, digitsValue_cons, toNat_digit _ (Nat.mod_lt n (by decide))]
      congr 1
      omega
  | succ fuel ih =>
      have digit := toNat_digit (n % 10) (Nat.mod_lt n (by decide))
      rw [decimalOnto]
      split
      · rw [digitsValue_cons, digit]
        congr 1
        omega
      · have fewer : n / 10 < 10 ^ (fuel + 1) := by
          rw [Nat.pow_succ] at enough
          omega
        rw [ih fewer, digitsValue_cons, digit]
        congr 1
        omega

theorem digitsValue_decimal (n : Nat) : digitsValue 0 (decimal n) = n := by
  have enough : n < 10 ^ (n + 1) :=
    Nat.lt_of_lt_of_le (Nat.lt_pow_self (by decide)) (Nat.pow_le_pow_right (by decide) (by omega))
  rw [decimal, digitsValue_decimalOnto enough]
  rfl

theorem isDigit_of_mem_decimalOnto {fuel n : Nat} {acc : Bytes}
    (digits : ∀ c ∈ acc, isDigit c = true) :
    ∀ c ∈ decimalOnto fuel n acc, isDigit c = true := by
  induction fuel generalizing n acc with
  | zero => exact digits
  | succ fuel ih =>
      have extended : ∀ c ∈ UInt8.ofNat (48 + n % 10) :: acc, isDigit c = true := by
        intro c member
        rcases List.mem_cons.mp member with rfl | member
        · exact isDigit_digit _ (Nat.mod_lt n (by decide))
        · exact digits c member
      rw [decimalOnto]
      split
      · exact extended
      · exact ih extended

theorem isDigit_of_mem_decimal {n : Nat} : ∀ c ∈ decimal n, isDigit c = true :=
  isDigit_of_mem_decimalOnto nofun

theorem length_le_decimalOnto (fuel n : Nat) (acc : Bytes) :
    acc.length ≤ (decimalOnto fuel n acc).length := by
  induction fuel generalizing n acc with
  | zero => exact Nat.le_refl _
  | succ fuel ih =>
      rw [decimalOnto]
      split
      · simp
      · have longer := ih (n / 10) (UInt8.ofNat (48 + n % 10) :: acc)
        simp only [List.length_cons] at longer
        omega

theorem decimal_ne_nil (n : Nat) : decimal n ≠ [] := by
  intro empty
  have length : 1 ≤ (decimal n).length := by
    rw [decimal, decimalOnto]
    split
    · simp
    · exact length_le_decimalOnto n (n / 10) [UInt8.ofNat (48 + n % 10)]
  simp [empty] at length

/-- A string that starts with a digit has neither leading space nor a sign. -/
theorem strtol_of_isDigit {c : UInt8} (digit : isDigit c = true) (rest : Bytes) :
    strtol (c :: rest) = min (2 ^ 63 - 1) (leadingNumber (c :: rest) : Int) := by
  simp only [isDigit, Bool.and_eq_true, decide_eq_true_eq, UInt8.le_iff_toNat_le] at digit
  have value (k : UInt8) (equal : c = k) : 48 ≤ k.toNat ∧ k.toNat ≤ 57 := equal ▸ digit
  have notSpace : isSpace c = false := by
    simp only [isSpace, Bool.or_eq_false_iff, Bool.and_eq_false_iff, beq_eq_false_iff_ne,
      decide_eq_false_iff_not, UInt8.le_iff_toNat_le]
    refine ⟨fun equal => absurd (value 32 equal) (by decide), .inr ?_⟩
    exact fun low => absurd (Nat.le_trans digit.1 low) (by decide)
  have notMinus : c ≠ 45 := fun equal => absurd (value 45 equal) (by decide)
  have notPlus : c ≠ 43 := fun equal => absurd (value 43 equal) (by decide)
  rw [strtol, List.dropWhile_cons, notSpace]
  simp only [Bool.false_eq_true, ↓reduceIte]
  split
  · next equal => exact absurd (List.cons.inj equal).1 notMinus
  · next equal => exact absurd (List.cons.inj equal).1 notPlus
  · rfl

theorem length_decimalOnto_le (fuel n : Nat) (acc : Bytes) :
    (decimalOnto fuel n acc).length ≤ fuel + acc.length := by
  induction fuel generalizing n acc with
  | zero => simp [decimalOnto]
  | succ fuel ih =>
      unfold decimalOnto
      dsimp only
      split
      · rw [List.length_cons]
        omega
      · have rest := ih (n / 10) (UInt8.ofNat (48 + n % 10) :: acc)
        rw [List.length_cons] at rest
        omega

theorem length_decimal_le (n : Nat) : (decimal n).length ≤ n + 1 :=
  length_decimalOnto_le (n + 1) n []

/-- `atoi` reads back what `std::to_string` wrote. -/
theorem atoi_decimal {n : Nat} (small : n < 2 ^ 31) : atoi (decimal n) = n := by
  have digits : ∀ c ∈ decimal n, isDigit c = true := isDigit_of_mem_decimal
  have value : leadingNumber (decimal n) = n := by
    rw [leadingNumber, List.takeWhile_eq_self_iff.mpr digits, digitsValue_decimal]
  have converted : strtol (decimal n) = n := by
    cases shape : decimal n with
    | nil => exact absurd shape (decimal_ne_nil n)
    | cons c rest =>
        rw [shape] at value digits
        rw [strtol_of_isDigit (digits c List.mem_cons_self), value]
        omega
  rw [atoi, converted]
  exact Int.bmod_eq_of_le (by omega) (by omega)

/-! ## Strings in memory -/

/-- The C string at the start of a block of memory, if the block has an end of
one. -/
def cString (memory : Bytes) : Option Bytes :=
  if 0 ∈ memory then some (memory.takeWhile (· ≠ 0)) else none

/-- `strchr`, as an offset. -/
def findChar (c : UInt8) (s : Bytes) : Option Nat := s.findIdx? (· = c)

/-- `strstr` for a carriage return and a line feed, as an offset. -/
def findCrlf : Bytes → Option Nat
  | [] => none
  | c :: rest => if c = 13 ∧ rest.head? = some 10 then some 0 else (findCrlf rest).map (· + 1)

/-- A byte string as a message shows it. -/
def display (s : Bytes) : String := String.ofList (s.map fun c => Char.ofNat c.toNat)

/-- The string ends at the first zero byte. -/
theorem cString_append {s : Bytes} (noNul : 0 ∉ s) (rest : Bytes) :
    cString (s ++ 0 :: rest) = some s := by
  have nonzero : ∀ c ∈ s, decide (c ≠ 0) = true := by
    intro c member
    exact decide_eq_true fun zero => noNul (zero ▸ member)
  have whole : (s ++ 0 :: rest).takeWhile (· ≠ 0) = s := by
    rw [List.takeWhile_append_of_pos nonzero]
    simp
  rw [cString, if_pos (List.mem_append_right s List.mem_cons_self), whole]

theorem exists_of_cString {memory s : Bytes} (found : cString memory = some s) :
    0 ∉ s ∧ ∃ rest, memory = s ++ 0 :: rest := by
  have ends : 0 ∈ memory := by
    unfold cString at found
    split at found
    · assumption
    · simp at found
  obtain ⟨front, rest, rfl, noNul⟩ := List.eq_append_cons_of_mem ends
  rw [cString_append noNul, Option.some.injEq] at found
  subst found
  exact ⟨noNul, rest, rfl⟩

/-! ## What is inspected -/

/-- The places in memory that are inspected by a function which reads from `pos` on
and stops at the first byte with a property. -/
def inspected (stops : UInt8 → Bool) (memory : Bytes) (pos : Nat) : List Nat :=
  List.range' pos ((memory.drop pos).findIdx stops + 1)

theorem self_mem_inspected (stops : UInt8 → Bool) (memory : Bytes) (pos : Nat) :
    pos ∈ inspected stops memory pos :=
  List.mem_range'_1.mpr ⟨Nat.le_refl pos, by omega⟩

/-- Nothing is inspected behind a byte that the function stops at. -/
theorem inspected_inside {stops : UInt8 → Bool} {memory : Bytes} {pos stop : Nat} {c : UInt8}
    (before : pos ≤ stop) (stored : memory[stop]? = some c) (ends : stops c = true) :
    ∀ place ∈ inspected stops memory pos, pos ≤ place ∧ place ≤ stop := by
  have there : (memory.drop pos)[stop - pos]? = some c := by
    rw [List.getElem?_drop, Nat.add_sub_cancel' before, stored]
  obtain ⟨inside, same⟩ := List.getElem?_eq_some_iff.mp there
  have first : (memory.drop pos).findIdx stops ≤ stop - pos := by
    by_contra late
    have passed := List.not_of_lt_findIdx (Nat.not_le.mp late)
    rw [same, ends] at passed
    cases passed
  intro place member
  have range := List.mem_range'_1.mp member
  omega

theorem findCrlf_append {line : Bytes} (noCr : 13 ∉ line) (rest : Bytes) :
    findCrlf (line ++ 13 :: 10 :: rest) = some line.length := by
  induction line with
  | nil => simp [findCrlf]
  | cons c line ih =>
      have different : c ≠ 13 := fun equal => noCr (equal ▸ List.mem_cons_self)
      have rest := ih fun member => noCr (List.mem_cons_of_mem c member)
      simp [findCrlf, different, rest]

/-- A line that has not ended, whether or not its carriage return is there. -/
theorem findCrlf_eq_none {line : Bytes} (noCr : 13 ∉ line) :
    findCrlf line = none ∧ findCrlf (line ++ [13]) = none := by
  induction line with
  | nil => simp [findCrlf]
  | cons c line ih =>
      have different : c ≠ 13 := fun equal => noCr (equal ▸ List.mem_cons_self)
      have rest := ih fun member => noCr (List.mem_cons_of_mem c member)
      simp [findCrlf, different, rest]

theorem exists_of_findCrlf {s : Bytes} {len : Nat} (found : findCrlf s = some len) :
    ∃ line rest, line.length = len ∧ s = line ++ 13 :: 10 :: rest := by
  induction s generalizing len with
  | nil => simp [findCrlf] at found
  | cons c s ih =>
      rw [findCrlf] at found
      split at found
      · next ends =>
          obtain ⟨tail, rfl⟩ := List.head?_eq_some_iff.mp ends.2
          simp only [Option.some.injEq] at found
          exact ⟨[], tail, found, by rw [ends.1]; rfl⟩
      · obtain ⟨before, earlier, rfl⟩ := Option.map_eq_some_iff.mp found
        obtain ⟨line, rest, length, rfl⟩ := ih earlier
        exact ⟨c :: line, rest, by rw [List.length_cons, length], rfl⟩

end LibTasks.Foundation

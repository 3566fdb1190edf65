import Mathlib

/-!
# Memory blocks

Byte strings, and a growable block of memory as a list that is read and written
at offsets.  Reading beyond the end gives zero, the value of the bytes that
growing the block adds, so growing does not change what is read anywhere.
-/

namespace LibTasks.Foundation

abbrev Bytes := List UInt8

section Blocks

variable {α : Type}

/-- Write `data` over the block from offset `pos` on. -/
def overwrite (block : List α) (pos : Nat) (data : List α) : List α :=
  block.take pos ++ data ++ block.drop (pos + data.length)

/-- The part of the block of length `len` from offset `pos` on. -/
def slice (block : List α) (pos len : Nat) : List α :=
  (block.drop pos).take len

@[simp] theorem length_overwrite {block data : List α} {pos : Nat}
    (room : pos + data.length ≤ block.length) :
    (overwrite block pos data).length = block.length := by
  simp only [overwrite, List.length_append, List.length_take, List.length_drop]
  omega

/-- What was written follows what stood before it. -/
theorem take_overwrite {block data : List α} {pos : Nat} (inside : pos ≤ block.length) :
    (overwrite block pos data).take (pos + data.length) = block.take pos ++ data := by
  have length : (block.take pos ++ data).length = pos + data.length := by
    simp [inside]
  rw [overwrite, ← length, List.take_left]

/-- Writing does not change what stands before. -/
theorem take_overwrite_of_le {block data : List α} {pos n : Nat} (before : n ≤ pos)
    (inside : pos ≤ block.length) : (overwrite block pos data).take n = block.take n := by
  rw [overwrite, List.append_assoc, List.take_append_of_le_length, List.take_take]
  · rw [Nat.min_eq_left before]
  · simp only [List.length_take]
    omega

/-- Writing does not change what stands behind. -/
theorem drop_overwrite_of_le {block data : List α} {pos n : Nat}
    (inside : pos ≤ block.length) (behind : pos + data.length ≤ n) :
    (overwrite block pos data).drop n = block.drop n := by
  have length : (block.take pos ++ data).length = pos + data.length := by
    simp [inside]
  rw [overwrite, List.drop_append, length, List.drop_eq_nil_of_le (length ▸ behind),
    List.nil_append, List.drop_drop]
  congr 1
  omega

@[simp] theorem overwrite_nil (block : List α) (pos : Nat) : overwrite block pos [] = block := by
  simp [overwrite]

/-- Data written in two parts. -/
theorem overwrite_overwrite (block first second : List α) :
    overwrite (overwrite block 0 first) first.length second =
      overwrite block 0 (first ++ second) := by
  simp [overwrite, List.drop_append]

/-- Data written behind data that was just written. -/
theorem overwrite_append {block first : List α} {pos : Nat} (inside : pos ≤ block.length)
    (second : List α) :
    overwrite (overwrite block pos first) (pos + first.length) second =
      overwrite block pos (first ++ second) := by
  have behind := drop_overwrite_of_le inside
    (show pos + first.length ≤ pos + first.length + second.length by omega)
  rw [overwrite, take_overwrite inside, behind, overwrite, List.length_append, List.append_assoc,
    List.append_assoc, List.append_assoc, List.append_assoc, Nat.add_assoc]

/-- The block from a place before the written data on. -/
theorem drop_overwrite {block data : List α} {pos start : Nat} (before : start ≤ pos)
    (inside : pos ≤ block.length) :
    (overwrite block pos data).drop start =
      slice block start (pos - start) ++ data ++ block.drop (pos + data.length) := by
  rw [overwrite, List.append_assoc, List.append_assoc, List.drop_append_of_le_length
    (by rw [List.length_take]; omega), slice, List.drop_take]

/-- What stood before the written data, and the data. -/
theorem slice_overwrite {block data : List α} {pos start : Nat} (before : start ≤ pos)
    (inside : pos ≤ block.length) :
    slice (overwrite block pos data) start (pos - start + data.length) =
      slice block start (pos - start) ++ data := by
  have length : (slice block start (pos - start) ++ data).length = pos - start + data.length := by
    rw [List.length_append, slice, List.length_take, List.length_drop]
    omega
  rw [slice, drop_overwrite before inside, ← length, List.take_left]

@[simp] theorem length_slice (block : List α) (pos len : Nat) :
    (slice block pos len).length = min len (block.length - pos) := by
  simp [slice]

/-- A slice that starts at the beginning. -/
@[simp] theorem slice_zero (block : List α) (len : Nat) : slice block 0 len = block.take len := by
  simp [slice]

/-- A slice of a block whose first bytes are known. -/
theorem slice_of_take {block known : List α} {pos len n : Nat} (prefixed : block.take n = known)
    (inside : pos + len ≤ n) : slice block pos len = slice known pos len := by
  subst prefixed
  simp only [slice, List.drop_take, List.take_take]
  congr 1
  omega

/-- The slice of a concatenation at the position of its middle part. -/
theorem slice_middle (first middle last : List α) :
    slice (first ++ middle ++ last) first.length middle.length = middle := by
  simp [slice]

/-- A slice splits at any point inside it. -/
theorem slice_add (block : List α) (pos m n : Nat) :
    slice block pos (m + n) = slice block pos m ++ slice block (pos + m) n := by
  rw [slice, slice, slice, List.take_add, List.drop_drop]

/-- What stands from a position on, as the next part and the rest. -/
theorem drop_eq_slice_append (block : List α) (pos len : Nat) :
    block.drop pos = slice block pos len ++ block.drop (pos + len) := by
  rw [slice, ← List.drop_drop, List.take_append_drop]

/-- The first part of a stream, when it is no longer than a known beginning. -/
theorem exists_split_of_append_eq {left rest first unread : List α}
    (same : left ++ rest = first ++ unread) (short : first.length ≤ left.length) :
    ∃ more, left = first ++ more ∧ unread = more ++ rest := by
  have inside : first <+: left :=
    List.prefix_of_prefix_length_le ⟨unread, same.symm⟩ ⟨rest, rfl⟩ short
  obtain ⟨more, rfl⟩ := inside
  rw [List.append_assoc] at same
  exact ⟨more, rfl, (List.append_cancel_left same).symm⟩

end Blocks

/-! ## Growing -/

/-- `vector::resize`: cut off, or fill up with zeros. -/
def resize (block : Bytes) (len : Nat) : Bytes :=
  block.take len ++ List.replicate (len - block.length) 0

@[simp] theorem length_resize (block : Bytes) (len : Nat) : (resize block len).length = len := by
  simp only [resize, List.length_append, List.length_take, List.length_replicate]
  omega

theorem resize_of_le {block : Bytes} {len : Nat} (grows : block.length ≤ len) :
    resize block len = block ++ List.replicate (len - block.length) 0 := by
  rw [resize, List.take_of_length_le grows]

theorem take_resize {block : Bytes} {len n : Nat} (grows : block.length ≤ len)
    (inside : n ≤ block.length) : (resize block len).take n = block.take n := by
  rw [resize_of_le grows, List.take_append_of_le_length inside]

/-- The `len` bytes from offset `pos` on, with zeros beyond the end. -/
def window (block : Bytes) (pos len : Nat) : Bytes :=
  (List.range len).map fun k => block.getD (pos + k) 0

@[simp] theorem length_window (block : Bytes) (pos len : Nat) :
    (window block pos len).length = len := by
  simp [window]

theorem slice_eq_window {block : Bytes} {pos len : Nat} (inside : pos + len ≤ block.length) :
    slice block pos len = window block pos len := by
  refine List.ext_getElem (by simp; omega) fun k _ bound => ?_
  simp only [length_window] at bound
  have within : pos + k < block.length := by omega
  simp [slice, window, List.getElem?_eq_getElem within]

/-- Growing does not change what is read. -/
theorem window_resize {block : Bytes} {newLen : Nat} (grows : block.length ≤ newLen)
    (pos len : Nat) : window (resize block newLen) pos len = window block pos len := by
  refine List.map_congr_left fun k _ => ?_
  rw [resize_of_le grows, List.getD_eq_getElem?_getD, List.getD_eq_getElem?_getD]
  by_cases within : pos + k < block.length
  · rw [List.getElem?_append_left within]
  · rw [List.getElem?_append_right (by omega), List.getElem?_eq_none (l := block) (by omega),
      List.getElem?_replicate]
    split <;> rfl

theorem window_overwrite_of_le {block data : Bytes} {pos n : Nat} (inside : pos ≤ block.length)
    (behind : pos + data.length ≤ n) (len : Nat) :
    window (overwrite block pos data) n len = window block n len := by
  refine List.map_congr_left fun k _ => ?_
  have same := drop_overwrite_of_le (n := n + k) inside (by omega : pos + data.length ≤ n + k)
  have heads := congrArg List.head? same
  simp only [List.head?_drop] at heads
  rw [List.getD_eq_getElem?_getD, List.getD_eq_getElem?_getD, heads]

/-! ## Two-byte lengths -/

/-- The little-endian form of the 16 low bits. -/
def le16 (n : Nat) : Bytes :=
  [UInt8.ofNat n, UInt8.ofNat (n / 256)]

/-- The two-byte number at an offset. -/
def u16At (block : Bytes) (pos : Nat) : Nat :=
  (block.getD pos 0).toNat + 256 * (block.getD (pos + 1) 0).toNat

@[simp] theorem length_le16 (n : Nat) : (le16 n).length = 2 := rfl

theorem u16At_lt (block : Bytes) (pos : Nat) : u16At block pos < 65536 := by
  have low := (block.getD pos 0).toNat_lt
  have high := (block.getD (pos + 1) 0).toNat_lt
  unfold u16At
  omega

/-- Reading back a length that was written. -/
theorem u16At_of_slice {block : Bytes} {pos n : Nat} (small : n < 65536)
    (written : slice block pos 2 = le16 n) : u16At block pos = n := by
  have inside : pos + 2 ≤ block.length := by
    have length := congrArg List.length written
    simp only [length_slice, length_le16] at length
    omega
  rw [slice_eq_window inside] at written
  simp only [window, le16, List.range_succ, List.range_zero, List.nil_append, List.map_cons,
    List.map_nil, Nat.add_zero, List.cons_append, List.cons.injEq, and_true] at written
  rw [u16At, written.1, written.2]
  simp
  omega

/-- The two bytes at an offset are the form of the number there. -/
theorem slice_two {block : Bytes} {pos : Nat} (inside : pos + 2 ≤ block.length) :
    slice block pos 2 = le16 (u16At block pos) := by
  have low := (block.getD pos 0).toNat_lt
  have bytes : slice block pos 2 = [block.getD pos 0, block.getD (pos + 1) 0] :=
    slice_eq_window inside
  rw [bytes, le16, u16At]
  generalize block.getD pos 0 = first at *
  generalize block.getD (pos + 1) 0 = second
  have high : (first.toNat + 256 * second.toNat) / 256 = second.toNat := by omega
  rw [high, UInt8.ofNat_toNat]
  congr 1
  apply UInt8.toNat_inj.mp
  rw [UInt8.toNat_ofNat']
  omega

theorem u16At_take {block : Bytes} {pos n : Nat} (inside : pos + 2 ≤ n) :
    u16At (block.take n) pos = u16At block pos := by
  simp only [u16At, List.getD_eq_getElem?_getD, List.getElem?_take_of_lt (show pos < n by omega),
    List.getElem?_take_of_lt (show pos + 1 < n by omega)]

theorem le_length_of_mem_drop {c : UInt8} {s : Bytes} {count : Nat} (member : c ∈ s.drop count) :
    count ≤ s.length := by
  have positive := List.length_pos_of_mem member
  rw [List.length_drop] at positive
  omega

end LibTasks.Foundation

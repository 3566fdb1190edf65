import LibTasks.Foundation.Bytes

/-!
# `tasks::tools::buffer`

The stream buffer of `include/tasks/tools/buffer.h`: a vector that only grows, a
logical size, and the get and put pointers, all as offsets from the start of the
vector.  Sizes are `size_t` values; pointer differences are signed.
-/

namespace LibTasks.Tools

open LibTasks.Foundation

/-- Ways in which the program ends that no `tasks_exception` reports. -/
inductive Fault where
  /-- A failed `assert`. -/
  | assertion
  /-- `std::length_error` of `vector::resize`. -/
  | lengthError
  /-- An access outside the vector. -/
  | outOfBounds
  /-- A dereferenced null pointer. -/
  | nullPointer
  /-- A loop that never ends. -/
  | diverges
  deriving DecidableEq, Repr

/-- `vector<char>::max_size`. -/
def maxSize : Nat := 2 ^ 63 - 1

/-- Conversion of a signed number to `size_t`. -/
def toSize (x : Int) : Nat := (x % 2 ^ 64).toNat

/-- A buffer with its pointers as offsets. -/
structure Buffer where
  /-- `m_buffer`. -/
  storage : Bytes := []
  /-- `m_size`. -/
  size : Nat := 0
  /-- `offset_read`. -/
  gptr : Nat := 0
  /-- `offset_write`. -/
  pptr : Nat := 0
  deriving DecidableEq, Repr

namespace Buffer

/-- `ptr`, which checks the position against the logical size. -/
def ptr (b : Buffer) (pos : Nat) : Except Fault Nat :=
  if pos ≤ b.size then .ok pos else .error .assertion

/-- `to_write`: the difference of two pointers. -/
def toWrite (b : Buffer) : Int := ((b.size : Int) - b.pptr).bmod (2 ^ 64)

/-- `to_read`. -/
def toRead (b : Buffer) : Int := ((b.size : Int) - b.gptr).bmod (2 ^ 64)

/-- `buffer_size`. -/
def bufferSize (b : Buffer) : Nat := b.storage.length

/-- `set_size`.  When the vector is reallocated, the pointers are computed again
with `ptr`, before `m_size` changes. -/
def setSize (b : Buffer) (s : Nat) : Except Fault Buffer :=
  if b.storage.length < s then
    let capacity := (s + 1024) % 2 ^ 64
    if maxSize < capacity then
      .error .lengthError
    else do
      let gptr ← b.ptr b.gptr
      let pptr ← b.ptr b.pptr
      .ok { storage := resize b.storage capacity, size := s, gptr, pptr }
  else
    .ok { b with size := s }

/-- `move_ptr_write`. -/
def movePtrWrite (b : Buffer) (s : Nat) : Buffer := { b with pptr := b.pptr + s }

/-- `move_ptr_read`. -/
def movePtrRead (b : Buffer) (s : Nat) : Buffer := { b with gptr := b.gptr + s }

/-- `move_ptr_write_abs`. -/
def movePtrWriteAbs (b : Buffer) (pos : Nat) : Except Fault Buffer := do
  let pptr ← b.ptr pos
  .ok { b with pptr }

/-- `move_ptr_read_abs`. -/
def movePtrReadAbs (b : Buffer) (pos : Nat) : Except Fault Buffer := do
  let gptr ← b.ptr pos
  .ok { b with gptr }

/-- A write to memory through a pointer into the vector. -/
def store (b : Buffer) (pos : Nat) (data : Bytes) : Except Fault Buffer :=
  if pos + data.length ≤ b.storage.length then
    .ok { b with storage := overwrite b.storage pos data }
  else
    .error .outOfBounds

/-- `write`, that is `xsputn`: make room for the data, then copy it to the put
pointer.  The put area is large enough as long as the put pointer is inside the
logical size. -/
def write (b : Buffer) (data : Bytes) : Except Fault Buffer := do
  let b ← b.setSize ((b.size + data.length) % 2 ^ 64)
  if b.pptr + data.length ≤ b.size then
    let b ← b.store b.pptr data
    .ok (b.movePtrWrite data.length)
  else
    .error .outOfBounds

/-- `read`, that is `xsgetn`: at most what is left to read. -/
def read (b : Buffer) (count : Nat) : Bytes × Buffer :=
  let count := min count b.toRead.toNat
  (slice b.storage b.gptr count, b.movePtrRead count)

/-- `clear`, which keeps the vector and its content. -/
def clear (b : Buffer) : Buffer := { b with size := 0, gptr := 0, pptr := 0 }

/-- The bytes from the get pointer up to the logical size. -/
def readable (b : Buffer) : Bytes := slice b.storage b.gptr (b.size - b.gptr)

/-- The pointers are inside the logical size, and that is inside the vector. -/
structure Ok (b : Buffer) : Prop where
  gptr : b.gptr ≤ b.size
  pptr : b.pptr ≤ b.size
  size : b.size ≤ b.storage.length
  capacity : b.storage.length ≤ maxSize

/-- A new buffer, or one after `clear` that keeps some storage. -/
structure Cleared (b : Buffer) : Prop where
  size : b.size = 0
  gptr : b.gptr = 0
  pptr : b.pptr = 0
  capacity : b.storage.length ≤ maxSize

/-! ## Growing -/

/-- The vector after `set_size`. -/
def grow (block : Bytes) (s : Nat) : Bytes :=
  if block.length < s then resize block (s + 1024) else block

theorem le_length_grow (block : Bytes) (s : Nat) : s ≤ (grow block s).length := by
  unfold grow
  split
  · simp
  · omega

theorem length_le_length_grow (block : Bytes) (s : Nat) :
    block.length ≤ (grow block s).length := by
  unfold grow
  split
  · rw [length_resize]
    omega
  · exact Nat.le_refl _

theorem length_grow_le {block : Bytes} {s limit : Nat} (before : block.length ≤ limit)
    (small : s + 1024 ≤ limit) : (grow block s).length ≤ limit := by
  unfold grow
  split
  · rw [length_resize]
    exact small
  · exact before

theorem take_grow {block : Bytes} {n : Nat} (s : Nat) (inside : n ≤ block.length) :
    (grow block s).take n = block.take n := by
  unfold grow
  split
  · exact take_resize (by omega) inside
  · rfl

theorem window_grow (block : Bytes) (s pos len : Nat) :
    window (grow block s) pos len = window block pos len := by
  unfold grow
  split
  · exact window_resize (by omega) pos len
  · rfl

/-! ## The operations on a buffer in order -/

variable {b : Buffer}

theorem Cleared.ok (cleared : b.Cleared) : b.Ok where
  gptr := Nat.le_of_eq (cleared.gptr.trans cleared.size.symm)
  pptr := Nat.le_of_eq (cleared.pptr.trans cleared.size.symm)
  size := by
    rw [cleared.size]
    exact Nat.zero_le _
  capacity := cleared.capacity

theorem clear_cleared (ok : b.Ok) : b.clear.Cleared where
  size := rfl
  gptr := rfl
  pptr := rfl
  capacity := ok.capacity

/-- `set_size` succeeds for every size that leaves room for the spare capacity. -/
theorem Ok.setSize_eq (ok : b.Ok) {s : Nat} (small : s + 1024 ≤ maxSize) :
    b.setSize s = .ok { b with storage := grow b.storage s, size := s } := by
  have modulus : (s + 1024) % 2 ^ 64 = s + 1024 := by
    unfold maxSize at small
    omega
  unfold setSize grow
  split
  · rw [modulus, if_neg (Nat.not_lt.mpr small)]
    simp [ptr, ok.gptr, ok.pptr, bind, Except.bind]
  · rfl

theorem Ok.grown (ok : b.Ok) {s : Nat} (larger : b.size ≤ s) (small : s + 1024 ≤ maxSize) :
    Ok { b with storage := grow b.storage s, size := s } where
  gptr := Nat.le_trans ok.gptr larger
  pptr := Nat.le_trans ok.pptr larger
  size := le_length_grow b.storage s
  capacity := length_grow_le ok.capacity small

theorem Ok.toWrite_eq (ok : b.Ok) : b.toWrite = ((b.size - b.pptr : Nat) : Int) := by
  have inside := ok.pptr
  have size := ok.size
  have capacity := ok.capacity
  unfold maxSize at capacity
  rw [toWrite, Int.bmod_eq_of_le (by omega) (by omega)]
  omega

theorem Ok.toRead_eq (ok : b.Ok) : b.toRead = ((b.size - b.gptr : Nat) : Int) := by
  have inside := ok.gptr
  have size := ok.size
  have capacity := ok.capacity
  unfold maxSize at capacity
  rw [toRead, Int.bmod_eq_of_le (by omega) (by omega)]
  omega

theorem Ok.length_readable (ok : b.Ok) : b.readable.length = b.size - b.gptr := by
  have inside := ok.gptr
  have size := ok.size
  rw [readable, length_slice]
  omega

theorem Ok.toRead_eq_zero (ok : b.Ok) : b.toRead = 0 ↔ b.readable = [] := by
  rw [ok.toRead_eq, ← List.length_eq_zero_iff, ok.length_readable]
  omega

/-- Reading on. -/
theorem Ok.movePtrRead (ok : b.Ok) {s : Nat} (inside : s ≤ b.readable.length) :
    (b.movePtrRead s).Ok ∧ (b.movePtrRead s).readable = b.readable.drop s := by
  have within := ok.gptr
  rw [ok.length_readable] at inside
  constructor
  · exact ⟨show b.gptr + s ≤ b.size by omega, ok.pptr, ok.size, ok.capacity⟩
  · rw [readable, readable, slice, slice, List.drop_take, List.drop_drop]
    simp only [Buffer.movePtrRead]
    congr 1
    omega

/-- `read` takes from the front of what can be read. -/
theorem Ok.read_eq (ok : b.Ok) (count : Nat) :
    (b.read count).1 = b.readable.take count ∧ (b.read count).2.Ok ∧
      (b.read count).2.readable = b.readable.drop count := by
  have left : b.toRead.toNat = b.readable.length := by
    rw [ok.toRead_eq, ok.length_readable]
    have inside := ok.gptr
    omega
  obtain ⟨moved, rest⟩ := ok.movePtrRead (Nat.min_le_right count b.readable.length)
  rw [read, left]
  refine ⟨?_, moved, rest.trans ?_⟩
  · change slice b.storage b.gptr (min count b.readable.length) = _
    rw [ok.length_readable, readable, slice, slice, List.take_take]
  · rcases Nat.le_total count b.readable.length with less | more
    · rw [Nat.min_eq_left less]
    · rw [Nat.min_eq_right more, List.drop_length, List.drop_eq_nil_of_le more]

/-- `write` appends at the put pointer. -/
theorem Ok.write_eq (ok : b.Ok) {data : Bytes}
    (small : b.size + data.length + 1024 ≤ maxSize) :
    b.write data = .ok { b with
      storage := overwrite (grow b.storage (b.size + data.length)) b.pptr data
      size := b.size + data.length
      pptr := b.pptr + data.length } := by
  have modulus : (b.size + data.length) % 2 ^ 64 = b.size + data.length := by
    unfold maxSize at small
    omega
  have inside := ok.pptr
  have room := le_length_grow b.storage (b.size + data.length)
  have fits : b.pptr + data.length ≤ b.size + data.length := by omega
  rw [write, modulus, ok.setSize_eq small]
  simp [bind, Except.bind, store, movePtrWrite, fits, Nat.le_trans fits room]

/-- After `write` the buffer is in order, and what stands before its put pointer
is what stood there followed by the data. -/
theorem Ok.written (ok : b.Ok) {data : Bytes}
    (small : b.size + data.length + 1024 ≤ maxSize) :
    Ok { b with
      storage := overwrite (grow b.storage (b.size + data.length)) b.pptr data
      size := b.size + data.length
      pptr := b.pptr + data.length } := by
  have inside := ok.pptr
  have room := le_length_grow b.storage (b.size + data.length)
  have length : (overwrite (grow b.storage (b.size + data.length)) b.pptr data).length =
      (grow b.storage (b.size + data.length)).length := length_overwrite (by omega)
  exact {
    gptr := Nat.le_trans ok.gptr (Nat.le_add_right _ _)
    pptr := Nat.add_le_add_right inside _
    size := length ▸ room
    capacity := length ▸ length_grow_le ok.capacity small }

theorem Ok.take_written (ok : b.Ok) (data : Bytes) :
    (overwrite (grow b.storage (b.size + data.length)) b.pptr data).take
        (b.pptr + data.length) = b.storage.take b.pptr ++ data := by
  have inside : b.pptr ≤ b.storage.length := Nat.le_trans ok.pptr ok.size
  rw [take_overwrite (Nat.le_trans inside (length_le_length_grow _ _)), take_grow _ inside]

/-! ## Receiving

A buffer that was cleared, set to the size of what is to come, and then filled
from the start. -/

/-- The buffer `b` set to the size `n`, after the bytes `data` were received. -/
def filled (b : Buffer) (n : Nat) (data : Bytes) : Buffer where
  storage := overwrite (grow b.storage n) 0 data
  size := n
  gptr := 0
  pptr := data.length

theorem Cleared.setSize_eq (cleared : b.Cleared) {n : Nat} (small : n + 1024 ≤ maxSize) :
    b.setSize n = .ok (b.filled n []) := by
  rw [cleared.ok.setSize_eq small]
  simp [filled, cleared.gptr, cleared.pptr]

theorem length_filled {n : Nat} {data : Bytes} (room : data.length ≤ n) :
    (b.filled n data).storage.length = (grow b.storage n).length := by
  have grown := le_length_grow b.storage n
  exact length_overwrite (by omega)

theorem Cleared.filled_ok (cleared : b.Cleared) {n : Nat} {data : Bytes}
    (room : data.length ≤ n) (small : n + 1024 ≤ maxSize) : (b.filled n data).Ok where
  gptr := Nat.zero_le _
  pptr := room
  size := by
    rw [length_filled room]
    exact le_length_grow b.storage n
  capacity := by
    rw [length_filled room]
    exact length_grow_le cleared.capacity small

/-- Storing the next bytes and moving the put pointer over them. -/
theorem store_filled {n : Nat} {data bytes : Bytes} (room : data.length + bytes.length ≤ n) :
    ∃ stored, (b.filled n data).store (b.filled n data).pptr bytes = .ok stored ∧
      stored.movePtrWrite bytes.length = b.filled n (data ++ bytes) := by
  have grown := le_length_grow b.storage n
  have length : (b.filled n data).storage.length = (grow b.storage n).length :=
    length_filled (by omega)
  have inside : (b.filled n data).pptr + bytes.length ≤ (b.filled n data).storage.length :=
    length ▸ Nat.le_trans room grown
  refine ⟨_, if_pos inside, ?_⟩
  simp [filled, movePtrWrite, overwrite_overwrite]

/-- There is nothing left to receive exactly when all has been received. -/
theorem Cleared.toWrite_filled (cleared : b.Cleared) {n : Nat} {data : Bytes}
    (room : data.length ≤ n) (small : n + 1024 ≤ maxSize) :
    (b.filled n data).toWrite = 0 ↔ data.length = n := by
  rw [(cleared.filled_ok room small).toWrite_eq]
  simp only [filled]
  omega

/-- A buffer that is full holds what was received. -/
theorem take_filled (n : Nat) (data : Bytes) :
    (b.filled n data).storage.take data.length = data := by
  simp [filled, overwrite]

theorem readable_filled (data : Bytes) : (b.filled data.length data).readable = data := by
  rw [readable, show (b.filled data.length data).gptr = 0 from rfl, slice_zero]
  exact take_filled data.length data

end Buffer

/-- A size from -1024 to -1 passes for a huge one, and the spare capacity wraps
around, so that the vector shrinks. -/
theorem Buffer.Cleared.setSize_wraps {b : Buffer} (cleared : b.Cleared) {n : Int}
    (low : -1024 ≤ n) (high : n ≤ -1) :
    b.setSize (toSize n) = .ok { b with
      storage := resize b.storage (1024 + n).toNat, size := toSize n } := by
  have capacity := cleared.capacity
  have larger : b.storage.length < toSize n := by
    unfold maxSize at capacity
    unfold toSize
    omega
  have wrapped : (toSize n + 1024) % 2 ^ 64 = (1024 + n).toNat := by
    unfold toSize
    omega
  have small : ¬maxSize < (1024 + n).toNat := by
    unfold maxSize
    omega
  rw [Buffer.setSize, if_pos larger, wrapped, if_neg small]
  simp [Buffer.ptr, cleared.gptr, cleared.pptr, bind, Except.bind]

/-- Any other negative `int` is more than a vector can hold. -/
theorem Buffer.Cleared.setSize_tooLarge {b : Buffer} (cleared : b.Cleared) {n : Int}
    (low : -2 ^ 31 ≤ n) (high : n < -1024) : b.setSize (toSize n) = .error .lengthError := by
  have capacity := cleared.capacity
  have larger : b.storage.length < toSize n := by
    unfold maxSize at capacity
    unfold toSize
    omega
  have huge : maxSize < (toSize n + 1024) % 2 ^ 64 := by
    unfold maxSize toSize
    omega
  rw [Buffer.setSize, if_pos larger, if_pos huge]

theorem toSize_natCast {n : Nat} (small : n < 2 ^ 64) : toSize n = n := by
  unfold toSize
  omega

end LibTasks.Tools

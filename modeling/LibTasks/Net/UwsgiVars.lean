import LibTasks.Net.UwsgiPacket

/-!
# `parse_vars` on any block

The loop of `uwsgi_request::parse_vars` takes two lengths off the wire in every iteration and
chains the next position from them.  It ends for every block of at most 65533 bytes; in a
longer one `val_start` may wrap around to the start of the block.  It stays inside the block
exactly if the block is a sequence of complete variables, of which the last may have an empty
key and a value that is cut off.
-/

namespace LibTasks.Net

open LibTasks.Foundation LibTasks.Tools

/-! ## The iterations -/

/-- The positions at which the loop of `parse_vars` starts an iteration. -/
def varStarts (b : Buffer) : Nat → Nat → List Nat
  | 0, _ => []
  | fuel + 1, pos =>
      if pos < b.size then
        pos :: match parseVar b pos with
          | .error _ => []
          | .ok (_, next) => varStarts b fuel next
      else
        []

variable {b : Buffer} {pos : Nat}

theorem lengthAt_eq_ok {n : Nat} :
    lengthAt b pos = .ok n ↔
      pos ≤ b.size ∧ pos + 2 ≤ b.storage.length ∧ u16At b.storage pos = n := by
  by_cases inside : pos ≤ b.size
  · by_cases room : pos + 2 ≤ b.storage.length
    · simp [lengthAt, Buffer.ptr, inside, room, bind, Except.bind]
    · simp [lengthAt, Buffer.ptr, inside, room, bind, Except.bind]
  · simp [lengthAt, Buffer.ptr, inside, bind, Except.bind]

theorem lengthAt_cases (b : Buffer) (pos : Nat) :
    (∃ f, f ≠ .diverges ∧ lengthAt b pos = .error f) ∨ ∃ n, lengthAt b pos = .ok n := by
  by_cases inside : pos ≤ b.size
  · by_cases room : pos + 2 ≤ b.storage.length
    · simp [lengthAt, Buffer.ptr, inside, room, bind, Except.bind]
    · simp [lengthAt, Buffer.ptr, inside, room, bind, Except.bind]
  · simp [lengthAt, Buffer.ptr, inside, bind, Except.bind]

theorem charsAt_cases (b : Buffer) (pos len : Nat) :
    (∃ f, f ≠ .diverges ∧ charsAt b pos len = .error f) ∨ ∃ s, charsAt b pos len = .ok s := by
  by_cases inside : pos ≤ b.size
  · by_cases room : pos + len ≤ b.storage.length
    · simp [charsAt, Buffer.ptr, inside, room, bind, Except.bind]
    · simp [charsAt, Buffer.ptr, inside, room, bind, Except.bind]
  · simp [charsAt, Buffer.ptr, inside, bind, Except.bind]

/-- What the loop of `parse_vars` copies and reads stops the program, or it comes to its next
position. -/
theorem parseVar_cases (b : Buffer) (pos : Nat) :
    (∃ f, f ≠ .diverges ∧ parseVar b pos = .error f) ∨
    ∃ found keyLen valLen, lengthAt b pos = .ok keyLen ∧
      lengthAt b ((pos + 2) % 2 ^ 16 + keyLen) = .ok valLen ∧
      parseVar b pos =
        .ok (found, ((pos + 2) % 2 ^ 16 + keyLen + 2) % 2 ^ 16 + valLen) := by
  unfold parseVar
  rcases lengthAt_cases b pos with ⟨f, ends, failed⟩ | ⟨keyLen, first⟩
  · rw [failed]
    exact .inl ⟨f, ends, rfl⟩
  rcases lengthAt_cases b ((pos + 2) % 2 ^ 16 + keyLen) with ⟨f, ends, failed⟩ | ⟨valLen, second⟩
  · simp only [first, failed, bind, Except.bind]
    exact .inl ⟨f, ends, rfl⟩
  simp only [first, second, bind, Except.bind]
  by_cases both : keyLen ≠ 0 ∧ valLen ≠ 0
  · rw [if_pos both]
    rcases charsAt_cases b ((pos + 2) % 2 ^ 16) keyLen with ⟨f, ends, failed⟩ | ⟨key, copied⟩
    · rw [failed]
      exact .inl ⟨f, ends, rfl⟩
    rcases charsAt_cases b (((pos + 2) % 2 ^ 16 + keyLen + 2) % 2 ^ 16) valLen with
      ⟨f, ends, failed⟩ | ⟨val, copiedToo⟩
    · rw [copied, failed]
      exact .inl ⟨f, ends, rfl⟩
    · rw [copied, copiedToo]
      exact .inr ⟨_, keyLen, valLen, rfl, second, rfl⟩
  · rw [if_neg both]
    exact .inr ⟨_, keyLen, valLen, rfl, second, rfl⟩

/-- The next position of an iteration that ends. -/
theorem exists_of_parseVar {found : Option (Bytes × Bytes)} {next : Nat}
    (ended : parseVar b pos = .ok (found, next)) :
    ∃ keyLen valLen, lengthAt b pos = .ok keyLen ∧
      lengthAt b ((pos + 2) % 2 ^ 16 + keyLen) = .ok valLen ∧
      next = ((pos + 2) % 2 ^ 16 + keyLen + 2) % 2 ^ 16 + valLen := by
  rcases parseVar_cases b pos with ⟨f, _, failed⟩ | ⟨other, keyLen, valLen, first, second, result⟩
  · cases failed.symm.trans ended
  · cases result.symm.trans ended
    exact ⟨keyLen, valLen, first, second, rfl⟩

/-! ## Termination -/

/-- The loop of `parse_vars` ends, and each of its iterations moves the position on. -/
structure Terminates (b : Buffer) : Prop where
  ends : ∀ h, parseLoop b (b.size + 1) 0 h ≠ .error .diverges
  increases : ∀ pos ∈ varStarts b (b.size + 1) 0, ∀ found next,
    parseVar b pos = .ok (found, next) → pos < next

theorem lt_of_mem_varStarts {fuel start : Nat} (member : pos ∈ varStarts b fuel start) :
    pos < b.size := by
  induction fuel generalizing start with
  | zero => cases member
  | succ fuel ih =>
      rw [varStarts] at member
      split at member
      · next before =>
          rcases List.mem_cons.mp member with rfl | later
          · exact before
          · split at later
            · cases later
            · exact ih later
      · cases member

/-- A loop whose iterations move on ends. -/
theorem parseLoop_ends
    (increases : ∀ pos < b.size, ∀ found next, parseVar b pos = .ok (found, next) → pos < next)
    {fuel : Nat} (enough : b.size - pos < fuel) (h : HttpBase) :
    parseLoop b fuel pos h ≠ .error .diverges := by
  induction fuel generalizing pos h with
  | zero => exact absurd enough (Nat.not_lt_zero _)
  | succ fuel ih =>
      rw [parseLoop]
      by_cases before : pos < b.size
      · rw [if_pos before]
        rcases parseVar_cases b pos with ⟨f, ends, failed⟩ | ⟨found, _, _, _, _, result⟩
        · rw [failed]
          intro same
          cases same
          exact ends rfl
        · have moved := increases pos before _ _ result
          rw [result]
          exact ih (by omega) _
      · rw [if_neg before]
        intro same
        cases same

/-- As long as neither `key_start` nor `val_start` wraps around, an iteration moves on. -/
theorem lt_of_parseVar (small : b.size < 65534) (start : pos < b.size)
    {found : Option (Bytes × Bytes)} {next : Nat}
    (ended : parseVar b pos = .ok (found, next)) : pos < next := by
  obtain ⟨keyLen, valLen, _, second, rfl⟩ := exists_of_parseVar ended
  have inside := (lengthAt_eq_ok.mp second).1
  have keyStart : (pos + 2) % 2 ^ 16 = pos + 2 := Nat.mod_eq_of_lt (by omega)
  rw [keyStart] at inside ⊢
  rw [Nat.mod_eq_of_lt (by omega)]
  omega

theorem terminates_of_small (small : b.size < 65534) : Terminates b where
  ends := parseLoop_ends (fun _ start _ _ => lt_of_parseVar small start) (Nat.lt_succ_self _)
  increases _ member _ _ := lt_of_parseVar small (lt_of_mem_varStarts member)

/-- A loop that comes back to a position with nothing found never ends. -/
theorem parseLoop_diverges (start : pos < b.size) (returns : parseVar b pos = .ok (none, pos))
    (fuel : Nat) (h : HttpBase) : parseLoop b fuel pos h = .error .diverges := by
  induction fuel with
  | zero => rfl
  | succ fuel ih =>
      rw [parseLoop, if_pos start, returns]
      exact ih

/-- A block of `n` bytes that starts with the length of a key. -/
def keyBlock (key n : Nat) : Bytes := le16 key ++ List.replicate (n - 2) 0

theorem length_keyBlock {key n : Nat} (room : 2 ≤ n) : (keyBlock key n).length = n := by
  rw [keyBlock, List.length_append, length_le16, List.length_replicate]
  exact Nat.add_sub_cancel' room

theorem storage_keyBlock (key : Nat) {n : Nat} (room : 2 ≤ n) :
    (Buffer.filled {} n (keyBlock key n)).storage =
      le16 key ++ List.replicate (n - 2 + 1024) 0 := by
  have grown : Buffer.grow [] n = List.replicate (n + 1024) 0 := by
    rw [Buffer.grow, if_pos (show [].length < n by rw [List.length_nil]; omega), resize_of_le
      (Nat.zero_le _), List.nil_append, List.length_nil, Nat.sub_zero]
  rw [Buffer.filled, grown, overwrite, length_keyBlock room, List.take_zero, List.nil_append,
    Nat.zero_add, List.drop_replicate, Nat.add_sub_cancel_left, keyBlock, List.append_assoc,
    List.replicate_append_replicate]

/-- The length of the value is read behind the key, and `val_start` wraps around to 0. -/
theorem parseVar_keyBlock {key n : Nat} (wraps : key + 4 = 2 ^ 16) (large : key + 2 ≤ n) :
    parseVar (Buffer.filled {} n (keyBlock key n)) 0 = .ok (none, 0) := by
  have room : 2 ≤ n := Nat.le_trans (Nat.le_add_left 2 key) large
  have storage := storage_keyBlock key room
  have first : lengthAt (Buffer.filled {} n (keyBlock key n)) 0 = .ok key :=
    lengthAt_of_drop (by omega) (Nat.zero_le _) (by rw [storage, List.drop_zero])
  have second : lengthAt (Buffer.filled {} n (keyBlock key n)) (2 + key) = .ok 0 := by
    apply lengthAt_of_drop (by decide)
    · change 2 + key ≤ n
      omega
    · have zeros : List.replicate (n - 2 + 1024 - key) (0 : UInt8) =
          le16 0 ++ List.replicate (n - 2 + 1024 - key - 2) 0 := by
        change _ = List.replicate 2 0 ++ _
        rw [List.replicate_append_replicate]
        congr 1
        omega
      rw [storage, ← List.drop_drop, show 2 = (le16 key).length from rfl, List.drop_left,
        List.drop_replicate]
      exact zeros
  have keyStart : (0 + 2) % 2 ^ 16 = 2 := by decide
  have valStart : (2 + key + 2) % 2 ^ 16 = 0 := by omega
  simp only [parseVar, first, second, keyStart, valStart, bind, Except.bind]
  rw [if_neg (fun both => both.2 rfl)]

/-- A read of the data buffer. -/
structure Access where
  offset : Nat
  len : Nat
  deriving DecidableEq, Repr

/-- What an iteration reads: the two lengths, and the key and the value if it copies them. -/
def varAccesses (b : Buffer) (pos : Nat) : List Access :=
  let keyStart := (pos + 2) % 2 ^ 16
  ⟨pos, 2⟩ :: match lengthAt b pos with
    | .error _ => []
    | .ok keyLen =>
        ⟨keyStart + keyLen, 2⟩ :: match lengthAt b (keyStart + keyLen) with
          | .error _ => []
          | .ok valLen =>
              if keyLen ≠ 0 ∧ valLen ≠ 0 then
                [⟨keyStart, keyLen⟩, ⟨(keyStart + keyLen + 2) % 2 ^ 16, valLen⟩]
              else
                []

/-- All that `parse_vars` reads is inside the logical size of the buffer, and it sets variables
whose keys and values are parts of the block. -/
structure StaysInside (b : Buffer) : Prop where
  accesses : ∀ pos ∈ varStarts b (b.size + 1) 0, ∀ access ∈ varAccesses b pos,
    access.offset + access.len ≤ b.size
  stored : ∃ vars, (∀ h, parseLoop b (b.size + 1) 0 h = .ok (setVars h vars)) ∧
    ∀ kv ∈ vars, kv.1 <:+: b.storage.take b.size ∧ kv.2 <:+: b.storage.take b.size

/-- A variable with an empty key and a value that is cut off by the end of the block. -/
def CutValue (tail : Bytes) : Prop :=
  ∃ len rest, len < 65536 ∧ rest.length < len ∧ tail = le16 0 ++ (le16 len ++ rest)

/-- A sequence of complete variables, and maybe one with an empty key and a value that is cut
off. -/
def WellFormed (block : Bytes) : Prop :=
  ∃ vars tail, block = wire vars ++ tail ∧ (tail = [] ∨ CutValue tail)

theorem WellFormed.cons {block : Bytes} (wellFormed : WellFormed block) (kv : Bytes × Bytes) :
    WellFormed (wireVar kv ++ block) := by
  obtain ⟨vars, tail, rfl, ends⟩ := wellFormed
  exact ⟨kv :: vars, tail, (List.append_assoc ..).symm, ends⟩

/-- An iteration stays inside the block if the lengths are, and the value unless the key is
empty. -/
theorem varAccesses_inside_iff (ok : b.size ≤ b.storage.length) (small : b.size < 65536) :
    (∀ access ∈ varAccesses b pos, access.offset + access.len ≤ b.size) ↔
      pos + 4 + u16At b.storage pos ≤ b.size ∧
        (u16At b.storage pos = 0 ∨ pos + 4 + u16At b.storage pos +
          u16At b.storage (pos + 2 + u16At b.storage pos) ≤ b.size) := by
  generalize keyLen_eq : u16At b.storage pos = keyLen
  generalize valLen_eq : u16At b.storage (pos + 2 + keyLen) = valLen
  by_cases first : pos + 2 ≤ b.size
  · have keyStart : (pos + 2) % 2 ^ 16 = pos + 2 := Nat.mod_eq_of_lt (by omega)
    have key : lengthAt b pos = .ok keyLen := lengthAt_eq_ok.mpr ⟨by omega, by omega, keyLen_eq⟩
    by_cases second : pos + 4 + keyLen ≤ b.size
    · have valStart : (pos + 2 + keyLen + 2) % 2 ^ 16 = pos + 4 + keyLen := by
        rw [Nat.mod_eq_of_lt (by omega)]
        omega
      have value : lengthAt b (pos + 2 + keyLen) = .ok valLen :=
        lengthAt_eq_ok.mpr ⟨by omega, by omega, valLen_eq⟩
      simp only [varAccesses, key, keyStart, value, valStart]
      split
      · next both =>
          simp only [List.forall_mem_cons, List.not_mem_nil, false_implies, implies_true, and_true]
          omega
      · next some =>
          simp only [List.forall_mem_cons, List.not_mem_nil, false_implies, implies_true, and_true]
          omega
    · simp only [varAccesses, key, keyStart, List.forall_mem_cons]
      omega
  · simp only [varAccesses, List.forall_mem_cons]
    omega

/-- A variable that is in the block as a whole. -/
theorem exists_wireVar {block : Bytes} {pos : Nat}
    (inside : pos + 4 + u16At block pos + u16At block (pos + 2 + u16At block pos) ≤ block.length) :
    ∃ kv : Bytes × Bytes, (wireVar kv).length =
        4 + u16At block pos + u16At block (pos + 2 + u16At block pos) ∧
      block.drop pos = wireVar kv ++ block.drop (pos + (wireVar kv).length) := by
  generalize keyLen_eq : u16At block pos = keyLen at *
  generalize valLen_eq : u16At block (pos + 2 + keyLen) = valLen at *
  let kv := (slice block (pos + 2) keyLen, slice block (pos + 2 + keyLen + 2) valLen)
  have keyLength : kv.1.length = keyLen := by
    rw [length_slice]
    omega
  have valLength : kv.2.length = valLen := by
    rw [length_slice]
    omega
  have length : (wireVar kv).length = 4 + keyLen + valLen := by
    rw [length_wireVar, keyLength, valLength]
    omega
  have whole : slice block pos (4 + keyLen + valLen) = wireVar kv := by
    rw [show 4 + keyLen + valLen = 2 + (keyLen + (2 + valLen)) by omega, slice_add, slice_add,
      slice_add, slice_two (by omega), slice_two (by omega), keyLen_eq, valLen_eq, wireVar,
      wireString, wireString, keyLength, valLength, List.append_assoc]
  refine ⟨kv, length, ?_⟩
  rw [length, ← whole]
  exact drop_eq_slice_append block pos _

theorem drop_take_append (b : Buffer) (ok : b.size ≤ b.storage.length) (inside : pos ≤ b.size) :
    b.storage.drop pos = (b.storage.take b.size).drop pos ++ b.storage.drop b.size := by
  have length : pos ≤ (b.storage.take b.size).length := by
    rw [List.length_take]
    omega
  rw [← List.drop_append_of_le_length length, List.take_append_drop]

/-- If all iterations from a position on stay inside, the block is well formed from there. -/
theorem wellFormed_of_accesses (ok : b.size ≤ b.storage.length) (small : b.size < 65536)
    {fuel : Nat} (enough : b.size - pos < fuel) (inside : pos ≤ b.size)
    (accesses : ∀ start ∈ varStarts b fuel pos, ∀ access ∈ varAccesses b start,
      access.offset + access.len ≤ b.size) : WellFormed ((b.storage.take b.size).drop pos) := by
  have length : (b.storage.take b.size).length = b.size := by
    rw [List.length_take]
    omega
  induction fuel generalizing pos with
  | zero => exact absurd enough (Nat.not_lt_zero _)
  | succ fuel ih =>
      by_cases before : pos < b.size
      · rw [varStarts, if_pos before, List.forall_mem_cons, varAccesses_inside_iff ok small]
          at accesses
        obtain ⟨⟨lengths, value⟩, later⟩ := accesses
        have keyLen : u16At (b.storage.take b.size) pos = u16At b.storage pos :=
          u16At_take (by omega)
        have valLen : u16At (b.storage.take b.size) (pos + 2 + u16At b.storage pos) =
            u16At b.storage (pos + 2 + u16At b.storage pos) := u16At_take (by omega)
        by_cases whole : pos + 4 + u16At b.storage pos +
            u16At b.storage (pos + 2 + u16At b.storage pos) ≤ b.size
        · have inBlock : pos + 4 + u16At (b.storage.take b.size) pos + u16At (b.storage.take b.size)
              (pos + 2 + u16At (b.storage.take b.size) pos) ≤ (b.storage.take b.size).length := by
            rw [keyLen, valLen, length]
            exact whole
          obtain ⟨kv, size, split⟩ := exists_wireVar inBlock
          rw [keyLen, valLen] at size
          have found := drop_take_append b ok inside
          rw [split, List.append_assoc] at found
          rw [parseVar_of_drop small (by omega) found] at later
          rw [split]
          exact (ih (by omega) (by omega) later).cons kv
        · -- The key is empty, and the value is cut off by the end of the block.
          have empty : u16At b.storage pos = 0 := value.resolve_right whole
          rw [empty] at keyLen valLen whole lengths
          rw [Nat.add_zero] at valLen
          simp only [Nat.add_zero] at whole lengths
          refine ⟨[], _, rfl, .inr ⟨u16At b.storage (pos + 2),
            (b.storage.take b.size).drop (pos + 4), u16At_lt _ _, ?_, ?_⟩⟩
          · rw [List.length_drop, length]
            omega
          · rw [drop_eq_slice_append _ pos 2, drop_eq_slice_append _ (pos + 2) 2,
              slice_two (by omega), slice_two (by omega), keyLen, valLen]
      · have atEnd : pos = b.size := by omega
        refine ⟨[], [], ?_, .inl rfl⟩
        rw [atEnd]
        exact List.drop_eq_nil_of_le (Nat.le_of_eq length)

/-- An iteration at a complete variable stays inside. -/
theorem accesses_wireVar (ok : b.size ≤ b.storage.length) (small : b.size < 65536)
    {kv : Bytes × Bytes} {rest : Bytes} (inside : pos + (wireVar kv).length ≤ b.size)
    (found : b.storage.drop pos = wireVar kv ++ rest) :
    ∀ access ∈ varAccesses b pos, access.offset + access.len ≤ b.size := by
  rw [length_wireVar] at inside
  simp only [wireVar, wireString, List.append_assoc] at found
  have keyLen := u16At_of_drop (by omega) found
  have behind := drop_add_of_drop (drop_add_of_drop found)
  rw [length_le16] at behind
  have valLen := u16At_of_drop (by omega) behind
  rw [varAccesses_inside_iff ok small, keyLen, valLen]
  omega

/-- The iterations over complete variables stay inside. -/
theorem accesses_wire (ok : b.size ≤ b.storage.length) (small : b.size < 65536)
    {vars : List (Bytes × Bytes)} {rest : Bytes} (inside : pos + (wire vars).length ≤ b.size)
    (found : b.storage.drop pos = wire vars ++ rest) {fuel : Nat}
    (later : ∀ start ∈ varStarts b fuel (pos + (wire vars).length),
      ∀ access ∈ varAccesses b start, access.offset + access.len ≤ b.size) :
    ∀ start ∈ varStarts b (vars.length + fuel) pos,
      ∀ access ∈ varAccesses b start, access.offset + access.len ≤ b.size := by
  induction vars generalizing pos with
  | nil =>
      rw [List.length_nil, Nat.zero_add]
      exact later
  | cons kv vars ih =>
      rw [wire_cons, List.length_append] at inside later
      rw [wire_cons, List.append_assoc] at found
      have before : pos < b.size := by
        rw [length_wireVar] at inside
        omega
      rw [List.length_cons, Nat.add_right_comm, varStarts, if_pos before,
        parseVar_of_drop small (by omega) found, List.forall_mem_cons]
      refine ⟨accesses_wireVar ok small (by omega) found, ?_⟩
      apply ih (by omega) (drop_add_of_drop found)
      rwa [Nat.add_assoc]

theorem parseVar_cut (small : b.size < 65536) (inside : pos + 4 ≤ b.size) {len : Nat}
    (bound : len < 65536) {rest : Bytes}
    (found : b.storage.drop pos = le16 0 ++ (le16 len ++ rest)) :
    parseVar b pos = .ok (none, pos + 4 + len) := by
  have first := lengthAt_of_drop (by decide) (by omega) found
  have second := lengthAt_of_drop bound (by rw [length_le16]; omega) (drop_add_of_drop found)
  have keyStart : (pos + 2) % 2 ^ 16 = pos + (le16 0).length := Nat.mod_eq_of_lt (by omega)
  have valStart : (pos + (le16 0).length + 0 + 2) % 2 ^ 16 = pos + 4 := Nat.mod_eq_of_lt (by
    rw [length_le16]
    omega)
  simp only [parseVar, first, keyStart, Nat.add_zero, second, bind, Except.bind]
  rw [if_neg (fun both => both.1 rfl)]
  rw [Nat.add_zero] at valStart
  rw [valStart]

theorem varStarts_atEnd (atEnd : b.size ≤ pos) (fuel : Nat) : varStarts b fuel pos = [] := by
  cases fuel with
  | zero => rfl
  | succ fuel => rw [varStarts, if_neg (Nat.not_lt.mpr atEnd)]

theorem infix_of_mem {vars : List (Bytes × Bytes)} {kv : Bytes × Bytes} (member : kv ∈ vars)
    (tail : Bytes) : kv.1 <:+: wire vars ++ tail ∧ kv.2 <:+: wire vars ++ tail := by
  obtain ⟨first, second, rfl⟩ := List.append_of_mem member
  constructor
  · refine ⟨wire first ++ le16 kv.1.length, wireString kv.2 ++ wire second ++ tail, ?_⟩
    simp [wireVar, wireString]
  · refine ⟨wire first ++ wireString kv.1 ++ le16 kv.2.length, wire second ++ tail, ?_⟩
    simp [wireVar, wireString]

/-- Behind the complete variables, the loop ends at the end of the block or with one more
iteration. -/
theorem staysInside_of_wellFormed (ok : b.size ≤ b.storage.length) (small : b.size < 65536)
    (wellFormed : WellFormed (b.storage.take b.size)) : StaysInside b := by
  obtain ⟨vars, tail, block, ends⟩ := wellFormed
  have found : b.storage.drop 0 = wire vars ++ (tail ++ b.storage.drop b.size) := by
    rw [drop_take_append b ok (Nat.zero_le _), block, List.drop_zero, List.append_assoc]
  have length := congrArg List.length block
  rw [List.length_take, List.length_append, Nat.min_eq_left ok] at length
  have few := length_le_length_wire vars
  have inside : 0 + (wire vars).length ≤ b.size := by omega
  have fuel : b.size + 1 = vars.length + (b.size - vars.length + 1) := by omega
  have behind : (∀ start ∈ varStarts b (b.size - vars.length + 1) (0 + (wire vars).length),
      ∀ access ∈ varAccesses b start, access.offset + access.len ≤ b.size) ∧
      ∀ h, parseLoop b (b.size - vars.length + 1) (0 + (wire vars).length) h = .ok h := by
    rcases ends with rfl | ⟨len, rest, bound, short, rfl⟩
    · have atEnd : b.size ≤ 0 + (wire vars).length := by
        rw [List.length_nil] at length
        omega
      rw [varStarts_atEnd atEnd]
      exact ⟨List.forall_mem_nil _, parseLoop_atEnd atEnd _⟩
    · have cut := drop_add_of_drop found
      simp only [List.length_append, length_le16] at length
      rw [List.append_assoc, List.append_assoc] at cut
      have next := parseVar_cut (b := b) small (by omega) bound cut
      have before : 0 + (wire vars).length < b.size := by omega
      have atEnd : b.size ≤ 0 + (wire vars).length + 4 + len := by omega
      have empty := u16At_of_drop (by decide) cut
      rw [varStarts, if_pos before, next, List.forall_mem_cons]
      refine ⟨⟨?_, ?_⟩, fun h => ?_⟩
      · rw [varAccesses_inside_iff ok small, empty]
        exact ⟨by omega, .inl rfl⟩
      · change ∀ start ∈ varStarts b _ (0 + (wire vars).length + 4 + len), _
        rw [varStarts_atEnd atEnd]
        exact List.forall_mem_nil _
      · rw [parseLoop, if_pos before, next]
        obtain ⟨more, enough⟩ :=
          Nat.exists_eq_succ_of_ne_zero (show b.size - vars.length ≠ 0 by omega)
        rw [enough]
        exact parseLoop_atEnd atEnd more h
  refine ⟨?_, vars, fun h => ?_, fun kv member => ?_⟩
  · rw [fuel]
    exact accesses_wire ok small inside found behind.1
  · rw [fuel, parseLoop_wire small inside found, behind.2]
  · rw [block]
    exact infix_of_mem member tail

/-- On any object that has received any block, `parse_vars` stays inside the block exactly if
the block is well formed. -/
theorem parseVars_staysInside_iff (r : UwsgiRequest) (hd : UwsgiPacketHeader) {block : Bytes}
    (length : block.length = hd.datasize.toNat) :
    StaysInside (r.receivingVars hd block).dataBuffer ↔ WellFormed block := by
  have size : (r.receivingVars hd block).dataBuffer.size = hd.datasize.toNat := rfl
  have ok : (r.receivingVars hd block).dataBuffer.size ≤
      (r.receivingVars hd block).dataBuffer.storage.length := by
    rw [UwsgiRequest.receivingVars_dataBuffer, Buffer.length_filled (Nat.le_of_eq length)]
    exact Buffer.le_length_grow _ _
  have small : (r.receivingVars hd block).dataBuffer.size < 65536 := hd.datasize.toNat_lt
  have received : (r.receivingVars hd block).dataBuffer.storage.take
      (r.receivingVars hd block).dataBuffer.size = block := by
    rw [size, ← length, UwsgiRequest.receivingVars_dataBuffer]
    exact Buffer.take_filled _ _
  constructor
  · intro inside
    have wellFormed := wellFormed_of_accesses ok small (Nat.lt_succ_self _) (Nat.zero_le _)
      inside.accesses
    rwa [received, List.drop_zero] at wellFormed
  · intro wellFormed
    apply staysInside_of_wellFormed ok small
    rwa [received]

/-- The variable `A` with the value `bc`. -/
theorem parseVars_staysInside_sample :
    StaysInside (UwsgiRequest.receivingVars {} { datasize := 7 }
      [1, 0, 65, 2, 0, 98, 99]).dataBuffer :=
  (parseVars_staysInside_iff {} { datasize := 7 } rfl).mpr
    ⟨[([65], [98, 99])], [], rfl, .inl rfl⟩

/-- The length of the value is larger than the block and the storage of the buffer. -/
theorem parseVars_leaves_block :
    ¬StaysInside (UwsgiRequest.receivingVars {} { datasize := 5 } [1, 0, 65, 255, 255]).dataBuffer ∧
      ⟨5, 65535⟩ ∈ varAccesses
        (UwsgiRequest.receivingVars {} { datasize := 5 } [1, 0, 65, 255, 255]).dataBuffer 0 ∧
      parseVars (UwsgiRequest.receivingVars {} { datasize := 5 }
        [1, 0, 65, 255, 255]).toHttpBase = .error .outOfBounds := by
  have read : ⟨5, 65535⟩ ∈ varAccesses
      (UwsgiRequest.receivingVars {} { datasize := 5 } [1, 0, 65, 255, 255]).dataBuffer 0 := by
    decide +kernel
  refine ⟨fun inside => ?_, read, by decide +kernel⟩
  have start : 0 ∈ varStarts
      (UwsgiRequest.receivingVars {} { datasize := 5 } [1, 0, 65, 255, 255]).dataBuffer 6 0 := by
    decide +kernel
  exact absurd (inside.accesses 0 start _ read) (by decide)

/-! ## Complete blocks -/

/-- The value of the last variable of a block that is set and whose key is of a kind. -/
def lastValue (ofKind : Bytes → Bool) (vars : List (Bytes × Bytes)) : Option Bytes :=
  ((vars.filterMap kept).filter (ofKind ·.1)).getLast?.map Prod.snd

theorem lastValue_concat (ofKind : Bytes → Bool) (vars : List (Bytes × Bytes))
    (kv : Bytes × Bytes) :
    lastValue ofKind (vars ++ [kv]) =
      match kept kv with
      | none => lastValue ofKind vars
      | some set => if ofKind set.1 then some set.2 else lastValue ofKind vars := by
  rw [lastValue, List.filterMap_append]
  cases set : kept kv with
  | none => simp [set, lastValue]
  | some set' =>
      by_cases found : ofKind set'.1
      · simp [set, found]
      · simp [set, found, lastValue]

theorem setVars_concat (h : HttpBase) (vars : List (Bytes × Bytes)) (kv : Bytes × Bytes) :
    setVars h (vars ++ [kv]) = setVar (setVars h vars) (kept kv) := by
  rw [setVars, List.foldl_append]
  rfl

/-- The last variable with a key wins, and the other keys keep their values. -/
theorem setVars_lookup (h : HttpBase) (vars : List (Bytes × Bytes)) (key : Bytes) :
    (setVars h vars).headers.lookup key =
      (lastValue (· == key) vars).or (h.headers.lookup key) := by
  induction vars using List.reverseRecOn with
  | nil => rfl
  | append_singleton vars kv ih =>
      rw [setVars_concat, lastValue_concat]
      cases kept kv with
      | none => exact ih
      | some set =>
          rw [setVar, HttpBase.setHeader_headers]
          by_cases same : set.1 = key
          · simp [same]
          · rw [AList.lookup_insert_ne (Ne.symm same), ih]
            simp [same]

/-- The last variable that is named `Content-Length` in any case sets the content length. -/
theorem contentLength_setVars (h : HttpBase) (vars : List (Bytes × Bytes)) :
    (setVars h vars).contentLength =
      match lastValue (iequals · (text "Content-Length")) vars with
      | none => h.contentLength
      | some value => toSize (atoi value) := by
  induction vars using List.reverseRecOn with
  | nil => rfl
  | append_singleton vars kv ih =>
      rw [setVars_concat, lastValue_concat]
      cases kept kv with
      | none => exact ih
      | some set =>
          rw [setVar, HttpBase.setHeader]
          by_cases named : iequals set.1 (text "Content-Length")
          · simp [named]
          · simp only [named]
            exact ih

/-- **`parse_vars` decodes every complete block.**  It sets the variables of which neither
part is empty in the order of the block, and leaves everything else as it is. -/
theorem parseVars_decodes (vars : List (Bytes × Bytes)) (h : HttpBase) (rest : Bytes)
    (small : (wire vars).length ≤ 65535)
    (size : h.dataBuffer.size = (wire vars).length)
    (block : h.dataBuffer.storage = wire vars ++ rest) :
    ∃ parsed, parseVars h = .ok parsed ∧
      parsed.headers = varsMap h.headers vars ∧
      (∀ key, parsed.headers.lookup key =
        (lastValue (· == key) vars).or (h.headers.lookup key)) ∧
      (parsed.contentLength =
        match lastValue (iequals · (text "Content-Length")) vars with
        | none => h.contentLength
        | some value => toSize (atoi value)) ∧
      parsed.dataBuffer = h.dataBuffer ∧ parsed.contentBuffer = h.contentBuffer ∧
      parsed.state = h.state := by
  have same := setVars_sameBuffers h vars
  exact ⟨_, parseVars_wire (Nat.lt_succ_of_le small) size block, setVars_headers h vars,
    setVars_lookup h vars, contentLength_setVars h vars, same.data, same.content, same.state⟩

/-- Two variables with one key, one without a value, and a length. -/
theorem parseVars_decodes_sample :
    ∃ parsed, parseVars
        { dataBuffer :=
            { storage := wire [([65], [1]), ([66], []), ([65], [2]),
                (text "content-length", text "12")] ++ [0, 0]
              size := 37 } } = .ok parsed ∧
      parsed.headers.lookup [65] = some [2] ∧ parsed.headers.lookup [66] = none ∧
      parsed.contentLength = 12 := by
  have ⟨parsed, accepted, _, lookup, length, _⟩ :=
    parseVars_decodes [([65], [1]), ([66], []), ([65], [2]),
        (text "content-length", text "12")]
      { dataBuffer :=
          { storage := wire [([65], [1]), ([66], []), ([65], [2]),
              (text "content-length", text "12")] ++ [0, 0]
            size := 37 } } [0, 0] (by decide +kernel) (by decide +kernel) rfl
  exact ⟨parsed, accepted, (lookup [65]).trans (by decide +kernel),
    (lookup [66]).trans (by decide +kernel), length.trans (by decide +kernel)⟩

end LibTasks.Net

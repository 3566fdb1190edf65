import LibTasks.Net.UwsgiReader

/-!
# uwsgi packets

The wire form of a block of variables, and what `parse_vars` makes of it.
-/

namespace LibTasks.Net

open LibTasks.Foundation LibTasks.Tools

/-! ## The wire form -/

/-- A string with its length in front. -/
def wireString (s : Bytes) : Bytes := le16 s.length ++ s

/-- A key and its value. -/
def wireVar (kv : Bytes × Bytes) : Bytes := wireString kv.1 ++ wireString kv.2

/-- A block of variables. -/
def wire (vars : List (Bytes × Bytes)) : Bytes := vars.flatMap wireVar

@[simp] theorem length_wireString (s : Bytes) : (wireString s).length = s.length + 2 := by
  simp [wireString, Nat.add_comm]

@[simp] theorem length_wireVar (kv : Bytes × Bytes) :
    (wireVar kv).length = kv.1.length + 2 + (kv.2.length + 2) := by
  simp [wireVar]

@[simp] theorem wire_nil : wire [] = [] := rfl

@[simp] theorem wire_cons (kv : Bytes × Bytes) (vars : List (Bytes × Bytes)) :
    wire (kv :: vars) = wireVar kv ++ wire vars := rfl

@[simp] theorem wire_append (first second : List (Bytes × Bytes)) :
    wire (first ++ second) = wire first ++ wire second := List.flatMap_append

theorem length_le_length_wire (vars : List (Bytes × Bytes)) : vars.length ≤ (wire vars).length := by
  induction vars with
  | nil => exact Nat.le_refl _
  | cons kv vars ih =>
      simp only [wire_cons, List.length_append, length_wireVar, List.length_cons]
      omega

theorem wire_ne_nil {vars : List (Bytes × Bytes)} (nonempty : vars ≠ []) : wire vars ≠ [] := by
  intro empty
  have short := length_le_length_wire vars
  rw [empty] at short
  exact nonempty (List.eq_nil_of_length_eq_zero (Nat.le_zero.mp short))

theorem length_wireVar_le {kv : Bytes × Bytes} {vars : List (Bytes × Bytes)} (member : kv ∈ vars) :
    (wireVar kv).length ≤ (wire vars).length := by
  obtain ⟨first, second, rfl⟩ := List.append_of_mem member
  simp only [wire_append, wire_cons, List.length_append]
  omega

/-! ## What is set -/

/-- A variable is set unless its key or its value is empty. -/
def kept (kv : Bytes × Bytes) : Option (Bytes × Bytes) :=
  if kv.1 ≠ [] ∧ kv.2 ≠ [] then some kv else none

/-- Set variables in the order in which they stand in the block. -/
def setVars (h : HttpBase) (vars : List (Bytes × Bytes)) : HttpBase :=
  vars.foldl (fun h kv => setVar h (kept kv)) h

/-- The map after the variables of a block were set. -/
def varsMap (m : Headers) (vars : List (Bytes × Bytes)) : Headers :=
  vars.foldl (fun m kv => if kv.1 ≠ [] ∧ kv.2 ≠ [] then m.insert kv.1 kv.2 else m) m

theorem setVars_headers (h : HttpBase) (vars : List (Bytes × Bytes)) :
    (setVars h vars).headers = varsMap h.headers vars := by
  induction vars generalizing h with
  | nil => rfl
  | cons kv vars ih =>
      have first : (setVar h (kept kv)).headers =
          if kv.1 ≠ [] ∧ kv.2 ≠ [] then h.headers.insert kv.1 kv.2 else h.headers := by
        unfold kept
        split <;> simp [setVar]
      exact (ih _).trans (by rw [first]; rfl)

theorem setVars_sameBuffers (h : HttpBase) (vars : List (Bytes × Bytes)) :
    SameBuffers h (setVars h vars) := by
  induction vars generalizing h with
  | nil => exact ⟨rfl, rfl, rfl⟩
  | cons kv vars ih => exact (setVar_sameBuffers h (kept kv)).trans (ih _)

/-! ## Reading the wire form -/

variable {b : Buffer} {pos : Nat} {rest : Bytes}

theorem le_length_of_drop {block first rest : Bytes} (found : block.drop pos = first ++ rest)
    (nonempty : first ≠ []) : pos + first.length ≤ block.length := by
  have lengths := congrArg List.length found
  have positive := List.length_pos_iff.mpr nonempty
  simp only [List.length_drop, List.length_append] at lengths
  omega

theorem u16At_of_drop {block : Bytes} {n : Nat} (small : n < 65536)
    (found : block.drop pos = le16 n ++ rest) : u16At block pos = n := by
  apply u16At_of_slice small
  rw [slice, found]
  rfl

theorem lengthAt_of_drop {n : Nat} (small : n < 65536) (inside : pos ≤ b.size)
    (found : b.storage.drop pos = le16 n ++ rest) : lengthAt b pos = .ok n := by
  have room : pos + 2 ≤ b.storage.length := le_length_of_drop found (by simp [le16])
  simp [lengthAt, Buffer.ptr, inside, room, u16At_of_drop small found, bind, Except.bind]

theorem charsAt_of_drop {s : Bytes} (nonempty : s ≠ []) (inside : pos ≤ b.size)
    (found : b.storage.drop pos = s ++ rest) : charsAt b pos s.length = .ok s := by
  have room := le_length_of_drop found nonempty
  have value : slice b.storage pos s.length = s := by
    rw [slice, found, List.take_left]
  simp [charsAt, Buffer.ptr, inside, room, value, bind, Except.bind]

theorem drop_add_of_drop {block first rest : Bytes} (found : block.drop pos = first ++ rest) :
    block.drop (pos + first.length) = rest := by
  rw [← List.drop_drop, found, List.drop_left]

/-- One iteration takes one variable off the block.  As the block is shorter than
2^16, the positions do not wrap around. -/
theorem parseVar_of_drop {kv : Bytes × Bytes} (small : b.size < 65536)
    (inside : pos + (wireVar kv).length ≤ b.size)
    (found : b.storage.drop pos = wireVar kv ++ rest) :
    parseVar b pos = .ok (kept kv, pos + (wireVar kv).length) := by
  obtain ⟨key, val⟩ := kv
  simp only [length_wireVar] at inside ⊢
  simp only [wireVar, wireString, List.append_assoc] at found
  have atKey := drop_add_of_drop found
  have atLength := drop_add_of_drop atKey
  have atVal := drop_add_of_drop atLength
  simp only [length_le16] at atKey atLength atVal
  have keyLen := lengthAt_of_drop (by omega) (by omega) found
  have valLen := lengthAt_of_drop (b := b) (by omega) (by omega) atLength
  have keyStart : (pos + 2) % 2 ^ 16 = pos + 2 := by omega
  have valStart : (pos + 2 + key.length + 2) % 2 ^ 16 = pos + 2 + key.length + 2 := by omega
  have next : pos + 2 + key.length + 2 + val.length =
      pos + (key.length + 2 + (val.length + 2)) := by omega
  unfold parseVar
  simp only [keyLen, keyStart, valLen, valStart, bind, Except.bind, next, kept, ne_eq,
    List.length_eq_zero_iff]
  split
  · next both =>
      rw [charsAt_of_drop both.1 (by omega) atKey, charsAt_of_drop both.2 (by omega) atVal]
  · rfl

/-- The loop sets the variables at its position one after the other, and goes on behind them. -/
theorem parseLoop_wire (small : b.size < 65536) {vars : List (Bytes × Bytes)}
    (inside : pos + (wire vars).length ≤ b.size)
    (found : b.storage.drop pos = wire vars ++ rest) (fuel : Nat) (h : HttpBase) :
    parseLoop b (vars.length + fuel) pos h =
      parseLoop b fuel (pos + (wire vars).length) (setVars h vars) := by
  induction vars generalizing pos h with
  | nil =>
      rw [List.length_nil, Nat.zero_add]
      rfl
  | cons kv vars ih =>
      rw [wire_cons, List.length_append] at inside
      rw [wire_cons, List.append_assoc] at found
      have before : pos < b.size := by
        rw [length_wireVar] at inside
        omega
      rw [List.length_cons, Nat.add_right_comm, parseLoop, if_pos before,
        parseVar_of_drop small (by omega) found]
      change parseLoop b (vars.length + fuel) _ (setVar h (kept kv)) = _
      rw [ih (by omega) (drop_add_of_drop found), wire_cons, List.length_append, Nat.add_assoc]
      rfl

theorem parseLoop_atEnd (atEnd : b.size ≤ pos) (fuel : Nat) (h : HttpBase) :
    parseLoop b (fuel + 1) pos h = .ok h := by
  rw [parseLoop, if_neg (Nat.not_lt.mpr atEnd)]

/-- `parse_vars` on a buffer that holds a block of variables. -/
theorem parseVars_wire {h : HttpBase} {vars : List (Bytes × Bytes)}
    (small : (wire vars).length < 65536) (size : h.dataBuffer.size = (wire vars).length)
    (found : h.dataBuffer.storage = wire vars ++ rest) : parseVars h = .ok (setVars h vars) := by
  have few : vars.length ≤ h.dataBuffer.size := by
    rw [size]
    exact length_le_length_wire vars
  have fuel : h.dataBuffer.size + 1 = vars.length + (h.dataBuffer.size - vars.length + 1) := by
    omega
  have atEnd : h.dataBuffer.size ≤ 0 + (wire vars).length := by rw [size, Nat.zero_add]
  rw [parseVars, fuel, parseLoop_wire (size ▸ small) (by rw [size, Nat.zero_add])
    (by rw [List.drop_zero, found]), parseLoop_atEnd atEnd]

/-! ## Packets -/

/-- A complete packet of variables: a block that is not empty, and the content
whose positive length the block announces, if it announces any. -/
structure Packet where
  modifier2 : UInt8 := 0
  vars : List (Bytes × Bytes)
  content : Bytes := []
  nonempty : vars ≠ []
  small : (wire vars).length < 65536
  announced :
    let length := ((varsMap ∅ vars).lookup (text "CONTENT_LENGTH")).getD noVal
    if length = noVal then content = [] else content ≠ [] ∧ atoi length = content.length

namespace Packet

/-- The packet header. -/
def header (p : Packet) : UwsgiPacketHeader where
  modifier1 := uwsgiVars
  datasize := UInt16.ofNat (wire p.vars).length
  modifier2 := p.modifier2

/-- The packet on the stream. -/
def bytes (p : Packet) : Bytes := p.header.encode ++ wire p.vars ++ p.content

@[simp] theorem datasize_toNat (p : Packet) :
    p.header.datasize.toNat = (wire p.vars).length := by
  have small := p.small
  simp only [header, UInt16.toNat_ofNat']
  omega

theorem content_small (p : Packet) : p.content.length + 1024 ≤ maxSize := by
  have announced := p.announced
  dsimp only at announced
  split at announced
  · rw [announced]
    decide
  · have bound := (atoi_bounds
      (((varsMap ∅ p.vars).lookup (text "CONTENT_LENGTH")).getD noVal)).2
    unfold maxSize
    omega

/-- The object `r` after the variables of the packet were parsed. -/
def parsed (p : Packet) (r : UwsgiRequest) : UwsgiRequest where
  toHttpBase := setVars (r.receivingVars p.header (wire p.vars)).toHttpBase p.vars
  uwsgiHeader := p.header

/-- The object `r` after the packet was received. -/
def received (p : Packet) (r : UwsgiRequest) : UwsgiRequest :=
  if p.content = [] then
    { p.parsed r with state := .done }
  else
    { (p.parsed r).receivingContent r.contentBuffer p.content.length p.content with
      state := .done }

theorem received_state (p : Packet) (r : UwsgiRequest) : (p.received r).state = .done := by
  unfold received
  split <;> rfl

/-- The variables that the reader has afterwards. -/
theorem received_headers (p : Packet) {r : UwsgiRequest} (fresh : r.Fresh) :
    (p.received r).headers = varsMap ∅ p.vars := by
  have parsed : (p.parsed r).headers = varsMap ∅ p.vars := by
    rw [← fresh.headers]
    exact setVars_headers _ _
  unfold received
  split <;> exact parsed

/-- The content that the reader has afterwards. -/
theorem received_readable (p : Packet) {r : UwsgiRequest} (fresh : r.Fresh) :
    (p.received r).contentBuffer.readable = p.content := by
  unfold received
  split
  · next bare =>
      have content : (p.parsed r).contentBuffer = r.contentBuffer :=
        (setVars_sameBuffers _ _).content
      simp [content, Buffer.readable, fresh.content.size, slice, bare]
  · exact Buffer.readable_filled p.content

/-- The block of variables of a packet is accepted, and it is followed by reading
the content, if there is any. -/
theorem finishVars_eq (p : Packet) {r : UwsgiRequest} (fresh : r.Fresh) (sock : Socket) :
    (r.receivingVars p.header (wire p.vars)).finishVars sock =
      if p.content = [] then
        ⟨.ok (), { p.parsed r with state := .done }, sock⟩
      else
        ⟨.ok (), (p.parsed r).receivingContent r.contentBuffer p.content.length [], sock⟩ := by
  have accepted : parseVars (r.receivingVars p.header (wire p.vars)).toHttpBase =
      .ok (p.parsed r).toHttpBase :=
    parseVars_wire p.small p.datasize_toNat rfl
  have content : (p.parsed r).contentBuffer = r.contentBuffer :=
    (setVars_sameBuffers _ _).content
  have lookup : (p.parsed r).header (text "CONTENT_LENGTH") =
      ((varsMap ∅ p.vars).lookup (text "CONTENT_LENGTH")).getD noVal := by
    have map : (p.parsed r).headers = varsMap ∅ p.vars := by
      rw [← fresh.headers]
      exact setVars_headers _ _
    rw [HttpBase.header, map]
  have announced := p.announced
  dsimp only at announced
  rw [← lookup] at announced
  simp only [UwsgiRequest.finishVars, accepted, UwsgiRequest.var, content]
  by_cases absent : (p.parsed r).header (text "CONTENT_LENGTH") = noVal
  · rw [if_pos absent] at announced
    simp only [absent, announced, if_true]
    rfl
  · rw [if_neg absent] at announced
    have small := p.content_small
    have size : toSize (atoi ((p.parsed r).header (text "CONTENT_LENGTH"))) =
        p.content.length := by
      rw [announced.2]
      apply toSize_natCast
      unfold maxSize at small
      omega
    rw [if_neg announced.1, if_neg absent, size, fresh.content.setSize_eq small]
    rfl

end Packet

end LibTasks.Net

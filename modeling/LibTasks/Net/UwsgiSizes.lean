import LibTasks.Net.ResumableWriting
import LibTasks.Net.UwsgiRoundTrip

/-!
# The sizes in an encoded packet

`prepare_data_buffer` narrows the length of every key and value and the size of the block to
16 bits, and has no way to report an error.  What it leaves describes the packet exactly if the
header and the variables together take less than 64 KiB.
-/

namespace LibTasks.Net

open LibTasks.Foundation LibTasks.Tools

/-! ## What a truthful packet is -/

/-- The keys and values of variables. -/
def strings (vars : List (Bytes × Bytes)) : List Bytes := vars.flatMap fun kv => [kv.1, kv.2]

/-- From a position on, every string stands behind its full length. -/
def Prefixed (block : Bytes) : Nat → List Bytes → Prop
  | _, [] => True
  | pos, s :: rest =>
      u16At block pos = s.length ∧ slice block (pos + 2) s.length = s ∧
        Prefixed block (pos + 2 + s.length) rest

/-- The data buffer holds the header, as many bytes more as the header says, and the strings of
the header map behind their lengths. -/
structure UwsgiRequest.Truthful (order : Headers → List (Bytes × Bytes)) (q : UwsgiRequest) :
    Prop where
  header : q.dataBuffer.readable.take 4 = q.uwsgiHeader.encode
  size : q.dataBuffer.readable.length = 4 + q.uwsgiHeader.datasize.toNat
  strings : Prefixed q.dataBuffer.readable 4 (strings (order q.headers))

variable {block rest : Bytes} {pos : Nat}

/-- A prefix that is the full length is one of 16 bits. -/
theorem Prefixed.length_lt {list : List Bytes} (prefixed : Prefixed block pos list) :
    ∀ s ∈ list, s.length < 2 ^ 16 := by
  induction list generalizing pos with
  | nil => exact List.forall_mem_nil _
  | cons s list ih =>
      obtain ⟨length, -, later⟩ := prefixed
      rw [List.forall_mem_cons]
      exact ⟨length ▸ u16At_lt block pos, ih later⟩

theorem prefixed_cons {s : Bytes} {list : List Bytes} (small : s.length < 2 ^ 16)
    (found : block.drop pos = wireString s ++ rest)
    (later : Prefixed block (pos + (wireString s).length) list) :
    Prefixed block pos (s :: list) := by
  rw [length_wireString, Nat.add_comm s.length, ← Nat.add_assoc] at later
  rw [wireString, List.append_assoc] at found
  have behind := drop_add_of_drop found
  rw [length_le16] at behind
  refine ⟨u16At_of_drop small found, ?_, later⟩
  rw [slice, behind, List.take_left]

/-- The wire form has its strings behind their lengths. -/
theorem prefixed_wire {vars : List (Bytes × Bytes)}
    (small : ∀ kv ∈ vars, kv.1.length < 2 ^ 16 ∧ kv.2.length < 2 ^ 16)
    (found : block.drop pos = wire vars ++ rest) : Prefixed block pos (strings vars) := by
  induction vars generalizing pos with
  | nil => trivial
  | cons kv vars ih =>
      rw [List.forall_mem_cons] at small
      rw [wire_cons, wireVar, List.append_assoc, List.append_assoc] at found
      have value := drop_add_of_drop found
      exact prefixed_cons small.1.1 found
        (prefixed_cons small.1.2 value (ih small.2 (drop_add_of_drop value)))

/-! ## How much is written -/

/-- The buffer `next` is `b` after `n` bytes were written. -/
structure Longer (n : Nat) (b next : Buffer) : Prop where
  ok : next.Ok
  size : next.size = b.size + n
  pptr : next.pptr = b.pptr + n

variable {b next : Buffer}

theorem Longer.trans {m n : Nat} {middle : Buffer} (first : Longer m b middle)
    (second : Longer n middle next) : Longer (m + n) b next where
  ok := second.ok
  size := by rw [second.size, first.size, Nat.add_assoc]
  pptr := by rw [second.pptr, first.pptr, Nat.add_assoc]

theorem longer_of_write {data : Bytes} (ok : b.Ok) (success : b.write data = .ok next) :
    Longer data.length b next := by
  obtain ⟨extended, size⟩ := ok.write_of_ok success
  exact ⟨extended.ok, size, Buffer.pptr_of_write success⟩

theorem longer_of_writeString {s : Bytes} (ok : b.Ok)
    (success : UwsgiRequest.writeString b s = .ok next) :
    Longer (wireString (truncated s)).length b next := by
  simp only [UwsgiRequest.writeString, bind, except_bind_ok] at success
  obtain ⟨middle, length, chars⟩ := success
  have first := longer_of_write ok length
  have second := longer_of_write first.ok chars
  rw [wireString, List.length_append]
  exact first.trans second

theorem longer_of_writeVars {vars : List (Bytes × Bytes)} (ok : b.Ok)
    (success : vars.foldlM UwsgiRequest.writeVar b = .ok next) :
    Longer (wire (vars.map truncatedVar)).length b next := by
  induction vars generalizing b with
  | nil =>
      cases success
      exact ⟨ok, rfl, rfl⟩
  | cons kv vars ih =>
      simp only [List.foldlM_cons, UwsgiRequest.writeVar, bind, except_bind_ok] at success
      obtain ⟨second, ⟨first, key, value⟩, later⟩ := success
      have one := longer_of_writeString ok key
      have two := longer_of_writeString one.ok value
      have all := (one.trans two).trans (ih two.ok later)
      rwa [← List.length_append, ← List.length_append] at all

namespace UwsgiRequest

variable {r q : UwsgiRequest} {order : Headers → List (Bytes × Bytes)}

/-- Whatever the header map, a call that returns has written the variables, with their lengths
narrowed, and eight bytes more. -/
theorem sizes_of_prepareDataBuffer (cleared : r.dataBuffer.Cleared)
    (success : r.prepareDataBuffer order = .ok q) :
    q.dataBuffer.readable.length = 8 + (wire (r.sentVars order)).length ∧
      q.uwsgiHeader = r.sentHeader order ∧ q.headers = r.withContentLength.headers := by
  obtain ⟨ok, gptr, -, -⟩ := prepareDataBuffer_of_ok cleared success
  rw [ok.length_readable, gptr, Nat.sub_zero]
  simp only [prepareDataBuffer, bind, except_bind_ok, withContentLength_dataBuffer] at success
  obtain ⟨sized, resized, drafted, vars, start, toStart, patched, header, final, toEnd, same⟩ :=
    success
  cases same
  obtain ⟨kept, keptEq, drafting⟩ := Drafting.start cleared
  cases resized.symm.trans keptEq
  have written := longer_of_writeVars drafting.ok vars
  have size : drafted.size = 4 + (wire (r.sentVars order)).length := by
    rw [written.size, drafting.size]
    rfl
  have pptr : drafted.pptr = 4 + (wire (r.sentVars order)).length := by
    rw [written.pptr, drafting.pptr, drafting.size]
    rfl
  obtain ⟨startOk, -, startSize⟩ := movePtrWriteAbs_of_ok written.ok toStart
  have patch := longer_of_write startOk header
  obtain ⟨-, -, endSize⟩ := movePtrWriteAbs_of_ok patch.ok toEnd
  refine ⟨?_, ?_, rfl⟩
  · rw [endSize, patch.size, startSize, size, UwsgiPacketHeader.length_encode]
    omega
  · rw [sentHeader, pptr, withContentLength_uwsgiHeader]

/-- The encoded packet is truthful exactly if the header and the variables take less than
64 KiB. -/
theorem prepared_truthful_iff (cleared : r.dataBuffer.Cleared) (order : IterationOrder) :
    (∃ q, r.prepareDataBuffer order.list = .ok q ∧ q.Truthful order.list) ↔
      4 + wireSize r.withContentLength.headers < 2 ^ 16 := by
  rw [← order.length_wire]
  constructor
  · rintro ⟨q, success, truthful⟩
    obtain ⟨length, header, headers⟩ := sizes_of_prepareDataBuffer cleared success
    have lengths := truthful.strings.length_lt
    rw [headers] at lengths
    have sent : r.sentVars order.list = order.list r.withContentLength.headers := by
      apply sentVars_eq
      intro kv member
      exact ⟨lengths _ (List.mem_flatMap.mpr ⟨kv, member, by simp⟩),
        lengths _ (List.mem_flatMap.mpr ⟨kv, member, by simp⟩)⟩
    have size := truthful.size
    rw [length, header, sentHeader, sent, UInt16.toNat_ofNat'] at size
    omega
  · intro fits
    have sent : r.sentVars order.list = order.list r.withContentLength.headers :=
      sentVars_of_fits (order.length_wire _ ▸ fits)
    have room : (wire (r.sentVars order.list)).length + 2048 ≤ maxSize := by
      rw [sent]
      unfold maxSize
      omega
    obtain ⟨b, success, -, -, readable⟩ := prepareDataBuffer_eq cleared room
    refine ⟨_, success, ?_, ?_, ?_⟩
    · change b.readable.take 4 = _
      rw [readable, List.append_assoc]
      exact List.take_left' rfl
    · change b.readable.length = 4 + (UInt16.ofNat _).toNat
      rw [readable, sent, UInt16.toNat_ofNat', Nat.mod_eq_of_lt fits]
      simp only [List.length_append, UwsgiPacketHeader.length_encode, length_window]
      omega
    · change Prefixed b.readable 4 (Net.strings (order.list r.withContentLength.headers))
      have found : b.readable.drop 4 = wire (order.list r.withContentLength.headers) ++
          window r.dataBuffer.storage (4 + (wire (r.sentVars order.list)).length) 4 := by
        rw [readable, sent, List.append_assoc]
        exact List.drop_left' rfl
      refine prefixed_wire (fun kv member => ?_) found
      have short := length_wireVar_le member
      rw [length_wireVar] at short
      omega

/-- One header and three bytes of content. -/
theorem prepared_truthful_sample :
    ∃ q, sampleRequest.prepareDataBuffer entriesOf = .ok q ∧ q.Truthful entriesOf :=
  (prepared_truthful_iff sampleRequest_composed.data ⟨entriesOf, fun _ => .refl _⟩).mpr
    (by decide)

/-- An object with one header, whose value has 2^16 bytes. -/
def longValue : UwsgiRequest where
  headers := AList.singleton (text "A") (List.replicate 65536 98)

/-- The value is left out, and its length is sent as 0. -/
theorem prepared_truncates :
    ∃ q, longValue.prepareDataBuffer entriesOf = .ok q ∧
      q.dataBuffer.readable = [0, 9, 0, 0, 1, 0, 65, 0, 0, 0, 0, 0, 0] ∧
      ¬q.Truthful entriesOf := by
  have empty : truncated (List.replicate 65536 98) = [] := by
    rw [truncated, List.length_replicate]
    exact List.take_zero
  have sent : longValue.sentVars entriesOf = [(text "A", [])] := by
    change [truncatedVar (text "A", List.replicate 65536 98)] = _
    rw [truncatedVar, empty]
    rfl
  have cleared : longValue.dataBuffer.Cleared := ⟨rfl, rfl, rfl, Nat.zero_le _⟩
  have room : (wire (longValue.sentVars entriesOf)).length + 2048 ≤ maxSize := by
    rw [sent]
    decide
  obtain ⟨b, success, -, -, readable⟩ := prepareDataBuffer_eq cleared room
  refine ⟨_, success, ?_, fun truthful => ?_⟩
  · change b.readable = _
    rw [readable, sentHeader, sent]
    rfl
  · have value : List.replicate 65536 98 ∈ Net.strings (entriesOf longValue.headers) :=
      List.mem_cons_of_mem _ List.mem_cons_self
    have short := truthful.strings.length_lt _ value
    rw [List.length_replicate] at short
    exact absurd short (by decide)

end UwsgiRequest

end LibTasks.Net

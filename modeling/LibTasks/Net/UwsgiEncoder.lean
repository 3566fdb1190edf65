import LibTasks.Net.UwsgiPacket

/-!
# The uwsgi encoder

What `uwsgi_request::prepare_data_buffer` leaves in the data buffer: the packet
header, the variables, and four more bytes, because writing the header at the
start makes the buffer four bytes longer.  These four are whatever the storage of
the buffer holds there.
-/

namespace LibTasks.Net

open LibTasks.Foundation LibTasks.Tools

/-! ## Writing variables -/

/-- The part of a string that its `uint16_t` length covers. -/
def truncated (s : Bytes) : Bytes := s.take (s.length % 2 ^ 16)

/-- A variable as it is written. -/
def truncatedVar (kv : Bytes × Bytes) : Bytes × Bytes := (truncated kv.1, truncated kv.2)

theorem length_truncated (s : Bytes) : (truncated s).length = s.length % 2 ^ 16 := by
  rw [truncated, List.length_take]
  exact Nat.min_eq_left (Nat.mod_le _ _)

theorem truncated_of_lt {s : Bytes} (small : s.length < 2 ^ 16) : truncated s = s := by
  rw [truncated, Nat.mod_eq_of_lt small, List.take_length]

namespace UwsgiRequest

/-- A buffer with the storage `memory`, after room was kept for `room` bytes and
`data` was written. -/
structure Drafting (memory : Bytes) (room : Nat) (data : Bytes) (b : Buffer) : Prop where
  ok : b.Ok
  gptr : b.gptr = 0
  size : b.size = room + data.length
  pptr : b.pptr = b.size
  written : ∃ front, front.length = room ∧ b.storage.take b.size = front ++ data
  behind : ∀ pos len, b.size ≤ pos → window b.storage pos len = window memory pos len

variable {memory data : Bytes} {room : Nat} {b : Buffer}

theorem Drafting.empty (cleared : b.Cleared) : Drafting b.storage 0 [] b :=
  ⟨cleared.ok, cleared.gptr, cleared.size, cleared.pptr.trans cleared.size.symm,
    ⟨[], rfl, by rw [cleared.size, List.take_zero, List.append_nil]⟩, fun _ _ _ => rfl⟩

theorem Drafting.readable_eq (drafting : Drafting memory 0 data b) : b.readable = data := by
  obtain ⟨front, length, written⟩ := drafting.written
  rw [Buffer.readable, drafting.gptr, slice_zero, Nat.sub_zero, written,
    List.eq_nil_of_length_eq_zero length, List.nil_append]

theorem Drafting.start (cleared : b.Cleared) :
    ∃ sized, b.setSize 4 = .ok sized ∧ Drafting b.storage 4 [] (sized.movePtrWrite 4) := by
  refine ⟨_, cleared.setSize_eq (by decide), ?_⟩
  have room := Buffer.le_length_grow b.storage 4
  refine ⟨⟨Nat.zero_le _, Nat.le_refl _, ?_, ?_⟩, rfl, rfl, rfl, ?_, ?_⟩
  · simpa [Buffer.filled, Buffer.movePtrWrite] using room
  · simpa [Buffer.filled, Buffer.movePtrWrite] using
      Buffer.length_grow_le cleared.capacity (by decide)
  · refine ⟨(Buffer.grow b.storage 4).take 4, ?_, ?_⟩
    · rw [List.length_take]
      omega
    · simp [Buffer.filled, Buffer.movePtrWrite]
  · intro pos len _
    simp [Buffer.filled, Buffer.movePtrWrite, Buffer.window_grow]

/-- Writing appends. -/
theorem Drafting.write (drafting : Drafting memory room data b) {more : Bytes}
    (small : b.size + more.length + 1024 ≤ maxSize) :
    ∃ next, b.write more = .ok next ∧ Drafting memory room (data ++ more) next := by
  refine ⟨_, drafting.ok.write_eq small, ?_⟩
  have inside : b.pptr ≤ (Buffer.grow b.storage (b.size + more.length)).length :=
    Nat.le_trans (Nat.le_trans drafting.ok.pptr drafting.ok.size)
      (Buffer.length_le_length_grow _ _)
  refine ⟨drafting.ok.written small, drafting.gptr, ?_, ?_, ?_, ?_⟩
  · simp only [drafting.size, List.length_append]
    omega
  · simp only [drafting.pptr]
  · obtain ⟨front, length, before⟩ := drafting.written
    refine ⟨front, length, ?_⟩
    have written := drafting.ok.take_written more
    rw [drafting.pptr, before] at written
    rw [← List.append_assoc, ← written, drafting.pptr]
  · intro pos len after
    have far : b.pptr + more.length ≤ pos := drafting.pptr ▸ after
    have behind := drafting.behind pos len (by simp only at after; omega)
    rw [window_overwrite_of_le inside far, Buffer.window_grow, behind]

theorem Drafting.size_append {more : Bytes} {next : Buffer} (before : Drafting memory room data b)
    (after : Drafting memory room (data ++ more) next) : next.size = b.size + more.length := by
  rw [after.size, before.size, List.length_append]
  omega

theorem Drafting.writeString (drafting : Drafting memory room data b) {s : Bytes}
    (small : b.size + (wireString (truncated s)).length + 1024 ≤ maxSize) :
    ∃ next, writeString b s = .ok next ∧
      Drafting memory room (data ++ wireString (truncated s)) next := by
  have length := length_truncated s
  rw [length_wireString] at small
  obtain ⟨first, wrote, middle⟩ :=
    drafting.write (b := b) (show b.size + (le16 (s.length % 2 ^ 16)).length + 1024 ≤ maxSize by
      rw [length_le16]
      omega)
  have size := drafting.size_append middle
  rw [length_le16] at size
  obtain ⟨next, wroteRest, last⟩ :=
    middle.write (show first.size + (truncated s).length + 1024 ≤ maxSize by omega)
  refine ⟨next, ?_, ?_⟩
  · simp only [UwsgiRequest.writeString, wrote, bind, Except.bind]
    exact wroteRest
  · rwa [wireString, length, ← List.append_assoc]

theorem Drafting.writeVars (drafting : Drafting memory room data b) {vars : List (Bytes × Bytes)}
    (small : b.size + (wire (vars.map truncatedVar)).length + 1024 ≤ maxSize) :
    ∃ next, vars.foldlM writeVar b = .ok next ∧
      Drafting memory room (data ++ wire (vars.map truncatedVar)) next := by
  induction vars generalizing data b with
  | nil =>
      refine ⟨b, rfl, ?_⟩
      rwa [List.map_nil, wire_nil, List.append_nil]
  | cons kv vars ih =>
      simp only [List.map_cons, wire_cons, List.length_append, wireVar, truncatedVar] at small
      obtain ⟨middle, wroteKey, keyDone⟩ := drafting.writeString (s := kv.1) (by omega)
      have sizeKey := drafting.size_append keyDone
      obtain ⟨after, wroteVal, valDone⟩ := keyDone.writeString (s := kv.2) (by omega)
      have sizeVal := keyDone.size_append valDone
      obtain ⟨next, wroteRest, done⟩ := ih valDone (by
        rw [sizeVal, sizeKey]
        omega)
      refine ⟨next, ?_, ?_⟩
      · simp only [List.foldlM_cons, writeVar, wroteKey, wroteVal, bind, Except.bind]
        exact wroteRest
      · simpa [wireVar, truncatedVar, List.append_assoc] using done

/-! ## The whole data buffer -/

/-- The variables that are sent, in the order of the iteration and as they are
written. -/
def sentVars (order : Headers → List (Bytes × Bytes)) (r : UwsgiRequest) :
    List (Bytes × Bytes) :=
  (order r.withContentLength.headers).map truncatedVar

/-- The packet header that is sent: `datasize` counts the header as well. -/
def sentHeader (order : Headers → List (Bytes × Bytes)) (r : UwsgiRequest) : UwsgiPacketHeader :=
  { r.uwsgiHeader with datasize := UInt16.ofNat (4 + (wire (r.sentVars order)).length) }

@[simp] theorem withContentLength_dataBuffer (r : UwsgiRequest) :
    r.withContentLength.dataBuffer = r.dataBuffer := by
  unfold withContentLength
  split <;> simp

@[simp] theorem withContentLength_contentBuffer (r : UwsgiRequest) :
    r.withContentLength.contentBuffer = r.contentBuffer := by
  unfold withContentLength
  split <;> simp

@[simp] theorem withContentLength_state (r : UwsgiRequest) :
    r.withContentLength.state = r.state := by
  unfold withContentLength
  split <;> simp

@[simp] theorem withContentLength_uwsgiHeader (r : UwsgiRequest) :
    r.withContentLength.uwsgiHeader = r.uwsgiHeader := by
  unfold withContentLength
  split <;> rfl

/-- What was drafted, read behind the room for the header and four bytes more. -/
theorem Drafting.slice_eq (drafting : Drafting memory 4 data b) :
    slice (Buffer.grow b.storage (b.size + 4)) 4 b.size = data ++ window memory b.size 4 := by
  obtain ⟨front, length, before⟩ := drafting.written
  have known : (Buffer.grow b.storage (b.size + 4)).take b.size = front ++ data :=
    (Buffer.take_grow _ drafting.ok.size).trans before
  have body : slice (Buffer.grow b.storage (b.size + 4)) 4 data.length = data := by
    rw [slice_of_take known (Nat.le_of_eq drafting.size.symm), ← length]
    simpa using slice_middle front data []
  have tail : slice (Buffer.grow b.storage (b.size + 4)) b.size 4 = window memory b.size 4 := by
    rw [slice_eq_window (Buffer.le_length_grow _ _), Buffer.window_grow,
      drafting.behind b.size 4 (Nat.le_refl _)]
  have split := slice_add (Buffer.grow b.storage (b.size + 4)) 4 data.length 4
  rwa [body, ← drafting.size, tail, Nat.add_comm data.length 4, ← drafting.size] at split

/-- Going back to the start and writing the header there. -/
theorem Drafting.patch (drafting : Drafting memory 4 data b) {front : Bytes}
    (length : front.length = 4) (small : b.size + 4 + 1024 ≤ maxSize) :
    ∃ start patched final, b.movePtrWriteAbs 0 = .ok start ∧ start.write front = .ok patched ∧
      patched.movePtrWriteAbs b.pptr = .ok final ∧ final.Ok ∧ final.gptr = 0 ∧
      final.readable = front ++ data ++ window memory b.size 4 := by
  have ok : Buffer.Ok { b with pptr := 0 } :=
    ⟨drafting.ok.gptr, Nat.zero_le _, drafting.ok.size, drafting.ok.capacity⟩
  rw [← length] at small
  have wrote := ok.write_eq small
  have written := ok.written small
  have inside : b.pptr ≤ b.size + front.length :=
    Nat.le_trans drafting.ok.pptr (Nat.le_add_right _ _)
  let final : Buffer :=
    { storage := overwrite (Buffer.grow b.storage (b.size + front.length)) 0 front
      size := b.size + front.length
      gptr := b.gptr
      pptr := b.pptr }
  refine ⟨_, _, final, rfl, wrote, ?_, ?_, drafting.gptr, ?_⟩
  · simp only [Buffer.movePtrWriteAbs, Buffer.ptr, if_pos inside, bind, Except.bind]
    rfl
  · exact ⟨written.gptr, inside, written.size, written.capacity⟩
  · have readable : final.readable = (final.storage).take (b.size + 4) := by
      rw [Buffer.readable, show final.gptr = 0 from drafting.gptr, slice_zero, ← length]
      rfl
    have storage : final.storage = front ++ (Buffer.grow b.storage (b.size + 4)).drop 4 := by
      simp [final, overwrite, length]
    calc final.readable
      _ = (front ++ (Buffer.grow b.storage (b.size + 4)).drop 4).take (front.length + b.size) := by
        rw [readable, storage, length, Nat.add_comm]
      _ = front ++ slice (Buffer.grow b.storage (b.size + 4)) 4 b.size :=
        List.take_length_add_append _
      _ = front ++ data ++ window memory b.size 4 := by
        rw [List.append_assoc, drafting.slice_eq]

/-- What `prepare_data_buffer` makes of an object whose data buffer is cleared. -/
theorem prepareDataBuffer_eq {order : Headers → List (Bytes × Bytes)} {r : UwsgiRequest}
    (cleared : r.dataBuffer.Cleared)
    (small : (wire (r.sentVars order)).length + 2048 ≤ maxSize) :
    ∃ b : Buffer, r.prepareDataBuffer order =
        .ok { r.withContentLength with dataBuffer := b, uwsgiHeader := r.sentHeader order } ∧
      b.Ok ∧ b.gptr = 0 ∧
      b.readable = (r.sentHeader order).encode ++ wire (r.sentVars order) ++
        window r.dataBuffer.storage (4 + (wire (r.sentVars order)).length) 4 := by
  obtain ⟨sized, resized, kept⟩ := Drafting.start cleared
  have room : (sized.movePtrWrite 4).size + (wire (r.sentVars order)).length + 1024 ≤ maxSize := by
    rw [kept.size, List.length_nil]
    omega
  obtain ⟨drafted, wrote, drafting⟩ := kept.writeVars room
  rw [List.nil_append] at drafting
  have size : drafted.size = 4 + (wire (r.sentVars order)).length := drafting.size
  obtain ⟨start, patched, final, moved, patchedEq, restored, ok, gptr, readable⟩ :=
    drafting.patch (show (r.sentHeader order).encode.length = 4 from rfl) (by omega)
  refine ⟨final, ?_, ok, gptr, ?_⟩
  · have header : ({ r.withContentLength.uwsgiHeader with
        datasize := UInt16.ofNat drafted.pptr } : UwsgiPacketHeader) = r.sentHeader order := by
      rw [drafting.pptr, size, withContentLength_uwsgiHeader]
      rfl
    simp only [prepareDataBuffer, withContentLength_dataBuffer, resized, bind, Except.bind, wrote,
      moved, header, patchedEq, restored]
  · rw [readable, size]
    rfl

end UwsgiRequest

end LibTasks.Net

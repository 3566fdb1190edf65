import LibTasks.Net.HttpParsing

/-!
# Reading a response

What one iteration of the loop of `http_response::read_data` does, for any bytes
and any socket, and from it what holds wherever the loop of any call in a run of
calls starts an iteration.

The main result is about the test that sets the state to `DONE`.  It is made after
every read, also while the header block is incomplete: it is sound in exactly the
runs in which no read ends inside the header block at the very number of bytes that
the header lines so far announce as the length of the content.
-/

namespace LibTasks.Net

open LibTasks.Foundation LibTasks.Tools

namespace HttpResponse

/-! ## Room for a read -/

/-- The buffer `next` is `b` with room for a block. -/
structure Room (b next : Buffer) : Prop where
  made : makeRoom b = .ok next
  ok : next.Ok
  gptr : next.gptr = b.gptr
  pptr : next.pptr = b.pptr
  size : b.pptr + readBufferSizeBlock ≤ next.size
  kept : next.storage.take b.pptr = b.storage.take b.pptr

theorem makeRoom_eq {b : Buffer} (ok : b.Ok) :
    makeRoom b = if b.pptr + readBufferSizeBlock ≤ b.size then .ok b
      else b.setSize (b.storage.length + readBufferSizeBlock) := by
  have capacity := ok.capacity
  have inside := ok.pptr
  have modulus : (b.bufferSize + readBufferSizeBlock) % 2 ^ 64 =
      b.storage.length + readBufferSizeBlock := by
    unfold Buffer.bufferSize readBufferSizeBlock
    unfold maxSize at capacity
    omega
  have enough : b.toWrite - 1 < readBufferSizeBlock - 1 ↔
      ¬b.pptr + readBufferSizeBlock ≤ b.size := by
    rw [ok.toWrite_eq]
    omega
  rw [makeRoom, modulus]
  simp only [enough, ite_not]

theorem Room.of_enough {b : Buffer} (ok : b.Ok) (enough : b.pptr + readBufferSizeBlock ≤ b.size) :
    Room b b :=
  ⟨by rw [makeRoom_eq ok, if_pos enough], ok, rfl, rfl, enough, rfl⟩

theorem Room.of_grown {b : Buffer} (ok : b.Ok) (little : ¬b.pptr + readBufferSizeBlock ≤ b.size)
    (small : b.storage.length + readBufferSizeBlock + 1024 ≤ maxSize) :
    Room b { b with
      storage := Buffer.grow b.storage (b.storage.length + readBufferSizeBlock)
      size := b.storage.length + readBufferSizeBlock } := by
  have pptr := ok.pptr
  have size := ok.size
  constructor
  · rw [makeRoom_eq ok, if_neg little, ok.setSize_eq small]
  · exact ok.grown (by omega) small
  · rfl
  · rfl
  · dsimp only
    omega
  · exact Buffer.take_grow _ (Nat.le_trans pptr size)

/-- There is room for a block, or the vector can be made large enough. -/
def CanGrow (b : Buffer) : Prop :=
  b.pptr + readBufferSizeBlock ≤ b.size ∨ b.storage.length + readBufferSizeBlock + 1024 ≤ maxSize

theorem CanGrow.exists_room {b : Buffer} (grows : CanGrow b) (ok : b.Ok) : ∃ next, Room b next := by
  by_cases enough : b.pptr + readBufferSizeBlock ≤ b.size
  · exact ⟨b, .of_enough ok enough⟩
  · exact ⟨_, .of_grown ok enough (grows.resolve_left enough)⟩

theorem makeRoom_tooLarge {b : Buffer} (ok : b.Ok) (stuck : ¬CanGrow b) :
    makeRoom b = .error .lengthError := by
  obtain ⟨enough, small⟩ := not_or.mp stuck
  have wide : (b.storage.length + readBufferSizeBlock + 1024) % 2 ^ 64 =
      b.storage.length + readBufferSizeBlock + 1024 := by
    have capacity := ok.capacity
    unfold readBufferSizeBlock
    unfold maxSize at capacity
    omega
  have larger : b.storage.length < b.storage.length + readBufferSizeBlock :=
    Nat.lt_add_of_pos_right (by decide)
  rw [makeRoom_eq ok, if_neg enough, Buffer.setSize, if_pos larger, wide,
    if_pos (Nat.not_le.mp small)]

/-- There is room for a block, unless the vector cannot be so large. -/
theorem makeRoom_cases {b : Buffer} (ok : b.Ok) :
    makeRoom b = .error .lengthError ∨ ∃ next, Room b next := by
  by_cases grows : CanGrow b
  · exact .inr (grows.exists_room ok)
  · exact .inl (makeRoom_tooLarge ok grows)

/-- The read for all of the room but the place of a zero byte. -/
def roomCall (b : Buffer) : ReadCall where
  offset := b.pptr
  len := b.size - b.pptr - 1
  size := b.size
  capacity := b.storage.length

/-- The buffer after bytes were received. -/
def received (b : Buffer) (bytes : Bytes) : Buffer :=
  { b with
    storage := overwrite b.storage b.pptr bytes
    pptr := b.pptr + bytes.length }

/-- The iteration that starts with `r` and `sock` has the room `b`, receives the
bytes, and leaves the rest unread. -/
structure Arrives (r : HttpResponse) (sock : Socket) (b : Buffer) (bytes rest : Bytes) : Prop where
  room : Room r.contentBuffer b
  nonempty : bytes ≠ []
  fits : b.pptr + bytes.length < b.size
  stream : sock.incoming = bytes ++ rest
  read : sock.read (roomCall b) = (.ok (some bytes), sock.advance (roomCall b) rest)

variable {r : HttpResponse} {sock : Socket} {b : Buffer} {bytes rest : Bytes}

/-- The read of an iteration. -/
theorem Room.fillFrom_eq (room : Room r.contentBuffer b) (sock : Socket) :
    fillFrom b (toSize (b.toWrite - 1)) sock =
      match sock.read (roomCall b) with
      | (.error e, sock) => ⟨.error (.exception e), b, sock⟩
      | (.ok none, sock) => ⟨.ok none, b, sock⟩
      | (.ok (some bytes), sock) =>
          match b.store b.pptr bytes with
          | .error f => ⟨.error (.fault f), b, sock⟩
          | .ok b => ⟨.ok (some bytes.length), b.movePtrWrite bytes.length, sock⟩ := by
  have size := room.size
  have large := room.ok.size
  have capacity := room.ok.capacity
  have len : toSize (b.toWrite - 1) = b.size - b.pptr - 1 := by
    rw [← room.pptr] at size
    unfold readBufferSizeBlock at size
    unfold maxSize at capacity
    rw [room.ok.toWrite_eq]
    unfold toSize
    omega
  rw [len]
  rfl

/-- What arrives is stored. -/
theorem Arrives.fillFrom_eq (arrives : r.Arrives sock b bytes rest) :
    fillFrom b (toSize (b.toWrite - 1)) sock =
      ⟨.ok (some bytes.length), received b bytes, sock.advance (roomCall b) rest⟩ := by
  have fits := arrives.fits
  have size := arrives.room.ok.size
  have stored : b.store b.pptr bytes =
      .ok { b with storage := overwrite b.storage b.pptr bytes } := if_pos (by omega)
  rw [arrives.room.fillFrom_eq, arrives.read]
  dsimp only
  rw [stored]
  rfl

/-- What arrives is parsed. -/
theorem Arrives.receive_eq (arrives : r.Arrives sock b bytes rest) :
    r.receive sock =
      let parsed := parseReceived { r with contentBuffer := received b bytes }
      ⟨parsed.1.map fun _ => (b.toWrite - 1, some bytes.length), parsed.2,
        sock.advance (roomCall b) rest⟩ := by
  unfold receive
  rw [arrives.room.made]
  dsimp only
  rw [arrives.fillFrom_eq]
  dsimp only
  split
  · next e q refused =>
      rw [refused]
      rfl
  · next q parsed =>
      rw [parsed]
      rfl

theorem Room.receive_again (room : Room r.contentBuffer b)
    (again : sock.read (roomCall b) = (.ok none, sock.advance (roomCall b) sock.incoming)) :
    r.receive sock = ⟨.ok (b.toWrite - 1, none), { r with contentBuffer := b },
      sock.advance (roomCall b) sock.incoming⟩ := by
  have filled := room.fillFrom_eq sock
  rw [again] at filled
  unfold receive
  rw [room.made]
  dsimp only
  rw [filled]

theorem Room.arrives (room : Room r.contentBuffer b) (nonempty : bytes ≠ [])
    (short : bytes.length ≤ (roomCall b).len) (stream : sock.incoming = bytes ++ rest)
    (read : sock.read (roomCall b) = (.ok (some bytes), sock.advance (roomCall b) rest)) :
    r.Arrives sock b bytes rest := by
  have size := room.size
  have fits : b.pptr + bytes.length < b.size := by
    rw [← room.pptr] at size
    simp only [roomCall] at short
    unfold readBufferSizeBlock at size
    omega
  exact ⟨room, nonempty, fits, stream, read⟩

/-- The read of an iteration is not made, fails, finds nothing, or receives
something. -/
theorem attempt_cases (ok : r.contentBuffer.Ok) (sock : Socket) :
    makeRoom r.contentBuffer = .error .lengthError ∨
    (∃ b e, Room r.contentBuffer b ∧
      sock.read (roomCall b) = (.error e, sock.advance (roomCall b) sock.incoming)) ∨
    (∃ b, Room r.contentBuffer b ∧
      sock.read (roomCall b) = (.ok none, sock.advance (roomCall b) sock.incoming)) ∨
    ∃ b bytes rest, r.Arrives sock b bytes rest := by
  obtain tooLarge | ⟨b, room⟩ := makeRoom_cases ok
  · exact .inl tooLarge
  obtain ⟨e, failed⟩ | again | ⟨bytes, rest, nonempty, short, stream, read⟩ :=
    sock.read_cases (roomCall b)
  · exact .inr (.inl ⟨b, e, room, failed⟩)
  · exact .inr (.inr (.inl ⟨b, room, again⟩))
  · exact .inr (.inr (.inr ⟨b, bytes, rest, room.arrives nonempty short stream read⟩))

theorem Room.receive_failed (room : Room r.contentBuffer b) {e : TasksException} {next : Socket}
    (failed : sock.read (roomCall b) = (.error e, next)) :
    r.receive sock = ⟨.error (.exception e), { r with contentBuffer := b }, next⟩ := by
  unfold receive
  rw [room.made]
  dsimp only
  rw [room.fillFrom_eq, failed]

theorem receive_tooLarge (tooLarge : makeRoom r.contentBuffer = .error .lengthError) :
    r.receive sock = ⟨.error (.fault .lengthError), r, sock⟩ := by
  unfold receive
  rw [tooLarge]

/-- An iteration up to the test for the end of the content fails, finds nothing, or
receives something. -/
theorem receive_cases (ok : r.contentBuffer.Ok) (sock : Socket) :
    (∃ e, e ≠ .fault .diverges ∧ (r.receive sock).result = .error e) ∨
    (∃ b, Room r.contentBuffer b ∧ r.receive sock =
      ⟨.ok (b.toWrite - 1, none), { r with contentBuffer := b },
        sock.advance (roomCall b) sock.incoming⟩) ∨
    ∃ b bytes rest, r.Arrives sock b bytes rest := by
  obtain tooLarge | ⟨b, e, room, failed⟩ | ⟨b, room, again⟩ | arrives := attempt_cases ok sock
  · rw [receive_tooLarge tooLarge]
    exact .inl ⟨.fault .lengthError, nofun, rfl⟩
  · rw [room.receive_failed failed]
    exact .inl ⟨.exception e, nofun, rfl⟩
  · exact .inr (.inl ⟨b, room, room.receive_again again⟩)
  · exact .inr (.inr arrives)

/-! ## Parsing what was received -/

/-- The buffer after bytes were received and ended with a zero byte. -/
def ended (b : Buffer) (bytes : Bytes) : Buffer :=
  { b with
    storage := overwrite b.storage b.pptr (bytes ++ [0])
    pptr := b.pptr + bytes.length }

/-- The memory from the current line on: what was there of the line, the bytes that
arrived, the zero byte, and old data. -/
def arrivedMemory (r : HttpResponse) (b : Buffer) (bytes : Bytes) : Bytes :=
  slice b.storage r.lastLineStart (b.pptr - r.lastLineStart) ++
    (bytes ++ 0 :: b.storage.drop (b.pptr + bytes.length + 1))

/-- A response at the start of an iteration of the loop of `read_data`. -/
structure Reading (r : HttpResponse) : Prop where
  ok : r.contentBuffer.Ok
  start : r.lastLineStart ≤ r.contentBuffer.pptr
  state : r.state = .readData ∨ r.state = .readContent ∨ r.state = .done
  data : r.state = .readData → r.contentStart = 0
  content : r.state = .readContent →
    0 < r.contentStart ∧ r.contentStart ≤ r.contentBuffer.pptr ∧ r.contentLengthExists = true
  done : r.state = .done → r.contentStart + r.contentLength ≤ r.contentBuffer.pptr

/-- The buffer in which the bytes arrived and were ended. -/
theorem Arrives.ended_ok (arrives : r.Arrives sock b bytes rest) : (ended b bytes).Ok ∧
    (ended b bytes).storage[(ended b bytes).pptr]? = some 0 := by
  have ok := arrives.room.ok
  have fits := arrives.fits
  have size := ok.size
  have length : (overwrite b.storage b.pptr (bytes ++ [0])).length = b.storage.length :=
    length_overwrite (by rw [List.length_append, List.length_singleton]; omega)
  constructor
  · exact ⟨ok.gptr, Nat.le_of_lt fits, Nat.le_trans size (Nat.le_of_eq length.symm),
      Nat.le_trans (Nat.le_of_eq length) ok.capacity⟩
  · have place : (b.storage.take b.pptr ++ bytes).length = b.pptr + bytes.length := by
      rw [List.length_append, List.length_take]
      omega
    show (overwrite b.storage b.pptr (bytes ++ [0]))[b.pptr + bytes.length]? = some 0
    rw [overwrite, ← List.append_assoc, List.append_assoc, ← place,
      List.getElem?_append_right (Nat.le_refl _), Nat.sub_self]
    rfl

theorem Arrives.drop_ended (arrives : r.Arrives sock b bytes rest)
    (start : r.lastLineStart ≤ r.contentBuffer.pptr) :
    (ended b bytes).storage.drop r.lastLineStart = r.arrivedMemory b bytes := by
  have fits := arrives.fits
  have size := arrives.room.ok.size
  rw [← arrives.room.pptr] at start
  show (overwrite b.storage b.pptr (bytes ++ [0])).drop r.lastLineStart = _
  rw [drop_overwrite start (by omega), List.length_append, List.length_singleton]
  simp only [arrivedMemory, List.append_assoc, List.cons_append, List.nil_append]
  rfl

/-- The bytes that arrived are ended with a zero byte. -/
theorem Arrives.store_eq (arrives : r.Arrives sock b bytes rest) :
    (received b bytes).store (received b bytes).pptr [0] = .ok (ended b bytes) := by
  have fits := arrives.fits
  have size := arrives.room.ok.size
  have length : (overwrite b.storage b.pptr bytes).length = b.storage.length :=
    length_overwrite (by omega)
  rw [Buffer.store, if_pos (by
    show b.pptr + bytes.length + 1 ≤ (overwrite b.storage b.pptr bytes).length
    omega)]
  simp only [received, overwrite_append (show b.pptr ≤ b.storage.length by omega)]
  rfl

theorem Arrives.parsing (arrives : r.Arrives sock b bytes rest) (reading : r.Reading)
    (state : r.state = .readData) : Parsing { r with contentBuffer := ended b bytes } := by
  have room := arrives.room.size
  have start := reading.start
  obtain ⟨ok, stop⟩ := arrives.ended_ok
  refine ⟨ok, stop, ?_, fun _ => ?_, reading.data state⟩
  · show r.lastLineStart ≤ b.pptr + bytes.length
    rw [arrives.room.pptr]
    omega
  · left
    show r.lastLineStart + 6 ≤ b.size
    unfold readBufferSizeBlock at room
    omega

/-- While the header block is read, what arrives is parsed as the scanner does. -/
theorem Arrives.parse_follows (arrives : r.Arrives sock b bytes rest) (reading : r.Reading)
    (state : r.state = .readData) :
    Follows { r with contentBuffer := ended b bytes }
      (parseReceived { r with contentBuffer := received b bytes })
      (scanLines takeLine r.fields (r.arrivedMemory b bytes)) := by
  have follows := (arrives.parsing reading state).parseData_follows
  rw [arrives.drop_ended reading.start] at follows
  rw [parseReceived, if_pos state, arrives.store_eq]
  exact follows

/-- The response at the test for the end of the content, after bytes arrived. -/
inductive Parsed (r : HttpResponse) (b : Buffer) (bytes : Bytes) : HttpResponse → Prop
  /-- The header block is still incomplete. -/
  | more {h q : HttpResponse} {memory : Bytes} (state : r.state = .readData)
      (scan : scanLines takeLine r.fields (r.arrivedMemory b bytes) = .more h memory)
      (reached : Reached { r with contentBuffer := ended b bytes } h memory q) :
      Parsed r b bytes q
  /-- The header block has ended. -/
  | blank {h q : HttpResponse} {memory : Bytes} (state : r.state = .readData)
      (scan : scanLines takeLine r.fields (r.arrivedMemory b bytes) =
        .blank h (13 :: 10 :: memory))
      (reached : Reached { r with contentBuffer := ended b bytes } h (13 :: 10 :: memory) q)
      (behind : q.lastLineStart + 2 ≤ q.contentBuffer.pptr)
      (plain : q.chunkedEnc = false) (announced : q.contentLengthExists = true) :
      Parsed r b bytes
        { q with contentStart := q.lastLineStart + 2, state := .readContent }
  /-- The header block had ended before. -/
  | content (state : r.state ≠ .readData) :
      Parsed r b bytes { r with contentBuffer := received b bytes }

theorem Reached.behind {h q : HttpResponse} {memory : Bytes}
    (reached : Reached r h (13 :: 10 :: memory) q) :
    q.lastLineStart + 2 ≤ q.contentBuffer.pptr := by
  have before := reached.start
  have stop : (q.contentBuffer.storage.drop q.lastLineStart)[q.contentBuffer.pptr -
      q.lastLineStart]? = some 0 := by
    rw [List.getElem?_drop, Nat.add_sub_cancel' before, reached.ended]
  rw [reached.memory] at stop
  match distance : q.contentBuffer.pptr - q.lastLineStart with
  | 0 => simp [distance] at stop
  | 1 => simp [distance] at stop
  | k + 2 => omega

theorem Arrives.startContent_eq (arrives : r.Arrives sock b bytes rest) {h last : HttpResponse}
    {memory : Bytes}
    (reached : Reached { r with contentBuffer := ended b bytes } h (13 :: 10 :: memory) last) :
    last.startContent =
      if last.chunkedEnc then
        (.error (.exception chunkedNotImplemented), last)
      else if ¬last.contentLengthExists then
        (.error (.exception contentLengthMissing), last)
      else
        (.ok (), { last with
          contentStart := last.lastLineStart + 2, state := .readContent }) := by
  have bounded := arrives.ended_ok.1.pptr
  have behind := reached.behind
  have sameEnd : last.contentBuffer.pptr = (ended b bytes).pptr := reached.pptr
  have sameSize : last.contentBuffer.size = (ended b bytes).size := reached.size
  exact reached.startContent_eq (by omega)

/-- Parsing fails with a line that is refused, or at the end of the header block. -/
theorem Arrives.parse_failed (arrives : r.Arrives sock b bytes rest) (reading : r.Reading)
    {e : Failure} {q : HttpResponse}
    (result : parseReceived { r with contentBuffer := received b bytes } = (.error e, q)) :
    r.state = .readData ∧ (scanLines takeLine r.fields (r.arrivedMemory b bytes) = .failed e ∨
      e = .exception chunkedNotImplemented ∨ e = .exception contentLengthMissing) := by
  by_cases state : r.state = .readData
  · refine ⟨state, ?_⟩
    have follows := arrives.parse_follows reading state
    rw [result] at follows
    cases scan : scanLines takeLine r.fields (r.arrivedMemory b bytes) with
    | failed e =>
        rw [scan] at follows
        cases follows
        exact .inl rfl
    | more h memory =>
        rw [scan] at follows
        obtain ⟨_, same, _⟩ := follows
        cases same
    | blank h memory =>
        obtain ⟨tail, rfl⟩ := exists_of_blank scan
        rw [scan] at follows
        obtain ⟨last, started, reached⟩ := follows
        rw [arrives.startContent_eq reached] at started
        split_ifs at started
        · cases started
          exact .inr (.inl rfl)
        · cases started
        · cases started
          exact .inr (.inr rfl)
  · rw [parseReceived, if_neg state] at result
    cases result

/-- The loop of `parse_data` ends. -/
theorem Arrives.parse_ends (arrives : r.Arrives sock b bytes rest) (reading : r.Reading)
    {e : Failure} {q : HttpResponse}
    (result : parseReceived { r with contentBuffer := received b bytes } = (.error e, q)) :
    e ≠ .fault .diverges := by
  obtain ⟨_, failed | rfl | rfl⟩ := arrives.parse_failed reading result
  · obtain ⟨h, line, refused⟩ := exists_of_failed failed
    intro same
    exact takeLine_ne_diverges h line (same ▸ refused)
  · exact nofun
  · exact nofun

/-- What parsing can leave when it does not fail. -/
theorem Arrives.parsed (arrives : r.Arrives sock b bytes rest) (reading : r.Reading)
    {q : HttpResponse}
    (result : parseReceived { r with contentBuffer := received b bytes } = (.ok (), q)) :
    Parsed r b bytes q := by
  by_cases state : r.state = .readData
  · have follows := arrives.parse_follows reading state
    rw [result] at follows
    cases scan : scanLines takeLine r.fields (r.arrivedMemory b bytes) with
    | failed e =>
        rw [scan] at follows
        cases follows
    | more h memory =>
        rw [scan] at follows
        obtain ⟨_, same, reached⟩ := follows
        cases same
        exact .more state scan reached
    | blank h memory =>
        obtain ⟨tail, rfl⟩ := exists_of_blank scan
        rw [scan] at follows
        obtain ⟨last, started, reached⟩ := follows
        rw [arrives.startContent_eq reached] at started
        split_ifs at started with chunked announced
        · cases started
        · cases started
          exact .blank state scan reached reached.behind (Bool.eq_false_iff.mpr chunked) announced
        · cases started
  · rw [parseReceived, if_neg state] at result
    cases result
    exact .content state

variable {q : HttpResponse}

/-- Where parsing leaves the pointers. -/
theorem Parsed.places (arrives : r.Arrives sock b bytes rest) (parsed : Parsed r b bytes q) :
    q.contentBuffer.pptr = b.pptr + bytes.length ∧ q.contentBuffer.size = b.size ∧
      q.contentBuffer.gptr = b.gptr ∧ q.contentBuffer.storage.length = b.storage.length := by
  have fits := arrives.fits
  have size := arrives.room.ok.size
  have length : (ended b bytes).storage.length = b.storage.length :=
    length_overwrite (by rw [List.length_append, List.length_singleton]; omega)
  cases parsed with
  | more state scan reached =>
      exact ⟨reached.pptr, reached.size, reached.gptr, reached.length.trans length⟩
  | blank state scan reached behind plain announced =>
      exact ⟨reached.pptr, reached.size, reached.gptr, reached.length.trans length⟩
  | content state => exact ⟨rfl, rfl, rfl, length_overwrite (by omega)⟩

/-- Parsing leaves a response that can be read on. -/
theorem Parsed.reading (arrives : r.Arrives sock b bytes rest) (reading : r.Reading)
    (parsed : Parsed r b bytes q) : q.Reading := by
  obtain ⟨pptr, size, gptr, length⟩ := parsed.places arrives
  have ok := arrives.room.ok
  have fits := arrives.fits
  have same := arrives.room.pptr
  have buffer : q.contentBuffer.Ok := by
    refine ⟨?_, ?_, ?_, ?_⟩
    · rw [gptr, size]
      exact ok.gptr
    · omega
    · rw [size, length]
      exact ok.size
    · rw [length]
      exact ok.capacity
  cases parsed with
  | more state scan reached =>
      have kept : q.state = .readData := reached.state.trans state
      exact ⟨buffer, reached.start, .inl kept, fun _ => reached.noContent,
        fun other => by simp [kept] at other, fun other => by simp [kept] at other⟩
  | @blank h q memory state scan reached behind plain announced =>
      exact ⟨buffer, reached.start, .inr (.inl rfl), nofun,
        fun _ => ⟨Nat.succ_pos _, behind, announced⟩, nofun⟩
  | content state =>
      refine ⟨buffer, ?_, reading.state, reading.data, fun content => ?_, fun done => ?_⟩
      · have start := reading.start
        rw [pptr]
        show r.lastLineStart ≤ _
        omega
      · obtain ⟨positive, inside, announced⟩ := reading.content content
        refine ⟨positive, ?_, announced⟩
        rw [pptr]
        show r.contentStart ≤ _
        omega
      · have behind := reading.done done
        rw [pptr]
        show r.contentStart + r.contentLength ≤ _
        omega

theorem Reading.begun (reading : r.Reading) : r.state ≠ .ready := by
  obtain data | content | done := reading.state
  · simp [data]
  · simp [content]
  · simp [done]

/-! ## The test for the end of the content -/

theorem Reading.contentStart_le (reading : r.Reading) :
    r.contentStart ≤ r.contentBuffer.pptr := by
  obtain data | content | done := reading.state
  · rw [reading.data data]
    exact Nat.zero_le _
  · exact (reading.content content).2.1
  · exact Nat.le_trans (Nat.le_add_right _ _) (reading.done done)

/-- The test compares the content that was received with the length announced. -/
theorem Reading.contentComplete_iff (reading : r.Reading) :
    r.contentComplete = true ↔
      r.contentBuffer.pptr = r.contentStart + r.contentLength := by
  have inside := reading.contentStart_le
  have bounded := Nat.le_trans reading.ok.pptr (Nat.le_trans reading.ok.size reading.ok.capacity)
  have difference : toSize ((r.contentBuffer.pptr : Int) - r.contentStart) =
      r.contentBuffer.pptr - r.contentStart := by
    unfold maxSize at bounded
    unfold toSize
    omega
  rw [contentComplete, difference, decide_eq_true_eq]
  omega

/-- The response with its content complete. -/
def finished (q : HttpResponse) : HttpResponse :=
  { q with
    contentBuffer := {
      storage := overwrite q.contentBuffer.storage q.contentBuffer.pptr [0]
      size := q.contentBuffer.pptr
      gptr := q.contentStart
      pptr := q.contentBuffer.pptr }
    state := .done }

theorem Reading.complete_eq (reading : r.Reading)
    (whole : r.contentBuffer.pptr = r.contentStart + r.contentLength)
    (room : r.contentBuffer.pptr < r.contentBuffer.size) : r.complete = .ok r.finished := by
  have ok := reading.ok
  have size := ok.size
  have capacity := ok.capacity
  have length : (overwrite r.contentBuffer.storage r.contentBuffer.pptr [0]).length =
      r.contentBuffer.storage.length := length_overwrite (by rw [List.length_singleton]; omega)
  have modulus : (r.contentStart + r.contentLength) % 2 ^ 64 = r.contentBuffer.pptr := by
    unfold maxSize at capacity
    omega
  have stored : r.contentBuffer.store r.contentBuffer.pptr [0] = .ok
      { r.contentBuffer with
        storage := overwrite r.contentBuffer.storage r.contentBuffer.pptr [0] } :=
    if_pos (by rw [List.length_singleton]; omega)
  simp only [complete, stored, modulus, bind, Except.bind, Buffer.setSize, length,
    if_neg (show ¬r.contentBuffer.storage.length < r.contentBuffer.pptr by omega),
    Buffer.movePtrReadAbs, Buffer.ptr, if_pos reading.contentStart_le]
  rfl

/-! ## One iteration -/

/-- The state is set to `DONE` in the iteration that starts with `r` and `sock`. -/
def SetsDone (r : HttpResponse) (sock : Socket) : Prop :=
  (∃ towrite bytes, (r.receive sock).result = .ok (towrite, some bytes)) ∧
    (r.receive sock).object.contentComplete = true

/-- What an iteration can do. -/
inductive Iterates (r : HttpResponse) (sock : Socket) : Outcome HttpResponse Bool → Prop
  | failed {e : Failure} (ends : e ≠ .fault .diverges) (q : HttpResponse) (next : Socket) :
      Iterates r sock ⟨.error e, q, next⟩
  /-- Nothing was there to read. -/
  | again {b : Buffer} (room : Room r.contentBuffer b) :
      Iterates r sock ⟨.ok false, { r with contentBuffer := b },
        sock.advance (roomCall b) sock.incoming⟩
  /-- Bytes arrived, and more are to come. -/
  | more {b : Buffer} {bytes rest : Bytes} {q : HttpResponse}
      (arrives : r.Arrives sock b bytes rest) (parsed : Parsed r b bytes q)
      (incomplete : q.contentBuffer.pptr ≠ q.contentStart + q.contentLength) :
      Iterates r sock ⟨.ok (bytes.length = (roomCall b).len), q, sock.advance (roomCall b) rest⟩
  /-- Bytes arrived, and the content is complete. -/
  | done {b : Buffer} {bytes rest : Bytes} {q : HttpResponse}
      (arrives : r.Arrives sock b bytes rest) (parsed : Parsed r b bytes q)
      (whole : q.contentBuffer.pptr = q.contentStart + q.contentLength) :
      Iterates r sock ⟨.ok (bytes.length = (roomCall b).len), q.finished,
        sock.advance (roomCall b) rest⟩

theorem Room.towrite_eq (room : Room r.contentBuffer b) :
    b.toWrite - 1 = ((roomCall b).len : Int) := by
  have size := room.size
  rw [room.ok.toWrite_eq]
  unfold roomCall readBufferSizeBlock at *
  dsimp only
  rw [← room.pptr] at size
  omega

/-- An iteration in which bytes arrive and are parsed. -/
theorem Arrives.readIteration_eq (arrives : r.Arrives sock b bytes rest) (reading : r.Reading)
    (parse : parseReceived { r with contentBuffer := received b bytes } = (.ok (), q)) :
    r.readIteration sock = ⟨.ok (bytes.length = (roomCall b).len),
      if q.contentBuffer.pptr = q.contentStart + q.contentLength then q.finished else q,
      sock.advance (roomCall b) rest⟩ := by
  have full : (b.toWrite - 1 == (bytes.length : Int)) =
      decide (bytes.length = (roomCall b).len) := by
    rw [arrives.room.towrite_eq, Bool.beq_eq_decide_eq]
    exact decide_eq_decide.mpr ⟨fun same => by omega, fun same => by omega⟩
  have parsed := arrives.parsed reading parse
  have places := parsed.places arrives
  have fits := arrives.fits
  have next := parsed.reading arrives reading
  unfold readIteration
  rw [arrives.receive_eq, parse]
  dsimp only [Except.map]
  rw [full]
  by_cases whole : q.contentBuffer.pptr = q.contentStart + q.contentLength
  · rw [if_pos whole, if_pos (next.contentComplete_iff.mpr whole),
      next.complete_eq whole (by omega)]
  · rw [if_neg whole, if_neg (fun complete => whole (next.contentComplete_iff.mp complete))]

/-- An iteration that finds nothing to read. -/
theorem Room.readIteration_again (room : Room r.contentBuffer b)
    (again : r.receive sock = ⟨.ok (b.toWrite - 1, none), { r with contentBuffer := b },
      sock.advance (roomCall b) sock.incoming⟩) :
    r.readIteration sock =
      ⟨.ok false, { r with contentBuffer := b }, sock.advance (roomCall b) sock.incoming⟩ := by
  have stops : (b.toWrite - 1 == -1) = false := by
    rw [room.towrite_eq, beq_eq_false_iff_ne]
    omega
  unfold readIteration
  rw [again]
  dsimp only
  rw [stops]

/-- An iteration in which the read or the parser fails. -/
theorem readIteration_failed {e : Failure}
    (failed : (r.receive sock).result = .error e) :
    r.readIteration sock = ⟨.error e, (r.receive sock).object, (r.receive sock).socket⟩ := by
  unfold readIteration
  dsimp only
  rw [failed]

theorem Room.readIteration_failed (room : Room r.contentBuffer b) {e : TasksException}
    {next : Socket} (failed : sock.read (roomCall b) = (.error e, next)) :
    r.readIteration sock = ⟨.error (.exception e), { r with contentBuffer := b }, next⟩ := by
  have received := room.receive_failed failed
  rw [HttpResponse.readIteration_failed (congrArg Outcome.result received), received]

theorem readIteration_tooLarge (tooLarge : makeRoom r.contentBuffer = .error .lengthError) :
    r.readIteration sock = ⟨.error (.fault .lengthError), r, sock⟩ := by
  have received : r.receive sock = _ := receive_tooLarge tooLarge
  rw [readIteration_failed (congrArg Outcome.result received), received]

/-- What arrives is not accepted by the parser. -/
theorem Arrives.readIteration_refused (arrives : r.Arrives sock b bytes rest) {e : Failure}
    (parse : parseReceived { r with contentBuffer := received b bytes } = (.error e, q)) :
    r.readIteration sock = ⟨.error e, q, sock.advance (roomCall b) rest⟩ := by
  have received := arrives.receive_eq
  rw [parse] at received
  rw [readIteration_failed (congrArg Outcome.result received), received]

theorem Reading.iterates (reading : r.Reading) (sock : Socket) :
    Iterates r sock (r.readIteration sock) := by
  obtain ⟨e, ends, failed⟩ | ⟨b, room, again⟩ | ⟨b, bytes, rest, arrives⟩ :=
    receive_cases reading.ok sock
  · rw [readIteration_failed failed]
    exact .failed ends _ _
  · rw [room.readIteration_again again]
    exact .again room
  · cases parse : parseReceived { r with contentBuffer := received b bytes } with
    | mk outcome q =>
      cases outcome with
      | error e =>
          rw [arrives.readIteration_refused parse]
          exact .failed (arrives.parse_ends reading parse) _ _
      | ok _ =>
          rw [arrives.readIteration_eq reading parse]
          have parsed := arrives.parsed reading parse
          split
          · next whole => exact .done arrives parsed whole
          · next incomplete => exact .more arrives parsed incomplete

theorem Room.reading (room : Room r.contentBuffer b) (reading : r.Reading) :
    Reading { r with contentBuffer := b } := by
  have same := room.pptr
  refine ⟨room.ok, ?_, reading.state, reading.data, fun content => ?_, fun done => ?_⟩
  · exact Nat.le_trans reading.start (Nat.le_of_eq same.symm)
  · obtain ⟨positive, inside, announced⟩ := reading.content content
    exact ⟨positive, Nat.le_trans inside (Nat.le_of_eq same.symm), announced⟩
  · exact Nat.le_trans (reading.done done) (Nat.le_of_eq same.symm)

theorem Reading.finished (reading : r.Reading)
    (whole : r.contentBuffer.pptr = r.contentStart + r.contentLength)
    (room : r.contentBuffer.pptr < r.contentBuffer.size) : r.finished.Reading := by
  have ok := reading.ok
  have size := ok.size
  have length : (overwrite r.contentBuffer.storage r.contentBuffer.pptr [0]).length =
      r.contentBuffer.storage.length := length_overwrite (by rw [List.length_singleton]; omega)
  have buffer : r.finished.contentBuffer.Ok := by
    refine ⟨reading.contentStart_le, Nat.le_refl _, ?_, ?_⟩
    · change r.contentBuffer.pptr ≤
        (overwrite r.contentBuffer.storage r.contentBuffer.pptr [0]).length
      omega
    · exact Nat.le_trans (Nat.le_of_eq length) ok.capacity
  exact ⟨buffer, reading.start, .inr (.inr rfl), nofun, nofun, fun _ => Nat.le_of_eq whole.symm⟩

/-- An iteration leaves a response that can be read on. -/
theorem Reading.next (reading : r.Reading) {go : Bool} {next : Socket}
    (result : r.readIteration sock = ⟨.ok go, q, next⟩) : q.Reading := by
  have iterates := reading.iterates sock
  rw [result] at iterates
  cases iterates with
  | again room => exact room.reading reading
  | more arrives parsed incomplete => exact parsed.reading arrives reading
  | done arrives parsed whole =>
      have places := parsed.places arrives
      have fits := arrives.fits
      exact (parsed.reading arrives reading).finished whole (by omega)

/-! ## Runs of calls -/

/-- The next call of `read_data`, unless the response is complete or has failed. -/
def readCall : Session HttpResponse → Session HttpResponse :=
  Session.call readData fun r => r.done

/-- The response and the socket wherever the next call starts an iteration. -/
def heads (s : Session HttpResponse) : List (HttpResponse × Socket) :=
  if s.object.done ∨ s.failure.isSome then
    []
  else
    match s.object.startReading with
    | .error _ => []
    | .ok r => Outcome.loopHeads readIteration (s.socket.incoming.length + 1) r s.socket

theorem readData_running (running : r.done = false) (started : r.startReading = .ok q)
    (sock : Socket) : r.readData sock = readLoop (sock.incoming.length + 1) q sock := by
  have undone : q.state ≠ .done := by
    unfold startReading at started
    split at started
    · cases sized : r.contentBuffer.setSize readBufferSizeBlock with
      | error f => simp [sized, bind, Except.bind] at started
      | ok b =>
          simp only [sized, bind, Except.bind, Except.ok.injEq] at started
          rw [← started]
          exact nofun
    · cases started
      exact of_decide_eq_false running
  rw [readData, started]
  exact if_neg undone

theorem heads_running {s : Session HttpResponse} (running : ¬(s.object.done ∨ s.failure.isSome))
    (started : s.object.startReading = .ok q) :
    heads s = Outcome.loopHeads readIteration (s.socket.incoming.length + 1) q s.socket := by
  rw [heads, if_neg running, started]

section Rules

variable {P : HttpResponse → Socket → Prop}

/-- What an iteration keeps holds when a call returns. -/
theorem readData_rule
    (step : ∀ {r sock go q next}, P r sock → r.readIteration sock = ⟨.ok go, q, next⟩ → P q next)
    (start : ∀ {q}, r.startReading = .ok q → P q sock) {next : Socket}
    (result : r.readData sock = ⟨.ok (), q, next⟩) : P q next := by
  unfold readData at result
  split at result
  · cases result
  · next begun started =>
      split at result
      · cases result
        exact start started
      · exact (Outcome.loop_rule step _ (start started)).2 result

/-- What an iteration keeps holds wherever a run can make the next call. -/
theorem session_rule
    (step : ∀ {r sock go q next}, P r sock → r.readIteration sock = ⟨.ok go, q, next⟩ → P q next)
    (begun : ∀ {r sock}, P r sock → r.state ≠ .ready) (sock : Socket)
    (start : ∃ q, r.startReading = .ok q ∧ P q sock) (n : Nat) :
    let s := readCall^[n] ⟨r, sock, none⟩
    s.failure = none → ∃ q, s.object.startReading = .ok q ∧ P q s.socket := by
  induction n with
  | zero => exact fun _ => start
  | succ n ih =>
      rw [Function.iterate_succ_apply']
      generalize readCall^[n] ⟨r, sock, none⟩ = s at ih
      by_cases ended : s.object.done ∨ s.failure.isSome
      · rw [readCall, Session.call_ended ended]
        exact ih
      · have running : s.failure = none := by
          rw [not_or, Option.not_isSome_iff_eq_none] at ended
          exact ended.2
        obtain ⟨first, started, holds⟩ := ih running
        rw [readCall, Session.call, if_neg ended]
        cases result : s.object.readData s.socket with
        | mk outcome object socket =>
            cases outcome with
            | error e =>
                intro _ alive
                cases alive
            | ok _ =>
                intro _ _
                have later : P object socket := by
                  apply readData_rule step _ result
                  intro q same
                  cases started.symm.trans same
                  exact holds
                exact ⟨object, if_neg (begun later), later⟩

/-- What an iteration keeps holds wherever a call in a run starts one. -/
theorem run_rule
    (step : ∀ {r sock go q next}, P r sock → r.readIteration sock = ⟨.ok go, q, next⟩ → P q next)
    (begun : ∀ {r sock}, P r sock → r.state ≠ .ready) (sock : Socket)
    (start : ∃ q, r.startReading = .ok q ∧ P q sock) (n : Nat) :
    ∀ head ∈ heads (readCall^[n] ⟨r, sock, none⟩), P head.1 head.2 := by
  have invariant := session_rule step begun sock start n
  generalize readCall^[n] ⟨r, sock, none⟩ = s at invariant
  intro head member
  unfold heads at member
  split at member
  · cases member
  · next running =>
      rw [not_or, Option.not_isSome_iff_eq_none] at running
      obtain ⟨q, started, holds⟩ := invariant running.2
      rw [started] at member
      exact (Outcome.loop_rule step _ holds).1 head member

end Rules

/-- The loop of `read_data` ends. -/
theorem Reading.readLoop_ends (reading : r.Reading) (sock : Socket) :
    (readLoop (sock.incoming.length + 1) r sock).result ≠ .error (.fault .diverges) := by
  refine Outcome.loop_ends (P := fun r _ => r.Reading) (fun holds result => holds.next result)
    ?_ ?_ reading (Nat.lt_succ_self _)
  · intro r sock holds
    have iterates := holds.iterates sock
    cases result : r.readIteration sock with
    | mk outcome q next =>
        rw [result] at iterates
        cases iterates with
        | failed ends => simpa using ends
        | again => exact nofun
        | more => exact nofun
        | done => exact nofun
  · intro r sock q next holds result
    have iterates := holds.iterates sock
    rw [result] at iterates
    have shorter {b : Buffer} {bytes rest : Bytes} (arrives : r.Arrives sock b bytes rest) :
        rest.length < sock.incoming.length := by
      have some := List.length_pos_iff.mpr arrives.nonempty
      rw [arrives.stream, List.length_append]
      omega
    generalize goes : true = go at iterates
    cases iterates with
    | again => cases goes
    | more arrives => exact shorter arrives
    | done arrives => exact shorter arrives

/-! ## Soundness of `DONE` -/

/-- A new response, or one after `clear`, which keeps its storage. -/
structure Fresh (r : HttpResponse) : Prop where
  state : r.state = .ready
  content : r.contentBuffer.Cleared
  headers : r.headers = ∅
  contentLength : r.contentLength = 0
  lineNumber : r.lineNumber = 0
  lastLineStart : r.lastLineStart = 0
  contentStart : r.contentStart = 0
  contentLengthExists : r.contentLengthExists = false
  chunkedEnc : r.chunkedEnc = false

theorem fresh_default : Fresh {} := by
  refine ⟨rfl, ⟨rfl, rfl, rfl, Nat.zero_le _⟩, rfl, rfl, rfl, rfl, rfl, rfl, rfl⟩

theorem fresh_clear (ok : r.contentBuffer.Ok) : r.clear.Fresh :=
  ⟨rfl, Buffer.clear_cleared ok, rfl, rfl, rfl, rfl, rfl, rfl, rfl⟩

/-- The first call starts with an empty buffer of one block. -/
theorem Fresh.startReading_eq (fresh : r.Fresh) :
    r.startReading = .ok { r with
      contentBuffer := r.contentBuffer.filled readBufferSizeBlock [], state := .readData } := by
  rw [startReading, if_pos fresh.state, fresh.content.setSize_eq (by decide)]
  rfl

theorem Fresh.reading (fresh : r.Fresh) (started : r.startReading = .ok q) : q.Reading := by
  rw [fresh.startReading_eq] at started
  cases started
  refine ⟨?_, ?_, .inl rfl, fun _ => fresh.contentStart, nofun, nofun⟩
  · exact fresh.content.filled_ok (Nat.zero_le _) (by decide)
  · exact Nat.le_of_eq fresh.lastLineStart

theorem Fresh.starts (fresh : r.Fresh) : ∃ q, r.startReading = .ok q ∧ q.Reading :=
  ⟨_, fresh.startReading_eq, fresh.reading fresh.startReading_eq⟩

/-- When `DONE` is set, the header block has been parsed, it has a `Content-Length`,
and exactly so many bytes have been received behind it. -/
structure DoneSound (q : HttpResponse) : Prop where
  state : q.state = .readContent
  start : 0 < q.contentStart
  announced : q.contentLengthExists = true
  received : q.contentBuffer.pptr = q.contentStart + q.contentLength

/-- The iteration receives bytes that leave the header block incomplete, and the
header lines so far announce exactly the number of bytes received. -/
def EndsEarly (r : HttpResponse) (sock : Socket) : Prop :=
  r.state = .readData ∧ ∃ b bytes rest h memory, r.Arrives sock b bytes rest ∧
    scanLines takeLine r.fields (r.arrivedMemory b bytes) = .more h memory ∧
    h.contentLength = b.pptr + bytes.length

theorem Arrives.setsDone_iff (arrives : r.Arrives sock b bytes rest) (reading : r.Reading)
    (parse : parseReceived { r with contentBuffer := received b bytes } = (.ok (), q)) :
    SetsDone r sock ↔ q.contentBuffer.pptr = q.contentStart + q.contentLength := by
  have next := (arrives.parsed reading parse).reading arrives reading
  rw [SetsDone, arrives.receive_eq, parse, ← next.contentComplete_iff]
  exact ⟨fun done => done.2, fun complete => ⟨⟨_, _, rfl⟩, complete⟩⟩

/-- `DONE` is set after bytes arrived and were parsed. -/
theorem Reading.exists_of_setsDone (reading : r.Reading) (done : SetsDone r sock) :
    ∃ b bytes rest q, r.Arrives sock b bytes rest ∧
      parseReceived { r with contentBuffer := received b bytes } = (.ok (), q) ∧
      (r.receive sock).object = q ∧ q.contentBuffer.pptr = q.contentStart + q.contentLength := by
  obtain ⟨towrite, count, result⟩ := done.1
  obtain ⟨e, _, failed⟩ | ⟨b, room, again⟩ | ⟨b, bytes, rest, arrives⟩ :=
    receive_cases reading.ok sock
  · simp [failed] at result
  · simp [again] at result
  · cases parse : parseReceived { r with contentBuffer := received b bytes } with
    | mk outcome q =>
        cases outcome with
        | error e => simp [arrives.receive_eq, parse, Except.map] at result
        | ok _ =>
            refine ⟨b, bytes, rest, q, arrives, parse, ?_, ?_⟩
            · rw [arrives.receive_eq, parse]
            · exact (arrives.setsDone_iff reading parse).mp done

theorem Parsed.state_of_done (parsed : Parsed r b bytes q) (done : r.state = .done) :
    q.state = .done := by
  cases parsed with
  | more state => simp [done] at state
  | blank state => simp [done] at state
  | content state => exact done

/-- A response that is done is not done again. -/
theorem Parsed.incomplete_of_done (arrives : r.Arrives sock b bytes rest) (reading : r.Reading)
    (parsed : Parsed r b bytes q) (done : r.state = .done) :
    q.contentBuffer.pptr ≠ q.contentStart + q.contentLength := by
  cases parsed with
  | more state => simp [done] at state
  | blank state => simp [done] at state
  | content state =>
      have behind := reading.done done
      have same := arrives.room.pptr
      have some := List.length_pos_iff.mpr arrives.nonempty
      show b.pptr + bytes.length ≠ r.contentStart + r.contentLength
      omega

/-- The test for the end of the content is sound in every iteration whose read does
not end early. -/
theorem Reading.doneSound_iff (reading : r.Reading) (sock : Socket) :
    (SetsDone r sock → DoneSound (r.receive sock).object) ↔ ¬EndsEarly r sock := by
  constructor
  · rintro sound ⟨state, b, bytes, rest, h, memory, arrives, scan, early⟩
    have follows := arrives.parse_follows reading state
    rw [scan] at follows
    obtain ⟨q, result, reached⟩ := follows
    have length : q.contentLength = h.contentLength := congrArg (·.contentLength) reached.fields
    have whole : q.contentBuffer.pptr = q.contentStart + q.contentLength := by
      rw [reached.noContent, Nat.zero_add, length, early]
      exact reached.pptr
    have wrong := (sound ((arrives.setsDone_iff reading result).mpr whole)).state
    rw [arrives.receive_eq, result] at wrong
    cases (reached.state.trans state).symm.trans wrong
  · intro notEarly done
    obtain ⟨b, bytes, rest, q, arrives, parse, object, whole⟩ := reading.exists_of_setsDone done
    rw [object]
    have parsed := arrives.parsed reading parse
    have notDone := fun done => parsed.incomplete_of_done arrives reading done whole
    cases parsed with
    | more state scan reached =>
        refine absurd ⟨state, b, bytes, rest, _, _, arrives, scan, ?_⟩ notEarly
        rw [← congrArg (·.contentLength) reached.fields]
        rw [reached.noContent, Nat.zero_add] at whole
        exact whole.symm.trans reached.pptr
    | blank state scan reached behind plain announced =>
        exact ⟨rfl, Nat.succ_pos _, announced, whole⟩
    | content state =>
        have content : r.state = .readContent := by
          obtain data | content | done := reading.state
          · exact absurd data state
          · exact content
          · exact absurd done notDone
        obtain ⟨positive, _, announced⟩ := reading.content content
        exact ⟨content, positive, announced, whole⟩

/-- In every run of calls on any socket, `DONE` is set soundly exactly when no read
ends early. -/
theorem done_sound_iff (fresh : r.Fresh) (sock : Socket) :
    (∀ n, ∀ head ∈ heads (readCall^[n] ⟨r, sock, none⟩),
      SetsDone head.1 head.2 → DoneSound (head.1.receive head.2).object) ↔
    ∀ n, ∀ head ∈ heads (readCall^[n] ⟨r, sock, none⟩), ¬EndsEarly head.1 head.2 := by
  have reading := run_rule (P := fun r _ => r.Reading) (fun holds result => holds.next result)
    Reading.begun sock fresh.starts
  exact forall_congr' fun n => forall₂_congr fun head member =>
    (reading n head member).doneSound_iff head.2

/-- A response whose header announces 37 bytes, read in pieces of 37 bytes, the
length of its first two lines. -/
def earlySocket : Socket where
  incoming := text "HTTP/1.1 200 OK\r\nContent-Length: 37\r\n\r\n" ++ List.replicate 37 120
  arrivals := fun _ => .deliver 37

theorem done_sound_sample :
    (∀ n, ∀ head ∈ heads (readCall^[n] ⟨{}, earlySocket, none⟩),
      SetsDone head.1 head.2 → DoneSound (head.1.receive head.2).object) ↔
    ∀ n, ∀ head ∈ heads (readCall^[n] ⟨{}, earlySocket, none⟩), ¬EndsEarly head.1 head.2 :=
  done_sound_iff fresh_default earlySocket

/-- A new response at the start of the first iteration. -/
def firstHead : HttpResponse where
  contentBuffer := Buffer.filled {} readBufferSizeBlock []
  state := .readData

/-- The first iteration of a new response is the first of its first call. -/
theorem firstHead_mem (sock : Socket) : (firstHead, sock) ∈ heads ⟨{}, sock, none⟩ := by
  rw [heads, if_neg (by simp [HttpBase.done]), fresh_default.startReading_eq]
  exact List.mem_cons_self

/-- The first read ends inside the header block, and `DONE` is set. -/
theorem done_inside_header :
    (firstHead, earlySocket) ∈ heads ⟨{}, earlySocket, none⟩ ∧ SetsDone firstHead earlySocket ∧
      ¬DoneSound (firstHead.receive earlySocket).object ∧
      (readData {} earlySocket).object.state = .done ∧
      (readData {} earlySocket).object.contentStart = 0 := by
  have state : (firstHead.receive earlySocket).object.state = .readData := by decide +kernel
  refine ⟨firstHead_mem _, ⟨⟨4095, 37, by decide +kernel⟩, by decide +kernel⟩, fun sound => ?_,
    ?_, ?_⟩
  · cases state.symm.trans sound.state
  · decide +kernel
  · decide +kernel

end HttpResponse

end LibTasks.Net

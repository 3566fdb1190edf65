import Mathlib
import LibTasks.Foundation.CString
import LibTasks.Net.Socket

/-!
# `tasks::net::http_base`

The state and the functions that HTTP and uwsgi messages share: the header map,
the two buffers, and writing them to a socket (`http_base.h`, `http_base.cpp`).
-/

namespace LibTasks.Net

open LibTasks.Foundation LibTasks.Tools

/-- `io_state`. -/
inductive IoState where
  | ready
  | done
  | readHeader
  | readData
  | readContent
  | writeData
  | writeContent
  deriving DecidableEq, Repr

/-- `headers_t`.  Its entries stand in some order; the order in which the code
iterates over them is a parameter of what depends on it. -/
abbrev Headers := AList fun _ : Bytes => Bytes

/-- `NO_VAL`. -/
def noVal : Bytes := []

/-- The fields of `http_base`. -/
structure HttpBase where
  dataBuffer : Buffer := {}
  contentBuffer : Buffer := {}
  state : IoState := .ready
  headers : Headers := ∅
  contentLength : Nat := 0
  deriving DecidableEq

namespace HttpBase

/-- `set_header`. -/
def setHeader (h : HttpBase) (header value : Bytes) : HttpBase :=
  let h := { h with headers := h.headers.insert header value }
  if iequals header (text "Content-Length") then
    { h with contentLength := toSize (atoi value) }
  else
    h

/-- `header`. -/
def header (h : HttpBase) (name : Bytes) : Bytes := (h.headers.lookup name).getD noVal

/-- `content_p`: where the content stands in its buffer, and `none` for `nullptr`. -/
def contentP (h : HttpBase) : Option Nat :=
  if h.contentLength ≠ 0 then some h.contentBuffer.gptr else none

/-- `done`. -/
def done (h : HttpBase) : Bool := h.state = .done

/-- `write`, to the content buffer. -/
def write (h : HttpBase) (data : Bytes) : Except Fault HttpBase := do
  let contentBuffer ← h.contentBuffer.write data
  .ok { h with contentBuffer }

/-- `read`, from the content buffer. -/
def read (h : HttpBase) (size : Nat) : Bytes × HttpBase :=
  let (data, contentBuffer) := h.contentBuffer.read size
  (data, { h with contentBuffer })

/-- `clear`. -/
def clear (h : HttpBase) : HttpBase :=
  { dataBuffer := h.dataBuffer.clear, contentBuffer := h.contentBuffer.clear }

@[simp] theorem setHeader_dataBuffer (h : HttpBase) (header value : Bytes) :
    (h.setHeader header value).dataBuffer = h.dataBuffer := by
  unfold setHeader
  dsimp only
  split <;> rfl

@[simp] theorem setHeader_contentBuffer (h : HttpBase) (header value : Bytes) :
    (h.setHeader header value).contentBuffer = h.contentBuffer := by
  unfold setHeader
  dsimp only
  split <;> rfl

@[simp] theorem setHeader_state (h : HttpBase) (header value : Bytes) :
    (h.setHeader header value).state = h.state := by
  unfold setHeader
  dsimp only
  split <;> rfl

@[simp] theorem setHeader_headers (h : HttpBase) (header value : Bytes) :
    (h.setHeader header value).headers = h.headers.insert header value := by
  unfold setHeader
  dsimp only
  split <;> rfl

end HttpBase

/-! ## Iterating over a header map -/

/-- The entries of a map. -/
def entriesOf (m : Headers) : List (Bytes × Bytes) := m.entries.map fun entry => (entry.1, entry.2)

/-- An order of iteration over header maps. -/
structure IterationOrder where
  list : Headers → List (Bytes × Bytes)
  perm : ∀ m, (list m).Perm (entriesOf m)

theorem entriesOf_perm (m : Headers) : (entriesOf m).Perm (entriesOf m) := .refl _

/-- The order in which the entries stand. -/
def entriesOrder : IterationOrder := ⟨entriesOf, entriesOf_perm⟩

/-- A header as an entry of an association list. -/
def toEntry (kv : Bytes × Bytes) : (_ : Bytes) × Bytes := ⟨kv.1, kv.2⟩

theorem IterationOrder.entries_perm (order : IterationOrder) (m : Headers) :
    ((order.list m).map toEntry).Perm m.entries := by
  have mapped := (order.perm m).map toEntry
  have same : (entriesOf m).map toEntry = m.entries := by
    rw [entriesOf, List.map_map]
    exact List.map_id _
  rwa [same] at mapped

/-! ## Writing -/

/-- `CRLF`. -/
def crlf : Bytes := [13, 10]

/-- A header line, as `prepare_data_buffer` of requests and responses writes it. -/
def writeHeaderLine (b : Buffer) (kv : Bytes × Bytes) : Except Fault Buffer := do
  let b ← b.write kv.1
  let b ← b.write (text ": ")
  let b ← b.write kv.2
  b.write crlf

/-- The common part of `write_headers` and `write_content`: offer what is left to
read in a buffer, and move the get pointer over what was accepted. -/
def drainTo (b : Buffer) (sock : Socket) : Outcome Buffer :=
  match sock.write (slice b.storage b.gptr (toSize b.toRead)) with
  | (.error e, sock) => ⟨.error (.exception e), b, sock⟩
  | (.ok none, sock) => ⟨.ok (), b, sock⟩
  | (.ok (some bytes), sock) => ⟨.ok (), b.movePtrRead bytes, sock⟩

/-- `write_headers`. -/
def HttpBase.writeHeaders (h : HttpBase) (sock : Socket) : Outcome HttpBase :=
  let o := drainTo h.dataBuffer sock
  ⟨o.result, { h with dataBuffer := o.object }, o.socket⟩

/-- `write_content`. -/
def HttpBase.writeContent (h : HttpBase) (sock : Socket) : Outcome HttpBase :=
  let o := drainTo h.contentBuffer sock
  ⟨o.result, { h with contentBuffer := o.object }, o.socket⟩

/-- The last part of `write_data`, in the state `WRITE_CONTENT`. -/
def HttpBase.writeContentStage (h : HttpBase) (sock : Socket) : Outcome HttpBase :=
  if h.state = .writeContent then
    let o := h.writeContent sock
    match o.result with
    | .error e => ⟨.error e, o.object, o.socket⟩
    | .ok () =>
        if o.object.contentBuffer.toRead = 0 then
          ⟨.ok (), { o.object with state := .done }, o.socket⟩
        else
          o
  else
    ⟨.ok (), h, sock⟩

/-- `write_data` after the data buffer has been prepared. -/
def HttpBase.writePrepared (h : HttpBase) (sock : Socket) : Outcome HttpBase :=
  if h.state = .writeData then
    let o := h.writeHeaders sock
    match o.result with
    | .error e => ⟨.error e, o.object, o.socket⟩
    | .ok () =>
        if o.object.dataBuffer.toRead = 0 then
          let state := if o.object.contentBuffer.size = 0 then .done else .writeContent
          writeContentStage { o.object with state } o.socket
        else
          writeContentStage o.object o.socket
  else
    h.writeContentStage sock

/-! ## Reading -/

/-- Read from a socket to the put pointer of a buffer, and move the pointer over
what was received.  The result is the number of bytes, or `none` for `EAGAIN`. -/
def fillFrom (b : Buffer) (len : Nat) (sock : Socket) : Outcome Buffer (Option Nat) :=
  let call := { offset := b.pptr, len, size := b.size, capacity := b.bufferSize }
  match sock.read call with
  | (.error e, sock) => ⟨.error (.exception e), b, sock⟩
  | (.ok none, sock) => ⟨.ok none, b, sock⟩
  | (.ok (some bytes), sock) =>
      match b.store b.pptr bytes with
      | .error f => ⟨.error (.fault f), b, sock⟩
      | .ok b => ⟨.ok (some bytes.length), b.movePtrWrite bytes.length, sock⟩

/-- Filling a buffer is one read. -/
theorem fillFrom_reads (b : Buffer) (len : Nat) (sock : Socket) :
    (fillFrom b len sock).socket.reads =
      sock.reads ++ [ReadCall.mk b.pptr len b.size b.bufferSize] := by
  unfold fillFrom
  dsimp only
  obtain ⟨e, failed⟩ | again | ⟨bytes, rest, _, _, _, received⟩ :=
    sock.read_cases ⟨b.pptr, len, b.size, b.bufferSize⟩
  · rw [failed]
    rfl
  · rw [again]
    rfl
  · rw [received]
    dsimp only
    split <;> rfl

/-- The read for the rest of a buffer that is being filled. -/
def fillCall (b : Buffer) (n : Nat) (data : Bytes) : ReadCall where
  offset := data.length
  len := n - data.length
  size := n
  capacity := (Buffer.grow b.storage n).length

/-- What reading the rest of a buffer can do. -/
theorem fillFrom_cases {b : Buffer} (cleared : b.Cleared) {n : Nat} {data : Bytes}
    (room : data.length ≤ n) (small : n + 1024 ≤ maxSize) (sock : Socket) :
    let call := fillCall b n data
    let o := fillFrom (b.filled n data) (toSize (b.filled n data).toWrite) sock
    (∃ e, sock.read call = (.error e, sock.advance call sock.incoming) ∧
      o = ⟨.error (.exception e), b.filled n data, sock.advance call sock.incoming⟩) ∨
    (sock.read call = (.ok none, sock.advance call sock.incoming) ∧
      o = ⟨.ok none, b.filled n data, sock.advance call sock.incoming⟩) ∨
    ∃ bytes rest, bytes ≠ [] ∧ data.length + bytes.length ≤ n ∧
      sock.incoming = bytes ++ rest ∧
      sock.read call = (.ok (some bytes), sock.advance call rest) ∧
      o = ⟨.ok (some bytes.length), b.filled n (data ++ bytes), sock.advance call rest⟩ := by
  have len : toSize (b.filled n data).toWrite = n - data.length := by
    rw [(cleared.filled_ok room small).toWrite_eq]
    apply toSize_natCast
    simp only [Buffer.filled]
    unfold maxSize at small
    omega
  have call : ReadCall.mk (b.filled n data).pptr (n - data.length) (b.filled n data).size
      (b.filled n data).bufferSize = fillCall b n data := by
    simp only [fillCall, Buffer.bufferSize, Buffer.length_filled room]
    rfl
  intro _ o
  have unfolded : o = fillFrom (b.filled n data) (n - data.length) sock := by
    simp only [o, len]
  unfold fillFrom at unfolded
  rw [call] at unfolded
  dsimp only at unfolded
  obtain ⟨e, failed⟩ | again | ⟨bytes, rest, nonempty, short, split, received⟩ :=
    sock.read_cases (fillCall b n data)
  · refine .inl ⟨e, failed, ?_⟩
    rw [unfolded, failed]
  · refine .inr (.inl ⟨again, ?_⟩)
    rw [unfolded, again]
  · have fits : data.length + bytes.length ≤ n := by
      simp only [fillCall] at short
      omega
    obtain ⟨stored, success, moved⟩ := Buffer.store_filled (b := b) fits
    refine .inr (.inr ⟨bytes, rest, nonempty, fits, split, received, ?_⟩)
    rw [unfolded, received]
    dsimp only
    rw [success]
    dsimp only
    rw [moved]

end LibTasks.Net

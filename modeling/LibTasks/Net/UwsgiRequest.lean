import LibTasks.Net.HttpBase

/-!
# `tasks::net::uwsgi_request`

The reader (`read_data` with `read_header`, `read_vars`, `read_content` and
`parse_vars`) and the encoder (`prepare_data_buffer`) of uwsgi packets.  The
object is a default-constructed one: the other constructors leave `m_header`
uninitialised.
-/

namespace LibTasks.Net

open LibTasks.Foundation LibTasks.Tools

/-! ## The packet header -/

/-- `uwsgi_packet_header`. -/
structure UwsgiPacketHeader where
  modifier1 : UInt8 := 0
  datasize : UInt16 := 0
  modifier2 : UInt8 := 0
  deriving DecidableEq, Repr

/-- `UWSGI_VARS`. -/
def uwsgiVars : UInt8 := 0

namespace UwsgiPacketHeader

/-- The packed structure in memory. -/
def encode (h : UwsgiPacketHeader) : Bytes :=
  [h.modifier1] ++ le16 h.datasize.toNat ++ [h.modifier2]

def ofBytes (bytes : Bytes) : UwsgiPacketHeader where
  modifier1 := bytes.getD 0 0
  datasize := UInt16.ofNat (u16At bytes 1)
  modifier2 := bytes.getD 3 0

@[simp] theorem length_encode (h : UwsgiPacketHeader) : h.encode.length = 4 := rfl

@[simp] theorem ofBytes_encode (h : UwsgiPacketHeader) : ofBytes h.encode = h := by
  have size : u16At h.encode 1 = h.datasize.toNat :=
    u16At_of_slice h.datasize.toNat_lt rfl
  simp only [ofBytes, size, UInt16.ofNat_toNat]
  rfl

end UwsgiPacketHeader

/-- The fields of `uwsgi_request` that reading and writing use. -/
structure UwsgiRequest extends HttpBase where
  /-- `m_header`. -/
  uwsgiHeader : UwsgiPacketHeader := {}
  deriving DecidableEq

/-! ## Parsing the variables -/

/-- The two-byte length at a position of the data buffer.  Its second byte, and
at the end also its first, may lie in the spare storage behind the data. -/
def lengthAt (b : Buffer) (pos : Nat) : Except Fault Nat := do
  let pos ← b.ptr pos
  if pos + 2 ≤ b.storage.length then
    .ok (u16At b.storage pos)
  else
    .error .outOfBounds

/-- The string of a given length at a position of the data buffer. -/
def charsAt (b : Buffer) (pos len : Nat) : Except Fault Bytes := do
  let pos ← b.ptr pos
  if pos + len ≤ b.storage.length then
    .ok (slice b.storage pos len)
  else
    .error .outOfBounds

/-- One iteration of the loop of `parse_vars`: the variable to set, if any, and
the next position.  `key_start` and `val_start` are `uint16_t`. -/
def parseVar (b : Buffer) (pos : Nat) : Except Fault (Option (Bytes × Bytes) × Nat) := do
  let keyLen ← lengthAt b pos
  let keyStart := (pos + 2) % 2 ^ 16
  let valLen ← lengthAt b (keyStart + keyLen)
  let valStart := (keyStart + keyLen + 2) % 2 ^ 16
  if keyLen ≠ 0 ∧ valLen ≠ 0 then
    let key ← charsAt b keyStart keyLen
    let val ← charsAt b valStart valLen
    .ok (some (key, val), valStart + valLen)
  else
    .ok (none, valStart + valLen)

/-- Set the variable that an iteration found. -/
def setVar (h : HttpBase) : Option (Bytes × Bytes) → HttpBase
  | none => h
  | some (key, val) => h.setHeader key val

/-- The loop of `parse_vars`.  The next position depends on the position only, so
a loop that makes more iterations than there are positions never ends. -/
def parseLoop (b : Buffer) : Nat → Nat → HttpBase → Except Fault HttpBase
  | 0, _, _ => .error .diverges
  | fuel + 1, pos, h =>
      if pos < b.size then do
        let (found, next) ← parseVar b pos
        parseLoop b fuel next (setVar h found)
      else
        .ok h

/-- `parse_vars`. -/
def parseVars (h : HttpBase) : Except Fault HttpBase :=
  parseLoop h.dataBuffer (h.dataBuffer.size + 1) 0 h

namespace UwsgiRequest

/-- `var`. -/
def var (r : UwsgiRequest) (key : Bytes) : Bytes := r.header key

/-- `clear`. -/
def clear (r : UwsgiRequest) : UwsgiRequest where
  toHttpBase := r.toHttpBase.clear

/-! ## Reading -/

/-- The exception of `read_header`. -/
def headerError : TasksException where
  error := .uwsgiHeaderError
  what := "uwsgi_request: error reading header"

/-- The read of `read_header`. -/
def headerCall : ReadCall where
  offset := 0
  len := 4
  size := 4
  capacity := 4

/-- `read_header`.  What was received is in `m_header` even when it was too
little. -/
def readHeader (r : UwsgiRequest) (sock : Socket) : Outcome UwsgiRequest :=
  match sock.read headerCall with
  | (.error e, sock) => ⟨.error (.exception e), r, sock⟩
  | (.ok received, sock) =>
      let bytes := received.getD []
      let memory := overwrite r.uwsgiHeader.encode 0 bytes
      let r := { r with uwsgiHeader := .ofBytes memory }
      if bytes.length = 4 then
        ⟨.ok (), r, sock⟩
      else
        ⟨.error (.exception headerError), r, sock⟩

/-- The part of `read_vars` for a complete block of variables: parse it, and make
room for the content. -/
def finishVars (r : UwsgiRequest) (sock : Socket) : Outcome UwsgiRequest :=
  match parseVars r.toHttpBase with
  | .error f => ⟨.error (.fault f), r, sock⟩
  | .ok h =>
      let r := { r with toHttpBase := h }
      let contentLen := r.var (text "CONTENT_LENGTH")
      if contentLen = noVal then
        ⟨.ok (), { r with state := .done }, sock⟩
      else
        match r.contentBuffer.setSize (toSize (atoi contentLen)) with
        | .error f => ⟨.error (.fault f), r, sock⟩
        | .ok contentBuffer => ⟨.ok (), { r with contentBuffer, state := .readContent }, sock⟩

/-- `read_vars`. -/
def readVars (r : UwsgiRequest) (sock : Socket) : Outcome UwsgiRequest :=
  let o := fillFrom r.dataBuffer (toSize r.dataBuffer.toWrite) sock
  let r := { r with dataBuffer := o.object }
  match o.result with
  | .error e => ⟨.error e, r, o.socket⟩
  | .ok _ =>
      if r.dataBuffer.toWrite = 0 ∧ r.uwsgiHeader.modifier1 = uwsgiVars then
        r.finishVars o.socket
      else
        ⟨.ok (), r, o.socket⟩

/-- `read_content`. -/
def readContent (r : UwsgiRequest) (sock : Socket) : Outcome UwsgiRequest :=
  let o := fillFrom r.contentBuffer (toSize r.contentBuffer.toWrite) sock
  let r := { r with contentBuffer := o.object }
  match o.result with
  | .error e => ⟨.error e, r, o.socket⟩
  | .ok _ =>
      if r.contentBuffer.toWrite = 0 then
        ⟨.ok (), { r with state := .done }, o.socket⟩
      else
        ⟨.ok (), r, o.socket⟩

/-- The stage of `read_data` for the header. -/
def headerStage (r : UwsgiRequest) (sock : Socket) : Outcome UwsgiRequest :=
  if r.state = .ready then
    let o := readHeader { r with state := .readHeader } sock
    match o.result with
    | .error e => ⟨.error e, o.object, o.socket⟩
    | .ok () =>
        let r := { o.object with state := .readData }
        match r.dataBuffer.setSize r.uwsgiHeader.datasize.toNat with
        | .error f => ⟨.error (.fault f), r, o.socket⟩
        | .ok dataBuffer => ⟨.ok (), { r with dataBuffer }, o.socket⟩
  else
    ⟨.ok (), r, sock⟩

/-- The stage of `read_data` for the variables. -/
def varsStage (r : UwsgiRequest) (sock : Socket) : Outcome UwsgiRequest :=
  if r.state = .readData then r.readVars sock else ⟨.ok (), r, sock⟩

/-- The stage of `read_data` for the content. -/
def contentStage (r : UwsgiRequest) (sock : Socket) : Outcome UwsgiRequest :=
  if r.state = .readContent then r.readContent sock else ⟨.ok (), r, sock⟩

/-- `read_data`: the stages in a row, as far as the states allow. -/
def readData (r : UwsgiRequest) (sock : Socket) : Outcome UwsgiRequest :=
  ((r.headerStage sock).andThen varsStage).andThen contentStage

/-! ## Writing -/

/-- Append a length and as many characters, as the encoder does for a key or a
value.  The length is a `uint16_t`. -/
def writeString (b : Buffer) (s : Bytes) : Except Fault Buffer := do
  let len := s.length % 2 ^ 16
  let b ← b.write (le16 len)
  b.write (s.take len)

/-- Append a variable. -/
def writeVar (b : Buffer) (kv : Bytes × Bytes) : Except Fault Buffer := do
  let b ← writeString b kv.1
  writeString b kv.2

/-- The header map that is sent: with the length of the content, if there is any. -/
def withContentLength (r : UwsgiRequest) : UwsgiRequest :=
  if r.contentBuffer.size = 0 then
    r
  else
    { r with toHttpBase :=
        r.setHeader (text "CONTENT_LENGTH") (decimal r.contentBuffer.size) }

/-- `prepare_data_buffer`, with the order in which the header map is iterated. -/
def prepareDataBuffer (order : Headers → List (Bytes × Bytes)) (r : UwsgiRequest) :
    Except Fault UwsgiRequest := do
  let r := r.withContentLength
  let b ← r.dataBuffer.setSize 4
  let b ← (order r.headers).foldlM writeVar (b.movePtrWrite 4)
  let owrite := b.pptr
  let uwsgiHeader := { r.uwsgiHeader with datasize := UInt16.ofNat owrite }
  let b ← b.movePtrWriteAbs 0
  let b ← b.write uwsgiHeader.encode
  let dataBuffer ← b.movePtrWriteAbs owrite
  .ok { r with dataBuffer, uwsgiHeader }

/-- `write_data`. -/
def writeData (order : Headers → List (Bytes × Bytes)) (r : UwsgiRequest) (sock : Socket) :
    Outcome UwsgiRequest :=
  if r.state = .ready then
    match r.prepareDataBuffer order with
    | .error f => ⟨.error (.fault f), r, sock⟩
    | .ok r =>
        let o := HttpBase.writePrepared { r.toHttpBase with state := .writeData } sock
        ⟨o.result, { r with toHttpBase := o.object }, o.socket⟩
  else
    let o := r.writePrepared sock
    ⟨o.result, { r with toHttpBase := o.object }, o.socket⟩

end UwsgiRequest

end LibTasks.Net

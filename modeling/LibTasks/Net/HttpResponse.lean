import LibTasks.Net.HttpBase

/-!
# `tasks::net::http_response`

HTTP responses.  The writer is `prepare_data_buffer`, called by `write_data` of the
base class.  The reader is `read_data`, and `parse_data` with `parse_line`,
`parse_status` and `parse_header`: everything is read to the content buffer and
parsed there in place, where a zero byte overwrites the end of each line and of each
header name.
-/

namespace LibTasks.Net

open LibTasks.Foundation LibTasks.Tools

/-- `READ_BUFFER_SIZE_BLOCK`. -/
def readBufferSizeBlock : Nat := 4096

/-- The fields of `http_response`. -/
structure HttpResponse extends HttpBase where
  status : Bytes := []
  /-- `m_status_code`, which the constructor leaves uninitialised. -/
  statusCode : Int := 0
  lineNumber : Nat := 0
  lastLineStart : Nat := 0
  contentStart : Nat := 0
  contentLengthExists : Bool := false
  chunkedEnc : Bool := false
  deriving DecidableEq

/-! ## Access to the buffer -/

/-- The character that `ptr(pos)` points to. -/
def charAt (b : Buffer) (pos : Nat) : Except Fault UInt8 := do
  let pos ← b.ptr pos
  match b.storage[pos]? with
  | some c => .ok c
  | none => .error .outOfBounds

/-- The C string that `ptr(pos)` points to. -/
def cStringAt (b : Buffer) (pos : Nat) : Except Fault Bytes := do
  let pos ← b.ptr pos
  match cString (b.storage.drop pos) with
  | some s => .ok s
  | none => .error .outOfBounds

namespace HttpResponse

/-- `clear`, which keeps the status code. -/
def clear (r : HttpResponse) : HttpResponse where
  toHttpBase := r.toHttpBase.clear
  statusCode := r.statusCode

/-- `set_status`. -/
def setStatus (r : HttpResponse) (status : Bytes) : HttpResponse :=
  { r with status, statusCode := atoi status }

/-! ## Writing -/

/-- `prepare_data_buffer`, for an order of iteration over the header map. -/
def prepareDataBuffer (order : Headers → List (Bytes × Bytes)) (r : HttpResponse) :
    Except Fault HttpResponse := do
  let b ← r.dataBuffer.write (text "HTTP/1.1 ")
  let b ← b.write r.status
  let b ← b.write crlf
  let b ← (order r.headers).foldlM writeHeaderLine b
  let b ← b.write (text "Content-Length: " ++ decimal r.contentBuffer.size)
  let b ← b.write crlf
  let dataBuffer ← b.write crlf
  .ok { r with dataBuffer }

/-- `write_data`. -/
def writeData (order : Headers → List (Bytes × Bytes)) (r : HttpResponse) (sock : Socket) :
    Outcome HttpResponse :=
  if r.state = .ready then
    match r.prepareDataBuffer order with
    | .error f => ⟨.error (.fault f), r, sock⟩
    | .ok r =>
        let o := HttpBase.writePrepared { r.toHttpBase with state := .writeData } sock
        ⟨o.result, { r with toHttpBase := o.object }, o.socket⟩
  else
    let o := r.writePrepared sock
    ⟨o.result, { r with toHttpBase := o.object }, o.socket⟩

/-! ## Parsing -/

/-- Write a zero byte over a character that was found in the content buffer. -/
def cutAt (r : HttpResponse) (pos : Nat) : HttpResponse :=
  { r with contentBuffer.storage := r.contentBuffer.storage.set pos 0 }

def invalidStatusCode (code : Int) : TasksException where
  error := .httpInvalidStatusCode
  what := "http_response: Invalid status code " ++ toString code

def invalidHeader (line : Bytes) : TasksException where
  error := .httpInvalidHeader
  what := "http_response: Invalid header: " ++ display line

def chunkedNotImplemented : TasksException where
  error := .httpNotImpl
  what := "http_response: Chunked transfer encoding needs to be implemented!"

def contentLengthMissing : TasksException where
  error := .httpNoContentLength
  what := "http_response: Invalid response: Content-Length header missing"

/-- What follows the first space of a status line behind its first five
characters.  Where there is no space, the code uses a null pointer. -/
def statusText (r : HttpResponse) : Except Fault Bytes := do
  let version ← cStringAt r.contentBuffer (r.lastLineStart + 5)
  match findChar 32 version with
  | some space => .ok (version.drop (space + 1))
  | none => .error .nullPointer

/-- `parse_status` from the status text on. -/
def setStatusText (r : HttpResponse) (status : Bytes) : Except Failure Unit × HttpResponse :=
  let r := { r with status, statusCode := atoi status }
  if r.statusCode < 100 ∨ 999 < r.statusCode then
    (.error (.exception (invalidStatusCode r.statusCode)), r)
  else
    (.ok (), r)

/-- `parse_status`. -/
def parseStatus (r : HttpResponse) : Except Failure Unit × HttpResponse :=
  match r.statusText with
  | .error f => (.error (.fault f), r)
  | .ok status => r.setStatusText status

/-- The insertion to `m_headers` in `parse_header`, and what depends on it.  A name
that is in the map already keeps its value. -/
def insertHeader (r : HttpResponse) (name value : Bytes) : HttpResponse :=
  if name ∈ r.headers then
    r
  else
    let r := { r with headers := r.headers.insert name value }
    if iequals name (text "Content-Length") then
      { r with contentLength := toSize (atoi value), contentLengthExists := true }
    else if iequals name (text "Transfer-Encoding") ∧ value = text "chunked" then
      { r with chunkedEnc := true }
    else
      r

/-- `parse_header`. -/
def parseHeader (r : HttpResponse) : Except Failure Unit × HttpResponse :=
  match cStringAt r.contentBuffer r.lastLineStart with
  | .error f => (.error (.fault f), r)
  | .ok line =>
      match findChar 58 line with
      | none => (.error (.exception (invalidHeader line)), r)
      | some eq =>
          let value := (line.drop (eq + 1)).dropWhile (· = 32)
          (.ok (), (r.cutAt (r.lastLineStart + eq)).insertHeader (line.take eq) value)

/-- `parse_line`. -/
def parseLine (r : HttpResponse) : Except Failure Unit × HttpResponse :=
  match if r.lineNumber = 0 then r.parseStatus else r.parseHeader with
  | (.error e, r) => (.error e, r)
  | (.ok (), r) => (.ok (), { r with lineNumber := r.lineNumber + 1 })

/-- Skip the line feed behind the last line, if it is there, and find the end of
the next line. -/
def findLine (r : HttpResponse) : Except Fault (Nat × Option Nat) := do
  let first ← charAt r.contentBuffer r.lastLineStart
  let start := if first = 10 then r.lastLineStart + 1 else r.lastLineStart
  let rest ← cStringAt r.contentBuffer start
  .ok (start, findCrlf rest)

/-- The end of the header block in `parse_data`. -/
def startContent (r : HttpResponse) : Except Failure Unit × HttpResponse :=
  if r.chunkedEnc then
    (.error (.exception chunkedNotImplemented), r)
  else if ¬r.contentLengthExists then
    (.error (.exception contentLengthMissing), r)
  else
    let r := { r with contentStart := r.lastLineStart + 1 }
    match charAt r.contentBuffer r.contentStart with
    | .error f => (.error (.fault f), r)
    | .ok c =>
        let contentStart := if c = 10 then r.contentStart + 1 else r.contentStart
        (.ok (), { r with contentStart, state := .readContent })

/-- The loop of `parse_data`, which moves over at least one character of the
buffer in each iteration but the last. -/
def parseLoop : Nat → HttpResponse → Except Failure Unit × HttpResponse
  | 0, r => (.error (.fault .diverges), r)
  | fuel + 1, r =>
      match r.findLine with
      | .error f => (.error (.fault f), r)
      | .ok (start, none) => (.ok (), { r with lastLineStart := start })
      | .ok (start, some 0) =>
          match startContent { r with lastLineStart := start } with
          | (.error e, r) => (.error e, r)
          | (.ok (), r) => if r.contentStart = 0 then parseLoop fuel r else (.ok (), r)
      | .ok (start, some len) =>
          match parseLine (cutAt { r with lastLineStart := start } (start + len)) with
          | (.error e, r) => (.error e, r)
          | (.ok (), r) =>
              let r := { r with lastLineStart := r.lastLineStart + len + 1 }
              if r.contentStart = 0 then parseLoop fuel r else (.ok (), r)

/-- `parse_data`. -/
def parseData (r : HttpResponse) : Except Failure Unit × HttpResponse :=
  parseLoop (r.contentBuffer.bufferSize - r.lastLineStart + 1) r

/-! ## Reading -/

/-- The room for the next read, which grows when it is less than a block. -/
def makeRoom (b : Buffer) : Except Fault Buffer :=
  if b.toWrite - 1 < readBufferSizeBlock - 1 then
    b.setSize ((b.bufferSize + readBufferSizeBlock) % 2 ^ 64)
  else
    .ok b

/-- End the text that was received so far with a zero byte and parse it. -/
def parseReceived (r : HttpResponse) : Except Failure Unit × HttpResponse :=
  if r.state = .readData then
    match r.contentBuffer.store r.contentBuffer.pptr [0] with
    | .error f => (.error (.fault f), r)
    | .ok contentBuffer => parseData { r with contentBuffer }
  else
    (.ok (), r)

/-- An iteration of the loop of `read_data` up to its test for the end of the
content: the length of the read, and the number of bytes received unless it was
`EAGAIN`. -/
def receive (r : HttpResponse) (sock : Socket) : Outcome HttpResponse (Int × Option Nat) :=
  match makeRoom r.contentBuffer with
  | .error f => ⟨.error (.fault f), r, sock⟩
  | .ok b =>
      let towrite := b.toWrite - 1
      let o := fillFrom b (toSize towrite) sock
      let r := { r with contentBuffer := o.object }
      match o.result with
      | .error e => ⟨.error e, r, o.socket⟩
      | .ok none => ⟨.ok (towrite, none), r, o.socket⟩
      | .ok (some bytes) =>
          match r.parseReceived with
          | (.error e, r) => ⟨.error e, r, o.socket⟩
          | (.ok (), r) => ⟨.ok (towrite, some bytes), r, o.socket⟩

/-- The test for the end of the content. -/
def contentComplete (r : HttpResponse) : Bool :=
  r.contentLength = toSize ((r.contentBuffer.pptr : Int) - r.contentStart)

/-- What follows when the content is complete. -/
def complete (r : HttpResponse) : Except Fault HttpResponse := do
  let b ← r.contentBuffer.store r.contentBuffer.pptr [0]
  let b ← b.setSize ((r.contentStart + r.contentLength) % 2 ^ 64)
  let contentBuffer ← b.movePtrReadAbs r.contentStart
  .ok { r with contentBuffer, state := .done }

/-- An iteration of the loop of `read_data`.  The result says whether the loop goes
on: it does after a read that got all it asked for. -/
def readIteration (r : HttpResponse) (sock : Socket) : Outcome HttpResponse Bool :=
  let o := r.receive sock
  match o.result with
  | .error e => ⟨.error e, o.object, o.socket⟩
  | .ok (towrite, none) => ⟨.ok (towrite == -1), o.object, o.socket⟩
  | .ok (towrite, some bytes) =>
      if o.object.contentComplete then
        match o.object.complete with
        | .error f => ⟨.error (.fault f), o.object, o.socket⟩
        | .ok r => ⟨.ok (towrite == bytes), r, o.socket⟩
      else
        ⟨.ok (towrite == bytes), o.object, o.socket⟩

/-- The loop of `read_data`.  Every iteration but the last receives something. -/
def readLoop : Nat → HttpResponse → Socket → Outcome HttpResponse :=
  Outcome.loop readIteration

/-- The start of `read_data`. -/
def startReading (r : HttpResponse) : Except Fault HttpResponse :=
  if r.state = .ready then do
    let contentBuffer ← r.contentBuffer.setSize readBufferSizeBlock
    .ok { r with contentBuffer, state := .readData }
  else
    .ok r

/-- `read_data`. -/
def readData (r : HttpResponse) (sock : Socket) : Outcome HttpResponse :=
  match r.startReading with
  | .error f => ⟨.error (.fault f), r, sock⟩
  | .ok r =>
      if r.state = .done then
        ⟨.ok (), r, sock⟩
      else
        readLoop (sock.incoming.length + 1) r sock

end HttpResponse

end LibTasks.Net

import LibTasks.Net.HttpReader

/-!
# Well-formed responses

A response whose header block `read_data` accepts, and what the reader has of it
after any number of bytes, however they are split: inside the header block the
fields said by the complete lines, and behind it the content received so far.
-/

namespace LibTasks.Net

open LibTasks.Foundation LibTasks.Tools

namespace HttpResponse

/-! ## The text of a response -/

/-- What a status line says: what follows the first space behind five characters. -/
def statusTextOf (line : Bytes) : Bytes :=
  (line.drop 5).drop ((line.drop 5).findIdx (· = 32) + 1)

/-- The name in a header line. -/
def nameOf (line : Bytes) : Bytes := line.take (line.findIdx (· = 58))

/-- The value in a header line. -/
def valueOf (line : Bytes) : Bytes :=
  (line.drop (line.findIdx (· = 58) + 1)).dropWhile (· = 32)

/-- What header lines say, one after the other. -/
def describe (h : HttpResponse) (lines : List Bytes) : HttpResponse :=
  lines.foldl (fun h line => h.insertHeader (nameOf line) (valueOf line)) h

end HttpResponse

open HttpResponse in
/-- A well-formed header block. -/
structure Head where
  statusLine : Bytes
  headerLines : List Bytes
  proper : ∀ line ∈ statusLine :: headerLines, IsLine line
  version : 32 ∈ statusLine.drop 5
  code : 100 ≤ atoi (statusTextOf statusLine) ∧ atoi (statusTextOf statusLine) ≤ 999
  headers : ∀ line ∈ headerLines, 58 ∈ line
  announced : (describe {} headerLines).contentLengthExists = true
  plain : (describe {} headerLines).chunkedEnc = false

/-- The lines of a header block. -/
def Head.lines (h : Head) : List Bytes := h.statusLine :: h.headerLines

open HttpResponse in
/-- A well-formed response. -/
structure Response where
  statusLine : Bytes
  headerLines : List Bytes
  body : Bytes
  proper : ∀ line ∈ statusLine :: headerLines, IsLine line
  version : 32 ∈ statusLine.drop 5
  code : 100 ≤ atoi (statusTextOf statusLine) ∧ atoi (statusTextOf statusLine) ≤ 999
  headers : ∀ line ∈ headerLines, 58 ∈ line
  announced : (describe {} headerLines).contentLengthExists = true
  plain : (describe {} headerLines).chunkedEnc = false
  length : (describe {} headerLines).contentLength = body.length

namespace Response

open HttpResponse

/-- The lines of the header block. -/
def lines (p : Response) : List Bytes := p.statusLine :: p.headerLines

/-- The length of the header block, with the empty line. -/
def headLength (p : Response) : Nat := linesLength p.lines + 2

/-- The bytes of the response. -/
def bytes (p : Response) : Bytes := linesText p.lines p.body

/-- The content length that the lines complete in the first `count` bytes say. -/
def announcedAt (p : Response) (count : Nat) : Nat :=
  (describe {} (completed p.lines count).tail).contentLength

end Response

namespace HttpResponse

/-! ## Lines that are accepted -/

/-- The fields after a status line. -/
def withStatus (h : HttpResponse) (line : Bytes) : HttpResponse :=
  { h with
    status := statusTextOf line
    statusCode := atoi (statusTextOf line)
    lineNumber := h.lineNumber + 1 }

/-- The fields after a header line. -/
def withHeader (h : HttpResponse) (line : Bytes) : HttpResponse :=
  { h.insertHeader (nameOf line) (valueOf line) with lineNumber := h.lineNumber + 1 }

theorem findChar_eq {c : UInt8} {s : Bytes} (member : c ∈ s) :
    findChar c s = some (s.findIdx (· = c)) := by
  rw [findChar, List.findIdx?_eq_some_iff_findIdx_eq]
  exact ⟨List.findIdx_lt_length_of_exists ⟨c, member, by simp⟩, rfl⟩

theorem readCString_line {line : Bytes} (noNul : 0 ∉ line) (beyond : Bytes) :
    readCString (line ++ 0 :: beyond) = .ok line := by
  rw [readCString, cString_append noNul]

/-- The status text of a line with a space behind its first five characters. -/
theorem statusOf_line {line : Bytes} (noNul : 0 ∉ line) (version : 32 ∈ line.drop 5)
    (beyond : Bytes) : statusOf (line ++ 0 :: beyond) = .ok (statusTextOf line) := by
  have text : readCString ((line ++ 0 :: beyond).drop 5) = .ok (line.drop 5) := by
    rw [List.drop_append_of_le_length (le_length_of_mem_drop version)]
    exact readCString_line (fun member => noNul (List.mem_of_mem_drop member)) beyond
  simp only [statusOf, text, bind, Except.bind, findChar_eq version]
  rfl

theorem takeLine_status {h : HttpResponse} (first : h.lineNumber = 0) {line : Bytes}
    (noNul : 0 ∉ line) (version : 32 ∈ line.drop 5)
    (code : 100 ≤ atoi (statusTextOf line) ∧ atoi (statusTextOf line) ≤ 999) (beyond : Bytes) :
    h.takeLine (line ++ 0 :: beyond) = .ok (h.withStatus line) := by
  have status := statusOf_line noNul version beyond
  have valid : ¬(atoi (statusTextOf line) < 100 ∨ 999 < atoi (statusTextOf line)) := by omega
  simp only [takeLine, first, ↓reduceIte, takeStatus, status, setStatusText, if_neg valid,
    Except.map, withStatus]

theorem takeLine_header {h : HttpResponse} (later : h.lineNumber ≠ 0) {line : Bytes}
    (noNul : 0 ∉ line) (colon : 58 ∈ line) (beyond : Bytes) :
    h.takeLine (line ++ 0 :: beyond) = .ok (h.withHeader line) := by
  have text := readCString_line noNul beyond
  simp only [takeLine, if_neg later, takeHeader, text, findChar_eq colon, Except.map, withHeader,
    insertHeader_lineNumber]
  rfl

/-- The fields after some of the lines of a header block. -/
def said (h : HttpResponse) : List Bytes → HttpResponse
  | [] => h
  | status :: headers => headers.foldl withHeader (h.withStatus status)

theorem accepted_headers {h : HttpResponse} (later : h.lineNumber ≠ 0) {lines : List Bytes}
    (proper : ∀ line ∈ lines, IsLine line ∧ 58 ∈ line) :
    Accepted takeLine h lines (lines.foldl withHeader h) := by
  induction lines generalizing h with
  | nil => exact .nil h
  | cons line lines ih =>
      obtain ⟨isLine, colon⟩ := proper line List.mem_cons_self
      exact .cons (takeLine_header later isLine.noNul colon)
        (ih (Nat.succ_ne_zero _) fun l member => proper l (List.mem_cons_of_mem line member))

/-- The fields that decide about the content. -/
def announcement (h : HttpResponse) : HttpResponse where
  headers := h.headers
  contentLength := h.contentLength
  contentLengthExists := h.contentLengthExists
  chunkedEnc := h.chunkedEnc

theorem announcement_insertHeader (h : HttpResponse) (name value : Bytes) :
    (h.insertHeader name value).announcement = h.announcement.insertHeader name value := by
  by_cases known : name ∈ h.headers
  · simp only [insertHeader, announcement, known, ↓reduceIte]
  · simp only [insertHeader, announcement, known, ↓reduceIte]
    split
    · rfl
    · split <;> rfl

theorem announcement_foldl (h : HttpResponse) (lines : List Bytes) :
    (lines.foldl withHeader h).announcement = describe h.announcement lines := by
  induction lines generalizing h with
  | nil => rfl
  | cons line lines ih =>
      rw [List.foldl_cons, ih, describe, describe, List.foldl_cons, ← announcement_insertHeader]
      rfl

end HttpResponse

namespace Head

open HttpResponse

variable (h : Head) {start : HttpResponse}

/-- The first lines of a header block are accepted. -/
theorem accepted_said (first : start.lineNumber = 0) {lines rest : List Bytes}
    (whole : lines ++ rest = h.lines) : Accepted takeLine start lines (start.said lines) := by
  cases lines with
  | nil => exact .nil start
  | cons line lines =>
      obtain ⟨rfl, headers⟩ := List.cons.inj whole
      have isLine := h.proper h.statusLine List.mem_cons_self
      refine .cons (takeLine_status first isLine.noNul h.version h.code) (accepted_headers ?_ ?_)
      · exact Nat.succ_ne_zero _
      · intro line member
        have among : line ∈ h.headerLines := headers ▸ List.mem_append_left rest member
        exact ⟨h.proper line (List.mem_cons_of_mem _ among), h.headers line among⟩

/-- What all lines together announce. -/
theorem said_announcement (blank : start.announcement = {}) :
    (start.said h.lines).announcement = describe {} h.headerLines := by
  rw [← blank]
  exact announcement_foldl (start.withStatus h.statusLine) h.headerLines

end Head

namespace Response

open HttpResponse

variable (p : Response)

/-- The header block of a response. -/
def head : Head :=
  ⟨p.statusLine, p.headerLines, p.proper, p.version, p.code, p.headers, p.announced, p.plain⟩

/-- The first lines of a response are accepted. -/
theorem accepted_said {h : HttpResponse} (first : h.lineNumber = 0) {lines rest : List Bytes}
    (whole : lines ++ rest = p.lines) : Accepted takeLine h lines (h.said lines) :=
  p.head.accepted_said first whole

/-- The complete lines of a response for a new object announce what they say. -/
theorem contentLength_said {h : HttpResponse} (blank : h.announcement = {}) (count : Nat) :
    (h.said (completed p.lines count)).contentLength = p.announcedAt count := by
  unfold announcedAt
  cases completed p.lines count with
  | nil => exact congrArg (·.contentLength) blank
  | cons line rest =>
      have same := announcement_foldl (h.withStatus line) rest
      rw [show (h.withStatus line).announcement = h.announcement from rfl, blank] at same
      exact congrArg (·.contentLength) same

/-! ## How much has arrived -/

/-- The reader is inside the header block. -/
structure InHead (trailing : Bytes) (start r : HttpResponse) : Prop where
  state : r.state = .readData
  short : r.contentBuffer.pptr < p.headLength
  place : r.lastLineStart = linesLength (completed p.lines r.contentBuffer.pptr)
  before : Accepted takeLine start (completed p.lines r.contentBuffer.pptr) r.fields
  after : Accepted takeLine r.fields (remaining p.lines r.contentBuffer.pptr) (start.said p.lines)
  text : slice r.contentBuffer.storage r.lastLineStart
      (r.contentBuffer.pptr - r.lastLineStart) =
    (linesText (remaining p.lines r.contentBuffer.pptr) (p.body ++ trailing)).take
      (r.contentBuffer.pptr - r.lastLineStart)

/-- The reader is behind the header block. -/
structure InContent (trailing : Bytes) (start r : HttpResponse) : Prop where
  state : r.state = .readContent
  behind : p.headLength ≤ r.contentBuffer.pptr
  place : r.contentStart = p.headLength
  fields : r.fields = { start.said p.lines with state := .readContent }
  text : slice r.contentBuffer.storage p.headLength (r.contentBuffer.pptr - p.headLength) =
    (p.body ++ trailing).take (r.contentBuffer.pptr - p.headLength)

/-- The reader at the start of an iteration, while a response and trailing bytes
arrive. -/
structure Arriving (trailing : Bytes) (start r : HttpResponse) (sock : Socket) : Prop where
  reading : r.Reading
  stream : sock.incoming =
    (linesText p.lines (p.body ++ trailing)).drop r.contentBuffer.pptr
  phase : p.InHead trailing start r ∨ p.InContent trailing start r ∨ r.state = .done

variable {p} {trailing : Bytes} {start r q : HttpResponse} {sock : Socket} {b : Buffer}
  {bytes rest : Bytes}

theorem slice_room (room : Room r.contentBuffer b) {pos len : Nat}
    (inside : pos + len ≤ r.contentBuffer.pptr) :
    slice b.storage pos len = slice r.contentBuffer.storage pos len :=
  (slice_of_take room.kept inside).trans (slice_of_take rfl inside).symm

/-- What has arrived since the current line. -/
theorem InHead.arrivedMemory_eq (inHead : p.InHead trailing start r) (reading : r.Reading)
    (stream : sock.incoming = (linesText p.lines (p.body ++ trailing)).drop r.contentBuffer.pptr)
    (arrives : r.Arrives sock b bytes rest) :
    r.arrivedMemory b bytes =
      (linesText (remaining p.lines r.contentBuffer.pptr) (p.body ++ trailing)).take
        (r.contentBuffer.pptr + bytes.length - r.lastLineStart) ++
        0 :: b.storage.drop (b.pptr + bytes.length + 1) := by
  have before := reading.start
  have next : bytes = ((linesText (remaining p.lines r.contentBuffer.pptr)
      (p.body ++ trailing)).drop (r.contentBuffer.pptr - r.lastLineStart)).take bytes.length := by
    rw [← drop_linesText, ← inHead.place, List.drop_drop, Nat.add_sub_cancel' before, ← stream,
      arrives.stream, List.take_left]
  rw [arrivedMemory, arrives.room.pptr, slice_room arrives.room (by omega), inHead.text,
    ← List.append_assoc]
  congr 1
  rw [Nat.sub_add_comm before, List.take_add, ← next]

/-- The place of the parser, from the memory it has still to read. -/
theorem place_of_reached (arrives : r.Arrives sock b bytes rest) {h : HttpResponse} (front : Bytes)
    (reached : Reached { r with contentBuffer := ended b bytes } h
      (front ++ 0 :: b.storage.drop (b.pptr + bytes.length + 1)) q) :
    q.lastLineStart + front.length = b.pptr + bytes.length ∧
      slice q.contentBuffer.storage q.lastLineStart front.length = front := by
  have fits := arrives.fits
  have size := arrives.room.ok.size
  have length : (ended b bytes).storage.length = b.storage.length :=
    length_overwrite (by rw [List.length_append, List.length_singleton]; omega)
  apply reached.place
  change (ended b bytes).storage.length = b.pptr + bytes.length + 1 + _
  rw [length, List.length_drop]
  omega

/-- Scanning what has arrived when it ends before the empty line does. -/
theorem InHead.scan_open (inHead : p.InHead trailing start r) (reading : r.Reading)
    (stream : sock.incoming = (linesText p.lines (p.body ++ trailing)).drop r.contentBuffer.pptr)
    (arrives : r.Arrives sock b bytes rest) {count : Nat}
    (arrived : r.contentBuffer.pptr + bytes.length = count) (short : count < p.headLength) :
    ∃ mid, Accepted takeLine start (completed p.lines count) mid ∧
      Accepted takeLine mid (remaining p.lines count) (start.said p.lines) ∧
      scanLines takeLine r.fields (r.arrivedMemory b bytes) =
        .more mid ((linesText (remaining p.lines count) (p.body ++ trailing)).take
          (count - linesLength (completed p.lines count)) ++
            0 :: b.storage.drop (b.pptr + bytes.length + 1)) := by
  subst arrived
  rw [inHead.arrivedMemory_eq reading stream arrives, inHead.place]
  exact scanLines_arrived_open inHead.before inHead.after p.proper short _ _

/-- Scanning what has arrived when the empty line is there. -/
theorem InHead.scan_closed (inHead : p.InHead trailing start r) (reading : r.Reading)
    (stream : sock.incoming = (linesText p.lines (p.body ++ trailing)).drop r.contentBuffer.pptr)
    (arrives : r.Arrives sock b bytes rest) {count : Nat}
    (arrived : r.contentBuffer.pptr + bytes.length = count) (behind : p.headLength ≤ count) :
    scanLines takeLine r.fields (r.arrivedMemory b bytes) =
      .blank (start.said p.lines) (13 :: 10 :: ((p.body ++ trailing).take (count - p.headLength) ++
        0 :: b.storage.drop (b.pptr + bytes.length + 1))) := by
  subst arrived
  rw [inHead.arrivedMemory_eq reading stream arrives, inHead.place]
  exact scanLines_arrived_closed inHead.after p.proper behind _ _

/-- Inside the header block the reader gets on to a later place or to the content. -/
theorem InHead.arrive (inHead : p.InHead trailing start r) (reading : r.Reading)
    (stream : sock.incoming = (linesText p.lines (p.body ++ trailing)).drop r.contentBuffer.pptr)
    (arrives : r.Arrives sock b bytes rest) (parsed : Parsed r b bytes q) :
    p.InHead trailing start q ∨ p.InContent trailing start q := by
  have pptr : r.contentBuffer.pptr + bytes.length = q.contentBuffer.pptr := by
    rw [← arrives.room.pptr]
    exact (parsed.places arrives).1.symm
  have room := arrives.room.pptr
  cases parsed with
  | content state => exact absurd inHead.state state
  | @more h q memory state scan reached =>
      have short : q.contentBuffer.pptr < p.headLength := by
        by_contra behind
        have closed := inHead.scan_closed reading stream arrives pptr (Nat.not_lt.mp behind)
        cases scan.symm.trans closed
      obtain ⟨mid, first, second, scanned⟩ :=
        inHead.scan_open reading stream arrives pptr short
      cases scan.symm.trans scanned
      have total := congrArg linesLength
        (completed_append_remaining p.lines q.contentBuffer.pptr)
      have inside := linesLength_completed_le p.lines q.contentBuffer.pptr
      rw [linesLength_append] at total
      unfold headLength at short
      have length : ((linesText (remaining p.lines q.contentBuffer.pptr)
          (p.body ++ trailing)).take (q.contentBuffer.pptr -
            linesLength (completed p.lines q.contentBuffer.pptr))).length =
          q.contentBuffer.pptr - linesLength (completed p.lines q.contentBuffer.pptr) := by
        rw [List.length_take, length_linesText]
        omega
      obtain ⟨place, text⟩ := place_of_reached arrives _ reached
      rw [length] at place text
      have here : q.lastLineStart = linesLength (completed p.lines q.contentBuffer.pptr) := by
        omega
      refine .inl ⟨reached.state.trans state, short, here, ?_, ?_, ?_⟩
      · rw [reached.fields]
        exact first
      · rw [reached.fields]
        exact second
      · rw [← here] at text
        exact text
  | @blank h q memory state scan reached behind plain announced =>
      change r.contentBuffer.pptr + bytes.length = q.contentBuffer.pptr at pptr
      have length := congrArg List.length stream
      rw [arrives.stream, List.length_append, List.length_drop, length_linesText] at length
      have some := List.length_pos_iff.mpr arrives.nonempty
      have behindHead : p.headLength ≤ q.contentBuffer.pptr := by
        by_contra short
        obtain ⟨_, _, _, opened⟩ :=
          inHead.scan_open reading stream arrives pptr (Nat.not_le.mp short)
        cases scan.symm.trans opened
      cases scan.symm.trans (inHead.scan_closed reading stream arrives pptr behindHead)
      have lengthHead : ((p.body ++ trailing).take (q.contentBuffer.pptr - p.headLength)).length =
          q.contentBuffer.pptr - p.headLength := by
        unfold headLength at *
        rw [List.length_take]
        omega
      obtain ⟨place, -⟩ := place_of_reached arrives
        (13 :: 10 :: (p.body ++ trailing).take (q.contentBuffer.pptr - p.headLength)) reached
      simp only [List.length_cons, lengthHead] at place
      have here : q.lastLineStart + 2 = p.headLength := by omega
      refine .inr ⟨rfl, behindHead, here, ?_, ?_⟩
      · rw [← reached.fields]
        rfl
      · show slice q.contentBuffer.storage p.headLength (q.contentBuffer.pptr - p.headLength) = _
        rw [← here, slice, ← List.drop_drop, reached.memory, here]
        exact List.take_left' lengthHead

/-- Behind the header block the reader has the content received so far. -/
theorem InContent.arrive (inContent : p.InContent trailing start r)
    (stream : sock.incoming = (linesText p.lines (p.body ++ trailing)).drop r.contentBuffer.pptr)
    (arrives : r.Arrives sock b bytes rest) (parsed : Parsed r b bytes q) :
    p.InContent trailing start q := by
  have room := arrives.room.pptr
  have fits := arrives.fits
  have size := arrives.room.ok.size
  have behind := inContent.behind
  cases parsed with
  | more state => simp [inContent.state] at state
  | blank state => simp [inContent.state] at state
  | content state =>
      have next : bytes = ((p.body ++ trailing).drop (b.pptr - p.headLength)).take
          bytes.length := by
        have unread := arrives.stream.symm.trans stream
        rw [← room, ← Nat.add_sub_cancel' (show p.headLength ≤ b.pptr by omega),
          ← List.drop_drop, headLength, drop_linesText_body] at unread
        rw [headLength, ← unread, List.take_left]
      refine ⟨inContent.state, ?_, inContent.place, inContent.fields, ?_⟩
      · show p.headLength ≤ b.pptr + bytes.length
        omega
      · have kept : slice b.storage p.headLength (b.pptr - p.headLength) =
            (p.body ++ trailing).take (b.pptr - p.headLength) := by
          rw [slice_room arrives.room (by omega), room]
          exact inContent.text
        show slice (overwrite b.storage b.pptr bytes) p.headLength
          (b.pptr + bytes.length - p.headLength) = (p.body ++ trailing).take
            (b.pptr + bytes.length - p.headLength)
        rw [Nat.sub_add_comm (by omega), slice_overwrite (by omega) (by omega), kept,
          List.take_add, ← next]

theorem InHead.room (inHead : p.InHead trailing start r) (reading : r.Reading)
    (room : Room r.contentBuffer b) :
    p.InHead trailing start { r with contentBuffer := b } := by
  have pptr := room.pptr
  have before := reading.start
  refine ⟨inHead.state, ?_, ?_, ?_, ?_, ?_⟩
  · show b.pptr < p.headLength
    rw [pptr]
    exact inHead.short
  · show r.lastLineStart = linesLength (completed p.lines b.pptr)
    rw [pptr]
    exact inHead.place
  · show Accepted takeLine start (completed p.lines b.pptr) r.fields
    rw [pptr]
    exact inHead.before
  · show Accepted takeLine r.fields (remaining p.lines b.pptr) (start.said p.lines)
    rw [pptr]
    exact inHead.after
  · show slice b.storage r.lastLineStart (b.pptr - r.lastLineStart) =
      (linesText (remaining p.lines b.pptr) (p.body ++ trailing)).take (b.pptr - r.lastLineStart)
    rw [pptr, slice_room room (by omega)]
    exact inHead.text

theorem InContent.room (inContent : p.InContent trailing start r)
    (room : Room r.contentBuffer b) :
    p.InContent trailing start { r with contentBuffer := b } := by
  have pptr := room.pptr
  have behind := inContent.behind
  refine ⟨inContent.state, ?_, inContent.place, inContent.fields, ?_⟩
  · show p.headLength ≤ b.pptr
    omega
  · show slice b.storage p.headLength (b.pptr - p.headLength) =
      (p.body ++ trailing).take (b.pptr - p.headLength)
    rw [pptr, slice_room room (by omega)]
    exact inContent.text

theorem Arriving.unread (arriving : p.Arriving trailing start r sock)
    (arrives : r.Arrives sock b bytes rest) :
    rest = (linesText p.lines (p.body ++ trailing)).drop (b.pptr + bytes.length) := by
  have unread := arriving.stream
  rw [arrives.stream, ← arrives.room.pptr] at unread
  rw [← List.drop_drop, ← unread, List.drop_left]

/-- What parsing leaves when bytes of the response arrive. -/
theorem Arriving.parsed (arriving : p.Arriving trailing start r sock)
    (arrives : r.Arrives sock b bytes rest) (parsed : Parsed r b bytes q)
    (notDone : r.state ≠ .done) :
    p.InHead trailing start q ∨ p.InContent trailing start q := by
  obtain inHead | inContent | done := arriving.phase
  · exact inHead.arrive arriving.reading arriving.stream arrives parsed
  · exact .inr (inContent.arrive arriving.stream arrives parsed)
  · exact absurd done notDone

/-- A read that finds nothing. -/
theorem Arriving.room (arriving : p.Arriving trailing start r sock)
    (room : Room r.contentBuffer b) :
    p.Arriving trailing start { r with contentBuffer := b }
      (sock.advance (roomCall b) sock.incoming) := by
  refine ⟨room.reading arriving.reading, ?_, ?_⟩
  · rw [Socket.advance_incoming, room.pptr]
    exact arriving.stream
  · rcases arriving.phase with inHead | inContent | done
    · exact .inl (inHead.room arriving.reading room)
    · exact .inr (.inl (inContent.room room))
    · exact .inr (.inr done)

/-- An iteration keeps the reader on the response. -/
theorem Arriving.next (arriving : p.Arriving trailing start r sock) {go : Bool} {next : Socket}
    (result : r.readIteration sock = ⟨.ok go, q, next⟩) :
    p.Arriving trailing start q next := by
  have reading := arriving.reading.next result
  have iterates := arriving.reading.iterates sock
  rw [result] at iterates
  cases iterates with
  | again room => exact arriving.room room
  | more arrives parsed incomplete =>
      refine ⟨reading, ?_, ?_⟩
      · rw [Socket.advance_incoming, (parsed.places arrives).1]
        exact arriving.unread arrives
      · by_cases done : r.state = .done
        · exact .inr (.inr (parsed.state_of_done done))
        · obtain inHead | inContent := arriving.parsed arrives parsed done
          · exact .inl inHead
          · exact .inr (.inl inContent)
  | @done b bytes rest q arrives parsed whole =>
      refine ⟨reading, ?_, .inr (.inr rfl)⟩
      show rest = (linesText p.lines (p.body ++ trailing)).drop q.contentBuffer.pptr
      rw [(parsed.places arrives).1]
      exact arriving.unread arrives

/-- The fields of a new response when the first iteration starts. -/
def startFields (r : HttpResponse) : HttpResponse := { r.fields with state := .readData }

theorem announcement_startFields (fresh : r.Fresh) : (startFields r).announcement = {} := by
  have headers := fresh.headers
  have length := fresh.contentLength
  have announced := fresh.contentLengthExists
  have chunked := fresh.chunkedEnc
  simp only [announcement, startFields, HttpResponse.fields, headers, length, announced, chunked]

/-- A new response at the start of a stream. -/
theorem arriving_of_fresh (p : Response) (fresh : r.Fresh)
    (stream : sock.incoming = p.bytes ++ trailing) (started : r.startReading = .ok q) :
    p.Arriving trailing (startFields r) q sock := by
  have reading := fresh.reading started
  rw [fresh.startReading_eq] at started
  cases started
  refine ⟨reading, ?_, .inl ⟨rfl, Nat.succ_pos _, fresh.lastLineStart, ?_, ?_, ?_⟩⟩
  · rw [stream, linesText_body_append]
    rfl
  · exact .nil _
  · exact p.accepted_said (h := startFields r) fresh.lineNumber (List.append_nil _)
  · show slice _ _ (0 - r.lastLineStart) = List.take (0 - r.lastLineStart) _
    rw [Nat.zero_sub]
    rfl

/-! ## The content is complete -/

/-- All lines of the header block have been read. -/
theorem said_announcement (p : Response) (fresh : r.Fresh) :
    ((startFields r).said p.lines).announcement = describe {} p.headerLines :=
  p.head.said_announcement (announcement_startFields fresh)

theorem InContent.contentLength_eq (inContent : p.InContent trailing (startFields r) q)
    (fresh : r.Fresh) : q.contentLength = p.body.length := by
  rw [← p.length, ← said_announcement p fresh]
  exact congrArg (·.contentLength) inContent.fields

/-- Inside the header block the announced length is that of the complete lines. -/
theorem InHead.contentLength_eq (inHead : p.InHead trailing (startFields r) q)
    (fresh : r.Fresh) : q.contentLength = p.announcedAt q.contentBuffer.pptr := by
  have said := p.accepted_said (h := startFields r) fresh.lineNumber
    (completed_append_remaining p.lines q.contentBuffer.pptr)
  rw [← p.contentLength_said (announcement_startFields fresh), ← inHead.before.unique said]
  rfl

/-- The header block of a response is accepted. -/
theorem Arriving.parse_ok (arriving : p.Arriving trailing (startFields r) q sock) (fresh : r.Fresh)
    (arrives : q.Arrives sock b bytes rest) :
    ∃ next, parseReceived { q with contentBuffer := received b bytes } = (.ok (), next) := by
  by_cases state : q.state = .readData
  · have follows := arrives.parse_follows arriving.reading state
    obtain inHead | inContent | done := arriving.phase
    · by_cases short : q.contentBuffer.pptr + bytes.length < p.headLength
      · obtain ⟨mid, _, _, scanned⟩ :=
          inHead.scan_open arriving.reading arriving.stream arrives rfl short
        rw [scanned] at follows
        obtain ⟨next, result, _⟩ := follows
        exact ⟨next, result⟩
      · rw [inHead.scan_closed arriving.reading arriving.stream arrives rfl (Nat.not_lt.mp short)]
          at follows
        obtain ⟨last, started, reached⟩ := follows
        have same := congrArg HttpResponse.announcement reached.fields
        rw [said_announcement p fresh] at same
        have plain : last.chunkedEnc = false :=
          (congrArg (·.chunkedEnc) same).trans p.plain
        have announced : last.contentLengthExists = true :=
          (congrArg (·.contentLengthExists) same).trans p.announced
        rw [arrives.startContent_eq reached] at started
        simp only [plain, announced, Bool.false_eq_true, not_true_eq_false, ↓reduceIte] at started
        exact ⟨_, started⟩
    · cases state.symm.trans inContent.state
    · cases state.symm.trans done
  · exact ⟨_, by rw [parseReceived, if_neg state]⟩

/-! ## Finality of `DONE` -/

/-- The iteration ends the call, and leaves exactly the content to be read. -/
structure DoneFinal (p : Response) (o : Outcome HttpResponse Bool) : Prop where
  stops : o.result = .ok false
  start : o.object.contentStart = p.headLength
  size : o.object.contentBuffer.size = o.object.contentStart + o.object.contentLength
  pptr : o.object.contentBuffer.pptr = o.object.contentBuffer.size
  toRead : o.object.contentBuffer.toRead = o.object.contentLength
  read : ∀ count, (o.object.read count).1 = p.body.take count

/-- The iteration receives bytes up to a place where `DONE` is set too early or is
not final: inside the header block, where the complete lines announce the number of
bytes received so far, or at the end of the response with a read that got all it
asked for. -/
def Misses (p : Response) (r : HttpResponse) (sock : Socket) : Prop :=
  r.state ≠ .done ∧ ∃ b bytes rest, r.Arrives sock b bytes rest ∧
    (b.pptr + bytes.length < p.headLength ∧
        p.announcedAt (b.pptr + bytes.length) = b.pptr + bytes.length ∨
      b.pptr + bytes.length = p.headLength + p.body.length ∧
        bytes.length = (roomCall b).len)

/-- What can be read from a response whose content is complete. -/
theorem InContent.read_finished (inContent : p.InContent trailing start q) (reading : q.Reading)
    (room : q.contentBuffer.pptr < q.contentBuffer.size)
    (whole : q.contentBuffer.pptr = q.contentStart + q.contentLength)
    (length : q.contentLength = p.body.length) :
    q.finished.contentBuffer.toRead = q.contentLength ∧
      ∀ count, (q.finished.read count).1 = p.body.take count := by
  have size := reading.ok.size
  have toRead : q.finished.contentBuffer.toRead = q.contentLength := by
    rw [(reading.finished whole room).ok.toRead_eq]
    show ((q.contentBuffer.pptr - q.contentStart : Nat) : Int) = q.contentLength
    omega
  refine ⟨toRead, fun count => ?_⟩
  have kept : q.finished.contentBuffer.storage.take q.contentBuffer.pptr =
      q.contentBuffer.storage.take q.contentBuffer.pptr :=
    take_overwrite_of_le (Nat.le_refl _) (by omega)
  have inside : q.contentStart + min count q.contentLength ≤ q.contentBuffer.pptr := by omega
  have content : slice q.contentBuffer.storage q.contentStart q.contentLength = p.body := by
    have text := inContent.text
    rwa [← inContent.place, show q.contentBuffer.pptr - q.contentStart = q.contentLength by omega,
      length, List.take_left, ← length] at text
  calc (q.finished.read count).1
      = slice q.finished.contentBuffer.storage q.contentStart (min count q.contentLength) := by
        rw [HttpBase.read, Buffer.read, toRead]
        rfl
    _ = slice q.contentBuffer.storage q.contentStart (min count q.contentLength) :=
        (slice_of_take kept inside).trans (slice_of_take rfl inside).symm
    _ = (slice q.contentBuffer.storage q.contentStart q.contentLength).take count := by
        rw [slice, slice, List.take_take]
    _ = p.body.take count := by rw [content]

/-- In an iteration `DONE` is final exactly when the read does not end in one of the
places where it is set too early or is not final. -/
theorem Arriving.doneFinal_iff (arriving : p.Arriving trailing (startFields r) q sock)
    (fresh : r.Fresh) :
    (SetsDone q sock → DoneFinal p (q.readIteration sock)) ↔ ¬Misses p q sock := by
  have reading := arriving.reading
  constructor
  · rintro final ⟨notDone, b, bytes, rest, arrives, miss⟩
    obtain ⟨next, parse⟩ := arriving.parse_ok fresh arrives
    have parsed := arrives.parsed reading parse
    have places := parsed.places arrives
    have reads := parsed.reading arrives reading
    have setsDone := arrives.setsDone_iff reading parse
    have result := arrives.readIteration_eq reading parse
    obtain inHead | inContent := arriving.parsed arrives parsed notDone
    · have length := inHead.contentLength_eq fresh
      have noContent := reads.data inHead.state
      have short := inHead.short
      rw [places.1] at length short
      obtain ⟨_, early⟩ | ⟨ends, _⟩ := miss
      · have whole : next.contentBuffer.pptr = next.contentStart + next.contentLength := by omega
        have start := (final (setsDone.mpr whole)).start
        rw [result, if_pos whole] at start
        have nothing : next.contentStart = p.headLength := start
        unfold headLength at nothing
        omega
      · omega
    · have length := inContent.contentLength_eq fresh
      have place := inContent.place
      have behind := inContent.behind
      obtain ⟨short, _⟩ | ⟨ends, full⟩ := miss
      · omega
      · have whole : next.contentBuffer.pptr = next.contentStart + next.contentLength := by omega
        have stops := (final (setsDone.mpr whole)).stops
        rw [result] at stops
        simp [full] at stops
  · intro noMiss done
    obtain ⟨b, bytes, rest, next, arrives, parse, _, whole⟩ := reading.exists_of_setsDone done
    have parsed := arrives.parsed reading parse
    have places := parsed.places arrives
    have reads := parsed.reading arrives reading
    have fits := arrives.fits
    have notDone : q.state ≠ .done := fun done =>
      parsed.incomplete_of_done arrives reading done whole
    have miss := fun place => noMiss ⟨notDone, b, bytes, rest, arrives, place⟩
    obtain inHead | inContent := arriving.parsed arrives parsed notDone
    · have length := inHead.contentLength_eq fresh
      have noContent := reads.data inHead.state
      have short := inHead.short
      rw [places.1] at length short
      exact absurd (.inl ⟨short, by omega⟩) miss
    · have length := inContent.contentLength_eq fresh
      have place := inContent.place
      have notFull : bytes.length ≠ (roomCall b).len := fun full =>
        miss (.inr ⟨by omega, full⟩)
      obtain ⟨toRead, read⟩ := inContent.read_finished reads (by omega) whole length
      rw [arrives.readIteration_eq reading parse, if_pos whole]
      exact ⟨by simp [notFull], place, whole, rfl, toRead, read⟩

/-- In every run of calls that reads a well-formed response, however it is split,
`DONE` is final exactly when no read ends in one of the places where it is set too
early or is not final. -/
theorem done_final_iff (p : Response) (fresh : r.Fresh)
    (stream : sock.incoming = p.bytes ++ trailing) :
    (∀ n, ∀ head ∈ heads (readCall^[n] ⟨r, sock, none⟩),
      SetsDone head.1 head.2 → DoneFinal p (head.1.readIteration head.2)) ↔
    ∀ n, ∀ head ∈ heads (readCall^[n] ⟨r, sock, none⟩), ¬Misses p head.1 head.2 := by
  have arriving := run_rule (P := p.Arriving trailing (startFields r))
    (fun holds result => holds.next result) (fun holds => holds.reading.begun) sock
    ⟨_, fresh.startReading_eq, p.arriving_of_fresh fresh stream fresh.startReading_eq⟩
  exact forall_congr' fun n => forall₂_congr fun head member =>
    (arriving n head member).doneFinal_iff fresh

/-- A response of 4095 bytes, the length of the first read. -/
def fullResponse : Response where
  statusLine := text "HTTP/1.1 200 OK"
  headerLines := [text "Content-Length: 4054"]
  body := List.replicate 4054 120
  proper := by
    intro line member
    simp only [List.mem_cons, List.not_mem_nil, or_false] at member
    obtain rfl | rfl := member <;> exact ⟨by decide, by decide, by decide, by decide⟩
  version := by decide
  code := by decide
  headers := by decide
  announced := by decide
  plain := by decide
  length := by
    rw [List.length_replicate]
    decide

/-- The response arrives at once. -/
def fullSocket : Socket where
  incoming := fullResponse.bytes
  arrivals := fun _ => .deliver 4095

theorem fullSocket_incoming : fullSocket.incoming = fullResponse.bytes ++ [] := by
  rw [List.append_nil]
  rfl

/-- The first read ends with the response and gets all it asked for. -/
theorem misses_full : Misses fullResponse firstHead fullSocket := by
  have body : fullResponse.body.length = 4054 := List.length_replicate
  have head : linesLength fullResponse.lines = 39 := by decide
  have length : fullResponse.bytes.length = 4095 := by
    rw [bytes, length_linesText, body, head]
  have room : Room firstHead.contentBuffer firstHead.contentBuffer := by
    have ok : firstHead.contentBuffer.Ok :=
      (fresh_default.reading fresh_default.startReading_eq).ok
    refine ⟨?_, ok, rfl, rfl, Nat.le_refl _, rfl⟩
    rw [makeRoom, if_neg (by decide)]
  have read := Socket.read_deliver (roomCall firstHead.contentBuffer)
    (show fullSocket.arrivals fullSocket.reads.length = .deliver 4095 from rfl)
    (List.ne_nil_of_length_pos (by rw [fullSocket_incoming, List.append_nil, length]; decide))
    (by decide)
  have all : min (max 4095 1) (roomCall firstHead.contentBuffer).len =
      fullResponse.bytes.length := by
    rw [length]
    decide
  rw [all, fullSocket_incoming, List.append_nil, List.take_length, List.drop_length] at read
  refine ⟨by decide, _, fullResponse.bytes, [], ⟨room, ?_, ?_, fullSocket_incoming, read⟩, .inr ?_⟩
  · exact List.ne_nil_of_length_pos (by rw [length]; decide)
  · rw [length]
    decide
  · rw [length]
    refine ⟨?_, by decide⟩
    rw [headLength, body, head]
    rfl

/-- The first read gets all it asked for: after `DONE` the loop goes on, grows the
buffer and reads again. -/
theorem done_not_final :
    (firstHead, fullSocket) ∈ heads ⟨{}, fullSocket, none⟩ ∧ SetsDone firstHead fullSocket ∧
      ¬DoneFinal fullResponse (firstHead.readIteration fullSocket) ∧
      (readData {} fullSocket).socket.reads.length = 2 ∧
      (readData {} fullSocket).object.contentBuffer.size = 9216 := by
  have arriving := fullResponse.arriving_of_fresh fresh_default fullSocket_incoming
    fresh_default.startReading_eq
  have wrong := mt (arriving.doneFinal_iff fresh_default).mp (not_not.mpr misses_full)
  rw [Classical.not_imp] at wrong
  exact ⟨firstHead_mem _, wrong.1, wrong.2, by decide +kernel⟩

theorem done_final_sample :
    (∀ n, ∀ head ∈ heads (readCall^[n] ⟨{}, fullSocket, none⟩),
      SetsDone head.1 head.2 → DoneFinal fullResponse (head.1.readIteration head.2)) ↔
    ∀ n, ∀ head ∈ heads (readCall^[n] ⟨{}, fullSocket, none⟩),
      ¬Misses fullResponse head.1 head.2 :=
  done_final_iff fullResponse fresh_default fullSocket_incoming

end Response

end LibTasks.Net

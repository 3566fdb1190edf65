import LibTasks.Net.HttpFraming

/-!
# Parsing a header block in pieces

`parse_data` is called after each piece of a header block, until the content starts.
Between the calls the parser keeps no more than the place of the current line, and it
writes to the buffer.  However the block is split, also inside a line end or the empty
line, the calls together leave what a single call for the whole text leaves.
-/

namespace LibTasks.Net

open LibTasks.Foundation LibTasks.Tools

/-! ## Appending pieces -/

/-- A piece of text as it comes to the content buffer: its bytes, what stands in memory
behind the zero byte that ends them, and the size of the buffer then. -/
structure Piece where
  bytes : Bytes
  beyond : Bytes
  size : Nat

/-- The piece fits behind `pos` bytes. -/
structure Piece.Fits (piece : Piece) (pos : Nat) : Prop where
  size : pos + piece.bytes.length ≤ piece.size
  storage : piece.size ≤ pos + piece.bytes.length + 1 + piece.beyond.length
  capacity : pos + piece.bytes.length + 1 + piece.beyond.length ≤ maxSize

/-- Pieces that fit one behind the other. -/
def FitBehind : Nat → List Piece → Prop
  | _, [] => True
  | pos, piece :: pieces => piece.Fits pos ∧ FitBehind (pos + piece.bytes.length) pieces

/-- Append a piece to the content buffer and end it with a zero byte. -/
def appendPiece (r : HttpResponse) (piece : Piece) : HttpResponse :=
  { r with
    contentBuffer := { r.contentBuffer with
      storage := r.contentBuffer.storage.take r.contentBuffer.pptr ++
        (piece.bytes ++ 0 :: piece.beyond)
      size := piece.size
      pptr := r.contentBuffer.pptr + piece.bytes.length } }

/-- Append pieces and call `parse_data` after each of them, until the content starts. -/
def feed : List Piece → HttpResponse → Except Failure Unit × HttpResponse
  | [], r => (.ok (), r)
  | piece :: pieces, r =>
      if r.contentStart = 0 then
        match (appendPiece r piece).parseData with
        | (.error e, r) => (.error e, r)
        | (.ok (), r) => feed pieces r
      else
        (.ok (), r)

namespace HttpResponse

/-- The piece that comes to the buffer when bytes arrive. -/
def arrivedPiece (b : Buffer) (bytes : Bytes) : Piece :=
  ⟨bytes, b.storage.drop (b.pptr + bytes.length + 1), b.size⟩

variable {r : HttpResponse} {sock : Socket} {b : Buffer} {bytes rest : Bytes}

theorem Arrives.ended_eq (arrives : r.Arrives sock b bytes rest) :
    { r with contentBuffer := ended b bytes } = appendPiece r (arrivedPiece b bytes) := by
  have buffer : ended b bytes = (appendPiece r (arrivedPiece b bytes)).contentBuffer := by
    rw [ended, overwrite, arrives.room.pptr, arrives.room.kept, arrives.room.gptr]
    simp [appendPiece, arrivedPiece, Nat.add_assoc, arrives.room.pptr]
  rw [buffer]
  rfl

/-- `read_data` appends pieces and parses them in this way. -/
theorem Arrives.parseReceived_eq (arrives : r.Arrives sock b bytes rest)
    (state : r.state = .readData) :
    (arrivedPiece b bytes).Fits r.contentBuffer.pptr ∧
      parseReceived { r with contentBuffer := received b bytes } =
        (appendPiece r (arrivedPiece b bytes)).parseData := by
  constructor
  · have ok := arrives.room.ok
    have fits := arrives.fits
    have size := ok.size
    have capacity := ok.capacity
    rw [← arrives.room.pptr]
    constructor
    · exact Nat.le_of_lt fits
    · change b.size ≤ b.pptr + bytes.length + 1 + (b.storage.drop _).length
      rw [List.length_drop]
      omega
    · change b.pptr + bytes.length + 1 + (b.storage.drop _).length ≤ maxSize
      rw [List.length_drop]
      omega
  · rw [parseReceived, if_pos state, arrives.store_eq, ← arrives.ended_eq]

end HttpResponse

namespace Head

open HttpResponse

variable (h : Head)

/-- The length of the header block, with the empty line. -/
def length : Nat := linesLength h.lines + 2

/-- The header block and the bytes that follow it. -/
def bytes (following : Bytes) : Bytes := linesText h.lines following

/-! ## Inside the header block -/

/-- The parser after a part of the header block, from the fields `start` on. -/
structure Inside (following : Bytes) (start r : HttpResponse) : Prop where
  gptr : r.contentBuffer.gptr = 0
  stored : r.contentBuffer.pptr ≤ r.contentBuffer.storage.length
  noContent : r.contentStart = 0
  short : r.contentBuffer.pptr < h.length
  place : r.lastLineStart = linesLength (completed h.lines r.contentBuffer.pptr)
  before : Accepted takeLine start (completed h.lines r.contentBuffer.pptr) r.fields
  after : Accepted takeLine r.fields (remaining h.lines r.contentBuffer.pptr) (start.said h.lines)
  text : slice r.contentBuffer.storage r.lastLineStart
      (r.contentBuffer.pptr - r.lastLineStart) =
    (linesText (remaining h.lines r.contentBuffer.pptr) following).take
      (r.contentBuffer.pptr - r.lastLineStart)

/-- The parser behind the header block. -/
structure Behind (start r : HttpResponse) : Prop where
  fields : r.fields = { start.said h.lines with state := .readContent }
  place : r.contentStart = h.length

variable {h} {following : Bytes} {start r : HttpResponse} {piece : Piece}

theorem lineNumber_accepted {s t : HttpResponse} {lines : List Bytes}
    (accepted : Accepted takeLine s lines t) : t.lineNumber = s.lineNumber + lines.length := by
  induction accepted with
  | nil s => rfl
  | cons first rest ih =>
      rw [ih, (takeLine_keeps (first [])).2.1, List.length_cons]
      omega

theorem Inside.start_le (inside : h.Inside following start r) :
    r.lastLineStart ≤ r.contentBuffer.pptr := by
  rw [inside.place]
  exact linesLength_completed_le h.lines r.contentBuffer.pptr

/-- The memory from the current line on, when a piece of the text was appended. -/
theorem Inside.drop_append (inside : h.Inside following start r)
    (next : piece.bytes =
      ((h.bytes following).drop r.contentBuffer.pptr).take piece.bytes.length) :
    (appendPiece r piece).contentBuffer.storage.drop r.lastLineStart =
      (linesText (remaining h.lines r.contentBuffer.pptr) following).take
        (r.contentBuffer.pptr + piece.bytes.length - r.lastLineStart) ++ 0 :: piece.beyond := by
  have before := inside.start_le
  have unread : (h.bytes following).drop r.contentBuffer.pptr =
      (linesText (remaining h.lines r.contentBuffer.pptr) following).drop
        (r.contentBuffer.pptr - r.lastLineStart) := by
    rw [← drop_linesText, ← inside.place, List.drop_drop, Nat.add_sub_cancel' before]
    rfl
  have front : (r.contentBuffer.storage.take r.contentBuffer.pptr).drop r.lastLineStart =
      (linesText (remaining h.lines r.contentBuffer.pptr) following).take
        (r.contentBuffer.pptr - r.lastLineStart) := by
    rw [← inside.text, List.drop_take]
    rfl
  change (r.contentBuffer.storage.take r.contentBuffer.pptr ++ _).drop _ = _
  rw [List.drop_append_of_le_length (by
      rw [List.length_take, Nat.min_eq_left inside.stored]
      exact before),
    front, ← List.append_assoc, Nat.sub_add_comm before, List.take_add, ← unread, ← next]

theorem length_append (stored : r.contentBuffer.pptr ≤ r.contentBuffer.storage.length)
    (piece : Piece) :
    (appendPiece r piece).contentBuffer.storage.length =
      (appendPiece r piece).contentBuffer.pptr + 1 + piece.beyond.length := by
  simp only [appendPiece, List.length_append, List.length_cons, List.length_take]
  omega

/-- Less than six characters of a status line have no end of a line. -/
theorem findCrlf_statusLine (h : Head) (following beyond : Bytes) {count : Nat}
    (few : count < 6) :
    findCrlf ((skipLf ((linesText h.lines following).take count ++ 0 :: beyond)).takeWhile
      (· ≠ 0)) = none := by
  have isLine := h.proper h.statusLine List.mem_cons_self
  have long : 5 < h.statusLine.length := by
    have some := List.length_pos_of_mem h.version
    rw [List.length_drop] at some
    omega
  have part : (linesText h.lines following).take count = h.statusLine.take count :=
    List.take_append_of_le_length (by omega)
  have outside {c : UInt8} (absent : c ∉ h.statusLine) : c ∉ h.statusLine.take count :=
    fun member => absent (List.mem_of_mem_take member)
  have start : ((linesText h.lines following).take count ++ 0 :: beyond).head? ≠ some 10 :=
    head?_arrived_ne h.proper following beyond count
  rw [skipLf_of_ne start, part, takeWhile_nul (outside isLine.noNul)]
  simpa using (findCrlf_eq_none (outside isLine.noCr)).1

theorem Inside.parsing (inside : h.Inside following start r)
    (fits : piece.Fits r.contentBuffer.pptr)
    (next : piece.bytes =
      ((h.bytes following).drop r.contentBuffer.pptr).take piece.bytes.length) :
    (appendPiece r piece).Parsing := by
  have length := length_append inside.stored piece
  have before := inside.start_le
  have memory := inside.drop_append next
  have behind : r.lastLineStart ≤ (appendPiece r piece).contentBuffer.pptr :=
    Nat.le_trans before (Nat.le_add_right _ _)
  constructor
  · constructor
    · change r.contentBuffer.gptr ≤ _
      rw [inside.gptr]
      exact Nat.zero_le _
    · exact fits.size
    · rw [length]
      exact fits.storage
    · rw [length]
      exact fits.capacity
  · change (_ ++ (piece.bytes ++ 0 :: piece.beyond))[_ + piece.bytes.length]? = some 0
    rw [← List.append_assoc, List.getElem?_append_right (by
      simp only [List.length_append, List.length_take]
      omega)]
    simp [Nat.min_eq_left inside.stored]
  · exact behind
  · intro first
    have counted := lineNumber_accepted inside.before
    change r.lineNumber = 0 at first
    change r.lineNumber = _ at counted
    have none := List.length_eq_zero_iff.mp (show
      (completed h.lines r.contentBuffer.pptr).length = 0 by omega)
    have zero : r.lastLineStart = 0 := by
      rw [inside.place, none]
      rfl
    have all : remaining h.lines r.contentBuffer.pptr = h.lines := by
      rw [remaining, none]
      rfl
    by_cases few : r.contentBuffer.pptr + piece.bytes.length < 6
    · right
      change findCrlf ((skipLf ((appendPiece r piece).contentBuffer.storage.drop
        r.lastLineStart)).takeWhile _) = _
      rw [memory, all]
      exact h.findCrlf_statusLine following piece.beyond (by omega)
    · left
      have size := fits.size
      change r.lastLineStart + 6 ≤ piece.size
      omega
  · exact inside.noContent

/-- A piece that ends inside the header block. -/
theorem Inside.append_open (inside : h.Inside following start r)
    (fits : piece.Fits r.contentBuffer.pptr)
    (next : piece.bytes =
      ((h.bytes following).drop r.contentBuffer.pptr).take piece.bytes.length)
    (short : r.contentBuffer.pptr + piece.bytes.length < h.length) :
    ∃ q, (appendPiece r piece).parseData = (.ok (), q) ∧ h.Inside following start q ∧
      q.contentBuffer.pptr = r.contentBuffer.pptr + piece.bytes.length := by
  obtain ⟨mid, before, after, scanned⟩ := scanLines_arrived_open inside.before inside.after
    h.proper short following piece.beyond
  have follows := (inside.parsing fits next).parseData_follows
  change Follows _ _ (scanLines takeLine r.fields
    ((appendPiece r piece).contentBuffer.storage.drop r.lastLineStart)) at follows
  rw [inside.drop_append next, inside.place, scanned] at follows
  obtain ⟨q, parsed, reached⟩ := follows
  have length := length_append inside.stored piece
  have pptr : q.contentBuffer.pptr = r.contentBuffer.pptr + piece.bytes.length := reached.pptr
  obtain ⟨place, text⟩ := reached.place length
  have rest : ((linesText (remaining h.lines (r.contentBuffer.pptr + piece.bytes.length))
      following).take (r.contentBuffer.pptr + piece.bytes.length - linesLength
        (completed h.lines (r.contentBuffer.pptr + piece.bytes.length)))).length =
      r.contentBuffer.pptr + piece.bytes.length - linesLength
        (completed h.lines (r.contentBuffer.pptr + piece.bytes.length)) := by
    have total := congrArg linesLength
      (completed_append_remaining h.lines (r.contentBuffer.pptr + piece.bytes.length))
    rw [linesLength_append] at total
    unfold Head.length at short
    rw [List.length_take, length_linesText]
    omega
  rw [rest] at place text
  have complete := linesLength_completed_le h.lines (r.contentBuffer.pptr + piece.bytes.length)
  have here : q.lastLineStart =
      linesLength (completed h.lines (r.contentBuffer.pptr + piece.bytes.length)) := by
    change _ = r.contentBuffer.pptr + piece.bytes.length at place
    omega
  refine ⟨q, parsed, ?_, pptr⟩
  constructor
  · rw [reached.gptr]
    exact inside.gptr
  · rw [reached.length, reached.pptr, length]
    omega
  · exact reached.noContent
  · rw [pptr]
    exact short
  · rw [pptr]
    exact here
  · rw [pptr, reached.fields]
    exact before
  · rw [pptr, reached.fields]
    exact after
  · rw [pptr, here]
    rw [here] at text
    exact text

/-- A piece that ends behind the header block. -/
theorem Inside.append_closed (inside : h.Inside following start r)
    (blank : start.announcement = {}) (fits : piece.Fits r.contentBuffer.pptr)
    (next : piece.bytes =
      ((h.bytes following).drop r.contentBuffer.pptr).take piece.bytes.length)
    (behind : h.length ≤ r.contentBuffer.pptr + piece.bytes.length) :
    ∃ q, (appendPiece r piece).parseData = (.ok (), q) ∧ h.Behind start q := by
  have parsing := inside.parsing fits next
  have follows := parsing.parseData_follows
  change Follows _ _ (scanLines takeLine r.fields
    ((appendPiece r piece).contentBuffer.storage.drop r.lastLineStart)) at follows
  rw [inside.drop_append next, inside.place, scanLines_arrived_closed inside.after h.proper behind]
    at follows
  obtain ⟨last, parsed, reached⟩ := follows
  have said := congrArg HttpResponse.announcement reached.fields
  rw [h.said_announcement blank] at said
  have plain : last.chunkedEnc = false := (congrArg (·.chunkedEnc) said).trans h.plain
  have announced : last.contentLengthExists = true :=
    (congrArg (·.contentLengthExists) said).trans h.announced
  have inBuffer : last.lastLineStart + 1 ≤ last.contentBuffer.size := by
    have before := reached.behind
    have bounded := parsing.ok.pptr
    rw [← reached.pptr, ← reached.size] at bounded
    omega
  rw [reached.startContent_eq inBuffer, if_neg (Bool.eq_false_iff.mp plain),
    if_neg (not_not.mpr announced)] at parsed
  refine ⟨_, parsed, ?_, ?_⟩
  · rw [← reached.fields]
    rfl
  · have all : (following.take (r.contentBuffer.pptr + piece.bytes.length -
        (linesLength h.lines + 2))).length =
        r.contentBuffer.pptr + piece.bytes.length - h.length := by
      have lengths := congrArg List.length next
      have short := inside.short
      unfold Head.length at *
      rw [List.length_take, List.length_drop, Head.bytes, length_linesText] at lengths
      rw [List.length_take]
      omega
    have text : (13 :: 10 :: (following.take (r.contentBuffer.pptr + piece.bytes.length -
        (linesLength h.lines + 2)) ++ 0 :: piece.beyond)) =
        (13 :: 10 :: following.take (r.contentBuffer.pptr + piece.bytes.length -
          (linesLength h.lines + 2))) ++ 0 :: piece.beyond := rfl
    rw [text] at reached
    obtain ⟨place, -⟩ := reached.place (length_append inside.stored piece)
    rw [List.length_cons, List.length_cons, all] at place
    change _ = r.contentBuffer.pptr + piece.bytes.length at place
    change last.lastLineStart + 2 = h.length
    omega

theorem feed_stopped (started : r.contentStart ≠ 0) (pieces : List Piece) :
    feed pieces r = (.ok (), r) := by
  cases pieces with
  | nil => rfl
  | cons piece pieces => exact if_neg started

/-- The pieces of a text bring the parser behind the header block. -/
theorem Inside.feed_behind (inside : h.Inside following start r)
    (blank : start.announcement = {}) {pieces : List Piece}
    (text : (pieces.map (·.bytes)).flatten = (h.bytes following).drop r.contentBuffer.pptr)
    (fits : FitBehind r.contentBuffer.pptr pieces) :
    ∃ q, feed pieces r = (.ok (), q) ∧ h.Behind start q := by
  induction pieces generalizing r with
  | nil =>
      have lengths := congrArg List.length text
      have short := inside.short
      unfold Head.length at short
      rw [List.length_drop, Head.bytes, length_linesText] at lengths
      simp only [List.map_nil, List.flatten_nil, List.length_nil] at lengths
      omega
  | cons piece pieces ih =>
      rw [List.map_cons, List.flatten_cons] at text
      have next : piece.bytes =
          ((h.bytes following).drop r.contentBuffer.pptr).take piece.bytes.length := by
        rw [← text, List.take_left]
      rw [feed, if_pos inside.noContent]
      by_cases short : r.contentBuffer.pptr + piece.bytes.length < h.length
      · obtain ⟨q, parsed, there, pptr⟩ := inside.append_open fits.1 next short
        rw [parsed]
        apply ih there
        · rw [pptr, ← List.drop_drop, ← text, List.drop_left]
        · rw [pptr]
          exact fits.2
      · obtain ⟨q, parsed, behind⟩ :=
          inside.append_closed blank fits.1 next (Nat.not_lt.mp short)
        rw [parsed]
        refine ⟨q, feed_stopped ?_ pieces, behind⟩
        rw [behind.place]
        exact Nat.succ_ne_zero _

/-! ## Pieces and the whole -/

/-- A new response when `read_data` starts to parse. -/
def begun (r : HttpResponse) : HttpResponse := { r with state := .readData }

theorem inside_begun (h : Head) (following : Bytes) (fresh : r.Fresh) :
    h.Inside following (Response.startFields r) (begun r) := by
  have empty : (begun r).contentBuffer.pptr = 0 := fresh.content.pptr
  have nothing : completed h.lines 0 = [] := rfl
  have everything : remaining h.lines 0 = h.lines := rfl
  constructor
  · exact fresh.content.gptr
  · rw [empty]
    exact Nat.zero_le _
  · exact fresh.contentStart
  · rw [empty]
    exact Nat.succ_pos _
  · rw [empty, nothing]
    exact fresh.lastLineStart
  · rw [empty, nothing]
    exact .nil _
  · rw [empty, everything]
    have first : (Response.startFields r).lineNumber = 0 := fresh.lineNumber
    exact h.accepted_said first (List.append_nil _)
  · rw [empty, Nat.zero_sub]
    rfl

/-- However a header block and the bytes that follow it are split, parsing after each
piece, until the content starts, returns normally every time and leaves what parsing the
whole text once leaves. -/
theorem feed_eq_parseData (h : Head) (following : Bytes) (fresh : r.Fresh)
    {pieces : List Piece} (text : (pieces.map (·.bytes)).flatten = h.bytes following)
    (fits : FitBehind 0 pieces) {whole : Piece} (all : whole.bytes = h.bytes following)
    (fitsWhole : whole.Fits 0) :
    ∃ last once, feed pieces (begun r) = (.ok (), last) ∧
      (appendPiece (begun r) whole).parseData = (.ok (), once) ∧ 0 < last.contentStart ∧
      last.status = once.status ∧ last.statusCode = once.statusCode ∧
      last.headers = once.headers ∧ last.contentLength = once.contentLength ∧
      last.lineNumber = once.lineNumber ∧ last.contentStart = once.contentStart := by
  have inside := h.inside_begun following fresh
  have blank := Response.announcement_startFields fresh
  have empty : (begun r).contentBuffer.pptr = 0 := fresh.content.pptr
  obtain ⟨last, fed, behind⟩ := inside.feed_behind blank (by rw [empty, List.drop_zero, text])
    (by rw [empty]; exact fits)
  obtain ⟨once, parsed, behindOnce⟩ := inside.append_closed blank (by rw [empty]; exact fitsWhole)
    (by rw [empty, List.drop_zero, all, List.take_length]) (by
      rw [empty, all, Head.bytes, length_linesText]
      unfold Head.length
      omega)
  have fields := behind.fields.trans behindOnce.fields.symm
  refine ⟨last, once, fed, parsed, ?_, ?_, ?_, ?_, ?_, ?_, ?_⟩
  · rw [behind.place]
    exact Nat.succ_pos _
  · exact congrArg (·.status) fields
  · exact congrArg (·.statusCode) fields
  · exact congrArg (·.headers) fields
  · exact congrArg (·.contentLength) fields
  · exact congrArg (·.lineNumber) fields
  · exact behind.place.trans behindOnce.place.symm

/-- A header block of two lines. -/
def plainHead : Head where
  statusLine := text "HTTP/1.1 404 No"
  headerLines := [text "Content-Length: 2"]
  proper := by
    intro line member
    simp only [List.mem_cons, List.not_mem_nil, or_false] at member
    rcases member with rfl | rfl
    · exact ⟨by decide, by decide, by decide, by decide⟩
    · exact ⟨by decide, by decide, by decide, by decide⟩
  version := by decide
  code := by decide
  headers := by decide
  announced := by decide
  plain := by decide

/-- The header block in four pieces, which end between a carriage return and its line
feed, behind a line feed, and inside the empty line. -/
def plainPieces : List Piece :=
  [⟨text "HTTP/1.1 404 No\r", [], 16⟩,
    ⟨text "\nContent-Length: 2\r\n", [7, 7], 37⟩,
    ⟨text "\r", [], 38⟩, ⟨text "\nok", [], 41⟩]

theorem fitBehind_plainPieces : FitBehind 0 plainPieces :=
  ⟨⟨by decide, by decide, by decide⟩, ⟨by decide, by decide, by decide⟩,
    ⟨by decide, by decide, by decide⟩, ⟨by decide, by decide, by decide⟩, trivial⟩

theorem feed_plainPieces :
    ∃ last once, feed plainPieces (begun {}) = (.ok (), last) ∧
      (appendPiece (begun {}) ⟨plainHead.bytes (text "ok"), [], 41⟩).parseData =
        (.ok (), once) ∧ 0 < last.contentStart ∧
      last.status = once.status ∧ last.statusCode = once.statusCode ∧
      last.headers = once.headers ∧ last.contentLength = once.contentLength ∧
      last.lineNumber = once.lineNumber ∧ last.contentStart = once.contentStart :=
  feed_eq_parseData plainHead (text "ok") fresh_default (by decide)
    fitBehind_plainPieces rfl ⟨by decide, by decide, by decide⟩

end Head

end LibTasks.Net

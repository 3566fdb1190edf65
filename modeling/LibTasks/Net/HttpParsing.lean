import LibTasks.Foundation.LineScan
import LibTasks.Net.HttpResponse

/-!
# Parsing in place

`parse_data` writes to the buffer that it parses, but never to what it has still
to read.  So it refines the scanner of lines over the memory from the start of the
current line on, with the fields of the response as the scanner's state.
-/

namespace LibTasks.Net

open LibTasks.Foundation LibTasks.Tools

theorem charAt_eq {b : Buffer} {pos : Nat} {c : UInt8} (inside : pos ≤ b.size)
    (stored : b.storage[pos]? = some c) : charAt b pos = .ok c := by
  simp [charAt, Buffer.ptr, inside, stored, bind, Except.bind]

/-- A C string in memory, which reading fails to find when it has no end. -/
def readCString (memory : Bytes) : Except Fault Bytes :=
  match cString memory with
  | some s => .ok s
  | none => .error .outOfBounds

theorem cStringAt_eq {b : Buffer} {pos : Nat} (inside : pos ≤ b.size) :
    cStringAt b pos = readCString (b.storage.drop pos) := by
  simp only [cStringAt, Buffer.ptr, inside, ↓reduceIte, bind, Except.bind]
  rfl

namespace HttpResponse

/-! ## What a line says -/

/-- The response without its places in the buffer. -/
def fields (r : HttpResponse) : HttpResponse :=
  { r with contentBuffer := {}, lastLineStart := 0, contentStart := 0 }

/-- The fields `h` with the places of `r` in a buffer of changed content. -/
def placed (h r : HttpResponse) (storage : Bytes) : HttpResponse :=
  { h with
    contentBuffer := { r.contentBuffer with storage }
    lastLineStart := r.lastLineStart
    contentStart := r.contentStart }

theorem placed_fields (r : HttpResponse) : r.fields.placed r r.contentBuffer.storage = r := rfl

@[simp] theorem fields_placed (h r : HttpResponse) (storage : Bytes) :
    (h.placed r storage).fields = h.fields := rfl

/-- The status text of a line in memory. -/
def statusOf (memory : Bytes) : Except Fault Bytes := do
  let version ← readCString (memory.drop 5)
  match findChar 32 version with
  | some space => .ok (version.drop (space + 1))
  | none => .error .nullPointer

/-- What a status line in memory says. -/
def takeStatus (h : HttpResponse) (memory : Bytes) : Except Failure HttpResponse :=
  match statusOf memory with
  | .error f => .error (.fault f)
  | .ok status => (h.setStatusText status).1.map fun _ => (h.setStatusText status).2

/-- What a header line in memory says. -/
def takeHeader (h : HttpResponse) (memory : Bytes) : Except Failure HttpResponse :=
  match readCString memory with
  | .error f => .error (.fault f)
  | .ok line =>
      match findChar 58 line with
      | none => .error (.exception (invalidHeader line))
      | some eq =>
          .ok (h.insertHeader (line.take eq) ((line.drop (eq + 1)).dropWhile (· = 32)))

/-- What the next line in memory says. -/
def takeLine (h : HttpResponse) (memory : Bytes) : Except Failure HttpResponse :=
  (if h.lineNumber = 0 then h.takeStatus memory else h.takeHeader memory).map fun h =>
    { h with lineNumber := h.lineNumber + 1 }

theorem insertHeader_placed (h r : HttpResponse) (storage name value : Bytes) :
    (h.placed r storage).insertHeader name value =
      (h.insertHeader name value).placed r storage := by
  by_cases known : name ∈ h.headers
  · simp only [insertHeader, placed, known, ↓reduceIte]
  · simp only [insertHeader, placed, known, ↓reduceIte]
    split
    · rfl
    · split <;> rfl

theorem setStatusText_placed (h r : HttpResponse) (storage status : Bytes) :
    (h.placed r storage).setStatusText status =
      ((h.setStatusText status).1, (h.setStatusText status).2.placed r storage) := by
  simp only [setStatusText, placed]
  split <;> rfl

theorem statusText_eq {r : HttpResponse} (inside : r.lastLineStart + 5 ≤ r.contentBuffer.size) :
    r.statusText = statusOf (r.contentBuffer.storage.drop r.lastLineStart) := by
  have version := cStringAt_eq inside
  rw [← List.drop_drop] at version
  exact congrArg (fun version : Except Fault Bytes => version >>= fun version =>
    match findChar 32 version with
    | some space => .ok (version.drop (space + 1))
    | none => .error .nullPointer) version

theorem parseStatus_eq {r : HttpResponse} (inside : r.lastLineStart + 5 ≤ r.contentBuffer.size) :
    match r.fields.takeStatus (r.contentBuffer.storage.drop r.lastLineStart) with
    | .error e => r.parseStatus.1 = .error e
    | .ok h => r.parseStatus = (.ok (), h.placed r r.contentBuffer.storage) := by
  rw [parseStatus, statusText_eq inside, takeStatus]
  cases statusOf (r.contentBuffer.storage.drop r.lastLineStart) with
  | error f => rfl
  | ok status =>
      have said := setStatusText_placed r.fields r r.contentBuffer.storage status
      rw [placed_fields] at said
      dsimp only
      rw [said]
      cases (r.fields.setStatusText status).1 <;> rfl

theorem cutAt_eq (r : HttpResponse) (pos : Nat) :
    r.cutAt pos = r.fields.placed r (r.contentBuffer.storage.set pos 0) := rfl

theorem parseHeader_eq {r : HttpResponse} (inside : r.lastLineStart ≤ r.contentBuffer.size)
    {line : Bytes} (found : cString (r.contentBuffer.storage.drop r.lastLineStart) = some line) :
    match r.fields.takeHeader (r.contentBuffer.storage.drop r.lastLineStart) with
    | .error e => r.parseHeader.1 = .error e
    | .ok h => ∃ eq < line.length, r.parseHeader =
        (.ok (), h.placed r (r.contentBuffer.storage.set (r.lastLineStart + eq) 0)) := by
  have text : readCString (r.contentBuffer.storage.drop r.lastLineStart) = .ok line := by
    simp only [readCString, found]
  rw [parseHeader, cStringAt_eq inside, takeHeader, text]
  dsimp only
  cases colon : findChar 58 line with
  | none => rfl
  | some eq =>
      refine ⟨eq, ?_, ?_⟩
      · exact (List.findIdx?_eq_some_iff_getElem.mp colon).1
      · dsimp only
        rw [cutAt_eq, insertHeader_placed]

theorem exists_of_fst_eq {α β : Type} {p : α × β} {a : α} (first : p.1 = a) : ∃ b, p = (a, b) :=
  ⟨p.2, by rw [← first]⟩

/-- `parse_line` does what the line in memory says, and writes only to the line. -/
theorem parseLine_eq {r : HttpResponse} (inside : r.lastLineStart ≤ r.contentBuffer.size)
    (version : r.lineNumber = 0 → r.lastLineStart + 5 ≤ r.contentBuffer.size) {line : Bytes}
    (found : cString (r.contentBuffer.storage.drop r.lastLineStart) = some line) :
    match r.fields.takeLine (r.contentBuffer.storage.drop r.lastLineStart) with
    | .error e => r.parseLine.1 = .error e
    | .ok h => ∃ storage, r.parseLine = (.ok (), h.placed r storage) ∧
        storage.length = r.contentBuffer.storage.length ∧
        ∀ pos, r.lastLineStart + line.length ≤ pos →
          storage.drop pos = r.contentBuffer.storage.drop pos := by
  unfold parseLine takeLine
  by_cases first : r.lineNumber = 0
  · have said := parseStatus_eq (version first)
    rw [if_pos first, if_pos (show r.fields.lineNumber = 0 from first)]
    cases taken : r.fields.takeStatus (r.contentBuffer.storage.drop r.lastLineStart) with
    | error e =>
        rw [taken] at said
        obtain ⟨q, refused⟩ := exists_of_fst_eq said
        simp only [refused, Except.map]
    | ok h =>
        rw [taken] at said
        exact ⟨r.contentBuffer.storage, by simp only [said]; rfl, rfl, fun _ _ => rfl⟩
  · have said := parseHeader_eq inside found
    rw [if_neg first, if_neg (show r.fields.lineNumber ≠ 0 from first)]
    cases taken : r.fields.takeHeader (r.contentBuffer.storage.drop r.lastLineStart) with
    | error e =>
        rw [taken] at said
        obtain ⟨q, refused⟩ := exists_of_fst_eq said
        simp only [refused, Except.map]
    | ok h =>
        rw [taken] at said
        obtain ⟨eq, before, parsed⟩ := said
        refine ⟨_, by simp only [parsed]; rfl, List.length_set, fun pos behind => ?_⟩
        exact List.drop_set_of_lt (by omega)

@[simp] theorem insertHeader_state (h : HttpResponse) (name value : Bytes) :
    (h.insertHeader name value).state = h.state := by
  unfold insertHeader
  dsimp only
  split_ifs <;> rfl

@[simp] theorem insertHeader_lineNumber (h : HttpResponse) (name value : Bytes) :
    (h.insertHeader name value).lineNumber = h.lineNumber := by
  unfold insertHeader
  dsimp only
  split_ifs <;> rfl

theorem fields_insertHeader (h : HttpResponse) (name value : Bytes) :
    (h.insertHeader name value).fields = h.fields.insertHeader name value :=
  (insertHeader_placed h {} [] name value).symm

/-- A status line sets only the status. -/
theorem takeStatus_keeps {h next : HttpResponse} {memory : Bytes}
    (taken : h.takeStatus memory = .ok next) :
    next.state = h.state ∧ next.lineNumber = h.lineNumber ∧
      (h.fields = h → next.fields = next) := by
  unfold takeStatus at taken
  split at taken
  · cases taken
  · unfold setStatusText at taken
    dsimp only at taken
    split at taken
    · cases taken
    · cases taken
      refine ⟨rfl, rfl, fun placeless => ?_⟩
      conv => rhs; rw [← placeless]
      rfl

theorem takeHeader_keeps {h next : HttpResponse} {memory : Bytes}
    (taken : h.takeHeader memory = .ok next) :
    next.state = h.state ∧ next.lineNumber = h.lineNumber ∧
      (h.fields = h → next.fields = next) := by
  unfold takeHeader at taken
  split at taken
  · cases taken
  · split at taken
    · cases taken
    · cases taken
      refine ⟨insertHeader_state .., insertHeader_lineNumber .., fun placeless => ?_⟩
      rw [fields_insertHeader, placeless]

/-- A line leaves the state and the places alone and is counted. -/
theorem takeLine_keeps {h next : HttpResponse} {memory : Bytes}
    (taken : h.takeLine memory = .ok next) :
    next.state = h.state ∧ next.lineNumber = h.lineNumber + 1 ∧
      (h.fields = h → next.fields = next) := by
  unfold takeLine at taken
  cases said : if h.lineNumber = 0 then h.takeStatus memory else h.takeHeader memory with
  | error e => simp [said, Except.map] at taken
  | ok mid =>
      have kept : mid.state = h.state ∧ mid.lineNumber = h.lineNumber ∧
          (h.fields = h → mid.fields = mid) := by
        split at said
        · exact takeStatus_keeps said
        · exact takeHeader_keeps said
      simp only [said, Except.map, Except.ok.injEq] at taken
      subst taken
      refine ⟨kept.1, congrArg (· + 1) kept.2.1, fun placeless => ?_⟩
      show { mid.fields with lineNumber := mid.lineNumber + 1 } = _
      rw [kept.2.2 placeless]

/-- No line makes the parser run forever. -/
theorem takeLine_ne_diverges (h : HttpResponse) (memory : Bytes) :
    h.takeLine memory ≠ .error (.fault .diverges) := by
  have string (memory : Bytes) : readCString memory ≠ .error .diverges := by
    unfold readCString
    split <;> simp
  have status : h.takeStatus memory ≠ .error (.fault .diverges) := by
    unfold takeStatus setStatusText
    cases found : statusOf memory with
    | error f =>
        intro same
        cases same
        unfold statusOf at found
        cases version : readCString (memory.drop 5) with
        | error f =>
            rw [version] at found
            cases found
            exact string _ version
        | ok version =>
            simp only [version, bind, Except.bind] at found
            split at found <;> cases found
    | ok status =>
        dsimp only
        split <;> simp [Except.map]
  have header : h.takeHeader memory ≠ .error (.fault .diverges) := by
    unfold takeHeader
    split
    · next f failed =>
        intro same
        cases same
        exact string memory failed
    · split <;> simp
  unfold takeLine
  split
  · cases said : h.takeStatus memory with
    | error e => simpa [Except.map, said] using status
    | ok next => simp [Except.map]
  · cases said : h.takeHeader memory with
    | error e => simpa [Except.map, said] using header
    | ok next => simp [Except.map]

/-- The response `q` is `r` after parsing up to the line where `memory` starts, with
the fields `h`. -/
structure Reached (r h : HttpResponse) (memory : Bytes) (q : HttpResponse) : Prop where
  fields : q.fields = h
  size : q.contentBuffer.size = r.contentBuffer.size
  gptr : q.contentBuffer.gptr = r.contentBuffer.gptr
  pptr : q.contentBuffer.pptr = r.contentBuffer.pptr
  length : q.contentBuffer.storage.length = r.contentBuffer.storage.length
  ended : q.contentBuffer.storage[q.contentBuffer.pptr]? = some 0
  state : q.state = r.state
  later : r.lastLineStart ≤ q.lastLineStart
  start : q.lastLineStart ≤ q.contentBuffer.pptr
  memory : q.contentBuffer.storage.drop q.lastLineStart = memory
  noContent : q.contentStart = 0

/-- A response whose received text ends with a zero byte. -/
structure Parsing (r : HttpResponse) : Prop where
  ok : r.contentBuffer.Ok
  ended : r.contentBuffer.storage[r.contentBuffer.pptr]? = some 0
  start : r.lastLineStart ≤ r.contentBuffer.pptr
  /-- A status line is looked at from its sixth character on. -/
  version : r.lineNumber = 0 → r.lastLineStart + 6 ≤ r.contentBuffer.size ∨
    findCrlf ((skipLf (r.contentBuffer.storage.drop r.lastLineStart)).takeWhile (· ≠ 0)) = none
  noContent : r.contentStart = 0

/-! ## The loop -/

variable {r : HttpResponse}

theorem Parsing.getElem?_drop (parsing : r.Parsing) {pos : Nat}
    (before : pos ≤ r.contentBuffer.pptr) :
    (r.contentBuffer.storage.drop pos)[r.contentBuffer.pptr - pos]? = some 0 := by
  rw [List.getElem?_drop, Nat.add_sub_cancel' before, parsing.ended]

theorem readCString_of_mem {memory : Bytes} (ends : 0 ∈ memory) :
    readCString memory = .ok (memory.takeWhile (· ≠ 0)) := by
  simp only [readCString, cString, if_pos ends]

/-- The start of the next line, and its end in the text from there on. -/
theorem Parsing.findLine_eq (parsing : r.Parsing) :
    ∃ start, r.findLine = .ok (start, findCrlf
        ((skipLf (r.contentBuffer.storage.drop r.lastLineStart)).takeWhile (· ≠ 0))) ∧
      r.lastLineStart ≤ start ∧ start ≤ r.lastLineStart + 1 ∧ start ≤ r.contentBuffer.pptr ∧
      r.contentBuffer.storage.drop start =
        skipLf (r.contentBuffer.storage.drop r.lastLineStart) := by
  have bounded := parsing.ok.pptr
  have before := parsing.start
  have inside : r.lastLineStart < r.contentBuffer.storage.length :=
    Nat.lt_of_le_of_lt before (List.getElem?_eq_some_iff.mp parsing.ended).1
  obtain ⟨first, stored⟩ : ∃ first, r.contentBuffer.storage[r.lastLineStart]? = some first :=
    ⟨_, List.getElem?_eq_getElem inside⟩
  let start := if first = 10 then r.lastLineStart + 1 else r.lastLineStart
  have skipped : start ≤ r.contentBuffer.pptr ∧ r.contentBuffer.storage.drop start =
      skipLf (r.contentBuffer.storage.drop r.lastLineStart) := by
    unfold start skipLf
    simp only [List.head?_drop, stored, Option.some.injEq]
    split
    · next lineFeed =>
        have other : r.lastLineStart ≠ r.contentBuffer.pptr := by
          intro same
          rw [same, parsing.ended, lineFeed] at stored
          cases stored
        exact ⟨by omega, List.tail_drop.symm⟩
    · exact ⟨before, rfl⟩
  have range : r.lastLineStart ≤ start ∧ start ≤ r.lastLineStart + 1 := by
    unfold start
    split <;> omega
  refine ⟨start, ?_, range.1, range.2, skipped⟩
  have text := readCString_of_mem (List.mem_of_getElem? (parsing.getElem?_drop skipped.1))
  rw [← skipped.2, findLine, charAt_eq (Nat.le_trans before bounded) stored]
  simp only [bind, Except.bind]
  rw [cStringAt_eq (Nat.le_trans skipped.1 bounded), text]

/-- The header block does not end at the start of the buffer. -/
theorem contentStart_of_startContent {q : HttpResponse} (started : r.startContent = (.ok (), q)) :
    q.contentStart ≠ 0 := by
  unfold startContent at started
  dsimp only at started
  split at started
  · cases started
  · split at started
    · cases started
    · split at started
      · cases started
      · cases started
        dsimp only
        split <;> omega

/-- The last iteration, at the end of the header block. -/
theorem parseLoop_blank {start : Nat} (line : r.findLine = .ok (start, some 0)) (fuel : Nat) :
    parseLoop (fuel + 1) r = startContent { r with lastLineStart := start } := by
  simp only [parseLoop, line]
  split
  · next e q refused => exact refused.symm
  · next q started =>
      rw [if_neg (contentStart_of_startContent started)]
      exact started.symm

/-- The last iteration, at an incomplete line. -/
theorem parseLoop_none {start : Nat} (line : r.findLine = .ok (start, none)) (fuel : Nat) :
    parseLoop (fuel + 1) r = (.ok (), { r with lastLineStart := start }) := by
  simp only [parseLoop, line]

theorem parseLoop_error {start len : Nat} (line : r.findLine = .ok (start, some (len + 1)))
    {e : Failure}
    (refused : (parseLine (cutAt { r with lastLineStart := start } (start + (len + 1)))).1 =
      .error e) (fuel : Nat) : (parseLoop (fuel + 1) r).1 = .error e := by
  obtain ⟨q, refused⟩ := exists_of_fst_eq refused
  simp only [parseLoop, line, refused]

/-- An iteration that parses a line. -/
theorem parseLoop_ok {start len : Nat} (line : r.findLine = .ok (start, some (len + 1)))
    {q : HttpResponse}
    (parsed : parseLine (cutAt { r with lastLineStart := start } (start + (len + 1))) = (.ok (), q))
    (noContent : q.contentStart = 0) (fuel : Nat) :
    parseLoop (fuel + 1) r =
      parseLoop fuel { q with lastLineStart := q.lastLineStart + (len + 1) + 1 } := by
  simp only [parseLoop, line, parsed, noContent, ↓reduceIte]

theorem Reached.trans {h next other q : HttpResponse} {memory rest : Bytes}
    (first : Reached r h memory next) (second : Reached next other rest q) :
    Reached r other rest q where
  fields := second.fields
  size := second.size.trans first.size
  gptr := second.gptr.trans first.gptr
  pptr := second.pptr.trans first.pptr
  length := second.length.trans first.length
  ended := second.ended
  state := second.state.trans first.state
  later := Nat.le_trans first.later second.later
  start := second.start
  memory := second.memory
  noContent := second.noContent

/-- The sixth character of a status line is in the buffer. -/
theorem Parsing.version_inside (parsing : r.Parsing) {start len : Nat}
    (near : start ≤ r.lastLineStart + 1)
    (memory : r.contentBuffer.storage.drop start =
      skipLf (r.contentBuffer.storage.drop r.lastLineStart))
    (found : findCrlf ((r.contentBuffer.storage.drop start).takeWhile (· ≠ 0)) = some len)
    (first : r.lineNumber = 0) : start + 5 ≤ r.contentBuffer.size := by
  cases parsing.version first with
  | inl inside => omega
  | inr nothing =>
      rw [memory] at found
      cases nothing.symm.trans found

/-- Parsing a line leaves a response that can be parsed on from the next one. -/
theorem Parsing.parseLine_next (parsing : r.Parsing) {start len : Nat}
    (later : r.lastLineStart ≤ start) (near : start ≤ r.lastLineStart + 1)
    (before : start ≤ r.contentBuffer.pptr)
    (version : r.lineNumber = 0 → start + 5 ≤ r.contentBuffer.size)
    (found : findCrlf ((r.contentBuffer.storage.drop start).takeWhile (· ≠ 0)) = some len) :
    match r.fields.takeLine ((r.contentBuffer.storage.drop start).set len 0) with
    | .error e => (parseLine (cutAt { r with lastLineStart := start } (start + len))).1 = .error e
    | .ok h => ∃ q, parseLine (cutAt { r with lastLineStart := start } (start + len)) =
          (.ok (), q) ∧ q.contentStart = 0 ∧
        ∃ next, { q with lastLineStart := q.lastLineStart + len + 1 } = next ∧ next.Parsing ∧
          Reached r h (r.contentBuffer.storage.drop (start + len + 1)) next := by
  let cut := cutAt { r with lastLineStart := start } (start + len)
  obtain ⟨⟨line, length, text⟩, stops⟩ := cString_of_findCrlf found
  have stop := stops _ (parsing.getElem?_drop before)
  have memory : cut.contentBuffer.storage.drop cut.lastLineStart =
      (r.contentBuffer.storage.drop start).set len 0 := by
    show (r.contentBuffer.storage.set (start + len) 0).drop start = _
    rw [List.drop_set, if_neg (by omega), Nat.add_sub_cancel_left]
  have bounded := parsing.ok.pptr
  have said := parseLine_eq (show cut.lastLineStart ≤ cut.contentBuffer.size by
      show start ≤ r.contentBuffer.size
      omega)
    version (memory ▸ text)
  rw [memory, show cut.fields = r.fields from rfl] at said
  cases taken : r.fields.takeLine ((r.contentBuffer.storage.drop start).set len 0) with
  | error e =>
      rw [taken] at said
      exact said
  | ok h =>
      rw [taken] at said
      obtain ⟨storage, parsed, same, untouched⟩ := said
      obtain ⟨kept, counted, placeless⟩ := takeLine_keeps taken
      have rest : storage.drop (start + len + 1) =
          r.contentBuffer.storage.drop (start + len + 1) := by
        rw [untouched _ (by show start + line.length ≤ _; omega)]
        exact List.drop_set_of_lt (by omega)
      have sameLength := same.trans List.length_set
      have behind : start + len + 1 ≤ r.contentBuffer.pptr := by omega
      have ended : storage[r.contentBuffer.pptr]? = some 0 := by
        have stored := parsing.getElem?_drop behind
        rwa [← rest, List.getElem?_drop, Nat.add_sub_cancel' behind] at stored
      refine ⟨h.placed cut storage, parsed, parsing.noContent, _, rfl, ?_, ?_⟩
      · have ok := parsing.ok
        exact {
          ok := ⟨ok.gptr, ok.pptr, Nat.le_trans ok.size (Nat.le_of_eq sameLength.symm),
            Nat.le_trans (Nat.le_of_eq sameLength) ok.capacity⟩
          ended := ended
          start := behind
          version := fun first => absurd (counted.symm.trans first) (Nat.succ_ne_zero _)
          noContent := parsing.noContent }
      · exact {
          fields := placeless rfl
          size := rfl
          gptr := rfl
          pptr := rfl
          length := sameLength
          ended := ended
          state := kept
          later := show r.lastLineStart ≤ start + len + 1 by omega
          start := behind
          memory := rest
          noContent := parsing.noContent }

/-- What the result of a scan says about a run of the parser. -/
def Follows (r : HttpResponse) (run : Except Failure Unit × HttpResponse) :
    Scan HttpResponse Failure → Prop
  | .failed e => run.1 = .error e
  | .more h memory => ∃ q, run = (.ok (), q) ∧ Reached r h memory q
  | .blank h memory => ∃ q, run = q.startContent ∧ Reached r h memory q

theorem Reached.follows {h next : HttpResponse} {memory : Bytes} (reached : Reached r h memory next)
    {run : Except Failure Unit × HttpResponse} {scan : Scan HttpResponse Failure}
    (follows : Follows next run scan) : Follows r run scan := by
  cases scan with
  | failed e => exact follows
  | more other rest =>
      obtain ⟨q, result, there⟩ := follows
      exact ⟨q, result, reached.trans there⟩
  | blank other rest =>
      obtain ⟨q, result, there⟩ := follows
      exact ⟨q, result, reached.trans there⟩

/-- `parse_data` refines the scanner, and its loop ends. -/
theorem Parsing.parseLoop_follows (parsing : r.Parsing) {fuel : Nat}
    (enough : r.contentBuffer.storage.length - r.lastLineStart < fuel) :
    Follows r (parseLoop fuel r)
      (scanLines takeLine r.fields (r.contentBuffer.storage.drop r.lastLineStart)) := by
  induction fuel generalizing r with
  | zero => omega
  | succ fuel ih =>
      obtain ⟨start, line, later, near, before, memory⟩ := parsing.findLine_eq
      let moved : HttpResponse := { r with lastLineStart := start }
      have reached : Reached r r.fields (r.contentBuffer.storage.drop start) moved :=
        ⟨rfl, rfl, rfl, rfl, rfl, parsing.ended, rfl, later, before, rfl, parsing.noContent⟩
      cases found : findCrlf
          ((skipLf (r.contentBuffer.storage.drop r.lastLineStart)).takeWhile (· ≠ 0)) with
      | none =>
          rw [found] at line
          rw [scanLines_of_none found, parseLoop_none line, ← memory]
          exact ⟨moved, rfl, reached⟩
      | some len =>
          rw [found] at line
          cases len with
          | zero =>
              rw [scanLines_of_zero found, parseLoop_blank line, ← memory]
              exact ⟨moved, rfl, reached⟩
          | succ len =>
              have there : findCrlf ((r.contentBuffer.storage.drop start).takeWhile (· ≠ 0)) =
                  some (len + 1) := memory ▸ found
              have next := parsing.parseLine_next later near before
                (parsing.version_inside near memory there) there
              rw [memory] at next
              cases taken : r.fields.takeLine
                  ((skipLf (r.contentBuffer.storage.drop r.lastLineStart)).set (len + 1) 0) with
              | error e =>
                  rw [taken] at next
                  rw [scanLines_of_error found taken]
                  exact parseLoop_error line next fuel
              | ok h =>
                  rw [taken] at next
                  obtain ⟨q, parsed, noContent, after, moves, again, there⟩ := next
                  have lengths := congrArg List.length there.memory
                  have inside := (List.getElem?_eq_some_iff.mp parsing.ended).1
                  simp only [List.length_drop] at lengths
                  have rest := there.follows (ih again (by omega))
                  rw [there.fields, there.memory, Nat.add_assoc, ← List.drop_drop, memory] at rest
                  rw [scanLines_of_ok found taken, parseLoop_ok line parsed noContent fuel, moves]
                  exact rest

/-- What `parse_data` does with the text that was received. -/
theorem Parsing.parseData_follows (parsing : r.Parsing) :
    Follows r r.parseData
      (scanLines takeLine r.fields (r.contentBuffer.storage.drop r.lastLineStart)) :=
  parsing.parseLoop_follows (Nat.lt_succ_self _)

/-- The place of the parser, from the text that it has still to read: this ends with
the zero byte at the end of what was received. -/
theorem Reached.place {h q : HttpResponse} {front beyond : Bytes}
    (reached : Reached r h (front ++ 0 :: beyond) q)
    (length : r.contentBuffer.storage.length = r.contentBuffer.pptr + 1 + beyond.length) :
    q.lastLineStart + front.length = r.contentBuffer.pptr ∧
      slice q.contentBuffer.storage q.lastLineStart front.length = front := by
  have before := reached.start
  rw [reached.pptr] at before
  constructor
  · have lengths := congrArg List.length reached.memory
    rw [List.length_drop, List.length_append, List.length_cons, reached.length, length] at lengths
    omega
  · rw [slice, reached.memory, List.take_left]

/-- The content starts behind the empty line. -/
theorem Reached.startContent_eq {h q : HttpResponse} {memory : Bytes}
    (reached : Reached r h (13 :: 10 :: memory) q)
    (inside : q.lastLineStart + 1 ≤ q.contentBuffer.size) :
    q.startContent =
      if q.chunkedEnc then
        (.error (.exception chunkedNotImplemented), q)
      else if ¬q.contentLengthExists then
        (.error (.exception contentLengthMissing), q)
      else
        (.ok (), { q with contentStart := q.lastLineStart + 2, state := .readContent }) := by
  have lineFeed : q.contentBuffer.storage[q.lastLineStart + 1]? = some 10 := by
    rw [← List.getElem?_drop, reached.memory]
    rfl
  have stored := charAt_eq inside lineFeed
  simp only [startContent, stored, ↓reduceIte]

end HttpResponse

end LibTasks.Net

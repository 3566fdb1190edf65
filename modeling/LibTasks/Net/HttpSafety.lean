import LibTasks.Net.HttpFraming

/-!
# Safety of the response parser

How a call of `read_data` can end for arbitrary bytes in arbitrary pieces, and which
bytes `parse_status` and `parse_header` inspect.

`parse_header` stays inside its line.  `parse_status` skips five bytes without a look
at the length of the line, and uses what `strchr` returns without a check.  So a run is
safe exactly when every status line has a space behind its first five characters, and
the buffer can always be made large enough for the next read.
-/

namespace LibTasks.Net

open LibTasks.Foundation LibTasks.Tools

namespace HttpResponse

/-! ## What `parse_line` inspects -/

/-- `strchr` for the string at `pos`, as a place in memory. -/
def strchr (c : UInt8) (memory : Bytes) (pos : Nat) : Option Nat :=
  (findChar c ((memory.drop pos).takeWhile (· ≠ 0))).map (pos + ·)

/-- The places that `strchr` inspects. -/
def strchrPlaces (c : UInt8) (memory : Bytes) (pos : Nat) : List Nat :=
  inspected (fun other => other = c || other = 0) memory pos

/-- The places that are inspected when the string at `pos` is copied. -/
def stringPlaces (memory : Bytes) (pos : Nat) : List Nat :=
  inspected (· = 0) memory pos

/-- The space that `parse_status` searches for. -/
def statusSpace (r : HttpResponse) : Option Nat :=
  strchr 32 r.contentBuffer.storage (r.lastLineStart + 5)

/-- The places that `parse_status` inspects.  `atoi` reads no more than the status
text. -/
def statusPlaces (r : HttpResponse) : List Nat :=
  strchrPlaces 32 r.contentBuffer.storage (r.lastLineStart + 5) ++
    match r.statusSpace with
    | some space => stringPlaces r.contentBuffer.storage (space + 1)
    | none => []

/-- The places that `parse_header` inspects: for the text of the exception, or for the
name, the spaces in front of the value, and the value. -/
def headerPlaces (r : HttpResponse) : List Nat :=
  let memory := r.contentBuffer.storage
  strchrPlaces 58 memory r.lastLineStart ++
    match strchr 58 memory r.lastLineStart with
    | none => stringPlaces memory r.lastLineStart
    | some eq =>
        let memory := memory.set eq 0
        let value := eq + 1 + (memory.drop (eq + 1)).findIdx (· ≠ 32)
        inspected (· ≠ 32) memory (eq + 1) ++ stringPlaces memory r.lastLineStart ++
          stringPlaces memory value

/-- The places that `parse_line` inspects. -/
def linePlaces (r : HttpResponse) : List Nat :=
  if r.lineNumber = 0 then r.statusPlaces else r.headerPlaces

/-- The current line, up to its terminating zero byte. -/
def currentLine (r : HttpResponse) : Bytes :=
  (r.contentBuffer.storage.drop r.lastLineStart).takeWhile (· ≠ 0)

/-- A call of `parse_line` uses no null pointer and inspects only its line. -/
structure SafeLine (r : HttpResponse) : Prop where
  found : r.lineNumber = 0 → r.statusSpace.isSome
  inside : ∀ place ∈ r.linePlaces,
    r.lastLineStart ≤ place ∧ place ≤ r.lastLineStart + r.currentLine.length

variable {r : HttpResponse}

/-- The current line ends with a zero byte. -/
def Terminated (r : HttpResponse) : Prop := 0 ∈ r.contentBuffer.storage.drop r.lastLineStart

theorem Terminated.cString_eq (terminated : r.Terminated) :
    cString (r.contentBuffer.storage.drop r.lastLineStart) = some r.currentLine :=
  if_pos terminated

theorem Terminated.getElem?_end (terminated : r.Terminated) :
    r.contentBuffer.storage[r.lastLineStart + r.currentLine.length]? = some 0 := by
  obtain ⟨_, rest, memory⟩ := exists_of_cString terminated.cString_eq
  rw [← List.getElem?_drop, memory, List.getElem?_append_right (Nat.le_refl _), Nat.sub_self]
  rfl

theorem findChar_isSome {c : UInt8} {s : Bytes} : (findChar c s).isSome ↔ c ∈ s := by
  rw [findChar, List.findIdx?_isSome]
  simp

/-- Behind its first characters the line is the string that `strchr` gets. -/
theorem Terminated.takeWhile_drop (terminated : r.Terminated) {count : Nat}
    (inside : count ≤ r.currentLine.length) :
    (r.contentBuffer.storage.drop (r.lastLineStart + count)).takeWhile (· ≠ 0) =
      r.currentLine.drop count := by
  obtain ⟨noNul, rest, memory⟩ := exists_of_cString terminated.cString_eq
  have later : 0 ∉ r.currentLine.drop count := fun member => noNul (List.mem_of_mem_drop member)
  rw [← List.drop_drop, memory, List.drop_append_of_le_length inside, takeWhile_nul later]
  simp

/-- What `strchr` finds is in the line. -/
theorem Terminated.strchr_inside (terminated : r.Terminated) {c : UInt8} {count place : Nat}
    (inside : count ≤ r.currentLine.length)
    (found : strchr c r.contentBuffer.storage (r.lastLineStart + count) = some place) :
    r.lastLineStart + count ≤ place ∧ place < r.lastLineStart + r.currentLine.length := by
  rw [strchr, terminated.takeWhile_drop inside] at found
  obtain ⟨offset, there, rfl⟩ := Option.map_eq_some_iff.mp found
  have before := (List.findIdx?_eq_some_iff_getElem.mp there).1
  rw [List.length_drop] at before
  omega

/-- `parse_status` inspects only its line, if this has five characters. -/
theorem Terminated.statusPlaces_inside (terminated : r.Terminated)
    (long : 5 ≤ r.currentLine.length) :
    ∀ place ∈ r.statusPlaces,
      r.lastLineStart ≤ place ∧ place ≤ r.lastLineStart + r.currentLine.length := by
  have stop := terminated.getElem?_end
  intro place member
  rcases List.mem_append.mp member with searched | copied
  · have range := inspected_inside (by omega) stop (by simp) place searched
    omega
  · cases found : r.statusSpace with
    | none =>
        rw [found] at copied
        cases copied
    | some space =>
        rw [found] at copied
        have before := terminated.strchr_inside long found
        have range := inspected_inside (by omega) stop (by simp) place copied
        omega

/-- `parse_header` inspects only its line. -/
theorem Terminated.headerPlaces_inside (terminated : r.Terminated) :
    ∀ place ∈ r.headerPlaces,
      r.lastLineStart ≤ place ∧ place ≤ r.lastLineStart + r.currentLine.length := by
  have stop := terminated.getElem?_end
  have start := Nat.le_add_right r.lastLineStart r.currentLine.length
  intro place member
  unfold headerPlaces at member
  rcases List.mem_append.mp member with searched | copied
  · exact inspected_inside start stop (by simp) place searched
  · cases found : strchr 58 r.contentBuffer.storage r.lastLineStart with
    | none =>
        rw [found] at copied
        exact inspected_inside start stop (by simp) place copied
    | some eq =>
        rw [found] at copied
        obtain ⟨behind, before⟩ := terminated.strchr_inside (Nat.zero_le _) found
        -- The zero byte over the colon leaves that at the end of the line.
        have stop : (r.contentBuffer.storage.set eq 0)[
            r.lastLineStart + r.currentLine.length]? = some 0 := by
          rw [List.getElem?_set_ne (by omega), stop]
        have spaces : ∀ place ∈ inspected (· ≠ 32) (r.contentBuffer.storage.set eq 0) (eq + 1),
            eq + 1 ≤ place ∧ place ≤ r.lastLineStart + r.currentLine.length :=
          inspected_inside before stop (by simp)
        rcases List.mem_append.mp copied with skipped | value
        · rcases List.mem_append.mp skipped with space | name
          · have range := spaces place space
            omega
          · exact inspected_inside start stop (by simp) place name
        · have first := spaces (eq + 1 + _)
            (List.mem_range'_1.mpr ⟨Nat.le_add_right _ _, Nat.lt_succ_self _⟩)
          have range := inspected_inside first.2 stop (by simp) place value
          omega

/-- A call of `parse_line` is safe unless it is for a status line without a space
behind the first five characters. -/
theorem Terminated.safeLine_iff (terminated : r.Terminated) :
    r.SafeLine ↔ (r.lineNumber = 0 → 32 ∈ r.currentLine.drop 5) := by
  constructor
  · intro safe first
    have places := safe.inside
    rw [linePlaces, if_pos first] at places
    have inside := (places _ (List.mem_append_left _ (self_mem_inspected _ _ _))).2
    have found := safe.found first
    rw [statusSpace, strchr, Option.isSome_map, findChar_isSome,
      terminated.takeWhile_drop (by omega)] at found
    exact found
  · intro spaced
    constructor
    · intro first
      rw [statusSpace, strchr, Option.isSome_map, findChar_isSome,
        terminated.takeWhile_drop (le_length_of_mem_drop (spaced first))]
      exact spaced first
    · rw [linePlaces]
      split
      · next first =>
          exact terminated.statusPlaces_inside (le_length_of_mem_drop (spaced first))
      · exact terminated.headerPlaces_inside

/-! ## The calls of `parse_line` -/

/-- The response with which `parse_line` is called, each time in the loop of
`parse_data`.  The loop ends at an empty line. -/
def lineCalls : Nat → HttpResponse → List HttpResponse
  | 0, _ => []
  | fuel + 1, r =>
      match r.findLine with
      | .ok (start, some (len + 1)) =>
          let call := cutAt { r with lastLineStart := start } (start + (len + 1))
          call :: match call.parseLine with
            | (.error _, _) => []
            | (.ok (), r) =>
                let r := { r with lastLineStart := r.lastLineStart + (len + 1) + 1 }
                if r.contentStart = 0 then lineCalls fuel r else []
      | _ => []

/-- The response with which `parse_data` is called in the iteration that starts with
`r` and `sock`, if it is. -/
def parseCall (r : HttpResponse) (sock : Socket) : Option HttpResponse :=
  match makeRoom r.contentBuffer with
  | .error _ => none
  | .ok b =>
      let o := fillFrom b (toSize (b.toWrite - 1)) sock
      match o.result with
      | .ok (some _) =>
          if r.state = .readData then
            match o.object.store o.object.pptr [0] with
            | .error _ => none
            | .ok contentBuffer => some { r with contentBuffer }
          else
            none
      | _ => none

/-- The response with which `parse_line` is called, each time in the iteration. -/
def iterationCalls (r : HttpResponse) (sock : Socket) : List HttpResponse :=
  match r.parseCall sock with
  | none => []
  | some r => lineCalls (r.contentBuffer.bufferSize - r.lastLineStart + 1) r

/-- The line that the next call of `parse_line` gets. -/
def nextLine (memory : Bytes) : Option Bytes :=
  match findCrlf ((skipLf memory).takeWhile (· ≠ 0)) with
  | some (len + 1) => some ((skipLf memory).take (len + 1))
  | _ => none

theorem nextLine_eq_some {memory line : Bytes} :
    nextLine memory = some line ↔ ∃ len, findCrlf ((skipLf memory).takeWhile (· ≠ 0)) =
      some (len + 1) ∧ (skipLf memory).take (len + 1) = line := by
  unfold nextLine
  split
  · next len found =>
      rw [found, Option.some.injEq]
      constructor
      · intro same
        exact ⟨len, rfl, same⟩
      · rintro ⟨other, same, rfl⟩
        cases same
        rfl
  · next other =>
      constructor
      · intro same
        cases same
      · rintro ⟨len, found, _⟩
        exact absurd found (other len)

/-- A line that is cut out of the buffer for `parse_line`. -/
theorem cut_terminated {start len : Nat}
    (found : findCrlf ((r.contentBuffer.storage.drop start).takeWhile (· ≠ 0)) = some len) :
    let call := cutAt { r with lastLineStart := start } (start + len)
    call.Terminated ∧ call.currentLine = (r.contentBuffer.storage.drop start).take len := by
  intro call
  have memory : call.contentBuffer.storage.drop call.lastLineStart =
      (r.contentBuffer.storage.drop start).set len 0 := by
    change (r.contentBuffer.storage.set (start + len) 0).drop start = _
    rw [List.drop_set, if_neg (by omega), Nat.add_sub_cancel_left]
  obtain ⟨noNul, beyond, whole⟩ := set_of_findCrlf found
  have terminated : call.Terminated := by
    rw [Terminated, memory, whole]
    exact List.mem_append_right _ List.mem_cons_self
  have same := terminated.cString_eq
  rw [memory, whole, cString_append noNul, Option.some.injEq] at same
  exact ⟨terminated, same.symm⟩

theorem lineCalls_line {start len : Nat} (line : r.findLine = .ok (start, some (len + 1)))
    (fuel : Nat) :
    ∃ others, lineCalls (fuel + 1) r =
      cutAt { r with lastLineStart := start } (start + (len + 1)) :: others := by
  simp only [lineCalls, line]
  exact ⟨_, rfl⟩

/-- The first line is handed to `parse_line`. -/
theorem Parsing.first_call (parsing : r.Parsing) {line : Bytes}
    (next : nextLine (r.contentBuffer.storage.drop r.lastLineStart) = some line) (fuel : Nat) :
    ∃ call ∈ lineCalls (fuel + 1) r,
      call.Terminated ∧ call.lineNumber = r.lineNumber ∧ call.currentLine = line := by
  obtain ⟨start, position, _, _, _, memory⟩ := parsing.findLine_eq
  obtain ⟨len, found, rfl⟩ := nextLine_eq_some.mp next
  rw [found] at position
  obtain ⟨others, calls⟩ := lineCalls_line position fuel
  rw [← memory] at found ⊢
  obtain ⟨terminated, current⟩ := cut_terminated found
  rw [calls]
  exact ⟨_, List.mem_cons_self, terminated, rfl, current⟩

/-- Each call of `parse_line` gets a line that ends with a zero byte, and only the first
one the status line. -/
theorem Parsing.terminated (parsing : r.Parsing) (fuel : Nat) :
    ∀ call ∈ lineCalls fuel r, call.Terminated ∧ (call.lineNumber = 0 → r.lineNumber = 0 ∧
      nextLine (r.contentBuffer.storage.drop r.lastLineStart) = some call.currentLine) := by
  induction fuel generalizing r with
  | zero => exact nofun
  | succ fuel ih =>
      obtain ⟨start, line, later, near, before, memory⟩ := parsing.findLine_eq
      cases found : findCrlf
          ((skipLf (r.contentBuffer.storage.drop r.lastLineStart)).takeWhile (· ≠ 0)) with
      | none =>
          rw [found] at line
          simp [lineCalls, line]
      | some len =>
          rw [found] at line
          cases len with
          | zero => simp [lineCalls, line]
          | succ len =>
              rw [← memory] at found
              have said := parsing.parseLine_next later near before
                (parsing.version_inside near memory found) found
              obtain ⟨terminated, current⟩ := cut_terminated found
              have first : nextLine (r.contentBuffer.storage.drop r.lastLineStart) =
                  some ((r.contentBuffer.storage.drop start).take (len + 1)) := by
                rw [memory] at found ⊢
                exact nextLine_eq_some.mpr ⟨len, found, rfl⟩
              simp only [lineCalls, line]
              rw [List.forall_mem_cons]
              refine ⟨⟨terminated, fun zero => ⟨zero, current ▸ first⟩⟩, ?_⟩
              cases taken : r.fields.takeLine
                  ((r.contentBuffer.storage.drop start).set (len + 1) 0) with
              | error e =>
                  rw [taken] at said
                  obtain ⟨q, refused⟩ := exists_of_fst_eq said
                  rw [refused]
                  exact nofun
              | ok h =>
                  rw [taken] at said
                  obtain ⟨q, parsed, noContent, next, moved, again, reached⟩ := said
                  rw [parsed]
                  dsimp only
                  rw [if_pos noContent, moved]
                  -- The lines that follow have other numbers.
                  have counted : next.lineNumber = r.lineNumber + 1 :=
                    (congrArg (·.lineNumber) reached.fields).trans (takeLine_keeps taken).2.1
                  intro call member
                  obtain ⟨ends, status⟩ := ih again call member
                  refine ⟨ends, fun zero => ?_⟩
                  have first := (status zero).1
                  omega

/-! ## Calls of `read_data` -/

/-- The call returned normally, waiting for more or done, or has raised a
`tasks_exception`. -/
def Settles (o : Outcome HttpResponse) : Prop :=
  o.result = .ok () ∧ (o.object.state = .readData ∨ o.object.state = .readContent) ∨
    o.result = .ok () ∧ o.object.state = .done ∨
    ∃ e, o.result = .error (.exception e)

/-- The next call of `read_data`, if there is one, is safe. -/
structure SafeCall (s : Session HttpResponse) : Prop where
  settles : ¬(s.object.done ∨ s.failure.isSome) → Settles (s.object.readData s.socket)
  lines : ∀ head ∈ heads s, ∀ call ∈ iterationCalls head.1 head.2, SafeLine call

/-- The iteration that starts with `r` and `sock` has room for its read, and a status
line that this completes has a space behind its first five characters. -/
structure Harmless (r : HttpResponse) (sock : Socket) : Prop where
  grows : CanGrow r.contentBuffer
  spaced : r.state = .readData → r.lineNumber = 0 →
    ∀ b bytes rest line, r.Arrives sock b bytes rest →
      nextLine (r.arrivedMemory b bytes) = some line → 32 ∈ line.drop 5

variable {sock : Socket} {b : Buffer} {bytes rest : Bytes}

/-- What arrives while the header block is read is parsed. -/
theorem Arrives.parseCall_eq (arrives : r.Arrives sock b bytes rest)
    (state : r.state = .readData) :
    r.parseCall sock = some { r with contentBuffer := ended b bytes } := by
  unfold parseCall
  rw [arrives.room.made]
  dsimp only
  rw [arrives.fillFrom_eq]
  dsimp only
  rw [if_pos state, arrives.store_eq]

/-- Nothing else is parsed. -/
theorem Reading.parseCall_cases (reading : r.Reading) (sock : Socket) :
    r.parseCall sock = none ∨
      r.state = .readData ∧ ∃ b bytes rest, r.Arrives sock b bytes rest := by
  unfold parseCall
  obtain tooLarge | ⟨b, e, room, failed⟩ | ⟨b, room, again⟩ | ⟨b, bytes, rest, arrives⟩ :=
    attempt_cases reading.ok sock
  · rw [tooLarge]
    exact .inl rfl
  · rw [room.made]
    dsimp only
    rw [room.fillFrom_eq, failed]
    exact .inl rfl
  · rw [room.made]
    dsimp only
    rw [room.fillFrom_eq, again]
    exact .inl rfl
  · by_cases state : r.state = .readData
    · exact .inr ⟨state, b, bytes, rest, arrives⟩
    · rw [arrives.room.made]
      dsimp only
      rw [arrives.fillFrom_eq]
      dsimp only
      rw [if_neg state]
      exact .inl rfl

/-- In an iteration `parse_line` is safe exactly when a status line that is completed
has a space behind its first five characters. -/
theorem Reading.safeLines_iff (reading : r.Reading) (sock : Socket) :
    (∀ call ∈ iterationCalls r sock, SafeLine call) ↔
      (r.state = .readData → r.lineNumber = 0 →
        ∀ b bytes rest line, r.Arrives sock b bytes rest →
          nextLine (r.arrivedMemory b bytes) = some line → 32 ∈ line.drop 5) := by
  unfold iterationCalls
  constructor
  · intro safe state first b bytes rest line arrives next
    rw [arrives.parseCall_eq state] at safe
    rw [← arrives.drop_ended reading.start] at next
    obtain ⟨call, member, terminated, number, rfl⟩ :=
      (arrives.parsing reading state).first_call next _
    exact terminated.safeLine_iff.mp (safe call member) (number.trans first)
  · intro spaced
    obtain nothing | ⟨state, b, bytes, rest, arrives⟩ := reading.parseCall_cases sock
    · rw [nothing]
      exact nofun
    · rw [arrives.parseCall_eq state]
      intro call member
      obtain ⟨terminated, status⟩ := (arrives.parsing reading state).terminated _ call member
      apply terminated.safeLine_iff.mpr
      intro zero
      obtain ⟨first, next⟩ := status zero
      change nextLine ((ended b bytes).storage.drop r.lastLineStart) = _ at next
      rw [arrives.drop_ended reading.start] at next
      exact spaced state first b bytes rest _ arrives next

/-- A line is refused with an exception, unless it is a status line without a space
behind its first five characters. -/
theorem takeLine_refused {h : HttpResponse} {line beyond : Bytes} (noNul : 0 ∉ line)
    (spaced : h.lineNumber = 0 → 32 ∈ line.drop 5) {e : Failure}
    (refused : h.takeLine (line ++ 0 :: beyond) = .error e) : ∃ x, e = .exception x := by
  unfold takeLine at refused
  split at refused
  · next first =>
      rw [takeStatus, statusOf_line noNul (spaced first)] at refused
      simp only [setStatusText] at refused
      split at refused
      · cases refused
        exact ⟨_, rfl⟩
      · cases refused
  · rw [takeHeader, readCString_line noNul] at refused
    dsimp only at refused
    split at refused
    · cases refused
      exact ⟨_, rfl⟩
    · cases refused

/-- So it is for the lines that arrive. -/
theorem exception_of_failed {h : HttpResponse} {memory : Bytes} {e : Failure}
    (spaced : h.lineNumber = 0 → ∀ line, nextLine memory = some line → 32 ∈ line.drop 5)
    (scan : scanLines takeLine h memory = .failed e) : ∃ x, e = .exception x := by
  fun_induction scanLines takeLine h memory with
  | case1 h memory found => cases scan
  | case2 h memory found => cases scan
  | case3 h memory len found e refused =>
      cases scan
      obtain ⟨noNul, beyond, whole⟩ := set_of_findCrlf found
      rw [whole] at refused
      apply takeLine_refused noNul _ refused
      intro first
      exact spaced first _ (nextLine_eq_some.mpr ⟨len, found, rfl⟩)
  | case4 h memory len found next accepted ih =>
      apply ih _ scan
      intro first
      rw [(takeLine_keeps accepted).2.1] at first
      cases first

/-- A harmless iteration goes on, ends the call, or raises a `tasks_exception`. -/
theorem Reading.harmless_fails (reading : r.Reading) (harmless : Harmless r sock)
    {e : Failure} (failed : (r.readIteration sock).result = .error e) : ∃ x, e = .exception x := by
  obtain tooLarge | ⟨b, x, room, refused⟩ | ⟨b, room, again⟩ | ⟨b, bytes, rest, arrives⟩ :=
    attempt_cases reading.ok sock
  · obtain ⟨b, room⟩ := harmless.grows.exists_room reading.ok
    cases tooLarge.symm.trans room.made
  · rw [room.readIteration_failed refused] at failed
    cases failed
    exact ⟨x, rfl⟩
  · rw [room.readIteration_again (room.receive_again again)] at failed
    cases failed
  · cases parse : parseReceived { r with contentBuffer := received b bytes } with
    | mk outcome q =>
        cases outcome with
        | ok _ =>
            rw [arrives.readIteration_eq reading parse] at failed
            cases failed
        | error e =>
            rw [arrives.readIteration_refused parse] at failed
            cases failed
            obtain ⟨state, scan | rfl | rfl⟩ := arrives.parse_failed reading parse
            · apply exception_of_failed _ scan
              intro first line next
              exact harmless.spaced state first b bytes rest line arrives next
            · exact ⟨_, rfl⟩
            · exact ⟨_, rfl⟩

/-- Where there is no room for a read, the iteration fails. -/
theorem Reading.stuck_fails (reading : r.Reading) (stuck : ¬CanGrow r.contentBuffer)
    (sock : Socket) : (r.readIteration sock).result = .error (.fault .lengthError) := by
  rw [readIteration_tooLarge (makeRoom_tooLarge reading.ok stuck)]

/-! ## Runs -/

theorem Reading.loopHeads (reading : r.Reading) (fuel : Nat) (sock : Socket) :
    ∀ head ∈ Outcome.loopHeads readIteration fuel r sock, head.1.Reading :=
  (Outcome.loop_rule (P := fun (r : HttpResponse) _ => r.Reading)
    (fun holds result => holds.next result) fuel reading).1

/-- A loop whose iterations are harmless settles. -/
theorem Reading.readLoop_settles (reading : r.Reading)
    (harmless : ∀ head ∈ Outcome.loopHeads readIteration (sock.incoming.length + 1) r sock,
      Harmless head.1 head.2) :
    Settles (readLoop (sock.incoming.length + 1) r sock) := by
  have ends := reading.readLoop_ends sock
  cases result : readLoop (sock.incoming.length + 1) r sock with
  | mk outcome q next =>
      cases outcome with
      | ok _ =>
          have last : q.Reading := (Outcome.loop_rule (P := fun r _ => r.Reading)
            (fun holds result => holds.next result) _ reading).2 result
          obtain data | content | done := last.state
          · exact .inl ⟨rfl, .inl data⟩
          · exact .inl ⟨rfl, .inr content⟩
          · exact .inr (.inl ⟨rfl, done⟩)
      | error e =>
          rw [result] at ends
          have failed : (readLoop (sock.incoming.length + 1) r sock).result = .error e := by
            rw [result]
          obtain rfl | ⟨head, member, refused⟩ := Outcome.loop_failed failed
          · exact absurd rfl ends
          · have there := reading.loopHeads _ sock head member
            obtain ⟨x, rfl⟩ := there.harmless_fails (harmless head member) refused
            exact .inr (.inr ⟨x, rfl⟩)

/-- A call is safe exactly when all its iterations are harmless. -/
theorem safeCall_iff {s : Session HttpResponse} {q : HttpResponse}
    (running : ¬(s.object.done ∨ s.failure.isSome)) (started : s.object.startReading = .ok q)
    (reading : q.Reading) : SafeCall s ↔ ∀ head ∈ heads s, Harmless head.1 head.2 := by
  have undone : s.object.done = false := Bool.eq_false_iff.mpr (not_or.mp running).1
  have loop := readData_running undone started s.socket
  have starts := heads_running running started
  have readings := reading.loopHeads (s.socket.incoming.length + 1) s.socket
  rw [← starts] at readings
  constructor
  · intro safe head member
    constructor
    · by_contra stuck
      have failed := (readings head member).stuck_fails stuck head.2
      rw [starts] at member
      have settles := safe.settles running
      rw [loop, Settles, readLoop, Outcome.loop_of_failed member failed] at settles
      simp at settles
    · exact ((readings head member).safeLines_iff head.2).mp (safe.lines head member)
  · intro harmless
    constructor
    · intro _
      rw [loop]
      apply reading.readLoop_settles
      rw [← starts]
      exact harmless
    · intro head member
      exact ((readings head member).safeLines_iff head.2).mpr (harmless head member).spaced

/-- In every run of calls on any socket, each call is safe exactly when every iteration
is harmless. -/
theorem parser_safe_iff (fresh : r.Fresh) (sock : Socket) :
    (∀ n, SafeCall (readCall^[n] ⟨r, sock, none⟩)) ↔
      ∀ n, ∀ head ∈ heads (readCall^[n] ⟨r, sock, none⟩), Harmless head.1 head.2 := by
  apply forall_congr'
  intro n
  have invariant := session_rule (fun holds result => holds.next result) Reading.begun sock
    fresh.starts n
  generalize readCall^[n] ⟨r, sock, none⟩ = s at invariant
  by_cases ended : s.object.done ∨ s.failure.isSome
  · have nothing : heads s = [] := if_pos ended
    constructor
    · intro _ head member
      rw [nothing] at member
      cases member
    · intro _
      refine ⟨fun running => absurd ended running, ?_⟩
      rw [nothing]
      exact nofun
  · have alive : s.failure = none := by
      rw [not_or, Option.not_isSome_iff_eq_none] at ended
      exact ended.2
    obtain ⟨q, started, reading⟩ := invariant alive
    exact safeCall_iff ended started reading

/-- A status line without a space. -/
def spacelessSocket : Socket where
  incoming := text "HTTP/1.1\r\n"
  arrivals := fun _ => .deliver 10

/-- A status line of four characters, and another line. -/
def shortLineSocket : Socket where
  incoming := text "HTTP\r\nX: 200 OK\r\n"
  arrivals := fun _ => .deliver 17

theorem parser_safe_sample :
    (∀ n, SafeCall (readCall^[n] ⟨{}, shortLineSocket, none⟩)) ↔
      ∀ n, ∀ head ∈ heads (readCall^[n] ⟨{}, shortLineSocket, none⟩), Harmless head.1 head.2 :=
  parser_safe_iff fresh_default shortLineSocket

/-- Without a space the result of `strchr` is null and is used.  A short line makes
`parse_status` read on in the line that follows. -/
theorem parser_not_safe :
    ¬SafeCall ⟨{}, spacelessSocket, none⟩ ∧
      (readData {} spacelessSocket).result = .error (.fault .nullPointer) ∧
      ¬SafeCall ⟨{}, shortLineSocket, none⟩ ∧
      (readData {} shortLineSocket).object.status = text "200 OK\r\n" := by
  have null : (readData {} spacelessSocket).result = .error (.fault .nullPointer) := by
    decide +kernel
  have outside : ∃ call ∈ iterationCalls firstHead shortLineSocket, ∃ place ∈ call.linePlaces,
      call.lastLineStart + call.currentLine.length < place := by
    decide +kernel
  refine ⟨?_, null, ?_, by decide +kernel⟩
  · intro safe
    have settles := safe.settles (by decide)
    rw [Settles, null] at settles
    simp at settles
  · intro safe
    obtain ⟨call, member, place, inspects, behind⟩ := outside
    have inside := (safe.lines _ (firstHead_mem _) call member).inside place inspects
    omega

end HttpResponse

end LibTasks.Net

import LibTasks.Foundation.CString

/-!
# Lines that arrive in pieces

A text is a sequence of lines, each ended by a carriage return and a line feed,
and after the last of them an empty line.  What has arrived of it stands in memory
and is followed by a zero byte.  A scanner hands the complete lines one by one to a
function, and stops where the next line is incomplete or empty.

Over a text of proper lines the scanner's state depends on how much has arrived
and not on the pieces: `scanLines_arrived_open` and `scanLines_arrived_closed` take it
from one point of the text to any later one.
-/

namespace LibTasks.Foundation

variable {σ ε : Type}

/-- Where a scan stops, and the memory from that point on. -/
inductive Scan (σ ε : Type) where
  /-- A line was refused. -/
  | failed (e : ε)
  /-- The next line is incomplete. -/
  | more (s : σ) (memory : Bytes)
  /-- The next line is empty. -/
  | blank (s : σ) (memory : Bytes)

/-- Skip the line feed of the line before. -/
def skipLf (memory : Bytes) : Bytes :=
  if memory.head? = some 10 then memory.tail else memory

/-- Scan the lines in memory.  A line is handed over with all that follows it, its
carriage return overwritten with zero; the scan goes on at its line feed. -/
def scanLines (onLine : σ → Bytes → Except ε σ) (s : σ) (memory : Bytes) : Scan σ ε :=
  match _found : findCrlf ((skipLf memory).takeWhile (· ≠ 0)) with
  | none => .more s (skipLf memory)
  | some 0 => .blank s (skipLf memory)
  | some (len + 1) =>
      match onLine s ((skipLf memory).set (len + 1) 0) with
      | .error e => .failed e
      | .ok s => scanLines onLine s ((skipLf memory).drop (len + 2))
termination_by memory.length
decreasing_by
  obtain ⟨line, rest, length, text⟩ := exists_of_findCrlf _found
  have inside := (List.takeWhile_prefix (· ≠ 0) (l := skipLf memory)).length_le
  have shorter : (skipLf memory).length ≤ memory.length := by
    unfold skipLf
    split <;> simp
  simp only [text, List.length_append, List.length_cons] at inside
  simp only [List.length_drop]
  omega

/-- The line that was found is a C string once its carriage return is overwritten,
and its line feed stands before the end of the text. -/
theorem cString_of_findCrlf {memory : Bytes} {len : Nat}
    (found : findCrlf (memory.takeWhile (· ≠ 0)) = some len) :
    (∃ line, line.length = len ∧ cString (memory.set len 0) = some line) ∧
      ∀ stop, memory[stop]? = some 0 → len + 2 ≤ stop := by
  obtain ⟨line, rest, rfl, text⟩ := exists_of_findCrlf found
  have whole : memory.takeWhile (· ≠ 0) ++ memory.dropWhile (· ≠ 0) = memory :=
    List.takeWhile_append_dropWhile
  have noNul : ∀ c ∈ line ++ 13 :: 10 :: rest, c ≠ 0 := by
    intro c member
    rw [← text] at member
    have nonzero := List.mem_takeWhile_imp member
    exact of_decide_eq_true nonzero
  rw [text] at whole
  constructor
  · refine ⟨line, rfl, ?_⟩
    rw [← whole, List.append_assoc, List.cons_append,
      List.set_append_right line.length _ (Nat.le_refl _), Nat.sub_self, List.set_cons_zero]
    exact cString_append (fun member => noNul 0 (List.mem_append_left _ member) rfl) _
  · intro stop ended
    by_contra early
    rw [← whole, List.getElem?_append_left (by simp; omega)] at ended
    exact noNul 0 (List.mem_of_getElem? ended) rfl

/-- The line that was found, as it is handed over. -/
theorem set_of_findCrlf {memory : Bytes} {len : Nat}
    (found : findCrlf (memory.takeWhile (· ≠ 0)) = some len) :
    0 ∉ memory.take len ∧ ∃ beyond, memory.set len 0 = memory.take len ++ 0 :: beyond := by
  obtain ⟨⟨line, length, text⟩, _⟩ := cString_of_findCrlf found
  obtain ⟨noNul, beyond, whole⟩ := exists_of_cString text
  have same : memory.take len = line := by
    rw [← List.take_set_of_le (Nat.le_refl len), whole, ← length, List.take_left]
  rw [same]
  exact ⟨noNul, beyond, whole⟩

section Steps

variable {onLine : σ → Bytes → Except ε σ} {s : σ} {memory : Bytes}

theorem scanLines_of_none (found : findCrlf ((skipLf memory).takeWhile (· ≠ 0)) = none) :
    scanLines onLine s memory = .more s (skipLf memory) := by
  rw [scanLines]
  split <;> simp_all

theorem scanLines_of_zero (found : findCrlf ((skipLf memory).takeWhile (· ≠ 0)) = some 0) :
    scanLines onLine s memory = .blank s (skipLf memory) := by
  rw [scanLines]
  split <;> simp_all

theorem scanLines_of_error {len : Nat} {e : ε}
    (found : findCrlf ((skipLf memory).takeWhile (· ≠ 0)) = some (len + 1))
    (refused : onLine s ((skipLf memory).set (len + 1) 0) = .error e) :
    scanLines onLine s memory = .failed e := by
  rw [scanLines]
  split <;> simp_all

theorem scanLines_of_ok {len : Nat} {next : σ}
    (found : findCrlf ((skipLf memory).takeWhile (· ≠ 0)) = some (len + 1))
    (accepted : onLine s ((skipLf memory).set (len + 1) 0) = .ok next) :
    scanLines onLine s memory = scanLines onLine next ((skipLf memory).drop (len + 2)) := by
  rw [scanLines]
  split <;> simp_all

/-- The scan stops at an empty line only where there is one. -/
theorem exists_of_blank {t : σ} {rest : Bytes}
    (scanned : scanLines onLine s memory = .blank t rest) :
    ∃ tail, rest = 13 :: 10 :: tail := by
  fun_induction scanLines onLine s memory with
  | case1 s memory found => cases scanned
  | case2 s memory found =>
      cases scanned
      obtain ⟨line, tail, length, text⟩ := exists_of_findCrlf found
      rw [List.length_eq_zero_iff.mp length, List.nil_append] at text
      have whole : (skipLf memory).takeWhile (· ≠ 0) ++ (skipLf memory).dropWhile (· ≠ 0) =
          skipLf memory := List.takeWhile_append_dropWhile
      rw [text] at whole
      exact ⟨_, whole.symm⟩
  | case3 s memory len found e refused => simp at scanned
  | case4 s memory len found next accepted ih => exact ih scanned

/-- The scan fails only with a line that is refused. -/
theorem exists_of_failed {e : ε} (scanned : scanLines onLine s memory = .failed e) :
    ∃ t line, onLine t line = .error e := by
  fun_induction scanLines onLine s memory with
  | case1 s memory found => cases scanned
  | case2 s memory found => cases scanned
  | case3 s memory len found e refused =>
      cases scanned
      exact ⟨s, _, refused⟩
  | case4 s memory len found next accepted ih => exact ih scanned

end Steps

/-! ## Proper lines -/

/-- A line that is not empty and has no control characters that would end it. -/
structure IsLine (line : Bytes) : Prop where
  nonempty : line ≠ []
  noCr : 13 ∉ line
  noLf : 10 ∉ line
  noNul : 0 ∉ line

/-- Lines, the empty line, and what follows it. -/
def linesText : List Bytes → Bytes → Bytes
  | [], body => 13 :: 10 :: body
  | line :: lines, body => line ++ 13 :: 10 :: linesText lines body

/-- The length of the lines with their ends, without the empty line. -/
def linesLength (lines : List Bytes) : Nat :=
  (lines.map fun line => line.length + 2).sum

/-- The lines that are complete in the first `count` bytes. -/
def completed : List Bytes → Nat → List Bytes
  | [], _ => []
  | line :: lines, count =>
      if line.length + 2 ≤ count then
        line :: completed lines (count - (line.length + 2))
      else
        []

/-- All lines are accepted one after the other, whatever follows them. -/
inductive Accepted (onLine : σ → Bytes → Except ε σ) : σ → List Bytes → σ → Prop
  | nil (s : σ) : Accepted onLine s [] s
  | cons {s next final : σ} {line : Bytes} {lines : List Bytes}
      (first : ∀ beyond, onLine s (line ++ 0 :: beyond) = .ok next)
      (rest : Accepted onLine next lines final) : Accepted onLine s (line :: lines) final

theorem Accepted.append {onLine : σ → Bytes → Except ε σ} {s mid final : σ}
    {lines others : List Bytes} (first : Accepted onLine s lines mid)
    (second : Accepted onLine mid others final) : Accepted onLine s (lines ++ others) final := by
  induction first with
  | nil s => exact second
  | cons accepted rest ih => exact .cons accepted (ih second)

theorem Accepted.unique {onLine : σ → Bytes → Except ε σ} {s final other : σ}
    {lines : List Bytes} (first : Accepted onLine s lines final)
    (second : Accepted onLine s lines other) : final = other := by
  induction first with
  | nil s =>
      cases second
      rfl
  | cons accepted rest ih =>
      cases second with
      | cons alike others =>
          have same := (accepted []).symm.trans (alike [])
          cases same
          exact ih others

/-! ## Scanning what has arrived -/

theorem skipLf_of_ne {memory : Bytes} (other : memory.head? ≠ some 10) :
    skipLf memory = memory :=
  if_neg other

/-- No line of a text starts with a line feed. -/
theorem head?_arrived_ne {lines : List Bytes} (proper : ∀ line ∈ lines, IsLine line)
    (body beyond : Bytes) (count : Nat) :
    ((linesText lines body).take count ++ 0 :: beyond).head? ≠ some 10 := by
  cases count with
  | zero => simp
  | succ count =>
      cases lines with
      | nil => simp [linesText]
      | cons line lines =>
          have isLine := proper line List.mem_cons_self
          cases line with
          | nil => exact absurd rfl isLine.nonempty
          | cons c line =>
              simp only [linesText, List.cons_append, List.take_succ_cons, List.head?_cons]
              exact fun same => isLine.noLf (Option.some.inj same ▸ List.mem_cons_self)

/-- The line feed of a line that was handed over is skipped. -/
theorem scanLines_lf (onLine : σ → Bytes → Except ε σ) (s : σ) {memory : Bytes}
    (other : memory.head? ≠ some 10) :
    scanLines onLine s (10 :: memory) = scanLines onLine s memory := by
  have skipped : skipLf (10 :: memory) = skipLf memory := by
    rw [skipLf_of_ne other]
    rfl
  rw [scanLines, scanLines, skipped]

theorem takeWhile_nul {s : Bytes} (noNul : 0 ∉ s) (rest : Bytes) :
    (s ++ rest).takeWhile (· ≠ 0) = s ++ rest.takeWhile (· ≠ 0) :=
  List.takeWhile_append_of_pos fun _ member => decide_eq_true fun zero => noNul (zero ▸ member)

/-- A complete line is handed over. -/
theorem scanLines_line {onLine : σ → Bytes → Except ε σ} {s next : σ} {line rest : Bytes}
    (isLine : IsLine line) (other : rest.head? ≠ some 10)
    (accepted : ∀ beyond, onLine s (line ++ 0 :: beyond) = .ok next) :
    scanLines onLine s (line ++ 13 :: 10 :: rest) = scanLines onLine next rest := by
  obtain ⟨c, tail, rfl⟩ := List.exists_cons_of_ne_nil isLine.nonempty
  have start : skipLf (c :: tail ++ 13 :: 10 :: rest) = c :: tail ++ 13 :: 10 :: rest :=
    skipLf_of_ne fun same => isLine.noLf (Option.some.inj same ▸ List.mem_cons_self)
  have found : findCrlf ((skipLf (c :: tail ++ 13 :: 10 :: rest)).takeWhile (· ≠ 0)) =
      some (tail.length + 1) := by
    rw [start, takeWhile_nul isLine.noNul]
    exact findCrlf_append isLine.noCr (rest.takeWhile (· ≠ 0))
  have cut : (skipLf (c :: tail ++ 13 :: 10 :: rest)).set (tail.length + 1) 0 =
      c :: tail ++ 0 :: 10 :: rest := by
    rw [start]
    simp
  have dropped : (skipLf (c :: tail ++ 13 :: 10 :: rest)).drop (tail.length + 2) =
      10 :: rest := by
    rw [start]
    simp
  rw [scanLines_of_ok found (cut ▸ accepted (10 :: rest)), dropped, scanLines_lf _ _ other]

/-- An incomplete line is left alone. -/
theorem scanLines_incomplete (onLine : σ → Bytes → Except ε σ) (s : σ) {part : Bytes}
    (noLf : 10 ∉ part) (noNul : 0 ∉ part) (noEnd : findCrlf part = none) (beyond : Bytes) :
    scanLines onLine s (part ++ 0 :: beyond) = .more s (part ++ 0 :: beyond) := by
  have start : skipLf (part ++ 0 :: beyond) = part ++ 0 :: beyond := by
    apply skipLf_of_ne
    cases part with
    | nil => simp
    | cons c part => exact fun same => noLf (Option.some.inj same ▸ List.mem_cons_self)
  have text : (part ++ 0 :: beyond).takeWhile (· ≠ 0) = part := by
    rw [takeWhile_nul noNul]
    simp
  rw [scanLines_of_none (by rw [start, text, noEnd]), start]

/-- The beginning of a line and its end is incomplete. -/
theorem scanLines_part (onLine : σ → Bytes → Except ε σ) (s : σ) (line : Bytes)
    (noCr : 13 ∉ line) (noLf : 10 ∉ line) (noNul : 0 ∉ line) {count : Nat}
    (short : count < line.length + 2) (rest beyond : Bytes) :
    scanLines onLine s ((line ++ 13 :: 10 :: rest).take count ++ 0 :: beyond) =
      .more s ((line ++ 13 :: 10 :: rest).take count ++ 0 :: beyond) := by
  by_cases inside : count ≤ line.length
  · rw [List.take_append_of_le_length inside]
    have part {c : UInt8} (outside : c ∉ line) : c ∉ line.take count :=
      fun member => outside (List.mem_of_mem_take member)
    exact scanLines_incomplete onLine s (part noLf) (part noNul)
      (findCrlf_eq_none (part noCr)).1 beyond
  · have withCr : (line ++ 13 :: 10 :: rest).take count = line ++ [13] := by
      rw [show count = line.length + 1 by omega, List.take_length_add_append]
      rfl
    rw [withCr]
    exact scanLines_incomplete onLine s (by simp [noLf]) (by simp [noNul])
      (findCrlf_eq_none noCr).2 beyond

theorem scanLines_empty (onLine : σ → Bytes → Except ε σ) (s : σ) (rest : Bytes) :
    scanLines onLine s (13 :: 10 :: rest) = .blank s (13 :: 10 :: rest) :=
  scanLines_of_zero rfl

/-- The lines that are not complete in the first `count` bytes. -/
def remaining (lines : List Bytes) (count : Nat) : List Bytes :=
  lines.drop (completed lines count).length

theorem completed_cons_of_le {line : Bytes} {count : Nat} (inside : line.length + 2 ≤ count)
    (lines : List Bytes) :
    completed (line :: lines) count = line :: completed lines (count - (line.length + 2)) :=
  if_pos inside

theorem completed_cons_of_lt {line : Bytes} {count : Nat} (short : count < line.length + 2)
    (lines : List Bytes) : completed (line :: lines) count = [] :=
  if_neg (Nat.not_le.mpr short)

theorem completed_append_remaining (lines : List Bytes) (count : Nat) :
    completed lines count ++ remaining lines count = lines := by
  induction lines generalizing count with
  | nil => rfl
  | cons line lines ih =>
      by_cases inside : line.length + 2 ≤ count
      · rw [remaining, completed_cons_of_le inside]
        exact congrArg (line :: ·) (ih (count - (line.length + 2)))
      · rw [remaining, completed_cons_of_lt (Nat.not_le.mp inside)]
        rfl

theorem linesLength_cons (line : Bytes) (lines : List Bytes) :
    linesLength (line :: lines) = line.length + 2 + linesLength lines := by
  simp [linesLength]

theorem linesLength_append (lines others : List Bytes) :
    linesLength (lines ++ others) = linesLength lines + linesLength others := by
  simp [linesLength]

theorem linesLength_completed_le (lines : List Bytes) (count : Nat) :
    linesLength (completed lines count) ≤ count := by
  induction lines generalizing count with
  | nil => exact Nat.zero_le count
  | cons line lines ih =>
      by_cases inside : line.length + 2 ≤ count
      · rw [completed_cons_of_le inside, linesLength_cons]
        have rest := ih (count - (line.length + 2))
        omega
      · rw [completed_cons_of_lt (Nat.not_le.mp inside)]
        exact Nat.zero_le count

theorem linesText_append (lines others : List Bytes) (body : Bytes) :
    ∃ front, front.length = linesLength lines ∧
      linesText (lines ++ others) body = front ++ linesText others body := by
  induction lines with
  | nil => exact ⟨[], rfl, rfl⟩
  | cons line lines ih =>
      obtain ⟨front, length, text⟩ := ih
      refine ⟨line ++ 13 :: 10 :: front, ?_, ?_⟩
      · rw [linesLength_cons, ← length]
        simp only [List.length_append, List.length_cons]
        omega
      · simp [linesText, text]

/-- The text from the first incomplete line on. -/
theorem drop_linesText (lines : List Bytes) (count : Nat) (body : Bytes) :
    (linesText lines body).drop (linesLength (completed lines count)) =
      linesText (remaining lines count) body := by
  obtain ⟨front, length, text⟩ :=
    linesText_append (completed lines count) (remaining lines count) body
  rw [completed_append_remaining] at text
  rw [text, ← length, List.drop_left]

theorem linesText_body_append (lines : List Bytes) (body more : Bytes) :
    linesText lines (body ++ more) = linesText lines body ++ more := by
  induction lines with
  | nil => rfl
  | cons line lines ih => simp [linesText, ih]

/-- What follows the empty line. -/
theorem drop_linesText_body (lines : List Bytes) (body : Bytes) :
    (linesText lines body).drop (linesLength lines + 2) = body := by
  obtain ⟨front, length, text⟩ := linesText_append lines [] body
  rw [List.append_nil] at text
  rw [text, ← length, ← List.drop_drop, List.drop_left]
  rfl

theorem length_linesText (lines : List Bytes) (body : Bytes) :
    (linesText lines body).length = linesLength lines + 2 + body.length := by
  obtain ⟨front, length, text⟩ := linesText_append lines [] body
  rw [List.append_nil] at text
  simp only [text, linesText, List.length_append, List.length_cons, length]
  omega

/-- The lines that further bytes complete. -/
theorem completed_add (lines : List Bytes) (count more : Nat) :
    completed lines (count + more) = completed lines count ++
      completed (remaining lines count) (count + more - linesLength (completed lines count)) := by
  induction lines generalizing count with
  | nil => rfl
  | cons line lines ih =>
      by_cases inside : line.length + 2 ≤ count
      · obtain ⟨rest, rfl⟩ := Nat.exists_eq_add_of_le inside
        have later : line.length + 2 ≤ line.length + 2 + rest + more := by omega
        rw [remaining, completed_cons_of_le inside, completed_cons_of_le later, linesLength_cons,
          Nat.add_assoc _ rest more, Nat.add_sub_cancel_left, Nat.add_sub_cancel_left,
          Nat.add_sub_add_left, ih rest]
        rfl
      · rw [remaining, completed_cons_of_lt (Nat.not_le.mp inside)]
        rfl

theorem remaining_add (lines : List Bytes) (count more : Nat) :
    remaining (remaining lines count) (count + more - linesLength (completed lines count)) =
      remaining lines (count + more) := by
  rw [remaining, remaining, remaining, completed_add lines count more, List.length_append,
    List.drop_drop]
  rfl

theorem take_linesText_cons (line : Bytes) (lines : List Bytes) (body : Bytes) (more : Nat) :
    (linesText (line :: lines) body).take (line.length + 2 + more) =
      line ++ 13 :: 10 :: (linesText lines body).take more := by
  rw [linesText, Nat.add_assoc, List.take_length_add_append, Nat.add_comm 2 more]
  rfl

/-- What has arrived, scanned from the start, when it ends before the empty line
does. -/
theorem scanLines_open {onLine : σ → Bytes → Except ε σ} {s final : σ} {lines : List Bytes}
    (accepted : Accepted onLine s lines final) (proper : ∀ line ∈ lines, IsLine line)
    {count : Nat} (short : count < linesLength lines + 2) (body beyond : Bytes) :
    ∃ mid, Accepted onLine s (completed lines count) mid ∧
      Accepted onLine mid (remaining lines count) final ∧
      scanLines onLine s ((linesText lines body).take count ++ 0 :: beyond) =
        .more mid ((linesText (remaining lines count) body).take
          (count - linesLength (completed lines count)) ++ 0 :: beyond) := by
  induction accepted generalizing count with
  | nil s =>
      refine ⟨s, .nil s, .nil s, ?_⟩
      exact scanLines_part onLine s [] (by simp) (by simp) (by simp) short body beyond
  | @cons s next final line lines first rest ih =>
      have isLine := proper line List.mem_cons_self
      have others := fun l member => proper l (List.mem_cons_of_mem line member)
      by_cases inside : line.length + 2 ≤ count
      · obtain ⟨more, rfl⟩ := Nat.exists_eq_add_of_le inside
        rw [linesLength_cons] at short
        obtain ⟨mid, before, after, scanned⟩ := ih others (show more < _ by omega)
        have linesCompleted := completed_cons_of_le inside lines
        rw [Nat.add_sub_cancel_left] at linesCompleted
        refine ⟨mid, linesCompleted ▸ .cons first before, ?_, ?_⟩
        · rw [remaining, linesCompleted]
          exact after
        · rw [take_linesText_cons, List.append_assoc, List.cons_append, List.cons_append,
            scanLines_line isLine (head?_arrived_ne others body beyond more) first, scanned,
            remaining, remaining, linesCompleted, linesLength_cons, Nat.add_sub_add_left]
          rfl
      · rw [Nat.not_le] at inside
        have nothing := completed_cons_of_lt inside lines
        refine ⟨s, nothing ▸ .nil s, ?_, ?_⟩
        · rw [remaining, nothing]
          exact .cons first rest
        · rw [remaining, nothing]
          exact scanLines_part onLine s line isLine.noCr isLine.noLf isLine.noNul inside _ beyond

/-- What has arrived, scanned from the start, when the empty line is there. -/
theorem scanLines_closed {onLine : σ → Bytes → Except ε σ} {s final : σ} {lines : List Bytes}
    (accepted : Accepted onLine s lines final) (proper : ∀ line ∈ lines, IsLine line)
    (body beyond : Bytes) (more : Nat) :
    scanLines onLine s ((linesText lines body).take (linesLength lines + 2 + more) ++
        0 :: beyond) =
      .blank final (13 :: 10 :: (body.take more ++ 0 :: beyond)) := by
  induction accepted with
  | nil s =>
      rw [show linesLength [] + 2 + more = more + 2 by simp [linesLength]; omega]
      exact scanLines_empty onLine s _
  | @cons s next final line lines first rest ih =>
      have isLine := proper line List.mem_cons_self
      have others := fun l member => proper l (List.mem_cons_of_mem line member)
      rw [linesLength_cons, Nat.add_assoc _ (linesLength lines), Nat.add_assoc _ _ more,
        take_linesText_cons, List.append_assoc, List.cons_append, List.cons_append,
        scanLines_line isLine (head?_arrived_ne others body beyond _) first, ih others]

section Arrived

variable {onLine : σ → Bytes → Except ε σ} {s mid final : σ} {lines : List Bytes} {count : Nat}

/-- From one point of the text to a later one before the end of the empty line. -/
theorem scanLines_arrived_open (before : Accepted onLine s (completed lines count) mid)
    (after : Accepted onLine mid (remaining lines count) final)
    (proper : ∀ line ∈ lines, IsLine line) {more : Nat}
    (short : count + more < linesLength lines + 2) (body beyond : Bytes) :
    ∃ next, Accepted onLine s (completed lines (count + more)) next ∧
      Accepted onLine next (remaining lines (count + more)) final ∧
      scanLines onLine mid ((linesText (remaining lines count) body).take
          (count + more - linesLength (completed lines count)) ++ 0 :: beyond) =
        .more next ((linesText (remaining lines (count + more)) body).take
          (count + more - linesLength (completed lines (count + more))) ++ 0 :: beyond) := by
  have inside := linesLength_completed_le lines count
  have total := congrArg linesLength (completed_append_remaining lines count)
  rw [linesLength_append] at total
  obtain ⟨next, first, second, scanned⟩ := scanLines_open after
    (fun line member => proper line (List.mem_of_mem_drop member))
    (show count + more - linesLength (completed lines count) < _ by omega) body beyond
  rw [remaining_add] at second
  refine ⟨next, ?_, second, ?_⟩
  · rw [completed_add]
    exact before.append first
  · rw [scanned, remaining_add, completed_add lines count more, linesLength_append, Nat.sub_sub]

/-- From one point of the text to one behind the empty line. -/
theorem scanLines_arrived_closed (after : Accepted onLine mid (remaining lines count) final)
    (proper : ∀ line ∈ lines, IsLine line) {more : Nat}
    (behind : linesLength lines + 2 ≤ count + more) (body beyond : Bytes) :
    scanLines onLine mid ((linesText (remaining lines count) body).take
        (count + more - linesLength (completed lines count)) ++ 0 :: beyond) =
      .blank final (13 :: 10 :: (body.take (count + more - (linesLength lines + 2)) ++
        0 :: beyond)) := by
  have total := congrArg linesLength (completed_append_remaining lines count)
  rw [linesLength_append] at total
  have split : count + more - linesLength (completed lines count) =
      linesLength (remaining lines count) + 2 + (count + more - (linesLength lines + 2)) := by
    omega
  rw [split, scanLines_closed after fun line member => proper line (List.mem_of_mem_drop member)]

end Arrived

end LibTasks.Foundation

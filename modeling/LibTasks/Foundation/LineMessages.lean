import LibTasks.Foundation.LineScan

/-!
# Messages made of lines

The lines of a text, and streams of messages.  A message is a block of lines, an
empty line, and a body of the length that the lines announce; a stream of messages
is split at these lengths.
-/

namespace LibTasks.Foundation

/-! ## The lines of a text -/

/-- The lines of a text, of whose first line `begun` was read before.  What follows
the last line end is no line. -/
def linesOnto : Bytes → Bytes → List Bytes
  | begun, 13 :: 10 :: rest => begun :: linesOnto [] rest
  | begun, c :: rest => linesOnto (begun ++ [c]) rest
  | _, [] => []

/-- The lines of a text. -/
def textLines (s : Bytes) : List Bytes := linesOnto [] s

theorem linesOnto_cons {c : UInt8} {rest : Bytes} (begun : Bytes)
    (noEnd : ∀ beyond, c = 13 → rest ≠ 10 :: beyond) :
    linesOnto begun (c :: rest) = linesOnto (begun ++ [c]) rest := by
  rw [linesOnto]
  intro beyond first second
  exact noEnd beyond first second

/-- A character before a line end that is not part of one. -/
theorem ne_of_noEnd {c : UInt8} {s : Bytes} (noEnd : ∀ beyond, c = 13 → s = 10 :: beyond → False)
    (tail : Bytes) : ∀ beyond, c = 13 → s ++ 13 :: tail ≠ 10 :: beyond := by
  intro beyond first same
  cases s with
  | nil => cases same
  | cons d s =>
      cases same
      exact noEnd s first rfl

/-- A line end ends all the lines before it. -/
theorem linesOnto_append (begun s rest : Bytes) :
    linesOnto begun (s ++ 13 :: 10 :: rest) =
      linesOnto begun (s ++ [13, 10]) ++ textLines rest := by
  fun_induction linesOnto begun s with
  | case1 begun s ih =>
      simp only [List.cons_append, linesOnto]
      rw [ih]
  | case2 begun c s noEnd ih =>
      rw [List.cons_append, List.cons_append, linesOnto_cons begun (ne_of_noEnd noEnd (10 :: rest)),
        linesOnto_cons begun (ne_of_noEnd noEnd [10]), ih]
  | case3 begun => rfl

theorem linesOnto_of_noCr {line : Bytes} (begun : Bytes) (noCr : 13 ∉ line) :
    linesOnto begun (line ++ [13, 10]) = [begun ++ line] := by
  induction line generalizing begun with
  | nil => simp [linesOnto]
  | cons c line ih =>
      have other : c ≠ 13 := fun same => noCr (same ▸ List.mem_cons_self)
      rw [List.cons_append, linesOnto_cons begun fun _ same => absurd same other,
        ih (begun ++ [c]) fun member => noCr (List.mem_cons_of_mem c member), List.append_assoc]
      rfl

theorem linesOnto_ne_nil (begun s : Bytes) : linesOnto begun (s ++ [13, 10]) ≠ [] := by
  fun_induction linesOnto begun s with
  | case1 begun s ih => simp [linesOnto]
  | case2 begun c s noEnd ih =>
      rw [List.cons_append, linesOnto_cons begun (ne_of_noEnd noEnd [10])]
      exact ih
  | case3 begun => simp [linesOnto]

theorem textLines_ne_nil (s : Bytes) : textLines (s ++ [13, 10]) ≠ [] := linesOnto_ne_nil [] s

theorem textLines_of_noCr {line : Bytes} (noCr : 13 ∉ line) :
    textLines (line ++ [13, 10]) = [line] :=
  linesOnto_of_noCr [] noCr

/-- The lines of a text that ends with the line ends of its parts. -/
theorem textLines_linesText (parts : List Bytes) :
    textLines (linesText parts []) = parts.flatMap (fun part => textLines (part ++ [13, 10])) ++
      [[]] := by
  induction parts with
  | nil => rfl
  | cons part parts ih =>
      rw [linesText, textLines, linesOnto_append, ih, List.flatMap_cons, List.append_assoc]
      rfl

/-! ## Splitting a stream -/

/-- A block of lines and the body behind it. -/
structure LineMessage where
  lines : List Bytes
  body : Bytes
  deriving DecidableEq

/-- A message as it is sent. -/
def LineMessage.wire (m : LineMessage) : Bytes := linesText m.lines m.body

/-- The lines up to the first empty line, and what follows it; `begun` was read of
the first line before. -/
def cutBlock : Bytes → Bytes → Option (List Bytes × Bytes)
  | begun, 13 :: 10 :: rest =>
      if begun = [] then
        some ([], rest)
      else
        (cutBlock [] rest).map fun block => (begun :: block.1, block.2)
  | begun, c :: rest => cutBlock (begun ++ [c]) rest
  | _, [] => none

/-- Split a stream into messages, at most as many as there is fuel. -/
def splitMessages (announced : List Bytes → Nat) : Nat → Bytes → Option (List LineMessage)
  | _, [] => some []
  | 0, _ :: _ => none
  | fuel + 1, c :: stream =>
      match cutBlock [] (c :: stream) with
      | none => none
      | some ([], _) => none
      | some (lines, rest) =>
          if rest.length < announced lines then
            none
          else
            (splitMessages announced fuel (rest.drop (announced lines))).map
              (⟨lines, rest.take (announced lines)⟩ :: ·)

/-- Split a stream into messages.  Every message has bytes, so the length of the
stream is fuel enough. -/
def splitStream (announced : List Bytes → Nat) (stream : Bytes) : Option (List LineMessage) :=
  splitMessages announced stream.length stream

theorem cutBlock_line {line : Bytes} (begun rest : Bytes) (noCr : 13 ∉ line)
    (nonempty : begun ++ line ≠ []) :
    cutBlock begun (line ++ 13 :: 10 :: rest) =
      (cutBlock [] rest).map fun block => ((begun ++ line) :: block.1, block.2) := by
  induction line generalizing begun with
  | nil =>
      rw [List.append_nil] at nonempty ⊢
      exact if_neg nonempty
  | cons c line ih =>
      have other : c ≠ 13 := fun same => noCr (same ▸ List.mem_cons_self)
      have next : cutBlock begun (c :: (line ++ 13 :: 10 :: rest)) =
          cutBlock (begun ++ [c]) (line ++ 13 :: 10 :: rest) := by
        rw [cutBlock]
        intro _ same
        exact absurd same other
      rw [List.append_cons begun c line] at nonempty ⊢
      rw [List.cons_append, next,
        ih (begun ++ [c]) (fun member => noCr (List.mem_cons_of_mem c member)) nonempty]

theorem cutBlock_linesText {lines : List Bytes} (proper : ∀ line ∈ lines, line ≠ [] ∧ 13 ∉ line)
    (body : Bytes) : cutBlock [] (linesText lines body) = some (lines, body) := by
  induction lines with
  | nil => rfl
  | cons line lines ih =>
      obtain ⟨⟨nonempty, noCr⟩, others⟩ := List.forall_mem_cons.mp proper
      rw [linesText, cutBlock_line [] _ noCr nonempty, ih others]
      rfl

variable {announced : List Bytes → Nat}

/-- The first message of a stream. -/
theorem splitMessages_linesText {lines : List Bytes} (some : lines ≠ [])
    (proper : ∀ line ∈ lines, line ≠ [] ∧ 13 ∉ line) (fuel : Nat) (body : Bytes) :
    splitMessages announced (fuel + 1) (linesText lines body) =
      if body.length < announced lines then
        none
      else
        (splitMessages announced fuel (body.drop (announced lines))).map
          (⟨lines, body.take (announced lines)⟩ :: ·) := by
  have cut := cutBlock_linesText proper body
  cases text : linesText lines body with
  | nil =>
      rw [text] at cut
      cases cut
  | cons c stream =>
      rw [text] at cut
      cases lines with
      | nil => exact absurd rfl some
      | cons line lines => rw [splitMessages, cut]

/-- No message begins with an empty line. -/
theorem splitMessages_empty (fuel : Nat) (rest : Bytes) :
    splitMessages announced fuel (13 :: 10 :: rest) = none := by
  cases fuel with
  | zero => rfl
  | succ fuel => rfl

end LibTasks.Foundation

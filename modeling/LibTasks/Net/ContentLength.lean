import LibTasks.Net.RequestStream

/-!
# The line for the content length

Requests and responses after any calls of `set_header` and `write`.  The encoder adds a
line for the length of the content, and writes the header map as it is: the head has
one such line exactly if no header, and nothing in the first line, makes another.
-/

namespace LibTasks.Net

open LibTasks.Foundation LibTasks.Tools
open HttpResponse (headerText valueOf nameOf_headerText)

/-! ## The lines of a head -/

/-- The header lines of a head that say the length of the content. -/
def lengthLines (head : Bytes) : List Bytes := (textLines head).tail.filter isLengthLine

/-- The head has one line for the length of the content, and it is right. -/
def Truthful (head content : Bytes) : Prop :=
  ∃ line, lengthLines head = [line] ∧ valueOf line = decimal content.length

/-- The text of the first line or of a header has a line for the length of the content. -/
def SaysLength (first : Bytes) (m : Headers) : Prop :=
  (∃ line ∈ (textLines (first ++ crlf)).tail, isLengthLine line = true) ∨
    ∃ kv ∈ entriesOf m, ∃ line ∈ textLines (headerText kv ++ crlf), isLengthLine line = true

/-- The lines for the length in a head that ends with the encoder's own. -/
theorem lengthLines_linesText (first : Bytes) (kvs : List (Bytes × Bytes)) (n : Nat) :
    lengthLines (linesText (first :: (kvs.map headerText ++
        [text "Content-Length: " ++ decimal n])) []) =
      (textLines (first ++ crlf)).tail.filter isLengthLine ++
        (kvs.flatMap fun kv => (textLines (headerText kv ++ crlf)).filter isLengthLine) ++
        [text "Content-Length: " ++ decimal n] := by
  have own : textLines ((text "Content-Length: " ++ decimal n) ++ [13, 10]) =
      [text "Content-Length: " ++ decimal n] :=
    textLines_of_noCr (Outgoing.noCr_lengthText n)
  have blank : isLengthLine [] = false := by decide
  change _ = (textLines (first ++ [13, 10])).tail.filter isLengthLine ++
    (kvs.flatMap fun kv => (textLines (headerText kv ++ [13, 10])).filter isLengthLine) ++ _
  rw [lengthLines, textLines_linesText, List.flatMap_cons, List.append_assoc,
    List.tail_append_of_ne_nil (textLines_ne_nil first), List.flatMap_append, List.flatMap_map,
    List.flatMap_singleton, own]
  simp only [List.filter_append, List.filter_flatMap, List.filter_singleton,
    isLengthLine_lengthText, blank]
  simp

/-- The own line is the only one exactly if the rest of the head has none. -/
theorem truthful_iff {first : Bytes} {order : IterationOrder} {m : Headers} {content : Bytes} :
    Truthful (linesText (first :: ((order.list m).map headerText ++
        [text "Content-Length: " ++ decimal content.length])) []) content ↔
      ¬SaysLength first m := by
  have value := HttpResponse.valueOf_lengthText content.length
  have entries : ∀ kv, kv ∈ order.list m ↔ kv ∈ entriesOf m := fun kv => (order.perm m).mem_iff
  constructor
  · rintro ⟨line, only, -⟩ other
    rw [lengthLines_linesText] at only
    have none := (List.append_eq_singleton_iff.mp only).resolve_right fun last => by simp at last
    have both := List.append_eq_nil_iff.mp none.1
    rcases other with ⟨line, member, isLength⟩ | ⟨kv, member, line, among, isLength⟩
    · exact List.filter_eq_nil_iff.mp both.1 line member isLength
    · have empty := List.flatMap_eq_nil_iff.mp both.2 kv ((entries kv).mpr member)
      exact List.filter_eq_nil_iff.mp empty line among isLength
  · intro silent
    refine ⟨_, ?_, value⟩
    rw [lengthLines_linesText]
    have inFirst : (textLines (first ++ crlf)).tail.filter isLengthLine = [] :=
      List.filter_eq_nil_iff.mpr fun line member isLength =>
        silent (.inl ⟨line, member, isLength⟩)
    have inHeaders : ((order.list m).flatMap fun kv =>
        (textLines (headerText kv ++ crlf)).filter isLengthLine) = [] :=
      List.flatMap_eq_nil_iff.mpr fun kv member => List.filter_eq_nil_iff.mpr
        fun line among isLength =>
          silent (.inr ⟨kv, (entries kv).mp member, line, among, isLength⟩)
    rw [inFirst, inHeaders]
    rfl

/-! ## Histories of calls -/

/-- The calls that fill a message. -/
inductive Filling where
  | setHeader (name value : Bytes)
  | write (data : Bytes)
  deriving DecidableEq

namespace Filling

/-- A call on a message. -/
def perform (h : HttpBase) : Filling → Except Fault HttpBase
  | .setHeader name value => .ok (h.setHeader name value)
  | .write data => h.write data

/-- Text without line ends, and without a colon in the name. -/
def Plain (kv : Bytes × Bytes) : Prop := 13 ∉ kv.1 ∧ 58 ∉ kv.1 ∧ 13 ∉ kv.2

/-- A message that can still be sent: nothing was prepared, and no content was read. -/
structure Unsent (h : HttpBase) : Prop where
  ready : h.state = .ready
  cleared : h.dataBuffer.Cleared
  contentOk : h.contentBuffer.Ok
  unread : h.contentBuffer.gptr = 0

theorem Unsent.length_content {h : HttpBase} (unsent : Unsent h) :
    h.contentBuffer.readable.length = h.contentBuffer.size := by
  rw [unsent.contentOk.length_readable, unsent.unread, Nat.sub_zero]

theorem Unsent.perform {h next : HttpBase} (unsent : Unsent h) {call : Filling}
    (made : call.perform h = .ok next) : Unsent next := by
  cases call with
  | setHeader name value =>
      cases made
      constructor
      · rw [HttpBase.setHeader_state]
        exact unsent.ready
      · rw [HttpBase.setHeader_dataBuffer]
        exact unsent.cleared
      · rw [HttpBase.setHeader_contentBuffer]
        exact unsent.contentOk
      · rw [HttpBase.setHeader_contentBuffer]
        exact unsent.unread
  | write data =>
      obtain ⟨b, wrote, same⟩ := except_bind_ok.mp made
      cases same
      have longer := (unsent.contentOk.write_of_ok wrote).1
      exact ⟨unsent.ready, unsent.cleared, longer.ok, longer.gptr.trans unsent.unread⟩

theorem Unsent.foldlM {h final : HttpBase} (unsent : Unsent h) {calls : List Filling}
    (made : calls.foldlM Filling.perform h = .ok final) : Unsent final := by
  induction calls generalizing h with
  | nil =>
      cases made
      exact unsent
  | cons call calls ih =>
      obtain ⟨next, first, rest⟩ := except_bind_ok.mp made
      exact ih (unsent.perform first) rest

/-! ## Headers without line ends -/

theorem mem_iff_entriesOf {m : Headers} {name : Bytes} :
    name ∈ m ↔ ∃ value, (name, value) ∈ entriesOf m := by
  rw [AList.mem_keys, AList.keys, List.mem_keys]
  constructor
  · rintro ⟨value, member⟩
    exact ⟨value, List.mem_map.mpr ⟨_, member, rfl⟩⟩
  · rintro ⟨value, member⟩
    obtain ⟨entry, among, same⟩ := List.mem_map.mp member
    cases same
    exact ⟨_, among⟩

theorem entriesOf_insert {m : Headers} {name value : Bytes} {kv : Bytes × Bytes}
    (member : kv ∈ entriesOf (m.insert name value)) : kv = (name, value) ∨ kv ∈ entriesOf m := by
  obtain ⟨entry, among, rfl⟩ := List.mem_map.mp member
  rw [AList.entries_insert] at among
  rcases List.mem_cons.mp among with rfl | before
  · exact .inl rfl
  · exact .inr (List.mem_map.mpr ⟨entry, (List.kerase_sublist name m.entries).subset before, rfl⟩)

theorem saysLength_iff_of_plain {first : Bytes} {m : Headers} (noCr : 13 ∉ first)
    (plain : ∀ kv ∈ entriesOf m, Plain kv) :
    SaysLength first m ↔ ∃ name ∈ m, iequals name (text "Content-Length") = true := by
  have one : textLines (first ++ crlf) = [first] := textLines_of_noCr noCr
  have line : ∀ kv, Plain kv → textLines (headerText kv ++ crlf) = [headerText kv] := by
    intro kv plain
    apply textLines_of_noCr
    intro cr
    rcases List.mem_append.mp cr with name | rest
    · exact plain.1 name
    · rcases List.mem_append.mp rest with between | value
      · revert between
        decide
      · exact plain.2.2 value
  have named : ∀ kv, Plain kv →
      isLengthLine (headerText kv) = iequals kv.1 (text "Content-Length") := by
    intro kv plain
    rw [isLengthLine, nameOf_headerText plain.2.1]
  constructor
  · rintro (⟨line, member, -⟩ | ⟨kv, member, text, among, isLength⟩)
    · rw [one] at member
      cases member
    · rw [line kv (plain kv member)] at among
      rw [List.mem_singleton.mp among, named kv (plain kv member)] at isLength
      exact ⟨kv.1, mem_iff_entriesOf.mpr ⟨kv.2, member⟩, isLength⟩
  · rintro ⟨name, known, isLength⟩
    obtain ⟨value, member⟩ := mem_iff_entriesOf.mp known
    have ofPlain := plain _ member
    refine .inr ⟨_, member, headerText (name, value), ?_, ?_⟩
    · rw [line _ ofPlain]
      exact List.mem_singleton_self _
    · rw [named _ ofPlain]
      exact isLength

/-- After calls with plain text the headers say the length exactly if a header of that
name was there before or was set. -/
theorem saysLength_foldlM_iff {first : Bytes} {start final : HttpBase} {calls : List Filling}
    (noCr : 13 ∉ first) (plain : ∀ kv ∈ entriesOf start.headers, Plain kv)
    (plainCalls : ∀ name value, .setHeader name value ∈ calls → Plain (name, value))
    (made : calls.foldlM Filling.perform start = .ok final) :
    SaysLength first final.headers ↔
      (∃ name ∈ start.headers, iequals name (text "Content-Length") = true) ∨
        ∃ name value, .setHeader name value ∈ calls ∧
          iequals name (text "Content-Length") = true := by
  induction calls generalizing start with
  | nil =>
      cases made
      rw [saysLength_iff_of_plain noCr plain]
      simp
  | cons call calls ih =>
      obtain ⟨next, performed, rest⟩ := except_bind_ok.mp made
      have later : ∀ name value, .setHeader name value ∈ calls → Plain (name, value) :=
        fun name value member => plainCalls name value (List.mem_cons_of_mem call member)
      cases call with
      | write data =>
          obtain ⟨b, wrote, same⟩ := except_bind_ok.mp performed
          cases same
          have kept := @ih { start with contentBuffer := b } plain later rest
          rw [kept]
          simp
      | setHeader name value =>
          cases performed
          have headers := HttpBase.setHeader_headers start name value
          have plainNext : ∀ kv ∈ entriesOf (start.setHeader name value).headers, Plain kv := by
            intro kv member
            rw [headers] at member
            rcases entriesOf_insert member with rfl | before
            · exact plainCalls name value List.mem_cons_self
            · exact plain kv before
          rw [ih plainNext later rest, headers]
          simp only [AList.mem_insert, List.mem_cons, Filling.setHeader.injEq]
          grind

end Filling

/-! ## Requests and responses -/

/-- Preparing succeeds, the calls send the prepared head and the content, and the head
is truthful exactly under the condition. -/
def TruthfulWhen {σ : Type} (base : σ → HttpBase) (prepare : σ → Except Fault σ)
    (writeData : σ → Socket → Outcome σ) (x : σ) (condition : Prop) : Prop :=
  ∃ prepared, prepare x = .ok prepared ∧
    Emits base writeData x
      ((base prepared).dataBuffer.readable ++ (base x).contentBuffer.readable) ∧
    (Truthful (base prepared).dataBuffer.readable (base x).contentBuffer.readable ↔ condition)

open Filling (Unsent Plain)

theorem HttpResponse.truthfulWhen {r : HttpResponse} (order : IterationOrder)
    (unsent : Unsent r.toHttpBase) (small : (r.head order.list).length + 1024 ≤ maxSize) :
    TruthfulWhen toHttpBase (prepareDataBuffer order.list) (writeData order.list) r
      (¬SaysLength (text "HTTP/1.1 " ++ r.status) r.headers) := by
  obtain ⟨b, prepared, carries⟩ := prepareDataBuffer_eq unsent.cleared small
  have head : b.readable = r.head order.list := carries.readable_eq
  have sent := (messageClass order.list).emits unsent.ready unsent.cleared unsent.contentOk prepared
  rw [messageClass_writeData] at sent
  refine ⟨_, prepared, sent, ?_⟩
  change Truthful b.readable r.contentBuffer.readable ↔ _
  rw [head, HttpResponse.head, headerLines, contentLengthText, ← unsent.length_content]
  exact truthful_iff

theorem HttpRequest.truthfulWhen {r : HttpRequest} (order : IterationOrder)
    (unsent : Unsent r.toHttpBase) (url : r.url ≠ []) (some : r.contentBuffer.size ≠ 0)
    (small : (r.head order.list).length + 1024 ≤ maxSize) :
    TruthfulWhen toHttpBase (prepareDataBuffer order.list) (writeData order.list) r
      (¬SaysLength r.requestLine r.headers) := by
  obtain ⟨b, prepared, carries⟩ := prepareDataBuffer_eq url unsent.cleared small
  have head : b.readable = r.head order.list := carries.readable_eq
  have sent := (messageClass order.list).emits unsent.ready unsent.cleared unsent.contentOk prepared
  rw [messageClass_writeData] at sent
  refine ⟨_, prepared, sent, ?_⟩
  change Truthful b.readable r.contentBuffer.readable ↔ _
  rw [head, HttpRequest.head, headLines, if_neg some, if_neg some, contentLengthText,
    ← unsent.length_content]
  exact truthful_iff

/-- After any calls of `set_header` and `write`, the head of a response, and of a request
with content, has exactly one line for the length of the content, with the number of
bytes that follow, if and only if neither its first line nor its headers say a length.
For text without line ends, and names without colons, that is: unless a header with
that name, in any case of letters, was there before or was set. -/
theorem one_length_line_iff (order : IterationOrder) (calls : List Filling) :
    (∀ (r : HttpResponse) (h : HttpBase),
        Unsent r.toHttpBase → calls.foldlM Filling.perform r.toHttpBase = .ok h →
        (HttpResponse.head order.list { r with toHttpBase := h }).length + 1024 ≤ maxSize →
        TruthfulWhen HttpResponse.toHttpBase (HttpResponse.prepareDataBuffer order.list)
          (HttpResponse.writeData order.list) { r with toHttpBase := h }
          (¬SaysLength (text "HTTP/1.1 " ++ r.status) h.headers)) ∧
      (∀ (r : HttpRequest) (h : HttpBase),
        Unsent r.toHttpBase → calls.foldlM Filling.perform r.toHttpBase = .ok h →
        r.url ≠ [] → h.contentBuffer.size ≠ 0 →
        (HttpRequest.head order.list { r with toHttpBase := h }).length + 1024 ≤ maxSize →
        TruthfulWhen HttpRequest.toHttpBase (HttpRequest.prepareDataBuffer order.list)
          (HttpRequest.writeData order.list) { r with toHttpBase := h }
          (¬SaysLength (HttpRequest.requestLine { r with toHttpBase := h }) h.headers)) ∧
      ∀ (first : Bytes) (start h : HttpBase),
        13 ∉ first → (∀ kv ∈ entriesOf start.headers, Plain kv) →
        (∀ name value, .setHeader name value ∈ calls → Plain (name, value)) →
        calls.foldlM Filling.perform start = .ok h →
        (SaysLength first h.headers ↔
          (∃ name ∈ start.headers, iequals name (text "Content-Length") = true) ∨
            ∃ name value, .setHeader name value ∈ calls ∧
              iequals name (text "Content-Length") = true) := by
  refine ⟨?_, ?_, ?_⟩
  · intro r h unsent made small
    exact HttpResponse.truthfulWhen order (unsent.foldlM made) small
  · intro r h unsent made url some small
    exact HttpRequest.truthfulWhen order (unsent.foldlM made) url some small
  · intro first start h noCr plain plainCalls made
    exact Filling.saysLength_foldlM_iff noCr plain plainCalls made

/-- A response for which the user set a header for the length. -/
def lengthSet : HttpResponse where
  toHttpBase := HttpBase.setHeader {} (text "content-length") (text "5")

/-- The header map and the encoder both say a length. -/
theorem two_length_lines :
    [Filling.setHeader (text "content-length") (text "5")].foldlM Filling.perform {} =
        .ok lengthSet.toHttpBase ∧
      ∃ prepared, lengthSet.prepareDataBuffer entriesOf = .ok prepared ∧
        lengthLines prepared.dataBuffer.readable =
          [text "content-length: 5", text "Content-Length: 0"] := by
  refine ⟨rfl, ?_⟩
  obtain ⟨b, prepared, carries⟩ :=
    @HttpResponse.prepareDataBuffer_eq entriesOf lengthSet ⟨rfl, rfl, rfl, by decide⟩ (by decide)
  refine ⟨_, prepared, ?_⟩
  change lengthLines b.readable = _
  rw [carries.readable_eq]
  decide

end LibTasks.Net

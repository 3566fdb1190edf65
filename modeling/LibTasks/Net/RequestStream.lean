import LibTasks.Foundation.LineMessages
import LibTasks.Net.HttpRoundTrip
import LibTasks.Net.ResumableWriting

/-!
# Requests as messages of a stream

What `http_request::prepare_data_buffer` and `write_data` send for a request, next to
the one HTTP message that a request is.  With content the two are the same.  Without
content the encoder still ends the line for the content length, so that the request is
followed by a line end that belongs to no message, and a connection that is kept
alive carries a stream that cannot be split into the requests.
-/

namespace LibTasks.Net

open LibTasks.Foundation LibTasks.Tools
open HttpResponse (headerText headerParts nameOf valueOf)

/-! ## The length of the content -/

/-- A header line for the length of the content. -/
def isLengthLine (line : Bytes) : Bool := iequals (nameOf line) (text "Content-Length")

theorem isLengthLine_lengthText (n : Nat) :
    isLengthLine (text "Content-Length: " ++ decimal n) = true := by
  rw [isLengthLine, HttpResponse.nameOf_lengthText]
  decide

/-- The length of the content after these lines.  The last header line decides, so
that a header that the user set does not hide the encoder's own. -/
def announcedLength (lines : List Bytes) : Nat :=
  match (lines.tail.filter isLengthLine).getLast? with
  | none => 0
  | some line => digitsValue 0 (valueOf line)

theorem announcedLength_lengthText (first : Bytes) (lines : List Bytes) (n : Nat) :
    announcedLength (first :: (lines ++ [text "Content-Length: " ++ decimal n])) = n := by
  have last : ((lines ++ [text "Content-Length: " ++ decimal n]).filter isLengthLine).getLast? =
      some (text "Content-Length: " ++ decimal n) := by
    rw [List.filter_append, List.filter_singleton, isLengthLine_lengthText]
    exact List.getLast?_concat
  rw [announcedLength, List.tail_cons, last]
  change digitsValue 0 (valueOf (text "Content-Length: " ++ decimal n)) = n
  rw [HttpResponse.valueOf_lengthText, digitsValue_decimal]

namespace HttpRequest

/-! ## The head that is written -/

/-- The method, with the blank behind it. -/
def method (r : HttpRequest) : Bytes :=
  if r.contentBuffer.size = 0 then text "GET " else text "POST "

/-- The request line. -/
def requestLine (r : HttpRequest) : Bytes := r.method ++ (r.url ++ text " HTTP/1.1")

/-- The text of the header line for the content length. -/
def contentLengthText (r : HttpRequest) : Bytes :=
  text "Content-Length: " ++ decimal r.contentBuffer.size

/-- The lines of the head: the request line, the headers in the order of the
iteration, and the content length if there is content. -/
def headLines (order : Headers → List (Bytes × Bytes)) (r : HttpRequest) : List Bytes :=
  r.requestLine :: ((order r.headers).map headerText ++
    if r.contentBuffer.size = 0 then [] else [r.contentLengthText])

/-- What `prepare_data_buffer` writes. -/
def head (order : Headers → List (Bytes × Bytes)) (r : HttpRequest) : Bytes :=
  linesText (r.headLines order) (if r.contentBuffer.size = 0 then crlf else [])

/-- All the writes of `prepare_data_buffer`. -/
def headParts (order : Headers → List (Bytes × Bytes)) (r : HttpRequest) : List Bytes :=
  [r.method, r.url, text " HTTP/1.1", crlf] ++ (order r.headers).flatMap headerParts ++
    [if r.contentBuffer.size = 0 then [] else r.contentLengthText, crlf, crlf]

theorem flatten_headParts (order : Headers → List (Bytes × Bytes)) (r : HttpRequest) :
    (r.headParts order).flatten = r.head order := by
  have last : [if r.contentBuffer.size = 0 then [] else r.contentLengthText, crlf, crlf].flatten =
      linesText (if r.contentBuffer.size = 0 then [] else [r.contentLengthText])
        (if r.contentBuffer.size = 0 then crlf else []) := by
    split <;> simp [linesText, crlf]
  rw [headParts, List.flatten_append, List.flatten_append, List.append_assoc, last,
    HttpResponse.flatten_headerParts]
  simp [head, headLines, linesText, requestLine, crlf]

variable {order : Headers → List (Bytes × Bytes)} {r : HttpRequest}

/-- What `prepare_data_buffer` makes of a request whose data buffer is cleared. -/
theorem prepareDataBuffer_eq (url : r.url ≠ []) (cleared : r.dataBuffer.Cleared)
    (small : (r.head order).length + 1024 ≤ maxSize) :
    ∃ b : Buffer, r.prepareDataBuffer order = .ok { r with dataBuffer := b } ∧
      b.Carries (r.head order) 0 := by
  have room : ([] : Bytes).length + (r.headParts order).flatten.length + 1024 ≤ maxSize := by
    rw [flatten_headParts, List.length_nil, Nat.zero_add]
    exact small
  obtain ⟨b, wrote, carries⟩ := cleared.carries.foldlM_write room
  rw [List.nil_append, flatten_headParts] at carries
  refine ⟨b, ?_, carries⟩
  have writes : r.prepareDataBuffer order =
      ((r.headParts order).foldlM Buffer.write r.dataBuffer >>= fun b =>
        .ok { r with dataBuffer := b }) := by
    rw [prepareDataBuffer, if_pos (List.length_pos_iff.mpr url)]
    simp only [headParts, method, contentLengthText, List.append_assoc, List.foldlM_append,
      List.foldlM_cons, List.foldlM_nil, ← HttpResponse.foldlM_writeHeaderLine, bind_assoc,
      pure_bind]
    split <;> rfl
  rw [writes, wrote]
  rfl

end HttpRequest

/-! ## Requests that are sent -/

/-- A request before it is sent: its text has no line ends, its content was not
read from, and its head fits into a vector. -/
structure Outgoing where
  request : HttpRequest
  order : IterationOrder
  url : request.url ≠ []
  cleanUrl : ∀ c ∈ request.url, c ≠ 13 ∧ c ≠ 10
  cleanHeaders : ∀ kv ∈ entriesOf request.headers, ∀ c ∈ kv.1 ++ kv.2, c ≠ 13 ∧ c ≠ 10
  ready : request.state = .ready
  cleared : request.dataBuffer.Cleared
  contentOk : request.contentBuffer.Ok
  unread : request.contentBuffer.gptr = 0
  small : (request.head order.list).length + 1024 ≤ maxSize

namespace Outgoing

/-- The content of the request. -/
def content (o : Outgoing) : Bytes := o.request.contentBuffer.readable

/-- The message that the request is: the request line, a line for each header and one
for the length of the content if there is content, and the content. -/
def message (o : Outgoing) : LineMessage where
  lines := o.request.headLines o.order.list
  body := o.content

/-- What is sent for the request. -/
def encoded (o : Outgoing) : Bytes := o.request.head o.order.list ++ o.content

/-- The next call of `write_data`, unless the request is sent or has failed. -/
def writeCall (o : Outgoing) : Session HttpRequest → Session HttpRequest :=
  Session.call (HttpRequest.writeData o.order.list) fun r => r.done

variable {o : Outgoing}

theorem length_content (o : Outgoing) : o.content.length = o.request.contentBuffer.size := by
  rw [content, o.contentOk.length_readable, o.unread, Nat.sub_zero]

theorem size_eq_zero_iff : o.request.contentBuffer.size = 0 ↔ o.content = [] := by
  rw [← length_content, List.length_eq_zero_iff]

/-- Behind the lines comes the content, or a second line end in its place. -/
theorem encoded_eq (o : Outgoing) :
    o.encoded = linesText o.message.lines (if o.content = [] then crlf else o.content) := by
  rw [encoded, HttpRequest.head, ← linesText_body_append]
  by_cases bare : o.content = []
  · rw [if_pos (size_eq_zero_iff.mpr bare), if_pos bare, bare, List.append_nil]
    rfl
  · rw [if_neg (size_eq_zero_iff.not.mpr bare), if_neg bare, List.nil_append]
    rfl

/-- Only a request with content is sent as one message. -/
theorem encoded_eq_wire_iff (o : Outgoing) : o.encoded = o.message.wire ↔ o.content ≠ [] := by
  rw [encoded_eq, LineMessage.wire]
  change linesText o.message.lines _ = linesText o.message.lines o.content ↔ _
  by_cases bare : o.content = []
  · rw [if_pos bare, bare]
    have longer : linesText o.message.lines crlf ≠ linesText o.message.lines [] := by
      intro same
      have lengths := congrArg List.length same
      rw [length_linesText, length_linesText] at lengths
      exact absurd (Nat.add_left_cancel lengths) (by decide)
    exact ⟨fun same => absurd same longer, fun some => absurd rfl some⟩
  · rw [if_neg bare]
    exact ⟨fun _ => bare, fun _ => rfl⟩

/-- The head is prepared, and with the content it is what the calls send. -/
theorem emits (o : Outgoing) :
    ∃ prepared, o.request.prepareDataBuffer o.order.list = .ok prepared ∧
      prepared.dataBuffer.readable ++ o.content = o.encoded ∧
      Emits HttpRequest.toHttpBase (HttpRequest.writeData o.order.list) o.request o.encoded := by
  obtain ⟨b, prepared, carries⟩ :=
    HttpRequest.prepareDataBuffer_eq o.url o.cleared o.small
  have head : b.readable = o.request.head o.order.list := carries.readable_eq
  refine ⟨_, prepared, congrArg (· ++ o.content) head, ?_⟩
  have sent := (HttpRequest.messageClass o.order.list).emits o.ready o.cleared o.contentOk prepared
  rw [HttpRequest.messageClass_writeData] at sent
  change Emits _ _ _ (b.readable ++ o.content) at sent
  rw [head] at sent
  exact sent

/-! ## Lines without line ends -/

theorem noCr_headerText (o : Outgoing) {kv : Bytes × Bytes}
    (member : kv ∈ o.order.list o.request.headers) : 13 ∉ headerText kv := by
  have clean := o.cleanHeaders kv ((o.order.perm _).mem_iff.mp member)
  intro cr
  rcases List.mem_append.mp cr with name | rest
  · exact (clean 13 (List.mem_append_left _ name)).1 rfl
  · rcases List.mem_append.mp rest with between | value
    · revert between
      decide
    · exact (clean 13 (List.mem_append_right _ value)).1 rfl

theorem noCr_lengthText (n : Nat) : 13 ∉ text "Content-Length: " ++ decimal n := by
  intro cr
  rcases List.mem_append.mp cr with name | number
  · revert name
    decide
  · have digit := isDigit_of_mem_decimal 13 number
    revert digit
    decide

theorem noCr_requestLine (o : Outgoing) : 13 ∉ o.request.requestLine := by
  intro cr
  rcases List.mem_append.mp cr with method | rest
  · revert method
    unfold HttpRequest.method
    split <;> decide
  · rcases List.mem_append.mp rest with url | version
    · exact (o.cleanUrl 13 url).1 rfl
    · revert version
      decide

theorem proper_lines (o : Outgoing) : ∀ line ∈ o.message.lines, line ≠ [] ∧ 13 ∉ line := by
  intro line member
  rcases List.mem_cons.mp member with rfl | header
  · refine ⟨?_, o.noCr_requestLine⟩
    simp [HttpRequest.requestLine, text]
  · rcases List.mem_append.mp header with set | own
    · obtain ⟨kv, entry, rfl⟩ := List.mem_map.mp set
      exact ⟨by simp [headerText, text], o.noCr_headerText entry⟩
    · split at own
      · cases own
      · rw [List.mem_singleton.mp own]
        exact ⟨by simp [HttpRequest.contentLengthText, text], noCr_lengthText _⟩

theorem announcedLength_lines (some : o.content ≠ []) :
    announcedLength o.message.lines = o.content.length := by
  rw [length_content]
  change announcedLength (_ :: (_ ++ ite _ _ _)) = _
  rw [if_neg (size_eq_zero_iff.not.mpr some)]
  exact announcedLength_lengthText _ _ _

/-! ## The stream of a connection -/

/-- Requests that are sent on one connection, each after the one before is done. -/
inductive SentAll : List Outgoing → Socket → Socket → Prop
  | nil (sock : Socket) : SentAll [] sock sock
  | cons {o : Outgoing} {others : List Outgoing} {sock after : Socket}
      {final : Session HttpRequest} (ends : EndsAs o.writeCall ⟨o.request, sock, none⟩ final)
      (rest : SentAll others final.socket after) : SentAll (o :: others) sock after

theorem sentAll (outgoing : List Outgoing) {sock : Socket} (writable : sock.Writable)
    (draining : sock.Draining) :
    ∃ after, SentAll outgoing sock after ∧ after.sent = sock.sent ++ outgoing.flatMap encoded := by
  induction outgoing generalizing sock with
  | nil => exact ⟨sock, .nil sock, (List.append_nil _).symm⟩
  | cons o others ih =>
      obtain ⟨_, -, -, emits⟩ := o.emits
      obtain ⟨final, ends, -, -, sent, acceptances⟩ := emits sock writable draining
      have stillWritable : final.socket.Writable := fun k => acceptances ▸ writable k
      have stillDraining : final.socket.Draining := fun k => acceptances ▸ draining k
      obtain ⟨after, all, sentAfter⟩ := ih stillWritable stillDraining
      refine ⟨after, .cons ends all, ?_⟩
      rw [sentAfter, sent, List.flatMap_cons, List.append_assoc]

/-- The stream splits into the messages exactly if all requests have content. -/
theorem splitMessages_encoded_iff (outgoing : List Outgoing) {fuel : Nat}
    (enough : outgoing.length ≤ fuel) :
    splitMessages announcedLength fuel (outgoing.flatMap encoded) =
        some (outgoing.map message) ↔ ∀ o ∈ outgoing, o.content ≠ [] := by
  induction outgoing generalizing fuel with
  | nil => simp [splitMessages]
  | cons o others ih =>
      obtain ⟨fuel, rfl⟩ := Nat.exists_eq_add_of_le' (Nat.le_trans (Nat.le_add_left 1 _) enough)
      have first : o.message.lines ≠ [] := List.cons_ne_nil _ _
      rw [List.flatMap_cons, encoded_eq, ← linesText_body_append,
        splitMessages_linesText first o.proper_lines, List.forall_mem_cons]
      by_cases bare : o.content = []
      · -- What follows the head is a line end: content of a length that a header claims,
        -- or the beginning of what should be the next message.
        refine ⟨fun split => ?_, fun all => absurd bare all.1⟩
        rw [if_pos bare] at split
        split at split
        · cases split
        · obtain ⟨messages, rest, same⟩ := Option.map_eq_some_iff.mp split
          have body : (crlf ++ others.flatMap encoded).take (announcedLength o.message.lines) =
              [] := by
            have heads := (List.cons.inj same).1
            exact (congrArg LineMessage.body heads).trans bare
          cases length : announcedLength o.message.lines with
          | zero =>
              rw [length] at rest
              change splitMessages _ fuel (13 :: 10 :: _) = _ at rest
              rw [splitMessages_empty] at rest
              cases rest
          | succ n =>
              rw [length] at body
              cases body
      · have announced : announcedLength o.message.lines = o.content.length :=
          announcedLength_lines bare
        have inside : ¬(o.content ++ others.flatMap encoded).length < o.content.length := by
          simp
        rw [if_neg bare, announced, if_neg inside, List.drop_left, List.take_left, List.map_cons]
        have rest := ih (Nat.le_of_succ_le_succ enough)
        constructor
        · intro split
          obtain ⟨messages, split, same⟩ := Option.map_eq_some_iff.mp split
          rw [(List.cons.inj same).2] at split
          exact ⟨bare, rest.mp split⟩
        · intro all
          rw [rest.mpr all.2]
          rfl

theorem length_le_length_flatMap (outgoing : List Outgoing) :
    outgoing.length ≤ (outgoing.flatMap encoded).length := by
  induction outgoing with
  | nil => exact Nat.le_refl 0
  | cons o others ih =>
      rw [List.flatMap_cons, List.length_append, List.length_cons, encoded_eq, length_linesText]
      omega

end Outgoing

/-- A request for `/` without content. -/
def bareRequest : Outgoing where
  request := HttpRequest.create (text "h") (text "/")
  order := entriesOrder
  url := by decide
  cleanUrl := by decide +kernel
  cleanHeaders := by decide +kernel
  ready := rfl
  cleared := ⟨rfl, rfl, rfl, by decide⟩
  contentOk := ⟨by decide, by decide, by decide, by decide⟩
  unread := rfl
  small := by decide

/-- A request with content. -/
def postedRequest : Outgoing where
  request := {
    HttpRequest.create (text "host") (text "/add") with
    contentBuffer := { storage := text "abc", size := 3, pptr := 3 } }
  order := entriesOrder
  url := by decide
  cleanUrl := by decide +kernel
  cleanHeaders := by decide +kernel
  ready := rfl
  cleared := ⟨rfl, rfl, rfl, by decide⟩
  contentOk := ⟨by decide, by decide, by decide, by decide⟩
  unread := rfl
  small := by decide

example : splitStream announcedLength (postedRequest.encoded ++ postedRequest.encoded) =
    some [postedRequest.message, postedRequest.message] := by
  decide +kernel

end LibTasks.Net

import LibTasks.Tools.BufferStream
import LibTasks.Net.HttpDelivery

/-!
# From the writer of a response to the reader

What `http_response::prepare_data_buffer` leaves in the data buffer is the header
block of a well-formed response, and the reader gets from it and the content what
was sent, with a `Content-Length` in addition.
-/

namespace LibTasks.Net

open LibTasks.Foundation LibTasks.Tools

namespace HttpResponse

/-! ## The header block that is written -/

/-- The text of a header line. -/
def headerText (kv : Bytes × Bytes) : Bytes := kv.1 ++ (text ": " ++ kv.2)

/-- The last header line. -/
def contentLengthText (r : HttpResponse) : Bytes :=
  text "Content-Length: " ++ decimal r.contentBuffer.size

/-- The header lines, in the order of the iteration. -/
def headerLines (order : Headers → List (Bytes × Bytes)) (r : HttpResponse) : List Bytes :=
  (order r.headers).map headerText ++ [r.contentLengthText]

/-- The header block. -/
def head (order : Headers → List (Bytes × Bytes)) (r : HttpResponse) : Bytes :=
  linesText ((text "HTTP/1.1 " ++ r.status) :: r.headerLines order) []

/-- The writes that make a header line. -/
def headerParts (kv : Bytes × Bytes) : List Bytes := [kv.1, text ": ", kv.2, crlf]

theorem foldlM_writeHeaderLine (b : Buffer) (kvs : List (Bytes × Bytes)) :
    kvs.foldlM writeHeaderLine b = (kvs.flatMap headerParts).foldlM Buffer.write b := by
  induction kvs generalizing b with
  | nil => rfl
  | cons kv kvs ih =>
      have line : (headerParts kv).foldlM Buffer.write b = writeHeaderLine b kv := by
        simp [headerParts, writeHeaderLine]
      rw [List.foldlM_cons, List.flatMap_cons, List.foldlM_append, line]
      congr 1
      funext next
      exact ih next

/-- The writes of header lines make lines of the text that follows. -/
theorem flatten_headerParts (kvs : List (Bytes × Bytes)) (others : List Bytes) (body : Bytes) :
    (kvs.flatMap headerParts).flatten ++ linesText others body =
      linesText (kvs.map headerText ++ others) body := by
  induction kvs with
  | nil => rfl
  | cons kv kvs ih =>
      rw [List.flatMap_cons, List.flatten_append, List.append_assoc, ih]
      simp [headerParts, linesText, headerText, crlf]

/-- All the writes of `prepare_data_buffer`. -/
def headParts (order : Headers → List (Bytes × Bytes)) (r : HttpResponse) : List Bytes :=
  [text "HTTP/1.1 ", r.status, crlf] ++ (order r.headers).flatMap headerParts ++
    [r.contentLengthText, crlf, crlf]

theorem flatten_headParts (order : Headers → List (Bytes × Bytes)) (r : HttpResponse) :
    (r.headParts order).flatten = r.head order := by
  have last : [r.contentLengthText, crlf, crlf].flatten = linesText [r.contentLengthText] [] := by
    simp [linesText, crlf]
  rw [headParts, List.flatten_append, List.flatten_append, List.append_assoc, last,
    flatten_headerParts]
  simp [head, linesText, crlf, headerLines]

variable {order : Headers → List (Bytes × Bytes)} {r : HttpResponse}

/-- What `prepare_data_buffer` makes of a response whose data buffer is cleared. -/
theorem prepareDataBuffer_eq (cleared : r.dataBuffer.Cleared)
    (small : (r.head order).length + 1024 ≤ maxSize) :
    ∃ b : Buffer, r.prepareDataBuffer order = .ok { r with dataBuffer := b } ∧
      b.Carries (r.head order) 0 := by
  have room : ([] : Bytes).length + (r.headParts order).flatten.length + 1024 ≤ maxSize := by
    rw [flatten_headParts, List.length_nil, Nat.zero_add]
    exact small
  obtain ⟨b, wrote, carries⟩ := cleared.carries.foldlM_write room
  rw [List.nil_append, flatten_headParts] at carries
  refine ⟨b, ?_, carries⟩
  have writes : r.prepareDataBuffer order =
      ((r.headParts order).foldlM Buffer.write r.dataBuffer >>= fun b =>
        .ok { r with dataBuffer := b }) := by
    simp only [headParts, List.append_assoc, List.foldlM_append, List.foldlM_cons,
      List.foldlM_nil, ← foldlM_writeHeaderLine, contentLengthText, prepareDataBuffer,
      bind_assoc, pure_bind]
  rw [writes, wrote]
  rfl

/-! ## What the header lines say -/

/-- The conditions under which the text of a response can be read back. -/
structure Sendable (r : HttpResponse) : Prop where
  status : ∀ c ∈ r.status, c ≠ 13 ∧ c ≠ 10 ∧ c ≠ 0
  code : 100 ≤ atoi r.status ∧ atoi r.status ≤ 999
  name : ∀ kv ∈ entriesOf r.headers, ∀ c ∈ kv.1, c ≠ 13 ∧ c ≠ 10 ∧ c ≠ 0 ∧ c ≠ 58
  value : ∀ kv ∈ entriesOf r.headers, ∀ c ∈ kv.2, c ≠ 13 ∧ c ≠ 10 ∧ c ≠ 0
  noSpace : ∀ kv ∈ entriesOf r.headers, kv.2.head? ≠ some 32
  notLength : ∀ kv ∈ entriesOf r.headers, iequals kv.1 (text "Content-Length") = false
  notEncoding : ∀ kv ∈ entriesOf r.headers, iequals kv.1 (text "Transfer-Encoding") = false

theorem clean_of_all {s : Bytes} (clean : s.all (fun c => c ≠ 13 ∧ c ≠ 10 ∧ c ≠ 0) = true) :
    ∀ c ∈ s, c ≠ 13 ∧ c ≠ 10 ∧ c ≠ 0 :=
  fun c member => of_decide_eq_true (List.all_eq_true.mp clean c member)

theorem findIdx_append_cons {c : UInt8} {s : Bytes} (absent : c ∉ s) (rest : Bytes) :
    (s ++ c :: rest).findIdx (· = c) = s.length := by
  induction s with
  | nil => simp [List.findIdx_cons]
  | cons d s ih =>
      have other : d ≠ c := fun same => absent (same ▸ List.mem_cons_self)
      rw [List.cons_append, List.findIdx_cons, decide_eq_false other, cond_false,
        ih fun member => absent (List.mem_cons_of_mem d member), List.length_cons]

theorem nameOf_headerText {kv : Bytes × Bytes} (noColon : 58 ∉ kv.1) :
    nameOf (headerText kv) = kv.1 := by
  have place : (headerText kv).findIdx (· = 58) = kv.1.length :=
    findIdx_append_cons noColon (32 :: kv.2)
  rw [nameOf, place]
  exact List.take_left

theorem valueOf_headerText {kv : Bytes × Bytes} (noColon : 58 ∉ kv.1)
    (noSpace : kv.2.head? ≠ some 32) : valueOf (headerText kv) = kv.2 := by
  have place : (headerText kv).findIdx (· = 58) = kv.1.length :=
    findIdx_append_cons noColon (32 :: kv.2)
  have rest : (headerText kv).drop (kv.1.length + 1) = 32 :: kv.2 := by
    rw [← List.drop_drop, headerText, List.drop_left]
    rfl
  rw [valueOf, place, rest]
  generalize kv.2 = value at noSpace
  cases value with
  | nil => rfl
  | cons c value =>
      have other : c ≠ 32 := fun same => noSpace (by rw [same, List.head?_cons])
      simp [other]

/-- The line for the content length that the writers make. -/
theorem lengthText_eq (n : Nat) :
    text "Content-Length: " ++ decimal n = headerText (text "Content-Length", decimal n) :=
  rfl

theorem lengthName_noColon : 58 ∉ text "Content-Length" := by decide

theorem nameOf_lengthText (n : Nat) :
    nameOf (text "Content-Length: " ++ decimal n) = text "Content-Length" := by
  rw [lengthText_eq, nameOf_headerText lengthName_noColon]

theorem valueOf_lengthText (n : Nat) :
    valueOf (text "Content-Length: " ++ decimal n) = decimal n := by
  rw [lengthText_eq]
  apply valueOf_headerText lengthName_noColon
  intro space
  have digit := isDigit_of_mem_decimal 32 (List.mem_of_mem_head? space)
  revert digit
  decide

/-- The header map after headers with different names were added. -/
def addHeaders (m : Headers) (kvs : List (Bytes × Bytes)) : Headers :=
  kvs.foldl (fun m kv => m.insert kv.1 kv.2) m

theorem lookup_addHeaders {m : Headers} {kvs : List (Bytes × Bytes)} (name : Bytes)
    (different : (kvs.map toEntry).NodupKeys) :
    (addHeaders m kvs).lookup name = ((kvs.map toEntry).dlookup name).or (m.lookup name) := by
  induction kvs generalizing m with
  | nil => rfl
  | cons kv kvs ih =>
      rw [List.map_cons, toEntry, List.nodupKeys_cons] at different
      have rest : (addHeaders m (kv :: kvs)).lookup name = _ :=
        ih (m := m.insert kv.1 kv.2) different.2
      rw [rest, List.map_cons, toEntry]
      by_cases same : name = kv.1
      · rw [same, List.dlookup_cons_eq, List.dlookup_eq_none.mpr different.1, AList.lookup_insert]
        rfl
      · rw [List.dlookup_cons_ne _ _ same, AList.lookup_insert_ne same]

/-- Header lines for different names that mean nothing to the reader. -/
theorem describe_headerText {h : HttpResponse} {kvs : List (Bytes × Bytes)}
    (different : (kvs.map toEntry).NodupKeys) (new : ∀ kv ∈ kvs, kv.1 ∉ h.headers)
    (read : ∀ kv ∈ kvs, nameOf (headerText kv) = kv.1 ∧ valueOf (headerText kv) = kv.2)
    (plain : ∀ kv ∈ kvs, iequals kv.1 (text "Content-Length") = false ∧
      iequals kv.1 (text "Transfer-Encoding") = false) :
    describe h (kvs.map headerText) = { h with headers := addHeaders h.headers kvs } := by
  induction kvs generalizing h with
  | nil => rfl
  | cons kv kvs ih =>
      rw [List.map_cons, toEntry, List.nodupKeys_cons] at different
      obtain ⟨name, value⟩ := read kv List.mem_cons_self
      obtain ⟨notLength, notEncoding⟩ := plain kv List.mem_cons_self
      have inserted : h.insertHeader kv.1 kv.2 =
          { h with headers := h.headers.insert kv.1 kv.2 } := by
        simp only [insertHeader, if_neg (new kv List.mem_cons_self), notLength, notEncoding,
          Bool.false_eq_true, false_and, ↓reduceIte]
      have newLater : ∀ other ∈ kvs, other.1 ∉ h.headers.insert kv.1 kv.2 := by
        intro other member known
        rcases (AList.mem_insert _).mp known with same | before
        · have among : other.1 ∈ (kvs.map toEntry).keys :=
            List.mem_keys_of_mem (List.mem_map_of_mem (f := toEntry) member)
          exact different.1 (same ▸ among)
        · exact new other (List.mem_cons_of_mem kv member) before
      have rest := @ih { h with headers := h.headers.insert kv.1 kv.2 } different.2 newLater
        (fun other member => read other (List.mem_cons_of_mem kv member))
        (fun other member => plain other (List.mem_cons_of_mem kv member))
      rw [List.map_cons, describe, List.foldl_cons, name, value, inserted]
      exact rest

end HttpResponse

/-! ## The response that is sent -/

namespace HttpResponse.Sendable

open HttpResponse

variable {r : HttpResponse} {order : IterationOrder}

theorem mem_entries {kv : Bytes × Bytes} (member : kv ∈ order.list r.headers) :
    kv ∈ entriesOf r.headers :=
  (order.perm r.headers).mem_iff.mp member

theorem different (order : IterationOrder) (r : HttpResponse) :
    ((order.list r.headers).map toEntry).NodupKeys :=
  (List.perm_nodupKeys (order.entries_perm r.headers)).mpr r.headers.nodupKeys

theorem lookup_addHeaders (order : IterationOrder) (r : HttpResponse) (name : Bytes) :
    (addHeaders ∅ (order.list r.headers)).lookup name = r.headers.lookup name := by
  rw [HttpResponse.lookup_addHeaders name (different order r),
    List.perm_dlookup name (different order r) (order.entries_perm r.headers)]
  exact Option.or_none

/-- The header map that the lines say. -/
theorem describe_headerLines (sendable : r.Sendable) (order : IterationOrder)
    (small : r.contentBuffer.size < 2 ^ 31) :
    describe {} (r.headerLines order.list) = {
      headers := (addHeaders ∅ (order.list r.headers)).insert (text "Content-Length")
        (decimal r.contentBuffer.size)
      contentLength := r.contentBuffer.size
      contentLengthExists := true } := by
  have noColon : ∀ kv ∈ order.list r.headers, 58 ∉ kv.1 := fun kv member colon =>
    (sendable.name kv (mem_entries member) 58 colon).2.2.2 rfl
  have headers := describe_headerText (h := {}) (different order r)
    (fun _ _ => AList.notMem_empty _)
    (fun kv member => ⟨nameOf_headerText (noColon kv member),
      valueOf_headerText (noColon kv member) (sendable.noSpace kv (mem_entries member))⟩)
    (fun kv member => ⟨sendable.notLength kv (mem_entries member),
      sendable.notEncoding kv (mem_entries member)⟩)
  have new : text "Content-Length" ∉ addHeaders ∅ (order.list r.headers) := by
    rw [← AList.lookup_eq_none, lookup_addHeaders, AList.lookup_eq_none]
    intro known
    obtain ⟨entry, member, same⟩ := List.mem_map.mp (AList.mem_keys.mp known)
    have other : iequals entry.1 (text "Content-Length") = false :=
      sendable.notLength (entry.1, entry.2) (List.mem_map.mpr ⟨entry, member, rfl⟩)
    rw [same] at other
    revert other
    decide
  have length : toSize (atoi (decimal r.contentBuffer.size)) = r.contentBuffer.size := by
    rw [atoi_decimal small, toSize_natCast (by omega)]
  have known : iequals (text "Content-Length") (text "Content-Length") = true := by decide
  rw [headerLines, describe, List.foldl_append]
  change (describe {} ((order.list r.headers).map headerText)).insertHeader
    (nameOf r.contentLengthText) (valueOf r.contentLengthText) = _
  rw [headers, contentLengthText, nameOf_lengthText, valueOf_lengthText, insertHeader, if_neg new,
    if_pos known, length]

theorem isLine_of_clean {line : Bytes} (nonempty : line ≠ [])
    (clean : ∀ c ∈ line, c ≠ 13 ∧ c ≠ 10 ∧ c ≠ 0) : IsLine line where
  nonempty := nonempty
  noCr member := (clean 13 member).1 rfl
  noLf member := (clean 10 member).2.1 rfl
  noNul member := (clean 0 member).2.2 rfl

theorem isLine_status (sendable : r.Sendable) : IsLine (text "HTTP/1.1 " ++ r.status) := by
  apply isLine_of_clean (by simp [text])
  intro c member
  rcases List.mem_append.mp member with start | status
  · exact clean_of_all (s := text "HTTP/1.1 ") (by decide) c start
  · exact sendable.status c status

theorem isLine_header (sendable : r.Sendable) (order : IterationOrder) :
    ∀ line ∈ r.headerLines order.list, IsLine line ∧ 58 ∈ line := by
  have separator := clean_of_all (s := text ": ") (by decide)
  intro line member
  rcases List.mem_append.mp member with header | last
  · obtain ⟨kv, entry, rfl⟩ := List.mem_map.mp header
    have colon : 58 ∈ headerText kv := by simp [headerText, text]
    refine ⟨isLine_of_clean (List.ne_nil_of_mem colon) fun c member => ?_, colon⟩
    rcases List.mem_append.mp member with name | rest
    · obtain ⟨noCr, noLf, noNul, -⟩ := sendable.name kv (mem_entries entry) c name
      exact ⟨noCr, noLf, noNul⟩
    · rcases List.mem_append.mp rest with between | value
      · exact separator c between
      · exact sendable.value kv (mem_entries entry) c value
  · have name := clean_of_all (s := text "Content-Length: ") (by decide)
    have digit : ∀ c, isDigit c = true → c ≠ 13 ∧ c ≠ 10 ∧ c ≠ 0 := by
      rintro c digit
      refine ⟨?_, ?_, ?_⟩ <;> rintro rfl <;> revert digit <;> decide
    rw [List.mem_singleton.mp last]
    have colon : 58 ∈ r.contentLengthText := List.mem_append_left _ (by decide)
    refine ⟨isLine_of_clean (List.ne_nil_of_mem colon) fun c member => ?_, colon⟩
    rcases List.mem_append.mp member with start | number
    · exact name c start
    · exact digit c (isDigit_of_mem_decimal c number)

/-- The response that is sent with the content. -/
def response (sendable : r.Sendable) (order : IterationOrder) (content : Bytes)
    (size : r.contentBuffer.size = content.length) (small : content.length < 2 ^ 31) :
    Response where
  statusLine := text "HTTP/1.1 " ++ r.status
  headerLines := r.headerLines order.list
  body := content
  proper := List.forall_mem_cons.mpr
    ⟨sendable.isLine_status, fun line member => (sendable.isLine_header order line member).1⟩
  version := by simp [text]
  code := sendable.code
  headers := fun line member => (sendable.isLine_header order line member).2
  announced := by rw [sendable.describe_headerLines order (size ▸ small)]
  plain := by rw [sendable.describe_headerLines order (size ▸ small)]
  length := by rw [sendable.describe_headerLines order (size ▸ small), size]

end HttpResponse.Sendable

namespace HttpResponse

variable {r reader : HttpResponse} {status content : Bytes} {sock : Socket}

/-- What is written of a response is read back, when the first read that returns
anything returns the whole header block and no read gets all it asks for: the status,
the headers and a `Content-Length`, and the content. -/
theorem sent_received (cleared : r.dataBuffer.Cleared) (carries : r.contentBuffer.Carries content 0)
    (sendable : (r.setStatus status).Sendable) (short : content.length < 2 ^ 31)
    (order : IterationOrder) (fresh : reader.Fresh)
    (room : reader.contentBuffer.storage.length ≤ 2 ^ 62) (healthy : sock.Healthy)
    (fair : sock.Fair)
    (stream : sock.incoming = (r.setStatus status).head order.list ++ content)
    (conditions : ∀ n, ∀ place ∈ heads (readCall^[n] ⟨reader, sock, none⟩),
      ReadsShort place.1 place.2 ∧
        ReadsFirst ((r.setStatus status).head order.list).length place.1 place.2) :
    ∃ sent final, (r.setStatus status).prepareDataBuffer order.list = .ok sent ∧
      sent.dataBuffer.readable = (r.setStatus status).head order.list ∧
      EndsAs readCall ⟨reader, sock, none⟩ final ∧ final.failure = none ∧
      final.object.state = .done ∧ final.object.status = status ∧
      final.object.statusCode = (r.setStatus status).statusCode ∧
      (∀ name, final.object.headers.lookup name =
        if name = text "Content-Length" then some (decimal content.length)
        else r.headers.lookup name) ∧
      final.object.contentLength = content.length ∧
      final.object.contentBuffer.readable = content := by
  have size : (r.setStatus status).contentBuffer.size = content.length := carries.size
  let p := sendable.response order content size short
  have text : p.bytes = (r.setStatus status).head order.list ++ content :=
    linesText_body_append _ [] content
  have headLength : p.headLength = ((r.setStatus status).head order.list).length :=
    (length_linesText _ []).symm
  have limit : reader.contentBuffer.storage.length +
      5120 * (readBufferSizeBlock + p.body.length) + 10240 ≤ maxSize := by
    change _ + 5120 * (4096 + content.length) + 10240 ≤ 2 ^ 63 - 1
    omega
  rw [← headLength] at conditions
  obtain ⟨final, ends, alive, received, fits⟩ :=
    p.endsAs_received fresh limit healthy fair (stream.trans text.symm) conditions
  rw [headLength] at fits
  have small : ((r.setStatus status).head order.list).length + 1024 ≤ maxSize := by
    unfold readBufferSizeBlock at fits
    unfold maxSize
    omega
  obtain ⟨b, prepared, carriesHead⟩ := prepareDataBuffer_eq (r := r.setStatus status) cleared small
  have described := sendable.describe_headerLines order (size ▸ short)
  obtain ⟨sameStatus, sameCode, headers, length⟩ := received.seen fresh
  refine ⟨_, final, prepared, carriesHead.readable_eq, ends, alive, received.state_eq, sameStatus,
    sameCode, ?_, length, received.readable⟩
  intro name
  rw [headers, show p.headerLines = (r.setStatus status).headerLines order.list from rfl, described,
    size]
  dsimp only
  by_cases same : name = Foundation.text "Content-Length"
  · rw [if_pos same, same, AList.lookup_insert]
  · rw [if_neg same, AList.lookup_insert_ne same, Sendable.lookup_addHeaders]
    rfl

/-- A response with one header and three bytes of content. -/
def sampleResponse : HttpResponse where
  contentBuffer := { storage := [13, 10, 0], size := 3, pptr := 3 }
  headers := AList.singleton (text "A") (text "b")

/-- The response arrives in pieces of 45 bytes, one more than its header block has. -/
def sampleSocket : Socket where
  incoming := (sampleResponse.setStatus (text "200 OK")).head entriesOf ++ [13, 10, 0]
  arrivals := fun _ => .deliver 45

theorem sampleResponse_sendable : (sampleResponse.setStatus (text "200 OK")).Sendable := by
  have only : ∀ kv ∈ entriesOf (sampleResponse.setStatus (text "200 OK")).headers,
      kv = ([65], [98]) := fun kv member => List.mem_singleton.mp member
  refine ⟨clean_of_all (by decide), by decide, ?_, ?_, by decide, by decide, by decide⟩
  · intro kv member c inside
    rw [only kv member] at inside
    cases List.mem_singleton.mp inside
    decide
  · intro kv member c inside
    rw [only kv member] at inside
    cases List.mem_singleton.mp inside
    decide

theorem sent_received_sample :
    ∃ sent final,
      (sampleResponse.setStatus (text "200 OK")).prepareDataBuffer entriesOf = .ok sent ∧
      sent.dataBuffer.readable = (sampleResponse.setStatus (text "200 OK")).head entriesOf ∧
      EndsAs readCall ⟨{}, sampleSocket, none⟩ final ∧ final.failure = none ∧
      final.object.state = .done ∧ final.object.status = text "200 OK" ∧
      final.object.statusCode = (sampleResponse.setStatus (text "200 OK")).statusCode ∧
      (∀ name, final.object.headers.lookup name =
        if name = text "Content-Length" then some (decimal 3)
        else sampleResponse.headers.lookup name) ∧
      final.object.contentLength = 3 ∧ final.object.contentBuffer.readable = [13, 10, 0] := by
  have carries : sampleResponse.contentBuffer.Carries [13, 10, 0] 0 :=
    ⟨⟨by decide, by decide, by decide, by decide⟩, rfl, rfl, rfl, rfl⟩
  let order : IterationOrder := ⟨entriesOf, fun _ => .refl _⟩
  let p := sampleResponse_sendable.response order [13, 10, 0] rfl (by decide)
  have length : p.headLength = 44 := by decide
  have same : ((sampleResponse.setStatus (text "200 OK")).head entriesOf).length = 44 := by decide
  refine sent_received ⟨rfl, rfl, rfl, Nat.zero_le _⟩ carries sampleResponse_sendable (by decide)
    order fresh_default (Nat.zero_le _) (fun _ => .inr ⟨45, rfl⟩)
    (fun k => ⟨k, Nat.le_refl k, 45, rfl⟩) rfl ?_
  rw [show ((sampleResponse.setStatus (text "200 OK")).head order.list).length = p.headLength from
    same.trans length.symm]
  refine p.reads_of_pieces fresh_default rfl fun k n piece => ?_
  cases piece
  rw [length]
  decide

end HttpResponse

end LibTasks.Net

import Mathlib
import LibTasks.Net.Sending
import LibTasks.Net.UwsgiRoundTrip

/-!
# Sending several requests with one object

`http_sender` sends a request with `write_data` and then clears it for the next
one.  `clear` keeps the storage of the buffers, and the encoder sends four bytes
of it behind the variables: what is sent depends on earlier requests, unless
these four bytes happen to be zero.
-/

namespace LibTasks.Net.UwsgiRequest

open LibTasks.Foundation LibTasks.Tools

/-! ## Composing a request -/

/-- One request: the calls of `set_header` and of `write`, and the order in which
the header map is iterated.  All of it is in memory. -/
structure Round where
  headers : List (Bytes × Bytes)
  writes : List Bytes
  order : IterationOrder
  memory :
    (headers.map fun kv => 4 + kv.1.length + kv.2.length).sum + writes.flatten.length ≤ 2 ^ 61

/-- The header map of a request. -/
def Round.headerMap (round : Round) : Headers :=
  round.headers.foldl (fun m kv => m.insert kv.1 kv.2) ∅

/-- The content of a request. -/
def Round.content (round : Round) : Bytes := round.writes.flatten

/-- Make the calls on an object.  Headers and content are independent of each
other, so the headers may come first. -/
def Round.compose (round : Round) (r : UwsgiRequest) : Except Fault UwsgiRequest := do
  let h := round.headers.foldl (fun h kv => h.setHeader kv.1 kv.2) r.toHttpBase
  let h ← round.writes.foldlM HttpBase.write h
  .ok { r with toHttpBase := h }

theorem setHeaders_headers (headers : List (Bytes × Bytes)) (h : HttpBase) :
    (headers.foldl (fun h kv => h.setHeader kv.1 kv.2) h).headers =
      headers.foldl (fun m kv => m.insert kv.1 kv.2) h.headers := by
  induction headers generalizing h with
  | nil => rfl
  | cons kv headers ih =>
      rw [List.foldl_cons, List.foldl_cons, ih, HttpBase.setHeader_headers]

theorem setHeaders_sameBuffers (headers : List (Bytes × Bytes)) (h : HttpBase) :
    SameBuffers h (headers.foldl (fun h kv => h.setHeader kv.1 kv.2) h) := by
  induction headers generalizing h with
  | nil => exact ⟨rfl, rfl, rfl⟩
  | cons kv headers ih =>
      exact SameBuffers.trans (setVar_sameBuffers h (some kv)) (ih _)

theorem writes_drafting {memory data : Bytes} {writes : List Bytes} {h : HttpBase}
    (drafting : Drafting memory 0 data h.contentBuffer)
    (small : data.length + writes.flatten.length + 1024 ≤ maxSize) :
    ∃ b, writes.foldlM HttpBase.write h = .ok { h with contentBuffer := b } ∧
      Drafting memory 0 (data ++ writes.flatten) b := by
  induction writes generalizing data h with
  | nil => exact ⟨h.contentBuffer, rfl, by rwa [List.flatten_nil, List.append_nil]⟩
  | cons first writes ih =>
      rw [List.flatten_cons, List.length_append] at small
      have size := drafting.size
      obtain ⟨next, wrote, written⟩ := drafting.write
        (show h.contentBuffer.size + first.length + 1024 ≤ maxSize by omega)
      obtain ⟨b, wroteRest, done⟩ := ih (h := { h with contentBuffer := next }) written (by
        rw [List.length_append]
        omega)
      refine ⟨b, ?_, ?_⟩
      · simp only [List.foldlM_cons, HttpBase.write, wrote, bind, Except.bind]
        exact wroteRest
      · rwa [List.flatten_cons, ← List.append_assoc]

/-- An object that can take a new request. -/
structure Reusable (r : UwsgiRequest) : Prop extends Fresh r where
  uwsgiHeader : r.uwsgiHeader = {}

/-- Composing a request only uses what `clear` resets. -/
theorem Round.compose_eq (round : Round) {r : UwsgiRequest} (reusable : r.Reusable) :
    ∃ composed, round.compose r = .ok composed ∧ composed.Composed round.content ∧
      composed.headers = round.headerMap ∧ composed.dataBuffer = r.dataBuffer := by
  have memory := round.memory
  let h := round.headers.foldl (fun h kv => h.setHeader kv.1 kv.2) r.toHttpBase
  have same : SameBuffers r.toHttpBase h := setHeaders_sameBuffers _ _
  have start : Drafting r.contentBuffer.storage 0 [] h.contentBuffer := by
    rw [same.content]
    exact Drafting.empty reusable.content
  have room : ([] : Bytes).length + round.writes.flatten.length + 1024 ≤ maxSize := by
    rw [List.length_nil]
    unfold maxSize
    omega
  obtain ⟨b, wrote, done⟩ := writes_drafting start room
  rw [List.nil_append] at done
  refine ⟨{ r with toHttpBase := { h with contentBuffer := b } }, ?_, ?_, ?_, same.data⟩
  · show (round.writes.foldlM HttpBase.write h >>= fun h => _) = _
    rw [wrote]
    rfl
  · exact ⟨same.state.trans reusable.state, same.data ▸ reusable.data, done.ok, done.gptr,
      by rw [done.size, Nat.zero_add]; rfl, done.readable_eq, reusable.uwsgiHeader⟩
  · show h.headers = _
    rw [setHeaders_headers, reusable.headers]
    rfl

/-! ## The size of what is sent -/

theorem wireSize_insert_le (m : Headers) (key value : Bytes) :
    wireSize (m.insert key value) ≤ 4 + key.length + value.length + wireSize m := by
  have fewer := ((m.entries.kerase_sublist key).map fun entry =>
    4 + entry.1.length + entry.2.length).sum_le_sum fun _ _ => Nat.zero_le _
  simp only [wireSize, entriesOf, AList.entries_insert, List.map_cons, List.sum_cons, List.map_map]
  exact Nat.add_le_add_left fewer _

theorem wireSize_foldl_insert_le (headers : List (Bytes × Bytes)) (m : Headers) :
    wireSize (headers.foldl (fun m kv => m.insert kv.1 kv.2) m) ≤
      (headers.map fun kv => 4 + kv.1.length + kv.2.length).sum + wireSize m := by
  induction headers generalizing m with
  | nil => simp
  | cons kv headers ih =>
      have rest := ih (m.insert kv.1 kv.2)
      have first := wireSize_insert_le m kv.1 kv.2
      rw [List.foldl_cons, List.map_cons, List.sum_cons]
      omega

theorem length_wire_truncated_le (vars : List (Bytes × Bytes)) :
    (wire (vars.map truncatedVar)).length ≤ (wire vars).length := by
  induction vars with
  | nil => exact Nat.le_refl _
  | cons kv vars ih =>
      have key := length_truncated kv.1
      have value := length_truncated kv.2
      have keyLess := Nat.mod_le kv.1.length (2 ^ 16)
      have valueLess := Nat.mod_le kv.2.length (2 ^ 16)
      simp only [List.map_cons, wire_cons, List.length_append, length_wireVar, truncatedVar]
      omega

/-- The header map that is sent. -/
def Round.sentMap (round : Round) : Headers :=
  if round.content = [] then
    round.headerMap
  else
    round.headerMap.insert (text "CONTENT_LENGTH") (decimal round.content.length)

/-- The variables that are sent, as they are written. -/
def Round.vars (round : Round) : List (Bytes × Bytes) :=
  (round.order.list round.sentMap).map truncatedVar

/-- The packet header that is sent. -/
def Round.header (round : Round) : UwsgiPacketHeader where
  datasize := UInt16.ofNat (4 + (wire round.vars).length)

/-- The bytes of the storage of an object that the encoder sends behind the
variables. -/
def Round.stale (round : Round) (r : UwsgiRequest) : Bytes :=
  window r.dataBuffer.storage (4 + (wire round.vars).length) 4

variable {round : Round} {r : UwsgiRequest}

theorem Composed.withContentLength_headers (composed : r.Composed round.content)
    (headers : r.headers = round.headerMap) : r.withContentLength.headers = round.sentMap := by
  unfold withContentLength Round.sentMap
  by_cases bare : round.content = []
  · have empty : r.contentBuffer.size = 0 := by rw [composed.size, bare, List.length_nil]
    rw [if_pos empty, if_pos bare, headers]
  · have nonempty : ¬r.contentBuffer.size = 0 := by
      rw [composed.size, List.length_eq_zero_iff]
      exact bare
    rw [if_neg nonempty, if_neg bare, HttpBase.setHeader_headers, headers, composed.size]

theorem Composed.sentVars_eq (composed : r.Composed round.content)
    (headers : r.headers = round.headerMap) : r.sentVars round.order.list = round.vars := by
  rw [sentVars, composed.withContentLength_headers headers]
  rfl

theorem Composed.sentHeader_eq (composed : r.Composed round.content)
    (headers : r.headers = round.headerMap) : r.sentHeader round.order.list = round.header := by
  rw [sentHeader, composed.sentVars_eq headers, composed.uwsgiHeader]
  rfl

/-- The data buffer of a request fits into memory. -/
theorem Round.wire_small (round : Round) : (wire round.vars).length + 2048 ≤ maxSize := by
  have memory := round.memory
  have content : round.content.length = round.writes.flatten.length := rfl
  have map : wireSize round.headerMap ≤
      (round.headers.map fun kv => 4 + kv.1.length + kv.2.length).sum + 0 :=
    wireSize_foldl_insert_le round.headers ∅
  have withLength : wireSize round.sentMap ≤
      4 + 14 + (round.content.length + 1) + wireSize round.headerMap := by
    have digits := length_decimal_le round.content.length
    have name : (text "CONTENT_LENGTH").length = 14 := by decide
    unfold sentMap
    split
    · omega
    · have inserted := wireSize_insert_le round.headerMap (text "CONTENT_LENGTH")
        (decimal round.content.length)
      omega
  have written : (wire round.vars).length ≤ wireSize round.sentMap := by
    rw [← round.order.length_wire]
    exact length_wire_truncated_le _
  unfold maxSize
  omega

/-! ## Sending a request -/

/-- The next call of `write_data`, unless the request is sent or has failed. -/
def writeCall (order : IterationOrder) : Session UwsgiRequest → Session UwsgiRequest :=
  Session.call (writeData order.list) fun r => r.done

theorem writeData_writesBase (order : Headers → List (Bytes × Bytes)) :
    HttpBase.WritesBase toHttpBase (writeData order) := by
  intro r sock prepared
  refine ⟨{ r with toHttpBase := (r.writePrepared sock).object }, rfl, ?_⟩
  rw [writeData, if_neg prepared]

/-- Everything that is sent for a request. -/
def Round.emission (round : Round) (r : UwsgiRequest) : Bytes :=
  round.header.encode ++ wire round.vars ++ round.stale r ++ round.content

/-- A request is sent completely on every connection that keeps accepting bytes. -/
theorem Composed.endsAs_sent (composed : r.Composed round.content)
    (headers : r.headers = round.headerMap) {sock : Socket} (writable : sock.Writable)
    (draining : sock.Draining) :
    ∃ final, EndsAs (writeCall round.order) ⟨r, sock, none⟩ final ∧ final.failure = none ∧
      final.object.state = .done ∧ final.socket.sent = sock.sent ++ round.emission r ∧
      final.object.dataBuffer.Ok ∧ final.object.contentBuffer.Ok := by
  have vars := composed.sentVars_eq headers
  obtain ⟨b, prepared, ok, -, readable⟩ :=
    prepareDataBuffer_eq composed.data (show (wire (r.sentVars round.order.list)).length + 2048 ≤
      maxSize from vars ▸ round.wire_small)
  let drafted : UwsgiRequest :=
    { r.withContentLength with
      state := .writeData, dataBuffer := b, uwsgiHeader := r.sentHeader round.order.list }
  have content : drafted.contentBuffer = r.contentBuffer := withContentLength_contentBuffer r
  have sending : HttpBase.Sending (sock.sent ++ round.emission r) drafted.toHttpBase sock.sent := by
    refine ⟨ok, content ▸ composed.ok, .inl rfl, ?_⟩
    show sock.sent ++ (b.readable ++ drafted.contentBuffer.readable) = _
    rw [readable, content, composed.readable, vars, composed.sentHeader_eq headers]
    rfl
  -- The first call prepares the object and then does what a call on it does.
  have same : writeCall round.order ⟨r, sock, none⟩ =
      writeCall round.order ⟨drafted, sock, none⟩ := by
    have first : r.writeData round.order.list sock =
        drafted.writeData round.order.list sock := by
      rw [writeData, if_pos composed.state, prepared]
      rfl
    simp only [writeCall, Session.call, HttpBase.done, composed.state, first]
    rfl
  obtain ⟨final, ends, rest⟩ := HttpBase.endsAs_sent (writeData_writesBase round.order.list)
    sending writable draining
  exact ⟨final, EndsAs.of_step_eq same ends, rest⟩

/-- Sending the request with the object `r` emits `bytes`, on every connection
that keeps accepting. -/
def Round.Emits (round : Round) (r : UwsgiRequest) (bytes : Bytes) : Prop :=
  ∃ composed, round.compose r = .ok composed ∧ ∀ sock : Socket, sock.Writable → sock.Draining →
    sock.sent = [] → ∃ final, EndsAs (writeCall round.order) ⟨composed, sock, none⟩ final ∧
      final.failure = none ∧ final.object.state = .done ∧ final.socket.sent = bytes

theorem Reusable.emits (reusable : r.Reusable) (round : Round) :
    round.Emits r (round.emission r) := by
  obtain ⟨composed, composing, ready, headers, data⟩ := round.compose_eq reusable
  refine ⟨composed, composing, fun sock writable draining unused => ?_⟩
  obtain ⟨final, ends, alive, done, sent, -⟩ := ready.endsAs_sent headers writable draining
  refine ⟨final, ends, alive, done, ?_⟩
  rw [sent, unused, List.nil_append, Round.emission, Round.emission, Round.stale, Round.stale, data]

/-! ## Reusing an object -/

/-- The objects that sending requests one after the other, with `clear` after
each, makes of a new one. -/
inductive Reused : UwsgiRequest → Prop where
  | new : Reused {}
  | next {r composed : UwsgiRequest} (round : Round) {sock : Socket}
      {final : Session UwsgiRequest} (reused : Reused r)
      (composing : round.compose r = .ok composed) (writable : sock.Writable)
      (draining : sock.Draining)
      (ends : EndsAs (writeCall round.order) ⟨composed, sock, none⟩ final) :
      Reused final.object.clear

theorem reusable_new : Reusable {} := ⟨fresh_default, rfl⟩

/-- `clear` makes an object reusable. -/
theorem reusable_clear (data : r.dataBuffer.Ok) (content : r.contentBuffer.Ok) :
    r.clear.Reusable :=
  ⟨⟨rfl, Buffer.clear_cleared data, Buffer.clear_cleared content, rfl, rfl⟩, rfl⟩

theorem Reused.reusable (reused : Reused r) : r.Reusable := by
  induction reused with
  | new => exact reusable_new
  | next round reused composing writable draining ends ih =>
      obtain ⟨composed, composing', ready, headers, -⟩ := round.compose_eq ih
      cases Except.ok.inj (composing.symm.trans composing')
      obtain ⟨final, ends', -, -, -, data, content⟩ := ready.endsAs_sent headers writable draining
      rw [ends.unique ends']
      exact reusable_clear data content

/-- The limits of the format for a request. -/
structure Round.Representable (round : Round) : Prop where
  fits : 4 + wireSize round.sentMap ≤ 65535
  small : round.content.length < 2 ^ 31
  honest : round.content = [] → round.headerMap.lookup (text "CONTENT_LENGTH") = none

theorem Reusable.decodes (reusable : r.Reusable) (representable : round.Representable)
    (zero : round.stale r = [0, 0, 0, 0]) :
    Decodes (round.emission r) round.sentMap round.content := by
  obtain ⟨composed, -, ready, headers, -⟩ := round.compose_eq reusable
  have map := ready.withContentLength_headers headers
  have within : composed.Representable round.content :=
    ⟨map ▸ representable.fits, representable.small, fun bare => headers ▸ representable.honest bare⟩
  have decodes := ready.decodes within round.order zero
  rwa [ready.sentHeader_eq headers, ready.sentVars_eq headers, map] at decodes

/-- A request with one header and no content. -/
def headerOnly (value : String) (short : (text value).length ≤ 100) : Round where
  headers := [(text "A", text value)]
  writes := []
  order := ⟨entriesOf, fun _ => .refl _⟩
  memory := by
    have name : (text "A").length = 1 := by decide
    simp only [List.map_cons, List.map_nil, List.sum_cons, List.sum_nil, List.flatten_nil,
      List.length_nil]
    omega

/-- A connection that accepts and delivers everything at once. -/
def openSocket (incoming : Bytes) : Socket where
  incoming
  arrivals _ := .deliver 100000
  acceptances _ := .accept 100000

/-- Send a request in one call. -/
def sendAtOnce (round : Round) (r : UwsgiRequest) : Option (Session UwsgiRequest) :=
  match round.compose r with
  | .error _ => none
  | .ok composed => some (writeCall round.order ⟨composed, openSocket [], none⟩)

end LibTasks.Net.UwsgiRequest

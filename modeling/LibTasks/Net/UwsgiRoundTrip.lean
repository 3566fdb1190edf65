import Mathlib
import LibTasks.Net.UwsgiDelivery
import LibTasks.Net.UwsgiEncoder

/-!
# From the encoder to the reader

The encoder counts the header in `datasize` and sends four bytes behind the
variables.  As long as these are zero, they are an empty variable, which the
reader skips, and the reader gets exactly what was sent.
-/

namespace LibTasks.Net

open LibTasks.Foundation LibTasks.Tools

/-! ## The variables of a header map -/

/-- The number of bytes that the variables of a map take. -/
def wireSize (m : Headers) : Nat :=
  ((entriesOf m).map fun kv => 4 + kv.1.length + kv.2.length).sum

theorem length_wire (vars : List (Bytes × Bytes)) :
    (wire vars).length = (vars.map fun kv => 4 + kv.1.length + kv.2.length).sum := by
  induction vars with
  | nil => rfl
  | cons kv vars ih =>
      simp only [wire_cons, List.length_append, length_wireVar, ih, List.map_cons, List.sum_cons]
      omega

theorem IterationOrder.length_wire (order : IterationOrder) (m : Headers) :
    (wire (order.list m)).length = wireSize m := by
  rw [Net.length_wire]
  exact ((order.perm m).map _).sum_eq

/-- Setting the variables of a block whose keys are different: a variable with an
empty value is not set, and its value is not distinguished from `NO_VAL`. -/
theorem lookup_varsMap {vars : List (Bytes × Bytes)} {m : Headers} {key : Bytes}
    (different : (vars.map toEntry).NodupKeys) (new : ∀ kv ∈ vars, m.lookup kv.1 = none)
    (nonempty : key ≠ []) :
    ((varsMap m vars).lookup key).getD noVal =
      ((vars.map toEntry).dlookup key).getD ((m.lookup key).getD noVal) := by
  induction vars generalizing m with
  | nil => rfl
  | cons kv vars ih =>
      obtain ⟨name, value⟩ := kv
      rw [List.map_cons, toEntry, List.nodupKeys_cons] at different
      let next : Headers := if name ≠ [] ∧ value ≠ [] then m.insert name value else m
      have absent : ∀ other ∈ vars, other.1 ≠ name := by
        intro other member equal
        have known : other.1 ∈ (vars.map toEntry).keys :=
          List.mem_keys_of_mem (List.mem_map_of_mem (f := toEntry) member)
        exact different.1 (equal ▸ known)
      have unchanged : ∀ other, other ≠ name → next.lookup other = m.lookup other := by
        intro other distinct
        simp only [next]
        split
        · exact AList.lookup_insert_ne distinct
        · rfl
      have rest : ((varsMap next vars).lookup key).getD noVal = _ :=
        ih different.2 fun other member =>
          (unchanged other.1 (absent other member)).trans
            (new other (List.mem_cons_of_mem _ member))
      have first : varsMap m ((name, value) :: vars) = varsMap next vars := rfl
      rw [first, rest, List.map_cons, toEntry]
      by_cases same : key = name
      · subst same
        have unknown : (vars.map toEntry).dlookup key = none := List.dlookup_eq_none.mpr different.1
        have fresh : m.lookup key = none := new (key, value) List.mem_cons_self
        rw [unknown, List.dlookup_cons_eq]
        by_cases empty : value = []
        · simp [next, empty, fresh, noVal]
        · simp [next, nonempty, empty]
      · rw [List.dlookup_cons_ne _ _ same, unchanged key same]

/-- The reader finds the values of the sender. -/
theorem IterationOrder.lookup_varsMap (order : IterationOrder) (m : Headers) {key : Bytes}
    (nonempty : key ≠ []) :
    ((varsMap ∅ (order.list m)).lookup key).getD noVal = (m.lookup key).getD noVal := by
  have entries := order.entries_perm m
  have different : ((order.list m).map toEntry).NodupKeys :=
    (List.perm_nodupKeys entries).mpr m.nodupKeys
  rw [Net.lookup_varsMap different (fun _ _ => rfl) nonempty,
    List.perm_dlookup key different entries]
  rfl

/-! ## An object that is ready to be sent -/

namespace UwsgiRequest

/-- An object whose headers are set and to which `content` was written. -/
structure Composed (r : UwsgiRequest) (content : Bytes) : Prop where
  state : r.state = .ready
  data : r.dataBuffer.Cleared
  ok : r.contentBuffer.Ok
  gptr : r.contentBuffer.gptr = 0
  size : r.contentBuffer.size = content.length
  readable : r.contentBuffer.readable = content
  uwsgiHeader : r.uwsgiHeader = {}

/-- The limits of the format: a header map that fits into the 16 bits of
`datasize`, content whose length `atoi` can read, and no length that contradicts
the content. -/
structure Representable (r : UwsgiRequest) (content : Bytes) : Prop where
  fits : 4 + wireSize r.withContentLength.headers ≤ 65535
  small : content.length < 2 ^ 31
  honest : content = [] → r.headers.lookup (text "CONTENT_LENGTH") = none

/-- A reader gets the variables and the content, and leaves what follows on the
stream, however the bytes behind the header are fragmented. -/
def Decodes (bytes : Bytes) (headers : Headers) (content : Bytes) : Prop :=
  ∀ (reader : UwsgiRequest) (sock : Socket) (rest : Bytes), reader.Fresh → sock.Healthy →
    sock.Fair → sock.incoming = bytes ++ rest → WholeHeader sock →
    ∃ final, EndsAs readCall ⟨reader, sock, none⟩ final ∧ final.failure = none ∧
      final.object.state = .done ∧ final.socket.incoming = rest ∧
      (∀ key, key ≠ [] → final.object.var key = (headers.lookup key).getD noVal) ∧
      final.object.contentBuffer.readable = content

variable {r : UwsgiRequest} {content : Bytes} {order : IterationOrder}

/-- Nothing is truncated if every key and every value is shorter than 2^16. -/
theorem sentVars_eq {order : Headers → List (Bytes × Bytes)}
    (short : ∀ kv ∈ order r.withContentLength.headers,
      kv.1.length < 2 ^ 16 ∧ kv.2.length < 2 ^ 16) :
    r.sentVars order = order r.withContentLength.headers := by
  rw [sentVars]
  conv_rhs => rw [← List.map_id (order r.withContentLength.headers)]
  refine List.map_congr_left fun kv member => ?_
  rw [truncatedVar, truncated_of_lt (short kv member).1, truncated_of_lt (short kv member).2]
  rfl

/-- Within the limits nothing is truncated. -/
theorem sentVars_of_fits (fits : 4 + wireSize r.withContentLength.headers < 2 ^ 16) :
    r.sentVars order.list = order.list r.withContentLength.headers := by
  rw [← order.length_wire] at fits
  apply sentVars_eq
  intro kv member
  have short := length_wireVar_le member
  rw [length_wireVar] at short
  omega

theorem Representable.sentVars_eq (representable : r.Representable content) :
    r.sentVars order.list = order.list r.withContentLength.headers :=
  sentVars_of_fits (Nat.lt_succ_of_le representable.fits)

/-- The length of the content that the header map announces. -/
theorem Composed.lookup_contentLength (composed : r.Composed content)
    (representable : r.Representable content) :
    (r.withContentLength.headers.lookup (text "CONTENT_LENGTH")).getD noVal =
      if content = [] then noVal else decimal content.length := by
  unfold withContentLength
  by_cases bare : content = []
  · have empty : r.contentBuffer.size = 0 := by rw [composed.size, bare, List.length_nil]
    rw [if_pos empty, if_pos bare, representable.honest bare, Option.getD_none]
  · have some : ¬r.contentBuffer.size = 0 := by
      rw [composed.size, List.length_eq_zero_iff]
      exact bare
    rw [if_neg some, if_neg bare, HttpBase.setHeader_headers, AList.lookup_insert, composed.size,
      Option.getD_some]

/-- The packet that is sent: the variables, and an empty one behind them. -/
theorem Composed.exists_packet (composed : r.Composed content)
    (representable : r.Representable content) (order : IterationOrder) :
    ∃ p : Packet, p.vars = order.list r.withContentLength.headers ++ [([], [])] ∧
      p.content = content ∧ p.header = r.sentHeader order.list := by
  have fits := representable.fits
  rw [← order.length_wire] at fits
  let vars := order.list r.withContentLength.headers ++ [([], [])]
  have skipped : varsMap ∅ vars = varsMap ∅ (order.list r.withContentLength.headers) := by
    simp [vars, varsMap]
  have lookup : ((varsMap ∅ vars).lookup (text "CONTENT_LENGTH")).getD noVal =
      if content = [] then noVal else decimal content.length := by
    rw [skipped, order.lookup_varsMap _ (by decide)]
    exact composed.lookup_contentLength representable
  have size : (wire vars).length = 4 + (wire (order.list r.withContentLength.headers)).length := by
    simp [vars, Nat.add_comm]
  let p : Packet :=
    { vars
      content
      nonempty := by simp [vars]
      small := by omega
      announced := by
        dsimp only
        rw [lookup]
        by_cases bare : content = []
        · simp [bare]
        · have written : decimal content.length ≠ noVal := decimal_ne_nil _
          rw [if_neg bare, if_neg written]
          exact ⟨bare, atoi_decimal representable.small⟩ }
  refine ⟨p, rfl, rfl, ?_⟩
  simp only [Packet.header, sentHeader, composed.uwsgiHeader, representable.sentVars_eq, p, size]
  rfl

/-- If the four bytes behind the variables are zero, the reader gets what was
sent. -/
theorem Composed.decodes (composed : r.Composed content)
    (representable : r.Representable content) (order : IterationOrder)
    {tail : Bytes} (zero : tail = [0, 0, 0, 0]) :
    Decodes ((r.sentHeader order.list).encode ++ wire (r.sentVars order.list) ++ tail ++ content)
      r.withContentLength.headers content := by
  obtain ⟨p, vars, content, header⟩ := composed.exists_packet representable order
  intro reader sock rest fresh healthy fair stream whole
  have bytes : sock.incoming = p.bytes ++ rest := by
    rw [stream, zero, Packet.bytes, header, vars, content, representable.sentVars_eq, wire_append]
    simp [wire, wireVar, wireString, le16]
  obtain ⟨later, ends, unread⟩ := Packet.endsAs_received fresh healthy fair bytes whole
  refine ⟨_, ends, rfl, p.received_state reader, unread, fun key nonempty => ?_, ?_⟩
  · have skipped : varsMap ∅ p.vars = varsMap ∅ (order.list r.withContentLength.headers) := by
      simp [vars, varsMap]
    rw [var, HttpBase.header, p.received_headers fresh, skipped,
      order.lookup_varsMap _ nonempty]
  · rw [p.received_readable fresh, content]

theorem Representable.wire_small (representable : r.Representable content) :
    (wire (r.sentVars order.list)).length + 2048 ≤ maxSize := by
  have fits := representable.fits
  rw [← order.length_wire] at fits
  rw [representable.sentVars_eq]
  unfold maxSize
  omega

/-- An object with one header and three bytes of content. -/
def sampleRequest : UwsgiRequest where
  contentBuffer := { storage := [1, 2, 3], size := 3, pptr := 3 }
  headers := AList.singleton (text "A") (text "b")

theorem sampleRequest_composed : sampleRequest.Composed [1, 2, 3] :=
  ⟨rfl, ⟨rfl, rfl, rfl, Nat.zero_le _⟩, ⟨by decide, by decide, by decide, by decide⟩, rfl, rfl,
    rfl, rfl⟩

end UwsgiRequest

end LibTasks.Net

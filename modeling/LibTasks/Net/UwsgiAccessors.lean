import LibTasks.Net.UwsgiRuns

/-!
# `content_length` and `content_p` of a uwsgi request

The content of a uwsgi request is read into a buffer whose size comes from the variable
`CONTENT_LENGTH`.  What `content_length` and `content_p` return comes from `set_header`, which
looks for variables that are named `Content-Length` in any case.
-/

namespace LibTasks.Net

open LibTasks.Foundation LibTasks.Tools

/-! ## What the variables say -/

/-- The number that a variable sets as the content length, which was `n` before. -/
def nextLength (n : Nat) (kv : Bytes × Bytes) : Nat :=
  if kv.2 ≠ [] ∧ iequals kv.1 (text "Content-Length") then toSize (atoi kv.2) else n

/-- The content length that `set_header` takes from the variables. -/
def namedLength (vars : List (Bytes × Bytes)) : Nat := vars.foldl nextLength 0

theorem setVar_contentLength (h : HttpBase) (kv : Bytes × Bytes) :
    (setVar h (kept kv)).contentLength = nextLength h.contentLength kv := by
  obtain ⟨key, value⟩ := kv
  unfold kept nextLength
  by_cases both : key ≠ [] ∧ value ≠ []
  · rw [if_pos both]
    by_cases named : iequals key (text "Content-Length")
    · rw [if_pos ⟨both.2, named⟩, setVar, HttpBase.setHeader, if_pos named]
    · rw [if_neg fun wanted => named wanted.2, setVar, HttpBase.setHeader, if_neg named]
  · rw [if_neg both, if_neg]
    · rfl
    · rintro ⟨some, named⟩
      have empty : key = [] := by
        by_contra nonempty
        exact both ⟨nonempty, some⟩
      rw [empty] at named
      have unnamed : iequals [] (text "Content-Length") = false := by decide
      exact absurd (unnamed.symm.trans named) Bool.false_ne_true

theorem setVars_contentLength (h : HttpBase) (vars : List (Bytes × Bytes)) :
    (setVars h vars).contentLength = vars.foldl nextLength h.contentLength := by
  induction vars generalizing h with
  | nil => rfl
  | cons kv vars ih =>
      rw [List.foldl_cons, ← setVar_contentLength]
      exact ih _

/-- The accessors describe the content. -/
structure UwsgiRequest.Describes (r : UwsgiRequest) (content : Bytes) : Prop where
  length : r.contentLength = content.length
  pointer : content ≠ [] → ∃ offset, r.contentP = some offset ∧
    slice r.contentBuffer.storage offset content.length = content

namespace Packet

variable {p : Packet} {r : UwsgiRequest}

theorem received_contentLength (fresh : r.Fresh) :
    (p.received r).contentLength = namedLength p.vars := by
  have parsed : (p.parsed r).contentLength = namedLength p.vars := by
    rw [namedLength, ← fresh.contentLength]
    exact setVars_contentLength _ _
  unfold received
  split <;> exact parsed

/-- The accessors describe the content of a packet that was received if the length is right. -/
theorem received_describes_iff (fresh : r.Fresh) :
    (p.received r).Describes p.content ↔ namedLength p.vars = p.content.length := by
  rw [← received_contentLength fresh]
  constructor
  · exact fun describes => describes.length
  · intro length
    refine ⟨length, fun some => ?_⟩
    have positive : (p.received r).contentLength ≠ 0 := by
      rw [length]
      exact fun empty => some (List.eq_nil_of_length_eq_zero empty)
    refine ⟨_, if_pos positive, ?_⟩
    rw [show p.received r = _ from if_neg some]
    exact Buffer.readable_filled p.content

end Packet

/-! ## A packet without variables -/

namespace UwsgiRequest

variable {r : UwsgiRequest} {hd : UwsgiPacketHeader} {rest : Bytes}

/-- The stages behind the header, for an empty block. -/
theorem stages_empty (fresh : r.Fresh) (supported : hd.modifier1 = uwsgiVars)
    (empty : hd.datasize.toNat = 0) (sock : Socket) :
    let o := ((r.receivingVars hd []).varsStage sock).andThen contentStage
    o.object.contentLength = 0 ∧ (o.result = .ok () → o.object.state = .done) := by
  intro o
  have finished : ∀ later, r.afterVars hd [] later =
      ⟨.ok (), { r.receivingVars hd [] with state := .done }, later⟩ := by
    intro later
    have accepted : parseVars (r.receivingVars hd []).toHttpBase =
        .ok (r.receivingVars hd []).toHttpBase := by
      have size : (r.receivingVars hd []).dataBuffer.size = 0 := empty
      simp only [parseVars, parseLoop, size, Nat.lt_irrefl, if_false]
    have absent : (r.receivingVars hd []).header (text "CONTENT_LENGTH") = noVal := by
      simp [HttpBase.header, receivingVars, fresh.headers]
    rw [afterVars, if_pos ⟨empty.symm, supported⟩]
    simp only [finishVars, accepted, var, absent, if_true]
  obtain ⟨e, _, result⟩ | ⟨_, result⟩ | ⟨bytes, unread, nonempty, fits, _, _, _⟩ :=
    varsStage_cases fresh (show ([] : Bytes).length ≤ hd.datasize.toNat from Nat.zero_le _) sock
  · simp only [o, result, Outcome.andThen_error]
    exact ⟨fresh.contentLength, fun ended => (by cases ended)⟩
  · simp only [o, result, finished, Outcome.andThen_ok]
    exact ⟨fresh.contentLength, fun _ => rfl⟩
  · have positive := List.length_pos_iff.mpr nonempty
    omega

/-- Between two calls on a packet without variables. -/
structure Bare (r : UwsgiRequest) (hd : UwsgiPacketHeader) (rest : Bytes)
    (s : Session UwsgiRequest) : Prop where
  contentLength : s.object.contentLength = 0
  alive : s.failure = none → s.object = r ∧ s.socket.incoming = hd.encode ++ rest ∨
    s.object.state = .done

theorem Bare.readCall (fresh : r.Fresh) (supported : hd.modifier1 = uwsgiVars)
    (empty : hd.datasize.toNat = 0) {s : Session UwsgiRequest} (bare : Bare r hd rest s) :
    Bare r hd rest (readCall s) := by
  unfold UwsgiRequest.readCall Session.call
  split
  · exact bare
  · next running =>
      rw [not_or] at running
      have alive : s.failure = none := Option.not_isSome_iff_eq_none.mp running.2
      rcases bare.alive alive with ⟨start, stream⟩ | done
      · rw [start]
        by_cases whole : WholeHeader s.socket
        · rw [readData, headerStage_whole fresh stream whole, Outcome.andThen_ok]
          have stages := stages_empty fresh supported empty (s.socket.advance headerCall rest)
          refine ⟨stages.1, fun ended => .inr (stages.2 ?_)⟩
          cases result : (((r.receivingVars hd []).varsStage
              (s.socket.advance headerCall rest)).andThen contentStage).result with
          | ok value => rfl
          | error e => simp [result] at ended
        · obtain ⟨e, partly, left, result, -⟩ := headerStage_short fresh whole
          rw [readData, result]
          exact ⟨fresh.contentLength, fun ended => (by cases ended)⟩
      · exact absurd (show s.object.done = true by simp [HttpBase.done, done]) running.1

theorem contentLength_of_empty (fresh : r.Fresh) (supported : hd.modifier1 = uwsgiVars)
    (empty : hd.datasize.toNat = 0) {sock : Socket} (stream : sock.incoming = hd.encode ++ rest)
    (calls : Nat) : (readCall^[calls] ⟨r, sock, none⟩).object.contentLength = 0 := by
  have bare : Bare r hd rest (readCall^[calls] ⟨r, sock, none⟩) := by
    induction calls with
    | zero => exact ⟨fresh.contentLength, fun _ => .inl ⟨rfl, stream⟩⟩
    | succ calls ih =>
        rw [Function.iterate_succ_apply']
        exact ih.readCall fresh supported empty
  exact bare.contentLength

end UwsgiRequest

/-! ## Every run -/

namespace AnyPacket

open UwsgiRequest (readCall)

variable {p : AnyPacket} {r : UwsgiRequest}

/-- In every run on the packet, the accessors describe the content when the reader is done. -/
def DescribedWhenDone (p : AnyPacket) (r : UwsgiRequest) : Prop :=
  ∀ (sock : Socket) (rest : Bytes), sock.incoming = p.bytes ++ rest → sock.reads = [] →
    ∀ calls, (readCall^[calls] ⟨r, sock, none⟩).object.state = .done →
      (readCall^[calls] ⟨r, sock, none⟩).object.Describes p.content

/-- There is a run in which a regular packet is received. -/
theorem Regular.exists_received (regular : p.Regular) (fresh : r.Fresh) :
    ∃ calls, (readCall^[calls] ⟨r, p.atOnce, none⟩).object = regular.packet.received r := by
  have healthy : p.atOnce.Healthy := fun _ => .inr ⟨65536, rfl⟩
  have fair : p.atOnce.Fair := fun k => ⟨k, Nat.le_refl k, 65536, rfl⟩
  have stream : p.atOnce.incoming = regular.packet.bytes ++ [] := by
    rw [List.append_nil, regular.bytes_packet]
    rfl
  obtain ⟨later, ⟨calls, ends⟩, -⟩ :=
    Packet.endsAs_received fresh healthy fair stream p.atOnce_whole
  refine ⟨calls, ?_⟩
  rw [ends calls (Nat.le_refl _)]

/-- For packets of variables whose content length is positive or not announced: the accessors
describe the content exactly if the variables also give its length under a name that
`set_header` knows. -/
theorem describedWhenDone_iff (p : AnyPacket) (fresh : r.Fresh)
    (supported : p.modifier1 = uwsgiVars) (positive : p.lengthVar ≠ noVal → p.content ≠ []) :
    p.DescribedWhenDone r ↔ namedLength p.vars = p.content.length := by
  by_cases nonempty : p.vars = []
  · have bare : p.content = [] := by
      have announced := p.announced
      rw [nonempty] at announced
      exact announced
    have empty : p.header.datasize.toNat = 0 := by
      rw [p.datasize_toNat, nonempty]
      rfl
    rw [nonempty, bare]
    refine ⟨fun _ => rfl, fun _ sock rest stream _ calls _ => ?_⟩
    rw [bytes, nonempty, bare, wire_nil, List.append_nil, List.append_nil] at stream
    rw [bare]
    exact ⟨UwsgiRequest.contentLength_of_empty fresh supported empty stream calls,
      fun some => absurd rfl some⟩
  · have regular : p.Regular := ⟨supported, nonempty, positive⟩
    have received := Packet.received_describes_iff (p := regular.packet) fresh
    rw [← show regular.packet.vars = p.vars from rfl,
      ← show regular.packet.content = p.content from rfl, ← received]
    constructor
    · intro described
      obtain ⟨calls, final⟩ := regular.exists_received fresh
      have describes := described p.atOnce [] (List.append_nil _).symm rfl calls (by
        rw [final]
        exact regular.packet.received_state r)
      rwa [final] at describes
    · intro describes sock rest stream unread calls done
      rw [← regular.bytes_packet] at stream
      have follows := Packet.follows_iterate fresh stream unread calls
      rwa [follows.eq_received fresh done]

/-- A packet that has the length of its content under both names. -/
def bothNames : AnyPacket where
  vars := [(text "CONTENT_LENGTH", text "2"), (text "content-length", text "2")]
  content := [1, 2]
  small := by decide
  announced := by decide

theorem describedWhenDone_bothNames : bothNames.DescribedWhenDone {} :=
  (describedWhenDone_iff bothNames UwsgiRequest.fresh_default rfl
    fun _ => List.cons_ne_nil _ _).mpr (by decide)

/-- With `CONTENT_LENGTH` alone, the content is received and the accessors know nothing of
it. -/
theorem accessors_miss_content :
    let final := (readCall^[2] ⟨{}, sample.atOnce, none⟩).object
    final.state = .done ∧ final.contentBuffer.readable = [1, 2] ∧ final.contentLength = 0 ∧
      final.contentP = none := by
  decide +kernel

end AnyPacket

end LibTasks.Net

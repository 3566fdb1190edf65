import Mathlib
import LibTasks.Foundation.Progress
import LibTasks.Net.UwsgiRequest

/-!
# The memory that the uwsgi reader writes to

`uwsgi_request::read_data` is called again and again until the request is
complete.  Every read of such a run stays inside the buffer it fills, unless the
variables announce a content length from -1024 to -1.
-/

namespace LibTasks.Net

open LibTasks.Foundation LibTasks.Tools

/-- The put pointer is inside the logical size, that is inside the block, and so
is all that is asked for. -/
def ReadCall.InBounds (call : ReadCall) : Prop :=
  call.offset ≤ call.size ∧ call.size ≤ call.capacity ∧ call.offset + call.len ≤ call.capacity

instance (call : ReadCall) : Decidable call.InBounds :=
  inferInstanceAs (Decidable (_ ∧ _ ∧ _))

theorem fillCall_inBounds (b : Buffer) {n : Nat} {data : Bytes} (room : data.length ≤ n) :
    (fillCall b n data).InBounds := by
  have grown := Buffer.le_length_grow b.storage n
  simp only [ReadCall.InBounds, fillCall]
  omega

/-! ## What parsing leaves alone -/

/-- Parsing the variables changes only the headers and the length of the content
that goes with them. -/
structure SameBuffers (before after : HttpBase) : Prop where
  data : after.dataBuffer = before.dataBuffer
  content : after.contentBuffer = before.contentBuffer
  state : after.state = before.state

theorem SameBuffers.trans {first second third : HttpBase} (one : SameBuffers first second)
    (two : SameBuffers second third) : SameBuffers first third :=
  ⟨two.data.trans one.data, two.content.trans one.content, two.state.trans one.state⟩

theorem setVar_sameBuffers (h : HttpBase) (found : Option (Bytes × Bytes)) :
    SameBuffers h (setVar h found) := by
  cases found with
  | none => exact ⟨rfl, rfl, rfl⟩
  | some kv => constructor <;> simp [setVar]

theorem parseLoop_sameBuffers {b : Buffer} {fuel pos : Nat} {h parsed : HttpBase}
    (accepted : parseLoop b fuel pos h = .ok parsed) : SameBuffers h parsed := by
  induction fuel generalizing pos h with
  | zero => cases accepted
  | succ fuel ih =>
      unfold parseLoop at accepted
      split at accepted
      · cases one : parseVar b pos with
        | error f =>
            rw [one] at accepted
            cases accepted
        | ok step =>
            rw [one] at accepted
            exact (setVar_sameBuffers h step.1).trans (ih accepted)
      · cases accepted
        exact ⟨rfl, rfl, rfl⟩

theorem parseVars_sameBuffers {h parsed : HttpBase} (accepted : parseVars h = .ok parsed) :
    SameBuffers h parsed :=
  parseLoop_sameBuffers accepted

namespace UwsgiRequest

/-! ## Runs -/

/-- A default-constructed object, or one after `clear`, which may keep storage. -/
structure Fresh (r : UwsgiRequest) : Prop where
  state : r.state = .ready
  data : r.dataBuffer.Cleared
  content : r.contentBuffer.Cleared
  headers : r.headers = ∅
  contentLength : r.contentLength = 0

theorem fresh_default : Fresh {} := by
  refine ⟨rfl, ⟨rfl, rfl, rfl, Nat.zero_le _⟩, ⟨rfl, rfl, rfl, Nat.zero_le _⟩, rfl, rfl⟩

/-- The next call of `read_data`, unless the request is complete or has failed. -/
def readCall : Session UwsgiRequest → Session UwsgiRequest :=
  Session.call readData fun r => r.done

theorem Fresh.not_done {r : UwsgiRequest} (fresh : r.Fresh) : r.done = false := by
  simp [HttpBase.done, fresh.state]

/-- The object `r` after a header and the bytes `data` of the variables. -/
def receivingVars (r : UwsgiRequest) (hd : UwsgiPacketHeader) (data : Bytes) : UwsgiRequest :=
  { r with
    state := .readData
    dataBuffer := r.dataBuffer.filled hd.datasize.toNat data
    uwsgiHeader := hd }

@[simp] theorem receivingVars_dataBuffer (r : UwsgiRequest) (hd : UwsgiPacketHeader)
    (data : Bytes) :
    (r.receivingVars hd data).dataBuffer = r.dataBuffer.filled hd.datasize.toNat data := rfl

/-- The content length that a complete block of variables announces. -/
def announcedLength (r : UwsgiRequest) (hd : UwsgiPacketHeader) (block : Bytes) : Option Int :=
  if hd.modifier1 = uwsgiVars then
    match parseVars (r.receivingVars hd block).toHttpBase with
    | .error _ => none
    | .ok h =>
        let contentLen := h.header (text "CONTENT_LENGTH")
        if contentLen = noVal then none else some (atoi contentLen)
  else
    none

/-! ## One stage after the other -/

variable {r : UwsgiRequest} {hd : UwsgiPacketHeader}

theorem datasize_small (hd : UwsgiPacketHeader) : hd.datasize.toNat + 1024 ≤ maxSize := by
  have bound := hd.datasize.toNat_lt
  unfold maxSize
  omega

/-- The next read can return the whole packet header. -/
def WholeHeader (sock : Socket) : Prop :=
  ∃ n, 4 ≤ n ∧ sock.arrivals sock.reads.length = .deliver n

/-- If the first read returns the whole header, it is taken off the stream. -/
theorem headerStage_whole (fresh : r.Fresh) {sock : Socket} {tail : Bytes}
    (stream : sock.incoming = hd.encode ++ tail) (whole : WholeHeader sock) :
    r.headerStage sock = ⟨.ok (), r.receivingVars hd [], sock.advance headerCall tail⟩ := by
  obtain ⟨n, enough, delivered⟩ := whole
  have count : min (max n 1) headerCall.len = hd.encode.length := by
    simp only [headerCall, UwsgiPacketHeader.length_encode]
    omega
  have received := Socket.read_deliver headerCall delivered
    (by rw [stream]; simp [UwsgiPacketHeader.encode]) (by decide)
  rw [count, stream, List.take_left, List.drop_left] at received
  have memory : overwrite r.uwsgiHeader.encode 0 hd.encode = hd.encode := rfl
  unfold headerStage readHeader
  rw [if_pos fresh.state, received]
  simp [memory, fresh.data.setSize_eq (datasize_small hd), receivingVars]

/-- Otherwise reading fails, after fewer than four bytes. -/
theorem headerStage_short (fresh : r.Fresh) {sock : Socket} (short : ¬WholeHeader sock) :
    ∃ e partly rest, r.headerStage sock =
        ⟨.error (.exception e), { r with state := .readHeader, uwsgiHeader := partly },
          sock.advance headerCall rest⟩ ∧ sock.incoming.length < rest.length + 4 := by
  unfold headerStage readHeader
  rw [if_pos fresh.state]
  obtain ⟨e, failed⟩ | again | ⟨bytes, rest, _, fits, split, received⟩ :=
    sock.read_cases headerCall
  · rw [failed]
    exact ⟨e, r.uwsgiHeader, sock.incoming, rfl, by omega⟩
  · rw [again]
    exact ⟨_, _, sock.incoming, rfl, by omega⟩
  · have incomplete : bytes.length ≠ 4 := by
      intro complete
      obtain ⟨n, delivered, taken⟩ := Socket.deliver_of_read received
      refine short ⟨n, ?_, delivered⟩
      rw [taken, List.length_take] at complete
      omega
    have few : bytes.length < 4 := Nat.lt_of_le_of_ne fits incomplete
    rw [received]
    simp only [Option.getD_some, if_neg incomplete]
    refine ⟨_, _, rest, rfl, ?_⟩
    rw [split, List.length_append]
    omega

/-- What happens once more of the variables has been received. -/
def afterVars (r : UwsgiRequest) (hd : UwsgiPacketHeader) (data : Bytes) (sock : Socket) :
    Outcome UwsgiRequest :=
  if data.length = hd.datasize.toNat ∧ hd.modifier1 = uwsgiVars then
    (r.receivingVars hd data).finishVars sock
  else
    ⟨.ok (), r.receivingVars hd data, sock⟩

/-- Reading the variables fails, or takes some more of them off the stream. -/
theorem varsStage_cases (fresh : r.Fresh) {data : Bytes} (room : data.length ≤ hd.datasize.toNat)
    (sock : Socket) :
    let call := fillCall r.dataBuffer hd.datasize.toNat data
    let o := (r.receivingVars hd data).varsStage sock
    (∃ e, sock.read call = (.error e, sock.advance call sock.incoming) ∧
      o = ⟨.error (.exception e), r.receivingVars hd data, sock.advance call sock.incoming⟩) ∨
    (sock.read call = (.ok none, sock.advance call sock.incoming) ∧
      o = r.afterVars hd data (sock.advance call sock.incoming)) ∨
    ∃ bytes rest, bytes ≠ [] ∧ data.length + bytes.length ≤ hd.datasize.toNat ∧
      sock.incoming = bytes ++ rest ∧
      sock.read call = (.ok (some bytes), sock.advance call rest) ∧
      o = r.afterVars hd (data ++ bytes) (sock.advance call rest) := by
  have small := datasize_small hd
  intro call o
  have unfolded : o = (r.receivingVars hd data).readVars sock := if_pos rfl
  have full : ∀ {received : Bytes}, received.length ≤ hd.datasize.toNat →
      ((r.dataBuffer.filled hd.datasize.toNat received).toWrite = 0 ↔
        received.length = hd.datasize.toNat) := fun fits => fresh.data.toWrite_filled fits small
  obtain ⟨e, failed, result⟩ | ⟨again, result⟩ |
      ⟨bytes, rest, nonempty, fits, split, received, result⟩ :=
    fillFrom_cases fresh.data room small sock
  · refine .inl ⟨e, failed, ?_⟩
    rw [unfolded]
    simp only [readVars, receivingVars_dataBuffer, result]
    rfl
  · refine .inr (.inl ⟨again, ?_⟩)
    rw [unfolded]
    simp only [readVars, receivingVars_dataBuffer, result, full room]
    rfl
  · refine .inr (.inr ⟨bytes, rest, nonempty, fits, split, received, ?_⟩)
    have fits : (data ++ bytes).length ≤ _ := (List.length_append).trans_le fits
    rw [unfolded]
    simp only [readVars, receivingVars_dataBuffer, result, full fits]
    rfl

/-- Reading the variables when the read finds nothing. -/
theorem varsStage_again (fresh : r.Fresh) {data : Bytes} (room : data.length ≤ hd.datasize.toNat)
    {sock later : Socket}
    (again : sock.read (fillCall r.dataBuffer hd.datasize.toNat data) = (.ok none, later)) :
    (r.receivingVars hd data).varsStage sock = r.afterVars hd data later := by
  obtain ⟨e, failed, _⟩ | ⟨same, result⟩ | ⟨bytes, rest, _, _, _, received, _⟩ :=
    varsStage_cases fresh room sock
  · cases again.symm.trans failed
  · cases again.symm.trans same
    exact result
  · cases again.symm.trans received

/-- Reading the variables when the read returns bytes. -/
theorem varsStage_received (fresh : r.Fresh) {data : Bytes}
    (room : data.length ≤ hd.datasize.toNat) {sock later : Socket} {bytes : Bytes}
    (received : sock.read (fillCall r.dataBuffer hd.datasize.toNat data) =
      (.ok (some bytes), later)) :
    (r.receivingVars hd data).varsStage sock = r.afterVars hd (data ++ bytes) later := by
  obtain ⟨e, failed, _⟩ | ⟨again, _⟩ | ⟨others, rest, _, _, _, same, result⟩ :=
    varsStage_cases fresh room sock
  · cases received.symm.trans failed
  · cases received.symm.trans again
  · cases received.symm.trans same
    exact result

/-- Reading the variables when the read fails. -/
theorem varsStage_failed (fresh : r.Fresh) {data : Bytes} (room : data.length ≤ hd.datasize.toNat)
    {sock later : Socket} {e : TasksException}
    (failed : sock.read (fillCall r.dataBuffer hd.datasize.toNat data) = (.error e, later)) :
    (r.receivingVars hd data).varsStage sock =
      ⟨.error (.exception e), r.receivingVars hd data, later⟩ := by
  obtain ⟨other, same, result⟩ | ⟨again, _⟩ | ⟨bytes, rest, _, _, _, received, _⟩ :=
    varsStage_cases fresh room sock
  · cases failed.symm.trans same
    exact result
  · cases failed.symm.trans again
  · cases failed.symm.trans received

/-- The object `r` while the content is being received. -/
def receivingContent (r : UwsgiRequest) (b : Buffer) (n : Nat) (data : Bytes) : UwsgiRequest :=
  { r with state := .readContent, contentBuffer := b.filled n data }

@[simp] theorem receivingContent_contentBuffer (r : UwsgiRequest) (b : Buffer) (n : Nat)
    (data : Bytes) : (r.receivingContent b n data).contentBuffer = b.filled n data := rfl

/-- What happens once more of the content has been received. -/
def afterContent (r : UwsgiRequest) (b : Buffer) (n : Nat) (data : Bytes) (sock : Socket) :
    Outcome UwsgiRequest :=
  if data.length = n then
    ⟨.ok (), { r.receivingContent b n data with state := .done }, sock⟩
  else
    ⟨.ok (), r.receivingContent b n data, sock⟩

/-- Reading the content fails, or takes some more of it off the stream. -/
theorem contentStage_cases {b : Buffer} (cleared : b.Cleared) {n : Nat} {data : Bytes}
    (room : data.length ≤ n) (small : n + 1024 ≤ maxSize) (sock : Socket) :
    let call := fillCall b n data
    let o := (r.receivingContent b n data).contentStage sock
    (∃ e, sock.read call = (.error e, sock.advance call sock.incoming) ∧
      o = ⟨.error (.exception e), r.receivingContent b n data,
        sock.advance call sock.incoming⟩) ∨
    (sock.read call = (.ok none, sock.advance call sock.incoming) ∧
      o = r.afterContent b n data (sock.advance call sock.incoming)) ∨
    ∃ bytes rest, bytes ≠ [] ∧ data.length + bytes.length ≤ n ∧
      sock.incoming = bytes ++ rest ∧
      sock.read call = (.ok (some bytes), sock.advance call rest) ∧
      o = r.afterContent b n (data ++ bytes) (sock.advance call rest) := by
  intro call o
  have unfolded : o = (r.receivingContent b n data).readContent sock := if_pos rfl
  have full : ∀ {received : Bytes}, received.length ≤ n →
      ((b.filled n received).toWrite = 0 ↔ received.length = n) :=
    fun fits => cleared.toWrite_filled fits small
  obtain ⟨e, failed, result⟩ | ⟨again, result⟩ |
      ⟨bytes, rest, nonempty, fits, split, received, result⟩ :=
    fillFrom_cases cleared room small sock
  · refine .inl ⟨e, failed, ?_⟩
    rw [unfolded]
    simp only [readContent, receivingContent_contentBuffer, result]
    rfl
  · refine .inr (.inl ⟨again, ?_⟩)
    rw [unfolded]
    simp only [readContent, receivingContent_contentBuffer, result, full room]
    rfl
  · refine .inr (.inr ⟨bytes, rest, nonempty, fits, split, received, ?_⟩)
    have fits : (data ++ bytes).length ≤ _ := (List.length_append).trans_le fits
    rw [unfolded]
    simp only [readContent, receivingContent_contentBuffer, result, full fits]
    rfl

/-! ## Every read is in bounds -/

theorem announcedLength_ne_none {block : Bytes} {n : Int}
    (announced : r.announcedLength hd block = some n) :
    hd.modifier1 = uwsgiVars ∧ ∃ h, parseVars (r.receivingVars hd block).toHttpBase = .ok h ∧
      h.header (text "CONTENT_LENGTH") ≠ noVal ∧ n = atoi (h.header (text "CONTENT_LENGTH")) := by
  unfold announcedLength at announced
  split at announced
  · next supported =>
      refine ⟨supported, ?_⟩
      split at announced
      · cases announced
      · next h accepted =>
          dsimp only at announced
          split at announced
          · cases announced
          · next present =>
              exact ⟨h, accepted, present, (Option.some.inj announced).symm⟩
  · cases announced

/-- A complete block that announces a content length. -/
theorem finishVars_announced {block : Bytes} {n : Int} {b : Buffer}
    (announced : r.announcedLength hd block = some n)
    (resized : r.contentBuffer.setSize (toSize n) = .ok b) (sock : Socket) :
    ∃ parsed : UwsgiRequest, (r.receivingVars hd block).finishVars sock =
      ⟨.ok (), { parsed with state := .readContent, contentBuffer := b }, sock⟩ := by
  obtain ⟨_, h, accepted, present, rfl⟩ := announcedLength_ne_none announced
  have content : h.contentBuffer = r.contentBuffer := (parseVars_sameBuffers accepted).content
  refine ⟨{ toHttpBase := h, uwsgiHeader := hd }, ?_⟩
  simp only [finishVars, accepted, var, present, if_false, content, resized]
  rfl

/-- What a complete block of variables leads to. -/
theorem finishVars_cases (hd : UwsgiPacketHeader) (block : Bytes) (sock : Socket)
    (supported : hd.modifier1 = uwsgiVars) :
    let o := (r.receivingVars hd block).finishVars sock
    (∃ f failed, o = ⟨.error (.fault f), failed, sock⟩) ∨
    (∃ parsed : UwsgiRequest, o = ⟨.ok (), { parsed with state := .done }, sock⟩) ∨
    ∃ (parsed : UwsgiRequest) (n : Int) (b : Buffer),
      r.announcedLength hd block = some n ∧ -2 ^ 31 ≤ n ∧ n < 2 ^ 31 ∧
      r.contentBuffer.setSize (toSize n) = .ok b ∧
      o = ⟨.ok (), { parsed with state := .readContent, contentBuffer := b }, sock⟩ := by
  intro o
  cases accepted : parseVars (r.receivingVars hd block).toHttpBase with
  | error f =>
      refine .inl ⟨f, r.receivingVars hd block, ?_⟩
      simp only [o, finishVars, accepted]
  | ok h =>
      have content : h.contentBuffer = r.contentBuffer := (parseVars_sameBuffers accepted).content
      by_cases absent : h.header (text "CONTENT_LENGTH") = noVal
      · refine .inr (.inl ⟨{ toHttpBase := h, uwsgiHeader := hd }, ?_⟩)
        simp only [o, finishVars, accepted, var, absent, if_true]
        rfl
      · have announced : r.announcedLength hd block =
            some (atoi (h.header (text "CONTENT_LENGTH"))) := by
          simp [announcedLength, supported, accepted, absent]
        have bounds := atoi_bounds (h.header (text "CONTENT_LENGTH"))
        cases resized : r.contentBuffer.setSize
            (toSize (atoi (h.header (text "CONTENT_LENGTH")))) with
        | error f =>
            refine .inl ⟨f, { toHttpBase := h, uwsgiHeader := hd }, ?_⟩
            simp only [o, finishVars, accepted, var, absent, if_false, content, resized]
            rfl
        | ok b =>
            have ⟨parsed, finished⟩ := finishVars_announced announced resized sock
            exact .inr (.inr ⟨parsed, _, b, announced, bounds.1, bounds.2, resized, finished⟩)

/-- The object and the stream between two stages of reading. -/
inductive Underway (r : UwsgiRequest) (hd : UwsgiPacketHeader) (block : Bytes) :
    UwsgiRequest → Socket → Prop where
  | start {sock : Socket} (rest : Bytes) (stream : sock.incoming = hd.encode ++ block ++ rest) :
      Underway r hd block r sock
  | vars {sock : Socket} (data left rest : Bytes) (received : block = data ++ left)
      (stream : sock.incoming = left ++ rest) :
      Underway r hd block (r.receivingVars hd data) sock
  | content {sock : Socket} (parsed : UwsgiRequest) (n : Nat) (data : Bytes)
      (room : data.length ≤ n) (small : n + 1024 ≤ maxSize) :
      Underway r hd block (parsed.receivingContent r.contentBuffer n data) sock
  | done {finished : UwsgiRequest} {sock : Socket} (state : finished.state = .done) :
      Underway r hd block finished sock

/-- Reading was in bounds, and if it did not fail, it goes on. -/
def KeepsBounds (r : UwsgiRequest) (hd : UwsgiPacketHeader) (block : Bytes)
    (o : Outcome UwsgiRequest) : Prop :=
  (∀ call ∈ o.socket.reads, call.InBounds) ∧
    (o.result = .ok () → Underway r hd block o.object o.socket)

variable {block : Bytes}

theorem KeepsBounds.andThen {o : Outcome UwsgiRequest}
    {next : UwsgiRequest → Socket → Outcome UwsgiRequest} (first : KeepsBounds r hd block o)
    (second : ∀ current sock, Underway r hd block current sock →
      (∀ call ∈ sock.reads, call.InBounds) → KeepsBounds r hd block (next current sock)) :
    KeepsBounds r hd block (o.andThen next) := by
  obtain ⟨result, current, sock⟩ := o
  cases result with
  | error e => exact first
  | ok value => exact second current sock (first.2 rfl) first.1

theorem headerStage_keepsBounds (fresh : r.Fresh) {current : UwsgiRequest} {sock : Socket}
    (underway : Underway r hd block current sock)
    (before : ∀ call ∈ sock.reads, call.InBounds) :
    KeepsBounds r hd block (current.headerStage sock) := by
  cases underway with
  | start rest stream =>
      rw [List.append_assoc] at stream
      by_cases whole : WholeHeader sock
      · rw [headerStage_whole fresh stream whole]
        exact ⟨Socket.forall_reads_advance _ before (by decide),
          fun _ => .vars [] block rest rfl rfl⟩
      · obtain ⟨e, partly, left, result, -⟩ := headerStage_short fresh whole
        rw [result]
        exact ⟨Socket.forall_reads_advance left before (by decide), nofun⟩
  | vars data left rest received stream => exact ⟨before, fun _ => .vars _ _ _ received stream⟩
  | content parsed n data room small => exact ⟨before, fun _ => .content parsed n data room small⟩
  | done state =>
      have same : current.headerStage sock = ⟨.ok (), current, sock⟩ :=
        if_neg (by rw [state]; decide)
      rw [same]
      exact ⟨before, fun _ => .done state⟩

/-- The content length for which `set_size` wraps around. -/
def Wraps (n : Int) : Prop := -1024 ≤ n ∧ n ≤ -1

instance (n : Int) : Decidable (Wraps n) := inferInstanceAs (Decidable (_ ∧ _))

/-- Unless it wraps around, `set_size` makes room for the content or raises. -/
theorem setSize_of_not_wraps {b sized : Buffer} (cleared : b.Cleared) {n : Int}
    (low : -2 ^ 31 ≤ n) (high : n < 2 ^ 31) (harmless : ¬Wraps n)
    (resized : b.setSize (toSize n) = .ok sized) :
    sized = b.filled n.toNat [] ∧ n.toNat + 1024 ≤ maxSize := by
  by_cases negative : n < 0
  · rw [cleared.setSize_tooLarge low (by unfold Wraps at harmless; omega)] at resized
    cases resized
  · have small : n.toNat + 1024 ≤ maxSize := by
      unfold maxSize
      omega
    have size : toSize n = n.toNat := by
      unfold toSize
      omega
    rw [size, cleared.setSize_eq small] at resized
    exact ⟨(Except.ok.inj resized).symm, small⟩

theorem afterVars_keepsBounds (fresh : r.Fresh) (length : block.length = hd.datasize.toNat)
    (harmless : ∀ n, r.announcedLength hd block = some n → ¬Wraps n) {sock : Socket}
    {data left rest : Bytes} (received : block = data ++ left)
    (stream : sock.incoming = left ++ rest) (before : ∀ call ∈ sock.reads, call.InBounds) :
    KeepsBounds r hd block (r.afterVars hd data sock) := by
  unfold afterVars
  split
  · next complete =>
      have all : data = block := by
        have lengths := congrArg List.length received
        rw [List.length_append] at lengths
        rw [received, List.eq_nil_of_length_eq_zero (l := left) (by omega), List.append_nil]
      obtain ⟨f, failed, result⟩ | ⟨parsed, result⟩ |
          ⟨parsed, n, b, announced, low, high, resized, result⟩ :=
        finishVars_cases (r := r) hd block sock complete.2
      · rw [all, result]
        exact ⟨before, nofun⟩
      · rw [all, result]
        exact ⟨before, fun _ => .done rfl⟩
      · obtain ⟨rfl, small⟩ :=
          setSize_of_not_wraps fresh.content low high (harmless n announced) resized
        rw [all, result]
        exact ⟨before, fun _ => .content parsed n.toNat [] (Nat.zero_le _) small⟩
  · exact ⟨before, fun _ => .vars data left rest received stream⟩

theorem varsStage_keepsBounds (fresh : r.Fresh) (length : block.length = hd.datasize.toNat)
    (harmless : ∀ n, r.announcedLength hd block = some n → ¬Wraps n)
    {current : UwsgiRequest} {sock : Socket} (underway : Underway r hd block current sock)
    (before : ∀ call ∈ sock.reads, call.InBounds) :
    KeepsBounds r hd block (current.varsStage sock) := by
  cases underway with
  | start rest stream =>
      have same : r.varsStage sock = ⟨.ok (), r, sock⟩ := if_neg (by rw [fresh.state]; decide)
      rw [same]
      exact ⟨before, fun _ => .start rest stream⟩
  | vars data left rest received stream =>
      have room : data.length ≤ hd.datasize.toNat := by
        rw [← length, received, List.length_append]
        exact Nat.le_add_right _ _
      have inBounds := fillCall_inBounds r.dataBuffer room
      obtain ⟨e, _, result⟩ | ⟨_, result⟩ | ⟨bytes, unread, _, fits, split, _, result⟩ :=
        varsStage_cases fresh room sock
      · rw [result]
        exact ⟨Socket.forall_reads_advance _ before inBounds, nofun⟩
      · rw [result]
        exact afterVars_keepsBounds fresh length harmless received stream
          (Socket.forall_reads_advance _ before inBounds)
      · -- What was received is the next part of the block.
        have inside : bytes.length ≤ left.length := by
          rw [received, List.length_append] at length
          omega
        obtain ⟨more, rfl, rfl⟩ := exists_split_of_append_eq (stream.symm.trans split) inside
        rw [result]
        exact afterVars_keepsBounds fresh length harmless
          (received.trans (List.append_assoc data bytes more).symm) rfl
          (Socket.forall_reads_advance _ before inBounds)
  | content parsed n data room small => exact ⟨before, fun _ => .content parsed n data room small⟩
  | done state =>
      have same : current.varsStage sock = ⟨.ok (), current, sock⟩ :=
        if_neg (by rw [state]; decide)
      rw [same]
      exact ⟨before, fun _ => .done state⟩

theorem contentStage_keepsBounds (fresh : r.Fresh) {current : UwsgiRequest} {sock : Socket}
    (underway : Underway r hd block current sock)
    (before : ∀ call ∈ sock.reads, call.InBounds) :
    KeepsBounds r hd block (current.contentStage sock) := by
  cases underway with
  | start rest stream =>
      have same : r.contentStage sock = ⟨.ok (), r, sock⟩ := if_neg (by rw [fresh.state]; decide)
      rw [same]
      exact ⟨before, fun _ => .start rest stream⟩
  | vars data left rest received stream => exact ⟨before, fun _ => .vars _ _ _ received stream⟩
  | content parsed n data room small =>
      have inBounds := fillCall_inBounds r.contentBuffer room
      have after : ∀ {received : Bytes} {rest : Bytes}, received.length ≤ n →
          KeepsBounds r hd block (parsed.afterContent r.contentBuffer n received
            (sock.advance (fillCall r.contentBuffer n data) rest)) := by
        intro received rest fits
        unfold afterContent
        split
        · exact ⟨Socket.forall_reads_advance rest before inBounds, fun _ => .done rfl⟩
        · exact ⟨Socket.forall_reads_advance rest before inBounds,
            fun _ => .content parsed n _ fits small⟩
      obtain ⟨e, _, result⟩ | ⟨_, result⟩ | ⟨bytes, rest, _, fits, _, _, result⟩ :=
        contentStage_cases (r := parsed) fresh.content room small sock
      · rw [result]
        exact ⟨Socket.forall_reads_advance _ before inBounds, nofun⟩
      · rw [result]
        exact after room
      · rw [result]
        exact after (by rwa [List.length_append])
  | done state =>
      have same : current.contentStage sock = ⟨.ok (), current, sock⟩ :=
        if_neg (by rw [state]; decide)
      rw [same]
      exact ⟨before, fun _ => .done state⟩

theorem readData_keepsBounds (fresh : r.Fresh) (length : block.length = hd.datasize.toNat)
    (harmless : ∀ n, r.announcedLength hd block = some n → ¬Wraps n)
    {current : UwsgiRequest} {sock : Socket} (underway : Underway r hd block current sock)
    (before : ∀ call ∈ sock.reads, call.InBounds) :
    KeepsBounds r hd block (current.readData sock) :=
  KeepsBounds.andThen
    (KeepsBounds.andThen (headerStage_keepsBounds fresh underway before)
      fun _ _ => varsStage_keepsBounds fresh length harmless)
    fun _ _ => contentStage_keepsBounds fresh

/-- Between two calls, every read so far was in bounds. -/
def Bounded (r : UwsgiRequest) (hd : UwsgiPacketHeader) (block : Bytes)
    (s : Session UwsgiRequest) : Prop :=
  (∀ call ∈ s.socket.reads, call.InBounds) ∧
    (s.failure = none → Underway r hd block s.object s.socket)

theorem Bounded.readCall (fresh : r.Fresh) (length : block.length = hd.datasize.toNat)
    (harmless : ∀ n, r.announcedLength hd block = some n → ¬Wraps n) {s : Session UwsgiRequest}
    (bounded : Bounded r hd block s) : Bounded r hd block (UwsgiRequest.readCall s) := by
  unfold UwsgiRequest.readCall Session.call
  split
  · exact bounded
  · next running =>
      have alive : s.failure = none := by
        cases failed : s.failure with
        | none => rfl
        | some e => simp [failed] at running
      have kept := readData_keepsBounds fresh length harmless (bounded.2 alive) bounded.1
      refine ⟨kept.1, fun continued => kept.2 ?_⟩
      cases result : (s.object.readData s.socket).result with
      | ok value => rfl
      | error e => simp [result] at continued

/-! ## The announced length that breaks the bounds -/

/-- An empty block announces nothing. -/
theorem block_ne_nil (fresh : r.Fresh) (length : block.length = hd.datasize.toNat) {n : Int}
    (announced : r.announcedLength hd block = some n) : block ≠ [] := by
  rintro rfl
  obtain ⟨_, h, accepted, present, _⟩ := announcedLength_ne_none announced
  have unread : parseVars (r.receivingVars hd []).toHttpBase =
      .ok (r.receivingVars hd []).toHttpBase := by
    have size : (r.receivingVars hd []).dataBuffer.size = 0 := length.symm
    simp only [parseVars, parseLoop, size, Nat.lt_irrefl, if_false]
  cases unread.symm.trans accepted
  exact present (by simp [HttpBase.header, receivingVars, fresh.headers])

/-- The call of `read_data` that receives a whole block at once. -/
theorem readData_atOnce (fresh : r.Fresh) (length : block.length = hd.datasize.toNat)
    (nonempty : block ≠ []) {sock : Socket} {tail : Bytes}
    (stream : sock.incoming = hd.encode ++ (block ++ tail))
    (delivers : ∀ k, sock.arrivals k = .deliver 65536) :
    ∃ later, r.readData sock = (r.afterVars hd block later).andThen contentStage := by
  let later := sock.advance headerCall (block ++ tail)
  have received := Socket.read_deliver (fillCall r.dataBuffer hd.datasize.toNat [])
    (show later.arrivals later.reads.length = .deliver 65536 from delivers _)
    (show later.incoming ≠ [] from List.append_ne_nil_of_left_ne_nil nonempty tail)
    (by simpa [fillCall, ← length] using List.length_pos_iff.mpr nonempty)
  have all : min (max 65536 1) (fillCall r.dataBuffer hd.datasize.toNat []).len =
      block.length := by
    have bound := hd.datasize.toNat_lt
    simp only [fillCall, List.length_nil, Nat.sub_zero, length]
    omega
  rw [all, Socket.advance_incoming, List.take_left] at received
  have whole : WholeHeader sock := ⟨65536, by decide, delivers _⟩
  unfold readData
  rw [headerStage_whole fresh stream whole, Outcome.andThen_ok]
  rw [varsStage_received fresh (Nat.zero_le _) received, List.nil_append]
  exact ⟨_, rfl⟩

theorem contentStage_socket {current : UwsgiRequest} (state : current.state = .readContent)
    (sock : Socket) :
    (current.contentStage sock).socket = (fillFrom current.contentBuffer
      (toSize current.contentBuffer.toWrite) sock).socket := by
  rw [contentStage, if_pos state, readContent]
  dsimp only
  split
  · rfl
  · split <;> rfl

/-- Reading content is one read, at the put pointer of the content buffer. -/
theorem contentStage_reads {current : UwsgiRequest} (state : current.state = .readContent)
    (sock : Socket) :
    ReadCall.mk current.contentBuffer.pptr (toSize current.contentBuffer.toWrite)
      current.contentBuffer.size current.contentBuffer.bufferSize ∈
        (current.contentStage sock).socket.reads := by
  rw [contentStage_socket state, fillFrom_reads]
  exact List.mem_append_right _ List.mem_cons_self

/-- A content length that wraps around makes a read that is out of bounds. -/
theorem exists_outOfBounds (fresh : r.Fresh) (length : block.length = hd.datasize.toNat) {n : Int}
    (announced : r.announcedLength hd block = some n) (wraps : Wraps n) {sock : Socket}
    (stream : sock.incoming = hd.encode ++ block)
    (delivers : ∀ k, sock.arrivals k = .deliver 65536) :
    ∃ call ∈ (r.readData sock).socket.reads, ¬call.InBounds := by
  have resized := fresh.content.setSize_wraps wraps.1 wraps.2
  rw [← List.append_nil block] at stream
  obtain ⟨later, result⟩ :=
    readData_atOnce fresh length (block_ne_nil fresh length announced) stream delivers
  obtain ⟨parsed, finished⟩ := finishVars_announced announced resized later
  rw [result, afterVars, if_pos ⟨length, (announcedLength_ne_none announced).1⟩, finished,
    Outcome.andThen_ok]
  refine ⟨_, contentStage_reads rfl later, ?_⟩
  -- The logical size is larger than the vector, which has shrunk.
  rintro ⟨_, inside, _⟩
  simp only [Buffer.bufferSize, length_resize] at inside
  unfold Wraps at wraps
  unfold toSize at inside
  omega

/-- In every run on a packet header and a block of variables, each read stays
inside the buffer it fills, exactly if the variables do not announce a content
length from -1024 to -1. -/
theorem reads_inBounds_iff (fresh : r.Fresh) (length : block.length = hd.datasize.toNat) :
    (∀ (sock : Socket) (rest : Bytes), sock.incoming = hd.encode ++ block ++ rest →
      sock.reads = [] → ∀ calls, ∀ call ∈ (readCall^[calls] ⟨r, sock, none⟩).socket.reads,
        call.InBounds) ↔
    ∀ n, r.announcedLength hd block = some n → ¬Wraps n := by
  constructor
  · intro safe n announced wraps
    let sock : Socket :=
      { incoming := hd.encode ++ block, arrivals := fun _ => .deliver 65536 }
    obtain ⟨call, member, outside⟩ :=
      exists_outOfBounds fresh length announced wraps (show sock.incoming = _ from rfl) fun _ => rfl
    refine outside (safe sock [] (List.append_nil _).symm rfl 1 call ?_)
    simpa [readCall, Session.call, fresh.not_done] using member
  · intro harmless sock rest stream unread calls
    have bounded : Bounded r hd block (readCall^[calls] ⟨r, sock, none⟩) := by
      induction calls with
      | zero => exact ⟨by simp [unread], fun _ => .start rest stream⟩
      | succ calls ih =>
          rw [Function.iterate_succ_apply']
          exact ih.readCall fresh length harmless
    exact bounded.1

/-- The wire form of the variable `CONTENT_LENGTH` with a value of two characters. -/
def contentLengthVar (value : String) : Bytes :=
  le16 14 ++ text "CONTENT_LENGTH" ++ le16 2 ++ text value

theorem reads_inBounds_eleven :
    announcedLength {} { datasize := 20 } (contentLengthVar "11") = some 11 ∧
    ∀ (sock : Socket) (rest : Bytes),
      sock.incoming = UwsgiPacketHeader.encode { datasize := 20 } ++ contentLengthVar "11" ++ rest →
      sock.reads = [] → ∀ calls, ∀ call ∈ (readCall^[calls] ⟨{}, sock, none⟩).socket.reads,
        call.InBounds := by
  have eleven : announcedLength {} { datasize := 20 } (contentLengthVar "11") = some 11 := by
    decide +kernel
  refine ⟨eleven, (reads_inBounds_iff fresh_default (by decide)).mpr fun n announced => ?_⟩
  rw [eleven] at announced
  cases announced
  decide

/-- With a content length of -1, `recvfrom` may write 2^64 - 1 bytes to a vector
of 1023. -/
theorem reads_outOfBounds_minusOne :
    let sock : Socket :=
      { incoming := UwsgiPacketHeader.encode { datasize := 20 } ++ contentLengthVar "-1"
        arrivals := fun _ => .deliver 65536 }
    let last : ReadCall := { offset := 0, len := 2 ^ 64 - 1, size := 2 ^ 64 - 1, capacity := 1023 }
    last ∈ (readData {} sock).socket.reads ∧ ¬last.InBounds := by
  decide +kernel

end UwsgiRequest

end LibTasks.Net

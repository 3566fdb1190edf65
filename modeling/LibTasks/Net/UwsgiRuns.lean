import LibTasks.Net.UwsgiDelivery

/-!
# Runs of the uwsgi reader on any connection

Calls of `read_data` on a connection that may deliver, stall, close or break at any time.  A
packet of variables with a block that is not empty, and with content if it announces a content
length, is read without a request for zero bytes, and the call that receives its last byte
completes it.  For all other packets there is a run that asks for zero bytes.
-/

namespace LibTasks.Net

open LibTasks.Foundation LibTasks.Tools

namespace UwsgiRequest

variable {r : UwsgiRequest} {hd : UwsgiPacketHeader}

@[simp] theorem finishVars_socket (r : UwsgiRequest) (sock : Socket) :
    (r.finishVars sock).socket = sock := by
  unfold finishVars
  split
  · rfl
  · dsimp only
    split
    · rfl
    · split <;> rfl

@[simp] theorem afterVars_socket (r : UwsgiRequest) (hd : UwsgiPacketHeader) (data : Bytes)
    (sock : Socket) : (r.afterVars hd data sock).socket = sock := by
  unfold afterVars
  split
  · exact finishVars_socket _ _
  · rfl

@[simp] theorem afterContent_socket (r : UwsgiRequest) (b : Buffer) (n : Nat) (data : Bytes)
    (sock : Socket) : (r.afterContent b n data sock).socket = sock := by
  unfold afterContent
  split <;> rfl

theorem varsStage_socket {current : UwsgiRequest} (state : current.state = .readData)
    (sock : Socket) :
    (current.varsStage sock).socket = (fillFrom current.dataBuffer
      (toSize current.dataBuffer.toWrite) sock).socket := by
  rw [varsStage, if_pos state, readVars]
  dsimp only
  split
  · rfl
  · split
    · exact finishVars_socket _ _
    · rfl

/-- Reading variables is one read, at the put pointer of the data buffer. -/
theorem varsStage_reads {current : UwsgiRequest} (state : current.state = .readData)
    (sock : Socket) :
    ReadCall.mk current.dataBuffer.pptr (toSize current.dataBuffer.toWrite)
      current.dataBuffer.size current.dataBuffer.bufferSize ∈
        (current.varsStage sock).socket.reads := by
  rw [varsStage_socket state, fillFrom_reads]
  exact List.mem_append_right _ List.mem_cons_self

/-- The last stage keeps the record of the reads. -/
theorem mem_reads_contentStage {o : Outcome UwsgiRequest} {call : ReadCall}
    (member : call ∈ o.socket.reads) : call ∈ (o.andThen contentStage).socket.reads := by
  obtain ⟨result, current, sock⟩ := o
  cases result with
  | error e => exact member
  | ok value =>
      rw [Outcome.andThen_ok]
      by_cases state : current.state = .readContent
      · rw [contentStage_socket state, fillFrom_reads]
        exact List.mem_append_left _ member
      · rw [contentStage, if_neg state]
        exact member

/-- Reading variables when the block is complete asks for zero bytes. -/
theorem varsStage_asks_zero (fresh : r.Fresh) {block : Bytes}
    (length : block.length = hd.datasize.toNat) (sock : Socket) :
    ∃ call ∈ (((r.receivingVars hd block).varsStage sock).andThen contentStage).socket.reads,
      call.len = 0 := by
  have full : (r.receivingVars hd block).dataBuffer.toWrite = 0 :=
    (fresh.data.toWrite_filled (Nat.le_of_eq length) (datasize_small hd)).mpr length
  exact ⟨_, mem_reads_contentStage (varsStage_reads rfl sock), congrArg toSize full⟩

end UwsgiRequest

/-! ## Reading a packet -/

namespace Packet

variable {p : Packet} {r : UwsgiRequest} {rest : Bytes}

/-- A part of a call that asks for no zero bytes.  It goes on reading the packet, or it fails
before the end of the packet. -/
structure Proceeds (p : Packet) (r : UwsgiRequest) (rest : Bytes) (o : Outcome UwsgiRequest) :
    Prop where
  asks : ∀ call ∈ o.socket.reads, call.len ≠ 0
  reading : o.result = .ok () → Reading p r rest o.object o.socket.incoming
  failed : o.result ≠ .ok () →
    o.object.state ≠ .done ∧ rest.length < o.socket.incoming.length

theorem Proceeds.of_continues {o : Outcome UwsgiRequest} {sock : Socket} {clock : Nat}
    (continues : Continues p r rest sock clock o)
    (asks : ∀ call ∈ o.socket.reads, call.len ≠ 0) : Proceeds p r rest o := by
  obtain ⟨next, later, rfl, reading, -, -⟩ := continues
  exact ⟨asks, fun _ => reading, fun failed => absurd rfl failed⟩

theorem Proceeds.of_reading {current : UwsgiRequest} {sock : Socket}
    (reading : Reading p r rest current sock.incoming)
    (asks : ∀ call ∈ sock.reads, call.len ≠ 0) : Proceeds p r rest ⟨.ok (), current, sock⟩ :=
  ⟨asks, fun _ => reading, fun failed => absurd rfl failed⟩

theorem Proceeds.of_failed {current : UwsgiRequest} {sock : Socket} {e : Failure}
    (asks : ∀ call ∈ sock.reads, call.len ≠ 0) (state : current.state ≠ .done)
    (unread : rest.length < sock.incoming.length) : Proceeds p r rest ⟨.error e, current, sock⟩ :=
  ⟨asks, fun ended => (by cases ended), fun _ => ⟨state, unread⟩⟩

theorem Proceeds.andThen {o : Outcome UwsgiRequest}
    {next : UwsgiRequest → Socket → Outcome UwsgiRequest} (first : Proceeds p r rest o)
    (second : ∀ current sock, Reading p r rest current sock.incoming →
      (∀ call ∈ sock.reads, call.len ≠ 0) → Proceeds p r rest (next current sock)) :
    Proceeds p r rest (o.andThen next) := by
  obtain ⟨result, current, sock⟩ := o
  cases result with
  | error e => exact first
  | ok value => exact second current sock (first.reading rfl) first.asks

theorem varsStage_proceeds (fresh : r.Fresh) {sock : Socket} {current : UwsgiRequest}
    (reading : Reading p r rest current sock.incoming)
    (before : ∀ call ∈ sock.reads, call.len ≠ 0) :
    Proceeds p r rest (current.varsStage sock) := by
  generalize stream : sock.incoming = unread at reading
  cases reading with
  | vars data left split more =>
      have total : p.header.datasize.toNat = (data ++ left).length := by rw [datasize_toNat, split]
      have lengths := total
      rw [List.length_append] at lengths
      have positive := List.length_pos_iff.mpr more
      have room : data.length ≤ p.header.datasize.toNat := by omega
      have asks : (fillCall r.dataBuffer p.header.datasize.toNat data).len ≠ 0 := by
        simp only [fillCall]
        omega
      obtain ⟨e, _, result⟩ | ⟨_, result⟩ | ⟨bytes, unread, _, fits, taken, _, result⟩ :=
        UwsgiRequest.varsStage_cases fresh room sock
      · rw [result]
        apply Proceeds.of_failed (Socket.forall_reads_advance _ before asks)
        · exact IoState.noConfusion
        · rw [Socket.advance_incoming, stream, List.length_append, List.length_append]
          omega
      · rw [result]
        refine Proceeds.of_continues (afterVars_continues fresh split (.refl _) stream) ?_
        rw [UwsgiRequest.afterVars_socket]
        exact Socket.forall_reads_advance _ before asks
      · obtain ⟨later, rfl, rfl⟩ := split_received total fits stream taken
        rw [result]
        rw [← List.append_assoc] at split
        refine Proceeds.of_continues (afterVars_continues fresh split (.refl _) rfl) ?_
        rw [UwsgiRequest.afterVars_socket]
        exact Socket.forall_reads_advance _ before asks
  | content data left split more =>
      exact .of_reading (stream ▸ .content data left split more) before
  | done =>
      have same : (p.received r).varsStage sock = ⟨.ok (), p.received r, sock⟩ :=
        if_neg (by rw [received_state]; decide)
      rw [same]
      exact .of_reading (stream ▸ .done) before

theorem contentStage_proceeds (fresh : r.Fresh) {sock : Socket} {current : UwsgiRequest}
    (reading : Reading p r rest current sock.incoming)
    (before : ∀ call ∈ sock.reads, call.len ≠ 0) :
    Proceeds p r rest (current.contentStage sock) := by
  generalize stream : sock.incoming = unread at reading
  cases reading with
  | vars data left split more => exact .of_reading (stream ▸ .vars data left split more) before
  | content data left split more =>
      have total : p.content.length = (data ++ left).length := by rw [split]
      have lengths := total
      rw [List.length_append] at lengths
      have positive := List.length_pos_iff.mpr more
      have room : data.length ≤ p.content.length := by omega
      have bare : p.content ≠ [] := List.ne_nil_of_length_pos (by omega)
      have asks : (fillCall r.contentBuffer p.content.length data).len ≠ 0 := by
        simp only [fillCall]
        omega
      obtain ⟨e, _, result⟩ | ⟨_, result⟩ | ⟨bytes, unread, _, fits, taken, _, result⟩ :=
        UwsgiRequest.contentStage_cases (r := p.parsed r) fresh.content room p.content_small sock
      · rw [result]
        apply Proceeds.of_failed (Socket.forall_reads_advance _ before asks)
        · exact IoState.noConfusion
        · rw [Socket.advance_incoming, stream, List.length_append]
          omega
      · rw [result]
        refine Proceeds.of_continues (afterContent_continues split bare (.refl _) stream) ?_
        rw [UwsgiRequest.afterContent_socket]
        exact Socket.forall_reads_advance _ before asks
      · obtain ⟨later, rfl, rfl⟩ := split_received total fits stream taken
        rw [result]
        rw [← List.append_assoc] at split
        refine Proceeds.of_continues (afterContent_continues split bare (.refl _) rfl) ?_
        rw [UwsgiRequest.afterContent_socket]
        exact Socket.forall_reads_advance _ before asks
  | done =>
      have same : (p.received r).contentStage sock = ⟨.ok (), p.received r, sock⟩ :=
        if_neg (by rw [received_state]; decide)
      rw [same]
      exact .of_reading (stream ▸ .done) before

theorem stages_proceed (fresh : r.Fresh) {sock : Socket} {current : UwsgiRequest}
    (reading : Reading p r rest current sock.incoming)
    (before : ∀ call ∈ sock.reads, call.len ≠ 0) :
    Proceeds p r rest ((current.varsStage sock).andThen UwsgiRequest.contentStage) :=
  (varsStage_proceeds fresh reading before).andThen fun _ _ => contentStage_proceeds fresh

/-- The first call. -/
theorem readData_proceeds (fresh : r.Fresh) {sock : Socket}
    (stream : sock.incoming = p.bytes ++ rest) (before : ∀ call ∈ sock.reads, call.len ≠ 0) :
    Proceeds p r rest (r.readData sock) := by
  rw [bytes, List.append_assoc, List.append_assoc] at stream
  by_cases whole : UwsgiRequest.WholeHeader sock
  · rw [UwsgiRequest.readData, UwsgiRequest.headerStage_whole fresh stream whole,
      Outcome.andThen_ok]
    apply stages_proceed fresh (.vars [] (wire p.vars) rfl (wire_ne_nil p.nonempty))
    exact Socket.forall_reads_advance _ before (by decide)
  · obtain ⟨e, partly, left, result, few⟩ := UwsgiRequest.headerStage_short fresh whole
    rw [UwsgiRequest.readData, result]
    apply Proceeds.of_failed (Socket.forall_reads_advance _ before (by decide))
    · exact IoState.noConfusion
    · rw [stream] at few
      simp only [List.length_append, UwsgiPacketHeader.length_encode] at few
      rw [Socket.advance_incoming]
      omega

/-! ## Whole runs -/

open UwsgiRequest (readCall)

/-- Between two calls. -/
structure Follows (p : Packet) (r : UwsgiRequest) (rest : Bytes) (s : Session UwsgiRequest) :
    Prop where
  asks : ∀ call ∈ s.socket.reads, call.len ≠ 0
  alive : s.failure = none → s.object = r ∧ s.socket.incoming = p.bytes ++ rest ∨
    Reading p r rest s.object s.socket.incoming
  failed : s.failure ≠ none → s.object.state ≠ .done ∧ rest.length < s.socket.incoming.length

theorem Follows.of_proceeds {o : Outcome UwsgiRequest} (proceeds : Proceeds p r rest o) :
    Follows p r rest ⟨o.object, o.socket, match o.result with
      | .ok () => none
      | .error e => some e⟩ := by
  obtain ⟨result, object, sock⟩ := o
  cases result with
  | ok value =>
      exact ⟨proceeds.asks, fun _ => .inr (proceeds.reading rfl), fun ended => absurd rfl ended⟩
  | error e =>
      exact ⟨proceeds.asks, fun alive => (by cases alive),
        fun _ => proceeds.failed fun ended => (by cases ended)⟩

theorem Follows.readCall (fresh : r.Fresh) {s : Session UwsgiRequest}
    (follows : Follows p r rest s) : Follows p r rest (readCall s) := by
  unfold UwsgiRequest.readCall Session.call
  split
  · exact follows
  · next running =>
      have alive : s.failure = none := by
        cases failed : s.failure with
        | none => rfl
        | some e => simp [failed] at running
      apply Follows.of_proceeds
      rcases follows.alive alive with ⟨start, stream⟩ | reading
      · rw [start]
        exact readData_proceeds fresh stream follows.asks
      · rw [reading.readData_eq]
        exact stages_proceed fresh reading follows.asks

theorem follows_iterate (fresh : r.Fresh) {sock : Socket}
    (stream : sock.incoming = p.bytes ++ rest) (unread : sock.reads = []) (calls : Nat) :
    Follows p r rest (readCall^[calls] ⟨r, sock, none⟩) := by
  induction calls with
  | zero =>
      refine ⟨?_, fun _ => .inl ⟨rfl, stream⟩, fun ended => absurd rfl ended⟩
      rw [Function.iterate_zero, id, unread]
      exact List.forall_mem_nil _
  | succ calls ih =>
      rw [Function.iterate_succ_apply']
      exact ih.readCall fresh

/-- Once all of the packet has been received, it is complete. -/
theorem Follows.done_of_received {s : Session UwsgiRequest} (follows : Follows p r rest s)
    (all : s.socket.incoming.length ≤ rest.length) : s.object.state = .done := by
  cases failure : s.failure with
  | some e =>
      have unread := (follows.failed (by rw [failure]; exact Option.some_ne_none e)).2
      omega
  | none =>
      rcases follows.alive failure with ⟨_, stream⟩ | reading
      · rw [stream, bytes] at all
        simp only [List.length_append, UwsgiPacketHeader.length_encode] at all
        omega
      · generalize unread : s.socket.incoming = left at reading all
        generalize s.object = current at reading
        cases reading with
        | vars data left split more =>
            have positive := List.length_pos_iff.mpr more
            simp only [List.length_append] at all
            omega
        | content data left split more =>
            have positive := List.length_pos_iff.mpr more
            simp only [List.length_append] at all
            omega
        | done => exact p.received_state r

/-- What a complete object is. -/
theorem Follows.eq_received (fresh : r.Fresh) {s : Session UwsgiRequest}
    (follows : Follows p r rest s) (done : s.object.state = .done) :
    s.object = p.received r := by
  cases failure : s.failure with
  | some e =>
      have state := (follows.failed (by rw [failure]; exact Option.some_ne_none e)).1
      exact absurd done state
  | none =>
      rcases follows.alive failure with ⟨start, _⟩ | reading
      · rw [start, fresh.state] at done
        cases done
      · generalize s.socket.incoming = unread at reading
        generalize s.object = current at reading done
        cases reading with
        | vars data left split more => cases done
        | content data left split more => cases done
        | done => rfl

end Packet

/-! ## Requests for zero bytes -/

/-- Any packet: a block of variables, and the content whose length the block announces. -/
structure AnyPacket where
  modifier1 : UInt8 := uwsgiVars
  modifier2 : UInt8 := 0
  vars : List (Bytes × Bytes)
  content : Bytes := []
  small : (wire vars).length < 65536
  announced :
    let length := ((varsMap ∅ vars).lookup (text "CONTENT_LENGTH")).getD noVal
    if length = noVal then content = [] else atoi length = content.length

namespace AnyPacket

open UwsgiRequest (readCall)

variable {p : AnyPacket} {r : UwsgiRequest}

/-- The value of `CONTENT_LENGTH`. -/
def lengthVar (p : AnyPacket) : Bytes :=
  ((varsMap ∅ p.vars).lookup (text "CONTENT_LENGTH")).getD noVal

/-- The packet header. -/
def header (p : AnyPacket) : UwsgiPacketHeader where
  modifier1 := p.modifier1
  datasize := UInt16.ofNat (wire p.vars).length
  modifier2 := p.modifier2

/-- The packet on the stream. -/
def bytes (p : AnyPacket) : Bytes := p.header.encode ++ wire p.vars ++ p.content

/-- A packet of variables that are not empty, and with content if it announces any. -/
structure Regular (p : AnyPacket) : Prop where
  supported : p.modifier1 = uwsgiVars
  nonempty : p.vars ≠ []
  positive : p.lengthVar ≠ noVal → p.content ≠ []

theorem datasize_toNat (p : AnyPacket) : p.header.datasize.toNat = (wire p.vars).length := by
  have small := p.small
  simp only [header, UInt16.toNat_ofNat']
  omega

def Regular.packet (regular : p.Regular) : Packet where
  modifier2 := p.modifier2
  vars := p.vars
  content := p.content
  nonempty := regular.nonempty
  small := p.small
  announced := by
    have announced := p.announced
    dsimp only at announced ⊢
    split
    · next absent => rwa [if_pos absent] at announced
    · next present =>
        rw [if_neg present] at announced
        exact ⟨regular.positive present, announced⟩

theorem Regular.bytes_packet (regular : p.Regular) : regular.packet.bytes = p.bytes := by
  rw [Packet.bytes, bytes, Packet.header, header, regular.supported]
  rfl

/-- In every run on the packet, no read asks for zero bytes, and the call that receives the
last byte of the packet completes it. -/
def ReadsWell (p : AnyPacket) (r : UwsgiRequest) : Prop :=
  ∀ (sock : Socket) (rest : Bytes), sock.incoming = p.bytes ++ rest → sock.reads = [] →
    ∀ calls, let s := readCall^[calls] ⟨r, sock, none⟩
      (∀ call ∈ s.socket.reads, call.len ≠ 0) ∧
      (rest.length < s.socket.incoming.length →
        (readCall s).socket.incoming.length ≤ rest.length → (readCall s).object.state = .done)

theorem Regular.readsWell (regular : p.Regular) (fresh : r.Fresh) : p.ReadsWell r := by
  intro sock rest stream unread calls
  rw [← regular.bytes_packet] at stream
  have follows := Packet.follows_iterate fresh stream unread calls
  exact ⟨follows.asks, fun _ all => (follows.readCall fresh).done_of_received all⟩

/-- The packet on a connection that delivers all there is. -/
def atOnce (p : AnyPacket) : Socket where
  incoming := p.bytes
  arrivals _ := .deliver 65536

theorem atOnce_whole (p : AnyPacket) : UwsgiRequest.WholeHeader p.atOnce :=
  ⟨65536, by decide, rfl⟩

/-- An empty block is read with a request for zero bytes. -/
theorem asks_zero_of_empty (fresh : r.Fresh) (empty : p.vars = []) :
    ∃ call ∈ (r.readData p.atOnce).socket.reads, call.len = 0 := by
  have stream : p.atOnce.incoming = p.header.encode ++ (wire p.vars ++ p.content) :=
    List.append_assoc ..
  have length : ([] : Bytes).length = p.header.datasize.toNat := by
    rw [p.datasize_toNat, empty]
    rfl
  rw [UwsgiRequest.readData, UwsgiRequest.headerStage_whole fresh stream p.atOnce_whole,
    Outcome.andThen_ok]
  exact UwsgiRequest.varsStage_asks_zero fresh length _

/-- The call that receives the block when everything arrives at once. -/
theorem readData_atOnce (fresh : r.Fresh) (nonempty : p.vars ≠ []) :
    ∃ later, r.readData p.atOnce =
      (r.afterVars p.header (wire p.vars) later).andThen UwsgiRequest.contentStage :=
  UwsgiRequest.readData_atOnce fresh p.datasize_toNat.symm (wire_ne_nil nonempty)
    (List.append_assoc ..) fun _ => rfl

/-- A block that is not parsed stays complete, and the next call asks for zero bytes. -/
theorem asks_zero_of_unsupported (fresh : r.Fresh) (nonempty : p.vars ≠ [])
    (unsupported : p.modifier1 ≠ uwsgiVars) :
    ∃ call ∈ (readCall^[2] ⟨r, p.atOnce, none⟩).socket.reads, call.len = 0 := by
  obtain ⟨later, result⟩ := readData_atOnce fresh nonempty
  have waits : r.readData p.atOnce = ⟨.ok (), r.receivingVars p.header (wire p.vars), later⟩ := by
    rw [result, UwsgiRequest.afterVars, if_neg fun both => unsupported both.2]
    rfl
  obtain ⟨call, member, zero⟩ :=
    UwsgiRequest.varsStage_asks_zero fresh p.datasize_toNat.symm later
  refine ⟨call, ?_, zero⟩
  rw [Function.iterate_succ_apply', Function.iterate_one]
  rw [show readCall ⟨r, p.atOnce, none⟩ = _ from Session.call_ok fresh.not_done waits]
  exact member

/-- Content of the length 0 is read with a request for zero bytes. -/
theorem asks_zero_of_bare (fresh : r.Fresh) (supported : p.modifier1 = uwsgiVars)
    (nonempty : p.vars ≠ []) (present : p.lengthVar ≠ noVal) (bare : p.content = []) :
    ∃ call ∈ (r.readData p.atOnce).socket.reads, call.len = 0 := by
  obtain ⟨later, result⟩ := readData_atOnce fresh nonempty
  have announced : r.announcedLength p.header (wire p.vars) = some 0 := by
    have accepted : parseVars (r.receivingVars p.header (wire p.vars)).toHttpBase =
        .ok (setVars (r.receivingVars p.header (wire p.vars)).toHttpBase p.vars) :=
      parseVars_wire p.small p.datasize_toNat rfl
    have lookup : (setVars (r.receivingVars p.header (wire p.vars)).toHttpBase p.vars).header
        (text "CONTENT_LENGTH") = p.lengthVar := by
      rw [HttpBase.header, setVars_headers, lengthVar]
      rw [show (r.receivingVars p.header (wire p.vars)).headers = ∅ from fresh.headers]
    have length : atoi p.lengthVar = 0 := by
      have announced := p.announced
      rw [bare] at announced
      exact (if_neg present).mp announced
    simp only [UwsgiRequest.announcedLength, accepted, lookup, length]
    rw [if_pos (show p.header.modifier1 = uwsgiVars from supported), if_neg present]
  have resized : r.contentBuffer.setSize (toSize 0) = .ok (r.contentBuffer.filled 0 []) :=
    fresh.content.setSize_eq (by decide)
  obtain ⟨parsed, finished⟩ := UwsgiRequest.finishVars_announced announced resized later
  rw [result, UwsgiRequest.afterVars, if_pos ⟨p.datasize_toNat.symm, supported⟩, finished,
    Outcome.andThen_ok]
  refine ⟨_, UwsgiRequest.contentStage_reads rfl later, ?_⟩
  have full : (r.contentBuffer.filled 0 []).toWrite = 0 :=
    (fresh.content.toWrite_filled (Nat.le_refl 0) (by decide)).mpr rfl
  dsimp only
  rw [full]
  rfl

/-- The reader never asks for zero bytes, and it completes the packet with its last byte,
exactly if the packet is one of variables, its block is not empty, and it does not announce
content of the length 0. -/
theorem readsWell_iff (p : AnyPacket) (fresh : r.Fresh) : p.ReadsWell r ↔ p.Regular := by
  constructor
  · intro well
    have once := (well p.atOnce [] (List.append_nil _).symm rfl 1).1
    have twice := (well p.atOnce [] (List.append_nil _).symm rfl 2).1
    have first : (readCall^[1] ⟨r, p.atOnce, none⟩).socket = (r.readData p.atOnce).socket := by
      simp [UwsgiRequest.readCall, Session.call, fresh.not_done]
    rw [first] at once
    have nonempty : p.vars ≠ [] := by
      intro empty
      obtain ⟨call, member, zero⟩ := asks_zero_of_empty fresh empty
      exact once call member zero
    have supported : p.modifier1 = uwsgiVars := by
      by_contra unsupported
      obtain ⟨call, member, zero⟩ := asks_zero_of_unsupported fresh nonempty unsupported
      exact twice call member zero
    refine ⟨supported, nonempty, fun present bare => ?_⟩
    obtain ⟨call, member, zero⟩ := asks_zero_of_bare fresh supported nonempty present bare
    exact once call member zero
  · intro regular
    exact regular.readsWell fresh

/-- A packet with one variable, and content of two bytes. -/
def sample : AnyPacket where
  vars := [(text "B", text "c"), (text "CONTENT_LENGTH", text "2")]
  content := [1, 2]
  small := by decide
  announced := by decide

theorem readsWell_sample : sample.ReadsWell {} :=
  (readsWell_iff sample UwsgiRequest.fresh_default).mpr
    ⟨rfl, List.cons_ne_nil _ _, fun _ => List.cons_ne_nil _ _⟩

/-- A packet that announces content of the length 0. -/
def zeroLength : AnyPacket where
  vars := [(text "CONTENT_LENGTH", text "0")]
  small := by decide
  announced := by decide

/-- An empty packet, with the first byte of what follows it. -/
def emptyBlock : Socket where
  incoming := UwsgiPacketHeader.encode {} ++ [0]
  arrivals _ := .deliver 65536

/-- The content of the length 0 is asked for, and the empty block is taken for a disconnect. -/
theorem asks_zero_sample :
    (∃ call ∈ (readCall ⟨{}, zeroLength.atOnce, none⟩).socket.reads, call.len = 0) ∧
      (∃ call ∈ (readCall ⟨{}, emptyBlock, none⟩).socket.reads, call.len = 0) ∧
      (readCall ⟨{}, emptyBlock, none⟩).failure = some (.exception emptyBlock.disconnected) := by
  decide +kernel

end AnyPacket

end LibTasks.Net

import LibTasks.Tools.BufferStream
import LibTasks.Net.HttpRequest
import LibTasks.Net.HttpResponse
import LibTasks.Net.Sending
import LibTasks.Net.UwsgiEncoder

/-!
# Resumable writing

Any number of calls of `write_data` on a response, a request or a uwsgi request,
however few bytes the socket accepts in each write.  At all times the bytes accepted
are the first ones of the prepared data buffer followed by the content, each write
offers the rest of the part that is being sent, and the state is `DONE` exactly when
all has been accepted.
-/

namespace LibTasks.Net

open LibTasks.Foundation LibTasks.Tools

/-! ## The rest of a part -/

/-- What is left of the part that is being sent, after so many bytes of both. -/
def restOfPart (head content : Bytes) (count : Nat) : Bytes :=
  if count < head.length then head.drop count else content.drop (count - head.length)

/-- A write that offers the rest of the current part; `before` was sent earlier. -/
def offerRest (head content before : Bytes) (sock : Socket) : Socket :=
  (sock.write (restOfPart head content (sock.sent.length - before.length))).2

namespace HttpBase

/-! ## One call -/

/-- Where the sending of `head` and `content` stands after `accepted`. -/
inductive Stands (head content accepted : Bytes) (h : HttpBase) : Prop
  | data (state : h.state = .writeData) (left : h.dataBuffer.readable ≠ [])
      (split : accepted ++ h.dataBuffer.readable = head)
      (start : h.contentBuffer.gptr = 0) (rest : h.contentBuffer.readable = content)
  | content (state : h.state = .writeContent) (left : h.contentBuffer.readable ≠ [])
      (behind : head.length ≤ accepted.length)
      (split : accepted ++ h.contentBuffer.readable = head ++ content)
  | done (state : h.state = .done) (all : accepted = head ++ content)

/-- A message while it is sent. -/
structure Writing (head content before : Bytes) (h : HttpBase) (sock : Socket) : Prop where
  dataOk : h.dataBuffer.Ok
  contentOk : h.contentBuffer.Ok
  writable : sock.Writable
  stands : ∃ accepted, sock.sent = before ++ accepted ∧ Stands head content accepted h

variable {head content before accepted : Bytes} {h : HttpBase} {sock : Socket}

theorem Stands.accepted_first (stands : Stands head content accepted h) :
    accepted <+: head ++ content := by
  cases stands with
  | data _ _ split => exact ⟨h.dataBuffer.readable ++ content, by rw [← List.append_assoc, split]⟩
  | content _ _ _ split => exact ⟨_, split⟩
  | done _ all => exact all ▸ List.prefix_refl _

theorem Stands.done_iff (stands : Stands head content accepted h) :
    h.state = .done ↔ accepted = head ++ content := by
  cases stands with
  | data state left split =>
      rw [state, ← split, List.append_assoc]
      simpa using fun nothing => absurd nothing left
  | content state left _ split =>
      rw [state, ← split]
      simpa using left
  | done state all => exact ⟨fun _ => all, fun _ => state⟩

theorem offerRest_data (sent : sock.sent = before ++ accepted) {rest : Bytes} (left : rest ≠ [])
    (split : accepted ++ rest = head) :
    offerRest head content before sock = (sock.write rest).2 := by
  have some := List.length_pos_iff.mpr left
  have inside : accepted.length < head.length := by
    rw [← split, List.length_append]
    omega
  rw [offerRest, sent, List.length_append, Nat.add_sub_cancel_left, restOfPart, if_pos inside,
    ← split, List.drop_left]

theorem offerRest_content (sent : sock.sent = before ++ accepted) {rest : Bytes}
    (behind : head.length ≤ accepted.length) (split : accepted ++ rest = head ++ content) :
    offerRest head content before sock = (sock.write rest).2 := by
  have place : content.drop (accepted.length - head.length) = rest := by
    have dropped := congrArg (List.drop accepted.length) split
    rw [List.drop_left, List.drop_append, List.drop_eq_nil_of_le behind, List.nil_append]
      at dropped
    exact dropped.symm
  rw [offerRest, sent, List.length_append, Nat.add_sub_cancel_left, restOfPart,
    if_neg (Nat.not_lt.mpr behind), place]

/-- Writing the content. -/
theorem Writing.writeContentStage (writing : Writing head content before h sock)
    (state : h.state = .writeContent) :
    ∃ next, h.writeContentStage sock = ⟨.ok (), next, offerRest head content before sock⟩ ∧
      Writing head content before next (offerRest head content before sock) := by
  obtain ⟨accepted, sent, stands⟩ := writing.stands
  cases stands with
  | data other => cases state.symm.trans other
  | done other => cases state.symm.trans other
  | content _ left behind split =>
      obtain ⟨count, rest, drained, ok, readable, sentThen, -⟩ :=
        drainTo_accepts writing.contentOk writing.writable
      rw [← offerRest_content sent behind split] at drained sentThen
      have writable : (offerRest head content before sock).Writable := fun k => by
        rw [offerRest, Socket.write_acceptances]
        exact writing.writable k
      rw [sent, List.append_assoc] at sentThen
      unfold HttpBase.writeContentStage writeContent
      rw [if_pos state, drained]
      dsimp only
      split
      · next empty =>
          rw [ok.toRead_eq_zero, readable] at empty
          have whole := List.take_append_drop count h.contentBuffer.readable
          rw [empty, List.append_nil] at whole
          refine ⟨_, rfl, writing.dataOk, ok, writable, _, sentThen, .done rfl ?_⟩
          rw [whole, split]
      · next more =>
          rw [ok.toRead_eq_zero] at more
          refine ⟨_, rfl, writing.dataOk, ok, writable, _, sentThen, .content state more ?_ ?_⟩
          · rw [List.length_append]
            omega
          · rw [readable, List.append_assoc, List.take_append_drop, split]

/-- The end of a call that has nothing to write in it. -/
theorem writeContentStage_idle (other : h.state ≠ .writeContent) :
    h.writeContentStage sock = ⟨.ok (), h, sock⟩ :=
  if_neg other

/-- A call on a message that is prepared. -/
theorem Writing.writePrepared (writing : Writing head content before h sock) :
    ∃ next count, h.writePrepared sock =
        ⟨.ok (), next, (offerRest head content before)^[count] sock⟩ ∧
      Writing head content before next ((offerRest head content before)^[count] sock) ∧
      (h.state = .done → next = h ∧ count = 0) := by
  obtain ⟨accepted, sent, stands⟩ := writing.stands
  cases stands with
  | done state all =>
      refine ⟨h, 0, ?_, writing, fun _ => ⟨rfl, rfl⟩⟩
      rw [HttpBase.writePrepared, if_neg (by rw [state]; decide)]
      exact writeContentStage_idle (by rw [state]; decide)
  | content state left behind split =>
      obtain ⟨next, result, writingOn⟩ := writing.writeContentStage state
      refine ⟨next, 1, ?_, writingOn, fun done => by cases state.symm.trans done⟩
      rw [HttpBase.writePrepared, if_neg (by rw [state]; decide)]
      exact result
  | data state left split start rest =>
      obtain ⟨count, restOfData, drained, ok, readable, sentThen, -⟩ :=
        drainTo_accepts writing.dataOk writing.writable
      rw [← offerRest_data sent left split] at drained sentThen
      have writable : (offerRest head content before sock).Writable := fun k => by
        rw [offerRest, Socket.write_acceptances]
        exact writing.writable k
      have contentLength := writing.contentOk.length_readable
      rw [start, rest, Nat.sub_zero] at contentLength
      rw [sent, List.append_assoc] at sentThen
      have running : ∀ {next : HttpBase} {n : Nat}, h.state = .done → next = h ∧ n = 0 :=
        fun done => by cases state.symm.trans done
      unfold HttpBase.writePrepared writeHeaders
      rw [if_pos state, drained]
      dsimp only
      split
      · next empty =>
          rw [ok.toRead_eq_zero, readable] at empty
          have whole := List.take_append_drop count h.dataBuffer.readable
          rw [empty, List.append_nil] at whole
          rw [whole, split] at sentThen
          by_cases bare : h.contentBuffer.size = 0
          · -- Without content, the head was all.
            have nothing : content = [] := List.eq_nil_of_length_eq_zero (by omega)
            have idle : IoState.done ≠ .writeContent := by decide
            rw [if_pos bare]
            refine ⟨_, 1, writeContentStage_idle idle, ⟨ok, writing.contentOk, writable, head,
              sentThen, .done rfl ?_⟩, running⟩
            rw [nothing, List.append_nil]
          · have some : content ≠ [] := by
              intro nothing
              rw [nothing] at contentLength
              exact bare contentLength.symm
            rw [if_neg bare]
            have middle : Writing head content before
                { h with dataBuffer := restOfData, state := .writeContent }
                (offerRest head content before sock) :=
              ⟨ok, writing.contentOk, writable, head, sentThen,
                .content rfl (rest ▸ some) (Nat.le_refl _) (by rw [← rest])⟩
            obtain ⟨next, result, writingOn⟩ := middle.writeContentStage rfl
            exact ⟨next, 2, result, writingOn, running⟩
      · next more =>
          rw [ok.toRead_eq_zero] at more
          refine ⟨_, 1, writeContentStage_idle (by dsimp only; rw [state]; decide),
            ⟨ok, writing.contentOk, writable, _, sentThen, .data state more ?_ start rest⟩, running⟩
          rw [readable, List.append_assoc, List.take_append_drop, split]

end HttpBase

/-! ## The classes of messages -/

/-- What `write_data` uses of a class that overrides `prepare_data_buffer`. -/
structure MessageClass (σ : Type) where
  base : σ → HttpBase
  setBase : σ → HttpBase → σ
  prepare : σ → Except Fault σ
  base_setBase : ∀ x h, base (setBase x h) = h
  setBase_base : ∀ x, setBase x (base x) = x
  /-- Preparing fills an empty data buffer and leaves the content. -/
  prepared : ∀ {x y}, (base x).dataBuffer.Cleared → prepare x = .ok y →
    (base y).dataBuffer.Ok ∧ (base y).dataBuffer.gptr = 0 ∧ 0 < (base y).dataBuffer.size ∧
      (base y).contentBuffer = (base x).contentBuffer

namespace MessageClass

variable {σ : Type} (c : MessageClass σ)

/-- `write_data` of a class. -/
def writeData (x : σ) (sock : Socket) : Outcome σ :=
  if (c.base x).state = .ready then
    match c.prepare x with
    | .error f => ⟨.error (.fault f), x, sock⟩
    | .ok y =>
        let o := HttpBase.writePrepared { c.base y with state := .writeData } sock
        ⟨o.result, c.setBase y o.object, o.socket⟩
  else
    let o := (c.base x).writePrepared sock
    ⟨o.result, c.setBase x o.object, o.socket⟩

end MessageClass

/-- The next call of `write_data`, also on a message that is done. -/
def writeCall {σ : Type} (writeData : σ → Socket → Outcome σ) : Session σ → Session σ :=
  Session.call writeData fun _ => false

/-- Between two calls, after `before` was sent earlier: the bytes accepted come first
in the head and the content, they are all of it exactly when the state is `DONE`, the
next call offers nothing but rests of parts, and changes nothing in the state `DONE`. -/
structure SentSoFar {σ : Type} (base : σ → HttpBase) (writeData : σ → Socket → Outcome σ)
    (head content before : Bytes) (s : Session σ) : Prop where
  alive : s.failure = none
  accepted : ∃ accepted, s.socket.sent = before ++ accepted ∧ accepted <+: head ++ content ∧
    ((base s.object).state = .done ↔ accepted = head ++ content)
  offers : ∃ count,
    (writeCall writeData s).socket = (offerRest head content before)^[count] s.socket
  final : (base s.object).state = .done → writeCall writeData s = s

/-- Calls of `write_data` on a new message send its head, which is prepared in the
first call and in no other, and its content.  Where preparing fails, so does the call,
and sends nothing. -/
def WritesOnce {σ : Type} (base : σ → HttpBase) (prepare : σ → Except Fault σ)
    (writeData : σ → Socket → Outcome σ) : Prop :=
  ∀ x sock, (base x).state = .ready → (base x).dataBuffer.Cleared → (base x).contentBuffer.Ok →
    (base x).contentBuffer.gptr = 0 → sock.Writable →
    match prepare x with
    | .error f => writeCall writeData ⟨x, sock, none⟩ = ⟨x, sock, some (.fault f)⟩
    | .ok y => ∀ n,
        SentSoFar base writeData (base y).dataBuffer.readable (base x).contentBuffer.readable
            sock.sent ((writeCall writeData)^[n] ⟨x, sock, none⟩) ∧
          ((base ((writeCall writeData)^[n] ⟨x, sock, none⟩).object).state = .ready ↔ n = 0)

/-- Calls of `write_data` until the message is done send the bytes, on every connection
that keeps accepting. -/
def Emits {σ : Type} (base : σ → HttpBase) (writeData : σ → Socket → Outcome σ) (x : σ)
    (bytes : Bytes) : Prop :=
  ∀ sock : Socket, sock.Writable → sock.Draining → ∃ final,
    EndsAs (Session.call writeData fun x => (base x).done) ⟨x, sock, none⟩ final ∧
      final.failure = none ∧ (base final.object).state = .done ∧
      final.socket.sent = sock.sent ++ bytes ∧ final.socket.acceptances = sock.acceptances

namespace MessageClass

variable {σ : Type} {c : MessageClass σ} {x y : σ} {sock : Socket} {head content before : Bytes}

open HttpBase (Writing)

theorem writing_begun (writing : Writing head content before (c.base x) sock) :
    (c.base x).state ≠ .ready := by
  obtain ⟨_, _, stands⟩ := writing.stands
  intro ready
  cases stands with
  | data state => cases ready.symm.trans state
  | content state => cases ready.symm.trans state
  | done state => cases ready.symm.trans state

/-- A call on a message that is being sent. -/
theorem writeCall_writing (writing : Writing head content before (c.base x) sock) :
    ∃ next count, writeCall c.writeData ⟨x, sock, none⟩ =
        ⟨next, (offerRest head content before)^[count] sock, none⟩ ∧
      Writing head content before (c.base next)
        ((offerRest head content before)^[count] sock) ∧
      ((c.base x).state = .done → next = x ∧ count = 0) := by
  obtain ⟨h, count, result, writingOn, done⟩ := writing.writePrepared
  refine ⟨c.setBase x h, count, ?_, ?_, fun state => ?_⟩
  · have called : c.writeData x sock =
        ⟨.ok (), c.setBase x h, (offerRest head content before)^[count] sock⟩ := by
      rw [writeData, if_neg (writing_begun writing), result]
    exact Session.call_ok rfl called
  · rw [c.base_setBase]
    exact writingOn
  · rw [(done state).1, c.setBase_base]
    exact ⟨rfl, (done state).2⟩

theorem sentSoFar_of_writing {s : Session σ} (alive : s.failure = none)
    (writing : Writing head content before (c.base s.object) s.socket) :
    SentSoFar c.base c.writeData head content before s := by
  obtain ⟨x, sock, failure⟩ := s
  subst alive
  obtain ⟨next, count, called, -, done⟩ := writeCall_writing writing
  obtain ⟨accepted, sent, stands⟩ := writing.stands
  refine ⟨rfl, ⟨accepted, sent, stands.accepted_first, stands.done_iff⟩, ⟨count, ?_⟩, ?_⟩
  · rw [called]
  · intro state
    rw [called, (done state).1, (done state).2]
    rfl

/-- The first call. -/
theorem writeCall_ready (ready : (c.base x).state = .ready)
    (cleared : (c.base x).dataBuffer.Cleared)
    (ok : (c.base x).contentBuffer.Ok) (start : (c.base x).contentBuffer.gptr = 0)
    (writable : sock.Writable) (prepared : c.prepare x = .ok y) :
    (c.base y).dataBuffer.readable ≠ [] ∧
    ∃ next count, writeCall c.writeData ⟨x, sock, none⟩ =
        ⟨next, (offerRest (c.base y).dataBuffer.readable (c.base x).contentBuffer.readable
          sock.sent)^[count] sock, none⟩ ∧
      Writing (c.base y).dataBuffer.readable (c.base x).contentBuffer.readable sock.sent
        (c.base next) ((offerRest (c.base y).dataBuffer.readable
          (c.base x).contentBuffer.readable sock.sent)^[count] sock) := by
  obtain ⟨dataOk, gptr, positive, same⟩ := c.prepared cleared prepared
  have some : (c.base y).dataBuffer.readable ≠ [] := by
    rw [← List.length_pos_iff, dataOk.length_readable, gptr]
    exact positive
  have writing : Writing (c.base y).dataBuffer.readable (c.base x).contentBuffer.readable
      sock.sent { c.base y with state := .writeData } sock :=
    ⟨dataOk, same ▸ ok, writable, [], (List.append_nil _).symm,
      .data rfl some rfl (same ▸ start) (congrArg Buffer.readable same)⟩
  obtain ⟨h, count, result, writingOn, -⟩ := writing.writePrepared
  refine ⟨some, c.setBase y h, count, ?_, ?_⟩
  · apply Session.call_ok rfl
    rw [writeData, if_pos ready, prepared]
    dsimp only
    rw [result]
  · rw [c.base_setBase]
    exact writingOn

/-- Every class writes its messages once. -/
theorem writesOnce (c : MessageClass σ) : WritesOnce c.base c.prepare c.writeData := by
  intro x sock ready cleared ok start writable
  cases prepared : c.prepare x with
  | error f =>
      apply Session.call_error rfl
      rw [writeData, if_pos ready, prepared]
  | ok y =>
      obtain ⟨some, first, count, called, writing⟩ :=
        writeCall_ready ready cleared ok start writable prepared
      have later : ∀ n, ∃ next sockThen,
          (writeCall c.writeData)^[n + 1] ⟨x, sock, none⟩ = ⟨next, sockThen, none⟩ ∧
          Writing (c.base y).dataBuffer.readable (c.base x).contentBuffer.readable sock.sent
            (c.base next) sockThen := by
        intro n
        induction n with
        | zero => exact ⟨first, _, called, writing⟩
        | succ n ih =>
            obtain ⟨next, sockThen, reached, writingThen⟩ := ih
            obtain ⟨following, more, calledThen, writingOn, -⟩ := writeCall_writing writingThen
            refine ⟨following, _, ?_, writingOn⟩
            rw [Function.iterate_succ_apply', reached, calledThen]
      intro n
      cases n with
      | zero =>
          refine ⟨⟨rfl, ⟨[], (List.append_nil _).symm, List.nil_prefix, ?_⟩, ⟨count, ?_⟩, ?_⟩, ?_⟩
          · simp [ready, some]
          · exact congrArg (·.socket) called
          · intro done
            cases ready.symm.trans done
          · exact ⟨fun _ => rfl, fun _ => ready⟩
      | succ n =>
          obtain ⟨next, sockThen, reached, writingThen⟩ := later n
          rw [reached]
          exact ⟨sentSoFar_of_writing rfl writingThen,
            fun state => absurd state (writing_begun writingThen), nofun⟩

/-- Once a message is prepared, `write_data` is that of its base. -/
theorem writesBase (c : MessageClass σ) : HttpBase.WritesBase c.base c.writeData := by
  intro x sock prepared
  refine ⟨c.setBase x ((c.base x).writePrepared sock).object, c.base_setBase x _, ?_⟩
  rw [writeData, if_neg prepared]

/-- A message is sent completely on every connection that keeps accepting bytes. -/
theorem emits (c : MessageClass σ) (ready : (c.base x).state = .ready)
    (cleared : (c.base x).dataBuffer.Cleared) (ok : (c.base x).contentBuffer.Ok)
    (prepared : c.prepare x = .ok y) :
    Emits c.base c.writeData x
      ((c.base y).dataBuffer.readable ++ (c.base x).contentBuffer.readable) := by
  intro sock writable draining
  obtain ⟨dataOk, -, -, content⟩ := c.prepared cleared prepared
  let begun : HttpBase := { c.base y with state := .writeData }
  have sending : HttpBase.Sending (sock.sent ++ ((c.base y).dataBuffer.readable ++
      (c.base x).contentBuffer.readable)) begun sock.sent := by
    refine ⟨dataOk, content ▸ ok, .inl rfl, ?_⟩
    rw [← content]
    rfl
  -- The first call prepares the message and begins to send it.
  have running : begun.state ≠ .done := fun same => by cases same
  obtain ⟨next, later, result, sendingOn, accepts, -⟩ :=
    HttpBase.writePrepared_sendsOn sending writable running
  have first : Session.call c.writeData (fun x => (c.base x).done) ⟨x, sock, none⟩ =
      ⟨c.setBase y next, later, none⟩ := by
    apply Session.call_ok
    · simp [HttpBase.done, ready]
    · rw [writeData, if_pos ready, prepared]
      dsimp only
      rw [result]
  have stillWritable : later.Writable := fun k => accepts.acceptances ▸ writable k
  have stillDraining : later.Draining := fun k => accepts.acceptances ▸ draining k
  rw [← c.base_setBase y next] at sendingOn
  obtain ⟨final, ends, session, done⟩ :=
    HttpBase.endsAs_done c.writesBase sendingOn stillWritable stillDraining
  rw [← first] at ends
  exact ⟨final, ends.of_step, session.alive, done, session.sent_of_done done,
    session.acceptances.trans accepts.acceptances⟩

end MessageClass

/-! ## Responses, requests and uwsgi requests -/

theorem except_bind_ok {α β : Type} {value : Except Fault α} {next : α → Except Fault β}
    {result : β} :
    value.bind next = .ok result ↔ ∃ input, value = .ok input ∧ next input = .ok result := by
  cases value <;> simp [Except.bind]

theorem writeHeaderLine_extends {b next : Buffer} {kv : Bytes × Bytes} (ok : b.Ok)
    (success : writeHeaderLine b kv = .ok next) : b.Extends next := by
  simp only [writeHeaderLine, bind, except_bind_ok] at success
  obtain ⟨b₁, name, b₂, colon, b₃, value, ended⟩ := success
  have one := (ok.write_of_ok name).1
  have two := (one.ok.write_of_ok colon).1
  have three := (two.ok.write_of_ok value).1
  have four := (three.ok.write_of_ok ended).1
  exact ((one.trans two).trans three).trans four

namespace HttpResponse

theorem prepareDataBuffer_of_ok {order : Headers → List (Bytes × Bytes)} {r q : HttpResponse}
    (cleared : r.dataBuffer.Cleared) (success : r.prepareDataBuffer order = .ok q) :
    q.dataBuffer.Ok ∧ q.dataBuffer.gptr = 0 ∧ 0 < q.dataBuffer.size ∧
      q.contentBuffer = r.contentBuffer := by
  simp only [prepareDataBuffer, bind, except_bind_ok] at success
  obtain ⟨b₁, version, b₂, status, b₃, line, b₄, headers, b₅, length, b₆, lengthLine, b₇, blank,
    same⟩ := success
  cases same
  obtain ⟨one, size⟩ := cleared.ok.write_of_ok version
  have two := (one.ok.write_of_ok status).1
  have three := (two.ok.write_of_ok line).1
  have four := Buffer.foldlM_extends writeHeaderLine_extends three.ok headers
  have five := (four.ok.write_of_ok length).1
  have six := (five.ok.write_of_ok lengthLine).1
  have seven := (six.ok.write_of_ok blank).1
  have rest := ((((two.trans three).trans four).trans five).trans six).trans seven
  refine ⟨rest.ok, (one.trans rest).gptr.trans cleared.gptr, ?_, rfl⟩
  have less := rest.size
  rw [size, cleared.size] at less
  exact Nat.lt_of_lt_of_le (by decide) less

/-- `http_response`. -/
def messageClass (order : Headers → List (Bytes × Bytes)) : MessageClass HttpResponse where
  base := toHttpBase
  setBase r h := { r with toHttpBase := h }
  prepare := prepareDataBuffer order
  base_setBase _ _ := rfl
  setBase_base _ := rfl
  prepared := prepareDataBuffer_of_ok

theorem messageClass_writeData (order : Headers → List (Bytes × Bytes)) :
    (messageClass order).writeData = writeData order := by
  funext r sock
  cases prepared : r.prepareDataBuffer order with
  | error f => simp only [MessageClass.writeData, writeData, messageClass, prepared]
  | ok y => simp only [MessageClass.writeData, writeData, messageClass, prepared]

end HttpResponse

namespace HttpRequest

theorem prepareDataBuffer_of_ok {order : Headers → List (Bytes × Bytes)} {r q : HttpRequest}
    (cleared : r.dataBuffer.Cleared) (success : r.prepareDataBuffer order = .ok q) :
    q.dataBuffer.Ok ∧ q.dataBuffer.gptr = 0 ∧ 0 < q.dataBuffer.size ∧
      q.contentBuffer = r.contentBuffer := by
  unfold prepareDataBuffer at success
  split at success
  · next url =>
      simp only [bind, except_bind_ok] at success
      obtain ⟨b₁, method, b₂, path, b₃, version, b₄, line, b₅, headers, b₆, length, b₇, lengthLine,
        b₈, blank, same⟩ := success
      cases same
      have one := (cleared.ok.write_of_ok method).1
      obtain ⟨two, size⟩ := one.ok.write_of_ok path
      have three := (two.ok.write_of_ok version).1
      have four := (three.ok.write_of_ok line).1
      have five := Buffer.foldlM_extends writeHeaderLine_extends four.ok headers
      have six := (five.ok.write_of_ok length).1
      have seven := (six.ok.write_of_ok lengthLine).1
      have eight := (seven.ok.write_of_ok blank).1
      have rest := ((((three.trans four).trans five).trans six).trans seven).trans eight
      refine ⟨rest.ok, ((one.trans two).trans rest).gptr.trans cleared.gptr, ?_, rfl⟩
      have less := rest.size
      change 0 < b₈.size
      omega
  · cases success

/-- `http_request`. -/
def messageClass (order : Headers → List (Bytes × Bytes)) : MessageClass HttpRequest where
  base := toHttpBase
  setBase r h := { r with toHttpBase := h }
  prepare := prepareDataBuffer order
  base_setBase _ _ := rfl
  setBase_base _ := rfl
  prepared := prepareDataBuffer_of_ok

theorem messageClass_writeData (order : Headers → List (Bytes × Bytes)) :
    (messageClass order).writeData = writeData order := by
  funext r sock
  cases prepared : r.prepareDataBuffer order with
  | error f => simp only [MessageClass.writeData, writeData, messageClass, prepared]
  | ok y => simp only [MessageClass.writeData, writeData, messageClass, prepared]

end HttpRequest

namespace UwsgiRequest

theorem writeVar_extends {b next : Buffer} {kv : Bytes × Bytes} (ok : b.Ok)
    (success : writeVar b kv = .ok next) : b.Extends next := by
  simp only [writeVar, UwsgiRequest.writeString, bind, except_bind_ok] at success
  obtain ⟨b₂, ⟨b₁, keyLength, key⟩, b₃, valueLength, value⟩ := success
  have one := (ok.write_of_ok keyLength).1
  have two := (one.ok.write_of_ok key).1
  have three := (two.ok.write_of_ok valueLength).1
  have four := (three.ok.write_of_ok value).1
  exact ((one.trans two).trans three).trans four

theorem movePtrWriteAbs_of_ok {b next : Buffer} {pos : Nat} (ok : b.Ok)
    (success : b.movePtrWriteAbs pos = .ok next) :
    next.Ok ∧ next.gptr = b.gptr ∧ next.size = b.size := by
  unfold Buffer.movePtrWriteAbs Buffer.ptr at success
  split at success
  · next inside =>
      cases success
      exact ⟨⟨ok.gptr, inside, ok.size, ok.capacity⟩, rfl, rfl⟩
  · cases success

theorem prepareDataBuffer_of_ok {order : Headers → List (Bytes × Bytes)} {r q : UwsgiRequest}
    (cleared : r.dataBuffer.Cleared) (success : r.prepareDataBuffer order = .ok q) :
    q.dataBuffer.Ok ∧ q.dataBuffer.gptr = 0 ∧ 0 < q.dataBuffer.size ∧
      q.contentBuffer = r.contentBuffer := by
  simp only [prepareDataBuffer, bind, except_bind_ok, withContentLength_dataBuffer] at success
  obtain ⟨sized, resized, drafted, vars, start, toStart, patched, header, final, toEnd, same⟩ :=
    success
  cases same
  obtain ⟨kept, keptEq, drafting⟩ := Drafting.start cleared
  cases resized.symm.trans keptEq
  have varsDone := Buffer.foldlM_extends writeVar_extends drafting.ok vars
  obtain ⟨startOk, startGet, startSize⟩ := movePtrWriteAbs_of_ok varsDone.ok toStart
  have headerDone := (startOk.write_of_ok header).1
  obtain ⟨endOk, endGet, endSize⟩ := movePtrWriteAbs_of_ok headerDone.ok toEnd
  refine ⟨endOk, ?_, ?_, withContentLength_contentBuffer r⟩
  · rw [show final.gptr = _ from endGet, headerDone.gptr, startGet, varsDone.gptr, drafting.gptr]
  · have first := varsDone.size
    have second := headerDone.size
    rw [drafting.size] at first
    change 0 < final.size
    omega

/-- `uwsgi_request`. -/
def messageClass (order : Headers → List (Bytes × Bytes)) : MessageClass UwsgiRequest where
  base := toHttpBase
  setBase r h := { r with toHttpBase := h }
  prepare := prepareDataBuffer order
  base_setBase _ _ := rfl
  setBase_base _ := rfl
  prepared := prepareDataBuffer_of_ok

theorem messageClass_writeData (order : Headers → List (Bytes × Bytes)) :
    (messageClass order).writeData = writeData order := by
  funext r sock
  cases prepared : r.prepareDataBuffer order with
  | error f => simp only [MessageClass.writeData, writeData, messageClass, prepared]
  | ok y => simp only [MessageClass.writeData, writeData, messageClass, prepared]

end UwsgiRequest

end LibTasks.Net

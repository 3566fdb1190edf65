import LibTasks.Foundation.Progress
import LibTasks.Net.HttpBase

/-!
# Writing a message to a socket

`http_base::write_data` after the data buffer was prepared: over any number of
calls, and however few bytes the socket accepts in each, the bytes accepted are
those of the data buffer followed by those of the content buffer.
-/

namespace LibTasks.Net

open LibTasks.Foundation LibTasks.Tools

/-! ## Offering bytes to a socket -/

namespace Socket

/-- No call finds the connection broken. -/
def Writable (sock : Socket) : Prop :=
  ∀ k, sock.acceptances k = .again ∨ ∃ n, sock.acceptances k = .accept n

/-- Bytes are accepted again and again. -/
def Draining (sock : Socket) : Prop :=
  ∀ k, ∃ later, k ≤ later ∧ ∃ n, sock.acceptances later = .accept n

/-- From one socket state to a later one, while what is left to do goes from
`before` to `after`: accepting bytes makes it less. -/
structure Accepts (sock later : Socket) (before after : Nat) : Prop where
  acceptances : later.acceptances = sock.acceptances
  clock : sock.writes ≤ later.writes
  less : after ≤ before
  accepted : ∀ t n, sock.writes ≤ t → t < later.writes → sock.acceptances t = .accept n →
    after < before

theorem Accepts.refl (sock : Socket) (amount : Nat) : sock.Accepts sock amount amount where
  acceptances := rfl
  clock := Nat.le_refl _
  less := Nat.le_refl _
  accepted t n before behind := by omega

theorem Accepts.trans {first second third : Socket} {a b c : Nat} (one : first.Accepts second a b)
    (two : second.Accepts third b c) : first.Accepts third a c where
  acceptances := two.acceptances.trans one.acceptances
  clock := Nat.le_trans one.clock two.clock
  less := Nat.le_trans two.less one.less
  accepted t n before behind acceptance := by
    have less := one.less
    have lessStill := two.less
    by_cases early : t < second.writes
    · have taken := one.accepted t n before early acceptance
      omega
    · have taken := two.accepted t n (by omega) behind (one.acceptances ▸ acceptance)
      omega

end Socket

/-- The buffer `b` offered to a socket, of which `rest` is left. -/
structure Drained (b : Buffer) (sock : Socket) (rest : Buffer) (later : Socket) : Prop where
  ok : rest.Ok
  sent : later.sent ++ rest.readable = sock.sent ++ b.readable
  acceptances : later.acceptances = sock.acceptances
  clock : later.writes = sock.writes + 1
  less : rest.readable.length ≤ b.readable.length
  taken : ∀ n, sock.acceptances sock.writes = .accept n → b.readable ≠ [] →
    rest.readable.length < b.readable.length

/-- A healthy connection accepts nothing, or some of the buffer. -/
theorem drainTo_accepts {b : Buffer} (ok : b.Ok) {sock : Socket} (writable : sock.Writable) :
    ∃ count, ∃ rest : Buffer, drainTo b sock = ⟨.ok (), rest, (sock.write b.readable).2⟩ ∧
      rest.Ok ∧ rest.readable = b.readable.drop count ∧
      (sock.write b.readable).2.sent = sock.sent ++ b.readable.take count ∧
      ∀ n, sock.acceptances sock.writes = .accept n → 0 < count := by
  have size := ok.size
  have capacity := ok.capacity
  have offered : slice b.storage b.gptr (toSize b.toRead) = b.readable := by
    rw [ok.toRead_eq, toSize_natCast (by unfold maxSize at capacity; omega)]
    rfl
  unfold drainTo
  rw [offered]
  rcases writable sock.writes with again | ⟨n, accepted⟩
  · refine ⟨0, b, ?_, ok, rfl, ?_, ?_⟩
    · simp [Socket.write, again]
    · simp [Socket.write, again]
    · simp [again]
  · have inside : min (max n 1) b.readable.length ≤ b.readable.length := Nat.min_le_right _ _
    obtain ⟨moved, rest⟩ := ok.movePtrRead inside
    have all : b.readable.take (min (max n 1) b.readable.length) = b.readable.take (max n 1) :=
      List.take_eq_take_min.symm
    have left : b.readable.drop (min (max n 1) b.readable.length) = b.readable.drop (max n 1) :=
      List.drop_eq_drop_min.symm
    refine ⟨max n 1, b.movePtrRead (min (max n 1) b.readable.length), ?_, moved,
      rest.trans left, ?_, fun _ _ => by omega⟩
    · simp [Socket.write, accepted]
    · rw [← all]
      simp [Socket.write, accepted]

theorem Socket.write_acceptances (sock : Socket) (data : Bytes) :
    (sock.write data).2.acceptances = sock.acceptances := by
  unfold Socket.write
  dsimp only
  split <;> rfl

theorem Socket.write_writes (sock : Socket) (data : Bytes) :
    (sock.write data).2.writes = sock.writes + 1 := by
  unfold Socket.write
  dsimp only
  split <;> rfl

theorem drainTo_drained {b : Buffer} (ok : b.Ok) {sock : Socket} (writable : sock.Writable) :
    ∃ rest later, drainTo b sock = ⟨.ok (), rest, later⟩ ∧ Drained b sock rest later := by
  obtain ⟨count, rest, drained, restOk, readable, sent, positive⟩ := drainTo_accepts ok writable
  refine ⟨rest, _, drained, restOk, ?_, sock.write_acceptances _, sock.write_writes _, ?_, ?_⟩
  · rw [sent, readable, List.append_assoc, List.take_append_drop]
  · rw [readable, List.length_drop]
    omega
  · intro n accepted nonempty
    have some := List.length_pos_iff.mpr nonempty
    have more := positive n accepted
    rw [readable, List.length_drop]
    omega

namespace HttpBase

/-- What is still to be sent. -/
def unsent (h : HttpBase) : Bytes :=
  match h.state with
  | .writeData => h.dataBuffer.readable ++ h.contentBuffer.readable
  | .writeContent => h.contentBuffer.readable
  | _ => []

/-- A measure of what is left to do: the bytes, and the changes of state. -/
def sendWeight (h : HttpBase) : Nat :=
  match h.state with
  | .writeData => h.unsent.length + 2
  | .writeContent => h.unsent.length + 1
  | _ => 0

/-- While `total` is being sent. -/
structure Sending (total : Bytes) (h : HttpBase) (sent : Bytes) : Prop where
  data : h.dataBuffer.Ok
  content : h.contentBuffer.Ok
  state : h.state = .writeData ∨ h.state = .writeContent ∨ h.state = .done
  balance : sent ++ h.unsent = total

/-- A stage that goes on sending. -/
def SendsOn (total : Bytes) (h : HttpBase) (sock : Socket) (clock : Nat) (o : Outcome HttpBase) :
    Prop :=
  ∃ next later, o = ⟨.ok (), next, later⟩ ∧ Sending total next later.sent ∧
    sock.Accepts later h.sendWeight next.sendWeight ∧ clock ≤ later.writes

variable {total : Bytes} {h : HttpBase} {sock : Socket}

theorem Sending.sendsOn (sending : Sending total h sock.sent) :
    SendsOn total h sock sock.writes ⟨.ok (), h, sock⟩ :=
  ⟨h, sock, rfl, sending, .refl sock _, Nat.le_refl _⟩

theorem writeContentStage_sendsOn (sending : Sending total h sock.sent)
    (writable : sock.Writable) (state : h.state = .writeContent) :
    SendsOn total h sock (sock.writes + 1) (h.writeContentStage sock) := by
  have balance := sending.balance
  simp only [unsent, state] at balance
  have weight : h.sendWeight = h.contentBuffer.readable.length + 1 := by
    simp only [sendWeight, unsent, state]
  obtain ⟨rest, later, result, drained⟩ := drainTo_drained sending.content writable
  have clock : sock.writes + 1 ≤ later.writes := Nat.le_of_eq drained.clock.symm
  unfold writeContentStage writeContent
  rw [if_pos state, result]
  dsimp only
  split
  · next empty =>
      rw [drained.ok.toRead_eq_zero] at empty
      have less : 0 < h.sendWeight := by omega
      refine ⟨_, _, rfl, ⟨sending.data, drained.ok, .inr (.inr rfl), ?_⟩,
        ⟨drained.acceptances, by omega, Nat.zero_le _, fun _ _ _ _ _ => less⟩, clock⟩
      rw [← balance, ← drained.sent, empty]
      rfl
  · next left =>
      rw [drained.ok.toRead_eq_zero] at left
      have nonempty : h.contentBuffer.readable ≠ [] := by
        intro empty
        have less := drained.less
        rw [empty] at less
        exact left (List.eq_nil_of_length_eq_zero (Nat.le_zero.mp less))
      have next : HttpBase.sendWeight { h with contentBuffer := rest } =
          rest.readable.length + 1 := by
        simp only [sendWeight, unsent, state]
      refine ⟨_, _, rfl, ⟨sending.data, drained.ok, .inr (.inl state), ?_⟩,
        ⟨drained.acceptances, by omega, ?_, fun t n before behind accepted => ?_⟩, clock⟩
      · simp only [unsent, state]
        rw [drained.sent, balance]
      · rw [next, weight]
        exact Nat.succ_le_succ drained.less
      · have now : t = sock.writes := by
          have clock := drained.clock
          omega
        rw [next, weight]
        exact Nat.succ_lt_succ (drained.taken n (now ▸ accepted) nonempty)

/-- The last stage of a call, in whatever state it finds the object. -/
theorem writeContentStage_sending (sending : Sending total h sock.sent)
    (writable : sock.Writable) :
    SendsOn total h sock sock.writes (h.writeContentStage sock) := by
  by_cases state : h.state = .writeContent
  · obtain ⟨next, later, result, sendingOn, accepts, clock⟩ :=
      writeContentStage_sendsOn sending writable state
    exact ⟨next, later, result, sendingOn, accepts, by omega⟩
  · rw [writeContentStage, if_neg state]
    exact sending.sendsOn

theorem SendsOn.trans {middle : HttpBase} {between : Socket} {clock : Nat}
    {o : Outcome HttpBase} (accepts : sock.Accepts between h.sendWeight middle.sendWeight)
    (second : SendsOn total middle between clock o) : SendsOn total h sock clock o := by
  obtain ⟨next, later, result, sending, acceptsOn, reached⟩ := second
  exact ⟨next, later, result, sending, accepts.trans acceptsOn, reached⟩

/-- One call of `write_data` on an object that is not done. -/
theorem writePrepared_sendsOn (sending : Sending total h sock.sent) (writable : sock.Writable)
    (running : h.state ≠ .done) :
    SendsOn total h sock (sock.writes + 1) (h.writePrepared sock) := by
  obtain state | state | state := sending.state
  · have balance := sending.balance
    simp only [unsent, state, ← List.append_assoc] at balance
    have weight : h.sendWeight = h.dataBuffer.readable.length +
        h.contentBuffer.readable.length + 2 := by
      simp only [sendWeight, unsent, state, List.length_append]
    obtain ⟨rest, later, result, drained⟩ := drainTo_drained sending.data writable
    have stillWritable : later.Writable := fun k => drained.acceptances ▸ writable k
    have clock := drained.clock
    unfold writePrepared writeHeaders
    rw [if_pos state, result]
    dsimp only
    split
    · next empty =>
        -- The content, or the end, comes next; either takes a change of state off.
        rw [drained.ok.toRead_eq_zero] at empty
        have sent : later.sent ++ h.contentBuffer.readable = total := by
          rw [← balance, ← drained.sent, empty, List.append_nil]
        rw [← clock]
        have after : ∀ middle : HttpBase, Sending total middle later.sent →
            middle.sendWeight ≤ h.contentBuffer.readable.length + 1 →
            SendsOn total h sock later.writes (middle.writeContentStage later) := by
          intro middle sendingOn less
          refine .trans ?_ (writeContentStage_sending sendingOn stillWritable)
          exact ⟨drained.acceptances, by omega, by omega, fun _ _ _ _ _ => by omega⟩
        by_cases bare : h.contentBuffer.size = 0
        · have none : h.contentBuffer.readable = [] := by
            rw [← List.length_eq_zero_iff, sending.content.length_readable, bare, Nat.zero_sub]
          rw [if_pos bare]
          refine after _ ⟨drained.ok, sending.content, .inr (.inr rfl), ?_⟩ (Nat.zero_le _)
          rw [← sent, none]
          rfl
        · rw [if_neg bare]
          exact after _ ⟨drained.ok, sending.content, .inr (.inl rfl), sent⟩ (Nat.le_refl _)
    · next left =>
        rw [drained.ok.toRead_eq_zero] at left
        have nonempty : h.dataBuffer.readable ≠ [] := by
          intro empty
          have less := drained.less
          rw [empty] at less
          exact left (List.eq_nil_of_length_eq_zero (Nat.le_zero.mp less))
        let middle : HttpBase := { h with dataBuffer := rest }
        have next : middle.sendWeight = rest.readable.length +
            h.contentBuffer.readable.length + 2 := by
          simp only [middle, sendWeight, unsent, state, List.length_append]
        have less := drained.less
        have sendingOn : Sending total middle later.sent := by
          refine ⟨drained.ok, sending.content, .inl state, ?_⟩
          simp only [middle, unsent, state]
          rw [← List.append_assoc, drained.sent, balance]
        have accepts : sock.Accepts later h.sendWeight middle.sendWeight := by
          refine ⟨drained.acceptances, by omega, by omega, fun t n before behind accepted => ?_⟩
          have now : t = sock.writes := by omega
          have taken := drained.taken n (now ▸ accepted) nonempty
          omega
        rw [← clock]
        exact .trans accepts (writeContentStage_sending sendingOn stillWritable)
  · have later : ¬h.state = .writeData := by
      rw [state]
      decide
    rw [writePrepared, if_neg later]
    exact writeContentStage_sendsOn sending writable state
  · exact absurd state running

/-! ## Whole runs -/

/-- The calls of an object that has an `http_base`, once it is prepared: they are
`write_data` of that base. -/
def WritesBase {σ : Type} (base : σ → HttpBase) (step : σ → Socket → Outcome σ) : Prop :=
  ∀ x sock, (base x).state ≠ .ready → ∃ next,
    base next = ((base x).writePrepared sock).object ∧
      step x sock = ⟨((base x).writePrepared sock).result, next,
        ((base x).writePrepared sock).socket⟩

variable {σ : Type} {base : σ → HttpBase} {step : σ → Socket → Outcome σ}

/-- Between two calls. -/
structure SendingSession (base : σ → HttpBase) (total : Bytes) (acceptances : Nat → Acceptance)
    (s : Session σ) : Prop where
  alive : s.failure = none
  sending : Sending total (base s.object) s.socket.sent
  acceptances : s.socket.acceptances = acceptances

theorem sending_progress (writes : WritesBase base step) (total : Bytes) {sock : Socket}
    (writable : sock.Writable) :
    FairProgress (Session.call step fun x => (base x).done)
      (SendingSession base total sock.acceptances) (fun s => (base s.object).state = .done)
      (fun s => s.socket.writes) (fun s => (base s.object).sendWeight)
      (fun t => ∃ n, sock.acceptances t = .accept n) := by
  have progress : ∀ s, SendingSession base total sock.acceptances s →
      ¬(base s.object).state = .done →
      ∃ next later, Session.call step (fun x => (base x).done) s = ⟨next, later, none⟩ ∧
        Sending total (base next) later.sent ∧
        s.socket.Accepts later (base s.object).sendWeight (base next).sendWeight ∧
        s.socket.writes + 1 ≤ later.writes := by
    intro s session running
    obtain ⟨object, between, failure⟩ := s
    obtain ⟨rfl, sending, acceptances⟩ := session
    dsimp only at sending running acceptances
    have stillWritable : between.Writable := fun k => acceptances ▸ writable k
    have prepared : (base object).state ≠ .ready := by
      intro ready
      obtain state | state | state := sending.state <;> rw [ready] at state <;> cases state
    obtain ⟨next, same, called⟩ := writes object between prepared
    obtain ⟨after, later, result, sendingOn, accepts, clock⟩ :=
      writePrepared_sendsOn sending stillWritable running
    rw [result] at same called
    dsimp only at same called
    refine ⟨next, later, ?_, same ▸ sendingOn, same ▸ accepts, clock⟩
    exact Session.call_ok (by simp [done, running]) called
  constructor
  · intro s session running
    obtain ⟨next, later, called, sending, accepts, -⟩ := progress s session running
    rw [called]
    exact ⟨rfl, sending, accepts.acceptances.trans session.acceptances⟩
  · intro s session running
    obtain ⟨next, later, called, -, -, clock⟩ := progress s session running
    rw [called]
    exact clock
  · intro s session running
    obtain ⟨next, later, called, -, accepts, -⟩ := progress s session running
    rw [called]
    exact accepts.less
  · rintro s session running t before behind ⟨n, accepted⟩
    obtain ⟨next, later, called, -, accepts, -⟩ := progress s session running
    rw [called] at behind ⊢
    exact accepts.accepted t n before behind (session.acceptances ▸ accepted)

/-- The calls come to an end on a connection that keeps accepting. -/
theorem endsAs_done (writes : WritesBase base step) {x : σ} {sock : Socket}
    (sending : Sending total (base x) sock.sent) (writable : sock.Writable)
    (draining : sock.Draining) :
    ∃ final, EndsAs (Session.call step fun x => (base x).done) ⟨x, sock, none⟩ final ∧
      SendingSession base total sock.acceptances final ∧ (base final.object).state = .done := by
  obtain ⟨n, session, finished⟩ := (sending_progress writes total writable).finishes draining
    ⟨x, sock, none⟩ ⟨rfl, sending, rfl⟩
  refine ⟨_, endsAs_of_fixed rfl (Session.call_ended (.inl ?_)), session, finished⟩
  exact decide_eq_true finished

theorem SendingSession.sent_of_done {acceptances : Nat → Acceptance} {s : Session σ}
    (session : SendingSession base total acceptances s) (done : (base s.object).state = .done) :
    s.socket.sent = total := by
  have balance := session.sending.balance
  simpa only [unsent, done, List.append_nil] using balance

/-- A connection that keeps accepting gets everything, in order, and nothing
else. -/
theorem endsAs_sent (writes : WritesBase base step) {x : σ} {sock : Socket}
    (sending : Sending total (base x) sock.sent) (writable : sock.Writable)
    (draining : sock.Draining) :
    ∃ final, EndsAs (Session.call step fun x => (base x).done) ⟨x, sock, none⟩ final ∧
      final.failure = none ∧ (base final.object).state = .done ∧ final.socket.sent = total ∧
      (base final.object).dataBuffer.Ok ∧ (base final.object).contentBuffer.Ok := by
  obtain ⟨final, ends, session, done⟩ := endsAs_done writes sending writable draining
  exact ⟨final, ends, session.alive, done, session.sent_of_done done, session.sending.data,
    session.sending.content⟩

end HttpBase

end LibTasks.Net

import LibTasks.Net.HttpResponse
import LibTasks.Net.UwsgiReader

/-!
# `tasks::net::uwsgi_task`

`handle_event` of `tasks/net/uwsgi_task.cpp`, and what it does with packets that are not
packets of variables.  Their block is received and never parsed, so the request is never done:
the branch for unsupported packets is not reached, and neither is `handle_request`.
-/

namespace LibTasks.Net

open LibTasks.Foundation LibTasks.Tools

/-- The events that a watcher reports. -/
structure Revents where
  read : Bool := false
  write : Bool := false

/-- `uwsgi_task`, with the exception of its `error_base`.  The calls of `handle_request` are
counted. -/
structure UwsgiTask where
  request : UwsgiRequest := {}
  response : HttpResponse := {}
  exception : Option TasksException := none
  handled : Nat := 0

namespace UwsgiTask

/-- The exception for a packet that is not one of variables. -/
def unsupportedPacket (hd : UwsgiPacketHeader) : TasksException where
  error := .uwsgiNotImpl
  what := "uwsgi_task: unsupported uwsgi packet: modifier1=" ++ toString hd.modifier1.toNat ++
    " datasize=" ++ toString hd.datasize.toNat ++ " modifier2=" ++ toString hd.modifier2.toNat

/-- The `catch` clause of `handle_event`. -/
def caught (t : UwsgiTask) (sock : Socket) : Failure → Outcome UwsgiTask Bool
  | .exception e => ⟨.ok false, { t with exception := some e }, sock⟩
  | .fault f => ⟨.error (.fault f), t, sock⟩

/-- `handle_event` for `EV_READ`.  What `handle_request` does is up to the derived class. -/
def handleRead (handleRequest : UwsgiTask → Except Failure Bool × UwsgiTask) (t : UwsgiTask)
    (sock : Socket) : Outcome UwsgiTask Bool :=
  let o := t.request.readData sock
  let t := { t with request := o.object }
  match o.result with
  | .error e => t.caught o.socket e
  | .ok () =>
      if t.request.done then
        if t.request.uwsgiHeader.modifier1 = uwsgiVars then
          match handleRequest { t with handled := t.handled + 1 } with
          | (.error e, t) => t.caught o.socket e
          | (.ok success, t) => ⟨.ok success, { t with request := t.request.clear }, o.socket⟩
        else
          ⟨.ok false, { t with exception := some (unsupportedPacket t.request.uwsgiHeader) },
            o.socket⟩
      else
        ⟨.ok true, t, o.socket⟩

/-- `handle_event` for `EV_WRITE`.  Without keepalive the task ends with the response. -/
def handleWrite (order : Headers → List (Bytes × Bytes)) (t : UwsgiTask) (sock : Socket) :
    Outcome UwsgiTask Bool :=
  let o := t.response.writeData order sock
  let t := { t with response := o.object }
  match o.result with
  | .error e => t.caught o.socket e
  | .ok () =>
      if t.response.done then
        ⟨.ok false, { t with response := t.response.clear }, o.socket⟩
      else
        ⟨.ok true, t, o.socket⟩

/-- `handle_event`. -/
def handleEvent (handleRequest : UwsgiTask → Except Failure Bool × UwsgiTask)
    (order : Headers → List (Bytes × Bytes)) (revents : Revents) (t : UwsgiTask) (sock : Socket) :
    Outcome UwsgiTask Bool :=
  if revents.read then
    t.handleRead handleRequest sock
  else if revents.write then
    t.handleWrite order sock
  else
    ⟨.ok true, t, sock⟩

/-- The next event.  The watcher waits for `EV_READ` until a response is to be sent, and the
task is removed when `handle_event` returns false. -/
def next (handleRequest : UwsgiTask → Except Failure Bool × UwsgiTask)
    (order : Headers → List (Bytes × Bytes)) (o : Outcome UwsgiTask Bool) :
    Outcome UwsgiTask Bool :=
  match o.result with
  | .ok true => o.object.handleEvent handleRequest order ⟨true, false⟩ o.socket
  | _ => o

/-! ## What the connection delivers -/

/-- The connection neither fails nor is closed. -/
def Alive : Arrival → Prop
  | .again | .deliver _ => True
  | .closed | .failed _ _ => False

/-- How many bytes there are at least room for. -/
def amount : Arrival → Nat
  | .deliver n => max n 1
  | _ => 0

/-- The bytes that are offered to the first reads behind the packet header. -/
def offered (arrivals : Nat → Arrival) : Nat → Nat
  | 0 => 0
  | k + 1 => offered arrivals k + amount (arrivals (k + 1))

/-- The packet header arrives as a whole, and then `size` bytes before the connection ends. -/
def BlockArrives (sock : Socket) (size : Nat) : Prop :=
  UwsgiRequest.WholeHeader sock ∧
    ∃ k, (∀ i < k, Alive (sock.arrivals (i + 1))) ∧ size ≤ offered sock.arrivals k

/-! ## Reading an unsupported packet -/

section

variable {r : UwsgiRequest} {hd : UwsgiPacketHeader} {block rest : Bytes} {sock : Socket} {m : Nat}

theorem afterVars_unsupported (unsupported : hd.modifier1 ≠ uwsgiVars) (data : Bytes) :
    r.afterVars hd data sock = ⟨.ok (), r.receivingVars hd data, sock⟩ :=
  if_neg fun both => unsupported both.2

/-- A read of the block while it is not complete, on a connection that is alive. -/
theorem varsStage_alive (fresh : r.Fresh) (unsupported : hd.modifier1 ≠ uwsgiVars)
    (length : block.length = hd.datasize.toNat) (incomplete : m < block.length)
    (stream : sock.incoming = block.drop m ++ rest) {arrival : Arrival}
    (found : sock.arrivals sock.reads.length = arrival) (alive : Alive arrival) :
    ∃ call, (r.receivingVars hd (block.take m)).varsStage sock =
      ⟨.ok (), r.receivingVars hd (block.take (m + amount arrival)),
        sock.advance call (block.drop (m + amount arrival) ++ rest)⟩ := by
  have taken : (block.take m).length = m := List.length_take_of_le (Nat.le_of_lt incomplete)
  have room : (block.take m).length ≤ hd.datasize.toNat := by omega
  have left : (block.drop m).length = block.length - m := List.length_drop
  cases arrival with
  | again =>
      rw [UwsgiRequest.varsStage_again fresh room (Socket.read_again found),
        afterVars_unsupported unsupported, stream]
      exact ⟨_, rfl⟩
  | deliver n =>
      have waiting : sock.incoming ≠ [] := by
        rw [stream]
        exact List.append_ne_nil_of_left_ne_nil (List.ne_nil_of_length_pos (by omega)) rest
      let call := fillCall r.dataBuffer hd.datasize.toNat (block.take m)
      have asks : call.len = (block.drop m).length := by
        change hd.datasize.toNat - (block.take m).length = _
        rw [taken, left, length]
      have count : min (max n 1) (block.drop m).length ≤ (block.drop m).length :=
        Nat.min_le_right _ _
      have received := Socket.read_deliver call found waiting (by omega)
      rw [asks, stream, List.take_append_of_le_length count, List.drop_append_of_le_length count,
        ← List.take_eq_take_min, ← List.drop_eq_drop_min, List.drop_drop] at received
      rw [UwsgiRequest.varsStage_received fresh room received, afterVars_unsupported unsupported,
        ← List.take_add]
      exact ⟨_, rfl⟩
  | closed => exact alive.elim
  | failed errno reason => exact alive.elim

/-- A read of the block on a connection that has ended. -/
theorem varsStage_ended (fresh : r.Fresh) (length : block.length = hd.datasize.toNat)
    (ended : ¬Alive (sock.arrivals sock.reads.length)) :
    ∃ e call, (r.receivingVars hd (block.take m)).varsStage sock =
      ⟨.error (.exception e), r.receivingVars hd (block.take m),
        sock.advance call sock.incoming⟩ := by
  have room : (block.take m).length ≤ hd.datasize.toNat := by
    rw [← length]
    exact List.length_take_le' _ _
  let call := fillCall r.dataBuffer hd.datasize.toNat (block.take m)
  obtain ⟨e, failed⟩ : ∃ e, sock.read call = (.error e, sock.advance call sock.incoming) := by
    unfold Socket.read
    cases found : sock.arrivals sock.reads.length with
    | again =>
        rw [found] at ended
        exact (ended trivial).elim
    | deliver n =>
        rw [found] at ended
        exact (ended trivial).elim
    | closed => exact ⟨_, rfl⟩
    | failed errno reason => exact ⟨_, rfl⟩
  exact ⟨e, call, UwsgiRequest.varsStage_failed fresh room failed⟩

end

/-! ## Runs on an unsupported packet -/

section

variable (handleRequest : UwsgiTask → Except Failure Bool × UwsgiTask)
  (order : Headers → List (Bytes × Bytes)) {t : UwsgiTask} {hd : UwsgiPacketHeader}
  {block rest : Bytes} {arrivals : Nat → Arrival} {k : Nat} {o : Outcome UwsgiTask Bool}

/-- After `k` reads of the block. -/
structure Waits (t : UwsgiTask) (hd : UwsgiPacketHeader) (block rest : Bytes)
    (arrivals : Nat → Arrival) (k : Nat) (o : Outcome UwsgiTask Bool) : Prop where
  result : o.result = .ok true
  object : o.object =
    { t with request := t.request.receivingVars hd (block.take (offered arrivals k)) }
  environment : o.socket.arrivals = arrivals
  reads : o.socket.reads.length = k + 1
  stream : o.socket.incoming = block.drop (offered arrivals k) ++ rest

/-- After the connection has failed before the end of the block. -/
structure Removed (t : UwsgiTask) (rest : Bytes) (o : Outcome UwsgiTask Bool) : Prop where
  result : o.result = .ok false
  handled : o.object.handled = t.handled
  unread : rest.length < o.socket.incoming.length

theorem next_waits {q final : UwsgiRequest} {later : Socket} (running : o.result = .ok true)
    (object : o.object = { t with request := q })
    (read : q.readData o.socket = ⟨.ok (), final, later⟩) (waiting : final.done = false) :
    next handleRequest order o = ⟨.ok true, { t with request := final }, later⟩ := by
  simp [next, running, object, handleEvent, handleRead, read, waiting]

theorem next_raises {q final : UwsgiRequest} {later : Socket} {e : TasksException}
    (running : o.result = .ok true) (object : o.object = { t with request := q })
    (read : q.readData o.socket = ⟨.error (.exception e), final, later⟩) :
    next handleRequest order o =
      ⟨.ok false, { t with request := final, exception := some e }, later⟩ := by
  simp [next, running, object, handleEvent, handleRead, read, caught]

/-- A call that reads the block. -/
theorem next_block (fresh : t.request.Fresh) (unsupported : hd.modifier1 ≠ uwsgiVars)
    (length : block.length = hd.datasize.toNat) (few : offered arrivals k < block.length)
    {q : UwsgiRequest} {sock : Socket} (running : o.result = .ok true)
    (object : o.object = { t with request := q })
    (read : q.readData o.socket = ((t.request.receivingVars hd
      (block.take (offered arrivals k))).varsStage sock).andThen UwsgiRequest.contentStage)
    (environment : sock.arrivals = arrivals) (reads : sock.reads.length = k + 1)
    (stream : sock.incoming = block.drop (offered arrivals k) ++ rest) :
    (Alive (arrivals (k + 1)) →
      Waits t hd block rest arrivals (k + 1) (next handleRequest order o)) ∧
    (¬Alive (arrivals (k + 1)) → Removed t rest (next handleRequest order o)) := by
  have found : sock.arrivals sock.reads.length = arrivals (k + 1) := by rw [environment, reads]
  constructor
  · intro alive
    obtain ⟨call, result⟩ :=
      varsStage_alive fresh unsupported length few stream found alive
    rw [result, Outcome.andThen_ok] at read
    rw [next_waits handleRequest order running object read rfl]
    refine ⟨rfl, rfl, environment, ?_, rfl⟩
    rw [Socket.advance_reads, List.length_append, reads, List.length_singleton]
  · intro ended
    rw [← found] at ended
    obtain ⟨e, call, result⟩ := varsStage_ended fresh length ended
    rw [result, Outcome.andThen_error] at read
    rw [next_raises handleRequest order running object read]
    refine ⟨rfl, rfl, ?_⟩
    rw [Socket.advance_incoming, stream, List.length_append, List.length_drop]
    omega

theorem Waits.next (fresh : t.request.Fresh) (unsupported : hd.modifier1 ≠ uwsgiVars)
    (length : block.length = hd.datasize.toNat) (few : offered arrivals k < block.length)
    (waits : Waits t hd block rest arrivals k o) :
    (Alive (arrivals (k + 1)) →
      Waits t hd block rest arrivals (k + 1) (next handleRequest order o)) ∧
    (¬Alive (arrivals (k + 1)) → Removed t rest (UwsgiTask.next handleRequest order o)) :=
  next_block handleRequest order fresh unsupported length few waits.result waits.object rfl
    waits.environment waits.reads waits.stream

/-- The call that receives the last byte of the block rejects the packet, and `handle_request` is
never called. -/
def Rejects (handleRequest : UwsgiTask → Except Failure Bool × UwsgiTask)
    (order : Headers → List (Bytes × Bytes)) (t : UwsgiTask) (sock : Socket) (rest : Bytes) :
    Prop :=
  ∀ calls, let before := (next handleRequest order)^[calls] ⟨.ok true, t, sock⟩
    let after := next handleRequest order before
    (rest.length < before.socket.incoming.length → after.socket.incoming.length ≤ rest.length →
      after.result = .ok false ∧
        ∃ e, after.object.exception = some e ∧ e.error = .uwsgiNotImpl) ∧
    after.object.handled = t.handled

section

variable {sock : Socket}

theorem start_whole (fresh : t.request.Fresh) (unsupported : hd.modifier1 ≠ uwsgiVars)
    (length : block.length = hd.datasize.toNat) (nonempty : 0 < block.length)
    (stream : sock.incoming = hd.encode ++ (block ++ rest)) (unread : sock.reads = [])
    (whole : UwsgiRequest.WholeHeader sock) :
    (Alive (sock.arrivals 1) →
      Waits t hd block rest sock.arrivals 1 (next handleRequest order ⟨.ok true, t, sock⟩)) ∧
    (¬Alive (sock.arrivals 1) →
      Removed t rest (next handleRequest order ⟨.ok true, t, sock⟩)) := by
  let behind := sock.advance UwsgiRequest.headerCall (block ++ rest)
  have read : t.request.readData sock =
      ((t.request.receivingVars hd (block.take (offered sock.arrivals 0))).varsStage behind).andThen
        UwsgiRequest.contentStage := by
    rw [UwsgiRequest.readData, UwsgiRequest.headerStage_whole fresh stream whole,
      Outcome.andThen_ok]
    rfl
  have reads : behind.reads.length = 0 + 1 := by
    rw [Socket.advance_reads, unread]
    rfl
  exact next_block handleRequest order fresh unsupported length nonempty rfl rfl read rfl reads rfl

theorem start_short (fresh : t.request.Fresh)
    (stream : sock.incoming = hd.encode ++ (block ++ rest))
    (short : ¬UwsgiRequest.WholeHeader sock) :
    Removed t rest (next handleRequest order ⟨.ok true, t, sock⟩) := by
  obtain ⟨e, partly, left, result, few⟩ := UwsgiRequest.headerStage_short fresh short
  have read : t.request.readData sock = ⟨.error (.exception e),
      { t.request with state := .readHeader, uwsgiHeader := partly },
      sock.advance UwsgiRequest.headerCall left⟩ := by
    rw [UwsgiRequest.readData, result, Outcome.andThen_error, Outcome.andThen_error]
  rw [next_raises handleRequest order rfl rfl read]
  refine ⟨rfl, rfl, ?_⟩
  rw [stream, List.length_append, List.length_append, UwsgiPacketHeader.length_encode] at few
  rw [Socket.advance_incoming]
  omega

/-- As long as the block has not arrived, the reads of it go on. -/
theorem waits_iterate (fresh : t.request.Fresh) (unsupported : hd.modifier1 ≠ uwsgiVars)
    (length : block.length = hd.datasize.toNat)
    (stream : sock.incoming = hd.encode ++ (block ++ rest)) (unread : sock.reads = [])
    (whole : UwsgiRequest.WholeHeader sock) {n : Nat}
    (alive : ∀ i ≤ n, Alive (sock.arrivals (i + 1)))
    (few : ∀ i ≤ n, offered sock.arrivals i < block.length) :
    Waits t hd block rest sock.arrivals (n + 1)
      ((next handleRequest order)^[n + 1] ⟨.ok true, t, sock⟩) := by
  induction n with
  | zero =>
      exact (start_whole handleRequest order fresh unsupported length (few 0 (Nat.le_refl 0)) stream
        unread whole).1 (alive 0 (Nat.le_refl 0))
  | succ n ih =>
      rw [Function.iterate_succ_apply']
      have before := ih (fun i small => alive i (by omega)) (fun i small => few i (by omega))
      exact (before.next handleRequest order fresh unsupported length
        (few (n + 1) (Nat.le_refl _))).1 (alive (n + 1) (Nat.le_refl _))

/-- If the block does not arrive, part of it stays unread. -/
theorem unfinished_iterate (fresh : t.request.Fresh) (unsupported : hd.modifier1 ≠ uwsgiVars)
    (length : block.length = hd.datasize.toNat) (nonempty : 0 < block.length)
    (stream : sock.incoming = hd.encode ++ (block ++ rest)) (unread : sock.reads = [])
    (broken : ¬BlockArrives sock block.length) (n : Nat) :
    (UwsgiRequest.WholeHeader sock ∧ (∀ i ≤ n, Alive (sock.arrivals (i + 1))) ∧
        Waits t hd block rest sock.arrivals (n + 1)
          ((next handleRequest order)^[n + 1] ⟨.ok true, t, sock⟩)) ∨
      Removed t rest ((next handleRequest order)^[n + 1] ⟨.ok true, t, sock⟩) := by
  induction n with
  | zero =>
      rw [Function.iterate_one]
      by_cases whole : UwsgiRequest.WholeHeader sock
      · have first := start_whole handleRequest order fresh unsupported length nonempty stream
          unread whole
        by_cases alive : Alive (sock.arrivals 1)
        · refine .inl ⟨whole, fun i small => ?_, first.1 alive⟩
          rwa [Nat.le_zero.mp small]
        · exact .inr (first.2 alive)
      · exact .inr (start_short handleRequest order fresh stream whole)
  | succ n ih =>
      rw [Function.iterate_succ_apply']
      rcases ih with ⟨whole, alive, waits⟩ | removed
      · have few : offered sock.arrivals (n + 1) < block.length := by
          by_contra enough
          exact broken ⟨whole, n + 1, fun i small => alive i (Nat.le_of_lt_succ small),
            Nat.not_lt.mp enough⟩
        have later := waits.next handleRequest order fresh unsupported length few
        by_cases living : Alive (sock.arrivals (n + 1 + 1))
        · refine .inl ⟨whole, fun i small => ?_, later.1 living⟩
          rcases Nat.lt_or_eq_of_le small with less | rfl
          · exact alive i (Nat.le_of_lt_succ less)
          · exact living
        · exact .inr (later.2 living)
      · refine .inr ?_
        rwa [next, removed.result]

/-- A packet that is not one of variables is rejected exactly if its block does not arrive: the
call that receives the last byte of it goes on waiting. -/
theorem rejects_iff (fresh : t.request.Fresh) (unsupported : hd.modifier1 ≠ uwsgiVars)
    (length : block.length = hd.datasize.toNat) (nonempty : 0 < hd.datasize.toNat)
    (stream : sock.incoming = hd.encode ++ (block ++ rest)) (unread : sock.reads = []) :
    Rejects handleRequest order t sock rest ↔ ¬BlockArrives sock hd.datasize.toNat := by
  rw [← length] at nonempty ⊢
  constructor
  · rintro rejects ⟨whole, k, alive, enough⟩
    -- The first read after which the block is complete is not the first of all.
    have complete : ∃ n, block.length ≤ offered sock.arrivals n := ⟨k, enough⟩
    obtain ⟨last, isLast⟩ : ∃ last, Nat.find complete = last + 1 := by
      apply Nat.exists_eq_succ_of_ne_zero
      intro zero
      have found := Nat.find_spec complete
      rw [zero] at found
      exact absurd found (Nat.not_le.mpr nonempty)
    have few : ∀ i ≤ last, offered sock.arrivals i < block.length := fun i small =>
      Nat.not_le.mp (Nat.find_min complete (by omega))
    have living : ∀ i ≤ last, Alive (sock.arrivals (i + 1)) := fun i small =>
      alive i (Nat.lt_of_lt_of_le (by omega) (Nat.find_min' complete enough))
    have all : block.length ≤ offered sock.arrivals (last + 1) := isLast ▸ Nat.find_spec complete
    have after := waits_iterate handleRequest order fresh unsupported length stream unread whole
      living few
    have before : rest.length <
        ((next handleRequest order)^[last] ⟨.ok true, t, sock⟩).socket.incoming.length := by
      cases last with
      | zero =>
          rw [Function.iterate_zero, id, stream, List.length_append, List.length_append]
          omega
      | succ earlier =>
          have waits := waits_iterate handleRequest order fresh unsupported length stream unread
            whole (fun i small => living i (by omega)) (fun i small => few i (by omega))
            (n := earlier)
          have incomplete := few (earlier + 1) (Nat.le_refl _)
          rw [waits.stream, List.length_append, List.length_drop]
          omega
    have rejected := (rejects last).1 before
    rw [← Function.iterate_succ_apply' (next handleRequest order), after.stream,
      List.drop_eq_nil_of_le all] at rejected
    have removed := (rejected (Nat.le_refl _)).1
    cases after.result.symm.trans removed
  · intro broken calls
    have state := unfinished_iterate handleRequest order fresh unsupported length nonempty stream
      unread broken calls
    rw [Function.iterate_succ_apply'] at state
    have unfinished : rest.length < (next handleRequest order
        ((next handleRequest order)^[calls] ⟨.ok true, t, sock⟩)).socket.incoming.length ∧
        (next handleRequest order
          ((next handleRequest order)^[calls] ⟨.ok true, t, sock⟩)).object.handled = t.handled := by
      rcases state with ⟨whole, alive, waits⟩ | removed
      · have few : offered sock.arrivals (calls + 1) < block.length := by
          by_contra enough
          exact broken ⟨whole, calls + 1, fun i small => alive i (Nat.le_of_lt_succ small),
            Nat.not_lt.mp enough⟩
        rw [waits.stream, waits.object, List.length_append, List.length_drop]
        exact ⟨by omega, rfl⟩
      · exact ⟨removed.unread, removed.handled⟩
    exact ⟨fun _ received => absurd unfinished.1 (Nat.not_lt.mpr received), unfinished.2⟩

end

end

/-- A packet of another kind, with a block of two bytes. -/
def otherPacket : UwsgiPacketHeader where
  modifier1 := 1
  datasize := 2

/-- The packet on a connection that is closed after the first byte of the block. -/
def closing : Socket where
  incoming := otherPacket.encode ++ [7, 8]
  arrivals i := if i = 0 then .deliver 4 else if i = 1 then .deliver 1 else .closed

/-- The packet on a connection that delivers all of it. -/
def delivering : Socket where
  incoming := otherPacket.encode ++ [7, 8]
  arrivals _ := .deliver 65536

theorem offered_closing (k : Nat) : offered closing.arrivals k ≤ 1 := by
  induction k with
  | zero => exact Nat.zero_le _
  | succ k ih =>
      cases k with
      | zero => exact Nat.le_refl _
      | succ k => exact ih

theorem rejects_closing : Rejects (fun t => (.ok true, t)) entriesOf {} closing [] := by
  have unsupported : otherPacket.modifier1 ≠ uwsgiVars := by decide
  have length : ([7, 8] : Bytes).length = otherPacket.datasize.toNat := rfl
  apply (rejects_iff _ _ UwsgiRequest.fresh_default unsupported length (by decide) rfl rfl).mpr
  rintro ⟨-, k, -, enough⟩
  exact absurd (Nat.le_trans enough (offered_closing k)) (by decide)

/-- The whole packet is received in one call, which returns true without an error; the next call
finds nothing, and waits on. -/
theorem not_rejected :
    let after := next (fun t => (.ok true, t)) entriesOf ⟨.ok true, {}, delivering⟩
    after.socket.incoming = [] ∧ after.result = .ok true ∧ after.object.exception = none ∧
      after.object.request.state = .readData := by
  decide +kernel

end UwsgiTask

end LibTasks.Net

import LibTasks.Net.Exchange
import LibTasks.Net.HttpRoundTrip

/-!
# The response to a request

The way back of an exchange.  What the client gets is the response that the handler of the
server has made, when each read of the client gets less than it asks for and the first one that
gets anything gets the whole header block.
-/

namespace LibTasks.Net

open LibTasks.Foundation LibTasks.Tools

namespace HttpResponse

/-! ## Reading when nothing arrives -/

variable {q : HttpResponse} {sock : Socket}

theorem fillFrom_idle (b : Buffer) (len : Nat) (nothing : sock.incoming = []) :
    ∃ result next, fillFrom b len sock = ⟨result, b, next⟩ ∧
      next.incoming = [] ∧ ∀ count, result ≠ .ok (some count) := by
  unfold fillFrom
  dsimp only
  rcases sock.read_cases ⟨b.pptr, len, b.size, b.bufferSize⟩ with
    ⟨e, failed⟩ | again | ⟨bytes, rest, some, _, stream, _⟩
  · rw [failed]
    exact ⟨_, _, rfl, nothing, fun _ same => by cases same⟩
  · rw [again]
    exact ⟨_, _, rfl, nothing, fun _ same => by cases same⟩
  · rw [nothing] at stream
    exact absurd (List.append_eq_nil_iff.mp stream.symm).1 some

/-- An iteration that receives nothing leaves the state. -/
theorem readIteration_idle (q : HttpResponse) (nothing : sock.incoming = []) :
    (q.readIteration sock).object.state = q.state ∧
      (q.readIteration sock).socket.incoming = [] := by
  unfold readIteration receive
  cases makeRoom q.contentBuffer with
  | error f => exact ⟨rfl, nothing⟩
  | ok b =>
      dsimp only
      rcases fillFrom_idle b (toSize (b.toWrite - 1)) nothing with
        ⟨result, next, filled, left, none⟩
      rw [filled]
      cases result with
      | error e => exact ⟨rfl, left⟩
      | ok received =>
          cases received with
          | none => exact ⟨rfl, left⟩
          | some count => exact absurd rfl (none count)

theorem startReading_running {next : HttpResponse} (started : q.startReading = .ok next)
    (running : q.state ≠ .done) : next.state ≠ .done := by
  unfold startReading at started
  split at started
  · rcases except_bind_ok.mp started with ⟨b, _, same⟩
    cases same
    exact fun done => by cases done
  · cases started
    exact running

theorem readData_idle (running : q.state ≠ .done) (nothing : sock.incoming = []) :
    (q.readData sock).object.state ≠ .done ∧ (q.readData sock).socket.incoming = [] := by
  unfold readData
  cases started : q.startReading with
  | error f => exact ⟨running, nothing⟩
  | ok next =>
      have undone := startReading_running started running
      dsimp only
      rw [if_neg undone]
      apply Outcome.loop_leaves (P := fun (q : HttpResponse) (sock : Socket) =>
        q.state ≠ .done ∧ sock.incoming = [])
      · rintro q sock ⟨undone, nothing⟩
        have idle := q.readIteration_idle nothing
        exact ⟨fun done => undone (idle.1.symm.trans done), idle.2⟩
      · exact ⟨undone, nothing⟩

/-- Nothing arrives later in the call either. -/
theorem idle_heads {s : Session HttpResponse} (nothing : s.socket.incoming = []) :
    ∀ place ∈ heads s, place.2.incoming = [] := by
  unfold heads
  split
  · exact List.forall_mem_nil _
  · cases s.object.startReading with
    | error f => exact List.forall_mem_nil _
    | ok start =>
        refine (Outcome.loop_rule (P := fun _ sock => sock.incoming = []) ?_ _ nothing).1
        intro q sock go next later nothing result
        have idle := (q.readIteration_idle nothing).2
        rw [result] at idle
        exact idle

end HttpResponse

namespace Exchange

open HttpResponse (heads idle_heads roomCall ReadsShort ReadsFirst)
open Response (startFields)

/-! ## What the server answers -/

/-- A response that the server can send, and whose text can be read back. -/
structure Answerable (order : IterationOrder) (r : HttpResponse) : Prop where
  state : r.state = .ready
  cleared : r.dataBuffer.Cleared
  carries : r.contentBuffer.Carries r.contentBuffer.readable 0
  sendable : r.Sendable
  short : r.contentBuffer.readable.length < 2 ^ 31
  small : (r.head order.list).length + 1024 ≤ maxSize

namespace Answerable

variable {order : IterationOrder} {r : HttpResponse} (answerable : Answerable order r)

/-- The response on the wire. -/
def response : Response :=
  answerable.sendable.response order r.contentBuffer.readable answerable.carries.size
    answerable.short

theorem bytes : r.head order.list ++ r.contentBuffer.readable = answerable.response.bytes :=
  (linesText_body_append _ [] _).symm

theorem headLength : answerable.response.headLength = (r.head order.list).length :=
  (length_linesText _ []).symm

include answerable in
theorem ready : (HttpResponse.messageClass order.list).Ready (r.head order.list)
    r.contentBuffer.readable r := by
  rcases HttpResponse.prepareDataBuffer_eq answerable.cleared answerable.small with
    ⟨b, prepared, carries⟩
  exact ⟨answerable.state, answerable.cleared, answerable.carries.ok, answerable.carries.gptr, rfl,
    _, prepared, carries.readable_eq⟩

end Answerable

/-- The response that was received is the one that was sent, with a `Content-Length`. -/
structure Matches (answer r : HttpResponse) : Prop where
  status : r.status = answer.status
  statusCode : r.statusCode = atoi answer.status
  headers : ∀ name, r.headers.lookup name =
    if name = text "Content-Length" then some (decimal answer.contentBuffer.readable.length)
    else answer.headers.lookup name
  content : r.contentBuffer.readable = answer.contentBuffer.readable

theorem Answerable.matches_of_received {order : IterationOrder} {answer r : HttpResponse}
    (answerable : Answerable order answer)
    (received : answerable.response.Received (startFields {}) r) : Matches answer r := by
  have size : answer.contentBuffer.size = answer.contentBuffer.readable.length :=
    answerable.carries.size
  have described := answerable.sendable.describe_headerLines order (size ▸ answerable.short)
  rcases received.seen HttpResponse.fresh_default with ⟨status, code, headers, _⟩
  refine ⟨status, code, fun name => ?_, received.readable⟩
  have lines : answerable.response.headerLines = answer.headerLines order.list := rfl
  rw [headers, lines, described, size]
  dsimp only
  by_cases same : name = text "Content-Length"
  · rw [if_pos same, same, AList.lookup_insert]
  · rw [if_neg same, AList.lookup_insert_ne same, HttpResponse.Sendable.lookup_addHeaders]

/-! ## The client reads -/

/-- The client reads the response, of which `late` has not arrived, or its handler got it. -/
inductive Receiving (p : Response) (late : Bytes) (x : Sender) (active : Bool) (sock : Socket) :
    Prop
  | awaits (responses : x.responses = []) (place : active = true →
      x.response = {} ∧ sock.incoming ++ late = p.bytes ∨
        p.Awaits (startFields {}) late x.response sock)
  | received (r : HttpResponse) (responses : x.responses = [r])
      (whole : p.Received (startFields {}) r) (running : x.response.state ≠ .done)
      (nothing : sock.incoming ++ late = [])

variable {setup : Setup} {p : Response} {late : Bytes} {x : Sender} {active : Bool} {sock : Socket}

/-- What arrives was in flight. -/
theorem Receiving.arrive {bytes rest : Bytes} (receiving : Receiving p late x active sock)
    (same : bytes ++ rest = late) : Receiving p rest x active (arrive sock bytes) := by
  cases receiving with
  | awaits responses place =>
      refine .awaits responses fun running => ?_
      rcases place running with ⟨new, stream⟩ | awaits
      · left
        rw [Exchange.arrive, List.append_assoc, same]
        exact ⟨new, stream⟩
      · right
        apply awaits.of_incoming
        rw [Exchange.arrive, List.append_assoc, same]
  | received r responses whole running nothing =>
      refine .received r responses whole running ?_
      rw [Exchange.arrive, List.append_assoc, same]
      exact nothing

/-- The client does not read, or it fails. -/
theorem Receiving.of_response {y : Sender} {later : Socket} {cont : Bool}
    (receiving : Receiving p late x active sock) (running : active = true)
    (response : y.response = x.response)
    (responses : y.responses = x.responses) (same : later.incoming = sock.incoming) :
    Receiving p late y cont later := by
  cases receiving with
  | awaits none place =>
      refine .awaits (responses.trans none) fun _ => ?_
      rw [response, same]
      rcases place running with new | awaits
      · exact .inl new
      · right
        apply awaits.of_incoming
        rw [same]
  | received r one whole notDone nothing =>
      refine .received r (responses.trans one) whole ?_ ?_
      · rw [response]
        exact notDone
      · rw [same]
        exact nothing

/-- A call of `read_data` while the response is in flight. -/
theorem awaits_readData {q : HttpResponse}
    (place : q = {} ∧ sock.incoming ++ late = p.bytes ∨ p.Awaits (startFields {}) late q sock)
    (well : ∀ head ∈ heads ⟨q, sock, none⟩, p.ReadsWell head.1 head.2) :
    let o := q.readData sock
    p.Awaits (startFields {}) late o.object o.socket ∨
      o.result = .ok () ∧
        p.Complete [] (startFields {}) o.object (o.socket.ahead late .again) := by
  have fresh := HttpResponse.fresh_default
  have begins : ∃ start, q.done = false ∧ q.startReading = .ok start ∧
      p.Awaits (startFields {}) late start sock := by
    rcases place with ⟨rfl, stream⟩ | awaits
    · refine ⟨_, rfl, fresh.startReading_eq, ⟨?_, (fun done => by cases done), ?_⟩, .inl rfl⟩
      · apply p.arriving_of_fresh fresh _ fresh.startReading_eq
        rw [Socket.ahead_incoming, stream, List.append_nil]
      · exact Nat.add_pos_left (Nat.succ_pos _) _
    · have running := awaits.onTime.running
      exact ⟨q, decide_eq_false running, if_neg awaits.onTime.arriving.reading.begun, awaits⟩
  rcases begins with ⟨start, running, started, awaits⟩
  have places : heads ⟨q, sock, none⟩ =
      Outcome.loopHeads HttpResponse.readIteration (sock.incoming.length + 1) start sock := by
    simp [heads, running, started]
  rw [places] at well
  rw [HttpResponse.readData_running running started]
  exact awaits.loop fresh _ well

/-- Nothing is left when the response is complete. -/
theorem nothing_left {q : HttpResponse}
    (complete : p.Complete [] (startFields {}) q (sock.ahead late .again)) :
    sock.incoming ++ late = [] := by
  have stream := complete.arriving.stream
  rw [Socket.ahead_incoming, complete.place, List.append_nil] at stream
  rw [stream]
  exact List.drop_eq_nil_of_le (Nat.le_of_eq p.length_bytes)

/-- The client reads. -/
theorem Receiving.handleRead (receiving : Receiving p late x active sock) (running : active = true)
    (well : ∀ head ∈ heads ⟨x.response, sock, none⟩, p.ReadsWell head.1 head.2) :
    let o := x.handleRead setup.handleResponse sock
    Receiving p late o.object (goesOn o.result) o.socket := by
  cases receiving with
  | awaits none place =>
      have reads := awaits_readData (place running) well
      unfold Sender.handleRead
      generalize x.response.readData sock = o at reads
      rcases o with ⟨result, q, later⟩
      rcases reads with awaits | ⟨ok, complete⟩
      · have undone : q.done = false := decide_eq_false awaits.onTime.running
        cases result with
        | error e => cases e <;> exact .awaits none fun _ => .inr awaits
        | ok value =>
            dsimp only
            rw [undone]
            exact .awaits none fun _ => .inr awaits
      · have done : q.done = true := decide_eq_true complete.received.state_eq
        cases ok
        dsimp only
        rw [done]
        refine .received q ?_ complete.received (fun done => by cases done)
          (nothing_left complete)
        rw [none]
        rfl
  | received r one whole notDone nothing =>
      rcases List.append_eq_nil_iff.mp nothing with ⟨empty, _⟩
      have idle := HttpResponse.readData_idle notDone empty
      have noMore : (x.response.readData sock).socket.incoming ++ late = [] := by
        rw [empty] at nothing
        rw [idle.2]
        exact nothing
      unfold Sender.handleRead
      generalize x.response.readData sock = o at idle noMore
      rcases o with ⟨result, q, later⟩
      have undone : q.done = false := decide_eq_false idle.1
      cases result with
      | error e => cases e <;> exact .received r one whole idle.1 noMore
      | ok value =>
          dsimp only
          rw [undone]
          exact .received r one whole idle.1 noMore

/-- The client handles its events. -/
theorem Receiving.handleEvent {head : Bytes} (receiving : Receiving p late x active sock)
    (running : active = true) (requesting : Requesting setup head x sock)
    (well : ∀ head ∈ heads ⟨x.response, sock, none⟩, p.ReadsWell head.1 head.2) :
    let o := x.handleEvent setup.handleResponse setup.order.list sock
    Receiving p late o.object (goesOn o.result) o.socket := by
  cases requesting with
  | sends events emitting =>
      rcases emitting.writeData with ⟨next, later, written, sends, writing⟩
      rw [UwsgiRequest.messageClass_writeData] at written
      rw [Sender.handleEvent_write events written]
      dsimp only
      split <;> exact receiving.of_response running rfl rfl sends.incoming
  | waits events =>
      rw [Sender.handleEvent_read sock events]
      exact receiving.handleRead running well

/-! ## The server writes -/

/-- The server has sent nothing, or it sends the response to the request. -/
inductive Responding (setup : Setup) (request : UwsgiRequest) (x : Server) (sock : Socket) : Prop
  | reads (events : x.events = ⟨true, false⟩) (sent : sock.sent = []) (writable : sock.Writable)
  | sends (events : x.events = ⟨false, true⟩)
      (emitting : (HttpResponse.messageClass setup.order.list).Emitting
        ((setup.service request).head setup.order.list)
        (setup.service request).contentBuffer.readable x.task.response sock)

theorem Responding.arrive {request : UwsgiRequest} {x : Server}
    (responding : Responding setup request x sock) (bytes : Bytes) :
    Responding setup request x (arrive sock bytes) := by
  cases responding with
  | reads events sent writable => exact .reads events sent writable
  | sends events emitting => exact .sends events (emitting.of_sent rfl rfl)

/-- The server handles its events: it sends the next bytes of the response or none. -/
theorem Responding.handleEvent {packet : Packet} {x : Server}
    (responding : Responding setup (packet.received {}) x sock)
    (serving : Serving packet late x active sock) (running : active = true)
    (answerable : Answerable setup.order (setup.service (packet.received {})))
    (sent : sock.sent <+: answerable.response.bytes) :
    let o := x.handleEvent setup.service setup.order.list sock
    sock.sent <+: o.socket.sent ∧ o.socket.sent <+: answerable.response.bytes ∧
      (goesOn o.result = true → Responding setup (packet.received {}) o.object o.socket) ∧
      (o.object.served = [] → o.socket.sent = []) := by
  cases responding with
  | reads events nothing writable =>
      have receives := x.task.request.readData_receives sock
      have still : (x.task.request.readData sock).socket.Writable := fun k =>
        receives.acceptances ▸ writable k
      have unsent := receives.sent.trans nothing
      have grows : sock.sent <+: (x.task.request.readData sock).socket.sent := by
        rw [receives.sent]
      have inside : (x.task.request.readData sock).socket.sent <+: answerable.response.bytes := by
        rw [receives.sent]
        exact sent
      rcases Server.handleEvent_read sock events with
        ⟨result, task, stops, equal⟩ | ⟨ok, _, equal⟩ | ⟨ok, done, equal⟩
      · rw [equal]
        refine ⟨grows, inside, fun goes => ?_, fun _ => unsent⟩
        cases stops.symm.trans goes
      · rw [equal]
        exact ⟨grows, inside, fun _ => .reads events unsent still, fun _ => unsent⟩
      · rw [equal]
        refine ⟨grows, inside, fun _ => .sends rfl (.inl ⟨?_, unsent, still⟩), fun _ => unsent⟩
        rw [serving.read_whole running events ok done]
        exact answerable.ready
  | sends events emitting =>
      rcases emitting.writeData with ⟨next, later, written, sends, writing⟩
      rw [HttpResponse.messageClass_writeData] at written
      rcases Server.handleEvent_write sock events with ⟨result, task, equal, outcome⟩
      rcases outcome next later written with ⟨response, goes⟩
      rw [equal, written]
      refine ⟨sends.sent, answerable.bytes ▸ MessageClass.writing_sent writing, fun goesOn => ?_,
        fun none => ?_⟩
      · have undone : next.done = false := by
          rw [goesOn] at goes
          exact (Bool.not_eq_true' _).mp goes.symm
        refine .sends events (.inr ?_)
        rw [response, undone]
        exact writing
      · cases serving with
        | reads other => cases events.symm.trans other
        | answers _ served => cases served.symm.trans none

/-! ## The response reaches the client -/

/-- The response between the parties. -/
structure ResponseFlows (setup : Setup) (request : UwsgiRequest) (p : Response) (s : State) :
    Prop where
  sent : s.serverSocket.sent <+: p.bytes
  server : s.serverActive = true → Responding setup request s.server s.serverSocket
  client : Receiving p (p.bytes.drop s.serverSocket.sent.length) s.client s.clientActive
    s.clientSocket
  early : s.server.served = [] → s.serverSocket.sent = []

/-- Each read of the client gets less than it asks for, and the first one that gets anything
gets the whole header block. -/
def ReadsWell (setup : Setup) (s : State) : Prop :=
  ∀ place ∈ heads ⟨s.client.response, s.clientSocket, none⟩,
    ReadsShort place.1 place.2 ∧ ∀ request ∈ s.server.served,
      ReadsFirst ((setup.service request).head setup.order.list).length place.1 place.2

variable {request : UwsgiRequest} {s next : State}

/-- Before the server has the request, the client gets nothing. -/
theorem ResponseFlows.nothing_yet (flows : ResponseFlows setup request p s)
    (active : s.clientActive = true) (none : s.server.served = []) :
    s.clientSocket.incoming = [] := by
  have receiving := flows.client
  rw [flows.early none, List.length_nil, List.drop_zero] at receiving
  apply List.eq_nil_of_length_eq_zero
  cases receiving with
  | awaits _ place =>
      rcases place active with ⟨_, stream⟩ | awaits
      · have length := congrArg List.length stream
        rw [List.length_append] at length
        exact Nat.add_eq_right.mp length
      · have length := congrArg List.length awaits.onTime.arriving.stream
        rw [Socket.ahead_incoming, List.append_nil, List.length_append, List.length_drop] at length
        change _ + p.bytes.length = p.bytes.length - _ at length
        omega
  | received _ _ _ _ nothing =>
      rw [(List.append_eq_nil_iff.mp nothing).1]
      rfl

/-- The conditions on the reads, for the response that is expected. -/
theorem ReadsWell.response {packet : Packet}
    (answerable : Answerable setup.order (setup.service (packet.received {})))
    (flows : ResponseFlows setup (packet.received {}) answerable.response s)
    (serving : Serving packet late s.server s.serverActive s.serverSocket)
    (active : s.clientActive = true) (well : ReadsWell setup s) :
    ∀ place ∈ heads ⟨s.client.response, s.clientSocket, none⟩,
      answerable.response.ReadsWell place.1 place.2 := by
  intro place member
  refine ⟨(well place member).1, ?_⟩
  rw [answerable.headLength]
  cases serving with
  | answers _ served => exact (well place member).2 _ (served ▸ List.mem_singleton_self _)
  | reads _ none =>
      intro _ b bytes rest arrives
      have empty := idle_heads (flows.nothing_yet active none) place member
      rw [arrives.stream] at empty
      exact absurd (List.append_eq_nil_iff.mp empty).1 arrives.nonempty

theorem ResponseFlows.step {packet : Packet} {head : Bytes} {party : Party}
    (answerable : Answerable setup.order (setup.service (packet.received {})))
    (flows : ResponseFlows setup (packet.received {}) answerable.response s)
    (requests : RequestFlows setup packet head s)
    (well : party = .client → ReadsWell setup s) (moves : step setup party s = some next) :
    ResponseFlows setup (packet.received {}) answerable.response next := by
  cases party with
  | client =>
      rw [Exchange.step] at moves
      split at moves
      · next active =>
          cases moves
          have reads := (well rfl).response answerable flows requests.server active
          exact ⟨flows.sent, fun running => (flows.server running).arrive _,
            flows.client.handleEvent active (requests.client active) reads, flows.early⟩
      · cases moves
  | server =>
      rw [Exchange.step] at moves
      split at moves
      · next active =>
          cases moves
          rcases (flows.server active).handleEvent requests.server active answerable flows.sent with
            ⟨grows, inside, responding, early⟩
          exact ⟨inside, responding, flows.client.arrive (newlySent_late grows inside), early⟩
      · cases moves

theorem responseFlows_init
    (answerable : Answerable setup.order (setup.service request)) :
    ResponseFlows setup request answerable.response (system setup).init := by
  rcases setup.serverNew with ⟨_, nothing, _⟩
  rcases setup.clientNew with ⟨empty, _, _⟩
  refine ⟨?_, fun _ => .reads rfl nothing setup.serverWritable,
    .awaits rfl fun _ => .inl ⟨rfl, ?_⟩, fun _ => nothing⟩
  · change setup.serverSocket.sent <+: _
    rw [nothing]
    exact List.nil_prefix
  · change setup.clientSocket.incoming ++ List.drop setup.serverSocket.sent.length _ = _
    rw [empty, nothing]
    rfl

/-- A response that the client got is the answer to the request that was served. -/
theorem ResponseFlows.matches {packet : Packet} {head : Bytes}
    (answerable : Answerable setup.order (setup.service (packet.received {})))
    (flows : ResponseFlows setup (packet.received {}) answerable.response s)
    (requests : RequestFlows setup packet head s) :
    s.client.responses.length ≤ 1 ∧ ∀ r ∈ s.client.responses, ∃ request ∈ s.server.served,
      Matches (setup.service request) r := by
  cases flows.client with
  | awaits none =>
      rw [none]
      exact ⟨Nat.zero_le _, List.forall_mem_nil _⟩
  | received r one whole _ nothing =>
      rw [one]
      refine ⟨Nat.le_refl _, fun other member => ?_⟩
      cases List.mem_singleton.mp member
      refine ⟨packet.received {}, ?_, answerable.matches_of_received whole⟩
      cases requests.server with
      | answers _ served => exact served ▸ List.mem_singleton_self _
      | reads _ none =>
          -- The server has not sent anything.
          have all := (List.append_eq_nil_iff.mp nothing).2
          rw [flows.early none, List.length_nil, List.drop_zero] at all
          have length := congrArg List.length all
          rw [Response.length_bytes, answerable.headLength] at length
          exact absurd length (by simp [HttpResponse.head, linesText])

/-- An executable condition on a read that is enough for it to be good. -/
def readsWellAt (count : Nat) (place : HttpResponse × Socket) : Bool :=
  match place.2.arrivals place.2.reads.length with
  | .deliver n => n + 1 < readBufferSizeBlock && (place.1.contentBuffer.pptr != 0 ||
      place.2.incoming.isEmpty || count ≤ min n place.2.incoming.length)
  | _ => true

theorem readsWell_of_readsWellAt {count : Nat} {place : HttpResponse × Socket}
    (passes : readsWellAt count place = true) :
    ReadsShort place.1 place.2 ∧ ReadsFirst count place.1 place.2 := by
  have piece (b : Buffer) (bytes rest : Bytes) (arrives : place.1.Arrives place.2 b bytes rest) :
      bytes.length < (roomCall b).len ∧
        (place.1.contentBuffer.pptr = 0 → count ≤ bytes.length) := by
    rcases Socket.deliver_of_read arrives.read with ⟨n, delivery, taken⟩
    simp only [readsWellAt, delivery, Bool.and_eq_true, Bool.or_eq_true, decide_eq_true_eq,
      bne_iff_ne, List.isEmpty_iff] at passes
    have room : readBufferSizeBlock ≤ (roomCall b).len + 1 := by
      have size := arrives.room.size
      have same := arrives.room.pptr
      change _ ≤ b.size - b.pptr - 1 + 1
      omega
    have some := List.length_pos_iff.mpr arrives.nonempty
    have length : bytes.length = min (min (max n 1) (roomCall b).len) place.2.incoming.length := by
      rw [taken, List.length_take]
    rcases passes with ⟨short, (behind | nothing) | whole⟩
    · refine ⟨?_, fun zero => absurd zero behind⟩
      unfold readBufferSizeBlock at *
      omega
    · rw [nothing, List.length_nil] at length
      omega
    · unfold readBufferSizeBlock at *
      omega
  exact ⟨fun b bytes rest arrives => Nat.ne_of_lt (piece b bytes rest arrives).1,
    fun zero b bytes rest arrives => (piece b bytes rest arrives).2 zero⟩

def sampleAnswer : HttpResponse := HttpResponse.sampleResponse.setStatus (text "200 OK")

theorem sampleAnswer_answerable : Answerable entriesOrder sampleAnswer where
  state := rfl
  cleared := ⟨rfl, rfl, rfl, Nat.zero_le _⟩
  carries := ⟨⟨by decide, by decide, by decide, by decide⟩, rfl, rfl, rfl, rfl⟩
  sendable := HttpResponse.sampleResponse_sendable
  short := by decide
  small := by decide

/-- The server gives the same answer to every request. -/
def sampleExchange : Setup := sampleSetup fun _ => sampleAnswer

/-- The server sends its response before the client reads. -/
def responseRun : List Party :=
  requestRun ++ [Party.server, Party.server, Party.client, Party.client]

end Exchange

end LibTasks.Net

import LibTasks.Foundation.Transition
import LibTasks.Net.InFlight
import LibTasks.Net.UwsgiRoundTrip
import LibTasks.Net.UwsgiTask

/-!
# A request and its response

An `http_sender` that sends a `uwsgi_request` to a `uwsgi_task` on the other end of a
connection.  Both parties handle their events in any order.  What one of them has sent is in
flight until the other one reads it, in pieces of any size: the schedules of the sockets say
what each call of `sendto` and `recvfrom` finds.  A call of `handle_event` either reads or
writes, so that it is no loss that these calls are not interleaved.
-/

namespace LibTasks.Net.Exchange

open LibTasks.Foundation LibTasks.Tools

/-! ## The client -/

/-- `http_sender` with a `uwsgi_request`, after `send`. -/
structure Sender where
  request : UwsgiRequest := {}
  response : HttpResponse := {}
  events : Revents := ⟨false, true⟩
  exception : Option TasksException := none
  /-- The responses that `handle_response` was called with. -/
  responses : List HttpResponse := []

namespace Sender

/-- The `catch` clause of `handle_event`. -/
def caught (x : Sender) (sock : Socket) : Failure → Outcome Sender Bool
  | .exception e => ⟨.ok false, { x with exception := some e }, sock⟩
  | .fault f => ⟨.error (.fault f), x, sock⟩

/-- `handle_event` for `EV_READ`.  What `handle_response` returns is up to the handler. -/
def handleRead (handleResponse : HttpResponse → Bool) (x : Sender) (sock : Socket) :
    Outcome Sender Bool :=
  let o := x.response.readData sock
  let x := { x with response := o.object }
  match o.result with
  | .error e => x.caught o.socket e
  | .ok () =>
      if x.response.done then
        ⟨.ok (handleResponse x.response), { x with
          response := x.response.clear
          responses := x.responses ++ [x.response] }, o.socket⟩
      else
        ⟨.ok true, x, o.socket⟩

/-- `handle_event` for `EV_WRITE`. -/
def handleWrite (order : Headers → List (Bytes × Bytes)) (x : Sender) (sock : Socket) :
    Outcome Sender Bool :=
  let o := x.request.writeData order sock
  let x := { x with request := o.object }
  match o.result with
  | .error e => x.caught o.socket e
  | .ok () =>
      if x.request.done then
        ⟨.ok true, { x with request := x.request.clear, events := ⟨true, false⟩ }, o.socket⟩
      else
        ⟨.ok true, x, o.socket⟩

/-- `handle_event`, for the events that the watcher waits for. -/
def handleEvent (handleResponse : HttpResponse → Bool)
    (order : Headers → List (Bytes × Bytes)) (x : Sender) (sock : Socket) :
    Outcome Sender Bool :=
  if x.events.read then
    x.handleRead handleResponse sock
  else if x.events.write then
    x.handleWrite order sock
  else
    ⟨.ok true, x, sock⟩

end Sender

/-! ## The server -/

/-- A `uwsgi_task` whose handler answers at once, with the events of its watcher. -/
structure Server where
  task : UwsgiTask := {}
  events : Revents := ⟨true, false⟩
  /-- The requests that `handle_request` was called with. -/
  served : List UwsgiRequest := []

namespace Server

/-- `handle_request`: the handler makes the response and calls `send_response`. -/
def handleRequest (service : UwsgiRequest → HttpResponse) (t : UwsgiTask) :
    Except Failure Bool × UwsgiTask :=
  (.ok true, { t with response := service t.request })

/-- `handle_event`, for the events that the watcher waits for.  After `send_response` that is
`EV_WRITE`. -/
def handleEvent (service : UwsgiRequest → HttpResponse)
    (order : Headers → List (Bytes × Bytes)) (x : Server) (sock : Socket) :
    Outcome Server Bool :=
  let o := x.task.handleEvent (handleRequest service) order x.events sock
  if o.object.handled = x.task.handled then
    ⟨o.result, { x with task := o.object }, o.socket⟩
  else
    ⟨o.result, { x with
      task := o.object
      events := ⟨false, true⟩
      served := x.served ++ [(x.task.request.readData sock).object] }, o.socket⟩

end Server

/-! ## The connection -/

/-- The parties, and whether they are still in the event loop. -/
structure State where
  client : Sender
  clientSocket : Socket
  clientActive : Bool := true
  server : Server
  serverSocket : Socket
  serverActive : Bool := true

inductive Party where
  | client
  | server
  deriving DecidableEq, Repr

/-- Bytes of the peer arrive. -/
def arrive (sock : Socket) (bytes : Bytes) : Socket :=
  { sock with incoming := sock.incoming ++ bytes }

/-- What was sent between two states of a socket. -/
def newlySent (before after : Socket) : Bytes := after.sent.drop before.sent.length

/-- A request that can be sent, and what else the parties need.  The sockets are those of a new
connection, on which no `sendto` fails. -/
structure Setup where
  request : UwsgiRequest
  content : Bytes
  service : UwsgiRequest → HttpResponse
  handleResponse : HttpResponse → Bool
  order : IterationOrder
  clientSocket : Socket
  serverSocket : Socket
  composed : request.Composed content
  new : request.dataBuffer = {}
  representable : request.Representable content
  clientNew : clientSocket.incoming = [] ∧ clientSocket.sent = [] ∧ clientSocket.reads = []
  serverNew : serverSocket.incoming = [] ∧ serverSocket.sent = [] ∧ serverSocket.reads = []
  clientWritable : clientSocket.Writable
  serverWritable : serverSocket.Writable

variable (setup : Setup)

/-- Whether a task stays in the event loop. -/
def goesOn : Except Failure Bool → Bool
  | .ok cont => cont
  | .error _ => false

/-- A party handles its events. -/
def step : Party → State → Option State
  | .client, s =>
      if s.clientActive then
        let o := s.client.handleEvent setup.handleResponse setup.order.list s.clientSocket
        some { s with
          client := o.object
          clientSocket := o.socket
          clientActive := goesOn o.result
          serverSocket := arrive s.serverSocket (newlySent s.clientSocket o.socket) }
      else none
  | .server, s =>
      if s.serverActive then
        let o := s.server.handleEvent setup.service setup.order.list s.serverSocket
        some { s with
          server := o.object
          serverSocket := o.socket
          serverActive := goesOn o.result
          clientSocket := arrive s.clientSocket (newlySent s.serverSocket o.socket) }
      else none

def system : System State Party where
  init :=
    { client := { request := setup.request }
      clientSocket := setup.clientSocket
      server := {}
      serverSocket := setup.serverSocket }
  step := step setup

/-! ## What is in flight -/

/-- What was sent just now was still to be sent before. -/
theorem newlySent_late {before after : Socket} {total : Bytes}
    (grows : before.sent <+: after.sent) (inside : after.sent <+: total) :
    newlySent before after ++ total.drop after.sent.length =
      total.drop before.sent.length := by
  rcases grows with ⟨new, sent⟩
  rcases inside with ⟨late, all⟩
  rw [newlySent, ← all, ← sent, List.drop_left, List.drop_left, List.append_assoc,
    List.drop_left]

theorem arrive_newlySent {before after sock : Socket} {total : Bytes}
    (grows : before.sent <+: after.sent) (inside : after.sent <+: total) :
    (arrive sock (newlySent before after)).incoming ++ total.drop after.sent.length =
      sock.incoming ++ total.drop before.sent.length := by
  rw [arrive, List.append_assoc, newlySent_late grows inside]

/-! ## What an event does -/

theorem Sender.handleEvent_write {handleResponse : HttpResponse → Bool}
    {order : Headers → List (Bytes × Bytes)} {x : Sender} {sock later : Socket}
    {next : UwsgiRequest} (events : x.events = ⟨false, true⟩)
    (written : x.request.writeData order sock = ⟨.ok (), next, later⟩) :
    x.handleEvent handleResponse order sock =
      ⟨.ok true, if next.done then { x with request := next.clear, events := ⟨true, false⟩ }
        else { x with request := next }, later⟩ := by
  simp only [handleEvent, events, Bool.false_eq_true, ↓reduceIte, handleWrite, written]
  split <;> rfl

/-- The client when it reads. -/
theorem Sender.handleEvent_read {handleResponse : HttpResponse → Bool}
    {order : Headers → List (Bytes × Bytes)} {x : Sender} (sock : Socket)
    (events : x.events = ⟨true, false⟩) :
    x.handleEvent handleResponse order sock = x.handleRead handleResponse sock := by
  simp only [handleEvent, events, ↓reduceIte]

theorem Sender.handleRead_events (handleResponse : HttpResponse → Bool) (x : Sender)
    (sock : Socket) :
    (x.handleRead handleResponse sock).object.events = x.events ∧
      (x.handleRead handleResponse sock).socket = (x.response.readData sock).socket := by
  unfold handleRead
  rcases x.response.readData sock with ⟨result, next, later⟩
  cases result with
  | error e => cases e <;> exact ⟨rfl, rfl⟩
  | ok value =>
      dsimp only
      split <;> exact ⟨rfl, rfl⟩

/-- The task after the handler got a request. -/
def Server.answering (service : UwsgiRequest → HttpResponse) (t : UwsgiTask)
    (request : UwsgiRequest) : UwsgiTask where
  request := request.clear
  response := service request
  exception := t.exception
  handled := t.handled + 1

/-- A task when it reads: it ends, or it goes on with the request, or the request is complete
and the handler gets it. -/
theorem Server.handleRead_cases (service : UwsgiRequest → HttpResponse) (t : UwsgiTask)
    (sock : Socket) :
    let ro := t.request.readData sock
    let o := t.handleRead (handleRequest service) sock
    (∃ result task, o = ⟨result, task, ro.socket⟩ ∧ goesOn result = false ∧
        task.handled = t.handled) ∨
      ro.result = .ok () ∧ ro.object.state ≠ .done ∧
        o = ⟨.ok true, { t with request := ro.object }, ro.socket⟩ ∨
      ro.result = .ok () ∧ ro.object.state = .done ∧
        o = ⟨.ok true, answering service t ro.object, ro.socket⟩ := by
  dsimp only
  unfold UwsgiTask.handleRead
  rcases t.request.readData sock with ⟨result, next, later⟩
  cases result with
  | error e =>
      left
      cases e with
      | exception e => exact ⟨_, _, rfl, rfl, rfl⟩
      | fault f => exact ⟨_, _, rfl, rfl, rfl⟩
  | ok value =>
      dsimp only
      by_cases done : next.state = .done
      · have finished : next.done = true := decide_eq_true done
        rw [if_pos finished]
        by_cases vars : next.uwsgiHeader.modifier1 = uwsgiVars
        · rw [if_pos vars]
          exact .inr (.inr ⟨rfl, done, rfl⟩)
        · rw [if_neg vars]
          exact .inl ⟨_, _, rfl, rfl, rfl⟩
      · have running : ¬next.done = true := fun same => done (of_decide_eq_true same)
        rw [if_neg running]
        exact .inr (.inl ⟨rfl, done, rfl⟩)

theorem Server.handleEvent_read {service : UwsgiRequest → HttpResponse}
    {order : Headers → List (Bytes × Bytes)} {x : Server} (sock : Socket)
    (events : x.events = ⟨true, false⟩) :
    let ro := x.task.request.readData sock
    let o := x.handleEvent service order sock
    (∃ result task, goesOn result = false ∧ o = ⟨result, { x with task := task }, ro.socket⟩) ∨
      ro.result = .ok () ∧ ro.object.state ≠ .done ∧
        o = ⟨.ok true, { x with task := { x.task with request := ro.object } }, ro.socket⟩ ∨
      ro.result = .ok () ∧ ro.object.state = .done ∧
        o = ⟨.ok true, ⟨answering service x.task ro.object, ⟨false, true⟩,
          x.served ++ [ro.object]⟩, ro.socket⟩ := by
  have called : x.task.handleEvent (handleRequest service) order x.events sock =
      x.task.handleRead (handleRequest service) sock := by
    rw [events]
    rfl
  dsimp only [handleEvent]
  rw [called]
  rcases handleRead_cases service x.task sock with
    ⟨result, task, equal, stops, same⟩ | ⟨ok, running, equal⟩ | ⟨ok, done, equal⟩
  · rw [equal, if_pos same]
    exact .inl ⟨result, task, stops, rfl⟩
  · rw [equal, if_pos rfl]
    exact .inr (.inl ⟨ok, running, rfl⟩)
  · have handled : (answering service x.task (x.task.request.readData sock).object).handled ≠
        x.task.handled := Nat.succ_ne_self _
    rw [equal, if_neg handled]
    exact .inr (.inr ⟨ok, done, rfl⟩)

/-- The server when it writes. -/
theorem Server.handleEvent_write {service : UwsgiRequest → HttpResponse}
    {order : Headers → List (Bytes × Bytes)} {x : Server} (sock : Socket)
    (events : x.events = ⟨false, true⟩) :
    ∃ result task, x.handleEvent service order sock =
        ⟨result, { x with task := task }, (x.task.response.writeData order sock).socket⟩ ∧
      ∀ next later, x.task.response.writeData order sock = ⟨.ok (), next, later⟩ →
        task.response = (if next.done then next.clear else next) ∧ goesOn result = !next.done := by
  have called : x.task.handleEvent (handleRequest service) order x.events sock =
      x.task.handleWrite order sock := by
    rw [events]
    rfl
  dsimp only [handleEvent]
  rw [called, UwsgiTask.handleWrite]
  rcases x.task.response.writeData order sock with ⟨result, next, later⟩
  cases result with
  | error e =>
      cases e with
      | exception e =>
          refine ⟨_, _, if_pos rfl, ?_⟩
          rintro _ _ ⟨⟩
      | fault f =>
          refine ⟨_, _, if_pos rfl, ?_⟩
          rintro _ _ ⟨⟩
  | ok value =>
      dsimp only
      cases done : next.done with
      | true =>
          refine ⟨_, _, if_pos rfl, ?_⟩
          rintro _ _ ⟨⟩
          rw [done]
          exact ⟨rfl, rfl⟩
      | false =>
          refine ⟨_, _, if_pos rfl, ?_⟩
          rintro _ _ ⟨⟩
          rw [done]
          exact ⟨rfl, rfl⟩

/-! ## The request -/

variable {setup}

/-- The packet that the client sends, and the request that the server makes of it. -/
structure Carried (setup : Setup) (p : Packet) (sent : UwsgiRequest) : Prop where
  prepared : setup.request.prepareDataBuffer setup.order.list = .ok sent
  bytes : sent.dataBuffer.readable ++ setup.content = p.bytes
  vars : ∀ key, key ≠ [] → (p.received {}).var key =
    (setup.request.withContentLength.headers.lookup key).getD noVal
  content : (p.received {}).contentBuffer.readable = setup.content

theorem exists_carried (setup : Setup) : ∃ p sent, Carried setup p sent := by
  have fresh := UwsgiRequest.fresh_default
  rcases setup.composed.exists_packet setup.representable setup.order with
    ⟨p, vars, content, header⟩
  rcases UwsgiRequest.prepareDataBuffer_eq setup.composed.data
    setup.representable.wire_small with ⟨b, prepared, _, _, readable⟩
  refine ⟨p, _, prepared, ?_, fun key nonempty => ?_, ?_⟩
  · dsimp only
    rw [readable, setup.new, Packet.bytes, header, vars, content,
      setup.representable.sentVars_eq, wire_append]
    simp [wire, wireVar, wireString, le16, window]
  · have skipped : varsMap ∅ p.vars =
        varsMap ∅ (setup.order.list setup.request.withContentLength.headers) := by
      simp [vars, varsMap]
    rw [UwsgiRequest.var, HttpBase.header, p.received_headers fresh, skipped,
      setup.order.lookup_varsMap _ nonempty]
  · rw [p.received_readable fresh, content]

/-! ## The request reaches the server -/

/-- The client is sending the request, or it waits for the response. -/
inductive Requesting (setup : Setup) (head : Bytes) (x : Sender) (sock : Socket) : Prop
  | sends (events : x.events = ⟨false, true⟩) (emitting :
      (UwsgiRequest.messageClass setup.order.list).Emitting head setup.content x.request sock)
  | waits (events : x.events = ⟨true, false⟩)

/-- The server reads the packet, of which `late` has not arrived, or its handler got it. -/
inductive Serving (p : Packet) (late : Bytes) (x : Server) (active : Bool) (sock : Socket) : Prop
  | reads (events : x.events = ⟨true, false⟩) (served : x.served = [])
      (asks : ∀ call ∈ sock.reads, call.len ≠ 0)
      (place : active = true → x.task.request = {} ∧ sock.incoming ++ late = p.bytes ++ [] ∨
        p.Reading {} [] x.task.request (sock.incoming ++ late))
  | answers (events : x.events = ⟨false, true⟩) (served : x.served = [p.received {}])

/-- The request between the parties. -/
structure RequestFlows (setup : Setup) (p : Packet) (head : Bytes) (s : State) : Prop where
  sent : s.clientSocket.sent <+: p.bytes
  client : s.clientActive = true → Requesting setup head s.client s.clientSocket
  server : Serving p (p.bytes.drop s.clientSocket.sent.length) s.server s.serverActive
    s.serverSocket

variable {p : Packet} {head late : Bytes}

theorem Requesting.arrive {x : Sender} {sock : Socket} (requesting : Requesting setup head x sock)
    (bytes : Bytes) : Requesting setup head x (arrive sock bytes) := by
  cases requesting with
  | sends events emitting => exact .sends events (emitting.of_sent rfl rfl)
  | waits events => exact .waits events

/-- The client handles its events: it sends the next bytes of the packet or none. -/
theorem Requesting.handleEvent {x : Sender} {sock : Socket}
    (requesting : Requesting setup head x sock) (bytes : head ++ setup.content = p.bytes)
    (sent : sock.sent <+: p.bytes) :
    let o := x.handleEvent setup.handleResponse setup.order.list sock
    sock.sent <+: o.socket.sent ∧ o.socket.sent <+: p.bytes ∧
      Requesting setup head o.object o.socket := by
  cases requesting with
  | sends events emitting =>
      rcases emitting.writeData with ⟨next, later, written, sends, writing⟩
      rw [UwsgiRequest.messageClass_writeData] at written
      rw [Sender.handleEvent_write events written]
      refine ⟨sends.sent, bytes ▸ MessageClass.writing_sent writing, ?_⟩
      dsimp only
      split
      · exact .waits rfl
      · exact .sends events (.inr writing)
  | waits events =>
      rw [Sender.handleEvent_read sock events]
      rcases Sender.handleRead_events setup.handleResponse x sock with ⟨same, socket⟩
      dsimp only
      rw [socket, (x.response.readData_receives sock).sent]
      exact ⟨List.prefix_refl _, sent, .waits (same.trans events)⟩

/-- What arrives was in flight. -/
theorem Serving.arrive {x : Server} {active : Bool} {sock : Socket} {bytes rest : Bytes}
    (serving : Serving p late x active sock) (same : bytes ++ rest = late) :
    Serving p rest x active (arrive sock bytes) := by
  cases serving with
  | reads events served asks place =>
      refine .reads events served asks fun running => ?_
      rw [Exchange.arrive, List.append_assoc, same]
      exact place running
  | answers events served => exact .answers events served

/-- The server reads while the packet is in flight. -/
theorem Serving.read {x : Server} {active : Bool} {sock : Socket}
    (serving : Serving p late x active sock) (running : active = true)
    (events : x.events = ⟨true, false⟩) :
    p.ProceedsInFlight {} [] late (x.task.request.readData sock) := by
  cases serving with
  | reads _ _ asks place =>
      exact Packet.readData_inFlight UwsgiRequest.fresh_default (place running) asks
  | answers other => cases events.symm.trans other

/-- A request that is complete is the one that was sent. -/
theorem Serving.read_whole {x : Server} {active : Bool} {sock : Socket}
    (serving : Serving p late x active sock) (running : active = true)
    (events : x.events = ⟨true, false⟩)
    (ok : (x.task.request.readData sock).result = .ok ())
    (done : (x.task.request.readData sock).object.state = .done) :
    (x.task.request.readData sock).object = p.received {} :=
  ((serving.read running events).reading ok).eq_received done

/-- The server handles its events. -/
theorem Serving.handleEvent {x : Server} {active : Bool} {sock : Socket}
    (serving : Serving p late x active sock) (running : active = true) :
    let o := x.handleEvent setup.service setup.order.list sock
    Serving p late o.object (goesOn o.result) o.socket := by
  cases serving with
  | reads events served asks place =>
      have before : Serving p late x active sock := .reads events served asks place
      have proceeds := before.read running events
      rcases Server.handleEvent_read sock events with
        ⟨result, task, stops, equal⟩ | ⟨ok, _, equal⟩ | ⟨ok, done, equal⟩
      · rw [equal]
        refine .reads events served proceeds.asks fun running => ?_
        cases stops.symm.trans running
      · rw [equal]
        exact .reads events served proceeds.asks fun _ => .inr (proceeds.reading ok)
      · rw [equal, before.read_whole running events ok done, served]
        exact .answers rfl rfl
  | answers events served =>
      rcases Server.handleEvent_write sock events with ⟨result, task, equal, _⟩
      rw [equal]
      exact .answers events served

theorem RequestFlows.step {s next : State} {party : Party}
    (flows : RequestFlows setup p head s) (bytes : head ++ setup.content = p.bytes)
    (moves : step setup party s = some next) : RequestFlows setup p head next := by
  cases party with
  | client =>
      rw [Exchange.step] at moves
      split at moves
      · next active =>
          cases moves
          rcases (flows.client active).handleEvent bytes flows.sent with
            ⟨grows, inside, requesting⟩
          exact ⟨inside, fun _ => requesting, flows.server.arrive (newlySent_late grows inside)⟩
      · cases moves
  | server =>
      rw [Exchange.step] at moves
      split at moves
      · next active =>
          cases moves
          refine ⟨flows.sent, fun running => (flows.client running).arrive _, ?_⟩
          exact flows.server.handleEvent active
      · cases moves

theorem Carried.flows_init {sent : UwsgiRequest} (carried : Carried setup p sent) :
    RequestFlows setup p sent.dataBuffer.readable (system setup).init := by
  rcases setup.clientNew with ⟨_, nothing, _⟩
  rcases setup.serverNew with ⟨empty, _, unread⟩
  have composed := setup.composed
  refine ⟨?_, fun _ => .sends rfl (.inl ⟨?_, nothing, setup.clientWritable⟩), ?_⟩
  · change setup.clientSocket.sent <+: p.bytes
    rw [nothing]
    exact List.nil_prefix
  · exact ⟨composed.state, composed.data, composed.ok, composed.gptr, composed.readable, _,
      carried.prepared, rfl⟩
  · refine .reads rfl rfl ?_ fun _ => .inl ⟨rfl, ?_⟩
    · change ∀ call ∈ setup.serverSocket.reads, _
      rw [unread]
      exact List.forall_mem_nil _
    · change setup.serverSocket.incoming ++ p.bytes.drop setup.clientSocket.sent.length = _
      rw [empty, nothing, List.append_nil]
      rfl

theorem Carried.flows {sent : UwsgiRequest} (carried : Carried setup p sent) {s : State}
    (reachable : (system setup).Reachable s) :
    RequestFlows setup p sent.dataBuffer.readable s :=
  System.Reachable.invariant (RequestFlows setup p sent.dataBuffer.readable) carried.flows_init
    (fun _ flows moves => flows.step carried.bytes moves) reachable

theorem sampleRequest_representable : UwsgiRequest.sampleRequest.Representable [1, 2, 3] where
  fits := by decide
  small := by decide
  honest bare := by cases bare

/-- The client sends in pieces of ten bytes.  The server reads the packet header and then pieces
of seven bytes. -/
def sampleSetup (service : UwsgiRequest → HttpResponse) : Setup where
  request := UwsgiRequest.sampleRequest
  content := [1, 2, 3]
  service := service
  handleResponse _ := true
  order := entriesOrder
  clientSocket := { arrivals := fun _ => .deliver 45, acceptances := fun _ => .accept 10 }
  serverSocket := { arrivals := fun _ => .deliver 7, acceptances := fun _ => .accept 40 }
  composed := UwsgiRequest.sampleRequest_composed
  new := rfl
  representable := sampleRequest_representable
  clientNew := ⟨rfl, rfl, rfl⟩
  serverNew := ⟨rfl, rfl, rfl⟩
  clientWritable _ := .inr ⟨10, rfl⟩
  serverWritable _ := .inr ⟨40, rfl⟩

/-- The parties take turns until the handler of the server has the request. -/
def requestRun : List Party :=
  [.client, .server, .client, .server, .client, .server, .client, .server, .server]

end LibTasks.Net.Exchange

import LibTasks.Net.ThriftHandlers
import LibTasks.Net.UwsgiRequest

/-!
# The request that a handler sees

A handler gets at the request through `request()`, which is `m_request` of the processor:
the object into which `uwsgi_task::handle_event` reads one packet after the other, and which
it clears as soon as `handle_request` has returned (`tasks/net/uwsgi_task.cpp`,
`include/tasks/net/uwsgi_thrift_async_handler.h`).  Here this object is added to the system
of the processor, its workers and its handlers.
-/

namespace LibTasks.Net.ThriftProcessor

open LibTasks.Foundation LibTasks.Tools

/-! ## The system with the request -/

/-- What a handler can ask of the request. -/
inductive Query where
  | var (key : Bytes)
  | contentLength
  /-- The bytes from `content_p()` on. -/
  | content
  deriving DecidableEq

inductive Answer where
  | bytes (b : Bytes)
  | number (n : Nat)
  deriving DecidableEq

def Query.answer (request : UwsgiRequest) : Query → Answer
  | .var key => .bytes (request.var key)
  | .contentLength => .number request.contentLength
  | .content => .bytes request.contentBuffer.readable

/-- What the handler of a request has seen. -/
structure Seen where
  request : Nat
  query : Query
  answer : Answer
  deriving DecidableEq

/-- Bytes of the content are decoded as the arguments. -/
def decode (request : UwsgiRequest) (count : Nat) : UwsgiRequest :=
  { request with toHttpBase := (request.toHttpBase.read count).2 }

structure DataState where
  core : State := {}
  /-- `m_request` -/
  request : UwsgiRequest := {}
  /-- `handle_event` has called `handle_request`; `m_request.clear()` is to come. -/
  clearing : Bool := false
  /-- The packets of the requests, as they were received. -/
  received : Nat → UwsgiRequest := fun _ => {}
  /-- How many bytes of their content were decoded as the arguments. -/
  decoded : Nat → Nat := fun _ => 0
  seen : List Seen := []

namespace DataState

/-- What a handler is to see: the packet as it was received, where the bytes that were decoded
as the arguments have been read. -/
def meant (d : DataState) (r : Nat) : UwsgiRequest := decode (d.received r) (d.decoded r)

end DataState

inductive DataAction where
  /-- A step that does not concern the request. -/
  | core (action : Action)
  /-- `read_data` in the thread of a worker, and what thrift will make of the packet. -/
  | read (i : Nat) (sock : Socket) (seqid : Int) (valid : Bool)
  /-- `m_handler.reset` -/
  | reset (i : Nat)
  /-- Thrift decodes the message, and reads so many bytes of the content. -/
  | decode (i count : Nat)
  /-- `m_request.clear()` -/
  | clear (i : Nat)
  /-- The handler of a request looks at it. -/
  | look (r : Nat) (query : Query)

/-- The steps that do not concern the request.  A worker goes on behind `handle_request` when
it has cleared the request. -/
def isCore (d : DataState) : Action → Bool
  | .packet .. => false
  | .more i | .fail i => (d.core.threads i).point != .reading
  | .worker i =>
      match (d.core.threads i).point with
      | .reset .. | .parse .. => false
      | .handled _ => !d.clearing
      | _ => true
  | _ => true

/-- How `handle_event` goes on after `read_data`. -/
def afterRead (i : Nat) (seqid : Int) (valid : Bool) (o : Outcome UwsgiRequest) : Option Action :=
  match o.result with
  | .error (.fault _) => none
  | .error (.exception _) => some (.fail i)
  | .ok () =>
      if o.object.done then
        if o.object.uwsgiHeader.modifier1 = uwsgiVars then some (.packet i seqid valid)
        else some (.fail i)
      else some (.more i)

/-- `handle_request` is called for the packet. -/
def Action.isPacket : Action → Bool
  | .packet .. => true
  | _ => false

def dataStep (cfg : Config) : DataAction → DataState → Option DataState
  | .core action, d =>
      if isCore d action then (step cfg action d.core).map fun core => { d with core } else none
  | .read i sock seqid valid, d =>
      let o := d.request.readData sock
      match afterRead i seqid valid o with
      | none => none
      | some action =>
          if isAt cfg d.core i .reading then
            (step cfg action d.core).map fun core =>
              { d with core, request := o.object, clearing := action.isPacket }
          else none
  | .reset i, d =>
      match (d.core.threads i).point with
      | .reset .. => (step cfg (.worker i) d.core).map fun core =>
          { d with core, received := Function.update d.received d.core.count d.request }
      | _ => none
  | .decode i count, d =>
      match (d.core.threads i).point with
      | .parse r _ => (step cfg (.worker i) d.core).map fun core =>
          { d with
            core, request := decode d.request count
            decoded := Function.update d.decoded r count }
      | _ => none
  | .clear i, d =>
      match (d.core.threads i).point with
      | .handled _ =>
          if d.clearing then some { d with request := d.request.clear, clearing := false }
          else none
      | _ => none
  | .look r query, d =>
      if d.core.requests r = .serving then
        some { d with seen := d.seen ++ [⟨r, query, query.answer d.request⟩] }
      else none

def dataSystem (cfg : Config) : System DataState DataAction where
  init := {}
  step := dataStep cfg

/-! ## Where a packet comes from -/

variable {cfg : Config} {s next : State} {action : Action}

theorem point_setThread (s : State) (i j : Nat) (x : Thread) :
    ((s.setThread i x).threads j).point = if j = i then x.point else (s.threads j).point := by
  rw [State.setThread]
  dsimp only
  rw [Function.update_apply]
  split <;> rfl

section Reset

variable {j : Nat} {seqid : Int} {valid : Bool}

/-- A thread that goes on to another point is not at `m_handler.reset` unless it was. -/
theorem reset_of_setThread {t : State} {i : Nat} {x : Thread} (same : t.threads = s.threads)
    (point : x.point = .reset seqid valid → (s.threads i).point = .reset seqid valid)
    (here : ((t.setThread i x).threads j).point = .reset seqid valid) :
    (s.threads j).point = .reset seqid valid := by
  rw [point_setThread, same] at here
  split at here
  next own => exact own ▸ point here
  next => exact here

theorem reset_of_workerStep {i : Nat} (stepped : s.workerStep i = some next)
    (here : (next.threads j).point = .reset seqid valid) :
    (s.threads j).point = .reset seqid valid := by
  simp only [State.workerStep] at stepped
  split at stepped
  case h_2 f rest _ =>
    cases stepped
    rw [State.exec_threads] at here
    exact reset_of_setThread rfl (fun same => by cases same) here
  case h_10 | h_11 =>
    split at stepped
    · cases stepped
      exact reset_of_setThread rfl (fun same => by cases same) here
    · cases stepped
      exact reset_of_setThread rfl (fun same => by cases same) here
  all_goals first
    | cases stepped; done
    | cases stepped
      exact reset_of_setThread rfl (fun same => by cases same) here

theorem reset_of_callStep {i : Nat} (stepped : s.callStep cfg i = some next)
    (here : (next.threads j).point = .reset seqid valid) :
    (s.threads j).point = .reset seqid valid := by
  simp only [State.callStep] at stepped
  split at stepped
  · cases stepped
  · split at stepped
    · cases stepped
      rw [State.exec_threads] at here
      exact reset_of_setThread rfl (by exact id) here
    · cases stepped
      exact reset_of_setThread rfl (by exact id) here
  · cases stepped
    change ((s.setThread i _).threads j).point = _ at here
    exact reset_of_setThread rfl (by exact id) here

theorem threads_of_finishes {r : Nat} (finishes : Finishes cfg s r next) :
    next.threads = s.threads := by
  cases finishes <;> rfl

/-- A thread gets to `m_handler.reset` with a packet. -/
theorem reset_of_step (stepped : (system cfg).step action s = some next)
    (here : (next.threads j).point = .reset seqid valid) :
    (s.threads j).point = .reset seqid valid ∨ action = .packet j seqid valid := by
  change step cfg action s = some next at stepped
  cases action with
  | worker i =>
      simp only [step] at stepped
      split at stepped
      · exact .inl (reset_of_workerStep stepped here)
      · cases stepped
  | call i => exact .inl (reset_of_callStep stepped here)
  | request r =>
      rw [threads_of_finishes (finishes_of_requestStep stepped)] at here
      exact .inl here
  | packet i =>
      simp only [step] at stepped
      split at stepped
      · cases stepped
        rw [point_setThread] at here
        split at here
        next own =>
          cases here
          exact .inr (own ▸ rfl)
        next => exact .inl here
      · cases stepped
  | handle i =>
      simp only [step] at stepped
      split at stepped
      next e rest _ =>
        split at stepped
        · cases stepped
          refine .inl (reset_of_setThread rfl ?_ here)
          intro other
          cases e <;> cases other
        · cases stepped
      next => cases stepped
  | fire i | fireTimer i | more i | fail i | enterLoop i | leaveLoop i | written i | drain i =>
      simp only [step] at stepped
      split at stepped
      · cases stepped
        first
          | exact .inl (reset_of_setThread rfl (fun same => by cases same) here)
          | exact .inl (reset_of_setThread rfl (by exact id) here)
      · cases stepped
  | demote i | promote i =>
      simp only [step] at stepped
      split at stepped
      · cases stepped
        exact .inl here
      · cases stepped

end Reset

/-! ## The invariant -/

/-- No handler is between `service` and `finish()`. -/
def NoneServing (s : State) : Prop := ∀ r, s.requests r ≠ .serving

/-- What holds where a thread is on its way to `service`. -/
def PointHolds (d : DataState) : Point → Prop
  | .reset .. => NoneServing d.core
  | .parse r _ => NoneServing d.core ∧ r < d.core.count ∧ d.request = d.received r ∧
      ∀ x ∈ d.seen, x.request ≠ r
  | .disable r | .serve r => NoneServing d.core ∧ r < d.core.count ∧ d.request = d.meant r
  | _ => True

structure DataInv (d : DataState) : Prop where
  located : ∃ place, Located d.core place
  points : ∀ i, PointHolds d (d.core.threads i).point
  serving : ∀ r, d.core.requests r = .serving → r < d.core.count ∧ d.request = d.meant r
  seen : ∀ x ∈ d.seen, x.request < d.core.count ∧ x.answer = x.query.answer (d.meant x.request)

variable {d : DataState} {i : Nat} {x : Thread}

theorem pointHolds_of_not_handles {p : Point} (other : p.handles = false) : PointHolds d p := by
  cases p with
  | away | loop | drain => trivial
  | _ => cases other

/-- Where a handler is at work, no thread is on its way to `service`. -/
theorem PointHolds.of_serving {p : Point} (holds : PointHolds d p) {r : Nat}
    (serving : d.core.requests r = .serving) (other : DataState) : PointHolds other p := by
  cases p with
  | reset => exact absurd serving (holds r)
  | parse | disable | serve => exact absurd serving (holds.1 r)
  | _ => trivial

/-- Steps that call no handler leave the threads on their way. -/
theorem PointHolds.mono {p : Point} (holds : PointHolds d p)
    (requests : ∀ r, next.requests r = .serving → d.core.requests r = .serving)
    (count : next.count = d.core.count) : PointHolds { d with core := next } p := by
  have none (before : NoneServing d.core) : NoneServing next :=
    fun r here => before r (requests r here)
  cases p with
  | reset => exact none holds
  | parse r valid => exact ⟨none holds.1, count ▸ holds.2.1, holds.2.2⟩
  | disable r | serve r => exact ⟨none holds.1, count ▸ holds.2.1, holds.2.2⟩
  | _ => trivial

/-- A step that calls no handler and does not touch the request. -/
theorem DataInv.goesOn (inv : DataInv d) (moves : Moves cfg d.core action next)
    (requests : ∀ r, next.requests r = .serving → d.core.requests r = .serving)
    (count : next.count = d.core.count)
    (points : ∀ j, (next.threads j).point = (d.core.threads j).point ∨
      PointHolds { d with core := next } (next.threads j).point) :
    DataInv { d with core := next } := by
  have ⟨place, located⟩ := inv.located
  refine ⟨located_of_moves located moves, fun j => ?_, fun r here => ?_, fun y member => ?_⟩
  · rcases points j with same | holds
    · change PointHolds { d with core := next } (next.threads j).point
      rw [same]
      exact (inv.points j).mono requests count
    · exact holds
  · have ⟨bound, same⟩ := inv.serving r (requests r here)
    exact ⟨count ▸ bound, same⟩
  · have ⟨bound, same⟩ := inv.seen y member
    exact ⟨count ▸ bound, same⟩

theorem points_of_update {P : Point → Prop} (threads : next.threads = Function.update s.threads i x)
    (own : x.point = (s.threads i).point ∨ P x.point) (j : Nat) :
    (next.threads j).point = (s.threads j).point ∨ P (next.threads j).point := by
  rw [threads, Function.update_apply]
  split
  next same =>
    subst same
    exact own
  next => exact .inl rfl

theorem serving_of_finishes {r v : Nat} (finishes : Finishes cfg s r next)
    (here : next.requests v = .serving) : s.requests v = .serving := by
  have other {y : Request} (ends : y ≠ .serving)
      (there : Function.update s.requests r y v = .serving) : s.requests v = .serving := by
    rw [Function.update_apply] at there
    split at there
    · exact absurd there ends
    · exact there
  cases finishes with
  | call | test | reply | error | check | choose | push | enable => exact other (by simp) here

theorem count_of_finishes {r : Nat} (finishes : Finishes cfg s r next) : next.count = s.count := by
  cases finishes <;> rfl

/-- The handler of a request is called. -/
theorem DataInv.serve (inv : DataInv d) {r : Nat} (here : (d.core.threads i).point = .serve r)
    (moves : Moves cfg d.core action ((d.core.setRequest r .serving).setThread i
      { d.core.threads i with point := .handled true })) :
    DataInv { d with
      core := (d.core.setRequest r .serving).setThread i
        { d.core.threads i with point := .handled true } } := by
  have ⟨place, located⟩ := inv.located
  have ready := inv.points i
  rw [here] at ready
  refine ⟨located_of_moves located moves, ?_, ?_, inv.seen⟩
  · apply (Function.forall_update_iff d.core.threads fun _ y => PointHolds _ y.point).mpr
    refine ⟨trivial, fun j other => pointHolds_of_not_handles ?_⟩
    exact located.not_handles (by rw [here]; rfl) other
  · apply (Function.forall_update_iff d.core.requests fun v y => y = .serving →
      v < d.core.count ∧ d.request = d.meant v).mpr
    exact ⟨fun _ => ready.2, fun v _ serving => absurd serving (ready.1 v)⟩

theorem DataInv.core (inv : DataInv d) (plain : isCore d action = true)
    (stepped : (system cfg).step action d.core = some next) : DataInv { d with core := next } := by
  have moves := moves_of_step stepped
  have before := moves
  cases moves with
  | lead => exact inv.goesOn before (fun _ here => here) rfl fun _ => .inl rfl
  | @goto _ i p idle isPlain =>
      refine inv.goesOn before (fun _ here => here) rfl (points_of_update rfl ?_)
      cases p with
      | reset seqid valid =>
          -- The packet was read by a step of its own.
          have arrived : ((d.core.setThread i { d.core.threads i with
              point := .reset seqid valid }).threads i).point = .reset seqid valid := by
            rw [point_setThread, if_pos rfl]
          rcases reset_of_step stepped arrived with same | packet
          · exact .inl same.symm
          · rw [packet] at plain
            cases plain
      | parse | disable | serve | drain => cases isPlain
      | _ => exact .inr trivial
  | fire | fireTimer | notDirect | push =>
      exact inv.goesOn before (fun _ here => here) rfl (points_of_update rfl (.inl rfl))
  | drain => exact inv.goesOn before (fun _ here => here) rfl (points_of_update rfl (.inr trivial))
  | execFront =>
      apply inv.goesOn before
      · exact fun r here => by rwa [State.exec_requests] at here
      · exact State.exec_count ..
      · exact points_of_update (State.exec_threads ..) (.inr trivial)
  | direct =>
      apply inv.goesOn before
      · exact fun r here => by rwa [State.exec_requests] at here
      · exact State.exec_count ..
      · exact points_of_update (State.exec_threads ..) (.inl rfl)
  | @handle i e rest =>
      refine inv.goesOn before (fun _ here => here) rfl (points_of_update rfl (.inr ?_))
      cases e <;> trivial
  | fail | rearm | dispose | retry =>
      exact inv.goesOn before (fun _ here => here) rfl (points_of_update rfl (.inr trivial))
  | reset here | parse here | refuse here =>
      simp only [isCore, here] at plain
      cases plain
  | @disable i r here =>
      have ready := inv.points i
      rw [here] at ready
      exact inv.goesOn before (fun _ here => here) rfl (points_of_update rfl (.inr ready))
  | serve here => exact inv.serve here before
  | request finishes =>
      refine inv.goesOn before (fun _ => serving_of_finishes finishes)
        (count_of_finishes finishes) fun j => .inl ?_
      rw [threads_of_finishes finishes]

/-! ## The steps that touch the request -/

/-- Only the thread `i` handles an event. -/
theorem DataInv.alone (inv : DataInv d) (handles : (d.core.threads i).point.handles = true)
    {j : Nat} (other : j ≠ i) : (d.core.threads j).point.handles = false :=
  have ⟨_, located⟩ := inv.located
  located.not_handles handles other

/-- A step of the thread that handles an event, while no handler is at work. -/
theorem DataInv.handles {e : DataState} (inv : DataInv d)
    (handles : (d.core.threads i).point.handles = true)
    (stepped : (system cfg).step action d.core = some e.core)
    (threads : e.core.threads = Function.update d.core.threads i x)
    (requests : e.core.requests = d.core.requests) (unserved : NoneServing d.core)
    (own : PointHolds e x.point)
    (seen : ∀ y ∈ e.seen, y.request < e.core.count ∧
      y.answer = y.query.answer (e.meant y.request)) : DataInv e := by
  have ⟨place, located⟩ := inv.located
  refine ⟨located_of_moves located (moves_of_step stepped), ?_, fun r here => ?_, seen⟩
  · rw [threads]
    apply (Function.forall_update_iff d.core.threads fun _ y => PointHolds e y.point).mpr
    exact ⟨own, fun j other => pointHolds_of_not_handles (inv.alone handles other)⟩
  · rw [requests] at here
    exact absurd here (unserved r)

/-- How a thread goes on after `read_data`. -/
theorem step_afterRead {seqid : Int} {valid : Bool} {o : Outcome UwsgiRequest}
    (goes : afterRead i seqid valid o = some action) (here : isAt cfg s i .reading)
    (stepped : (system cfg).step action s = some next) :
    next.requests = s.requests ∧ next.count = s.count ∧
      ∃ p, next.threads = Function.update s.threads i { s.threads i with point := p } ∧
        ((∃ cont, p = .handled cont) ∨ p = .reset seqid valid) := by
  have fails (fail : action = .fail i) : next.requests = s.requests ∧ next.count = s.count ∧
      ∃ p, next.threads = Function.update s.threads i { s.threads i with point := p } ∧
        ((∃ cont, p = .handled cont) ∨ p = .reset seqid valid) := by
    subst fail
    simp only [system, step, if_pos (Or.inl here)] at stepped
    cases stepped
    exact ⟨rfl, rfl, _, rfl, .inl ⟨_, rfl⟩⟩
  rw [afterRead] at goes
  split at goes
  · cases goes
  · cases goes
    exact fails rfl
  · split at goes
    · split at goes
      · cases goes
        simp only [system, step, if_pos here] at stepped
        cases stepped
        exact ⟨rfl, rfl, _, rfl, .inr rfl⟩
      · cases goes
        exact fails rfl
    · cases goes
      simp only [system, step, if_pos (Or.inl here)] at stepped
      cases stepped
      exact ⟨rfl, rfl, _, rfl, .inl ⟨_, rfl⟩⟩

theorem DataInv.read (inv : DataInv d) {seqid : Int} {valid clearing : Bool}
    {o : Outcome UwsgiRequest} (unserved : NoneServing d.core)
    (goes : afterRead i seqid valid o = some action) (here : isAt cfg d.core i .reading)
    (stepped : (system cfg).step action d.core = some next) :
    DataInv { d with core := next, request := o.object, clearing } := by
  have ⟨requests, count, p, threads, point⟩ := step_afterRead goes here stepped
  apply inv.handles (e := { d with core := next, request := o.object, clearing })
    (by rw [here.2.2]; rfl) stepped threads requests unserved
  · rcases point with ⟨cont, rfl⟩ | rfl
    · trivial
    · intro r serving
      rw [requests] at serving
      exact unserved r serving
  · intro y member
    have ⟨bound, same⟩ := inv.seen y member
    exact ⟨count ▸ bound, same⟩

/-- A request gets its number. -/
theorem DataInv.reset (inv : DataInv d) {seqid : Int} {valid : Bool}
    (here : (d.core.threads i).point = .reset seqid valid)
    (stepped : (system cfg).step (.worker i) d.core = some next) :
    DataInv { d with
      core := next, received := Function.update d.received d.core.count d.request } := by
  have unserved := inv.points i
  rw [here] at unserved
  have own : d.request = Function.update d.received d.core.count d.request d.core.count := by
    rw [Function.update_self]
  have known (y : Seen) (member : y ∈ d.seen) : y.request < d.core.count + 1 ∧
      y.answer = y.query.answer (ThriftProcessor.decode
        (Function.update d.received d.core.count d.request y.request)
        (d.decoded y.request)) := by
    have ⟨bound, same⟩ := inv.seen y member
    rw [Function.update_of_ne (Nat.ne_of_lt bound)]
    exact ⟨Nat.lt_succ_of_lt bound, same⟩
  have moved := stepped
  simp only [system, step, State.workerStep, here] at moved
  split at moved
  next =>
    cases moved
    exact inv.handles (by rw [here]; rfl) stepped rfl rfl unserved
      ⟨unserved, Nat.lt_succ_self _, own, fun y member => Nat.ne_of_lt (inv.seen y member).1⟩ known
  next => cases moved

/-- Bytes of the content are decoded. -/
theorem DataInv.decode (inv : DataInv d) {r : Nat} {valid : Bool}
    (here : (d.core.threads i).point = .parse r valid) (count : Nat)
    (stepped : (system cfg).step (.worker i) d.core = some next) :
    DataInv { d with
      core := next, request := ThriftProcessor.decode d.request count
      decoded := Function.update d.decoded r count } := by
  have ready := inv.points i
  rw [here] at ready
  have ⟨unserved, bound, same, unseen⟩ := ready
  have own : ThriftProcessor.decode d.request count =
      ThriftProcessor.decode (d.received r) (Function.update d.decoded r count r) := by
    rw [Function.update_self, same]
  have known (y : Seen) (member : y ∈ d.seen) : y.request < d.core.count ∧
      y.answer = y.query.answer (ThriftProcessor.decode (d.received y.request)
        (Function.update d.decoded r count y.request)) := by
    rw [Function.update_of_ne (unseen y member)]
    exact inv.seen y member
  have moved := stepped
  simp only [system, step, State.workerStep, here] at moved
  split at moved
  next =>
    cases valid with
    | true =>
        cases moved
        exact inv.handles (by rw [here]; rfl) stepped rfl rfl unserved ⟨unserved, bound, own⟩ known
    | false =>
        cases moved
        exact inv.handles (by rw [here]; rfl) stepped rfl rfl unserved trivial known
  next => cases moved

theorem DataInv.clear (inv : DataInv d) {cont clearing : Bool}
    (here : (d.core.threads i).point = .handled cont) (unserved : NoneServing d.core) :
    DataInv { d with request := d.request.clear, clearing } where
  located := inv.located
  points j := by
    by_cases same : j = i
    · subst same
      change PointHolds _ (d.core.threads j).point
      rw [here]
      trivial
    · exact pointHolds_of_not_handles (inv.alone (by rw [here]; rfl) same)
  serving r serves := absurd serves (unserved r)
  seen := inv.seen

theorem DataInv.look (inv : DataInv d) {r : Nat} (serving : d.core.requests r = .serving)
    (query : Query) :
    DataInv { d with seen := d.seen ++ [⟨r, query, query.answer d.request⟩] } where
  located := inv.located
  points j := (inv.points j).of_serving serving _
  serving := inv.serving
  seen y member := by
    rcases List.mem_append.mp member with earlier | last
    · exact inv.seen y earlier
    · cases List.mem_singleton.mp last
      have ⟨bound, same⟩ := inv.serving r serving
      exact ⟨bound, congrArg (Query.answer · query) same⟩

/-! ## Whole runs -/

/-- No handler is between `service` and `finish()`, tested for the requests so far. -/
def State.unserved (s : State) : Bool :=
  (List.range s.count).all fun r => s.requests r != .serving

/-- The request is cleared, and the next packet is read, only where no handler is between
`service` and `finish()`. -/
def leavesRequest : DataAction → DataState → Bool
  | .read .., d | .clear _, d => d.core.unserved
  | _, _ => true

theorem DataInv.noneServing (inv : DataInv d) (unserved : d.core.unserved = true) :
    NoneServing d.core := by
  intro r serving
  simp only [State.unserved, List.all_eq_true, List.mem_range, bne_iff_ne] at unserved
  exact unserved r (inv.serving r serving).1 serving

theorem DataInv.step (inv : DataInv d) {act : DataAction} {e : DataState}
    (leaves : leavesRequest act d = true) (stepped : (dataSystem cfg).step act d = some e) :
    DataInv e := by
  change dataStep cfg act d = some e at stepped
  cases act with
  | core action =>
      simp only [dataStep] at stepped
      split at stepped
      next plain =>
        have ⟨core, moved, same⟩ := Option.map_eq_some_iff.mp stepped
        exact same ▸ inv.core plain moved
      next => cases stepped
  | read i sock seqid valid =>
      simp only [dataStep] at stepped
      split at stepped
      next => cases stepped
      next action goes =>
        split at stepped
        next here =>
          have ⟨core, moved, same⟩ := Option.map_eq_some_iff.mp stepped
          exact same ▸ inv.read (inv.noneServing leaves) goes here moved
        next => cases stepped
  | reset i =>
      simp only [dataStep] at stepped
      split at stepped
      next here =>
        have ⟨core, moved, same⟩ := Option.map_eq_some_iff.mp stepped
        exact same ▸ inv.reset here moved
      next => cases stepped
  | decode i count =>
      simp only [dataStep] at stepped
      split at stepped
      next here =>
        have ⟨core, moved, same⟩ := Option.map_eq_some_iff.mp stepped
        exact same ▸ inv.decode here count moved
      next => cases stepped
  | clear i =>
      simp only [dataStep] at stepped
      split at stepped
      next here =>
        split at stepped
        · cases stepped
          exact inv.clear here (inv.noneServing leaves)
        · cases stepped
      next => cases stepped
  | look r query =>
      simp only [dataStep] at stepped
      split at stepped
      next serving =>
        cases stepped
        exact inv.look serving query
      next => cases stepped

theorem dataInv_init (cfg : Config) : DataInv (dataSystem cfg).init where
  located := (inv_init cfg).located
  points _ := trivial
  serving := nofun
  seen := nofun

/-- Every handler has seen the request as it was received. -/
def SeenAsReceived (d : DataState) : Prop :=
  ∀ x ∈ d.seen, x.answer = x.query.answer (d.meant x.request)

/-- A packet with the variable `A` and one byte of content. -/
def smallPacket : Socket where
  incoming := UwsgiPacketHeader.encode { datasize := 25 } ++
    ([1, 0, 65, 1, 0, 98] ++ ([14, 0] ++ text "CONTENT_LENGTH" ++ [1, 0, 49]) ++ [122])
  arrivals := fun _ => .deliver 64

/-- Worker 0 reads the packet and calls the handler. -/
def handlerCalled : List DataAction :=
  [.core (.promote 0), .core (.enterLoop 0), .core (.fire 0), .core (.leaveLoop 0),
    .core (.handle 0), .read 0 smallPacket 7 true, .reset 0, .decode 0 0, .core (.worker 0),
    .core (.worker 0)]

/-- The handler looks at the request before it calls `finish()`, and the request is cleared
after that. -/
def finishesFirst : List DataAction :=
  handlerCalled ++ [.look 0 (.var [65]), .look 0 .content, .core (.request 0), .clear 0]

end LibTasks.Net.ThriftProcessor

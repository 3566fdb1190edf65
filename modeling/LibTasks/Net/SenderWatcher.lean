import LibTasks.Net.HttpSender

/-!
# `ev_io_set` and `close` on the watcher of a sender

The functors of the sender are executed by one worker only, the executor: the leader in
single loop mode, the assigned worker in multi loop mode.  `update_watcher` stops the
watcher inside of its functor, so it is safe in every interleaving.  `send` is not: what
it does to the watcher and to the socket is done in the calling thread, and
`stop_watcher` only queues a functor there unless this is the thread of the executor.
-/

namespace LibTasks.Net.HttpSender

open LibTasks.Foundation

/-! ## Who touches the watcher -/

/-- A functor of the sender. -/
def Func.touches : Func → Bool
  | .other => false
  | _ => true

def Running.touches : Running → Bool
  | .fresh f => f.touches
  | _ => true

def Call.touches : Call → Bool
  | .direct r => r.touches
  | _ => false

namespace Point

/-- Executing functors or callbacks of the sender. -/
def touches : Point → Bool
  | .fired _ | .addEvent _ => true
  | .drain running rest => running.any Running.touches || rest.any Func.touches
  | _ => false

def inLoop : Point → Bool
  | .loop | .fired _ | .addEvent _ | .drain .. => true
  | _ => false

/-- In `exec_event_handler` for an event of the sender. -/
def handles : Point → Bool
  | .handling _ | .written | .clearing | .handled _ => true
  | _ => false

/-- A call of `exec_in_worker_ctx` or `send` may be in progress. -/
def free : Point → Bool
  | .loop | .fired _ | .addEvent _ | .drain none _ => false
  | .drain (some r) _ => !r.touches
  | _ => true

end Point

/-- The worker that executes the functors of the sender. -/
def executor (cfg : Config) (s : State) : Option Nat :=
  match cfg.mode with
  | .singleLoop => s.leader
  | .multiLoop => s.sender.assigned

/-- Where `ev_io_set` or `close` comes next, the watcher is not active. -/
def RunOk (active : Bool) : Running → Prop
  | .updateSet _ | .delete => active = false
  | _ => True

/-- What holds of a thread. -/
structure ThreadOk (cfg : Config) (executor : Option Nat) (active : Bool) (u : Nat)
    (x : Thread) : Prop where
  inLoop : cfg.mode = .singleLoop → x.point.inLoop = true → executor = some u
  point : x.point.touches = true → executor = some u
  call : x.call.touches = true → executor = some u
  running : ∀ r rest, x.point = .drain (some r) rest → RunOk active r
  direct : ∀ r, x.call = .direct r → RunOk active r
  free : x.call ≠ .idle → x.point.free = true
  home : cfg.mode = .multiLoop → ∀ w f, x.call = .test w f ∨ x.call = .push w f →
    f.touches = true → executor = some w
  handler : cfg.mode = .multiLoop → x.point.handles = true ∨ x.events ≠ [] → executor = some u
  outside : cfg.numWorkers ≤ u → x.point = .away

variable {cfg : Config} {s next : State} {u : Nat}

/-! ## Functors -/

theorem runOk_of_not_touches {r : Running} (other : r.touches = false) (active : Bool) :
    RunOk active r := by
  cases r with
  | fresh => trivial
  | _ => cases other

/-- What a thread outside of `send` does to the sender. -/
structure SenderOk (x y : Sender) : Prop where
  unviolated : y.violated = false
  deleted : y.deleted = true → y.active = false
  wasDeleted : x.deleted = true → y.deleted = true
  fd : y.fd = x.fd ∨ y.deleted = true
  assigned : y.assigned = x.assigned
  initialized : y.initialized = x.initialized

theorem SenderOk.refl {x : Sender} (unviolated : x.violated = false)
    (deleted : x.deleted = true → x.active = false) : SenderOk x x :=
  ⟨unviolated, deleted, id, .inl rfl, rfl, rfl⟩

/-- What an operation of a functor does to the sender. -/
structure ExecOk (x : Sender) (r : Running) (y : Sender) (rest : Option Running) : Prop
    extends SenderOk x y where
  remains : ∀ q, rest = some q → RunOk y.active q ∧ q.touches = true
  other : r.touches = false → y = x ∧ rest = none

theorem exec_ok {x : Sender} {r : Running} (unviolated : x.violated = false)
    (deleted : x.deleted = true → x.active = false) (ok : RunOk x.active r) :
    ExecOk x r (x.exec r).1 (x.exec r).2 := by
  have same := SenderOk.refl unviolated deleted
  rw [Sender.exec]
  split
  · exact ⟨same, nofun, fun _ => ⟨rfl, rfl⟩⟩
  · next alive =>
      have started : SenderOk x { x with active := true } :=
        { same with deleted := fun gone => absurd gone alive }
      have stopped : SenderOk x { x with active := false } := { same with deleted := fun _ => rfl }
      cases r with
      | fresh f =>
          cases f with
          | start => exact ⟨started, nofun, nofun⟩
          | stop => exact ⟨stopped, nofun, nofun⟩
          | update =>
              refine ⟨same, ?_, nofun⟩
              rintro q rest
              cases rest
              split
              · exact ⟨trivial, rfl⟩
              · next inactive => exact ⟨Bool.eq_false_iff.mpr inactive, rfl⟩
          | dispose =>
              refine ⟨stopped, ?_, nofun⟩
              rintro q rest
              cases rest
              exact ⟨rfl, rfl⟩
          | other => exact ⟨same, nofun, fun _ => ⟨rfl, rfl⟩⟩
      | updateStop =>
          refine ⟨stopped, ?_, nofun⟩
          rintro q rest
          cases rest
          exact ⟨rfl, rfl⟩
      | updateSet again =>
          refine ⟨{ same with unviolated := ?_ }, ?_, nofun⟩
          · change (x.violated || x.active) = false
            rw [unviolated, ok]
            rfl
          · intro q rest
            cases again with
            | true =>
                cases rest
                exact ⟨trivial, rfl⟩
            | false => cases rest
      | updateStart => exact ⟨started, nofun, nofun⟩
      | delete =>
          refine ⟨⟨?_, fun _ => ok, fun _ => rfl, .inr rfl, rfl, rfl⟩, nofun, nofun⟩
          change (x.violated || (x.active && x.fd.isSome)) = false
          rw [unviolated, ok]
          rfl

/-! ## The invariant -/

/-- The functor may activate the watcher. -/
def Running.threat : Running → Bool
  | .fresh .start | .updateStop | .updateSet true | .updateStart => true
  | _ => false

def Call.threat : Call → Bool
  | .test _ .start | .push _ .start => true
  | .direct r => r.threat
  | _ => false

def Point.threat : Point → Bool
  | .fired _ | .addEvent _ | .handling _ | .written | .clearing | .handled true => true
  | .drain running rest => running.any Running.threat || rest.contains .start
  | _ => false

/-- The thread may cause the watcher to be activated. -/
def Thread.threat (x : Thread) : Bool := x.point.threat || x.call.threat || !x.events.isEmpty

/-- The watcher is not active, and no thread but `t` will cause it to be activated. -/
structure Rest (s : State) (t : Nat) : Prop where
  inactive : s.sender.active = false
  queues : ∀ q, Func.start ∉ s.queues q
  others : ∀ u, u ≠ t → (s.threads u).threat = false

/-- The watcher stays inactive until `send` starts it in the thread `t`. -/
def Calm (cfg : Config) (s : State) (t : Nat) : Prop :=
  executor cfg s = some t ∧ s.sender.active = false ∨ Rest s t ∨ s.sender.deleted = true

/-- `w` is the worker that the sender is assigned to, if it is. -/
def Home (cfg : Config) (s : State) (w : Nat) : Prop :=
  cfg.mode = .multiLoop → s.sender.initialized = true → s.sender.assigned = some w

/-- The functor of `stop_watcher` is going to be executed, or queued for a watcher at rest. -/
def Stopping (cfg : Config) (s : State) (t w : Nat) : Prop :=
  (executor cfg s = some t ∧ t < cfg.numWorkers ∧ w = t ∧
    ((s.threads t).call = .test w .stop ∨ (s.threads t).call = .direct (.fresh .stop))) ∨
  ((Rest s t ∨ s.sender.deleted = true) ∧
    ((s.threads t).call = .test w .stop ∨ (s.threads t).call = .push w .stop ∨
      (s.threads t).call = .direct (.fresh .stop)))

def SendOk (cfg : Config) (s : State) (t : Nat) : SendPoint → Prop
  | .close _ w => Home cfg s w ∧ s.sender.initialized = true ∧
      ((s.threads t).call = .idle ∧ Calm cfg s t ∨ Stopping cfg s t w)
  | .assign _ w => Home cfg s w ∧ (s.threads t).call = .idle ∧
      (s.sender.fd ≠ none ∨ Calm cfg s t)
  | .connect | .add => (s.threads t).call = .idle ∧ Calm cfg s t
  | .start w => (s.threads t).call = .idle ∧
      (cfg.mode = .multiLoop → s.sender.assigned = none ∨ s.sender.assigned = some w)
  | .update w => Home cfg s w ∧ (s.threads t).call = .idle
  | .clear => True

structure Inv (cfg : Config) (s : State) : Prop where
  threads : ∀ u, ThreadOk cfg (executor cfg s) s.sender.active u (s.threads u)
  queues : cfg.mode = .multiLoop → ∀ q, ∀ f ∈ s.queues q, f.touches = true →
    executor cfg s = some q
  unviolated : s.sender.violated = false
  deleted : s.sender.deleted = true → s.sender.active = false
  unassigned : cfg.mode = .singleLoop → s.sender.assigned = none
  assigned : cfg.mode = .multiLoop → s.sender.initialized = true →
    (∀ t w, s.sending ≠ some (t, .start w)) → s.sender.assigned ≠ none
  sending : ∀ t p, s.sending = some (t, p) →
    (s.threads t).point.free = true ∧ SendOk cfg s t p

/-- The threads that are not the executor have nothing to do with the watcher. -/
theorem ThreadOk.of_other {executor : Option Nat} {active : Bool} {x : Thread}
    (ok : ThreadOk cfg executor active u x) (other : executor ≠ some u) (now : Bool) :
    ThreadOk cfg executor now u x where
  inLoop := ok.inLoop
  point := ok.point
  call := ok.call
  running r rest here := by
    apply runOk_of_not_touches
    cases touches : r.touches with
    | false => rfl
    | true =>
        refine absurd (ok.point ?_) other
        simp [here, Point.touches, touches]
  direct r here := by
    apply runOk_of_not_touches
    cases touches : r.touches with
    | false => rfl
    | true =>
        refine absurd (ok.call ?_) other
        rw [here]
        exact touches
  free := ok.free
  home := ok.home
  handler := ok.handler
  outside := ok.outside

/-- The thread of the executor. -/
theorem ThreadOk.of_own {executor : Option Nat} {active : Bool} {x : Thread}
    (own : executor = some u) (bound : u < cfg.numWorkers)
    (running : ∀ r rest, x.point = .drain (some r) rest → RunOk active r)
    (idle : x.call = .idle) : ThreadOk cfg executor active u x where
  inLoop _ _ := own
  point _ := own
  call _ := own
  running := running
  direct r here := by cases idle.symm.trans here
  free busy := absurd idle busy
  home _ w f here := by
    rcases here with here | here <;> cases idle.symm.trans here
  handler _ _ := own
  outside beyond := absurd bound (Nat.not_lt.mpr beyond)

/-- The thread of a worker comes to another point. -/
theorem ThreadOk.goto {executor : Option Nat} {active : Bool} {x : Thread}
    (ok : ThreadOk cfg executor active u x) (bound : u < cfg.numWorkers) (idle : x.call = .idle)
    {p : Point} (inLoop : cfg.mode = .singleLoop → p.inLoop = true → executor = some u)
    (touches : p.touches = true → executor = some u)
    (running : ∀ r rest, p = .drain (some r) rest → RunOk active r)
    (handles : cfg.mode = .multiLoop → p.handles = true → executor = some u) :
    ThreadOk cfg executor active u { x with point := p } where
  inLoop := inLoop
  point := touches
  call := ok.call
  running := running
  direct := ok.direct
  free busy := absurd idle busy
  home := ok.home
  handler multi reason := by
    rcases reason with isHandling | events
    · exact handles multi isHandling
    · exact ok.handler multi (.inr events)
  outside beyond := absurd bound (Nat.not_lt.mpr beyond)

theorem idle_of_ready (ready : u < cfg.numWorkers ∧ s.ready u = true) :
    (s.threads u).call = .idle := by
  have both := ready.2
  simp only [State.ready, Bool.and_eq_true, beq_iff_eq] at both
  exact both.1

theorem own_of_leads (single : cfg.mode = .singleLoop) (leads : s.leads cfg u = true) :
    executor cfg s = some u := by
  simp only [State.leads, single, beq_iff_eq] at leads
  simp only [executor, single]
  exact leads

/-- Where a call is in progress, no functor of the sender is being executed. -/
theorem ThreadOk.running_of_busy {executor : Option Nat} {active : Bool} {x : Thread}
    (ok : ThreadOk cfg executor active u x) (busy : x.call ≠ .idle) (now : Bool) {r : Running}
    {rest : List Func} (here : x.point = .drain (some r) rest) : RunOk now r := by
  have isFree := ok.free busy
  rw [here] at isFree
  apply runOk_of_not_touches
  simpa [Point.free] using isFree

theorem free_of_inUserCode {p : Point} (inUserCode : p.inUserCode = true) : p.free = true := by
  cases p with
  | drain running rest =>
      cases running with
      | none => cases inUserCode
      | some r =>
          cases r with
          | fresh f =>
              cases f with
              | other => rfl
              | _ => cases inUserCode
          | _ => cases inUserCode
  | loop | fired | addEvent => cases inUserCode
  | _ => rfl

/-- `exec_in_worker_ctx` is called. -/
theorem ThreadOk.test {executor : Option Nat} {active : Bool} {x : Thread}
    (ok : ThreadOk cfg executor active u x) (free : x.point.free = true) (w : Nat) (f : Func)
    (home : cfg.mode = .multiLoop → f.touches = true → executor = some w) :
    ThreadOk cfg executor active u { x with call := .test w f } := by
  refine { ok with call := nofun, direct := nofun, free := fun _ => free, home := ?_ }
  intro multi v g reason touches
  rcases reason with reason | reason <;> cases reason
  exact home multi touches

/-- Another worker executes the functors of the sender from now on. -/
theorem ThreadOk.handover {executor : Option Nat} {active : Bool} {x : Thread}
    (ok : ThreadOk cfg executor active u x) (multi : cfg.mode = .multiLoop → executor = none)
    (quiet : executor = some u → x.point = .away ∧ x.call = .idle) (now : Option Nat) :
    ThreadOk cfg now active u x where
  inLoop single inLoop := by
    rw [(quiet (ok.inLoop single inLoop)).1] at inLoop
    cases inLoop
  point touches := by
    rw [(quiet (ok.point touches)).1] at touches
    cases touches
  call touches := by
    rw [(quiet (ok.call touches)).2] at touches
    cases touches
  running := ok.running
  direct := ok.direct
  free := ok.free
  home mode w f reason touches := by
    cases (multi mode).symm.trans (ok.home mode w f reason touches)
  handler mode reason := by cases (multi mode).symm.trans (ok.handler mode reason)
  outside := ok.outside

theorem ready_of_canCall {t : Nat} (allowed : canCall cfg s t = true) : s.ready t = true := by
  simp only [canCall, Bool.and_eq_true] at allowed
  exact allowed.1

theorem ThreadOk.free_of_canCall {executor : Option Nat} {active : Bool}
    (ok : ThreadOk cfg executor active u (s.threads u)) (allowed : canCall cfg s u = true) :
    (s.threads u).point.free = true := by
  simp only [canCall, Bool.and_eq_true, Bool.or_eq_true, decide_eq_true_eq] at allowed
  rcases allowed.2 with outside | inUserCode
  · rw [ok.outside outside]
    rfl
  · exact free_of_inUserCode inUserCode

/-! ## Steps outside of `send` -/

theorem Inv.acts_threadOk (inv : Inv cfg s) {x : Thread} {queues : Nat → List Func} {y : Sender}
    (acts : Acts cfg s u x queues y) : ThreadOk cfg (executor cfg s) y.active u x := by
  have ok := inv.threads u
  cases acts with
  | testDirect here isDirect =>
      simp only [State.isDirect, Bool.and_eq_true, decide_eq_true_eq] at isDirect
      rcases isDirect with ⟨⟨bound, rfl⟩, leads⟩
      have busy : (s.threads u).call ≠ .idle := by rw [here]; nofun
      refine
        { ok with
          call := fun touches => ?_, direct := ?_, free := fun _ => ok.free busy, home := ?_ }
      · cases mode : cfg.mode with
        | singleLoop => exact own_of_leads mode leads
        | multiLoop => exact ok.home mode _ _ (.inl here) touches
      · intro r isDirect
        cases isDirect
        trivial
      · intro _ w f reason
        rcases reason with reason | reason <;> cases reason
  | testPush here notDirect =>
      have busy : (s.threads u).call ≠ .idle := by rw [here]; nofun
      refine { ok with call := nofun, direct := nofun, free := fun _ => ok.free busy, home := ?_ }
      intro multi w f reason
      rcases reason with reason | reason <;> cases reason
      exact ok.home multi _ _ (.inl here)
  | @direct r here =>
      have busy : (s.threads u).call ≠ .idle := by rw [here]; nofun
      have exec := exec_ok inv.unviolated inv.deleted (ok.direct r here)
      refine
        { ok with
          call := fun touches => ?_
          running := fun q rest => ok.running_of_busy busy _
          direct := fun q isDirect => ?_
          free := fun _ => ok.free busy
          home := fun _ w f reason => ?_ }
      · cases remains : (s.sender.exec r).2 with
        | none =>
            rw [remains] at touches
            cases touches
        | some q =>
            apply ok.call
            rw [here]
            cases isOther : r.touches with
            | true => exact isOther
            | false => cases remains.symm.trans (exec.other isOther).2
      · cases remains : (s.sender.exec r).2 with
        | none =>
            rw [remains] at isDirect
            cases isDirect
        | some q =>
            rw [remains] at isDirect
            cases isDirect
            exact (exec.remains q remains).1
      · cases remains : (s.sender.exec r).2 <;> rw [remains] at reason <;>
          rcases reason with reason | reason <;> cases reason
  | push here =>
      refine
        { ok with
          call := nofun, direct := nofun, free := fun busy => absurd rfl busy, home := ?_ }
      intro _ w f reason
      rcases reason with reason | reason <;> cases reason
  | stopFired ready here =>
      exact .of_own (ok.point (by rw [here]; rfl)) ready.1 nofun (idle_of_ready ready)
  | addEvent ready here =>
      exact .of_own (ok.point (by rw [here]; rfl)) ready.1 nofun (idle_of_ready ready)
  | drainEnd ready here =>
      refine ok.goto ready.1 (idle_of_ready ready) (fun single _ => ?_) nofun nofun nofun
      exact ok.inLoop single (by rw [here]; rfl)
  | drainNext ready here =>
      refine ok.goto ready.1 (idle_of_ready ready) (fun single _ => ?_) (fun touches => ?_) ?_ nofun
      · exact ok.inLoop single (by rw [here]; rfl)
      · apply ok.point
        rw [here]
        simpa [Point.touches, Running.touches] using touches
      · intro r rest same
        cases same
        trivial
  | @drainRun r rest ready here =>
      have exec := exec_ok inv.unviolated inv.deleted (ok.running r rest here)
      have idle := idle_of_ready ready
      have touches : (Point.drain (s.sender.exec r).2 rest).touches = true →
          executor cfg s = some u := by
        intro touches
        apply ok.point
        rw [here]
        cases isOther : r.touches with
        | true => simp [Point.touches, isOther]
        | false => simpa [Point.touches, isOther, (exec.other isOther).2] using touches
      constructor
      · exact fun single _ => ok.inLoop single (by rw [here]; rfl)
      · exact touches
      · exact ok.call
      · intro q others same
        exact (exec.remains q (Point.drain.inj same).1).1
      · exact fun q isDirect => by cases idle.symm.trans isDirect
      · exact fun busy => absurd idle busy
      · exact ok.home
      · intro multi reason
        rcases reason with isHandling | events
        · cases isHandling
        · exact ok.handler multi (.inr events)
      · exact fun beyond => absurd ready.1 (Nat.not_lt.mpr beyond)
  | update ready here =>
      have own : cfg.mode = .multiLoop → executor cfg s = some u := fun multi =>
        ok.handler multi (.inl (by rw [here]; rfl))
      have moved := ok.goto (p := .clearing) ready.1 (idle_of_ready ready) nofun nofun nofun
        fun multi _ => own multi
      apply moved.test
      · rfl
      · exact fun multi _ => own multi
  | noUpdate ready here | clear ready here | handled _ ready here =>
      refine ok.goto ready.1 (idle_of_ready ready) nofun nofun nofun fun multi _ => ?_
      exact ok.handler multi (.inl (by rw [here]; rfl))
  | rearm ready here =>
      apply (ok.goto (p := .away) ready.1 (idle_of_ready ready) nofun nofun nofun nofun).test
      · rfl
      · exact fun multi _ => ok.handler multi (.inl (by rw [here]; rfl))
  | dispose ready here =>
      apply (ok.goto (p := .away) ready.1 (idle_of_ready ready) nofun nofun nofun nofun).test
      · rfl
      · intro multi _
        have own := ok.handler multi (.inl (by rw [here]; rfl))
        simp only [executor, multi] at own
        simp only [State.getWorkerByTask, own, executor, multi]
  | abandon ready here => exact ok.goto ready.1 (idle_of_ready ready) nofun nofun nofun nofun
  | fire e ready here isActive home =>
      refine .of_own ?_ ready.1 nofun (idle_of_ready ready)
      cases mode : cfg.mode with
      | singleLoop => exact ok.inLoop mode (by rw [here]; rfl)
      | multiLoop =>
          simp only [executor, mode]
          exact home mode
  | drain q ready here home =>
      refine ok.goto ready.1 (idle_of_ready ready) (fun single _ => ?_) (fun touches => ?_)
        nofun nofun
      · exact ok.inLoop single (by rw [here]; rfl)
      · cases mode : cfg.mode with
        | singleLoop => exact ok.inLoop mode (by rw [here]; rfl)
        | multiLoop =>
            simp only [Point.touches, Option.any_none, Bool.false_or, List.any_eq_true] at touches
            rcases touches with ⟨f, member, touches⟩
            exact home mode ▸ inv.queues mode q f member touches
  | enterLoop ready here leads =>
      exact ok.goto ready.1 (idle_of_ready ready) (fun single _ => own_of_leads single leads) nofun
        nofun nofun
  | leave ready here => exact ok.goto ready.1 (idle_of_ready ready) nofun nofun nofun nofun
  | enterUser ready here => exact ok.goto ready.1 (idle_of_ready ready) nofun nofun nofun nofun
  | handle ready here event =>
      have own : cfg.mode = .multiLoop → executor cfg s = some u := fun multi =>
        ok.handler multi (.inr (by rw [event]; nofun))
      have idle := idle_of_ready ready
      exact ⟨nofun, nofun, ok.call, nofun, ok.direct, fun busy => absurd idle busy, ok.home,
        fun multi _ => own multi, fun beyond => absurd ready.1 (Nat.not_lt.mpr beyond)⟩
  | written ready here =>
      rw [Sender.setEvents_active]
      refine ok.goto ready.1 (idle_of_ready ready) nofun nofun nofun fun multi _ => ?_
      exact ok.handler multi (.inl (by rw [here]; rfl))
  | user w allowed => exact ok.test (ok.free_of_canCall allowed) w .other fun _ => nofun

theorem Inv.acts_sender (inv : Inv cfg s) {x : Thread} {queues : Nat → List Func} {y : Sender}
    (acts : Acts cfg s u x queues y) :
    SenderOk s.sender y ∧ (y.active = s.sender.active ∨ executor cfg s = some u) := by
  have same := SenderOk.refl inv.unviolated inv.deleted
  have ok := inv.threads u
  cases acts with
  | @direct r here =>
      have exec := exec_ok inv.unviolated inv.deleted (ok.direct r here)
      refine ⟨exec.toSenderOk, ?_⟩
      cases touches : r.touches with
      | true => exact .inr (ok.call (by rw [here]; exact touches))
      | false => exact .inl (congrArg Sender.active (exec.other touches).1)
  | stopFired ready here =>
      exact ⟨(exec_ok (r := .fresh .stop) inv.unviolated inv.deleted trivial).toSenderOk,
        .inr (ok.point (by rw [here]; rfl))⟩
  | @drainRun r rest ready here =>
      have exec := exec_ok inv.unviolated inv.deleted (ok.running r rest here)
      refine ⟨exec.toSenderOk, ?_⟩
      cases touches : r.touches with
      | true => exact .inr (ok.point (by simp [here, Point.touches, touches]))
      | false => exact .inl (congrArg Sender.active (exec.other touches).1)
  | clear => exact ⟨{ same with }, .inl rfl⟩
  | written =>
      refine ⟨⟨?_, ?_, ?_, ?_, ?_, ?_⟩, .inl (Sender.setEvents_active ..)⟩
      · rw [Sender.setEvents_violated, inv.unviolated]
      · rw [Sender.setEvents_deleted, Sender.setEvents_active]
        exact inv.deleted
      · rw [Sender.setEvents_deleted]
        exact id
      · exact .inl (Sender.setEvents_fd ..)
      · exact Sender.setEvents_assigned ..
      · exact Sender.setEvents_initialized ..
  | _ => exact ⟨same, .inl rfl⟩

theorem Inv.acts_queues (inv : Inv cfg s) {x : Thread} {queues : Nat → List Func} {y : Sender}
    (acts : Acts cfg s u x queues y) (multi : cfg.mode = .multiLoop) :
    ∀ q, ∀ f ∈ queues q, f.touches = true → executor cfg s = some q := by
  cases acts with
  | @push w g here =>
      apply (Function.forall_update_iff s.queues fun q fs =>
        ∀ f ∈ fs, f.touches = true → executor cfg s = some q).mpr
      refine ⟨fun f member touches => ?_, fun q _ => inv.queues multi q⟩
      rcases List.mem_append.mp member with earlier | last
      · exact inv.queues multi w f earlier touches
      · cases List.mem_singleton.mp last
        exact (inv.threads u).home multi w g (.inr here) touches
  | drain q =>
      apply (Function.forall_update_iff s.queues fun q fs =>
        ∀ f ∈ fs, f.touches = true → executor cfg s = some q).mpr
      exact ⟨nofun, fun q _ => inv.queues multi q⟩
  | _ => exact inv.queues multi

/-- Functors that do not activate the watcher leave it inactive. -/
theorem exec_rest {x : Sender} {r : Running} (inactive : x.active = false)
    (harmless : r.threat = false) :
    (x.exec r).1.active = false ∧ ∀ q, (x.exec r).2 = some q → q.threat = false := by
  rw [Sender.exec]
  split
  · exact ⟨inactive, nofun⟩
  · cases r with
    | fresh f =>
        cases f with
        | start => cases harmless
        | stop => exact ⟨rfl, nofun⟩
        | update =>
            refine ⟨inactive, fun q rest => ?_⟩
            simp only [Sender.run, inactive] at rest
            cases rest
            rfl
        | dispose =>
            refine ⟨rfl, fun q rest => ?_⟩
            cases rest
            rfl
        | other => exact ⟨inactive, nofun⟩
    | updateStop | updateStart => cases harmless
    | updateSet again =>
        cases again with
        | true => cases harmless
        | false => exact ⟨inactive, nofun⟩
    | delete => exact ⟨inactive, nofun⟩

/-- The other threads leave a watcher at rest alone. -/
theorem Rest.acts {t : Nat} (rest : Rest s t) (other : u ≠ t) {x : Thread}
    {queues : Nat → List Func} {y : Sender} (acts : Acts cfg s u x queues y) :
    y.active = false ∧ (∀ q, Func.start ∉ queues q) ∧ x.threat = false := by
  have harmless := rest.others u other
  simp only [Thread.threat, Bool.or_eq_false_iff, Bool.not_eq_false'] at harmless
  rcases harmless with ⟨⟨point, call⟩, events⟩
  have threat {p : Point} {c : Call} {es : List Ev} (point : p.threat = false)
      (call : c.threat = false) (events : es.isEmpty = true) :
      Thread.threat ⟨p, c, es⟩ = false := by
    simp [Thread.threat, point, call, events]
  cases acts with
  | @testDirect w f here =>
      rw [here] at call
      refine ⟨rest.inactive, rest.queues, threat point ?_ events⟩
      cases f with
      | start => cases call
      | _ => rfl
  | @testPush w f here =>
      rw [here] at call
      refine ⟨rest.inactive, rest.queues, threat point ?_ events⟩
      cases f with
      | start => cases call
      | _ => rfl
  | @direct r here =>
      rw [here] at call
      have exec := exec_rest rest.inactive call
      refine ⟨exec.1, rest.queues, threat point ?_ events⟩
      cases remains : (s.sender.exec r).2 with
      | none => rfl
      | some q => exact exec.2 q remains
  | @push w f here =>
      rw [here] at call
      refine ⟨rest.inactive, ?_, threat point rfl events⟩
      apply (Function.forall_update_iff s.queues fun _ fs => Func.start ∉ fs).mpr
      refine ⟨fun member => ?_, fun q _ => rest.queues q⟩
      rcases List.mem_append.mp member with earlier | last
      · exact rest.queues w earlier
      · cases List.mem_singleton.mp last
        cases call
  | drainEnd _ here => exact ⟨rest.inactive, rest.queues, threat rfl call events⟩
  | @drainNext f fs _ here =>
      refine ⟨rest.inactive, rest.queues, threat ?_ call events⟩
      rw [here] at point
      cases f with
      | start => cases point
      | _ => simpa [Point.threat, Running.threat] using point
  | @drainRun r fs _ here =>
      rw [here] at point
      simp only [Point.threat, Option.any_some, Bool.or_eq_false_iff] at point
      have exec := exec_rest rest.inactive point.1
      refine ⟨exec.1, rest.queues, threat ?_ call events⟩
      simp only [Point.threat, Bool.or_eq_false_iff]
      refine ⟨?_, point.2⟩
      cases remains : (s.sender.exec r).2 with
      | none => rfl
      | some q => exact exec.2 q remains
  | dispose => exact ⟨rest.inactive, rest.queues, threat rfl rfl events⟩
  | abandon | enterLoop | leave | enterUser =>
      exact ⟨rest.inactive, rest.queues, threat rfl call events⟩
  | fire _ _ _ isActive => cases rest.inactive.symm.trans isActive
  | drain q =>
      refine ⟨rest.inactive, ?_, threat ?_ call events⟩
      · apply (Function.forall_update_iff s.queues fun _ fs => Func.start ∉ fs).mpr
        exact ⟨List.not_mem_nil, fun v _ => rest.queues v⟩
      · simpa [Point.threat] using rest.queues q
  | handle _ _ event =>
      rw [event] at events
      cases events
  | user => exact ⟨rest.inactive, rest.queues, threat point rfl events⟩
  | stopFired _ here | addEvent _ here | update _ here | noUpdate _ here | clear _ here
  | rearm _ here | written _ here | handled _ _ here =>
      rw [here] at point
      cases point

/-- What `send` relies on, where its thread and the watcher stay as they are. -/
theorem SendOk.frame {t : Nat} {p : SendPoint} (ok : SendOk cfg s t p)
    (thread : next.threads t = s.threads t) (assigned : next.sender.assigned = s.sender.assigned)
    (initialized : next.sender.initialized = s.sender.initialized)
    (fd : next.sender.fd = s.sender.fd ∨ next.sender.deleted = true)
    (own : executor cfg s = some t → executor cfg next = some t ∧
      (s.sender.active = false → next.sender.active = false))
    (rest : Rest s t → Rest next t)
    (deleted : s.sender.deleted = true → next.sender.deleted = true) : SendOk cfg next t p := by
  have calm : Calm cfg s t → Calm cfg next t := by
    rintro (⟨isOwn, inactive⟩ | atRest | gone)
    · exact .inl ⟨(own isOwn).1, (own isOwn).2 inactive⟩
    · exact .inr (.inl (rest atRest))
    · exact .inr (.inr (deleted gone))
  cases p with
  | close remote w =>
      simp only [SendOk, Home, Stopping, thread, assigned, initialized] at ok ⊢
      refine ⟨ok.1, ok.2.1, ok.2.2.imp (And.imp_right calm) (Or.imp ?_ (And.imp_left ?_))⟩
      · exact And.imp_left fun isOwn => (own isOwn).1
      · exact Or.imp rest deleted
  | assign remote w =>
      simp only [SendOk, Home, thread, assigned, initialized] at ok ⊢
      refine ⟨ok.1, ok.2.1, ?_⟩
      rcases ok.2.2 with open_ | isCalm
      · rcases fd with same | gone
        · exact .inl (same ▸ open_)
        · exact .inr (.inr (.inr gone))
      · exact .inr (calm isCalm)
  | connect | add =>
      simp only [SendOk, thread] at ok ⊢
      exact ok.imp_right calm
  | start w =>
      simp only [SendOk, thread, assigned] at ok ⊢
      exact ok
  | update w =>
      simp only [SendOk, Home, thread, assigned, initialized] at ok ⊢
      exact ok
  | clear => trivial

/-- The next state of a thread outside of `send`. -/
def State.acted (s : State) (u : Nat) (x : Thread) (queues : Nat → List Func) (y : Sender)
    (roundRobin : Nat) : State :=
  { s with
    threads := Function.update s.threads u x, queues := queues, sender := y
    roundRobin := roundRobin }

section Acted

variable {x : Thread} {queues : Nat → List Func} {y : Sender} {roundRobin t : Nat} {p : SendPoint}

theorem executor_acted (assigned : y.assigned = s.sender.assigned) :
    executor cfg (s.acted u x queues y roundRobin) = executor cfg s := by
  simp only [executor, State.acted, assigned]

theorem acted_self : (s.acted u x queues y roundRobin).threads u = x := by
  simp only [State.acted, Function.update_self]

theorem acted_of_ne (other : t ≠ u) :
    (s.acted u x queues y roundRobin).threads t = s.threads t := by
  simp only [State.acted, Function.update_of_ne other]

/-- Another thread acts while `t` is in `send`. -/
theorem Inv.acts_sendOk_other (inv : Inv cfg s) (acts : Acts cfg s u x queues y)
    (ok : SendOk cfg s t p) (other : u ≠ t) :
    SendOk cfg (s.acted u x queues y roundRobin) t p := by
  have changes := inv.acts_sender acts
  have unchanged : executor cfg (s.acted u x queues y roundRobin) = executor cfg s :=
    executor_acted changes.1.assigned
  apply ok.frame (acted_of_ne other.symm) changes.1.assigned
    changes.1.initialized changes.1.fd
  · intro own
    refine ⟨unchanged.trans own, fun inactive => ?_⟩
    rcases changes.2 with same | acting
    · exact same.trans inactive
    · cases other (Option.some.inj (acting.symm.trans own))
  · intro rest
    have kept := rest.acts other acts
    refine ⟨kept.1, kept.2.1, ?_⟩
    apply (Function.forall_update_iff s.threads fun v z => v ≠ t → z.threat = false).mpr
    exact ⟨fun _ => kept.2.2, fun v _ => rest.others v⟩
  · exact changes.1.wasDeleted

theorem not_ready_of_sending (here : s.sending = some (t, p)) : ¬ s.ready t = true := by
  simp [State.ready, here]

theorem SendOk.of_busy (ok : SendOk cfg s t p) (busy : (s.threads t).call ≠ .idle) :
    (∃ remote w, p = .close remote w ∧ Home cfg s w ∧ s.sender.initialized = true ∧
      Stopping cfg s t w) ∨ p = .clear := by
  cases p with
  | close remote w =>
      rcases ok.2.2 with idle | stopping
      · exact absurd idle.1 busy
      · exact .inl ⟨remote, w, rfl, ok.1, ok.2.1, stopping⟩
  | assign remote w => exact absurd ok.2.1 busy
  | connect | add | start w => exact absurd ok.1 busy
  | update w => exact absurd ok.2 busy
  | clear => exact .inr rfl

theorem executor_leads (own : executor cfg s = some t) : s.leads cfg t = true := by
  cases mode : cfg.mode with
  | singleLoop =>
      simp only [executor, mode] at own
      simp only [State.leads, mode, own, beq_self_eq_true]
  | multiLoop => simp only [State.leads, mode]

theorem exec_stop_inactive {z : Sender} (deleted : z.deleted = true → z.active = false) :
    (z.exec (.fresh .stop)).1.active = false := by
  rw [Sender.exec]
  split
  · next gone => exact deleted gone
  · rfl

theorem exec_stop_rest (z : Sender) : (z.exec (.fresh .stop)).2 = none := by
  rw [Sender.exec]
  split <;> rfl

/-- `stop_watcher` goes on in the thread that is in `send`. -/
theorem Inv.acts_stopping (inv : Inv cfg s) {w : Nat} (stopping : Stopping cfg s t w)
    (notReady : ¬ s.ready t = true) (acts : Acts cfg s t x queues y) :
    let next := s.acted t x queues y roundRobin
    x.call = .idle ∧ Calm cfg next t ∨ Stopping cfg next t w := by
  have changes := (inv.acts_sender acts).1
  have unchanged : executor cfg (s.acted t x queues y roundRobin) = executor cfg s :=
    executor_acted changes.assigned
  have atRest (rest : Rest s t) (inactive : y.active = false)
      (noStart : ∀ q, Func.start ∉ queues q) : Rest (s.acted t x queues y roundRobin) t := by
    refine ⟨inactive, noStart, fun v other => ?_⟩
    rw [acted_of_ne other]
    exact rest.others v other
  cases acts with
  | @testDirect v f here isDirect =>
      refine .inr ?_
      rw [Stopping, acted_self, unchanged]
      rcases stopping with ⟨own, bound, isOwn, call⟩ | ⟨rest, call⟩
      · rcases call with call | call <;> cases here.symm.trans call
        exact .inl ⟨own, bound, isOwn, .inr rfl⟩
      · rcases call with call | call | call <;> cases here.symm.trans call
        exact .inr ⟨rest.imp_left fun rest => atRest rest rest.inactive rest.queues,
          .inr (.inr rfl)⟩
  | @testPush v f here notDirect =>
      refine .inr ?_
      rw [Stopping, acted_self, unchanged]
      rcases stopping with ⟨own, bound, isOwn, call⟩ | ⟨rest, call⟩
      · rcases call with call | call <;> cases here.symm.trans call
        simp [State.isDirect, bound, isOwn, executor_leads own] at notDirect
      · rcases call with call | call | call <;> cases here.symm.trans call
        exact .inr ⟨rest.imp_left fun rest => atRest rest rest.inactive rest.queues,
          .inr (.inl rfl)⟩
  | @direct r here =>
      have isStop : r = .fresh .stop := by
        rcases stopping with ⟨_, _, _, call | call⟩ | ⟨_, call | call | call⟩ <;>
          cases here.symm.trans call
        · rfl
        · rfl
      subst isStop
      refine .inl ⟨congrArg (Option.elim · Call.idle Call.direct) (exec_stop_rest s.sender), ?_⟩
      have inactive := exec_stop_inactive inv.deleted
      rcases stopping with ⟨own, _⟩ | ⟨rest | gone, _⟩
      · exact .inl ⟨unchanged.trans own, inactive⟩
      · exact .inr (.inl (atRest rest inactive rest.queues))
      · exact .inr (.inr (changes.wasDeleted gone))
  | @push v f here =>
      rcases stopping with ⟨_, _, _, call | call⟩ | ⟨rest, call | call | call⟩ <;>
        cases here.symm.trans call
      refine .inl ⟨rfl, .inr (rest.imp_left fun rest => atRest rest rest.inactive ?_)⟩
      apply (Function.forall_update_iff s.queues fun _ fs => Func.start ∉ fs).mpr
      refine ⟨fun member => ?_, fun q _ => rest.queues q⟩
      rcases List.mem_append.mp member with earlier | last
      · exact rest.queues w earlier
      · cases List.mem_singleton.mp last
  | user v allowed => exact absurd (ready_of_canCall allowed) notReady
  | stopFired ready | addEvent ready | drainEnd ready | drainNext ready | drainRun ready
  | update ready | noUpdate ready | clear ready | rearm ready | dispose ready | abandon ready
  | fire _ ready | drain _ ready | enterLoop ready | leave ready | enterUser ready | handle ready
  | written ready | handled _ ready => exact absurd ready.2 notReady

/-- A thread in `send` only goes on in its call of `exec_in_worker_ctx`. -/
theorem Acts.busy (acts : Acts cfg s t x queues y) (notReady : ¬ s.ready t = true) :
    x.point = (s.threads t).point ∧ (s.threads t).call ≠ .idle := by
  cases acts with
  | testDirect here | testPush here | direct here | push here =>
      refine ⟨rfl, ?_⟩
      rw [here]
      nofun
  | user v allowed => exact absurd (ready_of_canCall allowed) notReady
  | stopFired ready | addEvent ready | drainEnd ready | drainNext ready | drainRun ready
  | update ready | noUpdate ready | clear ready | rearm ready | dispose ready | abandon ready
  | fire _ ready | drain _ ready | enterLoop ready | leave ready | enterUser ready | handle ready
  | written ready | handled _ ready => exact absurd ready.2 notReady

theorem Inv.acts_sendOk_own (inv : Inv cfg s) (here : s.sending = some (t, p))
    (acts : Acts cfg s t x queues y) :
    x.point = (s.threads t).point ∧ SendOk cfg (s.acted t x queues y roundRobin) t p := by
  have notReady := not_ready_of_sending here
  have busy := acts.busy notReady
  refine ⟨busy.1, ?_⟩
  rcases (inv.sending t p here).2.of_busy busy.2 with
    ⟨remote, w, rfl, home, initialized, stopping⟩ | rfl
  · have changes := (inv.acts_sender acts).1
    refine ⟨fun multi _ => changes.assigned.trans (home multi initialized),
      changes.initialized.trans initialized, ?_⟩
    rw [acted_self]
    exact inv.acts_stopping stopping notReady acts
  · trivial

theorem Inv.acts (inv : Inv cfg s) (acts : Acts cfg s u x queues y) (roundRobin : Nat) :
    Inv cfg (s.acted u x queues y roundRobin) := by
  have changes := inv.acts_sender acts
  have unchanged : executor cfg (s.acted u x queues y roundRobin) = executor cfg s :=
    executor_acted changes.1.assigned
  refine ⟨?_, ?_, changes.1.unviolated, changes.1.deleted, ?_, ?_, ?_⟩
  · rw [unchanged]
    apply (Function.forall_update_iff s.threads fun v z =>
      ThreadOk cfg (executor cfg s) y.active v z).mpr
    refine ⟨inv.acts_threadOk acts, fun v other => ?_⟩
    rcases changes.2 with same | acting
    · exact same ▸ inv.threads v
    · apply (inv.threads v).of_other
      exact fun own => other (Option.some.inj (own.symm.trans acting))
  · rw [unchanged]
    exact inv.acts_queues acts
  · exact fun single => changes.1.assigned.trans (inv.unassigned single)
  · intro multi initialized noStart
    exact changes.1.assigned ▸ inv.assigned multi (changes.1.initialized ▸ initialized) noStart
  · intro t p here
    have ok := inv.sending t p here
    by_cases own : u = t
    · subst own
      have kept : x.point = (s.threads u).point ∧
          SendOk cfg (s.acted u x queues y roundRobin) u p := inv.acts_sendOk_own here acts
      rw [acted_self, kept.1]
      exact ⟨ok.1, kept.2⟩
    · rw [acted_of_ne (Ne.symm own)]
      exact ⟨ok.1, inv.acts_sendOk_other acts ok.2 own⟩

end Acted

/-! ## Leadership -/

/-- Another thread becomes the leader, or none. -/
theorem Inv.lead (inv : Inv cfg s) (single : cfg.mode = .singleLoop) (leader : Option Nat)
    (lastWorker : Nat)
    (quiet : ∀ i, s.leader = some i → s.ready i = true ∧ (s.threads i).point = .away) :
    Inv cfg { s with leader := leader, lastWorker := lastWorker } := by
  have isLeader : executor cfg s = s.leader := by simp only [executor, single]
  have noMulti : ¬ cfg.mode = .multiLoop := by rw [single]; nofun
  refine ⟨fun u => ?_, fun multi => absurd multi noMulti, inv.unviolated, inv.deleted,
    inv.unassigned, fun multi => absurd multi noMulti, fun t p here => ?_⟩
  · apply (inv.threads u).handover (fun multi => absurd multi noMulti)
    intro own
    have away := quiet u (isLeader.symm.trans own)
    have ready := away.1
    simp only [State.ready, Bool.and_eq_true, beq_iff_eq] at ready
    exact ⟨away.2, ready.1⟩
  · have ok := inv.sending t p here
    refine ⟨ok.1, ok.2.frame rfl rfl rfl (.inl rfl) (fun own => ?_)
      (fun rest => ⟨rest.inactive, rest.queues, rest.others⟩) id⟩
    -- The leader is not in `send` when it stops being the leader.
    exact absurd (quiet t (isLeader.symm.trans own)).1 (not_ready_of_sending here)

/-! ## `send` -/

section Send

variable {t : Nat} {p : SendPoint}

/-- `send` goes on without a call of `exec_in_worker_ctx`. -/
theorem Inv.sends (inv : Inv cfg s) {y : Sender} {sending : Option (Nat × SendPoint)}
    (roundRobin : Nat) (active : y.active = s.sender.active)
    (assigned : y.assigned = s.sender.assigned) (deleted : y.deleted = s.sender.deleted)
    (unviolated : y.violated = false)
    (home : cfg.mode = .multiLoop → y.initialized = true →
      (∀ t w, sending ≠ some (t, .start w)) → s.sender.assigned ≠ none)
    (ok : ∀ t p, sending = some (t, p) → (s.threads t).point.free = true ∧
      SendOk cfg { s with sender := y, roundRobin := roundRobin, sending := sending } t p) :
    Inv cfg { s with sender := y, roundRobin := roundRobin, sending := sending } := by
  have unchanged :
      executor cfg { s with sender := y, roundRobin := roundRobin, sending := sending } =
        executor cfg s := by
    simp only [executor, assigned]
  refine ⟨fun u => ?_, ?_, unviolated, ?_, ?_, ?_, ok⟩
  · rw [unchanged]
    exact active ▸ inv.threads u
  · rw [unchanged]
    exact inv.queues
  · exact fun gone => active.trans (inv.deleted (deleted ▸ gone))
  · exact fun single => assigned.trans (inv.unassigned single)
  · exact fun multi initialized noStart => assigned ▸ home multi initialized noStart

/-- `send` calls `exec_in_worker_ctx`. -/
theorem Inv.sends_test (inv : Inv cfg s) (roundRobin : Nat)
    (free : (s.threads t).point.free = true) {w : Nat} {f : Func}
    {sending : Option (Nat × SendPoint)}
    (executes : cfg.mode = .multiLoop → executor cfg s = some w)
    (ok : ∀ u p, sending = some (u, p) → u = t ∧
      SendOk cfg ({ s with roundRobin := roundRobin, sending := sending }.setThread t
        { s.threads t with call := .test w f }) t p) :
    Inv cfg ({ s with roundRobin := roundRobin, sending := sending }.setThread t
      { s.threads t with call := .test w f }) := by
  refine ⟨?_, inv.queues, inv.unviolated, inv.deleted, inv.unassigned, ?_, ?_⟩
  · apply (Function.forall_update_iff s.threads fun v z =>
      ThreadOk cfg (executor cfg s) s.sender.active v z).mpr
    exact ⟨(inv.threads t).test free w f fun multi _ => executes multi, fun v _ => inv.threads v⟩
  · intro multi _ _
    have isAssigned := executes multi
    simp only [executor, multi] at isAssigned
    change s.sender.assigned ≠ none
    rw [isAssigned]
    nofun
  · intro u p here
    rcases ok u p here with ⟨rfl, sendOk⟩
    refine ⟨?_, sendOk⟩
    simpa only [State.setThread, Function.update_self] using free

/-- The worker that `get_worker_by_task` gives. -/
theorem Inv.home (inv : Inv cfg s) (here : s.sending = none) (t : Nat) :
    Home cfg s (s.getWorkerByTask cfg t) := by
  intro multi initialized
  have isAssigned := inv.assigned multi initialized fun u w same => by
    cases here.symm.trans same
  cases assigned : s.sender.assigned with
  | none => exact absurd assigned isAssigned
  | some w => simp only [State.getWorkerByTask, assigned]

theorem Inv.getWorkerByTask_own (inv : Inv cfg s) (bound : t < cfg.numWorkers)
    (own : executor cfg s = some t) : s.getWorkerByTask cfg t = t := by
  cases mode : cfg.mode with
  | singleLoop =>
      simp only [State.getWorkerByTask, inv.unassigned mode, mode, if_pos bound]
  | multiLoop =>
      simp only [executor, mode] at own
      simp only [State.getWorkerByTask, own]

theorem idle_of_canCall (allowed : canCall cfg s t = true) : (s.threads t).call = .idle := by
  have ready := ready_of_canCall allowed
  simp only [State.ready, Bool.and_eq_true, beq_iff_eq] at ready
  exact ready.1

theorem Inv.inactive_of_calm (inv : Inv cfg s) (calm : Calm cfg s t) : s.sender.active = false := by
  rcases calm with own | rest | gone
  · exact own.2
  · exact rest.inactive
  · exact inv.deleted gone

theorem Calm.frame (calm : Calm cfg s t) (leader : next.leader = s.leader)
    (threads : next.threads = s.threads) (queues : next.queues = s.queues)
    (active : next.sender.active = s.sender.active)
    (assigned : next.sender.assigned = s.sender.assigned)
    (deleted : next.sender.deleted = s.sender.deleted) : Calm cfg next t := by
  rcases calm with own | rest | gone
  · refine .inl ⟨?_, active.trans own.2⟩
    simp only [executor, leader, assigned]
    exact own.1
  · refine .inr (.inl ⟨active.trans rest.inactive, ?_, ?_⟩)
    · rw [queues]
      exact rest.queues
    · rw [threads]
      exact rest.others
  · exact .inr (.inr (deleted.trans gone))

/-- `assign_worker` and `start_watcher` -/
theorem Inv.sends_start (inv : Inv cfg s) {w : Nat} (here : s.sending = some (t, .start w)) :
    Inv cfg ({ s with sender := State.assignWorker cfg s.sender w, sending := none }.setThread t
      { s.threads t with call := .test w .start }) := by
  rcases inv.sending t _ here with ⟨free, _, home⟩
  cases mode : cfg.mode with
  | singleLoop =>
      simp only [State.assignWorker, mode]
      exact inv.sends_test s.roundRobin free (fun multi => by cases mode.symm.trans multi) nofun
  | multiLoop =>
      simp only [State.assignWorker, mode]
      split
      · next unassigned =>
          have nobody : executor cfg s = none := by simp only [executor, mode, unassigned]
          refine ⟨?_, ?_, inv.unviolated, inv.deleted, ?_, fun _ _ _ => nofun, nofun⟩
          · simp only [executor, mode]
            apply (Function.forall_update_iff s.threads fun v z =>
              ThreadOk cfg (some w) s.sender.active v z).mpr
            have handed (v : Nat) : ThreadOk cfg (some w) s.sender.active v (s.threads v) :=
              (inv.threads v).handover (fun _ => nobody)
                (fun own => by cases nobody.symm.trans own) _
            exact ⟨(handed t).test free w .start fun _ _ => rfl, fun v _ => handed v⟩
          · intro _ q f member touches
            cases nobody.symm.trans (inv.queues mode q f member touches)
          · exact fun single => by cases mode.symm.trans single
      · next isAssigned =>
          refine inv.sends_test s.roundRobin free (fun multi => ?_) nofun
          simp only [executor, mode]
          exact (home mode).resolve_left isAssigned

theorem Inv.sendStep (inv : Inv cfg s) (here : s.sending = some (t, p))
    (idle : (s.threads t).call = .idle) (stepped : s.sendStep cfg t p = some next) :
    Inv cfg next := by
  rcases inv.sending t p here with ⟨free, ok⟩
  have kept (notStart : ∀ w, p ≠ .start w) :
      cfg.mode = .multiLoop → s.sender.initialized = true → s.sender.assigned ≠ none := by
    intro multi initialized
    apply inv.assigned multi initialized
    intro u w same
    cases here.symm.trans same
    exact notStart w rfl
  cases p with
  | close remote w =>
      have calm : Calm cfg s t := by
        rcases ok.2.2 with calm | stopping
        · exact calm.2
        · rcases stopping with ⟨_, _, _, call | call⟩ | ⟨_, call | call | call⟩ <;>
            cases idle.symm.trans call
      cases stepped
      refine inv.sends _ rfl rfl rfl ?_ (fun multi initialized _ => kept nofun multi initialized) ?_
      · simp only [Sender.close, inv.unviolated, inv.inactive_of_calm calm, Bool.false_and,
          Bool.or_false]
      · rintro _ _ ⟨⟩
        exact ⟨free, ok.1, idle, .inr (calm.frame rfl rfl rfl rfl rfl rfl)⟩
  | assign remote w =>
      have setOk (q : SendPoint) (okNext : SendOk cfg { s with
            sender := { s.sender with remote := some remote }.setEvents .write
            sending := some (t, q) } t q) :
          Inv cfg { s with
            sender := { s.sender with remote := some remote }.setEvents .write
            sending := some (t, q) } := by
        refine inv.sends _ (by simp) (by simp) (by simp) (by simpa using inv.unviolated)
          (fun multi initialized _ => kept nofun multi (by simpa using initialized)) ?_
        rintro _ _ ⟨⟩
        exact ⟨free, okNext⟩
      simp only [State.sendStep, Sender.setEvents_fd] at stepped
      split at stepped
      · cases stepped
        refine setOk _ ⟨?_, idle⟩
        simpa [Home] using ok.1
      · next closed =>
          cases stepped
          refine setOk _ ⟨idle, ?_⟩
          rcases ok.2.2 with isOpen | calm
          · exact absurd (Option.isSome_iff_ne_none.mpr isOpen) closed
          · exact calm.frame rfl rfl rfl (by simp) (by simp) (by simp)
  | connect => cases stepped
  | add =>
      cases stepped
      refine inv.sends _ rfl rfl rfl ?_ (fun _ _ noStart => absurd rfl (noStart t _)) ?_
      · simp only [Sender.initWatcher, Sender.ioSet, inv.unviolated, inv.inactive_of_calm ok.2,
          Bool.or_false]
      · rintro _ _ ⟨⟩
        refine ⟨free, idle, fun _ => ?_⟩
        change s.sender.assigned = none ∨ s.sender.assigned = some _
        cases assigned : s.sender.assigned with
        | none => exact .inl rfl
        | some w => exact .inr (by simp only [State.getWorkerByTask, assigned])
  | start w =>
      cases stepped
      exact inv.sends_start here
  | update w =>
      simp only [State.sendStep] at stepped
      split at stepped
      · cases stepped
      · next initialized =>
          have isInitialized : s.sender.initialized = true := by simpa using initialized
          split at stepped
          · cases stepped
            refine inv.sends_test s.roundRobin free (fun multi => ?_) ?_
            · simp only [executor, multi]
              exact ok.1 multi isInitialized
            · rintro _ _ ⟨⟩
              exact ⟨rfl, trivial⟩
          · cases stepped
            exact inv.sends _ rfl rfl rfl inv.unviolated
              (fun multi initialized _ => kept nofun multi initialized) nofun
  | clear =>
      cases stepped
      exact inv.sends _ rfl rfl rfl inv.unviolated
        (fun multi initialized _ => kept nofun multi initialized) nofun

end Send

/-! ## Whole runs -/

/-- A call of `send` keeps the connection, or leaves it in the thread of the worker that
executes the functors of the sender, or finds the watcher at rest. -/
def SendsSafely (cfg : Config) : Action → State → Prop
  | .send t remote, s =>
      (s.sender.fd ≠ none ∧ (s.sender.remote = some remote ∨
        (t < cfg.numWorkers ∧ executor cfg s = some t))) ∨ Rest s t
  | _, _ => True

theorem Inv.moves (inv : Inv cfg s) {action : Action} (safe : SendsSafely cfg action s)
    (moves : Moves cfg s action next) : Inv cfg next := by
  cases moves with
  | act noSend acts => exact inv.acts acts _
  | demote single here ready away =>
      apply inv.lead single
      intro i leads
      cases here.symm.trans leads
      exact ⟨ready, away⟩
  | promote single here =>
      apply inv.lead single
      intro i leads
      cases here.symm.trans leads
  | @leave t remote allowed here other initialized =>
      have home := inv.home here t
      refine inv.sends_test _ ((inv.threads t).free_of_canCall allowed) (fun multi => ?_) ?_
      · simp only [executor, multi]
        exact home multi initialized
      · rintro _ _ ⟨⟩
        refine ⟨rfl, home, initialized, .inr ?_⟩
        have call : (Function.update s.threads t { s.threads t with
            call := .test (s.getWorkerByTask cfg t) .stop } t).call =
              .test (s.getWorkerByTask cfg t) .stop := by
          rw [Function.update_self]
        rcases safe with ⟨_, same | ⟨bound, own⟩⟩ | rest
        · exact absurd same other.2
        · exact .inl ⟨own, bound, inv.getWorkerByTask_own bound own, .inl call⟩
        · refine .inr ⟨.inl ⟨rest.inactive, rest.queues, fun u notSelf => ?_⟩, .inl call⟩
          simpa only [State.setThread, Function.update_of_ne notSelf] using rest.others u notSelf
  | @stay t remote allowed here same =>
      refine inv.sends _ rfl rfl rfl inv.unviolated (fun multi initialized _ => ?_) ?_
      · exact inv.assigned multi initialized fun _ _ isSending => by cases here.symm.trans isSending
      · rintro _ _ ⟨⟩
        have idle := idle_of_canCall allowed
        refine ⟨(inv.threads t).free_of_canCall allowed, inv.home here t, idle, ?_⟩
        rcases safe with isOpen | rest
        · exact .inl isOpen.1
        · exact .inr (.inr (.inl ⟨rest.inactive, rest.queues, rest.others⟩))
  | sendStep here idle stepped => exact inv.sendStep here idle stepped
  | @connected t fd here =>
      rcases inv.sending _ _ here with ⟨free, idle, calm⟩
      refine inv.sends _ rfl rfl rfl inv.unviolated (fun multi initialized _ => ?_) ?_
      · exact inv.assigned multi initialized fun _ _ isSending => by cases here.symm.trans isSending
      · rintro _ _ ⟨⟩
        exact ⟨free, idle, calm.frame rfl rfl rfl rfl rfl rfl⟩
  | noSocket here | notConnected here =>
      refine inv.sends _ rfl rfl rfl inv.unviolated (fun multi initialized _ => ?_) nofun
      exact inv.assigned multi initialized fun _ _ isSending => by cases here.symm.trans isSending

theorem inv_init (cfg : Config) : Inv cfg (system cfg).init where
  threads u :=
    { inLoop _ := nofun
      point := nofun
      call := nofun
      running := nofun
      direct := nofun
      free busy := absurd rfl busy
      home _ _ _ reason := by rcases reason with reason | reason <;> cases reason
      handler _ reason := by
        rcases reason with reason | reason
        · cases reason
        · exact absurd rfl reason
      outside _ := rfl }
  queues _ _ _ member := by cases member
  unviolated := rfl
  deleted := nofun
  unassigned _ := rfl
  assigned _ := nofun
  sending := nofun

/-- If every call of `send` is made safely, `ev_io_set` is never called for an active
watcher, and the file descriptor of an active watcher is never closed. -/
theorem sender_never_violates (cfg : Config) (actions : List Action)
    (safe : (system cfg).Along (SendsSafely cfg) actions (system cfg).init) :
    (system cfg).Throughout (fun s => s.sender.violated = false) actions (system cfg).init := by
  apply System.throughout_of_along (Inv cfg) Inv.unviolated _ (inv_init cfg) safe
  exact fun inv safely stepped => inv.moves safely (moves_of_step stepped)

/-- A send from outside that connects, and the leader that has started the watcher. -/
def connecting : List Action :=
  [.send 2 1, .sendStep 2, .connect 2 (.success 5), .sendStep 2, .sendStep 2, .call 2, .call 2,
    .promote 0, .enterLoop 0, .drain 0 0, .worker 0, .worker 0]

/-- The leader sends to another remote. -/
def reconnecting : List Action :=
  [.send 0 2, .call 0, .call 0, .sendStep 0, .sendStep 0, .connect 0 (.success 6), .sendStep 0,
    .sendStep 0, .call 0, .call 0]

theorem sender_never_violates_reconnecting :
    let cfg : Config := ⟨.singleLoop, 2, false⟩
    let actions := connecting ++ [.worker 0, .leaveLoop 0, .enterUser 0] ++ reconnecting
    ((system cfg).exec actions (system cfg).init).any
        (fun s => s.sender.active && s.sender.fd == some 6) = true ∧
      (system cfg).Throughout (fun s => s.sender.violated = false) actions (system cfg).init := by
  refine ⟨by decide +kernel, sender_never_violates _ _ (System.along_append ?_ ?_)⟩
  · refine fun next _ => ⟨.inr ⟨rfl, fun _ => nofun, fun _ _ => rfl⟩, System.along_of_forall ?_⟩
    simp [SendsSafely]
  · intro s run
    have reached : ((system ⟨.singleLoop, 2, false⟩).exec
        (connecting ++ [.worker 0, .leaveLoop 0, .enterUser 0])
          (system ⟨.singleLoop, 2, false⟩).init).map (fun s => (s.sender.fd, s.leader)) =
            some (some 5, some 0) := by
      decide +kernel
    rw [run] at reached
    simp only [Option.map_some, Option.some.injEq, Prod.mk.injEq] at reached
    refine fun next _ => ⟨.inl ⟨?_, .inr ⟨by decide, reached.2⟩⟩, System.along_of_forall ?_⟩
    · rw [reached.1]
      nofun
    · simp [SendsSafely]

/-- A second send from outside closes the socket while the functor that stops the watcher
is still queued. -/
theorem sender_violates :
    ∃ s, (system ⟨.singleLoop, 2, false⟩).Reachable s ∧ s.sender.violated = true := by
  have run : ((system ⟨.singleLoop, 2, false⟩).exec
      (connecting ++ [Action.send 2 2, Action.call 2, Action.call 2, Action.sendStep 2])
        (system ⟨.singleLoop, 2, false⟩).init).any (fun s => s.sender.violated) = true := by
    decide +kernel
  exact System.exists_reachable_of_exec run

end LibTasks.Net.HttpSender

import LibTasks.Dispatcher.Model

/-!
# Safety of the leader hand-over

No lock protects the hand-over of the event loop: a busy bit, `m_leader`,
`m_last_worker_id` and the moved `m_loop` are written one after the other by the
promoting thread.  The invariant assigns to every worker the part it plays in
the current phase of this protocol.  Each part is a condition on the record of
that worker alone, so an operation that touches one worker only has to keep that
worker's part, and the hand-over itself is a sequence of phase changes.
-/

namespace LibTasks.Dispatcher

open LibTasks.Foundation

variable {Task Other : Type}

/-! ## Parts and phases -/

/-- The part a worker plays in the hand-over protocol.  The flag `given` tells
whether `m_loop` was already moved. -/
inductive Role where
  | follower
  | target (given : Bool)
  | leader
  | choosing (id : Nat)
  | claiming (id : Nat)
  | promoter (id : Nat) (given : Bool)
  deriving DecidableEq, Repr

/-- Program points of a worker without the loop, with what its bit and its event
queue hold there. -/
def FollowerAt (w : Worker Task Other) : Prop :=
  match w.pc with
  | .unborn | .markFree | .lead => w.busyBit = false ∧ w.events = []
  | .top | .waiting => w.busyBit = true ∧ w.events = []
  | .handle | .handling _ | .handled _ _ | .pop => w.busyBit = false
  | _ => False

/-- Program points of the worker that owns the loop, apart from the hand-over
itself. -/
def LeaderAt (cfg : Config Task Other) (i : Nat) (w : Worker Task Other) : Prop :=
  match w.pc with
  | .top | .waiting | .lead => w.events = []
  | .inLoop | .loopReturned | .freeWorker => True
  | .handle | .handling _ | .handled _ _ | .pop => True
  | .next chkIdx _ => chkIdx < cfg.numWorkers
  | .fired worker _ | .stopWatcher worker _ | .addEvent worker _ => worker = i
  | .swap worker queue => worker = i ∧ queue < cfg.numWorkers
  | .drain worker _ _ | .execFront worker _ _ _ | .inFunctor worker _ _ _ => worker = i
  | _ => False

/-- What a worker's record satisfies when it plays a given part. -/
def RoleOk (cfg : Config Task Other) (i : Nat) (w : Worker Task Other) : Role → Prop
  | .follower => w.leader = false ∧ w.loop = false ∧ FollowerAt w
  | .target given =>
      w.leader = false ∧ w.loop = given ∧ w.busyBit = false ∧ w.events = [] ∧
        (w.pc = .top ∨ w.pc = .waiting)
  | .leader => w.leader = true ∧ w.loop = true ∧ w.busyBit = false ∧ LeaderAt cfg i w
  | .choosing id =>
      w.leader = true ∧ w.loop = true ∧ w.busyBit = false ∧
        (w.pc = .foundId id ∨ w.pc = .unsetId id)
  | .claiming id =>
      w.leader = true ∧ w.loop = true ∧ w.busyBit = false ∧ w.pc = .demote id
  | .promoter id given =>
      w.leader = false ∧ w.loop = !given ∧ w.busyBit = false ∧
        (given = false ∧ w.pc = .moveLoop id ∨
          given = true ∧ (w.pc = .setUserdata id ∨ w.pc = .setLeader id))

/-- Where the event loop is on its way from worker to worker. -/
inductive Phase where
  /-- `dispatcher::start` has not selected the first leader yet. -/
  | boot
  /-- `dispatcher::start` hands the loop to worker 0. -/
  | bootHandOver (given : Bool)
  | led (i : Nat)
  /-- Leader `i` found the set bit of `id`. -/
  | chosen (i id : Nat)
  /-- Leader `i` cleared the bit of `id`. -/
  | claimed (i id : Nat)
  /-- Worker `i` gave up leadership and is passing the loop to `id`. -/
  | handOver (i id : Nat) (given : Bool)
  deriving DecidableEq, Repr

/-- The part of each worker in a phase. -/
def Phase.role : Phase → Nat → Role
  | .boot, _ => .follower
  | .bootHandOver given, j => if j = 0 then .target given else .follower
  | .led i, j => if j = i then .leader else .follower
  | .chosen i id, j => if j = i then .choosing id else .follower
  | .claimed i id, j =>
      if j = i then .claiming id else if j = id then .target false else .follower
  | .handOver i id given, j =>
      if j = i then .promoter id given else if j = id then .target given else .follower

/-- What a phase says about the shared variables. -/
def Phase.Shared (cfg : Config Task Other) (s : State Task Other) : Phase → Prop
  | .boot =>
      s.lastWorkerId = 0 ∧
        match s.starter with
        | .spawn k => ∀ j, k ≤ j → (s.workers j).pc = .unborn
        | .waitBit k => ∀ j < k, j < cfg.numWorkers → (s.workers j).busyBit = true
        | .unsetFirst => (s.workers 0).busyBit = true
        | _ => False
  | .bootHandOver false => s.lastWorkerId = 0 ∧ s.starter = .moveLoop
  | .bootHandOver true =>
      s.lastWorkerId = 0 ∧
        (s.starter = .setUserdata ∨ s.starter = .setLeader ∧ s.userdata = some 0)
  | .led i =>
      i < cfg.numWorkers ∧ s.starter = .started ∧ s.userdata = some i ∧ s.lastWorkerId = i
  | .chosen i id =>
      i < cfg.numWorkers ∧ s.starter = .started ∧ s.userdata = some i ∧
        id < cfg.numWorkers ∧ id ≠ i ∧ (s.workers id).busyBit = true ∧
        ((s.workers i).pc = .foundId id ∧ s.lastWorkerId = i ∨
          (s.workers i).pc = .unsetId id ∧ s.lastWorkerId = id)
  | .claimed i id =>
      i < cfg.numWorkers ∧ s.starter = .started ∧ s.userdata = some i ∧
        id < cfg.numWorkers ∧ id ≠ i ∧ s.lastWorkerId = id
  | .handOver i id _ =>
      i < cfg.numWorkers ∧ s.starter = .started ∧ id < cfg.numWorkers ∧ id ≠ i ∧
        s.lastWorkerId = id ∧ ((s.workers i).pc = .setLeader id → s.userdata = some id)

/-- Program points of a worker thread at which a call may be in progress. -/
def Pc.isCallPoint : Pc Task Other → Bool
  | .inFunctor .. | .handling _ | .handled _ _ | .pop => true
  | _ => false

/-- Calls in progress: only the leader's own thread takes the direct branch, and
a worker thread is inside a call only where user code or `start_watcher` runs. -/
structure CallsOk (cfg : Config Task Other) (s : State Task Other) : Prop where
  direct : ∀ {thread worker : Nat} {f : TaskFunc Task Other},
    s.calls thread = .direct worker f →
      worker = thread ∧ thread < cfg.numWorkers ∧ (s.workers thread).leader = true
  point : ∀ j < cfg.numWorkers, s.calls j ≠ .idle → (s.workers j).pc.isCallPoint = true

/-- The hand-over invariant in a given phase. -/
structure InPhase (cfg : Config Task Other) (s : State Task Other) (phase : Phase) :
    Prop where
  roles : ∀ j < cfg.numWorkers, RoleOk cfg j (s.workers j) (phase.role j)
  shared : phase.Shared cfg s
  calls : CallsOk cfg s

/-! ## Frame rules -/

/-- A worker thread without a call in progress may move on, and other workers may
become leader, without disturbing the calls in progress. -/
theorem CallsOk.of_worker {cfg : Config Task Other} {s s' : State Task Other} {i : Nat}
    (ok : CallsOk cfg s) (idle : s.calls i = .idle) (calls : s'.calls = s.calls)
    (others : ∀ j, j ≠ i → (s'.workers j).pc = (s.workers j).pc ∧
      ((s.workers j).leader = true → (s'.workers j).leader = true)) :
    CallsOk cfg s' where
  direct := by
    intro thread worker f inDirect
    rw [calls] at inDirect
    obtain ⟨same, bound, leads⟩ := ok.direct inDirect
    have other : thread ≠ i := by
      intro equal
      rw [equal, idle] at inDirect
      cases inDirect
    exact ⟨same, bound, (others thread other).2 leads⟩
  point := by
    intro j bound busy
    rw [calls] at busy
    have other : j ≠ i := fun equal => busy (equal ▸ idle)
    rw [(others j other).1]
    exact ok.point j bound busy

/-- Bits, loops and event queues do not matter for the calls in progress, and a
worker may become leader. -/
theorem CallsOk.mono {cfg : Config Task Other} {s s' : State Task Other}
    (ok : CallsOk cfg s) (calls : s'.calls = s.calls)
    (records : ∀ j, (s'.workers j).pc = (s.workers j).pc ∧
      ((s.workers j).leader = true → (s'.workers j).leader = true)) :
    CallsOk cfg s' where
  direct := by
    intro thread worker f inDirect
    rw [calls] at inDirect
    obtain ⟨same, bound, leads⟩ := ok.direct inDirect
    exact ⟨same, bound, (records thread).2 leads⟩
  point := by
    intro j bound busy
    rw [calls] at busy
    rw [(records j).1]
    exact ok.point j bound busy

/-- Beginning, continuing or ending the call of one thread. -/
theorem CallsOk.setCall {cfg : Config Task Other} {s : State Task Other} {thread : Nat}
    {c : Call Task Other} (ok : CallsOk cfg s)
    (direct : ∀ worker f, c = .direct worker f →
      worker = thread ∧ thread < cfg.numWorkers ∧ (s.workers thread).leader = true)
    (point : thread < cfg.numWorkers → c ≠ .idle →
      (s.workers thread).pc.isCallPoint = true) :
    CallsOk cfg (s.setCall thread c) where
  direct := by
    intro other worker f inDirect
    simp only [State.setCall_calls, State.setCall_workers] at inDirect ⊢
    by_cases same : other = thread
    · subst same
      rw [Function.update_self] at inDirect
      exact direct worker f inDirect
    · rw [Function.update_of_ne same] at inDirect
      exact ok.direct inDirect
  point := by
    intro j bound busy
    simp only [State.setCall_calls, State.setCall_workers] at busy ⊢
    by_cases same : j = thread
    · subst same
      rw [Function.update_self] at busy
      exact point bound busy
    · rw [Function.update_of_ne same] at busy
      exact ok.point j bound busy

/-- The operations of one worker thread that keep its part: the shared variables
and the records of the other workers are unchanged. -/
theorem InPhase.of_local {cfg : Config Task Other} {s s' : State Task Other}
    {phase : Phase} {i : Nat} {w : Worker Task Other}
    (inv : InPhase cfg s phase) (bound : i < cfg.numWorkers)
    (workers : s'.workers = Function.update s.workers i w)
    (lastWorkerId : s'.lastWorkerId = s.lastWorkerId)
    (userdata : s'.userdata = s.userdata) (starter : s'.starter = s.starter)
    (calls : CallsOk cfg s')
    (role : RoleOk cfg i w (phase.role i))
    (keepsBit : (s.workers i).busyBit = true → w.busyBit = true)
    (born : (s.workers i).pc ≠ .unborn)
    (notUnset : ∀ id, (s.workers i).pc ≠ .foundId id ∧ (s.workers i).pc ≠ .unsetId id)
    (notLeader : ∀ id, w.pc ≠ .setLeader id) :
    InPhase cfg s' phase where
  roles := by
    intro j inside
    rw [workers]
    by_cases same : j = i
    · subst same
      rw [Function.update_self]
      exact role
    · rw [Function.update_of_ne same]
      exact inv.roles j inside
  calls := calls
  shared := by
    have shared := inv.shared
    have bit : ∀ j, (s.workers j).busyBit = true → (s'.workers j).busyBit = true := by
      intro j set
      rw [workers]
      by_cases same : j = i
      · subst same
        rw [Function.update_self]
        exact keepsBit set
      · rwa [Function.update_of_ne same]
    have point : ∀ j, j ≠ i → (s'.workers j).pc = (s.workers j).pc := by
      intro j other
      rw [workers, Function.update_of_ne other]
    cases phase with
    | boot =>
        simp only [Phase.Shared, lastWorkerId, starter] at shared ⊢
        refine ⟨shared.1, ?_⟩
        have second := shared.2
        split at second
        · intro j above
          have other : j ≠ i := fun equal => born (equal ▸ second j above)
          rw [point j other]
          exact second j above
        · exact fun j below inside => bit j (second j below inside)
        · exact bit 0 second
        · exact second
    | bootHandOver given =>
        cases given <;> simpa only [Phase.Shared, lastWorkerId, starter, userdata] using shared
    | led leader =>
        simpa only [Phase.Shared, lastWorkerId, starter, userdata] using shared
    | chosen leader id =>
        simp only [Phase.Shared, lastWorkerId, starter, userdata] at shared ⊢
        obtain ⟨inside, started, data, idInside, different, set, progress⟩ := shared
        have other : leader ≠ i := by
          rintro rfl
          rcases progress with ⟨at', -⟩ | ⟨at', -⟩
          · exact (notUnset id).1 at'
          · exact (notUnset id).2 at'
        rw [point leader other]
        exact ⟨inside, started, data, idInside, different, bit id set, progress⟩
    | claimed leader id =>
        simpa only [Phase.Shared, lastWorkerId, starter, userdata] using shared
    | handOver leader id given =>
        simp only [Phase.Shared, lastWorkerId, starter, userdata] at shared ⊢
        obtain ⟨inside, started, idInside, different, last, data⟩ := shared
        refine ⟨inside, started, idInside, different, last, ?_⟩
        intro at'
        by_cases same : leader = i
        · rw [same, workers, Function.update_self] at at'
          exact absurd at' (notLeader id)
        · exact data (point leader same ▸ at')

/-- Program points that only the owner of the loop reaches, apart from the
hand-over itself. -/
def Pc.isLeaderPoint : Pc Task Other → Bool
  | .inLoop | .fired .. | .stopWatcher .. | .addEvent .. | .swap .. | .drain ..
  | .execFront .. | .inFunctor .. | .loopReturned | .freeWorker | .next .. => true
  | _ => false

/-- A worker at such a point is the leader of the current phase. -/
theorem InPhase.eq_led {cfg : Config Task Other} {s : State Task Other} {phase : Phase}
    {i : Nat} (inv : InPhase cfg s phase) (bound : i < cfg.numWorkers)
    (point : (s.workers i).pc.isLeaderPoint = true) : phase = .led i := by
  have role := inv.roles i bound
  have onlyLeader : phase.role i = .leader := by
    generalize phase.role i = part at role
    cases part with
    | leader => rfl
    | follower =>
        have at' := role.2.2
        revert point at'
        unfold FollowerAt
        cases (s.workers i).pc <;> simp [Pc.isLeaderPoint]
    | target given =>
        rcases role.2.2.2.2 with at' | at' <;> simp [at', Pc.isLeaderPoint] at point
    | choosing id =>
        rcases role.2.2.2 with at' | at' <;> simp [at', Pc.isLeaderPoint] at point
    | claiming id => simp [role.2.2.2, Pc.isLeaderPoint] at point
    | promoter id given =>
        rcases role.2.2.2 with ⟨-, at'⟩ | ⟨-, at' | at'⟩ <;>
          simp [at', Pc.isLeaderPoint] at point
  cases phase <;> simp only [Phase.role] at onlyLeader
  case led leader =>
    split at onlyLeader
    · next same => rw [same]
    · cases onlyLeader
  all_goals
    repeat' split at onlyLeader
    all_goals cases onlyLeader

/-- A program point from which a worker thread moves on without taking part in
the hand-over. -/
def Pc.isQuiet : Pc Task Other → Bool
  | .unborn | .foundId _ | .unsetId _ | .demote _ | .moveLoop _ | .setUserdata _
  | .setLeader _ => false
  | _ => true

/-- Only the record of worker `i` differs among the variables that the hand-over
depends on. -/
structure OnlyWorker (s s' : State Task Other) (i : Nat) (w : Worker Task Other) :
    Prop where
  workers : s'.workers = Function.update s.workers i w
  lastWorkerId : s'.lastWorkerId = s.lastWorkerId
  userdata : s'.userdata = s.userdata
  starter : s'.starter = s.starter
  calls : s'.calls = s.calls

/-- A worker thread that keeps its part while its own record changes. -/
theorem InPhase.of_quiet {cfg : Config Task Other} {s s' : State Task Other}
    {phase : Phase} {i : Nat} {w : Worker Task Other}
    (inv : InPhase cfg s phase) (run : runnable cfg s i) (only : OnlyWorker s s' i w)
    (quiet : (s.workers i).pc.isQuiet = true) (quiet' : w.pc.isQuiet = true)
    (keepsBit : (s.workers i).busyBit = true → w.busyBit = true)
    (role : RoleOk cfg i w (phase.role i)) : InPhase cfg s' phase := by
  apply inv.of_local run.1 only.workers only.lastWorkerId only.userdata only.starter _
    role keepsBit
  · intro at'
    simp [at', Pc.isQuiet] at quiet
  · intro id
    constructor <;> intro at' <;> simp [at', Pc.isQuiet] at quiet
  · intro id at'
    simp [at', Pc.isQuiet] at quiet'
  · apply inv.calls.of_worker run.2 only.calls
    intro j other
    rw [only.workers, Function.update_of_ne other]
    exact ⟨rfl, id⟩

/-- A worker that moves on from a quiet program point keeps its part if it does so as a
follower, as the target of a hand-over and as a leader. -/
theorem RoleOk.moveTo {cfg : Config Task Other} {i : Nat} {w : Worker Task Other}
    {pc : Pc Task Other} (quiet : w.pc.isQuiet = true)
    (follower : w.leader = false → FollowerAt w → FollowerAt (w.moveTo pc))
    (target : w.leader = false → w.pc = .top ∨ w.pc = .waiting → pc = .top ∨ pc = .waiting)
    (leader : w.leader = true → w.busyBit = false → LeaderAt cfg i w →
      LeaderAt cfg i (w.moveTo pc))
    (part : Role) (role : RoleOk cfg i w part) : RoleOk cfg i (w.moveTo pc) part := by
  cases part with
  | follower => exact ⟨role.1, role.2.1, follower role.1 role.2.2⟩
  | target given =>
      obtain ⟨notLeader, loop, bit, events, point⟩ := role
      exact ⟨notLeader, loop, bit, events, target notLeader point⟩
  | leader => exact ⟨role.1, role.2.1, role.2.2.1, leader role.1 role.2.2.1 role.2.2.2⟩
  | choosing id =>
      rcases role.2.2.2 with point | point <;> simp [point, Pc.isQuiet] at quiet
  | claiming id => simp [role.2.2.2, Pc.isQuiet] at quiet
  | promoter id given =>
      rcases role.2.2.2 with ⟨-, point⟩ | ⟨-, point | point⟩ <;>
        simp [point, Pc.isQuiet] at quiet

/-- A worker thread that moves to another quiet program point. -/
theorem InPhase.of_moveTo {cfg : Config Task Other} {s s' : State Task Other}
    {phase : Phase} {i : Nat} {pc : Pc Task Other}
    (inv : InPhase cfg s phase) (run : runnable cfg s i)
    (only : OnlyWorker s s' i ((s.workers i).moveTo pc))
    (quiet : (s.workers i).pc.isQuiet = true) (quiet' : pc.isQuiet = true)
    (role : ∀ part, RoleOk cfg i (s.workers i) part →
      RoleOk cfg i ((s.workers i).moveTo pc) part) : InPhase cfg s' phase :=
  inv.of_quiet run only quiet quiet' id (role _ (inv.roles i run.1))

/-- The record of the leader of the current phase. -/
theorem InPhase.leader {cfg : Config Task Other} {s : State Task Other} {i : Nat}
    (inv : InPhase cfg s (.led i)) :
    (s.workers i).leader = true ∧ (s.workers i).loop = true ∧
      (s.workers i).busyBit = false ∧ LeaderAt cfg i (s.workers i) := by
  have role := inv.roles i inv.shared.1
  simpa only [Phase.role, ↓reduceIte, RoleOk] using role

/-- The local variable of a callback that holds `ev_userdata(loop)`. -/
def Pc.callbackWorker : Pc Task Other → Option Nat
  | .fired worker _ | .stopWatcher worker _ | .addEvent worker _ => some worker
  | .swap worker _ | .drain worker _ _ => some worker
  | .execFront worker _ _ _ | .inFunctor worker _ _ _ => some worker
  | _ => none

/-- Callbacks run in the thread of the leader, and the worker they read from the
loop is the leader itself. -/
theorem InPhase.callback {cfg : Config Task Other} {s : State Task Other} {phase : Phase}
    {i worker : Nat} (inv : InPhase cfg s phase) (bound : i < cfg.numWorkers)
    (inside : (s.workers i).pc.callbackWorker = some worker) :
    phase = .led i ∧ worker = i := by
  have point : (s.workers i).pc.isLeaderPoint = true := by
    revert inside
    cases (s.workers i).pc <;> simp [Pc.callbackWorker, Pc.isLeaderPoint]
  obtain rfl := inv.eq_led bound point
  refine ⟨rfl, ?_⟩
  have at' := inv.leader.2.2.2
  revert inside at'
  unfold LeaderAt
  cases (s.workers i).pc <;>
    simp only [Pc.callbackWorker, reduceCtorEq, Option.some.injEq, false_implies]
  case swap =>
    rintro rfl self
    exact self.1
  all_goals
    rintro rfl self
    exact self

/-- The test of `exec_in_worker_ctx` succeeds inside the callbacks, which run in
the leader's thread on the worker stored in the loop. -/
theorem InPhase.isDirect_self {cfg : Config Task Other} {s : State Task Other} {i : Nat}
    (inv : InPhase cfg s (.led i)) : isDirect cfg s i i = true := by
  simp [isDirect, workerGet, inv.shared.1, inv.leader.1]

/-- `dispatcher::start` creates a thread that did not exist before. -/
theorem InPhase.unborn_of_spawn {cfg : Config Task Other} {s : State Task Other}
    {phase : Phase} {k : Nat} (inv : InPhase cfg s phase) (point : s.starter = .spawn k) :
    (s.workers k).pc = .unborn := by
  have shared := inv.shared
  cases phase with
  | boot =>
      simp only [Phase.Shared, point] at shared
      exact shared.2 k le_rfl
  | bootHandOver given => cases given <;> simp [Phase.Shared, point] at shared
  | led | chosen | claimed | handOver => simp [Phase.Shared, point] at shared

variable [DecidableEq Task]

/-- Every operation of a worker thread outside the hand-over keeps the phase. -/
theorem InPhase.quietStep {cfg : Config Task Other} {s s' : State Task Other}
    {phase : Phase} {i : Nat} (inv : InPhase cfg s phase) (run : runnable cfg s i)
    (stepped : workerStep cfg s i = some s')
    (quiet : (s.workers i).pc.isQuiet = true)
    (notFound : ∀ chkIdx chkCnt, (s.workers i).pc = .next chkIdx chkCnt →
      (s.workers chkIdx).busyBit = false) :
    InPhase cfg s' phase := by
  have role := inv.roles i run.1
  cases at' : (s.workers i).pc with
  | unborn | inLoop | aborted | handling => simp [workerStep, at'] at stepped
  | foundId | unsetId | demote | moveLoop | setUserdata | setLeader =>
      simp [at', Pc.isQuiet] at quiet
  | markFree =>
      simp only [workerStep, at', Option.some.injEq] at stepped
      subst stepped
      refine inv.of_quiet run ⟨rfl, rfl, rfl, rfl, rfl⟩ quiet rfl (fun _ => rfl) ?_
      generalize phase.role i = part at role ⊢
      cases part <;> simp_all [RoleOk, FollowerAt, LeaderAt]
  | top =>
      simp only [workerStep, at', Option.some.injEq] at stepped
      subst stepped
      refine inv.of_moveTo run ⟨rfl, rfl, rfl, rfl, rfl⟩ quiet ?_ ?_
      · split <;> rfl
      · apply RoleOk.moveTo quiet <;> simp_all [FollowerAt, LeaderAt]
  | waiting =>
      simp only [workerStep, at'] at stepped
      split at stepped
      · next leads =>
        simp only [Option.some.injEq] at stepped
        subst stepped
        refine inv.of_moveTo run ⟨rfl, rfl, rfl, rfl, rfl⟩ quiet rfl ?_
        apply RoleOk.moveTo quiet <;> simp [FollowerAt, LeaderAt, at', leads]
      · cases stepped
  | lead =>
      simp only [workerStep, at', Option.some.injEq] at stepped
      subst stepped
      refine inv.of_moveTo run ⟨rfl, rfl, rfl, rfl, rfl⟩ quiet ?_ ?_
      · split <;> rfl
      · apply RoleOk.moveTo quiet <;> simp_all [FollowerAt, LeaderAt]
  | fired worker event =>
      obtain ⟨rfl, rfl⟩ := inv.callback run.1 (by rw [at']; rfl)
      simp only [workerStep, at', inv.isDirect_self, ↓reduceIte, Option.some.injEq] at stepped
      subst stepped
      refine inv.of_moveTo run ⟨rfl, rfl, rfl, rfl, rfl⟩ quiet rfl ?_
      apply RoleOk.moveTo quiet <;> simp [FollowerAt, LeaderAt, at']
  | stopWatcher worker event =>
      simp only [workerStep, at', Option.some.injEq] at stepped
      subst stepped
      refine inv.of_moveTo run ⟨rfl, rfl, rfl, rfl, rfl⟩ quiet rfl ?_
      apply RoleOk.moveTo quiet <;> simp [FollowerAt, LeaderAt, at']
  | addEvent worker event =>
      obtain ⟨rfl, rfl⟩ := inv.callback run.1 (by rw [at']; rfl)
      simp only [workerStep, at', Option.some.injEq] at stepped
      subst stepped
      refine inv.of_quiet run ⟨Function.update_idem .., rfl, rfl, rfl, rfl⟩ quiet ?_ ?_ ?_
      all_goals simp_all [Phase.role, RoleOk, LeaderAt, Pc.isQuiet]
  | swap worker queue =>
      simp only [workerStep, at', Option.some.injEq] at stepped
      subst stepped
      refine inv.of_moveTo run ⟨rfl, rfl, rfl, rfl, rfl⟩ quiet rfl ?_
      apply RoleOk.moveTo quiet <;> simp +contextual [FollowerAt, LeaderAt, at']
  | drain worker queue qcpy =>
      obtain ⟨rfl, rfl⟩ := inv.callback run.1 (by rw [at']; rfl)
      cases qcpy with
      | nil =>
          simp only [workerStep, at', Option.some.injEq] at stepped
          subst stepped
          refine inv.of_moveTo run ⟨rfl, rfl, rfl, rfl, rfl⟩ quiet rfl ?_
          apply RoleOk.moveTo quiet <;> simp [FollowerAt, LeaderAt, at']
      | cons front qcpy =>
          cases build : cfg.build <;>
            simp only [workerStep, at', build, inv.isDirect_self, ↓reduceIte,
              Option.some.injEq] at stepped <;>
            subst stepped <;>
            refine inv.of_moveTo run ⟨rfl, rfl, rfl, rfl, rfl⟩ quiet rfl ?_ <;>
            apply RoleOk.moveTo quiet <;> simp [FollowerAt, LeaderAt, at']
  | execFront worker queue front qcpy =>
      simp only [workerStep, at', Option.some.injEq] at stepped
      have only : OnlyWorker s s' i
          ((s.workers i).moveTo (.inFunctor worker queue front qcpy)) := by
        subst stepped
        constructor <;> simp
      refine inv.of_moveTo run only quiet rfl ?_
      apply RoleOk.moveTo quiet <;> simp [FollowerAt, LeaderAt, at']
  | inFunctor worker queue front qcpy =>
      simp only [workerStep, at', Option.some.injEq] at stepped
      subst stepped
      refine inv.of_moveTo run ⟨rfl, rfl, rfl, rfl, rfl⟩ quiet rfl ?_
      apply RoleOk.moveTo quiet <;> simp [FollowerAt, LeaderAt, at']
  | loopReturned =>
      simp only [workerStep, at', Option.some.injEq] at stepped
      subst stepped
      refine inv.of_moveTo run ⟨rfl, rfl, rfl, rfl, rfl⟩ quiet ?_ ?_
      · split <;> rfl
      · cases empty : (s.workers i).events <;>
          apply RoleOk.moveTo quiet <;> simp [FollowerAt, LeaderAt, at', empty]
  | freeWorker =>
      obtain rfl := inv.eq_led run.1 (by rw [at']; rfl)
      have last : s.lastWorkerId < cfg.numWorkers := by
        rw [inv.shared.2.2.2]
        exact inv.shared.1
      simp only [workerStep, at', Option.some.injEq] at stepped
      subst stepped
      refine inv.of_moveTo run ⟨rfl, rfl, rfl, rfl, rfl⟩ quiet ?_ ?_
      · split <;> rfl
      · split <;> apply RoleOk.moveTo quiet <;> simp [FollowerAt, LeaderAt, at', last]
  | next chkIdx chkCnt =>
      obtain rfl := inv.eq_led run.1 (by rw [at']; rfl)
      have inside : chkIdx < cfg.numWorkers := by
        simpa [LeaderAt, at'] using inv.leader.2.2.2
      have after : nextIdx cfg chkIdx < cfg.numWorkers := by
        simp only [nextIdx]
        split
        · omega
        · omega
      simp only [workerStep, at', inside, notFound chkIdx chkCnt at', ↓reduceIte,
        Bool.false_eq_true] at stepped
      split at stepped <;>
        simp only [Option.some.injEq] at stepped <;>
        subst stepped <;>
        refine inv.of_moveTo run ⟨rfl, rfl, rfl, rfl, rfl⟩ quiet rfl ?_ <;>
        apply RoleOk.moveTo quiet <;> simp [FollowerAt, LeaderAt, at', after]
  | handle =>
      simp only [workerStep, at'] at stepped
      split at stepped
      · next empty =>
        simp only [Option.some.injEq] at stepped
        subst stepped
        refine inv.of_moveTo run ⟨rfl, rfl, rfl, rfl, rfl⟩ quiet rfl ?_
        apply RoleOk.moveTo quiet <;> simp [FollowerAt, LeaderAt, at', empty]
      · next event rest queued =>
        simp only [Option.some.injEq] at stepped
        subst stepped
        refine inv.of_quiet run ⟨rfl, rfl, rfl, rfl, rfl⟩ quiet rfl id ?_
        generalize phase.role i = part at role ⊢
        cases part <;> simp_all [RoleOk, FollowerAt, LeaderAt]
  | handled event cont =>
      cases cont with
      | false =>
          simp only [workerStep, at', Option.some.injEq] at stepped
          subst stepped
          refine inv.of_moveTo run ⟨rfl, rfl, rfl, rfl, rfl⟩ quiet rfl ?_
          apply RoleOk.moveTo quiet <;> simp [FollowerAt, LeaderAt, at']
      | true =>
          simp only [workerStep, at', Option.some.injEq] at stepped
          have moved : InPhase cfg (s.goto i .pop) phase := by
            refine inv.of_moveTo run ⟨rfl, rfl, rfl, rfl, rfl⟩ quiet rfl ?_
            apply RoleOk.moveTo quiet <;> simp [FollowerAt, LeaderAt, at']
          subst stepped
          refine ⟨moved.roles, moved.shared, moved.calls.setCall ?_ ?_⟩
          · intro worker f impossible
            cases impossible
          · intro _ _
            simp [Pc.isCallPoint]
  | pop =>
      simp only [workerStep, at', Option.some.injEq] at stepped
      subst stepped
      refine inv.of_quiet run ⟨rfl, rfl, rfl, rfl, rfl⟩ quiet rfl id ?_
      generalize phase.role i = part at role ⊢
      cases part <;> simp_all [RoleOk, FollowerAt, LeaderAt]

/-! ## The hand-over -/

/-- The phase that a program point of the hand-over belongs to. -/
def Pc.handOverPhase (i : Nat) : Pc Task Other → Option Phase
  | .foundId id | .unsetId id => some (.chosen i id)
  | .demote id => some (.claimed i id)
  | .moveLoop id => some (.handOver i id false)
  | .setUserdata id | .setLeader id => some (.handOver i id true)
  | _ => none

omit [DecidableEq Task] in
/-- A worker thread inside the hand-over determines the phase. -/
theorem InPhase.eq_handOverPhase {cfg : Config Task Other} {s : State Task Other}
    {phase phase' : Phase} {i : Nat} (inv : InPhase cfg s phase)
    (bound : i < cfg.numWorkers)
    (inside : (s.workers i).pc.handOverPhase i = some phase') : phase = phase' := by
  have role := inv.roles i bound
  cases at' : (s.workers i).pc <;>
    simp only [at', Pc.handOverPhase, reduceCtorEq, Option.some.injEq] at inside <;>
    subst inside <;>
    cases phase <;> simp only [Phase.role] at role
  all_goals (repeat' split at role)
  all_goals simp_all [RoleOk, FollowerAt, LeaderAt]

omit [DecidableEq Task] in
/-- Change of phase by an operation of worker thread `i` that touches at most the
records of `i` and of `id`. -/
theorem InPhase.advance {cfg : Config Task Other} {s s' : State Task Other}
    {phase phase' : Phase} {i : Nat} (inv : InPhase cfg s phase)
    (run : runnable cfg s i) (id : Nat) (calls : s'.calls = s.calls)
    (others : ∀ j, j ≠ i → j ≠ id →
      s'.workers j = s.workers j ∧ phase'.role j = phase.role j)
    (own : RoleOk cfg i (s'.workers i) (phase'.role i))
    (target : RoleOk cfg id (s'.workers id) (phase'.role id))
    (point : id ≠ i → (s'.workers id).pc = (s.workers id).pc ∧
      ((s.workers id).leader = true → (s'.workers id).leader = true))
    (shared : phase'.Shared cfg s') : InPhase cfg s' phase' where
  roles := by
    intro j bound
    by_cases same : j = i
    · exact same ▸ own
    · by_cases chosen : j = id
      · exact chosen ▸ target
      · obtain ⟨record, part⟩ := others j same chosen
        rw [record, part]
        exact inv.roles j bound
  shared := shared
  calls := by
    refine inv.calls.of_worker run.2 calls ?_
    intro j other
    by_cases chosen : j = id
    · subst chosen
      exact point other
    · rw [(others j other chosen).1]
      exact ⟨rfl, fun leads => leads⟩

omit [DecidableEq Task] in
/-- A follower whose bit is set is waiting with an empty event queue. -/
theorem FollowerAt.of_busyBit {w : Worker Task Other} (at' : FollowerAt w)
    (set : w.busyBit = true) : w.events = [] ∧ (w.pc = .top ∨ w.pc = .waiting) := by
  unfold FollowerAt at at'
  split at at' <;> simp_all

/-- The bit that the leader finds set belongs to a follower that can be chosen. -/
theorem InPhase.foundStep {cfg : Config Task Other} {s s' : State Task Other}
    {phase : Phase} {i chkIdx chkCnt : Nat} (inv : InPhase cfg s phase)
    (run : runnable cfg s i) (stepped : workerStep cfg s i = some s')
    (point : (s.workers i).pc = .next chkIdx chkCnt)
    (found : (s.workers chkIdx).busyBit = true) :
    InPhase cfg s' (.chosen i chkIdx) := by
  obtain rfl := inv.eq_led run.1 (by rw [point]; rfl)
  obtain ⟨leads, loop, bit, at'⟩ := inv.leader
  obtain ⟨-, started, data, last⟩ := inv.shared
  have inside : chkIdx < cfg.numWorkers := by simpa [LeaderAt, point] using at'
  have different : chkIdx ≠ i := by
    rintro rfl
    simp [bit] at found
  have role := inv.roles chkIdx inside
  simp only [workerStep, point, inside, found, ↓reduceIte, Option.some.injEq] at stepped
  subst stepped
  refine inv.advance run chkIdx rfl ?_ ?_ ?_ ?_ ?_
  · intro j other chosen
    simp [Phase.role, other]
  · simp [Phase.role, RoleOk, leads, loop, bit]
  · simpa [Phase.role, different] using role
  · simp [different]
  · refine ⟨run.1, started, data, inside, different, ?_, ?_⟩
    · simpa [different] using found
    · left
      simpa using last

/-- A worker thread inside the hand-over. -/
theorem InPhase.handOverStep {cfg : Config Task Other} {s s' : State Task Other}
    {phase : Phase} {i : Nat} (inv : InPhase cfg s phase) (run : runnable cfg s i)
    (stepped : workerStep cfg s i = some s')
    (loud : (s.workers i).pc.isQuiet = false) :
    ∃ phase', InPhase cfg s' phase' := by
  have role := inv.roles i run.1
  cases at' : (s.workers i).pc with
  | unborn => simp [workerStep, at'] at stepped
  | foundId id =>
      obtain rfl := inv.eq_handOverPhase run.1 (by rw [at']; rfl)
      obtain ⟨-, started, data, inside, different, set, -⟩ := inv.shared
      have chosen := inv.roles id inside
      simp only [workerStep, at', Option.some.injEq] at stepped
      subst stepped
      refine ⟨.chosen i id, inv.advance run id rfl ?_ ?_ ?_ ?_ ?_⟩
      · intro j other _
        simp [other]
      · simp_all [Phase.role, RoleOk]
      · simpa [Phase.role, different] using chosen
      · simp [different]
      · refine ⟨run.1, started, data, inside, different, ?_, Or.inr ?_⟩
        · simpa [different] using set
        · simp
  | unsetId id =>
      obtain rfl := inv.eq_handOverPhase run.1 (by rw [at']; rfl)
      obtain ⟨-, started, data, inside, different, set, progress⟩ := inv.shared
      have last : s.lastWorkerId = id := by
        rcases progress with ⟨other, -⟩ | ⟨-, last⟩
        · simp [at'] at other
        · exact last
      have chosen := inv.roles id inside
      simp only [Phase.role, different, ↓reduceIte, RoleOk] at chosen
      have waits := chosen.2.2.of_busyBit set
      simp only [workerStep, at', Option.some.injEq] at stepped
      subst stepped
      refine ⟨.claimed i id, inv.advance run id rfl ?_ ?_ ?_ ?_ ?_⟩
      · intro j other notChosen
        simp [Phase.role, other, notChosen]
      · simp_all [Phase.role, RoleOk, different.symm]
      · simp_all [Phase.role, RoleOk]
      · simp [different]
      · exact ⟨run.1, started, data, inside, different, last⟩
  | demote id =>
      obtain rfl := inv.eq_handOverPhase run.1 (by rw [at']; rfl)
      obtain ⟨-, started, data, inside, different, last⟩ := inv.shared
      have chosen := inv.roles id inside
      simp only [workerStep, at', Option.some.injEq] at stepped
      subst stepped
      refine ⟨.handOver i id false, inv.advance run id rfl ?_ ?_ ?_ ?_ ?_⟩
      · intro j other notChosen
        simp [Phase.role, other, notChosen]
      · simp_all [Phase.role, RoleOk]
      · simpa [Phase.role, different] using chosen
      · simp [different]
      · exact ⟨run.1, started, inside, different, last, by simp⟩
  | moveLoop id =>
      obtain rfl := inv.eq_handOverPhase run.1 (by rw [at']; rfl)
      obtain ⟨-, started, inside, different, last, -⟩ := inv.shared
      have chosen := inv.roles id inside
      simp only [workerStep, at', Option.some.injEq] at stepped
      subst stepped
      refine ⟨.handOver i id true, inv.advance run id rfl ?_ ?_ ?_ ?_ ?_⟩
      · intro j other notChosen
        simp [Phase.role, other, notChosen]
      · simp_all [Phase.role, RoleOk, different.symm]
      · simp_all [Phase.role, RoleOk]
      · simp [different]
      · exact ⟨run.1, started, inside, different, last, by simp [different.symm]⟩
  | setUserdata id =>
      obtain rfl := inv.eq_handOverPhase run.1 (by rw [at']; rfl)
      obtain ⟨-, started, inside, different, last, -⟩ := inv.shared
      have chosen := inv.roles id inside
      simp only [workerStep, at', Option.some.injEq] at stepped
      subst stepped
      refine ⟨.handOver i id true, inv.advance run id rfl ?_ ?_ ?_ ?_ ?_⟩
      · intro j other _
        simp [other]
      · simp_all [Phase.role, RoleOk]
      · simpa [Phase.role, different] using chosen
      · simp [different]
      · exact ⟨run.1, started, inside, different, last, fun _ => rfl⟩
  | setLeader id =>
      obtain rfl := inv.eq_handOverPhase run.1 (by rw [at']; rfl)
      obtain ⟨-, started, inside, different, last, data⟩ := inv.shared
      have chosen := inv.roles id inside
      simp only [workerStep, at', Option.some.injEq] at stepped
      subst stepped
      refine ⟨.led id, inv.advance run id rfl ?_ ?_ ?_ ?_ ?_⟩
      · intro j other notChosen
        simp [Phase.role, other, notChosen]
      · simp_all [Phase.role, RoleOk, FollowerAt, different.symm]
      · simp only [Phase.role, different, ↓reduceIte, RoleOk] at chosen
        rcases chosen.2.2.2.2 with waits | waits <;>
          simp_all [Phase.role, RoleOk, LeaderAt]
      · simp [different]
      · exact ⟨inside, started, data at', last⟩
  | _ => simp [at', Pc.isQuiet] at loud

/-! ## All steps -/

omit [DecidableEq Task] in
/-- Worker 0 after an operation of `dispatcher::start` on it. -/
theorem InPhase.ofFirst {cfg : Config Task Other} {s s' : State Task Other}
    {phase phase' : Phase} {w : Worker Task Other} (inv : InPhase cfg s phase)
    (workers : s'.workers = Function.update s.workers 0 w) (calls : s'.calls = s.calls)
    (others : ∀ j, j ≠ 0 → phase'.role j = phase.role j)
    (role : RoleOk cfg 0 w (phase'.role 0)) (pc : w.pc = (s.workers 0).pc)
    (leader : (s.workers 0).leader = true → w.leader = true)
    (shared : phase'.Shared cfg s') : InPhase cfg s' phase' where
  roles := by
    intro j bound
    rw [workers]
    by_cases first : j = 0
    · subst first
      rw [Function.update_self]
      exact role
    · rw [Function.update_of_ne first, others j first]
      exact inv.roles j bound
  shared := shared
  calls := by
    refine inv.calls.mono calls ?_
    intro j
    rw [workers]
    by_cases first : j = 0
    · subst first
      rw [Function.update_self]
      exact ⟨pc, leader⟩
    · rw [Function.update_of_ne first]
      exact ⟨rfl, id⟩

omit [DecidableEq Task] in
/-- `dispatcher::start` before it hands the loop over. -/
theorem InPhase.bootStep {cfg : Config Task Other} {s s' : State Task Other}
    (inv : InPhase cfg s .boot) (nonempty : 0 < cfg.numWorkers)
    (stepped : starterStep cfg s = some s') : ∃ phase', InPhase cfg s' phase' := by
  obtain ⟨last, progress⟩ := inv.shared
  cases point : s.starter with
  | spawn k =>
      rw [point] at progress
      simp only [starterStep, point] at stepped
      split at stepped
      · next inside =>
        have unborn : (s.workers k).pc = .unborn := progress k le_rfl
        have role := inv.roles k inside
        simp only [Phase.role, RoleOk, FollowerAt, unborn] at role
        have idle : s.calls k = .idle := by
          by_contra busy
          have inCall := inv.calls.point k inside busy
          simp [unborn, Pc.isCallPoint] at inCall
        simp only [Option.some.injEq] at stepped
        subst stepped
        refine ⟨.boot, ?_, ⟨last, ?_⟩, inv.calls.of_worker idle rfl ?_⟩
        · intro j bound
          by_cases same : j = k
          · subst same
            simp [Phase.role, RoleOk, FollowerAt, role]
          · simpa [same] using inv.roles j bound
        · intro j above
          have other : j ≠ k := by omega
          simpa [other] using progress j (by omega)
        · intro j other
          simp [other]
      · simp only [Option.some.injEq] at stepped
        subst stepped
        refine ⟨.boot, inv.roles, ⟨last, ?_⟩, inv.calls.mono rfl fun _ => ⟨rfl, id⟩⟩
        intro j below
        omega
  | waitBit k =>
      rw [point] at progress
      simp only [starterStep, point] at stepped
      split at stepped
      · next inside =>
        split at stepped
        · next set =>
          simp only [Option.some.injEq] at stepped
          subst stepped
          refine ⟨.boot, inv.roles, ⟨last, ?_⟩, inv.calls.mono rfl fun _ => ⟨rfl, id⟩⟩
          intro j below bound
          by_cases same : j = k
          · exact same ▸ set
          · exact progress j (by omega) bound
        · cases stepped
      · simp only [Option.some.injEq] at stepped
        subst stepped
        refine ⟨.boot, inv.roles, ⟨last, ?_⟩, inv.calls.mono rfl fun _ => ⟨rfl, id⟩⟩
        exact progress 0 (by omega) nonempty
  | unsetFirst =>
      rw [point] at progress
      simp only [starterStep, point, Option.some.injEq] at stepped
      subst stepped
      have role := inv.roles 0 nonempty
      simp only [Phase.role, RoleOk] at role
      have waits := role.2.2.of_busyBit progress
      refine ⟨.bootHandOver false, inv.ofFirst rfl rfl ?_ ?_ rfl (fun leads => leads) ?_⟩
      · intro j other
        simp [Phase.role, other]
      · simp_all [Phase.role, RoleOk]
      · exact ⟨last, rfl⟩
  | moveLoop | setUserdata | setLeader | started =>
      rw [point] at progress
      exact progress.elim

omit [DecidableEq Task] in
/-- `dispatcher::start` while it hands the loop to worker 0. -/
theorem InPhase.bootHandOverStep {cfg : Config Task Other} {s s' : State Task Other}
    {given : Bool} (inv : InPhase cfg s (.bootHandOver given))
    (nonempty : 0 < cfg.numWorkers) (stepped : starterStep cfg s = some s') :
    ∃ phase', InPhase cfg s' phase' := by
  have role := inv.roles 0 nonempty
  simp only [Phase.role, ↓reduceIte, RoleOk] at role
  cases given with
  | false =>
      obtain ⟨last, point⟩ := inv.shared
      simp only [starterStep, point, Option.some.injEq] at stepped
      subst stepped
      refine ⟨.bootHandOver true, inv.ofFirst rfl rfl ?_ ?_ rfl (fun leads => leads) ?_⟩
      · intro j other
        simp [Phase.role, other]
      · simp_all [Phase.role, RoleOk]
      · exact ⟨last, Or.inl rfl⟩
  | true =>
      obtain ⟨last, point | ⟨point, data⟩⟩ := inv.shared
      · simp only [starterStep, point, Option.some.injEq] at stepped
        subst stepped
        exact ⟨.bootHandOver true, inv.roles, ⟨last, Or.inr ⟨rfl, rfl⟩⟩,
          inv.calls.mono rfl fun _ => ⟨rfl, id⟩⟩
      · simp only [starterStep, point, Option.some.injEq] at stepped
        subst stepped
        refine ⟨.led 0, inv.ofFirst rfl rfl ?_ ?_ rfl (fun _ => rfl) ?_⟩
        · intro j other
          simp [Phase.role, other]
        · rcases role.2.2.2.2 with waits | waits <;>
            simp_all [Phase.role, RoleOk, LeaderAt]
        · exact ⟨nonempty, rfl, data, last⟩

omit [DecidableEq Task] in
/-- The operations of `dispatcher::start`. -/
theorem InPhase.starterStep {cfg : Config Task Other} {s s' : State Task Other}
    {phase : Phase} (inv : InPhase cfg s phase) (nonempty : 0 < cfg.numWorkers)
    (stepped : starterStep cfg s = some s') : ∃ phase', InPhase cfg s' phase' := by
  cases phase with
  | boot => exact inv.bootStep nonempty stepped
  | bootHandOver given => exact inv.bootHandOverStep nonempty stepped
  | led | chosen | claimed | handOver =>
      obtain ⟨-, started, -⟩ := inv.shared
      simp [Dispatcher.starterStep, started] at stepped

/-- The operations of a worker thread. -/
theorem InPhase.workerStep {cfg : Config Task Other} {s s' : State Task Other}
    {phase : Phase} {i : Nat} (inv : InPhase cfg s phase) (run : runnable cfg s i)
    (stepped : workerStep cfg s i = some s') : ∃ phase', InPhase cfg s' phase' := by
  cases quiet : (s.workers i).pc.isQuiet with
  | false => exact inv.handOverStep run stepped quiet
  | true =>
      by_cases found : ∃ chkIdx chkCnt, (s.workers i).pc = .next chkIdx chkCnt ∧
          (s.workers chkIdx).busyBit = true
      · obtain ⟨chkIdx, chkCnt, point, set⟩ := found
        exact ⟨_, inv.foundStep run stepped point set⟩
      · refine ⟨phase, inv.quietStep run stepped quiet ?_⟩
        intro chkIdx chkCnt point
        by_contra set
        exact found ⟨chkIdx, chkCnt, point, by simpa using set⟩

omit [DecidableEq Task] in
/-- The event loop enters a callback in the leader's thread. -/
theorem InPhase.enterCallback {cfg : Config Task Other} {s s' : State Task Other}
    {phase : Phase} {i : Nat} {w : Worker Task Other} {point : Nat → Pc Task Other}
    (inv : InPhase cfg s phase) (run : runnable cfg s i)
    (inLoop : (s.workers i).pc = .inLoop) (only : OnlyWorker s s' i w)
    (sameRecord : w = { s.workers i with firings := w.firings })
    (quiet : ∀ worker, (point worker).isQuiet = true)
    (entry : ∀ w : Worker Task Other, LeaderAt cfg i (w.moveTo (point i))) :
    InPhase cfg (enterCallback s' i point) phase := by
  obtain rfl := inv.eq_led run.1 (by rw [inLoop]; rfl)
  obtain ⟨leads, loop, bit, -⟩ := inv.leader
  obtain ⟨-, -, data, -⟩ := inv.shared
  have entered : Dispatcher.enterCallback s' i point = s'.goto i (point i) := by
    simp only [Dispatcher.enterCallback, only.userdata, data]
  rw [entered]
  have own : s'.workers i = w := by rw [only.workers, Function.update_self]
  have changed : OnlyWorker s (s'.goto i (point i)) i (w.moveTo (point i)) := by
    refine ⟨?_, only.lastWorkerId, only.userdata, only.starter, only.calls⟩
    rw [State.goto_workers, own, only.workers, Function.update_idem]
  refine inv.of_quiet run changed (by rw [inLoop]; rfl) (quiet i) ?_ ?_
  · rw [sameRecord]
    exact id
  · simp only [Phase.role, ↓reduceIte]
    refine ⟨?_, ?_, ?_, entry w⟩ <;> rw [sameRecord] <;> assumption

omit [DecidableEq Task] in
/-- Steps that only touch calls in progress, functor queues, watchers or the
record of added tasks. -/
theorem InPhase.of_calls {cfg : Config Task Other} {s s' : State Task Other}
    {phase : Phase} (inv : InPhase cfg s phase) (workers : s'.workers = s.workers)
    (lastWorkerId : s'.lastWorkerId = s.lastWorkerId)
    (userdata : s'.userdata = s.userdata) (starter : s'.starter = s.starter)
    (calls : CallsOk cfg s') : InPhase cfg s' phase where
  roles := by
    rw [workers]
    exact inv.roles
  shared := by
    have shared := inv.shared
    cases phase with
    | bootHandOver given =>
        cases given <;>
          simpa only [Phase.Shared, workers, lastWorkerId, userdata, starter] using shared
    | boot | led | chosen | claimed | handOver =>
        simpa only [Phase.Shared, workers, lastWorkerId, userdata, starter] using shared
  calls := calls

omit [DecidableEq Task] in
/-- User code of a thread begins a call. -/
theorem InPhase.beginCall {cfg : Config Task Other} {s s' : State Task Other}
    {phase : Phase} {thread : Nat} {c : Call Task Other} (inv : InPhase cfg s phase)
    (allowed : mayCall cfg s thread = true) (workers : s'.workers = s.workers)
    (lastWorkerId : s'.lastWorkerId = s.lastWorkerId)
    (userdata : s'.userdata = s.userdata) (starter : s'.starter = s.starter)
    (calls : s'.calls = s.calls) (notDirect : ∀ worker f, c ≠ .direct worker f) :
    InPhase cfg (s'.setCall thread c) phase := by
  refine inv.of_calls workers lastWorkerId userdata starter (CallsOk.setCall ?_ ?_ ?_)
  · exact inv.calls.mono calls fun j => by rw [workers]; exact ⟨rfl, id⟩
  · intro worker f direct
    exact absurd direct (notDirect worker f)
  · intro bound _
    rw [workers]
    have user : (s.workers thread).pc.inUserCode = true := by
      simp only [mayCall, Bool.and_eq_true, Bool.or_eq_true, decide_eq_true_eq] at allowed
      exact allowed.2.resolve_left (Nat.not_le.mpr bound)
    revert user
    cases (s.workers thread).pc <;> simp [Pc.inUserCode, Pc.isCallPoint]

/-- The operations of a call in progress. -/
theorem InPhase.callStep {cfg : Config Task Other} {s s' : State Task Other}
    {phase : Phase} {thread : Nat} (inv : InPhase cfg s phase)
    (stepped : callStep cfg s thread = some s') : InPhase cfg s' phase := by
  have busy : s.calls thread ≠ .idle := by
    intro idle
    simp [Dispatcher.callStep, idle] at stepped
  have inCall := fun bound => inv.calls.point thread bound busy
  cases call : s.calls thread with
  | idle => exact absurd call busy
  | test worker f =>
      simp only [Dispatcher.callStep, call, Option.some.injEq] at stepped
      subst stepped
      refine inv.of_calls rfl rfl rfl rfl (inv.calls.setCall ?_ fun bound _ => inCall bound)
      intro worker' f' taken
      split at taken
      · next direct =>
        simp only [isDirect, workerGet, Bool.and_eq_true, beq_iff_eq,
          Option.ite_none_right_eq_some, Option.some.injEq] at direct
        obtain ⟨leads, inside, rfl⟩ := direct
        simp only [Call.direct.injEq] at taken
        exact ⟨taken.1.symm, inside, leads⟩
      · cases taken
  | direct worker f =>
      simp only [Dispatcher.callStep, call, Option.some.injEq] at stepped
      subst stepped
      refine inv.of_calls (by simp) (by simp) (by simp) (by simp) (CallsOk.setCall ?_ ?_ ?_)
      · exact inv.calls.mono (by simp) fun j => by simp
      · intro worker' f' taken
        cases taken
      · exact fun _ busy => absurd rfl busy
  | push worker f =>
      simp only [Dispatcher.callStep, call, Option.some.injEq] at stepped
      subst stepped
      refine inv.of_calls rfl rfl rfl rfl (CallsOk.setCall ?_ ?_ fun bound _ => inCall bound)
      · exact inv.calls.mono rfl fun _ => ⟨rfl, id⟩
      · intro worker' f' taken
        cases taken
  | send worker =>
      simp only [Dispatcher.callStep, call, Option.some.injEq] at stepped
      subst stepped
      refine inv.of_calls rfl rfl rfl rfl (CallsOk.setCall ?_ ?_ ?_)
      · exact inv.calls.mono rfl fun _ => ⟨rfl, id⟩
      · intro worker' f' taken
        cases taken
      · exact fun _ busy => absurd rfl busy

omit [DecidableEq Task] in
/-- `dispatcher::start` has not begun. -/
theorem inPhase_init (cfg : Config Task Other) :
    InPhase cfg (initState : State Task Other) .boot where
  roles := fun _ _ => ⟨rfl, rfl, rfl, rfl⟩
  shared := ⟨rfl, fun _ _ => rfl⟩
  calls := { direct := nofun, point := fun _ _ busy => absurd rfl busy }

variable [DecidableEq Other]

/-- The step lemma: every action keeps the invariant, possibly in another phase. -/
theorem InPhase.step {cfg : Config Task Other} {s s' : State Task Other} {phase : Phase}
    {action : Action Task Other} (inv : InPhase cfg s phase)
    (nonempty : 0 < cfg.numWorkers) (stepped : step cfg action s = some s') :
    ∃ phase', InPhase cfg s' phase' := by
  cases moves_of_step stepped with
  | starter stepped => exact inv.starterStep nonempty stepped
  | worker run stepped => exact inv.workerStep run stepped
  | fire run inLoop _ =>
      exact ⟨phase, inv.enterCallback run inLoop ⟨rfl, rfl, rfl, rfl, rfl⟩ rfl
        (fun _ => rfl) fun _ => rfl⟩
  | @asyncReady i _ run inLoop inside _ =>
      exact ⟨phase, inv.enterCallback run inLoop
        ⟨(Function.update_eq_self i s.workers).symm, rfl, rfl, rfl, rfl⟩ rfl
        (fun _ => rfl) fun _ => ⟨rfl, inside⟩⟩
  | loopReturn run inLoop =>
      refine ⟨phase, inv.of_moveTo run ⟨rfl, rfl, rfl, rfl, rfl⟩ (by rw [inLoop]; rfl) rfl ?_⟩
      intro part role
      cases part <;> simp_all [RoleOk, FollowerAt, LeaderAt]
  | handlerReturn _ run point =>
      refine ⟨phase, inv.of_moveTo run ⟨rfl, rfl, rfl, rfl, rfl⟩ (by rw [point]; rfl) rfl ?_⟩
      intro part role
      cases part <;> simp_all [RoleOk, FollowerAt, LeaderAt]
  | call _ stepped => exact ⟨phase, inv.callStep stepped⟩
  | exec allowed | async allowed =>
      exact ⟨phase, inv.beginCall allowed.1 rfl rfl rfl rfl rfl fun _ _ => nofun⟩
  | addTask allowed _ _ _ =>
      exact ⟨phase, inv.beginCall allowed rfl rfl rfl rfl rfl fun _ _ => nofun⟩

/-- The run lemma: every reachable state is in some phase of the hand-over. -/
theorem inPhase_of_reachable {cfg : Config Task Other} {s : State Task Other}
    (nonempty : 0 < cfg.numWorkers) (reachable : (system cfg).Reachable s) :
    ∃ phase, InPhase cfg s phase := by
  refine reachable.invariant (fun s => ∃ phase, InPhase cfg s phase)
    ⟨.boot, inPhase_init cfg⟩ ?_
  rintro state next action - ⟨phase, inv⟩ stepped
  exact inv.step nonempty stepped

/-! ## Safety -/

/-- `dispatcher::start` still has the loop in its local variable, or has not
created it yet. -/
def Starter.keepsLoop : Starter → Bool
  | .spawn _ | .waitBit _ | .unsetFirst | .moveLoop => true
  | .setUserdata | .setLeader | .started => false

/-- The worker that `free_worker` returned to a thread that is still promoting
it. -/
def Pc.successor : Pc Task Other → Option Nat
  | .foundId id | .unsetId id | .demote id | .moveLoop id | .setUserdata id
  | .setLeader id => some id
  | _ => none

/-- A promoting thread is between `m_leader = false` and the `m_leader = true` of
its successor. -/
def Pc.isHandOver : Pc Task Other → Bool
  | .moveLoop _ | .setUserdata _ | .setLeader _ => true
  | _ => false

/-- The thread is inside `ev_loop` or in a callback invoked from there. -/
def Pc.insideLoop : Pc Task Other → Bool
  | .inLoop | .fired .. | .stopWatcher .. | .addEvent .. | .swap .. | .drain ..
  | .execFront .. | .inFunctor .. => true
  | _ => false

/-- Worker `i` is the successor in a hand-over in progress, whose promoter is
`dispatcher::start` or another worker. -/
def Receives (cfg : Config Task Other) (s : State Task Other) (i : Nat) : Prop :=
  i = 0 ∧ (s.starter = .setUserdata ∨ s.starter = .setLeader) ∨
    ∃ j < cfg.numWorkers, (s.workers j).pc.isHandOver = true ∧
      (s.workers j).pc.successor = some i

/-- What the hand-over protocol guarantees in a state. -/
structure HandOverSafe (cfg : Config Task Other) (s : State Task Other) : Prop where
  oneLeader : ∀ i < cfg.numWorkers, ∀ j < cfg.numWorkers,
    (s.workers i).leader = true → (s.workers j).leader = true → i = j
  oneOwner : if s.starter.keepsLoop then ∀ i < cfg.numWorkers, (s.workers i).loop = false
    else ∃! i, i < cfg.numWorkers ∧ (s.workers i).loop = true
  owner : ∀ i < cfg.numWorkers, (s.workers i).loop = true →
    (s.workers i).leader = true ∨
      (∀ j < cfg.numWorkers, (s.workers j).leader = false) ∧
        ((s.workers i).pc.isHandOver = true ∨ Receives cfg s i)
  free : ∀ i < cfg.numWorkers, (s.workers i).busyBit = true →
    (s.workers i).leader = false ∧ (s.workers i).loop = false ∧ (s.workers i).events = []
  successor : ∀ i < cfg.numWorkers, ∀ id, (s.workers i).pc.successor = some id →
    id < cfg.numWorkers ∧ id ≠ i
  lastWorkerId : s.starter = .started → s.lastWorkerId < cfg.numWorkers ∧
    ((s.workers s.lastWorkerId).leader = true ∨
      ∃ i < cfg.numWorkers, (s.workers i).pc.successor = some s.lastWorkerId)
  insideLoop : ∀ i < cfg.numWorkers, (s.workers i).pc.insideLoop = true →
    (s.workers i).leader = true ∧ (s.workers i).loop = true
  callback : ∀ i < cfg.numWorkers, ∀ worker, (s.workers i).pc.callbackWorker = some worker →
    worker = i
  direct : ∀ thread worker f, s.calls thread = .direct worker f →
    thread < cfg.numWorkers ∧ worker = thread ∧ (s.workers worker).leader = true

/-- The worker with `m_leader` set in a phase. -/
def Phase.leaderId : Phase → Option Nat
  | .led i | .chosen i _ | .claimed i _ => some i
  | .boot | .bootHandOver _ | .handOver _ _ _ => none

/-- The worker whose `m_loop` is not null in a phase. -/
def Phase.ownerId : Phase → Option Nat
  | .led i | .chosen i _ | .claimed i _ | .handOver i _ false => some i
  | .handOver _ id true => some id
  | .bootHandOver true => some 0
  | .boot | .bootHandOver false => none

section Safety

omit [DecidableEq Task] [DecidableEq Other]

variable {cfg : Config Task Other} {s : State Task Other} {phase : Phase}

theorem InPhase.leader_iff (inv : InPhase cfg s phase) {i : Nat}
    (bound : i < cfg.numWorkers) :
    (s.workers i).leader = true ↔ phase.leaderId = some i := by
  have role := inv.roles i bound
  cases phase <;> simp only [Phase.role] at role
  all_goals
    repeat' split at role
    all_goals grind [RoleOk, Phase.leaderId]

theorem InPhase.loop_iff (inv : InPhase cfg s phase) {i : Nat}
    (bound : i < cfg.numWorkers) :
    (s.workers i).loop = true ↔ phase.ownerId = some i := by
  have role := inv.roles i bound
  cases phase with
  | bootHandOver given =>
      cases given <;> simp only [Phase.role] at role <;> split at role <;>
        grind [RoleOk, Phase.ownerId]
  | handOver leader id given =>
      obtain ⟨-, -, -, different, -⟩ := inv.shared
      cases given <;> simp only [Phase.role] at role <;> repeat' split at role
      all_goals grind [RoleOk, Phase.ownerId]
  | boot | led | chosen | claimed =>
      simp only [Phase.role] at role
      repeat' split at role
      all_goals grind [RoleOk, Phase.ownerId]

/-- A promoting thread plays the part that its program point says. -/
theorem RoleOk.promotes {i id : Nat} {w : Worker Task Other} {part : Role}
    (role : RoleOk cfg i w part) (promotes : w.pc.successor = some id) :
    part = .choosing id ∨ part = .claiming id ∨ ∃ given, part = .promoter id given := by
  have points : w.pc = .foundId id ∨ w.pc = .unsetId id ∨ w.pc = .demote id ∨
      w.pc = .moveLoop id ∨ w.pc = .setUserdata id ∨ w.pc = .setLeader id := by
    revert promotes
    cases w.pc <;> simp [Pc.successor]
  rcases points with point | point | point | point | point | point <;>
    cases part <;> simp_all [RoleOk, FollowerAt, LeaderAt]

/-- The successor of a promoting thread is the one of the phase. -/
theorem InPhase.successor_eq (inv : InPhase cfg s phase) {i id : Nat}
    (bound : i < cfg.numWorkers) (promotes : (s.workers i).pc.successor = some id) :
    phase = .chosen i id ∨ phase = .claimed i id ∨ ∃ given, phase = .handOver i id given := by
  have part := (inv.roles i bound).promotes promotes
  cases phase <;> simp only [Phase.role] at part
  all_goals
    repeat' split at part
    all_goals simp_all

theorem InPhase.owner_bound (inv : InPhase cfg s phase) (nonempty : 0 < cfg.numWorkers)
    {i : Nat} (owner : phase.ownerId = some i) : i < cfg.numWorkers := by
  have shared := inv.shared
  cases phase with
  | bootHandOver given => cases given <;> simp_all [Phase.ownerId]
  | handOver leader id given =>
      cases given <;> simp only [Phase.ownerId, Option.some.injEq] at owner <;> subst owner
      · exact shared.1
      · exact shared.2.2.1
  | boot => simp [Phase.ownerId] at owner
  | led | chosen | claimed =>
      simp only [Phase.ownerId, Option.some.injEq] at owner
      subst owner
      exact shared.1

theorem InPhase.keepsLoop_iff (inv : InPhase cfg s phase) :
    s.starter.keepsLoop = true ↔ phase.ownerId = none := by
  have shared := inv.shared
  cases phase with
  | boot =>
      obtain ⟨-, progress⟩ := shared
      cases point : s.starter <;> simp_all [Phase.ownerId, Starter.keepsLoop]
  | bootHandOver given =>
      cases given with
      | false => simp [Phase.ownerId, shared.2, Starter.keepsLoop]
      | true =>
          obtain ⟨-, point | ⟨point, -⟩⟩ := shared <;>
            simp [Phase.ownerId, point, Starter.keepsLoop]
  | handOver leader id given =>
      cases given <;> simp [Phase.ownerId, shared.2.1, Starter.keepsLoop]
  | led | chosen | claimed => simp [Phase.ownerId, shared.2.1, Starter.keepsLoop]

/-- The owner of the loop is the leader, or leadership is on its way between a
promoter and its successor. -/
theorem InPhase.owner (inv : InPhase cfg s phase) {i : Nat} (bound : i < cfg.numWorkers)
    (owner : (s.workers i).loop = true) :
    (s.workers i).leader = true ∨
      (∀ j < cfg.numWorkers, (s.workers j).leader = false) ∧
        ((s.workers i).pc.isHandOver = true ∨ Receives cfg s i) := by
  have nobody (none : phase.leaderId = none) :
      ∀ j < cfg.numWorkers, (s.workers j).leader = false := by
    intro j inside
    rw [Bool.eq_false_iff, ne_eq, inv.leader_iff inside, none]
    exact nofun
  rw [inv.leader_iff bound]
  have owns := (inv.loop_iff bound).mp owner
  have shared := inv.shared
  cases phase with
  | boot => simp [Phase.ownerId] at owns
  | led | chosen | claimed => exact .inl owns
  | bootHandOver given =>
      cases given with
      | false => simp [Phase.ownerId] at owns
      | true =>
          simp only [Phase.ownerId, Option.some.injEq] at owns
          refine .inr ⟨nobody rfl, .inr (.inl ⟨owns.symm, ?_⟩)⟩
          exact shared.2.imp_right And.left
  | handOver leader id given =>
      obtain ⟨inside, -, -, different, -⟩ := shared
      have role := inv.roles leader inside
      simp only [Phase.role, ↓reduceIte, RoleOk] at role
      refine .inr ⟨nobody rfl, ?_⟩
      cases given with
      | false =>
          simp only [Phase.ownerId, Option.some.injEq] at owns
          subst owns
          left
          simp_all [Pc.isHandOver]
      | true =>
          simp only [Phase.ownerId, Option.some.injEq] at owns
          subst owns
          refine .inr (.inr ⟨leader, inside, ?_⟩)
          rcases role.2.2.2 with ⟨impossible, -⟩ | ⟨-, point | point⟩
          · cases impossible
          · simp [point, Pc.isHandOver, Pc.successor]
          · simp [point, Pc.isHandOver, Pc.successor]

/-- A worker with its bit set waits for its promotion. -/
theorem InPhase.free (inv : InPhase cfg s phase) {i : Nat} (bound : i < cfg.numWorkers)
    (set : (s.workers i).busyBit = true) :
    (s.workers i).leader = false ∧ (s.workers i).loop = false ∧
      (s.workers i).events = [] := by
  have role := inv.roles i bound
  generalize phase.role i = part at role
  cases part <;> simp_all [RoleOk]
  have waits := role.2.2.of_busyBit set
  exact waits.1

/-- `m_last_worker_id` names the leader, or the successor that a thread is
promoting. -/
theorem InPhase.lastWorkerId (inv : InPhase cfg s phase) (started : s.starter = .started) :
    s.lastWorkerId < cfg.numWorkers ∧
      ((s.workers s.lastWorkerId).leader = true ∨
        ∃ i < cfg.numWorkers, (s.workers i).pc.successor = some s.lastWorkerId) := by
  have shared := inv.shared
  cases phase with
  | boot => simp [Phase.Shared, started] at shared
  | bootHandOver given => cases given <;> simp [Phase.Shared, started] at shared
  | led i =>
      obtain ⟨inside, -, -, last⟩ := shared
      rw [last]
      exact ⟨inside, .inl inv.leader.1⟩
  | chosen i id =>
      obtain ⟨inside, -, -, idInside, -, -, ⟨-, last⟩ | ⟨point, last⟩⟩ := shared
      · rw [last]
        exact ⟨inside, .inl ((inv.leader_iff inside).mpr rfl)⟩
      · rw [last]
        exact ⟨idInside, .inr ⟨i, inside, by simp [point, Pc.successor]⟩⟩
  | claimed i id =>
      obtain ⟨inside, -, -, idInside, -, last⟩ := shared
      have role := inv.roles i inside
      simp only [Phase.role, ↓reduceIte, RoleOk] at role
      rw [last]
      exact ⟨idInside, .inr ⟨i, inside, by simp [role, Pc.successor]⟩⟩
  | handOver i id given =>
      obtain ⟨inside, -, idInside, -, last, -⟩ := shared
      have role := inv.roles i inside
      simp only [Phase.role, ↓reduceIte, RoleOk] at role
      rw [last]
      refine ⟨idInside, .inr ⟨i, inside, ?_⟩⟩
      rcases role.2.2.2 with ⟨-, point⟩ | ⟨-, point | point⟩ <;> simp [point, Pc.successor]

/-- Each phase of the hand-over is safe. -/
theorem InPhase.handOverSafe (inv : InPhase cfg s phase) (nonempty : 0 < cfg.numWorkers) :
    HandOverSafe cfg s where
  oneLeader := by
    intro i inside j inside' leads leads'
    rw [inv.leader_iff inside] at leads
    rw [inv.leader_iff inside', leads] at leads'
    exact Option.some.inj leads'
  oneOwner := by
    split
    · next keeps =>
      intro i inside
      rw [Bool.eq_false_iff, ne_eq, inv.loop_iff inside, inv.keepsLoop_iff.mp keeps]
      exact nofun
    · next gone =>
      rw [inv.keepsLoop_iff, ← ne_eq, Option.ne_none_iff_exists'] at gone
      obtain ⟨i, owner⟩ := gone
      have inside := inv.owner_bound nonempty owner
      refine ⟨i, ⟨inside, (inv.loop_iff inside).mpr owner⟩, ?_⟩
      rintro j ⟨inside', owns⟩
      rw [inv.loop_iff inside', owner] at owns
      exact (Option.some.inj owns).symm
  owner := fun _ bound owns => inv.owner bound owns
  free := fun _ bound set => inv.free bound set
  successor := by
    intro i bound id promotes
    have shared := inv.shared
    rcases inv.successor_eq bound promotes with rfl | rfl | ⟨given, rfl⟩
    · exact ⟨shared.2.2.2.1, shared.2.2.2.2.1⟩
    · exact ⟨shared.2.2.2.1, shared.2.2.2.2.1⟩
    · exact ⟨shared.2.2.1, shared.2.2.2.1⟩
  lastWorkerId := inv.lastWorkerId
  insideLoop := by
    intro i bound inside
    have point : (s.workers i).pc.isLeaderPoint = true := by
      revert inside
      cases (s.workers i).pc <;> simp [Pc.insideLoop, Pc.isLeaderPoint]
    obtain rfl := inv.eq_led bound point
    exact ⟨inv.leader.1, inv.leader.2.1⟩
  callback := fun _ bound _ inside => (inv.callback bound inside).2
  direct := by
    intro thread worker f taken
    obtain ⟨rfl, inside, leads⟩ := inv.calls.direct taken
    exact ⟨inside, rfl, leads⟩

end Safety

/-- Leader/followers safety: however the threads interleave and whatever events
fire, every reachable state of a dispatcher with at least two workers is safe. -/
theorem handOverSafe_of_reachable {cfg : Config Task Other} {s : State Task Other}
    (workers : 2 ≤ cfg.numWorkers) (reachable : (system cfg).Reachable s) :
    HandOverSafe cfg s := by
  have nonempty : 0 < cfg.numWorkers := Nat.lt_of_lt_of_le Nat.zero_lt_two workers
  obtain ⟨phase, inv⟩ := inPhase_of_reachable nonempty reachable
  exact inv.handOverSafe nonempty

/-- Two workers, one more thread that adds tasks, and no functors besides those of
the tasks. -/
def twoWorkers : Config Nat Empty where
  numWorkers := 2
  otherThreads := 1
  userFunc _ := false

/-- `dispatcher::start` with two workers, up to the first leader. -/
def bootTwoWorkers : List (Action Nat Empty) :=
  [.starter, .starter, .starter, .worker 0, .worker 1, .starter, .starter, .starter,
    .starter, .starter, .starter, .starter]

/-- Worker 0 collects an event and passes the loop on, up to the point where
worker 1 has the loop but is not leader yet. -/
theorem handOverSafe_midway : ∃ s, (system twoWorkers).Reachable s ∧
    (s.workers 1).loop = true ∧ (s.workers 1).leader = false ∧
      HandOverSafe twoWorkers s := by
  have run : ((system twoWorkers).exec (bootTwoWorkers ++
      [.addTask 2 7, .call 2, .call 2, .call 2, .worker 0, .worker 0, .asyncReady 0 0,
        .worker 0, .worker 0, .worker 0, .worker 0, .worker 0, .fire 0 ⟨7, 1⟩, .worker 0,
        .worker 0, .worker 0, .loopReturn 0, .worker 0, .worker 0, .worker 0, .worker 0,
        .worker 0, .worker 0, .worker 0, .worker 0]) (system twoWorkers).init).any
        (fun s => (s.workers 1).loop && !(s.workers 1).leader) = true := by
    decide +kernel
  obtain ⟨s, reachable, test⟩ := System.exists_reachable_of_exec run
  simp only [Bool.and_eq_true, Bool.not_eq_true'] at test
  exact ⟨s, reachable, test.1, test.2, handOverSafe_of_reachable (by decide) reachable⟩

end LibTasks.Dispatcher

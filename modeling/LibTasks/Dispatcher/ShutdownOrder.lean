import LibTasks.Dispatcher.Shutdown

/-!
# Who destroys the event loop

As in the leader hand-over, each worker plays a part in the current phase, and each part
is a condition on the record of that worker alone.  A worker that leaves `run` tests
`m_leader` once, behind the inner loop; at the head of the outer loop it only tests
`m_term`.  The loop is therefore destroyed unless a worker becomes the leader, or is
terminated as the leader, where this test does not come any more.
-/

namespace LibTasks.Dispatcher.Shutdown

open LibTasks.Foundation

/-! ## Parts and phases -/

/-- A free worker waits for its promotion, or is on its way out. -/
def AwaitsAt (w : Worker) : Prop :=
  match w.pc with
  | .outer | .top | .waiting => True
  | .lead | .ended | .shutdown | .left => w.term = true
  | _ => False

/-- Program points of a worker without the loop. -/
def FollowerAt (w : Worker) : Prop :=
  match w.pc with
  | .unborn | .markFree | .outer | .top | .waiting | .lead | .ended => True
  | .handle | .handling | .pop => True
  | .shutdown | .left => w.term = true
  | _ => False

/-- Program points of the worker that owns the loop, apart from the hand-over itself. -/
def LeaderAt (w : Worker) : Prop :=
  match w.pc with
  | .outer | .top | .waiting | .lead | .leadTerm => True
  | .inLoop | .loopReturned | .freeWorker | .next .. | .aborted => True
  | .handle | .handling | .pop => True
  | .ended | .shutdown | .destroy | .left => w.term = true
  | _ => False

/-- Where `m_term` alone decides whether the thread tests `m_leader` again. -/
def Pc.atExit : Pc → Bool
  | .outer | .left => true
  | _ => false

/-- The thread does not test `m_leader` any more. -/
def Worker.leaving (w : Worker) : Bool := w.term && w.pc.atExit

/-- The part a worker plays. -/
inductive Role where
  | follower
  | target (given : Bool)
  | leader
  | choosing (id : Nat)
  | claiming (id : Nat)
  | promoter (id : Nat) (given : Bool)
  deriving DecidableEq, Repr

/-- What a worker's record satisfies when it plays a given part. -/
def RoleOk (w : Worker) : Role → Prop
  | .follower => w.leader = false ∧ (w.busyBit = true → AwaitsAt w) ∧ FollowerAt w
  | .target given =>
      w.leader = false ∧ w.busyBit = false ∧ (given = true → w.loop = true) ∧ AwaitsAt w
  | .leader => w.leader = true ∧ w.loop = true ∧ w.busyBit = false ∧ LeaderAt w
  | .choosing id =>
      w.leader = true ∧ w.loop = true ∧ w.busyBit = false ∧
        (w.pc = .foundId id ∨ w.pc = .unsetId id)
  | .claiming id => w.leader = true ∧ w.loop = true ∧ w.busyBit = false ∧ w.pc = .demote id
  | .promoter id given =>
      w.leader = false ∧ w.busyBit = false ∧
        (given = false ∧ w.loop = true ∧ w.pc = .moveLoop id ∨
          given = true ∧ (w.pc = .setUserdata id ∨ w.pc = .setLeader id))

/-- Where the event loop is on its way from worker to worker. -/
inductive Phase where
  /-- `dispatcher::start` has not selected the first leader yet. -/
  | boot
  /-- `dispatcher::start` hands the loop to worker 0. -/
  | bootHandOver (given : Bool)
  | led (i : Nat)
  /-- Leader `i` found the set bit of `id`. -/
  | chosen (i id : Nat)
  /-- Leader `i` cleared the bit of `id`. -/
  | claimed (i id : Nat)
  /-- Worker `i` gave up leadership and is passing the loop to `id`. -/
  | handOver (i id : Nat) (given : Bool)
  deriving DecidableEq, Repr

/-- The part of each worker in a phase. -/
def Phase.role : Phase → Nat → Role
  | .boot, _ => .follower
  | .bootHandOver given, j => if j = 0 then .target given else .follower
  | .led i, j => if j = i then .leader else .follower
  | .chosen i id, j => if j = i then .choosing id else .follower
  | .claimed i id, j =>
      if j = i then .claiming id else if j = id then .target false else .follower
  | .handOver i id given, j =>
      if j = i then .promoter id given else if j = id then .target given else .follower

/-- The main thread is in `join`. -/
def Main.started : Main → Bool
  | .parked | .setTerm _ | .interrupt _ | .joining _ | .returned => true
  | _ => false

/-- How many workers `join` has finished with. -/
def Main.joined (n : Nat) : Main → Nat
  | .setTerm i | .interrupt i | .joining i => i
  | .returned => n
  | _ => 0

/-- `join` has not come to the worker yet. -/
def Main.before : Main → Nat → Bool
  | .setTerm i, j => i ≤ j
  | .interrupt i, j | .joining i, j => i < j
  | .returned, _ => false
  | _, _ => true

/-- What a phase says about the rest of the state. -/
def Phase.Shared (n : Nat) (s : State) : Phase → Prop
  | .boot =>
      match s.main with
      | .spawn _ => True
      | .waitBit k => 0 < k → (s.workers 0).busyBit = true
      | .unsetFirst => (s.workers 0).busyBit = true
      | _ => False
  | .bootHandOver false => s.main = .moveLoop
  | .bootHandOver true => s.main = .setUserdata ∨ s.main = .setLeader
  | .led i => i < n ∧ s.main.started = true
  | .chosen i id => i < n ∧ s.main.started = true ∧ id < n ∧ id ≠ i ∧
      (s.workers id).busyBit = true
  | .claimed i id | .handOver i id _ => i < n ∧ s.main.started = true ∧ id < n ∧ id ≠ i

structure InPhase (n : Nat) (s : State) (phase : Phase) : Prop where
  roles : ∀ j, RoleOk (s.workers j) (phase.role j)
  shared : phase.Shared n s
  joined : ∀ j < s.main.joined n, (s.workers j).pc = .left
  untermed : ∀ j, s.main.before j = true → (s.workers j).term = false

/-! ## Parts are kept -/

variable {n : Nat} {s next : State} {w x : Worker} {phase : Phase} {action : Action}

theorem AwaitsAt.runs (awaits : AwaitsAt w) (follower : w.leader = false) (runs : Runs w x) :
    AwaitsAt x := by
  cases runs with
  | search _ _ here | noWorker here | abort here =>
      rcases here with here | ⟨_, _, here⟩ <;> simp_all [AwaitsAt]
  | _ => simp_all [AwaitsAt]

theorem FollowerAt.runs (at_ : FollowerAt w) (follower : w.leader = false) (runs : Runs w x) :
    FollowerAt x := by
  cases runs with
  | search _ _ here | noWorker here | abort here =>
      rcases here with here | ⟨_, _, here⟩ <;> simp_all [FollowerAt]
  | _ => simp_all [FollowerAt]

theorem LeaderAt.runs (at_ : LeaderAt w) (leads : w.leader = true) (runs : Runs w x) :
    LeaderAt x ∧ x.busyBit = w.busyBit ∧ x.leaving = w.leaving := by
  cases runs with
  | promoted here =>
      rcases here with here | here <;> simp_all [LeaderAt, Worker.leaving, Pc.atExit]
  | search _ _ here | noWorker here | abort here =>
      rcases here with here | ⟨_, _, here⟩ <;> simp_all [LeaderAt, Worker.leaving, Pc.atExit]
  | _ => simp_all [LeaderAt, Worker.leaving, Pc.atExit]

theorem Runs.leader_eq (runs : Runs w x) : x.leader = w.leader := by
  cases runs <;> rfl

theorem Runs.loop_eq (runs : Runs w x) : x.loop = w.loop := by
  cases runs <;> rfl

theorem Runs.term_eq (runs : Runs w x) : x.term = w.term := by
  cases runs <;> rfl

theorem Runs.busyBit_of (runs : Runs w x) (isFree : w.busyBit = true) : x.busyBit = true := by
  cases runs with
  | free => rfl
  | _ => exact isFree

/-- A thread marks its worker as free only in front of the outer loop. -/
theorem Runs.busyBit_eq (runs : Runs w x) : x.busyBit = w.busyBit ∨ w.pc = .markFree := by
  cases runs with
  | free here => exact .inr here
  | _ => exact .inl rfl

theorem Runs.not_left (runs : Runs w x) : w.pc ≠ .left := by
  cases runs with
  | search _ _ here | noWorker here | abort here =>
      rcases here with here | ⟨_, _, here⟩ <;> simp [here]
  | promoted here => rcases here with here | here <;> simp [here]
  | pop _ here | _ here => simp [here]

theorem RoleOk.runs {role : Role} (ok : RoleOk w role) (runs : Runs w x) : RoleOk x role := by
  cases role with
  | follower =>
      rcases ok with ⟨follower, isFree, at_⟩
      refine ⟨runs.leader_eq.trans follower, fun nowFree => ?_, at_.runs follower runs⟩
      rcases runs.busyBit_eq with same | here
      · exact (isFree (same ▸ nowFree)).runs follower runs
      · cases runs with
        | free => trivial
        | _ => simp_all
  | target given =>
      rcases ok with ⟨follower, notFree, loop, awaits⟩
      refine ⟨runs.leader_eq.trans follower, ?_, fun isGiven => runs.loop_eq.trans (loop isGiven),
        awaits.runs follower runs⟩
      rcases runs.busyBit_eq with same | here
      · exact same.trans notFree
      · rw [AwaitsAt, here] at awaits
        cases awaits
  | leader =>
      rcases ok with ⟨leads, loop, notFree, at_⟩
      have kept := at_.runs leads runs
      exact ⟨runs.leader_eq.trans leads, runs.loop_eq.trans loop, kept.2.1.trans notFree, kept.1⟩
  | choosing id =>
      rcases ok with ⟨_, _, _, here | here⟩ <;> cases runs <;> simp_all
  | claiming id =>
      rcases ok with ⟨_, _, _, here⟩
      cases runs <;> simp_all
  | promoter id given =>
      rcases ok with ⟨_, _, ⟨_, _, here⟩ | ⟨_, here | here⟩⟩ <;> cases runs <;> simp_all

/-- `m_term = true` -/
theorem RoleOk.terminate {role : Role} (ok : RoleOk w role) :
    RoleOk { w with term := true } role := by
  have awaits (awaits : AwaitsAt w) : AwaitsAt { w with term := true } := by
    rw [AwaitsAt] at awaits ⊢
    split at awaits <;> simp_all
  cases role with
  | follower =>
      refine ⟨ok.1, fun isFree => awaits (ok.2.1 isFree), ?_⟩
      have at_ := ok.2.2
      rw [FollowerAt] at at_ ⊢
      split at at_ <;> simp_all
  | target given => exact ⟨ok.1, ok.2.1, ok.2.2.1, awaits ok.2.2.2⟩
  | leader =>
      refine ⟨ok.1, ok.2.1, ok.2.2.1, ?_⟩
      have at_ := ok.2.2.2
      rw [LeaderAt] at at_ ⊢
      split at at_ <;> simp_all
  | choosing id | claiming id | promoter id given => exact ok

/-! ## Steps -/

/-- The step neither makes a leader of a worker that is leaving nor terminates the leader
at the head of the outer loop. -/
def inTime : Action → State → Bool
  | .main, s =>
      match s.main with
      | .setTerm i => !((s.workers i).leader && (s.workers i).pc == .outer)
      | _ => true
  | .worker i, s =>
      match (s.workers i).pc with
      | .setLeader id => !(s.workers id).leaving
      | _ => true
  | _, _ => true

/-- The loop was destroyed if and only if the leader is leaving. -/
def Settled (s : State) : Phase → Prop
  | .led i => s.destroyed = (s.workers i).leaving.toNat
  | _ => s.destroyed = 0

/-- The leader is leaving and has not destroyed the loop. -/
def Stuck (s : State) (phase : Phase) : Prop :=
  ∃ i, phase = .led i ∧ (s.workers i).leaving = true ∧ s.destroyed = 0

/-- What a step does. -/
structure Goes (n : Nat) (action : Action) (s next : State) (phase after : Phase) : Prop where
  inPhase : InPhase n next after
  settled : Settled s phase → inTime action s = true →
    Settled next after ∧ next.handedToLeft = s.handedToLeft
  late : Settled s phase → inTime action s = false → Stuck next after
  stuck : Stuck s phase → Stuck next after

/-- The phase does not change. -/
theorem Goes.quiet (inPhase : InPhase n next phase) (isInTime : inTime action s = true)
    (destroyed : next.destroyed = s.destroyed) (handed : next.handedToLeft = s.handedToLeft)
    (leaving : ∀ i, phase = .led i → (next.workers i).leaving = (s.workers i).leaving) :
    Goes n action s next phase phase where
  inPhase := inPhase
  settled before _ := by
    refine ⟨?_, handed⟩
    cases phase with
    | led i => exact destroyed.trans (before.trans (congrArg Bool.toNat (leaving i rfl).symm))
    | _ => exact destroyed.trans before
  late _ isLate := by cases isInTime.symm.trans isLate
  stuck before := by
    rcases before with ⟨i, led, isLeaving, notDestroyed⟩
    exact ⟨i, led, (leaving i led).trans isLeaving, destroyed.trans notDestroyed⟩

/-- The phase changes while nobody leads, or the leader goes on. -/
theorem Goes.change {after : Phase} (inPhase : InPhase n next after)
    (isInTime : inTime action s = true) (destroyed : next.destroyed = s.destroyed)
    (handed : next.handedToLeft = s.handedToLeft)
    (leaving : ∀ i, phase = .led i → (s.workers i).leaving = false)
    (leavingNext : ∀ i, after = .led i → (next.workers i).leaving = false) :
    Goes n action s next phase after where
  inPhase := inPhase
  settled before _ := by
    refine ⟨?_, handed⟩
    have zero : s.destroyed = 0 := by
      cases phase with
      | led i =>
          rw [Settled, leaving i rfl] at before
          exact before
      | _ => exact before
    cases after with
    | led i =>
        rw [Settled, leavingNext i rfl]
        exact destroyed.trans zero
    | _ => exact destroyed.trans zero
  late _ isLate := by cases isInTime.symm.trans isLate
  stuck before := by
    rcases before with ⟨i, led, isLeaving, _⟩
    cases (leaving i led).symm.trans isLeaving

section Steps

variable {i id : Nat}

theorem inTime_worker (other : ∀ id, (s.workers i).pc ≠ .setLeader id) :
    inTime (.worker i) s = true := by
  rw [inTime]
  split
  · next id here => exact absurd here (other id)
  · rfl

theorem Runs.inTime (runs : Runs (s.workers i) w) (notMain : action ≠ .main)
    (own : ∀ j, action = .worker j → j = i) : Shutdown.inTime action s = true := by
  cases action with
  | main => exact absurd rfl notMain
  | worker j =>
      cases own j rfl
      apply inTime_worker
      intro id setLeader
      cases runs <;> simp_all
  | _ => rfl

theorem Phase.Shared.frame (shared : phase.Shared n s) (main : next.main = s.main)
    (isFree : ∀ j, (s.workers j).busyBit = true → (next.workers j).busyBit = true) :
    phase.Shared n next := by
  cases phase with
  | boot =>
      simp only [Phase.Shared, main] at shared ⊢
      split at shared
      · trivial
      · exact fun positive => isFree 0 (shared positive)
      · exact isFree 0 shared
      · cases shared
  | chosen j id =>
      simp only [Phase.Shared, main] at shared ⊢
      exact ⟨shared.1, shared.2.1, shared.2.2.1, shared.2.2.2.1, isFree id shared.2.2.2.2⟩
  | bootHandOver given => cases given <;> simpa only [Phase.Shared, main] using shared
  | led j | claimed j id | handOver j id given => simpa only [Phase.Shared, main] using shared

/-- A worker thread does something to its own record only. -/
theorem InPhase.runs (inv : InPhase n s phase) (runs : Runs (s.workers i) w) :
    InPhase n (s.setWorker i w) phase where
  roles := by
    apply (Function.forall_update_iff s.workers fun j x => RoleOk x (phase.role j)).mpr
    exact ⟨(inv.roles i).runs runs, fun j _ => inv.roles j⟩
  shared := by
    refine inv.shared.frame rfl ?_
    apply (Function.forall_update_iff s.workers fun j x =>
      (s.workers j).busyBit = true → x.busyBit = true).mpr
    exact ⟨runs.busyBit_of, fun j _ isFree => isFree⟩
  joined := by
    apply (Function.forall_update_iff s.workers fun j x => j < s.main.joined n → x.pc = .left).mpr
    exact ⟨fun bound => absurd (inv.joined i bound) runs.not_left, fun j _ => inv.joined j⟩
  untermed := by
    apply (Function.forall_update_iff s.workers fun j x =>
      s.main.before j = true → x.term = false).mpr
    exact ⟨fun before => runs.term_eq.trans (inv.untermed i before), fun j _ => inv.untermed j⟩

theorem InPhase.goes_runs (inv : InPhase n s phase) (runs : Runs (s.workers i) w)
    (notMain : action ≠ .main) (own : ∀ j, action = .worker j → j = i) :
    Goes n action s (s.setWorker i w) phase phase := by
  refine .quiet (inv.runs runs) (runs.inTime notMain own) rfl rfl fun j led => ?_
  by_cases same : j = i
  · subst same led
    have leader := inv.roles j
    rw [Phase.role, if_pos rfl] at leader
    simpa only [State.setWorker, Function.update_self] using
      (leader.2.2.2.runs leader.1 runs).2.2
  · simp only [State.setWorker, Function.update_of_ne same]

/-! The program point of a worker in the hand-over determines the phase. -/

theorem RoleOk.role_eq {role : Role} (ok : RoleOk w role) :
    match w.pc with
    | .next .. | .destroy => role = .leader
    | .foundId id | .unsetId id => role = .choosing id
    | .demote id => role = .claiming id
    | .moveLoop id => role = .promoter id false
    | .setUserdata id | .setLeader id => role = .promoter id true
    | _ => True := by
  cases role with
  | follower =>
      have at_ := ok.2.2
      rw [FollowerAt] at at_
      split at at_ <;> simp_all
  | target given =>
      have at_ := ok.2.2.2
      rw [AwaitsAt] at at_
      split at at_ <;> simp_all
  | leader =>
      have at_ := ok.2.2.2
      rw [LeaderAt] at at_
      split at at_ <;> simp_all
  | choosing id => rcases ok with ⟨_, _, _, here | here⟩ <;> simp [here]
  | claiming id => simp [ok.2.2.2]
  | promoter id given =>
      rcases ok with ⟨_, _, ⟨rfl, _, here⟩ | ⟨rfl, here | here⟩⟩ <;> simp [here]

theorem Phase.eq_of_role (phase : Phase) (i : Nat) :
    match phase.role i with
    | .leader => phase = .led i
    | .choosing id => phase = .chosen i id
    | .claiming id => phase = .claimed i id
    | .promoter id given => phase = .handOver i id given
    | _ => True := by
  cases phase with
  | boot => trivial
  | bootHandOver given => by_cases first : i = 0 <;> simp [Phase.role, first]
  | led j => by_cases own : i = j <;> simp [Phase.role, own]
  | chosen j id => by_cases own : i = j <;> simp [Phase.role, own]
  | claimed j id | handOver j id given =>
      by_cases own : i = j
      · simp [Phase.role, own]
      · by_cases target : i = id
        · simp only [Phase.role, if_neg own, if_pos target]
        · simp only [Phase.role, if_neg own, if_neg target]

theorem InPhase.phase_eq (inv : InPhase n s phase) (i : Nat) :
    match (s.workers i).pc with
    | .next .. | .destroy => phase = .led i
    | .foundId id | .unsetId id => phase = .chosen i id
    | .demote id => phase = .claimed i id
    | .moveLoop id => phase = .handOver i id false
    | .setUserdata id | .setLeader id => phase = .handOver i id true
    | _ => True := by
  have role := (inv.roles i).role_eq
  have eq := phase.eq_of_role i
  split at role <;> simp_all

theorem workers_setWorker (s : State) (i : Nat) (w : Worker) (j : Nat) :
    (s.setWorker i w).workers j = if j = i then w else s.workers j :=
  Function.update_apply ..

/-- No thread leaves or comes back, and none is terminated. -/
def Keeps (s next : State) : Prop :=
  ∀ j, (next.workers j).term = (s.workers j).term ∧
    ((s.workers j).pc = .left → (next.workers j).pc = .left)

theorem keeps_setWorker (term : w.term = (s.workers i).term)
    (left : (s.workers i).pc = .left → w.pc = .left) : Keeps s (s.setWorker i w) := by
  intro j
  rw [workers_setWorker]
  split
  · next same => exact same ▸ ⟨term, left⟩
  · exact ⟨rfl, id⟩

theorem keeps_goto {p pc : Pc} (here : (s.workers i).pc = p) (notLeft : p ≠ .left) :
    Keeps s (s.goto i pc) :=
  keeps_setWorker rfl fun left => absurd (here.symm.trans left) notLeft

theorem Keeps.trans {t : State} (first : Keeps s t) (second : Keeps t next) : Keeps s next :=
  fun j => ⟨(second j).1.trans (first j).1, fun left => (second j).2 ((first j).2 left)⟩

theorem InPhase.frame (inv : InPhase n s phase) {after : Phase} (keeps : Keeps s next)
    (main : next.main = s.main) (roles : ∀ j, RoleOk (next.workers j) (after.role j))
    (shared : after.Shared n next) : InPhase n next after where
  roles := roles
  shared := shared
  joined j bound := (keeps j).2 (inv.joined j (main ▸ bound))
  untermed j before := (keeps j).1.trans (inv.untermed j (main ▸ before))

/-- `bitset::next` finds the bit of a free worker. -/
theorem InPhase.found (inv : InPhase n s phase) {idx cnt : Nat}
    (here : (s.workers i).pc = .next idx cnt) (isFree : (s.workers id).busyBit = true)
    (bound : id < n) :
    Goes n (.worker i) s (s.goto i (.foundId id)) phase (.chosen i id) := by
  have led := inv.phase_eq i
  rw [here] at led
  subst led
  have leader := inv.roles i
  simp only [Phase.role, if_true] at leader
  have other : id ≠ i := by
    rintro rfl
    cases leader.2.2.1.symm.trans isFree
  refine .change (inv.frame (keeps_goto here nofun) rfl (fun j => ?_) ?_)
    (inTime_worker (by simp [here])) rfl rfl ?_ nofun
  · have role := inv.roles j
    simp only [State.goto, workers_setWorker, Phase.role] at role ⊢
    split
    · exact ⟨leader.1, leader.2.1, leader.2.2.1, .inl rfl⟩
    · next notSelf => simpa only [if_neg notSelf] using role
  · refine ⟨inv.shared.1, inv.shared.2, bound, other, ?_⟩
    simpa only [State.goto, workers_setWorker, if_neg other] using isFree
  · rintro _ ⟨⟩
    simp [Worker.leaving, here, Pc.atExit]

/-- `m_last_worker_id = id` -/
theorem InPhase.foundId (inv : InPhase n s phase) (here : (s.workers i).pc = .foundId id) :
    Goes n (.worker i) s { s.goto i (.unsetId id) with lastWorkerId := id } phase phase := by
  have chosen := inv.phase_eq i
  rw [here] at chosen
  subst chosen
  refine .quiet (inv.frame (keeps_goto here nofun) rfl (fun j => ?_) ?_)
    (inTime_worker (by simp [here])) rfl rfl nofun
  · have role := inv.roles j
    simp only [State.goto, workers_setWorker, Phase.role] at role ⊢
    split
    · next same =>
        simp only [same, if_true] at role
        exact ⟨role.1, role.2.1, role.2.2.1, .inr rfl⟩
    · next notSelf => simpa only [if_neg notSelf] using role
  · rcases inv.shared with ⟨bound, started, idBound, other, isFree⟩
    refine ⟨bound, started, idBound, other, ?_⟩
    simpa only [State.goto, workers_setWorker, if_neg other] using isFree

/-- `m_workers_busy.unset(id)` -/
theorem InPhase.unsetId (inv : InPhase n s phase) (here : (s.workers i).pc = .unsetId id) :
    Goes n (.worker i) s ((s.goto i (.demote id)).setWorker id
      { (s.goto i (.demote id)).workers id with busyBit := false }) phase (.claimed i id) := by
  have chosen := inv.phase_eq i
  rw [here] at chosen
  subst chosen
  rcases inv.shared with ⟨bound, started, idBound, other, isFree⟩
  have keeps : Keeps s ((s.goto i (.demote id)).setWorker id
      { (s.goto i (.demote id)).workers id with busyBit := false }) :=
    (keeps_goto here nofun).trans (keeps_setWorker rfl fun left => left)
  refine .change (inv.frame keeps rfl (fun j => ?_) ⟨bound, started, idBound, other⟩)
    (inTime_worker (by simp [here])) rfl rfl nofun nofun
  have role := inv.roles j
  simp only [State.goto, workers_setWorker, Phase.role] at role ⊢
  by_cases target : j = id
  · subst target
    simp only [if_true, if_neg other] at role ⊢
    exact ⟨role.1, rfl, nofun, role.2.1 isFree⟩
  · by_cases own : j = i
    · subst own
      simp only [if_true, if_neg target] at role ⊢
      exact ⟨role.1, role.2.1, role.2.2.1, rfl⟩
    · simpa only [if_neg target, if_neg own] using role

/-- `m_leader = false` -/
theorem InPhase.demote (inv : InPhase n s phase) (here : (s.workers i).pc = .demote id) :
    Goes n (.worker i) s
      (s.setWorker i { s.workers i with leader := false, pc := .moveLoop id }) phase
      (.handOver i id false) := by
  have claimed := inv.phase_eq i
  rw [here] at claimed
  subst claimed
  have keeps : Keeps s (s.setWorker i { s.workers i with leader := false, pc := .moveLoop id }) :=
    keeps_setWorker rfl fun left => by cases here.symm.trans left
  refine .change (inv.frame keeps rfl (fun j => ?_) inv.shared)
    (inTime_worker (by simp [here])) rfl rfl nofun nofun
  have role := inv.roles j
  simp only [workers_setWorker, Phase.role] at role ⊢
  split
  · next same =>
      subst same
      simp only [if_true] at role
      exact ⟨rfl, role.2.2.1, .inl ⟨rfl, role.2.1, rfl⟩⟩
  · next notSelf => simpa only [if_neg notSelf] using role

/-- `m_loop = std::move(loop)` -/
theorem InPhase.moveLoop (inv : InPhase n s phase) (here : (s.workers i).pc = .moveLoop id) :
    Goes n (.worker i) s
      ((s.setWorker i { s.workers i with loop := false, pc := .setUserdata id }).setWorker id
        { (s.setWorker i { s.workers i with loop := false, pc := .setUserdata id }).workers id with
          loop := (s.workers i).loop }) phase (.handOver i id true) := by
  have handOver := inv.phase_eq i
  rw [here] at handOver
  subst handOver
  rcases inv.shared with ⟨bound, started, idBound, other⟩
  have promoter := inv.roles i
  simp only [Phase.role, if_true] at promoter
  have loop : (s.workers i).loop = true := by
    rcases promoter.2.2 with given | given
    · exact given.2.1
    · cases given.1
  have keeps : Keeps s (s.setWorker i { s.workers i with loop := false, pc := .setUserdata id }) :=
    keeps_setWorker rfl fun left => by cases here.symm.trans left
  refine .change (inv.frame (keeps.trans (keeps_setWorker rfl fun left => left)) rfl (fun j => ?_)
    ⟨bound, started, idBound, other⟩) (inTime_worker (by simp [here])) rfl rfl nofun nofun
  have role := inv.roles j
  simp only [workers_setWorker, Phase.role] at role ⊢
  by_cases target : j = id
  · subst target
    simp only [if_true, if_neg other] at role ⊢
    exact ⟨role.1, role.2.1, fun _ => loop, role.2.2.2⟩
  · by_cases own : j = i
    · subst own
      simp only [if_true, if_neg target] at role ⊢
      exact ⟨role.1, role.2.1, .inr ⟨rfl, .inl rfl⟩⟩
    · simpa only [if_neg target, if_neg own] using role

/-- `ev_set_userdata` -/
theorem InPhase.setUserdata (inv : InPhase n s phase)
    (here : (s.workers i).pc = .setUserdata id) :
    Goes n (.worker i) s { s.goto i (.setLeader id) with userdata := some id } phase phase := by
  have handOver := inv.phase_eq i
  rw [here] at handOver
  subst handOver
  refine .quiet (inv.frame (keeps_goto here nofun) rfl (fun j => ?_) inv.shared)
    (inTime_worker (by simp [here])) rfl rfl nofun
  have role := inv.roles j
  simp only [State.goto, workers_setWorker, Phase.role] at role ⊢
  split
  · next same =>
      simp only [same, if_true] at role
      exact ⟨role.1, role.2.1, .inr ⟨rfl, .inr rfl⟩⟩
  · next notSelf => simpa only [if_neg notSelf] using role

theorem LeaderAt.of_awaits (awaits : AwaitsAt w) : LeaderAt { w with leader := true } := by
  rw [AwaitsAt] at awaits
  rw [LeaderAt]
  split at awaits <;> simp_all

/-- A worker that was given the loop becomes the leader. -/
theorem RoleOk.lead (ok : RoleOk w (.target true)) : RoleOk { w with leader := true } .leader :=
  ⟨rfl, ok.2.2.1 rfl, ok.2.1, .of_awaits ok.2.2.2⟩

/-- A worker at the end of `run` that was given the loop is leaving. -/
theorem leaving_of_left {given : Bool} (ok : RoleOk w (.target given)) (left : w.pc = .left) :
    w.leaving = true := by
  have awaits := ok.2.2.2
  rw [AwaitsAt, left] at awaits
  simp only [Worker.leaving, awaits, left, Pc.atExit, Bool.and_self]

/-- `m_leader = true` -/
theorem InPhase.setLeader (inv : InPhase n s phase) (here : (s.workers i).pc = .setLeader id) :
    Goes n (.worker i) s ((s.goto i .handle).makeLeader id) phase (.led id) := by
  have handOver := inv.phase_eq i
  rw [here] at handOver
  subst handOver
  rcases inv.shared with ⟨bound, started, idBound, other⟩
  have target := inv.roles id
  simp only [Phase.role, if_neg other, if_true] at target
  have isInTime : inTime (.worker i) s = !(s.workers id).leaving := by
    simp only [inTime, here]
  have leaving : (((s.goto i .handle).makeLeader id).workers id).leaving =
      (s.workers id).leaving := by
    simp only [State.makeLeader, State.goto, workers_setWorker, if_true, if_neg other]
    rfl
  have going : Keeps s (s.goto i .handle) := keeps_goto here nofun
  have keeps : Keeps s ((s.goto i .handle).makeLeader id) :=
    going.trans (keeps_setWorker rfl fun left => left)
  refine ⟨inv.frame keeps rfl (fun j => ?_) ⟨idBound, started⟩, fun before timely => ?_,
    fun before late => ?_, nofun⟩
  · have role := inv.roles j
    simp only [State.makeLeader, State.goto, workers_setWorker, Phase.role] at role ⊢
    by_cases isTarget : j = id
    · subst isTarget
      simp only [if_true, if_neg other] at role ⊢
      exact role.lead
    · by_cases own : j = i
      · subst own
        simp only [if_true, if_neg isTarget] at role ⊢
        exact ⟨role.1, fun isFree => (by cases role.2.1.symm.trans isFree), trivial⟩
      · simpa only [if_neg isTarget, if_neg own] using role
  · have stays : (s.workers id).leaving = false := by simpa [isInTime] using timely
    refine ⟨?_, ?_⟩
    · rw [Settled, leaving, stays]
      exact before
    · have notLeft : (s.workers id).pc ≠ .left := by
        intro left
        cases stays.symm.trans (leaving_of_left target left)
      change (s.handedToLeft || ((s.goto i .handle).workers id).pc == .left) = s.handedToLeft
      rw [State.goto, workers_setWorker, if_neg other, beq_eq_false_iff_ne.mpr notLeft,
        Bool.or_false]
  · refine ⟨id, rfl, ?_, before⟩
    rw [leaving]
    simpa [isInTime] using late

/-- `ev_loop_destroy` -/
theorem InPhase.destroy (inv : InPhase n s phase) (here : (s.workers i).pc = .destroy) :
    Goes n (.worker i) s { s.goto i .outer with destroyed := s.destroyed + 1 } phase phase := by
  have led := inv.phase_eq i
  rw [here] at led
  subst led
  have leader := inv.roles i
  simp only [Phase.role, if_true] at leader
  have term : (s.workers i).term = true := by
    have at_ := leader.2.2.2
    rwa [LeaderAt, here] at at_
  have notLeaving : (s.workers i).leaving = false := by simp [Worker.leaving, here, Pc.atExit]
  have isInTime : inTime (.worker i) s = true := inTime_worker (by simp [here])
  refine ⟨inv.frame (keeps_goto here nofun) rfl (fun j => ?_) inv.shared, fun before _ => ?_,
    fun _ late => (by cases isInTime.symm.trans late), ?_⟩
  · have role := inv.roles j
    simp only [State.goto, workers_setWorker, Phase.role] at role ⊢
    split
    · exact ⟨leader.1, leader.2.1, leader.2.2.1, trivial⟩
    · next notSelf => simpa only [if_neg notSelf] using role
  · refine ⟨?_, rfl⟩
    rw [Settled, notLeaving] at before
    simp [Settled, State.goto, workers_setWorker, Worker.leaving, Pc.atExit, term, before]
  · rintro ⟨_, ⟨⟩, isLeaving, _⟩
    cases notLeaving.symm.trans isLeaving

/-- An event is added to the queue of a worker. -/
theorem RoleOk.addEvent {role : Role} (ok : RoleOk w role) (events : Nat) :
    RoleOk { w with events := events } role := by
  cases role <;> exact ok

theorem InPhase.fire (inv : InPhase n s phase) (i u : Nat) :
    Goes n (.fire i) s (s.setWorker u { s.workers u with events := (s.workers u).events + 1 })
      phase phase := by
  have roles : ∀ j, RoleOk
      ((s.setWorker u { s.workers u with events := (s.workers u).events + 1 }).workers j)
      (phase.role j) := by
    apply (Function.forall_update_iff s.workers fun j x => RoleOk x (phase.role j)).mpr
    exact ⟨(inv.roles u).addEvent _, fun j _ => inv.roles j⟩
  refine .quiet (inv.frame (keeps_setWorker rfl fun left => left) rfl roles ?_) rfl rfl rfl ?_
  · refine inv.shared.frame rfl ?_
    apply (Function.forall_update_iff s.workers fun j x =>
      (s.workers j).busyBit = true → x.busyBit = true).mpr
    exact ⟨fun isFree => isFree, fun j _ isFree => isFree⟩
  · intro j _
    rw [workers_setWorker]
    split
    · next same =>
        subst same
        rfl
    · rfl

/-! The main thread -/

theorem InPhase.main_eq (inv : InPhase n s phase) :
    match s.main with
    | .spawn _ | .waitBit _ | .unsetFirst => phase = .boot
    | .moveLoop => phase = .bootHandOver false
    | .setUserdata | .setLeader => phase = .bootHandOver true
    | _ => phase ≠ .boot ∧ ∀ given, phase ≠ .bootHandOver given := by
  have shared := inv.shared
  cases phase with
  | boot =>
      simp only [Phase.Shared] at shared
      split at shared
      case h_4 => cases shared
      all_goals simp_all
  | bootHandOver given =>
      cases given with
      | false => simp_all [Phase.Shared]
      | true => rcases shared with here | here <;> simp [here]
  | led j =>
      have started := shared.2
      cases main : s.main <;> simp_all [Main.started]
  | chosen j id | claimed j id | handOver j id given =>
      have started := shared.2.1
      cases main : s.main <;> simp_all [Main.started]

theorem Goes.of_boot {after : Phase} (inPhase : InPhase n next after)
    (boot : phase = .boot ∨ ∃ given, phase = .bootHandOver given)
    (isInTime : inTime action s = true) (destroyed : next.destroyed = s.destroyed)
    (handed : next.handedToLeft = s.handedToLeft)
    (leavingNext : ∀ i, after = .led i → (next.workers i).leaving = false) :
    Goes n action s next phase after := by
  refine .change inPhase isInTime destroyed handed ?_ leavingNext
  intro i led
  rcases boot with boot | ⟨_, boot⟩ <;> cases boot.symm.trans led

/-- The main thread goes on in `join` without touching a worker. -/
theorem InPhase.joins (inv : InPhase n s phase) (m : Main) (started : s.main.started = true)
    (startedNext : m.started = true) (joined : ∀ j < m.joined n, (s.workers j).pc = .left)
    (before : ∀ j, m.before j = true → s.main.before j = true) :
    InPhase n { s with main := m } phase where
  roles := inv.roles
  shared := by
    have shared := inv.shared
    have main := inv.main_eq
    cases phase with
    | boot | bootHandOver given => cases here : s.main <;> simp_all [Main.started]
    | led j => exact ⟨shared.1, startedNext⟩
    | chosen j id | claimed j id | handOver j id given => exact ⟨shared.1, startedNext, shared.2.2⟩
  joined := joined
  untermed j isBefore := inv.untermed j (before j isBefore)

theorem inTime_main (other : ∀ i, s.main ≠ .setTerm i) : inTime .main s = true := by
  rw [inTime]
  split
  · next i here => exact absurd here (other i)
  · rfl

theorem InPhase.led_of_outer (inv : InPhase n s phase) (leads : (s.workers i).leader = true)
    (here : (s.workers i).pc = .outer) : phase = .led i := by
  have role := inv.roles i
  have eq := phase.eq_of_role i
  cases named : phase.role i with
  | leader => simpa only [named] using eq
  | follower | target given =>
      rw [named] at role
      cases role.1.symm.trans leads
  | choosing id =>
      rw [named] at role
      rcases role.2.2.2 with other | other <;> cases here.symm.trans other
  | claiming id =>
      rw [named] at role
      cases here.symm.trans role.2.2.2
  | promoter id given =>
      rw [named] at role
      cases role.1.symm.trans leads

/-- `m_term = true` of the next worker. -/
theorem InPhase.setTerm (inv : InPhase n s phase) (here : s.main = .setTerm i) (bound : i < n) :
    Goes n .main s { s.setWorker i { s.workers i with term := true } with main := .interrupt i }
      phase phase := by
  have untermed : (s.workers i).term = false := inv.untermed i (by simp [here, Main.before])
  have isInTime : inTime .main s = !((s.workers i).leader && (s.workers i).pc == .outer) := by
    simp only [inTime, here]
  have inPhase : InPhase n
      { s.setWorker i { s.workers i with term := true } with main := .interrupt i } phase := by
    have joins : InPhase n { s with main := .interrupt i } phase := by
      refine inv.joins _ (by rw [here]; rfl) rfl ?_ ?_
      · simpa only [here, Main.joined] using inv.joined
      · intro j before
        simp only [Main.before, decide_eq_true_eq] at before
        simpa only [here, Main.before, decide_eq_true_eq] using Nat.le_of_lt before
    refine ⟨?_, ?_, ?_, ?_⟩
    · apply (Function.forall_update_iff s.workers fun j x => RoleOk x (phase.role j)).mpr
      exact ⟨(inv.roles i).terminate, fun j _ => inv.roles j⟩
    · refine joins.shared.frame rfl ?_
      apply (Function.forall_update_iff s.workers fun j x =>
        (s.workers j).busyBit = true → x.busyBit = true).mpr
      exact ⟨fun isFree => isFree, fun j _ isFree => isFree⟩
    · apply (Function.forall_update_iff s.workers fun j x => j < i → x.pc = .left).mpr
      exact ⟨joins.joined i, fun j _ => joins.joined j⟩
    · apply (Function.forall_update_iff s.workers fun j x =>
        (Main.interrupt i).before j = true → x.term = false).mpr
      refine ⟨fun before => ?_, fun j _ => joins.untermed j⟩
      simp [Main.before] at before
  -- Of the leader, `m_term` was not set before, so that it was not leaving.
  have leaving (j : Nat) (notOuter : ¬ (j = i ∧ (s.workers i).pc = .outer)) (led : phase = .led j) :
      ((s.setWorker i { s.workers i with term := true }).workers j).leaving =
        (s.workers j).leaving := by
    rw [workers_setWorker]
    split
    · next same =>
        subst same led
        have leader := inv.roles j
        simp only [Phase.role, if_true] at leader
        have at_ := leader.2.2.2
        rw [LeaderAt] at at_
        split at at_ <;> simp_all [Worker.leaving, Pc.atExit]
    · rfl
  by_cases timely : inTime .main s = true
  · refine .quiet inPhase timely rfl rfl fun j led => leaving j ?_ led
    rintro ⟨rfl, outer⟩
    have leader := inv.roles j
    rw [led] at leader
    simp only [Phase.role, if_true] at leader
    simp [isInTime, leader.1, outer] at timely
  · have both : (s.workers i).leader = true ∧ (s.workers i).pc = .outer := by
      simpa [isInTime] using timely
    have led := inv.led_of_outer both.1 both.2
    subst led
    refine ⟨inPhase, fun _ isTimely => absurd isTimely timely, fun before _ => ?_, ?_⟩
    · refine ⟨i, rfl, ?_, ?_⟩
      · simp [State.setWorker, Worker.leaving, both.2, Pc.atExit]
      · change s.destroyed = 0
        simpa [Settled, Worker.leaving, untermed] using before
    · rintro ⟨_, ⟨⟩, isLeaving, _⟩
      simp [Worker.leaving, untermed] at isLeaving

theorem InPhase.untermed_of_start (inv : InPhase n s phase) (start : s.main.started = false)
    (j : Nat) : (s.workers j).term = false := by
  apply inv.untermed
  cases here : s.main <;> simp_all [Main.started, Main.before]

/-- Before `stop`, a worker that `start` changes keeps its flag. -/
theorem untermed_update {x : Worker} {after : Main} (untermed : ∀ j, (s.workers j).term = false)
    (own : x.term = false) (j : Nat) (_ : after.before j = true) :
    (Function.update s.workers i x j).term = false := by
  rw [Function.update_apply]
  split
  · exact own
  · exact untermed j

theorem InPhase.mainStep (inv : InPhase n s phase) (positive : 0 < n)
    (stepped : Shutdown.mainStep n s = some next) :
    ∃ after, Goes n .main s next phase after := by
  have main := inv.main_eq
  rw [Shutdown.mainStep] at stepped
  split at stepped
  · next i here =>
      rw [here] at main
      subst main
      have inTime := inTime_main (s := s) (by simp [here])
      have untermed := inv.untermed_of_start (by simp [here, Main.started])
      split at stepped
      · cases stepped
        refine ⟨.boot, .of_boot ⟨?_, trivial, nofun, untermed_update untermed (untermed i)⟩
          (.inl rfl) inTime rfl rfl nofun⟩
        apply (Function.forall_update_iff s.workers fun j x => RoleOk x .follower).mpr
        exact ⟨⟨(inv.roles i).1, nofun, trivial⟩, fun j _ => inv.roles j⟩
      · cases stepped
        refine ⟨.boot, .of_boot ⟨inv.roles, ?_, nofun, fun j _ => untermed j⟩ (.inl rfl) inTime
          rfl rfl nofun⟩
        exact fun impossible => absurd impossible (Nat.lt_irrefl 0)
  · next i here =>
      rw [here] at main
      subst main
      have inTime := inTime_main (s := s) (by simp [here])
      have untermed := inv.untermed_of_start (by simp [here, Main.started])
      have shared := inv.shared
      simp only [Phase.Shared, here] at shared
      split at stepped
      · next bound =>
          split at stepped
          · next isFree =>
              cases stepped
              refine ⟨.boot, .of_boot ⟨inv.roles, fun _ => ?_, nofun, fun j _ => untermed j⟩
                (.inl rfl) inTime rfl rfl nofun⟩
              rcases Nat.eq_zero_or_pos i with rfl | later
              · exact isFree
              · exact shared later
          · cases stepped
      · next beyond =>
          cases stepped
          refine ⟨.boot, .of_boot ⟨inv.roles, ?_, nofun, fun j _ => untermed j⟩ (.inl rfl) inTime
            rfl rfl nofun⟩
          exact shared (Nat.lt_of_lt_of_le positive (Nat.not_lt.mp beyond))
  · next here =>
      rw [here] at main
      subst main
      have isFree := inv.shared
      simp only [Phase.Shared, here] at isFree
      have untermed := inv.untermed_of_start (by simp [here, Main.started])
      cases stepped
      refine ⟨.bootHandOver false, .of_boot
        ⟨?_, rfl, nofun, untermed_update untermed (untermed 0)⟩ (.inl rfl)
        (inTime_main (by simp [here])) rfl rfl nofun⟩
      apply (Function.forall_update_iff s.workers fun j x =>
        RoleOk x ((Phase.bootHandOver false).role j)).mpr
      refine ⟨⟨(inv.roles 0).1, rfl, nofun, (inv.roles 0).2.1 isFree⟩, fun j other => ?_⟩
      simpa only [Phase.role, if_neg other] using inv.roles j
  · next here =>
      rw [here] at main
      subst main
      have target := inv.roles 0
      simp only [Phase.role, if_true] at target
      have untermed := inv.untermed_of_start (by simp [here, Main.started])
      cases stepped
      refine ⟨.bootHandOver true, .of_boot
        ⟨?_, .inl rfl, nofun, untermed_update untermed (untermed 0)⟩ (.inr ⟨_, rfl⟩)
        (inTime_main (by simp [here])) rfl rfl nofun⟩
      apply (Function.forall_update_iff s.workers fun j x =>
        RoleOk x ((Phase.bootHandOver true).role j)).mpr
      refine ⟨⟨target.1, target.2.1, fun _ => rfl, target.2.2.2⟩, fun j other => ?_⟩
      simpa only [Phase.role, if_neg other] using inv.roles j
  · next here =>
      rw [here] at main
      subst main
      cases stepped
      refine ⟨.bootHandOver true, .of_boot ⟨inv.roles, .inr rfl, nofun, fun j _ => ?_⟩
        (.inr ⟨_, rfl⟩) (inTime_main (by simp [here])) rfl rfl nofun⟩
      exact inv.untermed j (by simp [here, Main.before])
  · next here =>
      rw [here] at main
      subst main
      have target := inv.roles 0
      simp only [Phase.role, if_true] at target
      have untermed := inv.untermed_of_start (by simp [here, Main.started])
      have notLeft : (s.workers 0).pc ≠ .left := by
        intro left
        have leaving := leaving_of_left target left
        simp [Worker.leaving, untermed 0] at leaving
      cases stepped
      refine ⟨.led 0, .of_boot
        ⟨?_, ⟨positive, rfl⟩, nofun, untermed_update untermed (untermed 0)⟩ (.inr ⟨_, rfl⟩)
        (inTime_main (by simp [here])) rfl ?_ ?_⟩
      · apply (Function.forall_update_iff s.workers fun j x => RoleOk x ((Phase.led 0).role j)).mpr
        refine ⟨target.lead, fun j other => ?_⟩
        simpa only [Phase.role, if_neg other] using inv.roles j
      · change (s.handedToLeft || (s.workers 0).pc == .left) = s.handedToLeft
        rw [beq_eq_false_iff_ne.mpr notLeft, Bool.or_false]
      · rintro _ ⟨⟩
        simp [State.makeLeader, State.setWorker, Worker.leaving, untermed 0]
  · next here =>
      cases stepped
      refine ⟨phase, .quiet (inv.joins _ (by rw [here]; rfl) rfl nofun ?_)
        (inTime_main (by simp [here])) rfl rfl fun _ _ => rfl⟩
      exact fun j _ => by rw [here]; rfl
  · next i here =>
      split at stepped
      · next bound =>
          cases stepped
          exact ⟨phase, inv.setTerm here bound⟩
      · next beyond =>
          cases stepped
          refine ⟨phase, .quiet (inv.joins _ (by rw [here]; rfl) rfl (fun j bound => ?_) nofun) ?_
            rfl rfl fun _ _ => rfl⟩
          · have all := inv.joined j
            rw [here] at all
            exact all (Nat.lt_of_lt_of_le bound (Nat.not_lt.mp beyond))
          · simp only [inTime, here, Bool.not_eq_true', Bool.and_eq_false_iff, beq_eq_false_iff_ne]
            rw [or_iff_not_imp_left]
            intro leads outer
            have led := inv.led_of_outer (Bool.not_eq_false _ ▸ leads) outer
            subst led
            exact beyond inv.shared.1
  · next i here =>
      cases stepped
      refine ⟨phase, .quiet (inv.joins _ (by rw [here]; rfl) rfl ?_ ?_)
        (inTime_main (by simp [here])) rfl rfl fun _ _ => rfl⟩
      · simpa only [here, Main.joined] using inv.joined
      · simp only [here, Main.before, imp_self, implies_true]
  · next i here =>
      split at stepped
      · next left =>
          cases stepped
          refine ⟨phase, .quiet (inv.joins _ (by rw [here]; rfl) rfl (fun j bound => ?_) ?_)
            (inTime_main (by simp [here])) rfl rfl fun _ _ => rfl⟩
          · have all := inv.joined j
            rw [here] at all
            rcases Nat.lt_succ_iff_lt_or_eq.mp bound with earlier | rfl
            · exact all earlier
            · exact left
          · intro j before
            simp only [Main.before, decide_eq_true_eq] at before
            simpa only [here, Main.before, decide_eq_true_eq] using Nat.lt_of_succ_le before
      · cases stepped
  · cases stepped

end Steps

/-! ## Whole runs -/

theorem InPhase.goes (inv : InPhase n s phase) (positive : 0 < n) (moves : Moves n s action next) :
    ∃ after, Goes n action s next phase after := by
  cases moves with
  | runs runs notMain own => exact ⟨phase, inv.goes_runs runs notMain own⟩
  | fire => exact ⟨phase, inv.fire _ _⟩
  | found here isFree bound => exact ⟨_, inv.found here isFree bound⟩
  | foundId here => exact ⟨phase, inv.foundId here⟩
  | unsetId here => exact ⟨_, inv.unsetId here⟩
  | demote here => exact ⟨_, inv.demote here⟩
  | moveLoop here => exact ⟨_, inv.moveLoop here⟩
  | setUserdata here => exact ⟨phase, inv.setUserdata here⟩
  | setLeader here => exact ⟨_, inv.setLeader here⟩
  | destroy here => exact ⟨phase, inv.destroy here⟩
  | @noLoop i here noLoop =>
      have led := inv.phase_eq i
      rw [here] at led
      subst led
      have leader := inv.roles i
      simp only [Phase.role, if_true] at leader
      cases noLoop.symm.trans leader.2.1
  | main stepped => exact inv.mainStep positive stepped

theorem inPhase_init (n : Nat) : InPhase n (system n).init .boot :=
  ⟨fun _ => ⟨rfl, nofun, trivial⟩, trivial, nofun, fun _ _ => rfl⟩

/-- Leadership was never handed to a worker whose `run` has returned, and when `join` has
returned, the loop was destroyed once. -/
def Orderly (s : State) : Prop := s.handedToLeft = false ∧ (s.main = .returned → s.destroyed = 1)

theorem InPhase.destroyed_of_returned (inv : InPhase n s phase) (settled : Settled s phase)
    (returned : s.main = .returned) : s.destroyed = 1 := by
  have left {i : Nat} (bound : i < n) : (s.workers i).pc = .left :=
    inv.joined i (by rwa [returned])
  have shared := inv.shared
  have main := inv.main_eq
  rw [returned] at main
  cases phase with
  | boot => exact absurd rfl main.1
  | bootHandOver given => exact absurd rfl (main.2 given)
  | led i =>
      have leader := inv.roles i
      simp only [Phase.role, if_true] at leader
      have at_ := leader.2.2.2
      rw [LeaderAt, left shared.1] at at_
      rw [Settled] at settled
      rw [settled, Worker.leaving, at_, left shared.1]
      rfl
  -- The worker that hands over has not left.
  | chosen i id =>
      have role := inv.roles i
      simp only [Phase.role, if_true] at role
      rcases role.2.2.2 with here | here <;> cases (left shared.1).symm.trans here
  | claimed i id =>
      have role := inv.roles i
      simp only [Phase.role, if_true] at role
      cases (left shared.1).symm.trans role.2.2.2
  | handOver i id given =>
      have role := inv.roles i
      simp only [Phase.role, if_true] at role
      rcases role.2.2 with here | ⟨_, here | here⟩
      · cases (left shared.1).symm.trans here.2.2
      all_goals cases (left shared.1).symm.trans here

/-- Everything is in order so far. -/
def Fine (n : Nat) (s : State) : Prop :=
  ∃ phase, InPhase n s phase ∧ Settled s phase ∧ s.handedToLeft = false

/-- The loop will not be destroyed any more. -/
def Lost (n : Nat) (s : State) : Prop := ∃ phase, InPhase n s phase ∧ Stuck s phase

theorem Fine.orderly (fine : Fine n s) : Orderly s := by
  rcases fine with ⟨phase, inv, settled, handed⟩
  exact ⟨handed, inv.destroyed_of_returned settled⟩

theorem fine_init (n : Nat) : Fine n (system n).init := ⟨.boot, inPhase_init n, rfl, rfl⟩

theorem Fine.step (fine : Fine n s) (positive : 0 < n) (timely : inTime action s = true)
    (stepped : (system n).step action s = some next) : Fine n next := by
  rcases fine with ⟨phase, inv, settled, handed⟩
  rcases inv.goes positive (moves_of_step stepped) with ⟨after, goes⟩
  rcases goes.settled settled timely with ⟨settledNext, same⟩
  exact ⟨after, goes.inPhase, settledNext, same.trans handed⟩

theorem Fine.lost (fine : Fine n s) (positive : 0 < n) (late : ¬ inTime action s = true)
    (stepped : (system n).step action s = some next) : Lost n next := by
  rcases fine with ⟨phase, inv, settled, _⟩
  rcases inv.goes positive (moves_of_step stepped) with ⟨after, goes⟩
  exact ⟨after, goes.inPhase, goes.late settled (Bool.eq_false_iff.mpr late)⟩

theorem Lost.step (lost : Lost n s) (positive : 0 < n)
    (stepped : (system n).step action s = some next) : Lost n next := by
  rcases lost with ⟨phase, inv, stuck⟩
  rcases inv.goes positive (moves_of_step stepped) with ⟨after, goes⟩
  exact ⟨after, goes.inPhase, goes.stuck stuck⟩

/-- In a run whose steps are all in time, everything is in order; and if everything is in
order when `join` has returned, then all steps were in time. -/
theorem shutdown_orderly (n : Nat) (many : 2 ≤ n) (actions : List Action) :
    ((system n).Along (fun action s => inTime action s = true) actions (system n).init →
      (system n).Throughout Orderly actions (system n).init) ∧
    ∀ final, (system n).exec actions (system n).init = some final → final.main = .returned →
      Orderly final →
      (system n).Along (fun action s => inTime action s = true) actions (system n).init := by
  have positive : 0 < n := Nat.lt_of_lt_of_le Nat.two_pos many
  constructor
  · intro timely
    apply System.throughout_of_along (Fine n) Fine.orderly _ (fine_init n) timely
    exact fun fine timely stepped => fine.step positive timely stepped
  · intro final run returned orderly
    apply System.along_of_exec (Fine n) (Lost n) (fun fine timely => fine.step positive timely)
      (fun fine late => fine.lost positive late) (fun lost => lost.step positive) (fine_init n) run
    rintro ⟨_, _, _, _, _, notDestroyed⟩
    cases notDestroyed.symm.trans (orderly.2 returned)

/-- Two workers are started, worker 0 promotes worker 1, handles its event and waits, worker 1
runs the loop, and `join` has finished with worker 0. -/
def joinedFirst : List Action := List.flatten
  [[.main, .main, .main, .worker 0, .worker 1], List.replicate 7 .main,
    List.replicate 4 (.worker 0), List.replicate 2 (.worker 1), [.fire 0, .loopReturn 0],
    List.replicate 11 (.worker 0), [.handlerReturn 0], List.replicate 7 (.worker 0),
    List.replicate 3 (.worker 1), List.replicate 3 .main, List.replicate 5 (.worker 0), [.main]]

/-- Worker 1 is terminated while it runs the loop. -/
def joinedBoth : List Action := List.flatten
  [joinedFirst, [.main, .loopReturn 1], List.replicate 7 (.worker 1), List.replicate 3 .main]

theorem shutdown_orderly_promoted :
    ∃ final, (system 2).exec joinedBoth (system 2).init = some final ∧ final.main = .returned ∧
      final.destroyed = 1 ∧ (system 2).Throughout Orderly joinedBoth (system 2).init := by
  have run : ((system 2).exec joinedBoth (system 2).init).any
      (fun s => s.main == .returned && s.destroyed == 1 && !s.handedToLeft) = true := by
    decide +kernel
  rcases Option.any_eq_true_iff_get .. |>.mp run with ⟨computed, test⟩
  simp only [Bool.and_eq_true, beq_iff_eq, Bool.not_eq_true'] at test
  rcases test with ⟨⟨returned, once⟩, handed⟩
  have both := shutdown_orderly 2 (Nat.le_refl 2) joinedBoth
  have ends := (Option.some_get computed).symm
  exact ⟨_, ends, returned, once, both.1 (both.2 _ ends returned ⟨handed, fun _ => once⟩)⟩

/-- Worker 1 has an event and promotes worker 0, whose `run` has returned. -/
theorem shutdown_not_orderly :
    ∃ s, (system 2).Reachable s ∧ s.handedToLeft = true ∧ s.main = .returned ∧
      s.destroyed = 0 := by
  have run : ((system 2).exec (List.flatten [joinedFirst, [.fire 1, .loopReturn 1],
      List.replicate 10 (.worker 1), List.replicate 2 .main, [.worker 1, .handlerReturn 1],
      List.replicate 6 (.worker 1), List.replicate 2 .main]) (system 2).init).any
        (fun s => s.handedToLeft && s.main == .returned && s.destroyed == 0) = true := by
    decide +kernel
  obtain ⟨s, reachable, test⟩ := System.exists_reachable_of_exec run
  simp only [Bool.and_eq_true, beq_iff_eq] at test
  exact ⟨s, reachable, test.1.1, test.1.2, test.2⟩

end LibTasks.Dispatcher.Shutdown

import LibTasks.Dispatcher.EventHandling
import LibTasks.Foundation.Progress

/-!
# The event loop is taken up again

The thread that has the event loop never waits for another one: it handles its events, or it
hands the loop over to a worker that is waiting for it.  So wherever a run of the dispatcher
has got to, the threads of the workers can bring a leader back into the event loop, whatever
their handlers return.
-/

namespace LibTasks.Dispatcher

open LibTasks.Foundation

variable {Task Other : Type}

/-! ## Who drives the hand-over -/

/-- The worker on which the next operation of the hand-over depends. -/
def Phase.driver : Phase → Option Nat
  | .led i | .chosen i _ | .claimed i _ | .handOver i _ _ => some i
  | .boot | .bootHandOver _ => none

/-- An upper bound for the steps of a driving thread until a leader is in the event loop. -/
def Pc.distance (numWorkers : Nat) (queued : Nat → Nat) (events : Nat) : Pc Task Other → Nat
  | .lead => 1
  | .waiting => 2
  | .top => 3
  | .handle => 10 * events + 2
  | .handling _ => 10 * (events - 1) + 11
  | .handled _ _ => 10 * (events - 1) + 10
  | .pop => 10 * (events - 1) + 3
  | .setLeader _ => 4
  | .setUserdata _ => 5
  | .moveLoop _ => 6
  | .demote _ => 7
  | .unsetId _ => 8
  | .foundId _ => 9
  | .next _ chkCnt => 10 * events + 10 + (numWorkers - chkCnt)
  | .freeWorker => 10 * events + numWorkers + 11
  | .loopReturned => 10 * events + numWorkers + 12
  | .inLoop => if events = 0 then 0 else 10 * events + numWorkers + 13
  | .drain _ _ qcpy => 10 * events + numWorkers + 14 + 10 * qcpy.length
  | .inFunctor _ _ _ qcpy => 10 * events + numWorkers + 15 + 10 * qcpy.length
  | .execFront _ _ _ qcpy => 10 * events + numWorkers + 20 + 10 * qcpy.length
  | .swap _ queue => 10 * events + numWorkers + 15 + 10 * queued queue
  | .addEvent _ _ => 10 * events + numWorkers + 24
  | .stopWatcher _ _ => 10 * events + numWorkers + 25
  | .fired _ _ => 10 * events + numWorkers + 26
  | _ => 0

/-- The bound for worker `i` in a state. -/
def distance (cfg : Config Task Other) (s : State Task Other) (i : Nat) : Nat :=
  (s.workers i).pc.distance cfg.numWorkers (fun w => (s.queues w).queue.length)
    (s.workers i).events.length + (s.calls i).weight

/-- Worker `i` is in the event loop and has nothing else to do. -/
structure Collects (cfg : Config Task Other) (s : State Task Other) (i : Nat) : Prop where
  bound : i < cfg.numWorkers
  leads : (s.workers i).leader = true
  inLoop : (s.workers i).pc = .inLoop
  events : (s.workers i).events = []
  idle : s.calls i = .idle

section Drivers

variable {cfg : Config Task Other} {s : State Task Other} {phase : Phase} {i : Nat}

theorem InPhase.driver_of_leader (inv : InPhase cfg s phase) (bound : i < cfg.numWorkers)
    (leads : (s.workers i).leader = true) : phase.driver = some i := by
  have leader := (inv.leader_iff bound).mp leads
  cases phase with
  | led | chosen | claimed => exact leader
  | boot | bootHandOver | handOver => cases leader

theorem InPhase.driver_of_handOver (inv : InPhase cfg s phase) (bound : i < cfg.numWorkers)
    {id : Nat} (promotes : (s.workers i).pc.successor = some id) : phase.driver = some i := by
  rcases inv.successor_eq bound promotes with rfl | rfl | ⟨given, rfl⟩
  · rfl
  · rfl
  · rfl

/-- Once `dispatcher::start` has returned, some worker drives. -/
theorem InPhase.exists_driver (inv : InPhase cfg s phase) (started : s.starter = .started) :
    ∃ i < cfg.numWorkers, phase.driver = some i := by
  have shared := inv.shared
  cases phase with
  | boot => simp [Phase.Shared, started] at shared
  | bootHandOver given => cases given <;> simp [Phase.Shared, started] at shared
  | led i | chosen i id | claimed i id | handOver i id given => exact ⟨i, shared.1, rfl⟩

theorem InPhase.driver_bound (inv : InPhase cfg s phase) (driver : phase.driver = some i) :
    i < cfg.numWorkers := by
  have shared := inv.shared
  cases phase with
  | boot | bootHandOver => cases driver
  | led | chosen | claimed | handOver =>
      cases driver
      exact shared.1

end Drivers

variable [DecidableEq Task]

/-! ## The leader gets into the loop -/

section Leading

variable {cfg : Config Task Other} {s s' : State Task Other} {phase : Phase} {i : Nat}

/-- Only `m_leader = false` takes the leadership away. -/
theorem workerStep_leader (stepped : workerStep cfg s i = some s')
    (stays : ∀ id, (s.workers i).pc ≠ .demote id) {j : Nat}
    (leads : (s.workers j).leader = true) : (s'.workers j).leader = true := by
  revert stepped
  fun_cases workerStep cfg s i
  all_goals
    intro stepped
    simp only [Option.some.injEq, reduceCtorEq] at stepped
  all_goals
    subst stepped
    simp +zetaDelta [Function.update_apply]
  case case29 point => exact absurd point (stays _)
  all_goals
    repeat' split
    all_goals simp_all

/-- A call in progress can go on. -/
theorem callStep_lighter (cfg : Config Task Other) {thread : Nat} (busy : s.calls thread ≠ .idle) :
    ∃ s', callStep cfg s thread = some s' ∧ (s'.calls thread).weight < (s.calls thread).weight := by
  cases call : s.calls thread with
  | idle => exact absurd call busy
  | test worker f =>
      simp only [callStep, call]
      refine ⟨_, rfl, ?_⟩
      simp only [State.setCall_calls, Function.update_self]
      split <;> simp [Call.weight]
  | direct | push | send =>
      simp only [callStep, call]
      refine ⟨_, rfl, ?_⟩
      simp [Call.weight]

/-- A call of the driver brings it closer to the loop. -/
theorem drive_call (inv : InPhase cfg s phase) (bound : i < cfg.numWorkers)
    (busy : s.calls i ≠ .idle) :
    ∃ s', callStep cfg s i = some s' ∧ distance cfg s' i < distance cfg s i := by
  have point := inv.calls.point i bound busy
  have steady (queued queued' : Nat → Nat) :
      (s.workers i).pc.distance cfg.numWorkers queued' (s.workers i).events.length =
        (s.workers i).pc.distance cfg.numWorkers queued (s.workers i).events.length := by
    revert point
    cases (s.workers i).pc <;> simp [Pc.isCallPoint, Pc.distance]
  rcases callStep_lighter cfg busy with ⟨s', stepped, lighter⟩
  refine ⟨s', stepped, ?_⟩
  simp only [distance, callStep_workers stepped]
  rw [steady (fun w => (s.queues w).queue.length) (fun w => (s'.queues w).queue.length)]
  exact Nat.add_lt_add_left lighter _

/-- An operation of the leader brings it closer to the loop. -/
theorem drive_worker (inv : InPhase cfg s (.led i)) (idle : s.calls i = .idle)
    (notLoop : (s.workers i).pc ≠ .inLoop)
    (notHandler : ∀ event, (s.workers i).pc ≠ .handling event) :
    ∃ s', workerStep cfg s i = some s' ∧ distance cfg s' i < distance cfg s i := by
  rcases inv.leader with ⟨leads, _, _, place⟩
  cases point : (s.workers i).pc with
  | unborn | markFree | aborted | foundId | unsetId | demote | moveLoop | setUserdata
  | setLeader => simp [LeaderAt, point] at place
  | inLoop => exact absurd point notLoop
  | handling event => exact absurd point (notHandler event)
  | top | waiting =>
      simp only [workerStep, point, leads, ↓reduceIte]
      refine ⟨_, rfl, ?_⟩
      simp [distance, Pc.distance, point, idle]
  | lead =>
      simp only [LeaderAt, point] at place
      simp only [workerStep, point, leads, ↓reduceIte]
      refine ⟨_, rfl, ?_⟩
      simp [distance, Pc.distance, point, idle, place]
  | fired worker event =>
      rcases inv.callback inv.shared.1 (by rw [point]; rfl) with ⟨_, rfl⟩
      simp only [workerStep, point, inv.isDirect_self, ↓reduceIte]
      refine ⟨_, rfl, ?_⟩
      simp [distance, Pc.distance, point, idle]
  | stopWatcher worker event =>
      simp only [workerStep, point]
      refine ⟨_, rfl, ?_⟩
      simp [distance, Pc.distance, point, idle]
  | addEvent worker event =>
      rcases inv.callback inv.shared.1 (by rw [point]; rfl) with ⟨_, rfl⟩
      simp only [workerStep, point]
      refine ⟨_, rfl, ?_⟩
      simp [distance, Pc.distance, point, idle]
      omega
  | swap worker queue =>
      simp only [workerStep, point]
      refine ⟨_, rfl, ?_⟩
      simp [distance, Pc.distance, point, idle]
  | drain worker queue qcpy =>
      rcases inv.callback inv.shared.1 (by rw [point]; rfl) with ⟨_, rfl⟩
      cases qcpy with
      | nil =>
          simp only [workerStep, point]
          refine ⟨_, rfl, ?_⟩
          simp only [distance, Pc.distance, point, idle, State.goto_workers, State.goto_calls,
            Function.update_self, Worker.moveTo_pc, Worker.moveTo_events]
          split <;> omega
      | cons front rest =>
          cases build : cfg.build <;>
            simp only [workerStep, point, build, inv.isDirect_self, ↓reduceIte] <;>
            refine ⟨_, rfl, ?_⟩ <;>
            simp only [distance, Pc.distance, point, idle, State.goto_workers, State.goto_calls,
              Function.update_self, Worker.moveTo_pc, Worker.moveTo_events, List.length_cons] <;>
            omega
  | execFront worker queue front qcpy =>
      simp only [workerStep, point]
      refine ⟨_, rfl, ?_⟩
      simp [distance, Pc.distance, point, idle]
  | inFunctor worker queue front qcpy =>
      simp only [workerStep, point]
      refine ⟨_, rfl, ?_⟩
      simp [distance, Pc.distance, point, idle]
  | loopReturned =>
      simp only [workerStep, point]
      refine ⟨_, rfl, ?_⟩
      simp only [distance, point, idle, State.goto_workers, Function.update_self,
        Worker.moveTo_pc, Worker.moveTo_events, State.goto_calls, State.goto_queues]
      split <;> simp [Pc.distance]
  | freeWorker =>
      simp only [workerStep, point]
      refine ⟨_, rfl, ?_⟩
      simp only [distance, point, idle, State.goto_workers, Function.update_self, Worker.moveTo_pc,
        Worker.moveTo_events, State.goto_calls, State.goto_queues]
      split <;> simp [Pc.distance] <;> omega
  | next chkIdx chkCnt =>
      have inside : chkIdx < cfg.numWorkers := by simpa [LeaderAt, point] using place
      simp only [workerStep, point, inside, ↓reduceIte]
      repeat' split
      all_goals
        refine ⟨_, rfl, ?_⟩
        simp [distance, Pc.distance, point, idle]
        omega
  | handle =>
      cases queued : (s.workers i).events with
      | nil =>
          simp only [workerStep, point, queued]
          refine ⟨_, rfl, ?_⟩
          simp [distance, Pc.distance, point, idle]
      | cons event rest =>
          simp only [workerStep, point, queued]
          refine ⟨_, rfl, ?_⟩
          simp [distance, Pc.distance, point, idle, queued]
          omega
  | handled event cont =>
      cases cont <;> simp only [workerStep, point] <;> refine ⟨_, rfl, ?_⟩ <;>
        simp [distance, Pc.distance, point, idle, Call.weight]
  | pop =>
      simp only [workerStep, point]
      refine ⟨_, rfl, ?_⟩
      simp [distance, Pc.distance, point, idle]

end Leading

variable [DecidableEq Other]

/-! ## The hand-over ends -/

section HandOver

variable {cfg : Config Task Other} {s s' : State Task Other} {phase : Phase} {i : Nat}
  {result : Event Task → Bool}

theorem InPhase.idle_of_point (inv : InPhase cfg s phase) (bound : i < cfg.numWorkers)
    (outside : (s.workers i).pc.isCallPoint = false) : s.calls i = .idle := by
  by_contra busy
  rw [inv.calls.point i bound busy] at outside
  cases outside

/-- The state before the driver's next step, which brings a leader closer to the loop. -/
def Advances (cfg : Config Task Other) (result : Event Task → Bool) (s : State Task Other)
    (i : Nat) : Prop :=
  ∃ s' phase j, SoloStep cfg i result s s' ∧ InPhase cfg s' phase ∧ phase.driver = some j ∧
    distance cfg s' j < distance cfg s i

/-- The worker that is promoted waits for it. -/
theorem InPhase.target_distance {id : Nat} {given : Bool}
    (inv : InPhase cfg s (.handOver i id given)) :
    distance cfg s id ≤ 3 ∧ (s.workers id).leader = false := by
  rcases inv.shared with ⟨_, _, inside, different, _⟩
  have role := inv.roles id inside
  simp only [Phase.role, different, ↓reduceIte] at role
  rcases role with ⟨follows, _, _, _, waits⟩
  have idle : s.calls id = .idle := by
    apply inv.idle_of_point inside
    rcases waits with point | point <;> rw [point] <;> rfl
  refine ⟨?_, follows⟩
  rcases waits with point | point <;> simp [distance, point, Pc.distance, idle, Call.weight]

/-- A promoting thread goes on with the hand-over. -/
theorem drive_promoter (nonempty : 0 < cfg.numWorkers) (inv : InPhase cfg s phase)
    (bound : i < cfg.numWorkers) (id : Nat) (promotes : (s.workers i).pc.successor = some id) :
    Advances cfg result s i := by
  have idle : s.calls i = .idle := by
    apply inv.idle_of_point bound
    revert promotes
    cases (s.workers i).pc <;> simp [Pc.successor, Pc.isCallPoint]
  have run : runnable cfg s i := ⟨bound, idle⟩
  rcases (inv.handOverSafe nonempty).successor i bound id promotes with ⟨inside, different⟩
  have other := Ne.symm different
  -- As long as the thread has its successor in hand, it drives.
  have goesOn (closer : ∃ s', workerStep cfg s i = some s' ∧
      (s'.workers i).pc.successor = some id ∧ distance cfg s' i < distance cfg s i) :
      Advances cfg result s i := by
    rcases closer with ⟨s', stepped, still, closer⟩
    have moves : step cfg (.worker i) s = some s' := by simp [step, run, stepped]
    rcases inv.step nonempty moves with ⟨phase', later⟩
    exact ⟨s', phase', i, .worker moves, later, later.driver_of_handOver bound still, closer⟩
  cases point : (s.workers i).pc with
  | foundId found | demote found | setUserdata found =>
      cases point ▸ promotes
      apply goesOn
      simp only [workerStep, point]
      refine ⟨_, rfl, ?_, ?_⟩
      · simp [Pc.successor]
      · simp [distance, Pc.distance, point, idle]
  | unsetId found | moveLoop found =>
      cases point ▸ promotes
      apply goesOn
      simp only [workerStep, point]
      refine ⟨_, rfl, ?_, ?_⟩
      · simp [Pc.successor, other]
      · simp [distance, Pc.distance, point, idle, other]
  | setLeader found =>
      cases point ▸ promotes
      rcases inv.eq_handOverPhase bound (by rw [point]; rfl) with rfl
      have near := inv.target_distance.1
      have moves : step cfg (.worker i) s = some ((s.goto i .handle).setWorker id
          { (s.goto i .handle).workers id with leader := true }) := by
        simp only [step, run, ↓reduceIte, workerStep, point]
      rcases inv.step nonempty moves with ⟨phase', later⟩
      refine ⟨_, phase', id, .worker moves, later, later.driver_of_leader inside ?_, ?_⟩
      · simp
      · have same : distance cfg ((s.goto i .handle).setWorker id
            { (s.goto i .handle).workers id with leader := true }) id = distance cfg s id := by
          simp [distance, different]
        have before : 4 ≤ distance cfg s i := by
          simp [distance, point, Pc.distance]
        omega
  | _ => simp [point, Pc.successor] at promotes

/-- The leader goes on. -/
theorem drive_leader (nonempty : 0 < cfg.numWorkers) (inv : InPhase cfg s (.led i))
    (busy : ¬Collects cfg s i) : Advances cfg result s i := by
  have bound := inv.shared.1
  rcases inv.leader with ⟨leads, _, _, place⟩
  -- After its step the leader is still the leader.
  have goesOn {s' : State Task Other} {action : Action Task Other}
      (solo : SoloStep cfg i result s s') (moves : step cfg action s = some s')
      (still : (s'.workers i).leader = true) (closer : distance cfg s' i < distance cfg s i) :
      Advances cfg result s i := by
    rcases inv.step nonempty moves with ⟨phase', later⟩
    exact ⟨s', phase', i, solo, later, later.driver_of_leader bound still, closer⟩
  by_cases idle : s.calls i = .idle
  · have run : runnable cfg s i := ⟨bound, idle⟩
    by_cases inLoop : (s.workers i).pc = .inLoop
    · have events : (s.workers i).events ≠ [] := fun none =>
        busy ⟨bound, leads, inLoop, none, idle⟩
      have moves : step cfg (.loopReturn i) s = some (s.goto i .loopReturned) := by
        simp [step, run, inLoop]
      apply goesOn (.loopReturn events moves) moves
      · simpa using leads
      · simp [distance, Pc.distance, inLoop, idle, events]
    · by_cases handler : ∃ event, (s.workers i).pc = .handling event
      · rcases handler with ⟨event, point⟩
        have moves : step cfg (.handlerReturn i (result event)) s =
            some (s.goto i (.handled event (result event))) := by
          simp [step, run, point]
        apply goesOn (.handlerReturn point moves) moves
        · simpa using leads
        · simp [distance, Pc.distance, point, idle]
      · rcases drive_worker inv idle inLoop (not_exists.mp handler) with ⟨s', stepped, closer⟩
        have moves : step cfg (.worker i) s = some s' := by simp [step, run, stepped]
        refine goesOn (.worker moves) moves (workerStep_leader stepped ?_ leads) closer
        intro id point
        simp [LeaderAt, point] at place
  · rcases drive_call inv bound idle with ⟨s', stepped, closer⟩
    have moves : step cfg (.call i) s = some s' := by
      simp [step, Nat.lt_add_right cfg.otherThreads bound, Config.numThreads, stepped]
    refine goesOn (.call moves) moves ?_ closer
    rw [callStep_workers stepped]
    exact leads

/-- Whichever worker drives, it can go on until a leader is in the loop. -/
theorem drive (nonempty : 0 < cfg.numWorkers) (inv : InPhase cfg s phase)
    (driver : phase.driver = some i) (busy : ¬Collects cfg s i) : Advances cfg result s i := by
  have shared := inv.shared
  cases phase with
  | boot | bootHandOver => cases driver
  | led leader =>
      cases driver
      exact drive_leader nonempty inv busy
  | chosen leader id =>
      cases driver
      have role := inv.roles i shared.1
      simp only [Phase.role, ↓reduceIte] at role
      apply drive_promoter nonempty inv shared.1 id
      rcases role.2.2.2 with point | point <;> rw [point] <;> rfl
  | claimed leader id =>
      cases driver
      have role := inv.roles i shared.1
      simp only [Phase.role, ↓reduceIte] at role
      apply drive_promoter nonempty inv shared.1 id
      rw [role.2.2.2]
      rfl
  | handOver leader id given =>
      cases driver
      have role := inv.roles i shared.1
      simp only [Phase.role, ↓reduceIte] at role
      apply drive_promoter nonempty inv shared.1 id
      rcases role.2.2.2 with ⟨_, point⟩ | ⟨_, point | point⟩ <;> rw [point] <;> rfl

/-- A step of some worker's thread. -/
def ThreadStep (cfg : Config Task Other) (result : Event Task → Bool)
    (s s' : State Task Other) : Prop :=
  ∃ i < cfg.numWorkers, SoloStep cfg i result s s'

theorem resumes_of_driver (nonempty : 0 < cfg.numWorkers) (result : Event Task → Bool)
    (inv : InPhase cfg s phase) (driver : phase.driver = some i) :
    ∃ s' j, Relation.ReflTransGen (ThreadStep cfg result) s s' ∧ InPhase cfg s' (.led j) ∧
      Collects cfg s' j := by
  let Driven (place : State Task Other × Nat) : Prop :=
    ∃ phase, InPhase cfg place.1 phase ∧ phase.driver = some place.2
  have goesOn (place : State Task Other × Nat) (driven : Driven place)
      (busy : ¬Collects cfg place.1 place.2) :
      ∃ next : State Task Other × Nat, ThreadStep cfg result place.1 next.1 ∧ Driven next ∧
        distance cfg next.1 next.2 < distance cfg place.1 place.2 := by
    rcases driven with ⟨phase, inv, driver⟩
    have advances : Advances cfg result place.1 place.2 := drive nonempty inv driver busy
    rcases advances with ⟨s', phase', j, solo, later, drives, closer⟩
    exact ⟨(s', j), ⟨place.2, inv.driver_bound driver, solo⟩, ⟨phase', later, drives⟩, closer⟩
  have start : Driven (s, i) := ⟨phase, inv, driver⟩
  rcases exists_finished_of_rank (R := fun one two => ThreadStep cfg result one.1 two.1) _ goesOn
    start with ⟨⟨s', j⟩, run, ⟨phase', later, _⟩, collects⟩
  refine ⟨s', j, run.lift Prod.fst fun _ _ step => step, ?_, collects⟩
  have point : (s'.workers j).pc.isLeaderPoint = true := by
    rw [collects.inLoop]
    rfl
  exact later.eq_led collects.bound point ▸ later

/-- Once the dispatcher has been started, the threads of its workers can always bring a leader
back into the event loop with no events left to handle, by their own operations and whatever
their handlers return. -/
theorem loop_resumes (nonempty : 0 < cfg.numWorkers) (result : Event Task → Bool)
    (reachable : (system cfg).Reachable s) (started : s.starter = .started) :
    ∃ s' i, Relation.ReflTransGen (ThreadStep cfg result) s s' ∧ Collects cfg s' i := by
  rcases inPhase_of_reachable nonempty reachable with ⟨phase, inv⟩
  rcases inv.exists_driver started with ⟨i, _, driver⟩
  rcases resumes_of_driver nonempty result inv driver with ⟨s', j, run, _, collects⟩
  exact ⟨s', j, run, collects⟩

/-- While worker 0 finishes the handling of an event, worker 1 gets into the loop. -/
theorem loop_resumes_rearmed : ∃ s, (system twoWorkers).Reachable s ∧
    (s.workers 0).events = [⟨7, 1⟩] ∧ ∃ s' i,
      Relation.ReflTransGen (ThreadStep twoWorkers fun _ => false) s s' ∧
        Collects twoWorkers s' i := by
  have run : ((system twoWorkers).exec rearmTask (system twoWorkers).init).any
      (fun s => s.starter == .started && (s.workers 0).events == [⟨7, 1⟩]) = true := by
    decide +kernel
  rcases System.exists_reachable_of_exec run with ⟨s, reachable, test⟩
  simp only [Bool.and_eq_true, beq_iff_eq] at test
  exact ⟨s, reachable, test.2, loop_resumes (by decide) _ reachable test.1⟩

end HandOver

/-! ## No functor waits for ever -/

section Functors

variable {cfg : Config Task Other} {s s' : State Task Other} {phase : Phase} {i w : Nat}
  {result : Event Task → Bool}

/-- A step that nothing outside causes: it belongs to a worker's thread or to a call in progress,
or the event loop invokes an async callback. -/
inductive InternalStep (cfg : Config Task Other) (result : Event Task → Bool) :
    State Task Other → State Task Other → Prop where
  | thread {s s' : State Task Other} : ThreadStep cfg result s s' → InternalStep cfg result s s'
  | call {s s' : State Task Other} (thread : Nat) :
      step cfg (.call thread) s = some s' → InternalStep cfg result s s'
  | asyncReady {s s' : State Task Other} (i queue : Nat) :
      step cfg (.asyncReady i queue) s = some s' → InternalStep cfg result s s'

theorem InternalStep.exists_action (internal : InternalStep cfg result s s') :
    ∃ action, step cfg action s = some s' := by
  cases internal with
  | thread solo =>
      rcases solo with ⟨i, _, solo⟩
      cases solo with
      | worker moves => exact ⟨_, moves⟩
      | call moves => exact ⟨_, moves⟩
      | loopReturn _ moves => exact ⟨_, moves⟩
      | handlerReturn _ moves => exact ⟨_, moves⟩
  | call thread moves => exact ⟨_, moves⟩
  | asyncReady i queue moves => exact ⟨_, moves⟩

/-- What a run does to the queues. -/
structure RunsOn (cfg : Config Task Other) (s s' : State Task Other) : Prop where
  reachable : (system cfg).Reachable s'
  pushed : ∀ w, (s.queues w).pushed <+: (s'.queues w).pushed
  taken : ∀ w, (s.queues w).executed ++ swappedCopies cfg s w <+:
    (s'.queues w).executed ++ swappedCopies cfg s' w

theorem RunsOn.of_internal (nonempty : 0 < cfg.numWorkers) (asserts : cfg.build = .asserts)
    (reachable : (system cfg).Reachable s)
    (run : Relation.ReflTransGen (InternalStep cfg result) s s') : RunsOn cfg s s' := by
  induction run with
  | refl => exact ⟨reachable, fun _ => List.prefix_refl _, fun _ => List.prefix_refl _⟩
  | tail _ internal ih =>
      rcases internal.exists_action with ⟨action, moves⟩
      rcases inPhase_of_reachable nonempty ih.reachable with ⟨phase, inv⟩
      have boxes := fun w => (step_queueStep inv asserts moves w).mailbox
      exact ⟨ih.reachable.step action moves, fun w => (ih.pushed w).trans (boxes w).pushed_grows,
        fun w => (ih.taken w).trans (boxes w).taken_grows⟩

theorem internal_of_threads (run : Relation.ReflTransGen (ThreadStep cfg result) s s') :
    Relation.ReflTransGen (InternalStep cfg result) s s' :=
  run.lift id fun _ _ => .thread

omit [DecidableEq Task] [DecidableEq Other] in
theorem inside_of_mayCall {thread : Nat} (allowed : mayCall cfg s thread = true) :
    thread < cfg.numThreads :=
  of_decide_eq_true ((Bool.and_eq_true _ _).mp allowed).1

/-- A step changes the call of one thread of the program at most. -/
theorem thread_of_changed {action : Action Task Other} (moves : step cfg action s = some s')
    {thread : Nat} (changed : s'.calls thread ≠ s.calls thread) : thread < cfg.numThreads := by
  have only {t : Nat} {c : Call Task Other} {s : State Task Other} (bound : t < cfg.numThreads)
      (changed : (s.setCall t c).calls thread ≠ s.calls thread) : thread < cfg.numThreads := by
    by_cases same : thread = t
    · rw [same]
      exact bound
    · rw [State.setCall_calls, Function.update_of_ne same] at changed
      exact absurd rfl changed
  cases moves_of_step moves with
  | starter stepped =>
      refine absurd (congrFun ?_ thread) changed
      revert stepped
      fun_cases starterStep cfg s
      all_goals
        intro stepped
        cases stepped
      all_goals rfl
  | @worker i _ run stepped =>
      by_cases same : thread = i
      · rw [same]
        exact Nat.lt_add_right _ run.1
      · exact absurd (workerStep_others stepped same).2.1 changed
  | fire | asyncReady =>
      refine absurd (congrFun ?_ thread) changed
      unfold enterCallback
      split <;> rfl
  | loopReturn | handlerReturn => exact absurd rfl changed
  | @call t _ inside stepped =>
      by_cases same : thread = t
      · rw [same]
        exact inside
      · refine absurd ?_ changed
        cases call : s.calls t <;>
          simp only [callStep, call, Option.some.injEq, reduceCtorEq] at stepped
        all_goals
          subst stepped
          simp [same]
  | exec allowed | async allowed => exact only (inside_of_mayCall allowed.1) changed
  | addTask allowed => exact only (inside_of_mayCall allowed) changed

/-- Only the threads of the program make calls. -/
theorem thread_of_call (reachable : (system cfg).Reachable s) {thread : Nat}
    (busy : s.calls thread ≠ .idle) : thread < cfg.numThreads := by
  revert busy
  refine reachable.invariant (fun s => s.calls thread ≠ .idle → thread < cfg.numThreads)
    (fun busy => absurd rfl busy) ?_
  intro state next action _ inside moves busy
  by_cases same : next.calls thread = state.calls thread
  · exact inside (same ▸ busy)
  · exact thread_of_changed moves same

omit [DecidableEq Task] [DecidableEq Other] in
/-- A leader in the loop holds no functors. -/
theorem swapped_of_collects (inv : InPhase cfg s (.led i)) (collects : Collects cfg s i) (w : Nat) :
    swappedCopies cfg s w = [] := by
  rw [inv.swappedCopies_eq (fun _ _ => rfl) w, collects.inLoop]
  rfl

/-- The leader empties a queue whose watcher was signalled. -/
theorem drains_of_sent (nonempty : 0 < cfg.numWorkers) (asserts : cfg.build = .asserts)
    (result : Event Task → Bool) (reachable : (system cfg).Reachable s)
    (inv : InPhase cfg s (.led i)) (collects : Collects cfg s i) (inside : w < cfg.numWorkers)
    (sent : (s.queues w).sent = true) :
    ∃ s' j, Relation.ReflTransGen (InternalStep cfg result) s s' ∧ InPhase cfg s' (.led j) ∧
      Collects cfg s' j ∧ (s.queues w).pushed <+: (s'.queues w).executed := by
  have run : runnable cfg s i := ⟨collects.bound, collects.idle⟩
  -- The callback swaps the queue.
  let entered := (s.setQueue w { s.queues w with sent := false }).goto i (.swap i w)
  have enters : step cfg (.asyncReady i w) s = some entered := by
    simp [step, run, collects.inLoop, inside, sent, enterCallback, inv.shared.2.2.1, entered]
  let taken := (entered.setQueue w { entered.queues w with queue := [] }).goto i
    (.drain i w (entered.queues w).queue)
  have takes : step cfg (.worker i) entered = some taken := by
    simp [step, runnable, collects.bound, collects.idle, workerStep, entered, taken]
  have first : InternalStep cfg result s entered := .asyncReady i w enters
  have second : InternalStep cfg result entered taken :=
    .thread ⟨i, collects.bound, .worker takes⟩
  have start : Relation.ReflTransGen (InternalStep cfg result) s taken :=
    .tail (.single first) second
  have atTaken := RunsOn.of_internal nonempty asserts reachable start
  rcases inPhase_of_reachable nonempty atTaken.reachable with ⟨phase, later⟩
  have point : (taken.workers i).pc.isLeaderPoint = true := by simp [taken, Pc.isLeaderPoint]
  rcases later.eq_led collects.bound point with rfl
  rcases resumes_of_driver nonempty result later rfl with ⟨s', j, rest, led, back⟩
  have onwards := RunsOn.of_internal nonempty asserts atTaken.reachable (internal_of_threads rest)
  refine ⟨s', j, start.trans (internal_of_threads rest), led, back, ?_⟩
  -- What the callback took is all that was pushed, and the leader is done with it.
  have all : (taken.queues w).executed ++ swappedCopies cfg taken w = (taken.queues w).pushed := by
    have ordered : (taken.queues w).pushed = (taken.queues w).executed ++
        swappedCopies cfg taken w ++ (taken.queues w).queue :=
      (queue_of_reachable nonempty asserts atTaken.reachable w).1
    have empty : (taken.queues w).queue = [] := by simp [taken]
    rw [empty, List.append_nil] at ordered
    exact ordered.symm
  have grows := onwards.taken w
  rw [all, swapped_of_collects led back, List.append_nil] at grows
  exact (atTaken.pushed w).trans grows

/-- From a state of the loop in which a leader collects, one queue can be emptied. -/
theorem drains (nonempty : 0 < cfg.numWorkers) (asserts : cfg.build = .asserts)
    (result : Event Task → Bool) (reachable : (system cfg).Reachable s)
    (inv : InPhase cfg s (.led i)) (collects : Collects cfg s i) (inside : w < cfg.numWorkers) :
    ∃ s' j, Relation.ReflTransGen (InternalStep cfg result) s s' ∧ InPhase cfg s' (.led j) ∧
      Collects cfg s' j ∧ (s.queues w).pushed <+: (s'.queues w).executed := by
  rcases queue_of_reachable nonempty asserts reachable w with ⟨ordered, wakeup⟩
  by_cases empty : (s.queues w).queue = []
  · refine ⟨s, i, .refl, inv, collects, ?_⟩
    change (s.queues w).pushed =
      (s.queues w).executed ++ swappedCopies cfg s w ++ (s.queues w).queue at ordered
    rw [empty, swapped_of_collects inv collects, List.append_nil, List.append_nil] at ordered
    rw [ordered]
  · rcases wakeup empty with sent | ⟨thread, sends⟩ | ⟨j, bound, worker, swap⟩
    · exact drains_of_sent nonempty asserts result reachable inv collects inside sent
    · -- The thread that has pushed the functor sends the signal first.
      have busy : s.calls thread ≠ .idle := by
        rw [sends]
        exact fun same => by cases same
      have other : i ≠ thread := fun same => busy (same ▸ collects.idle)
      let signalled := (s.setQueue w { s.queues w with sent := true }).setCall thread .idle
      have moves : step cfg (.call thread) s = some signalled := by
        simp [step, thread_of_call reachable busy, callStep, sends, signalled]
      have later : InPhase cfg signalled (.led i) := by
        rcases inv.step nonempty moves with ⟨phase, later⟩
        have point : (signalled.workers i).pc.isLeaderPoint = true := by
          change (s.workers i).pc.isLeaderPoint = true
          rw [collects.inLoop]
          rfl
        exact later.eq_led collects.bound point ▸ later
      have still : Collects cfg signalled i := by
        refine ⟨collects.bound, collects.leads, collects.inLoop, collects.events, ?_⟩
        simp [signalled, other, collects.idle]
      rcases drains_of_sent nonempty asserts result (reachable.step (.call thread) moves) later still
        inside (by simp [signalled]) with ⟨s', j, run, led, back, executed⟩
      refine ⟨s', j, .head (.call thread moves) run, led, back, ?_⟩
      have same : (signalled.queues w).pushed = (s.queues w).pushed := by simp [signalled]
      exact same ▸ executed
    · have point : (s.workers j).pc.isLeaderPoint = true := by
        rw [swap]
        rfl
      cases inv.eq_led bound point
      cases collects.inLoop.symm.trans swap

/-- No functor waits for ever: whatever was pushed to the queues of the workers can be executed
without any further call, event or task, whatever the handlers return. -/
theorem functors_executed (nonempty : 0 < cfg.numWorkers) (asserts : cfg.build = .asserts)
    (result : Event Task → Bool) (reachable : (system cfg).Reachable s)
    (started : s.starter = .started) :
    ∃ s', Relation.ReflTransGen (InternalStep cfg result) s s' ∧
      ∀ w < cfg.numWorkers, (s.queues w).pushed <+: (s'.queues w).executed := by
  rcases inPhase_of_reachable nonempty reachable with ⟨phase, inv⟩
  rcases inv.exists_driver started with ⟨i, _, driver⟩
  -- One queue after the other; what was executed stays executed.
  have upTo : ∀ count ≤ cfg.numWorkers, ∃ s' j,
      Relation.ReflTransGen (InternalStep cfg result) s s' ∧ InPhase cfg s' (.led j) ∧
        Collects cfg s' j ∧ ∀ w < count, (s.queues w).pushed <+: (s'.queues w).executed := by
    intro count
    induction count with
    | zero =>
        intro _
        rcases resumes_of_driver nonempty result inv driver with ⟨s', j, run, led, collects⟩
        exact ⟨s', j, internal_of_threads run, led, collects,
          fun w below => absurd below (Nat.not_lt_zero w)⟩
    | succ count ih =>
        intro inside
        rcases ih (Nat.le_of_succ_le inside) with ⟨s₁, i₁, run₁, led₁, collects₁, executed₁⟩
        have runs₁ := RunsOn.of_internal nonempty asserts reachable run₁
        rcases drains nonempty asserts result runs₁.reachable led₁ collects₁ inside with
          ⟨s₂, i₂, run₂, led₂, collects₂, executed₂⟩
        have runs₂ := RunsOn.of_internal nonempty asserts runs₁.reachable run₂
        refine ⟨s₂, i₂, run₁.trans run₂, led₂, collects₂, fun w below => ?_⟩
        rcases Nat.lt_succ_iff_lt_or_eq.mp below with earlier | rfl
        · have grows := runs₂.taken w
          rw [swapped_of_collects led₁ collects₁, swapped_of_collects led₂ collects₂,
            List.append_nil, List.append_nil] at grows
          exact (executed₁ w earlier).trans grows
        · exact (runs₁.pushed w).trans executed₂
  rcases upTo cfg.numWorkers (Nat.le_refl _) with ⟨s', _, run, _, _, executed⟩
  exact ⟨s', run, executed⟩

theorem functors_executed_rearmed : ∃ s, (system twoWorkers).Reachable s ∧
    (s.queues 0).queue = [.start 7] ∧ ∃ s',
      Relation.ReflTransGen (InternalStep twoWorkers fun _ => false) s s' ∧
        ∀ w < 2, (s.queues w).pushed <+: (s'.queues w).executed := by
  have run : ((system twoWorkers).exec rearmTask (system twoWorkers).init).any
      (fun s => s.starter == .started && (s.queues 0).queue == [.start 7]) = true := by
    decide +kernel
  rcases System.exists_reachable_of_exec run with ⟨s, reachable, test⟩
  simp only [Bool.and_eq_true, beq_iff_eq] at test
  exact ⟨s, reachable, test.2, functors_executed (by decide) rfl _ reachable test.1⟩

end Functors

end LibTasks.Dispatcher

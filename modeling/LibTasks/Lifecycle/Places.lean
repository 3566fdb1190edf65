import LibTasks.Lifecycle.Conservation

/-!
# The places of tasks in every run
-/

namespace LibTasks.Lifecycle

open LibTasks.Foundation
open LibTasks.Net.HttpSender (Mode)

variable {n m : Nat}

/-! ## Where the threads are -/

/-- The functor of `stop_watcher`. -/
def Func.isStop : Func n → Bool
  | .stop _ => true
  | .start _ | .update _ | .dispose _ | .add .. | .addEvent _ | .other => false

theorem Func.ne_stop {f : Func n} (other : f.isStop = false) (t : Nat) : f ≠ .stop t := by
  rintro rfl
  cases other

section Placed

variable [NeZero n] (mode : Mode) (s : State n m) (th : ThreadId n m)

/-- The thread is that of a leader. -/
def Leading : Prop := ∃ i, th = .inl i ∧ s.leads mode i = true

/-- Only a leader runs a loop, and a watcher that has fired is active in it. -/
def PointPlaced : Point n → Prop
  | .away => True
  | .loop | .addEvent _ => Leading mode s th
  | .fired r => ∃ i, th = .inl i ∧ s.leads mode i = true ∧ (r, State.loopOf mode i) ∈ s.watchers
  | .drain q rest =>
      Leading mode s th ∧ (mode = .multiLoop → th = .inl q) ∧ ∀ f ∈ rest, f.isStop = false

/-- Only a leader executes a functor, and only `tasks_event_callback` stops a watcher. -/
def CallPlaced : Call n → Prop
  | .idle => True
  | .test _ f | .push _ f => f.isStop = false
  | .direct f => Leading mode s th ∧ f.isStop = false

structure ThreadPlaced (x : Thread n) : Prop where
  point : PointPlaced mode s th x.point
  call : CallPlaced mode s th x.call
  /-- Only an immediate timer is executed in another thread than that of the worker. -/
  frames : ∀ frame ∈ x.frames, frame.task.kind = .io → th = .inl frame.worker

structure Placed : Prop where
  threads : ∀ th, ThreadPlaced mode s th (s.threads th)
  queues : ∀ q, ∀ f ∈ s.queues q, f.isStop = false
  owned : ∀ r ∈ s.owned, ∀ d, r.kind ≠ .cleanup d

end Placed

section Placed

variable [NeZero n] {mode : Mode} {s s' : State n m} {th : ThreadId n m} {x : Thread n}

theorem PointPlaced.leading {point : Point n} (placed : PointPlaced mode s th point)
    (inside : point ≠ .away) : Leading mode s th := by
  cases point with
  | away => exact absurd rfl inside
  | loop | addEvent r => exact placed
  | fired r =>
      rcases placed with ⟨i, here, leads, _⟩
      exact ⟨i, here, leads⟩
  | drain q rest => exact placed.1

/-- Nothing that is said of a thread depends on more than the leader and the watchers. -/
theorem ThreadPlaced.mono (ok : ThreadPlaced mode s th x) (leader : s'.leader = s.leader)
    (watchers : ∀ entry ∈ s.watchers, entry ∈ s'.watchers) : ThreadPlaced mode s' th x := by
  have leads : s'.leads mode = s.leads mode := by
    funext i
    cases mode with
    | singleLoop => simp only [State.leads, leader]
    | multiLoop => rfl
  have leading : Leading mode s' th ↔ Leading mode s th := by
    rw [Leading, Leading, leads]
  refine ⟨?_, ?_, ok.frames⟩
  · have point := ok.point
    cases at' : x.point with
    | away => trivial
    | loop | addEvent r =>
        rw [at'] at point
        exact leading.mpr point
    | fired r =>
        rw [at'] at point
        rcases point with ⟨i, here, leading, active⟩
        exact ⟨i, here, leads ▸ leading, watchers _ active⟩
    | drain q rest =>
        rw [at'] at point
        exact ⟨leading.mpr point.1, point.2⟩
  · have call := ok.call
    cases at' : x.call with
    | idle => trivial
    | test w f | push w f =>
        rw [at'] at call
        exact call
    | direct f =>
        rw [at'] at call
        exact ⟨leading.mpr call.1, call.2⟩

/-- A step changes the points, calls and `exec_event_handler`s of one thread. -/
theorem Placed.thread (ok : Placed mode s) (placed : ThreadPlaced mode s th x) :
    Placed mode (s.setThread th x) where
  threads := by
    intro other
    simp only [State.setThread, Function.update_apply]
    split
    · next same =>
        subst same
        exact placed.mono rfl fun _ active => active
    · exact (ok.threads other).mono rfl fun _ active => active
  queues := ok.queues
  owned := ok.owned

theorem Placed.modify (ok : Placed mode s) (t : Nat) (change : Task n → Task n) :
    Placed mode (s.modify t change) :=
  ⟨fun other => (ok.threads other).mono rfl fun _ active => active, ok.queues, ok.owned⟩

theorem Placed.push (ok : Placed mode s) (w : Fin n) {f : Func n} (noStop : f.isStop = false) :
    Placed mode (s.push w f) where
  threads other := (ok.threads other).mono rfl fun _ active => active
  queues := by
    intro q g member
    simp only [State.push, Function.update_apply] at member
    split at member
    · rcases List.mem_append.mp member with before | last
      · exact ok.queues w g before
      · exact List.mem_singleton.mp last ▸ noStop
    · exact ok.queues q g member
  owned := ok.owned

theorem Placed.own (ok : Placed mode s) {owned : List Ref}
    (kinds : ∀ r ∈ owned, r ∈ s.owned ∨ ∀ d, r.kind ≠ .cleanup d) :
    Placed mode { s with owned := owned } where
  threads other := (ok.threads other).mono rfl fun _ active => active
  queues := ok.queues
  owned := by
    intro r member
    rcases kinds r member with before | kind
    · exact ok.owned r before
    · exact kind

theorem Placed.erase (ok : Placed mode s) (r : Ref) :
    Placed mode { s with owned := s.owned.erase r } :=
  ok.own fun _ member => .inl (List.mem_of_mem_erase member)

theorem Placed.startWatcher (ok : Placed mode s) (w : Fin n) (r : Ref) :
    Placed mode (s.startWatcher th w r) := by
  have used := ok.modify r.id Task.use
  have placed := used.threads th
  rcases s.startWatcher_cases th w r with ⟨kind, eq⟩ | ⟨_, eq⟩ | ⟨kind, _, eq⟩ <;> rw [eq]
  · refine used.own fun other member => ?_
    rcases List.mem_append.mp member with before | last
    · exact .inl before
    · right
      intro d other
      rw [List.mem_singleton.mp last, kind] at other
      cases other
  · exact used.thread ⟨placed.point, rfl, placed.frames⟩
  · have cleared := used.modify r.id Task.clearImmediate
    have placed := cleared.threads th
    refine cleared.thread ⟨placed.point, placed.call, fun frame member io => ?_⟩
    rcases List.mem_cons.mp member with rfl | before
    · exact absurd io kind
    · exact placed.frames frame before io

/-! ### One step -/

theorem exec_keeps {i : Fin n} {f : Func n} (executed : s.exec mode i f = some s') :
    s'.leader = s.leader ∧ s'.queues = s.queues ∧ s'.owned = s.owned ∧
      ∀ th, ∃ events, s'.threads th = { s.threads th with events := events } := by
  have started (s : State n m) (r : Ref) (loop : Fin n) :
      (s.evStart r loop).leader = s.leader ∧ (s.evStart r loop).queues = s.queues ∧
        (s.evStart r loop).owned = s.owned ∧ (s.evStart r loop).threads = s.threads := by
    unfold State.evStart
    split <;> exact ⟨rfl, rfl, rfl, rfl⟩
  cases f with
  | start r =>
      simp only [State.exec, Option.some.injEq] at executed
      subst executed
      rcases started (s.modify r.id Task.use) r (State.loopOf mode i) with ⟨a, b, c, d⟩
      exact ⟨a, b, c, fun th => ⟨(s.threads th).events, by rw [d]; rfl⟩⟩
  | stop t | update t | dispose t =>
      simp only [State.exec, Option.some.injEq] at executed
      subst executed
      exact ⟨rfl, rfl, rfl, fun th => ⟨(s.threads th).events, rfl⟩⟩
  | add r w =>
      simp only [State.exec, Option.map_eq_some_iff] at executed
      rcases executed with ⟨x, _, rfl⟩
      rcases started (s.setTask r.id x) r (State.loopOf mode i) with ⟨a, b, c, d⟩
      exact ⟨a, b, c, fun th => ⟨(s.threads th).events, by rw [d]; rfl⟩⟩
  | addEvent r =>
      simp only [State.exec, Option.some.injEq] at executed
      subst executed
      refine ⟨rfl, rfl, rfl, fun th => ?_⟩
      simp only [State.setThread, Function.update_apply]
      split
      · next same => exact same ▸ ⟨_, rfl⟩
      · exact ⟨_, rfl⟩
  | other =>
      simp only [State.exec, Option.some.injEq] at executed
      subst executed
      exact ⟨rfl, rfl, rfl, fun th => ⟨_, rfl⟩⟩

/-- A functor other than that of `stop_watcher` stops no watcher. -/
theorem exec_watchers {i : Fin n} {f : Func n} (ok : Accounts (fun t g => f.tokens t g) s)
    (noStop : f.isStop = false) (executed : s.exec mode i f = some s')
    {entry : Ref × Fin n} (active : entry ∈ s.watchers) : entry ∈ s'.watchers := by
  have started (s : State n m) (r : Ref) (loop : Fin n) (active : entry ∈ s.watchers) :
      entry ∈ (s.evStart r loop).watchers := by
    unfold State.evStart
    split
    · exact active
    · exact List.mem_append_left _ active
  cases f with
  | start r =>
      simp only [State.exec, Option.some.injEq] at executed
      exact executed ▸ started _ _ _ active
  | stop t => cases noStop
  | update t | addEvent r | other =>
      simp only [State.exec, Option.some.injEq] at executed
      exact executed ▸ active
  | dispose t =>
      simp only [State.exec, Option.some.injEq] at executed
      subst executed
      have finished := (ok t).finished
      simp only [Func.tokens, true_and, ↓reduceIte] at finished
      have other := ok.inactive_of_finished (t := t) (by omega) active
      exact List.mem_filter.mpr ⟨active, bne_iff_ne.mpr other⟩
  | add r w =>
      simp only [State.exec, Option.map_eq_some_iff] at executed
      rcases executed with ⟨x, _, rfl⟩
      exact started _ _ _ active

theorem Placed.turn (ok : Placed mode s) (roundRobin : Nat) :
    Placed mode { s with roundRobin := roundRobin } :=
  ⟨fun other => (ok.threads other).mono rfl fun _ active => active, ok.queues, ok.owned⟩

theorem Placed.addEventTask {r : Ref} (ok : Placed mode s)
    (added : s.addEventTask mode th r = some s') : Placed mode s' := by
  simp only [State.addEventTask, Option.map_eq_some_iff] at added
  rcases added with ⟨x, _, rfl⟩
  apply Placed.startWatcher
  exact ⟨fun other => (ok.threads other).mono rfl fun _ active => active, ok.queues, ok.owned⟩

theorem Placed.removeEventTask (ok : Placed mode s) (r : Ref) :
    Placed mode (s.removeEventTask mode th r) := by
  cases kind : r.kind with
  | io =>
      simp only [State.removeEventTask, kind]
      have turned := ok.turn (s.nextRoundRobin mode r.id)
      split
      · have here := turned.threads th
        exact turned.thread ⟨here.point, rfl, here.frames⟩
      · apply Placed.startWatcher
        exact ⟨fun other => (turned.threads other).mono rfl fun _ active => active, ok.queues,
          ok.owned⟩
  | timer | cleanup d | disk =>
      simp only [State.removeEventTask, kind]
      exact ok.modify _ _

theorem Placed.exec {i : Fin n} {f : Func n} (ok : Placed mode s)
    (accounts : Accounts (fun t g => f.tokens t g) s) (noStop : f.isStop = false)
    (executed : s.exec mode i f = some s') : Placed mode s' := by
  rcases exec_keeps executed with ⟨leader, queues, owned, threads⟩
  have watchers (entry : Ref × Fin n) (active : entry ∈ s.watchers) : entry ∈ s'.watchers :=
    exec_watchers accounts noStop executed active
  refine ⟨fun th => ?_, queues ▸ ok.queues, owned ▸ ok.owned⟩
  rcases threads th with ⟨events, same⟩
  have placed := (ok.threads th).mono leader watchers
  rw [same]
  exact ⟨placed.point, placed.call, placed.frames⟩

omit [NeZero n] in
/-- In single loop mode there is one leader. -/
theorem Leading.unique {i j : Fin n} (single : mode = .singleLoop)
    (first : s.leads mode i = true) (second : s.leads mode j = true) : i = j := by
  subst single
  simp only [State.leads, beq_iff_eq] at first second
  exact first.symm.trans second

omit [NeZero n] in
/-- A watcher is active once. -/
theorem Accounts.active_unique (ok : Accounts nothing s) {entry other : Ref × Fin n}
    (active : entry ∈ s.watchers) (active' : other ∈ s.watchers)
    (same : other.1.id = entry.1.id) : other = entry := by
  by_contra different
  have unfinished := (ok entry.1.id).unfinished
  have bound := Bool.toNat_le (decide (entry.1.id < s.made))
  have own := entry.1.tokens_add
  have own' := other.1.tokens_add
  rw [same] at own'
  have both (g : Stage) := add_le_total_of_mem (fun e => e.1.tokens entry.1.id g)
    (Ne.symm different) active active'
  have io := both .io
  have plain := both .plain
  simp only [State.tokens, nothing] at unfinished io plain
  omega

/-- `tasks_event_callback` stops the watcher and is about to add the event. -/
theorem Placed.stopFired {i : Fin n} {r : Ref} (ok : Placed mode s)
    (accounts : Accounts nothing s) (at' : (s.threads (.inl i)).point = .fired r) :
    Placed mode (((s.modify r.id Task.use).evStop r.id (State.loopOf mode i)).setThread (.inl i)
      { s.threads (.inl i) with point := .addEvent r }) := by
  have here := (ok.threads (.inl i)).point
  rw [at'] at here
  rcases here with ⟨j, same, leads, active⟩
  cases same
  refine ⟨fun th => ?_, ok.queues, ok.owned⟩
  have placed := ok.threads th
  simp only [State.setThread, Function.update_apply]
  split
  · next same =>
      subst same
      exact ⟨⟨i, rfl, leads⟩, placed.call, placed.frames⟩
  · next other =>
      refine ⟨?_, placed.call, placed.frames⟩
      have point := placed.point
      change PointPlaced mode _ th (s.threads th).point
      cases atOther : (s.threads th).point with
      | away => trivial
      | loop | addEvent r' | drain q rest =>
          rw [atOther] at point
          exact point
      | fired r' =>
          rw [atOther] at point
          rcases point with ⟨j, rfl, leads', active'⟩
          refine ⟨j, rfl, leads', List.mem_filter.mpr ⟨active', bne_iff_ne.mpr fun same => ?_⟩⟩
          have loops := (Prod.mk.inj (accounts.active_unique active active' same)).2
          apply other
          cases mode with
          | singleLoop => rw [Leading.unique rfl leads leads']
          | multiLoop => rw [show j = i from loops]

end Placed

/-! ## Every run -/

/-- The threads are where they belong, and the books are right. -/
structure Inv [NeZero n] (mode : Mode) (s : State n m) : Prop where
  placed : Placed mode s
  accounts : Accounts nothing s

section Steps

variable [NeZero n] {mode : Mode} {s s' : State n m} {th : ThreadId n m}

omit [NeZero n] in
theorem Thread.ready_iff {x : Thread n} : x.ready = true ↔ x.call = .idle := by
  rw [Thread.ready, beq_iff_eq]

omit [NeZero n] in
theorem Thread.free_iff {x : Thread n} : x.free = true ↔ x.call = .idle ∧ x.frames = [] := by
  rw [Thread.free, Bool.and_eq_true, beq_iff_eq, beq_iff_eq]

theorem Inv.isDirect_self (inv : Inv mode s) {i : Fin n}
    (inside : (s.threads (.inl i)).point ≠ .away) : s.isDirect mode (.inl i) i = true := by
  rcases (inv.placed.threads (.inl i)).point.leading inside with ⟨j, same, leads⟩
  cases same
  simp [State.isDirect, leads]

/-- A thread changes nothing of where the tasks are. -/
theorem Inv.thread (inv : Inv mode s) {x : Thread n} (placed : ThreadPlaced mode s th x)
    (same : ∀ t g, x.tokens t g = (s.threads th).tokens t g) : Inv mode (s.setThread th x) := by
  refine ⟨inv.placed.thread placed, inv.accounts.setThread fun t g => ?_⟩
  rw [same]

theorem Inv.use (inv : Inv mode s) (t : Nat) : Inv mode (s.modify t Task.use) :=
  ⟨inv.placed.modify t Task.use, inv.accounts.use t⟩

section Frames

variable {frame : Frame n} {rest : List (Frame n)}

/-- The innermost call of `exec_event_handler` goes on. -/
theorem ThreadPlaced.goesOn {x : Thread n} (placed : ThreadPlaced mode s th x)
    (at' : x.frames = frame :: rest) (result : Option Bool) (updated : Bool) {call : Call n}
    (called : CallPlaced mode s th call) :
    ThreadPlaced mode s th { x with
      frames := { frame with result := result, updated := updated } :: rest, call := call } := by
  have frames := placed.frames
  rw [at'] at frames
  refine ⟨placed.point, called, fun other member io => ?_⟩
  rcases List.mem_cons.mp member with rfl | before
  · exact frames frame List.mem_cons_self io
  · exact frames other (List.mem_cons_of_mem frame before) io

/-- The innermost call of `exec_event_handler` has returned. -/
theorem ThreadPlaced.pop {x : Thread n} (placed : ThreadPlaced mode s th x)
    (at' : x.frames = frame :: rest) : ThreadPlaced mode s th { x with frames := rest } := by
  refine ⟨placed.point, placed.call, fun other member io => ?_⟩
  have inside : other ∈ x.frames := by
    rw [at']
    exact List.mem_cons_of_mem frame member
  exact placed.frames other inside io

omit [NeZero n] in
/-- The pointer of the innermost call of `exec_event_handler` is taken. -/
theorem Accounts.pop {hand : Nat → Stage → Nat} (accounts : Accounts nothing s)
    (at' : (s.threads th).frames = frame :: rest)
    (taken : ∀ t g, frame.tokens t g = hand t g) :
    Accounts hand (s.setThread th { s.threads th with frames := rest }) := by
  apply accounts.setThread
  intro t g
  simp only [Thread.tokens, at', total_cons, taken, nothing]
  omega

end Frames

omit [NeZero n] in
/-- A `cleanup_task` turns its task into the functor of `dispose`. -/
theorem Accounts.cleanupDisposes {frame : Frame n} {rest : List (Frame n)} {d : Nat}
    (accounts : Accounts nothing s) (at' : (s.threads th).frames = frame :: rest)
    (running : frame.result = none) (kind : frame.task.kind = .cleanup d)
    (enabled : (s.tasks d).canDispose = true) (idle : (s.threads th).call = .idle) :
    Accounts nothing (s.setThread th { s.threads th with
      frames := { frame with result := some false } :: rest
      call := .test frame.worker (.dispose d) }) := by
  have ended : Accounts (fun t g => frame.task.target t g) (s.setThread th { s.threads th with
      frames := { frame with result := some false } :: rest }) := by
    apply accounts.setThread
    intro t g
    simp [Thread.tokens, at', Frame.tokens, running, Ref.tokens, nothing]
    omega
  have called : Accounts nothing ((s.setThread th { s.threads th with
      frames := { frame with result := some false } :: rest }).setThread th { s.threads th with
        frames := { frame with result := some false } :: rest
        call := .test frame.worker (.dispose d) }) := by
    apply (ended.disposes kind enabled).setThread
    intro t g
    simp [State.setThread, Thread.tokens, idle, nothing]
    omega
  simpa only [State.setThread, Function.update_idem] using called

/-- The functor of a call of `exec_in_worker_ctx` is taken. -/
theorem Inv.takeCall (inv : Inv mode s) (th : ThreadId n m) (f : Func n)
    (at' : ∀ t g, (s.threads th).call.tokens t g = f.tokens t g) :
    Placed mode (s.setThread th { s.threads th with call := .idle }) ∧
      Accounts (fun t g => f.tokens t g)
        (s.setThread th { s.threads th with call := .idle }) := by
  have here := inv.placed.threads th
  refine ⟨inv.placed.thread ⟨here.point, trivial, here.frames⟩, ?_⟩
  apply inv.accounts.setThread
  intro t g
  simp only [Thread.tokens, at', tokens_idle, nothing]
  omega

/-- One step keeps the invariant. -/
theorem Inv.moves (inv : Inv mode s) (moves : Moves mode s s') : Inv mode s' := by
  cases moves with
  | testDirect th w f at' direct =>
      have here := inv.placed.threads th
      have call := here.call
      rw [at'] at call
      simp only [State.isDirect, Bool.and_eq_true, decide_eq_true_eq] at direct
      refine inv.thread ⟨here.point, ⟨⟨w, direct⟩, call⟩, here.frames⟩ fun t g => ?_
      simp [Thread.tokens, at']
  | testPush th w f at' indirect =>
      have here := inv.placed.threads th
      have call := here.call
      rw [at'] at call
      refine inv.thread ⟨here.point, call, here.frames⟩ fun t g => ?_
      simp [Thread.tokens, at']
  | direct i f s' at' executed =>
      have call := (inv.placed.threads (.inl i)).call
      rw [at'] at call
      rcases inv.takeCall (.inl i) f fun t g => by rw [at']; rfl with ⟨idle, taken⟩
      exact ⟨idle.exec taken call.2 executed, taken.exec (Func.ne_stop call.2) executed⟩
  | push th w f at' =>
      have call := (inv.placed.threads th).call
      rw [at'] at call
      rcases inv.takeCall th f fun t g => by rw [at']; rfl with ⟨idle, taken⟩
      exact ⟨idle.push w call, taken.push w⟩
  | stopDirect i r free at' s' executed =>
      simp only [State.exec, Option.some.injEq] at executed
      have point := (inv.placed.threads (.inl i)).point
      rw [at'] at point
      rcases point with ⟨j, same, leads, active⟩
      cases same
      subst executed
      refine ⟨inv.placed.stopFired inv.accounts at', ?_⟩
      apply ((inv.accounts.use r.id).evStop_active active (State.loopOf mode i)).setThread
      intro t g
      change _ = (s.threads (.inl i)).tokens t g + _
      simp [Thread.tokens, at', nothing]
      omega
  | stopPush i r free at' indirect =>
      have direct := inv.isDirect_self (i := i) (by simp [at'])
      rw [indirect] at direct
      cases direct
  | addEvent i r free at' =>
      have here := inv.placed.threads (.inl i)
      have point := here.point
      rw [at'] at point
      refine inv.thread ⟨point, here.call, here.frames⟩ fun t g => ?_
      simp [Thread.tokens, at']
      omega
  | drained i q free at' =>
      have here := inv.placed.threads (.inl i)
      have point := here.point
      rw [at'] at point
      refine inv.thread ⟨point.1, here.call, here.frames⟩ fun t g => ?_
      simp [Thread.tokens, at']
  | drainFront i q f rest free at' s' executed =>
      have here := inv.placed.threads (.inl i)
      have point := here.point
      rw [at'] at point
      rcases point with ⟨leading, own, noStop⟩
      have taken : Accounts (fun t g => f.tokens t g)
          (s.setThread (.inl i) { s.threads (.inl i) with point := .drain q rest }) := by
        apply inv.accounts.setThread
        intro t g
        simp [Thread.tokens, at', nothing]
        omega
      have moved : Placed mode
          (s.setThread (.inl i) { s.threads (.inl i) with point := .drain q rest }) := by
        refine inv.placed.thread ⟨⟨leading, own, fun f' member => ?_⟩, here.call, here.frames⟩
        exact noStop f' (List.mem_cons_of_mem f member)
      have front := noStop f List.mem_cons_self
      exact ⟨moved.exec taken front executed, taken.exec (Func.ne_stop front) executed⟩
  | cleanupDisposes th frame rest d ready at' running kind disposable =>
      have used := (inv.use frame.task.id).use d
      have idle := Thread.ready_iff.mp ready
      refine ⟨used.placed.thread ((used.placed.threads th).goesOn at' _ _ rfl), ?_⟩
      have enabled : (((s.modify frame.task.id Task.use).modify d Task.use).tasks d).canDispose =
          true := by
        rwa [State.modify_use_canDispose, State.modify_use_canDispose]
      exact used.accounts.cleanupDisposes at' running kind enabled idle
  | cleanupWaits th frame rest d ready at' running kind =>
      have used := (inv.use frame.task.id).use d
      have placed := used.placed.threads th
      refine used.thread (placed.goesOn at' _ _ placed.call) fun t g => ?_
      simp [Thread.tokens, at', Frame.tokens, running]
  | diskHandled th frame rest ready at' running kind =>
      have used := inv.use frame.task.id
      have placed := used.placed.threads th
      refine used.thread (placed.goesOn at' _ _ placed.call) fun t g => ?_
      simp [Thread.tokens, at', Frame.tokens, running, Ref.tokens, Ref.target, kind]
  | continues th frame rest ready at' returned =>
      have used := inv.use frame.task.id
      have popped := used.placed.thread ((used.placed.threads th).pop at')
      refine ⟨popped.startWatcher _ _, Accounts.startWatcher ?_ _ ?_⟩
      · exact used.accounts.pop at' fun t g => Frame.tokens_continues t g returned
      · simpa [State.setThread] using Thread.ready_iff.mp ready
  | finishes th frame rest ready at' returned autoDelete =>
      have used := inv.use frame.task.id
      have popped := used.placed.thread ((used.placed.threads th).pop at')
      refine ⟨(popped.modify _ _).removeEventTask _, Accounts.removeEventTask ?_ ?_⟩
      · exact used.accounts.pop at' fun t g => Frame.tokens_ended t g returned
      · simpa [State.setThread] using Thread.ready_iff.mp ready
  | givesBack th frame rest ready at' returned autoDelete =>
      have used := inv.use frame.task.id
      have kind (d : Nat) : frame.task.kind ≠ .cleanup d := by
        intro same
        simp [Ref.autoDelete, same] at autoDelete
      refine ⟨(used.placed.thread ((used.placed.threads th).pop at')).own ?_, ?_⟩
      · intro r member
        rcases List.mem_append.mp member with before | last
        · exact .inl before
        · exact .inr (List.mem_singleton.mp last ▸ kind)
      · apply Accounts.giveBack
        apply used.accounts.pop at'
        intro t g
        rw [Frame.tokens_ended t g returned, Ref.tokens_eq_own kind]
  | fire i r free at' active =>
      have used := inv.use r.id
      have here := used.placed.threads (.inl i)
      have point := here.point
      rw [State.modify_threads, at'] at point
      rcases point with ⟨j, same, leads⟩
      cases same
      refine used.thread ⟨⟨i, rfl, leads, active⟩, here.call, here.frames⟩ fun t g => ?_
      simp [Thread.tokens, at']
  | drain i q free at' own =>
      have here := inv.placed.threads (.inl i)
      have point := here.point
      rw [at'] at point
      have emptied : Placed mode { s with queues := Function.update s.queues q [] } := by
        refine ⟨fun th => (inv.placed.threads th).mono rfl fun _ active => active, ?_,
          inv.placed.owned⟩
        intro other f member
        simp only [Function.update_apply] at member
        split at member
        · cases member
        · exact inv.placed.queues other f member
      refine ⟨emptied.thread ⟨⟨point, fun multi => ?_, inv.placed.queues q⟩, here.call,
        here.frames⟩, ?_⟩
      · rw [own multi]
      · apply (inv.accounts.takeQueue q).setThread
        intro t g
        simp [Thread.tokens, at', nothing]
        omega
  | enterLoop i free at' leads =>
      have here := inv.placed.threads (.inl i)
      refine inv.thread ⟨⟨i, rfl, leads⟩, here.call, here.frames⟩ fun t g => ?_
      simp [Thread.tokens, at']
  | leaveLoop i free at' =>
      have here := inv.placed.threads (.inl i)
      refine inv.thread ⟨trivial, here.call, here.frames⟩ fun t g => ?_
      simp [Thread.tokens, at']
  | handle i r rest free at' events =>
      have here := inv.placed.threads (.inl i)
      refine inv.thread ⟨here.point, here.call, fun frame member _ => ?_⟩ fun t g => ?_
      · rw [List.mem_singleton.mp member]
      · simp [Thread.tokens, (Thread.free_iff.mp free).2, events]
        omega
  | returns th frame rest cont ready at' running kind kept =>
      have used := inv.use frame.task.id
      have placed := used.placed.threads th
      refine used.thread (placed.goesOn at' _ _ placed.call) fun t g => ?_
      have own : frame.task.tokens t g = frame.task.own t g := by
        apply Ref.tokens_eq_own
        intro d other
        rcases kind with io | timer
        · cases io.symm.trans other
        · cases timer.symm.trans other
      cases cont <;> simp [Thread.tokens, at', Frame.tokens, running, own]
  | update th frame rest ready at' running kind =>
      have used := inv.use frame.task.id
      refine used.thread ((used.placed.threads th).goesOn at' _ _ rfl) fun t g => ?_
      simp [Thread.tokens, at', Thread.ready_iff.mp ready, Frame.tokens, running]
  | disable th frame rest ready at' running kind =>
      refine ⟨inv.placed.modify _ _, inv.accounts.disableDispose ?_⟩
      have inside : frame ∈ (s.threads th).frames := by
        rw [at']
        exact List.mem_cons_self
      have counted := le_total_of_mem (Frame.tokens frame.task.id .io) inside
      have thread := le_sum (Thread.tokens frame.task.id .io) s.threads th
      simp only [Frame.tokens, running, Ref.tokens, Ref.own, kind, Kind.stage, and_self,
        ↓reduceIte] at counted
      simp only [State.tokens, Thread.tokens] at thread ⊢
      omega
  | enable t disabled =>
      exact ⟨inv.placed.modify t _, inv.accounts.enableDispose t⟩
  | user th w ready =>
      have here := inv.placed.threads th
      refine inv.thread ⟨here.point, rfl, here.frames⟩ fun t g => ?_
      simp [Thread.tokens, Thread.ready_iff.mp ready]
  | new kind kept immediate made =>
      have created := inv.accounts.create (x := { immediate := immediate }) rfl
        (r := ⟨s.made, kind, kept⟩) rfl
      refine ⟨?_, Accounts.giveBack (created.transfer rfl (fun _ => rfl) fun t g => ?_)⟩
      · refine ⟨fun th => (inv.placed.threads th).mono rfl fun _ active => active,
          inv.placed.queues, fun r member => ?_⟩
        rcases List.mem_append.mp member with before | last
        · exact inv.placed.owned r before
        · exact List.mem_singleton.mp last ▸ made
      · rw [Ref.tokens_eq_own made]
        rfl
  | addTask th r ready owned s' added =>
      have erased := inv.accounts.erase owned
      have placed := inv.placed.erase r
      exact ⟨placed.addEventTask added, erased.addEventTask (Thread.ready_iff.mp ready) added⟩
  | addNet th w r ready owned kind =>
      have erased := inv.accounts.erase owned
      have placed := inv.placed.erase r
      have here := placed.threads th
      refine ⟨placed.thread ⟨here.point, rfl, here.frames⟩, erased.setThread fun t g => ?_⟩
      simp [Thread.tokens, Thread.ready_iff.mp ready, nothing]
      omega
  | addDisk th r ready owned kind =>
      have erased := (inv.accounts.erase owned).use r.id
      have placed := (inv.placed.erase r).modify r.id Task.use
      have here := placed.threads th
      refine ⟨placed.thread ⟨here.point, rfl, here.frames⟩, erased.setThread fun t g => ?_⟩
      simp [Thread.tokens, Thread.ready_iff.mp ready, nothing]
      omega
  | free r owned disposable =>
      have erased := inv.accounts.erase owned
      have placed := inv.placed.erase r
      exact ⟨placed.modify _ _, erased.free (inv.placed.owned r owned) disposable⟩
  | promote i j single leads at' free atOther freeOther =>
      refine ⟨⟨fun th => ?_, inv.placed.queues, inv.placed.owned⟩, inv.accounts.transfer rfl
        (fun _ => rfl) fun _ _ => rfl⟩
      have here := inv.placed.threads th
      -- Whoever runs a loop or executes a functor is the old leader, which does neither.
      have old (leading : Leading mode s th) : th = .inl i := by
        rcases leading with ⟨k, rfl, leads'⟩
        have first : s.leads mode i = true := by simp [single, State.leads, leads]
        rw [Leading.unique single leads' first]
      refine ⟨?_, ?_, here.frames⟩
      · have away : (s.threads th).point = .away := by
          by_contra inside
          exact inside (old (here.point.leading inside) ▸ at')
        rw [away]
        trivial
      · have call := here.call
        cases atCall : (s.threads th).call with
        | idle => trivial
        | test w f | push w f =>
            rw [atCall] at call
            exact call
        | direct f =>
            rw [atCall] at call
            have idle := (Thread.free_iff.mp free).1
            rw [← old call.1, atCall] at idle
            cases idle

theorem reachable_inv (reachable : (system (n := n) (m := m) mode).Reachable s) : Inv mode s := by
  refine reachable.invariant (Inv mode) ?_ fun _ inv stepped => inv.moves (moves_of_step stepped)
  refine ⟨⟨fun _ => ⟨trivial, trivial, fun _ member => absurd member List.not_mem_nil⟩,
    fun _ _ member => absurd member List.not_mem_nil,
    fun _ member => absurd member List.not_mem_nil⟩, fun t => ?_⟩
  constructor <;> simp [system, State.tokens, Thread.tokens, nothing]

end Steps

end LibTasks.Lifecycle

import LibTasks.Lifecycle.Disposal

/-!
# Tasks stay with their worker

In multi loop mode a task is assigned to a worker when it is added.  From then on its watcher
is active in the loop of that worker only, and events of it are added to that worker only, so
that all calls of the handler of an `io_task_base` are made by one thread.  The first call for
an immediate timer is made by the thread that adds it, and the event of a `disk_io_task`, which
has no watcher, goes to any worker.
-/

namespace LibTasks.Lifecycle

open LibTasks.Foundation
open LibTasks.Net.HttpSender (Mode)

variable {n m : Nat}

/-! ## At home -/

/-- The task is assigned to the worker, and so is the one that a `cleanup_task` disposes. -/
def AssignedTo (tasks : Nat → Task n) (r : Ref) (w : Fin n) : Prop :=
  (tasks r.id).assigned = some w ∧ ∀ d, r.kind = .cleanup d → (tasks d).assigned = some w

section Home

variable (tasks : Nat → Task n)

/-- The functor is with the worker that its task is assigned to, or will be assigned to. -/
def Func.Home (q : Fin n) : Func n → Prop
  | .start r => AssignedTo tasks r q
  | .stop t | .update t | .dispose t => (tasks t).assigned = some q
  | .add r w => w = q ∧ ∀ d, r.kind ≠ .cleanup d
  | .addEvent r => r.kind = .disk
  | .other => True

def PointHome (th : ThreadId n m) : Point n → Prop
  | .fired r | .addEvent r => ∃ i, th = .inl i ∧ AssignedTo tasks r i
  | .drain q rest => ∀ f ∈ rest, f.Home tasks q
  | .away | .loop => True

def CallHome (th : ThreadId n m) : Call n → Prop
  | .test w f | .push w f => f.Home tasks w
  | .direct f => ∀ i, th = .inl i → f.Home tasks i
  | .idle => True

structure ThreadHome (th : ThreadId n m) (x : Thread n) : Prop where
  point : PointHome tasks th x.point
  call : CallHome tasks th x.call
  frames : ∀ frame ∈ x.frames, frame.task.kind ≠ .disk →
    AssignedTo tasks frame.task frame.worker
  events : ∀ r ∈ x.events, r.kind ≠ .disk → ∃ i, th = .inl i ∧ AssignedTo tasks r i

end Home

/-- Every task is with its worker, and the assignments made before were kept. -/
structure Home (before : Nat → Option (Fin n)) (s : State n m) : Prop where
  since : ∀ t w, before t = some w → (s.tasks t).assigned = some w
  made : ∀ t w, (s.tasks t).assigned = some w → t < s.made
  /-- No watcher was touched in a loop other than its own. -/
  strayed : ∀ t, (s.tasks t).strayed = false
  watchers : ∀ entry ∈ s.watchers, AssignedTo s.tasks entry.1 entry.2
  queues : ∀ q, ∀ f ∈ s.queues q, f.Home s.tasks q
  threads : ∀ th, ThreadHome s.tasks th (s.threads th)

/-- A task that is assigned stays so. -/
def Keeps (tasks tasks' : Nat → Task n) : Prop :=
  ∀ t w, (tasks t).assigned = some w → (tasks' t).assigned = some w

section Rules

variable {s s' : State n m} {tasks tasks' : Nat → Task n} {th : ThreadId n m} {x : Thread n}
  {before : Nat → Option (Fin n)}

theorem AssignedTo.mono {r : Ref} {w : Fin n} (assigned : AssignedTo tasks r w)
    (keeps : Keeps tasks tasks') : AssignedTo tasks' r w :=
  ⟨keeps _ _ assigned.1, fun d kind => keeps _ _ (assigned.2 d kind)⟩

theorem Func.Home.mono {q : Fin n} {f : Func n} (home : f.Home tasks q)
    (keeps : Keeps tasks tasks') : f.Home tasks' q := by
  cases f with
  | start r => exact AssignedTo.mono home keeps
  | stop t | update t | dispose t => exact keeps t q home
  | add | addEvent | other => exact home

theorem ThreadHome.mono (home : ThreadHome tasks th x) (keeps : Keeps tasks tasks') :
    ThreadHome tasks' th x := by
  refine ⟨?_, ?_, fun frame member kind => (home.frames frame member kind).mono keeps,
    fun r member kind => ?_⟩
  · have point := home.point
    cases at' : x.point with
    | away | loop => trivial
    | fired r | addEvent r =>
        rw [at'] at point
        rcases point with ⟨i, here, assigned⟩
        exact ⟨i, here, assigned.mono keeps⟩
    | drain q rest =>
        rw [at'] at point
        exact fun f member => (point f member).mono keeps
  · have call := home.call
    cases at' : x.call with
    | idle => trivial
    | test w f | push w f =>
        rw [at'] at call
        exact Func.Home.mono call keeps
    | direct f =>
        rw [at'] at call
        exact fun i here => (call i here).mono keeps
  · rcases home.events r member kind with ⟨i, here, assigned⟩
    exact ⟨i, here, assigned.mono keeps⟩

/-- Only assignments are made. -/
theorem Home.mono (home : Home before s) (keeps : Keeps s.tasks s'.tasks)
    (made : ∀ t w, (s'.tasks t).assigned = some w → t < s'.made)
    (strayed : ∀ t, (s'.tasks t).strayed = false) (watchers : s'.watchers = s.watchers)
    (queues : s'.queues = s.queues) (threads : s'.threads = s.threads) : Home before s' where
  since t w assigned := keeps t w (home.since t w assigned)
  made := made
  strayed := strayed
  watchers := by
    rw [watchers]
    exact fun entry member => (home.watchers entry member).mono keeps
  queues := by
    rw [queues]
    exact fun q f member => (home.queues q f member).mono keeps
  threads := by
    rw [threads]
    exact fun th => (home.threads th).mono keeps

theorem Home.thread (home : Home before s) (here : ThreadHome s.tasks th x) :
    Home before (s.setThread th x) where
  since := home.since
  made := home.made
  strayed := home.strayed
  watchers := home.watchers
  queues := home.queues
  threads := by
    intro other
    simp only [State.setThread, Function.update_apply]
    split
    · next same => exact same ▸ here
    · exact home.threads other

theorem Keeps.modify (s : State n m) (t : Nat) (change : Task n → Task n)
    (kept : ∀ x, (change x).assigned = x.assigned) : Keeps s.tasks (s.modify t change).tasks :=
  fun u _ known => (s.modify_field t change Task.assigned kept u).trans known

theorem Home.modify (home : Home before s) (t : Nat) (change : Task n → Task n)
    (kept : ∀ x, (change x).assigned = x.assigned)
    (strayed : (change (s.tasks t)).strayed = false) : Home before (s.modify t change) := by
  refine home.mono (.modify s t change kept) (fun u w assigned => ?_) (fun u => ?_) rfl rfl rfl
  · exact home.made u w ((s.modify_field t change Task.assigned kept u).symm.trans assigned)
  · rw [State.modify_tasks]
    split
    · exact strayed
    · exact home.strayed u

theorem Home.use (home : Home before s) (t : Nat) : Home before (s.modify t Task.use) :=
  home.modify t Task.use (fun _ => rfl) (home.strayed t)

theorem Home.own (home : Home before s) (owned : List Ref) :
    Home before { s with owned := owned } :=
  home.mono (fun _ _ assigned => assigned) home.made home.strayed rfl rfl rfl

theorem Home.push (home : Home before s) {w : Fin n} {f : Func n} (here : f.Home s.tasks w) :
    Home before (s.push w f) where
  since := home.since
  made := home.made
  strayed := home.strayed
  watchers := home.watchers
  queues := by
    intro q g member
    simp only [State.push, Function.update_apply] at member
    split at member
    · next same =>
        subst same
        rcases List.mem_append.mp member with queued | last
        · exact home.queues q g queued
        · exact List.mem_singleton.mp last ▸ here
    · exact home.queues q g member
  threads := home.threads

/-- `assign_worker` in multi loop mode -/
theorem Task.assignWorker_multi {x y : Task n} {w : Fin n}
    (assigned : x.assignWorker .multiLoop w = some y) :
    y.assigned = some w ∧ ∀ w', x.assigned = some w' → w' = w := by
  unfold assignWorker at assigned
  cases before : x.assigned with
  | none =>
      simp only [before, Option.some.injEq] at assigned
      subst assigned
      exact ⟨rfl, fun _ other => by cases other⟩
  | some w' =>
      simp only [before, Option.ite_none_right_eq_some, Option.some.injEq] at assigned
      rcases assigned with ⟨rfl, rfl⟩
      exact ⟨before, fun _ same => (Option.some.inj same).symm⟩

/-- The task is assigned, for the first time or once more. -/
theorem Home.assign (home : Home before s) {t : Nat} {x : Task n} {w : Fin n} (made : t < s.made)
    (assigned : (s.tasks t).use.assignWorker .multiLoop w = some x) :
    Home before (s.setTask t x) := by
  rcases Task.assignWorker_multi assigned with ⟨now, same⟩
  refine home.mono (fun u w' known => ?_) (fun u w' known => ?_) (fun u => ?_) rfl rfl rfl
  · simp only [State.setTask, Function.update_apply]
    split
    · next here =>
        subst here
        rw [now, same w' known]
    · exact known
  · simp only [State.setTask, Function.update_apply] at known
    split at known
    · next here => exact here ▸ made
    · exact home.made u w' known
  · simp only [State.setTask, Function.update_apply]
    split
    · exact (Task.assignWorker_field Task.strayed (fun _ _ => rfl) assigned).trans
        (home.strayed t)
    · exact home.strayed u

/-- The number of a new task was not used before. -/
theorem Home.create (home : Home before s) (x : Task n) (strayed : x.strayed = false) :
    Home before ({ s with made := s.made + 1 }.setTask s.made x) := by
  refine home.mono (fun t w known => ?_) (fun t w known => ?_) (fun t => ?_) rfl rfl rfl
  · have old := Nat.ne_of_lt (home.made t w known)
    simpa only [State.setTask, Function.update_of_ne old] using known
  · simp only [State.setTask, Function.update_apply] at known
    split at known
    · next new => exact new ▸ Nat.lt_succ_self s.made
    · exact Nat.lt_succ_of_lt (home.made t w known)
  · simp only [State.setTask, Function.update_apply]
    split
    · exact strayed
    · exact home.strayed t

theorem Home.evStart (home : Home before s) {r : Ref} {loop : Fin n}
    (assigned : AssignedTo s.tasks r loop) : Home before (s.evStart r loop) := by
  unfold State.evStart
  split
  · exact home
  · refine ⟨home.since, home.made, home.strayed, fun entry member => ?_, home.queues, home.threads⟩
    rcases List.mem_append.mp member with active | last
    · exact home.watchers entry active
    · rw [List.mem_singleton.mp last]
      exact assigned

/-- The worker of a task touches its watcher. -/
theorem Home.touch (home : Home before s) {t : Nat} {loop : Fin n}
    (assigned : (s.tasks t).assigned = some loop) : Home before (s.touch t loop) := by
  refine home.modify t _ (fun _ => rfl) ?_
  have own : (s.watchers.any fun entry => entry.1.id == t && entry.2 != loop) = false := by
    rw [List.any_eq_false]
    intro entry active
    simp only [Bool.and_eq_true, beq_iff_eq, bne_iff_ne, not_and, not_not]
    intro same
    have there := (home.watchers entry active).1
    rw [same, assigned] at there
    exact (Option.some.inj there).symm
  rw [own]
  simpa [Task.stray] using home.strayed t

theorem Home.evStop (home : Home before s) {t : Nat} {loop : Fin n}
    (assigned : (s.tasks t).assigned = some loop) : Home before (s.evStop t loop) := by
  have touched := home.touch assigned
  refine ⟨touched.since, touched.made, touched.strayed, fun entry member => ?_, touched.queues,
    touched.threads⟩
  exact touched.watchers entry (List.mem_of_mem_filter member)

end Rules

/-! ## One step -/

section Steps

variable [NeZero n] {s s' : State n m} {tasks : Nat → Task n} {th : ThreadId n m}
  {before : Nat → Option (Fin n)}

omit [NeZero n] in
theorem Home.startWatcher (home : Home before s) {w : Fin n} {r : Ref}
    (assigned : r.kind ≠ .disk → AssignedTo s.tasks r w) : Home before (s.startWatcher th w r) := by
  have used := home.use r.id
  have kept := Keeps.modify s r.id Task.use fun _ => rfl
  rcases s.startWatcher_cases th w r with ⟨_, eq⟩ | ⟨kind, eq⟩ | ⟨_, _, eq⟩ <;> rw [eq]
  · exact used.own _
  · have here := used.threads th
    exact used.thread ⟨here.point, (assigned kind).mono kept, here.frames, here.events⟩
  · have cleared := used.modify r.id Task.clearImmediate (fun _ => rfl) (used.strayed r.id)
    have here := cleared.threads th
    refine cleared.thread ⟨here.point, here.call, fun frame member kind => ?_, here.events⟩
    rcases List.mem_cons.mp member with rfl | old
    · exact ((assigned kind).mono kept).mono (.modify _ r.id Task.clearImmediate fun _ => rfl)
    · exact here.frames frame old kind

theorem Home.exec (home : Home before s) {i : Fin n} {f : Func n} (here : f.Home s.tasks i)
    (accounts : Accounts (fun t g => f.tokens t g) s)
    (executed : s.exec .multiLoop i f = some s') : Home before s' := by
  have kept (t : Nat) := Keeps.modify s t Task.use fun _ => rfl
  cases f with
  | start r =>
      simp only [State.exec, Option.some.injEq] at executed
      subst executed
      exact (home.use r.id).evStart (AssignedTo.mono here (kept r.id))
  | stop t =>
      simp only [State.exec, Option.some.injEq] at executed
      exact executed ▸ (home.use t).evStop (kept t t i here)
  | update t =>
      simp only [State.exec, Option.some.injEq] at executed
      exact executed ▸ (home.use t).touch (kept t t i here)
  | dispose t =>
      simp only [State.exec, Option.some.injEq] at executed
      have stopped := (home.use t).evStop (kept t t i here)
      exact executed ▸ stopped.modify t Task.delete (fun _ => rfl) (stopped.strayed t)
  | add r w =>
      simp only [State.exec, Option.map_eq_some_iff] at executed
      rcases executed with ⟨x, assigned, rfl⟩
      have made : r.id < s.made := by
        have own := r.tokens_add
        have unfinished := (accounts r.id).of_unfinished (by simp [Func.tokens]; omega)
        exact of_decide_eq_true unfinished.2.1
      refine (home.assign made assigned).evStart ⟨?_, fun d kind => absurd kind (here.2 d)⟩
      rw [State.setTask_self, (Task.assignWorker_multi assigned).1]
      exact congrArg some here.1
  | addEvent r =>
      simp only [State.exec, Option.some.injEq] at executed
      subst executed
      have there := home.threads (.inl i)
      refine home.thread ⟨there.point, there.call, there.frames, fun other member kind => ?_⟩
      rcases List.mem_append.mp member with waiting | last
      · exact there.events other waiting kind
      · exact absurd (List.mem_singleton.mp last ▸ here) kind
  | other =>
      simp only [State.exec, Option.some.injEq] at executed
      exact executed ▸ home

theorem Home.addEventTask (home : Home before s) {r : Ref} (made : r.id < s.made)
    (kind : ∀ d, r.kind ≠ .cleanup d)
    (added : s.addEventTask .multiLoop th r = some s') : Home before s' := by
  simp only [State.addEventTask, Option.map_eq_some_iff] at added
  rcases added with ⟨x, assigned, rfl⟩
  have turned : Home before { s with roundRobin := s.nextRoundRobin .multiLoop r.id } :=
    home.mono (fun _ _ known => known) home.made home.strayed rfl rfl rfl
  refine (turned.assign made assigned).startWatcher fun _ =>
    ⟨?_, fun d cleanup => absurd cleanup (kind d)⟩
  rw [State.setTask_self, (Task.assignWorker_multi assigned).1]

/-- A `cleanup_task` is assigned to the worker of the task that it disposes. -/
theorem Home.removeEventTask (home : Home before s) {r : Ref} {w : Fin n}
    (assigned : r.kind ≠ .disk → AssignedTo s.tasks r w) :
    Home before (s.removeEventTask .multiLoop th r) := by
  cases kind : r.kind with
  | io =>
      have known : (s.tasks r.id).assigned = some w := (assigned (by simp [kind])).1
      have worker : s.getWorkerByTask .multiLoop th r.id = w := by
        simp only [State.getWorkerByTask, known]
      simp only [State.removeEventTask, kind, worker]
      have turned : Home before { s with roundRobin := s.nextRoundRobin .multiLoop r.id } :=
        home.mono (fun _ _ known => known) home.made home.strayed rfl rfl rfl
      split
      · have here := turned.threads th
        exact turned.thread ⟨here.point, known, here.frames, here.events⟩
      · refine Home.startWatcher (turned.create _ rfl) fun _ => ⟨?_, fun d cleanup => ?_⟩
        · rw [State.setTask_self]
        · cases cleanup
          have old := Nat.ne_of_lt (home.made r.id w known)
          simpa only [State.setTask, Function.update_of_ne old] using known
  | timer | cleanup d | disk =>
      simp only [State.removeEventTask, kind]
      exact home.modify _ Task.delete (fun _ => rfl) (home.strayed r.id)

omit [NeZero n] in
/-- The innermost call of `exec_event_handler` goes on. -/
theorem ThreadHome.goesOn {x : Thread n} {frame : Frame n} {rest : List (Frame n)}
    (home : ThreadHome tasks th x) (at' : x.frames = frame :: rest) (result : Option Bool)
    (updated : Bool) {call : Call n} (called : CallHome tasks th call) :
    ThreadHome tasks th { x with
      frames := { frame with result := result, updated := updated } :: rest, call := call } := by
  have frames := home.frames
  rw [at'] at frames
  refine ⟨home.point, called, fun other member kind => ?_, home.events⟩
  rcases List.mem_cons.mp member with rfl | old
  · exact frames frame List.mem_cons_self kind
  · exact frames other (List.mem_cons_of_mem frame old) kind

omit [NeZero n] in
theorem ThreadHome.innermost {x : Thread n} {frame : Frame n} {rest : List (Frame n)}
    (home : ThreadHome tasks th x) (at' : x.frames = frame :: rest)
    (kind : frame.task.kind ≠ .disk) : AssignedTo tasks frame.task frame.worker := by
  refine home.frames frame ?_ kind
  rw [at']
  exact List.mem_cons_self

omit [NeZero n] in
theorem ThreadHome.pop {x : Thread n} {frame : Frame n} {rest : List (Frame n)}
    (home : ThreadHome tasks th x) (at' : x.frames = frame :: rest) :
    ThreadHome tasks th { x with frames := rest } := by
  refine ⟨home.point, home.call, fun other member => home.frames other ?_, home.events⟩
  rw [at']
  exact List.mem_cons_of_mem frame member

theorem Home.moves (home : Home before s) (inv : Inv .multiLoop s)
    (moves : Moves .multiLoop s s') : Home before s' := by
  cases moves with
  | testDirect th w f at' direct =>
      have here := home.threads th
      have call := here.call
      rw [at'] at call
      simp only [State.isDirect, Bool.and_eq_true, decide_eq_true_eq] at direct
      refine home.thread ⟨here.point, fun i same => ?_, here.frames, here.events⟩
      rw [direct.1] at same
      exact Sum.inl.inj same ▸ call
  | testPush th w f at' indirect =>
      have here := home.threads th
      have call := here.call
      rw [at'] at call
      exact home.thread ⟨here.point, call, here.frames, here.events⟩
  | direct i f s' at' executed =>
      have here := home.threads (.inl i)
      have call := here.call
      rw [at'] at call
      have idle := home.thread (x := { s.threads (.inl i) with call := .idle })
        ⟨here.point, trivial, here.frames, here.events⟩
      exact idle.exec (call i rfl)
        (inv.takeCall (.inl i) f fun t g => by rw [at']; rfl).2 executed
  | push th w f at' =>
      have here := home.threads th
      have call := here.call
      rw [at'] at call
      have idle := home.thread (x := { s.threads th with call := .idle })
        ⟨here.point, trivial, here.frames, here.events⟩
      exact idle.push call
  | stopDirect i r free at' s' executed =>
      have here := home.threads (.inl i)
      have point := here.point
      rw [at'] at point
      simp only [State.exec, Option.some.injEq] at executed
      subst executed
      have moved := home.thread (x := { s.threads (.inl i) with point := .addEvent r })
        ⟨point, here.call, here.frames, here.events⟩
      rcases point with ⟨j, same, assigned⟩
      cases same
      exact (moved.use r.id).evStop (Keeps.modify _ r.id Task.use (fun _ => rfl) _ _ assigned.1)
  | stopPush i r free at' indirect =>
      have direct := inv.isDirect_self (i := i) (by simp [at'])
      rw [indirect] at direct
      cases direct
  | addEvent i r free at' =>
      have here := home.threads (.inl i)
      have point := here.point
      rw [at'] at point
      refine home.thread ⟨trivial, here.call, here.frames, fun other member kind => ?_⟩
      rcases List.mem_append.mp member with waiting | last
      · exact here.events other waiting kind
      · exact List.mem_singleton.mp last ▸ point
  | drained i q free at' =>
      have here := home.threads (.inl i)
      exact home.thread ⟨trivial, here.call, here.frames, here.events⟩
  | drainFront i q f rest free at' s' executed =>
      have here := home.threads (.inl i)
      have point := here.point
      rw [at'] at point
      have own := (inv.placed.threads (.inl i)).point
      rw [at'] at own
      have same : i = q := Sum.inl.inj (own.2.1 rfl)
      have moved := home.thread (x := { s.threads (.inl i) with point := .drain q rest })
        ⟨fun g member => point g (List.mem_cons_of_mem f member), here.call, here.frames,
          here.events⟩
      have taken : Accounts (fun t g => f.tokens t g)
          (s.setThread (.inl i) { s.threads (.inl i) with point := .drain q rest }) := by
        apply inv.accounts.setThread
        intro t g
        simp [Thread.tokens, at', nothing]
        omega
      exact moved.exec (same ▸ point f List.mem_cons_self) taken executed
  | cleanupDisposes th frame rest d ready at' running kind disposable =>
      have used := (home.use frame.task.id).use d
      have assigned := (used.threads th).innermost at' (by simp [kind])
      exact used.thread ((used.threads th).goesOn at' _ _ (assigned.2 d kind))
  | cleanupWaits th frame rest d ready at' running kind =>
      have used := (home.use frame.task.id).use d
      exact used.thread ((used.threads th).goesOn at' _ _ (used.threads th).call)
  | diskHandled th frame rest ready at' running kind =>
      have used := home.use frame.task.id
      exact used.thread ((used.threads th).goesOn at' _ _ (used.threads th).call)
  | continues th frame rest ready at' returned =>
      have used := home.use frame.task.id
      exact (used.thread ((used.threads th).pop at')).startWatcher
        ((used.threads th).innermost at')
  | finishes th frame rest ready at' returned autoDelete =>
      have used := home.use frame.task.id
      have popped := used.thread ((used.threads th).pop at')
      have finished := popped.modify frame.task.id Task.finish (fun _ => rfl)
        (popped.strayed frame.task.id)
      refine finished.removeEventTask (w := frame.worker) fun kind => ?_
      exact ((used.threads th).innermost at' kind).mono
        (.modify _ frame.task.id Task.finish fun _ => rfl)
  | givesBack th frame rest ready at' returned autoDelete =>
      have used := home.use frame.task.id
      exact (used.thread ((used.threads th).pop at')).own _
  | fire i r free at' active =>
      have used := home.use r.id
      have here := used.threads (.inl i)
      refine used.thread ⟨⟨i, rfl, ?_⟩, here.call, here.frames, here.events⟩
      exact used.watchers (r, i) active
  | drain i q free at' own =>
      have here := home.threads (.inl i)
      have emptied : Home before { s with queues := Function.update s.queues q [] } := by
        refine ⟨home.since, home.made, home.strayed, home.watchers, fun other f member => ?_,
          home.threads⟩
        simp only [Function.update_apply] at member
        split at member
        · cases member
        · exact home.queues other f member
      exact emptied.thread ⟨home.queues q, here.call, here.frames, here.events⟩
  | enterLoop i free at' leads | leaveLoop i free at' =>
      have here := home.threads (.inl i)
      exact home.thread ⟨trivial, here.call, here.frames, here.events⟩
  | handle i r rest free at' events =>
      have here := home.threads (.inl i)
      have waiting := here.events
      rw [events] at waiting
      refine home.thread ⟨here.point, here.call, fun frame member kind => ?_,
        fun other member => waiting other (List.mem_cons_of_mem r member)⟩
      rw [List.mem_singleton.mp member] at kind ⊢
      rcases waiting r List.mem_cons_self kind with ⟨j, same, assigned⟩
      exact Sum.inl.inj same ▸ assigned
  | returns th frame rest cont ready at' running kind kept =>
      have used := home.use frame.task.id
      exact used.thread ((used.threads th).goesOn at' _ _ (used.threads th).call)
  | update th frame rest ready at' running kind =>
      have used := home.use frame.task.id
      have assigned := (used.threads th).innermost at' (by simp [kind])
      exact used.thread ((used.threads th).goesOn at' _ _ assigned.1)
  | disable th frame rest ready at' running kind =>
      exact home.modify _ Task.disableDispose (fun _ => rfl) (home.strayed _)
  | enable t disabled => exact home.modify _ Task.enableDispose (fun _ => rfl) (home.strayed _)
  | user th w ready =>
      have here := home.threads th
      exact home.thread ⟨here.point, trivial, here.frames, here.events⟩
  | new kind kept immediate made =>
      exact (home.own (s.owned ++ [⟨s.made, kind, kept⟩])).create { immediate := immediate } rfl
  | addTask th r ready owned s' added =>
      have made : r.id < s.made := by
        have own := r.tokens_add
        have counted (g : Stage) := le_total_of_mem (Ref.tokens r.id g) owned
        have io := counted .io
        have plain := counted .plain
        have unfinished := (inv.accounts r.id).of_unfinished (by
          simp only [State.tokens]
          omega)
        exact of_decide_eq_true unfinished.2.1
      exact (home.own (s.owned.erase r)).addEventTask made (inv.placed.owned r owned) added
  | addNet th w r ready owned kind =>
      have erased := home.own (s.owned.erase r)
      have here := erased.threads th
      refine erased.thread ⟨here.point, ⟨rfl, fun d cleanup => ?_⟩, here.frames, here.events⟩
      cases kind.symm.trans cleanup
  | addDisk th r ready owned kind =>
      have erased := (home.own (s.owned.erase r)).use r.id
      have here := erased.threads th
      exact erased.thread ⟨here.point, kind, here.frames, here.events⟩
  | free r owned disposable =>
      exact (home.own _).modify _ Task.free (fun _ => rfl) (home.strayed _)
  | promote i j single leads at' free atOther freeOther => cases single

/-! ## Every run -/

theorem reachable_home (reachable : (system (n := n) (m := m) .multiLoop).Reachable s) :
    Home (fun _ => none) s := by
  refine reachable.invariant (fun s => Home (fun _ => none) s) ?_ fun before home stepped =>
    home.moves (reachable_inv before) (moves_of_step stepped)
  refine ⟨by simp, by simp [system], fun _ => rfl, by simp [system], by simp [system],
    fun th => ?_⟩
  constructor <;> simp [system, PointHome, CallHome]

/-- The assignments of a state are kept in every run from it. -/
theorem Home.run {actions : List (Action n m)} (home : Home before s)
    (reachable : (system (n := n) (m := m) .multiLoop).Reachable s)
    (run : (system .multiLoop).exec actions s = some s') : Home before s' := by
  induction actions generalizing s with
  | nil => exact Option.some.inj run ▸ home
  | cons action rest ih =>
      simp only [System.exec, Option.bind_eq_some_iff] at run
      rcases run with ⟨next, stepped, run⟩
      exact ih (home.moves (reachable_inv reachable) (moves_of_step stepped))
        (reachable.step action stepped) run

/-- **A watcher belongs to one loop.**  In multi loop mode no watcher was touched by a thread
that runs another loop, and a watcher is active in the loop of the worker that its task is
assigned to. -/
theorem loops_confined (reachable : (system (n := n) (m := m) .multiLoop).Reachable s) :
    (∀ t, (s.tasks t).strayed = false) ∧
      ∀ entry ∈ s.watchers, (s.tasks entry.1.id).assigned = some entry.2 := by
  have home := reachable_home reachable
  exact ⟨home.strayed, fun entry active => (home.watchers entry active).1⟩

/-- **An `io_task_base` is handled by one thread.**  In multi loop mode all calls of
`exec_event_handler` for a task of this class, from the first one to the last one, are made by
the thread of one worker. -/
theorem handled_in_one_thread {actions : List (Action n m)}
    (reachable : (system (n := n) (m := m) .multiLoop).Reachable s)
    (run : (system .multiLoop).exec actions s = some s') {first last : ThreadId n m}
    {frame later : Frame n} (handled : frame ∈ (s.threads first).frames)
    (handled' : later ∈ (s'.threads last).frames) (same : later.task.id = frame.task.id)
    (io : frame.task.kind = .io) (io' : later.task.kind = .io) :
    ∃ w, first = .inl w ∧ last = .inl w := by
  have home := reachable_home reachable
  have since : Home (fun t => (s.tasks t).assigned) s :=
    { home with since := fun _ _ known => known }
  have final := since.run reachable run
  have reachable' := reachable.exec run
  have kind (r : Ref) (io : r.kind = .io) : r.kind ≠ .disk := by
    simp [io]
  have now := (home.threads first).frames frame handled (kind _ io)
  have then' := (final.threads last).frames later handled' (kind _ io')
  have workers : some frame.worker = some later.worker := by
    rw [← then'.1, same]
    exact (final.since _ _ now.1).symm
  refine ⟨frame.worker, (reachable_inv reachable).placed.threads first |>.frames _ handled io, ?_⟩
  rw [Option.some.inj workers]
  exact (reachable_inv reachable').placed.threads last |>.frames _ handled' io'

end Steps

theorem loops_confined_connection : ∃ s : State 2 1, (system .multiLoop).Reachable s ∧
    (connection, 0) ∈ s.watchers ∧ (s.tasks 0).strayed = false ∧
      (s.tasks 0).assigned = some 0 := by
  have run : ((system (n := 2) (m := 1) .multiLoop).exec (firstEvent ++ nextEvent.take 6)
      (system .multiLoop).init).any (fun s => (connection, 0) ∈ s.watchers) = true := by
    decide +kernel
  rcases System.exists_reachable_of_exec run with ⟨s, reachable, active⟩
  have member := of_decide_eq_true active
  have confined := loops_confined reachable
  exact ⟨s, reachable, member, confined.1 0, confined.2 _ member⟩

theorem handled_in_one_thread_connection : ∃ s s' : State 2 1,
    (system .multiLoop).Reachable s ∧ (system .multiLoop).exec nextEvent s = some s' ∧
      ⟨connection, 0, none, false⟩ ∈ (s.threads (.inl 0)).frames ∧
      ⟨connection, 0, none, false⟩ ∈ (s'.threads (.inl 0)).frames ∧
      ∃ w, (.inl 0 : ThreadId 2 1) = .inl w ∧ (.inl 0 : ThreadId 2 1) = .inl w := by
  have run : ((system (n := 2) (m := 1) .multiLoop).exec firstEvent
      (system .multiLoop).init).any (fun s =>
        decide (⟨connection, 0, none, false⟩ ∈ (s.threads (.inl 0)).frames) &&
          ((system .multiLoop).exec nextEvent s).any fun s' =>
            ⟨connection, 0, none, false⟩ ∈ (s'.threads (.inl 0)).frames) = true := by
    decide +kernel
  rcases System.exists_reachable_of_exec run with ⟨s, reachable, both⟩
  rw [Bool.and_eq_true, Option.any_eq_true] at both
  rcases both with ⟨first, s', later, second⟩
  have handled := of_decide_eq_true first
  have handled' := of_decide_eq_true second
  exact ⟨s, s', reachable, later, handled, handled',
    handled_in_one_thread reachable later handled handled' rfl rfl rfl⟩

end LibTasks.Lifecycle

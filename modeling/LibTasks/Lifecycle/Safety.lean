import LibTasks.Lifecycle.Disposal

/-!
# No task is used after it was deleted

The books exclude it for all that has the pointer of a task, except for one thing: a handler
that has changed the events of its task leaves the functor of `update_watcher` in the queue of
its worker, and goes on.  The functor is executed in time because the queue is first in, first
out: whatever the worker does with the task next is queued behind the functor.
-/

namespace LibTasks.Lifecycle

open LibTasks.Foundation
open LibTasks.Net.HttpSender (Mode)

variable {n m : Nat}

/-! ## The order of functors -/

/-- The functor has the pointer of the task, or of a `cleanup_task` for it. -/
def Func.Bears (t : Nat) (f : Func n) : Prop := ∃ g, 0 < f.tokens t g

/-- The handler of the task has called `update_watcher`. -/
def Frame.Updates (t : Nat) (frame : Frame n) : Prop :=
  frame.task.id = t ∧ frame.task.kind = .io ∧ frame.updated = true

/-- The thread of worker `q` has called `update_watcher`, and still has the task. -/
def Thread.Follows (q : Fin n) (t : Nat) (x : Thread n) : Prop :=
  (∃ frame ∈ x.frames, frame.Updates t) ∨
    ∃ f, f.Bears t ∧ (x.call = .test q f ∨ x.call = .push q f)

section Order

variable (mode : Mode) (s : State n m)

/-- The thread of worker `q` will queue a functor that has the task. -/
def Waiting (q : Fin n) (t : Nat) : Prop :=
  mode = .singleLoop ∧ s.leader ≠ q ∧ (s.threads (.inl q)).Follows q t

/-- Behind each functor of `update_watcher` in the queue of `q` comes one that has the task. -/
def Anchored (q : Fin n) : List (Func n) → Prop
  | [] => True
  | f :: rest =>
      (∀ t, f = .update t → (∃ f' ∈ rest, f'.Bears t) ∨ Waiting mode s q t) ∧ Anchored q rest

/-- `update_watcher` is called by the handler of the task. -/
def CallOrdered (x : Thread n) : Call n → Prop
  | .test w (.update t) => ∃ frame ∈ x.frames, frame.Updates t ∧ frame.worker = w
  | .push w (.update t) => (∃ frame ∈ x.frames, frame.Updates t ∧ frame.worker = w) ∧
      mode = .singleLoop ∧ s.leader ≠ w
  | .direct (.update t) => ∃ frame ∈ x.frames, frame.Updates t
  | _ => True

structure ThreadOrdered (x : Thread n) : Prop where
  call : CallOrdered mode s x x.call
  frames : ∀ frame ∈ x.frames, frame.updated = true →
    frame.task.kind = .io ∧ (frame.result = some false → frame.task.autoDelete = true)

structure Ordered : Prop where
  queues : ∀ q, Anchored mode s q (s.queues q)
  drains : ∀ i q rest, (s.threads (.inl i)).point = .drain q rest →
    Anchored mode s q (rest ++ s.queues q)
  threads : ∀ th, ThreadOrdered mode s (s.threads th)
  unassigned : mode = .singleLoop → ∀ t, (s.tasks t).assigned = none

end Order

section Rules

variable {mode : Mode} {s s' : State n m} {q : Fin n} {list : List (Func n)} {x : Thread n}
  {th : ThreadId n m}

theorem Anchored.mono (ok : Anchored mode s q list)
    (waits : ∀ t, Waiting mode s q t → Waiting mode s' q t) : Anchored mode s' q list := by
  induction list with
  | nil => trivial
  | cons f rest ih =>
      refine ⟨fun t same => ?_, ih ok.2⟩
      exact (ok.1 t same).imp_right (waits t)

/-- A functor is queued.  If the thread of `q` had the task, the functor has it. -/
theorem Anchored.push (ok : Anchored mode s q list) {f : Func n}
    (waits : ∀ t, Waiting mode s q t → Waiting mode s' q t ∨ f.Bears t)
    (last : ∀ t, f = .update t → Waiting mode s' q t) : Anchored mode s' q (list ++ [f]) := by
  induction list with
  | nil => exact ⟨fun t same => .inr (last t same), trivial⟩
  | cons front rest ih =>
      refine ⟨fun t same => ?_, ih ok.2⟩
      rcases ok.1 t same with ⟨f', member, bears⟩ | waiting
      · exact .inl ⟨f', List.mem_append_left _ member, bears⟩
      · rcases waits t waiting with waiting | bears
        · exact .inr waiting
        · exact .inl ⟨f, List.mem_append_right _ (List.mem_singleton.mpr rfl), bears⟩

theorem Anchored.right {front : List (Func n)} (ok : Anchored mode s q (front ++ list)) :
    Anchored mode s q list := by
  induction front with
  | nil => exact ok
  | cons f rest ih => exact ih ok.2

theorem CallOrdered.congr {x' : Thread n} {call : Call n} (ok : CallOrdered mode s x call)
    (leader : s'.leader = s.leader)
    (frames : ∀ t w, (∃ frame ∈ x.frames, frame.Updates t ∧ frame.worker = w) →
      ∃ frame ∈ x'.frames, frame.Updates t ∧ frame.worker = w) :
    CallOrdered mode s' x' call := by
  cases call with
  | idle => trivial
  | test w f =>
      cases f with
      | update t => exact frames t w ok
      | start | stop | dispose | add | addEvent | other => trivial
  | push w f =>
      cases f with
      | update t => exact ⟨frames t w ok.1, ok.2.1, leader ▸ ok.2.2⟩
      | start | stop | dispose | add | addEvent | other => trivial
  | direct f =>
      cases f with
      | update t =>
          rcases ok with ⟨frame, member, updates⟩
          rcases frames t frame.worker ⟨frame, member, updates, rfl⟩ with ⟨other, member, found, _⟩
          exact ⟨other, member, found⟩
      | start | stop | dispose | add | addEvent | other => trivial

theorem ThreadOrdered.congr (ok : ThreadOrdered mode s x) (leader : s'.leader = s.leader) :
    ThreadOrdered mode s' x :=
  ⟨ok.call.congr leader fun _ _ found => found, ok.frames⟩

/-- Events and watchers have no part in the order of functors. -/
theorem Ordered.congr (ok : Ordered mode s) (leader : s'.leader = s.leader)
    (queues : s'.queues = s.queues)
    (threads : ∀ th, ∃ events, s'.threads th = { s.threads th with events := events })
    (unassigned : mode = .singleLoop → ∀ t, (s'.tasks t).assigned = none) :
    Ordered mode s' := by
  have waits (q : Fin n) (t : Nat) (waiting : Waiting mode s q t) : Waiting mode s' q t := by
    rcases threads (.inl q) with ⟨events, same⟩
    refine ⟨waiting.1, leader ▸ waiting.2.1, ?_⟩
    rw [same]
    exact waiting.2.2
  refine ⟨fun q => ?_, fun i q rest at' => ?_, fun th => ?_, unassigned⟩
  · rw [queues]
    exact (ok.queues q).mono (waits q)
  · rcases threads (.inl i) with ⟨events, same⟩
    rw [same] at at'
    rw [queues]
    exact (ok.drains i q rest at').mono (waits q)
  · rcases threads th with ⟨events, same⟩
    rw [same]
    exact ⟨((ok.threads th).congr leader).call, (ok.threads th).frames⟩

theorem Ordered.same (ok : Ordered mode s) (leader : s'.leader = s.leader)
    (queues : s'.queues = s.queues) (threads : s'.threads = s.threads)
    (unassigned : mode = .singleLoop → ∀ t, (s'.tasks t).assigned = none) : Ordered mode s' :=
  ok.congr leader queues (fun th => ⟨(s.threads th).events, by rw [threads]⟩) unassigned

theorem Ordered.modify (ok : Ordered mode s) (t : Nat) (change : Task n → Task n)
    (kept : ∀ x, (change x).assigned = x.assigned) : Ordered mode (s.modify t change) := by
  refine ok.congr rfl rfl (fun th => ⟨_, rfl⟩) fun single u => ?_
  rw [s.modify_field t change Task.assigned kept u]
  exact ok.unassigned single u

theorem Ordered.use (ok : Ordered mode s) (t : Nat) : Ordered mode (s.modify t Task.use) :=
  ok.modify t Task.use fun _ => rfl

theorem Ordered.erase (ok : Ordered mode s) (r : Ref) :
    Ordered mode { s with owned := s.owned.erase r } :=
  ok.congr rfl rfl (fun _ => ⟨_, rfl⟩) ok.unassigned

/-- One thread changes. -/
theorem Ordered.thread (ok : Ordered mode s) (ordered : ThreadOrdered mode s x)
    (drains : ∀ i q rest, th = .inl i → x.point = .drain q rest →
      Anchored mode s q (rest ++ s.queues q))
    (follows : ∀ q t, mode = .singleLoop → th = .inl q → s.leader ≠ q →
      (s.threads th).Follows q t → x.Follows q t) :
    Ordered mode (s.setThread th x) := by
  have waits (q : Fin n) (t : Nat) (waiting : Waiting mode s q t) :
      Waiting mode (s.setThread th x) q t := by
    refine ⟨waiting.1, waiting.2.1, ?_⟩
    simp only [State.setThread, Function.update_apply]
    split
    · next same => exact follows q t waiting.1 same.symm waiting.2.1 (same ▸ waiting.2.2)
    · exact waiting.2.2
  refine ⟨fun q => (ok.queues q).mono (waits q), fun i q rest at' => ?_, fun other => ?_,
    ok.unassigned⟩
  · simp only [State.setThread, Function.update_apply] at at'
    split at at'
    · next same => exact (drains i q rest same.symm at').mono (waits q)
    · exact (ok.drains i q rest at').mono (waits q)
  · simp only [State.setThread, Function.update_apply]
    split
    · exact ordered.congr rfl
    · exact (ok.threads other).congr rfl

/-- A thread moves between two points. -/
theorem Ordered.setPoint (ok : Ordered mode s) (frames : x.frames = (s.threads th).frames)
    (call : x.call = (s.threads th).call)
    (drains : ∀ i q rest, th = .inl i → x.point = .drain q rest →
      Anchored mode s q (rest ++ s.queues q)) :
    Ordered mode (s.setThread th x) := by
  refine ok.thread ⟨?_, frames ▸ (ok.threads th).frames⟩ drains fun q t _ _ _ follows => ?_
  · rw [call]
    exact (ok.threads th).call.congr rfl fun _ _ found => frames ▸ found
  · rw [Thread.Follows, frames, call]
    exact follows

/-- A thread passes a functor to `exec_in_worker_ctx` or returns from it. -/
theorem Ordered.setCall (ok : Ordered mode s) {call : Call n}
    (ordered : CallOrdered mode s (s.threads th) call)
    (kept : ∀ q f, mode = .singleLoop → th = .inl q → s.leader ≠ q →
      (s.threads th).call = .test q f ∨ (s.threads th).call = .push q f →
        call = .test q f ∨ call = .push q f) :
    Ordered mode (s.setThread th { s.threads th with call := call }) := by
  refine ok.thread ⟨?_, (ok.threads th).frames⟩ ?_ ?_
  · exact ordered.congr rfl fun _ _ found => found
  · intro i q rest here at'
    exact ok.drains i q rest (here ▸ at')
  · intro q t single here follower follows
    rcases follows with frame | ⟨f, bears, called⟩
    · exact .inl frame
    · exact .inr ⟨f, bears, kept q f single here follower called⟩

/-- A thread that is in no call begins one that is not `update_watcher`. -/
theorem Ordered.beginCall (ok : Ordered mode s) (idle : (s.threads th).call = .idle)
    {call : Call n} (ordered : CallOrdered mode s (s.threads th) call) :
    Ordered mode (s.setThread th { s.threads th with call := call }) := by
  refine ok.setCall ordered fun q f _ _ _ called => ?_
  rw [idle] at called
  rcases called with other | other <;> cases other

section Frames

variable {frame : Frame n} {rest : List (Frame n)}

/-- The innermost call of `exec_event_handler` goes on or returns, and the thread may call
`exec_in_worker_ctx`.  Where the handler has called `update_watcher`, what follows has the
task. -/
theorem Ordered.handler (ok : Ordered mode s) (idle : (s.threads th).call = .idle)
    (at' : (s.threads th).frames = frame :: rest) (point : x.point = (s.threads th).point)
    (ordered : CallOrdered mode s x x.call)
    (kept : ∀ other ∈ x.frames, other ∈ rest ∨ (other.updated = true →
      other.task.kind = .io ∧ (other.result = some false → other.task.autoDelete = true)))
    (others : ∀ other ∈ rest, other ∈ x.frames)
    (follows : ∀ q, mode = .singleLoop → th = .inl q → frame.Updates frame.task.id →
      (∃ other ∈ x.frames, other.Updates frame.task.id) ∨
        ∃ f, f.Bears frame.task.id ∧ x.call = .test q f) :
    Ordered mode (s.setThread th x) := by
  have before := (ok.threads th).frames
  rw [at'] at before
  refine ok.thread ⟨ordered, fun other member => ?_⟩ ?_ ?_
  · rcases kept other member with inside | fine
    · exact before other (List.mem_cons_of_mem frame inside)
    · exact fine
  · intro i q drained here atPoint
    exact ok.drains i q drained (here ▸ point ▸ atPoint)
  · intro q t single here _ old
    rcases old with ⟨other, member, updates⟩ | ⟨f, _, called⟩
    · rw [at'] at member
      rcases List.mem_cons.mp member with rfl | inside
      · have same := updates.1
        subst same
        rcases follows q single here updates with inFrames | ⟨f, bears, called⟩
        · exact .inl inFrames
        · exact .inr ⟨f, bears, .inl called⟩
      · exact .inl ⟨other, others other inside, updates⟩
    · rw [idle] at called
      rcases called with other | other <;> cases other

/-- The call of `exec_event_handler` is about a task without `update_watcher`. -/
theorem Ordered.plainFrame (ok : Ordered mode s) (idle : (s.threads th).call = .idle)
    (at' : (s.threads th).frames = frame :: rest) (kind : frame.task.kind ≠ .io)
    (point : x.point = (s.threads th).point) {result : Option Bool}
    (frames : x.frames = { frame with result := result } :: rest)
    (ordered : CallOrdered mode s x x.call) : Ordered mode (s.setThread th x) := by
  have before := (ok.threads th).frames frame (by rw [at']; exact List.mem_cons_self)
  refine ok.handler idle at' point ordered ?_ ?_ ?_
  · rw [frames]
    intro other member
    rcases List.mem_cons.mp member with rfl | inside
    · exact .inr fun updated => absurd (before updated).1 kind
    · exact .inl inside
  · rw [frames]
    exact fun other => List.mem_cons_of_mem _
  · intro q _ _ updates
    exact absurd updates.2.1 kind

/-- A call of `exec_event_handler` whose handler has not called `update_watcher` returns. -/
theorem Ordered.pop (ok : Ordered mode s) (idle : (s.threads th).call = .idle)
    (at' : (s.threads th).frames = frame :: rest) (plain : ¬ frame.Updates frame.task.id) :
    Ordered mode (s.setThread th { s.threads th with frames := rest }) := by
  refine ok.handler idle at' rfl ?_ (fun other => .inl) (fun other inside => inside) ?_
  · change CallOrdered mode s _ (s.threads th).call
    rw [idle]
    trivial
  · intro q _ _ updates
    exact absurd updates plain

/-- The thread that has called `update_watcher` goes on with a functor that has the task. -/
theorem Ordered.popCall (ok : Ordered mode s) (idle : (s.threads th).call = .idle)
    (at' : (s.threads th).frames = frame :: rest) {w : Fin n} {f : Func n}
    (ordered : CallOrdered mode s { s.threads th with frames := rest, call := .test w f }
      (.test w f))
    (bears : f.Bears frame.task.id) (own : mode = .singleLoop → ∀ q, th = .inl q → w = q) :
    Ordered mode (s.setThread th { s.threads th with frames := rest, call := .test w f }) := by
  refine ok.handler idle at' rfl ordered (fun other => .inl) (fun other inside => inside) ?_
  intro q single here _
  exact .inr ⟨f, bears, own single q here ▸ rfl⟩

end Frames

end Rules

section Steps

variable [NeZero n] {mode : Mode} {s s' : State n m} {th : ThreadId n m}

omit [NeZero n] in
theorem Task.assignWorker_single {x y : Task n} {w : Fin n}
    (assigned : x.assignWorker .singleLoop w = some y) : y = x :=
  (Option.some.inj assigned).symm

theorem exec_unassigned {i : Fin n} {f : Func n} (executed : s.exec mode i f = some s')
    (single : mode = .singleLoop) (before : ∀ t, (s.tasks t).assigned = none) (t : Nat) :
    (s'.tasks t).assigned = none := by
  subst single
  have kept (s : State n m) (u : Nat) (change : Task n → Task n)
      (same : ∀ x, (change x).assigned = x.assigned) (before : (s.tasks t).assigned = none) :
      ((s.modify u change).tasks t).assigned = none := by
    rw [s.modify_field u change Task.assigned same t]
    exact before
  have started (s : State n m) (r : Ref) (loop : Fin n)
      (before : (s.tasks t).assigned = none) : ((s.evStart r loop).tasks t).assigned = none := by
    unfold State.evStart
    split <;> exact before
  cases f with
  | start r =>
      simp only [State.exec, Option.some.injEq] at executed
      exact executed ▸ started _ _ _ (kept s r.id Task.use (fun _ => rfl) (before t))
  | stop u | update u =>
      simp only [State.exec, Option.some.injEq] at executed
      subst executed
      exact kept _ u (Task.stray _) (fun _ => rfl) (kept s u Task.use (fun _ => rfl) (before t))
  | dispose u =>
      simp only [State.exec, Option.some.injEq] at executed
      subst executed
      apply kept _ u Task.delete fun _ => rfl
      exact kept _ u (Task.stray _) (fun _ => rfl) (kept s u Task.use (fun _ => rfl) (before t))
  | add r w =>
      simp only [State.exec, Option.map_eq_some_iff] at executed
      rcases executed with ⟨x, assigned, rfl⟩
      rw [Task.assignWorker_single assigned]
      exact started _ _ _ (kept s r.id Task.use (fun _ => rfl) (before t))
  | addEvent r | other =>
      simp only [State.exec, Option.some.injEq] at executed
      exact executed ▸ before t

omit [NeZero n] in
theorem Ordered.startWatcher (ok : Ordered mode s) (idle : (s.threads th).call = .idle)
    (w : Fin n) (r : Ref) : Ordered mode (s.startWatcher th w r) := by
  have used := ok.use r.id
  rcases s.startWatcher_cases th w r with ⟨_, eq⟩ | ⟨_, eq⟩ | ⟨_, _, eq⟩ <;> rw [eq]
  · exact used.congr rfl rfl (fun other => ⟨_, rfl⟩) used.unassigned
  · exact used.beginCall idle trivial
  · have cleared := used.modify r.id Task.clearImmediate fun _ => rfl
    refine cleared.thread ⟨?_, fun frame member => ?_⟩ ?_ ?_
    · change CallOrdered mode _ _ (s.threads th).call
      rw [idle]
      trivial
    · rcases List.mem_cons.mp member with rfl | before
      · intro other
        cases other
      · exact (ok.threads th).frames frame before
    · intro i q rest here at'
      exact cleared.drains i q rest (here ▸ at')
    · intro q t _ _ _ follows
      rcases follows with ⟨frame, member, updates⟩ | called
      · exact .inl ⟨frame, List.mem_cons_of_mem _ member, updates⟩
      · exact .inr called

theorem Ordered.addEventTask (ok : Ordered mode s) (idle : (s.threads th).call = .idle) {r : Ref}
    (added : s.addEventTask mode th r = some s') : Ordered mode s' := by
  simp only [State.addEventTask, Option.map_eq_some_iff] at added
  rcases added with ⟨x, assigned, rfl⟩
  refine Ordered.startWatcher ?_ ?_ _ r
  swap
  · exact idle
  refine ok.congr rfl rfl (fun other => ⟨_, rfl⟩) fun single t => ?_
  subst single
  rw [Task.assignWorker_single assigned]
  simp only [State.setTask, Function.update_apply]
  split
  · exact ok.unassigned rfl r.id
  · exact ok.unassigned rfl t

theorem Ordered.removeEventTask (ok : Ordered mode s) (idle : (s.threads th).call = .idle)
    (r : Ref) : Ordered mode (s.removeEventTask mode th r) := by
  cases kind : r.kind with
  | io =>
      simp only [State.removeEventTask, kind]
      have turned : Ordered mode { s with roundRobin := s.nextRoundRobin mode r.id } :=
        ok.congr rfl rfl (fun other => ⟨_, rfl⟩) ok.unassigned
      split
      · exact turned.beginCall idle trivial
      · refine Ordered.startWatcher ?_ ?_ _ _
        swap
        · exact idle
        refine turned.congr rfl rfl (fun other => ⟨_, rfl⟩) fun single t => ?_
        subst single
        simp only [State.setTask, Function.update_apply]
        split
        · rfl
        · exact ok.unassigned rfl t
  | timer | cleanup d | disk =>
      simp only [State.removeEventTask, kind]
      exact ok.modify _ _ fun _ => rfl

theorem Ordered.exec (ok : Ordered mode s) {i : Fin n} {f : Func n}
    (executed : s.exec mode i f = some s') : Ordered mode s' := by
  rcases exec_keeps executed with ⟨leader, queues, _, threads⟩
  exact ok.congr leader queues threads fun single =>
    exec_unassigned executed single (ok.unassigned single)

omit [NeZero n] in
/-- A functor is queued by `async_call`. -/
theorem Ordered.push (ok : Ordered mode s) {w : Fin n} {f : Func n}
    (at' : (s.threads th).call = .push w f)
    (own : ∀ frame ∈ (s.threads th).frames, frame.task.kind = .io → th = .inl frame.worker) :
    Ordered mode ((s.setThread th { s.threads th with call := .idle }).push w f) := by
  have other (q : Fin n) (different : Sum.inl q ≠ th) :
      Function.update s.threads th { s.threads th with call := .idle } (.inl q) =
        s.threads (.inl q) :=
    Function.update_of_ne different _ _
  have waits (q : Fin n) (t : Nat) (waiting : Waiting mode s q t) :
      Waiting mode ((s.setThread th { s.threads th with call := .idle }).push w f) q t ∨
        q = w ∧ f.Bears t := by
    by_cases here : Sum.inl q = th
    · subst here
      rcases waiting with ⟨single, follower, frame | ⟨f', bears, called⟩⟩
      · left
        refine ⟨single, follower, ?_⟩
        simp only [State.push, State.setThread, Function.update_self]
        exact .inl frame
      · right
        rw [at'] at called
        rcases called with called | called
        · cases called
        · cases called
          exact ⟨rfl, bears⟩
    · left
      refine ⟨waiting.1, waiting.2.1, ?_⟩
      simp only [State.push, State.setThread]
      rw [other q here]
      exact waiting.2.2
  have last (t : Nat) (same : f = .update t) :
      Waiting mode ((s.setThread th { s.threads th with call := .idle }).push w f) w t := by
    have call := (ok.threads th).call
    rw [at', same] at call
    rcases call with ⟨⟨frame, member, updates, worker⟩, single, follower⟩
    have here := own frame member updates.2.1
    rw [worker] at here
    subst here
    refine ⟨single, follower, ?_⟩
    simp only [State.push, State.setThread, Function.update_self]
    exact .inl ⟨frame, member, updates⟩
  have list (q : Fin n) (front : List (Func n))
      (before : Anchored mode s q (front ++ s.queues q)) :
      Anchored mode ((s.setThread th { s.threads th with call := .idle }).push w f) q
        (front ++ Function.update s.queues w (s.queues w ++ [f]) q) := by
    by_cases same : q = w
    · subst same
      rw [Function.update_self, ← List.append_assoc]
      exact before.push (fun t waiting => (waits q t waiting).imp_right And.right) last
    · rw [Function.update_of_ne same]
      refine before.mono fun t waiting => ?_
      exact (waits q t waiting).resolve_right fun both => same both.1
  refine ⟨fun q => list q [] (ok.queues q), fun i q rest atPoint => list q rest ?_,
    fun th' => ?_, ok.unassigned⟩
  · apply ok.drains i q rest
    by_cases here : Sum.inl i = th
    · subst here
      simpa [State.push, State.setThread] using atPoint
    · simp only [State.push, State.setThread] at atPoint
      rwa [other i here] at atPoint
  · by_cases here : th' = th
    · subst here
      simp only [State.push, State.setThread, Function.update_self]
      exact ⟨trivial, (ok.threads th').frames⟩
    · simp only [State.push, State.setThread, Function.update_of_ne here]
      exact (ok.threads th').congr rfl

omit [NeZero n] in
/-- The pointer of a task is in the functor that starts its watcher. -/
theorem Func.bears_start (r : Ref) : (Func.start r : Func n).Bears r.id := by
  have own := r.tokens_add
  by_cases io : 0 < r.tokens r.id .io
  · exact ⟨.io, io⟩
  · exact ⟨.plain, by simpa using (by omega : 0 < r.tokens r.id .plain)⟩

section Updated

variable {frame : Frame n} {rest : List (Frame n)}

omit [NeZero n] in
/-- `start_watcher` after a handler that has called `update_watcher`. -/
theorem Ordered.continues (ok : Ordered mode s) (idle : (s.threads th).call = .idle)
    (at' : (s.threads th).frames = frame :: rest) (kind : frame.task.kind = .io)
    (own : th = .inl frame.worker) :
    Ordered mode ((s.setThread th { s.threads th with frames := rest }).startWatcher th
      frame.worker frame.task) := by
  have base := ok.popCall idle at' (w := frame.worker) (f := .start frame.task) trivial
    (Func.bears_start frame.task) fun _ q here => Sum.inl.inj (own.symm.trans here)
  simp only [State.startWatcher, kind]
  have used := base.use frame.task.id
  refine used.same rfl rfl ?_ used.unassigned
  simp only [State.setThread, State.modify_threads, Function.update_self, Function.update_idem]

/-- `finish` after a handler that has called `update_watcher`. -/
theorem Ordered.finishes (ok : Ordered mode s) (idle : (s.threads th).call = .idle)
    (at' : (s.threads th).frames = frame :: rest) (kind : frame.task.kind = .io) :
    Ordered mode (((s.setThread th { s.threads th with frames := rest }).modify frame.task.id
      Task.finish).removeEventTask mode th frame.task) := by
  have unassigned := (ok.modify frame.task.id Task.finish fun _ => rfl).unassigned
  -- In single loop mode the worker is the one that executes the handler.
  have own (single : mode = .singleLoop) (q : Fin n) (here : th = .inl q) :
      ((s.setThread th { s.threads th with frames := rest }).modify frame.task.id
        Task.finish).getWorkerByTask mode th frame.task.id = q := by
    have blank : (((s.setThread th { s.threads th with frames := rest }).modify frame.task.id
        Task.finish).tasks frame.task.id).assigned = none := unassigned single frame.task.id
    subst single here
    simp only [State.getWorkerByTask, blank]
  simp only [State.removeEventTask, kind]
  split
  · have base := ok.popCall idle at' (f := .dispose frame.task.id) trivial
      ⟨.disposing, by simp [Func.tokens]⟩ own
    refine base.same rfl rfl ?_ unassigned
    simp only [State.setThread, State.modify_threads, Function.update_self, Function.update_idem]
  · have base := ok.popCall idle at' (f := .start ⟨s.made, .cleanup frame.task.id, false⟩) trivial
      ⟨.cleaning, by simp [Ref.tokens, Ref.target]⟩ own
    rcases State.startWatcher_cases _ th _ ⟨s.made, .cleanup frame.task.id, false⟩ with
      ⟨disk, _⟩ | ⟨_, eq⟩ | ⟨_, immediate, _⟩
    · cases disk
    · refine Eq.mpr (congrArg (Ordered mode) eq) (base.same rfl rfl ?_ ?_)
      · simp only [State.setThread, State.setTask, State.modify_threads, Function.update_self,
          Function.update_idem]
      · intro single t
        rw [State.setThread_tasks, State.modify_field _ _ Task.use Task.assigned fun _ => rfl]
        simp only [State.setTask, Function.update_apply, single]
        split
        · rfl
        · exact unassigned single t
    · simp at immediate

end Updated

/-- The functors of a queue are taken by the only thread that drains the queue. -/
theorem Ordered.drain (ok : Ordered mode s) (placed : Placed mode s) {i q : Fin n}
    (at' : (s.threads (.inl i)).point = .loop) (own : mode = .multiLoop → q = i) :
    Ordered mode ({ s with queues := Function.update s.queues q [] }.setThread (.inl i)
      { s.threads (.inl i) with point := .drain q (s.queues q) }) := by
  have waits (r : Fin n) (t : Nat) (waiting : Waiting mode s r t) :
      Waiting mode ({ s with queues := Function.update s.queues q [] }.setThread (.inl i)
        { s.threads (.inl i) with point := .drain q (s.queues q) }) r t := by
    refine ⟨waiting.1, waiting.2.1, ?_⟩
    simp only [State.setThread, Function.update_apply]
    split
    · next same => exact Sum.inl.inj same ▸ waiting.2.2
    · exact waiting.2.2
  refine ⟨fun r => ?_, fun j r rest atPoint => ?_, fun th => ?_, ok.unassigned⟩
  · simp only [State.setThread, Function.update_apply]
    split
    · trivial
    · exact (ok.queues r).mono (waits r)
  · by_cases here : j = i
    · subst here
      simp only [State.setThread, Function.update_self] at atPoint
      cases atPoint
      simp only [State.setThread, Function.update_self, List.append_nil]
      exact (ok.queues q).mono (waits q)
    · have different : r ≠ q := by
        rintro rfl
        apply here
        simp only [State.setThread, Function.update_of_ne (fun same => here (Sum.inl.inj same))]
          at atPoint
        have first := (placed.threads (.inl i)).point
        have second := (placed.threads (.inl j)).point
        rw [at'] at first
        rw [atPoint] at second
        rcases first with ⟨i', same, leads⟩
        cases same
        rcases second with ⟨⟨j', same, leads'⟩, drains, _⟩
        cases same
        cases mode with
        | singleLoop => exact Leading.unique rfl leads' leads
        | multiLoop => exact (Sum.inl.inj (drains rfl)).trans (own rfl)
      simp only [State.setThread, Function.update_of_ne (fun same => here (Sum.inl.inj same)),
        Function.update_of_ne different] at atPoint ⊢
      exact (ok.drains j r rest atPoint).mono (waits r)
  · simp only [State.setThread, Function.update_apply]
    split
    · next same =>
        subst same
        have before := ok.threads (.inl i)
        exact ⟨before.call.congr rfl fun _ _ found => found, before.frames⟩
    · exact (ok.threads th).congr rfl

/-- The new leader waits in no call and in no handler. -/
theorem Ordered.promote (ok : Ordered mode s) (placed : Placed mode s) {j : Fin n}
    (free : (s.threads (.inl j)).free = true) :
    Ordered mode { s with leader := j, lastWorker := j } := by
  rcases Thread.free_iff.mp free with ⟨idle, frames⟩
  have waits (q : Fin n) (t : Nat) (waiting : Waiting mode s q t) :
      Waiting mode { s with leader := j, lastWorker := j } q t := by
    refine ⟨waiting.1, ?_, waiting.2.2⟩
    rintro rfl
    rcases waiting.2.2 with ⟨frame, member, _⟩ | ⟨f, _, called⟩
    · rw [frames] at member
      cases member
    · rw [idle] at called
      rcases called with other | other <;> cases other
  refine ⟨fun q => (ok.queues q).mono (waits q), fun i q rest at' =>
    (ok.drains i q rest at').mono (waits q), fun th => ⟨?_, (ok.threads th).frames⟩,
    ok.unassigned⟩
  have call := (ok.threads th).call
  cases at' : (s.threads th).call with
  | idle => trivial
  | test w f | direct f =>
      rw [at'] at call
      cases f with
      | update t => exact call
      | start | stop | dispose | add | addEvent | other => trivial
  | push w f =>
      rw [at'] at call
      cases f with
      | update t =>
          refine ⟨call.1, call.2.1, ?_⟩
          rintro rfl
          rcases call.1 with ⟨frame, member, updates, worker⟩
          have here := (placed.threads th).frames frame member updates.2.1
          rw [here, worker, frames] at member
          cases member
      | start | stop | dispose | add | addEvent | other => trivial

/-- One step keeps the order. -/
theorem Ordered.moves (ok : Ordered mode s) (inv : Inv mode s) (moves : Moves mode s s') :
    Ordered mode s' := by
  cases moves with
  | testDirect th w f at' direct =>
      simp only [State.isDirect, Bool.and_eq_true, decide_eq_true_eq] at direct
      refine ok.setCall ?_ fun q f' single here follower called => ?_
      · have call := (ok.threads th).call
        rw [at'] at call
        cases f with
        | update t =>
            rcases call with ⟨frame, member, updates, _⟩
            exact ⟨frame, member, updates⟩
        | start | stop | dispose | add | addEvent | other => trivial
      · rw [single] at direct
        have leads := direct.2
        simp only [State.leads, beq_iff_eq] at leads
        rw [direct.1] at here
        exact absurd (leads.trans (Sum.inl.inj here)) follower
  | testPush th w f at' indirect =>
      refine ok.setCall ?_ fun q f' single here follower called => ?_
      · have call := (ok.threads th).call
        rw [at'] at call
        cases f with
        | update t =>
            rcases call with ⟨frame, member, updates, worker⟩
            have here := (inv.placed.threads th).frames frame member updates.2.1
            refine ⟨⟨frame, member, updates, worker⟩, ?_⟩
            rw [here, worker] at indirect
            simp only [State.isDirect, decide_true, Bool.true_and] at indirect
            cases mode with
            | singleLoop => exact ⟨rfl, by simpa [State.leads] using indirect⟩
            | multiLoop => simp [State.leads] at indirect
        | start | stop | dispose | add | addEvent | other => trivial
      · rw [at'] at called
        rcases called with same | other
        · cases same
          exact .inr rfl
        · cases other
  | direct i f s' at' executed =>
      refine Ordered.exec ?_ executed
      refine ok.setCall trivial ?_
      intro q f' _ _ _ called
      rw [at'] at called
      rcases called with other | other <;> cases other
  | push th w f at' => exact ok.push at' (inv.placed.threads th).frames
  | stopDirect i r free at' s' executed =>
      refine Ordered.exec ?_ executed
      refine ok.setPoint rfl rfl ?_
      intro _ q rest _ other
      cases other
  | stopPush i r free at' indirect =>
      have direct := inv.isDirect_self (i := i) (by simp [at'])
      rw [indirect] at direct
      cases direct
  | addEvent i r free at' =>
      refine ok.setPoint rfl rfl ?_
      intro _ q rest _ other
      cases other
  | drained i q free at' =>
      refine ok.setPoint rfl rfl ?_
      intro _ q rest _ other
      cases other
  | drainFront i q f rest free at' s' executed =>
      refine Ordered.exec ?_ executed
      refine ok.setPoint rfl rfl ?_
      intro j q' rest' here same
      cases same
      exact (ok.drains i q (f :: rest) at').2
  | cleanupDisposes th frame rest d ready at' running kind disposable =>
      exact ((ok.use frame.task.id).use d).plainFrame (Thread.ready_iff.mp ready) at'
        (by simp [kind]) rfl rfl trivial
  | cleanupWaits th frame rest d ready at' running kind =>
      have idle := Thread.ready_iff.mp ready
      refine ((ok.use frame.task.id).use d).plainFrame idle at' (by simp [kind]) rfl rfl ?_
      change CallOrdered mode _ _ (s.threads th).call
      rw [idle]
      trivial
  | diskHandled th frame rest ready at' running kind =>
      have idle := Thread.ready_iff.mp ready
      refine (ok.use frame.task.id).plainFrame idle at' (by simp [kind]) rfl rfl ?_
      change CallOrdered mode _ _ (s.threads th).call
      rw [idle]
      trivial
  | continues th frame rest ready at' returned =>
      have idle := Thread.ready_iff.mp ready
      have used := ok.use frame.task.id
      by_cases updates : frame.Updates frame.task.id
      · have own := (inv.placed.threads th).frames frame (by rw [at']; exact List.mem_cons_self)
        exact used.continues idle at' updates.2.1 (own updates.2.1)
      · refine Ordered.startWatcher (used.pop idle at' updates) ?_ _ _
        simpa [State.setThread] using idle
  | finishes th frame rest ready at' returned autoDelete =>
      have idle := Thread.ready_iff.mp ready
      have used := ok.use frame.task.id
      by_cases updates : frame.Updates frame.task.id
      · exact used.finishes idle at' updates.2.1
      · refine ((used.pop idle at' updates).modify frame.task.id Task.finish
          fun _ => rfl).removeEventTask ?_ _
        simpa [State.setThread] using idle
  | givesBack th frame rest ready at' returned autoDelete =>
      have popped := (ok.use frame.task.id).pop (Thread.ready_iff.mp ready) at' (by
        intro updates
        have before := (ok.threads th).frames frame (by rw [at']; exact List.mem_cons_self)
        rw [(before updates.2.2).2 returned] at autoDelete
        cases autoDelete)
      exact popped.congr rfl rfl (fun other => ⟨_, rfl⟩) popped.unassigned
  | fire i r free at' active =>
      refine (ok.use r.id).setPoint rfl rfl ?_
      intro _ q rest _ other
      cases other
  | drain i q free at' own => exact ok.drain inv.placed at' own
  | enterLoop i free at' leads =>
      refine ok.setPoint rfl rfl ?_
      intro _ q rest _ other
      cases other
  | leaveLoop i free at' =>
      refine ok.setPoint rfl rfl ?_
      intro _ q rest _ other
      cases other
  | handle i r rest free at' events =>
      rcases Thread.free_iff.mp free with ⟨idle, frames⟩
      refine ok.thread ⟨?_, fun frame member => ?_⟩ ?_ ?_
      · change CallOrdered mode s _ (s.threads (.inl i)).call
        rw [idle]
        trivial
      · rw [List.mem_singleton.mp member]
        intro updated
        cases updated
      · intro j q drained here atPoint
        exact ok.drains j q drained (here ▸ atPoint)
      · intro q t _ _ _ follows
        rcases follows with ⟨frame, member, _⟩ | called
        · rw [frames] at member
          cases member
        · exact .inr called
  | returns th frame rest cont ready at' running kind kept =>
      have idle := Thread.ready_iff.mp ready
      have used := ok.use frame.task.id
      have before := (used.threads th).frames frame (by
        rw [State.modify_threads, at']
        exact List.mem_cons_self)
      refine used.handler idle at' rfl ?_ ?_ (fun other => List.mem_cons_of_mem _) ?_
      · change CallOrdered mode _ _ (s.threads th).call
        rw [idle]
        trivial
      · intro other member
        rcases List.mem_cons.mp member with rfl | inside
        · refine .inr fun updated => ⟨(before updated).1, fun ended => ?_⟩
          rcases kept updated with continues | autoDelete
          · rw [continues] at ended
            cases ended
          · exact autoDelete
        · exact .inl inside
      · intro q _ _ updates
        exact .inl ⟨_, List.mem_cons_self, updates⟩
  | update th frame rest ready at' running kind =>
      have idle := Thread.ready_iff.mp ready
      have used := ok.use frame.task.id
      refine used.handler idle at' rfl ?_ ?_ (fun other => List.mem_cons_of_mem _) ?_
      · exact ⟨_, List.mem_cons_self, ⟨rfl, kind, rfl⟩, rfl⟩
      · intro other member
        rcases List.mem_cons.mp member with rfl | inside
        · refine .inr fun _ => ⟨kind, fun ended => ?_⟩
          rw [running] at ended
          cases ended
        · exact .inl inside
      · intro q _ _ updates
        exact .inl ⟨_, List.mem_cons_self, ⟨rfl, kind, rfl⟩⟩
  | disable th frame rest ready at' running kind => exact ok.modify _ _ fun _ => rfl
  | enable t disabled => exact ok.modify _ _ fun _ => rfl
  | user th w ready =>
      exact ok.beginCall (Thread.ready_iff.mp ready) trivial
  | new kind kept immediate made =>
      refine ok.congr rfl rfl (fun other => ⟨_, rfl⟩) fun single t => ?_
      simp only [State.setTask, Function.update_apply]
      split
      · rfl
      · exact ok.unassigned single t
  | addTask th r ready owned s' added =>
      exact (ok.erase r).addEventTask (Thread.ready_iff.mp ready) added
  | addNet th w r ready owned kind =>
      exact (ok.erase r).beginCall (Thread.ready_iff.mp ready) trivial
  | addDisk th r ready owned kind =>
      exact ((ok.erase r).use r.id).beginCall (Thread.ready_iff.mp ready) trivial
  | free r owned disposable => exact (ok.erase r).modify _ _ fun _ => rfl
  | promote i j single leads at' free atOther freeOther => exact ok.promote inv.placed freeOther

end Steps

/-! ## Uses -/

/-- The task was not deleted. -/
def Alive (s : State n m) (t : Nat) : Prop := (s.tasks t).deletes + (s.tasks t).freed = 0

/-- No task was used after it was deleted. -/
def Unharmed (s : State n m) : Prop := ∀ t, (s.tasks t).misused = false

section Uses

variable {mode : Mode} {s s' : State n m} {hand : Nat → Stage → Nat} {t : Nat}

/-- What is in some place was not deleted. -/
theorem Accounts.alive (accounts : Accounts hand s) {g : Stage}
    (placed : 0 < s.tokens t g + hand t g) : Alive s t := by
  have unfinished := (accounts t).unfinished
  have finished := (accounts t).finished
  have bound := Bool.toNat_le (decide (t < s.made))
  rw [Alive]
  cases g <;> omega

/-- A task whose pointer is in some place was not deleted. -/
theorem Accounts.alive_own (accounts : Accounts hand s) {r : Ref}
    (placed : ∀ g, r.own r.id g ≤ s.tokens r.id g + hand r.id g) : Alive s r.id := by
  have own := r.own_add
  have io := placed .io
  have plain := placed .plain
  by_cases here : 0 < r.own r.id .io
  · exact accounts.alive (g := .io) (by omega)
  · exact accounts.alive (g := .plain) (by omega)

theorem Unharmed.modify (ok : Unharmed s) (t : Nat) (change : Task n → Task n)
    (kept : ∀ x, (change x).misused = x.misused) : Unharmed (s.modify t change) := by
  intro u
  rw [s.modify_field t change Task.misused kept u]
  exact ok u

theorem Unharmed.thread (ok : Unharmed s) (th : ThreadId n m) (x : Thread n) :
    Unharmed (s.setThread th x) := ok

/-- A task that was not deleted is used. -/
theorem Unharmed.use (ok : Unharmed s) (alive : Alive s t) (change : Task n → Task n)
    (used : ∀ x, (change x).misused = x.use.misused) : Unharmed (s.modify t change) := by
  intro u
  rw [State.modify_tasks]
  split
  · rw [used, Task.use, ok t, show (s.tasks t).deletes + (s.tasks t).freed = 0 from alive]
    rfl
  · exact ok u

/-- `assign_worker` uses a task that was not deleted. -/
theorem Unharmed.assign (ok : Unharmed s) (alive : Alive s t) {x : Task n} {w : Fin n}
    (assigned : (s.tasks t).use.assignWorker mode w = some x) : Unharmed (s.setTask t x) := by
  have kept := Task.assignWorker_field Task.misused (fun _ _ => rfl) assigned
  have used := ok.use alive Task.use fun _ => rfl
  intro u
  simp only [State.setTask, Function.update_apply]
  split
  · have here := used t
    rw [State.modify_tasks, if_pos rfl] at here
    exact kept.trans here
  · exact ok u

theorem Alive.modify {u : Nat} (alive : Alive s t) (change : Task n → Task n)
    (kept : ∀ x, (change x).deletes = x.deletes ∧ (change x).freed = x.freed) :
    Alive (s.modify u change) t := by
  rw [Alive, s.modify_field u change Task.deletes (fun x => (kept x).1) t,
    s.modify_field u change Task.freed (fun x => (kept x).2) t]
  exact alive

theorem Unharmed.startWatcher (ok : Unharmed s) {r : Ref} (alive : Alive s r.id)
    (th : ThreadId n m) (w : Fin n) : Unharmed (s.startWatcher th w r) := by
  have used := ok.use alive Task.use fun _ => rfl
  rcases s.startWatcher_cases th w r with ⟨_, eq⟩ | ⟨_, eq⟩ | ⟨_, _, eq⟩ <;> rw [eq]
  · exact used
  · exact used
  · exact used.modify r.id Task.clearImmediate fun _ => rfl

variable [NeZero n]

theorem Unharmed.addEventTask (ok : Unharmed s) {r : Ref} {th : ThreadId n m}
    (alive : Alive s r.id) (added : s.addEventTask mode th r = some s') : Unharmed s' := by
  simp only [State.addEventTask, Option.map_eq_some_iff] at added
  rcases added with ⟨x, assigned, rfl⟩
  have kept := Task.assignWorker_books assigned
  simp only [Task.books, Prod.mk.injEq] at kept
  refine Unharmed.startWatcher ?_ ?_ _ _
  · exact ok.assign alive assigned
  · rw [Alive, State.setTask_self, kept.2.1, kept.2.2.1]
    exact alive

theorem Unharmed.removeEventTask (ok : Unharmed s) (r : Ref) (th : ThreadId n m) :
    Unharmed (s.removeEventTask mode th r) := by
  cases kind : r.kind with
  | io =>
      simp only [State.removeEventTask, kind]
      split
      · exact ok
      · refine Unharmed.startWatcher (fun u => ?_) ?_ _ _
        · simp only [State.setTask, Function.update_apply]
          split
          · rfl
          · exact ok u
        · simp [Alive]
  | timer | cleanup d | disk =>
      simp only [State.removeEventTask, kind]
      exact ok.modify _ _ fun _ => rfl

/-- A functor uses tasks that were not deleted. -/
theorem Unharmed.exec (ok : Unharmed s) {i : Fin n} {f : Func n}
    (accounts : Accounts (fun t g => f.tokens t g) s) (noStop : f.isStop = false)
    (updated : ∀ t, f = .update t → Alive s t) (executed : s.exec mode i f = some s') :
    Unharmed s' := by
  have started (s : State n m) (r : Ref) (loop : Fin n) (ok : Unharmed s) :
      Unharmed (s.evStart r loop) := by
    unfold State.evStart
    split <;> exact ok
  have held (r : Ref) (accounts : Accounts (fun t g => r.tokens t g) s) : Alive s r.id := by
    apply accounts.alive_own
    intro g
    simp only [Ref.tokens]
    omega
  cases f with
  | start r =>
      simp only [State.exec, Option.some.injEq] at executed
      exact executed ▸ started _ _ _ (ok.use (held r accounts) Task.use fun _ => rfl)
  | stop t => cases noStop
  | update t =>
      simp only [State.exec, Option.some.injEq] at executed
      have used := ok.use (updated t rfl) Task.use fun _ => rfl
      exact executed ▸ used.modify t (Task.stray _) fun _ => rfl
  | dispose t =>
      simp only [State.exec, Option.some.injEq] at executed
      subst executed
      have alive : Alive s t := accounts.alive (g := .disposing) (by simp [Func.tokens])
      have used := ok.use alive Task.use fun _ => rfl
      apply Unharmed.modify _ t Task.delete fun _ => rfl
      exact used.modify t (Task.stray _) fun _ => rfl
  | add r w =>
      simp only [State.exec, Option.map_eq_some_iff] at executed
      rcases executed with ⟨x, assigned, rfl⟩
      exact started _ _ _ (ok.assign (held r accounts) assigned)
  | addEvent r | other =>
      simp only [State.exec, Option.some.injEq] at executed
      exact executed ▸ ok

omit [NeZero n] in
/-- The task of a handler was not deleted. -/
theorem Accounts.alive_frame (accounts : Accounts nothing s) {th : ThreadId n m}
    {frame : Frame n} (member : frame ∈ (s.threads th).frames) : Alive s frame.task.id := by
  apply accounts.alive_own
  intro g
  have counted := le_total_of_mem (Frame.tokens frame.task.id g) member
  have thread := le_sum (Thread.tokens frame.task.id g) s.threads th
  have own : frame.task.own frame.task.id g ≤ frame.tokens frame.task.id g := by
    rw [Frame.tokens]
    split
    · exact Nat.le_add_right ..
    · exact Nat.le_add_right ..
    · exact Nat.le_refl _
  simp only [State.tokens]
  simp only [Thread.tokens] at thread ⊢
  omega

omit [NeZero n] in
/-- The task that a `cleanup_task` is for was not deleted. -/
theorem Accounts.alive_target (accounts : Accounts nothing s) {th : ThreadId n m}
    {frame : Frame n} {rest : List (Frame n)} (at' : (s.threads th).frames = frame :: rest)
    (running : frame.result = none) {d : Nat} (kind : frame.task.kind = .cleanup d) :
    Alive s d := by
  apply accounts.alive (g := .cleaning)
  have thread := le_sum (Thread.tokens d .cleaning) s.threads th
  have counted : frame.task.target d .cleaning = 1 := by simp [Ref.target, kind]
  simp only [State.tokens]
  simp only [Thread.tokens, at', total_cons, Frame.tokens_running _ _ running, Ref.tokens]
    at thread ⊢
  omega

omit [NeZero n] in
/-- What a functor of `update_watcher` waits for was not deleted. -/
theorem Anchored.alive {q : Fin n} {rest : List (Func n)} (accounts : Accounts nothing s)
    (ok : Anchored mode s q (.update t :: rest))
    (placed : ∀ f ∈ rest, f.Bears t → Alive s t) : Alive s t := by
  rcases ok.1 t rfl with ⟨f, member, bears⟩ | ⟨_, _, frame | ⟨f, bears, called⟩⟩
  · exact placed f member bears
  · rcases frame with ⟨frame, member, same, _⟩
    exact same ▸ accounts.alive_frame member
  · rcases bears with ⟨g, positive⟩
    apply accounts.alive (g := g)
    have thread := le_sum (Thread.tokens t g) s.threads (.inl q)
    have held : (s.threads (.inl q)).call.tokens t g = f.tokens t g := by
      rcases called with called | called <;> rw [called] <;> rfl
    simp only [State.tokens]
    simp only [Thread.tokens] at thread ⊢
    omega

omit [NeZero n] in
/-- A functor of `update_watcher` that is drained uses a task that was not deleted. -/
theorem Ordered.alive_front (ok : Ordered mode s) (accounts : Accounts nothing s) {i q : Fin n}
    {rest : List (Func n)} (at' : (s.threads (.inl i)).point = .drain q (.update t :: rest)) :
    Alive s t := by
  refine Anchored.alive accounts (ok.drains i q _ at') fun f member bears => ?_
  rcases bears with ⟨g, positive⟩
  apply accounts.alive (g := g)
  simp only [State.tokens]
  rcases List.mem_append.mp member with drained | queued
  · have counted := le_total_of_mem (Func.tokens t g) drained
    have thread := le_sum (Thread.tokens t g) s.threads (.inl i)
    simp only [Thread.tokens, at', tokens_drain, total_cons] at thread ⊢
    omega
  · have counted := le_total_of_mem (Func.tokens t g) queued
    have queue := le_sum (total (Func.tokens t g)) s.queues q
    omega

/-- One step uses tasks that were not deleted. -/
theorem Unharmed.moves (ok : Unharmed s) (inv : Inv mode s) (ordered : Ordered mode s)
    (moves : Moves mode s s') : Unharmed s' := by
  have handled {th : ThreadId n m} {frame : Frame n} {rest : List (Frame n)}
      (at' : (s.threads th).frames = frame :: rest) : Alive s frame.task.id := by
    have inside : frame ∈ (s.threads th).frames := by
      rw [at']
      exact List.mem_cons_self
    exact inv.accounts.alive_frame inside
  have running {th : ThreadId n m} {frame : Frame n} {rest : List (Frame n)}
      (at' : (s.threads th).frames = frame :: rest) : Unharmed (s.modify frame.task.id Task.use) :=
    ok.use (handled at') Task.use fun _ => rfl
  have owned {r : Ref} (member : r ∈ s.owned) : Alive s r.id := by
    apply inv.accounts.alive_own
    intro g
    have counted := le_total_of_mem (Ref.tokens r.id g) member
    simp only [State.tokens]
    simp only [Ref.tokens] at counted ⊢
    omega
  have active {entry : Ref × Fin n} (member : entry ∈ s.watchers) : Alive s entry.1.id := by
    apply inv.accounts.alive_own
    intro g
    have counted := le_total_of_mem (fun other => other.1.tokens entry.1.id g) member
    simp only [State.tokens]
    simp only [Ref.tokens] at counted ⊢
    omega
  cases moves with
  | testDirect | testPush | push | addEvent | drained | drain | enterLoop | leaveLoop | handle
  | user | addNet | promote => exact ok
  | direct i f s' at' executed =>
      have call := (inv.placed.threads (.inl i)).call
      rw [at'] at call
      rcases inv.takeCall (.inl i) f fun t g => by rw [at']; rfl with ⟨_, taken⟩
      refine (ok.thread _ _).exec taken call.2 (fun t same => ?_) executed
      have updates := (ordered.threads (.inl i)).call
      rw [at', same] at updates
      rcases updates with ⟨frame, member, update⟩
      exact update.1 ▸ inv.accounts.alive_frame member
  | stopDirect i r free at' s' executed =>
      simp only [State.exec, Option.some.injEq] at executed
      have point := (inv.placed.threads (.inl i)).point
      rw [at'] at point
      rcases point with ⟨j, _, _, fired⟩
      have used := ok.use (active fired) Task.use fun _ => rfl
      exact executed ▸ used.modify r.id (Task.stray _) fun _ => rfl
  | stopPush => exact ok
  | drainFront i q f rest free at' s' executed =>
      have point := (inv.placed.threads (.inl i)).point
      rw [at'] at point
      have taken : Accounts (fun t g => f.tokens t g)
          (s.setThread (.inl i) { s.threads (.inl i) with point := .drain q rest }) := by
        apply inv.accounts.setThread
        intro t g
        simp [Thread.tokens, at', nothing]
        omega
      refine (ok.thread _ _).exec taken (point.2.2 f List.mem_cons_self) (fun t same => ?_) executed
      rw [same] at at'
      exact ordered.alive_front inv.accounts at'
  | cleanupDisposes th frame rest d ready at' isRunning kind =>
      have alive := (inv.accounts.alive_target at' isRunning kind).modify (u := frame.task.id)
        Task.use fun _ => ⟨rfl, rfl⟩
      exact (running at').use alive Task.use fun _ => rfl
  | cleanupWaits th frame rest d ready at' isRunning kind =>
      have alive := (inv.accounts.alive_target at' isRunning kind).modify (u := frame.task.id)
        Task.use fun _ => ⟨rfl, rfl⟩
      exact (running at').use alive Task.use fun _ => rfl
  | diskHandled th frame rest ready at' => exact running at'
  | continues th frame rest ready at' returned =>
      refine ((running at').thread _ _).startWatcher ?_ _ _
      exact (handled at').modify Task.use fun _ => ⟨rfl, rfl⟩
  | finishes th frame rest ready at' =>
      have popped := (running at').thread th { s.threads th with frames := rest }
      exact (popped.modify frame.task.id Task.finish fun _ => rfl).removeEventTask _ _
  | givesBack th frame rest ready at' => exact running at'
  | fire i r free at' fired => exact ok.use (active fired) Task.use fun _ => rfl
  | returns th frame rest cont ready at' => exact running at'
  | update th frame rest ready at' => exact running at'
  | disable th frame rest ready at' => exact ok.use (handled at') Task.disableDispose fun _ => rfl
  | enable t disabled =>
      have locked := (inv.accounts t).interlock disabled
      have alive : Alive s t := by
        rw [Alive]
        omega
      exact ok.use alive Task.enableDispose fun _ => rfl
  | new kind kept immediate made =>
      intro u
      simp only [State.setTask, Function.update_apply]
      split
      · rfl
      · exact ok u
  | addTask th r ready member s' added =>
      have erased : Unharmed { s with owned := s.owned.erase r } := ok
      exact erased.addEventTask (owned member) added
  | addDisk th r ready member => exact ok.use (owned member) Task.use fun _ => rfl
  | free r member => exact ok.use (owned member) Task.free fun _ => rfl

end Uses

/-! ## Every run -/

section Runs

variable [NeZero n] {mode : Mode} {s : State n m}

theorem reachable_ordered (reachable : (system (n := n) (m := m) mode).Reachable s) :
    Ordered mode s := by
  refine reachable.invariant (Ordered mode) ?_ fun before ok stepped =>
    ok.moves (reachable_inv before) (moves_of_step stepped)
  refine ⟨fun _ => trivial, fun _ _ _ other => ?_,
    fun _ => ⟨trivial, fun _ member => absurd member List.not_mem_nil⟩, fun _ _ => rfl⟩
  cases other

/-- **No use after deletion.**  In no run a callback, a functor, `exec_event_handler`, a
`cleanup_task` or a call of the user touches a task that was deleted. -/
theorem never_used_after_delete (reachable : (system (n := n) (m := m) mode).Reachable s)
    (t : Nat) : (s.tasks t).misused = false := by
  have unharmed : Unharmed s := by
    refine reachable.invariant Unharmed (fun _ => rfl) fun before ok stepped => ?_
    exact ok.moves (reachable_inv before) (reachable_ordered before) (moves_of_step stepped)
  exact unharmed t

end Runs

theorem never_used_after_delete_cleanup : ∃ s : State 2 1, (system .singleLoop).Reachable s ∧
    (s.tasks 0).deletes = 1 ∧ (s.tasks 0).misused = false := by
  have run : ((system (n := 2) (m := 1) .singleLoop).exec cleanupRun
      (system .singleLoop).init).any (fun s => (s.tasks 0).deletes == 1) = true := by
    decide +kernel
  rcases System.exists_reachable_of_exec run with ⟨s, reachable, deleted⟩
  exact ⟨s, reachable, beq_iff_eq.mp deleted, never_used_after_delete reachable 0⟩

end LibTasks.Lifecycle

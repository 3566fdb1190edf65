import LibTasks.Net.ThriftProcessor

/-!
# The handlers of a processor

The watcher of the processor, its events, their handling, the functors that start or
dispose, and the watcher of the `cleanup_task` are stations of one token, which is at one
place at a time.  A request is therefore passed to its handler by one thread, and the
processor is not deleted meanwhile.  Nothing like that protects the handler from the next
packet: the watcher is started again while the handler runs, and `handle_request` replaces
`m_handler`.
-/

namespace LibTasks.Net.ThriftProcessor

open LibTasks.Foundation

/-! ## The token -/

inductive Place where
  | active
  | timer
  | gone
  | thread (i : Nat)
  | queue (q : Nat)
  deriving DecidableEq, Repr

def Func.tokens : Func → Nat
  | .send => 0
  | _ => 1

/-- Where a functor takes the token. -/
def Func.place : Func → Place
  | .start => .active
  | .startTimer => .timer
  | .send | .dispose => .gone

def funcTokens (fs : List Func) : Nat := (fs.map Func.tokens).sum

def Point.tokens : Point → Nat
  | .away | .loop => 0
  | .drain rest => funcTokens rest
  | _ => 1

def Call.tokens : Call → Nat
  | .idle => 0
  | .test f | .push f => f.tokens

def Thread.tokens (x : Thread) : Nat := x.point.tokens + x.call.tokens + x.events.length

def State.tokens (s : State) : Place → Nat
  | .active => s.processor.active.toNat
  | .timer => s.processor.timer.toNat
  | .gone => s.processor.deleted.toNat
  | .thread i => (s.threads i).tokens
  | .queue q => funcTokens (s.queues q)

/-- The token is at a place, and nowhere else. -/
def Located (s : State) (place : Place) : Prop :=
  ∀ p, s.tokens p = if p = place then 1 else 0

variable {cfg : Config} {s next : State} {place target : Place} {i : Nat} {x : Thread} {f : Func}

theorem Located.eq_of_ne_zero (located : Located s place) {p : Place} (here : s.tokens p ≠ 0) :
    p = place := by
  by_contra other
  exact here ((located p).trans (if_neg other))

theorem Located.eq_zero (located : Located s place) {p : Place} (other : p ≠ place) :
    s.tokens p = 0 :=
  (located p).trans (if_neg other)

theorem Located.le_one (located : Located s place) (p : Place) : s.tokens p ≤ 1 := by
  rw [located p]
  split <;> decide

theorem Located.same (located : Located s place) (same : ∀ p, next.tokens p = s.tokens p) :
    Located next place :=
  fun p => (same p).trans (located p)

theorem Located.move (located : Located s place)
    (arrives : ∀ p, next.tokens p = if p = target then 1 else if p = place then 0 else s.tokens p) :
    Located next target := by
  intro p
  rw [arrives p]
  split
  · rfl
  · split
    · rfl
    · next other => exact located.eq_zero other

theorem tokens_setThread (s : State) (i : Nat) (x : Thread) (p : Place) :
    (s.setThread i x).tokens p = if p = .thread i then x.tokens else s.tokens p := by
  cases p with
  | thread j =>
      simp only [State.tokens, State.setThread, Function.update_apply, Place.thread.injEq]
      split <;> rfl
  | _ => rfl

theorem funcTokens_append (fs : List Func) (f : Func) :
    funcTokens (fs ++ [f]) = funcTokens fs + f.tokens := by
  simp [funcTokens]

theorem funcTokens_cons (f : Func) (fs : List Func) :
    funcTokens (f :: fs) = f.tokens + funcTokens fs := rfl

theorem tokens_push (s : State) (w : Nat) (f : Func) (p : Place) :
    (s.push w f).tokens p = if p = .queue w then s.tokens p + f.tokens else s.tokens p := by
  cases p with
  | queue q =>
      simp only [State.tokens, State.push, Function.update_apply, Place.queue.injEq]
      split
      · next same => rw [same, funcTokens_append]
      · rfl
  | _ => rfl

theorem tokens_exec_send (s : State) (p : Place) : (s.exec .send).tokens p = s.tokens p := by
  rw [State.exec]
  split <;> cases p <;> rfl

theorem tokens_exec (s : State) (token : f.tokens = 1) (inactive : s.processor.active = false)
    (p : Place) : (s.exec f).tokens p = if p = f.place then 1 else s.tokens p := by
  cases f with
  | send => cases token
  | dispose => cases p <;> simp [State.exec, State.tokens, Func.place, inactive]
  | _ => cases p <;> simp [State.exec, State.tokens, Func.place]

/-- A thread executes a functor. -/
theorem Located.exec (located : Located s place)
    (had : (s.threads i).tokens = x.tokens + f.tokens) :
    ∃ place, Located ((s.setThread i x).exec f) place := by
  by_cases isSend : f = .send
  · subst isSend
    refine ⟨place, located.same fun p => ?_⟩
    rw [tokens_exec_send, tokens_setThread]
    split
    · next own =>
        rw [own]
        exact had.symm
    · rfl
  · have token : f.tokens = 1 := by
      cases f with
      | send => exact absurd rfl isSend
      | _ => rfl
    have bound := located.le_one (.thread i)
    have tokens : s.tokens (.thread i) = x.tokens + 1 := had.trans (by rw [token])
    have here := located.eq_of_ne_zero (p := .thread i) (by omega)
    subst here
    have inactive : s.processor.active = false := by
      have zero := located.eq_zero (p := .active) nofun
      simpa [State.tokens] using zero
    refine ⟨f.place, located.move fun p => ?_⟩
    rw [tokens_exec _ token (by exact inactive), tokens_setThread]
    split
    · rfl
    · split
      · omega
      · rfl

/-- A thread goes on and keeps its tokens. -/
theorem Located.thread (located : Located s place)
    (threads : next.threads = Function.update s.threads i x)
    (queues : next.queues = s.queues) (active : next.processor.active = s.processor.active)
    (timer : next.processor.timer = s.processor.timer)
    (deleted : next.processor.deleted = s.processor.deleted)
    (kept : x.tokens = (s.threads i).tokens) : Located next place := by
  refine located.same fun p => ?_
  cases p with
  | thread j =>
      simp only [State.tokens, threads, Function.update_apply]
      split
      · next own => rw [own, kept]
      · rfl
  | active => exact congrArg Bool.toNat active
  | timer => exact congrArg Bool.toNat timer
  | gone => exact congrArg Bool.toNat deleted
  | queue q => simp only [State.tokens, queues]

theorem tokens_of_isPlain {p : Point} (plain : p.isPlain = true) : p.tokens = p.handles.toNat := by
  cases p with
  | drain | parse | disable | serve => cases plain
  | _ => rfl

theorem Ev.point_tokens (e : Ev) : e.point.tokens = 1 := by
  cases e <;> rfl

/-- A watcher becomes inactive, and its event is added. -/
theorem Located.fired (located : Located s place) {e : Ev}
    (threads : next.threads = Function.update s.threads i
      { s.threads i with events := (s.threads i).events ++ [e] })
    {watcher : Place} (here : s.tokens watcher = 1)
    (fired : next.tokens watcher = 0) (isWatcher : ∀ j, watcher ≠ .thread j)
    (others : ∀ p, p ≠ watcher → (∀ j, p ≠ .thread j) → next.tokens p = s.tokens p) :
    Located next (.thread i) := by
  have isHere := located.eq_of_ne_zero (p := watcher) (by rw [here]; nofun)
  subst isHere
  refine located.move fun p => ?_
  split
  · next own =>
      subst own
      have empty : (s.threads i).tokens = 0 := located.eq_zero (p := .thread i) (isWatcher i).symm
      simp only [Thread.tokens] at empty
      simp only [State.tokens, threads, Function.update_self, Thread.tokens, List.length_append,
        List.length_singleton]
      omega
  · next notOwn =>
      split
      · next isWatcher => rw [isWatcher, fired]
      · next notWatcher =>
          cases p with
          | thread j =>
              have other : j ≠ i := fun same => notOwn (congrArg Place.thread same)
              simp only [State.tokens, threads, Function.update_of_ne other]
          | _ => exact others _ notWatcher nofun

theorem located_of_moves {action : Action} (located : Located s place)
    (moves : Moves cfg s action next) : ∃ place, Located next place := by
  cases moves with
  | lead => exact ⟨place, located.same fun p => by cases p <;> rfl⟩
  | @goto _ i p idle plain other handles =>
      refine ⟨place, located.thread (i := i) rfl rfl rfl rfl rfl ?_⟩
      have kept : p.tokens = (s.threads i).point.tokens := by
        rcases other with here | isPlain
        · rw [here] at handles
          rw [tokens_of_isPlain plain, handles, here]
          rfl
        · rw [tokens_of_isPlain plain, tokens_of_isPlain isPlain, handles]
      simp only [Thread.tokens, kept]
  | fire isActive =>
      have here : s.tokens .active = 1 := by
        simp only [State.tokens, isActive, Bool.toNat_true]
      refine ⟨_, located.fired rfl here rfl nofun fun p other notThread => ?_⟩
      cases p with
      | active => exact absurd rfl other
      | thread j => exact absurd rfl (notThread j)
      | _ => rfl
  | fireTimer isActive =>
      have here : s.tokens .timer = 1 := by
        simp only [State.tokens, isActive, Bool.toNat_true]
      refine ⟨_, located.fired rfl here rfl nofun fun p other notThread => ?_⟩
      cases p with
      | timer => exact absurd rfl other
      | thread j => exact absurd rfl (notThread j)
      | _ => rfl
  | @drain i q bound here =>
      have point : (s.threads i).point.tokens = 0 := by rw [here]; rfl
      by_cases empty : funcTokens (s.queues q) = 0
      · refine ⟨place, located.same fun p => ?_⟩
        rw [tokens_setThread]
        split
        · next own =>
            subst own
            change funcTokens (s.queues q) + _ + _ = (s.threads i).point.tokens + _ + _
            rw [empty, point]
        · cases p with
          | queue v =>
              simp only [State.tokens, Function.update_apply]
              split
              · next same =>
                  rw [same, empty]
                  rfl
              · rfl
          | _ => rfl
      · have isHere := located.eq_of_ne_zero (p := .queue q) empty
        subst isHere
        have one : funcTokens (s.queues q) = 1 := (located (.queue q)).trans (if_pos rfl)
        have none : (s.threads i).tokens = 0 := located.eq_zero (p := .thread i) nofun
        simp only [Thread.tokens] at none
        refine ⟨.thread i, located.move fun p => ?_⟩
        rw [tokens_setThread]
        split
        · simp only [Thread.tokens, Point.tokens, one]
          omega
        · cases p with
          | queue v =>
              simp only [State.tokens, Function.update_apply, Place.queue.injEq]
              split
              · rfl
              · rfl
          | _ => rfl
  | execFront here =>
      apply located.exec
      simp only [Thread.tokens, here, Point.tokens, funcTokens_cons]
      omega
  | direct here =>
      apply located.exec
      simp only [Thread.tokens, here, Call.tokens]
      omega
  | notDirect here =>
      refine ⟨place, located.thread rfl rfl rfl rfl rfl ?_⟩
      simp only [Thread.tokens, here, Call.tokens]
  | @push i f here =>
      have had : (s.threads i).tokens =
          Thread.tokens { s.threads i with call := .idle } + f.tokens := by
        simp only [Thread.tokens, here, Call.tokens]
        omega
      by_cases isSend : f = .send
      · subst isSend
        refine ⟨place, located.same fun p => ?_⟩
        rw [tokens_push, tokens_setThread]
        split
        · next queue =>
            subst queue
            rfl
        · split
          · next own =>
              subst own
              exact had.symm
          · rfl
      · have token : f.tokens = 1 := by
          cases f with
          | send => exact absurd rfl isSend
          | _ => rfl
        have bound := located.le_one (.thread i)
        have tokens : s.tokens (.thread i) = _ := had
        have isHere := located.eq_of_ne_zero (p := .thread i) (by omega)
        subst isHere
        refine ⟨.queue i, located.move fun p => ?_⟩
        rw [tokens_push, tokens_setThread]
        split
        · next queue =>
            subst queue
            have empty : s.tokens (.queue i) = 0 := located.eq_zero nofun
            rw [if_neg (by nofun), empty, token]
        · split
          · omega
          · rfl
  | handle here event =>
      refine ⟨place, located.thread rfl rfl rfl rfl rfl ?_⟩
      have point : (s.threads _).point.tokens = 0 := congrArg Point.tokens here
      simp only [Thread.tokens, event, Ev.point_tokens, point, List.length_cons]
      omega
  | fail here =>
      refine ⟨place, located.thread rfl rfl rfl rfl rfl ?_⟩
      rcases here with here | here <;> simp only [Thread.tokens, here, Point.tokens]
  | reset here | parse here | refuse here | disable here | serve here =>
      refine ⟨place, located.thread rfl rfl rfl rfl rfl ?_⟩
      simp only [Thread.tokens, here, Point.tokens]
  | rearm here idle =>
      refine ⟨place, located.thread rfl rfl rfl rfl rfl ?_⟩
      simp only [Thread.tokens, here, idle, Point.tokens, Call.tokens, Func.tokens]
  | dispose here idle | retry here idle =>
      refine ⟨place, located.thread rfl rfl rfl rfl rfl ?_⟩
      rcases here with here | here <;>
        simp only [Thread.tokens, here, idle, Point.tokens, Call.tokens, Func.tokens]
  | request finishes =>
      refine ⟨place, located.same fun p => ?_⟩
      cases finishes with
      | push =>
          change (s.push _ .send).tokens p = s.tokens p
          rw [tokens_push]
          split <;> rfl
      | _ => cases p <;> rfl

/-! ## Disposal -/

/-- A functor that disposes the processor is on its way through the thread. -/
def Thread.disposes (x : Thread) : Prop :=
  x.call = .test .dispose ∨ x.call = .push .dispose ∨
    ∃ rest, x.point = .drain rest ∧ .dispose ∈ rest

/-- The processor was deleted, or will be. -/
def Disposing (s : State) : Prop :=
  s.processor.deleted = true ∨ (∃ q, Func.dispose ∈ s.queues q) ∨ ∃ i, (s.threads i).disposes

theorem funcTokens_ne_zero {fs : List Func} (member : .dispose ∈ fs) : funcTokens fs ≠ 0 := by
  have one : 1 ≤ funcTokens fs :=
    List.single_le_sum (fun _ _ => Nat.zero_le _) 1 (List.mem_map.mpr ⟨.dispose, member, rfl⟩)
  exact Nat.ne_of_gt one

theorem Thread.tokens_of_disposes (disposes : x.disposes) (handles : x.point.handles = true) :
    2 ≤ x.tokens := by
  have point : x.point.tokens = 1 := by
    cases here : x.point with
    | away | loop | drain => simp [here, Point.handles] at handles
    | _ => rfl
  rcases disposes with call | call | ⟨rest, here, _⟩
  · simp only [Thread.tokens, point, call, Call.tokens, Func.tokens]
    omega
  · simp only [Thread.tokens, point, call, Call.tokens, Func.tokens]
    omega
  · rw [here] at handles
    cases handles

theorem Thread.tokens_ne_zero (disposes : x.disposes) : x.tokens ≠ 0 := by
  rcases disposes with call | call | ⟨rest, here, member⟩
  · simp [Thread.tokens, call, Call.tokens, Func.tokens]
  · simp [Thread.tokens, call, Call.tokens, Func.tokens]
  · simp only [Thread.tokens, here, Point.tokens]
    have := funcTokens_ne_zero member
    omega

theorem Point.tokens_of_handles {p : Point} (handles : p.handles = true) : p.tokens = 1 := by
  cases p with
  | away | loop | drain => cases handles
  | _ => rfl

theorem Located.eq_of_handles (located : Located s place)
    (handles : (s.threads i).point.handles = true) : place = .thread i := by
  refine (located.eq_of_ne_zero ?_).symm
  simp only [State.tokens, Thread.tokens, Point.tokens_of_handles handles]
  omega

/-- One thread at most handles an event. -/
theorem Located.not_handles (located : Located s place)
    (handles : (s.threads i).point.handles = true) {j : Nat} (other : j ≠ i) :
    (s.threads j).point.handles = false := by
  cases same : (s.threads j).point.handles with
  | false => rfl
  | true =>
      have first := located.eq_of_handles handles
      have second := located.eq_of_handles same
      exact absurd (Place.thread.inj (second.symm.trans first)) other

/-- While an event is handled, the processor is not disposed. -/
theorem Located.not_disposing (located : Located s place)
    (handles : (s.threads i).point.handles = true) : ¬ Disposing s := by
  have here := located.eq_of_handles handles
  subst here
  rintro (deleted | ⟨q, member⟩ | ⟨j, disposes⟩)
  · have gone := located.eq_zero (p := .gone) nofun
    simp [State.tokens, deleted] at gone
  · exact funcTokens_ne_zero member (located.eq_zero (p := .queue q) nofun)
  · have own := located.eq_of_ne_zero (p := .thread j) (Thread.tokens_ne_zero disposes)
    cases own
    have two := Thread.tokens_of_disposes disposes handles
    have one := located.le_one (.thread i)
    simp only [State.tokens] at one
    omega

theorem Disposing.of_thread (disposing : Disposing next)
    (threads : next.threads = Function.update s.threads i x)
    (deleted : next.processor.deleted = true → Disposing s)
    (queues : ∀ q, Func.dispose ∈ next.queues q → Disposing s) (own : x.disposes → Disposing s) :
    Disposing s := by
  rcases disposing with gone | ⟨q, member⟩ | ⟨j, disposes⟩
  · exact deleted gone
  · exact queues q member
  · rw [threads, Function.update_apply] at disposes
    split at disposes
    · exact own disposes
    · exact .inr (.inr ⟨j, disposes⟩)

/-- A thread executes a functor. -/
theorem Disposing.of_exec (disposing : Disposing ((s.setThread i x).exec f))
    (front : f = .dispose → (s.threads i).disposes) (own : x.disposes → (s.threads i).disposes) :
    Disposing s := by
  refine disposing.of_thread (State.exec_threads ..) (fun gone => ?_) (fun q member => ?_)
    fun disposes => .inr (.inr ⟨i, own disposes⟩)
  · by_cases isDispose : f = .dispose
    · exact .inr (.inr ⟨i, front isDispose⟩)
    · rw [State.exec_deleted _ isDispose] at gone
      exact .inl gone
  · rw [State.exec_queues] at member
    exact .inr (.inl ⟨q, member⟩)

/-- The processor is disposed only where `can_dispose()` was found true. -/
theorem Moves.disposing {action : Action} (moves : Moves cfg s action next)
    (disposing : Disposing next) :
    Disposing s ∨ s.processor.canDispose = true ∧ ∃ i, action = .worker i ∧
      ((s.threads i).point = .remove ∨ (s.threads i).point = .cleanup) := by
  have gone : s.processor.deleted = true → Disposing s := .inl
  have queued : ∀ q, Func.dispose ∈ s.queues q → Disposing s :=
    fun q member => .inr (.inl ⟨q, member⟩)
  cases moves with
  | lead => exact .inl disposing
  | @goto _ i p idle plain =>
      refine .inl (disposing.of_thread rfl gone queued ?_)
      rintro (call | call | ⟨rest, here, _⟩)
      · cases idle.symm.trans call
      · cases idle.symm.trans call
      · cases here
        cases plain
  | @fire i | @fireTimer i =>
      exact .inl (disposing.of_thread rfl gone queued fun own => .inr (.inr ⟨i, own⟩))
  | @drain i q bound here =>
      refine .inl (disposing.of_thread rfl gone ?_ ?_)
      · apply (Function.forall_update_iff s.queues fun _ fs => .dispose ∈ fs → Disposing s).mpr
        exact ⟨nofun, fun v _ => queued v⟩
      · rintro (call | call | ⟨rest, same, member⟩)
        · exact .inr (.inr ⟨i, .inl call⟩)
        · exact .inr (.inr ⟨i, .inr (.inl call)⟩)
        · cases same
          exact queued q member
  | @execFront i f rest here =>
      refine .inl (disposing.of_exec ?_ ?_)
      · rintro rfl
        exact .inr (.inr ⟨_, here, List.mem_cons_self⟩)
      · rintro (call | call | ⟨others, same, member⟩)
        · exact .inl call
        · exact .inr (.inl call)
        · cases same
          exact .inr (.inr ⟨_, here, List.mem_cons_of_mem _ member⟩)
  | @direct i f here =>
      refine .inl (disposing.of_exec ?_ ?_)
      · rintro rfl
        exact .inl here
      · rintro (call | call | drains)
        · cases call
        · cases call
        · exact .inr (.inr drains)
  | @notDirect i f here =>
      refine .inl (disposing.of_thread rfl gone queued ?_)
      rintro (call | call | drains)
      · cases call
      · cases call
        exact .inr (.inr ⟨i, .inl here⟩)
      · exact .inr (.inr ⟨i, .inr (.inr drains)⟩)
  | @push i f here =>
      refine .inl (disposing.of_thread rfl gone ?_ ?_)
      · apply (Function.forall_update_iff s.queues fun _ fs => .dispose ∈ fs → Disposing s).mpr
        refine ⟨fun member => ?_, fun v _ => queued v⟩
        rcases List.mem_append.mp member with earlier | last
        · exact queued i earlier
        · cases List.mem_singleton.mp last
          exact .inr (.inr ⟨i, .inr (.inl here)⟩)
      · rintro (call | call | drains)
        · cases call
        · cases call
        · exact .inr (.inr ⟨i, .inr (.inr drains)⟩)
  | @handle i e rest =>
      refine .inl (disposing.of_thread rfl gone queued ?_)
      rintro (call | call | ⟨_, here, _⟩)
      · exact .inr (.inr ⟨i, .inl call⟩)
      · exact .inr (.inr ⟨i, .inr (.inl call)⟩)
      · cases e <;> cases here
  | @fail i | @reset i | @parse i | @refuse i | @disable i | @serve i =>
      refine .inl (disposing.of_thread rfl gone queued ?_)
      rintro (call | call | ⟨_, here, _⟩)
      · exact .inr (.inr ⟨i, .inl call⟩)
      · exact .inr (.inr ⟨i, .inr (.inl call)⟩)
      · cases here
  | rearm | retry =>
      refine .inl (disposing.of_thread rfl gone queued ?_)
      rintro (call | call | ⟨_, here, _⟩)
      · cases call
      · cases call
      · cases here
  | @dispose i here idle allowed => exact .inr ⟨allowed, i, rfl, here⟩
  | request finishes =>
      refine .inl ?_
      cases finishes with
      | @push w =>
          rcases disposing with deleted | ⟨q, member⟩ | disposes
          · exact .inl deleted
          · simp only [State.setRequest, State.push, Function.update_apply] at member
            split at member
            · next same =>
                subst same
                rcases List.mem_append.mp member with earlier | last
                · exact queued _ earlier
                · cases List.mem_singleton.mp last
            · exact queued q member
          · exact .inr (.inr disposes)
      | _ => exact disposing

/-! ## The invariant -/

/-- `service` was called, and the finish callback has not come to its end. -/
def Request.pending : Request → Bool
  | .none | .done => false
  | _ => true

/-- No handler is at work. -/
def Alone (s : State) : Prop := ∀ r, (s.requests r).pending = false

/-- What holds where a thread passes a request on. -/
def PointOk (s : State) : Point → Prop
  | .parse r _ => s.processor.handler = some r ∧ Alone s ∧ r < s.count
  | .disable r => s.processor.handler = some r ∧ Alone s ∧ r < s.count ∧
      s.processor.seqid = s.asked r
  | .serve r => s.processor.handler = some r ∧ Alone s ∧ r < s.count ∧
      s.processor.seqid = s.asked r ∧ s.processor.canDispose = false
  | _ => True

structure ReplyOk (s : State) (x : Reply) : Prop where
  bound : x.request < s.count
  tested : x.tested = some x.request
  handler : x.handler = some x.request
  seqid : x.seqid = s.asked x.request

structure Inv (s : State) : Prop where
  located : ∃ place, Located s place
  pending : ∀ r, (s.requests r).pending = true → s.processor.handler = some r ∧
    s.processor.seqid = s.asked r ∧ s.processor.canDispose = false
  closing : Disposing s → Alone s
  points : ∀ i, PointOk s (s.threads i).point
  bound : ∀ r, (s.requests r).pending = true → r < s.count
  tested : ∀ r tested, s.requests r = .writing tested → tested = some r
  replies : ∀ x ∈ s.replies, ReplyOk s x

theorem pointOk_of_not_handles {p : Point} (other : p.handles = false) : PointOk s p := by
  cases p with
  | away | loop | drain => trivial
  | _ => cases other

theorem pointOk_of_isPlain {p : Point} (plain : p.isPlain = true) : PointOk s p := by
  cases p with
  | drain | parse | disable | serve => cases plain
  | _ => trivial

/-- Where a handler is at work, no thread passes a request on. -/
theorem PointOk.of_pending {p : Point} (ok : PointOk s p) {r : Nat}
    (pending : (s.requests r).pending = true) : PointOk next p := by
  cases p with
  | parse | disable | serve => cases (ok.2.1 r).symm.trans pending
  | _ => trivial

/-- What the threads and the requests rely on stays as it is. -/
structure Same (s next : State) : Prop where
  handler : next.processor.handler = s.processor.handler
  seqid : next.processor.seqid = s.processor.seqid
  canDispose : next.processor.canDispose = s.processor.canDispose
  requests : next.requests = s.requests
  count : next.count = s.count
  asked : next.asked = s.asked
  replies : next.replies = s.replies

theorem PointOk.same {p : Point} (ok : PointOk s p) (same : Same s next) : PointOk next p := by
  cases p with
  | parse | disable | serve =>
      simpa only [PointOk, Alone, same.handler, same.seqid, same.canDispose, same.requests,
        same.count, same.asked] using ok
  | _ => trivial

theorem Inv.alone_of_disposing (inv : Inv s) {action : Action} (moves : Moves cfg s action next)
    (disposing : Disposing next) : Alone s := by
  rcases moves.disposing disposing with already | ⟨allowed, _⟩
  · exact inv.closing already
  · intro r
    cases pending : (s.requests r).pending with
    | false => rfl
    | true => cases (inv.pending r pending).2.2.symm.trans allowed

theorem Inv.same (inv : Inv s) {action : Action} (moves : Moves cfg s action next)
    (same : Same s next) (points : ∀ i, PointOk next (next.threads i).point) : Inv next where
  located := inv.located.elim fun _ located => located_of_moves located moves
  pending := by
    rw [same.requests, same.handler, same.seqid, same.canDispose, same.asked]
    exact inv.pending
  closing disposing := by
    rw [Alone, same.requests]
    exact inv.alone_of_disposing moves disposing
  points := points
  bound := by
    rw [same.requests, same.count]
    exact inv.bound
  tested := by
    rw [same.requests]
    exact inv.tested
  replies y member := by
    have ok := inv.replies y (same.replies ▸ member)
    exact ⟨same.count ▸ ok.bound, ok.tested, ok.handler, same.asked ▸ ok.seqid⟩

/-- A thread comes to a point where it does not pass a request on. -/
theorem Inv.goesOn (inv : Inv s) {action : Action} (moves : Moves cfg s action next)
    (same : Same s next) (threads : next.threads = Function.update s.threads i x)
    (own : PointOk next x.point) : Inv next := by
  apply inv.same moves same
  rw [threads]
  apply (Function.forall_update_iff s.threads fun _ y => PointOk next y.point).mpr
  exact ⟨own, fun j _ => (inv.points j).same same⟩

/-- A thread stays where it is. -/
theorem Inv.stays (inv : Inv s) {action : Action} (moves : Moves cfg s action next)
    (same : Same s next) (threads : next.threads = Function.update s.threads i x)
    (point : x.point = (s.threads i).point) : Inv next :=
  inv.goesOn moves same threads (point ▸ (inv.points i).same same)

theorem same_exec (s : State) (i : Nat) (x : Thread) (other : f ≠ .dispose) :
    Same s ((s.setThread i x).exec f) where
  handler := State.exec_handler _ other
  seqid := State.exec_seqid ..
  canDispose := State.exec_canDispose ..
  requests := State.exec_requests ..
  count := State.exec_count ..
  asked := State.exec_asked ..
  replies := State.exec_replies ..

/-- While the processor is disposed, no event is handled. -/
theorem Inv.not_handles (inv : Inv s) (disposing : Disposing s) (j : Nat) :
    (s.threads j).point.handles = false := by
  rcases inv.located with ⟨place, located⟩
  cases handles : (s.threads j).point.handles with
  | false => rfl
  | true => exact absurd disposing (located.not_disposing handles)

/-- A thread executes a functor. -/
theorem Inv.exec (inv : Inv s) {action : Action}
    (moves : Moves cfg s action ((s.setThread i x).exec f))
    (disposing : f = .dispose → Disposing s)
    (own : PointOk ((s.setThread i x).exec f) x.point) : Inv ((s.setThread i x).exec f) := by
  by_cases isDispose : f = .dispose
  · subst isDispose
    have closing := disposing rfl
    have alone := inv.closing closing
    have notPending (r : Nat) (pending : (s.requests r).pending = true) {p : Prop} : p := by
      cases (alone r).symm.trans pending
    refine ⟨inv.located.elim fun _ located => located_of_moves located moves,
      fun r pending => notPending r pending, fun _ => alone, ?_,
      fun r pending => notPending r pending, inv.tested, fun y member => ?_⟩
    · apply (Function.forall_update_iff s.threads fun _ y =>
        PointOk ((s.setThread i x).exec .dispose) y.point).mpr
      exact ⟨own, fun j _ => pointOk_of_not_handles (inv.not_handles closing j)⟩
    · exact ⟨(inv.replies y member).bound, (inv.replies y member).tested,
        (inv.replies y member).handler, (inv.replies y member).seqid⟩
  · exact inv.goesOn moves (same_exec s i x isDispose) (State.exec_threads ..) own

/-- No handler is at work, tested for the requests so far. -/
def State.alone (s : State) : Bool := (List.range s.count).all fun r => !(s.requests r).pending

theorem Inv.alone_iff (inv : Inv s) : s.alone = true ↔ Alone s := by
  simp only [State.alone, List.all_eq_true, List.mem_range, Bool.not_eq_true']
  refine ⟨fun alone r => ?_, fun alone r _ => alone r⟩
  cases pending : (s.requests r).pending with
  | false => rfl
  | true => cases pending.symm.trans (alone r (inv.bound r pending))

/-- `handle_request` is entered only where no handler is at work. -/
def startsAlone : Action → State → Bool
  | .worker i, s =>
      match (s.threads i).point with
      | .reset .. => s.alone
      | _ => true
  | _, _ => true

/-- A thread that handles an event passes a request on. -/
theorem Inv.passes (inv : Inv s) {action : Action} (moves : Moves cfg s action next)
    (handles : (s.threads i).point.handles = true)
    (threads : next.threads = Function.update s.threads i x)
    (pending : ∀ r, (next.requests r).pending = true → next.processor.handler = some r ∧
      next.processor.seqid = next.asked r ∧ next.processor.canDispose = false ∧ r < next.count)
    (own : PointOk next x.point)
    (tested : ∀ r tested, next.requests r = .writing tested → s.requests r = .writing tested)
    (count : s.count ≤ next.count) (asked : ∀ r < s.count, next.asked r = s.asked r)
    (replies : next.replies = s.replies) (notDisposing : ¬ Disposing next) : Inv next := by
  rcases inv.located with ⟨place, located⟩
  refine ⟨located_of_moves located moves, fun r isPending => ?_, fun d => absurd d notDisposing,
    ?_, fun r isPending => (pending r isPending).2.2.2,
    fun r handler here => inv.tested r handler (tested r handler here), fun y member => ?_⟩
  · exact ⟨(pending r isPending).1, (pending r isPending).2.1, (pending r isPending).2.2.1⟩
  · rw [threads]
    apply (Function.forall_update_iff s.threads fun _ y => PointOk next y.point).mpr
    exact ⟨own, fun j other => pointOk_of_not_handles (located.not_handles handles other)⟩
  · have ok := inv.replies y (replies ▸ member)
    exact ⟨Nat.lt_of_lt_of_le ok.bound count, ok.tested, ok.handler,
      ok.seqid.trans (asked _ ok.bound).symm⟩

/-- While an event is handled, no other step disposes the processor. -/
theorem Inv.not_disposing (inv : Inv s) {action : Action} (moves : Moves cfg s action next)
    (handles : (s.threads i).point.handles = true)
    (other : (s.threads i).point ≠ .remove ∧ (s.threads i).point ≠ .cleanup)
    (own : action = .worker i) : ¬ Disposing next := by
  intro disposing
  rcases moves.disposing disposing with already | ⟨_, j, isWorker, here⟩
  · rcases inv.located with ⟨place, located⟩
    exact located.not_disposing handles already
  · cases own.symm.trans isWorker
    rcases here with here | here
    · exact other.1 here
    · exact other.2 here

theorem Finishes.pending {r : Nat} (finishes : Finishes cfg s r next) :
    (s.requests r).pending = true := by
  cases finishes with
  | call here | test here | reply here | error here | check here | choose here | push here
  | enable here => simp only [here, Request.pending]

/-- The thread of a request goes on. -/
theorem Inv.request (inv : Inv s) {r : Nat} {y : Request} {t : State}
    (finishes : Finishes cfg s r (t.setRequest r y)) (threads : t.threads = s.threads)
    (requests : t.requests = s.requests) (count : t.count = s.count) (asked : t.asked = s.asked)
    (handler : t.processor.handler = s.processor.handler)
    (seqid : t.processor.seqid = s.processor.seqid)
    (canDispose : y.pending = true → t.processor.canDispose = s.processor.canDispose)
    (tested : ∀ handler, y = .writing handler → handler = some r)
    (replies : ∀ x ∈ t.replies, ReplyOk s x) : Inv (t.setRequest r y) := by
  have moves : Moves cfg s (.request r) (t.setRequest r y) := .request finishes
  have isPending := finishes.pending
  have held := inv.pending r isPending
  -- The handler belongs to one request only.
  have unique (v : Nat) (pending : (s.requests v).pending = true) : v = r :=
    Option.some.inj ((inv.pending v pending).1.symm.trans held.1)
  refine ⟨inv.located.elim fun _ located => located_of_moves located moves, ?_,
    fun disposing => ?_, fun i => ?_, ?_, ?_, fun x member => ?_⟩
  · apply (Function.forall_update_iff t.requests fun v y => y.pending = true →
      t.processor.handler = some v ∧ t.processor.seqid = t.asked v ∧
        t.processor.canDispose = false).mpr
    rw [requests, handler, seqid, asked]
    refine ⟨fun pending => ⟨held.1, held.2.1, (canDispose pending).trans held.2.2⟩,
      fun v other pending => absurd (unique v pending) other⟩
  · cases (inv.alone_of_disposing moves disposing r).symm.trans isPending
  · change PointOk (t.setRequest r y) (t.threads i).point
    rw [threads]
    exact (inv.points i).of_pending isPending
  · apply (Function.forall_update_iff t.requests fun v y => y.pending = true → v < t.count).mpr
    rw [requests, count]
    exact ⟨fun _ => inv.bound r isPending, fun v _ => inv.bound v⟩
  · apply (Function.forall_update_iff t.requests fun v y => ∀ handler, y = .writing handler →
      handler = some v).mpr
    rw [requests]
    exact ⟨tested, fun v _ => inv.tested v⟩
  · have ok := replies x member
    exact ⟨count.symm ▸ ok.bound, ok.tested, ok.handler, ok.seqid.trans (congrFun asked.symm _)⟩

theorem Inv.finishes (inv : Inv s) {r : Nat} (finishes : Finishes cfg s r next) : Inv next := by
  have isPending := finishes.pending
  have held := inv.pending r isPending
  have before := finishes
  cases finishes with
  | call | error | check | choose | push =>
      exact inv.request before rfl rfl rfl rfl rfl rfl (fun _ => rfl) nofun inv.replies
  | test =>
      refine inv.request before rfl rfl rfl rfl rfl rfl (fun _ => rfl) ?_ inv.replies
      rintro _ ⟨⟩
      exact held.1
  | @reply tested here =>
      refine inv.request before rfl rfl rfl rfl rfl rfl (fun _ => rfl) nofun fun x member => ?_
      rcases List.mem_append.mp member with earlier | last
      · exact inv.replies x earlier
      · cases List.mem_singleton.mp last
        exact ⟨inv.bound r isPending, inv.tested r tested here, held.1, held.2.1⟩
  | enable => exact inv.request before rfl rfl rfl rfl rfl rfl nofun nofun inv.replies

theorem Inv.moves (inv : Inv s) {action : Action} (alone : startsAlone action s = true)
    (moves : Moves cfg s action next) : Inv next := by
  have before := moves
  cases moves with
  | lead => exact inv.same before ⟨rfl, rfl, rfl, rfl, rfl, rfl, rfl⟩ inv.points
  | goto p idle plain =>
      exact inv.goesOn before ⟨rfl, rfl, rfl, rfl, rfl, rfl, rfl⟩ rfl (pointOk_of_isPlain plain)
  | fire | fireTimer | notDirect | push =>
      exact inv.stays before ⟨rfl, rfl, rfl, rfl, rfl, rfl, rfl⟩ rfl rfl
  | drain => exact inv.goesOn before ⟨rfl, rfl, rfl, rfl, rfl, rfl, rfl⟩ rfl trivial
  | @execFront i f rest here =>
      refine inv.exec before ?_ trivial
      rintro rfl
      exact .inr (.inr ⟨i, .inr (.inr ⟨_, here, List.mem_cons_self⟩)⟩)
  | @direct i f here =>
      have disposing : f = .dispose → Disposing s := by
        rintro rfl
        exact .inr (.inr ⟨i, .inl here⟩)
      apply inv.exec before disposing
      by_cases isDispose : f = .dispose
      · exact pointOk_of_not_handles (inv.not_handles (disposing isDispose) i)
      · exact (inv.points i).same (same_exec s i _ isDispose)
  | @handle i e rest =>
      refine inv.goesOn before ⟨rfl, rfl, rfl, rfl, rfl, rfl, rfl⟩ rfl (pointOk_of_isPlain ?_)
      cases e <;> rfl
  | fail | rearm | dispose | retry =>
      exact inv.goesOn before ⟨rfl, rfl, rfl, rfl, rfl, rfl, rfl⟩ rfl trivial
  | @reset i seqid valid here =>
      have isAlone : Alone s := by
        simp only [startsAlone, here] at alone
        exact inv.alone_iff.mp alone
      refine inv.passes before (by rw [here]; rfl) rfl ?_ ⟨rfl, isAlone, Nat.lt_succ_self _⟩
        (fun _ _ same => same) (Nat.le_succ _) ?_ rfl
        (inv.not_disposing before (by rw [here]; rfl) (by simp [here]) rfl)
      · intro r pending
        cases (isAlone r).symm.trans pending
      · exact fun r bound => Function.update_of_ne (Nat.ne_of_lt bound) ..
  | @parse i r here =>
      have ok := inv.points i
      rw [here] at ok
      refine inv.passes before (by rw [here]; rfl) rfl ?_ ⟨ok.1, ok.2.1, ok.2.2, rfl⟩
        (fun _ _ same => same) (Nat.le_refl _) (fun _ _ => rfl) rfl
        (inv.not_disposing before (by rw [here]; rfl) (by simp [here]) rfl)
      intro v pending
      cases (ok.2.1 v).symm.trans pending
  | @refuse i r here =>
      have ok := inv.points i
      rw [here] at ok
      refine inv.passes before (by rw [here]; rfl) rfl ?_ trivial
        (fun _ _ same => same) (Nat.le_refl _) (fun _ _ => rfl) rfl
        (inv.not_disposing before (by rw [here]; rfl) (by simp [here]) rfl)
      intro v pending
      cases (ok.2.1 v).symm.trans pending
  | @disable i r here =>
      have ok := inv.points i
      rw [here] at ok
      refine inv.passes before (by rw [here]; rfl) rfl ?_
        ⟨ok.1, ok.2.1, ok.2.2.1, ok.2.2.2, rfl⟩ (fun _ _ same => same) (Nat.le_refl _)
        (fun _ _ => rfl) rfl (inv.not_disposing before (by rw [here]; rfl) (by simp [here]) rfl)
      intro v pending
      cases (ok.2.1 v).symm.trans pending
  | @serve i r here =>
      have ok := inv.points i
      rw [here] at ok
      refine inv.passes before (by rw [here]; rfl) rfl ?_ trivial ?_ (Nat.le_refl _)
        (fun _ _ => rfl) rfl (inv.not_disposing before (by rw [here]; rfl) (by simp [here]) rfl)
      · apply (Function.forall_update_iff s.requests fun v y => y.pending = true →
          s.processor.handler = some v ∧ s.processor.seqid = s.asked v ∧
            s.processor.canDispose = false ∧ v < s.count).mpr
        refine ⟨fun _ => ⟨ok.1, ok.2.2.2.1, ok.2.2.2.2, ok.2.2.1⟩, fun v _ pending => ?_⟩
        cases (ok.2.1 v).symm.trans pending
      · apply (Function.forall_update_iff s.requests fun v y => ∀ tested, y = .writing tested →
          s.requests v = .writing tested).mpr
        exact ⟨nofun, fun v _ _ same => same⟩
  | request finishes => exact inv.finishes finishes

theorem inv_init (cfg : Config) : Inv (system cfg).init where
  located := by
    refine ⟨.active, fun p => ?_⟩
    cases p <;> rfl
  pending := nofun
  closing := fun _ _ => rfl
  points _ := trivial
  bound := nofun
  tested := nofun
  replies := nofun

/-! ## Whole runs -/

/-- The handler that is at work is `m_handler`, and each reply comes from the handler of its
own request and has its sequence id. -/
structure HandlersSafe (s : State) : Prop where
  serving : ∀ r, s.requests r = .serving → s.processor.handler = some r
  replies : ∀ x ∈ s.replies, x.tested = some x.request ∧ x.handler = some x.request ∧
    x.seqid = s.asked x.request

theorem Inv.handlersSafe (inv : Inv s) : HandlersSafe s where
  serving r here := (inv.pending r (by rw [here]; rfl)).1
  replies x member :=
    ⟨(inv.replies x member).tested, (inv.replies x member).handler, (inv.replies x member).seqid⟩

/-- If no packet is passed on while a handler is at work, every handler is kept until it has
finished, and every reply is its own. -/
theorem handlers_safe (cfg : Config) (actions : List Action)
    (alone : (system cfg).Along (fun action s => startsAlone action s = true) actions
      (system cfg).init) :
    (system cfg).Throughout HandlersSafe actions (system cfg).init := by
  apply System.throughout_of_along Inv Inv.handlersSafe _ (inv_init cfg) alone
  exact fun inv isAlone stepped => inv.moves isAlone (moves_of_step stepped)

/-- Worker 0 leads and reads a packet, and its handler is called. -/
def served (seqid : Int) : List Action :=
  [.enterLoop 0, .fire 0, .leaveLoop 0, .handle 0, .packet 0 seqid true, .worker 0, .worker 0,
    .worker 0, .worker 0, .worker 0, .call 0]

/-- A second request after the first one has finished. -/
def twiceRun : List Action :=
  List.flatten [[.promote 0], served 7, List.replicate 7 (.request 0), served 8,
    List.replicate 3 (.request 1)]

theorem handlers_safe_twice :
    ((system ⟨.singleLoop, 2, 0⟩).exec twiceRun (system ⟨.singleLoop, 2, 0⟩).init).any
        (fun s => s.replies == [⟨0, some 0, some 0, 7⟩, ⟨1, some 1, some 1, 8⟩]) = true ∧
      (system ⟨.singleLoop, 2, 0⟩).Throughout HandlersSafe twiceRun
        (system ⟨.singleLoop, 2, 0⟩).init :=
  ⟨by decide +kernel, handlers_safe _ _ (System.along_of_checkAlong (by decide +kernel))⟩

/-- The second packet arrives while the first handler is at work: `m_handler` is replaced, and
the reply to the first request comes from the second handler. -/
theorem handler_replaced :
    (∃ s, (system ⟨.singleLoop, 2, 0⟩).Reachable s ∧ s.requests 0 = .serving ∧
      s.processor.handler = some 1) ∧
    ∃ s, (system ⟨.singleLoop, 2, 0⟩).Reachable s ∧ s.replies = [⟨0, some 1, some 1, 8⟩] := by
  constructor
  · have run : ((system ⟨.singleLoop, 2, 0⟩).exec (List.flatten [[.promote 0], served 7, served 8])
        (system ⟨.singleLoop, 2, 0⟩).init).any
          (fun s => s.requests 0 == .serving && s.processor.handler == some 1) = true := by
      decide +kernel
    obtain ⟨s, reachable, test⟩ := System.exists_reachable_of_exec run
    simp only [Bool.and_eq_true, beq_iff_eq] at test
    exact ⟨s, reachable, test⟩
  · have run : ((system ⟨.singleLoop, 2, 0⟩).exec (List.flatten [[.promote 0], served 7, served 8,
        List.replicate 3 (.request 0)]) (system ⟨.singleLoop, 2, 0⟩).init).any
          (fun s => s.replies == [⟨0, some 1, some 1, 8⟩]) = true := by
      decide +kernel
    obtain ⟨s, reachable, test⟩ := System.exists_reachable_of_exec run
    exact ⟨s, reachable, beq_iff_eq.mp test⟩

end LibTasks.Net.ThriftProcessor

import LibTasks.Net.ThriftHandlers

/-!
# `send_response` and the deletion of the processor

The finish callback queues a functor that calls `send_response` and allows the disposal
right after that.  The functor that deletes the processor is queued for another worker, or
executed at once by the leader, so nothing orders the two.  They are in order if the
processor is only disposed when no `send_response` is outstanding.
-/

namespace LibTasks.Net.ThriftProcessor

open LibTasks.Foundation

/-- A functor that calls `send_response` is on its way through the thread. -/
def Thread.sends (x : Thread) : Bool :=
  match x.point with
  | .drain rest => rest.contains .send
  | _ => false

/-- No `send_response` is outstanding. -/
def Sent (s : State) : Prop :=
  (∀ q, Func.send ∉ s.queues q) ∧ ∀ i, (s.threads i).sends = false

/-- No `send_response` is outstanding, tested for the workers. -/
def State.sent (n : Nat) (s : State) : Bool :=
  (List.range n).all fun i => !(s.queues i).contains .send && !(s.threads i).sends

/-- A request is passed on only where no handler is at work, and the processor is disposed only
where no `send_response` is outstanding. -/
def inOrder (n : Nat) : Action → State → Bool
  | .worker i, s =>
      match (s.threads i).point with
      | .reset .. => s.alone
      | .remove | .cleanup => !s.processor.canDispose || s.sent n
      | _ => true
  | _, _ => true

/-- The invariant for `n` workers. -/
structure SendInv (n : Nat) (s : State) : Prop where
  inv : Inv s
  lastWorker : s.lastWorker < n
  chosen : ∀ r w, s.requests r = .pushing w → w < n
  queues : ∀ q, Func.send ∈ s.queues q → q < n
  threads : ∀ i, (s.threads i).sends = true → i < n
  calls : ∀ i, (s.threads i).call ≠ .test .send ∧ (s.threads i).call ≠ .push .send
  closing : Disposing s → Sent s
  sentLate : s.sentLate = false

variable {cfg : Config} {n i : Nat} {s next : State} {action : Action} {x : Thread} {f : Func}

theorem startsAlone_of_inOrder (order : inOrder n action s = true) :
    startsAlone action s = true := by
  cases action with
  | worker i =>
      simp only [inOrder] at order
      simp only [startsAlone]
      split at order <;> simp_all
  | _ => rfl

theorem SendInv.sent_iff (inv : SendInv n s) : s.sent n = true ↔ Sent s := by
  simp only [State.sent, List.all_eq_true, List.mem_range, Bool.and_eq_true, Bool.not_eq_true',
    List.contains_eq_mem, decide_eq_false_iff_not]
  constructor
  · intro sent
    refine ⟨fun q member => (sent q (inv.queues q member)).1 member, fun i => ?_⟩
    cases sends : (s.threads i).sends with
    | false => rfl
    | true => exact absurd sends (by simp [(sent i (inv.threads i sends)).2])
  · exact fun sent i _ => ⟨sent.1 i, sent.2 i⟩

theorem SendInv.sent_of_disposing (inv : SendInv n s) (order : inOrder n action s = true)
    (moves : Moves cfg s action next) (disposing : Disposing next) : Sent s := by
  rcases moves.disposing disposing with already | ⟨allowed, i, rfl, here⟩
  · exact inv.closing already
  · apply inv.sent_iff.mp
    rcases here with here | here <;> simpa [inOrder, here, allowed] using order

/-- A thread goes on. -/
theorem SendInv.thread (inv : SendInv n s) (order : inOrder n action s = true)
    (moves : Moves cfg s action next) (threads : next.threads = Function.update s.threads i x)
    (queues : ∀ q, Func.send ∈ next.queues q → Func.send ∈ s.queues q)
    (requests : ∀ r w, next.requests r = .pushing w → s.requests r = .pushing w)
    (lastWorker : next.lastWorker = s.lastWorker) (late : next.sentLate = s.sentLate)
    (sends : x.sends = true → i < n) (kept : Sent s → x.sends = false)
    (calls : x.call ≠ .test .send ∧ x.call ≠ .push .send) : SendInv n next where
  inv := inv.inv.moves (startsAlone_of_inOrder order) moves
  lastWorker := lastWorker ▸ inv.lastWorker
  chosen r w here := inv.chosen r w (requests r w here)
  queues q member := inv.queues q (queues q member)
  threads := by
    rw [threads]
    apply (Function.forall_update_iff s.threads fun j y => y.sends = true → j < n).mpr
    exact ⟨sends, fun j _ => inv.threads j⟩
  calls := by
    rw [threads]
    apply (Function.forall_update_iff s.threads fun _ y =>
      y.call ≠ .test .send ∧ y.call ≠ .push .send).mpr
    exact ⟨calls, fun j _ => inv.calls j⟩
  closing disposing := by
    have sent := inv.sent_of_disposing order moves disposing
    refine ⟨fun q member => sent.1 q (queues q member), ?_⟩
    rw [threads]
    apply (Function.forall_update_iff s.threads fun _ y => y.sends = false).mpr
    exact ⟨kept sent, fun j _ => sent.2 j⟩
  sentLate := late.trans inv.sentLate

theorem exec_sentLate (alive : f = .send → s.processor.deleted = false) :
    (s.exec f).sentLate = s.sentLate := by
  cases f with
  | send => simp [State.exec, alive rfl]
  | _ => rfl

theorem exec_lastWorker (s : State) (f : Func) : (s.exec f).lastWorker = s.lastWorker := by
  unfold State.exec
  split <;> (try split) <;> rfl

theorem sends_eq_false {p : Point} (other : ∀ rest, p ≠ .drain rest) {call : Call}
    {events : List Ev} : Thread.sends ⟨p, call, events⟩ = false := by
  cases p with
  | drain rest => exact absurd rfl (other rest)
  | _ => rfl

/-- Where a `send_response` is outstanding, the processor was not deleted. -/
theorem SendInv.alive (inv : SendInv n s) (sends : (s.threads i).sends = true) :
    s.processor.deleted = false := by
  cases deleted : s.processor.deleted with
  | false => rfl
  | true =>
      have sent := inv.closing (.inl deleted)
      cases (sent.2 i).symm.trans sends

theorem SendInv.finishes (inv : SendInv n s) (single : cfg.mode = .singleLoop) {r : Nat}
    (finishes : Finishes cfg s r next) : SendInv n next := by
  have moves : Moves cfg s (.request r) next := .request finishes
  have notDisposing : ¬ Disposing next := by
    intro disposing
    cases (inv.inv.alone_of_disposing moves disposing r).symm.trans finishes.pending
  have invNext := inv.inv.finishes finishes
  have requests {y : Request} (own : ∀ w, y = .pushing w → w < n) (v w : Nat)
      (here : Function.update s.requests r y v = .pushing w) : w < n := by
    rw [Function.update_apply] at here
    split at here
    · exact own w here
    · exact inv.chosen v w here
  cases finishes with
  | call | test | reply | error | check | enable =>
      exact ⟨invNext, inv.lastWorker, requests nofun, inv.queues, inv.threads, inv.calls,
        fun disposing => absurd disposing notDisposing, inv.sentLate⟩
  | choose =>
      refine ⟨invNext, inv.lastWorker, requests ?_, inv.queues, inv.threads, inv.calls,
        fun disposing => absurd disposing notDisposing, inv.sentLate⟩
      rintro w ⟨⟩
      simpa only [State.getWorkerByTask, single] using inv.lastWorker
  | @push w here =>
      refine ⟨invNext, inv.lastWorker, requests nofun, ?_, inv.threads, inv.calls,
        fun disposing => absurd disposing notDisposing, inv.sentLate⟩
      apply (Function.forall_update_iff s.queues fun q fs => Func.send ∈ fs → q < n).mpr
      exact ⟨fun _ => inv.chosen r w here, fun q _ => inv.queues q⟩

theorem SendInv.moves (inv : SendInv cfg.numWorkers s) (single : cfg.mode = .singleLoop)
    (order : inOrder cfg.numWorkers action s = true) (moves : Moves cfg s action next) :
    SendInv cfg.numWorkers next := by
  have before := moves
  cases moves with
  | lead leader lastWorker bound =>
      refine ⟨inv.inv.moves (startsAlone_of_inOrder order) before, ?_, inv.chosen, inv.queues,
        inv.threads, inv.calls, inv.closing, inv.sentLate⟩
      rcases bound with same | bound
      · exact same ▸ inv.lastWorker
      · exact bound
  | @goto _ i p idle plain =>
      have quiet : Thread.sends { s.threads i with point := p } = false := by
        apply sends_eq_false
        rintro rest rfl
        cases plain
      exact inv.thread order before rfl (fun _ member => member) (fun _ _ here => here) rfl rfl
        (fun sends => by cases quiet.symm.trans sends) (fun _ => quiet) (inv.calls i)
  | @fire i | @fireTimer i =>
      exact inv.thread order before rfl (fun _ member => member) (fun _ _ here => here) rfl rfl
        (inv.threads i) (fun sent => sent.2 i) (inv.calls i)
  | @drain i q bound here =>
      refine inv.thread order before rfl ?_ (fun _ _ here => here) rfl rfl (fun _ => bound)
        (fun sent => ?_) (inv.calls i)
      · apply (Function.forall_update_iff s.queues fun v fs => .send ∈ fs → .send ∈ s.queues v).mpr
        exact ⟨nofun, fun _ _ member => member⟩
      · simpa [Thread.sends] using sent.1 q
  | @execFront i f rest here =>
      have subset (sends : rest.contains .send = true) : (s.threads i).sends = true := by
        simp only [Thread.sends, here]
        simp only [List.contains_cons, sends, Bool.or_true]
      have alive : f = .send → s.processor.deleted = false := by
        rintro rfl
        exact inv.alive (i := i) (by simp [Thread.sends, here])
      refine inv.thread order before (State.exec_threads ..) ?_ ?_ (exec_lastWorker ..)
        (exec_sentLate alive) (fun sends => inv.threads i (subset sends)) (fun sent => ?_)
        (inv.calls i)
      · intro q member
        rwa [State.exec_queues] at member
      · intro r w isPushing
        rwa [State.exec_requests] at isPushing
      · cases sends : rest.contains Func.send with
        | false => exact sends
        | true => cases (sent.2 i).symm.trans (subset sends)
  | @direct i f here =>
      have alive : f = .send → s.processor.deleted = false := by
        rintro rfl
        exact absurd here (inv.calls i).1
      refine inv.thread order before (State.exec_threads ..) ?_ ?_ (exec_lastWorker ..)
        (exec_sentLate alive) (inv.threads i) (fun sent => sent.2 i) ⟨nofun, nofun⟩
      · intro q member
        rwa [State.exec_queues] at member
      · intro r w isPushing
        rwa [State.exec_requests] at isPushing
  | @notDirect i f here =>
      refine inv.thread order before rfl (fun _ member => member) (fun _ _ here => here) rfl rfl
        (inv.threads i) (fun sent => sent.2 i) ⟨nofun, ?_⟩
      rintro ⟨⟩
      exact (inv.calls i).1 here
  | @push i f here =>
      refine inv.thread order before rfl ?_ (fun _ _ here => here) rfl rfl (inv.threads i)
        (fun sent => sent.2 i) ⟨nofun, nofun⟩
      apply (Function.forall_update_iff s.queues fun v fs => .send ∈ fs → .send ∈ s.queues v).mpr
      refine ⟨fun member => ?_, fun _ _ member => member⟩
      rcases List.mem_append.mp member with earlier | last
      · exact earlier
      · cases List.mem_singleton.mp last
        exact absurd here (inv.calls i).2
  | @handle i e rest =>
      have quiet : Thread.sends { s.threads i with point := e.point, events := rest } = false := by
        cases e <;> rfl
      exact inv.thread order before rfl (fun _ member => member) (fun _ _ here => here) rfl rfl
        (fun sends => by cases quiet.symm.trans sends) (fun _ => quiet) (inv.calls i)
  | @fail i | @reset i | @parse i | @refuse i | @disable i =>
      exact inv.thread order before rfl (fun _ member => member) (fun _ _ here => here) rfl rfl
        nofun (fun _ => rfl) (inv.calls i)
  | @serve i r =>
      refine inv.thread order before rfl (fun _ member => member) ?_ rfl rfl
        nofun (fun _ => rfl) (inv.calls i)
      apply (Function.forall_update_iff s.requests fun v y => ∀ w, y = .pushing w →
        s.requests v = .pushing w).mpr
      exact ⟨nofun, fun _ _ _ here => here⟩
  | rearm | dispose | retry =>
      exact inv.thread order before rfl (fun _ member => member) (fun _ _ here => here) rfl rfl
        nofun (fun _ => rfl) ⟨nofun, nofun⟩
  | request finishes => exact inv.finishes single finishes

theorem sendInv_init (cfg : Config) (positive : 0 < cfg.numWorkers) :
    SendInv cfg.numWorkers (system cfg).init where
  inv := inv_init cfg
  lastWorker := positive
  chosen := nofun
  queues := nofun
  threads := nofun
  calls _ := ⟨nofun, nofun⟩
  closing _ := ⟨fun _ => nofun, fun _ => rfl⟩
  sentLate := rfl

/-- If requests do not overlap and the processor is disposed only where no `send_response` is
outstanding, then `send_response` is never called for the deleted processor. -/
theorem never_sent_late (n home : Nat) (positive : 0 < n) (actions : List Action)
    (order : (system ⟨.singleLoop, n, home⟩).Along (fun action s => inOrder n action s = true)
      actions (system ⟨.singleLoop, n, home⟩).init) :
    (system ⟨.singleLoop, n, home⟩).Throughout (fun s => s.sentLate = false) actions
      (system ⟨.singleLoop, n, home⟩).init := by
  have initial := sendInv_init ⟨.singleLoop, n, home⟩ positive
  apply System.throughout_of_along (SendInv n) SendInv.sentLate _ initial order
  intro s action next inv order stepped
  exact inv.moves rfl order (moves_of_step stepped)

/-- A request is served, its response written, and the processor deleted. -/
def writtenRun : List Action :=
  List.flatten [[.promote 0], served 7, List.replicate 7 (.request 0),
    [.enterLoop 0, .drain 0 0, .worker 0, .worker 0, .fire 0, .leaveLoop 0, .handle 0, .written 0,
      .worker 0, .worker 0, .call 0]]

theorem never_sent_late_written :
    (system ⟨.singleLoop, 2, 0⟩).Throughout (fun s => s.sentLate = false) writtenRun
        (system ⟨.singleLoop, 2, 0⟩).init ∧
      ((system ⟨.singleLoop, 2, 0⟩).exec writtenRun (system ⟨.singleLoop, 2, 0⟩).init).map
        (fun s => s.processor.deleted) = some true :=
  ⟨never_sent_late 2 0 (by decide) writtenRun (System.along_of_checkAlong (by decide +kernel)),
    by decide +kernel⟩

/-- The client disconnects while the finish callback is at work.  Worker 0 queues the deletion
for itself, the callback has queued `send_response` for worker 1, and worker 1 as the leader
drains the queue of worker 0 first. -/
theorem sent_late :
    ∃ s, (system ⟨.singleLoop, 2, 0⟩).Reachable s ∧ s.sentLate = true := by
  have run : ((system ⟨.singleLoop, 2, 0⟩).exec (List.flatten [[.promote 0], served 7,
      [.enterLoop 0, .fire 0, .leaveLoop 0, .demote 0, .promote 1], List.replicate 7 (.request 0),
      [.handle 0, .fail 0, .worker 0, .worker 0, .call 0, .call 0, .enterLoop 1, .drain 1 0,
        .worker 1, .worker 1, .drain 1 1, .worker 1]]) (system ⟨.singleLoop, 2, 0⟩).init).any
        State.sentLate = true := by
    decide +kernel
  exact System.exists_reachable_of_exec run

end LibTasks.Net.ThriftProcessor

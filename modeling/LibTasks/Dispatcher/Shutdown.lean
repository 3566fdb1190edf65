import LibTasks.Foundation.Transition

/-!
# Shutdown of the dispatcher in `SINGLE_LOOP` mode

`dispatcher::start` and `dispatcher::join` run in the main thread, one after the other.
`join` terminates the workers in turn: it sets `m_term` of a worker and waits for the
return of its `run`, while the workers behind it still lead, promote and handle events
(`tasks/dispatcher.cpp`, `tasks/worker.cpp`, `include/tasks/worker.h`).  Every test and
every store of an atomic flag is a step of its own.

Of an event only its place in `m_events_queue` is left.  `ev_async_send` does nothing
here: it makes `ev_loop` return, and in this model `ev_loop` may return at any time.
-/

namespace LibTasks.Dispatcher.Shutdown

open LibTasks.Foundation

/-- Program points of a worker thread. -/
inductive Pc where
  /-- The thread does not exist yet. -/
  | unborn
  | markFree
  /-- Testing `!m_term` at the head of the outer loop. -/
  | outer
  /-- Testing `!m_leader`. -/
  | top
  /-- In the loop around `m_work_cond.wait_for`. -/
  | waiting
  /-- Testing `m_leader` at the head of the inner loop. -/
  | lead
  /-- Testing `!m_term` at the head of the inner loop. -/
  | leadTerm
  | inLoop
  /-- `ev_loop` returned; testing `m_events_queue.empty()`. -/
  | loopReturned
  /-- `promote_leader` entered `free_worker`. -/
  | freeWorker
  /-- The loop of `bitset::next`, about to test bit `chkIdx`. -/
  | next (chkIdx chkCnt : Nat)
  /-- `next` found `id`; `m_last_worker_id = id` comes next. -/
  | foundId (id : Nat)
  /-- `m_workers_busy.unset(id)` comes next. -/
  | unsetId (id : Nat)
  /-- `m_leader = false` comes next. -/
  | demote (id : Nat)
  /-- `set_event_loop` of worker `id`: `m_loop = std::move(loop)`. -/
  | moveLoop (id : Nat)
  /-- `set_event_loop` of worker `id`: `ev_set_userdata`. -/
  | setUserdata (id : Nat)
  /-- `set_event_loop` of worker `id`: `m_leader = true`. -/
  | setLeader (id : Nat)
  /-- Head of the loop over `m_events_queue`. -/
  | handle
  /-- In `exec_event_handler`. -/
  | handling
  /-- `m_events_queue.pop()` comes next. -/
  | pop
  /-- Behind the inner loop, testing `!m_term`. -/
  | ended
  /-- Shutting down, testing `m_leader`. -/
  | shutdown
  /-- `ev_unloop` and `ev_loop_destroy` come next. -/
  | destroy
  /-- `run` has returned. -/
  | left
  /-- An assertion failed or a null pointer was used. -/
  | aborted
  deriving DecidableEq, Repr

/-- A `worker` and its thread. -/
structure Worker where
  /-- The worker's bit in `m_workers_busy`, set while the worker is free. -/
  busyBit : Bool := false
  /-- `m_leader` -/
  leader : Bool := false
  /-- Whether `m_loop` is not null. -/
  loop : Bool := false
  /-- `m_term` -/
  term : Bool := false
  /-- The length of `m_events_queue`. -/
  events : Nat := 0
  pc : Pc := .unborn
  deriving DecidableEq, Repr

/-- Progress of the main thread in `start` and `join`. -/
inductive Main where
  | spawn (i : Nat)
  | waitBit (i : Nat)
  | unsetFirst
  | moveLoop
  | setUserdata
  | setLeader
  /-- In `join`, waiting on `m_finish_cond`. -/
  | parked
  /-- `terminate` of worker `i`: `m_term = true`. -/
  | setTerm (i : Nat)
  /-- `terminate` of worker `i`: `ev_async_send` if it is the leader. -/
  | interrupt (i : Nat)
  /-- `terminate` of worker `i`: `m_thread->join()`. -/
  | joining (i : Nat)
  /-- `join` has returned. -/
  | returned
  deriving DecidableEq, Repr

structure State where
  workers : Nat → Worker := fun _ => {}
  lastWorkerId : Nat := 0
  /-- `ev_userdata` of the event loop. -/
  userdata : Option Nat := none
  main : Main := .spawn 0
  /-- How often `ev_loop_destroy` was called. -/
  destroyed : Nat := 0
  /-- `m_leader` was set for a worker whose `run` had returned. -/
  handedToLeft : Bool := false

inductive Action where
  /-- The next operation of the main thread. -/
  | main
  /-- The next operation of a worker thread. -/
  | worker (i : Nat)
  /-- The event loop run by worker `i` invokes a callback that adds an event. -/
  | fire (i : Nat)
  /-- The event loop run by worker `i` returns. -/
  | loopReturn (i : Nat)
  /-- The handler run by worker `i` returns. -/
  | handlerReturn (i : Nat)
  deriving DecidableEq, Repr

namespace State

def setWorker (s : State) (i : Nat) (w : Worker) : State :=
  { s with workers := Function.update s.workers i w }

def goto (s : State) (i : Nat) (pc : Pc) : State :=
  s.setWorker i { s.workers i with pc := pc }

/-- `m_leader = true` of worker `id`. -/
def makeLeader (s : State) (id : Nat) : State :=
  { s.setWorker id { s.workers id with leader := true } with
    handedToLeft := s.handedToLeft || (s.workers id).pc == .left }

end State

/-- One operation of the main thread. -/
def mainStep (n : Nat) (s : State) : Option State :=
  match s.main with
  | .spawn i =>
      if i < n then
        some { s.setWorker i { s.workers i with busyBit := false, pc := .markFree } with
          main := .spawn (i + 1) }
      else some { s with main := .waitBit 0 }
  | .waitBit i =>
      if i < n then
        -- Sleeps and tests again while the bit is not set.
        if (s.workers i).busyBit then some { s with main := .waitBit (i + 1) } else none
      else some { s with main := .unsetFirst }
  | .unsetFirst =>
      some { s.setWorker 0 { s.workers 0 with busyBit := false } with main := .moveLoop }
  | .moveLoop =>
      some { s.setWorker 0 { s.workers 0 with loop := true } with main := .setUserdata }
  | .setUserdata => some { s with userdata := some 0, main := .setLeader }
  | .setLeader => some { s.makeLeader 0 with main := .parked }
  -- The wait also ends without `terminate()`, if the thread wakes up for no reason.
  | .parked => some { s with main := .setTerm 0 }
  | .setTerm i =>
      if i < n then
        some { s.setWorker i { s.workers i with term := true } with main := .interrupt i }
      else some { s with main := .returned }
  | .interrupt i => some { s with main := .joining i }
  | .joining i =>
      if (s.workers i).pc = .left then some { s with main := .setTerm (i + 1) } else none
  | .returned => none

/-- The index that `bitset::next` tests after `idx`. -/
def nextIdx (n idx : Nat) : Nat := if idx + 1 = n then 0 else idx + 1

/-- One operation of the thread of worker `i`, except those chosen by the event loop or by
a handler. -/
def workerStep (n : Nat) (s : State) (i : Nat) : Option State :=
  let w := s.workers i
  match w.pc with
  | .unborn | .inLoop | .handling | .left | .aborted => none
  | .markFree => some (s.setWorker i { w with busyBit := true, pc := .outer })
  | .outer => if w.term then some (s.goto i .left) else some (s.goto i .top)
  | .top => if w.leader then some (s.goto i .lead) else some (s.goto i .waiting)
  | .waiting => if w.leader ∨ w.term then some (s.goto i .lead) else none
  | .lead => if w.leader then some (s.goto i .leadTerm) else some (s.goto i .ended)
  | .leadTerm => if w.term then some (s.goto i .ended) else some (s.goto i .inLoop)
  | .loopReturned =>
      if w.events = 0 then some (s.goto i .lead) else some (s.goto i .freeWorker)
  | .freeWorker =>
      if 1 < n then some (s.goto i (.next s.lastWorkerId 0)) else some (s.goto i .handle)
  | .next chkIdx chkCnt =>
      if chkIdx < n then
        if (s.workers chkIdx).busyBit then some (s.goto i (.foundId chkIdx))
        else if chkCnt + 1 < n then some (s.goto i (.next (nextIdx n chkIdx) (chkCnt + 1)))
        else some (s.goto i .handle)
      else some (s.goto i .aborted)
  | .foundId id => some { s.goto i (.unsetId id) with lastWorkerId := id }
  | .unsetId id =>
      let s := s.goto i (.demote id)
      some (s.setWorker id { s.workers id with busyBit := false })
  | .demote id => some (s.setWorker i { w with leader := false, pc := .moveLoop id })
  | .moveLoop id =>
      let s := s.setWorker i { w with loop := false, pc := .setUserdata id }
      some (s.setWorker id { s.workers id with loop := w.loop })
  | .setUserdata id => some { s.goto i (.setLeader id) with userdata := some id }
  | .setLeader id => some ((s.goto i .handle).makeLeader id)
  | .handle => if w.events = 0 then some (s.goto i .lead) else some (s.goto i .handling)
  | .pop => some (s.setWorker i { w with events := w.events - 1, pc := .handle })
  | .ended => if w.term then some (s.goto i .shutdown) else some (s.goto i .markFree)
  | .shutdown => if w.leader then some (s.goto i .destroy) else some (s.goto i .outer)
  | .destroy =>
      if w.loop then some { s.goto i .outer with destroyed := s.destroyed + 1 }
      else some (s.goto i .aborted)

def step (n : Nat) : Action → State → Option State
  | .main, s => mainStep n s
  | .worker i, s => if i < n then workerStep n s i else none
  | .fire i, s =>
      if i < n ∧ (s.workers i).pc = .inLoop then
        match s.userdata with
        | some u => some (s.setWorker u { s.workers u with events := (s.workers u).events + 1 })
        | none => some (s.goto i .aborted)
      else none
  | .loopReturn i, s =>
      if i < n ∧ (s.workers i).pc = .inLoop then some (s.goto i .loopReturned) else none
  | .handlerReturn i, s =>
      if i < n ∧ (s.workers i).pc = .handling then some (s.goto i .pop) else none

/-- The main thread and `n` workers. -/
def system (n : Nat) : System State Action where
  init := {}
  step := step n

/-! ## What a step can do -/

/-- What a worker thread does to its own record only. -/
inductive Runs (w : Worker) : Worker → Prop where
  | free (here : w.pc = .markFree) : Runs w { w with busyBit := true, pc := .outer }
  | enter (here : w.pc = .outer) (goesOn : w.term = false) : Runs w { w with pc := .top }
  | leave (here : w.pc = .outer) (ends : w.term = true) : Runs w { w with pc := .left }
  | follow (here : w.pc = .top) (follower : w.leader = false) : Runs w { w with pc := .waiting }
  | promoted (here : w.pc = .top ∨ w.pc = .waiting) (leads : w.leader = true) :
      Runs w { w with pc := .lead }
  | giveUp (here : w.pc = .waiting) (ends : w.term = true) : Runs w { w with pc := .lead }
  | lead (here : w.pc = .lead) (leads : w.leader = true) : Runs w { w with pc := .leadTerm }
  | noLeader (here : w.pc = .lead) (follower : w.leader = false) : Runs w { w with pc := .ended }
  | loop (here : w.pc = .leadTerm) : Runs w { w with pc := .inLoop }
  | stop (here : w.pc = .leadTerm) (ends : w.term = true) : Runs w { w with pc := .ended }
  | loopReturn (here : w.pc = .inLoop) : Runs w { w with pc := .loopReturned }
  | again (here : w.pc = .loopReturned) : Runs w { w with pc := .lead }
  | promote (here : w.pc = .loopReturned) : Runs w { w with pc := .freeWorker }
  | search (chkIdx chkCnt : Nat) (here : w.pc = .freeWorker ∨ ∃ idx cnt, w.pc = .next idx cnt) :
      Runs w { w with pc := .next chkIdx chkCnt }
  | noWorker (here : w.pc = .freeWorker ∨ ∃ idx cnt, w.pc = .next idx cnt) :
      Runs w { w with pc := .handle }
  | abort (here : w.pc = .inLoop ∨ ∃ idx cnt, w.pc = .next idx cnt) :
      Runs w { w with pc := .aborted }
  | handled (here : w.pc = .handle) : Runs w { w with pc := .lead }
  | handle (here : w.pc = .handle) : Runs w { w with pc := .handling }
  | handlerReturn (here : w.pc = .handling) : Runs w { w with pc := .pop }
  | pop (events : Nat) (here : w.pc = .pop) : Runs w { w with events := events, pc := .handle }
  | restart (here : w.pc = .ended) (goesOn : w.term = false) : Runs w { w with pc := .markFree }
  | shutdown (here : w.pc = .ended) (ends : w.term = true) : Runs w { w with pc := .shutdown }
  | destroy (here : w.pc = .shutdown) (leads : w.leader = true) : Runs w { w with pc := .destroy }
  | follower (here : w.pc = .shutdown) (follower : w.leader = false) :
      Runs w { w with pc := .outer }

inductive Moves (n : Nat) (s : State) : Action → State → Prop where
  | runs {action : Action} {i : Nat} {w : Worker} (runs : Runs (s.workers i) w)
      (notMain : action ≠ .main) (own : ∀ j, action = .worker j → j = i) :
      Moves n s action (s.setWorker i w)
  | fire {i u : Nat} : Moves n s (.fire i)
      (s.setWorker u { s.workers u with events := (s.workers u).events + 1 })
  | found {i id idx cnt : Nat} (here : (s.workers i).pc = .next idx cnt)
      (isFree : (s.workers id).busyBit = true) (idBound : id < n) :
      Moves n s (.worker i) (s.goto i (.foundId id))
  | foundId {i id : Nat} (here : (s.workers i).pc = .foundId id) :
      Moves n s (.worker i) { s.goto i (.unsetId id) with lastWorkerId := id }
  | unsetId {i id : Nat} (here : (s.workers i).pc = .unsetId id) :
      Moves n s (.worker i) ((s.goto i (.demote id)).setWorker id
        { (s.goto i (.demote id)).workers id with busyBit := false })
  | demote {i id : Nat} (here : (s.workers i).pc = .demote id) :
      Moves n s (.worker i)
        (s.setWorker i { s.workers i with leader := false, pc := .moveLoop id })
  | moveLoop {i id : Nat} (here : (s.workers i).pc = .moveLoop id) :
      Moves n s (.worker i)
        ((s.setWorker i { s.workers i with loop := false, pc := .setUserdata id }).setWorker id
          { (s.setWorker i
              { s.workers i with loop := false, pc := .setUserdata id }).workers id with
            loop := (s.workers i).loop })
  | setUserdata {i id : Nat} (here : (s.workers i).pc = .setUserdata id) :
      Moves n s (.worker i) { s.goto i (.setLeader id) with userdata := some id }
  | setLeader {i id : Nat} (here : (s.workers i).pc = .setLeader id) :
      Moves n s (.worker i) ((s.goto i .handle).makeLeader id)
  | destroy {i : Nat} (here : (s.workers i).pc = .destroy) (loop : (s.workers i).loop = true) :
      Moves n s (.worker i) { s.goto i .outer with destroyed := s.destroyed + 1 }
  | noLoop {i : Nat} (here : (s.workers i).pc = .destroy) (loop : (s.workers i).loop = false) :
      Moves n s (.worker i) (s.goto i .aborted)
  | main (stepped : mainStep n s = some next) : Moves n s .main next

variable {n : Nat} {s next : State}

theorem moves_of_workerStep {i : Nat} (stepped : workerStep n s i = some next) :
    Moves n s (.worker i) next := by
  have own : ∀ j, Action.worker i = .worker j → j = i := by
    rintro _ ⟨⟩
    rfl
  simp only [workerStep] at stepped
  split at stepped
  iterate 5 · cases stepped
  · next here =>
      cases stepped
      exact .runs (.free here) nofun own
  · next here =>
      split at stepped
      · next ends =>
          cases stepped
          exact .runs (.leave here ends) nofun own
      · next goesOn =>
          cases stepped
          exact .runs (.enter here (Bool.eq_false_iff.mpr goesOn)) nofun own
  · next here =>
      split at stepped
      · next leads =>
          cases stepped
          exact .runs (.promoted (.inl here) leads) nofun own
      · next follower =>
          cases stepped
          exact .runs (.follow here (Bool.eq_false_iff.mpr follower)) nofun own
  · next here =>
      split at stepped
      · next ready =>
          cases stepped
          rcases ready with leads | ends
          · exact .runs (.promoted (.inr here) leads) nofun own
          · exact .runs (.giveUp here ends) nofun own
      · cases stepped
  · next here =>
      split at stepped
      · next leads =>
          cases stepped
          exact .runs (.lead here leads) nofun own
      · next follower =>
          cases stepped
          exact .runs (.noLeader here (Bool.eq_false_iff.mpr follower)) nofun own
  · next here =>
      split at stepped
      · next ends =>
          cases stepped
          exact .runs (.stop here ends) nofun own
      · cases stepped
        exact .runs (.loop here) nofun own
  · next here =>
      split at stepped
      · cases stepped
        exact .runs (.again here) nofun own
      · cases stepped
        exact .runs (.promote here) nofun own
  · next here =>
      split at stepped
      · cases stepped
        exact .runs (.search _ _ (.inl here)) nofun own
      · cases stepped
        exact .runs (.noWorker (.inl here)) nofun own
  · next chkIdx chkCnt here =>
      split at stepped
      · next bound =>
          split at stepped
          · next isFree =>
              cases stepped
              exact .found here isFree bound
          · split at stepped
            · cases stepped
              exact .runs (.search _ _ (.inr ⟨_, _, here⟩)) nofun own
            · cases stepped
              exact .runs (.noWorker (.inr ⟨_, _, here⟩)) nofun own
      · cases stepped
        exact .runs (.abort (.inr ⟨_, _, here⟩)) nofun own
  · next here =>
      cases stepped
      exact .foundId here
  · next here =>
      cases stepped
      exact .unsetId here
  · next here =>
      cases stepped
      exact .demote here
  · next here =>
      cases stepped
      exact .moveLoop here
  · next here =>
      cases stepped
      exact .setUserdata here
  · next here =>
      cases stepped
      exact .setLeader here
  · next here =>
      split at stepped
      · cases stepped
        exact .runs (.handled here) nofun own
      · cases stepped
        exact .runs (.handle here) nofun own
  · next here =>
      cases stepped
      exact .runs (.pop _ here) nofun own
  · next here =>
      split at stepped
      · next ends =>
          cases stepped
          exact .runs (.shutdown here ends) nofun own
      · next goesOn =>
          cases stepped
          exact .runs (.restart here (Bool.eq_false_iff.mpr goesOn)) nofun own
  · next here =>
      split at stepped
      · next leads =>
          cases stepped
          exact .runs (.destroy here leads) nofun own
      · next follower =>
          cases stepped
          exact .runs (.follower here (Bool.eq_false_iff.mpr follower)) nofun own
  · next here =>
      split at stepped
      · next loop =>
          cases stepped
          exact .destroy here loop
      · next noLoop =>
          cases stepped
          exact .noLoop here (Bool.eq_false_iff.mpr noLoop)

theorem moves_of_step {action : Action} (stepped : (system n).step action s = some next) :
    Moves n s action next := by
  cases action with
  | main => exact .main stepped
  | worker i =>
      simp only [system, step] at stepped
      split at stepped
      · exact moves_of_workerStep stepped
      · cases stepped
  | fire i =>
      simp only [system, step] at stepped
      split at stepped
      · next allowed =>
          split at stepped
          · cases stepped
            exact .fire
          · cases stepped
            exact .runs (.abort (.inl allowed.2)) nofun nofun
      · cases stepped
  | loopReturn i =>
      simp only [system, step] at stepped
      split at stepped
      · next allowed =>
          cases stepped
          exact .runs (.loopReturn allowed.2) nofun nofun
      · cases stepped
  | handlerReturn i =>
      simp only [system, step] at stepped
      split at stepped
      · next allowed =>
          cases stepped
          exact .runs (.handlerReturn allowed.2) nofun nofun
      · cases stepped

end LibTasks.Dispatcher.Shutdown

import LibTasks.Foundation.Transition

/-!
# Executors

Tasks that are passed to `dispatcher::add_exec_task` by any number of threads, and the
executors that run them (`tasks/executor.cpp`, `include/tasks/executor.h`,
`dispatcher::free_executor`).  A step is one access to what threads share, or one call
of user code.  A thread that waits at a condition variable can wake up at any time, so
`notify_one` needs no step.  The dispatcher is not shut down: `m_term` is only set by
the executor itself.  The destructor of an executor that was erased waits for a thread
that leaves, and nothing else.
-/

namespace LibTasks.Exec

open LibTasks.Foundation

/-- Who has locked `m_mutex` of an executor: its own thread, or a caller of `add_task`. -/
inductive Holder where
  | thread
  | caller (c : Nat)
  deriving DecidableEq, Repr

/-- Program points of `executor::run`. -/
inductive Pc where
  /-- The executor was not created yet. -/
  | unborn
  /-- Testing `!m_term` at the head of the outer loop. -/
  | loop
  /-- About to lock `m_mutex`. -/
  | locking
  /-- About to test the predicate of `wait_for`, with the result of the wait before. -/
  | checking (timedOut : Bool)
  /-- Inside the wait; `m_mutex` is not locked. -/
  | waiting
  /-- The wait is over; `m_mutex` has to be locked again. -/
  | woken (timedOut : Bool)
  /-- `wait_for` has returned `false`. -/
  | expired
  /-- `wait_for` has returned `true`. -/
  | awake
  /-- About to call `m_task->execute()`. -/
  | executing
  /-- About to test `m_task->auto_delete()`, and to call `finish`. -/
  | executed
  /-- About to clear `m_task`. -/
  | finished
  /-- About to clear `m_busy`. -/
  | cleared
  /-- About to unlock `m_mutex`. -/
  | unlocking
  /-- `run` has returned. -/
  | left
  /-- A null `m_task` was used. -/
  | crashed
  deriving DecidableEq, Repr

/-- An `executor`, with the local variables of its `run`.  A task is the number of the
call of `add_exec_task` that it was passed to. -/
structure Executor where
  busy : Bool := true
  term : Bool := false
  task : Option Nat := none
  mutex : Option Holder := none
  pc : Pc := .unborn
  idleRuns : Int := 0
  runs : Int := 0
  deriving DecidableEq, Repr

/-- Program points of `add_exec_task`, with the task. -/
inductive CallerPc where
  | idle
  /-- About to lock `m_executor_mutex`. -/
  | entering (t : Nat)
  /-- At the head of the loop over `m_executors`. -/
  | scanning (t : Nat) (rest : List Nat)
  /-- `terminated()` was `false`; about to test `busy()`. -/
  | testBusy (t e : Nat) (rest : List Nat)
  /-- `busy()` was `false`; about to call `set_busy()`. -/
  | setBusy (t e : Nat)
  /-- About to create an executor. -/
  | creating (t : Nat)
  /-- `free_executor` returns `e`. -/
  | returning (t e : Nat)
  /-- `add_task` was called for `e`. -/
  | holding (t e : Nat)
  /-- `add_task` has locked `m_mutex` of `e`. -/
  | storing (t e : Nat)
  /-- `add_task` has stored the task. -/
  | stored (t e : Nat)
  deriving DecidableEq, Repr

/-- The executors, their callers, and what has happened so far. -/
structure State where
  executors : Nat → Executor := fun _ => {}
  created : Nat := 0
  /-- `m_executors` -/
  list : List Nat := []
  /-- The owner of `m_executor_mutex`. -/
  executorMutex : Option Nat := none
  callers : Nat → CallerPc := fun _ => .idle
  /-- How many tasks were passed to `add_exec_task`. -/
  submitted : Nat := 0
  /-- `executor::m_timeout` -/
  timeout : BitVec 32 := 60
  /-- Executors with the task of the caller they were handed to. -/
  handed : List (Nat × Nat) := []
  /-- Executors with the tasks that `add_task` has stored. -/
  stored : List (Nat × Nat) := []
  /-- The tasks whose `execute` was called. -/
  executed : List Nat := []
  /-- The tasks whose `finish` was called. -/
  finished : List Nat := []
  /-- The tasks that an executor is done with. -/
  completed : List Nat := []

inductive Action where
  /-- The thread `c` calls `add_exec_task` with a new task. -/
  | submit (c : Nat)
  | caller (c : Nat)
  | executor (e : Nat)
  /-- The wait of an executor ends, because the time is over or for another reason. -/
  | wake (e : Nat) (timedOut : Bool)
  | setTimeout (timeout : BitVec 32)
  deriving DecidableEq, Repr

namespace State

def setCaller (s : State) (c : Nat) (pc : CallerPc) : State :=
  { s with callers := Function.update s.callers c pc }

def setExecutor (s : State) (e : Nat) (x : Executor) : State :=
  { s with executors := Function.update s.executors e x }

/-- `dispatcher::add_exec_task` with `free_executor` and `executor::add_task`. -/
def callerStep (c : Nat) (s : State) : Option State :=
  match s.callers c with
  | .idle => none
  | .entering t =>
      if s.executorMutex = none then
        some ({ s with executorMutex := some c }.setCaller c (.scanning t s.list))
      else none
  | .scanning t [] => some (s.setCaller c (.creating t))
  | .scanning t (e :: rest) =>
      if (s.executors e).term then
        some ({ s with list := s.list.erase e }.setCaller c (.scanning t rest))
      else some (s.setCaller c (.testBusy t e rest))
  | .testBusy t e rest =>
      if (s.executors e).busy then some (s.setCaller c (.scanning t rest))
      else some (s.setCaller c (.setBusy t e))
  | .setBusy t e =>
      some (({ s with handed := s.handed ++ [(e, t)] }.setExecutor e
        { s.executors e with busy := true }).setCaller c (.returning t e))
  | .creating t =>
      let e := s.created
      some (({ s with
          created := e + 1, list := s.list ++ [e], handed := s.handed ++ [(e, t)] }.setExecutor e
        { s.executors e with pc := .loop }).setCaller c (.returning t e))
  | .returning t e => some ({ s with executorMutex := none }.setCaller c (.holding t e))
  | .holding t e =>
      if (s.executors e).mutex = none then
        some ((s.setExecutor e { s.executors e with mutex := some (.caller c) }).setCaller c
          (.storing t e))
      else none
  | .storing t e =>
      some (({ s with stored := s.stored ++ [(e, t)] }.setExecutor e
        { s.executors e with task := some t }).setCaller c (.stored t e))
  | .stored _ e =>
      some ((s.setExecutor e { s.executors e with mutex := none }).setCaller c .idle)

/-- `executor::run`. -/
def executorStep (autoDelete : Nat → Bool) (e : Nat) (s : State) : Option State :=
  let x := s.executors e
  match x.pc with
  | .loop =>
      if x.term then some (s.setExecutor e { x with pc := .left })
      else some (s.setExecutor e { x with pc := .locking })
  | .locking =>
      if x.mutex = none then
        some (s.setExecutor e
          { x with
            mutex := some .thread, idleRuns := (10 * s.timeout).toInt, runs := 0
            pc := .checking false })
      else none
  | .checking timedOut =>
      if x.task ≠ none ∨ x.term then some (s.setExecutor e { x with pc := .awake })
      else if timedOut then some (s.setExecutor e { x with pc := .expired })
      else some (s.setExecutor e { x with mutex := none, pc := .waiting })
  | .woken timedOut =>
      if x.mutex = none then
        some (s.setExecutor e { x with mutex := some .thread, pc := .checking timedOut })
      else none
  | .expired =>
      some (s.setExecutor e
        { x with
          runs := x.runs + 1, term := x.term || decide (x.runs + 1 ≥ x.idleRuns)
          pc := .checking false })
  | .awake =>
      if x.term then some (s.setExecutor e { x with pc := .unlocking })
      else some (s.setExecutor e { x with pc := .executing })
  | .executing =>
      match x.task with
      | some t =>
          some ({ s with executed := s.executed ++ [t] }.setExecutor e { x with pc := .executed })
      | none => some (s.setExecutor e { x with pc := .crashed })
  | .executed =>
      match x.task with
      | some t =>
          some ({ s with finished := if autoDelete t then s.finished ++ [t] else s.finished }
            |>.setExecutor e { x with pc := .finished })
      | none => some (s.setExecutor e { x with pc := .crashed })
  | .finished =>
      some ({ s with completed := s.completed ++ x.task.toList }.setExecutor e
        { x with task := none, pc := .cleared })
  | .cleared => some (s.setExecutor e { x with busy := false, pc := .unlocking })
  | .unlocking => some (s.setExecutor e { x with mutex := none, pc := .loop })
  | .unborn | .waiting | .left | .crashed => none

def step (autoDelete : Nat → Bool) : Action → State → Option State
  | .submit c, s =>
      match s.callers c with
      | .idle => some ({ s with submitted := s.submitted + 1 }.setCaller c (.entering s.submitted))
      | _ => none
  | .caller c, s => s.callerStep c
  | .executor e, s => s.executorStep autoDelete e
  | .wake e timedOut, s =>
      match (s.executors e).pc with
      | .waiting => some (s.setExecutor e { s.executors e with pc := .woken timedOut })
      | _ => none
  | .setTimeout timeout, s => some { s with timeout := timeout }

end State

/-- Any number of callers and executors; `autoDelete` says for which tasks auto deletion
is active. -/
def system (autoDelete : Nat → Bool) : System State Action where
  init := {}
  step := State.step autoDelete

/-! ## What a step can do -/

/-- The steps of `run` that leave the task as it is. -/
inductive Runs (timeout : BitVec 32) (x : Executor) : Executor → Prop where
  | enter (here : x.pc = .loop) (goesOn : x.term = false) : Runs timeout x { x with pc := .locking }
  | leave (here : x.pc = .loop) (ends : x.term = true) : Runs timeout x { x with pc := .left }
  | lock (here : x.pc = .locking) (free : x.mutex = none) :
      Runs timeout x
        { x with
          mutex := some .thread
          idleRuns := (10 * timeout).toInt
          runs := 0
          pc := .checking false }
  | ready {timedOut : Bool} (here : x.pc = .checking timedOut) (reason : x.task ≠ none ∨ x.term) :
      Runs timeout x { x with pc := .awake }
  | expire (here : x.pc = .checking true) (nothing : x.task = none) (goesOn : x.term = false) :
      Runs timeout x { x with pc := .expired }
  | wait (here : x.pc = .checking false) (nothing : x.task = none) (goesOn : x.term = false) :
      Runs timeout x { x with mutex := none, pc := .waiting }
  | wake (timedOut : Bool) (here : x.pc = .waiting) :
      Runs timeout x { x with pc := .woken timedOut }
  | relock {timedOut : Bool} (here : x.pc = .woken timedOut) (free : x.mutex = none) :
      Runs timeout x { x with mutex := some .thread, pc := .checking timedOut }
  | count (here : x.pc = .expired) :
      Runs timeout x
        { x with
          runs := x.runs + 1, term := x.term || decide (x.runs + 1 ≥ x.idleRuns)
          pc := .checking false }
  | start (here : x.pc = .awake) (goesOn : x.term = false) :
      Runs timeout x { x with pc := .executing }
  | giveUp (here : x.pc = .awake) (ends : x.term = true) :
      Runs timeout x { x with pc := .unlocking }
  | crash (here : x.pc = .executing ∨ x.pc = .executed) (nothing : x.task = none) :
      Runs timeout x { x with pc := .crashed }
  | clearBusy (here : x.pc = .cleared) : Runs timeout x { x with busy := false, pc := .unlocking }
  | unlock (here : x.pc = .unlocking) : Runs timeout x { x with mutex := none, pc := .loop }

/-- The steps of `free_executor` and `add_task` that change neither a task nor an executor:
the next program point, and what happens to `m_executor_mutex` and `m_executors`. -/
inductive Scans (s : State) (c : Nat) : CallerPc → Option Nat → List Nat → Prop where
  | enter {t : Nat} (here : s.callers c = .entering t) (free : s.executorMutex = none) :
      Scans s c (.scanning t s.list) (some c) s.list
  | atEnd {t : Nat} (here : s.callers c = .scanning t []) :
      Scans s c (.creating t) s.executorMutex s.list
  | erase {t e : Nat} {rest : List Nat} (here : s.callers c = .scanning t (e :: rest))
      (ended : (s.executors e).term = true) :
      Scans s c (.scanning t rest) s.executorMutex (s.list.erase e)
  | alive {t e : Nat} {rest : List Nat} (here : s.callers c = .scanning t (e :: rest)) :
      Scans s c (.testBusy t e rest) s.executorMutex s.list
  | isBusy {t e : Nat} {rest : List Nat} (here : s.callers c = .testBusy t e rest) :
      Scans s c (.scanning t rest) s.executorMutex s.list
  | notBusy {t e : Nat} {rest : List Nat} (here : s.callers c = .testBusy t e rest)
      (free : (s.executors e).busy = false) : Scans s c (.setBusy t e) s.executorMutex s.list
  | leave {t e : Nat} (here : s.callers c = .returning t e) :
      Scans s c (.holding t e) none s.list

inductive Moves (autoDelete : Nat → Bool) (s : State) : Action → State → Prop where
  | setTimeout (timeout : BitVec 32) :
      Moves autoDelete s (.setTimeout timeout) { s with timeout := timeout }
  | submit {c : Nat} (here : s.callers c = .idle) :
      Moves autoDelete s (.submit c)
        ({ s with submitted := s.submitted + 1 }.setCaller c (.entering s.submitted))
  | scan {c : Nat} {pc : CallerPc} {mutex : Option Nat} {list : List Nat}
      (scans : Scans s c pc mutex list) :
      Moves autoDelete s (.caller c)
        ({ s with executorMutex := mutex, list := list }.setCaller c pc)
  | setBusy {c t e : Nat} (here : s.callers c = .setBusy t e) :
      Moves autoDelete s (.caller c)
        (({ s with handed := s.handed ++ [(e, t)] }.setExecutor e
          { s.executors e with busy := true }).setCaller c (.returning t e))
  | create {c t : Nat} (here : s.callers c = .creating t) :
      Moves autoDelete s (.caller c)
        (({ s with
            created := s.created + 1, list := s.list ++ [s.created]
            handed := s.handed ++ [(s.created, t)] }.setExecutor s.created
          { s.executors s.created with pc := .loop }).setCaller c (.returning t s.created))
  | lock {c t e : Nat} (here : s.callers c = .holding t e) (free : (s.executors e).mutex = none) :
      Moves autoDelete s (.caller c)
        ((s.setExecutor e { s.executors e with mutex := some (.caller c) }).setCaller c
          (.storing t e))
  | store {c t e : Nat} (here : s.callers c = .storing t e) :
      Moves autoDelete s (.caller c)
        (({ s with stored := s.stored ++ [(e, t)] }.setExecutor e
          { s.executors e with task := some t }).setCaller c (.stored t e))
  | unlock {c t e : Nat} (here : s.callers c = .stored t e) :
      Moves autoDelete s (.caller c)
        ((s.setExecutor e { s.executors e with mutex := none }).setCaller c .idle)
  | run {e : Nat} {x : Executor} {action : Action} (own : ∀ c, action ≠ .caller c)
      (runs : Runs s.timeout (s.executors e) x) : Moves autoDelete s action (s.setExecutor e x)
  | execute {e t : Nat} (here : (s.executors e).pc = .executing)
      (task : (s.executors e).task = some t) :
      Moves autoDelete s (.executor e)
        ({ s with executed := s.executed ++ [t] }.setExecutor e
          { s.executors e with pc := .executed })
  | finish {e t : Nat} (here : (s.executors e).pc = .executed)
      (task : (s.executors e).task = some t) :
      Moves autoDelete s (.executor e)
        ({ s with finished := if autoDelete t then s.finished ++ [t] else s.finished }.setExecutor e
          { s.executors e with pc := .finished })
  | clear {e : Nat} (here : (s.executors e).pc = .finished) :
      Moves autoDelete s (.executor e)
        ({ s with completed := s.completed ++ (s.executors e).task.toList }.setExecutor e
          { s.executors e with task := none, pc := .cleared })

variable {autoDelete : Nat → Bool} {s next : State}

theorem moves_of_callerStep {c : Nat} (stepped : s.callerStep c = some next) :
    Moves autoDelete s (.caller c) next := by
  simp only [State.callerStep] at stepped
  split at stepped
  · cases stepped
  · next t here =>
      split at stepped
      · next free =>
          cases stepped
          exact .scan (.enter here free)
      · cases stepped
  · next t here =>
      cases stepped
      exact .scan (.atEnd here)
  · next t e rest here =>
      split at stepped
      · next ended =>
          cases stepped
          exact .scan (.erase here ended)
      · cases stepped
        exact .scan (.alive here)
  · next t e rest here =>
      split at stepped
      · cases stepped
        exact .scan (.isBusy here)
      · next free =>
          cases stepped
          exact .scan (.notBusy here (Bool.eq_false_iff.mpr free))
  · next t e here =>
      cases stepped
      exact .setBusy here
  · next t here =>
      cases stepped
      exact .create here
  · next t e here =>
      cases stepped
      exact .scan (.leave here)
  · next t e here =>
      split at stepped
      · next free =>
          cases stepped
          exact .lock here free
      · cases stepped
  · next t e here =>
      cases stepped
      exact .store here
  · next t e here =>
      cases stepped
      exact .unlock here

theorem moves_of_executorStep {e : Nat} (stepped : s.executorStep autoDelete e = some next) :
    Moves autoDelete s (.executor e) next := by
  simp only [State.executorStep] at stepped
  split at stepped
  · next here =>
      split at stepped
      · next ends =>
          cases stepped
          exact .run nofun (.leave here ends)
      · next goesOn =>
          cases stepped
          exact .run nofun (.enter here (Bool.eq_false_iff.mpr goesOn))
  · next here =>
      split at stepped
      · next free =>
          cases stepped
          exact .run nofun (.lock here free)
      · cases stepped
  · next timedOut here =>
      split at stepped
      · next reason =>
          cases stepped
          exact .run nofun (.ready here reason)
      · next reason =>
          rw [not_or, not_not, Bool.not_eq_true] at reason
          split at stepped
          · next expired =>
              cases stepped
              subst expired
              exact .run nofun (.expire here reason.1 reason.2)
          · next expired =>
              cases stepped
              rw [Bool.not_eq_true] at expired
              subst expired
              exact .run nofun (.wait here reason.1 reason.2)
  · next timedOut here =>
      split at stepped
      · next free =>
          cases stepped
          exact .run nofun (.relock here free)
      · cases stepped
  · next here =>
      cases stepped
      exact .run nofun (.count here)
  · next here =>
      split at stepped
      · next ends =>
          cases stepped
          exact .run nofun (.giveUp here ends)
      · next goesOn =>
          cases stepped
          exact .run nofun (.start here (Bool.eq_false_iff.mpr goesOn))
  · next here =>
      split at stepped
      · next t task =>
          cases stepped
          exact .execute here task
      · next nothing =>
          cases stepped
          exact .run nofun (.crash (.inl here) nothing)
  · next here =>
      split at stepped
      · next t task =>
          cases stepped
          exact .finish here task
      · next nothing =>
          cases stepped
          exact .run nofun (.crash (.inr here) nothing)
  · next here =>
      cases stepped
      exact .clear here
  · next here =>
      cases stepped
      exact .run nofun (.clearBusy here)
  · next here =>
      cases stepped
      exact .run nofun (.unlock here)
  all_goals cases stepped

theorem moves_of_step {action : Action} (stepped : (system autoDelete).step action s = some next) :
    Moves autoDelete s action next := by
  cases action with
  | submit c =>
      simp only [system, State.step] at stepped
      split at stepped
      · next here =>
          cases stepped
          exact .submit here
      · cases stepped
  | caller c => exact moves_of_callerStep stepped
  | executor e => exact moves_of_executorStep stepped
  | wake e timedOut =>
      simp only [system, State.step] at stepped
      split at stepped
      · next here =>
          cases stepped
          exact .run nofun (.wake timedOut here)
      · cases stepped
  | setTimeout timeout =>
      cases stepped
      exact .setTimeout timeout

end LibTasks.Exec

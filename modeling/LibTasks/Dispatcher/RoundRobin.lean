import LibTasks.Foundation.Balance
import LibTasks.Tools.Buffer

/-!
# Round robin in `MULTI_LOOP` mode

How `dispatcher::get_worker_by_task` picks the workers of new event tasks
(`tasks/dispatcher.cpp`), for tasks that are added by `add_event_task` and for senders that
add themselves in their first `send` (`include/tasks/net/http_sender.h`).
-/

namespace LibTasks.Dispatcher.RoundRobin

open LibTasks.Foundation
open LibTasks.Tools (Fault)

/-- An `event_task`: its `m_worker`, one of the `n` elements of `m_workers`. -/
structure EventTask (n : Nat) where
  worker : Option (Fin n) := none
  deriving DecidableEq

/-- The parts of `dispatcher` that count, and the tasks added so far. -/
structure State (n : Nat) where
  /-- `m_rr_worker_id` -/
  rrWorkerId : UInt8 := 0
  tasks : List (EventTask n) := []
  deriving DecidableEq

/-- The ways in which a task gets its worker. -/
inductive Addition where
  | addEventTask
  | send
  deriving DecidableEq, Repr

section Model

variable {n : Nat} [NeZero n]

/-- `get_worker_by_task` in `MULTI_LOOP` mode, with `m_rr_worker_id` after it. -/
def getWorkerByTask (rrWorkerId : UInt8) (task : EventTask n) : Fin n × UInt8 :=
  match task.worker with
  | some worker => (worker, rrWorkerId)
  | none => (Fin.ofNat n rrWorkerId.toNat, rrWorkerId + 1)

/-- `event_task::assign_worker` -/
def assignWorker (task : EventTask n) (worker : Fin n) : Except Fault (EventTask n) :=
  let task := if task.worker = none then { worker := some worker } else task
  if task.worker = some worker then .ok task else .error .assertion

/-- `add_event_task`, without the watcher. -/
def addEventTask (rrWorkerId : UInt8) (task : EventTask n) :
    Except Fault (EventTask n × UInt8) := do
  let (worker, rrWorkerId) := getWorkerByTask rrWorkerId task
  let task ← assignWorker task worker
  return (task, rrWorkerId)

/-- The first `http_sender::send`: the worker is looked up before the socket is connected,
and again in `add_event_task`. -/
def firstSend (rrWorkerId : UInt8) (task : EventTask n) :
    Except Fault (EventTask n × UInt8) :=
  let (_, rrWorkerId) := getWorkerByTask rrWorkerId task
  addEventTask rrWorkerId task

/-- A new task is added. -/
def State.add (s : State n) (addition : Addition) : Except Fault (State n) := do
  let (task, rrWorkerId) ← match addition with
    | .addEventTask => addEventTask s.rrWorkerId {}
    | .send => firstSend s.rrWorkerId {}
  return { rrWorkerId, tasks := s.tasks ++ [task] }

variable (n) in
/-- The first `k` additions. -/
def run (additions : Nat → Addition) : Nat → Except Fault (State n)
  | 0 => .ok {}
  | k + 1 => do (← run additions k).add (additions k)

/-- The number of tasks assigned to a worker. -/
def State.load (s : State n) (worker : Fin n) : Nat :=
  s.tasks.countP (·.worker = some worker)

/-- The numbers of any two workers differ by at most one. -/
def State.Balanced (s : State n) : Prop := ∀ v w, s.load v ≤ s.load w + 1

end Model

/-- How often an addition draws from the counter. -/
def Addition.draws : Addition → Nat
  | .addEventTask => 1
  | .send => 2

variable (additions : Nat → Addition)

/-- The number of draws made by the first `k` additions. -/
def drawsBefore (k : Nat) : Nat := ∑ i ∈ Finset.range k, (additions i).draws

/-- The value of the counter that decides the worker of the `i`-th addition. -/
def decisive (i : Nat) : Nat := (drawsBefore additions i + (additions i).draws - 1) % 256

theorem drawsBefore_succ (k : Nat) :
    drawsBefore additions (k + 1) = drawsBefore additions k + (additions k).draws :=
  Finset.sum_range_succ ..

/-- The worker of the `i`-th addition. -/
def workerOf (n : Nat) [NeZero n] (additions : Nat → Addition) (i : Nat) : Fin n :=
  Fin.ofNat n (decisive additions i)

variable {n : Nat} [NeZero n]

theorem add_eq (s : State n) (k : Nat)
    (counter : s.rrWorkerId = UInt8.ofNat (drawsBefore additions k)) :
    s.add (additions k) = .ok
      { rrWorkerId := UInt8.ofNat (drawsBefore additions (k + 1))
        tasks := s.tasks ++ [{ worker := some (workerOf n additions k) }] } := by
  rw [workerOf, decisive, drawsBefore_succ]
  cases additions k with
  | addEventTask =>
      simp [State.add, addEventTask, getWorkerByTask, assignWorker, counter, Addition.draws,
        UInt8.ofNat_add, bind, Except.bind, pure, Except.pure]
  | send =>
      have twice : UInt8.ofNat (drawsBefore additions k) + 1 + 1 =
          UInt8.ofNat (drawsBefore additions k + 2) := by
        rw [UInt8.ofNat_add, UInt8.add_assoc]
        rfl
      simp [State.add, firstSend, addEventTask, getWorkerByTask, assignWorker, counter,
        Addition.draws, bind, Except.bind, pure, Except.pure, twice]

theorem run_eq (k : Nat) :
    run n additions k = .ok
      { rrWorkerId := UInt8.ofNat (drawsBefore additions k)
        tasks := (List.range k).map fun i => { worker := some (workerOf n additions i) } } := by
  induction k with
  | zero => rfl
  | succ k ih =>
      rw [run, ih]
      change State.add _ _ = _
      rw [add_eq additions _ k rfl, List.range_succ, List.map_append]
      rfl

/-- The load of a worker is how often it was handed out. -/
theorem load_eq {s : State n} {k : Nat} (ran : run n additions k = .ok s) (worker : Fin n) :
    s.load worker = handedOut (workerOf n additions) k worker := by
  rw [run_eq] at ran
  cases ran
  rw [State.load]
  induction k with
  | zero => rfl
  | succ k ih =>
      rw [List.range_succ, List.map_append, List.countP_append, ih, handedOut_succ]
      simp

theorem balanced_run_iff (k : Nat) :
    (∃ s, run n additions k = .ok s ∧ s.Balanced) ↔ BalancedAt (workerOf n additions) k := by
  constructor
  · intro ⟨s, ran, balanced⟩ v w
    rw [← load_eq additions ran, ← load_eq additions ran]
    exact balanced v w
  · intro balanced
    refine ⟨_, run_eq additions k, ?_⟩
    intro v w
    rw [load_eq additions (run_eq additions k), load_eq additions (run_eq additions k)]
    exact balanced v w

theorem workerOf_ne_iff (i j : Nat) :
    workerOf n additions i ≠ workerOf n additions j ↔
      decisive additions i % n ≠ decisive additions j % n := by
  rw [ne_eq, Fin.ext_iff]
  rfl

/-- **Round robin.**  The workers stay balanced exactly when, in every round of as many
additions as there are workers, the values of the counter that decide them differ modulo
the number of workers. -/
theorem stays_balanced_iff (n : Nat) [NeZero n] (additions : Nat → Addition) (length : Nat) :
    (∀ k ≤ length, ∃ s, run n additions k = .ok s ∧ s.Balanced) ↔
      ∀ i j, i < j → j < length → i / n = j / n →
        decisive additions i % n ≠ decisive additions j % n := by
  simp only [balanced_run_iff, balancedAt_iff, DistinctRounds, workerOf_ne_iff, Fintype.card_fin]

/-- Three tasks that are added to four workers. -/
theorem stays_balanced_iff_four :
    NeZero 4 ∧ ∀ k ≤ 3, ∃ s, run 4 (fun _ => .addEventTask) k = .ok s ∧ s.Balanced := by
  refine ⟨inferInstance, (stays_balanced_iff 4 (fun _ => .addEventTask) 3).mpr ?_⟩
  intro i j before inside _
  interval_cases j <;> interval_cases i <;> decide

theorem decisive_addEventTask (i : Nat) : decisive (fun _ => .addEventTask) i = i % 256 := by
  simp [decisive, drawsBefore, Addition.draws]

/-- Without senders the workers stay balanced until the counter wraps around, and beyond
that when their number divides the number of its values. -/
theorem stays_balanced_addEventTask_iff (n : Nat) [NeZero n] (length : Nat) :
    (∀ k ≤ length, ∃ s, run n (fun _ => .addEventTask) k = .ok s ∧ s.Balanced) ↔
      n ∣ 256 ∨ length ≤ 256 := by
  have positive : 0 < n := Nat.pos_of_neZero n
  simp only [balanced_run_iff, balancedAt_iff, DistinctRounds, workerOf_ne_iff, Fintype.card_fin,
    decisive_addEventTask]
  constructor
  · intro distinct
    by_contra! wraps
    have ⟨indivisible, long⟩ := wraps
    have remainder : 256 % n ≠ 0 := fun whole => indivisible (Nat.dvd_of_mod_eq_zero whole)
    have split := Nat.div_add_mod 256 n
    -- The round in which the counter wraps around began with the first worker.
    refine distinct (n * (256 / n)) 256 (by omega) long ?_ ?_
    · exact Nat.mul_div_cancel_left _ positive
    · rw [Nat.mod_eq_of_lt (by omega : n * (256 / n) < 256), Nat.mul_mod_right, Nat.mod_self,
        Nat.zero_mod]
  · intro bound i j before inside round same
    have unwrapped : i % n = j % n := by
      rcases bound with divides | short
      · rwa [Nat.mod_mod_of_dvd _ divides, Nat.mod_mod_of_dvd _ divides] at same
      · rwa [Nat.mod_eq_of_lt (by omega : i < 256), Nat.mod_eq_of_lt (by omega : j < 256)] at same
    have first := Nat.div_add_mod i n
    have second := Nat.div_add_mod j n
    rw [round, unwrapped] at first
    omega

/-- Two senders get the second of two workers both, and the 257th task of three workers
comes back to the first one too early. -/
theorem not_balanced :
    (∃ s, run 2 (fun _ => .send) 2 = .ok s ∧ s.load 0 = 0 ∧ s.load 1 = 2) ∧
      ¬∀ k ≤ 257, ∃ s, run 3 (fun _ => .addEventTask) k = .ok s ∧ s.Balanced := by
  refine ⟨⟨_, rfl, rfl, rfl⟩, ?_⟩
  rw [stays_balanced_addEventTask_iff]
  decide

end LibTasks.Dispatcher.RoundRobin

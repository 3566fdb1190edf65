import LibTasks.Foundation.LinkedList
import LibTasks.Foundation.Transition

/-!
# `tasks::tools::queue`

The queue of `include/tasks/tools/queue.h`: a linked list with a dummy node in front,
one spinlock for pushing and another one for popping.  Any number of threads call
`push` and `pop`; a step is one access to the shared state.  The allocator may return
any address that is not in use, also one that was used before.
-/

namespace LibTasks.Tools

open LibTasks.Foundation

/-- Where a thread is in a call of `push` or `pop`. -/
inductive QueueThread (α : Type) where
  /-- In no call. -/
  | idle
  /-- `push` of `v` has made its node and waits for the lock. -/
  | allocated (v : α) (n : Nat)
  /-- `push` of `v` has the lock. -/
  | pushLocked (v : α) (n : Nat)
  /-- `push` has stored `m_last->next`. -/
  | nodeLinked (n : Nat)
  /-- `push` has stored `m_last`. -/
  | pushed
  /-- `pop` has the lock. -/
  | popLocked
  /-- `pop` has found a next node. -/
  | found
  /-- `pop` has found none. -/
  | empty
  /-- `pop` has advanced `m_first`. -/
  | advanced (old : Nat)
  /-- `pop` has copied the value. -/
  | copied (old : Nat) (res : α)
  /-- `pop` has released the lock. -/
  | released (old : Nat) (res : α)
  deriving DecidableEq, Repr

/-- The queue, its threads, and what has happened so far. -/
structure QueueState (α : Type) where
  heap : Heap α
  first : Nat := 0
  last : Nat := 0
  pushLock : Bool := false
  popLock : Bool := false
  threads : Nat → QueueThread α := fun _ => .idle
  /-- The arguments of the calls of `push` that have linked their node, in this order. -/
  linked : List α := []
  /-- How often `m_first` was advanced. -/
  taken : Nat := 0
  /-- The values that `pop` has copied to its results, in this order. -/
  popped : List α := []
  /-- Some step has accessed a node that is not allocated. -/
  fault : Bool := false

/-- The steps of the threads. -/
inductive QueueAction (α : Type) where
  | allocate (t : Nat) (v : α) (n : Nat)
  | lockPush (t : Nat)
  | link (t : Nat)
  | setLast (t : Nat)
  | unlockPush (t : Nat)
  | lockPop (t : Nat)
  | test (t : Nat)
  | advance (t : Nat)
  | copy (t : Nat)
  | unlockPop (t : Nat)
  | delete (t : Nat)
  deriving DecidableEq, Repr

namespace QueueState

variable {α : Type}

/-- The thread `t` goes on to `place`. -/
def goto (s : QueueState α) (t : Nat) (place : QueueThread α) : QueueState α :=
  { s with threads := Function.update s.threads t place }

/-- An access to a node that is not allocated. -/
def crash (s : QueueState α) : QueueState α := { s with fault := true }

/-- The constructor: one node with a default value. -/
def create (dummy : α) : QueueState α where
  heap := Function.update (fun _ => none) 0 (some ⟨dummy, none⟩)

/-- A step.  `lock` of a spinlock that is set leaves everything as it is. -/
def step : QueueAction α → QueueState α → Option (QueueState α)
  | .allocate t v n, s =>
      match s.threads t, s.heap n with
      | .idle, none =>
          some (goto { s with heap := Function.update s.heap n (some ⟨v, none⟩) } t
            (.allocated v n))
      | _, _ => none
  | .lockPush t, s =>
      match s.threads t with
      | .allocated v n =>
          if s.pushLock then some s
          else some (goto { s with pushLock := true } t (.pushLocked v n))
      | _ => none
  | .link t, s =>
      match s.threads t with
      | .pushLocked v n =>
          match s.heap s.last with
          | some node => some (goto
              { s with
                heap := Function.update s.heap s.last (some ⟨node.val, some n⟩)
                linked := s.linked ++ [v] } t (.nodeLinked n))
          | none => some s.crash
      | _ => none
  | .setLast t, s =>
      match s.threads t with
      | .nodeLinked n => some (goto { s with last := n } t .pushed)
      | _ => none
  | .unlockPush t, s =>
      match s.threads t with
      | .pushed => some (goto { s with pushLock := false } t .idle)
      | _ => none
  | .lockPop t, s =>
      match s.threads t with
      | .idle => if s.popLock then some s else some (goto { s with popLock := true } t .popLocked)
      | _ => none
  | .test t, s =>
      match s.threads t with
      | .popLocked =>
          match s.heap s.first with
          | some ⟨_, some _⟩ => some (s.goto t .found)
          | some ⟨_, none⟩ => some (s.goto t .empty)
          | none => some s.crash
      | _ => none
  | .advance t, s =>
      match s.threads t with
      | .found =>
          match s.heap s.first with
          | some ⟨_, some next⟩ =>
              some (goto { s with first := next, taken := s.taken + 1 } t (.advanced s.first))
          | _ => some s.crash
      | _ => none
  | .copy t, s =>
      match s.threads t with
      | .advanced old =>
          match s.heap s.first with
          | some node =>
              some (goto { s with popped := s.popped ++ [node.val] } t (.copied old node.val))
          | none => some s.crash
      | _ => none
  | .unlockPop t, s =>
      match s.threads t with
      | .copied old res => some (goto { s with popLock := false } t (.released old res))
      | .empty => some (goto { s with popLock := false } t .idle)
      | _ => none
  | .delete t, s =>
      match s.threads t with
      | .released old _ =>
          match s.heap old with
          | some _ => some (goto { s with heap := Function.update s.heap old none } t .idle)
          | none => some s.crash
      | _ => none

end QueueState

/-- The queue with the default value `dummy`, and all interleavings of its threads. -/
def queueSystem {α : Type} (dummy : α) : System (QueueState α) (QueueAction α) where
  init := .create dummy
  step := QueueState.step

namespace QueueState

variable {α : Type}

/-- The next step of the thread `t` accesses the node at `a`. -/
def Accesses (s : QueueState α) (t a : Nat) : Prop :=
  match s.threads t with
  | .pushLocked .. => a = s.last
  | .popLocked | .found | .advanced _ => a = s.first
  | .released old _ => a = old
  | _ => False

/-- The ways in which a thread gets on. -/
inductive Moves (s : QueueState α) : QueueState α → Prop where
  | spin : Moves s s
  | crash {t a : Nat} (access : s.Accesses t a) (dead : s.heap a = none) : Moves s s.crash
  /-- `m_first` becomes a null pointer. -/
  | null {t : Nat} {u : α} (here : s.threads t = .found)
      (end_ : s.heap s.first = some ⟨u, none⟩) : Moves s s.crash
  | allocate {t n : Nat} (v : α) (here : s.threads t = .idle) (unused : s.heap n = none) :
      Moves s (goto { s with heap := Function.update s.heap n (some ⟨v, none⟩) } t
        (.allocated v n))
  | lockPush {t n : Nat} {v : α} (here : s.threads t = .allocated v n) (free : s.pushLock = false) :
      Moves s (goto { s with pushLock := true } t (.pushLocked v n))
  | link {t n : Nat} {v : α} {node : Node α} (here : s.threads t = .pushLocked v n)
      (end_ : s.heap s.last = some node) :
      Moves s (goto
        { s with
          heap := Function.update s.heap s.last (some ⟨node.val, some n⟩)
          linked := s.linked ++ [v] } t (.nodeLinked n))
  | setLast {t n : Nat} (here : s.threads t = .nodeLinked n) :
      Moves s (goto { s with last := n } t .pushed)
  | unlockPush {t : Nat} (here : s.threads t = .pushed) :
      Moves s (goto { s with pushLock := false } t .idle)
  | lockPop {t : Nat} (here : s.threads t = .idle) (free : s.popLock = false) :
      Moves s (goto { s with popLock := true } t .popLocked)
  | find {t next : Nat} {u : α} (here : s.threads t = .popLocked)
      (dummy : s.heap s.first = some ⟨u, some next⟩) : Moves s (s.goto t .found)
  | miss {t : Nat} {u : α} (here : s.threads t = .popLocked)
      (dummy : s.heap s.first = some ⟨u, none⟩) : Moves s (s.goto t .empty)
  | advance {t next : Nat} {u : α} (here : s.threads t = .found)
      (dummy : s.heap s.first = some ⟨u, some next⟩) :
      Moves s (goto { s with first := next, taken := s.taken + 1 } t (.advanced s.first))
  | copy {t old : Nat} {node : Node α} (here : s.threads t = .advanced old)
      (dummy : s.heap s.first = some node) :
      Moves s (goto { s with popped := s.popped ++ [node.val] } t (.copied old node.val))
  | unlockPop {t old : Nat} {res : α} (here : s.threads t = .copied old res) :
      Moves s (goto { s with popLock := false } t (.released old res))
  | giveUp {t : Nat} (here : s.threads t = .empty) :
      Moves s (goto { s with popLock := false } t .idle)
  | delete {t old : Nat} {res : α} {node : Node α} (here : s.threads t = .released old res)
      (allocated : s.heap old = some node) :
      Moves s (goto { s with heap := Function.update s.heap old none } t .idle)

theorem moves_of_step {action : QueueAction α} {s next : QueueState α}
    (stepped : step action s = some next) : s.Moves next := by
  cases action with
  | allocate t v n =>
      simp only [step] at stepped
      split at stepped
      · next here unused =>
          cases stepped
          exact .allocate v here unused
      · cases stepped
  | lockPush t =>
      simp only [step] at stepped
      split at stepped
      · next v n here =>
          split at stepped
          · cases stepped
            exact .spin
          · next free =>
              cases stepped
              exact .lockPush here (Bool.eq_false_iff.mpr free)
      · cases stepped
  | link t =>
      simp only [step] at stepped
      split at stepped
      · next v n here =>
          split at stepped
          · next node end_ =>
              cases stepped
              exact .link here end_
          · next dead =>
              cases stepped
              exact .crash (t := t) (by simp only [Accesses, here]) dead
      · cases stepped
  | setLast t =>
      simp only [step] at stepped
      split at stepped
      · next n here =>
          cases stepped
          exact .setLast here
      · cases stepped
  | unlockPush t =>
      simp only [step] at stepped
      split at stepped
      · next here =>
          cases stepped
          exact .unlockPush here
      · cases stepped
  | lockPop t =>
      simp only [step] at stepped
      split at stepped
      · next here =>
          split at stepped
          · cases stepped
            exact .spin
          · next free =>
              cases stepped
              exact .lockPop here (Bool.eq_false_iff.mpr free)
      · cases stepped
  | test t =>
      simp only [step] at stepped
      split at stepped
      · next here =>
          split at stepped
          · next dummy =>
              cases stepped
              exact .find here dummy
          · next dummy =>
              cases stepped
              exact .miss here dummy
          · next dead =>
              cases stepped
              exact .crash (t := t) (by simp only [Accesses, here]) dead
      · cases stepped
  | advance t =>
      simp only [step] at stepped
      split at stepped
      · next here =>
          split at stepped
          · next dummy =>
              cases stepped
              exact .advance here dummy
          · next other =>
              cases stepped
              cases dummy : s.heap s.first with
              | none => exact .crash (t := t) (by simp only [Accesses, here]) dummy
              | some node =>
                  obtain ⟨u, next⟩ := node
                  cases next with
                  | none => exact .null here dummy
                  | some next => exact absurd dummy (other u next)
      · cases stepped
  | copy t =>
      simp only [step] at stepped
      split at stepped
      · next old here =>
          split at stepped
          · next node dummy =>
              cases stepped
              exact .copy here dummy
          · next dead =>
              cases stepped
              exact .crash (t := t) (by simp only [Accesses, here]) dead
      · cases stepped
  | unlockPop t =>
      simp only [step] at stepped
      split at stepped
      · next old res here =>
          cases stepped
          exact .unlockPop here
      · next here =>
          cases stepped
          exact .giveUp here
      · cases stepped
  | delete t =>
      simp only [step] at stepped
      split at stepped
      · next old res here =>
          split at stepped
          · next node allocated =>
              cases stepped
              exact .delete here allocated
          · next dead =>
              cases stepped
              exact .crash (t := t) (by simp only [Accesses, here]) dead
      · cases stepped

end QueueState

end LibTasks.Tools

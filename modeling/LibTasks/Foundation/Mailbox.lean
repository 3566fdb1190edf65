import Mathlib

/-!
# Queues emptied by swapping

Many producers append to a queue; a single consumer swaps the content out and
works through its private copy from the front.  The logs of everything pushed and
everything executed state what such a queue is for: nothing is lost, duplicated
or reordered.
-/

namespace LibTasks.Foundation

universe u

/-- The two logs, the consumer's private copy and the queue itself. -/
structure Mailbox (α : Type u) where
  pushed : List α
  executed : List α
  held : List α
  queued : List α

namespace Mailbox

variable {α : Type u}

/-- The operations on a mailbox. -/
inductive Step : Mailbox α → Mailbox α → Prop where
  | stutter (box : Mailbox α) : Step box box
  | push (box : Mailbox α) (f : α) :
      Step box { box with pushed := box.pushed ++ [f], queued := box.queued ++ [f] }
  | swap (box : Mailbox α) (empty : box.held = []) :
      Step box { box with held := box.queued, queued := [] }
  | execute (box : Mailbox α) {f : α} {rest : List α} (front : box.held = f :: rest) :
      Step box { box with executed := box.executed ++ [f], held := rest }

/-- Everything pushed was executed, is held by the consumer or is still queued, in
this order. -/
def Ordered (box : Mailbox α) : Prop :=
  box.pushed = box.executed ++ box.held ++ box.queued

theorem Step.ordered {box next : Mailbox α} (step : Step box next) (ordered : box.Ordered) :
    next.Ordered := by
  unfold Ordered at ordered ⊢
  cases step with
  | stutter => exact ordered
  | push f => simp [ordered]
  | swap empty => simp [ordered, empty]
  | execute front => simp [ordered, front]

/-- The log of what was pushed only grows. -/
theorem Step.pushed_grows {box next : Mailbox α} (step : Step box next) :
    box.pushed <+: next.pushed := by
  cases step with
  | push f => exact List.prefix_append _ _
  | stutter | swap | execute => exact List.prefix_refl _

/-- What the consumer has taken stays taken, and in its place. -/
theorem Step.taken_grows {box next : Mailbox α} (step : Step box next) :
    box.executed ++ box.held <+: next.executed ++ next.held := by
  cases step with
  | stutter | push => exact List.prefix_refl _
  | swap empty =>
      rw [empty, List.append_nil]
      exact List.prefix_append _ _
  | execute front =>
      rw [front, List.append_assoc]
      exact List.prefix_refl _

end Mailbox

end LibTasks.Foundation

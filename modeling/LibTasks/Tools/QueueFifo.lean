import LibTasks.Foundation.Lock
import LibTasks.Tools.Queue

/-!
# The queue is first in, first out

The list from `m_first` is shared by all threads; every other node in use is known to
one thread only: the pusher that has made it, or the popper that has to delete it.  A
pusher and a popper can be at work at the same time, so the end of the list is
`m_last` only while no pusher is between its two stores.
-/

namespace LibTasks.Tools

open LibTasks.Foundation

namespace QueueThread

variable {α : Type}

/-- Inside the section of the push lock. -/
def pushing : QueueThread α → Bool
  | .pushLocked .. | .nodeLinked _ | .pushed => true
  | _ => false

/-- Inside the section of the pop lock. -/
def popping : QueueThread α → Bool
  | .popLocked | .found | .empty | .advanced _ | .copied .. => true
  | _ => false

/-- Between the two stores of `push`. -/
def linking : QueueThread α → Option Nat
  | .nodeLinked n => some n
  | _ => none

/-- Between advancing `m_first` and copying the value. -/
def copying : QueueThread α → Bool
  | .advanced _ => true
  | _ => false

/-- The node that no other thread knows. -/
def owned : QueueThread α → Option Nat
  | .allocated _ n | .pushLocked _ n => some n
  | .advanced old | .copied old _ | .released old _ => some old
  | _ => none

/-- What the node of a thread holds. -/
def Content : QueueThread α → Option (Node α) → Prop
  | .allocated v _, node | .pushLocked v _, node => node = some ⟨v, none⟩
  | _, node => node ≠ none

end QueueThread

namespace QueueState

open QueueThread

variable {α : Type} {s next : QueueState α} {t : Nat} {before place : QueueThread α}

theorem kept {β : Type} {f : QueueThread α → β} (here : s.threads t = before)
    (same : f place = f before) (u : Nat) :
    f (Function.update s.threads t place u) = f (s.threads u) := by
  by_cases this : u = t
  · rw [this, Function.update_self, same, here]
  · rw [Function.update_of_ne this]

theorem others {β : Type} (f : QueueThread α → β) (u : Nat) (other : u ≠ t) :
    f (Function.update s.threads t place u) = f (s.threads u) := by
  rw [Function.update_of_ne other]

/-- The nodes in use beside those in `shared`. -/
structure Owned (heap : Heap α) (shared : List Nat) (threads : Nat → QueueThread α) : Prop where
  content : ∀ {t n}, owned (threads t) = some n → Content (threads t) (heap n)
  apart : ∀ {t n}, owned (threads t) = some n → n ∉ shared
  once : ∀ {t u n}, owned (threads t) = some n → owned (threads u) = some n → t = u

/-- A thread goes on, and the nodes of the others stay as they are. -/
theorem Owned.goto {heap after : Heap α} {shared rest : List Nat}
    {threads : Nat → QueueThread α} (own : Owned heap shared threads)
    (mine : ∀ n, owned place = some n → Content place (after n) ∧ n ∉ rest ∧
      ∀ u, u ≠ t → owned (threads u) ≠ some n)
    (theirs : ∀ u, u ≠ t → ∀ n, owned (threads u) = some n → after n = heap n ∧ n ∉ rest) :
    Owned after rest (Function.update threads t place) where
  content {u n} owns := by
    by_cases this : u = t
    · rw [this, Function.update_self] at owns ⊢
      exact (mine n owns).1
    · rw [Function.update_of_ne this] at owns ⊢
      rw [(theirs u this n owns).1]
      exact own.content owns
  apart {u n} owns := by
    by_cases this : u = t
    · rw [this, Function.update_self] at owns
      exact (mine n owns).2.1
    · rw [Function.update_of_ne this] at owns
      exact (theirs u this n owns).2
  once {u w n} left right := by
    by_cases first : u = t <;> by_cases second : w = t
    · exact first.trans second.symm
    · rw [first, Function.update_self] at left
      rw [Function.update_of_ne second] at right
      exact absurd right ((mine n left).2.2 w second)
    · rw [second, Function.update_self] at right
      rw [Function.update_of_ne first] at left
      exact absurd left ((mine n right).2.2 u first)
    · rw [Function.update_of_ne first] at left
      rw [Function.update_of_ne second] at right
      exact own.once left right

/-- A thread goes on with the node it has. -/
theorem Owned.keep {heap : Heap α} {shared : List Nat} {threads : Nat → QueueThread α}
    (own : Owned heap shared threads) (here : threads t = before)
    (same : owned place = owned before)
    (content : ∀ node, Content before node → Content place node) :
    Owned heap shared (Function.update threads t place) := by
  apply own.goto
  · intro n owns
    subst here
    rw [same] at owns
    exact ⟨content _ (own.content owns), own.apart owns, fun u other holds =>
      other (own.once holds owns)⟩
  · intro u _ n owns
    exact ⟨rfl, own.apart owns⟩

/-- The last node of the list is `m_last`, or the one that a pusher has just linked. -/
def EndsAt (s : QueueState α) (e : Nat) : Prop :=
  (∃ t, linking (s.threads t) = some e) ∨ (∀ t, linking (s.threads t) = none) ∧ e = s.last

/-- The values that were advanced over have been copied, up to the one that a popper is
about to copy. -/
def Copies (s : QueueState α) : Prop :=
  (∃ t node, copying (s.threads t) = true ∧ s.heap s.first = some node ∧
    s.linked.take s.taken = s.popped ++ [node.val]) ∨
  (∀ t, copying (s.threads t) = false) ∧ s.linked.take s.taken = s.popped

theorem EndsAt.frame {e : Nat} (ends : s.EndsAt e)
    (same : ∀ u, linking (next.threads u) = linking (s.threads u)) (last : next.last = s.last) :
    next.EndsAt e := by
  simp only [EndsAt, same, last]
  exact ends

theorem Copies.frame (copies : s.Copies)
    (same : ∀ u, copying (next.threads u) = copying (s.threads u))
    (front : ∀ node, s.heap s.first = some node →
      ∃ after, next.heap next.first = some after ∧ after.val = node.val)
    (taken : next.linked.take next.taken = s.linked.take s.taken)
    (popped : next.popped = s.popped) : next.Copies := by
  simp only [Copies, same, taken, popped]
  rcases copies with ⟨t, node, copies, first, values⟩ | done
  · rcases front node first with ⟨after, there, value⟩
    exact .inl ⟨t, after, copies, there, value ▸ values⟩
  · exact .inr done

/-- What holds between any two steps, with the addresses of the nodes behind `m_first`. -/
structure Inv (s : QueueState α) (places : List Nat) : Prop where
  sound : s.fault = false
  list : Follow s.heap s.first places (s.linked.drop s.taken)
  different : (s.first :: places).Nodup
  within : s.taken ≤ s.linked.length
  own : Owned s.heap (s.first :: places) s.threads
  pushers : Exclusive (fun t => pushing (s.threads t)) s.pushLock
  poppers : Exclusive (fun t => popping (s.threads t)) s.popLock
  ends : s.EndsAt ((s.first :: places).getLast (List.cons_ne_nil _ _))
  copies : s.Copies
  ready : ∀ {t}, s.threads t = .found → places ≠ []

variable {places : List Nat}

theorem Inv.ready_update (inv : s.Inv places) {u : Nat}
    (isFound : Function.update s.threads t place u = .found)
    (mine : place = .found → places ≠ []) : places ≠ [] := by
  by_cases this : u = t
  · rw [this, Function.update_self] at isFound
    exact mine isFound
  · rw [Function.update_of_ne this] at isFound
    exact inv.ready isFound

/-- A step that changes the locks and the place of a thread only. -/
theorem Inv.quiet (inv : s.Inv places) {pushLock popLock : Bool}
    (here : s.threads t = before) (sameOwned : owned place = owned before)
    (content : ∀ node, Content before node → Content place node)
    (sameLinking : linking place = linking before) (sameCopying : copying place = copying before)
    (pushers : Exclusive (fun u => pushing (Function.update s.threads t place u)) pushLock)
    (poppers : Exclusive (fun u => popping (Function.update s.threads t place u)) popLock)
    (ready : place = .found → places ≠ []) :
    (goto { s with pushLock := pushLock, popLock := popLock } t place).Inv places where
  sound := inv.sound
  list := inv.list
  different := inv.different
  within := inv.within
  own := inv.own.keep here sameOwned content
  pushers := pushers
  poppers := poppers
  ends := inv.ends.frame (kept here sameLinking) rfl
  copies := inv.copies.frame (kept here sameCopying) (fun node first => ⟨node, first, rfl⟩) rfl rfl
  ready := fun isFound => inv.ready_update isFound ready

/-- No access goes to a node that is not allocated. -/
theorem Inv.not_dead (inv : s.Inv places) {a : Nat} (dead : s.heap a = none) :
    a ∉ s.first :: places ∧ ∀ t, owned (s.threads t) ≠ some a := by
  constructor
  · intro member
    rcases inv.list.live a member with ⟨node, live⟩
    cases dead.symm.trans live
  · intro t owns
    have content := inv.own.content owns
    rw [dead] at content
    cases here : s.threads t <;> rw [here] at content <;> first | cases content | exact content rfl

theorem pushing_of_linking {place : QueueThread α} {n : Nat} (linked : linking place = some n) :
    pushing place = true := by
  cases place with
  | nodeLinked => rfl
  | _ => cases linked

/-- A pusher with the lock, before its first store, finds the end of the list at `m_last`. -/
theorem Inv.last_eq (inv : s.Inv places) {v : α} {n : Nat} (here : s.threads t = .pushLocked v n) :
    (s.first :: places).getLast (List.cons_ne_nil _ _) = s.last := by
  rcases inv.ends with ⟨u, linked⟩ | ⟨_, atLast⟩
  · have same : u = t := inv.pushers.unique (pushing_of_linking linked) (by rw [here]; rfl)
    rw [same, here] at linked
    cases linked
  · exact atLast

/-- What a thread is about to access is in the list, or its own. -/
theorem Inv.accesses (inv : s.Inv places) {a : Nat} (access : s.Accesses t a) :
    a ∈ s.first :: places ∨ owned (s.threads t) = some a := by
  simp only [Accesses] at access
  split at access
  · next here =>
      rw [access, ← inv.last_eq here]
      exact .inl (List.getLast_mem _)
  · exact .inl (access ▸ List.mem_cons_self)
  · exact .inl (access ▸ List.mem_cons_self)
  · exact .inl (access ▸ List.mem_cons_self)
  · next here =>
      rw [access, here]
      exact .inr rfl
  · cases access

theorem Inv.no_crash (inv : s.Inv places) {a : Nat} (access : s.Accesses t a)
    (dead : s.heap a = none) : False := by
  have unused := inv.not_dead dead
  rcases inv.accesses access with shared | owns
  · exact unused.1 shared
  · exact unused.2 t owns

theorem Inv.no_null (inv : s.Inv places) {u : α} (here : s.threads t = .found)
    (end_ : s.heap s.first = some ⟨u, none⟩) : False :=
  inv.ready here (inv.list.eq_nil_of_next end_).1

theorem popping_of_copying {place : QueueThread α} (copies : copying place = true) :
    popping place = true := by
  cases place with
  | advanced => rfl
  | _ => cases copies

/-- `push` has made its node. -/
theorem Inv.allocate (inv : s.Inv places) {n : Nat} (v : α) (here : s.threads t = .idle)
    (unused : s.heap n = none) :
    (goto { s with heap := Function.update s.heap n (some ⟨v, none⟩) } t (.allocated v n)).Inv
      places := by
  have new := inv.not_dead unused
  have firstOther : s.first ≠ n := fun same => new.1 (same ▸ List.mem_cons_self)
  exact
    { sound := inv.sound
      list := inv.list.update new.1 _
      different := inv.different
      within := inv.within
      own := by
        apply inv.own.goto
        · intro m owns
          cases owns
          exact ⟨Function.update_self .., new.1, fun u _ => new.2 u⟩
        · intro u _ m owns
          have other : m ≠ n := fun same => new.2 u (same ▸ owns)
          exact ⟨Function.update_of_ne other _ _, inv.own.apart owns⟩
      pushers := inv.pushers.stay (kept here rfl)
      poppers := inv.poppers.stay (kept here rfl)
      ends := inv.ends.frame (kept here rfl) rfl
      copies := by
        refine inv.copies.frame (kept here rfl) ?_ rfl rfl
        exact fun node first => ⟨node, (Function.update_of_ne firstOther _ _).trans first, rfl⟩
      ready := fun isFound => inv.ready_update isFound nofun }

/-- The first store of `push`. -/
theorem Inv.link (inv : s.Inv places) {n : Nat} {v : α} {node : Node α}
    (here : s.threads t = .pushLocked v n) (end_ : s.heap s.last = some node) :
    (goto
      { s with
        heap := Function.update s.heap s.last (some ⟨node.val, some n⟩)
        linked := s.linked ++ [v] } t (.nodeLinked n)).Inv (places ++ [n]) := by
  have atLast := inv.last_eq here
  have owns : owned (s.threads t) = some n := by rw [here]; rfl
  have outside := inv.own.apart owns
  have content : s.heap n = some ⟨v, none⟩ := by
    have content := inv.own.content owns
    rw [here] at content
    exact content
  have lastMember : s.last ∈ s.first :: places := by
    rw [← atLast]
    exact List.getLast_mem _
  obtain ⟨u, final⟩ := inv.list.exists_last
  rw [atLast] at final
  cases end_.symm.trans final
  exact
    { sound := inv.sound
      list := by
        change Follow _ _ _ ((s.linked ++ [v]).drop s.taken)
        rw [List.drop_append_of_le_length inv.within]
        exact inv.list.snoc inv.different atLast final content outside
      different := by
        change (s.first :: places ++ [n]).Nodup
        rw [← List.concat_eq_append]
        exact .concat outside inv.different
      within := by
        change s.taken ≤ (s.linked ++ [v]).length
        rw [List.length_append]
        exact Nat.le_add_right_of_le inv.within
      own := by
        apply inv.own.goto
        · intro m none
          cases none
        · intro u other m holds
          have apart := inv.own.apart holds
          have notLast : m ≠ s.last := fun same => apart (same ▸ lastMember)
          refine ⟨Function.update_of_ne notLast _ _, ?_⟩
          change m ∉ s.first :: places ++ [n]
          rw [List.mem_append, List.mem_singleton]
          rintro (member | rfl)
          · exact apart member
          · exact other (inv.own.once holds owns)
      pushers := inv.pushers.stay (kept here rfl)
      poppers := inv.poppers.stay (kept here rfl)
      ends := by
        apply Or.inl
        refine ⟨t, ?_⟩
        change linking (Function.update s.threads t (.nodeLinked n) t) =
          some ((s.first :: places ++ [n]).getLast _)
        rw [Function.update_self, List.getLast_concat]
        rfl
      copies := by
        refine inv.copies.frame (kept here rfl) ?_
          (List.take_append_of_le_length inv.within) rfl
        intro front first
        by_cases atFirst : s.first = s.last
        · rw [atFirst] at first
          cases final.symm.trans first
          exact ⟨_, (congrArg _ atFirst).trans (Function.update_self ..), rfl⟩
        · exact ⟨front, (Function.update_of_ne atFirst _ _).trans first, rfl⟩
      ready := fun _ => by simp }

/-- The second store of `push`. -/
theorem Inv.setLast (inv : s.Inv places) {n : Nat} (here : s.threads t = .nodeLinked n) :
    (goto { s with last := n } t .pushed).Inv places where
  sound := inv.sound
  list := inv.list
  different := inv.different
  within := inv.within
  own := inv.own.keep here rfl fun _ => id
  pushers := inv.pushers.stay (kept here rfl)
  poppers := inv.poppers.stay (kept here rfl)
  ends := by
    have onlyThis : ∀ u m, linking (s.threads u) = some m → u = t := fun u m linked =>
      inv.pushers.unique (pushing_of_linking linked) (by rw [here]; rfl)
    apply Or.inr
    constructor
    · intro u
      by_cases this : u = t
      · rw [this]
        exact congrArg linking (Function.update_self t _ s.threads)
      · change linking (Function.update s.threads t .pushed u) = none
        rw [Function.update_of_ne this]
        cases linked : linking (s.threads u) with
        | none => rfl
        | some m => exact absurd (onlyThis u m linked) this
    · rcases inv.ends with ⟨u, linked⟩ | ⟨nobody, _⟩
      · rw [onlyThis u _ linked, here] at linked
        exact (Option.some.inj linked).symm
      · have never := nobody t
        rw [here] at never
        cases never
  copies := inv.copies.frame (kept here rfl) (fun node first => ⟨node, first, rfl⟩) rfl rfl
  ready := fun isFound => inv.ready_update isFound nofun

/-- `pop` takes the next node as the new dummy node. -/
theorem Inv.advance (inv : s.Inv places) {q : Nat} {u : α} (here : s.threads t = .found)
    (dummy : s.heap s.first = some ⟨u, some q⟩) :
    ∃ rest, (goto { s with first := q, taken := s.taken + 1 } t (.advanced s.first)).Inv rest := by
  obtain ⟨v, after, rest, values, there, rfl, waiting, list⟩ := inv.list.exists_of_next dummy
  have different := List.nodup_cons.mp inv.different
  have isPopping : popping (s.threads t) = true := by rw [here]; rfl
  have nobody : ∀ w, w ≠ t → popping (s.threads w) ≠ true := fun w other inside =>
    other (inv.poppers.unique inside isPopping)
  have within : s.taken < s.linked.length := by
    have more := congrArg List.length waiting
    rw [List.length_drop, List.length_cons] at more
    omega
  have cut := List.drop_eq_getElem_cons within
  rw [waiting] at cut
  have value : s.linked[s.taken] = v := (List.cons.inj cut).1.symm
  have left : s.linked.drop (s.taken + 1) = values := (List.cons.inj cut).2.symm
  refine ⟨rest,
    { sound := inv.sound
      list := by
        change Follow s.heap q rest (s.linked.drop (s.taken + 1))
        rw [left]
        exact list
      different := different.2
      within := within
      own := by
        apply inv.own.goto
        · intro m owns
          cases owns
          refine ⟨?_, different.1, fun w _ holds => inv.own.apart holds List.mem_cons_self⟩
          change s.heap s.first ≠ none
          rw [dummy]
          exact nofun
        · intro w _ m holds
          exact ⟨rfl, fun member => inv.own.apart holds (List.mem_cons_of_mem _ member)⟩
      pushers := inv.pushers.stay (kept here rfl)
      poppers := inv.poppers.stay (kept here rfl)
      ends := by
        have ends := inv.ends
        rw [List.getLast_cons (List.cons_ne_nil q rest)] at ends
        exact ends.frame (kept here rfl) rfl
      copies := by
        apply Or.inl
        refine ⟨t, ⟨v, after⟩, congrArg copying (Function.update_self t _ s.threads), there, ?_⟩
        change s.linked.take (s.taken + 1) = s.popped ++ [v]
        rw [List.take_succ_eq_append_getElem within, value]
        rcases inv.copies with ⟨w, _, copies, _⟩ | ⟨_, taken⟩
        · have same : w = t := inv.poppers.unique (popping_of_copying copies) isPopping
          rw [same, here] at copies
          cases copies
        · rw [taken]
      ready := fun {w} isFound => by
        by_cases this : w = t
        · rw [this] at isFound
          cases (Function.update_self t _ s.threads).symm.trans isFound
        · have there : s.threads w = .found := (Function.update_of_ne this _ _).symm.trans isFound
          exact absurd (by rw [there]; rfl) (nobody w this) }⟩

/-- `pop` copies the value of the new dummy node. -/
theorem Inv.copy (inv : s.Inv places) {old : Nat} {node : Node α}
    (here : s.threads t = .advanced old) (dummy : s.heap s.first = some node) :
    (goto { s with popped := s.popped ++ [node.val] } t (.copied old node.val)).Inv places where
  sound := inv.sound
  list := inv.list
  different := inv.different
  within := inv.within
  own := inv.own.keep here rfl fun _ => id
  pushers := inv.pushers.stay (kept here rfl)
  poppers := inv.poppers.stay (kept here rfl)
  ends := inv.ends.frame (kept here rfl) rfl
  copies := by
    have onlyThis : ∀ w, copying (s.threads w) = true → w = t := fun w copies =>
      inv.poppers.unique (popping_of_copying copies) (by rw [here]; rfl)
    apply Or.inr
    constructor
    · intro w
      by_cases this : w = t
      · rw [this]
        exact congrArg copying (Function.update_self t _ s.threads)
      · change copying (Function.update s.threads t _ w) = false
        rw [Function.update_of_ne this]
        cases copies : copying (s.threads w) with
        | false => rfl
        | true => exact absurd (onlyThis w copies) this
    · rcases inv.copies with ⟨w, other, _, first, taken⟩ | ⟨nobody, _⟩
      · cases dummy.symm.trans first
        exact taken
      · have never := nobody t
        rw [here] at never
        cases never
  ready := fun isFound => inv.ready_update isFound nofun

/-- `pop` deletes the old dummy node. -/
theorem Inv.delete (inv : s.Inv places) {old : Nat} {res : α}
    (here : s.threads t = .released old res) :
    (goto { s with heap := Function.update s.heap old none } t .idle).Inv places := by
  have owns : owned (s.threads t) = some old := by rw [here]; rfl
  have outside := inv.own.apart owns
  have firstOther : s.first ≠ old := fun same => outside (same ▸ List.mem_cons_self)
  exact
    { sound := inv.sound
      list := inv.list.update outside none
      different := inv.different
      within := inv.within
      own := by
        apply inv.own.goto
        · exact nofun
        · intro w other m holds
          have apart : m ≠ old := fun same => other (inv.own.once (same ▸ holds) owns)
          exact ⟨Function.update_of_ne apart _ _, inv.own.apart holds⟩
      pushers := inv.pushers.stay (kept here rfl)
      poppers := inv.poppers.stay (kept here rfl)
      ends := inv.ends.frame (kept here rfl) rfl
      copies := by
        refine inv.copies.frame (kept here rfl) ?_ rfl rfl
        exact fun node first => ⟨node, (Function.update_of_ne firstOther _ _).trans first, rfl⟩
      ready := fun isFound => inv.ready_update isFound nofun }

theorem Inv.moves (inv : s.Inv places) (moves : s.Moves next) : ∃ after, next.Inv after := by
  cases moves with
  | spin => exact ⟨places, inv⟩
  | crash access dead => exact (inv.no_crash access dead).elim
  | null here end_ => exact (inv.no_null here end_).elim
  | allocate v here unused => exact ⟨places, inv.allocate v here unused⟩
  | @lockPush t n v here free =>
      refine ⟨places, inv.quiet here rfl (fun _ => id) rfl rfl ?_
        (inv.poppers.stay (kept here rfl)) nofun⟩
      have pushers := inv.pushers
      rw [free] at pushers
      exact pushers.enter (others pushing)
  | link here end_ => exact ⟨_, inv.link here end_⟩
  | setLast here => exact ⟨places, inv.setLast here⟩
  | @unlockPush t here =>
      refine ⟨places, inv.quiet here rfl (fun _ => id) rfl rfl ?_
        (inv.poppers.stay (kept here rfl)) nofun⟩
      exact inv.pushers.leave (by rw [here]; rfl)
        (congrArg pushing (Function.update_self t _ s.threads)) (others pushing)
  | @lockPop t here free =>
      refine ⟨places, inv.quiet here rfl (fun _ => id) rfl rfl
        (inv.pushers.stay (kept here rfl)) ?_ nofun⟩
      have poppers := inv.poppers
      rw [free] at poppers
      exact poppers.enter (others popping)
  | @find t q u here dummy =>
      refine ⟨places, inv.quiet here rfl (fun _ => id) rfl rfl (inv.pushers.stay (kept here rfl))
        (inv.poppers.stay (kept here rfl)) ?_⟩
      obtain ⟨_, _, rest, _, _, nonempty, _⟩ := inv.list.exists_of_next dummy
      rw [nonempty]
      exact fun _ => List.cons_ne_nil q rest
  | miss here dummy =>
      exact ⟨places, inv.quiet here rfl (fun _ => id) rfl rfl (inv.pushers.stay (kept here rfl))
        (inv.poppers.stay (kept here rfl)) nofun⟩
  | advance here dummy => exact inv.advance here dummy
  | copy here dummy => exact ⟨places, inv.copy here dummy⟩
  | @unlockPop t old res here =>
      refine ⟨places, inv.quiet here rfl (fun _ => id) rfl rfl
        (inv.pushers.stay (kept here rfl)) ?_ nofun⟩
      exact inv.poppers.leave (by rw [here]; rfl)
        (congrArg popping (Function.update_self t _ s.threads)) (others popping)
  | @giveUp t here =>
      refine ⟨places, inv.quiet here rfl (fun _ => id) rfl rfl
        (inv.pushers.stay (kept here rfl)) ?_ nofun⟩
      exact inv.poppers.leave (by rw [here]; rfl)
        (congrArg popping (Function.update_self t _ s.threads)) (others popping)
  | delete here _ => exact ⟨places, inv.delete here⟩

theorem create_inv (dummy : α) : (create dummy).Inv [] where
  sound := rfl
  list := .last rfl
  different := List.nodup_singleton 0
  within := Nat.le_refl 0
  own := ⟨nofun, nofun, nofun⟩
  pushers := ⟨nofun, fun _ _ => rfl⟩
  poppers := ⟨nofun, fun _ _ => rfl⟩
  ends := .inr ⟨fun _ => rfl, rfl⟩
  copies := .inr ⟨fun _ => rfl, rfl⟩
  ready := nofun

/-- The queue is a list of the values that were linked and not yet taken. -/
structure Fifo (s : QueueState α) : Prop where
  /-- No step has accessed a node that was not allocated. -/
  noFault : s.fault = false
  /-- The dummy node is followed by the values that were linked and not yet taken.  What
  is accessed next is a node of this list, or one that nobody else knows. -/
  list : ∃ places, Follow s.heap s.first places (s.linked.drop s.taken) ∧
    (s.first :: places).Nodup ∧
    s.EndsAt ((s.first :: places).getLast (List.cons_ne_nil _ _)) ∧
    ∀ t a, s.Accesses t a → a ∈ s.first :: places ∨
      a ∉ s.first :: places ∧ ∀ u, owned (s.threads u) = some a ↔ u = t
  /-- The calls of `pop` have got the values that were taken, in the order of linking. -/
  popped : s.Copies
  /-- `pop` decides to return `false` only when no value is left. -/
  empty : ∀ t next, step (.test t) s = some next → next.threads t = .empty →
    s.linked.drop s.taken = []

theorem Inv.fifo (inv : s.Inv places) : s.Fifo where
  noFault := inv.sound
  list := by
    refine ⟨places, inv.list, inv.different, inv.ends, fun t a access => ?_⟩
    apply (inv.accesses access).imp_right
    intro owns
    refine ⟨inv.own.apart owns, fun u => ⟨fun holds => inv.own.once holds owns, ?_⟩⟩
    rintro rfl
    exact owns
  popped := inv.copies
  empty t next stepped gaveUp := by
    simp only [step] at stepped
    split at stepped
    · next here =>
        split at stepped
        · cases stepped
          cases (Function.update_self t _ s.threads).symm.trans gaveUp
        · next dummy => exact (inv.list.eq_nil_of_next dummy).2
        · cases stepped
          cases here.symm.trans gaveUp
    · cases stepped

end QueueState

/-- For any number of threads that push and pop, in every interleaving. -/
theorem queue_fifo {α : Type} (dummy : α) {s : QueueState α}
    (reachable : (queueSystem dummy).Reachable s) : s.Fifo := by
  have holds : ∃ places, s.Inv places := by
    apply reachable.invariant fun s => ∃ places, s.Inv places
    · exact ⟨[], QueueState.create_inv dummy⟩
    · rintro state next action _ ⟨places, inv⟩ stepped
      exact inv.moves (QueueState.moves_of_step stepped)
  rcases holds with ⟨places, inv⟩
  exact inv.fifo

/-- A popper takes and deletes the node that `m_last` points to while a pusher is between
its two stores; its address is used again for the next node. -/
def overtaking : List (QueueAction Nat) :=
  [.allocate 1 5 3, .lockPush 1, .link 1, .lockPop 2, .test 2, .advance 2, .copy 2, .unlockPop 2,
    .delete 2, .allocate 4 6 0, .lockPush 4]

theorem queue_fifo_overtaking : ∃ s, (queueSystem 0).Reachable s ∧ s.last = 0 ∧ s.first = 3 ∧
    s.popped = [5] ∧ s.Fifo := by
  have run : ((queueSystem 0).exec overtaking (queueSystem 0).init).any
      (fun s => s.last == 0 && s.first == 3 && s.popped == [5]) = true := by
    decide
  obtain ⟨s, reachable, test⟩ := System.exists_reachable_of_exec run
  simp only [Bool.and_eq_true, beq_iff_eq] at test
  exact ⟨s, reachable, test.1.1, test.1.2, test.2, queue_fifo 0 reachable⟩

end LibTasks.Tools

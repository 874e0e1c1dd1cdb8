import Mathlib.Logic.Function.Basic

/-!
# One-slot mailboxes

Several writers share a slot that a reader empties.  A writer puts its item into the slot and has
its call in progress until it finishes.  Nothing keeps it from overwriting an item that is still in
the slot.

`Kept` says that of each writer the reader has taken the items of its finished calls, once each and
in their order, and at most the item of its call in progress beyond them.  It holds as long as
every store finds the slot empty (`Sound.store`, `Sound.take`, `Sound.finish`).  An item that is
overwritten is lost (`Sound.lost`): it is never taken, and `Kept` fails when its call finishes
(`Lost.finish`).
-/

namespace Mailbox

universe u v

/-- The slot with the writer of its item, the item of each call in progress, what the reader has
taken and whose calls have finished, the oldest first. -/
structure Box (κ : Type u) (α : Type v) where
  slot : Option (κ × α)
  current : κ → Option α
  taken : List (κ × α)
  finished : List (κ × α)

variable {κ : Type u} {α : Type v}

/-- The empty box. -/
def Box.empty : Box κ α := ⟨none, fun _ => none, [], []⟩

variable [DecidableEq κ]

/-- A writer puts an item into the slot. -/
def Box.store (b : Box κ α) (k : κ) (x : α) : Box κ α :=
  { b with slot := some (k, x), current := Function.update b.current k (some x) }

/-- The reader empties the slot. -/
def Box.take (b : Box κ α) : Box κ α :=
  { b with slot := none, taken := b.taken ++ b.slot.toList }

/-- A call finishes. -/
def Box.finish (b : Box κ α) (k : κ) : Box κ α :=
  { b with
    current := Function.update b.current k none
    finished := b.finished ++ ((b.current k).map fun x => (k, x)).toList }

/-- What one writer has contributed to a list. -/
def itemsOf (k : κ) (entries : List (κ × α)) : List α :=
  (entries.filter fun e => e.1 = k).map Prod.snd

theorem itemsOf_snoc_own (k : κ) (x : α) (entries : List (κ × α)) :
    itemsOf k (entries ++ [(k, x)]) = itemsOf k entries ++ [x] := by
  simp [itemsOf]

theorem itemsOf_snoc_other {k j : κ} (other : j ≠ k) (x : α) (entries : List (κ × α)) :
    itemsOf k (entries ++ [(j, x)]) = itemsOf k entries := by
  simp [itemsOf, other]

/-- The items of the finished calls have been taken once each and in order. -/
def Box.Kept (b : Box κ α) : Prop :=
  ∀ k, itemsOf k b.taken = itemsOf k b.finished ∨
    ∃ x, b.current k = some x ∧ itemsOf k b.taken = itemsOf k b.finished ++ [x]

/-- Where the item of a writer's call is: not stored yet, in the slot, or taken. -/
inductive Place (b : Box κ α) (k : κ) : Prop
  | idle : b.current k = none → (∀ x, b.slot ≠ some (k, x)) →
      itemsOf k b.taken = itemsOf k b.finished → Place b k
  | waiting (x : α) : b.current k = some x → b.slot = some (k, x) →
      itemsOf k b.taken = itemsOf k b.finished → Place b k
  | taken (x : α) : b.current k = some x → (∀ y, b.slot ≠ some (k, y)) →
      itemsOf k b.taken = itemsOf k b.finished ++ [x] → Place b k

/-- Every item is in one of these places. -/
def Box.Sound (b : Box κ α) : Prop := ∀ k, Place b k

variable {b : Box κ α}

theorem Box.empty_sound : (Box.empty : Box κ α).Sound :=
  fun _ => .idle rfl (fun x same => by cases same) rfl

theorem Box.Sound.kept (sound : b.Sound) : b.Kept := by
  intro k
  cases sound k with
  | idle _ _ same => exact .inl same
  | waiting _ _ _ same => exact .inl same
  | taken x current _ more => exact .inr ⟨x, current, more⟩

/-- The writer of an item in the slot has its call in progress. -/
theorem Box.Sound.current_of_slot (sound : b.Sound) {k : κ} {x : α} (slot : b.slot = some (k, x)) :
    b.current k = some x := by
  cases sound k with
  | idle _ absent _ => exact absurd slot (absent x)
  | waiting y current own _ =>
      rw [own] at slot
      cases slot
      exact current
  | taken _ _ absent _ => exact absurd slot (absent x)

/-- Storing into an empty slot. -/
theorem Box.Sound.store (sound : b.Sound) (empty : b.slot = none) {k : κ}
    (idle : b.current k = none) (x : α) : (b.store k x).Sound := by
  intro j
  by_cases own : j = k
  · subst own
    cases sound j with
    | idle _ _ same => exact .waiting x (Function.update_self ..) rfl same
    | waiting _ current _ _ =>
        rw [idle] at current
        cases current
    | taken _ current _ _ =>
        rw [idle] at current
        cases current
  · have current : (b.store k x).current j = b.current j := Function.update_of_ne own ..
    have absent : ∀ y, (b.store k x).slot ≠ some (j, y) := by
      intro y same
      cases same
      exact own rfl
    cases sound j with
    | idle none_ _ same => exact .idle (current.trans none_) absent same
    | waiting _ _ slot _ =>
        rw [empty] at slot
        cases slot
    | taken y some_ _ more => exact .taken y (current.trans some_) absent more

/-- Emptying the slot. -/
theorem Box.Sound.take (sound : b.Sound) : b.take.Sound := by
  have empty : ∀ (k : κ) (x : α), b.take.slot ≠ some (k, x) := fun k x same => by cases same
  intro k
  cases slot : b.slot with
  | none =>
      have taken : b.take.taken = b.taken := by
        rw [Box.take, slot]
        exact List.append_nil _
      cases sound k with
      | idle current _ same => exact .idle current (empty k) (by rw [taken]; exact same)
      | waiting _ _ own _ =>
          rw [slot] at own
          cases own
      | taken x current _ more => exact .taken x current (empty k) (by rw [taken]; exact more)
  | some e =>
      have taken : b.take.taken = b.taken ++ [e] := by
        rw [Box.take, slot]
        rfl
      cases sound k with
      | idle current absent same =>
          refine .idle current (empty k) ?_
          rw [taken, itemsOf_snoc_other (j := e.1) ?_]
          · exact same
          · intro own
            exact absent e.2 (by rw [slot, ← own])
      | waiting x current own same =>
          rw [slot] at own
          cases own
          exact .taken x current (empty k) (by rw [taken, itemsOf_snoc_own, same]; rfl)
      | taken x current absent more =>
          refine .taken x current (empty k) ?_
          rw [taken, itemsOf_snoc_other (j := e.1) ?_]
          · exact more
          · intro own
            exact absent e.2 (by rw [slot, ← own])

/-- Finishing a call whose item is not in the slot any more. -/
theorem Box.Sound.finish (sound : b.Sound) {k : κ} (gone : ∀ x, b.slot ≠ some (k, x)) :
    (b.finish k).Sound := by
  intro j
  by_cases own : j = k
  · subst own
    have current : (b.finish j).current j = none := Function.update_self ..
    refine .idle current gone ?_
    cases sound j with
    | idle none_ _ same =>
        simp only [Box.finish, none_]
        rw [same]
        simp
    | waiting x _ slot _ => exact absurd slot (gone x)
    | taken x some_ _ more =>
        simp only [Box.finish, some_]
        rw [more]
        exact (itemsOf_snoc_own ..).symm
  · have current : (b.finish k).current j = b.current j := Function.update_of_ne own ..
    have finished : itemsOf j (b.finish k).finished = itemsOf j b.finished := by
      cases item : b.current k with
      | none => simp [Box.finish, item]
      | some x =>
          simp only [Box.finish, item]
          exact itemsOf_snoc_other (Ne.symm own) ..
    cases sound j with
    | idle none_ absent same =>
        exact .idle (current.trans none_) absent (by rw [finished]; exact same)
    | waiting x some_ slot same =>
        exact .waiting x (current.trans some_) slot (by rw [finished]; exact same)
    | taken x some_ absent more =>
        exact .taken x (current.trans some_) absent (by rw [finished]; exact more)

/-! ## Overwritten items -/

/-- The item of a call in progress is neither in the slot nor taken. -/
structure Lost (b : Box κ α) (k : κ) (x : α) : Prop where
  current : b.current k = some x
  absent : ∀ y, b.slot ≠ some (k, y)
  same : itemsOf k b.taken = itemsOf k b.finished

/-- Storing over an item. -/
theorem Box.Sound.lost (sound : b.Sound) {k j : κ} {x : α} (slot : b.slot = some (k, x))
    (other : j ≠ k) (y : α) : Lost (b.store j y) k x := by
  have current := sound.current_of_slot slot
  refine ⟨(Function.update_of_ne other.symm ..).trans current, fun z same => ?_, ?_⟩
  · cases same
    exact other rfl
  · cases sound k with
    | idle none_ _ _ =>
        rw [current] at none_
        cases none_
    | waiting _ _ _ same => exact same
    | taken _ _ absent _ => exact absurd slot (absent x)

/-- A lost item stays lost while the others go on. -/
theorem Lost.store {k j : κ} {x : α} (lost : Lost b k x) (other : j ≠ k) (y : α) :
    Lost (b.store j y) k x := by
  refine ⟨(Function.update_of_ne other.symm ..).trans lost.current, fun z same => ?_, lost.same⟩
  cases same
  exact other rfl

theorem Lost.take {k : κ} {x : α} (lost : Lost b k x) : Lost b.take k x := by
  refine ⟨lost.current, fun y same => (by cases same), ?_⟩
  cases slot : b.slot with
  | none =>
      rw [Box.take, slot]
      exact (congrArg (itemsOf k) (List.append_nil _)).trans lost.same
  | some e =>
      have other : e.1 ≠ k := by
        intro own
        exact lost.absent e.2 (by rw [slot, ← own])
      rw [Box.take, slot]
      exact (itemsOf_snoc_other other ..).trans lost.same

theorem Lost.finish_other {k j : κ} {x : α} (lost : Lost b k x) (other : j ≠ k) :
    Lost (b.finish j) k x := by
  refine ⟨(Function.update_of_ne other.symm ..).trans lost.current, lost.absent, ?_⟩
  cases item : b.current j with
  | none => simpa [Box.finish, item] using lost.same
  | some y =>
      simp only [Box.finish, item]
      exact lost.same.trans (itemsOf_snoc_other other ..).symm

/-- Its call finishes, and the reader never took it. -/
theorem Lost.finish {k : κ} {x : α} (lost : Lost b k x) : ¬ (b.finish k).Kept := by
  intro kept
  have current : (b.finish k).current k = none := Function.update_self ..
  have finished : itemsOf k (b.finish k).finished = itemsOf k b.finished ++ [x] := by
    simp only [Box.finish, lost.current]
    exact itemsOf_snoc_own ..
  have taken : itemsOf k (b.finish k).taken = itemsOf k b.finished := lost.same
  rcases kept k with same | more
  · rw [taken, finished] at same
    have lengths := congrArg List.length same
    simp at lengths
  · obtain ⟨y, some_, -⟩ := more
    rw [current] at some_
    cases some_

end Mailbox

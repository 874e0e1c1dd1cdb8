import Mathlib.Data.List.Chain
import Mathlib.Data.List.Nodup
import Mathlib.Logic.Function.Basic

/-!
# Singly linked lists in memory

A linked list is a pointer and a link from each cell to the next.  `Visits next p cells` says what
following the links from `p` finds: exactly `cells`, and then the end.  The list of cells is
determined by the links (`Visits.unique`) and has no repetition (`Visits.nodup`), for a walk that
comes back to a cell never ends.

A write to the link of a cell that is not visited changes nothing (`Visits.frame`).

`Linked next cells` says only that each cell links to the one behind it, so that it speaks of a
piece of a list as well: pieces are put together by one write (`Linked.relink`).
-/

universe u

namespace LinkedList

variable {α : Type u} {next next' : α → Option α} {p : Option α} {cells : List α}

/-- Following the links from `p` visits these cells, one after the other, and ends. -/
def Visits (next : α → Option α) : Option α → List α → Prop
  | p, [] => p = none
  | p, a :: rest => p = some a ∧ Visits next (next a) rest

@[simp] theorem visits_nil : Visits next p [] ↔ p = none := Iff.rfl

/-- From one pointer the links lead to one list of cells. -/
theorem Visits.unique (visits : Visits next p cells) {others : List α}
    (again : Visits next p others) : cells = others := by
  induction cells generalizing p others with
  | nil =>
      cases others with
      | nil => rfl
      | cons b others =>
          rcases visits with rfl
          cases again.1
  | cons a rest ih =>
      rcases visits with ⟨rfl, visits⟩
      cases others with
      | nil => cases again
      | cons b others =>
          rcases again with ⟨same, again⟩
          cases same
          rw [ih visits again]

/-- The links of other cells do not matter. -/
theorem Visits.frame (visits : Visits next p cells) (same : ∀ a ∈ cells, next' a = next a) :
    Visits next' p cells := by
  induction cells generalizing p with
  | nil => exact visits
  | cons a rest ih =>
      rcases visits with ⟨start, visits⟩
      refine ⟨start, ?_⟩
      rw [same a List.mem_cons_self]
      exact ih visits fun b member => same b (List.mem_cons_of_mem _ member)

/-- Relinking a cell that is not visited. -/
theorem Visits.update [DecidableEq α] {a : α} (visits : Visits next p cells) (other : a ∉ cells)
    (q : Option α) : Visits (Function.update next a q) p cells := by
  apply visits.frame
  intro b member
  exact Function.update_of_ne (ne_of_mem_of_not_mem member other) q next

/-- From a visited cell on, the walk goes as it did before. -/
theorem Visits.suffix {before rest : List α} {a : α}
    (visits : Visits next p (before ++ a :: rest)) : Visits next (some a) (a :: rest) := by
  induction before generalizing p with
  | nil => exact ⟨rfl, visits.2⟩
  | cons b before ih => exact ih visits.2

/-- A walk that ends never comes back to a cell. -/
theorem Visits.nodup (visits : Visits next p cells) : cells.Nodup := by
  induction cells generalizing p with
  | nil => exact List.nodup_nil
  | cons a rest ih =>
      refine List.nodup_cons.mpr ⟨fun again => ?_, ih visits.2⟩
      obtain ⟨before, after, split⟩ := List.append_of_mem again
      -- the walk from the second visit of `a` is as long as the one from the first
      have second : Visits next (some a) (a :: after) := by
        apply Visits.suffix
        rw [← split]
        exact visits.2
      have same := second.2.unique visits.2
      have longer := congrArg List.length split
      rw [← same, List.length_append, List.length_cons] at longer
      omega

/-! ## Pieces of lists -/

section Pieces

variable {link link' : α → α} {before after : List α} {a b x : α}

/-- Each cell links to the next one. -/
def Linked (link : α → α) (cells : List α) : Prop := cells.IsChain fun a b => link a = b

/-- The links of other cells do not matter, nor does that of the last cell. -/
theorem Linked.frame (linked : Linked link (before ++ [b]))
    (same : ∀ a ∈ before, link' a = link a) : Linked link' (before ++ [b]) := by
  induction before with
  | nil => exact List.isChain_singleton b
  | cons a rest ih =>
      have first := same a List.mem_cons_self
      have later := ih linked.tail fun c member => same c (.tail a member)
      cases rest with
      | nil => exact .cons_cons (first.trans (List.isChain_cons_cons.mp linked).1) later
      | cons c rest => exact .cons_cons (first.trans (List.isChain_cons_cons.mp linked).1) later

theorem Linked.left (linked : Linked link (before ++ b :: after)) : Linked link (before ++ [b]) :=
  (List.isChain_split.mp linked).1

/-- One write puts two pieces together. -/
theorem Linked.relink [DecidableEq α] (front : Linked link (before ++ [a]))
    (back : Linked link (after ++ [b])) (first : a ∉ before) (second : a ∉ after)
    (head : (after ++ [b]).head? = some x) :
    Linked (Function.update link a x) (before ++ a :: (after ++ [b])) := by
  have keep : ∀ c, c ≠ a → Function.update link a x c = link c :=
    fun c other => Function.update_of_ne other x link
  have front := front.frame fun c member => keep c (ne_of_mem_of_not_mem member first)
  have back := back.frame fun c member => keep c (ne_of_mem_of_not_mem member second)
  refine List.isChain_split.mpr ⟨front, List.IsChain.cons back fun c member => ?_⟩
  rw [head] at member
  cases member
  exact Function.update_self ..

end Pieces

end LinkedList

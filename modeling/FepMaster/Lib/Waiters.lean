import Mathlib.Data.Finset.Card

/-!
# Waiting for units that are on offer

Parties take units of something, and wait in a list when there is none.  Whoever adds a unit wakes
the first of the list, or leaves a signal for a later moment at which the signals are passed on.  A
party that was woken is going to look for a unit, and others may take it first.

`Served w`: while somebody waits, there are at most as many units on offer as parties that are
going to look and signals not yet passed on.  So with no signal left and nobody on the way, a party
waits only if there is nothing to take (`Served.none_left`).  Each way to change the state has a
lemma that keeps this, with the new state given by inequalities.
-/

universe u

/-- The units on offer, the signals to be passed on, who waits, and who is going to look. -/
structure Waiters (Party : Type u) where
  available : Nat
  pending : Nat
  waiting : List Party
  looking : Finset Party

namespace Waiters

variable {Party : Type u}

/-- No unit lies there unnoticed. -/
def Served (w : Waiters Party) : Prop :=
  w.waiting ≠ [] → w.available ≤ w.looking.card + w.pending

variable {w w' : Waiters Party}

/-- With nobody on the way and no signal left, whoever waits has nothing to take. -/
theorem Served.none_left (served : w.Served) (nobody : w.looking = ∅) (passed : w.pending = 0)
    (somebody : w.waiting ≠ []) : w.available = 0 := by
  have bound := served somebody
  rw [nobody, passed, Finset.card_empty] at bound
  exact Nat.le_zero.mp bound

theorem Served.of_pending (covered : w.available ≤ w.pending) : w.Served := fun _ =>
  le_trans covered (Nat.le_add_left ..)

/-- Less is on offer, or more parties are going to look. -/
theorem Served.mono (served : w.Served) (less : w'.available ≤ w.available)
    (signals : w.pending ≤ w'.pending) (waits : w'.waiting ≠ [] → w.waiting ≠ [])
    (looks : w.looking ⊆ w'.looking) : w'.Served := by
  intro somebody
  have bound := served (waits somebody)
  have more := Finset.card_le_card looks
  omega

/-- A unit is added and leaves a signal. -/
theorem Served.signal (served : w.Served) (more : w'.available ≤ w.available + 1)
    (signals : w.pending + 1 ≤ w'.pending) (waits : w'.waiting ≠ [] → w.waiting ≠ [])
    (looks : w.looking ⊆ w'.looking) : w'.Served := by
  intro somebody
  have bound := served (waits somebody)
  have others := Finset.card_le_card looks
  omega

variable [DecidableEq Party] {t u : Party}

/-- A unit is added and wakes the first of the list. -/
theorem Served.wake (served : w.Served) (more : w'.available ≤ w.available + 1)
    (signals : w.pending ≤ w'.pending) (first : w.waiting = u :: w'.waiting)
    (asleep : u ∉ w.looking) (looks : insert u w.looking ⊆ w'.looking) : w'.Served := by
  intro _
  have bound := served (first ▸ List.cons_ne_nil u w'.waiting)
  have others := Finset.card_le_card looks
  rw [Finset.card_insert_of_notMem asleep] at others
  omega

/-- A unit is added, and the first that waits is woken if there is one. -/
theorem Served.wake_first (served : w.Served) (more : w'.available ≤ w.available + 1)
    (signals : w.pending ≤ w'.pending) (shorter : w'.waiting = w.waiting.tail)
    (looks : ∀ u rest, w.waiting = u :: rest →
      u ∉ w.looking ∧ insert u w.looking ⊆ w'.looking) : w'.Served := by
  cases waits : w.waiting with
  | nil =>
      intro somebody
      rw [shorter, waits] at somebody
      exact absurd rfl somebody
  | cons u rest =>
      obtain ⟨asleep, more_look⟩ := looks u rest waits
      refine served.wake (u := u) more signals ?_ asleep more_look
      rw [shorter, waits, List.tail_cons]

/-- A party stops looking: it took a unit, or there was none. -/
theorem Served.leave (served : w.Served) (less : w'.available ≤ w.available - 1)
    (signals : w.pending ≤ w'.pending) (waits : w'.waiting ≠ [] → w.waiting ≠ [])
    (looks : w.looking.erase t ⊆ w'.looking) : w'.Served := by
  intro somebody
  have bound := served (waits somebody)
  have others := Finset.card_le_card looks
  have erased := Finset.pred_card_le_card_erase (s := w.looking) (a := t)
  omega

/-- A party stops looking, leaves the unit, and the first that waits is woken if there is one. -/
theorem Served.relay_first (served : w.Served) (less : w'.available ≤ w.available)
    (signals : w.pending ≤ w'.pending) (shorter : w'.waiting = w.waiting.tail)
    (looks : ∀ u rest, w.waiting = u :: rest →
      u ∉ w.looking ∧ insert u (w.looking.erase t) ⊆ w'.looking) : w'.Served := by
  have left : Served ⟨w.available - 1, w.pending, w.waiting, w.looking.erase t⟩ :=
    served.leave (t := t) (Nat.le_refl _) (Nat.le_refl _) id (Finset.Subset.refl _)
  refine left.wake_first ?_ signals shorter fun u rest first => ?_
  · change w'.available ≤ w.available - 1 + 1
    omega
  · obtain ⟨asleep, more_look⟩ := looks u rest first
    exact ⟨fun member => asleep (Finset.mem_of_mem_erase member), more_look⟩

/-- The signals are passed on, each to one party, until none is left or nobody waits. -/
theorem Served.pass_on (served : w.Served) (same : w'.available ≤ w.available)
    (rest : w'.waiting = w.waiting.drop w.pending) (distinct : w.waiting.Nodup)
    (asleep : ∀ u ∈ w.waiting, u ∉ w.looking)
    (looks : w.looking ∪ (w.waiting.take w.pending).toFinset ⊆ w'.looking) : w'.Served := by
  intro somebody
  rw [rest, Ne, List.drop_eq_nil_iff, Nat.not_le] at somebody
  have bound := served (List.ne_nil_of_length_pos (by omega))
  have others := Finset.card_le_card looks
  have apart : Disjoint w.looking (w.waiting.take w.pending).toFinset := by
    rw [Finset.disjoint_right]
    intro u member
    exact asleep u (List.mem_of_mem_take (List.mem_toFinset.mp member))
  have woken : (w.waiting.take w.pending).toFinset.card = w.pending := by
    rw [List.toFinset_card_of_nodup distinct.take, List.length_take]
    omega
  rw [Finset.card_union_of_disjoint apart, woken] at others
  omega

end Waiters

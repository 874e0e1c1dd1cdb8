import Mathlib.Data.Fintype.Basic
import Mathlib.Data.Nat.ModEq
import Mathlib.Order.Interval.Finset.Nat
import Mathlib.Logic.Function.Basic

/-!
# Rings

A ring of `n` cells is used through positions that only grow: position `k` is the cell
`slot n k`, and `n` positions later the same cell comes round again.  Positions less than `n` apart
are different cells (`slot_ne`), so a window of at most `n` positions is a list.

`Queue cells k l` says that the cells, each vacant or with an item, are the queue `l` whose front is
at position `k`: items are added at the back (`Queue.push`) and taken at the front (`Queue.pop`).
-/

universe u

namespace Ring

variable {n : Nat} [NeZero n] {α : Type u}

/-- The cell of a position. -/
def slot (n : Nat) [NeZero n] (k : Nat) : Fin n := Fin.ofNat n k

theorem slot_val (k : Nat) : (slot n k).val = k % n := rfl

theorem slot_eq_iff {j k : Nat} : slot n j = slot n k ↔ j % n = k % n := by
  rw [Fin.ext_iff, slot_val, slot_val]

@[simp] theorem slot_add_size (k : Nat) : slot n (k + n) = slot n k :=
  slot_eq_iff.mpr (Nat.add_mod_right k n)

theorem slot_of_fin (i : Fin n) : slot n i.val = i := by
  rw [Fin.ext_iff, slot_val, Nat.mod_eq_of_lt i.isLt]

/-- The next position depends on the cell only. -/
theorem slot_succ_congr {j k : Nat} (same : slot n j = slot n k) : slot n (j + 1) = slot n (k + 1) :=
  slot_eq_iff.mpr (Nat.ModEq.add_right 1 (slot_eq_iff.mp same))

/-- Positions less than a round apart are different cells. -/
theorem slot_ne {j k : Nat} (before : j < k) (within : k < j + n) : slot n j ≠ slot n k := by
  intro same
  have rest : j % n = (j + (k - j)) % n := by
    rw [Nat.add_sub_cancel' before.le]
    exact slot_eq_iff.mp same
  have multiple : (k - j) % n = 0 := by
    have shifted : (j + 0) % n = (j + (k - j)) % n := rest
    exact (Nat.ModEq.add_left_cancel' j shifted).symm
  rw [Nat.mod_eq_of_lt (by omega)] at multiple
  omega

/-- Every cell comes round once in `n` positions. -/
theorem exists_slot (k : Nat) (i : Fin n) : ∃ j < n, slot n (k + j) = i := by
  have below := (slot n k).isLt
  have value := slot_val (n := n) k
  have last := i.isLt
  have split := Nat.div_add_mod k n
  by_cases ahead : k % n ≤ i.val
  · refine ⟨i.val - k % n, by omega, ?_⟩
    have sum : k + (i.val - k % n) = n * (k / n) + i.val := by omega
    rw [Fin.ext_iff, slot_val, sum, Nat.mul_add_mod, Nat.mod_eq_of_lt last]
  · refine ⟨n + i.val - k % n, by omega, ?_⟩
    have sum : k + (n + i.val - k % n) = n * (k / n) + i.val + n := by omega
    rw [Fin.ext_iff, slot_val, sum, Nat.add_mod_right, Nat.mul_add_mod, Nat.mod_eq_of_lt last]

/-! ## Queues -/

/-- From position `k` on the cells hold the items of `l`, and the rest of the round is vacant. -/
structure Queue (cells : Fin n → Option α) (k : Nat) (l : List α) : Prop where
  room : l.length ≤ n
  cell : ∀ j < n, cells (slot n (k + j)) = l[j]?

namespace Queue

variable {cells : Fin n → Option α} {k : Nat} {l : List α} {x : α}

theorem empty (vacant : ∀ i, cells i = none) (k : Nat) : Queue cells k [] where
  room := Nat.zero_le n
  cell _ _ := vacant _

/-- The cell at the front. -/
theorem front (queue : Queue cells k l) : cells (slot n k) = l.head? := by
  rw [List.head?_eq_getElem?]
  exact queue.cell 0 (Nat.pos_of_neZero n)

/-- The cell where the next item goes is vacant unless the ring is full. -/
theorem back (queue : Queue cells k l) (room : l.length < n) :
    cells (slot n (k + l.length)) = none := by
  rw [queue.cell _ room, List.getElem?_eq_none (Nat.le_refl _)]

/-- Among the `n` positions from the back on, those of vacant cells are within the round. -/
theorem within (queue : Queue cells k l) {j : Nat} (small : j < n)
    (vacant : cells (slot n (k + l.length + j)) = none) : l.length + j < n := by
  by_contra beyond
  have room := queue.room
  have around : k + l.length + j = k + (l.length + j - n) + n := by omega
  rw [around, slot_add_size, queue.cell _ (by omega), List.getElem?_eq_none_iff] at vacant
  omega

/-- With no item left all cells are vacant. -/
theorem vacant (queue : Queue cells k []) (i : Fin n) : cells i = none := by
  obtain ⟨j, small, rfl⟩ := exists_slot k i
  exact queue.cell j small

/-- The number of vacant cells. -/
theorem card_vacant_le [DecidableEq α] (queue : Queue cells k l) :
    (Finset.univ.filter fun i => cells i = none).card ≤ n - l.length := by
  rw [← Nat.card_Ico]
  apply le_trans (Finset.card_le_card ?_) (Finset.card_image_le (f := fun j => slot n (k + j)))
  intro i member
  obtain ⟨j, small, rfl⟩ := exists_slot k i
  have vacant := (Finset.mem_filter.mp member).2
  rw [queue.cell j small, List.getElem?_eq_none_iff] at vacant
  exact Finset.mem_image.mpr ⟨j, Finset.mem_Ico.mpr ⟨vacant, small⟩, rfl⟩

/-- An item is added at the back. -/
theorem push (queue : Queue cells k l) (room : l.length < n) (x : α) :
    Queue (Function.update cells (slot n (k + l.length)) (some x)) k (l ++ [x]) where
  room := by
    rw [List.length_append]
    exact room
  cell j below := by
    rcases Nat.lt_trichotomy j l.length with before | same | behind
    · rw [Function.update_of_ne (slot_ne (by omega) (by omega)), queue.cell j below,
        List.getElem?_append_left before]
    · rw [same, Function.update_self, List.getElem?_concat_length]
    · rw [Function.update_of_ne (slot_ne (by omega) (by omega)).symm, queue.cell j below,
        List.getElem?_eq_none (by omega), List.getElem?_eq_none (by simp; omega)]

/-- The item at the front is taken. -/
theorem pop (queue : Queue cells k (x :: l)) :
    Queue (Function.update cells (slot n k) none) (k + 1) l where
  room := Nat.le_of_succ_le queue.room
  cell j below := by
    have room := queue.room
    rw [List.length_cons] at room
    rcases Nat.lt_or_ge (j + 1) n with inside | last
    · have later := queue.cell (j + 1) inside
      rw [Nat.add_right_comm, Nat.add_assoc,
        Function.update_of_ne (slot_ne (by omega) (by omega)).symm, later, List.getElem?_cons_succ]
    · have around : k + 1 + j = k + n := by omega
      rw [around, slot_add_size, Function.update_self, List.getElem?_eq_none (by omega)]

end Queue

end Ring

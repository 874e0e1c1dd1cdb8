import Mathlib.Algebra.Order.Group.Nat
import Mathlib.Data.Nat.Basic

/-!
# Chunks

A list cut into pieces of `m` items, the last of which may be shorter: how many there are, and what
the pieces become when the list grows at its end (`chunk_append_before`, `chunk_append_last`).
-/

universe u

namespace Chunk

variable {α : Type u}

/-- Piece `i`. -/
def chunk (m : Nat) (l : List α) (i : Nat) : List α := (l.drop (i * m)).take m

variable {m i : Nat} {l more : List α}

theorem chunk_length : (chunk m l i).length = min m (l.length - i * m) := by
  rw [chunk, List.length_take, List.length_drop]

/-- The pieces behind the end are empty. -/
theorem chunk_beyond (beyond : l.length ≤ i * m) : chunk m l i = [] := by
  rw [chunk, List.drop_eq_nil_of_le beyond, List.take_nil]

/-- A full piece stays as it is. -/
theorem chunk_append_before (full : (i + 1) * m ≤ l.length) :
    chunk m (l ++ more) i = chunk m l i := by
  rw [Nat.succ_mul] at full
  rw [chunk, chunk, List.drop_append_of_le_length (by omega),
    List.take_append_of_le_length (by rw [List.length_drop]; omega)]

/-- The last piece takes what fits. -/
theorem chunk_append_last (started : i * m ≤ l.length)
    (fits : (l ++ more).length ≤ (i + 1) * m) : chunk m (l ++ more) i = chunk m l i ++ more := by
  rw [Nat.succ_mul, List.length_append] at fits
  have rest : (l.drop (i * m)).length ≤ m := by rw [List.length_drop]; omega
  rw [chunk, chunk, List.drop_append_of_le_length started, List.take_of_length_le rest,
    List.take_of_length_le (by rw [List.length_append, List.length_drop]; omega)]

/-- The number of pieces, one of the empty list. -/
def count (m len : Nat) : Nat := (len - 1) / m + 1

/-- The pieces hold the list, and it is longer than all but the last of them. -/
theorem count_bounds (positive : 0 < m) (len : Nat) :
    len ≤ count m len * m ∧ ∀ c, c + 1 < count m len → (c + 1) * m < len := by
  have split := Nat.div_add_mod (len - 1) m
  have rest := Nat.mod_lt (len - 1) positive
  unfold count
  constructor
  · rw [Nat.succ_mul, Nat.mul_comm]
    omega
  · intro c below
    have most := Nat.mul_le_mul_right m (Nat.le_of_lt_succ below)
    have item : 0 < (c + 1) * m := Nat.mul_pos (Nat.succ_pos c) positive
    rw [Nat.mul_comm ((len - 1) / m)] at most
    omega

end Chunk

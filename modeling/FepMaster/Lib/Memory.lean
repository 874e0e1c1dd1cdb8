import Mathlib.Logic.Function.Basic

/-!
# Memory

Cells at addresses `0, 1, …`, read and written a list at a time as `memcpy` does.  What is read back
is what was written (`read_write`, `read_write_snoc`), and a write leaves the cells outside alone
(`read_write_before`, `read_write_behind`).
-/

universe u

namespace Memory

variable {α : Type u}

/-- The items of `len` cells from address `a` on. -/
def read (m : Nat → α) (a len : Nat) : List α := (List.range len).map fun i => m (a + i)

/-- Write a list from address `a` on. -/
def write (m : Nat → α) (a : Nat) (l : List α) : Nat → α := fun b =>
  if a ≤ b then l.getD (b - a) (m b) else m b

variable {m m' : Nat → α} {a b len : Nat} {l : List α}

@[simp] theorem read_length (m : Nat → α) (a len : Nat) : (read m a len).length = len := by
  rw [read, List.length_map, List.length_range]

@[simp] theorem read_zero (m : Nat → α) (a : Nat) : read m a 0 = [] := rfl

theorem getElem_read {i : Nat} (below : i < (read m a len).length) :
    (read m a len)[i] = m (a + i) := by
  simp only [read, List.getElem_map, List.getElem_range]

theorem read_add (m : Nat → α) (a len more : Nat) :
    read m a (len + more) = read m a len ++ read m (a + len) more := by
  rw [read, List.range_add, List.map_append, List.map_map]
  simp only [read, Function.comp_def, Nat.add_assoc]

theorem read_congr (same : ∀ i < len, m' (a + i) = m (a + i)) : read m' a len = read m a len :=
  List.map_congr_left fun i member => same i (List.mem_range.mp member)

theorem write_of_lt (before : b < a) : write m a l b = m b := if_neg (Nat.not_le.mpr before)

theorem write_of_ge (behind : a + l.length ≤ b) : write m a l b = m b := by
  rw [write, if_pos (by omega), List.getD_eq_getElem?_getD, List.getElem?_eq_none (by omega)]
  rfl

theorem write_within {i : Nat} (below : i < l.length) : write m a l (a + i) = l[i] := by
  rw [write, if_pos (Nat.le_add_right a i), Nat.add_sub_cancel_left,
    List.getD_eq_getElem?_getD, List.getElem?_eq_getElem below]
  rfl

/-- What was written is read back. -/
theorem read_write (m : Nat → α) (a : Nat) (l : List α) : read (write m a l) a l.length = l := by
  apply List.ext_getElem (read_length ..)
  intro i below below'
  rw [getElem_read, write_within below']

/-- Cells before the write. -/
theorem read_write_before (apart : b + len ≤ a) : read (write m a l) b len = read m b len :=
  read_congr fun _ _ => write_of_lt (by omega)

/-- Cells behind the write. -/
theorem read_write_behind (apart : a + l.length ≤ b) : read (write m a l) b len = read m b len :=
  read_congr fun _ _ => write_of_ge (by omega)

/-- Writing on where the last write ended. -/
theorem read_write_snoc (m : Nat → α) (a len : Nat) (l : List α) :
    read (write m (a + len) l) a (len + l.length) = read m a len ++ l := by
  rw [read_add, read_write_before (Nat.le_refl _), read_write]

end Memory

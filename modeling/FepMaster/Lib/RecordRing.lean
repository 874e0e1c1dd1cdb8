import FepMaster.Lib.Memory
import Mathlib.Data.Nat.ModEq

/-!
# Rings of records in memory

`n` records of `size` cells lie one behind another from the address `base` on, and are used round
and round: position `k` is the record at `address base size n k`.  One more position is one record
further, from the end back to `base` (`address_succ`), and positions less than `n` apart do not
share a cell (`address_apart`).

`Filled` says what the records at consecutive positions hold.  Records are added behind them
(`Filled.push_back`), before them (`Filled.push_front`) and taken from the front (`Filled.pop`).
-/

universe u

namespace RecordRing

open Memory

/-- Where the record of a position starts. -/
def address (base size n k : Nat) : Nat := base + k % n * size

variable {α : Type u} {base size n k : Nat}

theorem address_add_round (k : Nat) : address base size n (k + n) = address base size n k := by
  rw [address, Nat.add_mod_right, address]

theorem address_zero : address base size n 0 = base := by
  rw [address, Nat.zero_mod, Nat.zero_mul, Nat.add_zero]

/-- Records without cells are all in one place. -/
theorem address_of_size_zero : address base 0 n k = base := by
  rw [address, Nat.mul_zero, Nat.add_zero]

/-- A single record. -/
theorem address_of_single : address base size 1 k = base := by
  rw [address, Nat.mod_one, Nat.zero_mul, Nat.add_zero]

theorem le_address (base size n k : Nat) : base ≤ address base size n k := Nat.le_add_right ..

/-- A record ends where the storage ends, or before. -/
theorem address_end (base size k : Nat) (some_record : 0 < n) :
    address base size n k + size ≤ base + n * size := by
  have inside : k % n + 1 ≤ n := Nat.mod_lt k some_record
  calc address base size n k + size = base + (k % n + 1) * size := by
        rw [address, Nat.add_mul, Nat.one_mul, Nat.add_assoc]
    _ ≤ base + n * size := Nat.add_le_add_left (Nat.mul_le_mul_right size inside) base

/-- The next record, or again the first one. -/
theorem address_succ (base size k : Nat) (some_record : 0 < n) :
    address base size n (k + 1) =
      if address base size n k + size ≥ base + n * size then base
      else address base size n k + size := by
  have inside := Nat.mod_lt k some_record
  have further : address base size n k + size = base + (k % n + 1) * size := by
    rw [address, Nat.add_mul, Nat.one_mul, Nat.add_assoc]
  rw [further]
  by_cases last : k % n + 1 = n
  · have wrapped : (k + 1) % n = 0 := by
      rw [← Nat.mod_add_mod, last, Nat.mod_self]
    rw [if_pos (by rw [last]), address, wrapped, Nat.zero_mul, Nat.add_zero]
  · have next : (k + 1) % n = k % n + 1 := by
      rw [← Nat.mod_add_mod, Nat.mod_eq_of_lt (by omega)]
    rw [address, next]
    rcases Nat.eq_zero_or_pos size with nothing | something
    · rw [nothing, Nat.mul_zero, Nat.mul_zero, Nat.add_zero, ite_self]
    · have before : (k % n + 1) * size < n * size :=
        Nat.mul_lt_mul_of_pos_right (by omega) something
      rw [if_neg (by omega)]

/-- The record before, or the last one. -/
theorem address_pred (base k : Nat) (some_record : 0 < n) (something : 0 < size)
    (above : size ≤ base) :
    address base size n k =
      if address base size n (k + 1) - size < base then base + n * size - size
      else address base size n (k + 1) - size := by
  have bound := address_end base size k some_record
  have low := le_address base size n k
  rw [address_succ base size k some_record]
  by_cases last : address base size n k + size ≥ base + n * size
  · rw [if_pos last, if_pos (by omega)]
    omega
  · rw [if_neg last, if_neg (by omega)]
    omega

/-- Records less than a round apart share no cell. -/
theorem address_apart {j : Nat} (before : j < k) (within : k < j + n) :
    address base size n j + size ≤ address base size n k ∨
      address base size n k + size ≤ address base size n j := by
  have different : j % n ≠ k % n := by
    intro same
    have congruent : j ≡ k [MOD n] := same
    have multiple := (Nat.modEq_iff_dvd' before.le).mp congruent
    have small := Nat.le_of_dvd (by omega) multiple
    omega
  have ordered {a b : Nat} (less : a < b) : base + a * size + size ≤ base + b * size := by
    have step := Nat.mul_le_mul_right size (Nat.succ_le_of_lt less)
    rw [Nat.succ_mul] at step
    omega
  rcases Nat.lt_or_gt_of_ne different with less | greater
  · exact .inl (ordered less)
  · exact .inr (ordered greater)

/-! ## Contents -/

/-- The records from position `k` on hold the items. -/
def Filled (m : Nat → α) (base size n k : Nat) (items : List (List α)) : Prop :=
  ∀ j item, items[j]? = some item → read m (address base size n (k + j)) size = item

namespace Filled

variable {m : Nat → α} {item : List α} {items : List (List α)}

theorem nil : Filled m base size n k [] := by
  intro j item found
  cases found

theorem add_round (filled : Filled m base size n k items) : Filled m base size n (k + n) items := by
  intro j item found
  rw [Nat.add_right_comm, address_add_round]
  exact filled j item found

/-- The item at the front. -/
theorem front (filled : Filled m base size n k (item :: items)) :
    read m (address base size n k) size = item :=
  filled 0 item rfl

theorem pop (filled : Filled m base size n k (item :: items)) :
    Filled m base size n (k + 1) items := by
  intro j other found
  rw [Nat.add_assoc, Nat.add_comm 1 j]
  exact filled (j + 1) other found

/-- Writing a record less than a round away leaves a record alone. -/
theorem read_apart {j i : Nat} (different : j ≠ i) (near : j < i + n) (near' : i < j + n)
    (sized : item.length = size) :
    read (write m (address base size n j) item) (address base size n i) size =
      read m (address base size n i) size := by
  have apart : address base size n i + size ≤ address base size n j ∨
      address base size n j + size ≤ address base size n i := by
    rcases Nat.lt_or_gt_of_ne different with before | behind
    · exact (address_apart before near').symm
    · exact address_apart behind near
  rcases apart with before | behind
  · exact read_write_before before
  · exact read_write_behind (by rw [sized]; exact behind)

theorem push_back (filled : Filled m base size n k items) (room : items.length < n)
    (sized : item.length = size) :
    Filled (write m (address base size n (k + items.length)) item) base size n k
      (items ++ [item]) := by
  intro j other found
  rcases Nat.lt_trichotomy j items.length with before | same | behind
  · rw [List.getElem?_append_left before] at found
    rw [read_apart (by omega) (by omega) (by omega) sized]
    exact filled j other found
  · rw [same, List.getElem?_concat_length] at found
    cases found
    rw [same, ← sized, read_write]
  · rw [List.getElem?_eq_none (by simp; omega)] at found
    cases found

theorem push_front (filled : Filled m base size n (k + 1) items) (room : items.length < n)
    (sized : item.length = size) :
    Filled (write m (address base size n k) item) base size n k (item :: items) := by
  intro j other found
  cases j with
  | zero =>
      cases found
      rw [Nat.add_zero, ← sized, read_write]
  | succ j =>
      rw [List.getElem?_cons_succ] at found
      have inside : j < items.length := (List.getElem?_eq_some_iff.mp found).1
      rw [read_apart (by omega) (by omega) (by omega) sized]
      have kept := filled j other found
      rw [Nat.add_assoc, Nat.add_comm 1 j] at kept
      exact kept

/-- A write beside the storage. -/
theorem write_outside {a : Nat} {other : List α} (filled : Filled m base size n k items)
    (some_record : 0 < n) (outside : a + other.length ≤ base ∨ base + n * size ≤ a) :
    Filled (write m a other) base size n k items := by
  intro j item found
  have low := le_address base size n (k + j)
  have high := address_end base size (k + j) some_record
  rw [← filled j item found]
  rcases outside with before | behind
  · exact read_write_behind (by omega)
  · exact read_write_before (by omega)

end Filled

end RecordRing

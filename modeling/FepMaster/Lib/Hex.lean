import Mathlib.Data.List.Range
import Mathlib.Data.Fintype.Basic

/-!
# Upper-case hexadecimal text

The text of a byte string, two digits a byte, the high one first.  `text_range` recognises the text
of a run of bytes in memory from the digits of each.
-/

namespace Hex

/-- The character of a digit. -/
def digit (v : Fin 16) : UInt8 :=
  if v.val < 10 then 0x30 + UInt8.ofNat v.val else 0x41 + UInt8.ofNat (v.val - 10)

/-- The character is an upper-case digit. -/
def IsDigit (c : UInt8) : Prop := ∃ v, digit v = c

/-- The two digits of a byte. -/
def byteText (b : UInt8) : List UInt8 :=
  [digit (Fin.ofNat 16 (b.toNat / 16)), digit (Fin.ofNat 16 b.toNat)]

/-- The digits of a byte string. -/
def text (bytes : List UInt8) : List UInt8 := bytes.flatMap byteText

@[simp] theorem length_text (bytes : List UInt8) : (text bytes).length = 2 * bytes.length := by
  induction bytes with
  | nil => rfl
  | cons b rest ih =>
      rw [text, List.flatMap_cons, List.length_append, ← text, ih, List.length_cons]
      exact (Nat.add_comm 2 _)

theorem isDigit_of_mem_text {bytes : List UInt8} {c : UInt8} (member : c ∈ text bytes) :
    IsDigit c := by
  obtain ⟨b, -, here⟩ := List.mem_flatMap.mp member
  rcases List.mem_cons.mp here with first | second
  · exact ⟨_, first.symm⟩
  · exact ⟨_, (List.mem_singleton.mp second).symm⟩

/-- The digits of a run of bytes stand in memory if those of each byte do. -/
theorem text_range {bytes chars : Nat → UInt8} {n : Nat}
    (pairs : ∀ j < n, byteText (bytes j) = [chars (2 * j), chars (2 * j + 1)]) :
    text ((List.range n).map bytes) = (List.range (2 * n)).map chars := by
  induction n with
  | zero => rfl
  | succ n ih =>
      have before := ih fun j below => pairs j (Nat.lt_succ_of_lt below)
      rw [text] at before
      rw [Nat.mul_succ, List.range_succ, List.range_succ, List.range_succ, text, List.map_append,
        List.flatMap_append, before, List.map_append, List.map_append, List.append_assoc]
      congr 1
      exact (List.append_nil _).trans (pairs n (Nat.lt_succ_self n))

end Hex

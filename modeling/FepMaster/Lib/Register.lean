import Mathlib.Data.BitVec

/-!
# Registers

A device register is a word written by reading it, setting and clearing bits, and writing it back.
`Agree mask r r'` says that two values of it have the same bits under a mask: this is kept by
whatever the masks of the writes do not touch.  `or_flag_iff` is the write that sets a flag to a
value without clearing it first.  `isSet` asks for a flag.
-/

namespace Register

variable {w : Nat}

/-- The two values have the same bits under the mask. -/
def Agree (mask r r' : BitVec w) : Prop := r &&& mask = r' &&& mask

variable {mask r r' r'' bits : BitVec w}

theorem Agree.trans (one : Agree mask r r') (other : Agree mask r' r'') : Agree mask r r'' :=
  Eq.trans one other

/-- Also under a smaller mask. -/
theorem Agree.mono {small : BitVec w} (agree : Agree mask r r') (within : mask &&& small = small) :
    Agree small r r' := by
  unfold Agree at agree ⊢
  rw [← within, ← BitVec.and_assoc, agree, BitVec.and_assoc]

/-- Setting bits outside the mask. -/
theorem agree_set (r : BitVec w) (apart : bits &&& mask = 0#w) : Agree mask (r ||| bits) r := by
  unfold Agree
  rw [BitVec.and_or_distrib_right, apart, BitVec.or_zero]

/-- Clearing bits outside the mask. -/
theorem agree_clear (r : BitVec w) (apart : ~~~bits &&& mask = mask) :
    Agree mask (r &&& ~~~bits) r := by
  unfold Agree
  rw [BitVec.and_assoc, apart]

/-- Some bit of the mask is set. -/
def isSet (mask r : BitVec w) : Bool := r &&& mask != 0#w

/-- After a write that sets bits. -/
theorem isSet_or (r : BitVec w) : isSet mask (r ||| bits) = (isSet mask r || isSet mask bits) := by
  unfold isSet
  rw [BitVec.and_or_distrib_right, Bool.eq_iff_iff, Bool.or_eq_true, bne_iff_ne, bne_iff_ne,
    bne_iff_ne, ne_eq, BitVec.or_eq_zero_iff]
  exact not_and_or

/-- After a write that keeps no bit of the mask. -/
theorem isSet_and (r : BitVec w) (apart : bits &&& mask = 0#w) : isSet mask (r &&& bits) = false := by
  unfold isSet
  rw [BitVec.and_assoc, apart, BitVec.and_zero]
  exact bne_self_eq_false _

/-- A flag that is written without being cleared has the value written exactly if it was not set
before or is set by the write. -/
theorem or_flag_iff (r : BitVec w) (flag : mask ≠ 0#w) (value : bits = 0#w ∨ bits = mask) :
    (r ||| bits) &&& mask = bits ↔ (r &&& mask ≠ 0#w → bits = mask) := by
  rcases value with rfl | rfl
  · rw [BitVec.or_zero]
    constructor
    · exact fun clear set => absurd clear set
    · intro never
      by_contra set
      exact flag (never set).symm
  · rw [BitVec.and_or_distrib_right, BitVec.and_self]
    refine iff_of_true ?_ fun _ => rfl
    apply BitVec.eq_of_getLsbD_eq
    intro i below
    rw [BitVec.getLsbD_or, BitVec.getLsbD_and]
    cases bits.getLsbD i <;> simp

end Register

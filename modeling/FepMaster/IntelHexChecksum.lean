import Mathlib.Algebra.BigOperators.Group.List.Basic
import Mathlib.Data.UInt

/-!
# The record checksum

`checksum_check` of `Utilities/IntelHexUtil/intel_hex.c`: the bytes before the last are added in an
8-bit accumulator, the sum is complemented and incremented, and the result is compared with the
last byte.  The loop counter is 8 bits wide, the bound `length-1` is an `int`.

A read outside the array has no result here, and neither has a loop that is given too few
iterations.  The loop adds up all bytes before the last (`checksumLoop_eq`), so a record is
accepted exactly if all its bytes add up to 0 modulo 256 (`checksumCheck_exact`).
-/

namespace FepMaster

/-! ## The code -/

/-- `*(data + pos)`, in an array. -/
def dataAt (data : List UInt8) (pos : Int) : Option UInt8 :=
  if pos < 0 then none else data[pos.toNat]?

/-- The loop of `checksum_check` from a value of `i` and of `tmpChksum` on. -/
def checksumLoop (data : List UInt8) (length : UInt8) : Nat → UInt8 → UInt8 → Option UInt8
  | 0, _, _ => none
  | fuel + 1, i, tmpChksum =>
      if (i.toNat : Int) < (length.toNat : Int) - 1 then do
        let byte ← dataAt data i.toNat
        checksumLoop data length fuel (i + 1) (tmpChksum + byte)
      else some tmpChksum

/-- `checksum_check`. -/
def checksumCheck (fuel : Nat) (data : List UInt8) (length : UInt8) : Option UInt8 := do
  let tmpChksum ← checksumLoop data length fuel 0 0
  let tmpChksum := tmpChksum ^^^ 0xFF
  let tmpChksum := tmpChksum + 1
  let byte ← dataAt data ((length.toNat : Int) - 1)
  if tmpChksum ≠ byte then some 1 else some 0

/-- The call for a whole array. -/
def checkArray (fuel : Nat) (data : List UInt8) : Option UInt8 :=
  checksumCheck fuel data (UInt8.ofNat data.length)

/-- The sum of all bytes of an array. -/
def byteSum (data : List UInt8) : Nat := (data.map UInt8.toNat).sum

/-- The two's complement of the sum of the bytes. -/
def complementByte (data : List UInt8) : UInt8 := UInt8.ofNat (256 - byteSum data % 256)

/-! ## The loop -/

theorem dataAt_nat (data : List UInt8) (pos : Nat) : dataAt data pos = data[pos]? := by
  unfold dataAt
  rw [if_neg (by omega), Int.toNat_natCast]

theorem toNat_ofNat_of_le {n : Nat} (short : n ≤ 255) : (UInt8.ofNat n).toNat = n := by
  rw [UInt8.toNat_ofNat']
  omega

/-- From its `i`-th byte on the loop adds the remaining bytes before the last: the counter, which
stays below 255, meets the bound after the last of them. -/
theorem checksumLoop_eq (seen rest : List UInt8) (last : UInt8)
    (short : (seen ++ rest).length ≤ 254) {fuel : Nat} (enough : rest.length < fuel)
    (tmpChksum : UInt8) :
    checksumLoop (seen ++ rest ++ [last]) (UInt8.ofNat ((seen ++ rest).length + 1)) fuel
      (UInt8.ofNat seen.length) tmpChksum = some (tmpChksum + rest.sum) := by
  induction rest generalizing seen fuel tmpChksum with
  | nil =>
      cases fuel with
      | zero => cases enough
      | succ fuel =>
          rw [List.append_nil] at short ⊢
          unfold checksumLoop
          rw [toNat_ofNat_of_le (by omega), toNat_ofNat_of_le (by omega), if_neg (by omega),
            List.sum_nil, UInt8.add_zero]
  | cons byte rest ih =>
      cases fuel with
      | zero => cases enough
      | succ fuel =>
          have later : (seen ++ byte :: rest).length = seen.length + rest.length + 1 := by
            rw [List.length_append, List.length_cons]
            omega
          have read : (seen ++ byte :: rest ++ [last])[seen.length]? = some byte := by
            rw [List.append_assoc, List.getElem?_append_right (Nat.le_refl _), Nat.sub_self]
            rfl
          have next : UInt8.ofNat seen.length + 1 = UInt8.ofNat (seen ++ [byte]).length := by
            rw [List.length_append, List.length_singleton, UInt8.ofNat_add]
            rfl
          have moved : seen ++ byte :: rest = seen ++ [byte] ++ rest := by
            rw [List.append_assoc, List.singleton_append]
          unfold checksumLoop
          rw [toNat_ofNat_of_le (by omega), toNat_ofNat_of_le (by omega), if_pos (by omega),
            dataAt_nat, read, next, moved]
          rw [moved] at short
          rw [List.sum_cons, ← UInt8.add_assoc]
          exact ih (seen ++ [byte]) short (Nat.lt_of_succ_lt_succ enough) (tmpChksum + byte)

/-! ## The check -/

/-- Complementing and incrementing negates. -/
theorem xor_add_one (x : UInt8) : (x ^^^ 0xFF) + 1 = -x := by
  have ones : x ^^^ 0xFF = ~~~x := UInt8.toBitVec_inj.mp (BitVec.xor_allOnes (x := x.toBitVec))
  rw [ones, UInt8.neg_eq_not_add]

/-- The sum of the bytes is 0 in 8 bits if it is divisible by 256. -/
theorem sum_eq_zero_iff (data : List UInt8) : data.sum = 0 ↔ byteSum data % 256 = 0 := by
  have value : data.sum.toNat = byteSum data % 256 := by
    induction data with
    | nil => rfl
    | cons byte rest ih =>
        rw [List.sum_cons, UInt8.toNat_add, ih, byteSum, byteSum, List.map_cons, List.sum_cons]
        omega
  rw [← value, ← UInt8.toNat_inj]
  rfl

/-- A call for a whole array ends, with 0 exactly if the bytes add up to 0 modulo 256. -/
theorem checkArray_eq {data : List UInt8} (nonempty : data ≠ []) (short : data.length ≤ 255)
    {fuel : Nat} (enough : data.length ≤ fuel) :
    checkArray fuel data = if byteSum data % 256 = 0 then some 0 else some 1 := by
  obtain ⟨payload, last, rfl⟩ : ∃ payload last, data = payload ++ [last] :=
    ⟨_, _, (List.dropLast_append_getLast nonempty).symm⟩
  rw [List.length_append, List.length_singleton] at short enough
  have added := checksumLoop_eq [] payload last (by rw [List.nil_append]; omega) enough 0
  rw [List.nil_append, UInt8.zero_add] at added
  have length : ((UInt8.ofNat (payload.length + 1)).toNat : Int) - 1 = payload.length := by
    rw [toNat_ofNat_of_le short]
    omega
  have read : dataAt (payload ++ [last]) payload.length = some last := by
    rw [dataAt_nat, List.getElem?_append_right (Nat.le_refl _), Nat.sub_self]
    rfl
  have accepted : -payload.sum = last ↔ byteSum (payload ++ [last]) % 256 = 0 := by
    rw [← sum_eq_zero_iff, List.sum_append, List.sum_singleton]
    constructor
    · intro same
      rw [← same, ← UInt8.sub_eq_add_neg, UInt8.sub_self]
    · intro zero
      rw [← UInt8.zero_sub, ← zero, UInt8.add_comm, UInt8.add_sub_cancel]
  have called : checkArray fuel (payload ++ [last]) =
      if -payload.sum ≠ last then some 1 else some 0 := by
    unfold checkArray checksumCheck
    rw [List.length_append, List.length_singleton, length, read, ← xor_add_one]
    exact congrArg (Option.bind · _) added
  rw [called, ite_not, if_congr accepted rfl rfl]

/-- The sum of all bytes with one of them replaced. -/
theorem byteSum_set {data : List UInt8} {pos : Nat} {old : UInt8} (held : data[pos]? = some old)
    (byte : UInt8) : byteSum (data.set pos byte) + old.toNat = byteSum data + byte.toNat := by
  induction data generalizing pos with
  | nil => cases held
  | cons first rest ih =>
      cases pos with
      | zero =>
          rw [List.getElem?_cons_zero, Option.some_inj] at held
          simp only [List.set_cons_zero, byteSum, List.map_cons, List.sum_cons, held]
          omega
      | succ pos =>
          have later := ih held
          simp only [List.set_cons_succ, byteSum, List.map_cons, List.sum_cons] at later ⊢
          omega

/-- Changing one byte changes the sum modulo 256. -/
theorem byteSum_set_mod {data : List UInt8} (accepted : byteSum data % 256 = 0) {pos : Nat}
    {old byte : UInt8} (held : data[pos]? = some old) (changed : byte ≠ old) :
    byteSum (data.set pos byte) % 256 ≠ 0 := by
  intro again
  have sums := byteSum_set held byte
  have new := byte.toNat_lt
  have before := old.toNat_lt
  exact changed (UInt8.toNat_inj.mp (by omega))

theorem byteSum_complement (payload : List UInt8) :
    byteSum (payload ++ [complementByte payload]) % 256 = 0 := by
  have value : (complementByte payload).toNat = (256 - byteSum payload % 256) % 256 :=
    UInt8.toNat_ofNat'
  unfold byteSum at value ⊢
  rw [List.map_append, List.sum_append, List.map_singleton, List.sum_singleton, value]
  omega

/-- **Checksum verification is exact.**  An array of 1 to 255 bytes is accepted exactly if its
bytes add up to 0 modulo 256 and rejected otherwise.  Changing one byte of an accepted array makes
it rejected; up to 254 bytes with the two's complement of their sum are accepted. -/
theorem checksumCheck_exact {data : List UInt8} (nonempty : data ≠ []) (short : data.length ≤ 255)
    {fuel : Nat} (enough : data.length ≤ fuel) :
    (checkArray fuel data = some 0 ↔ byteSum data % 256 = 0) ∧
      (checkArray fuel data = some 1 ↔ byteSum data % 256 ≠ 0) ∧
      (checkArray fuel data = some 0 → ∀ pos old byte, data[pos]? = some old → byte ≠ old →
        checkArray fuel (data.set pos byte) = some 1) ∧
      ∀ payload, payload.length + 1 = data.length →
        checkArray fuel (payload ++ [complementByte payload]) = some 0 := by
  have accepts : ∀ bytes : List UInt8, bytes.length = data.length →
      checkArray fuel bytes = if byteSum bytes % 256 = 0 then some 0 else some 1 := by
    intro bytes same
    have positive := List.length_pos_iff.mpr nonempty
    refine checkArray_eq (List.length_pos_iff.mp ?_) ?_ ?_ <;> omega
  refine ⟨?_, ?_, fun accepted pos old byte held changed => ?_, fun payload length => ?_⟩
  · rw [accepts data rfl]
    split <;> simp_all
  · rw [accepts data rfl]
    split <;> simp_all
  · have zero : byteSum data % 256 = 0 := by
      by_contra other
      rw [accepts data rfl, if_neg other] at accepted
      cases accepted
    rw [accepts _ (List.length_set ..), if_neg (byteSum_set_mod zero held changed)]
  · rw [accepts _ (by rw [List.length_append, List.length_singleton, length]),
      if_pos (byteSum_complement payload)]

/-- The end record `:00000001FF`. -/
theorem checksumCheck_endRecord :
    checkArray 5 [0, 0, 0, 1, 0xFF] = some 0 ∧ checkArray 5 [0, 0, 0, 2, 0xFF] = some 1 := by
  obtain ⟨accepts, -, changed, -⟩ := @checksumCheck_exact [0, 0, 0, 1, 0xFF]
    (by decide) (by decide) 5 (le_refl 5)
  have accepted := accepts.mpr (by decide)
  exact ⟨accepted, changed accepted 3 1 2 rfl (by decide)⟩

end FepMaster

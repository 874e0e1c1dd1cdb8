import FepMaster.Packet

/-!
# Intel-HEX records

`getRecordType`, `getBaseAddress` and `getLoadOffset` of `Utilities/IntelHexUtil/intel_hex.c`, and
the addresses the format gives the bytes of a file: an extended record sets the base of the data
records behind it, up to the next extended record.

A record is its bytes, from the length on.  The value of an extended segment record is shifted
eight places too far; `record_addresses_iff` says when that can be seen.
-/

namespace FepMaster

/-- The bytes of a record in memory, without the colon. -/
abbrev HexRecord := Nat → UInt8

/-- `RECORD_LEN_POS`. -/
def recordLenPos : Nat := 0

/-- `LOAD_OFFSET_POS`. -/
def loadOffsetPos : Nat := 1

/-- `RECORD_TYPE_POS`. -/
def recordTypePos : Nat := 3

/-- `DATA_POS`. -/
def dataPos : Nat := 4

/-- `RecordType_t`; a byte beyond the enumeration stays what it is. -/
inductive RecordType
  | dataRecordType
  | endOfFileRecordType
  | extendedSegmentAddressRecordType
  | startSegmentAddressRecordType
  | extendedLinearAddressRecordType
  | startLinearAddressRecordType
  | other (byte : UInt8)
  deriving DecidableEq

/-- The cast `(RecordType_t)`. -/
def RecordType.ofByte (b : UInt8) : RecordType :=
  if b = 0 then .dataRecordType
  else if b = 1 then .endOfFileRecordType
  else if b = 2 then .extendedSegmentAddressRecordType
  else if b = 3 then .startSegmentAddressRecordType
  else if b = 4 then .extendedLinearAddressRecordType
  else if b = 5 then .startLinearAddressRecordType
  else .other b

/-- `getRecordType`. -/
def getRecordType (data : HexRecord) : RecordType := RecordType.ofByte (data recordTypePos)

/-- `getBaseAddress`. -/
def getBaseAddress (data : HexRecord) : UInt32 :=
  let res : UInt32 := 0
  match getRecordType data with
  | .dataRecordType => res
  | .endOfFileRecordType => res
  | .extendedSegmentAddressRecordType =>
      let res := res ||| (data dataPos).toUInt32 <<< 20
      res ||| (data (dataPos + 1)).toUInt32 <<< 12
  | .startSegmentAddressRecordType =>
      let res := res ||| (data dataPos).toUInt32 <<< 24
      let res := res ||| (data (dataPos + 1)).toUInt32 <<< 16
      let res := res ||| (data (dataPos + 2)).toUInt32 <<< 8
      res ||| (data (dataPos + 3)).toUInt32
  | .extendedLinearAddressRecordType =>
      let res := res ||| (data dataPos).toUInt32 <<< 24
      res ||| (data (dataPos + 1)).toUInt32 <<< 16
  | .startLinearAddressRecordType =>
      let res := res ||| (data dataPos).toUInt32 <<< 24
      let res := res ||| (data (dataPos + 1)).toUInt32 <<< 16
      let res := res ||| (data (dataPos + 2)).toUInt32 <<< 8
      res ||| (data (dataPos + 3)).toUInt32
  | .other _ => res

/-- `getLoadOffset`. -/
def getLoadOffset (data : HexRecord) : UInt16 :=
  let res : UInt16 := 0
  let res := res ||| (data loadOffsetPos).toUInt16 <<< 8
  res ||| (data (loadOffsetPos + 1)).toUInt16

/-! ## The format -/

/-- A big-endian pair of bytes. -/
def bigEndian (data : HexRecord) (pos : Nat) : Nat :=
  (data pos).toNat * 256 + (data (pos + 1)).toNat

/-- The record sets the base of the data records behind it. -/
def IsExtended (r : HexRecord) : Prop :=
  getRecordType r = .extendedSegmentAddressRecordType ∨
    getRecordType r = .extendedLinearAddressRecordType

instance (r : HexRecord) : Decidable (IsExtended r) :=
  inferInstanceAs (Decidable (_ ∨ _))

/-- The record carries no address but its own: a data record or the end of the file. -/
def IsPlain (r : HexRecord) : Prop :=
  getRecordType r = .dataRecordType ∨ getRecordType r = .endOfFileRecordType

/-- The base an extended record stands for: its value times 16 or times 65536. -/
def standardBase (r : HexRecord) : Nat :=
  match getRecordType r with
  | .extendedSegmentAddressRecordType => bigEndian r dataPos * 16
  | .extendedLinearAddressRecordType => bigEndian r dataPos * 65536
  | _ => 0

/-- Where a data record lives, its base given. -/
def standardAddress (base : Nat) (d : HexRecord) : UInt32 :=
  UInt32.ofNat (base + bigEndian d loadOffsetPos)

/-- The same from the functions of the code. -/
def computedAddress (base : UInt32) (d : HexRecord) : UInt32 := base + (getLoadOffset d).toUInt32

/-- The data records of a file, each with the extended record before it, if there is one. -/
def governed : Option HexRecord → List HexRecord → List (Option HexRecord × HexRecord)
  | _, [] => []
  | g, r :: rest =>
      if getRecordType r = .dataRecordType then (g, r) :: governed g rest
      else if IsExtended r then governed (some r) rest
      else governed g rest

/-- The addresses of the bytes of a data record that lives at `address`. -/
def bytesFrom (address : UInt32) (d : HexRecord) : List UInt32 :=
  (List.range (d recordLenPos).toNat).map fun i => address + UInt32.ofNat i

/-- The addresses the format gives the data bytes of a file. -/
def standardAddresses (records : List HexRecord) : List UInt32 :=
  (governed none records).flatMap fun p =>
    bytesFrom (standardAddress (p.1.elim 0 standardBase) p.2) p.2

/-- The addresses the functions of the code give them. -/
def computedAddresses (records : List HexRecord) : List UInt32 :=
  (governed none records).flatMap fun p =>
    bytesFrom (computedAddress (p.1.elim 0 getBaseAddress) p.2) p.2

/-- An extended segment record with a value other than zero. -/
def IsSegment (r : HexRecord) : Prop :=
  getRecordType r = .extendedSegmentAddressRecordType ∧ bigEndian r dataPos ≠ 0

/-! ## Bases and offsets -/

/-- Two bytes in neighbouring places of a word. -/
theorem toNat_shifted_pair (high low : UInt8) {j k : UInt32} (next : j.toNat = k.toNat + 8)
    (fits : k.toNat ≤ 16) :
    (high.toUInt32 <<< j ||| low.toUInt32 <<< k).toNat =
      (high.toNat * 256 + low.toNat) * 2 ^ k.toNat := by
  have hh := high.toNat_lt
  have hl := low.toNat_lt
  have scale : 2 ^ k.toNat ≤ 2 ^ 16 := Nat.pow_le_pow_right (Nat.succ_pos 1) fits
  have upper : high.toNat * 2 ^ (k.toNat + 8) = high.toNat * 256 * 2 ^ k.toNat := by
    rw [Nat.pow_add, Nat.mul_comm (2 ^ k.toNat), Nat.mul_assoc]
  have upperFits : high.toNat * 256 * 2 ^ k.toNat < 2 ^ 32 :=
    lt_of_le_of_lt (Nat.mul_le_mul_left _ scale) (by omega)
  have lowerFits : low.toNat * 2 ^ k.toNat < 2 ^ 32 :=
    lt_of_le_of_lt (Nat.mul_le_mul_left _ scale) (by omega)
  have apart : low.toNat * 2 ^ k.toNat < 2 ^ (k.toNat + 8) := by
    rw [Nat.pow_add, Nat.mul_comm (2 ^ k.toNat)]
    exact Nat.mul_lt_mul_of_pos_right hl (Nat.two_pow_pos _)
  rw [UInt32.toNat_or, UInt32.toNat_shiftLeft, UInt32.toNat_shiftLeft, UInt8.toNat_toUInt32,
    UInt8.toNat_toUInt32, Nat.mod_eq_of_lt (by omega : j.toNat < 32),
    Nat.mod_eq_of_lt (by omega : k.toNat < 32), Nat.shiftLeft_eq low.toNat,
    Nat.mod_eq_of_lt lowerFits, next, Nat.shiftLeft_eq, upper, Nat.mod_eq_of_lt upperFits, ← upper,
    ← Nat.shiftLeft_eq high.toNat, ← Nat.shiftLeft_add_eq_or_of_lt apart, Nat.shiftLeft_eq, upper,
    Nat.add_mul]

theorem bigEndian_lt (data : HexRecord) (pos : Nat) : bigEndian data pos < 65536 := by
  have high := (data pos).toNat_lt
  have low := (data (pos + 1)).toNat_lt
  unfold bigEndian
  omega

/-- The shifts of an extended segment record scale its value by 4096. -/
theorem getBaseAddress_segment {r : HexRecord}
    (type : getRecordType r = .extendedSegmentAddressRecordType) :
    (getBaseAddress r).toNat = bigEndian r dataPos * 4096 := by
  have packed : getBaseAddress r =
      (r dataPos).toUInt32 <<< 20 ||| (r (dataPos + 1)).toUInt32 <<< 12 := by
    rw [getBaseAddress, type]
    exact congrArg (· ||| _) UInt32.zero_or
  rw [packed]
  exact toNat_shifted_pair _ _ rfl (by decide)

theorem getBaseAddress_linear {r : HexRecord}
    (type : getRecordType r = .extendedLinearAddressRecordType) :
    (getBaseAddress r).toNat = bigEndian r dataPos * 65536 := by
  have packed : getBaseAddress r =
      (r dataPos).toUInt32 <<< 24 ||| (r (dataPos + 1)).toUInt32 <<< 16 := by
    rw [getBaseAddress, type]
    exact congrArg (· ||| _) UInt32.zero_or
  rw [packed]
  exact toNat_shifted_pair _ _ rfl (by decide)

theorem getBaseAddress_plain {r : HexRecord} (plain : IsPlain r) : getBaseAddress r = 0 := by
  unfold getBaseAddress
  rcases plain with type | type <;> rw [type]

theorem getLoadOffset_toNat (d : HexRecord) :
    (getLoadOffset d).toNat = bigEndian d loadOffsetPos := by
  have word : getLoadOffset d = valueWord (d loadOffsetPos) (d (loadOffsetPos + 1)) :=
    congrArg (· ||| _) UInt16.zero_or
  rw [word, valueWord_toNat, bigEndian]

/-- The computed address is that of the format unless the base comes from a segment. -/
theorem computedAddress_iff {x : HexRecord} (extended : IsExtended x) (d : HexRecord) :
    computedAddress (getBaseAddress x) d = standardAddress (standardBase x) d ↔ ¬ IsSegment x := by
  have value := bigEndian_lt x dataPos
  have offset := bigEndian_lt d loadOffsetPos
  rw [computedAddress, standardAddress, ← UInt32.toNat_inj, UInt32.toNat_add,
    UInt16.toNat_toUInt32, getLoadOffset_toNat, UInt32.toNat_ofNat', standardBase, IsSegment]
  rcases extended with type | type
  · rw [getBaseAddress_segment type, type]
    simp only [true_and, not_not]
    omega
  · rw [getBaseAddress_linear type, type]
    exact iff_of_true rfl fun segment => by cases segment.1

/-- Without an extended record the address is the load offset. -/
theorem computedAddress_zero (d : HexRecord) : computedAddress 0 d = standardAddress 0 d := by
  have offset := bigEndian_lt d loadOffsetPos
  apply UInt32.toNat_inj.mp
  rw [computedAddress, UInt32.zero_add, standardAddress, UInt16.toNat_toUInt32,
    getLoadOffset_toNat, UInt32.toNat_ofNat', Nat.zero_add, Nat.mod_eq_of_lt (by omega)]

/-! ## Files -/

/-- Only extended records govern. -/
theorem isExtended_of_governed {g : Option HexRecord} {records : List HexRecord}
    (start : ∀ x, g = some x → IsExtended x) {p : Option HexRecord × HexRecord}
    (member : p ∈ governed g records) : ∀ x, p.1 = some x → IsExtended x := by
  induction records generalizing g with
  | nil => cases member
  | cons r rest ih =>
      rw [governed] at member
      split at member
      · rcases List.mem_cons.mp member with rfl | later
        · exact start
        · exact ih start later
      · split at member
        · next extended =>
            refine ih (fun x same => ?_) member
            cases same
            exact extended
        · exact ih start member

/-- Two readings of a list that agree in length agree exactly if they do element by element. -/
theorem flatMap_eq_iff {α β : Type} {f h : α → List β} (length : ∀ a, (f a).length = (h a).length)
    (l : List α) : l.flatMap f = l.flatMap h ↔ ∀ a ∈ l, f a = h a := by
  induction l with
  | nil => exact iff_of_true rfl fun a member => absurd member List.not_mem_nil
  | cons a rest ih =>
      rw [List.flatMap_cons, List.flatMap_cons, List.forall_mem_cons, ← ih]
      refine ⟨fun same => List.append_inj same (length a), fun same => ?_⟩
      rw [same.1, same.2]

theorem bytesFrom_eq_iff (a b : UInt32) (d : HexRecord) :
    bytesFrom a d = bytesFrom b d ↔ d recordLenPos ≠ 0 → a = b := by
  constructor
  · intro same some
    rw [bytesFrom, bytesFrom] at same
    have first := List.map_inj_left.mp same 0 (List.mem_range.mpr (Nat.pos_of_ne_zero fun none =>
      some (UInt8.toNat_inj.mp none)))
    exact UInt32.add_left_inj _ |>.mp first
  · intro same
    by_cases none : d recordLenPos = 0
    · rw [bytesFrom, bytesFrom, none]
      rfl
    · rw [same none]

theorem computedAddresses_iff (records : List HexRecord) :
    computedAddresses records = standardAddresses records ↔
      ∀ p ∈ governed none records, p.2 recordLenPos ≠ 0 → ∀ x, p.1 = some x → ¬ IsSegment x := by
  rw [computedAddresses, standardAddresses, flatMap_eq_iff]
  · refine forall₂_congr fun p member => ?_
    rw [bytesFrom_eq_iff]
    refine imp_congr_right fun _ => ?_
    have extended := isExtended_of_governed (fun x none => by cases none) member
    rcases p with ⟨g, d⟩
    cases g with
    | none =>
        exact iff_of_true (computedAddress_zero d) fun x none => by cases none
    | some x =>
        rw [Option.elim_some, Option.elim_some, computedAddress_iff (extended x rfl)]
        exact ⟨fun plain y same => by cases same; exact plain, fun all => all x rfl⟩
  · intro p
    rw [bytesFrom, bytesFrom, List.length_map, List.length_map]

/-- **Record addresses.**  Base and offset give the address of the format exactly if the extended
record is no segment with a value other than zero; the base is 0 for data and end-of-file records;
and the data bytes of a file get their addresses exactly if none of them lies in such a segment. -/
theorem record_addresses_iff (x : {r : HexRecord // IsExtended r}) (d : HexRecord)
    (plain : {r : HexRecord // IsPlain r}) (records : List HexRecord) :
    (computedAddress (getBaseAddress x) d = standardAddress (standardBase x) d ↔
      ¬ IsSegment x) ∧
    getBaseAddress plain = 0 ∧
    (computedAddresses records = standardAddresses records ↔
      ∀ p ∈ governed none records, p.2 recordLenPos ≠ 0 → ∀ x, p.1 = some x → ¬ IsSegment x) :=
  ⟨computedAddress_iff x.property d, getBaseAddress_plain plain.property,
    computedAddresses_iff records⟩

/-- Segment 1 is placed at 4096, not at 16. -/
theorem record_address_misplaced :
    ¬ ∀ x d : HexRecord, IsExtended x →
      computedAddress (getBaseAddress x) d = standardAddress (standardBase x) d := by
  intro claim
  let x : HexRecord := fun i => [2, 0, 0, 2, 0, 1].getD i 0
  exact absurd (claim x (fun _ => 0) (by decide)) (by decide)

end FepMaster

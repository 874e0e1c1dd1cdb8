import Mathlib.Logic.Function.Basic
import FepMaster.Packet

/-!
# The device table

`FEP_DEV_t`, the fixed array `fep_dev_list` and the loop range of the six polled slots
(`Drivers/FEP/fep_define.h`, `Drivers/FEP/fep_process.c`).

A device record is modelled by all its fields but the link, which only the dynamic list uses.  The
array is a total map from its thirty slots, so an index outside it cannot be formed.
-/

namespace FepMaster

/-- `ACTIVE`. -/
def active : UInt8 := 1

/-- `INACTIVE`. -/
def inactive : UInt8 := 0

theorem inactive_ne_active : inactive ≠ active := by decide

/-- `MAX_DEVICES`. -/
def maxDevices : Nat := 30

/-- `FEP_DEV_t` without its link. -/
structure FepDev where
  devType : UInt8
  devId : UInt8
  status : UInt8
  needRegister : UInt8
  data : UInt8
  dataL : UInt8
  devLongaddr : UInt8
  slaveRegister : UInt8
  receCount : UInt8
  updateCount : UInt8
  newData : UInt8
  deriving DecidableEq

namespace FepDev

/-- A record of static storage before anything is written to it. -/
def zero : FepDev := ⟨0, 0, 0, 0, 0, 0, 0, 0, 0, 0, 0⟩

/-- The reading a slot holds: its high and its low byte. -/
def pair (d : FepDev) : UInt8 × UInt8 := (d.data, d.dataL)

end FepDev

/-- An index of `fep_dev_list`. -/
abbrev Slot := Fin maxDevices

/-- `fep_dev_list`. -/
abbrev DevTable := Slot → FepDev

namespace DevTable

/-- The zeroed table of program start. -/
def zero : DevTable := fun _ => FepDev.zero

/-- Write fields of one slot. -/
def modify (t : DevTable) (k : Slot) (f : FepDev → FepDev) : DevTable :=
  Function.update t k (f (t k))

@[simp] theorem modify_self (t : DevTable) (k : Slot) (f : FepDev → FepDev) :
    t.modify k f k = f (t k) := by
  simp [modify]

theorem modify_other (t : DevTable) {k l : Slot} (f : FepDev → FepDev) (other : l ≠ k) :
    t.modify k f l = t l := by
  simp [modify, other]

theorem modify_apply (t : DevTable) (k l : Slot) (f : FepDev → FepDev) :
    t.modify k f l = if l = k then f (t k) else t l := by
  by_cases same : l = k
  · simp [same]
  · simp [same, modify_other]

/-- A field that a write leaves alone has its old value in every slot. -/
theorem modify_field {β : Type} (field : FepDev → β) (t : DevTable) (k l : Slot)
    {f : FepDev → FepDev} (keeps : field (f (t k)) = field (t k)) :
    field (t.modify k f l) = field (t l) := by
  rw [modify_apply]
  split
  · next same => rw [same]; exact keeps
  · rfl

end DevTable

/-! ## Slots and loop indices -/

theorem packetDevId_lt (x : FepPacket) : x.packetDevId.toNat < 8 := by
  rw [FepPacket.packetDevId, toNat_and_low]
  exact Nat.mod_lt _ (by decide)

/-- The slot `PACKET_DEV_ID` selects. -/
def FepPacket.slot (x : FepPacket) : Slot :=
  ⟨x.packetDevId.toNat, Nat.lt_trans (packetDevId_lt x) (by decide)⟩

/-- The loop variable of the sweeps over the slots `1..6`, counted from zero. -/
abbrev Polled := Fin 6

/-- The slot of a sweep position: `fep_dev_list[i+1]` of a loop from `0`, `fep_dev_list[i]` of a
loop from `1`. -/
def Polled.slot (i : Polled) : Slot :=
  ⟨i.val + 1, Nat.lt_of_lt_of_le (Nat.add_lt_add_right i.isLt 1) (by decide)⟩

/-- The first loop index. -/
def Polled.first : Polled := 0

@[simp] theorem Polled.first_le (i : Polled) : Polled.first ≤ i := Fin.zero_le i

/-- The next loop index, while there is one. -/
def Polled.next (i : Polled) : Option Polled :=
  if more : i.val + 1 < 6 then some ⟨i.val + 1, more⟩ else none

theorem Polled.slot_injective : Function.Injective Polled.slot := by
  intro i j same
  have := congrArg Fin.val same
  simp only [Polled.slot] at this
  exact Fin.ext (by omega)

/-- The slot number of a sweep position as the byte the table keeps of it. -/
def Polled.number (i : Polled) : UInt8 := UInt8.ofNat (i.val + 1)

theorem packetDevId_of_slot {p : FepPacket} {i : Polled} (own : p.slot = i.slot) :
    p.packetDevId = i.number := by
  have same := congrArg Fin.val own
  simp only [FepPacket.slot, Polled.slot] at same
  rw [Polled.number, ← same, UInt8.ofNat_toNat]

/-- The sweep positions in loop order. -/
def polledSlots : List Polled := List.finRange 6

end FepMaster

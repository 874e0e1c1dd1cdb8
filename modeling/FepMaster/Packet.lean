import Mathlib.Data.Nat.Bitwise

/-!
# Packets of the FE protocol

The part of `Drivers/FEP/fep_define.h` that describes a packet: the start codes, the states,
`FEP_Packet_t` and the `PACKET_*` macros that read it.

A packet is modelled by its six bytes.  The `next` link of the C structure is used by the sender
only, where it is part of the memory a chain lives in (`PacketCell`, in `FepMaster.Uart`); nobody
reads the link of a received packet.
-/

namespace FepMaster

/-! ## Start codes, states and the checksum byte -/

/-- `START_GETVALUE`. -/
def startGetValue : UInt8 := (0x02 : UInt8) <<< 3

/-- `START_FINDMASTER`. -/
def startFindMaster : UInt8 := (0x03 : UInt8) <<< 3

/-- `STATUS_ASK`. -/
def statusAsk : UInt8 := (0x03 : UInt8) <<< 0

/-- `STATUS_RETURN`. -/
def statusReturn : UInt8 := (0x04 : UInt8) <<< 0

/-- `CHECKSUM`. -/
def checksum : UInt8 := 0xFE

/-- `FEP_Packet_t` without its link. -/
structure FepPacket where
  startState : UInt8
  size : UInt8
  devInfo : UInt8
  value : UInt8
  checksum : UInt8
  valueL : UInt8
  deriving DecidableEq

namespace FepPacket

/-- `PACKET_VALID`. -/
def PacketValid (x : FepPacket) : Prop := x.size = 5 ∧ x.checksum = FepMaster.checksum

/-- `PACKET_SIZE`. -/
def packetSize (x : FepPacket) : UInt8 := x.size

/-- `PACKET_START`. -/
def packetStart (x : FepPacket) : UInt8 := x.startState &&& 0xF8

/-- `PACKET_STATE`. -/
def packetState (x : FepPacket) : UInt8 := x.startState &&& 0x07

/-- `PACKET_DEV_TYPE`. -/
def packetDevType (x : FepPacket) : UInt8 := x.devInfo &&& 0xF8

/-- `PACKET_DEV_ID`. -/
def packetDevId (x : FepPacket) : UInt8 := x.devInfo &&& 0x07

/-- `PACKET_SET`; it leaves `valueL` as it finds it. -/
def packetSet (x : FepPacket) (start state devType devId value : UInt8) : FepPacket :=
  { x with
    startState := start + state
    size := 0x05
    devInfo := devType + devId
    value := value
    checksum := FepMaster.checksum }

/-- The two tests that guard every update of the device table: a `START_GETVALUE` packet in state
`STATUS_RETURN`. -/
def IsReply (x : FepPacket) : Prop :=
  x.packetStart = startGetValue ∧ x.packetState = statusReturn

instance (x : FepPacket) : Decidable x.IsReply :=
  inferInstanceAs (Decidable (_ ∧ _))

/-- The two tests of the server task: a `START_FINDMASTER` packet in state `STATUS_ASK`. -/
def IsFindMasterAsk (x : FepPacket) : Prop :=
  x.packetStart = startFindMaster ∧ x.packetState = statusAsk

instance (x : FepPacket) : Decidable x.IsFindMasterAsk :=
  inferInstanceAs (Decidable (_ ∧ _))

/-- The reading a reply carries: its fourth and its fifth byte. -/
def pair (x : FepPacket) : UInt8 × UInt8 := (x.value, x.checksum)

/-- The bytes of a packet in the order they travel. -/
def bytes (x : FepPacket) : List UInt8 :=
  [x.startState, x.size, x.devInfo, x.value, x.checksum, x.valueL]

end FepPacket

/-! ## Bit fields of one byte -/

theorem toNat_and_low (b : UInt8) : (b &&& 0x07).toNat = b.toNat % 8 := by
  rw [UInt8.toNat_and]
  exact Nat.and_two_pow_sub_one_eq_mod b.toNat 3

theorem toNat_and_high (b : UInt8) : (b &&& 0xF8).toNat = b.toNat / 8 * 8 := by
  have table : ∀ n : Fin 256, n.val &&& 248 = n.val / 8 * 8 := by decide +kernel
  rw [UInt8.toNat_and]
  exact table ⟨b.toNat, b.toNat_lt⟩

/-- A type field and a device id share a byte without touching each other. -/
theorem low_of_add {t i : UInt8} (aligned : t &&& 0x07 = 0) (small : i.toNat < 8) :
    (t + i) &&& 0x07 = i := by
  have ht := congrArg UInt8.toNat aligned
  rw [toNat_and_low] at ht
  apply UInt8.toNat_inj.mp
  rw [toNat_and_low, UInt8.toNat_add]
  have : (0 : UInt8).toNat = 0 := rfl
  omega

theorem high_of_add {t i : UInt8} (aligned : t &&& 0x07 = 0) (small : i.toNat < 8) :
    (t + i) &&& 0xF8 = t := by
  have ht := congrArg UInt8.toNat aligned
  rw [toNat_and_low] at ht
  apply UInt8.toNat_inj.mp
  rw [toNat_and_high, UInt8.toNat_add]
  have : (0 : UInt8).toNat = 0 := rfl
  have := t.toNat_lt
  omega

theorem high_aligned (b : UInt8) : b &&& 0xF8 &&& 0x07 = 0 := by
  apply UInt8.toNat_inj.mp
  rw [toNat_and_low, toNat_and_high]
  exact Nat.mul_mod_left _ _

/-- Start code and state fill the byte: one value of the byte asks for the master. -/
theorem FepPacket.isFindMasterAsk_iff (x : FepPacket) :
    x.IsFindMasterAsk ↔ x.startState = startFindMaster + statusAsk := by
  have high : startFindMaster.toNat = 24 := rfl
  have low : statusAsk.toNat = 3 := rfl
  have both : (startFindMaster + statusAsk).toNat = 27 := rfl
  rw [FepPacket.IsFindMasterAsk, FepPacket.packetStart, FepPacket.packetState,
    ← UInt8.toNat_inj, ← UInt8.toNat_inj, ← UInt8.toNat_inj, toNat_and_high, toNat_and_low]
  omega

/-! ## The two value bytes as one word -/

/-- The word the handler compares with `0xFFFF`: `((uint16_t)high << 8) | (uint16_t)low`. -/
def valueWord (high low : UInt8) : UInt16 := high.toUInt16 <<< 8 ||| low.toUInt16

/-- The `no value` reading: both bytes are `0xFF`. -/
def noValue : UInt8 × UInt8 := (0xFF, 0xFF)

theorem valueWord_toNat (high low : UInt8) :
    (valueWord high low).toNat = high.toNat * 256 + low.toNat := by
  have hh := high.toNat_lt
  have hl := low.toNat_lt
  have shifted : (high.toUInt16 <<< 8).toNat = high.toNat <<< 8 := by
    have eight : (8 : UInt16).toNat % 16 = 8 := rfl
    rw [UInt16.toNat_shiftLeft, UInt8.toNat_toUInt16, eight]
    apply Nat.mod_eq_of_lt
    rw [Nat.shiftLeft_eq]
    omega
  rw [valueWord, UInt16.toNat_or, shifted, UInt8.toNat_toUInt16,
    ← Nat.shiftLeft_add_eq_or_of_lt hl, Nat.shiftLeft_eq]

/-- The comparison with `0xFFFF` is the comparison of the pair of bytes. -/
theorem valueWord_eq_iff (high low : UInt8) :
    valueWord high low = 0xFFFF ↔ (high, low) = noValue := by
  have hh := high.toNat_lt
  have hl := low.toNat_lt
  rw [← UInt16.toNat_inj, valueWord_toNat, noValue, Prod.mk.injEq,
    ← UInt8.toNat_inj, ← UInt8.toNat_inj]
  have : (0xFFFF : UInt16).toNat = 65535 := rfl
  have : (0xFF : UInt8).toNat = 255 := rfl
  omega

end FepMaster

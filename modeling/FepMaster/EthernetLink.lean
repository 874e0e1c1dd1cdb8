import FepMaster.Lib.Register
import FepMaster.Lib.Transition

/-!
# The Ethernet link

`Drivers/Ethernet/stm32_eth_bsp.c` and `stm32_eth.c`: how the configuration register `MACCR` of the
MAC follows the link.  `ETH_Init` clears the register and writes the configuration with the speed
and duplex the PHY has negotiated; from then on `Eth_Link_IT_task` reports a change of the link to
lwIP, and `ETH_link_callback` writes what was negotiated anew.

The callback sets the bits for speed and duplex without clearing them.  So they are what was
negotiated exactly if neither is to go from set to clear (`link_reflected_iff`).

The PHY may answer anything, also 0 where an access fails.  `CHECKSUM_BY_HARDWARE` is defined and
`USE_DHCP` is not.
-/

namespace FepMaster

open Transition Register

/-! ## The code -/

/-- A register of the MAC, or a value written to one. -/
abbrev Word := BitVec 32

def ethMaccrFes : Word := 0x00004000
def ethMaccrDm : Word := 0x00000800
def ethMaccrTe : Word := 0x00000008
def ethMaccrRe : Word := 0x00000004

/-- `MACCR_CLEAR_MASK`. -/
def maccrClearMask : Word := 0xFF20810F

def ethSpeed10M : Word := 0x00000000
def ethSpeed100M : Word := 0x00004000
def ethModeFullDuplex : Word := 0x00000800
def ethModeHalfDuplex : Word := 0x00000000
def ethAutoNegotiationEnable : Word := 0x00000001
def ethAutoNegotiationDisable : Word := 0x00000000

/-- `PHY_SPEED_STATUS` of `PHY_SR`: the speed is 10 Mbit/s. -/
def phySpeedStatus : BitVec 16 := 0x0002

/-- `PHY_DUPLEX_STATUS` of `PHY_SR`. -/
def phyDuplexStatus : BitVec 16 := 0x0004

/-- `PHY_LINK_STATUS` of `PHY_MISR`: the link status has changed. -/
def phyLinkStatus : BitVec 16 := 0x2000

/-- `ETH_InitTypeDef`, the fields that go into `MACCR`. -/
structure EthInitTypeDef where
  ethAutoNegotiation : Word
  ethWatchdog : Word
  ethJabber : Word
  ethInterFrameGap : Word
  ethCarrierSense : Word
  ethSpeed : Word
  ethReceiveOwn : Word
  ethLoopbackMode : Word
  ethMode : Word
  ethChecksumOffload : Word
  ethRetryTransmission : Word
  ethAutomaticPadCrcStrip : Word
  ethBackOffLimit : Word
  ethDeferralCheck : Word

/-- `ETH_StructInit`. -/
def ethStructInit : EthInitTypeDef where
  ethAutoNegotiation := ethAutoNegotiationEnable
  ethWatchdog := 0x00000000
  ethJabber := 0x00000000
  ethInterFrameGap := 0x00000000
  ethCarrierSense := 0x00000000
  ethSpeed := ethSpeed100M
  ethReceiveOwn := 0x00000000
  ethLoopbackMode := 0x00000000
  ethMode := ethModeFullDuplex
  ethChecksumOffload := 0x00000000
  ethRetryTransmission := 0x00000000
  ethAutomaticPadCrcStrip := 0x00000000
  ethBackOffLimit := 0x00000000
  ethDeferralCheck := 0x00000000

/-- The configuration of `ETH_MACDMA_Config`. -/
def ethMacDmaConfig : EthInitTypeDef :=
  { ethStructInit with
    ethAutoNegotiation := ethAutoNegotiationEnable
    ethLoopbackMode := 0x00000000
    ethRetryTransmission := 0x00000200
    ethAutomaticPadCrcStrip := 0x00000000
    ethChecksumOffload := 0x00000400 }

/-- The duplex mode `PHY_SR` tells. -/
def negotiatedMode (regValue : BitVec 16) : Word :=
  if regValue &&& phyDuplexStatus ≠ 0 then ethModeFullDuplex else ethModeHalfDuplex

/-- The speed `PHY_SR` tells. -/
def negotiatedSpeed (regValue : BitVec 16) : Word :=
  if regValue &&& phySpeedStatus ≠ 0 then ethSpeed10M else ethSpeed100M

/-- Store the result of the auto-negotiation. -/
def EthInitTypeDef.negotiated (e : EthInitTypeDef) (regValue : BitVec 16) : EthInitTypeDef :=
  { e with ethMode := negotiatedMode regValue, ethSpeed := negotiatedSpeed regValue }

/-- `ETH_Init`, as far as `MACCR` goes: with a PHY that fails to answer it returns before it gets
there. -/
def ethInit (maccr : Word) (e : EthInitTypeDef) : Option (BitVec 16) → Word × EthInitTypeDef
  | none => (maccr, e)
  | some regValue =>
      let e := if e.ethAutoNegotiation ≠ ethAutoNegotiationDisable then e.negotiated regValue else e
      let tmpreg := maccr &&& maccrClearMask
      (tmpreg ||| (e.ethWatchdog ||| e.ethJabber ||| e.ethInterFrameGap ||| e.ethCarrierSense |||
        e.ethSpeed ||| e.ethReceiveOwn ||| e.ethLoopbackMode ||| e.ethMode |||
        e.ethChecksumOffload ||| e.ethRetryTransmission ||| e.ethAutomaticPadCrcStrip |||
        e.ethBackOffLimit ||| e.ethDeferralCheck), e)

/-- `ETH_MACTransmissionCmd`; what it writes at last is what it has just read. -/
def ethMacTransmissionCmd (newState : Bool) (maccr : Word) : Word :=
  if newState then maccr ||| ethMaccrTe else maccr &&& ~~~ethMaccrTe

/-- `ETH_MACReceptionCmd`. -/
def ethMacReceptionCmd (newState : Bool) (maccr : Word) : Word :=
  if newState then maccr ||| ethMaccrRe else maccr &&& ~~~ethMaccrRe

/-- `ETH_Start`, as far as `MACCR` goes. -/
def ethStart (maccr : Word) : Word := ethMacReceptionCmd true (ethMacTransmissionCmd true maccr)

/-- `ETH_Stop`. -/
def ethStop (maccr : Word) : Word := ethMacTransmissionCmd false (ethMacReceptionCmd false maccr)

/-- `struct EthernetData`, also the addresses of the interface; the words are in network order. -/
structure EthernetData where
  ip : Word
  subnet : Word
  gateway : Word
  deriving DecidableEq

/-- `IP4_ADDR`. -/
def ip4Addr (a b c d : Word) : Word :=
  (d &&& 0xff) <<< 24 ||| (c &&& 0xff) <<< 16 ||| (b &&& 0xff) <<< 8 ||| (a &&& 0xff)

/-- `lwip_htonl`. -/
def htonl (n : Word) : Word :=
  (n &&& 0xff) <<< 24 ||| (n &&& 0xff00) <<< 8 ||| (n &&& 0xff0000) >>> 8 |||
    (n &&& 0xff000000) >>> 24

/-- `ip_addr_netmask_valid`: behind the first zero there is no one. -/
def ipAddrNetmaskValid (netmask : Word) : Bool :=
  let nmHostorder := htonl netmask
  let masks := (List.range 32).map fun k : Nat => (1 : Word) <<< (31 - k)
  (masks.dropWhile fun mask => nmHostorder &&& mask != 0).all fun mask => nmHostorder &&& mask == 0

/-- The addresses are no use: no address, the broadcast address, or no netmask. -/
def EthernetData.unusable (d : EthernetData) : Bool :=
  d.ip == 0xffffffff || d.ip == 0 || !ipAddrNetmaskValid d.subnet

/-- `IP_ADDR0` and so on. -/
def defaultEthernetData : EthernetData where
  ip := ip4Addr 192 168 1 16
  subnet := ip4Addr 255 255 255 0
  gateway := ip4Addr 192 168 1 1

/-- The MAC, `ETH_InitStructure`, `ethData`, and of `xnetif` the flags for the link and the
interface, the addresses and `hwaddr[5]`. -/
structure EthLink where
  maccr : Word
  ethInitStructure : EthInitTypeDef
  ethData : EthernetData
  linkUp : Bool
  up : Bool
  addr : EthernetData
  hwaddr5 : BitVec 8

namespace EthLink

/-- The MAC part of `ETH_link_callback` for a link-up; `regValue` is what it reads in `PHY_SR`. -/
def renegotiate (s : EthLink) (regValue : BitVec 16) : EthLink :=
  if s.ethInitStructure.ethAutoNegotiation ≠ ethAutoNegotiationDisable then
    let e := s.ethInitStructure.negotiated regValue
    { s with ethInitStructure := e, maccr := s.maccr ||| (e.ethSpeed ||| e.ethMode) }
  else s

/-- Its address part. -/
def configureAddress (s : EthLink) : EthLink :=
  let d := if s.ethData.unusable then defaultEthernetData else s.ethData
  { s with ethData := d, hwaddr5 := (d.ip >>> 24).setWidth 8, addr := d, up := true }

/-- `ETH_link_callback`, less the notification of the buzzer. -/
def ethLinkCallback (s : EthLink) (regValue : BitVec 16) : EthLink :=
  if s.linkUp then
    let s := s.renegotiate regValue
    let s := { s with maccr := ethStart s.maccr }
    s.configureAddress
  else { s with maccr := ethStop s.maccr, up := false }

/-- `netif_set_link_up`: the callback is called on a change. -/
def netifSetLinkUp (s : EthLink) (regValue : BitVec 16) : EthLink :=
  if s.linkUp then s else { s with linkUp := true }.ethLinkCallback regValue

/-- `netif_set_link_down`. -/
def netifSetLinkDown (s : EthLink) (regValue : BitVec 16) : EthLink :=
  if s.linkUp then { s with linkUp := false }.ethLinkCallback regValue else s

end EthLink

/-- What a turn of the link task reads: `PHY_MISR`, `PHY_SR`, and `PHY_SR` once more after a
negotiation. -/
structure LinkEvent where
  misr : BitVec 16
  sr : BitVec 16
  regValue : BitVec 16

/-- A turn of `Eth_Link_IT_task`. -/
def EthLink.ethLinkItTask (s : EthLink) (e : LinkEvent) : EthLink :=
  if e.misr &&& phyLinkStatus ≠ 0 then
    if e.sr &&& 1 ≠ 0 then s.netifSetLinkUp e.regValue else s.netifSetLinkDown e.regValue
  else s

/-- After `ETH_Init`, with any register and any outcome of the PHY accesses; lwIP starts with the
link up or down and any addresses. -/
def EthLink.start (maccr : Word) (phySr : Option (BitVec 16)) (ethData addr : EthernetData)
    (linkUp up : Bool) (hwaddr5 : BitVec 8) : EthLink where
  maccr := (ethInit maccr ethMacDmaConfig phySr).1
  ethInitStructure := (ethInit maccr ethMacDmaConfig phySr).2
  ethData := ethData
  linkUp := linkUp
  up := up
  addr := addr
  hwaddr5 := hwaddr5

/-- The system: the link task takes any number of turns. -/
def ethLinkLts : Lts EthLink LinkEvent where
  Init s := ∃ maccr phySr ethData addr linkUp up hwaddr5,
    s = EthLink.start maccr phySr ethData addr linkUp up hwaddr5
  step s e := some (s.ethLinkItTask e)

/-! ## What is written to the register -/

/-- All bits but those for the transmitter and the receiver. -/
def exceptTeRe : Word := ~~~(ethMaccrTe ||| ethMaccrRe)

/-- All bits but these and those for speed and duplex. -/
def exceptLink : Word := ~~~(ethMaccrFes ||| ethMaccrDm ||| ethMaccrTe ||| ethMaccrRe)

theorem agree_macTransmissionCmd (newState : Bool) (maccr : Word) :
    Agree exceptTeRe (ethMacTransmissionCmd newState maccr) maccr := by
  cases newState with
  | true => exact agree_set maccr (by decide)
  | false => exact agree_clear maccr (by decide)

theorem agree_macReceptionCmd (newState : Bool) (maccr : Word) :
    Agree exceptTeRe (ethMacReceptionCmd newState maccr) maccr := by
  cases newState with
  | true => exact agree_set maccr (by decide)
  | false => exact agree_clear maccr (by decide)

/-- `ETH_Start` changes only the bits for the transmitter and the receiver. -/
theorem agree_ethStart (maccr : Word) : Agree exceptTeRe (ethStart maccr) maccr :=
  (agree_macReceptionCmd true _).trans (agree_macTransmissionCmd true maccr)

/-- So does `ETH_Stop`. -/
theorem agree_ethStop (maccr : Word) : Agree exceptTeRe (ethStop maccr) maccr :=
  (agree_macTransmissionCmd false _).trans (agree_macReceptionCmd false maccr)

theorem negotiatedSpeed_cases (regValue : BitVec 16) :
    negotiatedSpeed regValue = 0 ∨ negotiatedSpeed regValue = ethMaccrFes := by
  unfold negotiatedSpeed
  split
  · exact .inl rfl
  · exact .inr rfl

theorem negotiatedMode_cases (regValue : BitVec 16) :
    negotiatedMode regValue = 0 ∨ negotiatedMode regValue = ethMaccrDm := by
  unfold negotiatedMode
  split
  · exact .inr rfl
  · exact .inl rfl

/-- The result of a negotiation in `MACCR`. -/
def negotiatedBits (regValue : BitVec 16) : Word :=
  negotiatedSpeed regValue ||| negotiatedMode regValue

/-- After a link-up the register has what was negotiated, `ETH_InitStructure` too, and nothing else
has changed but the bits for the transmitter and the receiver. -/
structure Reflected (s s' : EthLink) (regValue : BitVec 16) : Prop where
  speed : s'.maccr &&& ethMaccrFes = negotiatedSpeed regValue
  mode : s'.maccr &&& ethMaccrDm = negotiatedMode regValue
  stored : s'.ethInitStructure.ethSpeed = negotiatedSpeed regValue ∧
    s'.ethInitStructure.ethMode = negotiatedMode regValue
  others : Agree exceptLink s'.maccr s.maccr

/-- No bit for speed or duplex that is set is to be cleared. -/
def Raises (s : EthLink) (regValue : BitVec 16) : Prop :=
  (s.maccr &&& ethMaccrFes ≠ 0 → negotiatedSpeed regValue = ethSpeed100M) ∧
    (s.maccr &&& ethMaccrDm ≠ 0 → negotiatedMode regValue = ethModeFullDuplex)

/-- A turn in which the link comes up. -/
def LinkEvent.IsLinkUp (s : EthLink) (e : LinkEvent) : Prop :=
  s.linkUp = false ∧ e.misr &&& phyLinkStatus ≠ 0 ∧ e.sr &&& 1 ≠ 0

/-- What such a turn writes. -/
theorem EthLink.task_linkUp {s : EthLink} {e : LinkEvent} (isUp : e.IsLinkUp s)
    (enabled : s.ethInitStructure.ethAutoNegotiation = ethAutoNegotiationEnable) :
    (s.ethLinkItTask e).maccr = ethStart (s.maccr ||| negotiatedBits e.regValue) ∧
      (s.ethLinkItTask e).ethInitStructure = s.ethInitStructure.negotiated e.regValue := by
  obtain ⟨down, changed, link⟩ := isUp
  have active : s.ethInitStructure.ethAutoNegotiation ≠ ethAutoNegotiationDisable := by
    rw [enabled]
    decide
  unfold ethLinkItTask netifSetLinkUp ethLinkCallback renegotiate configureAddress
  rw [if_pos changed, if_pos link, if_neg (by rw [down]; decide), if_pos rfl, if_pos active]
  exact ⟨rfl, rfl⟩

/-- A link-up is reflected exactly if no bit is to be cleared. -/
theorem reflected_iff {s s' : EthLink} {regValue : BitVec 16}
    (written : s'.maccr = ethStart (s.maccr ||| negotiatedBits regValue))
    (stored : s'.ethInitStructure = s.ethInitStructure.negotiated regValue) :
    Reflected s s' regValue ↔ Raises s regValue := by
  have started := agree_ethStart (s.maccr ||| negotiatedBits regValue)
  rw [← written] at started
  have speed : s'.maccr &&& ethMaccrFes =
      (s.maccr ||| negotiatedSpeed regValue) &&& ethMaccrFes := by
    have apart : negotiatedMode regValue &&& ethMaccrFes = 0 := by
      rcases negotiatedMode_cases regValue with mode | mode <;> rw [mode] <;> rfl
    have kept : Agree ethMaccrFes _ _ := started.mono (by decide)
    rw [negotiatedBits, ← BitVec.or_assoc] at kept
    exact kept.trans (agree_set _ apart)
  have mode : s'.maccr &&& ethMaccrDm =
      (s.maccr ||| negotiatedMode regValue) &&& ethMaccrDm := by
    have apart : negotiatedSpeed regValue &&& ethMaccrDm = 0 := by
      rcases negotiatedSpeed_cases regValue with speed | speed <;> rw [speed] <;> rfl
    have kept : Agree ethMaccrDm _ _ := started.mono (by decide)
    rw [negotiatedBits, BitVec.or_comm (negotiatedSpeed regValue), ← BitVec.or_assoc] at kept
    exact kept.trans (agree_set _ apart)
  have others : Agree exceptLink s'.maccr s.maccr := by
    have apart : negotiatedBits regValue &&& exceptLink = 0 := by
      unfold negotiatedBits
      rcases negotiatedSpeed_cases regValue with speed | speed <;>
        rcases negotiatedMode_cases regValue with mode | mode <;> rw [speed, mode] <;> rfl
    have kept : Agree exceptLink _ _ := started.mono (by decide)
    exact kept.trans (agree_set _ apart)
  have fes : s'.maccr &&& ethMaccrFes = negotiatedSpeed regValue ↔
      (s.maccr &&& ethMaccrFes ≠ 0 → negotiatedSpeed regValue = ethSpeed100M) := by
    rw [speed]
    exact or_flag_iff s.maccr (by decide) (negotiatedSpeed_cases regValue)
  have dm : s'.maccr &&& ethMaccrDm = negotiatedMode regValue ↔
      (s.maccr &&& ethMaccrDm ≠ 0 → negotiatedMode regValue = ethModeFullDuplex) := by
    rw [mode]
    exact or_flag_iff s.maccr (by decide) (negotiatedMode_cases regValue)
  constructor
  · intro reflected
    exact ⟨fes.mp reflected.speed, dm.mp reflected.mode⟩
  · intro raises
    refine ⟨fes.mpr raises.1, dm.mpr raises.2, ?_, others⟩
    rw [stored]
    exact ⟨rfl, rfl⟩

/-! ## Runs -/

/-- Auto-negotiation stays enabled. -/
theorem autoNegotiation_of_reach {s : EthLink} (reached : ethLinkLts.Reach s) :
    s.ethInitStructure.ethAutoNegotiation = ethAutoNegotiationEnable := by
  refine Lts.ReachWhile.invariant (P := fun s : EthLink =>
    s.ethInitStructure.ethAutoNegotiation = ethAutoNegotiationEnable) ?_ ?_ reached
  · intro s init
    obtain ⟨maccr, phySr, ethData, addr, linkUp, up, hwaddr5, rfl⟩ := init
    cases phySr <;> rfl
  · intro s e s' _ enabled _ taken
    cases taken
    rw [← enabled]
    unfold EthLink.ethLinkItTask EthLink.netifSetLinkUp EthLink.netifSetLinkDown
      EthLink.ethLinkCallback EthLink.renegotiate EthLink.configureAddress
    split_ifs <;> rfl

/-- What a turn of the link task should do: reflect the negotiation if the link comes up, and
otherwise change only the bits for the transmitter and the receiver. -/
structure TurnSound (s : EthLink) (e : LinkEvent) (s' : EthLink) : Prop where
  linkUp : e.IsLinkUp s → Reflected s s' e.regValue
  others : ¬ e.IsLinkUp s → Agree exceptTeRe s'.maccr s.maccr

/-- A turn without a link-up leaves the rest of the register alone. -/
theorem EthLink.task_agree {s : EthLink} {e : LinkEvent} (notUp : ¬ e.IsLinkUp s) :
    Agree exceptTeRe (s.ethLinkItTask e).maccr s.maccr := by
  unfold ethLinkItTask
  split
  · next changed =>
      split
      · next link =>
          unfold netifSetLinkUp
          split
          · exact rfl
          · next down => exact absurd ⟨Bool.eq_false_iff.mpr down, changed, link⟩ notUp
      · unfold netifSetLinkDown
        split
        · exact agree_ethStop s.maccr
        · exact rfl
  · exact rfl

/-- **Renegotiation.**  `ETH_Start` and `ETH_Stop` change only the bits for the transmitter and
the receiver; and in a run of the link task every link-up is reflected in the register exactly as
long as none is to clear the bit for the speed or for the duplex mode. -/
theorem link_reflected_iff (maccr : Word) (phySr : Option (BitVec 16)) (ethData addr : EthernetData)
    (linkUp up : Bool) (hwaddr5 : BitVec 8) (events : List LinkEvent) :
    (∀ m : Word, Agree exceptTeRe (ethStart m) m ∧ Agree exceptTeRe (ethStop m) m) ∧
      (ethLinkLts.EveryStep TurnSound
          (EthLink.start maccr phySr ethData addr linkUp up hwaddr5) events ↔
        ethLinkLts.EveryStep (fun s e _ => e.IsLinkUp s → Raises s e.regValue)
          (EthLink.start maccr phySr ethData addr linkUp up hwaddr5) events) := by
  refine ⟨fun m => ⟨agree_ethStart m, agree_ethStop m⟩, ?_⟩
  have reached : ethLinkLts.Reach (EthLink.start maccr phySr ethData addr linkUp up hwaddr5) :=
    .init ⟨maccr, phySr, ethData, addr, linkUp, up, hwaddr5, rfl⟩
  refine Lts.everyStep_iff (G := fun _ => True) (fun _ _ _ _ => trivial) ?_ reached trivial events
  intro s e s' reached _ taken
  cases taken
  constructor
  · intro sound isUp
    obtain ⟨written, stored⟩ := EthLink.task_linkUp isUp (autoNegotiation_of_reach reached)
    exact (reflected_iff written stored).mp (sound.linkUp isUp)
  · intro raises
    refine ⟨fun isUp => ?_, EthLink.task_agree⟩
    obtain ⟨written, stored⟩ := EthLink.task_linkUp isUp (autoNegotiation_of_reach reached)
    exact (reflected_iff written stored).mpr (raises isUp)

/-- A cable moved from a fast full-duplex port to a slow half-duplex one: the MAC stays as it
was. -/
theorem link_notReflected :
    ¬ ∀ maccr phySr ethData addr linkUp up hwaddr5 events,
      ethLinkLts.EveryStep TurnSound
        (EthLink.start maccr phySr ethData addr linkUp up hwaddr5) events := by
  intro claim
  let s := EthLink.start 0x8000 (some 0x0005) defaultEthernetData defaultEthernetData true true 16
  let down : LinkEvent := ⟨0x2000, 0x0000, 0x0000⟩
  let slow : LinkEvent := ⟨0x2000, 0x0003, 0x0003⟩
  have every := claim 0x8000 (some 0x0005) defaultEthernetData defaultEthernetData true true 16
    [down, slow]
  obtain ⟨-, later⟩ := every _ rfl
  obtain ⟨sound, -⟩ := later _ rfl
  have speed := (sound.linkUp ⟨by decide, by decide, by decide⟩).speed
  exact absurd speed (by decide)

/-! ## The addresses -/

/-- The addresses the callback falls back on can be used. -/
theorem defaultEthernetData_usable : defaultEthernetData.unusable = false := by decide

/-- After a link-up the interface has usable addresses, those of `ethData`. -/
theorem EthLink.linkUp_addresses {s : EthLink} (link : s.linkUp = true) (regValue : BitVec 16) :
    (s.ethLinkCallback regValue).addr.unusable = false ∧
      (s.ethLinkCallback regValue).ethData = (s.ethLinkCallback regValue).addr := by
  unfold ethLinkCallback
  rw [if_pos link]
  refine ⟨?_, rfl⟩
  unfold configureAddress
  dsimp only
  split
  · exact defaultEthernetData_usable
  · next usable => exact Bool.eq_false_iff.mpr usable

end FepMaster

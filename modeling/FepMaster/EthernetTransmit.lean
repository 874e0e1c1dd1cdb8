import FepMaster.EthernetDescriptors
import FepMaster.Lib.Chunk
import FepMaster.Lib.Transition

/-!
# Sending Ethernet frames

`low_level_output` (`ports/FreeRTOS/ethernetif.c`) copies a chain of pbufs into the buffers of the
transmit descriptors, and `ETH_Prepare_Transmit_Descriptors` (`stm32_eth.c`) hands the descriptors to
the DMA.  `ethTxLts` is the system of one call after the other and the DMA: a step of a call goes
from one access to a shared word to the next, so the DMA can take descriptors between any two of
them.  `xTxSemaphore` keeps two calls apart; a call whose wait for it times out, which can be at any
moment, returns and drops its frame.

The DMA takes the descriptor it is at if it owns it, and gives it back; otherwise it raises `TBUS`
and suspends itself until it is told to resume.  What it may write into the status word besides is
any bit but `OWN` and the control bits.

Whatever the interleaving, what the DMA takes is the frames that were accepted, whole and in order
(`TransmitIntegrity`); a call that got the semaphore drops its frame only if it does not fit into
the free descriptors; and between calls the DMA is never suspended in front of a descriptor it owns.
-/

namespace FepMaster

open Transition Register Ring Memory Chunk

/-! ## The code -/

/-- `ETH_TXBUFNB`. -/
def ethTxBufNb : Nat := 5

instance : NeZero ethTxBufNb := ⟨by decide⟩

/-- `ETH_TX_BUF_SIZE`. -/
def ethTxBufSize : Nat := ethMaxPacketSize

theorem ethTxBufSize_eq : ethTxBufSize = 1524 := rfl

def ethDmaTxDescOwn : Word := 0x80000000
def ethDmaTxDescLs : Word := 0x20000000
def ethDmaTxDescFs : Word := 0x10000000
def ethDmaTxDescTch : Word := 0x00100000

/-- `ETH_DMATxDesc_ChecksumTCPUDPICMPFull`. -/
def ethDmaTxDescChecksum : Word := 0x00C00000

/-- `ETH_DMATxDesc_TBS1`: the size of the buffer. -/
def ethDmaTxDescTbs1 : Word := 0x00001FFF

/-- The locals of `low_level_output`; `framelength` has 16 bits. -/
structure TxLocals where
  dmaTxDesc : Fin ethTxBufNb
  bufferoffset : Nat
  framelength : Nat
  deriving DecidableEq

/-- Where a call of `low_level_output` is: at the top of the loop over the pbufs, with those left;
in the inner loop, at the check of the next descriptor, with what is left of the pbuf; in
`ETH_Prepare_Transmit_Descriptors` at descriptor `i` of `bufCount`; at the check of `TBUS`. -/
inductive TxPc
  | idle
  | pbuf (q : List (List UInt8)) (l : TxLocals)
  | next (payload : List UInt8) (q : List (List UInt8)) (l : TxLocals)
  | give (frameLength bufCount i : Nat) (dmaTxDesc : Fin ethTxBufNb)
  | resume
  deriving DecidableEq

/-- The descriptors and buffers, `DMATxDescToSet`, the call in progress, `TBUS`, the descriptor the
DMA is at and whether it is suspended. -/
structure EthTx where
  dmaTxDscrTab : Fin ethTxBufNb → EthDmaDesc ethTxBufNb
  txBuff : Fin ethTxBufNb → Nat → UInt8
  dmaTxDescToSet : Fin ethTxBufNb
  pc : TxPc
  tbus : Bool
  dma : Fin ethTxBufNb
  suspended : Bool

namespace EthTx

/-- After `low_level_init`: `ETH_DMATxDescChainInit` and the checksum configuration, over any
memory; the DMA starts at the first descriptor. -/
def start (memory : Fin ethTxBufNb → Word) (txBuff : Fin ethTxBufNb → Nat → UInt8) : EthTx where
  dmaTxDscrTab := descChainInit ethTxBufNb (fun _ => ethDmaTxDescTch ||| ethDmaTxDescChecksum) memory
  txBuff := txBuff
  dmaTxDescToSet := 0
  pc := .idle
  tbus := false
  dma := 0
  suspended := false

/-- `(DmaTxDesc->Status & ETH_DMATxDesc_OWN) != RESET`. -/
def owned (s : EthTx) (d : Fin ethTxBufNb) : Bool :=
  isSet ethDmaTxDescOwn (s.dmaTxDscrTab d).status

/-- `memcpy` to a place in the buffer of a descriptor. -/
def memcpy (s : EthTx) (d : Fin ethTxBufNb) (offset : Nat) (data : List UInt8) : EthTx :=
  let buffer := (s.dmaTxDscrTab d).buffer1Addr
  { s with txBuff := Function.update s.txBuff buffer (write (s.txBuff buffer) offset data) }

/-- What is left of a pbuf, up to the next check of a descriptor: if the buffer is too small, it is
filled and the next descriptor is checked. -/
def copyPayload (s : EthTx) (payload : List UInt8) (q : List (List UInt8)) (l : TxLocals) : EthTx :=
  if payload.length + l.bufferoffset > ethTxBufSize then
    let s := s.memcpy l.dmaTxDesc l.bufferoffset (payload.take (ethTxBufSize - l.bufferoffset))
    let dmaTxDesc := (s.dmaTxDscrTab l.dmaTxDesc).buffer2NextDescAddr
    { s with pc := .next payload q { l with dmaTxDesc := dmaTxDesc } }
  else
    let s := s.memcpy l.dmaTxDesc l.bufferoffset payload
    { s with
      pc := .pbuf q { l with
        bufferoffset := l.bufferoffset + payload.length
        framelength := (l.framelength + payload.length) % 65536 } }

/-- The rest of the inner loop once the next descriptor is found free. -/
def nextBuffer (s : EthTx) (payload : List UInt8) (q : List (List UInt8)) (l : TxLocals) : EthTx :=
  let copied := ethTxBufSize - l.bufferoffset
  s.copyPayload (payload.drop copied) q { l with
    bufferoffset := 0
    framelength := (l.framelength + copied) % 65536 }

/-- The number of descriptors of a frame. -/
def bufCount (frameLength : Nat) : Nat :=
  if frameLength > ethTxBufSize then
    let count := frameLength / ethTxBufSize
    if frameLength % ethTxBufSize ≠ 0 then count + 1 else count
  else 1

/-- The status word of descriptor `i` of `bufCount` as it is handed over. -/
def givenStatus (status : Word) (bufCount i : Nat) : Word :=
  if bufCount = 1 then
    (status ||| (ethDmaTxDescFs ||| ethDmaTxDescLs)) ||| ethDmaTxDescOwn
  else
    let status := status &&& ~~~(ethDmaTxDescFs ||| ethDmaTxDescLs)
    let status := if i = 0 then status ||| ethDmaTxDescFs else status
    let status := if i = bufCount - 1 then status ||| ethDmaTxDescLs else status
    status ||| ethDmaTxDescOwn

/-- Its size word. -/
def givenSize (frameLength bufCount i : Nat) : Word :=
  if bufCount = 1 then BitVec.ofNat 32 frameLength &&& ethDmaTxDescTbs1
  else if i = bufCount - 1 then
    BitVec.ofNat 32 (frameLength - (bufCount - 1) * ethTxBufSize) &&& ethDmaTxDescTbs1
  else BitVec.ofNat 32 ethTxBufSize &&& ethDmaTxDescTbs1

/-- `ETH_Prepare_Transmit_Descriptors`, one descriptor. -/
def giveDesc (s : EthTx) (frameLength bufCount i : Nat) (d : Fin ethTxBufNb) : EthTx :=
  let desc := s.dmaTxDscrTab d
  let s := { s with
    dmaTxDscrTab := Function.update s.dmaTxDscrTab d { desc with
      status := givenStatus desc.status bufCount i
      controlBufferSize := givenSize frameLength bufCount i } }
  let dmaTxDesc := desc.buffer2NextDescAddr
  if i + 1 = bufCount then { s with dmaTxDescToSet := dmaTxDesc, pc := .resume }
  else { s with pc := .give frameLength bufCount (i + 1) dmaTxDesc }

/-- A step of the call in progress. -/
def lowLevelOutput (s : EthTx) : Option EthTx :=
  match s.pc with
  | .idle => none
  | .pbuf (payload :: q) l =>
      some (if s.owned l.dmaTxDesc then { s with pc := .idle } else s.copyPayload payload q l)
  | .next payload q l =>
      some (if s.owned l.dmaTxDesc then { s with pc := .idle } else s.nextBuffer payload q l)
  | .pbuf [] l =>
      some (if s.owned s.dmaTxDescToSet then { s with pc := .idle }
        else { s with pc := .give l.framelength (bufCount l.framelength) 0 s.dmaTxDescToSet })
  | .give frameLength bufCount i d => some (s.giveDesc frameLength bufCount i d)
  | .resume =>
      some { s with pc := .idle, tbus := false, suspended := if s.tbus then false else s.suspended }

/-- A call has waited for `xTxSemaphore`.  If it has taken it, it begins; if its time was up, it
returns. -/
def output (s : EthTx) (p : List (List UInt8)) (taken : Bool) : Option EthTx :=
  if taken then
    if s.pc = .idle then some { s with pc := .pbuf p ⟨s.dmaTxDescToSet, 0, 0⟩ } else none
  else some s

/-! ## The DMA -/

/-- The bits of the status word that the DMA does not write. -/
def controlBits : Word := ethDmaTxDescFs ||| ethDmaTxDescLs ||| ethDmaTxDescTch

/-- The DMA closes a descriptor. -/
def closed (status flags : Word) : Word :=
  (status &&& controlBits) ||| (flags &&& ~~~(controlBits ||| ethDmaTxDescOwn))

/-- The DMA takes the descriptor it is at. -/
def dmaTake (s : EthTx) (flags : Word) : EthTx :=
  let desc := s.dmaTxDscrTab s.dma
  { s with
    dmaTxDscrTab :=
      Function.update s.dmaTxDscrTab s.dma { desc with status := closed desc.status flags }
    dma := desc.buffer2NextDescAddr }

/-- A step of the DMA. -/
def dmaStep (s : EthTx) (flags : Word) : Option EthTx :=
  if s.suspended then none
  else if s.owned s.dma then some (s.dmaTake flags)
  else some { s with suspended := true, tbus := true }

end EthTx

/-- A call with the result of its wait, a step of the call in progress, a step of the DMA. -/
inductive TxAct
  | output (p : List (List UInt8)) (taken : Bool)
  | cpu
  | dma (flags : Word)
  deriving DecidableEq

/-- One step. -/
def EthTx.step (s : EthTx) : TxAct → Option EthTx
  | .output p taken => s.output p taken
  | .cpu => s.lowLevelOutput
  | .dma flags => s.dmaStep flags

/-- The system. -/
def ethTxLts : Lts EthTx TxAct where
  Init s := ∃ memory txBuff, s = EthTx.start memory txBuff
  step := EthTx.step

/-! ## Frames and segments -/

/-- What the DMA reads through one descriptor. -/
structure TxSegment where
  first : Bool
  last : Bool
  bytes : List UInt8
  deriving DecidableEq

/-- Segment `i` of a frame. -/
def segmentOf (frame : List UInt8) (i : Nat) : TxSegment where
  first := i == 0
  last := i + 1 == EthTx.bufCount frame.length
  bytes := chunk ethTxBufSize frame i

/-- A frame cut into segments. -/
def segments (frame : List UInt8) : List TxSegment :=
  (List.range (EthTx.bufCount frame.length)).map (segmentOf frame)

/-- The complete frames in a sequence of segments, after the bytes of an incomplete one. -/
def reassemble : List UInt8 → List TxSegment → List (List UInt8)
  | _, [] => []
  | part, s :: rest =>
      let frame := (if s.first then [] else part) ++ s.bytes
      if s.last then frame :: reassemble [] rest else reassemble frame rest

/-- The descriptor as the DMA reads it. -/
def EthTx.segment (s : EthTx) (d : Fin ethTxBufNb) : TxSegment where
  first := isSet ethDmaTxDescFs (s.dmaTxDscrTab d).status
  last := isSet ethDmaTxDescLs (s.dmaTxDscrTab d).status
  bytes := read (s.txBuff (s.dmaTxDscrTab d).buffer1Addr) 0
    ((s.dmaTxDscrTab d).controlBufferSize &&& ethDmaTxDescTbs1).toNat

/-- The next step starts to hand the frame over. -/
def EthTx.accepts (s : EthTx) : Bool :=
  match s.pc with
  | .pbuf [] _ => !s.owned s.dmaTxDescToSet
  | _ => false

/-- The number of descriptors that the DMA does not own. -/
def EthTx.freeDescs (s : EthTx) : Nat := (Finset.univ.filter fun d => s.owned d = false).card

/-- Why a call returns without having handed its frame over: its wait timed out, or it found a
descriptor in use when so many were free. -/
inductive TxDrop
  | timedOut
  | inUse (free : Nat)
  deriving DecidableEq

/-- The frames of all calls, that of the last call that took the semaphore, the frames that were
accepted, those that were dropped, and what the DMA has taken. -/
structure TxLog where
  calls : List (List UInt8)
  sending : List UInt8
  accepted : List (List UInt8)
  dropped : List (List UInt8 × TxDrop)
  taken : List TxSegment

/-- Before the first call. -/
def TxLog.empty : TxLog := ⟨[], [], [], [], []⟩

/-- The history: a frame is accepted where `ETH_Prepare_Transmit_Descriptors` starts to hand it
over, and dropped where its call returns before that. -/
def txLog : Monitor EthTx TxAct TxLog where
  init _ := .empty
  next h s a s' :=
    match a with
    | .output p true => { h with calls := h.calls ++ [p.flatten], sending := p.flatten }
    | .output p false =>
        { h with
          calls := h.calls ++ [p.flatten], dropped := h.dropped ++ [(p.flatten, .timedOut)] }
    | .cpu =>
        if s.accepts then { h with accepted := h.accepted ++ [h.sending] }
        else if s'.pc = .idle ∧ s.pc ≠ .resume then
          { h with dropped := h.dropped ++ [(h.sending, .inUse s.freeDescs)] }
        else h
    | .dma _ => if s.owned s.dma then { h with taken := h.taken ++ [s.segment s.dma] } else h

/-- The frames that are begun fit into the ring.  The stack does not see to it (`IP_FRAG` is 0), but
what the program sends is smaller. -/
def FitsRing (_ : EthTx × TxLog) : TxAct → Prop
  | .output p true => p.flatten.length ≤ ethTxBufNb * ethTxBufSize
  | _ => True

instance (x : EthTx × TxLog) (a : TxAct) : Decidable (FitsRing x a) := by
  unfold FitsRing
  split <;> infer_instance

theorem bufCount_pos (frameLength : Nat) : 0 < EthTx.bufCount frameLength := by
  unfold EthTx.bufCount
  rw [ethTxBufSize_eq]
  dsimp only
  split_ifs <;> omega

/-- The number of descriptors is the number of buffers begun, and one for an empty frame. -/
theorem bufCount_eq {frameLength c offset : Nat} (length : frameLength = c * ethTxBufSize + offset)
    (within : offset ≤ ethTxBufSize) (begun : c = 0 ∨ 0 < offset) :
    EthTx.bufCount frameLength = c + 1 := by
  unfold EthTx.bufCount
  rw [ethTxBufSize_eq] at *
  dsimp only
  split_ifs <;> omega

/-- The buffers of a frame hold all of it, and it needs all but the last of them whole. -/
theorem bufCount_bounds (frameLength : Nat) :
    (EthTx.bufCount frameLength - 1) * ethTxBufSize ≤ frameLength ∧
      frameLength ≤ EthTx.bufCount frameLength * ethTxBufSize := by
  unfold EthTx.bufCount
  rw [ethTxBufSize_eq]
  dsimp only
  split_ifs <;> omega

theorem drop_segments {frame : List UInt8} {i : Nat} (below : i < EthTx.bufCount frame.length) :
    (segments frame).drop i = segmentOf frame i :: (segments frame).drop (i + 1) := by
  have inside : i < (segments frame).length := by simpa [segments] using below
  rw [List.drop_eq_getElem_cons inside]
  simp [segments]

/-! ## Reassembly -/

/-- What was begun is reassembled first. -/
theorem reassemble_isPrefix (part : List UInt8) (begun rest : List TxSegment) :
    reassemble part begun <+: reassemble part (begun ++ rest) := by
  induction begun generalizing part with
  | nil => exact List.nil_prefix
  | cons s begun ih =>
      rw [List.cons_append, reassemble, reassemble]
      cases s.last with
      | false => exact ih _
      | true => exact (List.prefix_cons_inj _).mpr (ih _)

/-- The bytes collected with one segment more. -/
theorem collect_segment (frame part : List UInt8) (k : Nat) :
    ((if (segmentOf frame k).first then []
        else if k = 0 then part else frame.take (k * ethTxBufSize)) ++ (segmentOf frame k).bytes) =
      frame.take ((k + 1) * ethTxBufSize) := by
  unfold segmentOf
  cases k with
  | zero => simp [chunk]
  | succ k => simp [chunk, Nat.succ_mul, List.take_add]

/-- Up to its last segment a frame is collected. -/
theorem reassemble_open (frame part : List UInt8) {k : Nat}
    (within : k < EthTx.bufCount frame.length) (rest : List TxSegment) :
    reassemble part ((List.range k).map (segmentOf frame) ++ rest) =
      reassemble (if k = 0 then part else frame.take (k * ethTxBufSize)) rest := by
  induction k generalizing rest with
  | zero => rfl
  | succ k ih =>
      have inside : (segmentOf frame k).last = false := by simp [segmentOf]; omega
      rw [List.range_succ, List.map_append, List.append_assoc, ih (by omega), List.map_cons,
        List.map_nil, List.singleton_append, reassemble, collect_segment, inside,
        if_neg Bool.false_ne_true, if_neg (Nat.succ_ne_zero k)]

/-- Reassembling puts a frame that was cut together again. -/
theorem reassemble_segments (frame part : List UInt8) (rest : List TxSegment) :
    reassemble part (segments frame ++ rest) = frame :: reassemble [] rest := by
  obtain ⟨k, count⟩ := Nat.exists_eq_succ_of_ne_zero (bufCount_pos frame.length).ne'
  have covers := (bufCount_bounds frame.length).2
  have last : (segmentOf frame k).last = true := by simp [segmentOf, count]
  unfold segments
  rw [count] at covers ⊢
  rw [List.range_succ, List.map_append, List.append_assoc, reassemble_open frame part (by omega),
    List.map_cons, List.map_nil, List.singleton_append, reassemble, collect_segment, last,
    if_pos rfl, List.take_of_length_le covers]

theorem reassemble_flatMap_segments (frames : List (List UInt8)) :
    reassemble [] (frames.flatMap segments) = frames := by
  induction frames with
  | nil => rfl
  | cons frame frames ih => rw [List.flatMap_cons, reassemble_segments, ih]

end FepMaster

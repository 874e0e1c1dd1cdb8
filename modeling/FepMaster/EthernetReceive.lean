import FepMaster.EthernetDescriptors
import FepMaster.Lib.Transition

/-!
# Receiving Ethernet frames

The DMA writes an arriving frame into the buffers of the receive descriptors and closes them one by
one.  `ETH_IRQHandler` (`Drivers/stm32xxx_it.c`) wakes the task of `ethernetif_input`
(`ports/FreeRTOS/ethernetif.c`), which calls `low_level_input` until it returns no frame:
`ETH_Get_Received_Frame_interrupt` (`stm32_eth.c`) scans the closed descriptors up to the last one
of a frame, the frame is copied into a chain of pbufs, and its descriptors go back to the DMA.

`ethRxLts` is the system of the task, the interrupt and the DMA.  A step of the task goes from one
access to a shared word to the next; the interrupt stops the task.  Between its descriptors the DMA
needs the next one: if it does not own it, it closes the frame where it is and suspends itself; if it
does not own the first, the frame is lost.  What the DMA writes into the status word besides the
fields that the code reads is arbitrary.
-/

namespace FepMaster

open Transition Register Ring Memory Chunk

/-! ## The code -/

/-- `ETH_RXBUFNB`. -/
def ethRxBufNb : Nat := 5

instance : NeZero ethRxBufNb := ⟨by decide⟩

/-- `ETH_RX_BUF_SIZE`. -/
def ethRxBufSize : Nat := ethMaxPacketSize

theorem ethRxBufSize_eq : ethRxBufSize = 1524 := rfl

def ethDmaRxDescOwn : Word := 0x80000000
def ethDmaRxDescFl : Word := 0x3FFF0000
def ethDmaRxDescDe : Word := 0x00004000
def ethDmaRxDescFs : Word := 0x00000200
def ethDmaRxDescLs : Word := 0x00000100
def ethDmaRxDescRch : Word := 0x00004000

/-- `ETH_DMARxDesc_FrameLengthShift`. -/
def ethDmaRxDescFrameLengthShift : Nat := 16

/-- The locals of the copy in `low_level_input`: the first descriptor of the frame, and where the
copy is. -/
structure RxLocals where
  descriptor : Fin ethRxBufNb
  dmaRxDesc : Fin ethRxBufNb
  buffer : Fin ethRxBufNb
  bufferoffset : Nat
  deriving DecidableEq

/-- Where the task is: at its wait for the semaphore; in `ETH_Get_Received_Frame_interrupt`; at
`pbuf_alloc`, with the frame that was found; at a `memcpy`, with what is left of the pbuf, what is in
it, the sizes of the pbufs behind it and the pbufs before it; in the loop that gives the descriptors
back; at the check of `RBUS`; at `input`. -/
inductive RxPc
  | wait
  | scan (counter : Nat)
  | alloc (length : Word) (buffer descriptor : Fin ethRxBufNb)
  | copy (left : Nat) (payload : List UInt8) (q : List Nat) (p : List (List UInt8)) (l : RxLocals)
  | release (i : Nat) (d : Fin ethRxBufNb) (p : List (List UInt8))
  | resume (p : Option (List (List UInt8)))
  | input (p : List (List UInt8))
  deriving DecidableEq

/-- The descriptors and buffers, `DMARxDescToGet`, `DMA_RX_FRAME_infos`, the task, `s_xSemaphore`,
whether `ETH_IRQHandler` has given it and not yet cleared the flag, the flags `RS` and `RBUS`, the
descriptor the DMA is at, the frame it is receiving and the segments written of it, and whether it
is suspended. -/
structure EthRx where
  dmaRxDscrTab : Fin ethRxBufNb → EthDmaDesc ethRxBufNb
  rxBuff : Fin ethRxBufNb → Nat → UInt8
  dmaRxDescToGet : Fin ethRxBufNb
  fsRxDesc : Option (Fin ethRxBufNb)
  lsRxDesc : Option (Fin ethRxBufNb)
  segCount : Nat
  pc : RxPc
  sem : Bool
  inIsr : Bool
  rs : Bool
  rbus : Bool
  dma : Fin ethRxBufNb
  incoming : Option (List UInt8 × Nat)
  suspended : Bool

namespace EthRx

/-- After `low_level_init`: `ETH_DMARxDescChainInit` and `ETH_DMARxDescReceiveITConfig`. -/
def start (rxBuff : Fin ethRxBufNb → Nat → UInt8) : EthRx where
  dmaRxDscrTab := descChainInit ethRxBufNb (fun _ => ethDmaRxDescOwn)
    fun _ => ethDmaRxDescRch ||| BitVec.ofNat 32 ethRxBufSize
  rxBuff := rxBuff
  dmaRxDescToGet := 0
  fsRxDesc := none
  lsRxDesc := none
  segCount := 0
  pc := .wait
  sem := false
  inIsr := false
  rs := false
  rbus := false
  dma := 0
  incoming := none
  suspended := false

/-- `(DMARxDesc->Status & ETH_DMARxDesc_OWN) != RESET`. -/
def owned (s : EthRx) (d : Fin ethRxBufNb) : Bool :=
  isSet ethDmaRxDescOwn (s.dmaRxDscrTab d).status

/-- `(Status & ETH_DMARxDesc_FL) >> ETH_DMARxDesc_FrameLengthShift`. -/
def frameLength (status : Word) : Word :=
  (status &&& ethDmaRxDescFl) >>> ethDmaRxDescFrameLengthShift

/-- `ETH_Get_Received_Frame_interrupt` at the last segment of a frame.  Without a first descriptor a
null pointer is followed. -/
def lastSegment (s : EthRx) : Option EthRx :=
  let d := s.dmaRxDescToGet
  let segCount := (s.segCount + 1) % 2 ^ 32
  let fsRxDesc := if segCount = 1 then some d else s.fsRxDesc
  fsRxDesc.map fun first =>
    { s with
      lsRxDesc := some d
      segCount := segCount
      fsRxDesc := fsRxDesc
      dmaRxDescToGet := (s.dmaRxDscrTab d).buffer2NextDescAddr
      pc := .alloc (frameLength (s.dmaRxDscrTab d).status - 4)
        (if segCount > 1 then (s.dmaRxDscrTab first).buffer1Addr
          else (s.dmaRxDscrTab d).buffer1Addr)
        first }

/-- A round of its loop. -/
def scan (s : EthRx) (counter : Nat) : Option EthRx :=
  let d := s.dmaRxDescToGet
  let status := (s.dmaRxDscrTab d).status
  let next := (s.dmaRxDscrTab d).buffer2NextDescAddr
  if s.owned d = false ∧ counter < ethRxBufNb then
    if isSet ethDmaRxDescFs status && !isSet ethDmaRxDescLs status then
      some { s with
        fsRxDesc := some d, segCount := 1, dmaRxDescToGet := next, pc := .scan (counter + 1) }
    else if !isSet ethDmaRxDescLs status && !isSet ethDmaRxDescFs status then
      some { s with
        segCount := (s.segCount + 1) % 2 ^ 32, dmaRxDescToGet := next, pc := .scan (counter + 1) }
    else s.lastSegment
  else some { s with pc := .resume none }

/-- `pbuf_alloc`: no pbuf, also if there is no frame, or pbufs of these sizes. -/
def pbufAlloc (s : EthRx) (lens : Option (List Nat)) : Option EthRx :=
  match s.pc with
  | .alloc length buffer descriptor =>
      match lens with
      | none => some { s with pc := .resume none }
      | some [] => none
      | some (len :: q) =>
          if length ≠ 0 ∧ (len :: q).sum = length.toNat % 65536 then
            some { s with pc := .copy len [] q [] ⟨descriptor, descriptor, buffer, 0⟩ }
          else none
  | _ => none

/-- A `memcpy` of `low_level_input`: the rest of a buffer, or the rest of a pbuf. -/
def copy (s : EthRx) (left : Nat) (payload : List UInt8) (q : List Nat) (p : List (List UInt8))
    (l : RxLocals) : EthRx :=
  if left + l.bufferoffset > ethRxBufSize then
    let copied := ethRxBufSize - l.bufferoffset
    let dmaRxDesc := (s.dmaRxDscrTab l.dmaRxDesc).buffer2NextDescAddr
    { s with
      pc := .copy (left - copied)
        (payload ++ read (s.rxBuff l.buffer) l.bufferoffset copied) q p { l with
          dmaRxDesc := dmaRxDesc
          buffer := (s.dmaRxDscrTab dmaRxDesc).buffer1Addr
          bufferoffset := 0 } }
  else
    let p := p ++ [payload ++ read (s.rxBuff l.buffer) l.bufferoffset left]
    match q with
    | len :: q => { s with pc := .copy len [] q p { l with bufferoffset := l.bufferoffset + left } }
    | [] => { s with pc := .release 0 l.descriptor p }

/-- A descriptor is given back, or all of them have been. -/
def release (s : EthRx) (i : Nat) (d : Fin ethRxBufNb) (p : List (List UInt8)) : EthRx :=
  if i < s.segCount then
    { s with
      dmaRxDscrTab := Function.update s.dmaRxDscrTab d
        { s.dmaRxDscrTab d with status := ethDmaRxDescOwn }
      pc := .release (i + 1) (s.dmaRxDscrTab d).buffer2NextDescAddr p }
  else { s with segCount := 0, pc := .resume (some p) }

/-- The end of `low_level_input`. -/
def resume (s : EthRx) (p : Option (List (List UInt8))) : EthRx :=
  { s with
    rbus := false
    suspended := if s.rbus then false else s.suspended
    pc := match p with
      | none => .wait
      | some p => .input p }

/-- A step of the task with no choice to it. -/
def task (s : EthRx) : Option EthRx :=
  match s.pc with
  | .wait => if s.sem then some { s with sem := false, pc := .scan 0 } else none
  | .scan counter => s.scan counter
  | .copy left payload q p l => some (s.copy left payload q p l)
  | .release i d p => some (s.release i d p)
  | .resume p => some (s.resume p)
  | .alloc .. => none
  | .input _ => none

/-- `s_pxNetIf->input`: only if it succeeds is the next frame tried at once. -/
def input (s : EthRx) (ok : Bool) : Option EthRx :=
  match s.pc with
  | .input _ => some { s with pc := if ok then .scan 0 else .wait }
  | _ => none

/-- `ETH_IRQHandler`: it gives the semaphore, then clears the flag. -/
def ethIrqHandler (s : EthRx) : Option EthRx :=
  if s.inIsr then some { s with inIsr := false, rs := false }
  else if s.rs then some { s with inIsr := true, sem := true }
  else none

/-! ## The DMA -/

/-- A frame arrives. -/
def wire (s : EthRx) (frame : List UInt8) : Option EthRx :=
  if s.incoming = none ∧ s.suspended = false then
    if s.owned s.dma then some { s with incoming := some (frame, 0) }
    else some { s with suspended := true, rbus := true }
  else none

/-- The next segment of the frame goes into the buffer, and the descriptor is closed with a status
word in which the DMA determines the bits of a mask. -/
def close (s : EthRx) (frame : List UInt8) (i : Nat) (bits mask flags : Word) : EthRx :=
  let desc := s.dmaRxDscrTab s.dma
  { s with
    dmaRxDscrTab := Function.update s.dmaRxDscrTab s.dma
      { desc with status := bits ||| (flags &&& ~~~mask) }
    rxBuff := Function.update s.rxBuff desc.buffer1Addr
      (write (s.rxBuff desc.buffer1Addr) 0 (chunk ethRxBufSize frame i))
    dma := desc.buffer2NextDescAddr }

/-- The first segment of a frame is marked. -/
def firstBit (i : Nat) : Word := if i = 0 then ethDmaRxDescFs else 0

/-- The bits that the DMA determines in a segment that is not the last. -/
def segmentBits : Word := ethDmaRxDescOwn ||| ethDmaRxDescFs ||| ethDmaRxDescLs

/-- The length as a field of the status word. -/
def lengthField (length : Nat) : Word :=
  (BitVec.ofNat 32 length <<< ethDmaRxDescFrameLengthShift) &&& ethDmaRxDescFl

/-- The frame goes on and the next descriptor is in use. -/
def truncates (s : EthRx) : Bool :=
  match s.incoming with
  | some (frame, i) =>
      i + 1 != count ethRxBufSize frame.length &&
        !s.owned (s.dmaRxDscrTab s.dma).buffer2NextDescAddr
  | none => false

/-- The DMA closes the descriptor it is at. -/
def dmaStep (s : EthRx) (flags : Word) : Option EthRx :=
  match s.incoming with
  | none => none
  | some (frame, i) =>
      if i + 1 = count ethRxBufSize frame.length then
        some { s.close frame i (firstBit i ||| ethDmaRxDescLs ||| lengthField frame.length)
            (segmentBits ||| ethDmaRxDescFl) flags with
          incoming := none, rs := true }
      else if s.truncates then
        some { s.close frame i (firstBit i ||| ethDmaRxDescLs ||| ethDmaRxDescDe)
            (segmentBits ||| ethDmaRxDescDe) flags with
          incoming := none, rs := true, suspended := true, rbus := true }
      else
        some { s.close frame i (firstBit i) segmentBits flags with incoming := some (frame, i + 1) }

end EthRx

/-- A step of the task, `pbuf_alloc` and `input` with their results, the interrupt, a frame arrives,
a step of the DMA. -/
inductive RxAct
  | task
  | alloc (lens : Option (List Nat))
  | input (ok : Bool)
  | irq
  | wire (frame : List UInt8)
  | dma (flags : Word)
  deriving DecidableEq

/-- One step; in the interrupt the task does not run. -/
def EthRx.step (s : EthRx) : RxAct → Option EthRx
  | .task => if s.inIsr then none else s.task
  | .alloc lens => if s.inIsr then none else s.pbufAlloc lens
  | .input ok => if s.inIsr then none else s.input ok
  | .irq => s.ethIrqHandler
  | .wire frame => s.wire frame
  | .dma flags => s.dmaStep flags

/-- The system. -/
def ethRxLts : Lts EthRx RxAct where
  Init s := ∃ rxBuff, s = EthRx.start rxBuff
  step := EthRx.step

end FepMaster

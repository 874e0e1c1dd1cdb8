import FepMaster.Lib.Fifo
import FepMaster.Lib.Transition
import FepMaster.Report
import FepMaster.TableUpdates
import FepMaster.UartFraming

/-!
# The tasks, one access at a time

The receive interrupt, the timer interrupt and the three tasks `FEP_RS485_Handler`
(`Drivers/FEP/fep_rs485.c`), `FEP_RS485_GETVALUE_Handler` (`Drivers/FEP/fep_rs485_getvalue.c`) and
`FEP_UDP_Handler` with `SendGetValue` (`Drivers/FEP/fep_udp.c`) as they run under preemption.  A
step is one read or write of shared memory, or one call of the kernel; an interrupt runs whole.

The tasks have one priority and the kernel switches between them at any point, so any party may
move next.  `xSemaphoreTake` with its timeout of one tick obtains a free lock and waits for a
taken one; the label of a step says whether the wait has run out.

The part of `FEP_UDP_Handler` that reads the socket touches nothing shared; it is in
`FepMaster.UdpTask`.
-/

namespace FepMaster

open Transition

/-! ## Shared memory -/

/-- The tasks that contend for `fep_dev_list_Sem`. -/
inductive Task
  | handler
  | getvalue
  | udp
  deriving DecidableEq

/-- What interrupts and tasks share. -/
structure Shared where
  uart : Uart
  fepProcessQueueBuffer : Fifo FepPacket fepQueueBufferSize
  fepDevList : DevTable
  fepDevListSem : Option Task
  flagGetData : UInt8
  flagSendUdp : UInt8

namespace Shared

/-- Memory when the scheduler starts: the drivers are initialised, the lock is free. -/
def start : Shared := ⟨Uart.reset true, Fifo.empty, DevTable.zero, none, inactive, inactive⟩

/-- A write to one slot of `fep_dev_list`. -/
def write (s : Shared) (k : Slot) (f : FepDev → FepDev) : Shared :=
  { s with fepDevList := s.fepDevList.modify k f }

@[simp] theorem write_self (s : Shared) (k : Slot) (f : FepDev → FepDev) :
    (s.write k f).fepDevList k = f (s.fepDevList k) :=
  DevTable.modify_self _ _ _

theorem write_other (s : Shared) {k l : Slot} (f : FepDev → FepDev) (other : l ≠ k) :
    (s.write k f).fepDevList l = s.fepDevList l :=
  DevTable.modify_other _ _ other

theorem write_apply (s : Shared) (k l : Slot) (f : FepDev → FepDev) :
    (s.write k f).fepDevList l = if l = k then f (s.fepDevList k) else s.fepDevList l :=
  DevTable.modify_apply _ _ _ _

/-- A field that a write leaves alone. -/
theorem write_field {β : Type} (field : FepDev → β) (s : Shared) (k l : Slot)
    {f : FepDev → FepDev} (keeps : ∀ d, field (f d) = field d) :
    field ((s.write k f).fepDevList l) = field (s.fepDevList l) :=
  DevTable.modify_field field _ _ _ (keeps _)

/-- `xSemaphoreTake(fep_dev_list_Sem, 1)`: its result, once it returns. -/
def xSemaphoreTake (s : Shared) (t : Task) (timeout : Bool) : Option (Bool × Shared) :=
  match s.fepDevListSem with
  | none => if timeout then none else some (true, { s with fepDevListSem := some t })
  | some _ => if timeout then some (false, s) else none

/-- `xSemaphoreGive(fep_dev_list_Sem)`. -/
def xSemaphoreGive (s : Shared) : Shared := { s with fepDevListSem := none }

/-- The receive interrupt; a packet for a full queue is dropped. -/
def uart4 (s : Shared) (e : IrqEvent) : Shared :=
  let r := uart4IrqHandler s.uart e
  { s with
    uart := r.uart
    fepProcessQueueBuffer :=
      match r.sent with
      | some p => (s.fepProcessQueueBuffer.send p).getD s.fepProcessQueueBuffer
      | none => s.fepProcessQueueBuffer }

@[simp] theorem uart4_fepDevList (s : Shared) (e : IrqEvent) :
    (s.uart4 e).fepDevList = s.fepDevList := rfl

/-- `TIM3_IRQHandler`. -/
def tim3 (s : Shared) : Shared := { s with flagGetData := active }

end Shared

/-! ## `FEP_RS485_Handler` -/

/-- Where the handler stands, with its local `tmpPacket` and the bytes it has read. -/
inductive HandlerPc
  | receive
  | take (p : FepPacket)
  | setDevType (p : FepPacket)
  | setDevId (p : FepPacket)
  | testHigh (p : FepPacket)
  | testLow (p : FepPacket) (high : UInt8)
  | setNewData (p : FepPacket)
  | readData (p : FepPacket)
  | setData (p : FepPacket) (high : UInt8)
  | readDataL (p : FepPacket)
  | setDataL (p : FepPacket) (low : UInt8)
  | clearCount (p : FepPacket)
  | setStatus (p : FepPacket)
  | give (p : FepPacket)

/-- What `switch (PACKET_START(&tmpPacket))` does with a dequeued packet. -/
def HandlerPc.dispatch (p : FepPacket) : HandlerPc :=
  if p.packetStart = startGetValue then
    if p.packetState = statusReturn then .take p else .receive
  else .receive

/-- One step of the handler. -/
def handlerStep (timeout : Bool) (s : Shared) : HandlerPc → Option (Shared × HandlerPc)
  | .receive =>
      match s.fepProcessQueueBuffer.receive with
      | some (p, rest) => some ({ s with fepProcessQueueBuffer := rest }, .dispatch p)
      | none => some (s, .receive)
  | .take p =>
      (s.xSemaphoreTake .handler timeout).map fun (granted, s) =>
        (s, if granted then .setDevType p else .receive)
  | .setDevType p =>
      some (s.write p.slot fun d => { d with devType := p.packetDevType }, .setDevId p)
  | .setDevId p => some (s.write p.slot fun d => { d with devId := p.packetDevId }, .testHigh p)
  | .testHigh p => some (s, .testLow p (dataBuff3 s.uart.dataBuff))
  | .testLow p high =>
      some (s,
        if valueWord high (dataBuff4 s.uart.dataBuff) ≠ 0xFFFF then .setNewData p
        else .clearCount p)
  | .setNewData p => some (s.write p.slot fun d => { d with newData := active }, .readData p)
  | .readData p => some (s, .setData p (dataBuff3 s.uart.dataBuff))
  | .setData p high => some (s.write p.slot fun d => { d with data := high }, .readDataL p)
  | .readDataL p => some (s, .setDataL p (dataBuff4 s.uart.dataBuff))
  | .setDataL p low => some (s.write p.slot fun d => { d with dataL := low }, .clearCount p)
  | .clearCount p => some (s.write p.slot fun d => { d with receCount := 0 }, .setStatus p)
  | .setStatus p => some (s.write p.slot fun d => { d with status := active }, .give p)
  | .give _ => some (s.xSemaphoreGive, .receive)

/-! ## `FEP_RS485_GETVALUE_Handler` -/

/-- Where the poller stands in its two loops over the slots `1..6`. -/
inductive PollerPc
  | wait
  | ask (i : Polled)
  | take (i : Polled)
  | readCount (i : Polled)
  | writeCount (i : Polled) (count : UInt8)
  | give (i : Polled)
  | clearNew (i : Polled)
  | test (i : Polled)
  | setInactive (i : Polled)
  | clearGetData
  | setSendUdp

/-- The head of the polling loop after iteration `i`. -/
def PollerPc.afterCount (i : Polled) : PollerPc :=
  match i.next with
  | some j => .ask j
  | none => .clearNew .first

/-- The head of the checking loop after iteration `i`. -/
def PollerPc.afterCheck (i : Polled) : PollerPc :=
  match i.next with
  | some j => .clearNew j
  | none => .clearGetData

/-- One step of the poller; `ask` is `ask_value` with the delay after it. -/
def pollerStep (timeout : Bool) (s : Shared) : PollerPc → Option (Shared × PollerPc)
  | .wait => some (s, if s.flagGetData = active then .ask .first else .wait)
  | .ask i => some (s, .take i)
  | .take i =>
      (s.xSemaphoreTake .getvalue timeout).map fun (granted, s) =>
        (s, if granted then .readCount i else .afterCount i)
  | .readCount i => some (s, .writeCount i (s.fepDevList i.slot).receCount)
  | .writeCount i count => some (s.write i.slot fun d => { d with receCount := count + 1 }, .give i)
  | .give i => some (s.xSemaphoreGive, .afterCount i)
  | .clearNew i => some (s.write i.slot fun d => { d with newData := inactive }, .test i)
  | .test i =>
      some (s, if (s.fepDevList i.slot).receCount > 10 then .setInactive i else .afterCheck i)
  | .setInactive i => some (s.write i.slot fun d => { d with status := inactive }, .afterCheck i)
  | .clearGetData => some ({ s with flagGetData := inactive }, .setSendUdp)
  | .setSendUdp => some ({ s with flagSendUdp := active }, .wait)

/-! ## `FEP_UDP_Handler` and `SendGetValue` -/

/-- Where the server task stands, with the locals `buff` and `j` of `SendGetValue`. -/
inductive UdpPc
  | wait
  | clearFlag
  | call
  | take (buff : Vector UInt8 100)
  | readStatus (buff : Vector UInt8 100) (j : Nat) (i : Polled)
  | readType (buff : Vector UInt8 100) (j : Nat) (i : Polled)
  | readId (buff : Vector UInt8 100) (j : Nat) (i : Polled) (devType : UInt8)
  | readData (buff : Vector UInt8 100) (j : Nat) (i : Polled)
  | readDataL (buff : Vector UInt8 100) (j : Nat) (i : Polled)
  | give (buff : Vector UInt8 100) (j : Nat)
  | send (buff : Vector UInt8 100) (j : Nat)

/-- The head of the loop of `SendGetValue` after iteration `i`. -/
def UdpPc.afterSlot (buff : Vector UInt8 100) (j : Nat) (i : Polled) : UdpPc :=
  match i.next with
  | some k => .readStatus buff j k
  | none => .give buff j

/-- One step of the server task; `stack` is what the call finds in its uninitialised buffer. -/
def udpStep (timeout : Bool) (stack : Vector UInt8 100) (s : Shared) :
    UdpPc → Option (Shared × UdpPc)
  | .wait => some (s, if s.flagSendUdp = active then .clearFlag else .wait)
  | .clearFlag => some ({ s with flagSendUdp := inactive }, .call)
  | .call => some (s, .take (startReport stack))
  | .take buff =>
      (s.xSemaphoreTake .udp timeout).map fun (granted, s) =>
        (s, if granted then .readStatus buff 0 .first else .send buff 0)
  | .readStatus buff j i =>
      some (s,
        if (s.fepDevList i.slot).status = active then .readType buff j i
        else .afterSlot buff j i)
  | .readType buff j i => some (s, .readId buff j i (s.fepDevList i.slot).devType)
  | .readId buff j i devType =>
      some (s,
        .readData (buff.setIfInBounds (3 + 3 * j + 0) (devType + (s.fepDevList i.slot).devId)) j i)
  | .readData buff j i =>
      some (s, .readDataL (buff.setIfInBounds (3 + 3 * j + 1) (s.fepDevList i.slot).data) j i)
  | .readDataL buff j i =>
      some (s,
        .afterSlot (buff.setIfInBounds (3 + 3 * j + 2) (s.fepDevList i.slot).dataL) (j + 1) i)
  | .give buff j => some (s.xSemaphoreGive, .send buff j)
  | .send _ _ => some (s, .wait)

/-- The bytes the next step passes to `sendto`. -/
def UdpPc.datagram : UdpPc → Option (List UInt8)
  | .send buff j => some (finishReport buff j)
  | _ => none

/-! ## All together -/

/-- Shared memory and where each task stands. -/
structure Master where
  shared : Shared
  handler : HandlerPc
  poller : PollerPc
  udp : UdpPc

/-- The tasks before their first step. -/
def Master.start : Master := ⟨Shared.start, .receive, .wait, .wait⟩

/-- Who moves, what the interrupt finds, whether a wait for the lock has run out, and what the
stack held. -/
inductive Act
  | uart4 (e : IrqEvent)
  | tim3
  | handler (timeout : Bool)
  | poller (timeout : Bool)
  | udp (timeout : Bool) (stack : Vector UInt8 100)

/-- One step of anybody. -/
def Master.step (x : Master) : Act → Option Master
  | .uart4 e => some { x with shared := x.shared.uart4 e }
  | .tim3 => some { x with shared := x.shared.tim3 }
  | .handler timeout =>
      (handlerStep timeout x.shared x.handler).map fun (s, pc) =>
        { x with shared := s, handler := pc }
  | .poller timeout =>
      (pollerStep timeout x.shared x.poller).map fun (s, pc) =>
        { x with shared := s, poller := pc }
  | .udp timeout stack =>
      (udpStep timeout stack x.shared x.udp).map fun (s, pc) => { x with shared := s, udp := pc }

/-- The gateway under preemption. -/
def masterLts : Lts Master Act where
  Init x := x = Master.start
  step := Master.step

end FepMaster

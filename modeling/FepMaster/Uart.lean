import FepMaster.Packet

/-!
# The RS-485 driver

`Drivers/FEP/rs485.c`: the receive interrupt `UART4_IRQHandler` with its buffer and index, and
`RS485_SendPacket`, which sends a chain of packets.

The index is stored to before it is compared with the size of the buffer, so a run of the handler
also says where it stored (`IrqResult.stored`).  A store past the ten declared bytes leaves the
modelled buffer as it is: what lies behind it in memory is not part of the program text.
-/

namespace FepMaster

/-! ## The receive interrupt -/

/-- What the handler finds at one interrupt: the two interrupt conditions it asks for, and the
data register. -/
structure IrqEvent where
  fe : Bool
  rxne : Bool
  data : UInt8
  deriving DecidableEq

/-- The static state of the driver: `data_buff`, `rx_index`, and whether `__queue_buffer` has been
set. -/
structure Uart where
  dataBuff : Vector UInt8 10
  rxIndex : Nat
  queueBuffer : Bool
  deriving DecidableEq

/-- The driver after static initialisation and `RS485_Init`. -/
def Uart.reset (queueBuffer : Bool) : Uart := ⟨Vector.replicate 10 0, 0, queueBuffer⟩

/-- One run of the handler: the state it leaves, the packet it passed to `xQueueSendFromISR`, and
the index it stored to. -/
structure IrqResult where
  uart : Uart
  sent : Option FepPacket
  stored : Option Nat

/-- `for(i=0;i<6;i++) data_buff[i]=data_buff[i+1];` -/
def shiftLoop {α : Type} (buff : Vector α 10) : Vector α 10 :=
  (List.finRange 6).foldl
    (fun b i => b.set i.val (b.get ⟨i.val + 1, by omega⟩) (by omega)) buff

/-- `data_buff[3]`: the value byte of a packet at the start of the buffer. -/
abbrev dataBuff3 {α : Type} (buff : Vector α 10) : α := buff[3]

/-- `data_buff[4]`: its fifth byte. -/
abbrev dataBuff4 {α : Type} (buff : Vector α 10) : α := buff[4]

/-- The buffer read as a packet, `(FEP_Packet_t *)(data_buff)`. -/
def castPacket (buff : Vector UInt8 10) : FepPacket :=
  ⟨buff[0], buff[1], buff[2], buff[3], buff[4], buff[5]⟩

/-- The framing branch: shift, post, rewind. -/
def frameBranch (u : Uart) : Uart × Option FepPacket :=
  let buff := shiftLoop u.dataBuff
  ({ u with dataBuff := buff, rxIndex := 0 },
    if u.queueBuffer then some (castPacket buff) else none)

/-- The receive branch: store, advance, and the overflow guard after the advance. -/
def receiveBranch (u : Uart) (data : UInt8) : Uart :=
  let rxIndex := u.rxIndex + 1
  { u with
    dataBuff := u.dataBuff.setIfInBounds u.rxIndex data
    rxIndex := if rxIndex > 10 then 0 else rxIndex }

/-- `UART4_IRQHandler`. -/
def uart4IrqHandler (u : Uart) (e : IrqEvent) : IrqResult :=
  let (u, sent) := if e.fe then frameBranch u else (u, none)
  if e.rxne then ⟨receiveBranch u e.data, sent, some u.rxIndex⟩ else ⟨u, sent, none⟩

/-! ## Runs of the handler -/

/-- The handler's runs over a sequence of interrupts. -/
def irqRun : Uart → List IrqEvent → List IrqResult
  | _, [] => []
  | u, e :: rest =>
      let r := uart4IrqHandler u e
      r :: irqRun r.uart rest

/-- The driver after a sequence of interrupts. -/
def irqAfter (u : Uart) (es : List IrqEvent) : Uart :=
  es.foldl (fun u e => (uart4IrqHandler u e).uart) u

/-- The packets a sequence of interrupts posts. -/
def irqSends (u : Uart) (es : List IrqEvent) : List FepPacket :=
  (irqRun u es).filterMap IrqResult.sent

/-- The indices a sequence of interrupts stores to. -/
def irqStores (u : Uart) (es : List IrqEvent) : List Nat :=
  (irqRun u es).filterMap IrqResult.stored

@[simp] theorem irqAfter_nil (u : Uart) : irqAfter u [] = u := rfl

@[simp] theorem irqAfter_cons (u : Uart) (e : IrqEvent) (es : List IrqEvent) :
    irqAfter u (e :: es) = irqAfter (uart4IrqHandler u e).uart es := rfl

theorem irqAfter_append (u : Uart) (es fs : List IrqEvent) :
    irqAfter u (es ++ fs) = irqAfter (irqAfter u es) fs :=
  List.foldl_append

theorem irqRun_append (u : Uart) (es fs : List IrqEvent) :
    irqRun u (es ++ fs) = irqRun u es ++ irqRun (irqAfter u es) fs := by
  induction es generalizing u with
  | nil => rfl
  | cons e es ih => simp only [List.cons_append, irqRun, irqAfter_cons, ih]

theorem irqSends_append (u : Uart) (es fs : List IrqEvent) :
    irqSends u (es ++ fs) = irqSends u es ++ irqSends (irqAfter u es) fs := by
  rw [irqSends, irqRun_append, List.filterMap_append]
  rfl

/-! ## What one interrupt does -/

theorem bytes_castPacket (buff : Vector UInt8 10) :
    (castPacket buff).bytes = buff.toList.take 6 := by
  rcases buff with ⟨⟨cells⟩, size⟩
  match cells, size with
  | [_, _, _, _, _, _, _, _, _, _], _ => rfl

/-- The shift moves six of the cells one place down and leaves the rest. -/
theorem toList_shiftLoop {α : Type} (buff : Vector α 10) :
    (shiftLoop buff).toList = (buff.toList.drop 1).take 6 ++ buff.toList.drop 6 := by
  rcases buff with ⟨⟨cells⟩, size⟩
  match cells, size with
  | [_, _, _, _, _, _, _, _, _, _], _ => rfl

theorem getElem_shiftLoop {α : Type} (buff : Vector α 10) {j : Nat} (bound : j < 10) :
    (shiftLoop buff)[j] = if shifted : j < 6 then buff[j + 1] else buff[j] := by
  have inside : j < (shiftLoop buff).toList.length := by simpa using bound
  have cell : (shiftLoop buff)[j] = (shiftLoop buff).toList[j] := by simp
  rw [cell]
  simp only [toList_shiftLoop, List.getElem_append, List.length_take, List.length_drop,
    Vector.length_toList, List.getElem_take, List.getElem_drop, Vector.getElem_toList]
  split
  · next inner =>
      rw [dif_pos (by omega)]
      congr 1
      omega
  · next outer =>
      rw [dif_neg (by omega)]
      congr 1
      omega

theorem toList_receiveBranch (u : Uart) (data : UInt8) :
    (receiveBranch u data).dataBuff.toList = u.dataBuff.toList.set u.rxIndex data := by
  simp [receiveBranch]

/-- A break: a framing error whose received byte is zero. -/
def breakEvent : IrqEvent := ⟨true, true, 0⟩

/-- A byte received without error. -/
def dataEvent (b : UInt8) : IrqEvent := ⟨false, true, b⟩

/-- A received byte advances the index and stores; nothing is posted. -/
theorem uart4IrqHandler_data (u : Uart) (b : UInt8) :
    uart4IrqHandler u (dataEvent b) = ⟨receiveBranch u b, none, some u.rxIndex⟩ := rfl

/-- A framing event posts the buffer from its second byte on. -/
theorem bytes_of_frame (u : Uart) :
    (castPacket (shiftLoop u.dataBuff)).bytes = (u.dataBuff.toList.drop 1).take 6 := by
  rw [bytes_castPacket, toList_shiftLoop]
  simp

/-! ## The sender -/

/-- The address of a packet in memory. -/
abbrev Addr := Nat

/-- A packet in memory: its bytes and its `next` link. -/
structure PacketCell where
  packet : FepPacket
  next : Option Addr

/-- The bus operations of the driver: the direction line, one byte, a break, a delay. -/
inductive BusOp
  | dir (select : UInt8)
  | byte (b : UInt8)
  | brk
  | delay (ticks : Nat)
  deriving DecidableEq

/-- `UART_485_DIR_TRANSF`. -/
def uart485DirTransf : UInt8 := 1

/-- `UART_485_DIR_RECE`. -/
def uart485DirRece : UInt8 := 0

/-- The body of the send loop for one packet: five bytes, a break, and the protocol's pause. -/
def sendOne (p : FepPacket) : List BusOp :=
  [.byte p.startState, .byte p.size, .byte p.devInfo, .byte p.value, .byte p.checksum, .brk,
    .delay 2]

/-- The send loop with `left` iterations still allowed. -/
def sendLoop (mem : Addr → PacketCell) : Nat → Option Addr → List BusOp
  | 0, _ => []
  | _ + 1, none => []
  | left + 1, some a => sendOne (mem a).packet ++ sendLoop mem left (mem a).next

/-- `RS485_SendPacket`. -/
def rs485SendPacket (mem : Addr → PacketCell) (packet : Option Addr) (numOfPacket : Int) :
    List BusOp :=
  .dir uart485DirTransf :: (sendLoop mem numOfPacket.toNat packet ++ [.dir uart485DirRece])

/-- What a receiver on the bus sees of an operation. -/
def BusOp.irq : BusOp → Option IrqEvent
  | .byte b => some (dataEvent b)
  | .brk => some breakEvent
  | .dir _ => none
  | .delay _ => none

/-- The packets met by following `next` from a pointer to the terminating `NULL`. -/
inductive Chain (mem : Addr → PacketCell) : Option Addr → List FepPacket → Prop
  | null : Chain mem none []
  | link {a : Addr} {rest : List FepPacket} :
      Chain mem (mem a).next rest → Chain mem (some a) ((mem a).packet :: rest)

end FepMaster

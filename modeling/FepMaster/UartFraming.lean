import Mathlib.Data.List.Forall2
import FepMaster.Lib.Fifo
import FepMaster.Uart

/-!
# Framing: what the sender sends is what the receiver posts

A break reaches the handler as a framing error together with a received zero.  The framing branch
runs first, so that zero is stored at index zero, the bytes of the next frame follow it, and the
shift of the next break removes it again.  `FrameStart` is the state this leaves between frames;
it is entered from any state by one break, whatever the buffer held.

`irqSends_frames` is the decoding of a stream of short frames, `framing_roundtrip` the round trip
with `RS485_SendPacket` through the packet queue.
-/

namespace FepMaster

/-- A frame on the wire: its bytes and the break that ends it. -/
def frameEvents (frame : List UInt8) : List IrqEvent :=
  frame.map dataEvent ++ [breakEvent]

/-- The five bytes `RS485_SendPacket` sends of a packet. -/
def FepPacket.frame (p : FepPacket) : List UInt8 :=
  [p.startState, p.size, p.devInfo, p.value, p.checksum]

/-- `FEP_QUEUEBUFFER_SIZE`. -/
def fepQueueBufferSize : Nat := 20

/-- The driver right after a break: ready to post, the break's own zero stored. -/
def FrameStart (u : Uart) : Prop := u.queueBuffer = true ∧ u.rxIndex = 1

/-! ## One frame -/

/-- Bytes that fit are laid down in order from the index on. -/
theorem irqAfter_data (u : Uart) (frame : List UInt8)
    (fits : u.rxIndex + frame.length ≤ 10) :
    let v := irqAfter u (frame.map dataEvent)
    v.dataBuff.toList = u.dataBuff.toList.take u.rxIndex ++ frame ++
        u.dataBuff.toList.drop (u.rxIndex + frame.length) ∧
      v.rxIndex = u.rxIndex + frame.length ∧ v.queueBuffer = u.queueBuffer := by
  induction frame generalizing u with
  | nil => simp
  | cons b rest ih =>
      simp only [List.length_cons] at fits
      have advanced : (receiveBranch u b).rxIndex = u.rxIndex + 1 := by
        simp only [receiveBranch]
        exact if_neg (by omega)
      obtain ⟨cells, index, queue⟩ :=
        ih (receiveBranch u b) (by rw [advanced]; omega)
      simp only [List.map_cons, irqAfter_cons, uart4IrqHandler_data]
      refine ⟨?_, by rw [index, advanced, List.length_cons]; omega, queue⟩
      have size : u.dataBuff.toList.length = 10 := Vector.length_toList
      rw [cells, advanced, toList_receiveBranch, List.length_cons,
        List.take_succ_eq_append_getElem (by rw [List.length_set]; omega),
        List.getElem_set_self, List.take_set_of_le (Nat.le_refl _),
        List.drop_set_of_lt (by omega)]
      simp only [List.append_assoc, List.cons_append, List.nil_append,
        Nat.add_assoc, Nat.add_comm rest.length 1]

theorem irqSends_data (u : Uart) (frame : List UInt8) :
    irqSends u (frame.map dataEvent) = [] := by
  induction frame generalizing u with
  | nil => rfl
  | cons b rest ih => exact ih (receiveBranch u b)

/-- A break posts the buffer from its second byte on and leaves the driver between frames. -/
theorem break_posts (u : Uart) (ready : u.queueBuffer = true) :
    irqSends u [breakEvent] = [castPacket (shiftLoop u.dataBuff)] ∧
      FrameStart (irqAfter u [breakEvent]) := by
  constructor
  · simp [irqSends, irqRun, uart4IrqHandler, breakEvent, frameBranch, ready]
  · simp [FrameStart, uart4IrqHandler, breakEvent, frameBranch, receiveBranch, ready]

/-- A frame of at most six bytes posts one packet that begins with it. -/
theorem frame_posts {u : Uart} (start : FrameStart u) {frame : List UInt8}
    (short : frame.length ≤ 6) :
    ∃ p, irqSends u (frameEvents frame) = [p] ∧ frame <+: p.bytes ∧
      FrameStart (irqAfter u (frameEvents frame)) := by
  rcases start with ⟨ready, index⟩
  obtain ⟨cells, -, queue⟩ := irqAfter_data u frame (by omega)
  obtain ⟨posted, next⟩ :=
    break_posts (irqAfter u (frame.map dataEvent)) (queue.trans ready)
  refine ⟨castPacket (shiftLoop (irqAfter u (frame.map dataEvent)).dataBuff), ?_, ?_, ?_⟩
  · rw [frameEvents, irqSends_append, irqSends_data, posted]
    rfl
  · have size : u.dataBuff.toList.length = 10 := Vector.length_toList
    rw [bytes_of_frame, cells, index, List.append_assoc,
      List.drop_append_of_le_length (by rw [List.length_take]; omega),
      List.drop_eq_nil_of_le (by rw [List.length_take]; omega), List.nil_append,
      List.take_append, List.take_of_length_le short]
    exact List.prefix_append _ _
  · rw [frameEvents, irqAfter_append]
    exact next

/-! ## A stream of frames -/

theorem irqSends_frames {u : Uart} (start : FrameStart u) (frames : List (List UInt8))
    (short : ∀ frame ∈ frames, frame.length ≤ 6) :
    List.Forall₂ (fun frame p => frame <+: p.bytes) frames
      (irqSends u (frames.flatMap frameEvents)) := by
  induction frames generalizing u with
  | nil => exact .nil
  | cons frame rest ih =>
      obtain ⟨p, posted, begins, next⟩ := frame_posts start (short frame List.mem_cons_self)
      rw [List.flatMap_cons, irqSends_append, posted]
      exact .cons begins (ih next fun f member => short f (List.mem_cons_of_mem _ member))

/-- From any state, a break is answered by one packet and after it the frames are decoded one by
one. -/
theorem irqSends_resync (u : Uart) (ready : u.queueBuffer = true) (frames : List (List UInt8))
    (short : ∀ frame ∈ frames, frame.length ≤ 6) :
    ∃ first posted, irqSends u (breakEvent :: frames.flatMap frameEvents) = first :: posted ∧
      List.Forall₂ (fun frame p => frame <+: p.bytes) frames posted := by
  obtain ⟨first, start⟩ := break_posts u ready
  refine ⟨castPacket (shiftLoop u.dataBuff), _, ?_, irqSends_frames start frames short⟩
  rw [← List.singleton_append, irqSends_append, first]
  rfl

/-! ## The sender's stream -/

theorem filterMap_irq_sendOne (p : FepPacket) :
    (sendOne p).filterMap BusOp.irq = frameEvents p.frame := rfl

/-- The loop sends the frames of the first `left` packets of the chain. -/
theorem filterMap_irq_sendLoop (mem : Addr → PacketCell) {head : Option Addr}
    {packets : List FepPacket} (chain : Chain mem head packets) (left : Nat) :
    (sendLoop mem left head).filterMap BusOp.irq =
      ((packets.take left).map FepPacket.frame).flatMap frameEvents := by
  induction chain generalizing left with
  | null => cases left <;> rfl
  | link _ ih =>
      cases left with
      | zero => rfl
      | succ left =>
          rw [sendLoop, List.filterMap_append, ih, filterMap_irq_sendOne]
          rfl

theorem filterMap_irq_rs485SendPacket (mem : Addr → PacketCell) {head : Option Addr}
    {packets : List FepPacket} (chain : Chain mem head packets) (n : Int) :
    (rs485SendPacket mem head n).filterMap BusOp.irq =
      ((packets.take n.toNat).map FepPacket.frame).flatMap frameEvents := by
  have loop := filterMap_irq_sendLoop mem chain n.toNat
  simp only [rs485SendPacket, List.filterMap_cons, List.filterMap_append, BusOp.irq, loop]
  simp

theorem frame_eq_of_prefix {p q : FepPacket} (begins : p.frame <+: q.bytes) :
    p.frame = q.frame :=
  List.IsPrefix.eq_of_length (List.prefix_of_prefix_length_le begins
    ⟨[q.valueL], rfl⟩ (Nat.le_refl 5)) rfl

theorem frames_eq_of_prefixes {sent posted : List FepPacket}
    (begins : List.Forall₂ (fun p q : FepPacket => p.frame <+: q.bytes) sent posted) :
    posted.map FepPacket.frame = sent.map FepPacket.frame := by
  induction begins with
  | nil => rfl
  | cons head _ ih => rw [List.map_cons, List.map_cons, ih, frame_eq_of_prefix head]

/-- **Framing round trip and resynchronisation.**  `moves` is any interleaving of the handler's
sends with the reader's receives; the queue never refuses. -/
theorem framing_roundtrip (u : Uart) (ready : u.queueBuffer = true)
    (q : Fifo FepPacket fepQueueBufferSize) (moves : List (Option FepPacket))
    (room : (q.run moves).2.refused = []) :
    (∀ (mem : Addr → PacketCell) (head : Option Addr) (packets : List FepPacket) (n : Int),
      Chain mem head packets →
      moves.filterMap id =
        irqSends u (breakEvent :: (rs485SendPacket mem head n).filterMap BusOp.irq) →
      ∃ first posted, (q.run moves).2.accepted = first :: posted ∧
        posted.length = min n.toNat packets.length ∧
        posted.map FepPacket.frame = (packets.take n.toNat).map FepPacket.frame) ∧
    (∀ frames : List (List UInt8), (∀ frame ∈ frames, frame.length ≤ 6) →
      moves.filterMap id = irqSends u (breakEvent :: frames.flatMap frameEvents) →
      ∃ first posted, (q.run moves).2.accepted = first :: posted ∧
        List.Forall₂ (fun frame p => frame <+: p.bytes) frames posted) := by
  have accepted := q.run_accepted_of_room moves room
  refine ⟨fun mem head packets n chain sends => ?_, fun frames short sends => ?_⟩
  · rw [filterMap_irq_rs485SendPacket mem chain] at sends
    obtain ⟨first, posted, stream, begins⟩ := irqSends_resync u ready
      ((packets.take n.toNat).map FepPacket.frame) (by
        intro frame member
        rcases List.mem_map.mp member with ⟨p, -, rfl⟩
        exact Nat.le_succ 5)
    have same : posted.map FepPacket.frame = (packets.take n.toNat).map FepPacket.frame := by
      rw [List.forall₂_map_left_iff] at begins
      exact frames_eq_of_prefixes begins
    refine ⟨first, posted, by rw [accepted, sends, stream], ?_, same⟩
    have := congrArg List.length same
    simpa using this
  · obtain ⟨first, posted, stream, begins⟩ := irqSends_resync u ready frames short
    exact ⟨first, posted, by rw [accepted, sends, stream], begins⟩

/-- A chain of two packets sent with room for three, read back by a queue nobody empties. -/
theorem framing_roundtrip_chain_of_two :
    let p : FepPacket := ⟨0x13, 0x05, 0xF9, 0x00, 0xFE, 0x00⟩
    let mem : Addr → PacketCell := fun a => ⟨p, if a = 0 then some 1 else none⟩
    let sends := irqSends (Uart.reset true)
      (breakEvent :: (rs485SendPacket mem (some 0) 3).filterMap BusOp.irq)
    ∃ first posted,
      ((Fifo.empty : Fifo FepPacket fepQueueBufferSize).run (sends.map some)).2.accepted =
        first :: posted ∧ posted.length = 2 ∧ posted.map FepPacket.frame = [p.frame, p.frame] := by
  intro p mem sends
  exact (framing_roundtrip (Uart.reset true) rfl Fifo.empty (sends.map some) (by decide)).1
    mem (some 0) [p, p] 3 (.link (.link .null)) (by decide)

end FepMaster

import FepMaster.EthernetReceive

/-!
# The receive descriptors

The descriptors that the DMA has closed and not got back are a queue of segments
(`EthRx.received`): the DMA adds the next segment of the arriving frame at the back
(`Ready.close_middle`, `Ready.close_last`), and the descriptor at the front is given back first
(`Ready.giveBack`).
-/

namespace FepMaster

open Transition Register Ring Memory Chunk

/-- What is read through one descriptor: the length is that of the whole frame, in its last
segment. -/
structure RxSegment where
  first : Bool
  last : Bool
  length : Nat
  bytes : List UInt8
  deriving DecidableEq

/-- Segment `i` of a frame. -/
def rxSegmentOf (frame : List UInt8) (i : Nat) : RxSegment where
  first := i == 0
  last := i + 1 == count ethRxBufSize frame.length
  length := if i + 1 = count ethRxBufSize frame.length then frame.length else 0
  bytes := chunk ethRxBufSize frame i

/-- A frame cut into segments. -/
def rxSegments (frame : List UInt8) : List RxSegment :=
  (List.range (count ethRxBufSize frame.length)).map (rxSegmentOf frame)

theorem rxSegments_length (frame : List UInt8) :
    (rxSegments frame).length = count ethRxBufSize frame.length := by
  rw [rxSegments, List.length_map, List.length_range]

theorem drop_rxSegments {frame : List UInt8} {i : Nat}
    (below : i < count ethRxBufSize frame.length) :
    (rxSegments frame).drop i = rxSegmentOf frame i :: (rxSegments frame).drop (i + 1) := by
  have inside : i < (rxSegments frame).length := by rwa [rxSegments_length]
  rw [List.drop_eq_getElem_cons inside]
  simp [rxSegments]

theorem rxSegments_getElem? {frame : List UInt8} {i : Nat}
    (below : i < count ethRxBufSize frame.length) :
    (rxSegments frame)[i]? = some (rxSegmentOf frame i) := by
  simp [rxSegments, below]

/-- A frame ends with its last segment. -/
theorem rest_eq_nil {f g : List UInt8} {k i : Nat} {rest : List RxSegment}
    (below : k < count ethRxBufSize f.length)
    (same : (rxSegments f).drop k ++ rest = (rxSegments g).drop i) : rest = [] := by
  have length := congrArg List.length same
  rw [List.length_append, List.length_drop, List.length_drop, rxSegments_length,
    rxSegments_length] at length
  obtain ⟨more, total⟩ := Nat.exists_eq_add_of_lt below
  -- The last segment of `f` is the last one of `g`.
  have last := congrArg (fun l => l[more]?) same
  rw [List.getElem?_append_left (by rw [List.length_drop, rxSegments_length]; omega),
    List.getElem?_drop, List.getElem?_drop, rxSegments_getElem? (by omega),
    rxSegments_getElem? (by omega), Option.some.injEq] at last
  have marks := congrArg RxSegment.last last
  have end_ : k + more + 1 = count ethRxBufSize f.length := total.symm
  unfold rxSegmentOf at marks
  rw [beq_iff_eq.mpr end_, eq_comm, beq_iff_eq] at marks
  apply List.eq_nil_of_length_eq_zero
  omega

namespace EthRx

/-- The segment in a descriptor. -/
def segment (s : EthRx) (d : Fin ethRxBufNb) : RxSegment :=
  let status := (s.dmaRxDscrTab d).status
  let last := isSet ethDmaRxDescLs status
  let length := (frameLength status).toNat
  { first := isSet ethDmaRxDescFs status
    last := last
    length := if last then length else 0
    bytes := read (s.rxBuff (s.dmaRxDscrTab d).buffer1Addr) 0
      (if last then length - (count ethRxBufSize length - 1) * ethRxBufSize else ethRxBufSize) }

/-- What was received through a descriptor and not given back. -/
def received (s : EthRx) (d : Fin ethRxBufNb) : Option RxSegment :=
  if s.owned d then none else some (s.segment d)

variable {s s' : EthRx} {d : Fin ethRxBufNb}

theorem received_eq_none : s.received d = none ↔ s.owned d = true := by
  unfold received
  cases s.owned d <;> simp

/-- What the code reads of a descriptor with this segment. -/
theorem status_of_segment {frame : List UInt8} {i : Nat}
    (same : s.segment d = rxSegmentOf frame i) :
    isSet ethDmaRxDescFs (s.dmaRxDscrTab d).status = (i == 0) ∧
      isSet ethDmaRxDescLs (s.dmaRxDscrTab d).status =
        (i + 1 == count ethRxBufSize frame.length) ∧
      (i + 1 = count ethRxBufSize frame.length →
        (frameLength (s.dmaRxDscrTab d).status).toNat = frame.length) := by
  have last := congrArg RxSegment.last same
  refine ⟨congrArg RxSegment.first same, last, fun end_ => ?_⟩
  have length := congrArg RxSegment.length same
  unfold segment rxSegmentOf at last length
  dsimp only at last length
  rw [beq_iff_eq.mpr end_] at last
  rw [last, if_pos rfl, if_pos end_] at length
  exact length

/-- What is in its buffer. -/
theorem read_of_segment {frame : List UInt8} {i : Nat} (chained : Chained s.dmaRxDscrTab)
    (same : s.segment d = rxSegmentOf frame i) :
    read (s.rxBuff d) 0 (chunk ethRxBufSize frame i).length = chunk ethRxBufSize frame i := by
  have bytes := congrArg RxSegment.bytes same
  unfold segment rxSegmentOf at bytes
  dsimp only at bytes
  rw [(chained d).1] at bytes
  have length := congrArg List.length bytes
  rw [read_length] at length
  rw [← length]
  exact bytes

/-- A write to one descriptor and its buffer. -/
theorem received_update {desc : EthDmaDesc ethRxBufNb} (buffer : Nat → UInt8)
    (chained : Chained s.dmaRxDscrTab)
    (table : s'.dmaRxDscrTab = Function.update s.dmaRxDscrTab d desc)
    (buffers : s'.rxBuff = Function.update s.rxBuff d buffer) :
    s'.received = Function.update s.received d (s'.received d) := by
  funext e
  by_cases same : e = d
  · rw [same, Function.update_self]
  · rw [Function.update_of_ne same]
    unfold received owned segment
    rw [table, buffers, Function.update_of_ne same, (chained e).1, Function.update_of_ne same]

/-! ## Status words -/

/-- A bit that the DMA determines. -/
theorem isSet_closed {bit bits mask : Word} (flags : Word) (covers : ~~~mask &&& bit = 0#32) :
    isSet bit (bits ||| (flags &&& ~~~mask)) = isSet bit bits := by
  rw [isSet_or, isSet_and flags covers, Bool.or_false]

theorem isSet_firstBit (i : Nat) :
    isSet ethDmaRxDescOwn (firstBit i) = false ∧ isSet ethDmaRxDescLs (firstBit i) = false ∧
      isSet ethDmaRxDescFs (firstBit i) = (i == 0) := by
  unfold firstBit
  cases i with
  | zero => decide
  | succ i =>
      rw [if_neg (Nat.succ_ne_zero i)]
      refine ⟨by decide, by decide, ?_⟩
      simp [isSet]

theorem lengthField_and {bit : Word} (length : Nat) (apart : ethDmaRxDescFl &&& bit = 0#32) :
    isSet bit (lengthField length) = false := isSet_and _ apart

/-- The length is read back. -/
theorem frameLength_last {length : Nat} (small : length < 16384) (i : Nat) (flags : Word) :
    (frameLength ((firstBit i ||| ethDmaRxDescLs ||| lengthField length) |||
      (flags &&& ~~~(segmentBits ||| ethDmaRxDescFl)))).toNat = length := by
  have first : firstBit i &&& ethDmaRxDescFl = 0#32 := by
    unfold firstBit
    split <;> decide
  have last : ethDmaRxDescLs &&& ethDmaRxDescFl = 0#32 := by decide
  have others : ~~~(segmentBits ||| ethDmaRxDescFl) &&& ethDmaRxDescFl = 0#32 := by decide
  unfold frameLength
  rw [BitVec.and_or_distrib_right, BitVec.and_or_distrib_right, BitVec.and_or_distrib_right,
    BitVec.and_assoc flags, others, first, last]
  unfold lengthField
  rw [BitVec.and_assoc, BitVec.and_self, BitVec.and_zero, BitVec.or_zero, BitVec.or_zero,
    BitVec.zero_or, BitVec.toNat_ushiftRight, BitVec.toNat_and, BitVec.toNat_shiftLeft,
    BitVec.toNat_ofNat, Nat.mod_eq_of_lt (by omega : length < 2 ^ 32)]
  have field : ethDmaRxDescFl.toNat = (2 ^ 14 - 1) <<< ethDmaRxDescFrameLengthShift := by decide
  have inside : length <<< ethDmaRxDescFrameLengthShift < 2 ^ 32 := by
    rw [Nat.shiftLeft_eq, ethDmaRxDescFrameLengthShift]
    omega
  rw [Nat.mod_eq_of_lt inside, field, ← Nat.shiftLeft_and_distrib, Nat.shiftLeft_shiftRight,
    Nat.and_two_pow_sub_one_eq_mod, Nat.mod_eq_of_lt small]

/-! ## The DMA closes a descriptor -/

theorem close_table (s : EthRx) (frame : List UInt8) (i : Nat) (bits mask flags : Word) :
    (s.close frame i bits mask flags).dmaRxDscrTab = Function.update s.dmaRxDscrTab s.dma
      { s.dmaRxDscrTab s.dma with status := bits ||| (flags &&& ~~~mask) } := rfl

theorem close_rxBuff (chained : Chained s.dmaRxDscrTab) (frame : List UInt8) (i : Nat)
    (bits mask flags : Word) : (s.close frame i bits mask flags).rxBuff =
      Function.update s.rxBuff s.dma
        (write (s.rxBuff s.dma) 0 (chunk ethRxBufSize frame i)) := by
  dsimp only [close]
  rw [(chained s.dma).1]

/-- The ring with `queue` closed from position `tail` on. -/
structure Ready (s : EthRx) (tail : Nat) (queue : List RxSegment) : Prop where
  chained : Chained s.dmaRxDscrTab
  dma : s.dma = slot ethRxBufNb (tail + queue.length)
  queue : Queue s.received tail queue

variable {tail : Nat} {queue : List RxSegment} {frame : List UInt8} {i : Nat}

theorem Ready.keep (ready : s.Ready tail queue) (table : s'.dmaRxDscrTab = s.dmaRxDscrTab)
    (buffers : s'.rxBuff = s.rxBuff) (dma : s'.dma = s.dma) : s'.Ready tail queue := by
  have same : s'.received = s.received := by
    funext d
    unfold received owned segment
    rw [table, buffers]
  exact ⟨table ▸ ready.chained, dma.trans ready.dma, same ▸ ready.queue⟩

/-- The ring is not full if the DMA owns the descriptor it is at. -/
theorem Ready.room (ready : s.Ready tail queue) (owned : s.owned s.dma = true) :
    queue.length < ethRxBufNb := by
  by_contra full
  have same : queue.length = ethRxBufNb := Nat.le_antisymm ready.queue.room (Nat.not_lt.mp full)
  have front := ready.queue.front
  rw [ready.dma, same, slot_add_size] at owned
  rw [received_eq_none.mpr owned] at front
  rw [List.head?_eq_none_iff.mp front.symm] at same
  cases same

/-- Otherwise it is. -/
theorem Ready.full (ready : s.Ready tail queue) (closed : s.owned s.dma = false) :
    queue.length = ethRxBufNb := by
  by_contra room
  have below := Nat.lt_of_le_of_ne ready.queue.room room
  have back := ready.queue.back below
  rw [← ready.dma, received_eq_none, closed] at back
  cases back

/-- A closed descriptor with this segment in it. -/
theorem Ready.close (ready : s.Ready tail queue) (owned : s.owned s.dma = true)
    {bits mask flags : Word}
    (own : isSet ethDmaRxDescOwn (bits ||| (flags &&& ~~~mask)) = false)
    (segment : (s.close frame i bits mask flags).segment s.dma = rxSegmentOf frame i) :
    (s.close frame i bits mask flags).Ready tail (queue ++ [rxSegmentOf frame i]) := by
  have closed : (s.close frame i bits mask flags).received s.dma = some (rxSegmentOf frame i) := by
    unfold received EthRx.owned
    rw [close_table, Function.update_self, own, segment, if_neg Bool.false_ne_true]
  refine ⟨ready.chained.update s.dma _ _, ?_, ?_⟩
  · rw [List.length_append, ← Nat.add_assoc]
    exact (congrArg (fun d => (s.dmaRxDscrTab d).buffer2NextDescAddr) ready.dma).trans
      (ready.chained.next _)
  · rw [received_update _ ready.chained (close_table ..) (close_rxBuff ready.chained ..), closed,
      ready.dma]
    exact ready.queue.push (ready.room owned) _

theorem segment_close (chained : Chained s.dmaRxDscrTab) (frame : List UInt8) (i : Nat)
    (bits mask flags : Word) {first last : Bool} (length : Nat)
    (isFirst : isSet ethDmaRxDescFs (bits ||| (flags &&& ~~~mask)) = first)
    (isLast : isSet ethDmaRxDescLs (bits ||| (flags &&& ~~~mask)) = last)
    (total : last = true → (frameLength (bits ||| (flags &&& ~~~mask))).toNat = length)
    (whole : (chunk ethRxBufSize frame i).length =
      if last then length - (count ethRxBufSize length - 1) * ethRxBufSize else ethRxBufSize) :
    (s.close frame i bits mask flags).segment s.dma =
      ⟨first, last, if last then length else 0, chunk ethRxBufSize frame i⟩ := by
  unfold segment
  rw [close_table, close_rxBuff chained, Function.update_self]
  dsimp only
  have written := read_write (s.rxBuff s.dma) 0 (chunk ethRxBufSize frame i)
  rw [whole] at written
  rw [isFirst, isLast, (chained s.dma).1, Function.update_self]
  cases last with
  | false =>
      rw [if_neg Bool.false_ne_true] at written
      rw [if_neg Bool.false_ne_true, if_neg Bool.false_ne_true, if_neg Bool.false_ne_true, written]
  | true =>
      rw [if_pos rfl] at written
      rw [if_pos rfl, if_pos rfl, if_pos rfl, total rfl, written]

/-- The DMA closes a segment that is not the last. -/
theorem Ready.close_middle (ready : s.Ready tail queue) (owned : s.owned s.dma = true)
    (more : i + 1 < count ethRxBufSize frame.length) (flags : Word) :
    (s.close frame i (firstBit i) segmentBits flags).Ready tail
      (queue ++ [rxSegmentOf frame i]) := by
  obtain ⟨own, last, first⟩ := isSet_firstBit i
  refine ready.close owned ((isSet_closed flags (by decide)).trans own) ?_
  have isLast : (i + 1 == count ethRxBufSize frame.length) = false := by
    rw [beq_eq_false_iff_ne]
    omega
  unfold rxSegmentOf
  rw [isLast, if_neg more.ne]
  refine segment_close ready.chained frame i _ _ flags 0
    ((isSet_closed flags (by decide)).trans first) ((isSet_closed flags (by decide)).trans last)
    (by simp) ?_
  have bounds := (count_bounds (m := ethRxBufSize) (by decide) frame.length).2 i more
  rw [chunk_length, if_neg Bool.false_ne_true]
  rw [Nat.succ_mul] at bounds
  omega

/-- It closes the last one. -/
theorem Ready.close_last (ready : s.Ready tail queue) (owned : s.owned s.dma = true)
    (end_ : i + 1 = count ethRxBufSize frame.length) (small : frame.length < 16384)
    (flags : Word) :
    (s.close frame i (firstBit i ||| ethDmaRxDescLs ||| lengthField frame.length)
      (segmentBits ||| ethDmaRxDescFl) flags).Ready tail (queue ++ [rxSegmentOf frame i]) := by
  obtain ⟨own, last, first⟩ := isSet_firstBit i
  have bits (bit : Word) (apart : ethDmaRxDescFl &&& bit = 0#32) :
      isSet bit (firstBit i ||| ethDmaRxDescLs ||| lengthField frame.length) =
        (isSet bit (firstBit i) || isSet bit ethDmaRxDescLs) := by
    rw [isSet_or, isSet_or, lengthField_and _ apart, Bool.or_false]
  have noOwn : isSet ethDmaRxDescOwn ethDmaRxDescLs = false := by decide
  have noFirst : isSet ethDmaRxDescFs ethDmaRxDescLs = false := by decide
  have marked : isSet ethDmaRxDescLs ethDmaRxDescLs = true := by decide
  have isLast : (i + 1 == count ethRxBufSize frame.length) = true := by
    rw [beq_iff_eq, end_]
  have bounds := (count_bounds (m := ethRxBufSize) (by decide) frame.length).1
  refine ready.close owned ?_ ?_
  · rw [isSet_closed flags (by decide), bits _ (by decide), own, noOwn]
    rfl
  · unfold rxSegmentOf
    rw [isLast, if_pos end_]
    refine segment_close ready.chained frame i _ _ flags _ ?_ ?_
      (fun _ => frameLength_last small i flags) ?_
    · rw [isSet_closed flags (by decide), bits _ (by decide), first, noFirst, Bool.or_false]
    · rw [isSet_closed flags (by decide), bits _ (by decide), last, marked]
      rfl
    · rw [if_pos rfl, chunk_length]
      rw [← end_, Nat.succ_mul] at bounds
      rw [← end_, Nat.add_sub_cancel]
      omega

/-! ## A descriptor is given back -/

/-- The descriptor at the front belongs to the DMA again. -/
theorem Ready.giveBack {segment : RxSegment} (ready : s.Ready tail (segment :: queue))
    (table : s'.dmaRxDscrTab = Function.update s.dmaRxDscrTab (slot ethRxBufNb tail)
      { s.dmaRxDscrTab (slot ethRxBufNb tail) with status := ethDmaRxDescOwn })
    (buffers : s'.rxBuff = s.rxBuff) (same : s'.dma = s.dma) : s'.Ready (tail + 1) queue := by
  have vacant : s'.received (slot ethRxBufNb tail) = none := by
    rw [received_eq_none]
    unfold owned
    rw [table, Function.update_self]
    show isSet ethDmaRxDescOwn ethDmaRxDescOwn = true
    decide
  refine ⟨?_, ?_, ?_⟩
  · rw [table]
    exact ready.chained.update _ _ _
  · rw [same, ready.dma, List.length_cons]
    congr 1
    omega
  · have changed := received_update (s := s) (s.rxBuff (slot ethRxBufNb tail)) ready.chained
      table (by rw [buffers, Function.update_eq_self])
    rw [changed, vacant]
    exact ready.queue.pop

end EthRx

end FepMaster

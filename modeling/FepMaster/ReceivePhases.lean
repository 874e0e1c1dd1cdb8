import FepMaster.ReceiveOutcomes

/-!
# The phases of a reception

What holds at each place of the task, of the descriptors from position `tail` on: those of the
frames `held`, then those of the frames `pending`, of which the DMA has closed the descriptors in
`queue`.
-/

namespace FepMaster

open Transition Register Ring Memory Chunk

namespace EthRx

/-- The segments of the arriving frame that are still to come. -/
def unclosed (s : EthRx) : List RxSegment :=
  match s.incoming with
  | none => []
  | some (frame, i) => (rxSegments frame).drop i

/-- Between two frames, or within one of which `k` segments have been seen. -/
structure Scanning (s : EthRx) (tail : Nat) (queue : List RxSegment) (held : Nat)
    (pending : List (List UInt8)) (k : Nat) : Prop where
  segCount : s.segCount = held + k
  toGet : s.dmaRxDescToGet = slot ethRxBufNb (tail + (held + k))
  first : 0 < held + k → s.fsRxDesc = some (slot ethRxBufNb tail)
  within : held + k ≤ queue.length
  part : ∀ f more, pending = f :: more → k < count ethRxBufSize f.length
  whole : pending = [] → k = 0

/-- A frame was found, and `i` of the descriptors counted have been given back. -/
structure Found (s : EthRx) (tail : Nat) (queue : List RxSegment) (held : Nat)
    (frame : List UInt8) (i : Nat) : Prop where
  segCount : s.segCount = held + count ethRxBufSize frame.length
  toGet : s.dmaRxDescToGet = slot ethRxBufNb (tail + (s.segCount - i))
  begun : i ≤ s.segCount
  within : s.segCount - i ≤ queue.length

/-- The copy stands at descriptor `c`, with `out` copied and these numbers of bytes left. -/
structure Copying (rxBuff : Fin ethRxBufNb → Nat → UInt8) (tail : Nat) (frame out : List UInt8)
    (left : Nat) (q : List Nat) (l : RxLocals) (c : Nat) : Prop where
  descriptor : l.descriptor = slot ethRxBufNb tail
  desc : l.dmaRxDesc = slot ethRxBufNb (tail + c)
  buffer : l.buffer = slot ethRxBufNb (tail + c)
  within : l.bufferoffset ≤ ethRxBufSize
  length : out.length = c * ethRxBufSize + l.bufferoffset
  total : out.length + (left + q.sum) = frame.length - 4
  stored : Stored ethRxBufSize rxBuff tail out (c + 1)

theorem Scanning.keep {s s' : EthRx} {tail : Nat} {queue : List RxSegment} {held : Nat}
    {pending : List (List UInt8)} {k : Nat} (scanning : s.Scanning tail queue held pending k)
    (segCount : s'.segCount = s.segCount) (toGet : s'.dmaRxDescToGet = s.dmaRxDescToGet)
    (first : s'.fsRxDesc = s.fsRxDesc) : s'.Scanning tail queue held pending k :=
  ⟨segCount.trans scanning.segCount, toGet.trans scanning.toGet,
    fun some_ => first.trans (scanning.first some_), scanning.within, scanning.part, scanning.whole⟩

theorem Found.keep {s s' : EthRx} {tail : Nat} {queue : List RxSegment} {held : Nat}
    {frame : List UInt8} {i : Nat} (found : s.Found tail queue held frame i)
    (segCount : s'.segCount = s.segCount) (toGet : s'.dmaRxDescToGet = s.dmaRxDescToGet) :
    s'.Found tail queue held frame i :=
  ⟨segCount.trans found.segCount, toGet.trans (segCount ▸ found.toGet), segCount ▸ found.begun,
    segCount ▸ found.within⟩

/-- What holds at a place, with `released` descriptors already given back. -/
def Phase (s : EthRx) (tail : Nat) (queue : List RxSegment) (held pending : List (List UInt8))
    (released : Nat) : RxPc → Prop
  | .wait => released = 0 ∧ ∃ k, s.Scanning tail queue held.length pending k
  | .scan counter => released = 0 ∧ ∃ k, s.Scanning tail queue held.length pending k ∧ counter ≤ k
  | .input _ => released = 0 ∧ ∃ k, s.Scanning tail queue held.length pending k
  | .resume none => released = 0 ∧ ∃ k, s.Scanning tail queue held.length pending k
  | .alloc length buffer descriptor =>
      released = 0 ∧ ∃ f more, pending = f :: more ∧ s.Found tail queue held.length f 0 ∧
        length.toNat = f.length - 4 ∧ buffer = slot ethRxBufNb tail ∧
        descriptor = slot ethRxBufNb tail ∧ s.fsRxDesc = some (slot ethRxBufNb tail)
  | .copy left payload q p l =>
      released = 0 ∧ ∃ f more, pending = f :: more ∧ s.Found tail queue held.length f 0 ∧
        ∃ c, Copying s.rxBuff tail f (p.flatten ++ payload) left q l c
  | .release i d p =>
      released = i ∧ ∃ f more, pending = f :: more ∧ s.Found tail queue held.length f i ∧
        d = slot ethRxBufNb tail ∧ Returned held.head? f p.flatten
  | .resume (some p) =>
      ∃ f more, pending = f :: more ∧ released = held.length + count ethRxBufSize f.length ∧
        s.segCount = 0 ∧ s.dmaRxDescToGet = slot ethRxBufNb tail ∧
        Returned held.head? f p.flatten

/-- The frames, those handled with their results, and the segments of the rest. -/
structure Flow (short : Bool) (s : EthRx) (h : RxLog) (tail : Nat) (queue : List RxSegment)
    (held pending : List (List UInt8)) (released : Nat) : Prop where
  ready : s.Ready tail queue
  closed : ((held ++ pending).flatMap rxSegments).drop released = queue ++ s.unclosed
  handled : ∃ done, h.frames = done ++ pending ∧ done.length = h.results.length ∧
    Faithful (done.zip h.results) ∧ heldFrames (done.zip h.results) = held
  valid : ∀ f ∈ h.frames, 4 < f.length ∧ f.length ≤ ethRxBufNb * ethRxBufSize ∧
    (short = true → f.length ≤ ethRxBufSize)
  brief : held = [] ∨ short = true
  few : held.length < ethRxBufNb
  past : ∀ f ∈ held, f ∈ h.frames
  incoming : ∀ f i, s.incoming = some (f, i) →
    f ∈ h.frames ∧ i < count ethRxBufSize f.length ∧ s.owned s.dma = true

variable {short : Bool} {s s' : EthRx} {h : RxLog} {tail : Nat} {queue : List RxSegment}
  {held pending : List (List UInt8)} {released : Nat}

theorem Flow.held_short (flow : s.Flow short h tail queue held pending released) :
    ∀ f ∈ held, f.length ≤ ethRxBufSize := by
  intro f member
  rcases flow.brief with rfl | yes
  · cases member
  · exact (flow.valid f (flow.past f member)).2.2 yes

theorem Flow.pending_valid (flow : s.Flow short h tail queue held pending released)
    {f : List UInt8} (member : f ∈ pending) :
    4 < f.length ∧ f.length ≤ ethRxBufNb * ethRxBufSize ∧
      (short = true → f.length ≤ ethRxBufSize) := by
  obtain ⟨done, frames, -⟩ := flow.handled
  exact flow.valid f (frames ▸ List.mem_append_right _ member)

/-- The frames held have one segment each, those that follow are whole. -/
theorem Flow.length_held (flow : s.Flow short h tail queue held pending released) :
    (held.flatMap rxSegments).length = held.length :=
  length_flatMap_of_short flow.held_short

/-- A frame in the ring has few segments; one alone if frames are held. -/
theorem Flow.count_le (flow : s.Flow short h tail queue held pending released)
    {f : List UInt8} (member : f ∈ pending) :
    held.length + count ethRxBufSize f.length ≤ ethRxBufNb := by
  obtain ⟨-, small, fits⟩ := flow.pending_valid member
  rcases flow.brief with rfl | yes
  · have most : count ethRxBufSize f.length ≤ 5 := by
      change _ ≤ 5 * _ at small
      unfold count
      rw [ethRxBufSize_eq] at small ⊢
      omega
    rw [List.length_nil, Nat.zero_add]
    exact most
  · rw [count_of_short (fits yes)]
    exact flow.few

/-- A segment of the first pending frame, counted from the front of the ring. -/
theorem Flow.segment (flow : s.Flow short h tail queue held pending 0) {f : List UInt8}
    {more : List (List UInt8)} (first : pending = f :: more) {k : Nat}
    (below : k < count ethRxBufSize f.length) (inside : held.length + k < queue.length) :
    s.segment (slot ethRxBufNb (tail + (held.length + k))) = rxSegmentOf f k := by
  have closed := flow.closed
  have room := flow.ready.queue.room
  have cell := flow.ready.queue.cell (held.length + k) (by omega)
  have value : queue[held.length + k]? = some (rxSegmentOf f k) := by
    have whole := congrArg (fun l => l[held.length + k]?) closed
    rw [List.drop_zero, List.getElem?_append_left inside, List.flatMap_append,
      List.getElem?_append_right (by rw [flow.length_held]; omega), flow.length_held,
      Nat.add_sub_cancel_left, first, List.flatMap_cons,
      List.getElem?_append_left (by rwa [rxSegments_length])] at whole
    rw [← whole, rxSegments_getElem? below]
  rw [value] at cell
  unfold received at cell
  split_ifs at cell
  exact Option.some.inj cell

/-- The segment at the front, if a frame is held. -/
theorem Flow.oldest (flow : s.Flow short h tail queue held pending 0) {o : List UInt8}
    {rest : List (List UInt8)} (first : held = o :: rest) (inside : 0 < queue.length) :
    s.segment (slot ethRxBufNb tail) = rxSegmentOf o 0 := by
  have front := flow.ready.queue.front
  have value : queue.head? = some (rxSegmentOf o 0) := by
    have whole := congrArg (fun l => l[0]?) flow.closed
    rw [List.drop_zero, List.getElem?_append_left inside, first, List.cons_append,
      List.flatMap_cons, List.getElem?_append_left (by rw [rxSegments_length]; exact Nat.succ_pos _),
      rxSegments_getElem? (Nat.succ_pos _)] at whole
    rw [List.head?_eq_getElem?]
    exact whole.symm
  rw [value] at front
  unfold received at front
  split_ifs at front
  exact Option.some.inj front

/-! ## The DMA -/

/-- The copy is within the segments of the frame. -/
theorem Copying.below {rxBuff : Fin ethRxBufNb → Nat → UInt8} {f out : List UInt8} {left c : Nat}
    {q : List Nat} {l : RxLocals} (copying : Copying rxBuff tail f out left q l c) :
    c < count ethRxBufSize f.length := by
  have length := copying.length
  have total := copying.total
  unfold count
  rw [ethRxBufSize_eq] at *
  omega

/-- What the DMA does behind the ring does not change what holds of the task. -/
theorem Phase.later {pc : RxPc} (phase : s.Phase tail queue held pending released pc)
    (segCount : s'.segCount = s.segCount) (toGet : s'.dmaRxDescToGet = s.dmaRxDescToGet)
    (first : s'.fsRxDesc = s.fsRxDesc)
    (buffers : ∀ c < queue.length,
      s'.rxBuff (slot ethRxBufNb (tail + c)) = s.rxBuff (slot ethRxBufNb (tail + c)))
    (behind : List RxSegment) (arrived : List (List UInt8)) :
    s'.Phase tail (queue ++ behind) held (pending ++ arrived) released pc := by
  have longer : queue.length ≤ (queue ++ behind).length := by
    rw [List.length_append]
    omega
  have scanning {k : Nat} (scanning : s.Scanning tail queue held.length pending k) :
      s'.Scanning tail (queue ++ behind) held.length (pending ++ arrived) k := by
    refine ⟨segCount.trans scanning.segCount, toGet.trans scanning.toGet,
      fun some_ => first.trans (scanning.first some_), scanning.within.trans longer, ?_, ?_⟩
    · intro f more same
      cases pending with
      | nil =>
          rw [scanning.whole rfl]
          exact Nat.succ_pos _
      | cons g rest =>
          obtain ⟨rfl, -⟩ := List.cons_eq_cons.mp same
          exact scanning.part g rest rfl
    · exact fun none_ => scanning.whole (List.append_eq_nil_iff.mp none_).1
  have found {f : List UInt8} {i : Nat} (found : s.Found tail queue held.length f i) :
      s'.Found tail (queue ++ behind) held.length f i := by
    refine ⟨segCount.trans found.segCount, ?_, ?_, ?_⟩
    · rw [toGet, segCount]
      exact found.toGet
    · rw [segCount]
      exact found.begun
    · rw [segCount]
      exact found.within.trans longer
  cases pc with
  | wait =>
      obtain ⟨none_, k, position⟩ := phase
      exact ⟨none_, k, scanning position⟩
  | scan counter =>
      obtain ⟨none_, k, position, seen⟩ := phase
      exact ⟨none_, k, scanning position, seen⟩
  | input p =>
      obtain ⟨none_, k, position⟩ := phase
      exact ⟨none_, k, scanning position⟩
  | alloc length buffer descriptor =>
      obtain ⟨none_, f, more, rfl, position, total, start, desc, fs⟩ := phase
      exact ⟨none_, f, more ++ arrived, rfl, found position, total, start, desc, first.trans fs⟩
  | copy left payload q p l =>
      obtain ⟨none_, f, more, rfl, position, c, copying⟩ := phase
      have below := copying.below
      have within := position.within
      rw [position.segCount] at within
      refine ⟨none_, f, more ++ arrived, rfl, found position, c, copying.descriptor, copying.desc,
        copying.buffer, copying.within, copying.length, copying.total, ?_⟩
      intro j small
      rw [buffers j (by omega)]
      exact copying.stored j small
  | release i d p =>
      obtain ⟨some_, f, more, rfl, position, desc, returned⟩ := phase
      exact ⟨some_, f, more ++ arrived, rfl, found position, desc, returned⟩
  | resume p =>
      cases p with
      | none =>
          obtain ⟨none_, k, position⟩ := phase
          exact ⟨none_, k, scanning position⟩
      | some p =>
          obtain ⟨f, more, rfl, some_, counted, get, returned⟩ := phase
          exact ⟨f, more ++ arrived, rfl, some_, segCount.trans counted, toGet.trans get, returned⟩

theorem Phase.keep {pc : RxPc} (phase : s.Phase tail queue held pending released pc)
    (segCount : s'.segCount = s.segCount) (toGet : s'.dmaRxDescToGet = s.dmaRxDescToGet)
    (first : s'.fsRxDesc = s.fsRxDesc) (buffers : s'.rxBuff = s.rxBuff) :
    s'.Phase tail queue held pending released pc := by
  have later := phase.later segCount toGet first (fun c _ => by rw [buffers]) [] []
  rw [List.append_nil, List.append_nil] at later
  exact later

/-- A step that leaves the descriptors alone. -/
theorem Flow.keep (flow : s.Flow short h tail queue held pending released)
    (table : s'.dmaRxDscrTab = s.dmaRxDscrTab) (buffers : s'.rxBuff = s.rxBuff)
    (dma : s'.dma = s.dma) (incoming : s'.incoming = s.incoming) :
    s'.Flow short h tail queue held pending released where
  ready := flow.ready.keep table buffers dma
  closed := by
    unfold unclosed
    rw [incoming]
    exact flow.closed
  handled := flow.handled
  valid := flow.valid
  brief := flow.brief
  few := flow.few
  past := flow.past
  incoming := by
    unfold owned
    rw [incoming, table, dma]
    exact flow.incoming

/-- The segment that the DMA closes next. -/
theorem Flow.unclosed_eq (flow : s.Flow short h tail queue held pending released)
    {f : List UInt8} {i : Nat} (arriving : s.incoming = some (f, i)) :
    s.unclosed = rxSegmentOf f i :: (rxSegments f).drop (i + 1) := by
  unfold unclosed
  rw [arriving]
  exact drop_rxSegments (flow.incoming f i arriving).2.1

/-- The DMA closes the last segment of the frame. -/
theorem Flow.close_last (flow : s.Flow short h tail queue held pending released)
    {f : List UInt8} {i : Nat} (arriving : s.incoming = some (f, i))
    (last : i + 1 = count ethRxBufSize f.length) {flags : Word}
    (table : s'.dmaRxDscrTab = (s.close f i
      (firstBit i ||| ethDmaRxDescLs ||| lengthField f.length)
      (segmentBits ||| ethDmaRxDescFl) flags).dmaRxDscrTab)
    (buffers : s'.rxBuff = (s.close f i (firstBit i ||| ethDmaRxDescLs ||| lengthField f.length)
      (segmentBits ||| ethDmaRxDescFl) flags).rxBuff)
    (dma : s'.dma = (s.dmaRxDscrTab s.dma).buffer2NextDescAddr) (done : s'.incoming = none) :
    s'.Flow short h tail (queue ++ [rxSegmentOf f i]) held pending released := by
  obtain ⟨member, -, owned⟩ := flow.incoming f i arriving
  have small : f.length < 16384 := (flow.valid f member).2.1.trans_lt (by decide)
  refine ⟨(flow.ready.close_last owned last small flags).keep table buffers dma, ?_, flow.handled,
    flow.valid, flow.brief, flow.few, flow.past, ?_⟩
  · have none_left : (rxSegments f).drop (i + 1) = [] := by
      rw [List.drop_eq_nil_iff, rxSegments_length, last]
    rw [flow.closed, flow.unclosed_eq arriving, none_left]
    unfold unclosed
    rw [done, List.append_nil]
  · rw [done]
    simp

/-- It closes another segment and owns the next descriptor. -/
theorem Flow.close_middle (flow : s.Flow short h tail queue held pending released)
    {f : List UInt8} {i : Nat} (arriving : s.incoming = some (f, i))
    (more : i + 1 ≠ count ethRxBufSize f.length) (next : s.truncates = false) {flags : Word}
    (table : s'.dmaRxDscrTab = (s.close f i (firstBit i) segmentBits flags).dmaRxDscrTab)
    (buffers : s'.rxBuff = (s.close f i (firstBit i) segmentBits flags).rxBuff)
    (dma : s'.dma = (s.dmaRxDscrTab s.dma).buffer2NextDescAddr)
    (goesOn : s'.incoming = some (f, i + 1)) :
    s'.Flow short h tail (queue ++ [rxSegmentOf f i]) held pending released := by
  obtain ⟨member, below, owned⟩ := flow.incoming f i arriving
  have after : i + 1 < count ethRxBufSize f.length := by omega
  refine ⟨(flow.ready.close_middle owned after flags).keep table buffers dma, ?_, flow.handled,
    flow.valid, flow.brief, flow.few, flow.past, ?_⟩
  · rw [flow.closed, flow.unclosed_eq arriving]
    unfold unclosed
    rw [goesOn, List.append_assoc]
    rfl
  · intro g j same
    rw [goesOn] at same
    cases same
    refine ⟨member, after, ?_⟩
    have free : s.owned (s.dmaRxDscrTab s.dma).buffer2NextDescAddr = true := by
      unfold truncates at next
      rw [arriving] at next
      simpa [more] using next
    have place : (s.dmaRxDscrTab s.dma).buffer2NextDescAddr ≠ s.dma := by
      rw [flow.ready.dma, flow.ready.chained.next]
      exact (slot_ne (Nat.lt_succ_self _) (by show _ < _ + 5; omega)).symm
    unfold EthRx.owned at free ⊢
    rw [table, dma, close_table, Function.update_of_ne place]
    exact free

/-- A frame of one buffer is never cut off. -/
theorem Flow.truncates_of_short (flow : s.Flow short h tail queue held pending released)
    (yes : short = true) : s.truncates = false := by
  unfold truncates
  cases arriving : s.incoming with
  | none => rfl
  | some x =>
      obtain ⟨f, i⟩ := x
      obtain ⟨member, below, -⟩ := flow.incoming f i arriving
      have single := count_of_short ((flow.valid f member).2.2 yes)
      have last : i + 1 = count ethRxBufSize f.length := by omega
      simp [last]

theorem Phase.released_le {pc : RxPc} (phase : s.Phase tail queue held pending released pc)
    (single : (held.flatMap rxSegments).length = held.length) :
    released ≤ ((held ++ pending).flatMap rxSegments).length := by
  have some_ {f : List UInt8} {more : List (List UInt8)} (first : pending = f :: more) :
      held.length + count ethRxBufSize f.length ≤
        ((held ++ pending).flatMap rxSegments).length := by
    rw [first, List.flatMap_append, List.flatMap_cons, List.length_append, List.length_append,
      single, rxSegments_length]
    omega
  cases pc with
  | wait => exact phase.1 ▸ Nat.zero_le _
  | scan counter => exact phase.1 ▸ Nat.zero_le _
  | input p => exact phase.1 ▸ Nat.zero_le _
  | alloc length buffer descriptor => exact phase.1 ▸ Nat.zero_le _
  | copy left payload q p l => exact phase.1 ▸ Nat.zero_le _
  | release i d p =>
      obtain ⟨rfl, f, more, first, position, -⟩ := phase
      have begun := position.begun
      rw [position.segCount] at begun
      exact begun.trans (some_ first)
  | resume p =>
      cases p with
      | none => exact phase.1 ▸ Nat.zero_le _
      | some p =>
          obtain ⟨f, more, first, rfl, -⟩ := phase
          exact some_ first

/-- A frame begins to arrive. -/
theorem Flow.wire (flow : s.Flow short h tail queue held pending released)
    (inside : released ≤ ((held ++ pending).flatMap rxSegments).length) {f : List UInt8}
    (idle : s.incoming = none) (owned : s.owned s.dma = true)
    (valid : 4 < f.length ∧ f.length ≤ ethRxBufNb * ethRxBufSize ∧
      (short = true → f.length ≤ ethRxBufSize)) :
    Flow short { s with incoming := some (f, 0) } { h with frames := h.frames ++ [f] } tail queue
      held (pending ++ [f]) released := by
  obtain ⟨done, frames, rest⟩ := flow.handled
  refine ⟨flow.ready.keep rfl rfl rfl, ?_, ⟨done, ?_, rest⟩, ?_, flow.brief, flow.few, ?_, ?_⟩
  · have closed := flow.closed
    unfold unclosed at closed ⊢
    rw [idle, List.append_nil] at closed
    rw [← List.append_assoc, List.flatMap_append, List.drop_append_of_le_length inside, closed]
    simp
  · rw [frames, List.append_assoc]
  · intro g member
    rcases List.mem_append.mp member with before | here
    · exact flow.valid g before
    · rw [List.mem_singleton.mp here]
      exact valid
  · exact fun g member => List.mem_append_left _ (flow.past g member)
  · intro g i same
    cases same
    exact ⟨List.mem_append_right _ List.mem_cons_self, Nat.succ_pos _, owned⟩

end EthRx

end FepMaster

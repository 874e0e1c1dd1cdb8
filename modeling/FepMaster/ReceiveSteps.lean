import FepMaster.ReceivePhases

/-!
# The steps of a reception

Each step of the task between its phases: the scan of the closed descriptors, the frame that fails
or is copied, its descriptors given back, the result.
-/

namespace FepMaster

open Transition Register Ring Memory Chunk

namespace EthRx

/-- What the task changes at the end of a call only. -/
structure SameFlags (s s' : EthRx) : Prop where
  inIsr : s'.inIsr = s.inIsr
  rbus : s'.rbus = s.rbus
  suspended : s'.suspended = s.suspended
  incoming : s'.incoming = s.incoming

theorem sameFlags_pc (s : EthRx) (pc : RxPc) : SameFlags s { s with pc := pc } :=
  ⟨rfl, rfl, rfl, rfl⟩

variable {short : Bool} {s s' : EthRx} {h : RxLog} {tail : Nat} {queue : List RxSegment}
  {held pending : List (List UInt8)} {released k : Nat}

/-! ## The scan -/

/-- The scan is never a whole round ahead. -/
theorem Scanning.small (flow : s.Flow short h tail queue held pending released)
    (scanning : s.Scanning tail queue held.length pending k) : held.length + k < ethRxBufNb := by
  cases pending with
  | nil =>
      rw [scanning.whole rfl]
      exact flow.few
  | cons f more =>
      have part := scanning.part f more rfl
      have most := flow.count_le (f := f) List.mem_cons_self
      omega

/-- A descriptor that the DMA does not own has the next segment. -/
theorem Scanning.segment (flow : s.Flow short h tail queue held pending 0)
    (scanning : s.Scanning tail queue held.length pending k)
    (closed : s.owned s.dmaRxDescToGet = false) :
    ∃ f more, pending = f :: more ∧ held.length + k < queue.length ∧
      s.segment s.dmaRxDescToGet = rxSegmentOf f k := by
  have some_ : s.received s.dmaRxDescToGet ≠ none := by
    rw [ne_eq, received_eq_none, closed]
    exact Bool.false_ne_true
  have inside : held.length + k < queue.length := by
    by_contra behind
    rw [scanning.toGet, flow.ready.queue.cell _ (scanning.small flow),
      List.getElem?_eq_none (Nat.not_lt.mp behind)] at some_
    exact some_ rfl
  cases pending with
  | nil =>
      have closed := congrArg List.length flow.closed
      rw [List.drop_zero, List.append_nil, flow.length_held, List.length_append] at closed
      omega
  | cons f more =>
      refine ⟨f, more, rfl, inside, ?_⟩
      rw [scanning.toGet]
      exact flow.segment rfl (scanning.part f more rfl) inside

/-- The scan ends without a frame only where the DMA has not closed a descriptor. -/
theorem Scanning.drained (flow : s.Flow short h tail queue held pending 0)
    (scanning : s.Scanning tail queue held.length pending k)
    (owned : s.owned s.dmaRxDescToGet = true) :
    pending.length ≤ s.incoming.toList.length := by
  have vacant := received_eq_none.mpr owned
  rw [scanning.toGet, flow.ready.queue.cell _ (scanning.small flow),
    List.getElem?_eq_none_iff] at vacant
  have all_seen : queue.length = held.length + k := Nat.le_antisymm vacant scanning.within
  cases pending with
  | nil => exact Nat.zero_le _
  | cons f more =>
      have part := scanning.part f more rfl
      have rest := congrArg (List.drop (held.length + k)) flow.closed
      rw [List.drop_zero, List.flatMap_append, ← flow.length_held, List.drop_append,
        List.drop_eq_nil_of_le (Nat.le_add_right ..), Nat.add_sub_cancel_left, List.nil_append,
        flow.length_held, ← all_seen, List.drop_left, List.flatMap_cons,
        List.drop_append_of_le_length (by rw [rxSegments_length]; exact part.le)] at rest
      cases arriving : s.incoming with
      | none =>
          unfold unclosed at rest
          rw [arriving, drop_rxSegments part] at rest
          cases rest
      | some x =>
          obtain ⟨g, i⟩ := x
          unfold unclosed at rest
          rw [arriving] at rest
          have none_more := rest_eq_nil part rest
          cases more with
          | nil => exact Nat.le_refl _
          | cons m more =>
              have empty := congrArg List.length (List.append_eq_nil_iff.mp none_more).1
              rw [rxSegments_length] at empty
              exact absurd empty (Nat.succ_ne_zero _)

/-- The last segment is found. -/
theorem Scanning.lastSegment (flow : s.Flow short h tail queue held pending 0)
    (scanning : s.Scanning tail queue held.length pending k) {f : List UInt8}
    {more : List (List UInt8)} (first : pending = f :: more) (last : k + 1 = count ethRxBufSize f.length)
    (length : (frameLength (s.dmaRxDscrTab s.dmaRxDescToGet).status).toNat = f.length) :
    ∃ descriptor size, s.lastSegment = some { s with
        lsRxDesc := some s.dmaRxDescToGet
        segCount := held.length + k + 1
        fsRxDesc := some (slot ethRxBufNb tail)
        dmaRxDescToGet := slot ethRxBufNb (tail + (held.length + k) + 1)
        pc := .alloc size descriptor descriptor } ∧
      descriptor = slot ethRxBufNb tail ∧ size.toNat = f.length - 4 := by
  have next := flow.ready.chained.next (tail + (held.length + k))
  rw [← scanning.toGet] at next
  have small := flow.count_le (f := f) (first ▸ List.mem_cons_self)
  have counted : (s.segCount + 1) % 2 ^ 32 = held.length + k + 1 := by
    rw [scanning.segCount]
    change _ ≤ 5 at small
    exact Nat.mod_eq_of_lt (by omega)
  have descriptor : (if held.length + k + 1 = 1 then some s.dmaRxDescToGet else s.fsRxDesc) =
      some (slot ethRxBufNb tail) := by
    split_ifs with one
    · rw [scanning.toGet]
      congr 2
      omega
    · exact scanning.first (by omega)
  have buffer : (if held.length + k + 1 > 1
      then (s.dmaRxDscrTab (slot ethRxBufNb tail)).buffer1Addr
      else (s.dmaRxDscrTab s.dmaRxDescToGet).buffer1Addr) = slot ethRxBufNb tail := by
    split_ifs with several
    · exact (flow.ready.chained _).1
    · rw [(flow.ready.chained _).1, scanning.toGet]
      congr 1
      omega
  refine ⟨slot ethRxBufNb tail, frameLength (s.dmaRxDscrTab s.dmaRxDescToGet).status - 4, ?_, rfl, ?_⟩
  · unfold EthRx.lastSegment
    dsimp only
    rw [counted, descriptor, Option.map_some, buffer, next]
  · obtain ⟨long, bounded, -⟩ := flow.pending_valid (f := f) (first ▸ List.mem_cons_self)
    have four : (4 : Word).toNat = 4 := rfl
    rw [BitVec.toNat_sub, length, four]
    omega

/-- A segment that is not the last is counted. -/
theorem scanning_advance {f : List UInt8} {more : List (List UInt8)} (first : pending = f :: more)
    (inside : held.length + k < queue.length) (after : k + 1 < count ethRxBufSize f.length)
    (counted : s'.segCount = held.length + k + 1)
    (get : s'.dmaRxDescToGet = slot ethRxBufNb (tail + (held.length + k) + 1))
    (start : s'.fsRxDesc = some (slot ethRxBufNb tail)) :
    s'.Scanning tail queue held.length pending (k + 1) := by
  refine ⟨counted, get, fun _ => start, inside, ?_, ?_⟩
  · intro g rest same
    rw [first] at same
    obtain ⟨rfl, -⟩ := List.cons_eq_cons.mp same
    exact after
  · intro none_
    rw [first] at none_
    cases none_

/-- A round of the scan. -/
theorem Scanning.scan {counter : Nat} (flow : s.Flow short h tail queue held pending 0)
    (scanning : s.Scanning tail queue held.length pending k) (seen : counter ≤ k)
    (taken : s.scan counter = some s') :
    s'.Flow short h tail queue held pending 0 ∧ s'.Phase tail queue held pending 0 s'.pc ∧
      (s'.pc = .resume none → pending.length ≤ s.incoming.toList.length) ∧ s'.pc ≠ .wait ∧
      (∀ p, s'.pc ≠ .input p) ∧ SameFlags s s' := by
  have next := flow.ready.chained.next (tail + (held.length + k))
  rw [← scanning.toGet] at next
  have small := scanning.small flow
  have counted : (s.segCount + 1) % 2 ^ 32 = held.length + k + 1 := by
    rw [scanning.segCount]
    change _ < 5 at small
    exact Nat.mod_eq_of_lt (by omega)
  by_cases closed : s.owned s.dmaRxDescToGet = false
  · obtain ⟨f, more, rfl, inside, segment⟩ := scanning.segment flow closed
    obtain ⟨isFirst, isLast, length⟩ := status_of_segment segment
    have below := scanning.part f more rfl
    have few : counter < ethRxBufNb := by omega
    unfold EthRx.scan at taken
    dsimp only at taken
    rw [if_pos ⟨closed, few⟩, isFirst, isLast] at taken
    by_cases last : k + 1 = count ethRxBufSize f.length
    · obtain ⟨descriptor, size, found, rfl, total⟩ :=
        scanning.lastSegment flow rfl last (length last)
      rw [beq_iff_eq.mpr last] at taken
      simp only [Bool.not_true, Bool.and_false, Bool.false_and, Bool.false_eq_true, if_false,
        found, Option.some.injEq] at taken
      subst taken
      refine ⟨flow.keep rfl rfl rfl rfl, ⟨rfl, f, more, rfl, ⟨?_, ?_, Nat.zero_le _, inside⟩, total,
        rfl, rfl, rfl⟩, (by simp), (by simp), (by simp), rfl, rfl, rfl, rfl⟩
      · rw [← last]
        rfl
      · rfl
    · have middle : (k + 1 == count ethRxBufSize f.length) = false := beq_eq_false_iff_ne.mpr last
      have after : k + 1 < count ethRxBufSize f.length := by omega
      rw [middle] at taken
      simp only [Bool.not_false, Bool.and_true, Bool.true_and, beq_iff_eq, Bool.not_eq_true',
        beq_eq_false_iff_ne] at taken
      by_cases zero : k = 0
      · -- With frames held this frame would be one segment, its last.
        have free : held = [] := by
          rcases flow.brief with none_ | yes
          · exact none_
          · have valid := flow.pending_valid (f := f) List.mem_cons_self
            have single := count_of_short (valid.2.2 yes)
            omega
        subst zero free
        rw [if_pos rfl] at taken
        cases taken
        refine ⟨flow.keep rfl rfl rfl rfl, ⟨rfl, 0 + 1, ?_, by omega⟩, (by simp), (by simp), (by simp),
          rfl, rfl, rfl, rfl⟩
        exact scanning_advance rfl inside after rfl next (congrArg some scanning.toGet)
      · rw [if_neg zero, if_pos zero] at taken
        cases taken
        refine ⟨flow.keep rfl rfl rfl rfl, ⟨rfl, k + 1, ?_, by omega⟩, (by simp), (by simp), (by simp),
          rfl, rfl, rfl, rfl⟩
        exact scanning_advance rfl inside after counted next (scanning.first (by omega))
  · unfold EthRx.scan at taken
    dsimp only at taken
    rw [if_neg (fun both => closed both.1)] at taken
    cases taken
    have owned := Bool.eq_true_of_not_eq_false closed
    exact ⟨flow.keep rfl rfl rfl rfl, ⟨rfl, k, scanning.keep rfl rfl rfl⟩,
      fun _ => scanning.drained flow owned, (by simp), (by simp), rfl, rfl, rfl, rfl⟩

/-! ## A frame is handled -/

/-- The first pending frame is handled, with this result. -/
theorem Flow.handle (flow : s.Flow short h tail queue held pending released) {f : List UInt8}
    {more : List (List UInt8)} (first : pending = f :: more) (result : Option (List UInt8))
    (faithful : ∀ outcomes, Faithful outcomes → heldFrames outcomes = held →
      Faithful (outcomes ++ [(f, result)])) :
    ∃ done, h.frames = done ++ more ∧ done.length = (h.results ++ [result]).length ∧
      Faithful (done.zip (h.results ++ [result])) ∧
      heldFrames (done.zip (h.results ++ [result])) =
        if result.isSome then [] else held ++ [f] := by
  obtain ⟨done, frames, length, before, same⟩ := flow.handled
  have zip : (done ++ [f]).zip (h.results ++ [result]) = done.zip h.results ++ [(f, result)] :=
    List.zip_append length
  refine ⟨done ++ [f], ?_, ?_, ?_, ?_⟩
  · rw [frames, first, List.append_assoc]
    rfl
  · rw [List.length_append, List.length_append, length]
    rfl
  · rw [zip]
    exact faithful _ before same
  · rw [zip]
    cases result with
    | none => rw [heldFrames_failed, same]; rfl
    | some payload => rw [heldFrames_returned]; rfl

/-- No pbuf: the frame is held. -/
theorem Flow.fail (flow : s.Flow short h tail queue held pending 0) {f : List UInt8}
    {more : List (List UInt8)} (first : pending = f :: more)
    (found : s.Found tail queue held.length f 0)
    (start : s.fsRxDesc = some (slot ethRxBufNb tail)) (yes : short = true)
    (few : s.segCount < ethRxBufNb) :
    Flow short { s with pc := .resume none } { h with results := h.results ++ [none] } tail queue
        (held ++ [f]) more 0 ∧
      Scanning { s with pc := .resume none } tail queue (held ++ [f]).length more 0 := by
  have valid := flow.pending_valid (f := f) (first ▸ List.mem_cons_self)
  have single := count_of_short (valid.2.2 yes)
  have counted := found.segCount
  rw [single] at counted
  have length : (held ++ [f]).length = s.segCount := by
    rw [List.length_append, counted]
    rfl
  have kept : Flow short { s with pc := .resume none } h tail queue held pending 0 :=
    flow.keep rfl rfl rfl rfl
  constructor
  · refine ⟨kept.ready, ?_, flow.handle first none fun _ before _ => before.failed, flow.valid,
      .inr yes, length ▸ few, ?_, kept.incoming⟩
    · rw [List.append_assoc, List.singleton_append, ← first]
      exact kept.closed
    · intro g member
      rcases List.mem_append.mp member with before | here
      · exact flow.past g before
      · obtain ⟨done, frames, -⟩ := flow.handled
        rw [frames, first, List.mem_singleton.mp here]
        exact List.mem_append_right _ List.mem_cons_self
  · rw [length]
    exact ⟨rfl, found.toGet, fun _ => start, found.within, fun g _ _ => Nat.succ_pos _,
      fun _ => rfl⟩

/-- The pbufs are allocated. -/
theorem copying_start (rxBuff : Fin ethRxBufNb → Nat → UInt8) (tail : Nat) {f : List UInt8}
    {len : Nat} {q : List Nat} (total : (len :: q).sum = f.length - 4) :
    Copying rxBuff tail f ([].flatten ++ []) len q
      ⟨slot ethRxBufNb tail, slot ethRxBufNb tail, slot ethRxBufNb tail, 0⟩ 0 where
  descriptor := rfl
  desc := rfl
  buffer := rfl
  within := Nat.zero_le _
  length := by simp
  total := by
    rw [← total, List.sum_cons]
    exact Nat.zero_add _
  stored j _ := by simp [chunk]

/-- More bytes of the buffer are copied. -/
theorem Copying.read {rxBuff : Fin ethRxBufNb → Nat → UInt8} {f out : List UInt8} {left c : Nat}
    {q : List Nat} {l : RxLocals} (copying : Copying rxBuff tail f out left q l c) (more : Nat)
    (fits : l.bufferoffset + more ≤ ethRxBufSize) :
    Stored ethRxBufSize rxBuff tail (out ++ read (rxBuff l.buffer) l.bufferoffset more) (c + 1) := by
  have length := copying.length
  intro j below
  rcases Nat.lt_or_eq_of_le (Nat.le_of_lt_succ below) with before | rfl
  · rw [chunk_append_before]
    · exact copying.stored j below
    · rw [length]
      exact (Nat.mul_le_mul_right _ before).trans (Nat.le_add_right ..)
  · have last : (chunk ethRxBufSize out j).length = l.bufferoffset := by
      rw [chunk_length, length, Nat.add_sub_cancel_left]
      exact Nat.min_eq_right copying.within
    have stored := copying.stored j below
    rw [last, ← copying.buffer] at stored
    rw [chunk_append_last (by omega)
      (by rw [List.length_append, Memory.read_length, Nat.succ_mul]; omega), List.length_append,
      last, Memory.read_length, ← copying.buffer, read_add, stored, Nat.zero_add]

/-- What is copied of a frame. -/
theorem Copying.returned {left c : Nat} {f out : List UInt8} {more : List (List UInt8)} {q : List Nat}
    {l : RxLocals} (flow : s.Flow short h tail queue held pending 0) (first : pending = f :: more)
    (found : s.Found tail queue held.length f 0)
    (copying : Copying s.rxBuff tail f out left q l c) (all : out.length = f.length - 4) :
    Returned held.head? f out := by
  have within := copying.within
  have length := copying.length
  have inside := found.within
  rw [found.segCount, Nat.sub_zero] at inside
  have covers : out.length ≤ (c + 1) * ethRxBufSize := by
    rw [length, Nat.succ_mul]
    omega
  cases held with
  | nil =>
      have frame : Stored ethRxBufSize s.rxBuff tail f (count ethRxBufSize f.length) := by
        intro j below
        have segment := flow.segment first below (by rw [List.length_nil] at *; omega)
        rw [List.length_nil, Nat.zero_add] at segment
        exact read_of_segment flow.ready.chained segment
      have agree := copying.stored.agree covers frame
        (count_bounds (m := ethRxBufSize) (by decide) f.length).1
      rw [List.take_of_length_le (by omega), all] at agree
      exact agree
  | cons o rest =>
      have fits := flow.held_short o List.mem_cons_self
      have oldest := flow.oldest rfl (by rw [List.length_cons] at inside; omega)
      have frame : Stored ethRxBufSize s.rxBuff tail o 1 := by
        intro j below
        rw [Nat.lt_one_iff.mp below]
        exact read_of_segment flow.ready.chained oldest
      exact ⟨all, copying.stored.agree covers frame (by omega)⟩

/-- A `memcpy`. -/
theorem Phase.copy {left : Nat} {payload : List UInt8} {q : List Nat} {p : List (List UInt8)}
    {l : RxLocals} (flow : s.Flow short h tail queue held pending released)
    (phase : s.Phase tail queue held pending released (.copy left payload q p l)) :
    (s.copy left payload q p l).Flow short h tail queue held pending released ∧
      (s.copy left payload q p l).Phase tail queue held pending released
        (s.copy left payload q p l).pc := by
  obtain ⟨rfl, f, more, first, found, c, copying⟩ := phase
  have within := copying.within
  have length := copying.length
  have total := copying.total
  unfold EthRx.copy
  split_ifs with large
  · have next : (s.dmaRxDscrTab l.dmaRxDesc).buffer2NextDescAddr =
        slot ethRxBufNb (tail + (c + 1)) := by
      rw [copying.desc, flow.ready.chained.next, Nat.add_assoc]
    have stored := copying.read (ethRxBufSize - l.bufferoffset) (by omega)
    rw [List.append_assoc] at stored
    have longer : (p.flatten ++ (payload ++ read (s.rxBuff l.buffer) l.bufferoffset
        (ethRxBufSize - l.bufferoffset))).length = (c + 1) * ethRxBufSize := by
      rw [← List.append_assoc, List.length_append, length, read_length, Nat.succ_mul]
      omega
    refine ⟨flow.keep rfl rfl rfl rfl, rfl, f, more, first, found.keep rfl rfl, c + 1,
      copying.descriptor, next, ?_, Nat.zero_le _, ?_, ?_, ?_⟩
    · dsimp only
      rw [next]
      exact (flow.ready.chained _).1
    · rw [longer]
      exact (Nat.add_zero _).symm
    · rw [longer, Nat.succ_mul]
      omega
    · intro j below
      rcases Nat.lt_or_eq_of_le (Nat.le_of_lt_succ below) with before | rfl
      · exact stored j before
      · rw [chunk_beyond longer.le]
        exact read_zero ..
  · have stored := copying.read left (by omega)
    rw [List.append_assoc] at stored
    have flat : (p ++ [payload ++ read (s.rxBuff l.buffer) l.bufferoffset left]).flatten =
        p.flatten ++ (payload ++ read (s.rxBuff l.buffer) l.bufferoffset left) := by simp
    have longer : (p.flatten ++ (payload ++ read (s.rxBuff l.buffer) l.bufferoffset left)).length =
        c * ethRxBufSize + (l.bufferoffset + left) := by
      rw [← List.append_assoc, List.length_append, length, read_length]
      omega
    cases q with
    | cons len q =>
        refine ⟨flow.keep rfl rfl rfl rfl, rfl, f, more, first, found.keep rfl rfl, c, ?_⟩
        rw [flat, List.append_nil]
        refine ⟨copying.descriptor, copying.desc, copying.buffer, ?_, longer, ?_, stored⟩
        · show l.bufferoffset + left ≤ ethRxBufSize
          omega
        · rw [longer]
          rw [length, List.sum_cons] at total
          omega
    | nil =>
        refine ⟨flow.keep rfl rfl rfl rfl, rfl, f, more, first, found.keep rfl rfl,
          copying.descriptor, ?_⟩
        rw [List.sum_nil] at total
        have last : Copying s.rxBuff tail f
            (p.flatten ++ (payload ++ read (s.rxBuff l.buffer) l.bufferoffset left)) 0 []
            { l with bufferoffset := l.bufferoffset + left } c :=
          ⟨copying.descriptor, copying.desc, copying.buffer, by dsimp only; omega, longer,
            by rw [longer, List.sum_nil]; omega, stored⟩
        rw [flat]
        exact last.returned flow first found (by rw [longer]; omega)

/-- A descriptor is given back, or all have been. -/
theorem Phase.release {i : Nat} {d : Fin ethRxBufNb} {p : List (List UInt8)}
    (flow : s.Flow short h tail queue held pending released)
    (phase : s.Phase tail queue held pending released (.release i d p)) :
    ∃ tail queue released, (s.release i d p).Flow short h tail queue held pending released ∧
      (s.release i d p).Phase tail queue held pending released (s.release i d p).pc := by
  obtain ⟨rfl, f, more, first, found, rfl, returned⟩ := phase
  have begun := found.begun
  have within := found.within
  unfold EthRx.release
  split_ifs with left
  · cases queue with
    | nil =>
        rw [List.length_nil] at within
        omega
    | cons segment queue =>
        rw [List.length_cons] at within
        refine ⟨tail + 1, queue, released + 1, ⟨flow.ready.giveBack rfl rfl rfl, ?_, flow.handled,
          flow.valid, flow.brief, flow.few, flow.past, ?_⟩, rfl, f, more, first, ?_, ?_, returned⟩
        · have closed := congrArg (List.drop 1) flow.closed
          rw [List.drop_drop] at closed
          exact closed
        · intro g j arriving
          obtain ⟨member, below, owned⟩ := flow.incoming g j arriving
          refine ⟨member, below, ?_⟩
          unfold EthRx.owned at owned ⊢
          dsimp only
          by_cases same : s.dma = slot ethRxBufNb tail
          · rw [same, Function.update_self]
            show isSet ethDmaRxDescOwn ethDmaRxDescOwn = true
            decide
          · rw [Function.update_of_ne same]
            exact owned
        · refine ⟨found.segCount, found.toGet.trans ?_, left, ?_⟩
          · congr 1
            dsimp only
            omega
          · dsimp only
            omega
        · exact flow.ready.chained.next tail
  · have all : released = s.segCount := Nat.le_antisymm begun (Nat.not_lt.mp left)
    refine ⟨tail, queue, released, flow.keep rfl rfl rfl rfl, f, more, first,
      all.trans found.segCount, rfl, ?_, returned⟩
    have get := found.toGet
    rw [← all, Nat.sub_self] at get
    exact get

/-- The frame is handed on. -/
theorem Flow.deliver {p : List (List UInt8)}
    (flow : s.Flow short h tail queue held pending released)
    (phase : s.Phase tail queue held pending released (.resume (some p))) :
    ∃ pending, (s.resume (some p)).Flow short { h with results := h.results ++ [some p.flatten] }
        tail queue [] pending 0 ∧
      (s.resume (some p)).Scanning tail queue 0 pending 0 := by
  obtain ⟨f, more, first, rfl, counted, get, returned⟩ := phase
  have kept : (s.resume (some p)).Flow short h tail queue held pending
      (held.length + count ethRxBufSize f.length) := flow.keep rfl rfl rfl rfl
  refine ⟨more, ⟨kept.ready, ?_, flow.handle first (some p.flatten)
    fun _ before same => before.returned (same ▸ returned), flow.valid, .inl rfl,
    Nat.pos_of_neZero _, (by simp), kept.incoming⟩, ⟨counted, get, (by simp), Nat.zero_le _,
    fun g _ _ => Nat.succ_pos _, fun _ => rfl⟩⟩
  have closed := kept.closed
  rw [first, List.flatMap_append, ← flow.length_held, List.drop_append,
    List.drop_eq_nil_of_le (Nat.le_add_right ..), Nat.add_sub_cancel_left, List.nil_append,
    List.flatMap_cons, ← rxSegments_length, List.drop_left] at closed
  exact closed

end EthRx

end FepMaster

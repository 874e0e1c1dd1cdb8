import FepMaster.Heap

/-!
# The list of free blocks

What `prvInsertBlockIntoFreeList` does to the blocks of the heap: the inserted block becomes free,
and free blocks that meet are joined (`insert_freeList`).  The four ways the code has, merged with
the block before or not and with the block behind or not, are one write to the list
(`FreeList.put`): a free block in the place of those it is made of.
-/

namespace FepMaster

open Arena LinkedList

/-- Who has a block that is not free: a task, or a call of `vPortFree` that is half done. -/
inductive HeapOwner
  | allocated
  | freeing
  deriving DecidableEq

abbrev HeapBlock := Block HeapOwner

/-! ## The interval of the heap -/

theorem alignDown_eq {a : Nat} (small : a < 2 ^ 32) : alignDown a = a / 8 * 8 := by
  have shifted : a / 8 * 8 = (a >>> 3) <<< 3 := by
    rw [Nat.shiftLeft_eq, Nat.shiftRight_eq_div_pow]
  have mask : 2 ^ 32 - 1 - portByteAlignmentMask = (2 ^ 29 - 1) <<< 3 := by decide
  rw [alignDown, shifted, mask]
  apply Nat.eq_of_testBit_eq
  intro i
  rw [Nat.testBit_and, Nat.testBit_shiftLeft, Nat.testBit_shiftLeft, Nat.testBit_shiftRight,
    Nat.testBit_two_pow_sub_one]
  by_cases low : 3 ≤ i
  · rw [Nat.add_sub_cancel' low]
    by_cases high : i - 3 < 29
    · simp [low, high]
    · have beyond : a < 2 ^ i := small.trans_le (Nat.pow_le_pow_right (by omega) (by omega))
      simp [Nat.testBit_lt_two_pow beyond]
  · simp [low]

theorem and_mask (a : Nat) : a &&& portByteAlignmentMask = a % 8 :=
  Nat.and_two_pow_sub_one_eq_mod a 3

theorem wrap_eq {a : Nat} (small : a < 2 ^ 32) : wrap a = a := Nat.mod_eq_of_lt small

/-- The blocks lie in `ucHeap`, with room for the end marker, and away from `xStart`. -/
structure HeapLayout.Bounds (l : HeapLayout) : Prop where
  aligned : 8 ∣ l.pucAlignedHeap
  alignedEnd : 8 ∣ l.endAddress
  inside : l.ucHeap ≤ l.pucAlignedHeap
  room : l.pucAlignedHeap + 32 ≤ l.endAddress
  beyond : l.endAddress + 8 ≤ l.ucHeap + configTotalHeapSize

theorem HeapLayout.bounds (l : HeapLayout) : l.Bounds := by
  have low := l.ucHeapPos
  have high := l.ucHeapEnd
  unfold configTotalHeapSize at high
  -- the aligned address, and the address behind the heap
  have facts : l.pucAlignedHeap = (l.ucHeap + 7) / 8 * 8 ∧
      l.pucAlignedHeap + l.xTotalHeapSize = l.ucHeap + configTotalHeapSize := by
    unfold HeapLayout.xTotalHeapSize
    cases odd : l.misaligned with
    | true =>
        have start : l.pucAlignedHeap = (l.ucHeap + 7) / 8 * 8 := by
          have up : l.ucHeap + (portByteAlignment - 1) = l.ucHeap + 7 := rfl
          rw [HeapLayout.pucAlignedHeap, odd, if_pos rfl, up, wrap_eq (by omega),
            alignDown_eq (by omega)]
        have skipped : wrapSub l.pucAlignedHeap l.ucHeap = l.pucAlignedHeap - l.ucHeap :=
          wrapSub_eq (by omega) (by omega)
        have rest : wrapSub configTotalHeapSize (l.pucAlignedHeap - l.ucHeap) =
            configTotalHeapSize - (l.pucAlignedHeap - l.ucHeap) :=
          wrapSub_eq (by decide) (by unfold configTotalHeapSize; omega)
        rw [if_pos rfl, skipped, rest]
        unfold configTotalHeapSize
        omega
    | false =>
        have whole : l.ucHeap % 8 = 0 := by
          unfold HeapLayout.misaligned at odd
          rwa [and_mask, bne_eq_false_iff_eq] at odd
        have start : l.pucAlignedHeap = l.ucHeap := by
          rw [HeapLayout.pucAlignedHeap, odd, if_neg Bool.false_ne_true]
        rw [if_neg Bool.false_ne_true, start]
        omega
  rcases facts with ⟨start, total⟩
  unfold configTotalHeapSize at total
  have stop : l.endAddress = (l.ucHeap + 32 * 1024 - 8) / 8 * 8 := by
    have before : wrapSub (l.ucHeap + 32 * 1024) xHeapStructSize = l.ucHeap + 32 * 1024 - 8 :=
      wrapSub_eq (by omega) (by unfold xHeapStructSize; omega)
    rw [HeapLayout.endAddress, total, wrap_eq (by omega), before, alignDown_eq (by omega)]
  have size : configTotalHeapSize = 32 * 1024 := rfl
  refine ⟨?_, ?_, ?_, ?_, ?_⟩ <;> omega

/-! ## The list -/

/-- The links from `xStart` lead through the free blocks to the end marker. -/
structure FreeList (l : HeapLayout) (s : Heap) (blocks : List HeapBlock) : Prop where
  tiles : Tiles 8 l.pucAlignedHeap blocks s.pxEnd
  pxEnd : s.pxEnd = l.endAddress
  linked : Linked s.pxNextFreeBlock (l.xStart :: freeStarts blocks ++ [s.pxEnd])
  sizes : ∀ b ∈ blocks, b.isFree = true → s.xBlockSize b.start = b.size
  startSize : s.xBlockSize l.xStart = 0

namespace FreeList

variable {l : HeapLayout} {s s' : Heap} {blocks before after mid : List HeapBlock} {b x : HeapBlock}

/-- `xStart` is not inside the heap. -/
theorem apart (l : HeapLayout) {a : Nat} (low : l.pucAlignedHeap ≤ a) (high : a ≤ l.endAddress) :
    a ≠ l.xStart := by
  have bounds := l.bounds
  have inside := bounds.inside
  have beyond := bounds.beyond
  have far := l.apart
  unfold xHeapStructSize at far
  omega

/-- No address comes up twice on the way. -/
theorem nodup (tiles : Tiles 8 l.pucAlignedHeap blocks l.endAddress) :
    (l.xStart :: freeStarts blocks ++ [l.endAddress]).Nodup := by
  have room := l.bounds.room
  rw [List.cons_append]
  refine List.nodup_cons.mpr ⟨fun again => ?_, ?_⟩
  · rcases List.mem_append.mp again with member | member
    · have bounds := tiles.freeStarts_bounds member
      exact apart l bounds.1 bounds.2.le rfl
    · exact apart l (by omega) le_rfl (List.mem_singleton.mp member).symm
  · refine List.nodup_append.mpr ⟨tiles.freeStarts_nodup, List.nodup_singleton _, ?_⟩
    intro a member c last
    rw [List.mem_singleton] at last
    have bounds := tiles.freeStarts_bounds member
    omega

/-- A free block in the place of the blocks it is made of: it gets the link to what comes behind
it, and what comes before it gets the link to it. -/
theorem put (list : FreeList l s (before ++ mid ++ after)) {y : HeapBlock} (free : y.isFree = true)
    (tiles : Tiles 8 l.pucAlignedHeap (before ++ y :: after) s.pxEnd) {front : List Nat} {it m : Nat}
    (previous : l.xStart :: freeStarts before = front ++ [it])
    (head : (freeStarts after ++ [s.pxEnd]).head? = some m)
    (links : s'.pxNextFreeBlock =
      Function.update (Function.update s.pxNextFreeBlock y.start m) it y.start)
    (size : s'.xBlockSize y.start = y.size)
    (others : ∀ a, a ≠ y.start → s'.xBlockSize a = s.xBlockSize a) (stop : s'.pxEnd = s.pxEnd) :
    FreeList l s' (before ++ y :: after) := by
  have order : l.xStart :: freeStarts (before ++ y :: after) ++ [s.pxEnd] =
      front ++ it :: y.start :: (freeStarts after ++ [s.pxEnd]) := by
    rw [freeStarts_append, freeStarts_cons_free free, ← List.cons_append, previous]
    simp
  have different := nodup (list.pxEnd ▸ tiles)
  rw [← list.pxEnd, order] at different
  obtain ⟨first, second, split⟩ := List.nodup_append.mp different
  rw [List.nodup_cons, List.nodup_cons] at second
  have known := list.linked
  rw [freeStarts_append, freeStarts_append, ← List.cons_append, ← List.cons_append, previous] at known
  have left : Linked s.pxNextFreeBlock (front ++ [it]) := by
    simp only [List.append_assoc] at known
    exact Linked.left known
  have right : Linked s.pxNextFreeBlock (freeStarts after ++ [s.pxEnd]) := by
    rw [List.append_assoc] at known
    exact List.IsChain.right_of_append known
  -- the new block is linked to what comes behind it
  have alone : Linked s.pxNextFreeBlock ([] ++ [y.start]) := List.isChain_singleton _
  have behind : Linked (Function.update s.pxNextFreeBlock y.start m)
      (y.start :: freeStarts after ++ [s.pxEnd]) :=
    Linked.relink alone right List.not_mem_nil
      (fun again => second.2.1 (List.mem_append_left _ again)) head
  have ahead : Linked (Function.update s.pxNextFreeBlock y.start m) (front ++ [it]) := by
    refine left.frame fun a member => ?_
    exact Function.update_of_ne (split a member y.start (by simp)) m s.pxNextFreeBlock
  refine ⟨by rwa [stop], stop.trans list.pxEnd, ?_, fun c member open_ => ?_, ?_⟩
  · rw [stop, order, links]
    refine Linked.relink ahead behind ?_ ?_ rfl
    · exact fun again => split it again it (by simp) rfl
    · intro again
      exact second.1 (List.mem_append_left [s.pxEnd] again)
  · by_cases same : c.start = y.start
    · rw [tiles.eq_of_start member (by simp) same, size]
    · rw [others c.start same]
      refine list.sizes c ?_ open_
      rcases List.mem_append.mp member with early | late
      · exact List.mem_append_left _ (List.mem_append_left _ early)
      · rcases List.mem_cons.mp late with rfl | late
        · exact absurd rfl same
        · exact List.mem_append_right _ late
  · have bounds := tiles.bounds (b := y) (by simp)
    rw [list.pxEnd] at bounds
    rw [others l.xStart (apart l bounds.1 (by unfold Block.stop at bounds; omega)).symm]
    exact list.startSize

/-! ## Where a block goes -/

/-- The loop ends at the last cell below the block. -/
theorem insertPosition_eq {a it m : Nat} {rest more : List Nat}
    (linked : Linked s.pxNextFreeBlock (it :: rest ++ m :: more)) (below : ∀ c ∈ rest, c < a)
    (above : a ≤ m) {fuel : Nat} (enough : rest.length < fuel) :
    s.insertPosition a fuel it = some (rest.getLastD it) := by
  induction rest generalizing it fuel with
  | nil =>
      cases fuel with
      | zero => cases enough
      | succ fuel =>
          have next : s.pxNextFreeBlock it = m := (List.isChain_cons_cons.mp linked).1
          rw [Heap.insertPosition, next, if_neg (Nat.not_lt.mpr above)]
          rfl
  | cons c rest ih =>
      cases fuel with
      | zero => cases enough
      | succ fuel =>
          have next : s.pxNextFreeBlock it = c := (List.isChain_cons_cons.mp linked).1
          rw [Heap.insertPosition, next, if_pos (below c List.mem_cons_self), List.getLastD_cons]
          exact ih linked.tail (fun d member => below d (.tail c member))
            (Nat.lt_of_succ_lt_succ enough)

/-- The links behind a block that is not free. -/
theorem linked_behind (list : FreeList l s (before ++ x :: after)) (owned : x.isFree = false) :
    Linked s.pxNextFreeBlock (l.xStart :: freeStarts before ++ (freeStarts after ++ [s.pxEnd])) := by
  have linked := list.linked
  rw [freeStarts_append, freeStarts_cons_owned owned] at linked
  rwa [← List.cons_append, List.append_assoc] at linked

/-- What follows the free blocks before a block. -/
theorem exists_head (after : List HeapBlock) (stop : Nat) :
    ∃ m more, freeStarts after ++ [stop] = m :: more := by
  cases freeStarts after with
  | nil => exact ⟨stop, [], rfl⟩
  | cons m more => exact ⟨m, more ++ [stop], rfl⟩

/-- The loop of `prvInsertBlockIntoFreeList` ends at the last free block before, or at `xStart`. -/
theorem insertPosition_block (list : FreeList l s (before ++ x :: after)) (owned : x.isFree = false)
    {fuel : Nat} (enough : before.length < fuel) :
    s.insertPosition x.start fuel l.xStart = some ((freeStarts before).getLastD l.xStart) := by
  obtain ⟨first, positive, -, second⟩ := list.tiles.split
  obtain ⟨m, more, head⟩ := exists_head after s.pxEnd
  have linked := list.linked_behind owned
  rw [head] at linked
  refine insertPosition_eq linked (fun c member => (first.freeStarts_bounds member).2) ?_ ?_
  · have member : m ∈ freeStarts after ++ [s.pxEnd] := by simp [head]
    have stop := second.le
    unfold Block.stop at stop
    rcases List.mem_append.mp member with inside | last
    · have bounds := second.freeStarts_bounds inside
      unfold Block.stop at bounds
      omega
    · rw [List.mem_singleton] at last
      omega
  · rw [freeStarts, List.length_map]
    exact (List.length_filter_le _ _).trans_lt enough

/-! ## Merging -/

/-- Writing the size that is there. -/
theorem setSize_self {a size : Nat} (same : s.xBlockSize a = size) : s.setSize a size = s := by
  rw [Heap.setSize, ← same, Function.update_eq_self]

/-- What the code does behind a block `y` of the free space: the block there is merged with it when
it is free. -/
theorem mergeAfter_eq {y : HeapBlock} {it : Nat} (free : y.isFree = true)
    (tiles : Tiles 8 y.start (y :: after) s.pxEnd) (small : s.pxEnd < 2 ^ 32)
    (size : s.xBlockSize y.start = y.size)
    (sizes : ∀ b ∈ after, b.isFree = true → s.xBlockSize b.start = b.size)
    (linked : Linked s.pxNextFreeBlock (it :: (freeStarts after ++ [s.pxEnd]))) :
    ∃ mid rest z m, after = mid ++ rest ∧ join y after = z :: rest ∧ z.start = y.start ∧
      z.isFree = true ∧ (freeStarts rest ++ [s.pxEnd]).head? = some m ∧
      s.mergeAfter it y.start = (s.setSize y.start z.size).setNext y.start m := by
  rcases tiles with ⟨-, -, -, tiles⟩
  have within := tiles.le
  have stop : wrap (y.start + s.xBlockSize y.start) = y.stop := by
    rw [size]
    exact wrap_eq (Nat.lt_of_le_of_lt within small)
  unfold Heap.mergeAfter
  rw [stop]
  cases after with
  | nil =>
      have last : y.stop = s.pxEnd := tiles
      have next : s.pxNextFreeBlock it = s.pxEnd := (List.isChain_cons_cons.mp linked).1
      refine ⟨[], [], y, s.pxEnd, rfl, rfl, rfl, free, rfl, ?_⟩
      dsimp only
      rw [next, if_pos last, if_neg (not_not.mpr rfl), setSize_self size]
  | cons n rest =>
      rcases tiles with ⟨start, positive, whole, tiles⟩
      have reach := tiles.le
      cases open_ : n.isFree with
      | true =>
          rw [freeStarts_cons_free open_] at linked
          have ends : Linked s.pxNextFreeBlock (n.start :: freeStarts rest ++ [s.pxEnd]) :=
            linked.tail
          have next : s.pxNextFreeBlock it = n.start := (List.isChain_cons_cons.mp linked).1
          have before : n.start ≠ s.pxEnd := by
            unfold Block.stop at reach
            omega
          obtain ⟨m, more, head⟩ := exists_head rest s.pxEnd
          rw [List.cons_append, head] at ends
          have behind : s.pxNextFreeBlock n.start = m := (List.isChain_cons_cons.mp ends).1
          refine ⟨[n], rest, { y with size := y.size + n.size }, m, rfl,
            join_cons_free free open_, rfl, free, ?_, ?_⟩
          · rw [head]
            rfl
          · have sum : wrap (y.size + n.size) = y.size + n.size := by
              apply wrap_eq
              unfold Block.stop at start reach
              omega
            dsimp only
            rw [next, if_pos start.symm, if_pos before, size,
              sizes n List.mem_cons_self open_, sum, behind]
      | false =>
          rw [freeStarts_cons_owned open_] at linked
          obtain ⟨m, more, head⟩ := exists_head rest s.pxEnd
          rw [head] at linked
          have next : s.pxNextFreeBlock it = m := (List.isChain_cons_cons.mp linked).1
          -- what follows is beyond the block behind
          have far : y.stop ≠ m := by
            have member : m ∈ freeStarts rest ++ [s.pxEnd] := by simp [head]
            unfold Block.stop at start reach ⊢
            rcases List.mem_append.mp member with inside | last
            · have bounds := tiles.freeStarts_bounds inside
              unfold Block.stop at bounds
              omega
            · rw [List.mem_singleton] at last
              omega
          refine ⟨[], n :: rest, y, m, rfl, join_cons_owned open_, rfl, free, ?_, ?_⟩
          · rw [freeStarts_cons_owned open_, head]
            rfl
          · dsimp only
            rw [next, if_neg far, setSize_self size]

/-- Before a block that is not merged with the one before it, nothing ends where it starts. -/
theorem meetsBefore_eq_false (list : FreeList l s (before ++ x :: after))
    (coalesced : Coalesced (before ++ [x.give none])) :
    s.meetsBefore ((freeStarts before).getLastD l.xStart) x.start = false := by
  have tiles := list.tiles
  have stops := tiles.bounds (b := x) (by simp)
  rw [list.pxEnd] at stops
  have high := l.ucHeapEnd
  have beyond := l.bounds.beyond
  unfold Block.stop at stops
  rw [Heap.meetsBefore, beq_eq_false_iff_ne]
  rcases List.eq_nil_or_concat (freeStarts before) with none_ | ⟨starts, a, last⟩
  · have low := l.xStartEnd
    rw [none_, List.getLastD_nil, list.startSize, Nat.add_zero, wrap_eq (by omega)]
    exact (apart l stops.1 (by omega)).symm
  · rw [List.concat_eq_append] at last
    rw [last, List.getLastD_concat]
    have member : a ∈ freeStarts before := by rw [last]; simp
    obtain ⟨b, inside, free, rfl⟩ := mem_freeStarts.mp member
    have size := list.sizes b (List.mem_append_left _ inside) free
    obtain ⟨first, second, rfl⟩ := List.append_of_mem inside
    have pieces := tiles.split.1.split
    rw [size, wrap_eq]
    · -- the block behind `b` is owned, and it ends where `x` starts or before
      cases second with
      | nil =>
          rw [List.append_assoc] at coalesced
          have met := List.rel_of_isChain_cons_cons coalesced.right_of_append
          rw [free, Block.isFree_give_none] at met
          cases met
      | cons c second =>
          rcases pieces.2.2.2 with ⟨start, positive, -, rest⟩
          have reach := rest.le
          unfold Block.stop at start reach
          omega
    · have reach := pieces.2.2.2.le
      unfold Block.stop at reach
      omega

/-- The last cell on the way to the address `a`. -/
theorem exists_previous {a : Nat} (first : Tiles 8 l.pucAlignedHeap before a)
    (inside : a ≤ l.endAddress) :
    ∃ front it, l.xStart :: freeStarts before = front ++ [it] ∧
      (freeStarts before).getLastD l.xStart = it ∧ it ≠ a := by
  obtain ⟨front, it, previous⟩ : ∃ front it, l.xStart :: freeStarts before = front ++ [it] :=
    ⟨_, _, (List.dropLast_append_getLast (List.cons_ne_nil _ _)).symm⟩
  refine ⟨front, it, previous, ?_, ?_⟩
  · rw [← List.getLastD_cons (a := l.xStart), previous, List.getLastD_concat]
  · have member : it ∈ l.xStart :: freeStarts before := by rw [previous]; simp
    rcases List.mem_cons.mp member with rfl | before
    · exact (apart l first.le inside).symm
    · exact (first.freeStarts_bounds before).2.ne

theorem small (list : FreeList l s blocks) : s.pxEnd < 2 ^ 32 := by
  have high := l.ucHeapEnd
  have beyond := l.bounds.beyond
  rw [list.pxEnd]
  omega

/-- The inserted block when it is not merged with the block before. -/
theorem insertAt_apart (list : FreeList l s (before ++ x :: after)) (owned : x.isFree = false)
    (size : s.xBlockSize x.start = x.size) (apart : Coalesced (before ++ [x.give none])) :
    FreeList l (s.insertAt x.start ((freeStarts before).getLastD l.xStart))
      (before ++ join (x.give none) after) := by
  obtain ⟨first, positive, whole, second⟩ := list.tiles.split
  have joined : Tiles 8 l.pucAlignedHeap (before ++ join (x.give none) after) s.pxEnd :=
    tiles_append.mpr ⟨x.start, first, join_tiles ⟨rfl, positive, whole, second⟩⟩
  have far := list.meetsBefore_eq_false apart
  have linked := list.linked_behind owned
  have inside : x.start ≤ l.endAddress := by
    have stop := second.le
    rw [list.pxEnd] at stop
    exact (Nat.le_add_right x.start x.size).trans stop
  obtain ⟨front, it, previous, last, different⟩ := exists_previous first inside
  rw [last] at far ⊢
  rw [previous, List.append_assoc] at linked
  obtain ⟨mid, rest, z, m, split, join_, start, free, head, merged⟩ :=
    mergeAfter_eq (y := x.give none) rfl ⟨rfl, positive, whole, second⟩ list.small size
      (fun b member => list.sizes b (List.mem_append_right _ (.tail x member)))
      (List.IsChain.right_of_append linked)
  rw [Block.give_start] at merged start
  rw [join_] at joined ⊢
  unfold Heap.insertAt Heap.mergeBefore Heap.linkBlock
  rw [far, if_neg Bool.false_ne_true]
  dsimp only
  rw [merged, if_pos different]
  have pieces : FreeList l s (before ++ (x :: mid) ++ rest) := by
    rw [split] at list
    simpa using list
  refine put pieces free joined previous head ?_ ?_ ?_ ?_
  · rw [start]
    rfl
  · rw [start]
    exact Function.update_self ..
  · intro a other
    rw [start] at other
    exact Function.update_of_ne other ..
  · rfl

/-- The inserted block when it is merged with the block before, which keeps its place. -/
theorem insertAt_merged {p : HeapBlock} (list : FreeList l s (before ++ p :: x :: after))
    (open_ : p.isFree = true) (owned : x.isFree = false) (size : s.xBlockSize x.start = x.size) :
    FreeList l (s.insertAt x.start p.start)
      (before ++ join { p with size := p.size + x.size } after) := by
  have small := list.small
  have known := list.sizes p (by simp) open_
  obtain ⟨first, large, multiple, meets, positive, whole, second⟩ := list.tiles.split
  have within := second.le
  have stop : Block.stop { p with size := p.size + x.size } = x.stop := by
    unfold Block.stop at meets ⊢
    dsimp only
    omega
  have grown : Tiles 8 p.start ({ p with size := p.size + x.size } :: after) s.pxEnd :=
    ⟨rfl, Nat.add_pos_left large _, Nat.dvd_add multiple whole, by rwa [stop]⟩
  have joined : Tiles 8 l.pucAlignedHeap
      (before ++ join { p with size := p.size + x.size } after) s.pxEnd :=
    tiles_append.mpr ⟨p.start, first, join_tiles grown⟩
  unfold Block.stop at meets within
  have met : s.meetsBefore p.start x.start = true := by
    rw [Heap.meetsBefore, beq_iff_eq, known, wrap_eq (by omega), meets]
  have sum : wrap (p.size + x.size) = p.size + x.size := wrap_eq (by omega)
  have linked := list.linked
  rw [freeStarts_append, freeStarts_cons_free open_, freeStarts_cons_owned owned,
    ← List.cons_append, List.append_assoc] at linked
  have onwards : Linked s.pxNextFreeBlock (p.start :: (freeStarts after ++ [s.pxEnd])) :=
    List.IsChain.right_of_append linked
  obtain ⟨front, it, previous, -, different⟩ := exists_previous first (a := p.start) <| by
    have stop := list.pxEnd
    omega
  obtain ⟨mid, rest, z, m, split, join_, start, free, head, merged⟩ :=
    mergeAfter_eq (s := s.setSize p.start (p.size + x.size))
      (y := { p with size := p.size + x.size }) open_ grown small (Function.update_self ..)
      (fun b member free => by
        have bounds := second.bounds member
        unfold Block.stop at bounds
        have other : b.start ≠ p.start := by omega
        exact (Function.update_of_ne other ..).trans (list.sizes b (by simp [member]) free))
      onwards
  rw [previous, List.append_assoc] at linked
  have next : s.pxNextFreeBlock it = p.start :=
    (List.isChain_cons_cons.mp (List.IsChain.right_of_append linked)).1
  rw [join_] at joined ⊢
  unfold Heap.insertAt Heap.mergeBefore Heap.linkBlock
  rw [met, if_pos rfl]
  dsimp only
  rw [known, size, sum, merged, if_neg (not_not.mpr rfl)]
  have pieces : FreeList l s (before ++ (p :: x :: mid) ++ rest) := by
    rw [split] at list
    simpa using list
  refine put pieces free joined previous head ?_ ?_ ?_ ?_
  · -- the link to the block before is the one it has
    have keep := Function.update_eq_self it (Function.update s.pxNextFreeBlock p.start m)
    rw [Function.update_of_ne different, next] at keep
    rw [start]
    exact keep.symm
  · rw [start]
    exact Function.update_self ..
  · intro a other
    rw [start] at other
    exact (Function.update_of_ne other ..).trans (Function.update_of_ne other ..)
  · rfl

/-- The inserted block becomes free, and free blocks that meet are joined. -/
theorem insertAt_freeList (list : FreeList l s (before ++ x :: after)) (owned : x.isFree = false)
    (size : s.xBlockSize x.start = x.size) (ahead : Coalesced before) (behind : Coalesced after) :
    FreeList l (s.insertAt x.start ((freeStarts before).getLastD l.xStart))
      (fuse (before ++ x.give none :: after)) := by
  by_cases apart : Coalesced (before ++ [x.give none])
  · rw [fuse_append apart, fuse_eq_self behind]
    exact list.insertAt_apart owned size apart
  · obtain ⟨front, p, rfl, open_⟩ := ahead.exists_last apart
    rw [List.append_assoc, List.singleton_append] at list ⊢
    rw [fuse_append ahead, fuse, fuse_eq_self behind, join_join open_ rfl, freeStarts_append,
      freeStarts_cons_free open_, freeStarts_nil, List.getLastD_concat]
    exact list.insertAt_merged open_ owned size

end FreeList

/-! ## What an insertion writes -/

/-- Only these cells are written, and no static variable is. -/
structure Heap.Writes (s s' : Heap) (cells : List Nat) : Prop where
  others : ∀ a, a ∉ cells → s'.cell a = s.cell a
  pxEnd : s'.pxEnd = s.pxEnd
  remaining : s'.xFreeBytesRemaining = s.xFreeBytesRemaining
  minimum : s'.xMinimumEverFreeBytesRemaining = s.xMinimumEverFreeBytesRemaining
  allocatedBit : s'.xBlockAllocatedBit = s.xBlockAllocatedBit

namespace Heap

variable {s s' s'' : Heap} {cells more : List Nat}

theorem Writes.refl (s : Heap) : s.Writes s cells := ⟨fun _ _ => rfl, rfl, rfl, rfl, rfl⟩

theorem Writes.trans (first : s.Writes s' cells) (second : s'.Writes s'' cells) :
    s.Writes s'' cells where
  others a other := (second.others a other).trans (first.others a other)
  pxEnd := second.pxEnd.trans first.pxEnd
  remaining := second.remaining.trans first.remaining
  minimum := second.minimum.trans first.minimum
  allocatedBit := second.allocatedBit.trans first.allocatedBit

theorem Writes.mono (writes : s.Writes s' cells) (subset : ∀ a ∈ cells, a ∈ more) :
    s.Writes s' more :=
  { writes with others := fun a other => writes.others a fun member => other (subset a member) }

theorem setNext_writes (s : Heap) {a : Nat} (p : Nat) (member : a ∈ cells) :
    s.Writes (s.setNext a p) cells :=
  ⟨fun _ other => congrArg (·, _) (Function.update_of_ne (ne_of_mem_of_not_mem member other).symm ..),
    rfl, rfl, rfl, rfl⟩

theorem setSize_writes (s : Heap) {a : Nat} (size : Nat) (member : a ∈ cells) :
    s.Writes (s.setSize a size) cells :=
  ⟨fun _ other => congrArg (_, ·) (Function.update_of_ne (ne_of_mem_of_not_mem member other).symm ..),
    rfl, rfl, rfl, rfl⟩

theorem mergeAfter_writes (s : Heap) {it a : Nat} (member : a ∈ cells) :
    s.Writes (s.mergeAfter it a) cells := by
  unfold mergeAfter
  dsimp only
  split
  · split
    · exact (s.setSize_writes _ member).trans (setNext_writes _ _ member)
    · exact s.setNext_writes _ member
  · exact s.setNext_writes _ member

theorem linkBlock_writes (s : Heap) {it a : Nat} (member : it ∈ cells) :
    s.Writes (s.linkBlock it a) cells := by
  unfold linkBlock
  split
  · exact s.setNext_writes a member
  · exact .refl s

theorem insertAt_writes (s : Heap) (a it : Nat) : s.Writes (s.insertAt a it) [it, a] := by
  unfold insertAt mergeBefore
  split
  · exact ((s.setSize_writes _ (by simp)).trans (mergeAfter_writes _ (by simp))).trans
      (linkBlock_writes _ (by simp))
  · exact (mergeAfter_writes s (by simp)).trans (linkBlock_writes _ (by simp))

end Heap

/-- `prvInsertBlockIntoFreeList` ends; the inserted block becomes free, free blocks that meet are
joined, and only the headers of free blocks are written. -/
theorem FreeList.insert {l : HeapLayout} {s : Heap} {before after : List HeapBlock} {x : HeapBlock}
    (list : FreeList l s (before ++ x :: after)) (owned : x.isFree = false)
    (size : s.xBlockSize x.start = x.size) (ahead : Coalesced before) (behind : Coalesced after)
    {fuel : Nat} (enough : before.length < fuel) :
    ∃ s', s.prvInsertBlockIntoFreeList l fuel x.start = some s' ∧
      FreeList l s' (fuse (before ++ x.give none :: after)) ∧
      s.Writes s' (x.start :: l.xStart :: freeStarts before) := by
  refine ⟨_, ?_, list.insertAt_freeList owned size ahead behind,
    (s.insertAt_writes _ _).mono ?_⟩
  · rw [Heap.prvInsertBlockIntoFreeList, list.insertPosition_block owned enough, Option.map_some]
  · intro a member
    rcases List.mem_cons.mp member with rfl | member
    · exact .tail _ (List.getLastD_mem_cons ..)
    · rw [List.mem_singleton.mp member]
      exact List.mem_cons_self

end FepMaster

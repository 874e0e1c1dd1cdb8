import FepMaster.HeapBlocks

/-!
# `pvPortMalloc`

The search ends at the first free block that is large enough, which leaves the list; what is not
needed of it is cut off and goes back into the list (`takeBlock_spec`).  `pvPortMalloc_spec` says
when there is a block at all.
-/

namespace FepMaster

open Arena LinkedList

/-- The bytes a block for `n` bytes has at least. -/
def roundedSize (n : Nat) : Nat := (n + 15) / 8 * 8

/-- The block that is taken of a free one for `w` bytes: a small rest stays with it. -/
def taken (b : HeapBlock) (w : Nat) : HeapBlock where
  start := b.start
  size := if heapMinimumBlockSize < b.size - w then w else b.size
  owner := some .allocated

@[simp] theorem taken_start (b : HeapBlock) (w : Nat) : (taken b w).start = b.start := rfl

/-- What is left of it. -/
def leftOver (b : HeapBlock) (w : Nat) : List HeapBlock :=
  if heapMinimumBlockSize < b.size - w then [⟨b.start + w, b.size - w, none⟩] else []

variable {l : HeapLayout} {s s' : Heap} {blocks before after : List HeapBlock} {b x : HeapBlock}

/-! ## The blocks afterwards -/

/-- The blocks after a block was taken. -/
theorem tiles_taken (tiles : Tiles 8 l.pucAlignedHeap (before ++ b :: after) s.pxEnd) {w : Nat}
    (positive : 0 < w) (whole : 8 ∣ w) :
    Tiles 8 l.pucAlignedHeap (before ++ taken b w :: (leftOver b w ++ after)) s.pxEnd := by
  obtain ⟨first, large, multiple, second⟩ := tiles.split
  refine tiles_append.mpr ⟨b.start, first, rfl, ?_⟩
  unfold Block.stop at second ⊢
  unfold taken leftOver
  by_cases wide : heapMinimumBlockSize < b.size - w
  · have rest : b.start + w + (b.size - w) = b.start + b.size := by omega
    simp only [if_pos wide]
    refine ⟨positive, whole, rfl, Nat.zero_lt_of_lt wide, Nat.dvd_sub multiple whole, ?_⟩
    rwa [Block.stop, rest]
  · simp only [if_neg wide]
    exact ⟨large, multiple, second⟩

theorem coalesced_taken (coalesced : Coalesced (before ++ b :: after)) (free : b.isFree = true)
    (w : Nat) : Coalesced (before ++ taken b w :: (leftOver b w ++ after)) := by
  have left : Coalesced before := coalesced.left_of_append
  have right : Coalesced (b :: after) := coalesced.right_of_append
  have owned : (taken b w).isFree = false := rfl
  have rest : Coalesced (leftOver b w ++ after) := by
    unfold leftOver
    split
    · refine List.IsChain.cons right.tail fun c member => ?_
      have apart := List.IsChain.rel_head? right member
      rwa [free] at apart
    · exact right.tail
  refine List.IsChain.append left (List.IsChain.cons rest fun c _ => ?_) fun c _ d member => ?_
  · rw [owned, Bool.false_and]
  · cases member
    rw [owned, Bool.and_false]

theorem freeSize_taken (free : b.isFree = true) (w : Nat) :
    freeSize (before ++ taken b w :: (leftOver b w ++ after)) + (taken b w).size =
      freeSize (before ++ b :: after) := by
  rw [freeSize_append, freeSize_append, freeSize_cons, freeSize_cons, freeSize_append, free,
    if_pos rfl]
  have owned : (taken b w).isFree = false := rfl
  rw [owned, if_neg Bool.false_ne_true]
  unfold taken leftOver
  split
  · next wide =>
    rw [freeSize_single]
    dsimp only
    omega
  · rw [freeSize_nil]
    dsimp only
    omega

theorem leftOver_owner {w : Nat} {c : HeapBlock} (member : c ∈ leftOver b w) : c.owner = none := by
  unfold leftOver at member
  split at member
  · rw [List.mem_singleton.mp member]
  · cases member

/-- The header of what is left lies in the block. -/
theorem mem_leftOver {w : Nat} {c : HeapBlock} (member : c ∈ leftOver b w) :
    b.start ≤ c.start ∧ c.start < b.stop := by
  unfold leftOver at member
  split at member
  · next wide =>
    rw [List.mem_singleton.mp member]
    unfold Block.stop
    dsimp only
    omega
  · cases member

/-! ## The search -/

/-- The size the code asks for. -/
theorem blockSize_eq {n : Nat} (positive : 0 < n) (small : n < 2 ^ 31) :
    Heap.blockSize n = some (roundedSize n) := by
  have eight : wrap (n + xHeapStructSize) = n + 8 := wrap_eq (by unfold xHeapStructSize; omega)
  rw [Heap.blockSize, if_pos positive]
  dsimp only
  rw [eight, and_mask]
  by_cases whole : (n + 8) % 8 = 0
  · rw [if_neg (not_not.mpr whole), roundedSize]
    congr 1
    omega
  · have up : wrap (n + 8 + (portByteAlignment - (n + 8) % 8)) = roundedSize n := by
      rw [wrap_eq (by unfold portByteAlignment; omega), roundedSize]
      unfold portByteAlignment
      omega
    have even : (roundedSize n % 8 == 0) = true := by
      rw [roundedSize, Nat.mul_mod_left]
      rfl
    rw [if_pos whole, up, and_mask, configAssert, even, if_pos rfl]

/-- The loop of `pvPortMalloc` ends at the first free block that is large enough, or at the end. -/
theorem findBlock_eq {w prev q : Nat} {skipped more : List Nat}
    (linked : Linked s.pxNextFreeBlock (prev :: skipped ++ q :: more))
    (smaller : ∀ a ∈ skipped, s.xBlockSize a < w) (valid : ∀ a ∈ skipped ++ [q], a ≠ null)
    (stop : w ≤ s.xBlockSize q ∨ s.pxNextFreeBlock q = null) {fuel : Nat}
    (enough : skipped.length < fuel) :
    s.findBlock w fuel prev (s.pxNextFreeBlock prev) = some (skipped.getLastD prev, q) := by
  induction skipped generalizing prev fuel with
  | nil =>
      cases fuel with
      | zero => cases enough
      | succ fuel =>
          have next : s.pxNextFreeBlock prev = q := (List.isChain_cons_cons.mp linked).1
          rw [next, Heap.findBlock, if_neg]
          · rfl
          · rcases stop with large | last
            · exact fun more => absurd more.1 (Nat.not_lt.mpr large)
            · exact fun more => more.2 last
  | cons a rest ih =>
      cases fuel with
      | zero => cases enough
      | succ fuel =>
          have next : s.pxNextFreeBlock prev = a := (List.isChain_cons_cons.mp linked).1
          have behind : s.pxNextFreeBlock a ≠ null := by
            cases rest with
            | nil =>
                rw [(List.isChain_cons_cons.mp linked.tail).1]
                exact valid q (by simp)
            | cons c rest =>
                rw [(List.isChain_cons_cons.mp linked.tail).1]
                exact valid c (by simp)
          rw [next, Heap.findBlock, if_pos ⟨smaller a List.mem_cons_self, behind⟩,
            List.getLastD_cons]
          exact ih linked.tail (fun c member => smaller c (.tail a member))
            (fun c member => valid c (.tail a member)) (Nat.lt_of_succ_lt_succ enough)

/-- The search finds the first free block that is large enough. -/
theorem findBlock_some (represents : s.Represents l (before ++ b :: after)) (free : b.isFree = true)
    {w : Nat} (fits : w ≤ b.size) (smaller : ∀ c ∈ before, c.isFree = true → c.size < w)
    {fuel : Nat} (enough : before.length < fuel) :
    s.findBlock w fuel l.xStart (s.pxNextFreeBlock l.xStart) =
      some ((freeStarts before).getLastD l.xStart, b.start) := by
  have list := represents.list
  have linked := list.linked
  rw [freeStarts_append, freeStarts_cons_free free, ← List.cons_append, List.append_assoc] at linked
  refine findBlock_eq linked (fun a member => ?_) (fun a member => ?_) (.inl ?_) ?_
  · obtain ⟨c, inside, open_, rfl⟩ := mem_freeStarts.mp member
    rw [list.sizes c (by simp [inside]) open_]
    exact smaller c inside open_
  · have start : a ∈ freeStarts (before ++ b :: after) := by
      rw [freeStarts_append, freeStarts_cons_free free]
      rcases List.mem_append.mp member with early | last
      · simp [early]
      · simp [List.mem_singleton.mp last]
    have low := (list.tiles.freeStarts_bounds start).1
    have inside := l.bounds.inside
    have positive := l.ucHeapPos
    unfold null
    omega
  · rw [list.sizes b (by simp) free]
    exact fits
  · rw [freeStarts, List.length_map]
    exact (List.length_filter_le _ _).trans_lt enough

/-- When no free block is large enough the search ends at the end marker. -/
theorem findBlock_none (represents : s.Represents l blocks) {w : Nat}
    (smaller : ∀ c ∈ blocks, c.isFree = true → c.size < w) {fuel : Nat}
    (enough : blocks.length < fuel) :
    s.findBlock w fuel l.xStart (s.pxNextFreeBlock l.xStart) =
      some ((freeStarts blocks).getLastD l.xStart, s.pxEnd) := by
  have list := represents.list
  refine findBlock_eq list.linked (fun a member => ?_) (fun a member => ?_) (.inr ?_) ?_
  · obtain ⟨c, inside, open_, rfl⟩ := mem_freeStarts.mp member
    rw [list.sizes c inside open_]
    exact smaller c inside open_
  · have bounds := l.bounds
    have room := bounds.room
    have inside := bounds.inside
    have positive := l.ucHeapPos
    unfold null
    rcases List.mem_append.mp member with early | last
    · have low := (list.tiles.freeStarts_bounds early).1
      omega
    · rw [List.mem_singleton.mp last, list.pxEnd]
      omega
  · exact congrArg Prod.fst represents.endMark
  · rw [freeStarts, List.length_map]
    exact (List.length_filter_le _ _).trans_lt enough

/-! ## Taking a block -/

/-- A free block leaves the list. -/
theorem FreeList.take (list : FreeList l s (before ++ b :: after)) (free : b.isFree = true)
    {o : HeapOwner} :
    FreeList l (s.setNext ((freeStarts before).getLastD l.xStart) (s.pxNextFreeBlock b.start))
      (before ++ b.give (some o) :: after) := by
  have tiles := list.tiles
  obtain ⟨first, -, -, second⟩ := tiles.split
  have linked := list.linked
  rw [freeStarts_append, freeStarts_cons_free free, ← List.cons_append, List.append_assoc] at linked
  obtain ⟨front, it, previous, last, different⟩ := FreeList.exists_previous first (a := b.start) <| by
    have reach := second.le
    have stop := list.pxEnd
    unfold Block.stop at reach
    omega
  have replaced : Tiles 8 l.pucAlignedHeap (before ++ b.give (some o) :: after) s.pxEnd :=
    tiles.replace rfl rfl
  have order : l.xStart :: freeStarts (before ++ b.give (some o) :: after) ++ [s.pxEnd] =
      front ++ it :: (freeStarts after ++ [s.pxEnd]) := by
    rw [freeStarts_append, freeStarts_cons_owned (Block.isFree_give_some b o), ← List.cons_append,
      previous]
    simp
  have distinct := FreeList.nodup (list.pxEnd ▸ replaced)
  rw [← list.pxEnd, order] at distinct
  obtain ⟨-, second, split⟩ := List.nodup_append.mp distinct
  rw [List.nodup_cons] at second
  obtain ⟨m, more, head⟩ := FreeList.exists_head after s.pxEnd
  rw [previous, List.append_assoc] at linked
  have behind : Linked s.pxNextFreeBlock (b.start :: (freeStarts after ++ [s.pxEnd])) :=
    (List.IsChain.right_of_append linked).tail
  have next : s.pxNextFreeBlock b.start = m := by
    rw [head] at behind
    exact (List.isChain_cons_cons.mp behind).1
  refine ⟨replaced, list.pxEnd, ?_, fun c member open_ => list.sizes c ?_ open_, list.startSize⟩
  · change Linked _ (_ ++ [s.pxEnd])
    rw [order, last, next]
    refine Linked.relink (Linked.left linked) behind.tail ?_ ?_ (by rw [head]; rfl)
    · exact fun again => split it again it List.mem_cons_self rfl
    · exact fun again => second.1 (List.mem_append_left [s.pxEnd] again)
  · rcases List.mem_append.mp member with early | late
    · exact List.mem_append_left _ early
    · rcases List.mem_cons.mp late with rfl | late
      · cases open_
      · simp [late]

/-- The rest of a block of which a block `t` is taken goes back into the list. -/
theorem insert_rest {t n : HeapBlock} (list : FreeList l s (before ++ x :: after))
    (owned : x.isFree = false) (taken : t.isFree = false) (rest : n.isFree = false)
    (tiles : Tiles 8 l.pucAlignedHeap (before ++ t :: n :: after) s.pxEnd)
    (coalesced : Coalesced (before ++ t :: n.give none :: after)) {fuel : Nat}
    (enough : before.length + 1 < fuel) :
    ∃ s', ((s.setSize n.start n.size).setSize t.start t.size).prvInsertBlockIntoFreeList l fuel
        n.start = some s' ∧
      FreeList l s' (before ++ t :: n.give none :: after) ∧ s'.xBlockSize t.start = t.size ∧
      s.Writes s' (t.start :: n.start :: l.xStart :: freeStarts before) := by
  have cut : ∀ c, before ++ t :: c :: after = before ++ [t] ++ c :: after := fun c => by simp
  have uncut : FreeList l s (before ++ [t] ++ n :: after) := by
    rw [← cut n]
    have both : ∀ c ∈ [t, n], c.isFree = false := by simp [taken, rest]
    simpa using list.recut owned [t, n] both (by simpa using tiles)
  rw [cut] at tiles coalesced ⊢
  have inT := tiles.bounds (b := t) (by simp)
  have inN := tiles.bounds (b := n) (by simp)
  have meets := (tiles.split.1.bounds (b := t) (by simp)).2.2
  rw [list.pxEnd] at inT inN
  unfold Block.stop at inT inN meets
  have different : n.start ≠ t.start := by omega
  have start : l.xStart ∉ [n.start, t.start] := by
    have first := FreeList.apart l inT.1 (by omega)
    have second := FreeList.apart l inN.1 (by omega)
    simp [first.symm, second.symm]
  have ownedT : t.start ∉ freeStarts (before ++ [t] ++ n :: after) :=
    tiles.notMem_freeStarts (by simp) taken le_rfl (by unfold Block.stop; omega)
  have ownedN : n.start ∉ freeStarts (before ++ [t] ++ n :: after) :=
    tiles.notMem_freeStarts (by simp) rest le_rfl (by unfold Block.stop; omega)
  have stores : s.Writes ((s.setSize n.start n.size).setSize t.start t.size) [n.start, t.start] :=
    (s.setSize_writes n.size (by simp)).trans (Heap.setSize_writes _ t.size (by simp))
  have sized := uncut.frame stores start fun a free member => by
    rcases List.mem_cons.mp member with rfl | member
    · exact ownedN free
    · rw [List.mem_singleton.mp member] at free
      exact ownedT free
  have room : (before ++ [t]).length < fuel := by simpa using enough
  obtain ⟨s', inserted, result, writes⟩ := sized.insert rest
    ((Function.update_of_ne different ..).trans (Function.update_self ..)) coalesced.left_of_append
    coalesced.right_of_append.tail room
  have front : freeStarts (before ++ [t]) = freeStarts before := by
    rw [freeStarts_append, freeStarts_cons_owned taken, freeStarts_nil, List.append_nil]
  rw [front] at writes
  refine ⟨s', inserted, ?_, ?_, (stores.mono ?_).trans (writes.mono ?_)⟩
  · rwa [fuse_eq_self coalesced] at result
  · have kept := writes.others t.start <| by
      rw [freeStarts_append, front] at ownedT
      simp only [List.mem_cons, not_or]
      exact ⟨different.symm, FreeList.apart l inT.1 (by omega),
        fun early => ownedT (List.mem_append_left _ early)⟩
    exact (congrArg Prod.snd kept).trans (Function.update_self ..)
  · simp
  · intro a member
    exact .tail _ member

/-- The block behind the taken one goes back into the list. -/
theorem splitBlock_spec (list : FreeList l s (before ++ b.give (some .allocated) :: after))
    (size : s.xBlockSize b.start = b.size) (coalesced : Coalesced (before ++ b :: after))
    (free : b.isFree = true) {w : Nat} (positive : 0 < w) (whole : 8 ∣ w) (fits : w ≤ b.size)
    {fuel : Nat} (enough : before.length + 1 < fuel) :
    ∃ s', s.splitBlock l fuel b.start w = some s' ∧
      FreeList l s' (before ++ taken b w :: (leftOver b w ++ after)) ∧
      s'.xBlockSize b.start = (taken b w).size ∧
      s.Writes s'
        (b.start :: ((leftOver b w).map Block.start ++ l.xStart :: freeStarts before)) := by
  have tiles := list.tiles
  have cut := tiles_taken (b := b) (tiles.replace rfl rfl) positive whole
  have joined := coalesced_taken coalesced free w
  have aligned := tiles.aligned l.bounds.aligned (b := b.give (some .allocated)) (by simp)
  have reach := tiles.split.2.2.2.le
  have small := list.small
  rw [Block.give_start] at aligned
  unfold Block.stop at reach
  rw [Block.give_start, Block.give_size] at reach
  have rest : wrapSub b.size w = b.size - w := wrapSub_eq (by omega) fits
  rw [Heap.splitBlock, size, rest]
  unfold taken leftOver at cut joined ⊢
  by_cases wide : heapMinimumBlockSize < b.size - w
  · simp only [if_pos wide] at cut joined ⊢
    have new : wrap (b.start + w) = b.start + w := wrap_eq (by omega)
    have even : (b.start + w &&& portByteAlignmentMask == 0) = true := by
      rw [and_mask, Nat.mod_eq_zero_of_dvd (Nat.dvd_add aligned whole)]
      rfl
    rw [new, configAssert, even, if_pos rfl]
    refine insert_rest (t := ⟨b.start, w, some .allocated⟩)
      (n := ⟨b.start + w, b.size - w, some .freeing⟩) list rfl rfl rfl ?_ joined enough
    have order : before ++ (⟨b.start, w, some .allocated⟩ : HeapBlock) ::
        ([⟨b.start + w, b.size - w, none⟩] ++ after) =
        (before ++ [⟨b.start, w, some .allocated⟩]) ++ ⟨b.start + w, b.size - w, none⟩ :: after := by
      simp
    rw [order] at cut
    have replaced := cut.replace (c := ⟨b.start + w, b.size - w, some .freeing⟩) rfl rfl
    simpa using replaced
  · simp only [if_neg wide] at cut joined ⊢
    exact ⟨s, rfl, list, size, .refl s⟩

theorem setRemaining_eq (s : Heap) (remaining : Nat) :
    s.setRemaining remaining =
      { s with
        xFreeBytesRemaining := remaining
        xMinimumEverFreeBytesRemaining := min s.xMinimumEverFreeBytesRemaining remaining } := by
  unfold Heap.setRemaining
  dsimp only
  split
  · next less => rw [min_eq_right less.le]
  · next more => rw [min_eq_left (Nat.not_lt.mp more)]

/-- What taking a block does to the static variables and to the header. -/
theorem markAllocated_eq (s : Heap) (a : Nat) {remaining header : Nat}
    (less : wrapSub s.xFreeBytesRemaining (s.xBlockSize a) = remaining)
    (marked : s.xBlockSize a ||| s.xBlockAllocatedBit = header) :
    s.markAllocated a =
      ({ s with
        xFreeBytesRemaining := remaining
        xMinimumEverFreeBytesRemaining := min s.xMinimumEverFreeBytesRemaining remaining
        : Heap }.setSize a header).setNext a null := by
  rw [Heap.markAllocated, less, setRemaining_eq, marked]

/-- The header of a block that is taken. -/
theorem FreeList.markAllocated {t : HeapBlock} (list : FreeList l s (before ++ t :: after))
    (owned : t.isFree = false) (size : s.xBlockSize t.start = t.size)
    (topBit : s.xBlockAllocatedBit = 2 ^ 31) :
    FreeList l (s.markAllocated t.start) (before ++ t :: after) ∧
      (s.markAllocated t.start).cell t.start = (null, t.size + 2 ^ 31) ∧
      ∀ a, a ≠ t.start → (s.markAllocated t.start).cell a = s.cell a := by
  have bounds := list.tiles.bounds (b := t) (by simp)
  rw [list.pxEnd] at bounds
  unfold Block.stop at bounds
  obtain ⟨remaining, less⟩ : ∃ r, wrapSub s.xFreeBytesRemaining (s.xBlockSize t.start) = r :=
    ⟨_, rfl⟩
  have marked : s.xBlockSize t.start ||| s.xBlockAllocatedBit = t.size + 2 ^ 31 := by
    rw [size, topBit, or_topBit (list.size_lt (by simp))]
  rw [markAllocated_eq s t.start less marked]
  generalize t.size + 2 ^ 31 = header
  have accounted : FreeList l { s with
      xFreeBytesRemaining := remaining
      xMinimumEverFreeBytesRemaining := min s.xMinimumEverFreeBytesRemaining remaining }
      (before ++ t :: after) := list.congr rfl rfl rfl
  have writes := (Heap.setSize_writes { s with
      xFreeBytesRemaining := remaining
      xMinimumEverFreeBytesRemaining := min s.xMinimumEverFreeBytesRemaining remaining }
      header (List.mem_singleton_self t.start)).trans
      (Heap.setNext_writes _ null (List.mem_singleton_self t.start))
  refine ⟨accounted.frame writes ?_ fun a free member => ?_, ?_, fun a other => ?_⟩
  · simpa using (FreeList.apart l bounds.1 (by omega)).symm
  · rw [List.mem_singleton.mp member] at free
    exact list.tiles.notMem_freeStarts (by simp) owned le_rfl (by unfold Block.stop; omega) free
  · simp [Heap.cell, Heap.setSize, Heap.setNext]
  · exact writes.others a (by simpa using other)

/-- What was found is taken: the block is cut off, the rest stays free, and nothing outside the free
blocks is written. -/
theorem takeBlock_spec (represents : s.Represents l (before ++ b :: after)) (free : b.isFree = true)
    {w : Nat} (positive : 0 < w) (whole : 8 ∣ w) (fits : w ≤ b.size) {fuel : Nat}
    (enough : before.length + 1 < fuel) :
    ∃ s', s.takeBlock l fuel ((freeStarts before).getLastD l.xStart) b.start w =
        some (s', b.start + 8) ∧
      s'.Represents l (before ++ taken b w :: (leftOver b w ++ after)) ∧
      Keeps l s s' (before ++ b :: after) ∧
      s'.xMinimumEverFreeBytesRemaining =
        min s.xMinimumEverFreeBytesRemaining s'.xFreeBytesRemaining := by
  have list := represents.list
  have tiles := list.tiles
  have bounds := represents.bounds (b := b) (by simp)
  have small := list.small
  rw [list.pxEnd] at small
  have pointer : wrap (b.start + xHeapStructSize) = b.start + 8 :=
    wrap_eq (by unfold xHeapStructSize; omega)
  obtain ⟨front, it, previous, last, different⟩ :=
    FreeList.exists_previous tiles.split.1 (by omega : b.start ≤ l.endAddress)
  have linked := list.linked
  rw [freeStarts_append, freeStarts_cons_free free, ← List.cons_append, previous,
    List.append_assoc, List.append_assoc] at linked
  have next : s.pxNextFreeBlock it = b.start :=
    (List.isChain_cons_cons.mp (List.IsChain.right_of_append linked)).1
  have out := list.take free (o := .allocated)
  rw [last] at out ⊢
  obtain ⟨s₂, split, cut, size, writes⟩ := splitBlock_spec out (list.sizes b (by simp) free)
    represents.coalesced free positive whole fits enough
  have topBit : s₂.xBlockAllocatedBit = 2 ^ 31 := writes.allocatedBit.trans represents.allocatedBit
  obtain ⟨marked, header, others⟩ := cut.markAllocated (t := taken b w) rfl size topBit
  rw [taken_start] at marked header others
  have account : freeSize (before ++ taken b w :: (leftOver b w ++ after)) + (taken b w).size =
      freeSize (before ++ b :: after) := freeSize_taken free w
  have less : wrapSub s₂.xFreeBytesRemaining (s₂.xBlockSize b.start) =
      freeSize (before ++ taken b w :: (leftOver b w ++ after)) := by
    have total := tiles.total
    rw [list.pxEnd] at total
    have before_ : s₂.xFreeBytesRemaining = freeSize (before ++ b :: after) :=
      writes.remaining.trans represents.remaining
    rw [size, before_, wrapSub_eq (by omega) (by omega)]
    omega
  have keeps : Keeps l s (s₂.markAllocated b.start) (before ++ b :: after) := by
    have away : Keeps l s s₂ (before ++ b :: after) := by
      refine (((s.setNext_writes _ ?_).trans writes).keeps fun a member => ?_)
      · have member : it ∈ l.xStart :: freeStarts before := by rw [previous]; simp
        exact .tail _ (List.mem_append_right _ member)
      · rcases List.mem_cons.mp member with header | member
        · exact mem_headers tiles free (by simp [header])
        · rcases List.mem_append.mp member with rest | member
          · obtain ⟨c, left, rfl⟩ := List.mem_map.mp rest
            exact .inr ⟨b, by simp, free, mem_leftOver left⟩
          · exact mem_headers tiles free (.tail _ member)
    intro a other outside
    rw [others a, away a other outside]
    have apart := outside b (by simp) free
    unfold Block.stop at apart
    omega
  have kept := keeps.headers (list.pxEnd ▸ tiles)
  refine ⟨s₂.markAllocated b.start, ?_, ⟨marked, coalesced_taken represents.coalesced free w, ?_, ?_,
    ?_, ?_⟩, keeps, ?_⟩
  · rw [Heap.takeBlock, next, pointer, split, Option.map_some]
  · intro c member o owner
    have owned : c.isFree = false := by rw [Block.isFree, owner]; rfl
    rcases List.mem_append.mp member with early | late
    · rw [kept.1 c (by simp [early]) owned]
      exact represents.headers c (by simp [early]) o owner
    · rcases List.mem_cons.mp late with rfl | late
      · cases owner
        exact header
      · rcases List.mem_append.mp late with rest | late
        · rw [leftOver_owner rest] at owner
          cases owner
        · rw [kept.1 c (by simp [late]) owned]
          exact represents.headers c (by simp [late]) o owner
  · rw [marked.pxEnd, kept.2, ← list.pxEnd]
    exact represents.endMark
  · rw [markAllocated_eq s₂ b.start less rfl]
    rfl
  · rw [markAllocated_eq s₂ b.start less rfl]
    exact topBit
  · rw [markAllocated_eq s₂ b.start less rfl]
    exact congrArg (min · _) writes.minimum

/-! ## The call -/

theorem initialised_eq (represents : s.Represents l blocks) : s.initialised l = s := by
  have stop := represents.list.pxEnd
  have room := l.bounds.room
  rw [Heap.initialised, if_neg]
  unfold null
  omega

/-- `pvPortMalloc` ends; it gives a block of the first free one that is large enough, and nothing
when there is none, or when the size asked for is zero or has the top bit. -/
theorem pvPortMalloc_spec (represents : s.Represents l blocks) {n : Nat} (size : n < 2 ^ 32)
    {fuel : Nat} (enough : blocks.length < fuel) :
    (s.pvPortMalloc l fuel n = some (s, null) ∧
      ¬ (0 < n ∧ n < 2 ^ 31 ∧ ∃ b ∈ blocks, b.isFree = true ∧ roundedSize n ≤ b.size)) ∨
    (0 < n ∧ n < 2 ^ 31 ∧ ∃ before b after s', blocks = before ++ b :: after ∧ b.isFree = true ∧
      roundedSize n ≤ b.size ∧ s.pvPortMalloc l fuel n = some (s', b.start + 8) ∧
      s'.Represents l
        (before ++ taken b (roundedSize n) :: (leftOver b (roundedSize n) ++ after)) ∧
      Keeps l s s' blocks ∧
      s'.xMinimumEverFreeBytesRemaining =
        min s.xMinimumEverFreeBytesRemaining s'.xFreeBytesRemaining) := by
  have even : (null &&& portByteAlignmentMask == 0) = true := by decide
  rw [Heap.pvPortMalloc, initialised_eq represents, Heap.mallocLocked, represents.allocatedBit]
  by_cases small : n < 2 ^ 31
  · rw [if_pos ((and_topBit_eq_zero size).mpr small)]
    rcases Nat.eq_zero_or_pos n with rfl | positive
    · left
      refine ⟨?_, fun all => absurd all.1 (Nat.lt_irrefl 0)⟩
      rw [Heap.blockSize, if_neg (Nat.lt_irrefl 0), Option.bind_some,
        if_neg (fun all => absurd all.1 (Nat.lt_irrefl 0)), Option.bind_some, configAssert, even,
        if_pos rfl]
    · rw [blockSize_eq positive small, Option.bind_some]
      have rounded : 0 < roundedSize n := by
        unfold roundedSize
        omega
      have whole : 8 ∣ roundedSize n := Nat.dvd_mul_left 8 _
      cases found : blocks.find? fun b => b.isFree && decide (roundedSize n ≤ b.size) with
      | none =>
          have smaller : ∀ c ∈ blocks, c.isFree = true → c.size < roundedSize n := by
            intro c member free
            have not_ := List.find?_eq_none.mp found c member
            rw [free, Bool.true_and, decide_eq_true_eq] at not_
            omega
          left
          refine ⟨?_, fun all => ?_⟩
          · have last := findBlock_none represents smaller enough
            rw [last, Option.bind_some, if_neg (not_not.mpr rfl), ite_self, Option.bind_some,
              configAssert, even, if_pos rfl]
          · rcases all with ⟨-, -, c, member, free, fits⟩
            have less := smaller c member free
            omega
      | some b =>
          obtain ⟨matches_, before, after, split, skipped⟩ :=
            List.find?_eq_some_iff_append.mp found
          rw [Bool.and_eq_true, decide_eq_true_eq] at matches_
          rcases matches_ with ⟨free, fits⟩
          subst split
          have smaller : ∀ c ∈ before, c.isFree = true → c.size < roundedSize n := by
            intro c member open_
            have not_ := skipped c member
            simp only [open_, Bool.true_and, Bool.not_eq_true', decide_eq_false_iff_not] at not_
            omega
          have room : before.length + 1 < fuel := by
            rw [List.length_append, List.length_cons] at enough
            omega
          obtain ⟨s', taken_, result, keeps, least⟩ :=
            takeBlock_spec represents free rounded whole fits room
          right
          refine ⟨positive, small, before, b, after, s', rfl, free, fits, ?_, result, keeps, least⟩
          have bounds := represents.bounds (b := b) (by simp)
          have available : roundedSize n ≤ s.xFreeBytesRemaining := by
            rw [represents.remaining]
            exact fits.trans (size_le_freeSize (by simp) free)
          have inside : b.start ≠ s.pxEnd := by
            rw [represents.list.pxEnd]
            omega
          have aligned : (b.start + 8 &&& portByteAlignmentMask == 0) = true := by
            rw [and_mask, Nat.mod_eq_zero_of_dvd (Nat.dvd_add bounds.2.2.1 (Nat.dvd_refl 8))]
            rfl
          rw [if_pos ⟨rounded, available⟩,
            findBlock_some represents free fits smaller (by omega), Option.bind_some,
            if_pos inside, taken_, Option.bind_some, configAssert, aligned, if_pos rfl]
  · left
    refine ⟨?_, fun all => small all.2.1⟩
    rw [if_neg (fun zero => small ((and_topBit_eq_zero size).mp zero)), Option.bind_some,
      configAssert, even, if_pos rfl]

end FepMaster

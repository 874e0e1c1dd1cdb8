import Mathlib.Data.Nat.Bitwise
import FepMaster.HeapFreeList

/-!
# The blocks of the heap

What the memory says about the blocks (`Heap.Represents`), how `prvHeapInit` leaves one free block,
and how `vPortFree` gives a block back and joins the free blocks that meet.
-/

namespace FepMaster

open Arena LinkedList

/-- The size field of a block that is not free: the top bit says that a task has it. -/
def headerSize (b : HeapBlock) : HeapOwner → Nat
  | .allocated => b.size + 2 ^ 31
  | .freeing => b.size

/-- The memory holds these blocks. -/
structure Heap.Represents (l : HeapLayout) (s : Heap) (blocks : List HeapBlock) : Prop where
  list : FreeList l s blocks
  coalesced : Coalesced blocks
  headers : ∀ b ∈ blocks, ∀ o, b.owner = some o → s.cell b.start = (null, headerSize b o)
  endMark : s.cell s.pxEnd = (null, 0)
  remaining : s.xFreeBytesRemaining = freeSize blocks
  allocatedBit : s.xBlockAllocatedBit = 2 ^ 31

variable {l : HeapLayout} {s s' : Heap} {blocks before after : List HeapBlock} {b x : HeapBlock}

/-! ## Frames -/

/-- A write to other cells does not change the list. -/
theorem FreeList.frame (list : FreeList l s blocks) {cells : List Nat} (writes : s.Writes s' cells)
    (start : l.xStart ∉ cells) (free : ∀ a ∈ freeStarts blocks, a ∉ cells) : FreeList l s' blocks where
  tiles := writes.pxEnd ▸ list.tiles
  pxEnd := writes.pxEnd.trans list.pxEnd
  linked := by
    rw [writes.pxEnd]
    refine list.linked.frame fun a member => congrArg Prod.fst (writes.others a ?_)
    rcases List.mem_cons.mp member with rfl | inside
    · exact start
    · exact free a inside
  sizes b member open_ := by
    have same := writes.others b.start (free b.start (mem_freeStarts.mpr ⟨b, member, open_, rfl⟩))
    exact (congrArg Prod.snd same).trans (list.sizes b member open_)
  startSize := (congrArg Prod.snd (writes.others l.xStart start)).trans list.startSize

/-- The list is in the memory. -/
theorem FreeList.congr (list : FreeList l s blocks) (next : s'.pxNextFreeBlock = s.pxNextFreeBlock)
    (size : s'.xBlockSize = s.xBlockSize) (stop : s'.pxEnd = s.pxEnd) : FreeList l s' blocks where
  tiles := stop ▸ list.tiles
  pxEnd := stop.trans list.pxEnd
  linked := by
    rw [next, stop]
    exact list.linked
  sizes := size ▸ list.sizes
  startSize := size ▸ list.startSize

/-- How the space of an owned block is cut does not matter for the list. -/
theorem FreeList.recut (list : FreeList l s (before ++ x :: after)) (owned : x.isFree = false)
    (mid : List HeapBlock) (allOwned : ∀ c ∈ mid, c.isFree = false)
    (tiles : Tiles 8 l.pucAlignedHeap (before ++ mid ++ after) s.pxEnd) :
    FreeList l s (before ++ mid ++ after) where
  tiles := tiles
  pxEnd := list.pxEnd
  linked := by
    have none_ : freeStarts mid = [] := by
      rw [freeStarts, List.filter_eq_nil_iff.mpr fun c member => by simp [allOwned c member]]
      rfl
    have linked := list.linked
    rw [freeStarts_append, freeStarts_cons_owned owned] at linked
    rwa [freeStarts_append, freeStarts_append, none_, List.append_nil]
  sizes c member free := by
    refine list.sizes c ?_ free
    rcases List.mem_append.mp member with early | late
    · rcases List.mem_append.mp early with early | inside
      · exact List.mem_append_left _ early
      · rw [allOwned c inside] at free
        cases free
    · exact List.mem_append_right _ (.tail x late)
  startSize := list.startSize

/-- A block is far smaller than the top bit. -/
theorem FreeList.size_lt (list : FreeList l s blocks) (member : b ∈ blocks) : b.size < 2 ^ 31 := by
  have bounds := list.tiles.bounds member
  have inside := l.bounds.inside
  have beyond := l.bounds.beyond
  have stop := list.pxEnd
  unfold configTotalHeapSize at beyond
  unfold Block.stop at bounds
  omega

/-- The cells outside the free blocks, and other than `xStart`, hold what they held. -/
def Keeps (l : HeapLayout) (s s' : Heap) (blocks : List HeapBlock) : Prop :=
  ∀ a, a ≠ l.xStart → (∀ c ∈ blocks, c.isFree = true → a < c.start ∨ c.stop ≤ a) →
    s'.cell a = s.cell a

/-- What is written inside the free blocks and to `xStart` is written nowhere else. -/
theorem Heap.Writes.keeps {cells : List Nat} (writes : s.Writes s' cells)
    (inside : ∀ a ∈ cells, a = l.xStart ∨ ∃ c ∈ blocks, c.isFree = true ∧ c.start ≤ a ∧ a < c.stop) :
    Keeps l s s' blocks := by
  intro a other outside
  refine writes.others a fun member => ?_
  rcases inside a member with start | ⟨c, block, free, low, high⟩
  · exact other start
  · have apart := outside c block free
    omega

/-- The headers of the owned blocks, and the end marker, stay. -/
theorem Keeps.headers (keeps : Keeps l s s' blocks)
    (tiles : Tiles 8 l.pucAlignedHeap blocks l.endAddress) :
    (∀ b ∈ blocks, b.isFree = false → s'.cell b.start = s.cell b.start) ∧
      s'.cell l.endAddress = s.cell l.endAddress := by
  refine ⟨fun b member owned => ?_, keeps l.endAddress ?_ ?_⟩
  · have bounds := tiles.bounds member
    unfold Block.stop at bounds
    refine keeps b.start (FreeList.apart l bounds.1 (by omega)) fun c inside free => ?_
    rcases tiles.disjoint member inside with rfl | apart | apart
    · rw [owned] at free
      cases free
    · unfold Block.stop at apart
      exact .inl (by omega)
    · exact .inr apart
  · exact FreeList.apart l (by have room := l.bounds.room; omega) le_rfl
  · exact fun c inside _ => .inr (tiles.bounds inside).2.2

/-- The header of a free block, those of the free blocks before it, and `xStart`. -/
theorem mem_headers (tiles : Tiles 8 l.pucAlignedHeap (before ++ b :: after) s.pxEnd)
    (free : b.isFree = true) {a : Nat} (member : a ∈ b.start :: l.xStart :: freeStarts before) :
    a = l.xStart ∨
      ∃ c ∈ before ++ b :: after, c.isFree = true ∧ c.start ≤ a ∧ a < c.stop := by
  unfold Block.stop
  rcases List.mem_cons.mp member with rfl | member
  · have positive := (tiles.bounds (b := b) (by simp)).2.1
    exact .inr ⟨b, by simp, free, by omega⟩
  · rcases List.mem_cons.mp member with rfl | member
    · exact .inl rfl
    · obtain ⟨c, inside, open_, rfl⟩ := mem_freeStarts.mp member
      have positive := (tiles.bounds (b := c) (by simp [inside])).2.1
      exact .inr ⟨c, by simp [inside], open_, by omega⟩

namespace Heap.Represents

/-- A block is inside the heap, at a multiple of eight. -/
theorem bounds (represents : s.Represents l blocks) (member : b ∈ blocks) :
    l.pucAlignedHeap ≤ b.start ∧ b.start + b.size ≤ l.endAddress ∧ 8 ∣ b.start ∧ 8 ∣ b.size ∧
      0 < b.size := by
  have tiles := represents.list.tiles
  have bounds := tiles.bounds member
  rw [represents.list.pxEnd] at bounds
  exact ⟨bounds.1, bounds.2.2, tiles.aligned l.bounds.aligned member, tiles.whole member, bounds.2.1⟩

/-- There are fewer blocks than the loops have iterations. -/
theorem length_lt (represents : s.Represents l blocks) :
    blocks.length < HeapSystem.heapFuel := by
  have length := represents.list.tiles.length_le
  have bounds := l.bounds
  have inside := bounds.inside
  have beyond := bounds.beyond
  have stop := represents.list.pxEnd
  unfold configTotalHeapSize at beyond
  unfold HeapSystem.heapFuel
  omega

end Heap.Represents

/-! ## `prvHeapInit` -/

/-- Only one block exists, and it covers the entire usable heap space. -/
theorem prvHeapInit_represents (l : HeapLayout) (s : Heap) :
    (l.prvHeapInit s).Represents l
      [⟨l.pucAlignedHeap, l.endAddress - l.pucAlignedHeap, none⟩] := by
  have bounds := l.bounds
  have room := bounds.room
  have high := l.ucHeapEnd
  have beyond := bounds.beyond
  have near : l.endAddress ≠ l.pucAlignedHeap := by omega
  have first := FreeList.apart l le_rfl (by omega : l.pucAlignedHeap ≤ l.endAddress)
  have last := FreeList.apart l (by omega : l.pucAlignedHeap ≤ l.endAddress) le_rfl
  have size : wrapSub l.endAddress l.pucAlignedHeap = l.endAddress - l.pucAlignedHeap :=
    wrapSub_eq (by omega) (by omega)
  have whole : 8 ∣ l.endAddress - l.pucAlignedHeap := Nat.dvd_sub bounds.alignedEnd bounds.aligned
  have stop : l.pucAlignedHeap + (l.endAddress - l.pucAlignedHeap) = l.endAddress := by omega
  refine ⟨⟨⟨rfl, by dsimp only; omega, whole, stop⟩, rfl, ?_, ?_, ?_⟩, List.isChain_singleton _,
    ?_, ?_, ?_, rfl⟩
  · refine .cons_cons ?_ (.cons_cons ?_ (List.isChain_singleton _))
    · simp [HeapLayout.prvHeapInit, Heap.setNext, Heap.setSize, first.symm, last.symm]
    · simp [HeapLayout.prvHeapInit, Heap.setNext, Heap.setSize]
  · intro b member _
    rw [List.mem_singleton.mp member]
    simp [HeapLayout.prvHeapInit, Heap.setNext, Heap.setSize, size]
  · simp [HeapLayout.prvHeapInit, Heap.setNext, Heap.setSize, first.symm, last.symm]
  · intro b member o owner
    rw [List.mem_singleton.mp member] at owner
    cases owner
  · simp [HeapLayout.prvHeapInit, Heap.cell, Heap.setNext, Heap.setSize, near]
  · simp [HeapLayout.prvHeapInit, Heap.setNext, Heap.setSize, size]

/-! ## The top bit of a header -/

/-- The test of the top bit. -/
theorem and_topBit_eq_zero {n : Nat} (size : n < 2 ^ 32) : n &&& 2 ^ 31 = 0 ↔ n < 2 ^ 31 := by
  rw [Nat.and_two_pow, Nat.testBit_eq_decide_div_mod_eq]
  by_cases small : n < 2 ^ 31
  · rw [Nat.div_eq_of_lt small]
    simp
    omega
  · have high : n / 2 ^ 31 = 1 := by omega
    rw [high]
    simp
    omega

theorem or_topBit {n : Nat} (small : n < 2 ^ 31) : n ||| 2 ^ 31 = n + 2 ^ 31 := by
  have sum := Nat.two_pow_add_eq_or_of_lt small 1
  rw [Nat.mul_one] at sum
  rw [Nat.or_comm, ← sum, Nat.add_comm]

/-- The top bit and the rest of a header. -/
theorem header_and {n : Nat} (small : n < 2 ^ 31) :
    n + 2 ^ 31 &&& 2 ^ 31 ≠ 0 ∧ n + 2 ^ 31 &&& (2 ^ 32 - 1 - 2 ^ 31) = n := by
  constructor
  · intro zero
    have below := (and_topBit_eq_zero (by omega : n + 2 ^ 31 < 2 ^ 32)).mp zero
    omega
  · have mask : 2 ^ 32 - 1 - 2 ^ 31 = 2 ^ 31 - 1 := by decide
    rw [mask, Nat.and_two_pow_sub_one_eq_mod, Nat.add_mod_right, Nat.mod_eq_of_lt small]

/-! ## `vPortFree` -/

/-- The address of the header from the pointer. -/
theorem blockLink_eq (represents : s.Represents l blocks) (member : b ∈ blocks) :
    Heap.blockLink (b.start + 8) = b.start := by
  have bounds := represents.bounds member
  have small := represents.list.small
  rw [represents.list.pxEnd] at small
  exact wrapSub_eq (by omega) (by unfold xHeapStructSize; omega)

/-- The first part of `vPortFree` passes its assertions and writes the header of the block only. -/
theorem vPortFreeUnmark_spec (represents : s.Represents l (before ++ b :: after))
    (owner : b.owner = some .allocated) :
    ∃ s', s.vPortFreeUnmark (b.start + 8) = some s' ∧
      s'.Represents l (before ++ b.give (some .freeing) :: after) ∧ s.Writes s' [b.start] := by
  have list := represents.list
  have tiles := list.tiles
  have owned : b.isFree = false := by rw [Block.isFree, owner]; rfl
  have header := represents.headers b (by simp) .allocated owner
  have next : s.pxNextFreeBlock b.start = null := congrArg Prod.fst header
  have size : s.xBlockSize b.start = b.size + 2 ^ 31 := congrArg Prod.snd header
  obtain ⟨marked, unmarked⟩ := header_and (list.size_lt (b := b) (by simp))
  have bounds := represents.bounds (b := b) (by simp)
  have writes := s.setSize_writes b.size (List.mem_singleton_self b.start)
  refine ⟨s.setSize b.start b.size, ?_, ⟨?_, ?_, ?_, ?_, ?_, represents.allocatedBit⟩, writes⟩
  · rw [Heap.vPortFreeUnmark, blockLink_eq represents (by simp), next, size,
      represents.allocatedBit, unmarked, configAssert, configAssert,
      if_pos (bne_iff_ne.mpr marked), if_pos (beq_self_eq_true null)]
  · have uncut := (list.frame writes ?_ fun a free member => ?_).recut owned
      [b.give (some .freeing)] (by simp) ?_
    · simpa using uncut
    · simpa using (FreeList.apart l bounds.1 (by omega)).symm
    · rw [List.mem_singleton.mp member] at free
      exact tiles.notMem_freeStarts (by simp) owned le_rfl (by unfold Block.stop; omega) free
    · have replaced := tiles.replace (c := b.give (some .freeing)) rfl rfl
      rw [List.append_assoc]
      exact replaced
  · exact represents.coalesced.replace (by rw [owned]; rfl)
  · have other : ∀ c, c ∈ before ∨ c ∈ after → ∀ o, c.owner = some o →
        (s.setSize b.start b.size).cell c.start = (null, headerSize c o) := by
      intro c elsewhere o owner
      rw [writes.others c.start (by simpa using tiles.start_ne c elsewhere)]
      refine represents.headers c ?_ o owner
      rcases elsewhere with early | late
      · exact List.mem_append_left _ early
      · exact List.mem_append_right _ (.tail b late)
    intro c member o owner
    rcases List.mem_append.mp member with early | late
    · exact other c (.inl early) o owner
    · rcases List.mem_cons.mp late with rfl | late
      · cases owner
        exact Prod.ext next (Function.update_self ..)
      · exact other c (.inr late) o owner
  · rw [writes.pxEnd, writes.others s.pxEnd ?_]
    · exact represents.endMark
    · rw [list.pxEnd]
      simpa using (by omega : l.endAddress ≠ b.start)
  · have remaining := represents.remaining
    rw [freeSize_append, freeSize_cons, owned] at remaining
    rw [freeSize_append, freeSize_cons, Block.isFree_give_some]
    exact remaining

/-- The rest of `vPortFree` gives the block back. -/
theorem vPortFreeInsert_spec (represents : s.Represents l (before ++ b :: after))
    (owner : b.owner = some .freeing) {fuel : Nat} (enough : before.length < fuel) :
    ∃ s', s.vPortFreeInsert l fuel (b.start + 8) = some s' ∧
      s'.Represents l (fuse (before ++ b.give none :: after)) ∧
      Keeps l s s' (before ++ b.give none :: after) ∧
      s'.xFreeBytesRemaining = s.xFreeBytesRemaining + b.size ∧
      s'.xMinimumEverFreeBytesRemaining = s.xMinimumEverFreeBytesRemaining := by
  have list := represents.list
  have tiles := list.tiles
  have owned : b.isFree = false := by rw [Block.isFree, owner]; rfl
  have size : s.xBlockSize b.start = b.size :=
    congrArg Prod.snd (represents.headers b (by simp) .freeing owner)
  have given : Tiles 8 l.pucAlignedHeap (before ++ b.give none :: after) s.pxEnd :=
    tiles.replace rfl rfl
  have more : freeSize (before ++ b.give none :: after) = s.xFreeBytesRemaining + b.size := by
    rw [represents.remaining, freeSize_append, freeSize_append, freeSize_cons, freeSize_cons, owned,
      Block.isFree_give_none, if_pos rfl, if_neg Bool.false_ne_true, Block.give_size]
    omega
  have remaining : wrap (s.xFreeBytesRemaining + s.xBlockSize b.start) =
      freeSize (before ++ b.give none :: after) := by
    have total := given.total
    have small := list.small
    rw [size, ← more]
    exact wrap_eq (by omega)
  have behind : Coalesced after := represents.coalesced.right_of_append.tail
  have accounted : FreeList l { s with
      xFreeBytesRemaining := freeSize (before ++ b.give none :: after) } (before ++ b :: after) :=
    list.congr rfl rfl rfl
  obtain ⟨s', inserted, result, writes⟩ :=
    accounted.insert owned size represents.coalesced.left_of_append behind enough
  have keeps : Keeps l s s' (before ++ b.give none :: after) :=
    writes.keeps fun a member => mem_headers given rfl member
  have kept := keeps.headers (list.pxEnd ▸ given)
  refine ⟨s', ?_, ⟨result, fuse_coalesced _, ?_, ?_, ?_, ?_⟩, keeps, writes.remaining.trans more,
    writes.minimum⟩
  · rw [Heap.vPortFreeInsert, blockLink_eq represents (by simp), remaining]
    exact inserted
  · intro c member o owner
    have held : c.isFree = false := by rw [Block.isFree, owner]; rfl
    have inside := (mem_fuse_of_owned held).mp member
    rw [kept.1 c inside held]
    refine represents.headers c ?_ o owner
    rcases List.mem_append.mp inside with early | late
    · exact List.mem_append_left _ early
    · rcases List.mem_cons.mp late with rfl | late
      · cases owner
      · exact List.mem_append_right _ (.tail b late)
  · rw [result.pxEnd, kept.2, ← list.pxEnd]
    exact represents.endMark
  · rw [writes.remaining, freeSize_fuse given]
  · exact writes.allocatedBit.trans represents.allocatedBit

end FepMaster

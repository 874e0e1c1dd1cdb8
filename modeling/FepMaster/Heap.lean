import FepMaster.Lib.Arena
import FepMaster.Lib.LinkedList
import FepMaster.Lib.Transition

/-!
# The heap

`FreeRTOS/portable/MemMang/heap_4.c`: the allocator behind `pvPortMalloc` and `vPortFree`.  Every
block starts with a `BlockLink_t`; the free blocks are linked in the order of their addresses from
`xStart`, which is no block, to `pxEnd`, which has the size zero.

An address or a `size_t` is a number below `2^32`, and arithmetic wraps there.  The memory is given
as cells of eight bytes, each with the two words that a `BlockLink_t` at its address has; the
allocator uses only cells at multiples of eight.  A `configASSERT` that fails stops the processor,
and the loops follow links that need not end on every memory: both have no result here
(`malloc_exact` shows that it never comes to either).
-/

namespace FepMaster

open Transition

/-! ## Words -/

/-- A 32-bit result. -/
def wrap (a : Nat) : Nat := a % 2 ^ 32

/-- The 32-bit difference. -/
def wrapSub (a b : Nat) : Nat := wrap (a + 2 ^ 32 - b)

theorem wrapSub_eq {a b : Nat} (small : a < 2 ^ 32) (le : b ≤ a) : wrapSub a b = a - b := by
  have around : a + 2 ^ 32 - b = a - b + 2 ^ 32 := by omega
  rw [wrapSub, wrap, around, Nat.add_mod_right, Nat.mod_eq_of_lt (by omega)]

/-- `portBYTE_ALIGNMENT`. -/
abbrev portByteAlignment : Nat := 8

/-- `portBYTE_ALIGNMENT_MASK`. -/
abbrev portByteAlignmentMask : Nat := 7

/-- `a & ~portBYTE_ALIGNMENT_MASK`. -/
def alignDown (a : Nat) : Nat := a &&& (2 ^ 32 - 1 - portByteAlignmentMask)

/-- `configTOTAL_HEAP_SIZE`. -/
def configTotalHeapSize : Nat := 32 * 1024

/-- `xHeapStructSize`: `sizeof( BlockLink_t )` is eight, a multiple of the alignment. -/
abbrev xHeapStructSize : Nat := 8

/-- `heapMINIMUM_BLOCK_SIZE`. -/
abbrev heapMinimumBlockSize : Nat := xHeapStructSize * 2

/-- `NULL`. -/
abbrev null : Nat := 0

/-- Where the linker puts `ucHeap` and `xStart`. -/
structure HeapLayout where
  ucHeap : Nat
  xStart : Nat
  ucHeapPos : 0 < ucHeap
  ucHeapEnd : ucHeap + configTotalHeapSize < 2 ^ 32
  xStartEnd : xStart + xHeapStructSize < 2 ^ 32
  apart : xStart + xHeapStructSize ≤ ucHeap ∨ ucHeap + configTotalHeapSize ≤ xStart

/-- The memory, as the two fields of a `BlockLink_t` at each cell, and the static variables. -/
structure Heap where
  pxNextFreeBlock : Nat → Nat
  xBlockSize : Nat → Nat
  pxEnd : Nat
  xFreeBytesRemaining : Nat
  xMinimumEverFreeBytesRemaining : Nat
  xBlockAllocatedBit : Nat

namespace Heap

/-- `a->pxNextFreeBlock = p`. -/
def setNext (s : Heap) (a p : Nat) : Heap :=
  { s with pxNextFreeBlock := Function.update s.pxNextFreeBlock a p }

/-- `a->xBlockSize = size`. -/
def setSize (s : Heap) (a size : Nat) : Heap :=
  { s with xBlockSize := Function.update s.xBlockSize a size }

/-- What is in a cell. -/
def cell (s : Heap) (a : Nat) : Nat × Nat := (s.pxNextFreeBlock a, s.xBlockSize a)

/-- A store to a cell. -/
def store (s : Heap) (a : Nat) (value : Nat × Nat) : Heap :=
  (s.setNext a value.1).setSize a value.2

end Heap

/-- A `configASSERT`, and what comes after it. -/
def configAssert {α : Type} (x : Bool) (rest : Option α) : Option α := if x then rest else none

/-! ## `prvHeapInit` -/

namespace HeapLayout

variable (l : HeapLayout)

/-- `( ulAddress & portBYTE_ALIGNMENT_MASK ) != 0`. -/
def misaligned : Bool := l.ucHeap &&& portByteAlignmentMask != 0

/-- `pucAlignedHeap`. -/
def pucAlignedHeap : Nat :=
  if l.misaligned then alignDown (wrap (l.ucHeap + (portByteAlignment - 1))) else l.ucHeap

/-- `xTotalHeapSize`. -/
def xTotalHeapSize : Nat :=
  if l.misaligned then wrapSub configTotalHeapSize (wrapSub l.pucAlignedHeap l.ucHeap)
  else configTotalHeapSize

/-- The address of the end marker. -/
def endAddress : Nat :=
  alignDown (wrapSub (wrap (l.pucAlignedHeap + l.xTotalHeapSize)) xHeapStructSize)

/-- `prvHeapInit`. -/
def prvHeapInit (s : Heap) : Heap :=
  let s := s.setNext l.xStart l.pucAlignedHeap
  let s := s.setSize l.xStart 0
  let s := { s with pxEnd := l.endAddress }
  let s := s.setSize s.pxEnd 0
  let s := s.setNext s.pxEnd null
  let pxFirstFreeBlock := l.pucAlignedHeap
  let s := s.setSize pxFirstFreeBlock (wrapSub l.endAddress pxFirstFreeBlock)
  let s := s.setNext pxFirstFreeBlock s.pxEnd
  { s with
    xMinimumEverFreeBytesRemaining := s.xBlockSize pxFirstFreeBlock
    xFreeBytesRemaining := s.xBlockSize pxFirstFreeBlock
    xBlockAllocatedBit := 1 <<< 31 }

end HeapLayout

/-! ## `prvInsertBlockIntoFreeList` -/

namespace Heap

/-- The loop that finds the block to insert behind. -/
def insertPosition (s : Heap) (pxBlockToInsert : Nat) : Nat → Nat → Option Nat
  | 0, _ => none
  | fuel + 1, pxIterator =>
      if s.pxNextFreeBlock pxIterator < pxBlockToInsert then
        insertPosition s pxBlockToInsert fuel (s.pxNextFreeBlock pxIterator)
      else some pxIterator

/-- The block before and the inserted one make a contiguous block. -/
def meetsBefore (s : Heap) (pxIterator pxBlockToInsert : Nat) : Bool :=
  wrap (pxIterator + s.xBlockSize pxIterator) == pxBlockToInsert

/-- The inserted block, and the block before if the two are merged. -/
def mergeBefore (s : Heap) (pxIterator pxBlockToInsert : Nat) : Heap × Nat :=
  if s.meetsBefore pxIterator pxBlockToInsert then
    (s.setSize pxIterator (wrap (s.xBlockSize pxIterator + s.xBlockSize pxBlockToInsert)),
      pxIterator)
  else (s, pxBlockToInsert)

/-- The link of the inserted block, and its size if it is merged with the block behind it. -/
def mergeAfter (s : Heap) (pxIterator pxBlockToInsert : Nat) : Heap :=
  let next := s.pxNextFreeBlock pxIterator
  if wrap (pxBlockToInsert + s.xBlockSize pxBlockToInsert) = next then
    if next ≠ s.pxEnd then
      (s.setSize pxBlockToInsert (wrap (s.xBlockSize pxBlockToInsert + s.xBlockSize next))).setNext
        pxBlockToInsert (s.pxNextFreeBlock next)
    else s.setNext pxBlockToInsert s.pxEnd
  else s.setNext pxBlockToInsert next

/-- The link to the inserted block, unless it was merged with the block before. -/
def linkBlock (s : Heap) (pxIterator pxBlockToInsert : Nat) : Heap :=
  if pxIterator ≠ pxBlockToInsert then s.setNext pxIterator pxBlockToInsert else s

/-- `prvInsertBlockIntoFreeList` from the block on that the loop finds. -/
def insertAt (s : Heap) (pxBlockToInsert pxIterator : Nat) : Heap :=
  let merged := s.mergeBefore pxIterator pxBlockToInsert
  (merged.1.mergeAfter pxIterator merged.2).linkBlock pxIterator merged.2

/-- `prvInsertBlockIntoFreeList`. -/
def prvInsertBlockIntoFreeList (l : HeapLayout) (fuel : Nat) (s : Heap) (pxBlockToInsert : Nat) :
    Option Heap :=
  (s.insertPosition pxBlockToInsert fuel l.xStart).map (s.insertAt pxBlockToInsert)

/-! ## `pvPortMalloc` -/

/-- The size of the block for `xWantedSize` bytes. -/
def blockSize (xWantedSize : Nat) : Option Nat :=
  if 0 < xWantedSize then
    let xWantedSize := wrap (xWantedSize + xHeapStructSize)
    if xWantedSize &&& portByteAlignmentMask ≠ 0 then
      let xWantedSize :=
        wrap (xWantedSize + (portByteAlignment - (xWantedSize &&& portByteAlignmentMask)))
      configAssert (xWantedSize &&& portByteAlignmentMask == 0) (some xWantedSize)
    else some xWantedSize
  else some xWantedSize

/-- The loop that finds a block of adequate size: `pxPreviousBlock` and `pxBlock`. -/
def findBlock (s : Heap) (xWantedSize : Nat) : Nat → Nat → Nat → Option (Nat × Nat)
  | 0, _, _ => none
  | fuel + 1, pxPreviousBlock, pxBlock =>
      if s.xBlockSize pxBlock < xWantedSize ∧ s.pxNextFreeBlock pxBlock ≠ null then
        findBlock s xWantedSize fuel pxBlock (s.pxNextFreeBlock pxBlock)
      else some (pxPreviousBlock, pxBlock)

/-- A block that is larger than required is split into two. -/
def splitBlock (l : HeapLayout) (fuel : Nat) (s : Heap) (pxBlock xWantedSize : Nat) : Option Heap :=
  if heapMinimumBlockSize < wrapSub (s.xBlockSize pxBlock) xWantedSize then
    let pxNewBlockLink := wrap (pxBlock + xWantedSize)
    configAssert (pxNewBlockLink &&& portByteAlignmentMask == 0) <|
      let s := s.setSize pxNewBlockLink (wrapSub (s.xBlockSize pxBlock) xWantedSize)
      let s := s.setSize pxBlock xWantedSize
      s.prvInsertBlockIntoFreeList l fuel pxNewBlockLink
  else some s

/-- A new value of `xFreeBytesRemaining`, and the least one there was. -/
def setRemaining (s : Heap) (remaining : Nat) : Heap :=
  let s := { s with xFreeBytesRemaining := remaining }
  if s.xFreeBytesRemaining < s.xMinimumEverFreeBytesRemaining then
    { s with xMinimumEverFreeBytesRemaining := s.xFreeBytesRemaining }
  else s

/-- The accounts of a block that is taken, and its header. -/
def markAllocated (s : Heap) (pxBlock : Nat) : Heap :=
  let s := s.setRemaining (wrapSub s.xFreeBytesRemaining (s.xBlockSize pxBlock))
  let s := s.setSize pxBlock (s.xBlockSize pxBlock ||| s.xBlockAllocatedBit)
  s.setNext pxBlock null

/-- The block that was found is taken out of the list; with it `pvReturn`. -/
def takeBlock (l : HeapLayout) (fuel : Nat) (s : Heap) (pxPreviousBlock pxBlock xWantedSize : Nat) :
    Option (Heap × Nat) :=
  let pvReturn := wrap (s.pxNextFreeBlock pxPreviousBlock + xHeapStructSize)
  let s := s.setNext pxPreviousBlock (s.pxNextFreeBlock pxBlock)
  (s.splitBlock l fuel pxBlock xWantedSize).map fun s => (s.markAllocated pxBlock, pvReturn)

/-- `pvPortMalloc` while the scheduler is suspended, on a heap that is initialised. -/
def mallocLocked (l : HeapLayout) (fuel : Nat) (s : Heap) (xWantedSize : Nat) :
    Option (Heap × Nat) :=
  if xWantedSize &&& s.xBlockAllocatedBit = 0 then
    (blockSize xWantedSize).bind fun xWantedSize =>
      if 0 < xWantedSize ∧ xWantedSize ≤ s.xFreeBytesRemaining then
        (s.findBlock xWantedSize fuel l.xStart (s.pxNextFreeBlock l.xStart)).bind fun found =>
          if found.2 ≠ s.pxEnd then s.takeBlock l fuel found.1 found.2 xWantedSize
          else some (s, null)
      else some (s, null)
  else some (s, null)

/-- The heap that a call works on. -/
def initialised (l : HeapLayout) (s : Heap) : Heap := if s.pxEnd = null then l.prvHeapInit s else s

/-- `pvPortMalloc`.  When it has no block it does not return `NULL` but stays in
`vApplicationMallocFailedHook`. -/
def pvPortMalloc (l : HeapLayout) (fuel : Nat) (s : Heap) (xWantedSize : Nat) :
    Option (Heap × Nat) :=
  ((s.initialised l).mallocLocked l fuel xWantedSize).bind fun result =>
    configAssert (result.2 &&& portByteAlignmentMask == 0) (some result)

/-! ## `vPortFree` -/

/-- The header of a block that is freed. -/
def blockLink (pv : Nat) : Nat := wrapSub pv xHeapStructSize

/-- `vPortFree` up to the call of `vTaskSuspendAll`: other tasks may run before the rest.  What the
two `if`s ask was asserted. -/
def vPortFreeUnmark (s : Heap) (pv : Nat) : Option Heap :=
  let pxLink := blockLink pv
  configAssert (s.xBlockSize pxLink &&& s.xBlockAllocatedBit != 0) <|
    configAssert (s.pxNextFreeBlock pxLink == null) <|
      some (s.setSize pxLink (s.xBlockSize pxLink &&& (2 ^ 32 - 1 - s.xBlockAllocatedBit)))

/-- The rest of `vPortFree`, with the scheduler suspended. -/
def vPortFreeInsert (l : HeapLayout) (fuel : Nat) (s : Heap) (pv : Nat) : Option Heap :=
  let pxLink := blockLink pv
  let s := { s with
    xFreeBytesRemaining := wrap (s.xFreeBytesRemaining + s.xBlockSize pxLink) }
  s.prvInsertBlockIntoFreeList l fuel pxLink

/-- `vPortFree`, when no other task runs in between. -/
def vPortFree (l : HeapLayout) (fuel : Nat) (s : Heap) (pv : Nat) : Option Heap :=
  if pv ≠ null then (s.vPortFreeUnmark pv).bind fun s => s.vPortFreeInsert l fuel pv else some s

end Heap

/-! ## Tasks that use the heap -/

/-- What a task knows of a block it was given: how much it asked for, and what it last found or
stored in its cells. -/
structure Allocation where
  wanted : Nat
  contents : Nat → Nat × Nat

/-- The heap, the blocks the tasks have, and those for which `vPortFree` is half done. -/
structure HeapSystem where
  heap : Heap
  live : Nat → Option Allocation
  freeing : Nat → Bool

/-- A call of `pvPortMalloc`, a store to a cell of a block, and the two parts of a call of
`vPortFree`. -/
inductive HeapAct
  | malloc (xWantedSize : Nat)
  | store (pv a : Nat) (value : Nat × Nat)
  | unmark (pv : Nat)
  | insert (pv : Nat)

/-- The cells that the bytes a task asked for lie in. -/
def Allocation.covers (b : Allocation) (pv a : Nat) : Prop :=
  portByteAlignment ∣ a ∧ pv ≤ a ∧ a < pv + b.wanted

instance (b : Allocation) (pv a : Nat) : Decidable (b.covers pv a) :=
  inferInstanceAs (Decidable (_ ∧ _))

namespace HeapSystem

/-- Enough for every walk through the list: the heap has fewer cells than that. -/
abbrev heapFuel : Nat := 4096

/-- `pvPortMalloc` and its caller. -/
def malloc (l : HeapLayout) (s : HeapSystem) (xWantedSize : Nat) : Option HeapSystem :=
  (s.heap.pvPortMalloc l heapFuel xWantedSize).map fun result =>
    if result.2 = null then { s with heap := result.1 }
    else { s with
      heap := result.1
      live := Function.update s.live result.2 (some ⟨xWantedSize, result.1.cell⟩) }

/-- A store to a cell of a block. -/
def storeCell (s : HeapSystem) (pv a : Nat) (value : Nat × Nat) : Option HeapSystem :=
  (s.live pv).bind fun b =>
    if b.covers pv a then
      some { s with
        heap := s.heap.store a value
        live := Function.update s.live pv
          (some { b with contents := Function.update b.contents a value }) }
    else none

/-- The first part of `vPortFree`, called for a block the task has. -/
def unmark (s : HeapSystem) (pv : Nat) : Option HeapSystem :=
  if (s.live pv).isSome then
    (s.heap.vPortFreeUnmark pv).map fun heap =>
      { heap := heap
        live := Function.update s.live pv none
        freeing := Function.update s.freeing pv true }
  else none

/-- The rest of it. -/
def insert (l : HeapLayout) (s : HeapSystem) (pv : Nat) : Option HeapSystem :=
  if s.freeing pv then
    (s.heap.vPortFreeInsert l heapFuel pv).map fun heap =>
      { s with heap := heap, freeing := Function.update s.freeing pv false }
  else none

/-- One step of some task; a `size_t` is below `2^32`. -/
def step (l : HeapLayout) (s : HeapSystem) : HeapAct → Option HeapSystem
  | .malloc xWantedSize => if xWantedSize < 2 ^ 32 then s.malloc l xWantedSize else none
  | .store pv a value => s.storeCell pv a value
  | .unmark pv => s.unmark pv
  | .insert pv => s.insert l pv

end HeapSystem

/-- Any tasks, in any order, before the first call of `pvPortMalloc`. -/
def heapLts (l : HeapLayout) : Lts HeapSystem HeapAct where
  Init s := s.heap.pxEnd = null ∧ (∀ pv, s.live pv = none) ∧ ∀ pv, s.freeing pv = false
  step s a := s.step l a

end FepMaster

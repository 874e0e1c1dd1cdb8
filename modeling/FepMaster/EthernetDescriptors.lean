import FepMaster.EthernetLink
import FepMaster.Lib.Chunk
import FepMaster.Lib.Memory
import FepMaster.Lib.Ring

/-!
# Ethernet DMA descriptors

The descriptors and buffers through which `Drivers/Ethernet/stm32_eth.c` and the DMA exchange
frames, in both directions: a ring of descriptors chained by `Buffer2NextDescAddr`, each with one
row of the buffer array.  The `OWN` bit of a status word says whether the DMA or the processor may
use the descriptor and its buffer.

A descriptor address is its index in the table, and the address of a row of the buffers is the index
of the row.
-/

namespace FepMaster

open Ring Memory Chunk

/-- `ETH_DMADESCTypeDef`, in a table of `n`. -/
structure EthDmaDesc (n : Nat) where
  status : Word
  controlBufferSize : Word
  buffer1Addr : Fin n
  buffer2NextDescAddr : Fin n
  deriving DecidableEq

/-- `ETH_MAX_PACKET_SIZE`. -/
def ethMaxPacketSize : Nat := 1524

/-- Each descriptor has its own row and leads to the next one; the last leads to the first. -/
def Chained {n : Nat} [NeZero n] (tab : Fin n → EthDmaDesc n) : Prop :=
  ∀ d : Fin n, (tab d).buffer1Addr = d ∧ (tab d).buffer2NextDescAddr = slot n (d.val + 1)

/-- The loop of `ETH_DMATxDescChainInit` and `ETH_DMARxDescChainInit`, with what each writes to the
first two words. -/
def descChainInit (n : Nat) [NeZero n] (status controlBufferSize : Fin n → Word) (i : Fin n) :
    EthDmaDesc n where
  status := status i
  controlBufferSize := controlBufferSize i
  buffer1Addr := i
  buffer2NextDescAddr := if next : i.val < n - 1 then ⟨i.val + 1, by omega⟩ else slot n 0

/-- The first pieces of a frame are in the buffers from position `base` on. -/
def Stored {n : Nat} [NeZero n] (size : Nat) (buff : Fin n → Nat → UInt8) (base : Nat)
    (frame : List UInt8) (count : Nat) : Prop :=
  ∀ j < count, read (buff (slot n (base + j))) 0 (chunk size frame j).length = chunk size frame j

section Stored

variable {n : Nat} [NeZero n] {size base count count' : Nat} {buff : Fin n → Nat → UInt8}
  {frame frame' : List UInt8}

/-- Where a byte of a frame is. -/
theorem Stored.byte (stored : Stored size buff base frame count)
    (covers : frame.length ≤ count * size) {i : Nat} (below : i < frame.length) :
    buff (slot n (base + i / size)) (i % size) = frame[i] := by
  have positive : 0 < size := by
    by_contra zero
    rw [Nat.eq_zero_of_not_pos zero] at covers
    omega
  have split := Nat.div_add_mod i size
  have rest := Nat.mod_lt i positive
  have early : i / size < count := Nat.div_lt_of_lt_mul (by rw [Nat.mul_comm]; omega)
  have inside : i % size < (chunk size frame (i / size)).length := by
    rw [chunk_length, Nat.mul_comm]
    omega
  have same := congrArg (fun l => l[i % size]?) (stored (i / size) early)
  rw [List.getElem?_eq_getElem (by rwa [read_length]), List.getElem?_eq_getElem inside,
    Option.some.injEq, getElem_read, Nat.zero_add] at same
  rw [same]
  simp only [chunk, List.getElem_take, List.getElem_drop]
  congr 1
  rw [Nat.mul_comm, split]

/-- Two frames in the same buffers agree as far as both go. -/
theorem Stored.agree (one : Stored size buff base frame count)
    (covers : frame.length ≤ count * size) (other : Stored size buff base frame' count')
    (covers' : frame'.length ≤ count' * size) :
    frame.take frame'.length = frame'.take frame.length := by
  apply List.ext_getElem
  · rw [List.length_take, List.length_take, Nat.min_comm]
  · intro i below below'
    rw [List.length_take] at below below'
    rw [List.getElem_take, List.getElem_take, ← one.byte covers (by omega),
      other.byte covers' (by omega)]

end Stored

section Chain

variable {n : Nat} [NeZero n] {tab : Fin n → EthDmaDesc n}

theorem descChainInit_chained (status controlBufferSize : Fin n → Word) :
    Chained (descChainInit n status controlBufferSize) := by
  intro d
  refine ⟨rfl, ?_⟩
  have last := d.isLt
  unfold descChainInit
  dsimp only
  split
  · next next => rw [Fin.ext_iff, slot_val, Nat.mod_eq_of_lt (by omega)]
  · next next =>
      have whole : d.val + 1 = 0 + n := by omega
      rw [whole, slot_add_size]

theorem Chained.next (chained : Chained tab) (k : Nat) :
    (tab (slot n k)).buffer2NextDescAddr = slot n (k + 1) := by
  rw [(chained (slot n k)).2]
  exact slot_succ_congr (slot_of_fin _)

/-- A write to the first two words of a descriptor. -/
theorem Chained.update (chained : Chained tab) (d : Fin n) (status controlBufferSize : Word) :
    Chained (Function.update tab d
      { tab d with status := status, controlBufferSize := controlBufferSize }) := by
  intro i
  by_cases same : i = d
  · subst same
    rw [Function.update_self]
    exact chained i
  · rw [Function.update_of_ne same]
    exact chained i

end Chain

end FepMaster

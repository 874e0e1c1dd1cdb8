import FepMaster.EthernetTransmit

/-!
# The transmit descriptors

The descriptors that the DMA owns are a queue of segments (`EthTx.given`).  A copy into a buffer
that it does not own leaves the queue as it is (`given_memcpy`); handing a descriptor over adds a
segment (`given_giveDesc`); the DMA takes from the front (`Ready.take`).
-/

namespace FepMaster

open Transition Register Ring Memory Chunk

namespace EthTx

variable {s : EthTx} {d : Fin ethTxBufNb}

/-! ## The descriptors as a queue -/

/-- What the DMA has been given through a descriptor. -/
def given (s : EthTx) (d : Fin ethTxBufNb) : Option TxSegment :=
  if s.owned d then some (s.segment d) else none

theorem given_eq_none : s.given d = none ↔ s.owned d = false := by
  unfold given
  cases s.owned d <;> simp

theorem txBuff_memcpy (chained : Chained s.dmaTxDscrTab) (offset : Nat) (data : List UInt8) :
    (s.memcpy d offset data).txBuff =
      Function.update s.txBuff d (write (s.txBuff d) offset data) := by
  unfold memcpy
  rw [(chained d).1]

/-- A copy changes what is read through its own descriptor only. -/
theorem segment_memcpy (chained : Chained s.dmaTxDscrTab) {e : Fin ethTxBufNb} (apart : e ≠ d)
    (offset : Nat) (data : List UInt8) : (s.memcpy d offset data).segment e = s.segment e := by
  have table : (s.memcpy d offset data).dmaTxDscrTab = s.dmaTxDscrTab := rfl
  unfold segment
  rw [table, txBuff_memcpy chained, (chained e).1, Function.update_of_ne apart]

/-- A buffer that the DMA does not own can be written. -/
theorem given_memcpy (chained : Chained s.dmaTxDscrTab) (free : s.owned d = false) (offset : Nat)
    (data : List UInt8) : (s.memcpy d offset data).given = s.given := by
  funext e
  by_cases same : e = d
  · rw [same, given_eq_none.mpr free]
    exact given_eq_none.mpr free
  · unfold given
    rw [segment_memcpy chained same]
    rfl

/-! ## A descriptor is handed over -/

theorem isSet_givenStatus (status : Word) (count i : Nat) :
    isSet ethDmaTxDescOwn (givenStatus status count i) = true ∧
      isSet ethDmaTxDescFs (givenStatus status count i) = (count == 1 || i == 0) ∧
      isSet ethDmaTxDescLs (givenStatus status count i) = (count == 1 || i == count - 1) := by
  have own : isSet ethDmaTxDescOwn ethDmaTxDescOwn = true := by decide
  have first : isSet ethDmaTxDescFs ethDmaTxDescFs = true := by decide
  have last : isSet ethDmaTxDescLs ethDmaTxDescLs = true := by decide
  have ownFirst : isSet ethDmaTxDescFs ethDmaTxDescOwn = false := by decide
  have ownLast : isSet ethDmaTxDescLs ethDmaTxDescOwn = false := by decide
  have lastFirst : isSet ethDmaTxDescFs ethDmaTxDescLs = false := by decide
  have firstLast : isSet ethDmaTxDescLs ethDmaTxDescFs = false := by decide
  have clearFirst : isSet ethDmaTxDescFs
      (status &&& ~~~(ethDmaTxDescFs ||| ethDmaTxDescLs)) = false := isSet_and _ (by decide)
  have clearLast : isSet ethDmaTxDescLs
      (status &&& ~~~(ethDmaTxDescFs ||| ethDmaTxDescLs)) = false := isSet_and _ (by decide)
  unfold givenStatus
  refine ⟨?_, ?_, ?_⟩ <;> split_ifs <;> simp_all [isSet_or]

/-- The size field is wide enough for a buffer. -/
theorem toNat_size {size : Nat} (small : size ≤ ethTxBufSize) :
    ((BitVec.ofNat 32 size &&& ethDmaTxDescTbs1) &&& ethDmaTxDescTbs1).toNat = size := by
  have field : ethDmaTxDescTbs1.toNat = 2 ^ 13 - 1 := by decide
  rw [ethTxBufSize_eq] at small
  rw [BitVec.and_assoc, BitVec.and_self, BitVec.toNat_and, BitVec.toNat_ofNat, field,
    Nat.and_two_pow_sub_one_eq_mod, Nat.mod_eq_of_lt (by omega), Nat.mod_eq_of_lt (by omega)]

/-- The size word is the length of the chunk. -/
theorem toNat_givenSize {frame : List UInt8} {i : Nat} (below : i < bufCount frame.length) :
    (givenSize frame.length (bufCount frame.length) i &&& ethDmaTxDescTbs1).toNat =
      (chunk ethTxBufSize frame i).length := by
  have within := bufCount_bounds frame.length
  generalize bufCount frame.length = count at *
  rw [ethTxBufSize_eq] at within
  rw [chunk_length]
  unfold givenSize
  split_ifs with single last
  · rw [toNat_size (by rw [ethTxBufSize_eq]; omega), ethTxBufSize_eq]
    omega
  · rw [ethTxBufSize_eq, ← last, toNat_size (by rw [ethTxBufSize_eq]; omega)]
    omega
  · rw [toNat_size (Nat.le_refl _), ethTxBufSize_eq]
    omega

/-- A write to one descriptor changes what is given through it only. -/
theorem given_update {s' : EthTx} {desc : EthDmaDesc ethTxBufNb}
    (table : s'.dmaTxDscrTab = Function.update s.dmaTxDscrTab d desc)
    (buffers : s'.txBuff = s.txBuff) : s'.given = Function.update s.given d (s'.given d) := by
  funext e
  by_cases same : e = d
  · rw [same, Function.update_self]
  · rw [Function.update_of_ne same]
    unfold given owned segment
    rw [buffers, table, Function.update_of_ne same]

theorem giveDesc_txBuff (frameLength count i : Nat) :
    (s.giveDesc frameLength count i d).txBuff = s.txBuff := by
  unfold giveDesc
  dsimp only
  split_ifs <;> rfl

theorem giveDesc_table (frameLength count i : Nat) :
    (s.giveDesc frameLength count i d).dmaTxDscrTab = Function.update s.dmaTxDscrTab d
      { s.dmaTxDscrTab d with
        status := givenStatus (s.dmaTxDscrTab d).status count i
        controlBufferSize := givenSize frameLength count i } := by
  unfold giveDesc
  dsimp only
  split_ifs <;> rfl

/-- After the last descriptor the next frame goes to the one behind it. -/
theorem giveDesc_last (frameLength : Nat) {count i : Nat} (last : i + 1 = count) :
    (s.giveDesc frameLength count i d).pc = .resume ∧
      (s.giveDesc frameLength count i d).dmaTxDescToSet =
        (s.dmaTxDscrTab d).buffer2NextDescAddr := by
  unfold giveDesc
  rw [if_pos last]
  exact ⟨rfl, rfl⟩

theorem giveDesc_more {frameLength count i : Nat} (more : i + 1 ≠ count) :
    (s.giveDesc frameLength count i d).pc =
      .give frameLength count (i + 1) (s.dmaTxDscrTab d).buffer2NextDescAddr := by
  unfold giveDesc
  rw [if_neg more]

theorem giveDesc_rest (frameLength count i : Nat) :
    (s.giveDesc frameLength count i d).dma = s.dma ∧
      (s.giveDesc frameLength count i d).tbus = s.tbus ∧
      (s.giveDesc frameLength count i d).suspended = s.suspended := by
  unfold giveDesc
  dsimp only
  split_ifs <;> exact ⟨rfl, rfl, rfl⟩

/-- What the DMA is given with descriptor `i` of a frame whose chunk is in the buffer. -/
theorem given_giveDesc (chained : Chained s.dmaTxDscrTab) {frame : List UInt8} {i : Nat}
    (below : i < bufCount frame.length)
    (stored : read (s.txBuff d) 0 (chunk ethTxBufSize frame i).length =
      chunk ethTxBufSize frame i) :
    (s.giveDesc frame.length (bufCount frame.length) i d).given =
      Function.update s.given d (some (segmentOf frame i)) := by
  obtain ⟨own, first, last⟩ :=
    isSet_givenStatus (s.dmaTxDscrTab d).status (bufCount frame.length) i
  rw [given_update (giveDesc_table ..) (giveDesc_txBuff ..)]
  unfold given owned segment segmentOf
  rw [giveDesc_txBuff, giveDesc_table, Function.update_self, own, if_pos rfl, first, last,
    toNat_givenSize below, (chained d).1, stored]
  have isFirst : (bufCount frame.length == 1 || i == 0) = (i == 0) := by
    rw [Bool.eq_iff_iff]
    simp
    omega
  have isLast : (bufCount frame.length == 1 || i == bufCount frame.length - 1) =
      (i + 1 == bufCount frame.length) := by
    rw [Bool.eq_iff_iff]
    simp
    omega
  rw [isFirst, isLast]

/-! ## The DMA takes a descriptor -/

/-- The DMA returns the descriptor it has taken. -/
theorem isSet_closed (status flags : Word) : isSet ethDmaTxDescOwn (closed status flags) = false := by
  unfold closed
  rw [isSet_or, isSet_and status (by decide), isSet_and flags (by decide)]
  rfl

theorem dmaTake_table (flags : Word) :
    (s.dmaTake flags).dmaTxDscrTab = Function.update s.dmaTxDscrTab s.dma
      { s.dmaTxDscrTab s.dma with status := closed (s.dmaTxDscrTab s.dma).status flags } := rfl

theorem given_dmaTake (flags : Word) :
    (s.dmaTake flags).given = Function.update s.given s.dma none := by
  have vacant : (s.dmaTake flags).given s.dma = none := by
    rw [given_eq_none]
    unfold owned
    rw [dmaTake_table, Function.update_self]
    exact isSet_closed ..
  rw [given_update (dmaTake_table flags) rfl, vacant]

/-- The ring with the DMA at position `head` and `queued` still to be taken. -/
structure Ready (s : EthTx) (head : Nat) (queued : List TxSegment) : Prop where
  chained : Chained s.dmaTxDscrTab
  dma : s.dma = slot ethTxBufNb head
  queue : Queue s.given head queued
  unavailable : s.suspended = true → s.tbus = true

variable {s' : EthTx} {head : Nat} {queued : List TxSegment}

/-- The DMA takes the segment at the front. -/
theorem Ready.take (ready : s.Ready head queued) (owned : s.owned s.dma = true) (flags : Word) :
    ∃ rest, queued = s.segment s.dma :: rest ∧ (s.dmaTake flags).Ready (head + 1) rest := by
  have front := ready.queue.front
  have found : s.given s.dma = some (s.segment s.dma) := if_pos owned
  rw [← ready.dma, found] at front
  obtain ⟨rest, rfl⟩ := List.head?_eq_some_iff.mp front.symm
  refine ⟨rest, rfl, ready.chained.update s.dma _ _, ?_, ?_, ready.unavailable⟩
  · rw [← ready.chained.next, ← ready.dma]
    rfl
  · have queue := ready.queue.pop
    rw [given_dmaTake, ready.dma]
    exact queue

/-- It finds none only if nothing is left. -/
theorem Ready.suspend (ready : s.Ready head queued) (free : s.owned s.dma = false) :
    queued = [] ∧ Ready { s with suspended := true, tbus := true } head queued := by
  have front := ready.queue.front
  rw [← ready.dma, given_eq_none.mpr free] at front
  exact ⟨List.head?_eq_none_iff.mp front.symm, ready.chained, ready.dma, ready.queue, fun _ => rfl⟩

/-- A segment is added at the back. -/
theorem Ready.give (ready : s.Ready head queued) {frame : List UInt8} {i : Nat}
    (place : d = slot ethTxBufNb (head + queued.length)) (room : queued.length < ethTxBufNb)
    (below : i < bufCount frame.length)
    (stored : read (s.txBuff d) 0 (chunk ethTxBufSize frame i).length =
      chunk ethTxBufSize frame i) :
    (s.giveDesc frame.length (bufCount frame.length) i d).Ready head
      (queued ++ [segmentOf frame i]) := by
  obtain ⟨dma, tbus, suspended⟩ :=
    giveDesc_rest (s := s) (d := d) frame.length (bufCount frame.length) i
  refine ⟨?_, dma.trans ready.dma, ?_, ?_⟩
  · rw [giveDesc_table]
    exact ready.chained.update d _ _
  · rw [given_giveDesc ready.chained below stored, place]
    exact ready.queue.push room _
  · rw [tbus, suspended]
    exact ready.unavailable

/-- A step of the DMA. -/
theorem dmaStep_cases {flags : Word} (taken : s.dmaStep flags = some s') :
    s.suspended = false ∧
      ((s.owned s.dma = true ∧ s' = s.dmaTake flags) ∨
        (s.owned s.dma = false ∧ s' = { s with suspended := true, tbus := true })) := by
  unfold dmaStep at taken
  split_ifs at taken with suspended owned
  · exact ⟨Bool.eq_false_of_not_eq_true suspended, .inl ⟨owned, (Option.some.inj taken).symm⟩⟩
  · exact ⟨Bool.eq_false_of_not_eq_true suspended,
      .inr ⟨Bool.eq_false_of_not_eq_true owned, (Option.some.inj taken).symm⟩⟩

/-! ## A frame is copied -/

/-- The copy stands at descriptor `c` of those from position `base` on, with `done` copied. -/
structure Copied (txBuff : Fin ethTxBufNb → Nat → UInt8) (base c : Nat) (done : List UInt8)
    (l : TxLocals) : Prop where
  desc : l.dmaTxDesc = slot ethTxBufNb (base + c)
  small : c < ethTxBufNb
  within : l.bufferoffset ≤ ethTxBufSize
  length : done.length = c * ethTxBufSize + l.bufferoffset
  framelength : l.framelength = done.length
  stored : Stored ethTxBufSize txBuff base done (c + 1)

variable {base c : Nat} {done : List UInt8} {l : TxLocals}

theorem copied_start (s : EthTx) (toSet : s.dmaTxDescToSet = slot ethTxBufNb base) :
    Copied s.txBuff base 0 [] ⟨s.dmaTxDescToSet, 0, 0⟩ where
  desc := toSet
  small := Nat.pos_of_neZero _
  within := Nat.zero_le _
  length := by simp
  framelength := rfl
  stored j _ := by simp [chunk]

/-- More data is copied into the buffer. -/
theorem Copied.memcpy (copied : Copied s.txBuff base c done l) (chained : Chained s.dmaTxDscrTab)
    (data : List UInt8) (fits : data.length + l.bufferoffset ≤ ethTxBufSize) :
    Copied (s.memcpy l.dmaTxDesc l.bufferoffset data).txBuff base c (done ++ data) { l with
      bufferoffset := l.bufferoffset + data.length
      framelength := (l.framelength + data.length) % 65536 } where
  desc := copied.desc
  small := copied.small
  within := by
    show l.bufferoffset + data.length ≤ _
    omega
  length := by
    rw [List.length_append, copied.length]
    exact Nat.add_assoc ..
  framelength := by
    have small : c < 5 := copied.small
    have length := copied.length
    rw [ethTxBufSize_eq] at *
    rw [List.length_append, copied.framelength]
    exact Nat.mod_eq_of_lt (by omega)
  stored j below := by
    have length := copied.length
    have small := copied.small
    rw [txBuff_memcpy chained, copied.desc]
    rcases Nat.lt_or_eq_of_le (Nat.le_of_lt_succ below) with before | rfl
    · have full : (j + 1) * ethTxBufSize ≤ done.length := by
        rw [ethTxBufSize_eq] at *
        omega
      rw [Function.update_of_ne (slot_ne (by omega) (by omega)), chunk_append_before full]
      exact copied.stored j below
    · have last : (chunk ethTxBufSize done j).length = l.bufferoffset := by
        rw [chunk_length, length, Nat.add_sub_cancel_left]
        exact Nat.min_eq_right copied.within
      have before := copied.stored j below
      rw [last] at before
      rw [Function.update_self, chunk_append_last (by omega)
        (by rw [List.length_append, Nat.succ_mul]; omega), List.length_append, last]
      have written := read_write_snoc (s.txBuff (slot ethTxBufNb (base + j))) 0 l.bufferoffset data
      rw [Nat.zero_add, before] at written
      exact written

/-- The copy goes on in the next buffer. -/
theorem Copied.next {txBuff : Fin ethTxBufNb → Nat → UInt8} (copied : Copied txBuff base c done l)
    (full : l.bufferoffset = ethTxBufSize) (small : c + 1 < ethTxBufNb) :
    Copied txBuff base (c + 1) done { l with
      dmaTxDesc := slot ethTxBufNb (base + (c + 1))
      bufferoffset := 0 } where
  desc := rfl
  small := small
  within := Nat.zero_le _
  length := by
    rw [copied.length, full, Nat.succ_mul]
    exact (Nat.add_zero _).symm
  framelength := copied.framelength
  stored j below := by
    rcases Nat.lt_or_eq_of_le (Nat.le_of_lt_succ below) with before | rfl
    · exact copied.stored j before
    · rw [chunk_beyond (by rw [copied.length, full, Nat.succ_mul])]
      exact read_zero ..

end EthTx

end FepMaster

import FepMaster.DeviceListRuns
import FepMaster.HeapSafety

/-!
# Runs of the heap

What holds in every run of tasks that use the allocator as its contract asks: blocks are safe
(`heap_safety`), a request is refused only when no stretch of free addresses can hold it
(`malloc_exact`), no call is ever stuck (`heap_calls_return`), the accounts are right
(`heap_accounts`), and a heap that got everything back is as new (`heap_released`).
-/

namespace FepMaster

open Arena LinkedList Transition

namespace HeapSystem

variable {l : HeapLayout} {s s' : HeapSystem} {blocks : List HeapBlock}

/-- A task has the block, or is giving it back. -/
def held (s : HeapSystem) (pv : Nat) : Prop := (s.live pv).isSome = true ∨ s.freeing pv = true

/-- The bytes the block takes with its header: the size there without the top bit. -/
def extent (s : HeapSystem) (pv : Nat) : Nat :=
  s.heap.xBlockSize (pv - xHeapStructSize) % 2 ^ 31

/-- No block that is held meets these addresses of the heap. -/
def clear (l : HeapLayout) (s : HeapSystem) (a w : Nat) : Prop :=
  l.pucAlignedHeap ≤ a ∧ a + w ≤ l.endAddress ∧
    ∀ pv, s.held pv → a + w ≤ pv - xHeapStructSize ∨ pv - xHeapStructSize + s.extent pv ≤ a

/-! ## What is held -/

theorem Sound.live_block (sound : s.Sound l blocks) {pv : Nat} (live : (s.live pv).isSome = true) :
    ∃ b ∈ blocks, ∃ given, Fits s.heap pv given b := by
  obtain ⟨given, known⟩ := Option.isSome_iff_exists.mp live
  obtain ⟨b, member, fits⟩ := sound.live pv given known
  exact ⟨b, member, given, fits⟩

theorem Sound.held_iff (sound : s.Sound l blocks) (pv : Nat) :
    s.held pv ↔ ∃ block ∈ blocks, block.start + 8 = pv ∧ block.isFree = false := by
  constructor
  · intro held
    rcases held with live | freeing
    · obtain ⟨block, member, given, fits⟩ := sound.live_block live
      exact ⟨block, member, fits.start, isFree_of_owner fits.owner⟩
    · obtain ⟨block, member, start, owner⟩ := (sound.freeing pv).mp freeing
      exact ⟨block, member, start, isFree_of_owner owner⟩
  · intro owned
    rcases owned with ⟨block, member, rfl, owned⟩
    cases owner : block.owner with
    | none =>
        rw [Block.isFree, owner] at owned
        cases owned
    | some o =>
        cases o with
        | allocated => exact .inl (sound.known block member owner)
        | freeing => exact .inr ((sound.freeing _).mpr ⟨block, member, rfl, owner⟩)

theorem Sound.extent_eq (sound : s.Sound l blocks) {block : HeapBlock} (member : block ∈ blocks)
    (owned : block.isFree = false) : s.extent (block.start + 8) = block.size := by
  have small := sound.represents.list.size_lt member
  cases owner : block.owner with
  | none =>
      rw [Block.isFree, owner] at owned
      cases owned
  | some o =>
      have header := congrArg Prod.snd (sound.represents.headers block member o owner)
      have size : s.heap.xBlockSize block.start = headerSize block o := header
      rw [extent, Nat.add_sub_cancel, size]
      cases o with
      | allocated => rw [headerSize, Nat.add_mod_right, Nat.mod_eq_of_lt small]
      | freeing => rw [headerSize, Nat.mod_eq_of_lt small]

/-- Clear addresses are those that no owned block meets. -/
theorem Sound.clear_iff (sound : s.Sound l blocks) (a w : Nat) :
    clear l s a w ↔ l.pucAlignedHeap ≤ a ∧ a + w ≤ l.endAddress ∧
      ∀ block ∈ blocks, block.isFree = false → a + w ≤ block.start ∨ block.stop ≤ a := by
  have around : (∀ pv, s.held pv →
      a + w ≤ pv - xHeapStructSize ∨ pv - xHeapStructSize + s.extent pv ≤ a) ↔
      ∀ block ∈ blocks, block.isFree = false → a + w ≤ block.start ∨ block.stop ≤ a := by
    constructor
    · intro clear block member owned
      have apart := clear _ ((sound.held_iff _).mpr ⟨block, member, rfl, owned⟩)
      rwa [sound.extent_eq member owned, Nat.add_sub_cancel] at apart
    · intro clear pv held
      obtain ⟨block, member, rfl, owned⟩ := (sound.held_iff pv).mp held
      rw [sound.extent_eq member owned, Nat.add_sub_cancel]
      exact clear block member owned
  rw [clear, around]

/-- A free block is clear. -/
theorem Sound.clear_of_free (sound : s.Sound l blocks) {b : HeapBlock} (member : b ∈ blocks)
    (free : b.isFree = true) {a w : Nat} (low : b.start ≤ a) (high : a + w ≤ b.stop) :
    clear l s a w := by
  have bounds := sound.tiles.bounds member
  refine (sound.clear_iff a w).mpr ⟨by omega, by omega, fun c inside owned => ?_⟩
  rcases sound.tiles.disjoint member inside with rfl | apart | apart
  · rw [free] at owned
    cases owned
  · exact .inl (by omega)
  · exact .inr (by omega)

/-- Clear addresses lie in a free block. -/
theorem Sound.exists_free (sound : s.Sound l blocks) {a w : Nat} (positive : 0 < w)
    (free : clear l s a w) : ∃ b ∈ blocks, b.isFree = true ∧ b.start ≤ a ∧ a + w ≤ b.stop := by
  rcases (sound.clear_iff a w).mp free with ⟨above, below, apart⟩
  exact sound.represents.coalesced.fits sound.tiles positive above below apart

/-- What is held does not depend on whether the first call has come. -/
theorem clear_ready (reached : (heapLts l).Reach s) (a w : Nat) :
    clear l (s.ready l) a w ↔ clear l s a w := by
  rcases reach_sound reached with untouched | ⟨blocks, sound⟩
  · have none_ : ∀ pv, ¬ s.held pv := fun pv some_ => by
      rw [held, untouched.live pv, untouched.freeing pv] at some_
      simp at some_
    have same : ∀ pv, ¬ (s.ready l).held pv := none_
    simp [clear, none_, same]
  · rw [sound.ready_eq]

end HeapSystem

open HeapSystem

variable {l : HeapLayout} {s : HeapSystem}

/-! ## Safety -/

/-- The bytes a task was given are in the heap, aligned, and meet no other task's; they hold what
the task stored last. -/
theorem live_safe (reached : (heapLts l).Reach s) {pv : Nat} {given : Allocation}
    (live : s.live pv = some given) :
    portByteAlignment ∣ pv ∧ l.ucHeap ≤ pv ∧
      pv + given.wanted ≤ l.ucHeap + configTotalHeapSize ∧
      (∀ a, given.covers pv a → s.heap.cell a = given.contents a) ∧
      ∀ pv' given', s.live pv' = some given' → pv' ≠ pv →
        pv + given.wanted ≤ pv' ∨ pv' + given'.wanted ≤ pv := by
  rcases reach_sound reached with untouched | ⟨blocks, sound⟩
  · rw [untouched.live pv] at live
    cases live
  · obtain ⟨b, member, fits⟩ := sound.live pv given live
    have bounds := sound.represents.bounds member
    have layout := l.bounds
    have inside := layout.inside
    have beyond := layout.beyond
    have start := fits.start
    have room := fits.room
    refine ⟨?_, by omega, by omega, fits.contents, fun pv' given' live' other => ?_⟩
    · rw [← start]
      exact Nat.dvd_add bounds.2.2.1 (Nat.dvd_refl 8)
    · obtain ⟨c, member', fits'⟩ := sound.live pv' given' live'
      have start' := fits'.start
      have room' := fits'.room
      have apart := sound.tiles.disjoint member member'
      unfold Block.stop at apart
      rcases apart with rfl | apart | apart
      · omega
      · omega
      · omega

/-- The block that a call gives is held by nobody. -/
theorem malloc_fresh (reached : (heapLts l).Reach s) {n : Nat} (size : n < 2 ^ 32) {heap : Heap}
    {pv : Nat} (given : s.heap.pvPortMalloc l heapFuel n = some (heap, pv)) (some_ : pv ≠ null) :
    ¬ s.held pv := by
  intro used
  rcases reach_sound reached with untouched | ⟨blocks, sound⟩
  · rw [held, untouched.live pv, untouched.freeing pv] at used
    simp at used
  · obtain ⟨c, member, start, owned⟩ := (sound.held_iff pv).mp used
    rcases pvPortMalloc_spec sound.represents size sound.represents.length_lt with refused | granted
    · cases given.symm.trans refused.1
      exact some_ rfl
    · rcases granted with ⟨-, -, before, b, after, heap', rfl, free, -, given', -⟩
      cases given.symm.trans given'
      have same : c = b := sound.tiles.eq_of_start member (by simp) (by omega)
      rw [same, free] at owned
      cases owned

/-- In every run the bytes a task was given are in the heap, aligned, and meet no other task's; they
hold what the task stored last, whatever the other tasks do; and no call gives a block that a task
has. -/
theorem heap_safety (reached : (heapLts l).Reach s) :
    (∀ pv given, s.live pv = some given →
      portByteAlignment ∣ pv ∧ l.ucHeap ≤ pv ∧
        pv + given.wanted ≤ l.ucHeap + configTotalHeapSize ∧
        (∀ a, given.covers pv a → s.heap.cell a = given.contents a) ∧
        ∀ pv' given', s.live pv' = some given' → pv' ≠ pv →
          pv + given.wanted ≤ pv' ∨ pv' + given'.wanted ≤ pv) ∧
      ∀ n < 2 ^ 32, ∀ heap pv, s.heap.pvPortMalloc l heapFuel n = some (heap, pv) → pv ≠ null →
        ¬ s.held pv :=
  ⟨fun _ _ live => live_safe reached live,
    fun _ size _ _ given some_ => malloc_fresh reached size given some_⟩

/-- The heap at an odd address. -/
def oddLayout : HeapLayout where
  ucHeap := 0x20000103
  xStart := 0x20000000
  ucHeapPos := by decide
  ucHeapEnd := by decide
  xStartEnd := by decide
  apart := by decide

/-- Memory that holds zeros. -/
def HeapSystem.blank : HeapSystem where
  heap := ⟨fun _ => 0, fun _ => 0, null, 0, 0, 0⟩
  live _ := none
  freeing _ := false

theorem HeapSystem.blank_init : (heapLts oddLayout).Init HeapSystem.blank :=
  ⟨rfl, fun _ => rfl, fun _ => rfl⟩

/-- Two blocks, a store to the first one, and the second one given back. -/
def storeAndFree : List HeapAct :=
  [.malloc 10, .malloc 30, .store 0x20000110 0x20000118 (7, 8), .unmark 0x20000128,
    .insert 0x20000128]

/-- Two tasks have a block and have stored in it; a third block was given back. -/
def twoBlocks : List HeapAct :=
  [.malloc 10, .malloc 30, .malloc 20, .store 0x20000110 0x20000118 (7, 8),
    .store 0x20000128 0x20000130 (9, 1), .unmark 0x20000150, .insert 0x20000150]

/-- Both keep what was stored, they do not meet, and a further call gives neither. -/
theorem heap_safety_two_blocks : ∃ s, (heapLts oddLayout).Reach s ∧
    (∃ first second, s.live 0x20000110 = some first ∧ s.live 0x20000128 = some second ∧
      s.heap.cell 0x20000118 = (7, 8) ∧ s.heap.cell 0x20000130 = (9, 1) ∧
      (0x20000110 + first.wanted ≤ 0x20000128 ∨ 0x20000128 + second.wanted ≤ 0x20000110)) ∧
    ∃ heap, s.heap.pvPortMalloc oddLayout heapFuel 20 = some (heap, 0x20000150) ∧
      ¬ s.held 0x20000150 := by
  obtain ⟨s, reached, evaluated⟩ := Lts.exists_reach_of_exec (L := heapLts oddLayout)
    HeapSystem.blank_init twoBlocks (P := fun s => decide (
      (s.live 0x20000110).any (fun b =>
        decide (b.covers 0x20000110 0x20000118 ∧ b.contents 0x20000118 = (7, 8))) = true ∧
      (s.live 0x20000128).any (fun b =>
        decide (b.covers 0x20000128 0x20000130 ∧ b.contents 0x20000130 = (9, 1))) = true ∧
      (s.heap.pvPortMalloc oddLayout heapFuel 20).map Prod.snd = some 0x20000150)) (by decide)
  obtain ⟨one, two, next⟩ := of_decide_eq_true evaluated
  obtain ⟨first, live, stored⟩ := (Option.any_eq_true _ _).mp one
  obtain ⟨second, live', stored'⟩ := (Option.any_eq_true _ _).mp two
  obtain ⟨covers, contents⟩ := of_decide_eq_true stored
  obtain ⟨covers', contents'⟩ := of_decide_eq_true stored'
  obtain ⟨⟨heap, pv⟩, given, rfl⟩ := Option.map_eq_some_iff.mp next
  obtain ⟨safe, fresh⟩ := heap_safety reached
  obtain ⟨-, -, -, kept, apart⟩ := safe _ _ live
  obtain ⟨-, -, -, kept', -⟩ := safe _ _ live'
  refine ⟨s, reached, ⟨first, second, live, live', ?_, ?_, apart _ _ live' (by decide)⟩, heap,
    given, fresh 20 (by decide) heap _ given (by decide)⟩
  · exact (kept _ covers).trans contents
  · exact (kept' _ covers').trans contents'

/-! ## What can be had -/

/-- In every run a call for `n` bytes gives a block exactly when somewhere in the heap that many
bytes, with the header and rounded up, are clear: free space is never split by a boundary. -/
theorem malloc_exact (reached : (heapLts l).Reach s) {n : Nat} (size : n < 2 ^ 32) :
    ∃ heap pv, s.heap.pvPortMalloc l heapFuel n = some (heap, pv) ∧
      (pv ≠ null ↔ 0 < n ∧ n < 2 ^ 31 ∧ ∃ a, clear l s a (roundedSize n)) := by
  obtain ⟨blocks, sound⟩ := reach_ready reached
  have represents := sound.represents
  have same : s.heap.pvPortMalloc l heapFuel n = (s.ready l).heap.pvPortMalloc l heapFuel n := by
    rw [Heap.pvPortMalloc, Heap.pvPortMalloc, initialised_eq represents]
    rfl
  have wide : 0 < n → 0 < roundedSize n := fun positive => by
    unfold roundedSize
    omega
  rw [same]
  simp only [← clear_ready reached]
  rcases pvPortMalloc_spec represents size represents.length_lt with refused | granted
  · refine ⟨_, _, refused.1, iff_of_false (not_not.mpr rfl) fun possible => refused.2 ?_⟩
    rcases possible with ⟨positive, small, a, free⟩
    obtain ⟨b, member, open_, low, high⟩ := sound.exists_free (wide positive) free
    unfold Block.stop at high
    exact ⟨positive, small, b, member, open_, by omega⟩
  · rcases granted with ⟨positive, small, before, b, after, heap, rfl, free, fits, given, -⟩
    refine ⟨heap, b.start + 8, given, iff_of_true ?_ ⟨positive, small, b.start, ?_⟩⟩
    · unfold null
      omega
    · exact sound.clear_of_free (by simp) free le_rfl (Nat.add_le_add_left fits _)

/-- So `fep_list_add` never gets a node that is in use, if the nodes in use are held. -/
theorem add_on_heap (reached : (heapLts l).Reach s) {list : FepList}
    (nodes : ∀ a, list.allocated a = true → s.held a) {n : Nat} (size : n < 2 ^ 32) {heap : Heap}
    {pv : Nat} (given : s.heap.pvPortMalloc l heapFuel n = some (heap, pv)) (some_ : pv ≠ null)
    (tmpDev memory : FepDev) :
    list.call (.add tmpDev pv memory) = some (list.fepListAdd tmpDev pv memory) :=
  if_neg fun used => malloc_fresh reached size given some_ (nodes pv used)

/-- 32000 bytes can be had beside the block that is held, 32728 cannot. -/
theorem malloc_exact_after_free : ∃ s, (heapLts oddLayout).Reach s ∧
    (∃ a, clear oddLayout s a (roundedSize 32000)) ∧
      ¬ ∃ a, clear oddLayout s a (roundedSize 32728) := by
  obtain ⟨s, reached, evaluated⟩ := Lts.exists_reach_of_exec (L := heapLts oddLayout)
    HeapSystem.blank_init storeAndFree (P := fun s => decide (
      (s.heap.pvPortMalloc oddLayout heapFuel 32000).map Prod.snd = some 0x20000128 ∧
      (s.heap.pvPortMalloc oddLayout heapFuel 32728).map Prod.snd = some null)) (by decide)
  obtain ⟨fits, large⟩ := of_decide_eq_true evaluated
  obtain ⟨heap, pv, given, exactly⟩ := malloc_exact reached (n := 32000) (by decide)
  obtain ⟨heap', pv', refused, exactly'⟩ := malloc_exact reached (n := 32728) (by decide)
  rw [given, Option.map_some, Option.some.injEq] at fits
  rw [refused, Option.map_some, Option.some.injEq] at large
  refine ⟨s, reached, (exactly.mp ?_).2.2, fun room => ?_⟩
  · exact fun none_ => absurd (fits.symm.trans none_) (by decide)
  · exact exactly'.mpr ⟨by decide, by decide, room⟩ large

/-- In every run no assertion fails and every loop ends: `pvPortMalloc` for any size, `vPortFree`
for any block a task has, whether or not other tasks run between its two parts. -/
theorem heap_calls_return (reached : (heapLts l).Reach s) :
    (∀ n < 2 ^ 32, (s.step l (.malloc n)).isSome = true) ∧
      (∀ pv, (s.live pv).isSome = true → (s.step l (.unmark pv)).isSome = true ∧
        (s.heap.vPortFree l heapFuel pv).isSome = true) ∧
      ∀ pv, s.freeing pv = true → (s.step l (.insert pv)).isSome = true := by
  refine ⟨fun n size => ?_, fun pv live => ?_, fun pv freeing => ?_⟩
  · obtain ⟨blocks, sound⟩ := reach_ready reached
    obtain ⟨s', blocks', given, -⟩ := sound.malloc size
    rw [HeapSystem.step, if_pos size, malloc_ready sound, given]
    rfl
  · rcases reach_sound reached with untouched | ⟨blocks, sound⟩
    · rw [untouched.live pv] at live
      cases live
    · obtain ⟨s', blocks', given, result, -⟩ := sound.unmark live
      refine ⟨by rw [HeapSystem.step, given]; rfl, ?_⟩
      obtain ⟨b, member, known, fits⟩ := sound.live_block live
      rw [HeapSystem.unmark, if_pos live, Option.map_eq_some_iff] at given
      rcases given with ⟨heap, unmarked, rfl⟩
      obtain ⟨after, blocks'', inserted, -⟩ := result.insert (Function.update_self ..)
      rw [HeapSystem.insert, Option.ite_none_right_eq_some, Option.map_eq_some_iff] at inserted
      rcases inserted with ⟨-, heap', inserted, -⟩
      have notNull : pv ≠ null := by
        have start := fits.start
        unfold null
        omega
      rw [Heap.vPortFree, if_pos notNull, unmarked, Option.bind_some, inserted]
      rfl
  · rcases reach_sound reached with untouched | ⟨blocks, sound⟩
    · rw [untouched.freeing pv] at freeing
      cases freeing
    · obtain ⟨s', blocks', given, -⟩ := sound.insert freeing
      rw [HeapSystem.step, given]
      rfl

theorem heap_calls_return_after_free : ∃ s, (heapLts oddLayout).Reach s ∧
    (s.live 0x20000110).isSome = true ∧
      (s.heap.vPortFree oddLayout heapFuel 0x20000110).isSome = true := by
  obtain ⟨s, reached, live⟩ := Lts.exists_reach_of_exec (L := heapLts oddLayout)
    HeapSystem.blank_init storeAndFree (P := fun s => (s.live 0x20000110).isSome) (by decide)
  exact ⟨s, reached, live, ((heap_calls_return reached).2.1 _ live).2⟩

/-! ## Accounts -/

/-- The least number of free bytes since the heap was initialised. -/
def leastFree : Monitor HeapSystem HeapAct Nat where
  init _ := 0
  next h s _ s' :=
    if s.heap.pxEnd = null then s'.heap.xFreeBytesRemaining else min h s'.heap.xFreeBytesRemaining

theorem leastFree_first {s : HeapSystem} (first : s.heap.pxEnd = null) (h : Nat) (a : HeapAct)
    (s' : HeapSystem) : leastFree.next h s a s' = s'.heap.xFreeBytesRemaining := if_pos first

theorem leastFree_next {s : HeapSystem} (later : s.heap.pxEnd ≠ null) (h : Nat) (a : HeapAct)
    (s' : HeapSystem) : leastFree.next h s a s' = min h s'.heap.xFreeBytesRemaining := if_neg later

/-- No more is free than the heap has. -/
theorem HeapSystem.Sound.remaining_le {blocks : List HeapBlock} (sound : s.Sound l blocks) :
    s.heap.xFreeBytesRemaining ≤ l.endAddress - l.pucAlignedHeap := by
  have total := sound.tiles.total
  rw [sound.represents.remaining]
  omega

/-- Initialising the heap counts all of it. -/
theorem ready_minimum (first : s.heap.pxEnd = null) :
    (s.ready l).heap.xMinimumEverFreeBytesRemaining = l.endAddress - l.pucAlignedHeap := by
  have remaining := (prvHeapInit_represents l s.heap).remaining
  rw [freeSize_single] at remaining
  have initialised : (s.ready l).heap = l.prvHeapInit s.heap := if_pos first
  rw [initialised]
  exact remaining

theorem leastFree_spec {h : Nat} (reached : ((heapLts l).watch leastFree).Reach (s, h))
    (initialised : s.heap.pxEnd ≠ null) : s.heap.xMinimumEverFreeBytesRemaining = h := by
  have all := Lts.ReachWhile.invariant_watched
    (P := fun s h => s.heap.pxEnd ≠ null → s.heap.xMinimumEverFreeBytesRemaining = h)
    (fun s start later => absurd (And.left start) later)
    (fun s h a s' before now _ taken _ => ?_) reached
  · exact all initialised
  · rcases reach_sound before.unwatched with untouched | ⟨blocks, sound⟩
    · obtain ⟨blocks, sound⟩ := untouched.sound (l := l)
      obtain ⟨⟨blocks', result⟩, tracks⟩ := sound.step (untouched.step taken)
      rw [leastFree_first untouched.pxEnd, tracks, ready_minimum untouched.pxEnd,
        min_eq_right result.remaining_le]
    · have later : s.heap.pxEnd ≠ null := by
        have room := l.bounds.room
        rw [sound.represents.list.pxEnd]
        unfold null
        omega
      rw [leastFree_next later, (sound.step taken).2, now later]

/-- In every run, once the heap is initialised, `xFreeBytesRemaining` is the number of addresses that
no held block takes, `xMinimumEverFreeBytesRemaining` the least value it had, and a block takes at
most two headers more than what was asked for needs. -/
theorem heap_accounts {h : Nat} (reached : ((heapLts l).watch leastFree).Reach (s, h))
    (initialised : s.heap.pxEnd ≠ null) :
    s.heap.xFreeBytesRemaining = {a | clear l s a 1}.ncard ∧
      s.heap.xMinimumEverFreeBytesRemaining = h ∧
      ∀ pv given, s.live pv = some given →
        roundedSize given.wanted ≤ s.extent pv ∧ s.extent pv ≤ roundedSize given.wanted + 16 := by
  rcases reach_sound reached.unwatched with untouched | ⟨blocks, sound⟩
  · exact absurd untouched.pxEnd initialised
  · refine ⟨?_, leastFree_spec reached initialised, fun pv given live => ?_⟩
    · rw [sound.represents.remaining, ← sound.tiles.ncard_free]
      congr 1
      ext a
      constructor
      · intro member
        rcases member with ⟨b, member, free, low, high⟩
        exact sound.clear_of_free member free low high
      · exact fun free => sound.exists_free Nat.one_pos free
    · obtain ⟨b, member, fits⟩ := sound.live pv given live
      rw [← fits.start, sound.extent_eq member (isFree_of_owner fits.owner)]
      refine ⟨?_, fits.slack⟩
      have whole := sound.tiles.whole member
      have room := fits.room
      unfold roundedSize
      omega

theorem heap_accounts_after_free : ∃ s h, ((heapLts oddLayout).watch leastFree).Reach (s, h) ∧
    s.heap.xFreeBytesRemaining = 32728 ∧ s.heap.xFreeBytesRemaining =
      {a | clear oddLayout s a 1}.ncard ∧ s.heap.xMinimumEverFreeBytesRemaining = h := by
  obtain ⟨x, reached, evaluated⟩ := Lts.exists_reach_of_exec
    (L := (heapLts oddLayout).watch leastFree) (s := (HeapSystem.blank, 0))
    ⟨HeapSystem.blank_init, rfl⟩ storeAndFree
    (P := fun x => decide (x.1.heap.pxEnd ≠ null ∧ x.1.heap.xFreeBytesRemaining = 32728)) (by decide)
  rcases x with ⟨s, h⟩
  have known := of_decide_eq_true evaluated
  have accounts := heap_accounts reached known.1
  exact ⟨s, h, reached, known.2, accounts.1, accounts.2.1⟩

/-- Initialising a heap whose memory already says that it is one free block. -/
theorem prvHeapInit_eq {heap : Heap}
    (represents : heap.Represents l [⟨l.pucAlignedHeap, l.endAddress - l.pucAlignedHeap, none⟩]) :
    l.prvHeapInit heap = { heap with
      xMinimumEverFreeBytesRemaining := l.endAddress - l.pucAlignedHeap } := by
  have list := represents.list
  have stop := list.pxEnd
  have linked := list.linked
  rw [freeStarts_cons_free rfl, freeStarts_nil, stop] at linked
  have first : Function.update heap.pxNextFreeBlock l.xStart l.pucAlignedHeap =
      heap.pxNextFreeBlock :=
    Function.update_eq_self_iff.mpr (List.isChain_cons_cons.mp linked).1.symm
  have second : Function.update heap.pxNextFreeBlock l.pucAlignedHeap l.endAddress =
      heap.pxNextFreeBlock :=
    Function.update_eq_self_iff.mpr (List.isChain_cons_cons.mp linked.tail).1.symm
  have endMark := represents.endMark
  rw [stop] at endMark
  have last : Function.update heap.pxNextFreeBlock l.endAddress null = heap.pxNextFreeBlock :=
    Function.update_eq_self_iff.mpr (congrArg Prod.fst endMark).symm
  have lastSize : Function.update heap.xBlockSize l.endAddress 0 = heap.xBlockSize :=
    Function.update_eq_self_iff.mpr (congrArg Prod.snd endMark).symm
  have startSize : Function.update heap.xBlockSize l.xStart 0 = heap.xBlockSize :=
    Function.update_eq_self_iff.mpr list.startSize.symm
  have known := list.sizes _ (List.mem_singleton_self _) rfl
  have whole : wrapSub l.endAddress l.pucAlignedHeap = l.endAddress - l.pucAlignedHeap := by
    have small := list.small
    have room := l.bounds.room
    exact wrapSub_eq (by omega) (by omega)
  have size : Function.update heap.xBlockSize l.pucAlignedHeap
      (l.endAddress - l.pucAlignedHeap) = heap.xBlockSize :=
    Function.update_eq_self_iff.mpr known.symm
  have remaining := represents.remaining
  rw [freeSize_single] at remaining
  have topBit : 1 <<< 31 = heap.xBlockAllocatedBit := represents.allocatedBit.symm
  dsimp only at known
  unfold HeapLayout.prvHeapInit Heap.setNext Heap.setSize
  dsimp only
  rw [whole, first, startSize, lastSize, last, size, second, known, topBit, ← remaining, ← stop]

/-- When everything was given back, initialising the heap again would change nothing but
`xMinimumEverFreeBytesRemaining`: all of it is one free block. -/
theorem heap_released (reached : (heapLts l).Reach s) (initialised : s.heap.pxEnd ≠ null)
    (released : ∀ pv, ¬ s.held pv) :
    l.prvHeapInit s.heap = { s.heap with
      xMinimumEverFreeBytesRemaining := l.endAddress - l.pucAlignedHeap } := by
  rcases reach_sound reached with untouched | ⟨blocks, sound⟩
  · exact absurd untouched.pxEnd initialised
  · have room := l.bounds.room
    have open_ : ∀ b ∈ blocks, b.isFree = true := fun b member => by
      cases free : b.isFree with
      | true => rfl
      | false => exact absurd ((sound.held_iff _).mpr ⟨b, member, rfl, free⟩) (released _)
    have one := sound.represents.coalesced.single sound.tiles (by omega) open_
    subst one
    exact prvHeapInit_eq sound.represents

/-- The only block that was given out is given back. -/
theorem heap_released_one : ∃ s, (heapLts oddLayout).Reach s ∧ s.heap.pxEnd ≠ null ∧
    oddLayout.prvHeapInit s.heap = { s.heap with
      xMinimumEverFreeBytesRemaining := oddLayout.endAddress - oddLayout.pucAlignedHeap } := by
  have evaluated : ((heapLts oddLayout).exec blank
      [.malloc 10, .unmark 0x20000110, .insert 0x20000110]).any
        (fun s => decide (s.heap.pxEnd ≠ null)) = true := by decide
  have pointer : (blank.heap.pvPortMalloc oddLayout heapFuel 10).map Prod.snd =
      some 0x20000110 := by decide
  rcases (Option.any_eq_true _ _).mp evaluated with ⟨s, executed, known⟩
  have initialised := of_decide_eq_true known
  have reached := Lts.reach_exec (.init HeapSystem.blank_init) executed
  obtain ⟨s₁, first, executed⟩ := Lts.exec_cons_eq_some executed
  obtain ⟨s₂, second, executed⟩ := Lts.exec_cons_eq_some executed
  obtain ⟨s₃, third, executed⟩ := Lts.exec_cons_eq_some executed
  cases executed
  simp only [heapLts, HeapSystem.step, HeapSystem.malloc, HeapSystem.unmark, HeapSystem.insert,
    Option.ite_none_right_eq_some, Option.map_eq_some_iff] at first second third
  rcases first with ⟨-, result, given, rfl⟩
  rcases second with ⟨-, heap₂, -, rfl⟩
  rcases third with ⟨-, heap₃, -, rfl⟩
  rw [given, Option.map_some, Option.some.injEq] at pointer
  refine ⟨_, reached, initialised, heap_released reached initialised fun pv some_ => ?_⟩
  rw [held, pointer] at some_
  by_cases same : pv = 0x20000110
  · simp [same] at some_
  · simp [same, blank] at some_

end FepMaster

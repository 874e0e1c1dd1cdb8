import FepMaster.HeapMalloc

/-!
# Tasks and the heap

What the tasks hold and what the heap takes for owned are the same blocks in every run
(`HeapSystem.Sound`), whatever tasks call the allocator in whatever order, also between the two parts
of `vPortFree`.  From this follow the safety of the blocks (`heap_safety`), when a request can be met
(`malloc_exact`), that no call is ever stuck (`heap_calls_return`), and the accounts
(`heap_accounts`, `heap_released`).
-/

namespace FepMaster

open Arena LinkedList Transition

variable {l : HeapLayout} {blocks before after : List HeapBlock} {b : HeapBlock}

/-- The cells of an owned block hold what they held. -/
theorem Keeps.owned {s s' : Heap} (keeps : Keeps l s s' blocks)
    (tiles : Tiles 8 l.pucAlignedHeap blocks l.endAddress) (member : b ∈ blocks)
    (owned : b.isFree = false) {a : Nat} (low : b.start ≤ a) (high : a < b.stop) :
    s'.cell a = s.cell a := by
  have bounds := tiles.bounds member
  refine keeps a (FreeList.apart l (by omega) (by omega)) fun c inside free => ?_
  rcases tiles.disjoint member inside with rfl | apart | apart
  · rw [owned] at free
    cases free
  · exact .inl (by omega)
  · exact .inr (by omega)

namespace HeapSystem

variable {s s' : HeapSystem}

/-- A block lies before what a task was given and has room for what it asked for; its cells hold
what the task knows. -/
structure Fits (heap : Heap) (pv : Nat) (given : Allocation) (block : HeapBlock) : Prop where
  start : block.start + 8 = pv
  owner : block.owner = some .allocated
  room : given.wanted + 8 ≤ block.size
  slack : block.size ≤ roundedSize given.wanted + 16
  contents : ∀ a, given.covers pv a → heap.cell a = given.contents a

/-- The owned blocks of the heap are those the tasks have or are giving back. -/
structure Sound (l : HeapLayout) (s : HeapSystem) (blocks : List HeapBlock) : Prop where
  represents : s.heap.Represents l blocks
  live : ∀ pv given, s.live pv = some given → ∃ block ∈ blocks, Fits s.heap pv given block
  known : ∀ block ∈ blocks, block.owner = some .allocated → (s.live (block.start + 8)).isSome
  freeing : ∀ pv, s.freeing pv = true ↔
    ∃ block ∈ blocks, block.start + 8 = pv ∧ block.owner = some .freeing
  least : s.heap.xMinimumEverFreeBytesRemaining ≤ s.heap.xFreeBytesRemaining

/-- The least number of free bytes is kept up to date. -/
def Tracks (s s' : HeapSystem) : Prop :=
  s'.heap.xMinimumEverFreeBytesRemaining =
    min s.heap.xMinimumEverFreeBytesRemaining s'.heap.xFreeBytesRemaining

theorem Sound.tracks (sound : s.Sound l blocks)
    (minimum : s'.heap.xMinimumEverFreeBytesRemaining = s.heap.xMinimumEverFreeBytesRemaining)
    (more : s.heap.xFreeBytesRemaining ≤ s'.heap.xFreeBytesRemaining) : s.Tracks s' := by
  rw [Tracks, minimum, min_eq_left (sound.least.trans more)]

theorem Tracks.least (tracks : s.Tracks s') :
    s'.heap.xMinimumEverFreeBytesRemaining ≤ s'.heap.xFreeBytesRemaining := by
  rw [tracks]
  exact min_le_right _ _

theorem Sound.tiles (sound : s.Sound l blocks) : Tiles 8 l.pucAlignedHeap blocks l.endAddress :=
  sound.represents.list.pxEnd ▸ sound.represents.list.tiles

namespace Fits

/-- The cells a task uses lie in its block, behind the header. -/
theorem inside {heap : Heap} {pv a : Nat} {given : Allocation} (fits : Fits heap pv given b)
    (covers : given.covers pv a) : b.start + 8 ≤ a ∧ a < b.stop := by
  have start := fits.start
  have room := fits.room
  unfold Allocation.covers at covers
  unfold Block.stop
  omega

/-- A block that is not touched still fits. -/
theorem keep {heap heap' : Heap} {pv : Nat} {given : Allocation} (fits : Fits heap pv given b)
    (same : ∀ a, b.start + 8 ≤ a → a < b.stop → heap'.cell a = heap.cell a) :
    Fits heap' pv given b where
  start := fits.start
  owner := fits.owner
  room := fits.room
  slack := fits.slack
  contents a covers := by
    have cells := fits.inside covers
    rw [same a cells.1 cells.2]
    exact fits.contents a covers

end Fits

/-! ## `pvPortMalloc` -/

/-- The owned blocks after a block was taken. -/
theorem mem_taken {w : Nat} {c : HeapBlock} (owned : c.isFree = false) :
    c ∈ before ++ taken b w :: (leftOver b w ++ after) ↔ c = taken b w ∨ c ∈ before ∨ c ∈ after := by
  have left : c ∉ leftOver b w := fun member => by
    rw [Block.isFree, leftOver_owner member] at owned
    cases owned
  rw [mem_around, List.mem_append, or_iff_right left]

/-- An owned block is another one than a free block. -/
theorem mem_owned {c : HeapBlock} (free : b.isFree = true) (owned : c.isFree = false) :
    c ∈ before ++ b :: after ↔ c ∈ before ∨ c ∈ after := by
  have other : c ≠ b := fun same => by
    rw [same, free] at owned
    cases owned
  rw [mem_around, or_iff_right other]

/-- A taken block has room for the bytes asked for, and a small rest. -/
theorem taken_size {w : Nat} (fits : w ≤ b.size) :
    w ≤ (taken b w).size ∧ (taken b w).size ≤ w + 16 := by
  unfold taken heapMinimumBlockSize xHeapStructSize
  dsimp only
  split <;> omega

theorem isFree_of_owner {c : HeapBlock} {o : HeapOwner} (owner : c.owner = some o) :
    c.isFree = false := by
  rw [Block.isFree, owner]
  rfl

/-- A call of `pvPortMalloc` ends. -/
theorem Sound.malloc (sound : s.Sound l blocks) {n : Nat} (size : n < 2 ^ 32) :
    ∃ s' blocks', s.malloc l n = some s' ∧ s'.Sound l blocks' ∧ s.Tracks s' := by
  have represents := sound.represents
  rcases pvPortMalloc_spec represents size represents.length_lt with refused | granted
  · refine ⟨s, blocks, ?_, sound, sound.tracks rfl le_rfl⟩
    rw [HeapSystem.malloc, refused.1, Option.map_some, if_pos rfl]
  · rcases granted with
      ⟨positive, small, before, b, after, heap, rfl, free, fits, given, result, keeps, tracks⟩
    have tiles := sound.tiles
    have notNull : b.start + 8 ≠ null := by
      unfold null
      omega
    have elsewhere := tiles.start_ne
    refine ⟨{ s with
      heap := heap
      live := Function.update s.live (b.start + 8) (some ⟨n, heap.cell⟩) }, _,
      by rw [HeapSystem.malloc, given, Option.map_some, if_neg notNull],
      ⟨result, ?_, ?_, ?_, Tracks.least tracks⟩, tracks⟩
    · intro pv known_ live
      by_cases same : pv = b.start + 8
      · subst same
        dsimp only at live
        rw [Function.update_self, Option.some.injEq] at live
        subst live
        have whole := taken_size fits
        refine ⟨taken b (roundedSize n), by simp, rfl, rfl, ?_, whole.2, fun _ _ => rfl⟩
        have rounded : n + 8 ≤ roundedSize n := by
          unfold roundedSize
          omega
        exact rounded.trans whole.1
      · dsimp only at live
        rw [Function.update_of_ne same] at live
        obtain ⟨c, member, inside⟩ := sound.live pv known_ live
        have owned := isFree_of_owner inside.owner
        refine ⟨c, (mem_taken owned).mpr (.inr ((mem_owned free owned).mp member)), ?_⟩
        exact inside.keep fun a low high => keeps.owned tiles member owned (by omega) high
    · intro c member owner
      have owned := isFree_of_owner owner
      rcases (mem_taken owned).mp member with rfl | other
      · dsimp only
        rw [taken_start, Function.update_self]
        rfl
      · dsimp only
        rw [Function.update_of_ne (by have start := elsewhere c other; omega)]
        exact sound.known c ((mem_owned free owned).mpr other) owner
    · intro pv
      rw [sound.freeing pv]
      constructor
      · intro member
        rcases member with ⟨c, member, start, owner⟩
        have owned := isFree_of_owner owner
        exact ⟨c, (mem_taken owned).mpr (.inr ((mem_owned free owned).mp member)), start, owner⟩
      · intro member
        rcases member with ⟨c, member, start, owner⟩
        have owned := isFree_of_owner owner
        rcases (mem_taken owned).mp member with rfl | other
        · cases owner
        · exact ⟨c, (mem_owned free owned).mpr other, start, owner⟩

/-! ## Stores -/

/-- A store to a cell of a block. -/
theorem Sound.store (sound : s.Sound l blocks) {pv a : Nat} {value : Nat × Nat}
    (stored : s.storeCell pv a value = some s') : s'.Sound l blocks ∧ s.Tracks s' := by
  have represents := sound.represents
  have tiles := sound.tiles
  cases live : s.live pv with
  | none => simp [storeCell, live] at stored
  | some given =>
      rw [storeCell, live, Option.bind_some, Option.ite_none_right_eq_some] at stored
      rcases stored with ⟨covers, result⟩
      cases result
      obtain ⟨c, member, fits⟩ := sound.live pv given live
      have owned := isFree_of_owner fits.owner
      have cells := fits.inside covers
      have writes : s.heap.Writes (s.heap.store a value) [a] :=
        (s.heap.setNext_writes _ (by simp)).trans (Heap.setSize_writes _ _ (by simp))
      have bounds := tiles.bounds member
      -- no header is written
      have start : ∀ d ∈ blocks, d.start ≠ a := by
        intro d other same
        have apart := tiles.disjoint member other
        have positive := (tiles.bounds other).2.1
        rcases apart with rfl | apart | apart
        · omega
        · omega
        · unfold Block.stop at apart
          omega
      have list := represents.list.frame writes
        (by simpa using (FreeList.apart l (by omega) (by omega)).symm) fun d free member => by
          obtain ⟨d, inside, -, rfl⟩ := mem_freeStarts.mp free
          exact start d inside (List.mem_singleton.mp member)
      refine ⟨⟨⟨list, represents.coalesced, fun d inside o owner => ?_, ?_, represents.remaining,
        represents.allocatedBit⟩, fun pv' given' live' => ?_, fun d inside owner => ?_,
        sound.freeing, sound.least⟩, sound.tracks rfl le_rfl⟩
      · rw [writes.others d.start (by simpa using start d inside)]
        exact represents.headers d inside o owner
      · rw [writes.pxEnd, writes.others]
        · exact represents.endMark
        · rw [represents.list.pxEnd, List.mem_singleton]
          omega
      · by_cases same : pv' = pv
        · subst same
          dsimp only at live'
          rw [Function.update_self, Option.some.injEq] at live'
          subst live'
          refine ⟨c, member, fits.start, fits.owner, fits.room, fits.slack, fun a' covers' => ?_⟩
          dsimp only
          by_cases here : a' = a
          · rw [here, Function.update_self]
            simp [Heap.store, Heap.cell, Heap.setNext, Heap.setSize]
          · rw [Function.update_of_ne here, writes.others a' (by simpa using here)]
            exact fits.contents a' covers'
        · dsimp only at live'
          rw [Function.update_of_ne same] at live'
          obtain ⟨d, inside, fits'⟩ := sound.live pv' given' live'
          refine ⟨d, inside, fits'.keep fun a' low high => writes.others a' ?_⟩
          rw [List.mem_singleton]
          have one := fits.start
          have other := fits'.start
          rcases tiles.disjoint member inside with rfl | apart | apart
          · omega
          · omega
          · omega
      · dsimp only
        by_cases same : d.start + 8 = pv
        · rw [same, Function.update_self]
          rfl
        · rw [Function.update_of_ne same]
          exact sound.known d inside owner

/-! ## `vPortFree` -/

/-- The first part of `vPortFree` ends for every block a task has. -/
theorem Sound.unmark (sound : s.Sound l blocks) {pv : Nat} (live : (s.live pv).isSome = true) :
    ∃ s' blocks', s.unmark pv = some s' ∧ s'.Sound l blocks' ∧ s.Tracks s' := by
  have tiles := sound.tiles
  obtain ⟨given, known⟩ := Option.isSome_iff_exists.mp live
  obtain ⟨b, member, fits⟩ := sound.live pv given known
  obtain ⟨before, after, rfl⟩ := List.append_of_mem member
  have start := fits.start
  subst start
  obtain ⟨heap, unmarked, result, writes⟩ := vPortFreeUnmark_spec sound.represents fits.owner
  have elsewhere := tiles.start_ne
  have tracks : s.Tracks {
      heap := heap
      live := Function.update s.live (b.start + 8) none
      freeing := Function.update s.freeing (b.start + 8) true } :=
    sound.tracks writes.minimum writes.remaining.ge
  refine ⟨{
    heap := heap
    live := Function.update s.live (b.start + 8) none
    freeing := Function.update s.freeing (b.start + 8) true }, _,
    by rw [HeapSystem.unmark, if_pos live, unmarked, Option.map_some],
    ⟨result, ?_, ?_, ?_, Tracks.least tracks⟩, tracks⟩
  · intro pv' given' live'
    dsimp only at live' ⊢
    by_cases same : pv' = b.start + 8
    · rw [same, Function.update_self] at live'
      cases live'
    · rw [Function.update_of_ne same] at live'
      obtain ⟨c, inside, fits'⟩ := sound.live pv' given' live'
      rcases mem_around.mp inside with rfl | other
      · exact absurd fits'.start.symm same
      · refine ⟨c, mem_around.mpr (.inr other), fits'.keep fun a low high => writes.others a ?_⟩
        have first := fits.room
        have start := elsewhere c other
        rw [List.mem_singleton]
        rcases tiles.disjoint member inside with rfl | apart | apart
        · omega
        · unfold Block.stop at apart
          omega
        · omega
  · intro c inside owner
    dsimp only
    rcases mem_around.mp inside with rfl | other
    · cases owner
    · rw [Function.update_of_ne (by have start := elsewhere c other; omega)]
      exact sound.known c (mem_around.mpr (.inr other)) owner
  · intro pv'
    dsimp only
    by_cases same : pv' = b.start + 8
    · rw [same, Function.update_self]
      exact iff_of_true rfl ⟨_, mem_around.mpr (.inl rfl), rfl, rfl⟩
    · rw [Function.update_of_ne same, sound.freeing pv']
      constructor
      · intro held
        rcases held with ⟨c, inside, start, owner⟩
        rcases mem_around.mp inside with rfl | other
        · exact absurd start.symm same
        · exact ⟨c, mem_around.mpr (.inr other), start, owner⟩
      · intro held
        rcases held with ⟨c, inside, start, owner⟩
        rcases mem_around.mp inside with rfl | other
        · exact absurd start.symm same
        · exact ⟨c, mem_around.mpr (.inr other), start, owner⟩

/-- The rest of `vPortFree` ends. -/
theorem Sound.insert (sound : s.Sound l blocks) {pv : Nat} (freeing : s.freeing pv = true) :
    ∃ s' blocks', s.insert l pv = some s' ∧ s'.Sound l blocks' ∧ s.Tracks s' := by
  have tiles := sound.tiles
  obtain ⟨b, member, start, owner⟩ := (sound.freeing pv).mp freeing
  subst start
  obtain ⟨before, after, rfl⟩ := List.append_of_mem member
  have length := sound.represents.length_lt
  rw [List.length_append] at length
  have enough : before.length < heapFuel := by omega
  obtain ⟨heap, inserted, result, keeps, more, minimum⟩ :=
    vPortFreeInsert_spec sound.represents owner enough
  have given : Tiles 8 l.pucAlignedHeap (before ++ b.give none :: after) l.endAddress :=
    tiles.replace rfl rfl
  have elsewhere := tiles.start_ne
  -- the other owned blocks are those that were there
  have members : ∀ c : HeapBlock, c.isFree = false →
      (c ∈ fuse (before ++ b.give none :: after) ↔ c ∈ before ∨ c ∈ after) := fun c owned => by
    rw [mem_fuse_of_owned owned, mem_owned (Block.isFree_give_none b) owned]
  have tracks : s.Tracks { s with
      heap := heap
      freeing := Function.update s.freeing (b.start + 8) false } :=
    sound.tracks minimum (more.symm ▸ Nat.le_add_right _ _)
  refine ⟨{ s with
    heap := heap
    freeing := Function.update s.freeing (b.start + 8) false }, _,
    by rw [HeapSystem.insert, if_pos freeing, inserted, Option.map_some],
    ⟨result, ?_, ?_, ?_, Tracks.least tracks⟩, tracks⟩
  · intro pv' given' live'
    obtain ⟨c, inside, fits⟩ := sound.live pv' given' live'
    have owned := isFree_of_owner fits.owner
    rcases mem_around.mp inside with rfl | other
    · rw [fits.owner] at owner
      cases owner
    · refine ⟨c, (members c owned).mpr other, fits.keep fun a low high => ?_⟩
      exact keeps.owned given (mem_around.mpr (.inr other)) owned (by omega) high
  · intro c inside owner'
    have other := (members c (isFree_of_owner owner')).mp inside
    exact sound.known c (mem_around.mpr (.inr other)) owner'
  · intro pv'
    dsimp only
    by_cases same : pv' = b.start + 8
    · rw [same, Function.update_self]
      refine iff_of_false Bool.false_ne_true fun held => ?_
      rcases held with ⟨c, inside, start, owner'⟩
      have other := (members c (isFree_of_owner owner')).mp inside
      exact elsewhere c other (by omega)
    · rw [Function.update_of_ne same, sound.freeing pv']
      constructor
      · intro held
        rcases held with ⟨c, inside, start, owner'⟩
        rcases mem_around.mp inside with rfl | other
        · exact absurd start.symm same
        · exact ⟨c, (members c (isFree_of_owner owner')).mpr other, start, owner'⟩
      · intro held
        rcases held with ⟨c, inside, start, owner'⟩
        have other := (members c (isFree_of_owner owner')).mp inside
        exact ⟨c, mem_around.mpr (.inr other), start, owner'⟩

/-! ## Runs -/

/-- Nobody has called the allocator. -/
structure Untouched (s : HeapSystem) : Prop where
  pxEnd : s.heap.pxEnd = null
  live : ∀ pv, s.live pv = none
  freeing : ∀ pv, s.freeing pv = false

/-- The heap as the first call initialises it. -/
def ready (l : HeapLayout) (s : HeapSystem) : HeapSystem :=
  { s with heap := s.heap.initialised l }

theorem Sound.ready_eq (sound : s.Sound l blocks) : s.ready l = s := by
  rw [ready, initialised_eq sound.represents]

theorem Untouched.sound (untouched : s.Untouched) : ∃ blocks, (s.ready l).Sound l blocks := by
  have initialised : s.ready l = { s with heap := l.prvHeapInit s.heap } := by
    rw [ready, Heap.initialised, if_pos untouched.pxEnd]
  rw [initialised]
  refine ⟨_, prvHeapInit_represents l s.heap, fun pv given live => ?_, fun c member owner => ?_,
    fun pv => ?_, le_rfl⟩
  · rw [untouched.live pv] at live
    cases live
  · rw [List.mem_singleton.mp member] at owner
    cases owner
  · rw [untouched.freeing pv]
    refine iff_of_false Bool.false_ne_true fun held => ?_
    rcases held with ⟨c, member, -, owner⟩
    rw [List.mem_singleton.mp member] at owner
    cases owner

/-- A call works on the initialised heap. -/
theorem malloc_ready (sound : (s.ready l).Sound l blocks) (n : Nat) :
    s.malloc l n = (s.ready l).malloc l n := by
  have same := initialised_eq sound.represents
  rw [HeapSystem.malloc, HeapSystem.malloc, Heap.pvPortMalloc, Heap.pvPortMalloc, same]
  rfl

theorem Sound.step (sound : s.Sound l blocks) {a : HeapAct} (taken : s.step l a = some s') :
    (∃ blocks', s'.Sound l blocks') ∧ s.Tracks s' := by
  cases a with
  | malloc n =>
      rw [HeapSystem.step, Option.ite_none_right_eq_some] at taken
      obtain ⟨after, blocks', given, result, tracks⟩ := sound.malloc taken.1
      cases given.symm.trans taken.2
      exact ⟨⟨blocks', result⟩, tracks⟩
  | store pv a value =>
      obtain ⟨result, tracks⟩ := sound.store taken
      exact ⟨⟨blocks, result⟩, tracks⟩
  | unmark pv =>
      have live : (s.live pv).isSome = true := by
        rw [HeapSystem.step, HeapSystem.unmark, Option.ite_none_right_eq_some] at taken
        exact taken.1
      obtain ⟨after, blocks', unmarked, result, tracks⟩ := sound.unmark live
      cases unmarked.symm.trans taken
      exact ⟨⟨blocks', result⟩, tracks⟩
  | insert pv =>
      have freeing : s.freeing pv = true := by
        rw [HeapSystem.step, HeapSystem.insert, Option.ite_none_right_eq_some] at taken
        exact taken.1
      obtain ⟨after, blocks', inserted, result, tracks⟩ := sound.insert freeing
      cases inserted.symm.trans taken
      exact ⟨⟨blocks', result⟩, tracks⟩

/-- Before the first call nothing but that call can happen. -/
theorem Untouched.step (untouched : s.Untouched) {a : HeapAct} (taken : s.step l a = some s') :
    (s.ready l).step l a = some s' := by
  obtain ⟨blocks, sound⟩ := untouched.sound (l := l)
  cases a with
  | malloc n =>
      rw [HeapSystem.step, malloc_ready sound] at taken
      exact taken
  | store pv a value => simp [HeapSystem.step, storeCell, untouched.live pv] at taken
  | unmark pv => simp [HeapSystem.step, HeapSystem.unmark, untouched.live pv] at taken
  | insert pv => simp [HeapSystem.step, HeapSystem.insert, untouched.freeing pv] at taken

theorem reach_sound (reached : (heapLts l).Reach s) : s.Untouched ∨ ∃ blocks, s.Sound l blocks := by
  refine Lts.ReachWhile.invariant (P := fun s => s.Untouched ∨ ∃ blocks, s.Sound l blocks)
    (fun s start => .inl ⟨start.1, start.2.1, start.2.2⟩) (fun s a s' _ now _ taken => ?_) reached
  rcases now with untouched | ⟨blocks, sound⟩
  · obtain ⟨blocks, sound⟩ := untouched.sound (l := l)
    exact .inr (sound.step (untouched.step taken)).1
  · exact .inr (sound.step taken).1

/-- In every run the initialised heap is sound. -/
theorem reach_ready (reached : (heapLts l).Reach s) : ∃ blocks, (s.ready l).Sound l blocks := by
  rcases reach_sound reached with untouched | ⟨blocks, sound⟩
  · exact untouched.sound
  · exact ⟨blocks, by rwa [sound.ready_eq]⟩

end HeapSystem

end FepMaster

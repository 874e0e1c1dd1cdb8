import Mathlib.Algebra.Order.BigOperators.Group.List
import Mathlib.Algebra.Order.Ring.Nat
import Mathlib.Data.List.Chain
import Mathlib.Data.Set.Card
import Mathlib.Order.Interval.Finset.Nat

/-!
# Blocks that fill an interval

An arena is an interval of addresses cut into blocks, each free or with an owner (`Tiles`).  Joining
every two free blocks that meet (`fuse`) leaves the addresses of the owned blocks as they are and
makes the free space as usable as it can be: when no two free blocks meet (`Coalesced`), any stretch
of addresses without an owner lies inside one free block (`Coalesced.fits`).
-/

universe u

namespace Arena

/-- A block of addresses and its owner; a free block has none. -/
structure Block (ω : Type u) where
  start : Nat
  size : Nat
  owner : Option ω
  deriving DecidableEq

namespace Block

variable {ω : Type u}

/-- The address behind the block. -/
def stop (b : Block ω) : Nat := b.start + b.size

/-- Nobody owns it. -/
def isFree (b : Block ω) : Bool := b.owner.isNone

/-- The block given to an owner, or taken from one. -/
def give (b : Block ω) (owner : Option ω) : Block ω := { b with owner := owner }

@[simp] theorem give_start (b : Block ω) (owner : Option ω) : (b.give owner).start = b.start := rfl

@[simp] theorem give_size (b : Block ω) (owner : Option ω) : (b.give owner).size = b.size := rfl

@[simp] theorem give_stop (b : Block ω) (owner : Option ω) : (b.give owner).stop = b.stop := rfl

@[simp] theorem give_owner (b : Block ω) (owner : Option ω) : (b.give owner).owner = owner := rfl

@[simp] theorem isFree_give_none (b : Block ω) : (b.give none).isFree = true := rfl

@[simp] theorem isFree_give_some (b : Block ω) (o : ω) : (b.give (some o)).isFree = false := rfl

theorem isFree_iff {b : Block ω} : b.isFree = true ↔ b.owner = none := Option.isNone_iff_eq_none

end Block

variable {ω : Type u} {unit lo mid hi : Nat} {b c x : Block ω} {blocks before after : List (Block ω)}

/-- A block among the others. -/
theorem mem_around : c ∈ before ++ x :: after ↔ c = x ∨ c ∈ before ∨ c ∈ after := by
  rw [List.mem_append, List.mem_cons, or_left_comm]

/-! ## Filling an interval -/

/-- The blocks fill the addresses from `lo` to `hi` in their order; sizes are positive multiples of
the unit. -/
def Tiles (unit : Nat) : Nat → List (Block ω) → Nat → Prop
  | lo, [], hi => lo = hi
  | lo, b :: rest, hi => b.start = lo ∧ 0 < b.size ∧ unit ∣ b.size ∧ Tiles unit b.stop rest hi

theorem tiles_append : Tiles unit lo (before ++ after) hi ↔
    ∃ mid, Tiles unit lo before mid ∧ Tiles unit mid after hi := by
  induction before generalizing lo with
  | nil => simp [Tiles]
  | cons b rest ih =>
      simp only [List.cons_append, Tiles, ih]
      constructor
      · intro tiles
        rcases tiles with ⟨start, positive, whole, mid, first, second⟩
        exact ⟨mid, ⟨start, positive, whole, first⟩, second⟩
      · intro tiles
        rcases tiles with ⟨mid, ⟨start, positive, whole, first⟩, second⟩
        exact ⟨start, positive, whole, mid, first, second⟩

theorem Tiles.le (tiles : Tiles unit lo blocks hi) : lo ≤ hi := by
  induction blocks generalizing lo with
  | nil => exact tiles.le
  | cons b rest ih =>
      rcases tiles with ⟨start, positive, -, tiles⟩
      have later := ih tiles
      unfold Block.stop at later
      omega

/-- Every block lies inside the interval. -/
theorem Tiles.bounds (tiles : Tiles unit lo blocks hi) (member : b ∈ blocks) :
    lo ≤ b.start ∧ 0 < b.size ∧ b.stop ≤ hi := by
  induction blocks generalizing lo with
  | nil => cases member
  | cons c rest ih =>
      rcases tiles with ⟨start, positive, -, tiles⟩
      rcases List.mem_cons.mp member with rfl | member
      · exact ⟨start.ge, positive, tiles.le⟩
      · have later := ih tiles member
        unfold Block.stop at later ⊢
        omega

theorem Tiles.whole (tiles : Tiles unit lo blocks hi) (member : b ∈ blocks) : unit ∣ b.size := by
  induction blocks generalizing lo with
  | nil => cases member
  | cons c rest ih =>
      rcases tiles with ⟨-, -, whole, tiles⟩
      rcases List.mem_cons.mp member with rfl | member
      · exact whole
      · exact ih tiles member

/-- Blocks start at multiples of the unit when the interval does. -/
theorem Tiles.aligned (tiles : Tiles unit lo blocks hi) (aligned : unit ∣ lo) (member : b ∈ blocks) :
    unit ∣ b.start := by
  induction blocks generalizing lo with
  | nil => cases member
  | cons c rest ih =>
      rcases tiles with ⟨start, -, whole, tiles⟩
      rcases List.mem_cons.mp member with rfl | member
      · rwa [start]
      · apply ih tiles ?_ member
        rw [Block.stop, start]
        exact Nat.dvd_add aligned whole

/-- A block lies between those before it and those behind it. -/
theorem Tiles.split (tiles : Tiles unit lo (before ++ x :: after) hi) :
    Tiles unit lo before x.start ∧ 0 < x.size ∧ unit ∣ x.size ∧ Tiles unit x.stop after hi := by
  obtain ⟨mid, first, start, positive, whole, second⟩ := tiles_append.mp tiles
  rw [start]
  exact ⟨first, positive, whole, second⟩

/-- Replacing a block by one of the same extent. -/
theorem Tiles.replace (tiles : Tiles unit lo (before ++ x :: after) hi) (start : c.start = x.start)
    (size : c.size = x.size) : Tiles unit lo (before ++ c :: after) hi := by
  obtain ⟨first, positive, whole, second⟩ := tiles.split
  refine tiles_append.mpr ⟨x.start, first, start, ?_, ?_, ?_⟩
  · rwa [size]
  · rwa [size]
  · rwa [Block.stop, start, size]

/-- Two blocks are one or do not meet. -/
theorem Tiles.disjoint (tiles : Tiles unit lo blocks hi) (hb : b ∈ blocks) (hc : c ∈ blocks) :
    b = c ∨ b.stop ≤ c.start ∨ c.stop ≤ b.start := by
  induction blocks generalizing lo with
  | nil => cases hb
  | cons d rest ih =>
      rcases tiles with ⟨-, -, -, tiles⟩
      rcases List.mem_cons.mp hb with rfl | first
      · rcases List.mem_cons.mp hc with rfl | second
        · exact .inl rfl
        · exact .inr (.inl (tiles.bounds second).1)
      · rcases List.mem_cons.mp hc with rfl | second
        · exact .inr (.inr (tiles.bounds first).1)
        · exact ih tiles first second

/-- The other blocks start elsewhere. -/
theorem Tiles.start_ne (tiles : Tiles unit lo (before ++ x :: after) hi) :
    ∀ c, c ∈ before ∨ c ∈ after → c.start ≠ x.start := by
  obtain ⟨first, positive, -, second⟩ := tiles.split
  intro c other
  rcases other with early | late
  · have bounds := first.bounds early
    unfold Block.stop at bounds
    omega
  · have bounds := second.bounds late
    unfold Block.stop at bounds
    omega

/-- A block is known by where it starts. -/
theorem Tiles.eq_of_start (tiles : Tiles unit lo blocks hi) (hb : b ∈ blocks) (hc : c ∈ blocks)
    (same : b.start = c.start) : b = c := by
  have first := (tiles.bounds hb).2.1
  have second := (tiles.bounds hc).2.1
  rcases tiles.disjoint hb hc with equal | apart | apart
  · exact equal
  · unfold Block.stop at apart
    omega
  · unfold Block.stop at apart
    omega

/-- No block is smaller than the unit. -/
theorem Tiles.length_le (tiles : Tiles unit lo blocks hi) : lo + unit * blocks.length ≤ hi := by
  induction blocks generalizing lo with
  | nil => exact tiles.le
  | cons b rest ih =>
      rcases tiles with ⟨start, positive, whole, tiles⟩
      have least := Nat.le_of_dvd positive whole
      have later := ih tiles
      rw [List.length_cons, Nat.mul_succ]
      unfold Block.stop at later
      omega

/-! ## Where the free blocks start -/

/-- The addresses of the free blocks, in their order. -/
def freeStarts (blocks : List (Block ω)) : List Nat := (blocks.filter Block.isFree).map Block.start

@[simp] theorem freeStarts_nil : freeStarts ([] : List (Block ω)) = [] := rfl

theorem freeStarts_append : freeStarts (before ++ after) = freeStarts before ++ freeStarts after := by
  unfold freeStarts
  rw [List.filter_append, List.map_append]

theorem freeStarts_cons_free (free : b.isFree = true) :
    freeStarts (b :: blocks) = b.start :: freeStarts blocks := by
  rw [freeStarts, List.filter_cons_of_pos free]
  rfl

theorem freeStarts_cons_owned (owned : b.isFree = false) :
    freeStarts (b :: blocks) = freeStarts blocks := by
  rw [freeStarts, List.filter_cons_of_neg (by rw [owned]; exact Bool.false_ne_true)]
  rfl

theorem mem_freeStarts {a : Nat} :
    a ∈ freeStarts blocks ↔ ∃ b ∈ blocks, b.isFree = true ∧ b.start = a := by
  simp [freeStarts, and_assoc]

/-- They are inside the interval. -/
theorem Tiles.freeStarts_bounds (tiles : Tiles unit lo blocks hi) {a : Nat}
    (member : a ∈ freeStarts blocks) : lo ≤ a ∧ a < hi := by
  obtain ⟨b, inside, -, rfl⟩ := mem_freeStarts.mp member
  have bounds := tiles.bounds inside
  unfold Block.stop at bounds
  omega

theorem Tiles.freeStarts_nodup (tiles : Tiles unit lo blocks hi) : (freeStarts blocks).Nodup := by
  induction blocks generalizing lo with
  | nil => exact List.nodup_nil
  | cons b rest ih =>
      rcases tiles with ⟨-, positive, -, tiles⟩
      cases free : b.isFree with
      | true =>
          rw [freeStarts_cons_free free]
          refine List.nodup_cons.mpr ⟨fun again => ?_, ih tiles⟩
          have bounds := tiles.freeStarts_bounds again
          unfold Block.stop at bounds
          omega
      | false =>
          rw [freeStarts_cons_owned free]
          exact ih tiles

/-- No free block starts inside an owned one. -/
theorem Tiles.notMem_freeStarts (tiles : Tiles unit lo blocks hi) (member : b ∈ blocks)
    (owned : b.isFree = false) {a : Nat} (low : b.start ≤ a) (high : a < b.stop) :
    a ∉ freeStarts blocks := by
  intro open_
  obtain ⟨c, inside, free, rfl⟩ := mem_freeStarts.mp open_
  rcases tiles.disjoint member inside with rfl | apart | apart
  · rw [owned] at free
    cases free
  · omega
  · have positive := (tiles.bounds inside).2.1
    unfold Block.stop at apart
    omega

/-! ## How much is free -/

/-- The addresses in free blocks. -/
def freeSize (blocks : List (Block ω)) : Nat := ((blocks.filter Block.isFree).map Block.size).sum

/-- The addresses in owned blocks. -/
def ownedSize (blocks : List (Block ω)) : Nat :=
  ((blocks.filter fun b => !b.isFree).map Block.size).sum

@[simp] theorem freeSize_nil : freeSize ([] : List (Block ω)) = 0 := rfl

theorem freeSize_cons : freeSize (b :: blocks) =
    (if b.isFree then b.size else 0) + freeSize blocks := by
  unfold freeSize
  cases free : b.isFree <;> simp [free]

@[simp] theorem freeSize_single (lo size : Nat) : freeSize [(⟨lo, size, none⟩ : Block ω)] = size := by
  simp [freeSize_cons, Block.isFree]

theorem ownedSize_cons : ownedSize (b :: blocks) =
    (if b.isFree then 0 else b.size) + ownedSize blocks := by
  unfold ownedSize
  cases free : b.isFree <;> simp [free]

theorem freeSize_append : freeSize (before ++ after) = freeSize before + freeSize after := by
  unfold freeSize
  rw [List.filter_append, List.map_append, List.sum_append]

/-- Every address is in a free block or in an owned one. -/
theorem Tiles.total (tiles : Tiles unit lo blocks hi) :
    lo + freeSize blocks + ownedSize blocks = hi := by
  induction blocks generalizing lo with
  | nil => exact tiles
  | cons b rest ih =>
      rcases tiles with ⟨start, -, -, tiles⟩
      have later := ih tiles
      rw [freeSize_cons, ownedSize_cons]
      unfold Block.stop at later
      split <;> omega

/-- A free block is part of the free space. -/
theorem size_le_freeSize (member : b ∈ blocks) (free : b.isFree = true) : b.size ≤ freeSize blocks :=
  List.single_le_sum (fun _ _ => Nat.zero_le _) _
    (List.mem_map_of_mem (List.mem_filter.mpr ⟨member, free⟩))

/-! ## Joining free blocks -/

/-- A block put before others, joined with the first of them when both are free. -/
def join (b : Block ω) : List (Block ω) → List (Block ω)
  | [] => [b]
  | c :: rest =>
      if b.isFree && c.isFree then { b with size := b.size + c.size } :: rest else b :: c :: rest

/-- All free blocks that meet are joined. -/
def fuse : List (Block ω) → List (Block ω)
  | [] => []
  | b :: rest => join b (fuse rest)

/-- No two free blocks meet. -/
def Coalesced (blocks : List (Block ω)) : Prop :=
  blocks.IsChain fun b c => (b.isFree && c.isFree) = false

/-- Only where the free blocks are matters. -/
theorem Coalesced.replace (coalesced : Coalesced (before ++ x :: after))
    (same : c.isFree = x.isFree) : Coalesced (before ++ c :: after) := by
  have flags : (before ++ c :: after).map Block.isFree = (before ++ x :: after).map Block.isFree := by
    simp [same]
  have mapped := List.isChain_map_of_isChain (S := fun a b => (a && b) = false) Block.isFree
    (fun _ _ apart => apart) coalesced
  rw [← flags] at mapped
  exact List.isChain_of_isChain_map Block.isFree (fun _ _ apart => apart) mapped

/-- Another block at the end makes two free blocks meet only when the last one is free. -/
theorem Coalesced.exists_last (coalesced : Coalesced before) (met : ¬ Coalesced (before ++ [b])) :
    ∃ front c, before = front ++ [c] ∧ c.isFree = true := by
  rcases List.eq_nil_or_concat before with rfl | ⟨front, c, rfl⟩
  · exact absurd (List.isChain_singleton b) met
  · rw [List.concat_eq_append] at coalesced met ⊢
    cases free : c.isFree with
    | true => exact ⟨front, c, rfl, free⟩
    | false =>
        refine absurd ?_ met
        rw [Coalesced, List.append_assoc]
        refine List.isChain_append_cons_cons.mpr ⟨coalesced, ?_, List.isChain_singleton b⟩
        rw [free, Bool.false_and]

theorem join_cons_owned (owned : c.isFree = false) : join b (c :: blocks) = b :: c :: blocks := by
  rw [join, owned, Bool.and_false, if_neg Bool.false_ne_true]

theorem join_cons_free (first : b.isFree = true) (second : c.isFree = true) :
    join b (c :: blocks) = { b with size := b.size + c.size } :: blocks := by
  rw [join, first, second, Bool.and_true, if_pos rfl]

/-- Two free blocks put before others may as well be joined first. -/
theorem join_join (first : b.isFree = true) (second : c.isFree = true) :
    join b (join c blocks) = join { b with size := b.size + c.size } blocks := by
  have joined : Block.isFree { b with size := b.size + c.size } = true := first
  cases blocks with
  | nil => exact join_cons_free first second
  | cons d rest =>
      cases third : d.isFree with
      | true =>
          have both : Block.isFree { c with size := c.size + d.size } = true := second
          rw [join_cons_free second third, join_cons_free first both, join_cons_free joined third,
            Nat.add_assoc]
      | false =>
          rw [join_cons_owned third, join_cons_owned third, join_cons_free first second]

/-- What is put first starts where the block does and is as free as it. -/
theorem join_head (b : Block ω) (blocks : List (Block ω)) :
    ∃ size rest, join b blocks = { b with size := size } :: rest := by
  cases blocks with
  | nil => exact ⟨b.size, [], rfl⟩
  | cons c rest =>
      rw [join]
      split
      · exact ⟨_, _, rfl⟩
      · exact ⟨b.size, c :: rest, rfl⟩

theorem join_tiles (tiles : Tiles unit lo (b :: blocks) hi) : Tiles unit lo (join b blocks) hi := by
  cases blocks with
  | nil => exact tiles
  | cons c rest =>
      rw [join]
      split
      · rcases tiles with ⟨start, positive, whole, next, -, more, tiles⟩
        refine ⟨start, Nat.add_pos_left positive _, Nat.dvd_add whole more, ?_⟩
        have stop : c.stop = b.start + (b.size + c.size) := by
          rw [Block.stop, next, Block.stop, Nat.add_assoc]
        rwa [stop] at tiles
      · exact tiles

theorem Tiles.fuse (tiles : Tiles unit lo blocks hi) : Tiles unit lo (fuse blocks) hi := by
  induction blocks generalizing lo with
  | nil => exact tiles
  | cons b rest ih =>
      rcases tiles with ⟨start, positive, whole, tiles⟩
      exact join_tiles ⟨start, positive, whole, ih tiles⟩

theorem join_coalesced (coalesced : Coalesced blocks) : Coalesced (join b blocks) := by
  cases blocks with
  | nil => exact List.isChain_singleton b
  | cons c rest =>
      rw [join]
      split
      · next both =>
        have free := (Bool.and_eq_true_iff.mp both)
        cases rest with
        | nil => exact List.isChain_singleton _
        | cons d rest =>
            have apart := List.rel_of_isChain_cons_cons coalesced
            rw [free.2, Bool.true_and] at apart
            refine List.IsChain.cons_cons ?_ coalesced.tail
            rw [apart, Bool.and_false]
      · next other => exact .cons_cons (Bool.eq_false_iff.mpr other) coalesced

theorem fuse_coalesced (blocks : List (Block ω)) : Coalesced (fuse blocks) := by
  induction blocks with
  | nil => exact List.isChain_nil
  | cons b rest ih => exact join_coalesced ih

/-- Nothing to join. -/
theorem fuse_eq_self (coalesced : Coalesced blocks) : fuse blocks = blocks := by
  induction blocks with
  | nil => rfl
  | cons b rest ih =>
      rw [fuse, ih coalesced.tail]
      cases rest with
      | nil => rfl
      | cons c rest =>
          rw [join, List.rel_of_isChain_cons_cons coalesced, if_neg Bool.false_ne_true]

/-- Joining reaches back to the last block that has nothing to join before it. -/
theorem fuse_append (coalesced : Coalesced (before ++ [b])) :
    fuse (before ++ b :: after) = before ++ join b (fuse after) := by
  induction before with
  | nil => rfl
  | cons c rest ih =>
      rw [List.cons_append, fuse, ih coalesced.tail, List.cons_append]
      cases rest with
      | nil =>
          obtain ⟨size, more, head⟩ := join_head b (fuse after)
          have apart := (List.isChain_cons_cons.mp coalesced).1
          have same : Block.isFree { b with size := size } = b.isFree := rfl
          rw [List.nil_append, head, join, same, apart, if_neg Bool.false_ne_true]
      | cons d rest =>
          rw [List.cons_append, join, List.rel_of_isChain_cons_cons coalesced,
            if_neg Bool.false_ne_true]

theorem owned_join : (join b blocks).filter (fun c => !c.isFree) =
    (b :: blocks).filter fun c => !c.isFree := by
  cases blocks with
  | nil => rfl
  | cons c rest =>
      rw [join]
      split
      · next both =>
        have free := Bool.and_eq_true_iff.mp both
        have joined : Block.isFree { b with size := b.size + c.size } = true := free.1
        simp [joined, free.1, free.2]
      · rfl

/-- The owned blocks stay as they are. -/
theorem owned_fuse (blocks : List (Block ω)) : (fuse blocks).filter (fun c => !c.isFree) =
    blocks.filter fun c => !c.isFree := by
  induction blocks with
  | nil => rfl
  | cons b rest ih =>
      rw [fuse, owned_join]
      cases owned : b.isFree <;> simp [owned, ih]

theorem mem_fuse_of_owned (owned : b.isFree = false) : b ∈ fuse blocks ↔ b ∈ blocks := by
  have same := congrArg (b ∈ ·) (owned_fuse blocks)
  simpa [owned] using same

/-- Joining frees nothing and takes nothing. -/
theorem freeSize_fuse (tiles : Tiles unit lo blocks hi) :
    freeSize (fuse blocks) = freeSize blocks := by
  have before := tiles.total
  have after := tiles.fuse.total
  unfold ownedSize at before after
  rw [owned_fuse] at after
  omega

/-! ## What fits -/

/-- A stretch of addresses that no owned block meets lies inside one free block. -/
theorem Coalesced.fits (coalesced : Coalesced blocks) (tiles : Tiles unit lo blocks hi) {a w : Nat}
    (positive : 0 < w) (above : lo ≤ a) (below : a + w ≤ hi)
    (clear : ∀ b ∈ blocks, b.isFree = false → a + w ≤ b.start ∨ b.stop ≤ a) :
    ∃ b ∈ blocks, b.isFree = true ∧ b.start ≤ a ∧ a + w ≤ b.stop := by
  induction blocks generalizing lo with
  | nil =>
      have same : lo = hi := tiles
      omega
  | cons b rest ih =>
      rcases tiles with ⟨start, large, -, tiles⟩
      have later : b.stop ≤ a → ∃ b ∈ rest, b.isFree = true ∧ b.start ≤ a ∧ a + w ≤ b.stop :=
        fun behind => ih coalesced.tail tiles behind fun c member => clear c (.tail b member)
      rcases Nat.lt_or_ge a b.stop with inside | behind
      · have first := clear b List.mem_cons_self
        cases free : b.isFree with
        | false =>
            have met := first free
            omega
        | true =>
            refine ⟨b, List.mem_cons_self, free, by omega, ?_⟩
            cases rest with
            | nil =>
                have last : b.stop = hi := tiles
                omega
            | cons c rest =>
                -- the next block is owned, so the stretch ends before it
                have apart := List.rel_of_isChain_cons_cons coalesced
                rw [free, Bool.true_and] at apart
                rcases tiles with ⟨next, wide, -, -⟩
                have met := clear c (.tail b List.mem_cons_self) apart
                unfold Block.stop at met
                omega
      · obtain ⟨c, member, fits⟩ := later behind
        exact ⟨c, .tail b member, fits⟩

/-- The addresses in free blocks, counted. -/
theorem Tiles.ncard_free (tiles : Tiles unit lo blocks hi) :
    {a | ∃ b ∈ blocks, b.isFree = true ∧ b.start ≤ a ∧ a < b.stop}.ncard = freeSize blocks := by
  induction blocks generalizing lo with
  | nil => simp
  | cons b rest ih =>
      rcases tiles with ⟨-, -, -, tiles⟩
      have later := ih tiles
      have finite : {a | ∃ c ∈ rest, c.isFree = true ∧ c.start ≤ a ∧ a < c.stop}.Finite := by
        refine (Set.finite_Iio hi).subset fun a inside => ?_
        rcases inside with ⟨c, member, -, -, below⟩
        exact below.trans_le (tiles.bounds member).2.2
      rw [freeSize_cons, ← later]
      cases free : b.isFree with
      | true =>
          have cut : {a | ∃ c ∈ b :: rest, c.isFree = true ∧ c.start ≤ a ∧ a < c.stop} =
              Set.Ico b.start b.stop ∪
                {a | ∃ c ∈ rest, c.isFree = true ∧ c.start ≤ a ∧ a < c.stop} := by
            ext a
            simp [free, Set.mem_Ico]
          have apart : Disjoint (Set.Ico b.start b.stop)
              {a | ∃ c ∈ rest, c.isFree = true ∧ c.start ≤ a ∧ a < c.stop} := by
            refine Set.disjoint_left.mpr fun a inside other => ?_
            rcases other with ⟨c, member, -, above, -⟩
            exact absurd inside.2 (Nat.not_lt.mpr ((tiles.bounds member).1.trans above))
          rw [cut, Set.ncard_union_eq apart (Set.finite_Ico _ _) finite, if_pos rfl,
            ← Finset.coe_Ico, Set.ncard_coe_finset, Nat.card_Ico, Block.stop, Nat.add_sub_cancel_left]
      | false =>
          rw [if_neg Bool.false_ne_true, Nat.zero_add]
          congr 1
          ext a
          simp [free]

/-- When nothing is owned there is one block. -/
theorem Coalesced.single (coalesced : Coalesced blocks) (tiles : Tiles unit lo blocks hi)
    (room : lo < hi) (free : ∀ b ∈ blocks, b.isFree = true) :
    blocks = [⟨lo, hi - lo, none⟩] := by
  cases blocks with
  | nil =>
      have same : lo = hi := tiles
      omega
  | cons b rest =>
      have first := free b List.mem_cons_self
      cases rest with
      | nil =>
          rcases tiles with ⟨start, -, -, stop⟩
          have size : b.size = hi - lo := by
            have stop : b.start + b.size = hi := stop
            omega
          rw [← size, ← start, ← Block.isFree_iff.mp first]
      | cons c rest =>
          have apart := List.rel_of_isChain_cons_cons coalesced
          rw [first, free c (.tail b List.mem_cons_self)] at apart
          cases apart

end Arena

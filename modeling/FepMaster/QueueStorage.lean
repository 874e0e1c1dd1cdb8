import FepMaster.Lib.RecordRing
import FepMaster.Queue

/-!
# What a queue holds

The members of `Queue_t` that point into its storage describe a list of items: the one to be read
next is behind `u.pcReadFrom`, the next one written to the back goes to `pcWriteTo`
(`ItemStorage.Holds`).  `prvCopyDataToQueue` and `prvCopyDataFromQueue` add and take items at the
ends of that list, and change no byte outside the storage.
-/

namespace FepMaster

open RecordRing

/-- The item is added to the items of the queue. -/
def CopyPosition.place (item : List UInt8) (items : List (List UInt8)) :
    CopyPosition → List (List UInt8)
  | .queueSendToBack => items ++ [item]
  | .queueSendToFront => item :: items
  | .queueOverwrite => [item]

/-- The members of `Queue_t` that are about its items. -/
structure ItemStorage where
  pcHead : Nat
  pcTail : Nat
  pcWriteTo : Nat
  pcReadFrom : Nat
  uxMessagesWaiting : Nat
  uxLength : Nat
  uxItemSize : Nat

namespace ItemStorage

/-- The bounds that do not change. -/
structure Sized (q : ItemStorage) : Prop where
  uxLengthPos : 0 < q.uxLength
  tail : q.pcTail = q.pcHead + q.uxLength * q.uxItemSize
  storage : q.pcTail < 2 ^ 32
  above : q.uxItemSize ≤ q.pcHead

/-- The queue holds `items`, the one to be read next first. -/
structure Holds (q : ItemStorage) (m : Nat → UInt8) (items : List (List UInt8)) : Prop where
  size : q.Sized
  count : q.uxMessagesWaiting = items.length
  room : items.length ≤ q.uxLength
  sized : ∀ item ∈ items, item.length = q.uxItemSize
  filled : ∃ k, q.pcReadFrom = address q.pcHead q.uxItemSize q.uxLength k ∧
    q.pcWriteTo = address q.pcHead q.uxItemSize q.uxLength (k + 1 + items.length) ∧
    Filled m q.pcHead q.uxItemSize q.uxLength (k + 1) items

namespace Holds

variable {q : ItemStorage} {m : Nat → UInt8} {items : List (List UInt8)}

theorem of_eq {q' : ItemStorage} (same : q' = q) (holds : q.Holds m items) : q'.Holds m items := by
  rw [same]
  exact holds

/-- The count is the length of the list. -/
theorem recount (holds : q.Holds m items) :
    ItemStorage.Holds { q with uxMessagesWaiting := items.length } m items := by
  rw [← holds.count]
  exact holds

/-- A queue for one item as if it had none. -/
theorem cleared (holds : q.Holds m items) (one : q.uxLength = 1) :
    ItemStorage.Holds { q with uxMessagesWaiting := 0 } m [] := by
  rcases holds with ⟨size, _, _, _, k, reads, writes, _⟩
  refine ⟨⟨size.uxLengthPos, size.tail, size.storage, size.above⟩, rfl, Nat.zero_le _, ?_, k, reads,
    ?_, Filled.nil⟩
  · intro other member
    cases member
  · change q.pcWriteTo = address q.pcHead q.uxItemSize q.uxLength (k + 1 + 0)
    rw [writes, one, address_of_single, address_of_single]

end Holds

end ItemStorage

namespace QueueDefinition

open ItemStorage

variable {Task : Type} {q : QueueDefinition Task} {m : Nat → UInt8} {items : List (List UInt8)}
  {item : List UInt8} {xPosition : CopyPosition}

/-- Its part of `Queue_t`. -/
def storage (q : QueueDefinition Task) : ItemStorage where
  pcHead := q.pcHead
  pcTail := q.pcTail
  pcWriteTo := q.pcWriteTo
  pcReadFrom := q.pcReadFrom
  uxMessagesWaiting := q.uxMessagesWaiting
  uxLength := q.uxLength
  uxItemSize := q.uxItemSize

/-- A new queue is empty. -/
theorem holds_created (created : QueueCreated q) (m : Nat → UInt8) : q.storage.Holds m [] := by
  have room := created.storage
  rw [created.reset]
  refine ⟨⟨created.uxLengthPos, rfl, ?_, created.above⟩, rfl, Nat.zero_le _, ?_, ?_⟩
  · change q.pcHead + q.uxLength * q.uxItemSize < 2 ^ 32
    omega
  · intro item member
    cases member
  · have last : q.uxLength - 1 < q.uxLength := Nat.sub_lt created.uxLengthPos Nat.one_pos
    have round : q.uxLength - 1 + 1 + 0 = 0 + q.uxLength := by omega
    refine ⟨q.uxLength - 1, ?_, ?_, Filled.nil⟩
    · change q.pcHead + (q.uxLength - 1) * q.uxItemSize =
        address q.pcHead q.uxItemSize q.uxLength (q.uxLength - 1)
      rw [address, Nat.mod_eq_of_lt last]
    · change q.pcHead = address q.pcHead q.uxItemSize q.uxLength (q.uxLength - 1 + 1 + 0)
      rw [round, address_add_round, address_zero]

/-! ## `prvCopyDataToQueue` -/

/-- The number of items after an item was copied in. -/
def countAfter (q : QueueDefinition Task) (xPosition : CopyPosition) : Nat :=
  if xPosition = .queueOverwrite ∧ q.uxItemSize ≠ 0 ∧ q.uxMessagesWaiting > 0 then
    q.uxMessagesWaiting
  else q.uxMessagesWaiting + 1

theorem copyToBack_eq (q : QueueDefinition Task) (m : Nat → UInt8) (item : List UInt8) :
    q.copyToBack m item =
      ({ q with
        pcWriteTo :=
          if q.pcWriteTo + q.uxItemSize ≥ q.pcTail then q.pcHead else q.pcWriteTo + q.uxItemSize },
        Memory.write m q.pcWriteTo item) := by
  unfold copyToBack
  split
  · next wraps => rw [if_pos wraps]
  · next stays => rw [if_neg stays]

theorem copyToFront_eq (q : QueueDefinition Task) (m : Nat → UInt8) (item : List UInt8) :
    ∃ pcReadFrom,
      q.copyToFront m item = ({ q with pcReadFrom }, Memory.write m q.pcReadFrom item) ∧
      pcReadFrom = if wrapSub q.pcReadFrom q.uxItemSize < q.pcHead then q.pcTail - q.uxItemSize
        else wrapSub q.pcReadFrom q.uxItemSize := by
  unfold copyToFront
  generalize wrapSub q.pcReadFrom q.uxItemSize = before
  by_cases wraps : before < q.pcHead
  · exact ⟨q.pcTail - q.uxItemSize, if_pos wraps, (if_pos wraps).symm⟩
  · exact ⟨before, if_neg wraps, (if_neg wraps).symm⟩

/-- An overwritten item is replaced, any other one is one more. -/
theorem discount_eq (data : q.uxItemSize ≠ 0) (xPosition : CopyPosition) :
    { q.discount xPosition with
      uxMessagesWaiting := (q.discount xPosition).uxMessagesWaiting + 1 } =
      { q with uxMessagesWaiting := q.countAfter xPosition } := by
  unfold discount countAfter
  by_cases overwrites : xPosition = .queueOverwrite
  · rw [if_pos overwrites]
    by_cases full : q.uxMessagesWaiting > 0
    · rw [if_pos full, if_pos ⟨overwrites, data, full⟩]
      exact congrArg (fun count => { q with uxMessagesWaiting := count }) (Nat.sub_add_cancel full)
    · rw [if_neg full, if_neg (fun all => full all.2.2)]
  · rw [if_neg overwrites, if_neg (fun all => overwrites all.1)]

/-- Only the two pointers and the count change. -/
theorem prvCopyDataToQueue_frame (q : QueueDefinition Task) (m : Nat → UInt8) (item : List UInt8)
    (xPosition : CopyPosition) :
    ∃ pcWriteTo pcReadFrom, (q.prvCopyDataToQueue m item xPosition).1 =
      { q with pcWriteTo, pcReadFrom, uxMessagesWaiting := q.countAfter xPosition } := by
  unfold prvCopyDataToQueue
  by_cases empty : q.uxItemSize = 0
  · refine ⟨q.pcWriteTo, q.pcReadFrom, ?_⟩
    have counted : q.countAfter xPosition = q.uxMessagesWaiting + 1 :=
      if_neg fun all => all.2.1 empty
    rw [if_pos empty, counted]
  · rw [if_neg empty]
    by_cases back : xPosition = .queueSendToBack
    · have counted : q.countAfter xPosition = q.uxMessagesWaiting + 1 :=
        if_neg fun all => by rw [back] at all; cases all.1
      rw [if_pos back, copyToBack_eq, counted]
      exact ⟨_, _, rfl⟩
    · obtain ⟨pcReadFrom, copied, -⟩ := copyToFront_eq q m item
      rw [if_neg back, copied]
      exact ⟨q.pcWriteTo, pcReadFrom, discount_eq (q := { q with pcReadFrom }) empty xPosition⟩

/-- What `copyToBack` does to the items. -/
theorem holds_copyToBack (holds : q.storage.Holds m items) (room : items.length < q.uxLength)
    (sized : item.length = q.uxItemSize) :
    ItemStorage.Holds { (q.copyToBack m item).1.storage with
      uxMessagesWaiting := q.uxMessagesWaiting + 1 } (q.copyToBack m item).2
        (items ++ [item]) := by
  rcases holds with ⟨size, count, _, lengths, k, reads, writes, filled⟩
  have writeTo : q.pcWriteTo = address q.pcHead q.uxItemSize q.uxLength (k + 1 + items.length) :=
    writes
  have some_record : 0 < q.uxLength := size.uxLengthPos
  have next := address_succ q.pcHead q.uxItemSize (k + 1 + items.length) some_record
  have tail : q.pcTail = q.pcHead + q.uxLength * q.uxItemSize := size.tail
  rw [← tail, ← writeTo] at next
  rw [copyToBack_eq, ← next, writeTo]
  refine ⟨⟨size.uxLengthPos, size.tail, size.storage, size.above⟩, ?_, ?_, ?_, k, reads, ?_, ?_⟩
  · rw [List.length_append]
    exact congrArg (· + 1) count
  · rw [List.length_append]
    exact room
  · intro other member
    rcases List.mem_append.mp member with before | last
    · exact lengths other before
    · rw [List.mem_singleton.mp last]
      exact sized
  · rw [List.length_append]
    rfl
  · exact filled.push_back room sized

/-- What `copyToFront` does to items with bytes, whatever their count is. -/
theorem holds_copyToFront
    (holds : ItemStorage.Holds { q.storage with uxMessagesWaiting := items.length } m items)
    (room : items.length < q.uxLength) (sized : item.length = q.uxItemSize)
    (data : q.uxItemSize ≠ 0) :
    ItemStorage.Holds { (q.copyToFront m item).1.storage with
      uxMessagesWaiting := items.length + 1 } (q.copyToFront m item).2 (item :: items) := by
  rcases holds with ⟨size, _, _, lengths, k, reads, writes, filled⟩
  have readFrom : q.pcReadFrom = address q.pcHead q.uxItemSize q.uxLength k := reads
  have some_record : 0 < q.uxLength := size.uxLengthPos
  have tail : q.pcTail = q.pcHead + q.uxLength * q.uxItemSize := size.tail
  have limit : q.pcTail < 2 ^ 32 := size.storage
  have above : q.uxItemSize ≤ q.pcHead := size.above
  have round : k + q.uxLength - 1 + 1 = k + q.uxLength := by omega
  have before :=
    address_pred q.pcHead (k + q.uxLength - 1) some_record (Nat.pos_of_ne_zero data) above
  rw [round, address_add_round, ← readFrom, ← tail] at before
  have low := le_address q.pcHead q.uxItemSize q.uxLength k
  have high := address_end q.pcHead q.uxItemSize k some_record
  have difference : wrapSub q.pcReadFrom q.uxItemSize = q.pcReadFrom - q.uxItemSize :=
    wrapSub_eq (by rw [readFrom]; omega) (by rw [readFrom]; omega)
  have around : Filled m q.pcHead q.uxItemSize q.uxLength (k + q.uxLength + 1) items := by
    rw [Nat.add_right_comm]
    exact filled.add_round
  have pushed := around.push_front room sized
  rw [address_add_round] at pushed
  obtain ⟨pcReadFrom, copied, target⟩ := copyToFront_eq q m item
  rw [difference, ← before] at target
  rw [copied, readFrom, target]
  refine ⟨⟨some_record, size.tail, size.storage, size.above⟩, rfl, room, ?_,
    k + q.uxLength - 1, rfl, ?_, ?_⟩
  · intro other member
    rcases List.mem_cons.mp member with same | behind
    · rw [same]
      exact sized
    · exact lengths other behind
  · have position : k + q.uxLength - 1 + 1 + (item :: items).length =
        k + 1 + items.length + q.uxLength := by
      rw [List.length_cons]
      omega
    rw [position]
    exact writes.trans (address_add_round _).symm
  · change Filled _ q.pcHead q.uxItemSize q.uxLength (k + q.uxLength - 1 + 1) (item :: items)
    rw [round]
    exact pushed

/-- An item without bytes is counted. -/
theorem holds_copyNothing (holds : q.storage.Holds m items) (room : items.length < q.uxLength)
    (sized : item.length = q.uxItemSize) (empty : q.uxItemSize = 0) {added : List (List UInt8)}
    (member : ∀ other ∈ added, other = item ∨ other ∈ items)
    (length : added.length = items.length + 1) :
    ItemStorage.Holds { q.storage with uxMessagesWaiting := q.uxMessagesWaiting + 1 } m added := by
  have lengths : ∀ other ∈ added, other.length = q.uxItemSize := by
    intro other found
    rcases member other found with same | before
    · rw [same]
      exact sized
    · exact holds.sized other before
  rcases holds with ⟨size, count, _, _, k, reads, writes, _⟩
  refine ⟨⟨size.uxLengthPos, size.tail, size.storage, size.above⟩, ?_, ?_, lengths, k, reads,
    ?_, ?_⟩
  · rw [length]
    exact congrArg (· + 1) count
  · rw [length]
    exact room
  · change q.pcWriteTo = address q.pcHead q.uxItemSize q.uxLength (k + 1 + added.length)
    have writeTo : q.pcWriteTo = address q.pcHead q.uxItemSize q.uxLength (k + 1 + items.length) :=
      writes
    rw [writeTo, empty, address_of_size_zero, address_of_size_zero]
  · intro j other found
    have nothing := lengths other (List.mem_of_getElem? found)
    rw [empty] at nothing
    change Memory.read m _ q.uxItemSize = other
    rw [empty, Memory.read_zero, List.length_eq_zero_iff.mp nothing]

/-- `prvCopyDataToQueue` adds the item at its place.  An item without bytes does not overwrite
another one. -/
theorem holds_prvCopyDataToQueue (holds : q.storage.Holds m items)
    (room : items.length < q.uxLength ∨ xPosition = .queueOverwrite)
    (sized : item.length = q.uxItemSize)
    (single : xPosition = .queueOverwrite → q.uxLength = 1 ∧ q.uxItemSize ≠ 0) :
    (q.prvCopyDataToQueue m item xPosition).1.storage.Holds
      (q.prvCopyDataToQueue m item xPosition).2 (xPosition.place item items) := by
  unfold prvCopyDataToQueue
  by_cases empty : q.uxItemSize = 0
  · rw [if_pos empty]
    have space : items.length < q.uxLength :=
      room.resolve_right fun overwrites => (single overwrites).2 empty
    cases xPosition with
    | queueSendToBack =>
        apply holds_copyNothing holds space sized empty
        · intro other member
          rcases List.mem_append.mp member with before | last
          · exact .inr before
          · exact .inl (List.mem_singleton.mp last)
        · exact List.length_append
    | queueSendToFront =>
        exact holds_copyNothing holds space sized empty (fun _ => List.mem_cons.mp) rfl
    | queueOverwrite => exact absurd empty (single rfl).2
  · rw [if_neg empty]
    cases xPosition with
    | queueSendToBack =>
        have space : items.length < q.uxLength := room.resolve_right (by decide)
        have copied := holds_copyToBack holds space sized
        rw [copyToBack_eq] at copied
        rw [if_pos rfl, copyToBack_eq]
        exact copied
    | queueSendToFront =>
        have space : items.length < q.uxLength := room.resolve_right (by decide)
        have count : q.uxMessagesWaiting = items.length := holds.count
        have copied := holds_copyToFront holds.recount space sized empty
        obtain ⟨pcReadFrom, written, -⟩ := copyToFront_eq q m item
        rw [written, ← count] at copied
        rw [if_neg (by decide), written]
        exact copied
    | queueOverwrite =>
        have one := (single rfl).1
        have most : q.uxMessagesWaiting ≤ 1 := by
          rw [← one]
          exact le_trans (Nat.le_of_eq holds.count) holds.room
        have counted : q.countAfter .queueOverwrite = 1 := by
          unfold countAfter
          split
          · next full => omega
          · next vacant =>
              have none_left : ¬ q.uxMessagesWaiting > 0 := fun full => vacant ⟨rfl, empty, full⟩
              omega
        have before : ItemStorage.Holds { q.storage with
            uxMessagesWaiting := ([] : List (List UInt8)).length } m [] := holds.cleared one
        have copied := holds_copyToFront before holds.size.uxLengthPos sized empty
        obtain ⟨pcReadFrom, written, -⟩ := copyToFront_eq q m item
        rw [written] at copied
        rw [if_neg (by decide), written]
        have replaced := congrArg storage
          (discount_eq (q := { q with pcReadFrom }) empty .queueOverwrite)
        refine Holds.of_eq replaced ?_
        change (storage { q with
          pcReadFrom, uxMessagesWaiting := q.countAfter .queueOverwrite }).Holds _ [item]
        rw [counted]
        exact copied

/-- The bytes outside the storage stay as they are. -/
theorem prvCopyDataToQueue_outside (holds : q.storage.Holds m items)
    (sized : item.length = q.uxItemSize) (xPosition : CopyPosition) {a : Nat}
    (outside : a < q.pcHead ∨ q.pcTail ≤ a) :
    (q.prvCopyDataToQueue m item xPosition).2 a = m a := by
  have tail : q.pcTail = q.pcHead + q.uxLength * q.uxItemSize := holds.size.tail
  have some_record : 0 < q.uxLength := holds.size.uxLengthPos
  obtain ⟨k, reads, writes, _⟩ := holds.filled
  have apart (j : Nat) :
      Memory.write m (address q.pcHead q.uxItemSize q.uxLength j) item a = m a := by
    have low := le_address q.pcHead q.uxItemSize q.uxLength j
    have high := address_end q.pcHead q.uxItemSize j some_record
    rcases outside with before | behind
    · exact Memory.write_of_lt (by omega)
    · exact Memory.write_of_ge (by omega)
  have readFrom : q.pcReadFrom = address q.pcHead q.uxItemSize q.uxLength k := reads
  have writeTo : q.pcWriteTo = address q.pcHead q.uxItemSize q.uxLength (k + 1 + items.length) :=
    writes
  unfold prvCopyDataToQueue
  by_cases empty : q.uxItemSize = 0
  · rw [if_pos empty]
  · rw [if_neg empty]
    by_cases back : xPosition = .queueSendToBack
    · rw [if_pos back, copyToBack_eq, writeTo]
      exact apart _
    · obtain ⟨pcReadFrom, copied, -⟩ := copyToFront_eq q m item
      rw [if_neg back, copied, readFrom]
      exact apart _

/-! ## `prvCopyDataFromQueue` -/

/-- Only `u.pcReadFrom` changes. -/
theorem prvCopyDataFromQueue_frame (q : QueueDefinition Task) (m : Nat → UInt8) :
    ∃ pcReadFrom item, q.prvCopyDataFromQueue m = ({ q with pcReadFrom }, item) := by
  unfold prvCopyDataFromQueue
  split
  · exact ⟨_, _, rfl⟩
  · exact ⟨q.pcReadFrom, [], rfl⟩

/-- `prvCopyDataFromQueue` copies the item that is next; what its callers do to the count makes the
queue hold the others. -/
theorem holds_prvCopyDataFromQueue (holds : q.storage.Holds m (item :: items)) :
    (q.prvCopyDataFromQueue m).2 = item ∧
    ItemStorage.Holds { (q.prvCopyDataFromQueue m).1.storage with
      uxMessagesWaiting := q.uxMessagesWaiting - 1 } m items := by
  rcases holds with ⟨size, count, room, lengths, k, reads, writes, filled⟩
  have some_record : 0 < q.uxLength := size.uxLengthPos
  have readFrom : q.pcReadFrom = address q.pcHead q.uxItemSize q.uxLength k := reads
  have tail : q.pcTail = q.pcHead + q.uxLength * q.uxItemSize := size.tail
  have next := address_succ q.pcHead q.uxItemSize k some_record
  rw [← tail, ← readFrom] at next
  have front : Memory.read m (address q.pcHead q.uxItemSize q.uxLength (k + 1)) q.uxItemSize =
      item := filled.front
  have copied : q.prvCopyDataFromQueue m =
      ({ q with pcReadFrom := address q.pcHead q.uxItemSize q.uxLength (k + 1) }, item) := by
    unfold prvCopyDataFromQueue
    by_cases empty : q.uxItemSize = 0
    · have same : address q.pcHead q.uxItemSize q.uxLength (k + 1) = q.pcReadFrom := by
        rw [readFrom, empty, address_of_size_zero, address_of_size_zero]
      rw [empty, Memory.read_zero] at front
      rw [if_neg (not_not_intro empty), ← front, same]
    · rw [if_pos empty, ← front, next]
  rw [copied]
  refine ⟨rfl, ⟨some_record, size.tail, size.storage, size.above⟩, ?_, Nat.le_of_succ_le room, ?_,
    k + 1, rfl, ?_, filled.pop⟩
  · have counted : q.uxMessagesWaiting = items.length + 1 := count
    change q.uxMessagesWaiting - 1 = items.length
    omega
  · exact fun other member => lengths other (List.mem_cons_of_mem _ member)
  · have position : k + 1 + (item :: items).length = k + 1 + 1 + items.length := by
      rw [List.length_cons]
      omega
    rw [position] at writes
    exact writes

/-- A byte outside the storage is none of the queue's. -/
theorem holds_store (holds : q.storage.Holds m items) {a : Nat}
    (outside : a < q.pcHead ∨ q.pcTail ≤ a) (value : UInt8) :
    q.storage.Holds (Memory.write m a [value]) items := by
  have tail : q.pcTail = q.pcHead + q.uxLength * q.uxItemSize := holds.size.tail
  rcases holds with ⟨size, count, room, lengths, k, reads, writes, filled⟩
  refine ⟨size, count, room, lengths, k, reads, writes, ?_⟩
  apply filled.write_outside size.uxLengthPos
  rcases outside with before | behind
  · exact .inl before
  · exact .inr (le_trans (Nat.le_of_eq tail.symm) behind)

end QueueDefinition

end FepMaster

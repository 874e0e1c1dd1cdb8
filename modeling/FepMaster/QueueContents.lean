import FepMaster.QueueSteps

/-!
# What comes out of a queue

The history of a run is what its calls report: items copied in, copied out, looked at, and calls
that failed.  `QueueEvent.replay` says what such a history makes of a list of at most `uxLength`
items; every step does to the items in the storage what its report says (`next_effect`), and writes
nothing if the items have no bytes (`next_memory`).
-/

namespace FepMaster

open Transition

namespace QueueEvent

variable {Task : Type}

/-- The task whose call failed. -/
def failedTask : QueueEvent Task → Option Task
  | .failed task => task
  | _ => none

/-- What an event makes of the items of a queue for `n`: an item is copied in if there is room, or
to overwrite the only one, and the one that is copied out is the first. -/
def apply (n : Nat) (items : List (List UInt8)) :
    QueueEvent Task → Option (List (List UInt8))
  | .sent _ item xCopyPosition =>
      if items.length < n ∨ xCopyPosition = .queueOverwrite then
        some (xCopyPosition.place item items)
      else none
  | .received _ item => if items.head? = some item then some items.tail else none
  | .peeked _ item => if items.head? = some item then some items else none
  | .failed _ => some items

/-- What a history makes of an empty queue. -/
def replay (n : Nat) (log : List (QueueEvent Task)) : Option (List (List UInt8)) :=
  log.foldlM (apply n) []

theorem replay_append {n : Nat} {log : List (QueueEvent Task)} {items : List (List UInt8)}
    (before : replay n log = some items) (event : Option (QueueEvent Task)) :
    replay n (log ++ event.toList) = event.elim (some items) (apply n items) := by
  unfold replay at before ⊢
  rw [List.foldlM_append, before]
  cases event with
  | none => rfl
  | some event =>
      change (apply n items event).bind some = apply n items event
      exact Option.bind_fun_some _

end QueueEvent

/-- The reports of a run. -/
def queueLog {Task : Type} [DecidableEq Task] (uxPriority : Task → Fin configMaxPriorities) :
    Monitor (QueueState Task) (QueueAct Task) (List (QueueEvent Task)) where
  init _ := []
  next log s a _ := log ++ ((s.next uxPriority a).bind (·.2)).toList

namespace QueueDefinition

variable {Task : Type} (q : QueueDefinition Task)

/-- What `xQueueGenericCreate` sets once. -/
def sizes : Nat × Nat × Nat × Nat := (q.pcHead, q.pcTail, q.uxLength, q.uxItemSize)

theorem storage_wakeReceiver : q.wakeReceiver.storage = q.storage := by
  rw [wakeReceiver_eq]
  rfl

theorem storage_wakeSender : q.wakeSender.storage = q.storage := by
  rw [wakeSender_eq]
  rfl

theorem sizes_wakeReceiver : q.wakeReceiver.sizes = q.sizes := by
  rw [wakeReceiver_eq]
  rfl

theorem sizes_wakeSender : q.wakeSender.sizes = q.sizes := by
  rw [wakeSender_eq]
  rfl

theorem sizes_prvCopyDataToQueue (m : Nat → UInt8) (item : List UInt8) (xPosition : CopyPosition) :
    (q.prvCopyDataToQueue m item xPosition).1.sizes = q.sizes := by
  obtain ⟨pcWriteTo, pcReadFrom, copied⟩ := prvCopyDataToQueue_frame q m item xPosition
  rw [copied]
  rfl

theorem sizes_prvCopyDataFromQueue (m : Nat → UInt8) :
    (q.prvCopyDataFromQueue m).1.sizes = q.sizes := by
  obtain ⟨pcReadFrom, item, copied⟩ := prvCopyDataFromQueue_frame q m
  rw [copied]
  rfl

end QueueDefinition

namespace QueueState

open QueueDefinition

variable {Task : Type}

/-- A step that leaves the bytes outside the storage alone, and makes of the items what it
reports. -/
structure Effect (s : QueueState Task) (items : List (List UInt8)) (s' : QueueState Task)
    (event : Option (QueueEvent Task)) : Prop where
  outside : ∀ a, a < s.queue.pcHead ∨ s.queue.pcTail ≤ a → s'.memory a = s.memory a
  records : ∃ items', event.elim (some items) (QueueEvent.apply s.queue.uxLength items) =
    some items' ∧ s'.queue.storage.Holds s'.memory items'

/-- An item may be copied in: it has the size of the items, and only the item of a queue for one
item that has bytes is overwritten. -/
def Fits (s : QueueState Task) : QueueCall → Prop
  | .send item xCopyPosition => s.admits item xCopyPosition ∧
      (xCopyPosition = .queueOverwrite → s.queue.uxItemSize ≠ 0)
  | .receive _ => True

variable {s s' : QueueState Task} {items : List (List UInt8)}
  {event : Option (QueueEvent Task)}

/-- A step that has nothing to do with the items. -/
theorem Effect.none (holds : s.queue.storage.Holds s.memory items)
    (storage : s'.queue.storage = s.queue.storage) (memory : s'.memory = s.memory)
    (nothing : event.elim (some items) (QueueEvent.apply s.queue.uxLength items) = some items) :
    Effect s items s' event where
  outside _ _ := congrFun memory _
  records := by
    refine ⟨items, nothing, ?_⟩
    rw [storage, memory]
    exact holds

/-- An item is copied in. -/
theorem Effect.sent (holds : s.queue.storage.Holds s.memory items) {item : List UInt8}
    {xCopyPosition : CopyPosition} (fits : s.Fits (.send item xCopyPosition))
    (room : s.queue.uxMessagesWaiting < s.queue.uxLength ∨ xCopyPosition = .queueOverwrite)
    (storage : s'.queue.storage =
      (s.queue.prvCopyDataToQueue s.memory item xCopyPosition).1.storage)
    (memory : s'.memory = (s.queue.prvCopyDataToQueue s.memory item xCopyPosition).2)
    (task : Option Task) : Effect s items s' (some (.sent task item xCopyPosition)) where
  outside a apart := by
    rw [memory]
    exact prvCopyDataToQueue_outside holds fits.1.1 xCopyPosition apart
  records := by
    have count : s.queue.uxMessagesWaiting = items.length := holds.count
    rw [count] at room
    refine ⟨xCopyPosition.place item items, if_pos room, ?_⟩
    rw [storage, memory]
    exact holds_prvCopyDataToQueue holds room fits.1.1 fun overwrites =>
      ⟨fits.1.2 overwrites, fits.2 overwrites⟩

/-- The first item is copied out, and taken. -/
theorem Effect.received (holds : s.queue.storage.Holds s.memory items)
    (some_item : s.queue.uxMessagesWaiting > 0)
    (storage : s'.queue.storage = { (s.queue.prvCopyDataFromQueue s.memory).1.storage with
      uxMessagesWaiting := s.queue.uxMessagesWaiting - 1 })
    (memory : s'.memory = s.memory) (task : Option Task) :
    Effect s items s' (some (.received task (s.queue.prvCopyDataFromQueue s.memory).2)) where
  outside _ _ := congrFun memory _
  records := by
    have count : s.queue.uxMessagesWaiting = items.length := holds.count
    cases items with
    | nil =>
        rw [count] at some_item
        exact absurd some_item (Nat.lt_irrefl 0)
    | cons item rest =>
        obtain ⟨front, others⟩ := holds_prvCopyDataFromQueue holds
        refine ⟨rest, if_pos (congrArg some front.symm), ?_⟩
        rw [storage, memory]
        exact others

/-- The first item is looked at. -/
theorem Effect.peeked (holds : s.queue.storage.Holds s.memory items)
    (some_item : s.queue.uxMessagesWaiting > 0) (storage : s'.queue.storage = s.queue.storage)
    (memory : s'.memory = s.memory) (task : Option Task) :
    Effect s items s' (some (.peeked task (s.queue.prvCopyDataFromQueue s.memory).2)) := by
  apply Effect.none holds storage memory
  have count : s.queue.uxMessagesWaiting = items.length := holds.count
  cases items with
  | nil =>
      rw [count] at some_item
      exact absurd some_item (Nat.lt_irrefl 0)
  | cons item rest => exact if_pos (congrArg some (holds_prvCopyDataFromQueue holds).1.symm)

/-! ## The steps -/

theorem sendFromISR_effect (holds : s.queue.storage.Holds s.memory items) {item : List UInt8}
    {xCopyPosition : CopyPosition} (fits : s.Fits (.send item xCopyPosition))
    (taken : s.xQueueGenericSendFromISR item xCopyPosition = some (s', event)) :
    Effect s items s' event := by
  unfold xQueueGenericSendFromISR at taken
  by_cases room : s.queue.uxMessagesWaiting < s.queue.uxLength ∨ xCopyPosition = .queueOverwrite
  · rw [if_pos room] at taken
    simp only at taken
    split at taken
    · cases taken
      apply Effect.sent holds fits room
      · exact storage_wakeReceiver _
      · rfl
    · split at taken
      · cases taken
        apply Effect.sent holds fits room
        · rfl
        · rfl
      · cases taken
  · rw [if_neg room] at taken
    cases taken
    exact .none holds rfl rfl rfl

theorem receiveFromISR_effect (holds : s.queue.storage.Holds s.memory items)
    (taken : s.xQueueReceiveFromISR = some (s', event)) : Effect s items s' event := by
  unfold xQueueReceiveFromISR at taken
  by_cases some_item : s.queue.uxMessagesWaiting > 0
  · have count : (s.queue.prvCopyDataFromQueue s.memory).1.uxMessagesWaiting =
        s.queue.uxMessagesWaiting := by
      obtain ⟨pcReadFrom, item, copied⟩ := prvCopyDataFromQueue_frame s.queue s.memory
      rw [copied]
    rw [if_pos some_item] at taken
    simp only [count] at taken
    split at taken
    · cases taken
      apply Effect.received holds some_item
      · exact storage_wakeSender _
      · rfl
    · split at taken
      · cases taken
        apply Effect.received holds some_item
        · rfl
        · rfl
      · cases taken
  · rw [if_neg some_item] at taken
    cases taken
    exact .none holds rfl rfl rfl

theorem peekFromISR_effect (holds : s.queue.storage.Holds s.memory items) :
    Effect s items s.xQueuePeekFromISR.1 s.xQueuePeekFromISR.2 := by
  unfold xQueuePeekFromISR
  by_cases some_item : s.queue.uxMessagesWaiting > 0
  · rw [if_pos some_item]
    apply Effect.peeked holds some_item
    · obtain ⟨pcReadFrom, item, copied⟩ := prvCopyDataFromQueue_frame s.queue s.memory
      rw [copied]
      rfl
    · rfl
  · rw [if_neg some_item]
    exact .none holds rfl rfl rfl

/-- What an interrupt leaves alone: the sizes, the calls and the ticks; and no call fails. -/
structure Leaves (s s' : QueueState Task) (event : Option (QueueEvent Task)) : Prop where
  sizes : s'.queue.sizes = s.queue.sizes
  frame : s'.frame = s.frame
  ticks : s'.ticks = s.ticks
  quiet : event.bind QueueEvent.failedTask = none

theorem sendFromISR_leaves {item : List UInt8} {xCopyPosition : CopyPosition}
    (taken : s.xQueueGenericSendFromISR item xCopyPosition = some (s', event)) :
    Leaves s s' event := by
  have kept := sizes_prvCopyDataToQueue s.queue s.memory item xCopyPosition
  unfold xQueueGenericSendFromISR at taken
  split at taken
  · simp only at taken
    split at taken
    · cases taken
      exact ⟨(sizes_wakeReceiver _).trans kept, rfl, rfl, rfl⟩
    · split at taken
      · cases taken
        exact ⟨kept, rfl, rfl, rfl⟩
      · cases taken
  · cases taken
    exact ⟨rfl, rfl, rfl, rfl⟩

theorem receiveFromISR_leaves (taken : s.xQueueReceiveFromISR = some (s', event)) :
    Leaves s s' event := by
  have kept := sizes_prvCopyDataFromQueue s.queue s.memory
  unfold xQueueReceiveFromISR at taken
  split at taken
  · simp only at taken
    split at taken
    · cases taken
      exact ⟨(sizes_wakeSender _).trans kept, rfl, rfl, rfl⟩
    · split at taken
      · cases taken
        exact ⟨kept, rfl, rfl, rfl⟩
      · cases taken
  · cases taken
    exact ⟨rfl, rfl, rfl, rfl⟩

theorem peekFromISR_leaves (taken : some s.xQueuePeekFromISR = some (s', event)) :
    Leaves s s' event := by
  have final : s.xQueuePeekFromISR = (s', event) := Option.some.inj taken
  have kept := sizes_prvCopyDataFromQueue s.queue s.memory
  unfold xQueuePeekFromISR at final
  split at final
  · cases final
    exact ⟨kept, rfl, rfl, rfl⟩
  · cases final
    exact ⟨rfl, rfl, rfl, rfl⟩

/-! Items without bytes are not written. -/

theorem prvCopyDataToQueue_memory (empty : s.queue.uxItemSize = 0) (item : List UInt8)
    (xCopyPosition : CopyPosition) :
    (s.queue.prvCopyDataToQueue s.memory item xCopyPosition).2 = s.memory := by
  unfold prvCopyDataToQueue
  rw [if_pos empty]

theorem sendFromISR_memory (empty : s.queue.uxItemSize = 0) {item : List UInt8}
    {xCopyPosition : CopyPosition}
    (taken : s.xQueueGenericSendFromISR item xCopyPosition = some (s', event)) :
    s'.memory = s.memory := by
  have copied := prvCopyDataToQueue_memory empty item xCopyPosition
  unfold xQueueGenericSendFromISR at taken
  split at taken
  · simp only at taken
    split at taken
    · cases taken
      exact copied
    · split at taken
      · cases taken
        exact copied
      · cases taken
  · cases taken
    rfl

theorem receiveFromISR_memory (taken : s.xQueueReceiveFromISR = some (s', event)) :
    s'.memory = s.memory := by
  unfold xQueueReceiveFromISR at taken
  split at taken
  · simp only at taken
    split at taken
    · cases taken
      rfl
    · split at taken
      · cases taken
        rfl
      · cases taken
  · cases taken
    rfl

variable [DecidableEq Task] {uxPriority : Task → Fin configMaxPriorities} {t : Task}
  {a : QueueAct Task}

theorem orWait_effect (holds : s.queue.storage.Holds s.memory items) :
    Effect s items (s.orWait t).1 (s.orWait t).2 := by
  unfold orWait
  split
  · exact .none holds rfl rfl rfl
  · exact .none holds rfl rfl rfl

theorem lookToSend_effect (holds : s.queue.storage.Holds s.memory items) {item : List UInt8}
    {xCopyPosition : CopyPosition} (fits : s.Fits (.send item xCopyPosition)) :
    Effect s items (s.lookToSend t item xCopyPosition).1 (s.lookToSend t item xCopyPosition).2 := by
  unfold lookToSend
  by_cases room : s.queue.uxMessagesWaiting < s.queue.uxLength ∨ xCopyPosition = .queueOverwrite
  · rw [if_pos room]
    exact .sent holds fits room (storage_wakeReceiver _) rfl (some t)
  · rw [if_neg room]
    exact orWait_effect holds

theorem lookToReceive_peek (some_item : s.queue.uxMessagesWaiting > 0) :
    s.lookToReceive t true = ((s.withQueue s.queue.wakeReceiver).goto t .outside,
      some (.peeked (some t) (s.queue.prvCopyDataFromQueue s.memory).2)) := by
  obtain ⟨pcReadFrom, item, copied⟩ := prvCopyDataFromQueue_frame s.queue s.memory
  unfold lookToReceive
  rw [if_pos some_item, copied]
  rfl

theorem lookToReceive_take (some_item : s.queue.uxMessagesWaiting > 0) :
    s.lookToReceive t false =
      ((s.withQueue { (s.queue.prvCopyDataFromQueue s.memory).1 with
        uxMessagesWaiting := s.queue.uxMessagesWaiting - 1 : QueueDefinition Task }.wakeSender).goto
        t .outside, some (.received (some t) (s.queue.prvCopyDataFromQueue s.memory).2)) := by
  obtain ⟨pcReadFrom, item, copied⟩ := prvCopyDataFromQueue_frame s.queue s.memory
  unfold lookToReceive
  rw [if_pos some_item, copied]
  rfl

theorem lookToReceive_effect (holds : s.queue.storage.Holds s.memory items) (xJustPeeking : Bool) :
    Effect s items (s.lookToReceive t xJustPeeking).1 (s.lookToReceive t xJustPeeking).2 := by
  by_cases some_item : s.queue.uxMessagesWaiting > 0
  · cases xJustPeeking with
    | true =>
        rw [lookToReceive_peek some_item]
        apply Effect.peeked holds some_item
        · exact storage_wakeReceiver _
        · rfl
    | false =>
        rw [lookToReceive_take some_item]
        apply Effect.received holds some_item
        · exact storage_wakeSender _
        · rfl
  · unfold lookToReceive
    rw [if_neg some_item]
    exact orWait_effect holds

theorem resume_effect (holds : s.queue.storage.Holds s.memory items) (again : Bool) :
    Effect s items (s.resume t again).1 (s.resume t again).2 := by
  unfold resume
  cases again with
  | true => exact .none holds rfl rfl rfl
  | false => exact .none holds rfl rfl rfl

theorem taskStep_effect (holds : s.queue.storage.Holds s.memory items)
    (fits : (s.frame t).pc ≠ .outside → s.Fits (s.frame t).call)
    (taken : s.taskStep uxPriority t = some (s', event)) : Effect s items s' event := by
  cases taskStep_cases taken with
  | send item xCopyPosition before call =>
      rw [before, call] at fits
      exact lookToSend_effect holds (fits (by decide))
  | receive xJustPeeking => exact lookToReceive_effect holds xJustPeeking
  | placeOnEventList =>
      refine .none holds ?_ rfl rfl
      change (s.vTaskPlaceOnEventList uxPriority t (s.frame t).call).storage = s.queue.storage
      cases (s.frame t).call with
      | send item xCopyPosition => rfl
      | receive xJustPeeking => rfl
  | xTaskResumeAll again => exact resume_effect holds again
  | vTaskSuspendAll | prvLockQueue | checkForTimeOut | mustWait | tryAgain | unlockTx | unlockRx =>
      exact .none holds rfl rfl rfl

/-- Every step but a write of somebody else has an effect of this kind. -/
theorem next_effect (holds : s.queue.storage.Holds s.memory items)
    (fits : ∀ t, (s.frame t).pc ≠ .outside → s.Fits (s.frame t).call)
    (data : ∀ item, a = .sendFromISR item .queueOverwrite → s.queue.uxItemSize ≠ 0)
    (own : ∀ address value, a ≠ .store address value)
    (taken : s.next uxPriority a = some (s', event)) : Effect s items s' event := by
  cases a with
  | call t call xTicksToWait =>
      simp only [next] at taken
      split at taken
      · cases taken
        exact .none holds rfl rfl rfl
      · cases taken
  | step t =>
      simp only [next] at taken
      split at taken
      · exact taskStep_effect holds (fits t) taken
      · cases taken
  | unblock t =>
      simp only [next] at taken
      split at taken
      · cases taken
        exact .none holds rfl rfl rfl
      · cases taken
  | tick =>
      cases taken
      unfold tickInterrupt
      split
      · exact .none holds rfl rfl rfl
      · exact .none holds rfl rfl rfl
  | sendFromISR item xCopyPosition =>
      simp only [next] at taken
      split at taken
      · next admitted =>
          refine sendFromISR_effect holds ⟨admitted, fun overwrites => ?_⟩ taken
          exact data item (by rw [overwrites])
      · cases taken
  | receiveFromISR => exact receiveFromISR_effect holds taken
  | peekFromISR =>
      have final : s.xQueuePeekFromISR = (s', event) := Option.some.inj taken
      have effect := peekFromISR_effect holds
      rw [final] at effect
      exact effect
  | store address value => exact absurd rfl (own address value)

/-! ## Items without bytes -/

theorem orWait_memory : (s.orWait t).1.memory = s.memory := by
  unfold orWait
  split
  · rfl
  · rfl

theorem lookToSend_memory (empty : s.queue.uxItemSize = 0) (item : List UInt8)
    (xCopyPosition : CopyPosition) :
    (s.lookToSend t item xCopyPosition).1.memory = s.memory := by
  unfold lookToSend
  split
  · exact prvCopyDataToQueue_memory empty item xCopyPosition
  · exact orWait_memory

theorem lookToReceive_memory (xJustPeeking : Bool) :
    (s.lookToReceive t xJustPeeking).1.memory = s.memory := by
  by_cases some_item : s.queue.uxMessagesWaiting > 0
  · cases xJustPeeking with
    | true => rw [lookToReceive_peek some_item]; rfl
    | false => rw [lookToReceive_take some_item]; rfl
  · unfold lookToReceive
    rw [if_neg some_item]
    exact orWait_memory

theorem taskStep_memory (empty : s.queue.uxItemSize = 0)
    (taken : s.taskStep uxPriority t = some (s', event)) : s'.memory = s.memory := by
  cases taskStep_cases taken with
  | send item xCopyPosition => exact lookToSend_memory empty item xCopyPosition
  | receive xJustPeeking => exact lookToReceive_memory xJustPeeking
  | xTaskResumeAll again =>
      cases again with
      | true => rfl
      | false => rfl
  | vTaskSuspendAll | prvLockQueue | checkForTimeOut | mustWait | tryAgain | placeOnEventList
  | unlockTx | unlockRx => rfl

/-- A queue whose items have no bytes writes none. -/
theorem next_memory (empty : s.queue.uxItemSize = 0)
    (own : ∀ address value, a ≠ .store address value)
    (taken : s.next uxPriority a = some (s', event)) : s'.memory = s.memory := by
  cases a with
  | call t call xTicksToWait =>
      simp only [next] at taken
      split at taken
      · cases taken
        rfl
      · cases taken
  | step t =>
      simp only [next] at taken
      split at taken
      · exact taskStep_memory empty taken
      · cases taken
  | unblock t =>
      simp only [next] at taken
      split at taken
      · cases taken
        rfl
      · cases taken
  | tick =>
      cases taken
      unfold tickInterrupt
      split
      · rfl
      · rfl
  | sendFromISR item xCopyPosition =>
      simp only [next] at taken
      split at taken
      · exact sendFromISR_memory empty taken
      · cases taken
  | receiveFromISR => exact receiveFromISR_memory taken
  | peekFromISR =>
      have final : s.xQueuePeekFromISR = (s', event) := Option.some.inj taken
      unfold xQueuePeekFromISR at final
      split at final
      · cases final
        rfl
      · cases final
        rfl
  | store address value => exact absurd rfl (own address value)

/-! ## The sizes -/

theorem orWait_sizes : (s.orWait t).1.queue.sizes = s.queue.sizes := by
  unfold orWait
  split
  · rfl
  · rfl

theorem lookToSend_sizes (item : List UInt8) (xCopyPosition : CopyPosition) :
    (s.lookToSend t item xCopyPosition).1.queue.sizes = s.queue.sizes := by
  unfold lookToSend
  split
  · exact (sizes_wakeReceiver _).trans (sizes_prvCopyDataToQueue ..)
  · exact orWait_sizes

theorem lookToReceive_sizes (xJustPeeking : Bool) :
    (s.lookToReceive t xJustPeeking).1.queue.sizes = s.queue.sizes := by
  by_cases some_item : s.queue.uxMessagesWaiting > 0
  · cases xJustPeeking with
    | true =>
        rw [lookToReceive_peek some_item]
        exact sizes_wakeReceiver _
    | false =>
        rw [lookToReceive_take some_item]
        exact (sizes_wakeSender _).trans (sizes_prvCopyDataFromQueue ..)
  · unfold lookToReceive
    rw [if_neg some_item]
    exact orWait_sizes

theorem resume_sizes (again : Bool) : (s.resume t again).1.queue.sizes = s.queue.sizes := by
  unfold resume
  cases again with
  | true => rfl
  | false => rfl

theorem taskStep_sizes (taken : s.taskStep uxPriority t = some (s', event)) :
    s'.queue.sizes = s.queue.sizes := by
  cases taskStep_cases taken with
  | send item xCopyPosition => exact lookToSend_sizes item xCopyPosition
  | receive xJustPeeking => exact lookToReceive_sizes xJustPeeking
  | placeOnEventList =>
      change (s.vTaskPlaceOnEventList uxPriority t (s.frame t).call).sizes = s.queue.sizes
      cases (s.frame t).call with
      | send item xCopyPosition => rfl
      | receive xJustPeeking => rfl
  | xTaskResumeAll again => exact resume_sizes again
  | vTaskSuspendAll | prvLockQueue | checkForTimeOut | mustWait | tryAgain | unlockTx | unlockRx =>
      rfl

/-- No step changes what `xQueueGenericCreate` set once. -/
theorem next_sizes (taken : s.next uxPriority a = some (s', event)) :
    s'.queue.sizes = s.queue.sizes := by
  cases a with
  | call t call xTicksToWait =>
      simp only [next] at taken
      split at taken
      · cases taken
        rfl
      · cases taken
  | step t =>
      simp only [next] at taken
      split at taken
      · exact taskStep_sizes taken
      · cases taken
  | unblock t =>
      simp only [next] at taken
      split at taken
      · cases taken
        rfl
      · cases taken
  | tick =>
      cases taken
      unfold tickInterrupt
      split
      · rfl
      · rfl
  | sendFromISR item xCopyPosition =>
      simp only [next] at taken
      split at taken
      · exact (sendFromISR_leaves taken).sizes
      · cases taken
  | receiveFromISR => exact (receiveFromISR_leaves taken).sizes
  | peekFromISR => exact (peekFromISR_leaves taken).sizes
  | store address value =>
      simp only [next] at taken
      split at taken
      · cases taken
        rfl
      · cases taken

end QueueState

end FepMaster

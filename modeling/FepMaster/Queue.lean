import FepMaster.Heap
import FepMaster.Lib.Memory
import FepMaster.Lib.Transition
import Mathlib.Data.Fintype.Basic

/-!
# The queue

`FreeRTOS/queue.c`: a queue of `uxLength` items of `uxItemSize` bytes, copied in and out.  A task
that finds it full, or empty, suspends the scheduler, locks the queue, looks once more, and puts
itself on one of the two event lists; an interrupt that finds the queue locked leaves the event
lists alone and counts in `xTxLock` or `xRxLock` what it did, and the unlocking task wakes the
others.  Semaphores are queues whose items have no bytes.

The steps are those between which another task or an interrupt can come: a critical section is one
step.  A task that is in no event list can run, unless another one has suspended the scheduler; that
it is then on `xPendingReadyList` first makes no difference here.  The order in which ready tasks
run is left open.  The queue is not a mutex and in no queue set, tasks keep their priority, and
`xQueueReset` is not called.
-/

namespace FepMaster

open Transition

/-! ## `TimeOut_t` -/

/-- `portMAX_DELAY`. -/
def portMaxDelay : Nat := 0xffffffff

/-- `xTickCount` and `xNumOfOverflows`. -/
structure TickCount where
  xTickCount : Nat
  xNumOfOverflows : Nat
  deriving DecidableEq, Repr

/-- The counters after one more tick in `xTaskIncrementTick`. -/
def TickCount.xTaskIncrementTick (c : TickCount) : TickCount :=
  let xConstTickCount := wrap (c.xTickCount + 1)
  if xConstTickCount = 0 then ⟨xConstTickCount, wrap (c.xNumOfOverflows + 1)⟩
  else { c with xTickCount := xConstTickCount }

/-- `TimeOut_t`. -/
structure TimeOut where
  xOverflowCount : Nat
  xTimeOnEntering : Nat
  deriving DecidableEq, Repr

/-- `vTaskSetTimeOutState`. -/
def vTaskSetTimeOutState (c : TickCount) : TimeOut := ⟨c.xNumOfOverflows, c.xTickCount⟩

/-- `xTaskCheckForTimeOut`, with what it leaves in `*pxTimeOut` and `*pxTicksToWait`. -/
def xTaskCheckForTimeOut (c : TickCount) (pxTimeOut : TimeOut) (pxTicksToWait : Nat) :
    Bool × TimeOut × Nat :=
  if pxTicksToWait = portMaxDelay then (false, pxTimeOut, pxTicksToWait)
  else if c.xNumOfOverflows ≠ pxTimeOut.xOverflowCount ∧
      c.xTickCount ≥ pxTimeOut.xTimeOnEntering then (true, pxTimeOut, pxTicksToWait)
  else if wrapSub c.xTickCount pxTimeOut.xTimeOnEntering < pxTicksToWait then
    (false, vTaskSetTimeOutState c,
      wrapSub pxTicksToWait (wrapSub c.xTickCount pxTimeOut.xTimeOnEntering))
  else (true, pxTimeOut, pxTicksToWait)

/-! ## `Queue_t` -/

/-- `configMAX_PRIORITIES`. -/
abbrev configMaxPriorities : Nat := 8

/-- `xCopyPosition`. -/
inductive CopyPosition
  | queueSendToBack
  | queueSendToFront
  | queueOverwrite
  deriving DecidableEq, Repr

/-- `queueUNLOCKED`. -/
def queueUnlocked : Int := -1

/-- `queueLOCKED_UNMODIFIED`. -/
def queueLockedUnmodified : Int := 0

/-- The largest `BaseType_t`. -/
def baseTypeMax : Int := 2 ^ 31 - 1

/-- `Queue_t`; the event lists hold the tasks whose event list items they link. -/
structure QueueDefinition (Task : Type) where
  pcHead : Nat
  pcTail : Nat
  pcWriteTo : Nat
  pcReadFrom : Nat
  xTasksWaitingToSend : List Task
  xTasksWaitingToReceive : List Task
  uxMessagesWaiting : Nat
  uxLength : Nat
  uxItemSize : Nat
  xRxLock : Int
  xTxLock : Int

/-- `vListInsert` into an event list. -/
def vListInsert {Task : Type} (xItemValue : Task → Nat) (pxNewListItem : Task) :
    List Task → List Task
  | [] => [pxNewListItem]
  | pxNext :: rest =>
      if xItemValue pxNext ≤ xItemValue pxNewListItem then
        pxNext :: vListInsert xItemValue pxNewListItem rest
      else pxNewListItem :: pxNext :: rest

/-- `xTaskRemoveFromEventList`: the first task leaves the list. -/
def xTaskRemoveFromEventList {Task : Type} (pxEventList : List Task) : List Task :=
  pxEventList.tail

namespace QueueDefinition

variable {Task : Type} (q : QueueDefinition Task)

/-- `xQueueGenericReset` of a new queue, whose storage and sizes are set. -/
def xQueueGenericReset : QueueDefinition Task :=
  { q with
    pcTail := q.pcHead + q.uxLength * q.uxItemSize
    uxMessagesWaiting := 0
    pcWriteTo := q.pcHead
    pcReadFrom := q.pcHead + (q.uxLength - 1) * q.uxItemSize
    xRxLock := queueUnlocked
    xTxLock := queueUnlocked
    xTasksWaitingToSend := []
    xTasksWaitingToReceive := [] }

/-- The item goes where `pcWriteTo` points. -/
def copyToBack (m : Nat → UInt8) (item : List UInt8) : QueueDefinition Task × (Nat → UInt8) :=
  let m := Memory.write m q.pcWriteTo item
  let pcWriteTo := q.pcWriteTo + q.uxItemSize
  if pcWriteTo ≥ q.pcTail then ({ q with pcWriteTo := q.pcHead }, m)
  else ({ q with pcWriteTo }, m)

/-- The item goes where `u.pcReadFrom` points. -/
def copyToFront (m : Nat → UInt8) (item : List UInt8) : QueueDefinition Task × (Nat → UInt8) :=
  let m := Memory.write m q.pcReadFrom item
  let pcReadFrom := wrapSub q.pcReadFrom q.uxItemSize
  if pcReadFrom < q.pcHead then ({ q with pcReadFrom := q.pcTail - q.uxItemSize }, m)
  else ({ q with pcReadFrom }, m)

/-- An item that is overwritten is counted no more. -/
def discount (xPosition : CopyPosition) : QueueDefinition Task :=
  if xPosition = .queueOverwrite then
    if q.uxMessagesWaiting > 0 then { q with uxMessagesWaiting := q.uxMessagesWaiting - 1 } else q
  else q

/-- `prvCopyDataToQueue`. -/
def prvCopyDataToQueue (m : Nat → UInt8) (item : List UInt8) (xPosition : CopyPosition) :
    QueueDefinition Task × (Nat → UInt8) :=
  let (q, m) :=
    if q.uxItemSize = 0 then (q, m)
    else if xPosition = .queueSendToBack then q.copyToBack m item
    else
      let (q, m) := q.copyToFront m item
      (q.discount xPosition, m)
  ({ q with uxMessagesWaiting := q.uxMessagesWaiting + 1 }, m)

/-- `prvCopyDataFromQueue`, with the bytes it copies to `pvBuffer`. -/
def prvCopyDataFromQueue (m : Nat → UInt8) : QueueDefinition Task × List UInt8 :=
  if q.uxItemSize ≠ 0 then
    let pcReadFrom := q.pcReadFrom + q.uxItemSize
    let pcReadFrom := if pcReadFrom ≥ q.pcTail then q.pcHead else pcReadFrom
    ({ q with pcReadFrom }, Memory.read m pcReadFrom q.uxItemSize)
  else (q, [])

/-- `prvLockQueue`. -/
def prvLockQueue : QueueDefinition Task :=
  { q with
    xRxLock := if q.xRxLock = queueUnlocked then queueLockedUnmodified else q.xRxLock
    xTxLock := if q.xTxLock = queueUnlocked then queueLockedUnmodified else q.xTxLock }

/-- Wake a task that waits for data, if there is one. -/
def wakeReceiver : QueueDefinition Task :=
  if q.xTasksWaitingToReceive.isEmpty then q
  else { q with xTasksWaitingToReceive := xTaskRemoveFromEventList q.xTasksWaitingToReceive }

/-- Wake a task that waits for space, if there is one. -/
def wakeSender : QueueDefinition Task :=
  if q.xTasksWaitingToSend.isEmpty then q
  else { q with xTasksWaitingToSend := xTaskRemoveFromEventList q.xTasksWaitingToSend }

/-- The loops of `prvUnlockQueue`: one task is woken for each count of the lock. -/
def wakeCounted : Nat → List Task → List Task
  | 0, pxEventList => pxEventList
  | lock + 1, pxEventList =>
      if pxEventList.isEmpty then pxEventList
      else wakeCounted lock (xTaskRemoveFromEventList pxEventList)

/-- The first critical section of `prvUnlockQueue`. -/
def prvUnlockTx : QueueDefinition Task :=
  { q with
    xTasksWaitingToReceive := wakeCounted q.xTxLock.toNat q.xTasksWaitingToReceive
    xTxLock := queueUnlocked }

/-- The second critical section of `prvUnlockQueue`. -/
def prvUnlockRx : QueueDefinition Task :=
  { q with
    xTasksWaitingToSend := wakeCounted q.xRxLock.toNat q.xTasksWaitingToSend
    xRxLock := queueUnlocked }

/-- `prvIsQueueEmpty`. -/
def prvIsQueueEmpty : Bool := q.uxMessagesWaiting == 0

/-- `prvIsQueueFull`. -/
def prvIsQueueFull : Bool := q.uxMessagesWaiting == q.uxLength

end QueueDefinition

/-! ## Tasks and interrupts -/

/-- A call that can wait: `xQueueGenericSend`, or `xQueueGenericReceive`. -/
inductive QueueCall
  | send (pvItemToQueue : List UInt8) (xCopyPosition : CopyPosition)
  | receive (xJustPeeking : Bool)
  deriving DecidableEq, Repr

/-- Where a task is in such a call.  After the queue is unlocked it looks again (`true`) or gives
up (`false`). -/
inductive QueuePc
  | outside
  | look
  | vTaskSuspendAll
  | prvLockQueue
  | checkForTimeOut
  | checkQueue
  | placeOnEventList
  | unlockTx (again : Bool)
  | unlockRx (again : Bool)
  | xTaskResumeAll (again : Bool)
  deriving DecidableEq, Repr

/-- The local variables of a call. -/
structure QueueFrame where
  pc : QueuePc
  call : QueueCall
  xTicksToWait : Nat
  xEntryTimeSet : Bool
  xTimeOut : TimeOut
  deriving Repr

/-- The time-out starts when a call has to wait for the first time. -/
def QueueFrame.setEntryTime (f : QueueFrame) (c : TickCount) : QueueFrame :=
  if f.xEntryTimeSet then f
  else { f with xTimeOut := vTaskSetTimeOutState c, xEntryTimeSet := true }

/-- What a step tells its caller: an item was copied in or out, or the call failed.  The task is
`none` in an interrupt. -/
inductive QueueEvent (Task : Type)
  | sent (task : Option Task) (item : List UInt8) (xCopyPosition : CopyPosition)
  | received (task : Option Task) (item : List UInt8)
  | peeked (task : Option Task) (item : List UInt8)
  | failed (task : Option Task)

/-- The queue, the memory with its storage, the calls, and what the kernel keeps. -/
structure QueueState (Task : Type) where
  queue : QueueDefinition Task
  memory : Nat → UInt8
  frame : Task → QueueFrame
  uxSchedulerSuspended : Option Task
  ticks : TickCount
  uxPendedTicks : Nat

/-- What happens next: a task calls, goes on, or reaches the end of its wait; an interrupt comes; or
somebody else writes to the memory. -/
inductive QueueAct (Task : Type)
  | call (task : Task) (call : QueueCall) (xTicksToWait : Nat)
  | step (task : Task)
  | unblock (task : Task)
  | tick
  | sendFromISR (pvItemToQueue : List UInt8) (xCopyPosition : CopyPosition)
  | receiveFromISR
  | peekFromISR
  | store (address : Nat) (value : UInt8)

/-- The value of the event list item of a task: the highest priority comes first. -/
def xEventListItemValue {Task : Type} (uxPriority : Task → Fin configMaxPriorities) (t : Task) :
    Nat :=
  configMaxPriorities - uxPriority t

namespace QueueState

variable {Task : Type} [DecidableEq Task] (uxPriority : Task → Fin configMaxPriorities)
  (s : QueueState Task) (t : Task)

/-- The task is in an event list. -/
def blocked : Prop :=
  t ∈ s.queue.xTasksWaitingToSend ∨ t ∈ s.queue.xTasksWaitingToReceive

instance : Decidable (s.blocked t) := inferInstanceAs (Decidable (_ ∨ _))

/-- The task can run: it is ready, or it has suspended the scheduler itself. -/
def canRun : Prop :=
  if s.uxSchedulerSuspended = none then ¬ s.blocked t else s.uxSchedulerSuspended = some t

instance : Decidable (s.canRun t) := inferInstanceAs (Decidable (ite ..))

/-- The task goes on at `pc`. -/
def goto (pc : QueuePc) : QueueState Task :=
  { s with frame := Function.update s.frame t { s.frame t with pc } }

/-- The queue is left locked or unlocked, or with other event lists. -/
def withQueue (q : QueueDefinition Task) : QueueState Task := { s with queue := q }

/-- The caller's item has the size of the items, and only a queue for one item is overwritten
(`configASSERT`). -/
def admits (item : List UInt8) (xCopyPosition : CopyPosition) : Prop :=
  item.length = s.queue.uxItemSize ∧ (xCopyPosition = .queueOverwrite → s.queue.uxLength = 1)

instance (item : List UInt8) (xCopyPosition : CopyPosition) :
    Decidable (s.admits item xCopyPosition) := inferInstanceAs (Decidable (_ ∧ _))

/-- A call that can be made. -/
def callable : QueueCall → Prop
  | .send item xCopyPosition => s.admits item xCopyPosition
  | .receive _ => True

instance : DecidablePred s.callable
  | .send item xCopyPosition => inferInstanceAs (Decidable (s.admits item xCopyPosition))
  | .receive _ => inferInstanceAs (Decidable True)

/-- The queue was full, or empty: leave, or set the time-out and wait. -/
def orWait : QueueState Task × Option (QueueEvent Task) :=
  if (s.frame t).xTicksToWait = 0 then (s.goto t .outside, some (.failed (some t)))
  else
    ({ s with frame := Function.update s.frame t { (s.frame t).setEntryTime s.ticks with
        pc := .vTaskSuspendAll } }, none)

/-- The critical section at the start of the loop of `xQueueGenericSend`. -/
def lookToSend (item : List UInt8) (xCopyPosition : CopyPosition) :
    QueueState Task × Option (QueueEvent Task) :=
  if s.queue.uxMessagesWaiting < s.queue.uxLength ∨ xCopyPosition = .queueOverwrite then
    let (q, memory) := s.queue.prvCopyDataToQueue s.memory item xCopyPosition
    (({ s with queue := q.wakeReceiver, memory }).goto t .outside,
      some (.sent (some t) item xCopyPosition))
  else s.orWait t

/-- The critical section at the start of the loop of `xQueueGenericReceive`. -/
def lookToReceive (xJustPeeking : Bool) : QueueState Task × Option (QueueEvent Task) :=
  if s.queue.uxMessagesWaiting > 0 then
    let pcOriginalReadPosition := s.queue.pcReadFrom
    let (q, item) := s.queue.prvCopyDataFromQueue s.memory
    if xJustPeeking then
      let q := { q with pcReadFrom := pcOriginalReadPosition }
      ((s.withQueue q.wakeReceiver).goto t .outside, some (.peeked (some t) item))
    else
      let q := { q with uxMessagesWaiting := q.uxMessagesWaiting - 1 }
      ((s.withQueue q.wakeSender).goto t .outside, some (.received (some t) item))
  else s.orWait t

/-- The call of `xTaskCheckForTimeOut`. -/
def timeOutResult : Bool × TimeOut × Nat :=
  xTaskCheckForTimeOut s.ticks (s.frame t).xTimeOut (s.frame t).xTicksToWait

/-- With its time over, the call unlocks the queue and gives up. -/
def checkTimeOut : QueueState Task :=
  { s with frame := Function.update s.frame t { s.frame t with
      pc := if (s.timeOutResult t).1 then .unlockTx false else .checkQueue
      xTimeOut := (s.timeOutResult t).2.1
      xTicksToWait := (s.timeOutResult t).2.2 } }

/-- The queue is still full, or empty, for this call. -/
def mustWait : QueueCall → Bool
  | .send _ _ => s.queue.prvIsQueueFull
  | .receive _ => s.queue.prvIsQueueEmpty

/-- `vTaskPlaceOnEventList`. -/
def vTaskPlaceOnEventList : QueueCall → QueueDefinition Task
  | .send _ _ =>
      { s.queue with
        xTasksWaitingToSend :=
          vListInsert (xEventListItemValue uxPriority) t s.queue.xTasksWaitingToSend }
  | .receive _ =>
      { s.queue with
        xTasksWaitingToReceive :=
          vListInsert (xEventListItemValue uxPriority) t s.queue.xTasksWaitingToReceive }

/-- `xTaskResumeAll` and what follows it in the call. -/
def resume (again : Bool) : QueueState Task × Option (QueueEvent Task) :=
  let s := { s with
    uxSchedulerSuspended := none
    ticks := TickCount.xTaskIncrementTick^[s.uxPendedTicks] s.ticks
    uxPendedTicks := 0 }
  if again then (s.goto t .look, none)
  else (s.goto t .outside, some (.failed (some t)))

/-- The next step of a call. -/
def taskStep : Option (QueueState Task × Option (QueueEvent Task)) :=
  match (s.frame t).pc with
  | .outside => none
  | .look =>
      match (s.frame t).call with
      | .send item xCopyPosition => some (s.lookToSend t item xCopyPosition)
      | .receive xJustPeeking => some (s.lookToReceive t xJustPeeking)
  | .vTaskSuspendAll =>
      some ({ s with uxSchedulerSuspended := some t }.goto t .prvLockQueue, none)
  | .prvLockQueue => some ((s.withQueue s.queue.prvLockQueue).goto t .checkForTimeOut, none)
  | .checkForTimeOut => some (s.checkTimeOut t, none)
  | .checkQueue =>
      some (s.goto t (if s.mustWait (s.frame t).call then .placeOnEventList else .unlockTx true),
        none)
  | .placeOnEventList =>
      some ((s.withQueue (s.vTaskPlaceOnEventList uxPriority t (s.frame t).call)).goto t
        (.unlockTx true), none)
  | .unlockTx again => some ((s.withQueue s.queue.prvUnlockTx).goto t (.unlockRx again), none)
  | .unlockRx again =>
      some ((s.withQueue s.queue.prvUnlockRx).goto t (.xTaskResumeAll again), none)
  | .xTaskResumeAll again => some (s.resume t again)

/-- `xQueueGenericSendFromISR`.  A count that does not fit in `BaseType_t` is undefined. -/
def xQueueGenericSendFromISR (item : List UInt8) (xCopyPosition : CopyPosition) :
    Option (QueueState Task × Option (QueueEvent Task)) :=
  if s.queue.uxMessagesWaiting < s.queue.uxLength ∨ xCopyPosition = .queueOverwrite then
    let (q, memory) := s.queue.prvCopyDataToQueue s.memory item xCopyPosition
    let event := some (.sent none item xCopyPosition)
    if q.xTxLock = queueUnlocked then some ({ s with queue := q.wakeReceiver, memory }, event)
    else if q.xTxLock < baseTypeMax then
      some ({ s with queue := { q with xTxLock := q.xTxLock + 1 }, memory }, event)
    else none
  else some (s, some (.failed none))

/-- `xQueueReceiveFromISR`. -/
def xQueueReceiveFromISR : Option (QueueState Task × Option (QueueEvent Task)) :=
  if s.queue.uxMessagesWaiting > 0 then
    let (q, item) := s.queue.prvCopyDataFromQueue s.memory
    let q := { q with uxMessagesWaiting := q.uxMessagesWaiting - 1 }
    let event := some (.received none item)
    if q.xRxLock = queueUnlocked then some (s.withQueue q.wakeSender, event)
    else if q.xRxLock < baseTypeMax then
      some (s.withQueue { q with xRxLock := q.xRxLock + 1 }, event)
    else none
  else some (s, some (.failed none))

/-- `xQueuePeekFromISR`. -/
def xQueuePeekFromISR : QueueState Task × Option (QueueEvent Task) :=
  if s.queue.uxMessagesWaiting > 0 then
    let pcOriginalReadPosition := s.queue.pcReadFrom
    let (q, item) := s.queue.prvCopyDataFromQueue s.memory
    (s.withQueue { q with pcReadFrom := pcOriginalReadPosition }, some (.peeked none item))
  else (s, some (.failed none))

/-- The tick interrupt: the counters, unless the scheduler is suspended. -/
def tickInterrupt : QueueState Task :=
  if s.uxSchedulerSuspended = none then { s with ticks := s.ticks.xTaskIncrementTick }
  else { s with uxPendedTicks := s.uxPendedTicks + 1 }

/-- A tick at which the wait of the task ends takes it out of the event list. -/
def removeBlocked : QueueState Task :=
  s.withQueue { s.queue with
    xTasksWaitingToSend := s.queue.xTasksWaitingToSend.erase t
    xTasksWaitingToReceive := s.queue.xTasksWaitingToReceive.erase t }

/-- One step of a task or an interrupt. -/
def next : QueueAct Task → Option (QueueState Task × Option (QueueEvent Task))
  | .call t call xTicksToWait =>
      if (s.frame t).pc = .outside ∧ s.uxSchedulerSuspended = none ∧ s.callable call ∧
          xTicksToWait < 2 ^ 32 then
        some ({ s with
          frame := Function.update s.frame t ⟨.look, call, xTicksToWait, false, ⟨0, 0⟩⟩ }, none)
      else none
  | .step t => if s.canRun t then s.taskStep uxPriority t else none
  | .unblock t =>
      if s.uxSchedulerSuspended = none ∧ s.blocked t ∧ (s.frame t).xTicksToWait ≠ portMaxDelay then
        some (s.removeBlocked t, none)
      else none
  | .tick => some (s.tickInterrupt, none)
  | .sendFromISR item xCopyPosition =>
      if s.admits item xCopyPosition then s.xQueueGenericSendFromISR item xCopyPosition else none
  | .receiveFromISR => s.xQueueReceiveFromISR
  | .peekFromISR => some s.xQueuePeekFromISR
  | .store address value =>
      if address < s.queue.pcHead ∨ s.queue.pcTail ≤ address then
        some ({ s with memory := Memory.write s.memory address [value] }, none)
      else none

end QueueState

/-- What `xQueueGenericCreate` asks `pvPortMalloc` for and leaves: the storage with one byte more
than the items have, whose size is computed in 32 bits, and a queue that is reset.  The addresses of
the heap are larger than what fits into it, so than an item. -/
structure QueueCreated {Task : Type} (q : QueueDefinition Task) : Prop where
  uxLengthPos : 0 < q.uxLength
  sized : q.uxLength * q.uxItemSize + 1 < 2 ^ 32
  storage : q.pcHead + q.uxLength * q.uxItemSize + 1 ≤ 2 ^ 32
  above : q.uxItemSize ≤ q.pcHead
  reset : q = q.xQueueGenericReset

/-- The runs of a queue that some tasks and interrupts use. -/
def queueLts {Task : Type} [DecidableEq Task] (uxPriority : Task → Fin configMaxPriorities) :
    Lts (QueueState Task) (QueueAct Task) where
  Init s := QueueCreated s.queue ∧ (∀ t, (s.frame t).pc = .outside) ∧
    s.uxSchedulerSuspended = none ∧ s.ticks.xTickCount < 2 ^ 32 ∧
    s.ticks.xNumOfOverflows < 2 ^ 32 ∧ s.uxPendedTicks = 0
  step s a := (s.next uxPriority a).map (·.1)

end FepMaster

import FepMaster.QueueProtocol
import FepMaster.QueueStorage

/-!
# The queue follows the protocol

`QueueState.view` forgets the items and keeps who waits for what.  Every step of the tasks and
interrupts is a move of `QueueProtocol` there (`next_move`), so every run keeps `Orderly`.
-/

namespace FepMaster

open Transition

/-- The side of a call. -/
def QueueCall.side : QueueCall → QueueSide
  | .send _ _ => .sending
  | .receive _ => .receiving

namespace QueueDefinition

variable {Task : Type}

/-- The event lists. -/
def waiting (q : QueueDefinition Task) : QueueSide → List Task
  | .sending => q.xTasksWaitingToSend
  | .receiving => q.xTasksWaitingToReceive

/-- The lock that counts what interrupts gave to a side. -/
def lock (q : QueueDefinition Task) : QueueSide → Int
  | .sending => q.xRxLock
  | .receiving => q.xTxLock

/-- Free places, and items. -/
def available (q : QueueDefinition Task) : QueueSide → Nat
  | .sending => q.uxLength - q.uxMessagesWaiting
  | .receiving => q.uxMessagesWaiting

variable (q : QueueDefinition Task)

theorem wakeReceiver_eq : q.wakeReceiver =
    { q with xTasksWaitingToReceive := q.xTasksWaitingToReceive.tail } := by
  unfold wakeReceiver xTaskRemoveFromEventList
  split
  · next empty =>
      rw [List.isEmpty_iff] at empty
      rw [empty, List.tail_nil, ← empty]
  · rfl

theorem wakeSender_eq : q.wakeSender =
    { q with xTasksWaitingToSend := q.xTasksWaitingToSend.tail } := by
  unfold wakeSender xTaskRemoveFromEventList
  split
  · next empty =>
      rw [List.isEmpty_iff] at empty
      rw [empty, List.tail_nil, ← empty]
  · rfl

theorem wakeCounted_eq (lock : Nat) (l : List Task) : wakeCounted lock l = l.drop lock := by
  induction lock generalizing l with
  | zero => rfl
  | succ lock ih =>
      unfold wakeCounted
      split
      · next empty =>
          rw [List.isEmpty_iff] at empty
          rw [empty, List.drop_nil]
      · rw [ih, xTaskRemoveFromEventList, List.drop_tail]

theorem waiting_wakeReceiver : q.wakeReceiver.waiting =
    Function.update q.waiting .receiving (q.waiting .receiving).tail := by
  rw [wakeReceiver_eq]
  funext side
  cases side with
  | sending => rfl
  | receiving => rfl

theorem waiting_wakeSender : q.wakeSender.waiting =
    Function.update q.waiting .sending (q.waiting .sending).tail := by
  rw [wakeSender_eq]
  funext side
  cases side with
  | sending => rfl
  | receiving => rfl

theorem lock_wakeReceiver : q.wakeReceiver.lock = q.lock := by
  rw [wakeReceiver_eq]
  rfl

theorem lock_wakeSender : q.wakeSender.lock = q.lock := by
  rw [wakeSender_eq]
  rfl

theorem available_wakeReceiver : q.wakeReceiver.available = q.available := by
  rw [wakeReceiver_eq]
  rfl

theorem available_wakeSender : q.wakeSender.available = q.available := by
  rw [wakeSender_eq]
  rfl

theorem lockQueue_view : q.prvLockQueue.lock = fun side =>
    if q.lock side = queueUnlocked then queueLockedUnmodified else q.lock side := by
  funext side
  cases side with
  | sending => rfl
  | receiving => rfl

theorem unlockTx_view : q.prvUnlockTx.waiting =
      Function.update q.waiting .receiving
        ((q.waiting .receiving).drop (q.lock .receiving).toNat) ∧
    q.prvUnlockTx.lock = Function.update q.lock .receiving queueUnlocked := by
  constructor
  · funext side
    cases side with
    | sending => rfl
    | receiving => exact wakeCounted_eq ..
  · funext side
    cases side with
    | sending => rfl
    | receiving => rfl

theorem unlockRx_view : q.prvUnlockRx.waiting =
      Function.update q.waiting .sending ((q.waiting .sending).drop (q.lock .sending).toNat) ∧
    q.prvUnlockRx.lock = Function.update q.lock .sending queueUnlocked := by
  constructor
  · funext side
    cases side with
    | sending => exact wakeCounted_eq ..
    | receiving => rfl
  · funext side
    cases side with
    | sending => rfl
    | receiving => rfl

/-- The places that are free after an item was copied in. -/
theorem available_countAfter (xPosition : CopyPosition)
    (single : xPosition = .queueOverwrite → q.uxLength = 1) :
    q.uxLength - q.countAfter xPosition ≤ q.uxLength - q.uxMessagesWaiting - 1 ∧
    q.uxMessagesWaiting ≤ q.countAfter xPosition ∧
    q.countAfter xPosition ≤ q.uxMessagesWaiting + 1 := by
  unfold countAfter
  split
  · next overwrites =>
      have one := single overwrites.1
      have full := overwrites.2.2
      omega
  · omega

end QueueDefinition

@[simp] theorem QueueFrame.setEntryTime_call (f : QueueFrame) (c : TickCount) :
    (f.setEntryTime c).call = f.call := by
  unfold setEntryTime
  split
  · rfl
  · rfl

/-- A move to a state that is given in another way. -/
theorem QueueProtocol.Move.of_view {Task : Type} [DecidableEq Task] {xItemValue : Task → Nat}
    {v w w' : QueueProtocol Task} (move : Move xItemValue v w) (same : w' = w) :
    Move xItemValue v w' := by
  rw [same]
  exact move

namespace QueueState

open QueueProtocol QueueDefinition

variable {Task : Type}

/-- The queue as a place where tasks wait. -/
def view (s : QueueState Task) : QueueProtocol Task where
  pc t := (s.frame t).pc
  side t := (s.frame t).call.side
  owner := s.uxSchedulerSuspended
  waiting := s.queue.waiting
  lock := s.queue.lock
  available := s.queue.available

theorem runs_of_canRun {s : QueueState Task} {t : Task} (runs : s.canRun t) : s.view.Runs t := by
  unfold canRun at runs
  unfold Runs
  split
  · next nobody =>
      have free : s.uxSchedulerSuspended = none := nobody
      rw [if_pos free] at runs
      intro side
      cases side with
      | sending => exact fun member => runs (.inl member)
      | receiving => exact fun member => runs (.inr member)
  · next somebody =>
      have taken : s.uxSchedulerSuspended ≠ none := somebody
      rw [if_neg taken] at runs
      exact runs

/-- A call that has to wait has nothing to take. -/
theorem available_of_mustWait {s : QueueState Task} {call : QueueCall}
    (wait : s.mustWait call = true) :
    s.queue.available call.side = 0 := by
  cases call with
  | send item xCopyPosition =>
      have full : s.queue.uxMessagesWaiting = s.queue.uxLength := beq_iff_eq.mp wait
      change s.queue.uxLength - s.queue.uxMessagesWaiting = 0
      omega
  | receive xJustPeeking => exact beq_iff_eq.mp wait

theorem placeOnEventList_view (uxPriority : Task → Fin configMaxPriorities) (s : QueueState Task)
    (t : Task) (call : QueueCall) :
    (s.vTaskPlaceOnEventList uxPriority t call).waiting =
      Function.update s.queue.waiting call.side
        (vListInsert (xEventListItemValue uxPriority) t (s.queue.waiting call.side)) ∧
    (s.vTaskPlaceOnEventList uxPriority t call).lock = s.queue.lock ∧
    (s.vTaskPlaceOnEventList uxPriority t call).available = s.queue.available := by
  cases call with
  | send item xCopyPosition =>
      refine ⟨?_, rfl, rfl⟩
      funext side
      cases side with
      | sending => rfl
      | receiving => rfl
  | receive xJustPeeking =>
      refine ⟨?_, rfl, rfl⟩
      funext side
      cases side with
      | sending => rfl
      | receiving => rfl

variable [DecidableEq Task] {uxPriority : Task → Fin configMaxPriorities}
  {s s' : QueueState Task} {t : Task} {a : QueueAct Task} {event : Option (QueueEvent Task)}

theorem view_frame (s : QueueState Task) (t : Task) {f : QueueFrame}
    (same : f.call = (s.frame t).call) :
    { s with frame := Function.update s.frame t f }.view = s.view.goto t f.pc := by
  have pcs : QueueFrame.pc ∘ Function.update s.frame t f = Function.update s.view.pc t f.pc :=
    Function.comp_update ..
  refine QueueProtocol.ext pcs ?_ rfl rfl rfl rfl
  have sides : (fun f : QueueFrame => f.call.side) ∘ Function.update s.frame t f =
      Function.update s.view.side t f.call.side := Function.comp_update ..
  rw [same] at sides
  exact sides.trans (Function.update_eq_self t s.view.side)

theorem view_goto (s : QueueState Task) (t : Task) (pc : QueuePc) :
    (s.goto t pc).view = s.view.goto t pc := view_frame s t rfl

/-- A call that finds nothing leaves, or goes on to wait. -/
theorem orWait_move (looking : (s.frame t).pc = .look) (runs : s.canRun t)
    (nothing : s.queue.available (s.frame t).call.side = 0) :
    Move (xEventListItemValue uxPriority) s.view (s.orWait t).1.view := by
  unfold orWait
  by_cases at_once : (s.frame t).xTicksToWait = 0
  · rw [if_pos at_once, view_goto]
    exact .turnAway t .outside looking (runs_of_canRun runs) nothing (.inl rfl)
  · rw [if_neg at_once]
    exact .of_view
      (.turnAway t .vTaskSuspendAll looking (runs_of_canRun runs) nothing (.inr rfl))
      (view_frame s t (QueueFrame.setEntryTime_call ..))

/-- A call that takes a unit and gives one. -/
theorem serve_move (looking : (s.frame t).pc = .look) (runs : s.canRun t) {side : QueueSide}
    (call : (s.frame t).call.side = side) {q : QueueDefinition Task} (memory : Nat → UInt8)
    (lists : q.waiting =
      Function.update s.queue.waiting side.other (s.queue.waiting side.other).tail)
    (locks : q.lock = s.queue.lock) (less : q.available side ≤ s.queue.available side - 1)
    (more : q.available side.other ≤ s.queue.available side.other + 1) :
    Move (xEventListItemValue uxPriority) s.view
      ({ s with queue := q, memory }.goto t .outside).view := by
  have same : s.view.side t = side := call
  refine .of_view (.serve t q.available looking (runs_of_canRun runs) ?_ ?_) ?_
  · rw [same]
    exact less
  · rw [same]
    exact more
  · rw [view_goto, same]
    exact QueueProtocol.ext rfl rfl rfl lists locks rfl

/-- A call that looks at a unit. -/
theorem relay_move (looking : (s.frame t).pc = .look) (runs : s.canRun t) {side : QueueSide}
    (call : (s.frame t).call.side = side) {q : QueueDefinition Task}
    (lists : q.waiting = Function.update s.queue.waiting side (s.queue.waiting side).tail)
    (locks : q.lock = s.queue.lock) (units : q.available = s.queue.available) :
    Move (xEventListItemValue uxPriority) s.view ((s.withQueue q).goto t .outside).view := by
  have same : s.view.side t = side := call
  refine .of_view (.relay t looking (runs_of_canRun runs)) ?_
  rw [view_goto, same]
  exact QueueProtocol.ext rfl rfl rfl lists locks units

theorem lookToSend_move (looking : (s.frame t).pc = .look) (runs : s.canRun t)
    {item : List UInt8} {xCopyPosition : CopyPosition}
    (call : (s.frame t).call = .send item xCopyPosition)
    (admitted : s.admits item xCopyPosition) :
    Move (xEventListItemValue uxPriority) s.view (s.lookToSend t item xCopyPosition).1.view := by
  have side : (s.frame t).call.side = .sending := by
    rw [call]
    rfl
  unfold lookToSend
  by_cases room : s.queue.uxMessagesWaiting < s.queue.uxLength ∨ xCopyPosition = .queueOverwrite
  · rw [if_pos room]
    obtain ⟨pcWriteTo, pcReadFrom, copied⟩ :=
      prvCopyDataToQueue_frame s.queue s.memory item xCopyPosition
    have counts := available_countAfter s.queue xCopyPosition admitted.2
    refine serve_move looking runs side _ ?_ ?_ ?_ ?_
    · rw [waiting_wakeReceiver, copied]
      rfl
    · rw [lock_wakeReceiver, copied]
      rfl
    · rw [available_wakeReceiver, copied]
      exact counts.1
    · rw [available_wakeReceiver, copied]
      exact counts.2.2
  · rw [if_neg room]
    apply orWait_move looking runs
    rw [side]
    have full : ¬ s.queue.uxMessagesWaiting < s.queue.uxLength := fun less => room (.inl less)
    change s.queue.uxLength - s.queue.uxMessagesWaiting = 0
    omega

theorem lookToReceive_move (looking : (s.frame t).pc = .look) (runs : s.canRun t)
    {xJustPeeking : Bool} (call : (s.frame t).call = .receive xJustPeeking) :
    Move (xEventListItemValue uxPriority) s.view (s.lookToReceive t xJustPeeking).1.view := by
  have side : (s.frame t).call.side = .receiving := by
    rw [call]
    rfl
  unfold lookToReceive
  by_cases some_item : s.queue.uxMessagesWaiting > 0
  · rw [if_pos some_item]
    obtain ⟨pcReadFrom, item, copied⟩ := prvCopyDataFromQueue_frame s.queue s.memory
    rw [copied]
    cases xJustPeeking with
    | true =>
        apply relay_move looking runs side
        · exact waiting_wakeReceiver _
        · exact lock_wakeReceiver _
        · exact available_wakeReceiver _
    | false =>
        apply serve_move looking runs side s.memory
        · exact waiting_wakeSender _
        · exact lock_wakeSender _
        · rw [available_wakeSender]
          exact Nat.le_refl _
        · rw [available_wakeSender]
          change s.queue.uxLength - (s.queue.uxMessagesWaiting - 1) ≤
            s.queue.uxLength - s.queue.uxMessagesWaiting + 1
          omega
  · rw [if_neg some_item]
    apply orWait_move looking runs
    rw [side]
    change s.queue.uxMessagesWaiting = 0
    omega

/-- An interrupt that gives a unit to a side. -/
theorem give_move (side : QueueSide) {q : QueueDefinition Task} (memory : Nat → UInt8)
    (free : s.queue.lock side = queueUnlocked)
    (lists : q.waiting = Function.update s.queue.waiting side (s.queue.waiting side).tail)
    (locks : q.lock = s.queue.lock) (more : q.available side ≤ s.queue.available side + 1)
    (others : q.available side.other ≤ s.queue.available side.other) :
    Move (xEventListItemValue uxPriority) s.view { s with queue := q, memory }.view :=
  .of_view (.give side q.available free more others) (QueueProtocol.ext rfl rfl rfl lists locks rfl)

theorem count_move (side : QueueSide) {q : QueueDefinition Task} (memory : Nat → UInt8)
    (counted : s.queue.lock side ≠ queueUnlocked) (lists : q.waiting = s.queue.waiting)
    (locks : q.lock = Function.update s.queue.lock side (s.queue.lock side + 1))
    (more : q.available side ≤ s.queue.available side + 1)
    (others : q.available side.other ≤ s.queue.available side.other) :
    Move (xEventListItemValue uxPriority) s.view { s with queue := q, memory }.view :=
  .of_view (.count side q.available counted more others)
    (QueueProtocol.ext rfl rfl rfl lists locks rfl)

theorem sendFromISR_move {item : List UInt8} {xCopyPosition : CopyPosition}
    (admitted : s.admits item xCopyPosition)
    (taken : s.xQueueGenericSendFromISR item xCopyPosition = some (s', event)) :
    Move (xEventListItemValue uxPriority) s.view s'.view := by
  unfold xQueueGenericSendFromISR at taken
  by_cases room : s.queue.uxMessagesWaiting < s.queue.uxLength ∨ xCopyPosition = .queueOverwrite
  · rw [if_pos room] at taken
    obtain ⟨pcWriteTo, pcReadFrom, copied⟩ :=
      prvCopyDataToQueue_frame s.queue s.memory item xCopyPosition
    have counts := available_countAfter s.queue xCopyPosition admitted.2
    have fewer : s.queue.uxLength - s.queue.countAfter xCopyPosition ≤
        s.queue.uxLength - s.queue.uxMessagesWaiting := by omega
    simp only [copied] at taken
    split at taken
    · next free =>
        cases taken
        apply give_move .receiving _ free
        · exact waiting_wakeReceiver _
        · exact lock_wakeReceiver _
        · rw [available_wakeReceiver]
          exact counts.2.2
        · rw [available_wakeReceiver]
          exact fewer
    · next counted =>
        split at taken
        · cases taken
          apply count_move .receiving _ counted
          · rfl
          · funext side
            cases side with
            | sending => rfl
            | receiving => rfl
          · exact counts.2.2
          · exact fewer
        · cases taken
  · rw [if_neg room] at taken
    cases taken
    exact .idle

theorem receiveFromISR_move (taken : s.xQueueReceiveFromISR = some (s', event)) :
    Move (xEventListItemValue uxPriority) s.view s'.view := by
  unfold xQueueReceiveFromISR at taken
  by_cases some_item : s.queue.uxMessagesWaiting > 0
  · rw [if_pos some_item] at taken
    obtain ⟨pcReadFrom, item, copied⟩ := prvCopyDataFromQueue_frame s.queue s.memory
    have more : s.queue.uxLength - (s.queue.uxMessagesWaiting - 1) ≤
        s.queue.uxLength - s.queue.uxMessagesWaiting + 1 := by omega
    simp only [copied] at taken
    split at taken
    · next free =>
        cases taken
        apply give_move .sending s.memory free
        · exact waiting_wakeSender _
        · exact lock_wakeSender _
        · rw [available_wakeSender]
          exact more
        · rw [available_wakeSender]
          exact Nat.sub_le _ _
    · next counted =>
        split at taken
        · cases taken
          apply count_move .sending s.memory counted
          · rfl
          · funext side
            cases side with
            | sending => rfl
            | receiving => rfl
          · exact more
          · exact Nat.sub_le _ _
        · cases taken
  · rw [if_neg some_item] at taken
    cases taken
    exact .idle

theorem peekFromISR_move :
    Move (xEventListItemValue uxPriority) s.view s.xQueuePeekFromISR.1.view := by
  unfold xQueuePeekFromISR
  by_cases some_item : s.queue.uxMessagesWaiting > 0
  · rw [if_pos some_item]
    obtain ⟨pcReadFrom, item, copied⟩ := prvCopyDataFromQueue_frame s.queue s.memory
    rw [copied]
    exact .idle
  · rw [if_neg some_item]
    exact .idle

/-! ## The steps of a call -/

theorem checkTimeOut_move (before : (s.frame t).pc = .checkForTimeOut) :
    Move (xEventListItemValue uxPriority) s.view (s.checkTimeOut t).view := by
  have moved : (s.checkTimeOut t).view =
      s.view.goto t (if (s.timeOutResult t).1 then .unlockTx false else .checkQueue) :=
    view_frame s t rfl
  cases expired : (s.timeOutResult t).1 with
  | true =>
      rw [expired] at moved
      exact .of_view (.goOn t _ (.inr (.inl ⟨before, rfl⟩))) moved
  | false =>
      rw [expired] at moved
      exact .of_view (.goOn t _ (.inl ⟨before, rfl⟩)) moved

theorem resume_move {again : Bool} (before : (s.frame t).pc = .xTaskResumeAll again) :
    Move (xEventListItemValue uxPriority) s.view (s.resume t again).1.view := by
  cases again with
  | true => exact .of_view (.resume t true before) (view_goto _ t .look)
  | false => exact .of_view (.resume t false before) (view_goto _ t .outside)

/-- The calls that are under way can be made. -/
def Entered (s : QueueState Task) : Prop :=
  ∀ t, (s.frame t).pc ≠ .outside → s.callable (s.frame t).call

/-- What a task does next in its call, and what the call reports. -/
inductive TaskMove (uxPriority : Task → Fin configMaxPriorities) (s : QueueState Task) (t : Task) :
    QueueState Task → Option (QueueEvent Task) → Prop
  | send (item : List UInt8) (xCopyPosition : CopyPosition) : (s.frame t).pc = .look →
      (s.frame t).call = .send item xCopyPosition → TaskMove uxPriority s t
        (s.lookToSend t item xCopyPosition).1 (s.lookToSend t item xCopyPosition).2
  | receive (xJustPeeking : Bool) : (s.frame t).pc = .look →
      (s.frame t).call = .receive xJustPeeking → TaskMove uxPriority s t
        (s.lookToReceive t xJustPeeking).1 (s.lookToReceive t xJustPeeking).2
  | vTaskSuspendAll : (s.frame t).pc = .vTaskSuspendAll → TaskMove uxPriority s t
      ({ s with uxSchedulerSuspended := some t }.goto t .prvLockQueue) none
  | prvLockQueue : (s.frame t).pc = .prvLockQueue → TaskMove uxPriority s t
      ((s.withQueue s.queue.prvLockQueue).goto t .checkForTimeOut) none
  | checkForTimeOut : (s.frame t).pc = .checkForTimeOut →
      TaskMove uxPriority s t (s.checkTimeOut t) none
  | mustWait : (s.frame t).pc = .checkQueue → s.mustWait (s.frame t).call = true →
      TaskMove uxPriority s t (s.goto t .placeOnEventList) none
  | tryAgain : (s.frame t).pc = .checkQueue →
      TaskMove uxPriority s t (s.goto t (.unlockTx true)) none
  | placeOnEventList : (s.frame t).pc = .placeOnEventList → TaskMove uxPriority s t
      ((s.withQueue (s.vTaskPlaceOnEventList uxPriority t (s.frame t).call)).goto t (.unlockTx true))
      none
  | unlockTx (again : Bool) : (s.frame t).pc = .unlockTx again → TaskMove uxPriority s t
      ((s.withQueue s.queue.prvUnlockTx).goto t (.unlockRx again)) none
  | unlockRx (again : Bool) : (s.frame t).pc = .unlockRx again → TaskMove uxPriority s t
      ((s.withQueue s.queue.prvUnlockRx).goto t (.xTaskResumeAll again)) none
  | xTaskResumeAll (again : Bool) : (s.frame t).pc = .xTaskResumeAll again →
      TaskMove uxPriority s t (s.resume t again).1 (s.resume t again).2

theorem taskStep_cases (taken : s.taskStep uxPriority t = some (s', event)) :
    TaskMove uxPriority s t s' event := by
  unfold taskStep at taken
  cases before : (s.frame t).pc with
  | outside =>
      rw [before] at taken
      cases taken
  | look =>
      rw [before] at taken
      cases call : (s.frame t).call with
      | send item xCopyPosition =>
          rw [call] at taken
          have final : s.lookToSend t item xCopyPosition = (s', event) := Option.some.inj taken
          have moved : TaskMove uxPriority s t _ _ := .send item xCopyPosition before call
          rw [final] at moved
          exact moved
      | receive xJustPeeking =>
          rw [call] at taken
          have final : s.lookToReceive t xJustPeeking = (s', event) := Option.some.inj taken
          have moved : TaskMove uxPriority s t _ _ := .receive xJustPeeking before call
          rw [final] at moved
          exact moved
  | vTaskSuspendAll =>
      rw [before] at taken
      cases taken
      exact .vTaskSuspendAll before
  | prvLockQueue =>
      rw [before] at taken
      cases taken
      exact .prvLockQueue before
  | checkForTimeOut =>
      rw [before] at taken
      cases taken
      exact .checkForTimeOut before
  | checkQueue =>
      rw [before] at taken
      cases taken
      cases wait : s.mustWait (s.frame t).call with
      | true => exact .mustWait before wait
      | false => exact .tryAgain before
  | placeOnEventList =>
      rw [before] at taken
      cases taken
      exact .placeOnEventList before
  | unlockTx again =>
      rw [before] at taken
      cases taken
      exact .unlockTx again before
  | unlockRx again =>
      rw [before] at taken
      cases taken
      exact .unlockRx again before
  | xTaskResumeAll again =>
      rw [before] at taken
      have final : s.resume t again = (s', event) := Option.some.inj taken
      have moved : TaskMove uxPriority s t _ _ := .xTaskResumeAll again before
      rw [final] at moved
      exact moved

theorem taskStep_move (entered : s.Entered) (runs : s.canRun t)
    (taken : s.taskStep uxPriority t = some (s', event)) :
    Move (xEventListItemValue uxPriority) s.view s'.view := by
  cases taskStep_cases taken with
  | send item xCopyPosition before call =>
      have admitted := entered t
      rw [before, call] at admitted
      exact lookToSend_move before runs call (admitted (by decide))
  | receive xJustPeeking before call => exact lookToReceive_move before runs call
  | vTaskSuspendAll before =>
      exact .of_view (.suspend t before (runs_of_canRun runs)) (view_goto _ t .prvLockQueue)
  | prvLockQueue before =>
      refine .of_view (.lockQueue t before) ((view_goto _ t .checkForTimeOut).trans ?_)
      exact QueueProtocol.ext rfl rfl rfl rfl (lockQueue_view s.queue) rfl
  | checkForTimeOut before => exact checkTimeOut_move before
  | mustWait before wait =>
      exact .of_view (.mustWait t before (available_of_mustWait wait)) (view_goto ..)
  | tryAgain before => exact .of_view (.goOn t _ (.inr (.inr ⟨before, rfl⟩))) (view_goto ..)
  | placeOnEventList before =>
      obtain ⟨lists, locks, units⟩ := placeOnEventList_view uxPriority s t (s.frame t).call
      refine .of_view (.place t before) ((view_goto _ t (.unlockTx true)).trans ?_)
      exact QueueProtocol.ext rfl rfl rfl lists locks units
  | unlockTx again before =>
      obtain ⟨lists, locks⟩ := unlockTx_view s.queue
      refine .of_view (.unlock t .receiving (.unlockRx again) again (.inl ⟨rfl, before, rfl⟩))
        ((view_goto _ t (.unlockRx again)).trans ?_)
      exact QueueProtocol.ext rfl rfl rfl lists locks rfl
  | unlockRx again before =>
      obtain ⟨lists, locks⟩ := unlockRx_view s.queue
      refine .of_view (.unlock t .sending (.xTaskResumeAll again) again (.inr ⟨rfl, before, rfl⟩))
        ((view_goto _ t (.xTaskResumeAll again)).trans ?_)
      exact QueueProtocol.ext rfl rfl rfl lists locks rfl
  | xTaskResumeAll again before => exact resume_move before

/-- Every step is a move of the protocol. -/
theorem next_move (entered : s.Entered) (taken : s.next uxPriority a = some (s', event)) :
    Move (xEventListItemValue uxPriority) s.view s'.view := by
  cases a with
  | call t call xTicksToWait =>
      simp only [next] at taken
      split at taken
      · next starts =>
          cases taken
          refine .of_view (.enter t call.side starts.1 starts.2.1)
            (QueueProtocol.ext ?_ ?_ rfl rfl rfl rfl)
          · exact Function.comp_update QueueFrame.pc ..
          · exact Function.comp_update (fun f : QueueFrame => f.call.side) ..
      · cases taken
  | step t =>
      simp only [next] at taken
      split at taken
      · next runs => exact taskStep_move entered runs taken
      · cases taken
  | unblock t =>
      simp only [next] at taken
      split at taken
      · next blocked =>
          cases taken
          refine .of_view (.unblock t blocked.1) (QueueProtocol.ext rfl rfl rfl ?_ rfl rfl)
          funext side
          cases side with
          | sending => rfl
          | receiving => rfl
      · cases taken
  | tick =>
      cases taken
      unfold tickInterrupt
      split
      · exact .idle
      · exact .idle
  | sendFromISR item xCopyPosition =>
      simp only [next] at taken
      split at taken
      · next admitted => exact sendFromISR_move admitted taken
      · cases taken
  | receiveFromISR => exact receiveFromISR_move taken
  | peekFromISR =>
      have final : s' = s.xQueuePeekFromISR.1 := congrArg Prod.fst (Option.some.inj taken).symm
      rw [final]
      exact peekFromISR_move
  | store address value =>
      simp only [next] at taken
      split at taken
      · cases taken
        exact .idle
      · cases taken

end QueueState

end FepMaster

import FepMaster.QueueContents

/-!
# The calls at a queue

What a step makes of the local variables of its call (`QueueFrame.Step`), and of the tick count.
`next_calls_cases` says it of every step; what holds of the calls under way follows from there.
-/

namespace FepMaster

namespace QueuePc

/-- Behind the first look of a call, and before it looks again. -/
def inLoop : QueuePc → Bool
  | .outside | .look => false
  | _ => true

/-- The time of the call is over. -/
def givesUp : QueuePc → Bool
  | .unlockTx again | .unlockRx again | .xTaskResumeAll again => !again
  | _ => false

/-- The ticks that came while the scheduler was suspended are counted next. -/
def resumes : QueuePc → Bool
  | .xTaskResumeAll _ => true
  | _ => false

theorem inside_of_inLoop {pc : QueuePc} (loop : pc.inLoop = true) : pc ≠ .outside := by
  intro out
  rw [out] at loop
  cases loop

end QueuePc

/-- What a step leaves of its call, and whether the call fails with it. -/
inductive QueueFrame.Step (c : TickCount) (f : QueueFrame) : QueueFrame → Bool → Prop
  | serve : f.pc = .look → Step c f { f with pc := .outside } false
  | refuse : f.pc = .look → f.xTicksToWait = 0 → Step c f { f with pc := .outside } true
  | wait : f.pc = .look → Step c f { f.setEntryTime c with pc := .vTaskSuspendAll } false
  | goOn (pc : QueuePc) : f.pc.inLoop = true → pc.inLoop = true → pc.givesUp = f.pc.givesUp →
      Step c f { f with pc } false
  | timeOver : f.pc = .checkForTimeOut →
      (xTaskCheckForTimeOut c f.xTimeOut f.xTicksToWait).1 = true →
      Step c f { f with
        pc := .unlockTx false
        xTimeOut := (xTaskCheckForTimeOut c f.xTimeOut f.xTicksToWait).2.1
        xTicksToWait := (xTaskCheckForTimeOut c f.xTimeOut f.xTicksToWait).2.2 } false
  | timeLeft : f.pc = .checkForTimeOut →
      (xTaskCheckForTimeOut c f.xTimeOut f.xTicksToWait).1 = false →
      Step c f { f with
        pc := .checkQueue
        xTimeOut := (xTaskCheckForTimeOut c f.xTimeOut f.xTicksToWait).2.1
        xTicksToWait := (xTaskCheckForTimeOut c f.xTimeOut f.xTicksToWait).2.2 } false
  | lookAgain : f.pc = .xTaskResumeAll true → Step c f { f with pc := .look } false
  | giveUp : f.pc = .xTaskResumeAll false → Step c f { f with pc := .outside } true

theorem QueueFrame.Step.call_eq {c : TickCount} {f g : QueueFrame} {failed : Bool}
    (step : f.Step c g failed) : g.call = f.call := by
  cases step with
  | wait => exact QueueFrame.setEntryTime_call ..
  | _ => rfl

theorem QueueFrame.Step.inside {c : TickCount} {f g : QueueFrame} {failed : Bool}
    (step : f.Step c g failed) : f.pc ≠ .outside := by
  cases step with
  | goOn pc loop => exact QueuePc.inside_of_inLoop loop
  | serve before | refuse before | wait before | timeOver before | timeLeft before
  | lookAgain before | giveUp before =>
      rw [before]
      exact QueuePc.noConfusion

/-- A call starts. -/
def QueueAct.isCall {Task : Type} : QueueAct Task → Bool
  | .call _ _ _ => true
  | _ => false

namespace QueueState

open QueueDefinition

variable {Task : Type} [DecidableEq Task] {uxPriority : Task → Fin configMaxPriorities}
  {s s' : QueueState Task} {a : QueueAct Task} {event : Option (QueueEvent Task)} {t : Task}

/-- The ticks that a step counts. -/
def counted (s : QueueState Task) : QueueAct Task → Nat
  | .tick => if s.uxSchedulerSuspended = none then 1 else 0
  | .step t => if (s.frame t).pc.resumes then s.uxPendedTicks else 0
  | _ => 0

/-- A step of the task `t`. -/
def GoesOn (s : QueueState Task) (t : Task) (s' : QueueState Task)
    (event : Option (QueueEvent Task)) : Prop :=
  ∃ f failed, (s.frame t).Step s.ticks f failed ∧ s'.frame = Function.update s.frame t f ∧
    event.bind QueueEvent.failedTask = if failed then some t else none

theorem orWait_goesOn (looking : (s.frame t).pc = .look) :
    GoesOn s t (s.orWait t).1 (s.orWait t).2 ∧ (s.orWait t).1.ticks = s.ticks := by
  unfold orWait
  split
  · next never => exact ⟨⟨_, true, .refuse looking never, rfl, rfl⟩, rfl⟩
  · exact ⟨⟨_, false, .wait looking, rfl, rfl⟩, rfl⟩

theorem lookToSend_goesOn (looking : (s.frame t).pc = .look) (item : List UInt8)
    (xCopyPosition : CopyPosition) :
    GoesOn s t (s.lookToSend t item xCopyPosition).1 (s.lookToSend t item xCopyPosition).2 ∧
    (s.lookToSend t item xCopyPosition).1.ticks = s.ticks := by
  unfold lookToSend
  split
  · exact ⟨⟨_, false, .serve looking, rfl, rfl⟩, rfl⟩
  · exact orWait_goesOn looking

theorem lookToReceive_goesOn (looking : (s.frame t).pc = .look) (xJustPeeking : Bool) :
    GoesOn s t (s.lookToReceive t xJustPeeking).1 (s.lookToReceive t xJustPeeking).2 ∧
    (s.lookToReceive t xJustPeeking).1.ticks = s.ticks := by
  by_cases some_item : s.queue.uxMessagesWaiting > 0
  · cases xJustPeeking with
    | true =>
        rw [lookToReceive_peek some_item]
        exact ⟨⟨_, false, .serve looking, rfl, rfl⟩, rfl⟩
    | false =>
        rw [lookToReceive_take some_item]
        exact ⟨⟨_, false, .serve looking, rfl, rfl⟩, rfl⟩
  · unfold lookToReceive
    rw [if_neg some_item]
    exact orWait_goesOn looking

theorem checkTimeOut_goesOn (checking : (s.frame t).pc = .checkForTimeOut) :
    GoesOn s t (s.checkTimeOut t) none := by
  unfold checkTimeOut
  cases ended : (s.timeOutResult t).1 with
  | true => exact ⟨_, false, .timeOver checking ended, rfl, rfl⟩
  | false => exact ⟨_, false, .timeLeft checking ended, rfl, rfl⟩

theorem resume_goesOn {again : Bool} (resuming : (s.frame t).pc = .xTaskResumeAll again) :
    GoesOn s t (s.resume t again).1 (s.resume t again).2 ∧
    (s.resume t again).1.ticks = TickCount.xTaskIncrementTick^[s.uxPendedTicks] s.ticks := by
  unfold resume
  cases again with
  | true => exact ⟨⟨_, false, .lookAgain resuming, rfl, rfl⟩, rfl⟩
  | false => exact ⟨⟨_, true, .giveUp resuming, rfl, rfl⟩, rfl⟩

/-- Between these two points of its loop a task goes on. -/
theorem goto_goesOn {pc : QueuePc} (before : (s.frame t).pc.inLoop = true)
    (after : pc.inLoop = true) (same : pc.givesUp = (s.frame t).pc.givesUp)
    (frame : s'.frame = (s.goto t pc).frame) : GoesOn s t s' none :=
  ⟨_, false, .goOn pc before after same, frame, rfl⟩

theorem taskStep_goesOn (taken : s.taskStep uxPriority t = some (s', event)) :
    GoesOn s t s' event ∧
    s'.ticks = TickCount.xTaskIncrementTick^[s.counted (.step t)] s.ticks := by
  have counts : s.counted (.step t) = if (s.frame t).pc.resumes then s.uxPendedTicks else 0 := rfl
  rw [counts]
  cases taskStep_cases taken with
  | send item xCopyPosition before =>
      rw [before]
      exact lookToSend_goesOn before item xCopyPosition
  | receive xJustPeeking before =>
      rw [before]
      exact lookToReceive_goesOn before xJustPeeking
  | checkForTimeOut before =>
      rw [before]
      exact ⟨checkTimeOut_goesOn before, rfl⟩
  | xTaskResumeAll again before =>
      rw [before]
      exact resume_goesOn before
  | vTaskSuspendAll before | prvLockQueue before | mustWait before | tryAgain before
  | placeOnEventList before | unlockTx again before | unlockRx again before =>
      refine ⟨goto_goesOn (by rw [before]; rfl) rfl (by rw [before]; rfl) rfl, ?_⟩
      rw [before]
      rfl

/-- What a step makes of the calls. -/
inductive CallsStep (s s' : QueueState Task) (event : Option (QueueEvent Task)) :
    QueueAct Task → Prop
  /-- A call starts. -/
  | begins (t : Task) (call : QueueCall) (xTicksToWait : Nat) : s.callable call →
      xTicksToWait < 2 ^ 32 →
      s'.frame = Function.update s.frame t ⟨.look, call, xTicksToWait, false, ⟨0, 0⟩⟩ →
      event.bind QueueEvent.failedTask = none → CallsStep s s' event (.call t call xTicksToWait)
  /-- A call goes on. -/
  | goesOn (t : Task) : GoesOn s t s' event → CallsStep s s' event (.step t)
  /-- Nothing happens to the calls. -/
  | others {a : QueueAct Task} : a.isCall = false →
      s'.frame = s.frame → event.bind QueueEvent.failedTask = none → CallsStep s s' event a

theorem next_calls_cases (taken : s.next uxPriority a = some (s', event)) :
    CallsStep s s' event a ∧ s'.ticks = TickCount.xTaskIncrementTick^[s.counted a] s.ticks := by
  cases a with
  | call t call xTicksToWait =>
      simp only [next] at taken
      split at taken
      · next starts =>
          cases taken
          exact ⟨.begins t call xTicksToWait starts.2.2.1 starts.2.2.2 rfl rfl, rfl⟩
      · cases taken
  | step t =>
      simp only [next] at taken
      split at taken
      · obtain ⟨went, ticks⟩ := taskStep_goesOn taken
        exact ⟨.goesOn t went, ticks⟩
      · cases taken
  | unblock t =>
      simp only [next] at taken
      split at taken
      · cases taken
        exact ⟨.others rfl rfl rfl, rfl⟩
      · cases taken
  | tick =>
      cases taken
      unfold tickInterrupt counted
      split
      · exact ⟨.others rfl rfl rfl, rfl⟩
      · exact ⟨.others rfl rfl rfl, rfl⟩
  | sendFromISR item xCopyPosition =>
      simp only [next] at taken
      split at taken
      · have left := sendFromISR_leaves taken
        exact ⟨.others rfl left.frame left.quiet, left.ticks⟩
      · cases taken
  | receiveFromISR =>
      have left := receiveFromISR_leaves taken
      exact ⟨.others rfl left.frame left.quiet, left.ticks⟩
  | peekFromISR =>
      have left := peekFromISR_leaves taken
      exact ⟨.others rfl left.frame left.quiet, left.ticks⟩
  | store address value =>
      simp only [next] at taken
      split at taken
      · cases taken
        exact ⟨.others rfl rfl rfl, rfl⟩
      · cases taken

/-- What holds of the calls under way, if it holds of each when it is made. -/
theorem next_calls {P : QueueCall → Prop}
    (before : ∀ t, (s.frame t).pc ≠ .outside → P (s.frame t).call)
    (made : ∀ t call xTicksToWait, a = .call t call xTicksToWait → s.callable call → P call)
    (taken : s.next uxPriority a = some (s', event)) :
    ∀ t, (s'.frame t).pc ≠ .outside → P (s'.frame t).call := by
  intro u
  cases (next_calls_cases taken).1 with
  | begins t call xTicksToWait callable small frame =>
      rw [frame]
      by_cases itself : u = t
      · rw [itself, Function.update_self]
        exact fun _ => made t call xTicksToWait rfl callable
      · rw [Function.update_of_ne itself]
        exact before u
  | goesOn t went =>
      obtain ⟨f, failed, step, frame, -⟩ := went
      rw [frame]
      by_cases itself : u = t
      · rw [itself, Function.update_self, step.call_eq]
        exact fun _ => before t step.inside
      · rw [Function.update_of_ne itself]
        exact before u
  | others same frame =>
      rw [frame]
      exact before u

end QueueState

end FepMaster

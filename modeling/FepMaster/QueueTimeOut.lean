import FepMaster.QueueRuns

/-!
# Time-outs at a queue

The tick count and its overflows are those of a clock that does not wrap (`TickCount.at`), and
`xTaskCheckForTimeOut` never takes more from `xTicksToWait` than has passed on that clock, however
often the count has wrapped.  So a call gives up no earlier than it was asked to, and never if it
was asked to wait for `portMAX_DELAY` (`timeout_not_early`).
-/

namespace FepMaster

open Transition

/-- The counters after so many ticks. -/
def TickCount.at (now : Nat) : TickCount := ⟨wrap now, wrap (now / 2 ^ 32)⟩

namespace TickCount

theorem at_xTaskIncrementTick (now : Nat) :
    (TickCount.at now).xTaskIncrementTick = .at (now + 1) := by
  have next : wrap (wrap now + 1) = wrap (now + 1) := Nat.mod_add_mod ..
  unfold xTaskIncrementTick TickCount.at
  simp only [next]
  split
  · next overflow =>
      have carry : wrap (wrap (now / 2 ^ 32) + 1) = wrap ((now + 1) / 2 ^ 32) := by
        unfold wrap at overflow ⊢
        omega
      rw [carry, overflow]
  · next counts =>
      have same : now / 2 ^ 32 = (now + 1) / 2 ^ 32 := by
        unfold wrap at counts
        omega
      rw [same]

/-- Every state of the counters is that of some time. -/
theorem at_of_lt {c : TickCount} (small : c.xTickCount < 2 ^ 32)
    (few : c.xNumOfOverflows < 2 ^ 32) :
    TickCount.at (c.xTickCount + 2 ^ 32 * c.xNumOfOverflows) = c := by
  have count : wrap (c.xTickCount + 2 ^ 32 * c.xNumOfOverflows) = c.xTickCount := by
    unfold wrap
    omega
  have overflows : wrap ((c.xTickCount + 2 ^ 32 * c.xNumOfOverflows) / 2 ^ 32) =
      c.xNumOfOverflows := by
    unfold wrap
    omega
  unfold TickCount.at
  rw [count, overflows]

theorem at_iterate (now n : Nat) : xTaskIncrementTick^[n] (TickCount.at now) = .at (now + n) := by
  induction n with
  | zero => rfl
  | succ n ih => rw [Function.iterate_succ_apply', ih, at_xTaskIncrementTick, Nat.add_assoc]

end TickCount

/-- What `xTaskCheckForTimeOut` finds at the time `now` of a time-out that was set at `since`: the
time is over, or it is not and what is left counts from some time in between. -/
theorem xTaskCheckForTimeOut_cases {now since xTicksToWait : Nat} (order : since ≤ now)
    (small : xTicksToWait < 2 ^ 32) :
    ((xTaskCheckForTimeOut (.at now) (vTaskSetTimeOutState (.at since)) xTicksToWait).1 = true ∧
      since + xTicksToWait ≤ now ∧ xTicksToWait ≠ portMaxDelay) ∨
    ∃ set left, xTaskCheckForTimeOut (.at now) (vTaskSetTimeOutState (.at since)) xTicksToWait =
        (false, vTaskSetTimeOutState (.at set), left) ∧
      since ≤ set ∧ set ≤ now ∧ since + xTicksToWait ≤ set + left ∧ left ≤ xTicksToWait ∧
      (xTicksToWait = portMaxDelay → left = portMaxDelay) := by
  have passed : wrapSub (wrap now) (wrap since) ≤ now - since := by
    unfold wrapSub wrap
    omega
  have below : wrapSub (wrap now) (wrap since) < 2 ^ 32 := Nat.mod_lt _ (Nat.two_pow_pos 32)
  unfold xTaskCheckForTimeOut
  split
  · next forever =>
      exact .inr ⟨since, xTicksToWait, rfl, Nat.le_refl _, order, Nat.le_refl _, Nat.le_refl _, id⟩
  · next bounded =>
      split
      · next wrapped =>
          refine .inl ⟨rfl, ?_, bounded⟩
          obtain ⟨other, above⟩ := wrapped
          change wrap (now / 2 ^ 32) ≠ wrap (since / 2 ^ 32) at other
          change wrap since ≤ wrap now at above
          unfold wrap at other above
          omega
      · split
        · next within =>
            change wrapSub (wrap now) (wrap since) < xTicksToWait at within
            have left : wrapSub xTicksToWait (wrapSub (wrap now) (wrap since)) =
                xTicksToWait - wrapSub (wrap now) (wrap since) :=
              wrapSub_eq small (Nat.le_of_lt within)
            refine .inr ⟨now, _, rfl, order, Nat.le_refl _, ?_, ?_, fun forever =>
              absurd forever bounded⟩
            · change since + xTicksToWait ≤
                now + wrapSub xTicksToWait (wrapSub (wrap now) (wrap since))
              rw [left]
              omega
            · change wrapSub xTicksToWait (wrapSub (wrap now) (wrap since)) ≤ xTicksToWait
              rw [left]
              exact Nat.sub_le ..
        · next ended =>
            change ¬ wrapSub (wrap now) (wrap since) < xTicksToWait at ended
            exact .inl ⟨rfl, by omega, bounded⟩

/-- Where the time is over nothing else is left behind. -/
theorem xTaskCheckForTimeOut_over {c : TickCount} {pxTimeOut : TimeOut} {pxTicksToWait : Nat}
    (ended : (xTaskCheckForTimeOut c pxTimeOut pxTicksToWait).1 = true) :
    xTaskCheckForTimeOut c pxTimeOut pxTicksToWait = (true, pxTimeOut, pxTicksToWait) := by
  unfold xTaskCheckForTimeOut at ended ⊢
  split
  · next forever =>
      rw [if_pos forever] at ended
      cases ended
  · next bounded =>
      rw [if_neg bounded] at ended
      split
      · rfl
      · next wrapped =>
          rw [if_neg wrapped] at ended
          split
          · next within =>
              rw [if_pos within] at ended
              cases ended
          · rfl

/-! ## One call -/

/-- A call with these local variables, at the time `now`, began at `called` and was to wait for
`wanted` ticks: its time-out was set at some time since, and what it has left to wait from then on
makes up the rest. -/
structure QueueFrame.Timed (f : QueueFrame) (now called wanted : Nat) : Prop where
  small : f.xTicksToWait < 2 ^ 32
  since : called ≤ now
  unset : f.xEntryTimeSet = false → f.xTicksToWait = wanted
  set : f.xEntryTimeSet = true → ∃ set, called ≤ set ∧ set ≤ now ∧
    f.xTimeOut = vTaskSetTimeOutState (.at set) ∧ called + wanted ≤ set + f.xTicksToWait
  inLoop : f.pc.inLoop = true → f.xEntryTimeSet = true
  ended : f.pc.givesUp = true → called + wanted ≤ now
  forever : wanted = portMaxDelay → f.xTicksToWait = portMaxDelay ∧ f.pc.givesUp = false

namespace QueueFrame

variable {f g : QueueFrame} {now now' called wanted : Nat} {failed : Bool}

theorem Timed.later (timed : f.Timed now called wanted) (order : now ≤ now') :
    f.Timed now' called wanted where
  small := timed.small
  since := le_trans timed.since order
  unset := timed.unset
  set is_set := by
    obtain ⟨set, after, before, stamp, rest⟩ := timed.set is_set
    exact ⟨set, after, le_trans before order, stamp, rest⟩
  inLoop := timed.inLoop
  ended gives_up := le_trans (timed.ended gives_up) order
  forever := timed.forever

/-- A call that just began. -/
theorem Timed.begins (call : QueueCall) (small : wanted < 2 ^ 32) :
    Timed ⟨.look, call, wanted, false, ⟨0, 0⟩⟩ now now wanted where
  small := small
  since := Nat.le_refl _
  unset _ := rfl
  set is_set := by cases is_set
  inLoop loop := by cases loop
  ended gives_up := by cases gives_up
  forever delay := ⟨delay, rfl⟩

/-- It goes on at `pc`. -/
theorem Timed.goto (timed : f.Timed now called wanted) {pc : QueuePc}
    (loop : pc.inLoop = true → f.xEntryTimeSet = true)
    (same : pc.givesUp = true → f.pc.givesUp = true) :
    Timed { f with pc } now called wanted where
  small := timed.small
  since := timed.since
  unset := timed.unset
  set := timed.set
  inLoop := loop
  ended gives_up := timed.ended (same gives_up)
  forever delay := by
    obtain ⟨left, goes_on⟩ := timed.forever delay
    refine ⟨left, Bool.eq_false_of_not_eq_true fun gives_up => ?_⟩
    rw [same gives_up] at goes_on
    cases goes_on

/-- It begins to wait, or goes on waiting. -/
theorem Timed.wait (timed : f.Timed now called wanted) :
    Timed { f.setEntryTime (.at now) with pc := .vTaskSuspendAll } now called wanted := by
  unfold setEntryTime
  split
  · next is_set => exact timed.goto (fun _ => is_set) (fun gives_up => by cases gives_up)
  · next unset =>
      have left := timed.unset (Bool.eq_false_of_not_eq_true unset)
      have since := timed.since
      constructor
      · exact timed.small
      · exact since
      · exact fun unset => absurd unset.symm Bool.false_ne_true
      · refine fun _ => ⟨now, since, Nat.le_refl _, rfl, ?_⟩
        change called + wanted ≤ now + f.xTicksToWait
        omega
      · exact fun _ => rfl
      · exact fun gives_up => absurd gives_up Bool.false_ne_true
      · exact fun delay => ⟨(timed.forever delay).1, rfl⟩

/-- Its time is over. -/
theorem Timed.timeOver (timed : f.Timed now called wanted) (checking : f.pc = .checkForTimeOut)
    (ended : (xTaskCheckForTimeOut (.at now) f.xTimeOut f.xTicksToWait).1 = true) :
    called + wanted ≤ now ∧ wanted ≠ portMaxDelay := by
  obtain ⟨set, after, before, stamp, rest⟩ := timed.set (timed.inLoop (by rw [checking]; rfl))
  rw [stamp] at ended
  rcases xTaskCheckForTimeOut_cases before timed.small with passed | remains
  · refine ⟨by omega, fun delay => passed.2.2 (timed.forever delay).1⟩
  · rcases remains with ⟨set', left, result, -⟩
    rw [result] at ended
    cases ended

/-- Its time is not over. -/
theorem Timed.timeLeft (timed : f.Timed now called wanted) (checking : f.pc = .checkForTimeOut)
    (left : (xTaskCheckForTimeOut (.at now) f.xTimeOut f.xTicksToWait).1 = false) :
    Timed { f with
      pc := .checkQueue
      xTimeOut := (xTaskCheckForTimeOut (.at now) f.xTimeOut f.xTicksToWait).2.1
      xTicksToWait := (xTaskCheckForTimeOut (.at now) f.xTimeOut f.xTicksToWait).2.2 }
      now called wanted := by
  have is_set : f.xEntryTimeSet = true := timed.inLoop (by rw [checking]; rfl)
  obtain ⟨set, after, before, stamp, rest⟩ := timed.set is_set
  rw [stamp] at left ⊢
  rcases xTaskCheckForTimeOut_cases before timed.small with passed | remains
  · rw [passed.1] at left
    cases left
  · rcases remains with ⟨set', left', result, since, until_now, enough, less, delays⟩
    rw [result]
    constructor
    · exact lt_of_le_of_lt less timed.small
    · exact timed.since
    · exact fun unset => absurd (is_set.symm.trans unset).symm Bool.false_ne_true
    · refine fun _ => ⟨set', le_trans after since, until_now, rfl, ?_⟩
      change called + wanted ≤ set' + left'
      omega
    · exact fun _ => is_set
    · exact fun gives_up => absurd gives_up Bool.false_ne_true
    · exact fun delay => ⟨delays (timed.forever delay).1, rfl⟩

/-- The time is over, and was so for good. -/
theorem Timed.expired (timed : f.Timed now called wanted) (checking : f.pc = .checkForTimeOut)
    (ended : (xTaskCheckForTimeOut (.at now) f.xTimeOut f.xTicksToWait).1 = true) :
    Timed { f with
      pc := .unlockTx false
      xTimeOut := (xTaskCheckForTimeOut (.at now) f.xTimeOut f.xTicksToWait).2.1
      xTicksToWait := (xTaskCheckForTimeOut (.at now) f.xTimeOut f.xTicksToWait).2.2 }
      now called wanted := by
  have is_set : f.xEntryTimeSet = true := timed.inLoop (by rw [checking]; rfl)
  obtain ⟨passed, bounded⟩ := timed.timeOver checking ended
  obtain ⟨set, after, before, stamp, rest⟩ := timed.set is_set
  rw [xTaskCheckForTimeOut_over ended]
  exact ⟨timed.small, timed.since, fun unset => absurd (is_set.symm.trans unset).symm
    Bool.false_ne_true, fun _ => ⟨set, after, before, stamp, rest⟩, fun _ => is_set,
    fun _ => passed, fun delay => absurd delay bounded⟩

/-- Every step of the call keeps it, and it fails only when its time is over. -/
theorem Timed.step (timed : f.Timed now called wanted) (step : f.Step (.at now) g failed) :
    (g.pc ≠ .outside → g.Timed now called wanted) ∧
    (failed = true → called + wanted ≤ now ∧ wanted ≠ portMaxDelay) := by
  have quiet : false = true → called + wanted ≤ now ∧ wanted ≠ portMaxDelay :=
    fun failed => absurd failed Bool.false_ne_true
  cases step with
  | serve looking => exact ⟨fun inside => absurd rfl inside, quiet⟩
  | refuse looking never =>
      refine ⟨fun inside => absurd rfl inside, fun _ => ⟨?_, fun delay => ?_⟩⟩
      · have since := timed.since
        cases is_set : f.xEntryTimeSet with
        | false =>
            have left := timed.unset is_set
            omega
        | true =>
            obtain ⟨set, after, before, stamp, rest⟩ := timed.set is_set
            omega
      · have left := (timed.forever delay).1
        rw [never] at left
        exact absurd left (by decide)
  | wait looking => exact ⟨fun _ => timed.wait, quiet⟩
  | goOn pc loop loops same =>
      refine ⟨fun _ => timed.goto (fun _ => timed.inLoop loop) fun gives_up => ?_, quiet⟩
      rw [← same]
      exact gives_up
  | timeOver checking ended => exact ⟨fun _ => timed.expired checking ended, quiet⟩
  | timeLeft checking left => exact ⟨fun _ => timed.timeLeft checking left, quiet⟩
  | lookAgain resuming =>
      refine ⟨fun _ => timed.goto (fun loop => ?_) fun gives_up => ?_, quiet⟩
      · cases loop
      · cases gives_up
  | giveUp resuming =>
      refine ⟨fun inside => absurd rfl inside, fun _ => ⟨timed.ended ?_, fun delay => ?_⟩⟩
      · rw [resuming]
        rfl
      · have goes_on := (timed.forever delay).2
        rw [resuming] at goes_on
        cases goes_on

end QueueFrame

/-! ## Runs -/

/-- The time, and when each task called last and for how long. -/
structure QueueClock (Task : Type) where
  now : Nat
  called : Task → Nat
  wanted : Task → Nat

/-- A clock that does not wrap, and the calls on it. -/
def queueClock {Task : Type} [DecidableEq Task] :
    Monitor (QueueState Task) (QueueAct Task) (QueueClock Task) where
  init s := ⟨s.ticks.xTickCount + 2 ^ 32 * s.ticks.xNumOfOverflows, fun _ => 0, fun _ => 0⟩
  next h s a _ :=
    match a with
    | .call t _ xTicksToWait =>
        { h with
          called := Function.update h.called t h.now
          wanted := Function.update h.wanted t xTicksToWait }
    | a => { h with now := h.now + s.counted a }

variable {Task : Type} [DecidableEq Task] {uxPriority : Task → Fin configMaxPriorities}
  {s s' : QueueState Task} {a : QueueAct Task}

/-- The counters are those of the clock, and so are the times of the calls under way. -/
structure QueueTimed (s : QueueState Task) (h : QueueClock Task) : Prop where
  ticks : s.ticks = .at h.now
  calls : ∀ t, (s.frame t).pc ≠ .outside → (s.frame t).Timed h.now (h.called t) (h.wanted t)

theorem queueClock_next {h : QueueClock Task} (other : a.isCall = false) :
    queueClock.next h s a s' = { h with now := h.now + s.counted a } := by
  cases a with
  | call t call xTicksToWait => cases other
  | _ => rfl

theorem QueueTimed.next {h : QueueClock Task} (timed : QueueTimed s h)
    {event : Option (QueueEvent Task)} (taken : s.next uxPriority a = some (s', event)) :
    QueueTimed s' (queueClock.next h s a s') ∧
    ∀ t, event.bind QueueEvent.failedTask = some t →
      h.called t + h.wanted t ≤ h.now ∧ h.wanted t ≠ portMaxDelay := by
  obtain ⟨calls, ticks⟩ := QueueState.next_calls_cases taken
  rw [timed.ticks, TickCount.at_iterate] at ticks
  cases calls with
  | begins t call xTicksToWait callable small frame quiet =>
      refine ⟨⟨ticks, fun u => ?_⟩, fun u failed => ?_⟩
      · rw [frame]
        change (Function.update s.frame t _ u).pc ≠ .outside →
          (Function.update s.frame t _ u).Timed h.now (Function.update h.called t h.now u)
            (Function.update h.wanted t xTicksToWait u)
        by_cases itself : u = t
        · rw [itself, Function.update_self, Function.update_self, Function.update_self]
          exact fun _ => .begins call small
        · rw [Function.update_of_ne itself, Function.update_of_ne itself,
            Function.update_of_ne itself]
          exact timed.calls u
      · rw [quiet] at failed
        cases failed
  | goesOn t went =>
      obtain ⟨f, failed, step, frame, report⟩ := went
      rw [timed.ticks] at step
      obtain ⟨kept, ended⟩ := (timed.calls t step.inside).step step
      have passed : h.now ≤ h.now + s.counted (.step t) := Nat.le_add_right ..
      refine ⟨⟨ticks, fun u inside => ?_⟩, fun u fails => ?_⟩
      · rw [frame] at inside ⊢
        by_cases itself : u = t
        · rw [itself, Function.update_self] at inside ⊢
          exact (kept inside).later passed
        · rw [Function.update_of_ne itself] at inside ⊢
          exact (timed.calls u inside).later passed
      · rw [report, Option.ite_none_right_eq_some] at fails
        rcases fails with ⟨fails, same⟩
        cases same
        exact ended fails
  | others other frame quiet =>
      rw [queueClock_next other]
      refine ⟨⟨ticks, fun u inside => ?_⟩, fun u failed => ?_⟩
      · rw [frame] at inside ⊢
        exact (timed.calls u inside).later (Nat.le_add_right ..)
      · rw [quiet] at failed
        cases failed

theorem queueTimed_of_reach {x : QueueState Task × QueueClock Task}
    (reached : ((queueLts uxPriority).watch queueClock).Reach x) : QueueTimed x.1 x.2 := by
  apply Lts.ReachWhile.invariant_watched (P := QueueTimed) ?_ ?_ reached
  · intro s start
    rcases start with ⟨-, outside, -, small, few, -⟩
    refine ⟨?_, fun t inside => absurd (outside t) inside⟩
    exact (TickCount.at_of_lt small few).symm
  · intro s h a s' _ timed _ moved
    obtain ⟨event, taken⟩ := queueLts_step_iff.mp moved
    exact (timed.next taken).1

/-- In every run a call that fails for want of room, or of an item, has lasted at least as many
ticks as it was to wait, and was not to wait for `portMAX_DELAY`. -/
theorem timeout_not_early {x : QueueState Task × QueueClock Task}
    (reached : ((queueLts uxPriority).watch queueClock).Reach x) {t : Task}
    (taken : x.1.next uxPriority a = some (s', some (.failed (some t)))) :
    x.2.called t + x.2.wanted t ≤ x.2.now ∧ x.2.wanted t ≠ portMaxDelay :=
  ((queueTimed_of_reach reached).next taken).2 t rfl

/-- A task waits for two ticks at an empty queue and gives up. -/
def receiverGivesUp : List (QueueAct Bool) :=
  .call true (.receive false) 2 :: List.replicate 9 (.step true) ++
    [.tick, .tick, .unblock true] ++ List.replicate 6 (.step true)

theorem timeout_not_early_two_ticks :
    ∃ x, ((queueLts twoPriorities).watch queueClock).Reach x ∧
      (x.1.frame true).pc = .xTaskResumeAll false ∧
      x.2.called true + x.2.wanted true ≤ x.2.now := by
  obtain ⟨x, reached, seen⟩ := Lts.exists_reach_of_exec
    (L := (queueLts twoPriorities).watch queueClock)
    (s := (twoTasks, ⟨0, fun _ => 0, fun _ => 0⟩)) ⟨twoTasks_init, rfl⟩ receiverGivesUp
    (P := fun x => decide ((x.1.frame true).pc = .xTaskResumeAll false ∧ x.1.canRun true))
    (by decide)
  obtain ⟨resuming, runs⟩ := of_decide_eq_true seen
  have taken : ∃ s', x.1.next twoPriorities (.step true) =
      some (s', some (.failed (some true))) := by
    simp only [QueueState.next, QueueState.taskStep, if_pos runs, resuming]
    exact ⟨_, rfl⟩
  obtain ⟨s', failed⟩ := taken
  exact ⟨x, reached, resuming, (timeout_not_early reached failed).1⟩

end FepMaster

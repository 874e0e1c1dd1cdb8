import FepMaster.Lib.Signal
import FepMaster.Moves

/-!
# The two flags around a poll cycle

The timer interrupt raises `Flag_GetData`; the poller finds it raised, sweeps the slots `1..6` and
lowers it at the end.  The poller raises `Flag_SendUDP` at the end of its cycle; the server task
finds it raised, lowers it and calls `SendGetValue`.

Both are flags in the sense of `FepMaster.Lib.Signal`, and the difference is the order.  The server
task lowers first, so every completed cycle is reported (`every_cycle_reported`).  The poller
lowers last, so a tick that comes during a cycle is forgotten with it (`tick_kept_iff`).
-/

namespace FepMaster

open Transition

/-! ## What no step does to a flag -/

theorem HandlerMove.flags_eq {s s' : Shared} {pc pc' : HandlerPc}
    (move : HandlerMove s pc s' pc') :
    s'.flagGetData = s.flagGetData ∧ s'.flagSendUdp = s.flagSendUdp := by
  cases move <;> exact ⟨rfl, rfl⟩

theorem UdpMove.flagGetData_eq {s s' : Shared} {pc pc' : UdpPc} (move : UdpMove s pc s' pc') :
    s'.flagGetData = s.flagGetData := by
  cases move <;> rfl

/-! ## Poll cycles and reports -/

/-- A poll cycle completes when the poller raises `Flag_SendUDP`. -/
def PollerPc.completes : PollerPc → Option Signal.Event
  | .setSendUdp => some .raise
  | _ => none

/-- What the server task's step does about `Flag_SendUDP`: clear it, or call `SendGetValue`. -/
def UdpPc.answers : UdpPc → Option Signal.Event
  | .clearFlag => some .lower
  | .call => some .serve
  | _ => none

/-- The history of `Flag_SendUDP`. -/
def handOff : Monitor Master Act (List Signal.Event) where
  init _ := []
  next h x a _ :=
    match a with
    | .poller _ => x.poller.completes.toList ++ h
    | .udp _ _ => x.udp.answers.toList ++ h
    | _ => h

/-- The poll cycles completed so far. -/
def completedCycles (h : List Signal.Event) : Nat := h.count .raise

/-- The calls of `SendGetValue` so far. -/
def reportCalls (h : List Signal.Event) : Nat := h.count .serve

/-- `Flag_SendUDP` has been cleared and `SendGetValue` not yet called. -/
def UdpPc.cleared : UdpPc → Bool
  | .call => true
  | _ => false

/-- The flag, the server task and the history agree. -/
structure HandOffInv (s : Shared) (pc : UdpPc) (h : List Signal.Event) : Prop where
  flag : s.flagSendUdp = active ↔ Signal.flag h = true
  cleared : pc.cleared = Signal.owing h
  seen : pc.answers = some .lower → Signal.flag h = true
  orderly : Signal.Orderly h

theorem UdpPc.afterSlot_cases (buff : Vector UInt8 100) (j : Nat) (i : Polled) :
    (∃ k, afterSlot buff j i = .readStatus buff j k) ∨ afterSlot buff j i = .give buff j := by
  unfold afterSlot
  cases i.next with
  | some k => exact .inl ⟨k, rfl⟩
  | none => exact .inr rfl

theorem UdpPc.quiet_afterSlot (buff : Vector UInt8 100) (j : Nat) (i : Polled) :
    (afterSlot buff j i).cleared = false ∧ (afterSlot buff j i).answers = none := by
  rcases afterSlot_cases buff j i with ⟨k, next⟩ | next <;> rw [next] <;> exact ⟨rfl, rfl⟩

/-- A step of the server task that is neither the clear nor the call, nor leads to one. -/
theorem HandOffInv.quiet {s s' : Shared} {pc pc' : UdpPc} {h : List Signal.Event}
    (inv : HandOffInv s pc h) (same : s'.flagSendUdp = s.flagSendUdp)
    (before : pc.cleared = false) (after : pc'.cleared = false ∧ pc'.answers = none) :
    HandOffInv s' pc' h := by
  refine ⟨same ▸ inv.flag, ?_, fun lowers => ?_, inv.orderly⟩
  · rw [after.1, ← before, inv.cleared]
  · rw [after.2] at lowers
    cases lowers

/-- Every step of the server task keeps the invariant. -/
theorem UdpMove.handOff {s s' : Shared} {pc pc' : UdpPc} {h : List Signal.Event}
    (move : UdpMove s pc s' pc') (inv : HandOffInv s pc h) :
    HandOffInv s' pc' (pc.answers.toList ++ h) := by
  cases move with
  | begin raised => exact ⟨inv.flag, inv.cleared, fun _ => inv.flag.mp raised, inv.orderly⟩
  | clearFlag =>
      have lowered : Signal.flag (.lower :: h) = false := rfl
      refine ⟨?_, rfl, fun calls => (by cases calls), inv.seen rfl, inv.cleared.symm, inv.orderly⟩
      simp [lowered, UdpPc.answers, inactive_ne_active]
  | call => exact ⟨inv.flag, rfl, fun takes => (by cases takes), inv.cleared.symm, inv.orderly⟩
  | skipped | readDataL => exact inv.quiet rfl rfl (UdpPc.quiet_afterSlot _ _ _)
  | _ => exact inv.quiet rfl rfl ⟨rfl, rfl⟩

/-- So does every step of the poller. -/
theorem PollerMove.handOff {s s' : Shared} {pc pc' : PollerPc} {udp : UdpPc}
    {h : List Signal.Event} (move : PollerMove s pc s' pc') (inv : HandOffInv s udp h) :
    HandOffInv s' udp (pc.completes.toList ++ h) := by
  cases move with
  | setSendUdp =>
      exact ⟨⟨fun _ => rfl, fun _ => rfl⟩, inv.cleared, fun _ => rfl, inv.orderly⟩
  | _ => exact ⟨inv.flag, inv.cleared, inv.seen, inv.orderly⟩

theorem handOffInv_of_reach {x : Master × List Signal.Event}
    (reached : (masterLts.watch handOff).Reach x) : HandOffInv x.1.shared x.1.udp x.2 := by
  apply Lts.ReachWhile.invariant_watched
    (P := fun x h => HandOffInv (Master.shared x) x.udp h) ?_ ?_ reached
  · intro x start
    subst start
    exact ⟨by decide, rfl, fun lowers => (by cases lowers), trivial⟩
  · intro x h a x' _ inv _ moved
    cases masterLts_move moved with
    | uart4 e => exact ⟨inv.flag, inv.cleared, inv.seen, inv.orderly⟩
    | tim3 => exact ⟨inv.flag, inv.cleared, inv.seen, inv.orderly⟩
    | handler move =>
        have same := move.flags_eq.2
        exact ⟨same ▸ inv.flag, inv.cleared, inv.seen, inv.orderly⟩
    | poller move => exact move.handOff inv
    | udp move => exact move.handOff inv

/-- **Every completed poll cycle is reported, and none twice.**  Once a cycle has completed, the
flag is up, or the server task has lowered it and is about to call `SendGetValue`, or a call has
started since the last cycle completed; and there are never more calls than completed cycles. -/
theorem every_cycle_reported (x : Master × List Signal.Event)
    (reached : (masterLts.watch handOff).Reach x) :
    (0 < completedCycles x.2 →
      x.1.shared.flagSendUdp = active ∨ x.1.udp.cleared = true ∨ Signal.answered x.2 = true) ∧
    reportCalls x.2 ≤ completedCycles x.2 := by
  have inv := handOffInv_of_reach reached
  constructor
  · intro _
    rw [inv.flag, inv.cleared]
    exact Signal.flag_or_owing_or_answered x.2
  · have counted := inv.orderly.served_le
    rw [reportCalls, completedCycles]
    omega

/-- One poll cycle, and the server task up to its call. -/
theorem every_cycle_reported_one_cycle :
    ∃ x, (masterLts.watch handOff).Reach x ∧ completedCycles x.2 = 1 ∧ reportCalls x.2 ≤ 1 := by
  obtain ⟨x, reached, completed⟩ := Lts.exists_reach_of_exec
    (L := masterLts.watch handOff) (s := (Master.start, [])) ⟨rfl, rfl⟩
    (.tim3 :: List.replicate 45 (.poller false) ++
      List.replicate 3 (.udp false (Vector.replicate 100 0)))
    (P := fun x => completedCycles x.2 == 1) (by decide +kernel)
  have one := eq_of_beq completed
  have counted := (every_cycle_reported x reached).2
  exact ⟨x, reached, one, one ▸ counted⟩

/-! ## Timer ticks -/

/-- What the poller's step does about `Flag_GetData`: begin a cycle, or clear the flag. -/
def PollerPc.sweeps : PollerPc → PollerPc → Option Signal.Event
  | .wait, .ask _ => some .serve
  | .clearGetData, _ => some .lower
  | _, _ => none

/-- The history of `Flag_GetData`. -/
def ticks : Monitor Master Act (List Signal.Event) where
  init _ := []
  next h x a x' :=
    match a with
    | .tim3 => .raise :: h
    | .poller _ => (x.poller.sweeps x'.poller).toList ++ h
    | _ => h

/-- After a first tick, the flag is up or a poll cycle has begun since the latest tick. -/
def TickKept (x : Master × List Signal.Event) : Prop :=
  .raise ∈ x.2 → x.1.shared.flagGetData = active ∨ Signal.answered x.2 = true

/-- The poller is about to clear the flag. -/
def PollerPc.clearing : PollerPc → Bool
  | .clearGetData => true
  | _ => false

/-- If the step is the poller's clearing of the flag, no tick has come since its cycle began. -/
def ClearsAnswered (x : Master × List Signal.Event) : Act → Prop
  | .poller _ => x.1.poller.clearing = true → Signal.answered x.2 = true
  | _ => True

/-- The flag and its history agree. -/
def TicksInv (x : Master) (h : List Signal.Event) : Prop :=
  x.shared.flagGetData = active ↔ Signal.flag h = true

/-- Every step of the poller keeps flag and history in agreement. -/
theorem PollerMove.ticksInv {s s' : Shared} {pc pc' : PollerPc} {h : List Signal.Event}
    (move : PollerMove s pc s' pc') (agree : s.flagGetData = active ↔ Signal.flag h = true) :
    s'.flagGetData = active ↔ Signal.flag ((pc.sweeps pc').toList ++ h) = true := by
  cases move with
  | clearGetData =>
      have lowered : Signal.flag (.lower :: h) = false := rfl
      simp [PollerPc.sweeps, lowered, inactive_ne_active]
  | _ => exact agree

theorem ticksInv_of_reach {x : Master × List Signal.Event}
    (reached : (masterLts.watch ticks).Reach x) : TicksInv x.1 x.2 := by
  apply Lts.ReachWhile.invariant_watched (P := TicksInv) ?_ ?_ reached
  · intro x start
    subst start
    exact ⟨fun up => (inactive_ne_active up).elim, fun up => Bool.noConfusion up⟩
  · intro x h a x' _ agree _ moved
    cases masterLts_move moved with
    | uart4 e => exact agree
    | tim3 => exact ⟨fun _ => rfl, fun _ => rfl⟩
    | handler move => rw [TicksInv, move.flags_eq.1]; exact agree
    | poller move => exact move.ticksInv agree
    | udp move => rw [TicksInv, move.flagGetData_eq]; exact agree

theorem tickKept_iff_kept {x : Master × List Signal.Event} (agree : TicksInv x.1 x.2) :
    TickKept x ↔ Signal.Kept x.2 := by
  rw [TicksInv] at agree
  rw [TickKept, agree, Signal.Kept]
  constructor
  · intro kept
    by_cases ticked : .raise ∈ x.2
    · exact kept ticked
    · exact .inr (Signal.answered_of_no_raise ticked)
  · exact fun kept _ => kept

/-- A step of the poller loses a tick exactly if it clears the flag before the tick is answered. -/
theorem PollerMove.kept_iff {s s' : Shared} {pc pc' : PollerPc} {h : List Signal.Event}
    (move : PollerMove s pc s' pc') (kept : Signal.Kept h) :
    Signal.Kept ((pc.sweeps pc').toList ++ h) ↔
      (pc.clearing = true → Signal.answered h = true) := by
  cases move with
  | begin => exact ⟨fun _ clears => Bool.noConfusion clears, fun _ => .inr rfl⟩
  | clearGetData =>
      exact (Signal.kept_cons_iff .lower h).trans
        ⟨fun answered _ => answered rfl, fun answered _ => answered rfl⟩
  | _ => exact ⟨fun _ clears => Bool.noConfusion clears, fun _ => kept⟩

/-- From a state in which no tick is lost, a step loses one exactly if it clears the flag before
the tick is answered. -/
theorem kept_step_iff {x x' : Master × List Signal.Event} {a : Act} (kept : Signal.Kept x.2)
    (taken : (masterLts.watch ticks).step x a = some x') :
    Signal.Kept x'.2 ↔ ClearsAnswered x a := by
  rcases x with ⟨x, h⟩
  rcases x' with ⟨x', h'⟩
  obtain ⟨moved, update⟩ := Lts.watch_step_iff.mp taken
  simp only at moved update kept
  rw [update]
  cases masterLts_move moved with
  | uart4 | handler | udp => exact ⟨fun _ => trivial, fun _ => kept⟩
  | tim3 => exact ⟨fun _ => trivial, fun _ => .inl rfl⟩
  | poller move => exact move.kept_iff kept

/-- **No timer tick is lost** in a run exactly if the poller never clears the flag when a tick has
come since its cycle began. -/
theorem tick_kept_iff (acts : List Act) :
    (masterLts.watch ticks).EveryStep (fun _ _ x' => TickKept x') (Master.start, []) acts ↔
      (masterLts.watch ticks).EveryStep (fun x a _ => ClearsAnswered x a)
        (Master.start, []) acts := by
  have exactly : ∀ x a x', (masterLts.watch ticks).Reach x → TickKept x →
      (masterLts.watch ticks).step x a = some x' → (TickKept x' ↔ ClearsAnswered x a) := by
    intro x a x' reached kept taken
    have before := (tickKept_iff_kept (ticksInv_of_reach reached)).mp kept
    rw [tickKept_iff_kept (ticksInv_of_reach (.step reached trivial taken))]
    exact kept_step_iff before taken
  have start : (masterLts.watch ticks).Reach (Master.start, []) := .init ⟨rfl, rfl⟩
  refine Lts.everyStep_iff (G := TickKept) (fun _ _ _ kept => kept) exactly start ?_ acts
  intro never
  cases never

/-- A tick in the middle of the first cycle is forgotten when the cycle ends. -/
theorem tick_lost :
    ¬ ∀ x, (masterLts.watch ticks).Reach x → TickKept x := by
  intro claim
  obtain ⟨x, reached, lost⟩ := Lts.exists_reach_of_exec
    (L := masterLts.watch ticks) (s := (Master.start, [])) ⟨rfl, rfl⟩
    (.tim3 :: List.replicate 20 (.poller false) ++ .tim3 :: List.replicate 25 (.poller false))
    (P := fun x => x.2.contains .raise && x.1.shared.flagGetData == inactive &&
      !Signal.answered x.2) (by decide +kernel)
  obtain ⟨rest, unanswered⟩ := (Bool.and_eq_true_iff).mp lost
  obtain ⟨ticked, down⟩ := (Bool.and_eq_true_iff).mp rest
  rcases claim x reached (List.contains_iff_mem.mp ticked) with up | answered
  · exact inactive_ne_active (eq_of_beq down ▸ up)
  · rw [answered] at unanswered
    cases unanswered

end FepMaster

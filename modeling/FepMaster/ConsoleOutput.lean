import FepMaster.Console
import FepMaster.Lib.Mailbox

/-!
# Console output

`Tx` is a one-slot mailbox between the tasks in `SER_PutChar` and the handler.  `outputLog` keeps
the mailbox along a run: whose character is in `Tx`, which calls are in progress, what has been
passed to `USART_SendData` and which calls have returned.

The test of `Tx` and the assignment are two steps, and the test lets a character 0 that still waits
pass.  As long as no call stores its character over another one, every character is sent once and
in order (`output_kept`); one that is overwritten is never sent, and its call returns all the same.
-/

namespace FepMaster

open Transition Mailbox

/-! ## The history -/

/-- The mailbox, and what has been passed to `USART_SendData`. -/
structure OutputLog where
  box : Box Nat UInt8
  passed : List Int

/-- A step of a task: it puts its character into the mailbox, or its call finishes. -/
def OutputLog.write (h : OutputLog) (s : Console) (task : Nat) : OutputLog :=
  match s.put task with
  | .store c => { h with box := h.box.store task c }
  | .waitAfter _ => if s.tx ≥ 0 then h else { h with box := h.box.finish task }
  | _ => h

/-- A run of the handler. -/
def OutputLog.send (h : OutputLog) : Option Int → OutputLog
  | some data => ⟨h.box.take, h.passed ++ [data]⟩
  | none => h

/-- The history of the output. -/
def outputLog : Monitor Console ConsoleAct OutputLog where
  init _ := ⟨Box.empty, []⟩
  next h s a _ :=
    match a with
    | .writer task => h.write s task
    | .irq txe => h.send (s.usart1IrqHandler txe).2
    | _ => h

theorem outputLog_irq (h : OutputLog) (s s' : Console) (txe : Bool) :
    outputLog.next h s (.irq txe) s' = h.send (s.usart1IrqHandler txe).2 := rfl

/-- The value `USART_SendData` gets for a character. -/
def sentValue (e : Nat × UInt8) : Int := e.2.toNat

/-- Each character whose call has returned was passed to `USART_SendData` once, in the order of the
calls of its task, and nothing else was but the first value of `Tx`. -/
structure OutputKept (h : OutputLog) : Prop where
  kept : h.box.Kept
  passed : h.passed = [] ∧ h.box.taken = [] ∨ h.passed = 1 :: h.box.taken.map sentValue

/-- A step that stores a character over another one. -/
def Console.overwrites (s : Console) : ConsoleAct → Bool
  | .writer task =>
      match s.put task with
      | .store _ => decide (0 ≤ s.tx)
      | _ => false
  | _ => false

/-! ## The invariant -/

/-- The character a call has stored. -/
def PutPc.stored : PutPc → Option UInt8
  | .readCr1 c | .writeCr1 c _ | .waitAfter c => some c
  | _ => none

/-- The task has not passed the loop before the store. -/
def PutPc.early : PutPc → Bool
  | .idle | .waitBefore _ => true
  | _ => false

theorem PutPc.stored_of_early {pc : PutPc} (early : pc.early = true) : pc.stored = none := by
  cases pc <;> first | rfl | cases early

/-- A task that goes on leaves what the others have stored, and may keep its own. -/
theorem Console.stored_setPut {s : Console} {task u : Nat} {pc : PutPc}
    (same : task = u → pc.stored = (s.put task).stored) :
    ((s.setPut task pc).put u).stored = (s.put u).stored := by
  by_cases own : u = task
  · subst own
    exact (congrArg PutPc.stored (Function.update_self ..)).trans (same rfl)
  · exact congrArg PutPc.stored (Function.update_of_ne own ..)

/-- Before the first value of `Tx` has been sent, and after. -/
inductive Phase (s : Console) (h : OutputLog) : Prop
  | first : s.tx = 1 → h.passed = [] → h.box.taken = [] → (∀ t, (s.put t).early = true) → Phase s h
  | later : (h.box.slot = none → s.tx < 0) → h.passed = 1 :: h.box.taken.map sentValue → Phase s h

/-- The mailbox is sound and stands for `Tx` and the calls in progress. -/
structure OutputInv (s : Console) (h : OutputLog) : Prop where
  sound : h.box.Sound
  current : ∀ t, h.box.current t = (s.put t).stored
  slot : ∀ t c, h.box.slot = some (t, c) → s.tx = c.toNat
  phase : Phase s h

theorem OutputInv.init : OutputInv Console.init ⟨Box.empty, []⟩ where
  sound := Box.empty_sound
  current := fun _ => rfl
  slot := fun t c same => by cases same
  phase := .first rfl rfl rfl fun _ => rfl

theorem OutputInv.kept {s : Console} {h : OutputLog} (inv : OutputInv s h) : OutputKept h where
  kept := inv.sound.kept
  passed := by
    cases inv.phase with
    | first _ passed taken _ => exact .inl ⟨passed, taken⟩
    | later _ passed => exact .inr passed

/-- A step that leaves `Tx`, the history and the calls in progress alone. -/
theorem OutputInv.move {s s' : Console} {h : OutputLog} (inv : OutputInv s h) (tx : s'.tx = s.tx)
    (stored : ∀ t, (s'.put t).stored = (s.put t).stored)
    (early : s.tx = 1 → (∀ t, (s.put t).early = true) → ∀ t, (s'.put t).early = true) :
    OutputInv s' h where
  sound := inv.sound
  current := fun t => (inv.current t).trans (stored t).symm
  slot := fun t c same => tx.trans (inv.slot t c same)
  phase := by
    cases inv.phase with
    | first one passed taken all => exact .first (tx.trans one) passed taken (early one all)
    | later empty passed => exact .later (fun none_ => tx ▸ empty none_) passed

/-- A step that touches neither `Tx` nor the writing tasks. -/
theorem OutputInv.frame {s s' : Console} {h : OutputLog} (inv : OutputInv s h)
    (same : s'.tx = s.tx ∧ s'.put = s.put) : OutputInv s' h :=
  inv.move same.1 (fun t => by rw [same.2]) fun _ all t => by rw [same.2]; exact all t

/-- A task goes on to a place where it has stored what it had. -/
theorem OutputInv.goOn {s : Console} {h : OutputLog} (inv : OutputInv s h) {task : Nat}
    {pc : PutPc} (stored : pc.stored = (s.put task).stored)
    (early : s.tx = 1 → (s.put task).early = true → pc.early = true) (cr1 : Cr1) :
    OutputInv ({ s with cr1 := cr1 }.setPut task pc) h := by
  refine inv.move rfl (fun t => Console.stored_setPut (s := { s with cr1 := cr1 }) fun _ => stored)
    fun one all t => ?_
  by_cases own : t = task
  · subst own
    exact (congrArg PutPc.early (Function.update_self ..)).trans (early one (all t))
  · exact (congrArg PutPc.early (Function.update_of_ne own ..)).trans (all t)

/-- What is in the slot is not negative. -/
theorem OutputInv.slot_none {s : Console} {h : OutputLog} (inv : OutputInv s h)
    (negative : s.tx < 0) : h.box.slot = none := by
  cases slot : h.box.slot with
  | none => rfl
  | some e =>
      have value := inv.slot e.1 e.2 slot
      omega

/-- The handler sends. -/
theorem OutputInv.send {s s' : Console} {h : OutputLog} (inv : OutputInv s h)
    (full : 0 ≤ s.tx) (tx : s'.tx = -1) (put : s'.put = s.put) :
    OutputInv s' (h.send (some s.tx)) where
  sound := inv.sound.take
  current := fun t => by rw [put]; exact inv.current t
  slot := fun t c same => by cases same
  phase := by
    refine .later (fun _ => by rw [tx]; decide) ?_
    cases inv.phase with
    | first one passed taken all =>
        have empty : h.box.slot = none := by
          cases slot : h.box.slot with
          | none => rfl
          | some e =>
              have current := inv.sound.current_of_slot (k := e.1) (x := e.2) slot
              rw [inv.current, PutPc.stored_of_early (all e.1)] at current
              cases current
        simp only [OutputLog.send, Box.take, empty, passed, taken, one]
        rfl
    | later empty passed =>
        cases slot : h.box.slot with
        | none =>
            have negative := empty slot
            omega
        | some e =>
            have value := inv.slot e.1 e.2 slot
            simp only [OutputLog.send, Box.take, slot, passed]
            rw [List.map_append, value]
            rfl

/-- A task goes to a place, and its call in progress with it. -/
theorem stored_update {current : Nat → Option UInt8} {put : Nat → PutPc}
    (agree : ∀ t, current t = (put t).stored) (task : Nat) (pc : PutPc) (t : Nat) :
    Function.update current task pc.stored t = (Function.update put task pc t).stored := by
  by_cases own : t = task
  · rw [own, Function.update_self, Function.update_self]
  · rw [Function.update_of_ne own, Function.update_of_ne own, agree t]

/-- A task stores its character in the empty mailbox. -/
theorem OutputInv.store {s : Console} {h : OutputLog} (inv : OutputInv s h) {task : Nat}
    {c : UInt8} (place : s.put task = .store c) (free : s.tx < 0) :
    OutputInv ({ s with tx := c.toNat }.setPut task (.readCr1 c))
      { h with box := h.box.store task c } where
  sound := inv.sound.store (inv.slot_none free) (by rw [inv.current, place]; rfl) c
  current := stored_update inv.current task (.readCr1 c)
  slot := fun t d same => by cases same; rfl
  phase := by
    cases inv.phase with
    | first one _ _ _ => omega
    | later _ passed => exact .later (fun none_ => by cases none_) passed

/-- A call finds its character gone and returns. -/
theorem OutputInv.finish {s : Console} {h : OutputLog} (inv : OutputInv s h) {task : Nat}
    (free : s.tx < 0) :
    OutputInv (s.setPut task .idle) { h with box := h.box.finish task } where
  sound := inv.sound.finish fun x same => by
    rw [inv.slot_none free] at same
    cases same
  current := stored_update inv.current task .idle
  slot := inv.slot
  phase := by
    cases inv.phase with
    | first one _ _ _ => omega
    | later empty passed => exact .later empty passed

/-- A step of a task that stores over nothing. -/
theorem OutputInv.write {s s' : Console} {h : OutputLog} (inv : OutputInv s h) {task : Nat}
    (free : s.overwrites (.writer task) = false) (taken : s.serPutChar task = some s') :
    OutputInv s' (h.write s task) := by
  cases Console.putMove_of_step taken with
  | spinBefore place _ =>
      simp only [OutputLog.write, place]
      exact inv
  | leaveBefore place passed =>
      simp only [OutputLog.write, place]
      exact inv.goOn (by rw [place]; rfl) (fun one _ => absurd one (by omega)) s.cr1
  | store place =>
      simp only [Console.overwrites, place, decide_eq_false_iff_not, Int.not_le] at free
      simp only [OutputLog.write, place]
      exact inv.store place free
  | readCr1 place | writeCr1 place =>
      simp only [OutputLog.write, place]
      exact inv.goOn (by rw [place]; rfl) (fun _ early => by rw [place] at early; cases early) _
  | spinAfter place full =>
      simp only [OutputLog.write, place, ge_iff_le, if_pos full]
      exact inv
  | leaveAfter place gone =>
      simp only [OutputLog.write, place, ge_iff_le, if_neg (Int.not_le.mpr gone)]
      exact inv.finish gone

/-- A run of the handler. -/
theorem OutputInv.irq {s : Console} {h : OutputLog} (inv : OutputInv s h) (txe : Bool) :
    OutputInv (s.usart1IrqHandler txe).1 (h.send (s.usart1IrqHandler txe).2) := by
  have received := inv.frame s.receivePart_output
  unfold Console.usart1IrqHandler Console.transmitPart
  split
  · split
    · next full => exact received.send full rfl rfl
    · exact received
  · exact received

theorem outputInv_of_reach {x : Console × OutputLog}
    (reached : (consoleLts.watch outputLog).ReachWhile
      (fun x a => x.1.overwrites a = false) x) : OutputInv x.1 x.2 := by
  apply Lts.ReachWhile.invariant_watched (P := OutputInv) ?_ ?_ reached
  · intro s start
    cases start
    exact .init
  · intro s h a s' _ inv free taken
    cases Console.move_of_step taken with
    | arrive | getChar | checkChar => exact inv.frame ⟨rfl, rfl⟩
    | irq txe => exact inv.irq txe
    | putChar task c idle => exact inv.goOn (by rw [idle]; rfl) (fun _ _ => rfl) s.cr1
    | writer task _ moved => exact inv.write free moved
    | reader _ moved => exact inv.frame (Console.serGetChar_output moved)

/-! ## Overwritten characters -/

/-- A call in progress whose character is neither in `Tx` nor sent. -/
structure Overwritten (s : Console) (h : OutputLog) (task : Nat) (c : UInt8) : Prop where
  lost : Lost h.box task c
  stored : (s.put task).stored = some c

/-- A character that is stored over another one makes it lost. -/
theorem OutputInv.overwrite {s s' : Console} {h : OutputLog} (inv : OutputInv s h) {task : Nat}
    (full : s.overwrites (.writer task) = true) (taken : s.serPutChar task = some s') :
    ∃ u d, Overwritten s' (h.write s task) u d := by
  cases Console.putMove_of_step taken with
  | @store c place =>
      simp only [OutputLog.write, place]
      cases inv.phase with
      | first _ _ _ early =>
          have own := early task
          rw [place] at own
          cases own
      | later empty _ =>
          simp only [Console.overwrites, place, decide_eq_true_eq] at full
          cases slot : h.box.slot with
          | none =>
              have negative := empty slot
              omega
          | some e =>
              have current := inv.sound.current_of_slot (k := e.1) (x := e.2) slot
              have other : task ≠ e.1 := by
                intro own
                rw [inv.current, ← own, place] at current
                cases current
              refine ⟨e.1, e.2, inv.sound.lost slot other c, ?_⟩
              rw [← current, inv.current]
              exact congrArg PutPc.stored (Function.update_of_ne other.symm ..)
  | spinBefore place | leaveBefore place | readCr1 place | writeCr1 place | spinAfter place
  | leaveAfter place =>
      simp only [Console.overwrites, place] at full
      cases full

/-- It stays lost, and the return of its call breaks the property. -/
theorem Overwritten.write {s s' : Console} {h : OutputLog} {u : Nat} {d : UInt8}
    (overwritten : Overwritten s h u d) {task : Nat} (taken : s.serPutChar task = some s')
    (kept : OutputKept (h.write s task)) : Overwritten s' (h.write s task) u d := by
  obtain ⟨lost, stored⟩ := overwritten
  have other : (s.put task).stored = none → task ≠ u := by
    intro early own
    rw [own, stored] at early
    cases early
  cases Console.putMove_of_step taken with
  | spinBefore place _ =>
      simp only [OutputLog.write, place]
      exact ⟨lost, stored⟩
  | store place =>
      simp only [OutputLog.write, place]
      have apart := other (by rw [place]; rfl)
      exact ⟨lost.store apart _, (Console.stored_setPut fun own => absurd own apart).trans stored⟩
  | leaveBefore place | readCr1 place | writeCr1 place =>
      simp only [OutputLog.write, place]
      exact ⟨lost, (Console.stored_setPut fun _ => by rw [place]; rfl).trans stored⟩
  | spinAfter place full =>
      simp only [OutputLog.write, place, ge_iff_le, if_pos full]
      exact ⟨lost, stored⟩
  | leaveAfter place gone =>
      simp only [OutputLog.write, place, ge_iff_le, if_neg (Int.not_le.mpr gone)] at kept ⊢
      have apart : task ≠ u := by
        intro own
        rw [own] at kept
        exact lost.finish kept.kept
      exact ⟨lost.finish_other apart,
        (Console.stored_setPut fun own => absurd own apart).trans stored⟩

theorem Overwritten.step {x x' : Console × OutputLog} {u : Nat} {d : UInt8} {a : ConsoleAct}
    (overwritten : Overwritten x.1 x.2 u d)
    (taken : (consoleLts.watch outputLog).step x a = some x') (kept : OutputKept x'.2) :
    Overwritten x'.1 x'.2 u d := by
  rcases x with ⟨s, h⟩
  rcases x' with ⟨s', h'⟩
  obtain ⟨moved, update⟩ := Lts.watch_step_iff.mp taken
  simp only at moved update overwritten kept ⊢
  subst update
  obtain ⟨lost, stored⟩ := overwritten
  cases Console.move_of_step moved with
  | arrive | getChar | checkChar => exact ⟨lost, stored⟩
  | irq txe =>
      have received := s.receivePart_output.2
      rw [outputLog_irq]
      unfold Console.usart1IrqHandler Console.transmitPart
      split
      · split
        · exact ⟨lost.take, by rw [received]; exact stored⟩
        · exact ⟨lost, by rw [received]; exact stored⟩
      · exact ⟨lost, by rw [received]; exact stored⟩
  | putChar task c idle =>
      exact ⟨lost, (Console.stored_setPut fun _ => by rw [idle]; rfl).trans stored⟩
  | writer task _ went => exact Overwritten.write ⟨lost, stored⟩ went kept
  | reader _ went => exact ⟨lost, by rw [(Console.serGetChar_output went).2]; exact stored⟩

/-- As long as the property holds, the call of an overwritten character has not returned. -/
theorem Overwritten.exec {u : Nat} {d : UInt8} {labels : List ConsoleAct}
    {x y : Console × OutputLog} (overwritten : Overwritten x.1 x.2 u d)
    (executed : (consoleLts.watch outputLog).exec x labels = some y)
    (kept : (consoleLts.watch outputLog).EveryStep (fun _ _ z => OutputKept z.2) x labels) :
    Overwritten y.1 y.2 u d := by
  apply kept.exec_invariant (Q := fun z => Overwritten z.1 z.2 u d) ?_ overwritten executed
  exact fun _ _ _ before taken here => before.step taken here

/-- **Console output.**  As long as no call stores its character over another one, each character
whose call has returned was sent once, in the order of the calls of its task.  A character that is
stored over another one makes it lost: the property holds from then on only while the call of the
lost one has not returned. -/
theorem output_kept {x : Console × OutputLog}
    (reached : (consoleLts.watch outputLog).ReachWhile
      (fun x a => x.1.overwrites a = false) x) :
    OutputKept x.2 ∧
      ∀ task x', x.1.overwrites (.writer task) = true →
        (consoleLts.watch outputLog).step x (.writer task) = some x' →
        ∃ u d, Overwritten x'.1 x'.2 u d ∧
          ∀ labels y, (consoleLts.watch outputLog).exec x' labels = some y →
            (consoleLts.watch outputLog).EveryStep (fun _ _ z => OutputKept z.2) x' labels →
            Overwritten y.1 y.2 u d := by
  have inv := outputInv_of_reach reached
  refine ⟨inv.kept, fun task x' full taken => ?_⟩
  obtain ⟨moved, update⟩ := Lts.watch_step_iff.mp taken
  obtain ⟨u, d, overwritten⟩ := inv.overwrite full moved
  have now : Overwritten x'.1 x'.2 u d := by
    rw [update]
    exact overwritten
  exact ⟨u, d, now, fun labels y executed kept => now.exec executed kept⟩

/-! ## Two runs -/

/-- A task that stores its character: the accesses of its call up to the second loop. -/
def putSteps (task : Nat) : List ConsoleAct :=
  [.writer task, .writer task, .writer task, .writer task]

/-- Two tasks take turns; the second waits until the first one's character is taken. -/
theorem output_kept_two_tasks :
    ∃ x, (consoleLts.watch outputLog).ReachWhile (fun x a => x.1.overwrites a = false) x ∧
      OutputKept x.2 ∧ x.2.passed = [1, 65, 66, 67] := by
  have evaluated := Lts.exists_reachWhile_of_exec (L := consoleLts.watch outputLog)
    (fun x a => x.1.overwrites a = false) (s := (Console.init, outputLog.init Console.init))
    ⟨rfl, rfl⟩ ([.irq true, .putChar 0 65] ++ putSteps 0 ++ [.putChar 1 66, .writer 1, .writer 1] ++
      [.irq true, .writer 0] ++ putSteps 1 ++ [.irq true, .writer 1, .putChar 0 67] ++ putSteps 0 ++
      [.irq true, .writer 0])
    (P := fun x => x.2.passed == [1, 65, 66, 67]) (by decide)
  obtain ⟨x, reached, passed⟩ := evaluated
  exact ⟨x, reached, (output_kept reached).1, beq_iff_eq.mp passed⟩

/-- Two tasks find `Tx` empty before either has stored: the first character is never sent. -/
theorem output_lost :
    ¬ ∀ x, (consoleLts.watch outputLog).Reach x → OutputKept x.2 := by
  intro claim
  have evaluated := Lts.exists_reach_of_exec (L := consoleLts.watch outputLog)
    (s := (Console.init, outputLog.init Console.init)) ⟨rfl, rfl⟩
    ([.irq true, .putChar 0 65, .putChar 1 66, .writer 0, .writer 1, .writer 0, .writer 1,
      .writer 0, .writer 0, .writer 1, .writer 1, .irq true, .writer 0])
    (P := fun x => decide (itemsOf 0 x.2.box.taken = [] ∧ itemsOf 0 x.2.box.finished = [65] ∧
      x.2.box.current 0 = none)) (by decide)
  obtain ⟨x, reached, holds⟩ := evaluated
  obtain ⟨taken, finished, current⟩ := of_decide_eq_true holds
  rcases (claim x reached).kept 0 with same | more
  · rw [taken, finished] at same
    cases same
  · obtain ⟨c, stored, -⟩ := more
    rw [current] at stored
    cases stored

end FepMaster

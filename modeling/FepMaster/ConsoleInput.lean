import FepMaster.Console

/-!
# Console input

`SER_GetChar` waits until `Rx` holds a byte, drops it, and returns the one that comes next; it
leaves that one in `Rx`, where the next call drops it.  So the results are the received bytes
without the first (`InputStage`), and they are the received bytes themselves exactly as long as all
of them are equal.

`SER_CheckChar` enables the receive interrupt whatever `Rx` holds.  The handler reads a byte, and
disables the interrupt, only if `Rx` is empty; if it is not, it returns with the interrupt still
pending.  `input_delivered_iff` says of every run that its steps are right exactly as long as
neither happens; without `SER_CheckChar` and `SER_PutChar` the second never does
(`rx_empty_of_getChar`).
-/

namespace FepMaster

open Transition

/-! ## The history -/

/-- The bytes that have reached the data register, those the handler has read, and what
`SER_GetChar` has returned. -/
structure InputLog where
  received : List UInt8
  taken : List UInt8
  results : List Int

/-- The byte a run of the handler reads. -/
def Console.reads (s : Console) : Option UInt8 :=
  if s.receiveInterrupt = true ∧ s.rx < 0 then s.dr else none

/-- The history of the input. -/
def inputLog : Monitor Console ConsoleAct InputLog where
  init _ := ⟨[], [], []⟩
  next h s a _ :=
    match a with
    | .arrive b => { h with received := h.received ++ [b] }
    | .irq _ => { h with taken := h.taken ++ s.reads.toList }
    | .reader => { h with results := h.results ++ s.returned.toList }
    | _ => h

theorem inputLog_reader (h : InputLog) (s s' : Console) :
    inputLog.next h s .reader s' = { h with results := h.results ++ s.returned.toList } := rfl

/-- Bytes as the values of `Rx`. -/
def rxValues (bytes : List UInt8) : List Int := bytes.map fun b => (b.toNat : Int)

/-- What a step should do: leave the results the first bytes received; and a run of the handler
with a receive interrupt, end it. -/
structure InputSound (a : ConsoleAct) (x x' : Console × InputLog) : Prop where
  delivered : x'.2.results <+: rxValues x'.2.received
  ended : ∀ txe, a = .irq txe → x.1.receiveInterrupt = true → x'.1.receiveInterrupt = false

/-- If a call in its second loop finds a byte, then one equal to the byte received before it; if
the handler runs with a receive interrupt, then with `Rx` empty. -/
def InputAllowed (x : Console × InputLog) : ConsoleAct → Prop
  | .reader => x.1.get = .waitAfter → 0 ≤ x.1.rx →
      x.2.received[x.2.results.length]? = x.2.received[x.2.results.length + 1]?
  | .irq _ => x.1.receiveInterrupt = true → x.1.rx < 0
  | _ => True

/-! ## The invariant -/

/-- Between `Rx = -1` and the return of `SER_GetChar`. -/
def GetPc.armed : GetPc → Bool
  | .readCr1 | .writeCr1 _ | .waitAfter => true
  | _ => false

/-- Nothing has been read; or the last byte read has been returned, or is the first, and is left in
`Rx`; or a call waits for a byte; or it has one. -/
inductive InputStage (get : GetPc) (rx : Int) (taken : List UInt8) (results : List Int) : Prop
  | empty : get.armed = false → get ≠ .clear → rx < 0 → taken = [] → results = [] →
      InputStage get rx taken results
  | left (front : List UInt8) (b : UInt8) : get.armed = false → rx = b.toNat →
      taken = front ++ [b] → results = rxValues taken.tail → InputStage get rx taken results
  | waiting : get.armed = true → rx < 0 → taken ≠ [] → results = rxValues taken.tail →
      InputStage get rx taken results
  | got (front : List UInt8) (b : UInt8) : get.armed = true → rx = b.toNat → front ≠ [] →
      taken = front ++ [b] → results = rxValues front.tail → InputStage get rx taken results

/-- The bytes received are those read and the one in the data register. -/
structure InputInv (s : Console) (h : InputLog) : Prop where
  received : h.received = h.taken ++ s.dr.toList
  stage : InputStage s.get s.rx h.taken h.results

/-- The reading task goes on within, or outside, the waiting part of `SER_GetChar`. -/
theorem InputStage.goOn {get get' : GetPc} {rx : Int} {taken : List UInt8} {results : List Int}
    (stage : InputStage get rx taken results) (armed : get'.armed = get.armed)
    (clear : get' = .clear → 0 ≤ rx) : InputStage get' rx taken results := by
  cases stage with
  | empty early _ negative taken results =>
      refine .empty (armed.trans early) (fun at_ => ?_) negative taken results
      have full := clear at_
      omega
  | left front b early held taken results =>
      exact .left front b (armed.trans early) held taken results
  | waiting late negative taken results => exact .waiting (armed.trans late) negative taken results
  | got front b late held some_ taken results =>
      exact .got front b (armed.trans late) held some_ taken results

/-- A byte is read into the empty `Rx`. -/
theorem InputStage.read {get : GetPc} {rx : Int} {taken : List UInt8} {results : List Int}
    (stage : InputStage get rx taken results) (free : rx < 0) (b : UInt8) :
    InputStage get b.toNat (taken ++ [b]) results := by
  cases stage with
  | empty early _ _ none_ results =>
      refine .left [] b early rfl (by rw [none_]) ?_
      rw [none_, results]
      rfl
  | left front b _ held _ _ => omega
  | waiting late _ some_ results => exact .got taken b late rfl some_ rfl results
  | got front b _ held _ _ _ => omega

/-- A step of another part. -/
theorem InputInv.frame {s s' : Console} {h : InputLog} (inv : InputInv s h)
    (same : s'.rx = s.rx ∧ s'.dr = s.dr ∧ s'.get = s.get) : InputInv s' h where
  received := by rw [same.2.1]; exact inv.received
  stage := by rw [same.1, same.2.2]; exact inv.stage

theorem InputInv.arrive {s : Console} {h : InputLog} (inv : InputInv s h) (free : s.dr = none)
    (b : UInt8) : InputInv { s with dr := some b } { h with received := h.received ++ [b] } where
  received := by
    have received := inv.received
    rw [free, Option.toList_none, List.append_nil] at received
    exact congrArg (· ++ [b]) received
  stage := inv.stage

/-- The handler reads a byte if `Rx` is empty. -/
theorem InputInv.irq {s : Console} {h : InputLog} (inv : InputInv s h) :
    InputInv s.receivePart { h with taken := h.taken ++ s.reads.toList } := by
  unfold Console.receivePart
  by_cases reads : s.receiveInterrupt = true ∧ s.rx < 0
  · obtain ⟨interrupt, free⟩ := reads
    obtain ⟨b, data⟩ := Option.isSome_iff_exists.mp (Bool.and_eq_true_iff.mp interrupt).1
    have byte : s.reads = some b := (if_pos ⟨interrupt, free⟩).trans data
    have value : s.usartReceiveData = b.toNat := by
      unfold Console.usartReceiveData
      rw [data]
      rfl
    rw [if_pos interrupt, if_pos free, byte, value]
    refine ⟨?_, inv.stage.read free b⟩
    rw [inv.received, data]
    exact (List.append_nil _).symm
  · have nothing : s.reads = none := if_neg reads
    have same : s.receivePart = s := by
      unfold Console.receivePart
      split
      · next interrupt =>
          split
          · next free => exact absurd ⟨interrupt, free⟩ reads
          · rfl
      · rfl
    unfold Console.receivePart at same
    rw [same, nothing, Option.toList_none, List.append_nil]
    exact inv

/-- The byte left in `Rx` is dropped. -/
theorem InputStage.clear {rx : Int} {taken : List UInt8} {results : List Int}
    (stage : InputStage .clear rx taken results) : InputStage .readCr1 (-1) taken results := by
  cases stage with
  | empty _ notClear _ _ _ => exact absurd rfl notClear
  | left front b _ _ taken results =>
      refine .waiting rfl (by decide) ?_ results
      rw [taken]
      exact List.append_ne_nil_of_right_ne_nil _ (List.cons_ne_nil _ _)
  | waiting late _ _ _ => cases late
  | got _ _ late _ _ _ _ => cases late

/-- The next one is returned, and left in `Rx`. -/
theorem InputStage.return {rx : Int} {taken : List UInt8} {results : List Int}
    (stage : InputStage .waitAfter rx taken results) (full : 0 ≤ rx) :
    InputStage .idle rx taken (results ++ [rx]) := by
  cases stage with
  | empty early _ _ _ _ => cases early
  | left _ _ early _ _ _ => cases early
  | waiting _ negative _ _ => omega
  | got front b _ held some_ taken results =>
      refine .left front b rfl held taken ?_
      unfold rxValues at results ⊢
      rw [taken, results, held, List.tail_append_of_ne_nil some_, List.map_append]
      rfl

/-- A step of the reading task. -/
theorem InputInv.reader {s s' : Console} {h : InputLog} (inv : InputInv s h)
    (taken : s.serGetChar = some s') :
    InputInv s' { h with results := h.results ++ s.returned.toList } := by
  obtain ⟨received, stage⟩ := inv
  by_cases returns : s.get = .waitAfter ∧ 0 ≤ s.rx
  · obtain ⟨place, full⟩ := returns
    have result : s.returned = some s.rx := if_pos ⟨place, full⟩
    rw [result]
    rw [place] at stage
    cases Console.getMove_of_step taken with
    | leaveAfter => exact ⟨received, stage.return full⟩
    | spinAfter _ free => omega
    | _ other =>
        rw [place] at other
        cases other
  · have nothing : s.returned = none := if_neg returns
    rw [nothing, Option.toList_none, List.append_nil]
    cases Console.getMove_of_step taken with
    | spinBefore | spinAfter => exact ⟨received, stage⟩
    | leaveBefore place full =>
        exact ⟨received, stage.goOn (by rw [place]; rfl) fun _ => full⟩
    | clear place =>
        rw [place] at stage
        exact ⟨received, stage.clear⟩
    | leaveAfter place full => exact absurd ⟨place, full⟩ returns
    | _ place =>
        exact ⟨received, stage.goOn (by rw [place]; rfl) fun at_ => by cases at_⟩

theorem inputInv_of_reach {x : Console × InputLog}
    (reached : (consoleLts.watch inputLog).Reach x) : InputInv x.1 x.2 := by
  apply Lts.ReachWhile.invariant_watched (P := InputInv) ?_ ?_ reached
  · intro s start
    cases start
    exact ⟨rfl, .empty rfl (by decide) (by decide) rfl rfl⟩
  · intro s h a s' _ inv _ taken
    cases Console.move_of_step taken with
    | arrive b free => exact inv.arrive free b
    | irq txe =>
        obtain ⟨rx, dr, get, -⟩ := s.receivePart.transmitPart_input txe
        exact inv.irq.frame ⟨rx, dr, get⟩
    | putChar => exact inv.frame ⟨rfl, rfl, rfl⟩
    | writer task _ moved => exact inv.frame (Console.serPutChar_input moved)
    | getChar idle | checkChar idle =>
        exact ⟨inv.received, inv.stage.goOn (by rw [idle]; rfl) fun at_ => by cases at_⟩
    | reader _ moved => exact inv.reader moved

/-! ## Steps -/

/-- A run of the handler with a receive interrupt ends it exactly if `Rx` is empty. -/
theorem Console.irq_ends_iff {s : Console} (interrupt : s.receiveInterrupt = true) (txe : Bool) :
    (s.usart1IrqHandler txe).1.receiveInterrupt = false ↔ s.rx < 0 := by
  obtain ⟨-, dr, -, rxneie⟩ := s.receivePart.transmitPart_input txe
  have same : (s.usart1IrqHandler txe).1.receiveInterrupt = s.receivePart.receiveInterrupt := by
    unfold usart1IrqHandler receiveInterrupt
    rw [dr, rxneie]
  rw [same]
  unfold receivePart
  rw [if_pos interrupt]
  split
  · next free => exact iff_of_true rfl free
  · next full => exact iff_of_false (by rw [interrupt]; decide) full

/-- One more result is a first part of the bytes received if it is the byte next to the results
before it. -/
theorem prefix_snoc_iff {l m : List Int} (before : l <+: m) (v : Int) :
    l ++ [v] <+: m ↔ m[l.length]? = some v := by
  obtain ⟨rest, rfl⟩ := before
  rw [List.prefix_append_right_inj, List.getElem?_append_right (Nat.le_refl _), Nat.sub_self]
  cases rest with
  | nil => simp
  | cons w rest => simp [List.cons_prefix_cons, eq_comm]

/-- What a call returns is the byte next to the one its place among the results stands for. -/
theorem InputInv.returned_next {s : Console} {h : InputLog} (inv : InputInv s h) {v : Int}
    (returned : s.returned = some v) :
    ∃ b : UInt8, v = b.toNat ∧ h.received[h.results.length + 1]? = some b := by
  obtain ⟨⟨place, full⟩, same⟩ := Option.ite_none_right_eq_some.mp returned
  cases same
  have stage := inv.stage
  rw [place] at stage
  cases stage with
  | empty early _ _ _ _ => cases early
  | left _ _ early _ _ _ => cases early
  | waiting _ negative _ _ => omega
  | got front b _ held some_ taken results =>
      have number : h.results.length + 1 = front.length := by
        have positive := List.length_pos_iff.mpr some_
        rw [results, rxValues, List.length_map, List.length_tail]
        omega
      refine ⟨b, held, ?_⟩
      rw [inv.received, taken, number, List.append_assoc,
        List.getElem?_append_right (Nat.le_refl _), Nat.sub_self]
      rfl

/-- It is the byte its place stands for exactly if the two are equal. -/
theorem InputInv.delivered_iff {s : Console} {h : InputLog} (inv : InputInv s h)
    (before : h.results <+: rxValues h.received) {v : Int} (returned : s.returned = some v) :
    h.results ++ [v] <+: rxValues h.received ↔
      h.received[h.results.length]? = h.received[h.results.length + 1]? := by
  obtain ⟨b, value, next⟩ := inv.returned_next returned
  rw [prefix_snoc_iff before, next, rxValues, List.getElem?_map, value]
  constructor
  · intro same
    obtain ⟨c, here, equal⟩ := Option.map_eq_some_iff.mp same
    rw [here, UInt8.toNat_inj.mp (Int.ofNat.inj equal)]
  · intro same
    rw [same]
    rfl

/-- A step after which the results were right so far is right exactly if it is allowed. -/
theorem inputSound_iff {x x' : Console × InputLog} {a : ConsoleAct}
    (reached : (consoleLts.watch inputLog).Reach x) (before : x.2.results <+: rxValues x.2.received)
    (taken : (consoleLts.watch inputLog).step x a = some x') :
    InputSound a x x' ↔ InputAllowed x a := by
  have inv := inputInv_of_reach reached
  rcases x with ⟨s, h⟩
  rcases x' with ⟨s', h'⟩
  obtain ⟨moved, update⟩ := Lts.watch_step_iff.mp taken
  simp only at moved update before inv
  subst update
  cases Console.move_of_step moved with
  | arrive b _ =>
      refine iff_of_true ⟨?_, fun txe same => by cases same⟩ trivial
      have longer : rxValues h.received <+: rxValues (h.received ++ [b]) := by
        unfold rxValues
        rw [List.map_append]
        exact List.prefix_append ..
      exact before.trans longer
  | irq txe _ =>
      constructor
      · intro sound interrupt
        exact (Console.irq_ends_iff interrupt txe).mp (sound.ended txe rfl interrupt)
      · intro allowed
        refine ⟨before, fun _ same interrupt => ?_⟩
        cases same
        exact (Console.irq_ends_iff interrupt txe).mpr (allowed interrupt)
  | reader _ _ =>
      rw [inputLog_reader]
      cases returned : s.returned with
      | none =>
          refine iff_of_true ⟨?_, fun txe same => by cases same⟩ fun place full => ?_
          · rw [Option.toList_none, List.append_nil]
            exact before
          · rw [Console.returned, if_pos ⟨place, full⟩] at returned
            cases returned
      | some v =>
          have delivered := inv.delivered_iff before returned
          obtain ⟨⟨place, full⟩, -⟩ := Option.ite_none_right_eq_some.mp returned
          constructor
          · intro sound _ _
            exact delivered.mp sound.delivered
          · intro allowed
            have equal := allowed place full
            exact ⟨delivered.mpr equal, fun txe same => by cases same⟩
  | _ => exact iff_of_true ⟨before, fun txe same => by cases same⟩ trivial

/-- **Console input.**  In a run from the start, the results of `SER_GetChar` are the first bytes
received and no run of the handler leaves a receive interrupt pending, exactly as long as every
call returns a byte equal to the one received before it and the handler never runs with a receive
interrupt while `Rx` holds a byte. -/
theorem input_delivered_iff (labels : List ConsoleAct) :
    (consoleLts.watch inputLog).EveryStep (fun x a x' => InputSound a x x')
        (Console.init, inputLog.init Console.init) labels ↔
      (consoleLts.watch inputLog).EveryStep (fun x a _ => InputAllowed x a)
        (Console.init, inputLog.init Console.init) labels := by
  have start : (consoleLts.watch inputLog).Reach (Console.init, inputLog.init Console.init) :=
    .init ⟨rfl, rfl⟩
  refine Lts.everyStep_iff (G := fun x => x.2.results <+: rxValues x.2.received) ?_ ?_ start
    List.nil_prefix labels
  · exact fun _ _ _ sound => sound.delivered
  · exact fun _ _ _ reached before taken => inputSound_iff reached before taken

/-- Two bytes and one call: the second is returned. -/
theorem input_notDelivered :
    ¬ ∀ labels, (consoleLts.watch inputLog).EveryStep (fun x a x' => InputSound a x x')
      (Console.init, inputLog.init Console.init) labels := by
  intro claim
  have every := claim ([.arrive 65, .irq false, .getChar, .reader, .reader, .reader, .reader,
    .arrive 66, .irq false] ++ [.reader])
  have sound := every.last rfl rfl
  exact absurd sound.delivered (by decide)

/-! ## Without `SER_CheckChar` and `SER_PutChar` -/

/-- A step of `SER_GetChar`, the handler or the line. -/
def GetCharOnly (_ : Console) : ConsoleAct → Prop
  | .arrive _ | .irq _ | .getChar | .reader => True
  | _ => False

/-- Before the interrupt is enabled again. -/
def GetPc.enabling : GetPc → Bool
  | .readCr1 | .writeCr1 _ => true
  | _ => false

/-- In `SER_CheckChar`. -/
def GetPc.checking : GetPc → Bool
  | .checkReadEnable | .checkWriteEnable _ | .checkFlag | .checkReadDisable _
  | .checkWriteDisable _ _ => true
  | _ => false

/-- The interrupt is enabled only while `Rx` is empty. -/
structure GetCharInv (s : Console) : Prop where
  enabled : s.cr1.rxneie = true → s.rx < 0
  clear : s.get = .clear → 0 ≤ s.rx
  enabling : s.get.enabling = true → s.rx < 0 ∧ s.cr1.rxneie = false
  calls : s.get.checking = false

theorem GetCharInv.irq {s : Console} (inv : GetCharInv s) : GetCharInv s.receivePart := by
  unfold Console.receivePart
  split
  · next interrupt =>
      split
      · next free =>
          have on := (Bool.and_eq_true_iff.mp interrupt).2
          refine ⟨fun off => (by cases off), fun _ => Int.natCast_nonneg _, fun at_ => ?_,
            inv.calls⟩
          have off := (inv.enabling at_).2
          rw [on] at off
          cases off
      · exact inv
  · exact inv

theorem GetCharInv.reader {s s' : Console} (inv : GetCharInv s) (taken : s.serGetChar = some s') :
    GetCharInv s' := by
  have calls := inv.calls
  cases Console.getMove_of_step taken with
  | spinBefore | spinAfter => exact inv
  | leaveBefore _ full =>
      exact ⟨inv.enabled, fun _ => full, fun at_ => (by cases at_), rfl⟩
  | clear place =>
      have full := inv.clear place
      have off : s.cr1.rxneie = false := by
        by_contra on
        have free := inv.enabled (Bool.not_eq_false _ ▸ on)
        omega
      have free : (-1 : Int) < 0 := by decide
      exact ⟨fun _ => free, fun at_ => (by cases at_), fun _ => ⟨free, off⟩, rfl⟩
  | readCr1 place =>
      have enabling := inv.enabling (by rw [place]; rfl)
      exact ⟨inv.enabled, fun at_ => (by cases at_), fun _ => enabling, rfl⟩
  | writeCr1 place =>
      have free := (inv.enabling (by rw [place]; rfl)).1
      exact ⟨fun _ => free, fun at_ => (by cases at_), fun at_ => (by cases at_), rfl⟩
  | leaveAfter =>
      exact ⟨inv.enabled, fun at_ => (by cases at_), fun at_ => (by cases at_), rfl⟩
  | _ place =>
      rw [place] at calls
      cases calls

/-- The handler never runs with a receive interrupt while `Rx` holds a byte. -/
theorem rx_empty_of_getChar {s : Console} (reached : consoleLts.ReachWhile GetCharOnly s)
    (interrupt : s.receiveInterrupt = true) : s.rx < 0 := by
  have inv : GetCharInv s := by
    apply Lts.ReachWhile.invariant (P := GetCharInv) ?_ ?_ reached
    · intro s start
      cases start
      exact ⟨fun _ => by decide, fun at_ => (by cases at_), fun at_ => (by cases at_), rfl⟩
    · intro s a s' _ inv allowed taken
      cases Console.move_of_step taken with
      | arrive => exact ⟨inv.enabled, inv.clear, inv.enabling, inv.calls⟩
      | getChar => exact ⟨inv.enabled, fun at_ => (by cases at_), fun at_ => (by cases at_), rfl⟩
      | irq txe =>
          obtain ⟨rx, -, get, rxneie⟩ := s.receivePart.transmitPart_input txe
          have received := inv.irq
          unfold Console.usart1IrqHandler
          refine ⟨?_, ?_, ?_, ?_⟩
          · rw [rxneie, rx]
            exact received.enabled
          · rw [get, rx]
            exact received.clear
          · rw [get, rx, rxneie]
            exact received.enabling
          · rw [get]
            exact received.calls
      | reader _ moved => exact inv.reader moved
      | _ => exact allowed.elim
  exact inv.enabled (Bool.and_eq_true_iff.mp interrupt).2

end FepMaster

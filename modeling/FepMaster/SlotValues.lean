import FepMaster.Conservation

/-!
# Whose value a slot is given

The handler takes the id of a device from the dequeued copy of a packet, but reads the value four
times from the receive buffer, which the interrupt goes on filling.  `OwnBytes` says that the
buffer still answers for the packet at these reads; under it, every handled packet leaves its own
value in its slot (`own_value_of_ownBytes`).  So it is if at most two bytes of the next frame have
come at each of these reads (`own_value_in_time`).

`slotBefore` remembers the pair of the slot when the lock was taken, for the packets that carry no
value.
-/

namespace FepMaster

open Transition

/-! ## The property -/

/-- The pair to remember after a step: that of the packet's slot, when the lock is obtained. -/
def HandlerPc.remember (table : DevTable) (before : UInt8 × UInt8) :
    HandlerPc → HandlerPc → UInt8 × UInt8
  | .take p, .setDevType _ => (table p.slot).pair
  | _, _ => before

/-- The pair the slot of the packet held when the handler took the lock. -/
def slotBefore : Monitor Master Act (UInt8 × UInt8) where
  init _ := (0, 0)
  next before x a x' :=
    match a with
    | .handler _ => x.handler.remember x.shared.fepDevList before x'.handler
    | _ => before

/-- What a slot should hold after packet `p`. -/
def FepPacket.pairAfter (p : FepPacket) (before : UInt8 × UInt8) : UInt8 × UInt8 :=
  if p.pair = noValue then before else p.pair

/-- When the handler is through with a packet, the slot holds what it should, and never
`0xFFFF`. -/
def OwnValue (x : Master × (UInt8 × UInt8)) : Prop :=
  ∀ p, x.1.handler = .give p →
    (x.1.shared.fepDevList p.slot).pair = p.pairAfter x.2 ∧
      (x.1.shared.fepDevList p.slot).pair ≠ noValue

/-- What a read of the buffer has to find: the test decides as on the packet's own pair, and the
bytes copied into the slot are the packet's own. -/
def HandlerPc.FindsOwn (dataBuff : Vector UInt8 10) : HandlerPc → Prop
  | .testLow p high => (high, dataBuff4 dataBuff) = noValue ↔ p.pair = noValue
  | .readData p => dataBuff3 dataBuff = p.value
  | .readDataL p => dataBuff4 dataBuff = p.checksum
  | _ => True

/-- If the step is one of the handler, its read finds what it has to. -/
def OwnBytes (x : Master × (UInt8 × UInt8)) : Act → Prop
  | .handler _ => x.1.handler.FindsOwn x.1.shared.uart.dataBuff
  | _ => True

instance (dataBuff : Vector UInt8 10) : (pc : HandlerPc) → Decidable (pc.FindsOwn dataBuff)
  | .testLow _ _ => inferInstanceAs (Decidable (_ ↔ _))
  | .readData _ | .readDataL _ => inferInstanceAs (Decidable (_ = _))
  | .receive | .take _ | .setDevType _ | .setDevId _ | .testHigh _ | .setNewData _
  | .setData _ _ | .setDataL _ _ | .clearCount _ | .setStatus _ | .give _ =>
      inferInstanceAs (Decidable True)

instance (x : Master × (UInt8 × UInt8)) : (a : Act) → Decidable (OwnBytes x a)
  | .handler _ => inferInstanceAs (Decidable (HandlerPc.FindsOwn _ _))
  | .uart4 _ | .tim3 | .poller _ | .udp _ _ => inferInstanceAs (Decidable True)

/-! ## While the bus is quiet -/

/-- The interrupt that posts a packet leaves its pair in the buffer, and there it stays while at
most two bytes of the next frame follow. -/
theorem posted_pair_kept {u : Uart} {e : IrqEvent} {p : FepPacket}
    (sent : (uart4IrqHandler u e).sent = some p) {next : List UInt8} (few : next.length ≤ 2) :
    let v := irqAfter (uart4IrqHandler u e).uart (next.map dataEvent)
    (dataBuff3 v.dataBuff, dataBuff4 v.dataBuff) = p.pair := by
  have posted : (uart4IrqHandler u e).uart.rxIndex ≤ 1 ∧
      dataBuff3 (uart4IrqHandler u e).uart.dataBuff = p.value ∧
      dataBuff4 (uart4IrqHandler u e).uart.dataBuff = p.checksum := by
    rcases e with ⟨fe, rxne, b⟩
    cases fe
    · cases rxne <;> cases sent
    · cases ready : u.queueBuffer
      · cases rxne <;> simp [uart4IrqHandler, frameBranch, ready] at sent
      · cases rxne <;> simp [uart4IrqHandler, frameBranch, receiveBranch, ready] at sent ⊢ <;>
          subst sent <;> exact ⟨rfl, rfl⟩
  rcases posted with ⟨index, value, checksum⟩
  obtain ⟨cells, -, -⟩ := irqAfter_data (uart4IrqHandler u e).uart next (by omega)
  generalize (uart4IrqHandler u e).uart = w at index value checksum cells ⊢
  have kept : ∀ j (bound : j < 10), 3 ≤ j →
      (irqAfter w (next.map dataEvent)).dataBuff[j] = w.dataBuff[j] := by
    intro j bound above
    have size : w.dataBuff.toList.length = 10 := Vector.length_toList
    have cell : (irqAfter w (next.map dataEvent)).dataBuff.toList[j]? = w.dataBuff.toList[j]? := by
      rw [cells, List.getElem?_append_right (by
          rw [List.length_append, List.length_take]; omega), List.getElem?_drop]
      congr 1
      rw [List.length_append, List.length_take]
      omega
    simpa [bound] using cell
  simp only [kept 3 (by decide) (by decide), kept 4 (by decide) (by decide), value, checksum]
  rfl

/-! ## The invariant -/

/-- What the slot `d` of the handler's packet holds at each point of the section. -/
def HandlerPc.Midway (before : UInt8 × UInt8) (table : DevTable) : HandlerPc → Prop
  | .receive | .take _ => True
  | .setDevType p | .setDevId p | .testHigh p | .testLow p _ => (table p.slot).pair = before
  | .setNewData p | .readData p => (table p.slot).pair = before ∧ p.pair ≠ noValue
  | .setData p high =>
      (table p.slot).pair = before ∧ p.pair ≠ noValue ∧ high = p.value
  | .readDataL p => (table p.slot).data = p.value ∧ p.pair ≠ noValue
  | .setDataL p low =>
      (table p.slot).data = p.value ∧ p.pair ≠ noValue ∧ low = p.checksum
  | .clearCount p | .setStatus p | .give p => (table p.slot).pair = p.pairAfter before

/-- The slot the handler has given only the high byte yet. -/
def HandlerPc.halfWritten : HandlerPc → Option Slot
  | .readDataL p | .setDataL p _ => some p.slot
  | _ => none

/-- The section is on its way, and no slot holds `0xFFFF` unless it is half written. -/
structure ValueInv (pc : HandlerPc) (before : UInt8 × UInt8) (table : DevTable) : Prop where
  midway : pc.Midway before table
  before : before ≠ noValue
  real : ∀ k, pc.halfWritten ≠ some k → (table k).pair ≠ noValue

theorem FepPacket.pairAfter_of_noValue {p : FepPacket} {before : UInt8 × UInt8}
    (none : p.pair = noValue) : p.pairAfter before = before :=
  if_pos none

theorem FepPacket.pairAfter_of_value {p : FepPacket} {before : UInt8 × UInt8}
    (value : p.pair ≠ noValue) : p.pairAfter before = p.pair :=
  if_neg value

/-- The invariant depends on the pairs of the table only. -/
theorem ValueInv.frame {pc : HandlerPc} {before : UInt8 × UInt8} {table table' : DevTable}
    (inv : ValueInv pc before table) (same : ∀ k, (table' k).pair = (table k).pair) :
    ValueInv pc before table' := by
  refine ⟨?_, inv.before, fun k whole => ?_⟩
  · have midway := inv.midway
    have data := fun k => congrArg Prod.fst (same k)
    simp only [FepDev.pair] at data
    cases pc <;> simp only [HandlerPc.Midway, same, data] at midway ⊢ <;> exact midway
  · exact (same k).symm ▸ inv.real k whole

/-- A step inside the section that writes no value. -/
theorem ValueInv.advance {pc pc' : HandlerPc} {before : UInt8 × UInt8} {table : DevTable}
    (inv : ValueInv pc before table) (midway : pc'.Midway before table)
    (whole : pc.halfWritten = none) : ValueInv pc' before table :=
  ⟨midway, inv.before, fun k _ => inv.real k (by rw [whole]; exact (Option.some_ne_none k).symm)⟩

/-- A write inside the section that keeps all pairs. -/
theorem ValueInv.write {s : Shared} {pc pc' : HandlerPc} {before : UInt8 × UInt8}
    (inv : ValueInv pc before s.fepDevList) (midway : pc'.Midway before s.fepDevList)
    (whole : pc.halfWritten = none) {k : Slot} {f : FepDev → FepDev}
    (keeps : ∀ d, (f d).pair = d.pair) : ValueInv pc' before (s.write k f).fepDevList :=
  (inv.advance midway whole).frame fun l => s.write_field FepDev.pair k l keeps

/-- Every step of the handler that finds its own bytes keeps the invariant. -/
theorem HandlerMove.valueInv {s s' : Shared} {pc pc' : HandlerPc} {before : UInt8 × UInt8}
    (move : HandlerMove s pc s' pc') (own : pc.FindsOwn s.uart.dataBuff)
    (inv : ValueInv pc before s.fepDevList) :
    ValueInv pc' (pc.remember s.fepDevList before pc') s'.fepDevList := by
  have midway := inv.midway
  cases move with
  | idle => exact inv
  | @dequeue p rest front =>
      rcases HandlerPc.dispatch_cases p with ⟨-, next⟩ | ⟨-, next⟩ <;> rw [next]
      · exact inv.advance trivial rfl
      · exact inv.advance trivial rfl
  | granted => exact ⟨rfl, inv.real _ (Option.some_ne_none _).symm, inv.real⟩
  | refused => exact inv.advance trivial rfl
  | setDevType | setDevId | setNewData | clearCount | setStatus =>
      apply inv.write ?_ rfl
      · exact fun _ => rfl
      · exact midway
  | testHigh => exact inv.advance midway rfl
  | hasValue value => exact inv.advance ⟨midway, mt own.mpr value⟩ rfl
  | hasNoValue value =>
      refine inv.advance ?_ rfl
      rw [HandlerPc.Midway, FepPacket.pairAfter_of_noValue (own.mp value)]
      exact midway
  | readData => exact inv.advance ⟨midway.1, midway.2, own⟩ rfl
  | @setData p high =>
      rcases midway with ⟨-, value, high⟩
      refine ⟨⟨?_, value⟩, inv.before, fun k whole => ?_⟩
      · rw [Shared.write_self, high]
      · have other : k ≠ p.slot := fun same => whole (congrArg some same.symm)
        rw [Shared.write_other _ _ other]
        exact inv.real k (Option.some_ne_none k).symm
  | readDataL => exact ⟨⟨midway.1, midway.2, own⟩, inv.before, inv.real⟩
  | @setDataL p low =>
      rcases midway with ⟨high, value, own⟩
      have written : ((s.write p.slot fun d => { d with dataL := low }).fepDevList p.slot).pair =
          p.pair := by
        rw [Shared.write_self, FepDev.pair, high, own]
        rfl
      refine ⟨?_, inv.before, fun k _ => ?_⟩
      · rw [HandlerPc.Midway, FepPacket.pairAfter_of_value value]
        exact written
      · by_cases same : k = p.slot
        · rw [same, written]
          exact value
        · rw [Shared.write_other _ _ same]
          exact inv.real k fun half => same (Option.some.inj half).symm
  | give => exact inv.advance trivial rfl

/-- The invariant of every run whose reads find what they have to. -/
theorem valueInv_of_reach {x : Master × (UInt8 × UInt8)}
    (reached : (masterLts.watch slotBefore).ReachWhile OwnBytes x) :
    ValueInv x.1.handler x.2 x.1.shared.fepDevList := by
  apply Lts.ReachWhile.invariant_watched
    (P := fun x before => ValueInv (Master.handler x) before x.shared.fepDevList) ?_ ?_ reached
  · intro x start
    subst start
    exact ⟨trivial, by decide, fun _ _ => (by decide : FepDev.zero.pair ≠ noValue)⟩
  · intro x before a x' _ inv own moved
    cases masterLts_move moved with
    | uart4 e => exact inv
    | tim3 => exact inv
    | handler move => exact move.valueInv own inv
    | poller move =>
        refine inv.frame fun k => ?_
        have entry := move.entry_eq k
        simp only [FepDev.entry, ReportEntry.mk.injEq] at entry
        exact Prod.ext entry.2.2.1 entry.2.2.2
    | udp move =>
        have same := move.fepDevList_eq
        simp only [slotBefore, same]
        exact inv

/-- At the end of the section the slot holds what it should. -/
theorem ValueInv.ownValue {x : Master × (UInt8 × UInt8)}
    (inv : ValueInv x.1.handler x.2 x.1.shared.fepDevList) : OwnValue x := by
  intro p done
  have midway := inv.midway
  rw [done] at midway
  have whole : x.1.handler.halfWritten ≠ some p.slot := by
    rw [done]
    exact (Option.some_ne_none _).symm
  exact ⟨midway, inv.real _ whole⟩

/-- **A device slot is only given its own packet's value**, in every run in which the buffer still
answers for the packet at the handler's reads. -/
theorem own_value_of_ownBytes (x : Master × (UInt8 × UInt8))
    (reached : (masterLts.watch slotBefore).ReachWhile OwnBytes x) :
    OwnValue x :=
  (valueInv_of_reach reached).ownValue

/-- The handler from the dequeued packet to the end of its section. -/
def handleAll : List Act := List.replicate 12 (.handler false)

/-- A reply handled on a quiet bus leaves its value. -/
theorem own_value_quiet_bus :
    ∃ x p, (masterLts.watch slotBefore).Reach x ∧ x.1.handler = .give p ∧
      p.pair = (0x12, 0x34) ∧ (x.1.shared.fepDevList p.slot).pair = p.pair := by
  obtain ⟨x, reached, done⟩ := Lts.exists_reachWhile_of_exec
    (L := masterLts.watch slotBefore) OwnBytes (s := (Master.start, (0, 0))) ⟨rfl, rfl⟩
    (replyOnBus [0x14, 0x05, 0x09, 0x12, 0x34] ++ [.handler false, .handler false] ++ handleAll)
    (P := fun x =>
      match x.1.handler with
      | .give p => p.pair == (0x12, 0x34)
      | _ => false) (by decide +kernel)
  have value := own_value_of_ownBytes x reached
  split at done
  · next p there =>
      have pair := eq_of_beq done
      refine ⟨x, p, reached.reach, there, pair, ?_⟩
      have own := (value p there).1
      rwa [FepPacket.pairAfter_of_value (by rw [pair]; decide)] at own
  · cases done

/-- Two replies back to back: the second frame is in the buffer when the handler, already in its
section for the first, reads the value. -/
theorem own_value_overtaken :
    ¬ ∀ x, (masterLts.watch slotBefore).Reach x → OwnValue x := by
  intro claim
  obtain ⟨x, reached, mixed⟩ := Lts.exists_reach_of_exec
    (L := masterLts.watch slotBefore) (s := (Master.start, (0, 0))) ⟨rfl, rfl⟩
    (replyOnBus [0x14, 0x05, 0x09, 0x12, 0x34] ++ [.handler false, .handler false] ++
      (frameEvents [0x14, 0x05, 0x0A, 0x56, 0x78]).map Act.uart4 ++ handleAll)
    (P := fun x =>
      match x.1.handler with
      | .give p =>
          p.pair == (0x12, 0x34) && (x.1.shared.fepDevList p.slot).pair == (0x56, 0x78)
      | _ => false) (by decide +kernel)
  split at mixed
  · next p there =>
      rcases (Bool.and_eq_true_iff).mp mixed with ⟨own, other⟩
      have pair := eq_of_beq own
      have value := (claim x reached p there).1
      rw [FepPacket.pairAfter_of_value (by rw [pair]; decide), pair, eq_of_beq other] at value
      exact absurd value (by decide)
  · cases mixed

/-! ## Reads in time -/

/-- The packet that the last break posted and the bytes received since; nothing after a break that
posted none. -/
def lastPosted :
    Monitor (Master × (UInt8 × UInt8)) Act (Option (FepPacket × List UInt8)) where
  init _ := none
  next posted x a _ :=
    match a with
    | .uart4 e =>
        match (uart4IrqHandler x.1.shared.uart e).sent with
        | some p => some (p, [])
        | none =>
            if e.fe then none
            else if e.rxne then posted.map fun y => (y.1, y.2 ++ [e.data])
            else posted
    | _ => posted

/-- The packet whose value the handler is about to read. -/
def HandlerPc.reads : HandlerPc → Option FepPacket
  | .testHigh p | .testLow p _ | .readData p | .readDataL p => some p
  | _ => none

/-- The handler reads the value of the packet posted last, before the third byte of the next
frame. -/
def InTime (y : (Master × (UInt8 × UInt8)) × Option (FepPacket × List UInt8)) : Act → Prop
  | .handler _ => ∀ p ∈ y.1.1.handler.reads, ∃ posted ∈ y.2, posted.1 = p ∧ posted.2.length ≤ 2
  | _ => True

instance (y : (Master × (UInt8 × UInt8)) × Option (FepPacket × List UInt8)) :
    (a : Act) → Decidable (InTime y a)
  | .handler _ => inferInstanceAs (Decidable (∀ p ∈ y.1.1.handler.reads,
      ∃ posted ∈ y.2, posted.1 = p ∧ posted.2.length ≤ 2))
  | .uart4 _ | .tim3 | .poller _ | .udp _ _ => inferInstanceAs (Decidable True)

/-- The buffer is what the break and the bytes since made of it. -/
def Follows (u : Uart) (posted : Option (FepPacket × List UInt8)) : Prop :=
  ∀ y ∈ posted, ∃ u₀ e, (uart4IrqHandler u₀ e).sent = some y.1 ∧
    u = irqAfter (uart4IrqHandler u₀ e).uart (y.2.map dataEvent)

theorem Follows.uart4 {x : Master × (UInt8 × UInt8)} {posted : Option (FepPacket × List UInt8)}
    (follows : Follows x.1.shared.uart posted) (e : IrqEvent) (x' : Master × (UInt8 × UInt8)) :
    Follows (uart4IrqHandler x.1.shared.uart e).uart (lastPosted.next posted x (.uart4 e) x') := by
  simp only [lastPosted]
  cases sent : (uart4IrqHandler x.1.shared.uart e).sent with
  | some p =>
      intro y member
      cases member
      exact ⟨_, e, sent, rfl⟩
  | none =>
      rcases e with ⟨fe, rxne, b⟩
      cases fe with
      | true => exact fun y member => by cases member
      | false =>
          cases rxne with
          | false => exact follows
          | true =>
              intro y member
              obtain ⟨before, known, rfl⟩ := Option.map_eq_some_iff.mp member
              obtain ⟨u₀, e₀, posted_, same⟩ := follows before known
              refine ⟨u₀, e₀, posted_, ?_⟩
              rw [List.map_append, irqAfter_append, ← same]
              rfl

theorem HandlerMove.uart_eq {s s' : Shared} {pc pc' : HandlerPc}
    (move : HandlerMove s pc s' pc') : s'.uart = s.uart := by
  cases move <;> rfl

theorem PollerMove.uart_eq {s s' : Shared} {pc pc' : PollerPc}
    (move : PollerMove s pc s' pc') : s'.uart = s.uart := by
  cases move <;> rfl

theorem UdpMove.uart_eq {s s' : Shared} {pc pc' : UdpPc} (move : UdpMove s pc s' pc') :
    s'.uart = s.uart := by
  cases move <;> rfl

/-- Only the interrupt writes to the buffer. -/
theorem MasterMove.uart_eq {x x' : Master} {a : Act} (move : MasterMove x a x')
    (other : ∀ e, a ≠ .uart4 e) : x'.shared.uart = x.shared.uart := by
  cases move with
  | uart4 e => exact absurd rfl (other e)
  | tim3 => rfl
  | handler move => exact move.uart_eq
  | poller move => exact move.uart_eq
  | udp move => exact move.uart_eq

/-- The second half of the test comes after the first, with what that has read. -/
theorem HandlerMove.testLow_from {s s' : Shared} {pc pc' : HandlerPc} {p : FepPacket} {high : UInt8}
    (move : HandlerMove s pc s' pc') (at_ : pc' = .testLow p high) :
    pc = .testHigh p ∧ high = dataBuff3 s.uart.dataBuff := by
  cases move with
  | testHigh =>
      cases at_
      exact ⟨rfl, rfl⟩
  | @dequeue q rest front =>
      rcases HandlerPc.dispatch_cases q with ⟨-, next⟩ | ⟨-, next⟩
      · cases next.symm.trans at_
      · cases next.symm.trans at_
  | idle | granted | refused | setDevType | setDevId | hasValue | hasNoValue | setNewData | readData
  | setData | readDataL | setDataL | clearCount | setStatus | give => cases at_

/-- The run so far has read its own bytes, and the buffer still has them if few bytes followed. -/
structure InTimeInv (y : (Master × (UInt8 × UInt8)) × Option (FepPacket × List UInt8)) :
    Prop where
  own : (masterLts.watch slotBefore).ReachWhile OwnBytes y.1
  follows : Follows y.1.1.shared.uart y.2
  high : ∀ p high, y.1.1.handler = .testLow p high → high = p.value

/-- A read in time finds the value of the packet. -/
theorem InTimeInv.pair {y : (Master × (UInt8 × UInt8)) × Option (FepPacket × List UInt8)}
    (inv : InTimeInv y) {timeout : Bool} (inTime : InTime y (.handler timeout)) {p : FepPacket}
    (reads : y.1.1.handler.reads = some p) :
    (dataBuff3 y.1.1.shared.uart.dataBuff, dataBuff4 y.1.1.shared.uart.dataBuff) = p.pair := by
  obtain ⟨posted, member, rfl, few⟩ := inTime p reads
  obtain ⟨u, e, sent, same⟩ := inv.follows posted member
  rw [same]
  exact posted_pair_kept sent few

theorem InTimeInv.ownBytes {y : (Master × (UInt8 × UInt8)) × Option (FepPacket × List UInt8)}
    (inv : InTimeInv y) {a : Act} (inTime : InTime y a) : OwnBytes y.1 a := by
  cases a with
  | uart4 e => trivial
  | tim3 => trivial
  | poller timeout => trivial
  | udp timeout stack => trivial
  | handler timeout =>
      have pair {p : FepPacket} (reads : y.1.1.handler.reads = some p) := inv.pair inTime reads
      change y.1.1.handler.FindsOwn y.1.1.shared.uart.dataBuff
      cases at_ : y.1.1.handler with
      | testLow p high =>
          have both := pair (p := p) (by rw [at_]; rfl)
          have low : dataBuff4 y.1.1.shared.uart.dataBuff = p.checksum := congrArg Prod.snd both
          rw [HandlerPc.FindsOwn, inv.high p high at_, low]
          rfl
      | readData p => exact congrArg Prod.fst (pair (p := p) (by rw [at_]; rfl))
      | readDataL p => exact congrArg Prod.snd (pair (p := p) (by rw [at_]; rfl))
      | receive | take p | setDevType p | setDevId p | testHigh p | setNewData p | setData p high
      | setDataL p low | clearCount p | setStatus p | give p => trivial

/-- In every run in which the handler reads the value of each packet before the third byte of the
next frame, it leaves each slot its own packet's value. -/
theorem own_value_in_time (y : (Master × (UInt8 × UInt8)) × Option (FepPacket × List UInt8))
    (reached : ((masterLts.watch slotBefore).watch lastPosted).ReachWhile InTime y) :
    OwnValue y.1 := by
  have inv : InTimeInv y := by
    apply Lts.ReachWhile.invariant ?_ ?_ reached
    · intro y init
      rcases init with ⟨start, origin⟩
      refine ⟨.init start, ?_, fun p high at_ => ?_⟩
      · rw [origin]
        exact fun posted member => by cases member
      · rw [start.1] at at_
        cases at_
    · intro y a y' _ inv inTime taken
      obtain ⟨moved, update⟩ := Lts.watch_step_iff.mp taken
      have move := masterLts_move (Lts.watch_step_iff.mp moved).1
      refine ⟨.step inv.own (inv.ownBytes inTime) moved, ?_, ?_⟩
      · rw [update]
        cases a with
        | uart4 e =>
            have received : y'.1.1.shared.uart = (uart4IrqHandler y.1.1.shared.uart e).uart := by
              generalize y'.1.1 = x' at move ⊢
              cases move
              rfl
            rw [received]
            exact inv.follows.uart4 e y'.1
        | tim3 | handler timeout | poller timeout | udp timeout stack =>
            rw [move.uart_eq fun e same => by cases same]
            exact inv.follows
      · intro p high at_
        generalize y'.1.1 = x' at move at_
        cases move with
        | handler move =>
            obtain ⟨reads, rfl⟩ := move.testLow_from at_
            exact congrArg Prod.fst (inv.pair inTime (congrArg HandlerPc.reads reads))
        | uart4 | tim3 | poller | udp => exact inv.high p high at_
  exact (valueInv_of_reach inv.own).ownValue

/-- Two bytes of the next frame are in the buffer when the value is read. -/
example : ∃ y p, ((masterLts.watch slotBefore).watch lastPosted).ReachWhile InTime y ∧
    y.1.1.handler = .give p ∧ (y.1.1.shared.fepDevList p.slot).pair = p.pairAfter y.1.2 := by
  obtain ⟨y, reached, done⟩ := Lts.exists_reachWhile_of_exec
    (L := (masterLts.watch slotBefore).watch lastPosted) InTime
    (s := ((Master.start, (0, 0)), none)) ⟨⟨rfl, rfl⟩, rfl⟩
    (replyOnBus [0x14, 0x05, 0x09, 0x12, 0x34] ++ [.handler false, .handler false] ++
      [.uart4 (dataEvent 0x14), .uart4 (dataEvent 0x05)] ++ handleAll)
    (P := fun y =>
      match y.1.1.handler with
      | .give _ => true
      | _ => false) (by decide +kernel)
  split at done
  · next p there => exact ⟨y, p, reached, there, (own_value_in_time y reached p there).1⟩
  · cases done

end FepMaster

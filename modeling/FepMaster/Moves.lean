import FepMaster.Lib.Mutex
import FepMaster.Tasks

/-!
# What one step can do

The step functions of `FepMaster.Tasks` turned round: from a step taken, which access it was, what
it required and what it left behind (`HandlerMove`, `PollerMove`, `UdpMove`).  Invariants are
proved by cases on these relations and never unfold a step function.

The second half says what no step of a party touches, and that the lock has at most one holder,
which is the task inside its section (`lock_of_reach`).
-/

namespace FepMaster

open Transition

/-! ## Moves -/

/-- The moves of the handler. -/
inductive HandlerMove (s : Shared) : HandlerPc → Shared → HandlerPc → Prop
  | idle (empty : s.fepProcessQueueBuffer.items = []) : HandlerMove s .receive s .receive
  | dequeue {p : FepPacket} {rest : Fifo FepPacket fepQueueBufferSize}
      (front : s.fepProcessQueueBuffer.items = p :: rest.items) :
      HandlerMove s .receive { s with fepProcessQueueBuffer := rest } (.dispatch p)
  | granted {p : FepPacket} (free : s.fepDevListSem = none) :
      HandlerMove s (.take p) { s with fepDevListSem := some .handler } (.setDevType p)
  | refused {p : FepPacket} (taken : s.fepDevListSem ≠ none) :
      HandlerMove s (.take p) s .receive
  | setDevType {p : FepPacket} :
      HandlerMove s (.setDevType p)
        (s.write p.slot fun d => { d with devType := p.packetDevType }) (.setDevId p)
  | setDevId {p : FepPacket} :
      HandlerMove s (.setDevId p)
        (s.write p.slot fun d => { d with devId := p.packetDevId }) (.testHigh p)
  | testHigh {p : FepPacket} :
      HandlerMove s (.testHigh p) s (.testLow p (dataBuff3 s.uart.dataBuff))
  | hasValue {p : FepPacket} {high : UInt8} (value : (high, dataBuff4 s.uart.dataBuff) ≠ noValue) :
      HandlerMove s (.testLow p high) s (.setNewData p)
  | hasNoValue {p : FepPacket} {high : UInt8}
      (value : (high, dataBuff4 s.uart.dataBuff) = noValue) :
      HandlerMove s (.testLow p high) s (.clearCount p)
  | setNewData {p : FepPacket} :
      HandlerMove s (.setNewData p)
        (s.write p.slot fun d => { d with newData := active }) (.readData p)
  | readData {p : FepPacket} :
      HandlerMove s (.readData p) s (.setData p (dataBuff3 s.uart.dataBuff))
  | setData {p : FepPacket} {high : UInt8} :
      HandlerMove s (.setData p high)
        (s.write p.slot fun d => { d with data := high }) (.readDataL p)
  | readDataL {p : FepPacket} :
      HandlerMove s (.readDataL p) s (.setDataL p (dataBuff4 s.uart.dataBuff))
  | setDataL {p : FepPacket} {low : UInt8} :
      HandlerMove s (.setDataL p low)
        (s.write p.slot fun d => { d with dataL := low }) (.clearCount p)
  | clearCount {p : FepPacket} :
      HandlerMove s (.clearCount p)
        (s.write p.slot fun d => { d with receCount := 0 }) (.setStatus p)
  | setStatus {p : FepPacket} :
      HandlerMove s (.setStatus p)
        (s.write p.slot fun d => { d with status := active }) (.give p)
  | give {p : FepPacket} : HandlerMove s (.give p) s.xSemaphoreGive .receive

/-- The moves of the poller. -/
inductive PollerMove (s : Shared) : PollerPc → Shared → PollerPc → Prop
  | idle : PollerMove s .wait s .wait
  | begin (flag : s.flagGetData = active) : PollerMove s .wait s (.ask .first)
  | ask {i : Polled} : PollerMove s (.ask i) s (.take i)
  | granted {i : Polled} (free : s.fepDevListSem = none) :
      PollerMove s (.take i) { s with fepDevListSem := some .getvalue } (.readCount i)
  | refused {i : Polled} (taken : s.fepDevListSem ≠ none) :
      PollerMove s (.take i) s (.afterCount i)
  | readCount {i : Polled} :
      PollerMove s (.readCount i) s (.writeCount i (s.fepDevList i.slot).receCount)
  | writeCount {i : Polled} {count : UInt8} :
      PollerMove s (.writeCount i count)
        (s.write i.slot fun d => { d with receCount := count + 1 }) (.give i)
  | give {i : Polled} : PollerMove s (.give i) s.xSemaphoreGive (.afterCount i)
  | clearNew {i : Polled} :
      PollerMove s (.clearNew i)
        (s.write i.slot fun d => { d with newData := inactive }) (.test i)
  | late {i : Polled} (count : (s.fepDevList i.slot).receCount > 10) :
      PollerMove s (.test i) s (.setInactive i)
  | inTime {i : Polled} (count : ¬ (s.fepDevList i.slot).receCount > 10) :
      PollerMove s (.test i) s (.afterCheck i)
  | setInactive {i : Polled} :
      PollerMove s (.setInactive i)
        (s.write i.slot fun d => { d with status := inactive }) (.afterCheck i)
  | clearGetData : PollerMove s .clearGetData { s with flagGetData := inactive } .setSendUdp
  | setSendUdp : PollerMove s .setSendUdp { s with flagSendUdp := active } .wait

/-- The moves of the server task. -/
inductive UdpMove (s : Shared) : UdpPc → Shared → UdpPc → Prop
  | idle : UdpMove s .wait s .wait
  | begin (flag : s.flagSendUdp = active) : UdpMove s .wait s .clearFlag
  | clearFlag : UdpMove s .clearFlag { s with flagSendUdp := inactive } .call
  | call (stack : Vector UInt8 100) : UdpMove s .call s (.take (startReport stack))
  | granted {buff : Vector UInt8 100} (free : s.fepDevListSem = none) :
      UdpMove s (.take buff) { s with fepDevListSem := some .udp } (.readStatus buff 0 .first)
  | refused {buff : Vector UInt8 100} (taken : s.fepDevListSem ≠ none) :
      UdpMove s (.take buff) s (.send buff 0)
  | listed {buff : Vector UInt8 100} {j : Nat} {i : Polled}
      (online : (s.fepDevList i.slot).status = active) :
      UdpMove s (.readStatus buff j i) s (.readType buff j i)
  | skipped {buff : Vector UInt8 100} {j : Nat} {i : Polled}
      (offline : (s.fepDevList i.slot).status ≠ active) :
      UdpMove s (.readStatus buff j i) s (.afterSlot buff j i)
  | readType {buff : Vector UInt8 100} {j : Nat} {i : Polled} :
      UdpMove s (.readType buff j i) s (.readId buff j i (s.fepDevList i.slot).devType)
  | readId {buff : Vector UInt8 100} {j : Nat} {i : Polled} {devType : UInt8} :
      UdpMove s (.readId buff j i devType) s
        (.readData (buff.setIfInBounds (3 + 3 * j + 0)
          (devType + (s.fepDevList i.slot).devId)) j i)
  | readData {buff : Vector UInt8 100} {j : Nat} {i : Polled} :
      UdpMove s (.readData buff j i) s
        (.readDataL (buff.setIfInBounds (3 + 3 * j + 1) (s.fepDevList i.slot).data) j i)
  | readDataL {buff : Vector UInt8 100} {j : Nat} {i : Polled} :
      UdpMove s (.readDataL buff j i) s
        (.afterSlot (buff.setIfInBounds (3 + 3 * j + 2) (s.fepDevList i.slot).dataL) (j + 1) i)
  | give {buff : Vector UInt8 100} {j : Nat} :
      UdpMove s (.give buff j) s.xSemaphoreGive (.send buff j)
  | send {buff : Vector UInt8 100} {j : Nat} : UdpMove s (.send buff j) s .wait

/-- The moves of the system. -/
inductive MasterMove (x : Master) : Act → Master → Prop
  | uart4 (e : IrqEvent) : MasterMove x (.uart4 e) { x with shared := x.shared.uart4 e }
  | tim3 : MasterMove x .tim3 { x with shared := x.shared.tim3 }
  | handler {timeout : Bool} {s : Shared} {pc : HandlerPc}
      (move : HandlerMove x.shared x.handler s pc) :
      MasterMove x (.handler timeout) { x with shared := s, handler := pc }
  | poller {timeout : Bool} {s : Shared} {pc : PollerPc}
      (move : PollerMove x.shared x.poller s pc) :
      MasterMove x (.poller timeout) { x with shared := s, poller := pc }
  | udp {timeout : Bool} {stack : Vector UInt8 100} {s : Shared} {pc : UdpPc}
      (move : UdpMove x.shared x.udp s pc) :
      MasterMove x (.udp timeout stack) { x with shared := s, udp := pc }

theorem xSemaphoreTake_eq_some {s s' : Shared} {t : Task} {timeout granted : Bool}
    (returned : s.xSemaphoreTake t timeout = some (granted, s')) :
    (granted = true ∧ s.fepDevListSem = none ∧ s' = { s with fepDevListSem := some t }) ∨
      (granted = false ∧ s.fepDevListSem ≠ none ∧ s' = s) := by
  unfold Shared.xSemaphoreTake at returned
  split at returned
  · next free =>
      split at returned
      · cases returned
      · cases returned
        exact .inl ⟨rfl, free, rfl⟩
  · next taken =>
      split at returned
      · cases returned
        exact .inr ⟨rfl, by rw [taken]; exact Option.some_ne_none _, rfl⟩
      · cases returned

theorem handlerStep_move {timeout : Bool} {s s' : Shared} {pc pc' : HandlerPc}
    (taken : handlerStep timeout s pc = some (s', pc')) : HandlerMove s pc s' pc' := by
  cases pc with
  | receive =>
      rw [handlerStep] at taken
      split at taken
      · next received =>
          cases taken
          exact .dequeue (Fifo.receive_eq_some received)
      · next received =>
          cases taken
          exact .idle (Fifo.receive_eq_none received)
  | take p =>
      rcases Option.map_eq_some_iff.mp taken with ⟨⟨granted, mid⟩, returned, result⟩
      rcases xSemaphoreTake_eq_some returned with ⟨rfl, free, rfl⟩ | ⟨rfl, held, rfl⟩
      · cases result
        exact .granted free
      · cases result
        exact .refused held
  | testLow p high =>
      rw [handlerStep] at taken
      cases taken
      by_cases value : valueWord high (dataBuff4 s.uart.dataBuff) = 0xFFFF
      · rw [if_neg (not_not_intro value)]
        exact .hasNoValue ((valueWord_eq_iff _ _).mp value)
      · rw [if_pos value]
        exact .hasValue (mt (valueWord_eq_iff _ _).mpr value)
  | _ => cases taken; constructor

theorem pollerStep_move {timeout : Bool} {s s' : Shared} {pc pc' : PollerPc}
    (taken : pollerStep timeout s pc = some (s', pc')) : PollerMove s pc s' pc' := by
  cases pc with
  | wait =>
      rw [pollerStep] at taken
      cases taken
      split
      · next flag => exact .begin flag
      · exact .idle
  | take i =>
      rcases Option.map_eq_some_iff.mp taken with ⟨⟨granted, mid⟩, returned, result⟩
      rcases xSemaphoreTake_eq_some returned with ⟨rfl, free, rfl⟩ | ⟨rfl, held, rfl⟩
      · cases result
        exact .granted free
      · cases result
        exact .refused held
  | test i =>
      rw [pollerStep] at taken
      cases taken
      split
      · next count => exact .late count
      · next count => exact .inTime count
  | _ => cases taken; constructor

theorem udpStep_move {timeout : Bool} {stack : Vector UInt8 100} {s s' : Shared} {pc pc' : UdpPc}
    (taken : udpStep timeout stack s pc = some (s', pc')) : UdpMove s pc s' pc' := by
  cases pc with
  | wait =>
      rw [udpStep] at taken
      cases taken
      split
      · next flag => exact .begin flag
      · exact .idle
  | take buff =>
      rcases Option.map_eq_some_iff.mp taken with ⟨⟨granted, mid⟩, returned, result⟩
      rcases xSemaphoreTake_eq_some returned with ⟨rfl, free, rfl⟩ | ⟨rfl, held, rfl⟩
      · cases result
        exact .granted free
      · cases result
        exact .refused held
  | readStatus buff j i =>
      rw [udpStep] at taken
      cases taken
      split
      · next online => exact .listed online
      · next offline => exact .skipped offline
  | _ => cases taken; constructor

/-- A step of the system is a move. -/
theorem masterLts_move {x x' : Master} {a : Act} (taken : masterLts.step x a = some x') :
    MasterMove x a x' := by
  cases a with
  | uart4 e => cases taken; exact .uart4 e
  | tim3 => cases taken; exact .tim3
  | handler timeout =>
      rcases Option.map_eq_some_iff.mp taken with ⟨⟨s, pc⟩, step, result⟩
      cases result
      exact .handler (handlerStep_move step)
  | poller timeout =>
      rcases Option.map_eq_some_iff.mp taken with ⟨⟨s, pc⟩, step, result⟩
      cases result
      exact .poller (pollerStep_move step)
  | udp timeout stack =>
      rcases Option.map_eq_some_iff.mp taken with ⟨⟨s, pc⟩, step, result⟩
      cases result
      exact .udp (udpStep_move step)

/-! ## Where a move can lead -/

theorem HandlerPc.dispatch_cases (p : FepPacket) :
    (p.IsReply ∧ dispatch p = .take p) ∨ (¬ p.IsReply ∧ dispatch p = .receive) := by
  unfold dispatch
  split
  · next start =>
      split
      · next state => exact .inl ⟨⟨start, state⟩, rfl⟩
      · next state => exact .inr ⟨fun reply => state reply.2, rfl⟩
  · next start => exact .inr ⟨fun reply => start reply.1, rfl⟩

theorem PollerPc.afterCount_cases (i : Polled) :
    (∃ j, afterCount i = .ask j) ∨ afterCount i = .clearNew .first := by
  unfold afterCount
  cases i.next with
  | some j => exact .inl ⟨j, rfl⟩
  | none => exact .inr rfl

theorem PollerPc.afterCheck_cases (i : Polled) :
    (∃ j, afterCheck i = .clearNew j) ∨ afterCheck i = .clearGetData := by
  unfold afterCheck
  cases i.next with
  | some j => exact .inl ⟨j, rfl⟩
  | none => exact .inr rfl

/-! ## What a party leaves alone -/

theorem PollerMove.queue_eq {s s' : Shared} {pc pc' : PollerPc} (move : PollerMove s pc s' pc') :
    s'.fepProcessQueueBuffer = s.fepProcessQueueBuffer := by
  cases move <;> rfl

theorem UdpMove.queue_eq {s s' : Shared} {pc pc' : UdpPc} (move : UdpMove s pc s' pc') :
    s'.fepProcessQueueBuffer = s.fepProcessQueueBuffer := by
  cases move <;> rfl

/-- The server task only reads the table. -/
theorem UdpMove.fepDevList_eq {s s' : Shared} {pc pc' : UdpPc} (move : UdpMove s pc s' pc') :
    s'.fepDevList = s.fepDevList := by
  cases move <;> rfl

/-- The poller never writes what a report says of a slot. -/
theorem PollerMove.entry_eq {s s' : Shared} {pc pc' : PollerPc} (move : PollerMove s pc s' pc')
    (k : Slot) : (s'.fepDevList k).entry = (s.fepDevList k).entry := by
  cases move with
  | writeCount => exact Shared.write_field FepDev.entry _ _ _ fun _ => rfl
  | clearNew => exact Shared.write_field FepDev.entry _ _ _ fun _ => rfl
  | setInactive => exact Shared.write_field FepDev.entry _ _ _ fun _ => rfl
  | _ => rfl

/-! ## The lock -/

/-- The packet of the handler between taking and giving the lock. -/
def HandlerPc.inside : HandlerPc → Option FepPacket
  | .receive | .take _ => none
  | .setDevType p | .setDevId p | .testHigh p | .testLow p _ | .setNewData p | .readData p
  | .setData p _ | .readDataL p | .setDataL p _ | .clearCount p | .setStatus p | .give p => some p

/-- The poller between taking and giving the lock. -/
def PollerPc.inside : PollerPc → Bool
  | .readCount _ | .writeCount _ _ | .give _ => true
  | _ => false

/-- The server task between taking and giving the lock. -/
def UdpPc.inside : UdpPc → Bool
  | .readStatus .. | .readType .. | .readId .. | .readData .. | .readDataL .. | .give .. => true
  | _ => false

@[simp] theorem HandlerPc.inside_dispatch (p : FepPacket) : (dispatch p).inside = none := by
  rcases dispatch_cases p with ⟨-, next⟩ | ⟨-, next⟩ <;> rw [next] <;> rfl

@[simp] theorem PollerPc.inside_afterCount (i : Polled) : (afterCount i).inside = false := by
  rcases afterCount_cases i with ⟨j, next⟩ | next <;> rw [next] <;> rfl

@[simp] theorem PollerPc.inside_afterCheck (i : Polled) : (afterCheck i).inside = false := by
  rcases afterCheck_cases i with ⟨j, next⟩ | next <;> rw [next] <;> rfl

@[simp] theorem UdpPc.inside_afterSlot (buff : Vector UInt8 100) (j : Nat) (i : Polled) :
    (afterSlot buff j i).inside = true := by
  unfold afterSlot
  cases i.next <;> rfl

/-- The handler writes to the slot of its packet only, and only inside its section. -/
theorem HandlerMove.fepDevList_other {s s' : Shared} {pc pc' : HandlerPc}
    (move : HandlerMove s pc s' pc') {k : Slot}
    (other : ∀ p, pc.inside = some p → k ≠ p.slot) : s'.fepDevList k = s.fepDevList k := by
  cases move with
  | idle | dequeue | granted | refused | testHigh | hasValue | hasNoValue | readData | readDataL
  | give => rfl
  | _ => exact Shared.write_other _ _ (other _ rfl)

/-- Outside its section the handler leaves the table alone. -/
theorem HandlerMove.fepDevList_eq {s s' : Shared} {pc pc' : HandlerPc}
    (move : HandlerMove s pc s' pc') (outside : pc.inside = none) :
    s'.fepDevList = s.fepDevList := by
  funext k
  exact move.fepDevList_other fun p inside => by rw [outside] at inside; cases inside

/-- The tasks inside their sections. -/
def Master.inside (x : Master) : Task → Prop
  | .handler => x.handler.inside.isSome = true
  | .getvalue => x.poller.inside = true
  | .udp => x.udp.inside = true

/-- The lock is held by the task inside its section, and free if there is none. -/
def Master.Locked (x : Master) : Prop := Mutex.Disciplined x.shared.fepDevListSem x.inside

theorem HandlerMove.transfer {s s' : Shared} {pc pc' : HandlerPc}
    (move : HandlerMove s pc s' pc') :
    Mutex.Transfer Task.handler s.fepDevListSem (pc.inside.isSome = true) s'.fepDevListSem
      (pc'.inside.isSome = true) := by
  cases move with
  | granted free => rw [free]; exact .acquire rfl
  | give => exact .release rfl (by decide)
  | dequeue => exact .stay (by rw [HandlerPc.inside_dispatch]; exact Iff.rfl)
  | _ => exact .stay Iff.rfl

theorem PollerMove.transfer {s s' : Shared} {pc pc' : PollerPc} (move : PollerMove s pc s' pc') :
    Mutex.Transfer Task.getvalue s.fepDevListSem (pc.inside = true) s'.fepDevListSem
      (pc'.inside = true) := by
  cases move with
  | granted free => rw [free]; exact .acquire rfl
  | give => exact .release rfl (by rw [PollerPc.inside_afterCount]; decide)
  | refused => exact .stay (by rw [PollerPc.inside_afterCount]; exact Iff.rfl)
  | inTime | setInactive => exact .stay (by rw [PollerPc.inside_afterCheck]; exact Iff.rfl)
  | _ => exact .stay Iff.rfl

theorem UdpMove.transfer {s s' : Shared} {pc pc' : UdpPc} (move : UdpMove s pc s' pc') :
    Mutex.Transfer Task.udp s.fepDevListSem (pc.inside = true) s'.fepDevListSem
      (pc'.inside = true) := by
  cases move with
  | granted free => rw [free]; exact .acquire rfl
  | give => exact .release rfl Bool.false_ne_true
  | skipped | readDataL => exact .stay (by rw [UdpPc.inside_afterSlot]; exact Iff.rfl)
  | _ => exact .stay Iff.rfl

/-- Every reached state is locked by the task inside its section. -/
theorem locked_of_reach {x : Master} (reached : masterLts.Reach x) : x.Locked := by
  refine Lts.ReachWhile.invariant (P := Master.Locked) ?_ ?_ reached
  · intro x start t
    subst start
    cases t <;> simp [Master.start, Shared.start, Master.inside, HandlerPc.inside,
      PollerPc.inside, UdpPc.inside]
  · intro x a x' _ lock _ taken
    cases masterLts_move taken with
    | uart4 e => exact lock
    | tim3 => exact lock
    | handler move =>
        refine Mutex.Disciplined.transfer (t := .handler) lock move.transfer fun u other => ?_
        cases u with
        | handler => exact (other rfl).elim
        | getvalue | udp => exact Iff.rfl
    | poller move =>
        refine Mutex.Disciplined.transfer (t := .getvalue) lock move.transfer fun u other => ?_
        cases u with
        | getvalue => exact (other rfl).elim
        | handler | udp => exact Iff.rfl
    | udp move =>
        refine Mutex.Disciplined.transfer (t := .udp) lock move.transfer fun u other => ?_
        cases u with
        | udp => exact (other rfl).elim
        | handler | getvalue => exact Iff.rfl

/-- The handler and another task are not inside their sections together. -/
theorem Master.Locked.handler_outside {x : Master} (lock : x.Locked) {p : FepPacket}
    (inside : x.handler.inside = some p) : x.poller.inside = false ∧ x.udp.inside = false := by
  have handler : x.inside .handler := by rw [Master.inside, inside]; rfl
  refine ⟨Bool.eq_false_iff.mpr fun poller => ?_, Bool.eq_false_iff.mpr fun udp => ?_⟩
  · cases lock.exclusive (t := .handler) (u := .getvalue) handler poller
  · cases lock.exclusive (t := .handler) (u := .udp) handler udp

/-- While the server task is inside its section, the handler is not. -/
theorem Master.Locked.handler_none {x : Master} (lock : x.Locked) (inside : x.udp.inside = true) :
    x.handler.inside = none := by
  cases within : x.handler.inside with
  | none => rfl
  | some p => rw [(lock.handler_outside within).2] at inside; cases inside

end FepMaster

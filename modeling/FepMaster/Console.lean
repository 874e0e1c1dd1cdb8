import Mathlib.Logic.Function.Basic
import FepMaster.Lib.Transition

/-!
# The console

`Drivers/Serial_Debug/Serial_Debug.c`: characters go through `Tx` to the transmitter and come
through `Rx` from the receiver, one at a time, between the tasks and `USART1_IRQHandler`.  A
negative value stands for an empty variable.

`consoleLts` is the system of any number of tasks in `SER_PutChar`, one task in `SER_GetChar` and
`SER_CheckChar`, the handler and the line.  A task step is one access to a shared variable or
register, so the handler and other tasks can come between the reading and the writing of `CR1` in
`USART_ITConfig`; a run of the handler is one step.  A byte reaches the data register only after
the previous one has been read.
-/

namespace FepMaster

open Transition

/-! ## State -/

/-- The interrupt enable bits in `CR1`. -/
structure Cr1 where
  rxneie : Bool
  txeie : Bool
  deriving DecidableEq

/-- Where a task is in `SER_PutChar(c)`: in the loop before `Tx = c`, at it, at the reading and
the writing of `CR1`, in the loop after it. -/
inductive PutPc
  | idle
  | waitBefore (c : UInt8)
  | store (c : UInt8)
  | readCr1 (c : UInt8)
  | writeCr1 (c : UInt8) (cr1 : Cr1)
  | waitAfter (c : UInt8)
  deriving DecidableEq

/-- Where the reading task is: in `SER_GetChar`, in the loop before `Rx = -1`, at it, at the
reading and the writing of `CR1`, in the loop after it; or in `SER_CheckChar`, at the accesses to
`CR1` that enable the interrupt, at the flag, at the accesses that disable it. -/
inductive GetPc
  | idle
  | waitBefore
  | clear
  | readCr1
  | writeCr1 (cr1 : Cr1)
  | waitAfter
  | checkReadEnable
  | checkWriteEnable (cr1 : Cr1)
  | checkFlag
  | checkReadDisable (result : Int)
  | checkWriteDisable (result : Int) (cr1 : Cr1)
  deriving DecidableEq

/-- `Rx`, `Tx`, `CR1`, a received byte not yet read (`RXNE`), and where the tasks are. -/
structure Console where
  rx : Int
  tx : Int
  cr1 : Cr1
  dr : Option UInt8
  put : Nat → PutPc
  get : GetPc

/-- A received byte, a run of the handler with the state of `TXE`, a call of `SER_PutChar`, the
next step of a task in it, the calls and steps of the reading task. -/
inductive ConsoleAct
  | arrive (b : UInt8)
  | irq (txe : Bool)
  | putChar (task : Nat) (c : UInt8)
  | writer (task : Nat)
  | getChar
  | checkChar
  | reader
  deriving DecidableEq

namespace Console

/-- After `SER_Init`. -/
def init : Console := ⟨-1, 1, ⟨true, true⟩, none, fun _ => .idle, .idle⟩

/-! ## The handler -/

/-- `USART_GetITStatus(USART1, USART_IT_RXNE) != RESET`. -/
def receiveInterrupt (s : Console) : Bool := s.dr.isSome && s.cr1.rxneie

/-- `USART_GetITStatus(USART1, USART_IT_TXE) != RESET`. -/
def transmitInterrupt (s : Console) (txe : Bool) : Bool := txe && s.cr1.txeie

/-- `USART_ReceiveData`. -/
def usartReceiveData (s : Console) : Int := (s.dr.getD 0).toNat

/-- The first half of `USART1_IRQHandler`; reading the data clears `RXNE`. -/
def receivePart (s : Console) : Console :=
  if s.receiveInterrupt then
    if s.rx < 0 then
      { s with rx := s.usartReceiveData, dr := none, cr1 := { s.cr1 with rxneie := false } }
    else s
  else s

/-- The second half, with what it passes to `USART_SendData`. -/
def transmitPart (s : Console) (txe : Bool) : Console × Option Int :=
  if s.transmitInterrupt txe then
    if s.tx ≥ 0 then
      ({ s with tx := -1, cr1 := { s.cr1 with txeie := false } }, some s.tx)
    else (s, none)
  else (s, none)

/-- `USART1_IRQHandler`. -/
def usart1IrqHandler (s : Console) (txe : Bool) : Console × Option Int :=
  s.receivePart.transmitPart txe

/-! ## The tasks -/

/-- A task goes on. -/
def setPut (s : Console) (task : Nat) (pc : PutPc) : Console :=
  { s with put := Function.update s.put task pc }

/-- A step in `SER_PutChar`. -/
def serPutChar (s : Console) (task : Nat) : Option Console :=
  match s.put task with
  | .idle => none
  | .waitBefore c => some (if s.tx > 0 then s else s.setPut task (.store c))
  | .store c => some ({ s with tx := c.toNat }.setPut task (.readCr1 c))
  | .readCr1 c => some (s.setPut task (.writeCr1 c s.cr1))
  | .writeCr1 c cr1 =>
      some ({ s with cr1 := { cr1 with txeie := true } }.setPut task (.waitAfter c))
  | .waitAfter _ => some (if s.tx ≥ 0 then s else s.setPut task .idle)

/-- `USART_FLAG_RXNE`. -/
def usartFlagRxne : Nat := 0x0020

/-- `USART_GetFlagStatus(USART1, USART_FLAG_RXNE)`: `SET` is 1. -/
def usartGetFlagStatus (s : Console) : Nat := if s.dr.isSome then 1 else 0

/-- The two constants are different, so `SER_CheckChar` never tells of a byte. -/
theorem usartGetFlagStatus_ne (s : Console) : s.usartGetFlagStatus ≠ usartFlagRxne := by
  unfold usartGetFlagStatus usartFlagRxne
  split <;> decide

/-- A step in `SER_GetChar` or `SER_CheckChar`. -/
def serGetChar (s : Console) : Option Console :=
  match s.get with
  | .idle => none
  | .waitBefore => some (if s.rx < 0 then s else { s with get := .clear })
  | .clear => some { s with rx := -1, get := .readCr1 }
  | .readCr1 => some { s with get := .writeCr1 s.cr1 }
  | .writeCr1 cr1 => some { s with cr1 := { cr1 with rxneie := true }, get := .waitAfter }
  | .waitAfter => some (if s.rx < 0 then s else { s with get := .idle })
  | .checkReadEnable => some { s with get := .checkWriteEnable s.cr1 }
  | .checkWriteEnable cr1 => some { s with cr1 := { cr1 with rxneie := true }, get := .checkFlag }
  | .checkFlag =>
      some { s with
        get := .checkReadDisable (if s.usartGetFlagStatus = usartFlagRxne then 1 else 0) }
  | .checkReadDisable result => some { s with get := .checkWriteDisable result s.cr1 }
  | .checkWriteDisable _ cr1 => some { s with cr1 := { cr1 with rxneie := false }, get := .idle }

/-- What `SER_GetChar` returns in this step, if it returns. -/
def returned (s : Console) : Option Int :=
  if s.get = .waitAfter ∧ 0 ≤ s.rx then some s.rx else none

/-- One step. -/
def step (s : Console) : ConsoleAct → Option Console
  | .arrive b => if s.dr = none then some { s with dr := some b } else none
  | .irq txe =>
      if s.receiveInterrupt || s.transmitInterrupt txe then some (s.usart1IrqHandler txe).1
      else none
  | .putChar task c => if s.put task = .idle then some (s.setPut task (.waitBefore c)) else none
  | .writer task => s.serPutChar task
  | .getChar => if s.get = .idle then some { s with get := .waitBefore } else none
  | .checkChar => if s.get = .idle then some { s with get := .checkReadEnable } else none
  | .reader => s.serGetChar

end Console

/-- The system. -/
def consoleLts : Lts Console ConsoleAct where
  Init s := s = Console.init
  step := Console.step

/-! ## What a step does -/

/-- The steps, one by one. -/
inductive ConsoleMove (s : Console) : ConsoleAct → Console → Prop
  | arrive (b : UInt8) : s.dr = none → ConsoleMove s (.arrive b) { s with dr := some b }
  | irq (txe : Bool) : (s.receiveInterrupt || s.transmitInterrupt txe) = true →
      ConsoleMove s (.irq txe) (s.usart1IrqHandler txe).1
  | putChar (task : Nat) (c : UInt8) : s.put task = .idle →
      ConsoleMove s (.putChar task c) (s.setPut task (.waitBefore c))
  | writer (task : Nat) (s' : Console) : s.serPutChar task = some s' →
      ConsoleMove s (.writer task) s'
  | getChar : s.get = .idle → ConsoleMove s .getChar { s with get := .waitBefore }
  | checkChar : s.get = .idle → ConsoleMove s .checkChar { s with get := .checkReadEnable }
  | reader (s' : Console) : s.serGetChar = some s' → ConsoleMove s .reader s'

theorem Console.move_of_step {s s' : Console} {a : ConsoleAct} (taken : s.step a = some s') :
    ConsoleMove s a s' := by
  cases a with
  | writer task => exact .writer task s' taken
  | reader => exact .reader s' taken
  | arrive b =>
      obtain ⟨free, same⟩ := Option.ite_none_right_eq_some.mp taken
      cases same
      exact .arrive b free
  | irq txe =>
      obtain ⟨pending, same⟩ := Option.ite_none_right_eq_some.mp taken
      cases same
      exact .irq txe pending
  | putChar task c =>
      obtain ⟨idle, same⟩ := Option.ite_none_right_eq_some.mp taken
      cases same
      exact .putChar task c idle
  | getChar =>
      obtain ⟨idle, same⟩ := Option.ite_none_right_eq_some.mp taken
      cases same
      exact .getChar idle
  | checkChar =>
      obtain ⟨idle, same⟩ := Option.ite_none_right_eq_some.mp taken
      cases same
      exact .checkChar idle

/-- The steps in `SER_PutChar`. -/
inductive PutMove (s : Console) (task : Nat) : Console → Prop
  | spinBefore {c : UInt8} : s.put task = .waitBefore c → 0 < s.tx → PutMove s task s
  | leaveBefore {c : UInt8} : s.put task = .waitBefore c → s.tx ≤ 0 →
      PutMove s task (s.setPut task (.store c))
  | store {c : UInt8} : s.put task = .store c →
      PutMove s task ({ s with tx := c.toNat }.setPut task (.readCr1 c))
  | readCr1 {c : UInt8} : s.put task = .readCr1 c →
      PutMove s task (s.setPut task (.writeCr1 c s.cr1))
  | writeCr1 {c : UInt8} {cr1 : Cr1} : s.put task = .writeCr1 c cr1 →
      PutMove s task ({ s with cr1 := { cr1 with txeie := true } }.setPut task (.waitAfter c))
  | spinAfter {c : UInt8} : s.put task = .waitAfter c → 0 ≤ s.tx → PutMove s task s
  | leaveAfter {c : UInt8} : s.put task = .waitAfter c → s.tx < 0 →
      PutMove s task (s.setPut task .idle)

theorem Console.putMove_of_step {s s' : Console} {task : Nat}
    (taken : s.serPutChar task = some s') : PutMove s task s' := by
  unfold serPutChar at taken
  cases place : s.put task with
  | idle =>
      simp only [place] at taken
      cases taken
  | waitBefore c =>
      simp only [place, Option.some_inj] at taken
      subst taken
      split
      · next full => exact .spinBefore place full
      · next free => exact .leaveBefore place (Int.not_lt.mp free)
  | waitAfter c =>
      simp only [place, Option.some_inj] at taken
      subst taken
      split
      · next full => exact .spinAfter place full
      · next free => exact .leaveAfter place (Int.not_le.mp free)
  | store c =>
      simp only [place, Option.some_inj] at taken
      subst taken
      exact .store place
  | readCr1 c =>
      simp only [place, Option.some_inj] at taken
      subst taken
      exact .readCr1 place
  | writeCr1 c cr1 =>
      simp only [place, Option.some_inj] at taken
      subst taken
      exact .writeCr1 place

/-- The steps in `SER_GetChar` and `SER_CheckChar`. -/
inductive GetMove (s : Console) : Console → Prop
  | spinBefore : s.get = .waitBefore → s.rx < 0 → GetMove s s
  | leaveBefore : s.get = .waitBefore → 0 ≤ s.rx → GetMove s { s with get := .clear }
  | clear : s.get = .clear → GetMove s { s with rx := -1, get := .readCr1 }
  | readCr1 : s.get = .readCr1 → GetMove s { s with get := .writeCr1 s.cr1 }
  | writeCr1 {cr1 : Cr1} : s.get = .writeCr1 cr1 →
      GetMove s { s with cr1 := { cr1 with rxneie := true }, get := .waitAfter }
  | spinAfter : s.get = .waitAfter → s.rx < 0 → GetMove s s
  | leaveAfter : s.get = .waitAfter → 0 ≤ s.rx → GetMove s { s with get := .idle }
  | readEnable : s.get = .checkReadEnable → GetMove s { s with get := .checkWriteEnable s.cr1 }
  | writeEnable {cr1 : Cr1} : s.get = .checkWriteEnable cr1 →
      GetMove s { s with cr1 := { cr1 with rxneie := true }, get := .checkFlag }
  | flag : s.get = .checkFlag → GetMove s { s with get := .checkReadDisable 0 }
  | readDisable {result : Int} : s.get = .checkReadDisable result →
      GetMove s { s with get := .checkWriteDisable result s.cr1 }
  | writeDisable {result : Int} {cr1 : Cr1} : s.get = .checkWriteDisable result cr1 →
      GetMove s { s with cr1 := { cr1 with rxneie := false }, get := .idle }

theorem Console.getMove_of_step {s s' : Console} (taken : s.serGetChar = some s') :
    GetMove s s' := by
  unfold serGetChar at taken
  cases place : s.get with
  | idle =>
      simp only [place] at taken
      cases taken
  | waitBefore =>
      simp only [place, Option.some_inj] at taken
      subst taken
      split
      · next free => exact .spinBefore place free
      · next full => exact .leaveBefore place (Int.not_lt.mp full)
  | waitAfter =>
      simp only [place, Option.some_inj] at taken
      subst taken
      split
      · next free => exact .spinAfter place free
      · next full => exact .leaveAfter place (Int.not_lt.mp full)
  | clear =>
      simp only [place, Option.some_inj] at taken
      subst taken
      exact .clear place
  | readCr1 =>
      simp only [place, Option.some_inj] at taken
      subst taken
      exact .readCr1 place
  | writeCr1 cr1 =>
      simp only [place, Option.some_inj] at taken
      subst taken
      exact .writeCr1 place
  | checkReadEnable =>
      simp only [place, Option.some_inj] at taken
      subst taken
      exact .readEnable place
  | checkWriteEnable cr1 =>
      simp only [place, Option.some_inj] at taken
      subst taken
      exact .writeEnable place
  | checkFlag =>
      simp only [place, Option.some_inj, if_neg s.usartGetFlagStatus_ne] at taken
      subst taken
      exact .flag place
  | checkReadDisable result =>
      simp only [place, Option.some_inj] at taken
      subst taken
      exact .readDisable place
  | checkWriteDisable result cr1 =>
      simp only [place, Option.some_inj] at taken
      subst taken
      exact .writeDisable place

namespace Console

theorem receivePart_output (s : Console) :
    s.receivePart.tx = s.tx ∧ s.receivePart.put = s.put := by
  unfold receivePart
  split
  · split <;> exact ⟨rfl, rfl⟩
  · exact ⟨rfl, rfl⟩

theorem transmitPart_input (s : Console) (txe : Bool) :
    (s.transmitPart txe).1.rx = s.rx ∧ (s.transmitPart txe).1.dr = s.dr ∧
      (s.transmitPart txe).1.get = s.get ∧
      (s.transmitPart txe).1.cr1.rxneie = s.cr1.rxneie := by
  unfold transmitPart
  split
  · split <;> exact ⟨rfl, rfl, rfl, rfl⟩
  · exact ⟨rfl, rfl, rfl, rfl⟩

/-- The reading task does not touch the output. -/
theorem serGetChar_output {s s' : Console} (taken : s.serGetChar = some s') :
    s'.tx = s.tx ∧ s'.put = s.put := by
  cases getMove_of_step taken <;> exact ⟨rfl, rfl⟩

/-- The writing tasks do not touch the input, but for the enable bit in `CR1`. -/
theorem serPutChar_input {s s' : Console} {task : Nat} (taken : s.serPutChar task = some s') :
    s'.rx = s.rx ∧ s'.dr = s.dr ∧ s'.get = s.get := by
  cases putMove_of_step taken <;> exact ⟨rfl, rfl, rfl⟩

end Console

end FepMaster

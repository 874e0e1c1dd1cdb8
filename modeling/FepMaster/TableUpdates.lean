import Mathlib.Data.List.FinRange
import FepMaster.Device
import FepMaster.Uart

/-!
# The writers of the device table

What `FEP_RS485_Handler` does with a dequeued packet (`Drivers/FEP/fep_rs485.c`) and what
`FEP_RS485_GETVALUE_Handler` does to the table between two of its sends
(`Drivers/FEP/fep_rs485_getvalue.c`), each as one function of the table.  `FepMaster.Tasks` has
the same code one access at a time, and `FepMaster.Sections` shows that a section nobody
interrupts computes the functions of this module.

Each function has one lemma that says what it leaves in a slot; nothing later unfolds it.
-/

namespace FepMaster

/-! ## The handler -/

/-- The section between `xSemaphoreTake` and `xSemaphoreGive`: the type and the id come from the
dequeued packet, the value from the receive buffer. -/
def applyReply (dataBuff : Vector UInt8 10) (p : FepPacket) (t : DevTable) : DevTable :=
  let t := t.modify p.slot fun d => { d with devType := p.packetDevType }
  let t := t.modify p.slot fun d => { d with devId := p.packetDevId }
  let t :=
    if valueWord (dataBuff3 dataBuff) (dataBuff4 dataBuff) ≠ 0xFFFF then
      let t := t.modify p.slot fun d => { d with newData := active }
      let t := t.modify p.slot fun d => { d with data := dataBuff3 dataBuff }
      t.modify p.slot fun d => { d with dataL := dataBuff4 dataBuff }
    else t
  let t := t.modify p.slot fun d => { d with receCount := 0 }
  t.modify p.slot fun d => { d with status := active }

/-- One iteration of `FEP_RS485_Handler` after a successful `xQueueReceive`; `granted` is the
answer of `xSemaphoreTake`. -/
def fepRs485Handler (granted : Bool) (dataBuff : Vector UInt8 10) (p : FepPacket)
    (t : DevTable) : DevTable :=
  if p.packetStart = startGetValue then
    if p.packetState = statusReturn then
      if granted then applyReply dataBuff p t else t
    else t
  else t

/-- A record after a reply `p` whose value was read as `reading`. -/
def FepDev.replied (d : FepDev) (p : FepPacket) (reading : UInt8 × UInt8) : FepDev :=
  { d with
    devType := p.packetDevType
    devId := p.packetDevId
    receCount := 0
    status := active
    newData := if reading = noValue then d.newData else active
    data := if reading = noValue then d.data else reading.1
    dataL := if reading = noValue then d.dataL else reading.2 }

/-- A reply rewrites its own slot and no other. -/
theorem applyReply_eq (dataBuff : Vector UInt8 10) (p : FepPacket) (t : DevTable) :
    applyReply dataBuff p t =
      t.modify p.slot fun d => d.replied p (dataBuff3 dataBuff, dataBuff4 dataBuff) := by
  have test := valueWord_eq_iff (dataBuff3 dataBuff) (dataBuff4 dataBuff)
  funext k
  by_cases same : k = p.slot
  · subst same
    by_cases noReading : (dataBuff3 dataBuff, dataBuff4 dataBuff) = noValue
    · simp [applyReply, FepDev.replied, test.mpr noReading, noReading]
    · simp [applyReply, FepDev.replied, mt test.mp noReading, noReading]
  · unfold applyReply
    split <;> simp [DevTable.modify_other _ _ same]

theorem fepRs485Handler_of_isReply {p : FepPacket} (reply : p.IsReply)
    (dataBuff : Vector UInt8 10) (t : DevTable) :
    fepRs485Handler true dataBuff p t = applyReply dataBuff p t := by
  simp [fepRs485Handler, reply.1, reply.2]

/-- Anything but a reply leaves the table alone. -/
theorem fepRs485Handler_of_not_isReply {p : FepPacket} (other : ¬ p.IsReply) (granted : Bool)
    (dataBuff : Vector UInt8 10) (t : DevTable) :
    fepRs485Handler granted dataBuff p t = t := by
  unfold fepRs485Handler
  split
  · next start =>
      rw [if_neg fun state => other ⟨start, state⟩]
  · rfl

/-! ## The poller -/

/-- The count step of one slot: `fep_dev_list[i].rece_count++` under the lock. -/
def countStep (granted : Bool) (i : Polled) (t : DevTable) : DevTable :=
  if granted then t.modify i.slot fun d => { d with receCount := d.receCount + 1 } else t

/-- The body of the end-of-cycle loop. -/
def checkSlot (t : DevTable) (i : Polled) : DevTable :=
  let t := t.modify i.slot fun d => { d with newData := inactive }
  if (t i.slot).receCount > 10 then
    t.modify i.slot fun d => { d with status := inactive }
  else t

/-- The end-of-cycle check over the slots `1..6`. -/
def endOfCycleCheck (t : DevTable) : DevTable := polledSlots.foldl checkSlot t

/-- A record after the end-of-cycle check. -/
def FepDev.checked (d : FepDev) : FepDev :=
  { d with
    newData := inactive
    status := if d.receCount > 10 then inactive else d.status }

theorem checkSlot_eq (t : DevTable) (i : Polled) :
    checkSlot t i = t.modify i.slot FepDev.checked := by
  funext k
  by_cases same : k = i.slot
  · subst same
    by_cases late : (t i.slot).receCount > 10 <;> simp [checkSlot, FepDev.checked, late]
  · unfold checkSlot
    split <;> simp [DevTable.modify_other _ _ same]

/-- A loop that rewrites distinct slots rewrites each of them once. -/
theorem foldl_modify_apply (f : FepDev → FepDev) {loop : List Polled} (distinct : loop.Nodup)
    (t : DevTable) (k : Slot) :
    loop.foldl (fun t i => t.modify i.slot f) t k =
      if k ∈ loop.map Polled.slot then f (t k) else t k := by
  induction loop generalizing t with
  | nil => simp
  | cons i rest ih =>
      rcases List.nodup_cons.mp distinct with ⟨fresh, distinct⟩
      rw [List.foldl_cons, ih distinct]
      simp only [List.map_cons, List.mem_cons]
      by_cases same : k = i.slot
      · subst same
        have absent : i.slot ∉ rest.map Polled.slot := by
          intro member
          rcases List.mem_map.mp member with ⟨j, inRest, sameSlot⟩
          exact fresh (Polled.slot_injective sameSlot ▸ inRest)
        simp [absent]
      · simp [same, DevTable.modify_other]

theorem endOfCycleCheck_apply (t : DevTable) (k : Slot) :
    endOfCycleCheck t k =
      if k ∈ polledSlots.map Polled.slot then (t k).checked else t k := by
  have steps : checkSlot = fun t i => DevTable.modify t i.slot FepDev.checked := by
    funext t i
    exact checkSlot_eq t i
  rw [endOfCycleCheck, steps]
  exact foldl_modify_apply FepDev.checked (List.nodup_finRange 6) t k

/-- The check as it acts on a polled slot. -/
theorem endOfCycleCheck_slot (t : DevTable) (i : Polled) :
    endOfCycleCheck t i.slot = (t i.slot).checked := by
  rw [endOfCycleCheck_apply]
  exact if_pos (List.mem_map_of_mem (List.mem_finRange i))

end FepMaster

import FepMaster.Lib.Transition
import FepMaster.Lib.Watchdog
import FepMaster.Report
import FepMaster.TableUpdates

/-!
# The device table as a record of replies and polls

The device table under whole steps: replies handled while their bytes are still buffered, the
poller's count steps and end-of-cycle checks in its program order, and reports anywhere between,
with `fep_dev_list_Sem` always granted.  `tableLts` is this system; `history` records what
happened, newest event first.

Each polled slot is a watchdog (`FepMaster.Lib.Watchdog`) with an eight-bit counter: `Tracks` is
the simulation relation, kept by every step.  From it follow what a report lists
(`reported_entries`) and when all it lists was really sent (`reported_values_real_iff`).
-/

namespace FepMaster

open Transition

/-! ## The system -/

/-- A reply handled before the next byte reaches the bus: the two bytes the handler reads are
those of the packet. -/
structure Reply where
  packet : FepPacket
  dataBuff : Vector UInt8 10
  isReply : packet.IsReply
  buffered : (dataBuff3 dataBuff, dataBuff4 dataBuff) = packet.pair

/-- One whole step: a handled reply, the poller's next step, a built report. -/
inductive Move
  | reply (r : Reply)
  | poll
  | report

/-- The table and the poller's place in its cycle: the next slot to count, or the check. -/
structure Gateway where
  fepDevList : DevTable
  toCount : Option Polled

/-- The zeroed table, the poller before its first cycle. -/
def Gateway.reset : Gateway := ⟨DevTable.zero, some .first⟩

/-- The poller's next step: six count steps, then the check. -/
def Gateway.poll (g : Gateway) : Gateway :=
  match g.toCount with
  | some i => ⟨countStep true i g.fepDevList, i.next⟩
  | none => ⟨endOfCycleCheck g.fepDevList, some .first⟩

/-- One step; a report reads the table and writes nothing. -/
def Gateway.move (g : Gateway) : Move → Gateway
  | .reply r => { g with fepDevList := fepRs485Handler true r.dataBuff r.packet g.fepDevList }
  | .poll => g.poll
  | .report => g

/-- The system of whole steps. -/
def tableLts : Lts Gateway Move where
  Init g := g = Gateway.reset
  step g m := some (g.move m)

/-! ## Its history -/

/-- What a step did. -/
inductive Event
  | reply (p : FepPacket)
  | count (i : Polled)
  | check

/-- The history, newest event first. -/
def history : Monitor Gateway Move (List Event) where
  init _ := []
  next h g m _ :=
    match m with
    | .reply r => .reply r.packet :: h
    | .poll =>
        match g.toCount with
        | some i => .count i :: h
        | none => .check :: h
    | .report => h

/-- What an event means for the watchdog of one slot. -/
def Event.forSlot (i : Polled) : Event → Option Watchdog.Event
  | .reply p => if p.slot = i.slot then some .hit else none
  | .count j => if j = i then some .miss else none
  | .check => some .check

/-- The history of one slot. -/
def slotHistory (i : Polled) (h : List Event) : List Watchdog.Event :=
  h.filterMap (Event.forSlot i)

/-- The device of a slot has replied, and the latest end-of-cycle check after its last reply, if
there was one, came after at most ten count steps of the slot since that reply. -/
def Online (h : List Event) (i : Polled) : Prop := Watchdog.Alive 10 (slotHistory i h)

instance (h : List Event) (i : Polled) : Decidable (Online h i) :=
  inferInstanceAs (Decidable (Watchdog.Alive _ _))

/-- The last reply of a slot. -/
def lastReply (i : Polled) : List Event → Option FepPacket
  | [] => none
  | .reply p :: earlier => if p.slot = i.slot then some p else lastReply i earlier
  | _ :: earlier => lastReply i earlier

/-- The last reading of a slot that is not the `no value` pair. -/
def lastReading (i : Polled) : List Event → Option (UInt8 × UInt8)
  | [] => none
  | .reply p :: earlier =>
      if p.slot = i.slot ∧ p.pair ≠ noValue then some p.pair else lastReading i earlier
  | _ :: earlier => lastReading i earlier

/-! ## The simulation -/

/-- What a slot of the table owes to the history. -/
structure Tracks (h : List Event) (i : Polled) (d : FepDev) : Prop where
  status : d.status =
    if (Watchdog.after 256 10 (slotHistory i h)).online then active else inactive
  count : d.receCount.toNat = (Watchdog.after 256 10 (slotHistory i h)).count
  ident : ∀ p, lastReply i h = some p → d.devType = p.packetDevType ∧ d.devId = p.packetDevId
  reading : d.pair = (lastReading i h).getD (0, 0)

theorem Tracks.zero (i : Polled) : Tracks [] i FepDev.zero where
  status := rfl
  count := rfl
  ident := by intro p last; cases last
  reading := rfl

/-- A reply of another slot. -/
theorem Tracks.reply_other {h : List Event} {i : Polled} {d : FepDev} (tracks : Tracks h i d)
    {p : FepPacket} (other : p.slot ≠ i.slot) : Tracks (.reply p :: h) i d := by
  have same : slotHistory i (.reply p :: h) = slotHistory i h := by
    simp [slotHistory, Event.forSlot, other]
  refine ⟨?_, ?_, ?_, ?_⟩
  · rw [same]; exact tracks.status
  · rw [same]; exact tracks.count
  · simpa [lastReply, other] using tracks.ident
  · simpa [lastReading, other] using tracks.reading

/-- A reply of the slot itself. -/
theorem Tracks.reply_self {h : List Event} {i : Polled} {d : FepDev} (tracks : Tracks h i d)
    {p : FepPacket} (own : p.slot = i.slot) :
    Tracks (.reply p :: h) i (d.replied p p.pair) := by
  have hit : slotHistory i (.reply p :: h) = .hit :: slotHistory i h := by
    simp [slotHistory, Event.forSlot, own]
  refine ⟨?_, ?_, ?_, ?_⟩
  · rw [hit]; rfl
  · rw [hit]; rfl
  · intro q last
    rw [lastReply, if_pos own] at last
    cases last
    exact ⟨rfl, rfl⟩
  · by_cases real : p.pair = noValue
    · simpa [lastReading, own, real, FepDev.replied, FepDev.pair] using tracks.reading
    · simp [lastReading, own, real, FepDev.replied, FepDev.pair]

/-- A count step of another slot. -/
theorem Tracks.count_other {h : List Event} {i : Polled} {d : FepDev} (tracks : Tracks h i d)
    {j : Polled} (other : j ≠ i) : Tracks (.count j :: h) i d := by
  have same : slotHistory i (.count j :: h) = slotHistory i h := by
    simp [slotHistory, Event.forSlot, other]
  refine ⟨?_, ?_, tracks.ident, tracks.reading⟩
  · rw [same]; exact tracks.status
  · rw [same]; exact tracks.count

/-- A count step of the slot itself: the byte wraps as the watchdog's counter does. -/
theorem Tracks.count_self {h : List Event} {i : Polled} {d : FepDev} (tracks : Tracks h i d) :
    Tracks (.count i :: h) i { d with receCount := d.receCount + 1 } := by
  have miss : slotHistory i (.count i :: h) = .miss :: slotHistory i h := by
    simp [slotHistory, Event.forSlot]
  refine ⟨?_, ?_, tracks.ident, tracks.reading⟩
  · rw [miss]; exact tracks.status
  · rw [miss, UInt8.toNat_add, tracks.count]
    rfl

/-- The end-of-cycle check. -/
theorem Tracks.check {h : List Event} {i : Polled} {d : FepDev} (tracks : Tracks h i d) :
    Tracks (.check :: h) i d.checked := by
  have check : slotHistory i (.check :: h) = .check :: slotHistory i h := by
    simp [slotHistory, Event.forSlot]
  refine ⟨?_, ?_, tracks.ident, tracks.reading⟩
  · rw [check, FepDev.checked, tracks.status]
    simp only [Watchdog.after, Watchdog.step, ← tracks.count, gt_iff_lt, UInt8.lt_iff_toNat_lt]
    have ten : (10 : UInt8).toNat = 10 := rfl
    rw [ten]
    by_cases late : 10 < d.receCount.toNat
    · simp [late]
    · simp [late, Nat.not_lt.mp late]
  · rw [check]; exact tracks.count

/-! ## The poller's program order -/

/-- Whether the slot has been counted since the last check. -/
def countedThisCycle (toCount : Option Polled) (i : Polled) : Nat :=
  match toCount with
  | some k => if i < k then 1 else 0
  | none => 1

/-- The poller counts each slot once between two checks. -/
structure InOrder (toCount : Option Polled) (h : List Event) (i : Polled) : Prop where
  since : Watchdog.sinceCheck (slotHistory i h) = countedThisCycle toCount i
  paced : Watchdog.Paced (slotHistory i h)

theorem countedThisCycle_next {i k : Polled} :
    countedThisCycle k.next i = if k = i then 1 else countedThisCycle (some k) i := by
  by_cases more : k.val + 1 < 6
  · have next : k.next = some ⟨k.val + 1, more⟩ := dif_pos more
    simp only [next, countedThisCycle, Fin.lt_def, Fin.ext_iff]
    by_cases own : k.val = i.val
    · simp [own]
    · have before : i.val < k.val + 1 ↔ i.val < k.val := by omega
      simp [own, before]
  · have last : k.next = none := dif_neg more
    simp only [last, countedThisCycle, Fin.lt_def, Fin.ext_iff]
    split
    · rfl
    · split <;> omega

theorem InOrder.reset (i : Polled) : InOrder (some .first) [] i := by
  refine ⟨?_, trivial⟩
  simp [slotHistory, Watchdog.sinceCheck, countedThisCycle]

theorem InOrder.reply {toCount : Option Polled} {h : List Event} {i : Polled}
    (order : InOrder toCount h i) (p : FepPacket) : InOrder toCount (.reply p :: h) i := by
  by_cases own : p.slot = i.slot
  · have hit : slotHistory i (.reply p :: h) = .hit :: slotHistory i h := by
      simp [slotHistory, Event.forSlot, own]
    refine ⟨by rw [hit]; exact order.since, ?_⟩
    rw [hit]
    exact ⟨order.paced.sinceCheck_le, order.paced⟩
  · have same : slotHistory i (.reply p :: h) = slotHistory i h := by
      simp [slotHistory, Event.forSlot, own]
    exact ⟨by rw [same]; exact order.since, by rw [same]; exact order.paced⟩

theorem InOrder.count {k : Polled} {h : List Event} {i : Polled}
    (order : InOrder (some k) h i) : InOrder k.next (.count k :: h) i := by
  by_cases own : k = i
  · subst own
    have miss : slotHistory k (.count k :: h) = .miss :: slotHistory k h := by
      simp [slotHistory, Event.forSlot]
    have fresh : Watchdog.sinceCheck (slotHistory k h) = 0 := by
      rw [order.since]
      simp [countedThisCycle]
    constructor
    · rw [miss, Watchdog.sinceCheck, fresh, countedThisCycle_next, if_pos rfl]
    · rw [miss]
      exact ⟨by rw [Watchdog.sinceCheck, fresh], order.paced⟩
  · have same : slotHistory i (.count k :: h) = slotHistory i h := by
      simp [slotHistory, Event.forSlot, own]
    refine ⟨?_, by rw [same]; exact order.paced⟩
    rw [same, order.since, countedThisCycle_next, if_neg own]

theorem InOrder.check {h : List Event} {i : Polled} (order : InOrder none h i) :
    InOrder (some .first) (.check :: h) i := by
  have check : slotHistory i (.check :: h) = .check :: slotHistory i h := by
    simp [slotHistory, Event.forSlot]
  constructor
  · rw [check]
    simp [Watchdog.sinceCheck, countedThisCycle]
  · rw [check]
    exact ⟨Nat.zero_le 1, order.paced⟩

/-! ## Every run -/

/-- The simulation relation of all six slots. -/
structure Sim (g : Gateway) (h : List Event) : Prop where
  tracks : ∀ i : Polled, Tracks h i (g.fepDevList i.slot)
  order : ∀ i : Polled, InOrder g.toCount h i

theorem Sim.reply {g : Gateway} {h : List Event} (sim : Sim g h) (r : Reply) :
    Sim (g.move (.reply r)) (.reply r.packet :: h) := by
  refine ⟨fun i => ?_, fun i => (sim.order i).reply r.packet⟩
  have table : (g.move (.reply r)).fepDevList =
      g.fepDevList.modify r.packet.slot fun d => d.replied r.packet r.packet.pair := by
    rw [Gateway.move, fepRs485Handler_of_isReply r.isReply, applyReply_eq, r.buffered]
  rw [table]
  by_cases own : r.packet.slot = i.slot
  · rw [own, DevTable.modify_self]
    exact (sim.tracks i).reply_self own
  · rw [DevTable.modify_other _ _ (Ne.symm own)]
    exact (sim.tracks i).reply_other own

theorem Sim.count {t : DevTable} {k : Polled} {h : List Event} (sim : Sim ⟨t, some k⟩ h) :
    Sim ⟨countStep true k t, k.next⟩ (.count k :: h) := by
  refine ⟨fun i => ?_, fun i => (sim.order i).count⟩
  have tracks := sim.tracks i
  by_cases own : k = i
  · subst own
    simpa [countStep] using tracks.count_self
  · have slot : i.slot ≠ k.slot := fun same => own (Polled.slot_injective same).symm
    simpa [countStep, DevTable.modify_other _ _ slot] using tracks.count_other own

theorem Sim.check {t : DevTable} {h : List Event} (sim : Sim ⟨t, none⟩ h) :
    Sim ⟨endOfCycleCheck t, some .first⟩ (.check :: h) := by
  refine ⟨fun i => ?_, fun i => (sim.order i).check⟩
  have checked := (sim.tracks i).check
  simpa only [endOfCycleCheck_slot] using checked

/-- Every step keeps the simulation. -/
theorem Sim.move {g : Gateway} {h : List Event} (sim : Sim g h) (m : Move) :
    Sim (g.move m) (history.next h g m (g.move m)) := by
  rcases g with ⟨t, toCount⟩
  cases m with
  | reply r => exact sim.reply r
  | poll =>
      cases toCount with
      | some k => exact sim.count
      | none => exact sim.check
  | report => exact sim

theorem sim_of_reach {x : Gateway × List Event} (reached : (tableLts.watch history).Reach x) :
    Sim x.1 x.2 := by
  apply Lts.ReachWhile.invariant_watched (P := Sim) ?_ ?_ reached
  · intro g start
    subst start
    exact ⟨Tracks.zero, InOrder.reset⟩
  · intro g h m g' _ sim _ moved
    rw [← Option.some.inj moved]
    exact sim.move m

/-- The run that begins with a reply. -/
theorem reach_first_reply (r : Reply) :
    (tableLts.watch history).Reach (Gateway.reset.move (.reply r), [.reply r.packet]) := by
  have start : (tableLts.watch history).Reach (Gateway.reset, []) := .init ⟨rfl, rfl⟩
  exact .step (a := .reply r) start trivial rfl

/-! ## What a report says -/

/-- The status of a slot is the presence its history shows. -/
theorem Sim.status_iff {g : Gateway} {h : List Event} (sim : Sim g h) (i : Polled) :
    (g.fepDevList i.slot).status = active ↔ Online h i := by
  have faithful := Watchdog.online_iff_alive (by decide : 10 + 1 < 256) (sim.order i).paced
  rw [Online, ← faithful, (sim.tracks i).status]
  split
  · next online => simp [online]
  · next offline => simp [offline, active, inactive]

theorem lastReply_isSome {h : List Event} {i : Polled} (online : Online h i) :
    ∃ p, lastReply i h = some p ∧ p.slot = i.slot := by
  have replied := online.1
  clear online
  induction h with
  | nil => cases replied
  | cons e earlier ih =>
      cases e with
      | reply p =>
          by_cases own : p.slot = i.slot
          · exact ⟨p, by rw [lastReply, if_pos own], own⟩
          · obtain ⟨q, last, slot⟩ := ih (by
              simpa [slotHistory, Event.forSlot, own] using replied)
            exact ⟨q, by rw [lastReply, if_neg own, last], slot⟩
      | count j =>
          refine ih ?_
          by_cases own : j = i
          · simpa [slotHistory, Event.forSlot, own, Watchdog.missed] using replied
          · simpa [slotHistory, Event.forSlot, own] using replied
      | check =>
          exact ih (by simpa [slotHistory, Event.forSlot, Watchdog.missed] using replied)

/-- What a report should say of a slot: the type of its last reply, its number, and its last
reading; a device that never sent one is reported with zeros. -/
def reportedEntry (h : List Event) (i : Polled) : ReportEntry :=
  ⟨((lastReply i h).map FepPacket.packetDevType).getD 0, i.number,
    ((lastReading i h).getD (0, 0)).1, ((lastReading i h).getD (0, 0)).2⟩

theorem Sim.entryOf_eq {g : Gateway} {h : List Event} (sim : Sim g h) {i : Polled}
    (online : Online h i) :
    entryOf g.fepDevList i = reportedEntry h i ∧ (reportedEntry h i).WellFormed := by
  obtain ⟨p, last, own⟩ := lastReply_isSome online
  obtain ⟨type, ident⟩ := (sim.tracks i).ident p last
  have reading := (sim.tracks i).reading
  simp only [FepDev.pair, Prod.ext_iff] at reading
  refine ⟨?_, ?_, ?_⟩
  · rw [entryOf, FepDev.entry, reportedEntry, type, ident, packetDevId_of_slot own, reading.1,
      reading.2, last]
    rfl
  · rw [reportedEntry, last]
    exact high_aligned p.devInfo
  · rw [reportedEntry, ← packetDevId_of_slot own]
    exact packetDevId_lt p

/-- The entries of a report are those of the devices online, in slot order. -/
theorem Sim.decode_report {g : Gateway} {h : List Event} (sim : Sim g h)
    (stack : Vector UInt8 100) :
    decodeReport (sendGetValue stack true g.fepDevList) =
      (polledSlots.filter fun i => Online h i).map (reportedEntry h) := by
  have listed : activeEntries g.fepDevList =
      (polledSlots.filter fun i => Online h i).map (reportedEntry h) := by
    have same : activeOf g.fepDevList polledSlots = polledSlots.filter fun i => Online h i :=
      List.filter_congr fun i _ => decide_eq_decide.mpr (sim.status_iff i)
    rw [activeEntries, same]
    refine List.map_congr_left fun i member => ?_
    exact (sim.entryOf_eq (of_decide_eq_true (List.mem_filter.mp member).2)).1
  rw [sendGetValue_granted, listed]
  refine decodeReport_encodeReport fun e member => ?_
  rcases List.mem_map.mp member with ⟨i, among, rfl⟩
  exact (sim.entryOf_eq (of_decide_eq_true (List.mem_filter.mp among).2)).2

/-- **Refinement of the device table by the history of replies and polls.**  In every run, the
report built at any point lists exactly the devices the history shows online, in increasing slot
order, each with the type of its last reply and its last reading. -/
theorem reported_entries (g : Gateway) (h : List Event)
    (reached : (tableLts.watch history).Reach (g, h)) (stack : Vector UInt8 100) :
    decodeReport (sendGetValue stack true g.fepDevList) =
      (polledSlots.filter fun i => Online h i).map (reportedEntry h) :=
  (sim_of_reach reached).decode_report stack

/-- Device 1 replies once, then device 2 in every cycle. -/
def cycles (n : Nat) : List Move :=
  let p : FepPacket := ⟨0x14, 0x05, 0x09, 0x12, 0x34, 0x00⟩
  let q : FepPacket := ⟨0x14, 0x05, 0x0A, 0x56, 0x78, 0x00⟩
  .reply ⟨p, #v[0, 5, 9, 0x12, 0x34, 0, 0, 0, 0, 0], by decide, rfl⟩ ::
    (List.replicate n (.reply ⟨q, #v[0, 5, 10, 0x56, 0x78, 0, 0, 0, 0, 0], by decide, rfl⟩ ::
      List.replicate 7 .poll)).flatten

/-- Device 1 is reported for ten cycles, and no more after the eleventh. -/
theorem reported_entries_cycles :
    (∃ g h, (tableLts.watch history).Reach (g, h) ∧
      decodeReport (sendGetValue (Vector.replicate 100 0) true g.fepDevList) =
        [⟨0x08, 0x01, 0x12, 0x34⟩, ⟨0x08, 0x02, 0x56, 0x78⟩]) ∧
    ∃ g h, (tableLts.watch history).Reach (g, h) ∧
      decodeReport (sendGetValue (Vector.replicate 100 0) true g.fepDevList) =
        [⟨0x08, 0x02, 0x56, 0x78⟩] := by
  constructor
  · obtain ⟨⟨g, h⟩, reached, entries⟩ := Lts.exists_reach_of_exec (L := tableLts.watch history)
      (s := (Gateway.reset, [])) ⟨rfl, rfl⟩ (cycles 10)
      (P := fun x => (polledSlots.filter fun i => Online x.2 i).map (reportedEntry x.2) ==
        [⟨0x08, 0x01, 0x12, 0x34⟩, ⟨0x08, 0x02, 0x56, 0x78⟩]) (by decide +kernel)
    exact ⟨g, h, reached, (reported_entries g h reached _).trans (beq_iff_eq.mp entries)⟩
  · obtain ⟨⟨g, h⟩, reached, entries⟩ := Lts.exists_reach_of_exec (L := tableLts.watch history)
      (s := (Gateway.reset, [])) ⟨rfl, rfl⟩ (cycles 11)
      (P := fun x => (polledSlots.filter fun i => Online x.2 i).map (reportedEntry x.2) ==
        [⟨0x08, 0x02, 0x56, 0x78⟩]) (by decide +kernel)
    exact ⟨g, h, reached, (reported_entries g h reached _).trans (beq_iff_eq.mp entries)⟩

/-! ## When every reported reading was sent -/

theorem lastReading_eq_some {h : List Event} {i : Polled} {v : UInt8 × UInt8}
    (last : lastReading i h = some v) :
    ∃ p, Event.reply p ∈ h ∧ p.slot = i.slot ∧ p.pair = v ∧ v ≠ noValue := by
  induction h with
  | nil => cases last
  | cons e earlier ih =>
      have older (last : lastReading i earlier = some v) :
          ∃ p, Event.reply p ∈ e :: earlier ∧ p.slot = i.slot ∧ p.pair = v ∧ v ≠ noValue := by
        obtain ⟨p, member, rest⟩ := ih last
        exact ⟨p, List.mem_cons_of_mem _ member, rest⟩
      cases e with
      | reply p =>
          rw [lastReading] at last
          split at last
          · next real =>
              cases last
              exact ⟨p, List.mem_cons_self, real.1, rfl, real.2⟩
          · exact older last
      | count j => exact older last
      | check => exact older last

theorem lastReading_eq_none {h : List Event} {i : Polled} (never : lastReading i h = none)
    {p : FepPacket} (member : Event.reply p ∈ h) (own : p.slot = i.slot) :
    p.pair = noValue := by
  induction h with
  | nil => cases member
  | cons e earlier ih =>
      cases e with
      | reply q =>
          rw [lastReading] at never
          split at never
          · cases never
          · next empty =>
              rcases List.mem_cons.mp member with same | older
              · cases same
                exact Classical.byContradiction fun real => empty ⟨own, real⟩
              · exact ih never older
      | count j =>
          rcases List.mem_cons.mp member with same | older
          · cases same
          · exact ih never older
      | check =>
          rcases List.mem_cons.mp member with same | older
          · cases same
          · exact ih never older

theorem slot_of_packetDevId {p : FepPacket} {i : Polled} (own : p.packetDevId = i.number) :
    p.slot = i.slot := by
  have same := congrArg UInt8.toNat own
  rw [Polled.number, UInt8.toNat_ofNat'] at same
  exact Fin.ext (by simp only [FepPacket.slot, Polled.slot]; omega)

/-- A report tells only readings that were sent. -/
def AllSent (h : List Event) (datagram : List UInt8) : Prop :=
  ∀ e ∈ decodeReport datagram, ∃ p, Event.reply p ∈ h ∧
    p.packetDevId = e.devId ∧ p.pair = (e.data, e.dataL)

/-- **Fabricated readings.**  A report of a run tells only readings that were sent exactly if
every device online has by then replied with something other than the `no value` pair. -/
theorem reported_values_real_iff (g : Gateway) (h : List Event)
    (reached : (tableLts.watch history).Reach (g, h)) (stack : Vector UInt8 100) :
    AllSent h (sendGetValue stack true g.fepDevList) ↔
      ∀ i : Polled, Online h i →
        ∃ p, Event.reply p ∈ h ∧ p.slot = i.slot ∧ p.pair ≠ noValue := by
  rw [AllSent, (sim_of_reach reached).decode_report stack]
  constructor
  · intro sent i online
    have listed : reportedEntry h i ∈
        (polledSlots.filter fun i => Online h i).map (reportedEntry h) :=
      List.mem_map_of_mem (List.mem_filter.mpr ⟨List.mem_finRange i, decide_eq_true online⟩)
    obtain ⟨p, member, ident, pair⟩ := sent _ listed
    have own : p.slot = i.slot := slot_of_packetDevId ident
    cases last : lastReading i h with
    | some v =>
        obtain ⟨q, member', own', reading, real⟩ := lastReading_eq_some last
        exact ⟨q, member', own', reading ▸ real⟩
    | none =>
        -- the zeros of the untouched slot, against a device that only sent `no value`
        have none := lastReading_eq_none last member own
        simp only [reportedEntry, last, Option.getD_none] at pair
        rw [pair] at none
        exact absurd none (by decide)
  · intro real e member
    rcases List.mem_map.mp member with ⟨i, among, rfl⟩
    obtain ⟨p, reply, own, value⟩ := real i (of_decide_eq_true (List.mem_filter.mp among).2)
    cases last : lastReading i h with
    | some v =>
        obtain ⟨q, member', own', reading, -⟩ := lastReading_eq_some last
        refine ⟨q, member', packetDevId_of_slot own', ?_⟩
        rw [reading, reportedEntry, last]
        rfl
    | none => exact (value (lastReading_eq_none last reply own)).elim

/-- A device that only ever answered `no value` is reported with the value zero. -/
theorem reported_values_fabricated :
    ¬ ∀ (g : Gateway) (h : List Event), (tableLts.watch history).Reach (g, h) →
      ∀ stack : Vector UInt8 100, AllSent h (sendGetValue stack true g.fepDevList) := by
  intro claim
  let p : FepPacket := ⟨0x14, 0x05, 0x09, 0xFF, 0xFF, 0x00⟩
  let r : Reply := ⟨p, #v[0, 5, 9, 0xFF, 0xFF, 0, 0, 0, 0, 0], by decide, rfl⟩
  have reached := reach_first_reply r
  have listed : (⟨0x08, 0x01, 0x00, 0x00⟩ : ReportEntry) ∈
      decodeReport (sendGetValue (Vector.replicate 100 0) true
        (Gateway.reset.move (.reply r)).fepDevList) := by
    rw [(sim_of_reach reached).decode_report]
    decide
  obtain ⟨q, member, -, pair⟩ := claim _ _ reached (Vector.replicate 100 0) _ listed
  cases List.mem_singleton.mp member
  exact absurd pair (by decide)

/-- The condition holds of a run whose only reply carries a value. -/
theorem reported_values_real_one_reply :
    let p : FepPacket := ⟨0x14, 0x05, 0x09, 0x12, 0x34, 0x00⟩
    let r : Reply := ⟨p, #v[0, 5, 9, 0x12, 0x34, 0, 0, 0, 0, 0], by decide, rfl⟩
    AllSent [.reply p] (sendGetValue (Vector.replicate 100 0) true
      (Gateway.reset.move (.reply r)).fepDevList) := by
  intro p r
  have reached := reach_first_reply r
  refine (reported_values_real_iff _ _ reached (Vector.replicate 100 0)).mpr ?_
  intro i online
  refine ⟨p, List.mem_singleton_self _, ?_, by decide⟩
  revert i
  decide

end FepMaster

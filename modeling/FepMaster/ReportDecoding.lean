import FepMaster.Conservation

/-!
# What a report can be read as

The first byte of a group is the eight-bit sum of a type and an id, so a report can be read back
only if every type leaves the low three bits clear and every active slot carries its own number.
`Identified` is that invariant of the table: the receive handler establishes it one write at a
time, and no other party writes the two fields.

`report_roundtrip` reads a report of a reachable table back, and recovers from it everything the
table says of its active slots.
-/

namespace FepMaster

open Transition

/-! ## The invariant -/

/-- Once the handler has written the id of its packet, the slot carries it. -/
def HandlerPc.IdWritten (table : DevTable) : HandlerPc → Prop
  | .receive | .take _ | .setDevType _ | .setDevId _ => True
  | .testHigh p | .testLow p _ | .setNewData p | .readData p | .setData p _ | .readDataL p
  | .setDataL p _ | .clearCount p | .setStatus p | .give p =>
      (table p.slot).devId = p.packetDevId

/-- Types leave the bits of the id clear, and active slots carry their number. -/
structure Identified (table : DevTable) (handler : HandlerPc) : Prop where
  aligned : ∀ k, (table k).devType &&& 0x07 = 0
  number : ∀ i : Polled, (table i.slot).status = active → (table i.slot).devId = i.number
  written : handler.IdWritten table

/-- A write keeps the invariant if it does so in its own slot. -/
theorem Identified.write {s : Shared} {handler handler' : HandlerPc}
    (inv : Identified s.fepDevList handler) {k : Slot} {f : FepDev → FepDev}
    (aligned : (f (s.fepDevList k)).devType &&& 0x07 = 0)
    (number : ∀ i : Polled, i.slot = k → (f (s.fepDevList k)).status = active →
      (f (s.fepDevList k)).devId = i.number)
    (written : handler'.IdWritten (s.write k f).fepDevList) :
    Identified (s.write k f).fepDevList handler' := by
  constructor
  · intro l
    rw [Shared.write_apply]
    split
    · exact aligned
    · exact inv.aligned l
  · intro i online
    rw [Shared.write_apply] at online ⊢
    split
    · next own =>
        rw [if_pos own] at online
        exact number i own online
    · next other =>
        rw [if_neg other] at online
        exact inv.number i online
  · exact written

/-- What has been written of the id survives writes to other fields. -/
theorem HandlerPc.IdWritten.write {s : Shared} {handler : HandlerPc} {k : Slot}
    {f : FepDev → FepDev} (written : handler.IdWritten s.fepDevList)
    (keeps : ∀ d, (f d).devId = d.devId) : handler.IdWritten (s.write k f).fepDevList := by
  have same := fun l => s.write_field FepDev.devId k l keeps
  cases handler <;> simp only [IdWritten, same] at written ⊢ <;> exact written

/-- Every step of the handler keeps the invariant. -/
theorem HandlerMove.identified {s s' : Shared} {pc pc' : HandlerPc}
    (move : HandlerMove s pc s' pc') (inv : Identified s.fepDevList pc) :
    Identified s'.fepDevList pc' := by
  have written := inv.written
  cases move with
  | @dequeue p =>
      refine ⟨inv.aligned, inv.number, ?_⟩
      rcases HandlerPc.dispatch_cases p with ⟨-, next⟩ | ⟨-, next⟩ <;> rw [next] <;> trivial
  | @setDevType p =>
      apply inv.write (high_aligned p.devInfo)
      · intro i own online
        rw [← own] at online ⊢
        exact inv.number i online
      · trivial
  | @setDevId p =>
      apply inv.write (inv.aligned p.slot)
      · intro i own _
        exact packetDevId_of_slot own.symm
      · rw [HandlerPc.IdWritten, Shared.write_self]
  | @setNewData p | @setData p | @setDataL p | @clearCount p =>
      apply inv.write (inv.aligned p.slot)
      · intro i own online
        rw [← own] at online ⊢
        exact inv.number i online
      · exact @HandlerPc.IdWritten.write s (.give p) p.slot _ written fun _ => rfl
  | @setStatus p =>
      apply inv.write (inv.aligned p.slot)
      · intro i own _
        exact Eq.trans written (packetDevId_of_slot own.symm)
      · exact @HandlerPc.IdWritten.write s (.give p) p.slot _ written fun _ => rfl
  | give => exact ⟨inv.aligned, inv.number, trivial⟩
  | granted | refused => exact ⟨inv.aligned, inv.number, trivial⟩
  | _ => exact ⟨inv.aligned, inv.number, written⟩

/-- Every step of the poller keeps the invariant. -/
theorem PollerMove.identified {s s' : Shared} {pc pc' : PollerPc} {handler : HandlerPc}
    (move : PollerMove s pc s' pc') (inv : Identified s.fepDevList handler) :
    Identified s'.fepDevList handler := by
  cases move with
  | @writeCount i | @clearNew i =>
      apply inv.write (inv.aligned i.slot)
      · intro k own online
        rw [← own] at online ⊢
        exact inv.number k online
      · exact inv.written.write fun _ => rfl
  | @setInactive i =>
      apply inv.write (inv.aligned i.slot)
      · intro k _ online
        exact absurd online inactive_ne_active
      · exact inv.written.write fun _ => rfl
  | _ => exact inv

/-- Every reachable table is identified. -/
theorem identified_of_reach {x : Master} (reached : masterLts.Reach x) :
    Identified x.shared.fepDevList x.handler := by
  refine Lts.ReachWhile.invariant
    (P := fun x => Identified (Master.shared x).fepDevList x.handler) ?_ ?_ reached
  · intro x start
    subst start
    refine ⟨fun _ => ?_, fun _ online => ?_, trivial⟩
    · exact (by decide : FepDev.zero.devType &&& 0x07 = 0)
    · exact absurd online inactive_ne_active
  · intro x a x' _ inv _ taken
    cases masterLts_move taken with
    | uart4 e => exact inv
    | tim3 => exact inv
    | handler move => exact move.identified inv
    | poller move => exact move.identified inv
    | udp move =>
        have same := move.fepDevList_eq
        simp only [same]
        exact inv

/-! ## Reading a report -/

/-- What a datagram should be for a table whose active slots are given. -/
structure IsReportOf (table : DevTable) (datagram : List UInt8) : Prop where
  length : datagram.length = 3 * (activeOf table polledSlots).length + 4
  fits : datagram.length ≤ 100
  size : ∃ size, datagram[1]? = some size ∧ size.toNat = datagram.length
  start : datagram[0]? = some 0x11
  trailer : datagram.getLast? = some 0xFE
  decoded : decodeReport datagram = (activeOf table polledSlots).map fun i =>
    ⟨(table i.slot).devType, i.number, (table i.slot).data, (table i.slot).dataL⟩
  inOrder : (activeOf table polledSlots).Pairwise (· < ·)

/-- The tables agree on which slots are active, and on type and value of those. -/
def SameActive (table table' : DevTable) : Prop :=
  ∀ i : Polled, ((table i.slot).status = active ↔ (table' i.slot).status = active) ∧
    ((table i.slot).status = active → (table i.slot).entry = (table' i.slot).entry)

theorem Polled.number_injective : Function.Injective Polled.number := by
  have distinct : ∀ i j : Polled, i.number = j.number → i = j := by decide
  exact fun i j => distinct i j

theorem mem_activeOf {table : DevTable} {i : Polled} :
    i ∈ activeOf table polledSlots ↔ (table i.slot).status = active := by
  simp [activeOf, polledSlots]

theorem Identified.wellFormed {table : DevTable} {handler : HandlerPc}
    (inv : Identified table handler) : ∀ e ∈ activeEntries table, e.WellFormed := by
  intro e member
  rcases List.mem_map.mp member with ⟨i, among, rfl⟩
  refine ⟨inv.aligned i.slot, ?_⟩
  have ident : (entryOf table i).devId = i.number := inv.number i (mem_activeOf.mp among)
  have small : ∀ k : Polled, k.number.toNat < 8 := by decide
  rw [ident]
  exact small i

/-- The report of an identified table reads as its active entries. -/
theorem Identified.decode {table : DevTable} {handler : HandlerPc}
    (inv : Identified table handler) (stack : Vector UInt8 100) :
    decodeReport (sendGetValue stack true table) = activeEntries table := by
  rw [sendGetValue_granted]
  exact decodeReport_encodeReport inv.wellFormed

theorem Identified.isReportOf {table : DevTable} {handler : HandlerPc}
    (inv : Identified table handler) (stack : Vector UInt8 100) :
    IsReportOf table (sendGetValue stack true table) := by
  have few := length_activeOf table
  have length : (sendGetValue stack true table).length =
      3 * (activeOf table polledSlots).length + 4 := by
    rw [sendGetValue_granted, length_encodeReport, activeEntries, List.length_map]
  refine ⟨length, by omega, ⟨UInt8.ofNat (3 * (activeEntries table).length + 4), ?_, ?_⟩,
    ?_, ?_, ?_, ?_⟩
  · rw [sendGetValue_granted]
    rfl
  · rw [length, activeEntries, List.length_map]
    exact toNat_sizeByte few
  · rw [sendGetValue_granted]
    rfl
  · rw [sendGetValue_granted, encodeReport, ← List.cons_append, ← List.cons_append,
      ← List.cons_append]
    exact List.getLast?_concat
  · rw [inv.decode, activeEntries]
    refine List.map_congr_left fun i member => ?_
    rw [entryOf, FepDev.entry, inv.number i (mem_activeOf.mp member)]
  · exact (List.pairwise_lt_finRange 6).filter _

/-- Tables with the same active entries agree. -/
theorem Identified.sameActive {table table' : DevTable} {handler handler' : HandlerPc}
    (inv : Identified table handler) (inv' : Identified table' handler')
    (same : activeEntries table = activeEntries table') : SameActive table table' := by
  have found : ∀ {t t' : DevTable} {h h' : HandlerPc}, Identified t h → Identified t' h' →
      activeEntries t = activeEntries t' → ∀ i : Polled, (t i.slot).status = active →
        (t' i.slot).status = active ∧ (t i.slot).entry = (t' i.slot).entry := by
    intro t t' h h' inv inv' same i online
    have listed : entryOf t i ∈ activeEntries t' := by
      rw [← same]
      exact List.mem_map_of_mem (mem_activeOf.mpr online)
    rcases List.mem_map.mp listed with ⟨k, among, entry⟩
    have online' := mem_activeOf.mp among
    have ids := congrArg ReportEntry.devId entry
    have number : k = i := Polled.number_injective
      ((inv'.number k online').symm.trans (ids.trans (inv.number i online)))
    subst number
    exact ⟨online', entry.symm⟩
  intro i
  refine ⟨⟨fun online => ?_, fun online => ?_⟩, fun online => ?_⟩
  · exact (found inv inv' same i online).1
  · exact (found inv' inv same.symm i online).1
  · exact (found inv inv' same i online).2

/-- **Report format round trip.**  With the lock, the report of a reachable table is well formed
and reads back as the active slots of the table; reports of reachable tables that differ in an
active slot are different. -/
theorem report_roundtrip (x x' : Master) (reached : masterLts.Reach x)
    (reached' : masterLts.Reach x') (stack stack' : Vector UInt8 100) :
    IsReportOf x.shared.fepDevList (sendGetValue stack true x.shared.fepDevList) ∧
      (¬ SameActive x.shared.fepDevList x'.shared.fepDevList →
        sendGetValue stack true x.shared.fepDevList ≠
          sendGetValue stack' true x'.shared.fepDevList) := by
  have inv := identified_of_reach reached
  have inv' := identified_of_reach reached'
  refine ⟨inv.isReportOf stack, fun differ same => differ (inv.sameActive inv' ?_)⟩
  rw [← inv.decode stack, ← inv'.decode stack', same]

/-- The report after one reply, against the report of the zeroed table. -/
theorem report_roundtrip_one_reply :
    ∃ x, masterLts.Reach x ∧ ∀ stack stack' : Vector UInt8 100,
      decodeReport (sendGetValue stack true x.shared.fepDevList) =
          [⟨0x08, 0x01, 0x12, 0x34⟩] ∧
        sendGetValue stack true x.shared.fepDevList ≠
          sendGetValue stack' true Master.start.shared.fepDevList := by
  obtain ⟨x, reached, told⟩ := Lts.exists_reach_of_exec (L := masterLts) (s := Master.start) rfl
    (replyOnBus [0x14, 0x05, 0x09, 0x12, 0x34] ++ List.replicate 15 (.handler false))
    (P := fun x => activeEntries x.shared.fepDevList == [⟨0x08, 0x01, 0x12, 0x34⟩] &&
      (x.shared.fepDevList (Polled.slot 0)).status == active)
    (by decide +kernel)
  rcases (Bool.and_eq_true_iff).mp told with ⟨listed, online⟩
  refine ⟨x, reached, fun stack stack' => ?_⟩
  obtain ⟨-, differ⟩ :=
    report_roundtrip x Master.start reached (.init rfl) stack stack'
  refine ⟨?_, differ fun same => ?_⟩
  · rw [(identified_of_reach reached).decode, eq_of_beq listed]
  · have zeroed := (same 0).1.mp (eq_of_beq online)
    exact absurd zeroed inactive_ne_active

end FepMaster

import Mathlib.Data.Fintype.Basic
import Mathlib.Data.Fintype.Card
import FepMaster.ReportDecoding

/-!
# Building a report under preemption

`SendGetValue` reads the table one field at a time, and the poller may write to it in between.
`callLog` records of the call under way the tables there have been since it was entered, the slots
it has found active, and whether one of these has been set inactive since.

Whatever happens in between, the datagram lists the slots the loop found active
(`devIds_of_datagram`): the fields it copies belong to the handler, and the lock keeps the handler
out.
-/

namespace FepMaster

open Transition

/-! ## The history of a call -/

/-- The tables since the call was entered, newest first; the slots listed so far; whether one of
them has been set inactive since it was listed. -/
structure CallLog where
  visited : List DevTable
  listed : List Polled
  lost : Bool

/-- A listed slot is set inactive. -/
def PollerPc.loses (listed : List Polled) : PollerPc → Bool
  | .setInactive i => i ∈ listed
  | _ => false

/-- The slots listed after a step of the server task. -/
def UdpPc.lists (table : DevTable) (listed : List Polled) : UdpPc → List Polled
  | .readStatus _ _ i => if (table i.slot).status = active then listed ++ [i] else listed
  | .clearFlag => []
  | _ => listed

/-- The tables of the call after a step of the server task; the call is entered after
`clearFlag`. -/
def UdpPc.visits (table : DevTable) (visited : List DevTable) : UdpPc → List DevTable
  | .clearFlag => [table]
  | _ => table :: visited

/-- Whether a listed slot has been lost, after a step of the server task. -/
def UdpPc.keepsLost (lost : Bool) : UdpPc → Bool
  | .clearFlag => false
  | _ => lost

/-- The history of the call under way. -/
def callLog : Monitor Master Act CallLog where
  init x := ⟨[x.shared.fepDevList], [], false⟩
  next m x a x' :=
    match a with
    | .udp _ _ =>
        ⟨x.udp.visits x'.shared.fepDevList m.visited, x.udp.lists x.shared.fepDevList m.listed,
          x.udp.keepsLost m.lost⟩
    | .poller _ =>
        ⟨x'.shared.fepDevList :: m.visited, m.listed, m.lost || x.poller.loses m.listed⟩
    | _ => ⟨x'.shared.fepDevList :: m.visited, m.listed, m.lost⟩

/-! ## The buffer of the call -/

/-- `j` groups, those of the slots in `done`, and the bytes `part` of the next. -/
def Built (buff : Vector UInt8 100) (j : Nat) (done : List Polled) (part : List UInt8) : Prop :=
  ∃ es : List ReportEntry, Holds buff (entryBytes es ++ part) ∧ j = es.length ∧
    es.map ReportEntry.devId = done.map Polled.number ∧ ∀ e ∈ es, e.WellFormed

/-- What the buffer holds at each point of the call. -/
def UdpPc.Writing (table : DevTable) (listed : List Polled) : UdpPc → Prop
  | .wait | .clearFlag => True
  | .call => listed = []
  | .take buff => listed = [] ∧ Built buff 0 [] []
  | .readStatus buff j _ | .give buff j | .send buff j => Built buff j listed []
  | .readType buff j i =>
      (table i.slot).devId = i.number ∧ ∃ done, listed = done ++ [i] ∧ Built buff j done []
  | .readId buff j i devType =>
      (table i.slot).devId = i.number ∧ devType &&& 0x07 = 0 ∧
        ∃ done, listed = done ++ [i] ∧ Built buff j done []
  | .readData buff j i =>
      ∃ devType done, devType &&& 0x07 = 0 ∧ listed = done ++ [i] ∧
        Built buff j done [devType + i.number]
  | .readDataL buff j i =>
      ∃ devType data done, devType &&& 0x07 = 0 ∧ listed = done ++ [i] ∧
        Built buff j done [devType + i.number, data]

/-- The positions the loop has read. -/
def UdpPc.hasRead (k : Polled) : UdpPc → Bool
  | .wait | .clearFlag | .call | .take _ => false
  | .readStatus _ _ i => k < i
  | .readType _ _ i | .readId _ _ i _ | .readData _ _ i | .readDataL _ _ i => k ≤ i
  | .give _ _ | .send _ _ => true

theorem Polled.number_lt (i : Polled) : i.number.toNat < 8 := by
  revert i
  decide

theorem Built.start (stack : Vector UInt8 100) : Built (startReport stack) 0 [] [] :=
  ⟨[], Holds.start stack, rfl, rfl, fun _ member => absurd member List.not_mem_nil⟩

/-- Writing the next byte of a group. -/
theorem Built.push {buff : Vector UInt8 100} {j : Nat} {done : List Polled} {part : List UInt8}
    (built : Built buff j done part) (few : done.length < 6) (partial_ : part.length < 3)
    (b : UInt8) : Built (buff.setIfInBounds (3 + 3 * j + part.length) b) j done (part ++ [b]) := by
  rcases built with ⟨es, holds, rfl, ids, wellFormed⟩
  have count : es.length = done.length := by
    simpa using congrArg List.length ids
  have body : (entryBytes es ++ part).length = 3 * es.length + part.length := by
    rw [List.length_append, length_entryBytes]
  refine ⟨es, ?_, rfl, ids, wellFormed⟩
  rw [← List.append_assoc]
  exact holds.push (by omega) (by omega) b

/-- The last byte of a group completes an entry. -/
theorem Built.complete {buff : Vector UInt8 100} {j : Nat} {done : List Polled} {i : Polled}
    {devType data dataL : UInt8} (aligned : devType &&& 0x07 = 0)
    (built : Built buff j done [devType + i.number, data, dataL]) :
    Built buff (j + 1) (done ++ [i]) [] := by
  rcases built with ⟨es, holds, rfl, ids, wellFormed⟩
  refine ⟨es ++ [⟨devType, i.number, data, dataL⟩], ?_, ?_, ?_, ?_⟩
  · simpa [entryBytes, List.flatMap_append, ReportEntry.bytes] using holds
  · rw [List.length_append, List.length_singleton]
  · rw [List.map_append, List.map_append, ids]
    rfl
  · intro e member
    rcases List.mem_append.mp member with earlier | last
    · exact wellFormed e earlier
    · rw [List.mem_singleton.mp last]
      exact ⟨aligned, i.number_lt⟩

/-- What a receiver reads in a finished datagram. -/
theorem Built.devIds {buff : Vector UInt8 100} {j : Nat} {listed : List Polled}
    (built : Built buff j listed []) (few : listed.length ≤ 6) :
    (decodeReport (finishReport buff j)).map ReportEntry.devId = listed.map Polled.number := by
  rcases built with ⟨es, holds, rfl, ids, wellFormed⟩
  have count : es.length = listed.length := by
    simpa using congrArg List.length ids
  rw [List.append_nil] at holds
  rw [holds.finish (by omega), decodeReport_encodeReport wellFormed, ids]

/-! ## The invariant of a call -/

/-- The buffer is on its way, and the slots are listed in order and only after they have been
read. -/
structure CallInv (table : DevTable) (pc : UdpPc) (listed : List Polled) : Prop where
  writing : pc.Writing table listed
  increasing : listed.Pairwise (· < ·)
  read : pc.inside = true → ∀ k ∈ listed, pc.hasRead k = true

theorem UdpPc.writing_afterSlot {table : DevTable} {listed : List Polled}
    {buff : Vector UInt8 100} {j : Nat} (i : Polled) (built : Built buff j listed []) :
    (afterSlot buff j i).Writing table listed := by
  unfold afterSlot
  cases i.next with
  | some k => exact built
  | none => exact built

theorem UdpPc.hasRead_afterSlot (buff : Vector UInt8 100) (j : Nat) (i k : Polled) :
    (afterSlot buff j i).hasRead k = decide (k ≤ i) := by
  have bounds : ∀ i k : Polled, (i.next.all fun n => decide (k < n)) = decide (k ≤ i) := by
    decide
  rw [← bounds i k, afterSlot]
  cases i.next <;> rfl

theorem length_le_of_increasing {listed : List Polled} (increasing : listed.Pairwise (· < ·)) :
    listed.length ≤ 6 := by
  have distinct : listed.Nodup :=
    increasing.imp fun before => Nat.ne_of_lt before ∘ congrArg Fin.val
  exact distinct.length_le_card

/-- The invariant depends on the ids of the table only, and only while the loop runs. -/
theorem CallInv.frame {table table' : DevTable} {pc : UdpPc} {listed : List Polled}
    (inv : CallInv table pc listed)
    (same : pc.inside = true → ∀ k, (table' k).devId = (table k).devId) :
    CallInv table' pc listed := by
  refine ⟨?_, inv.increasing, inv.read⟩
  have writing := inv.writing
  cases pc with
  | readType buff j i | readId buff j i devType =>
      exact ⟨(same rfl i.slot).trans writing.1, writing.2⟩
  | _ => exact writing

/-- A step of the server task keeps the invariant. -/
theorem UdpMove.callInv {s s' : Shared} {pc pc' : UdpPc} {handler : HandlerPc}
    {listed : List Polled} (move : UdpMove s pc s' pc') (ident : Identified s.fepDevList handler)
    (inv : CallInv s.fepDevList pc listed) :
    CallInv s'.fepDevList pc' (pc.lists s.fepDevList listed) := by
  have writing := inv.writing
  have few := length_le_of_increasing inv.increasing
  cases move with
  | idle | begin => exact ⟨trivial, inv.increasing, fun inside => Bool.noConfusion inside⟩
  | clearFlag => exact ⟨rfl, .nil, fun inside => Bool.noConfusion inside⟩
  | call stack =>
      exact ⟨⟨writing, Built.start stack⟩, inv.increasing, fun inside => Bool.noConfusion inside⟩
  | granted =>
      rcases writing with ⟨empty, built⟩
      subst empty
      exact ⟨built, .nil, fun _ k member => absurd member List.not_mem_nil⟩
  | refused =>
      rcases writing with ⟨empty, built⟩
      subst empty
      exact ⟨built, .nil, fun inside => Bool.noConfusion inside⟩
  | @listed buff j i online =>
      have before : ∀ k ∈ listed, k < i := fun k member =>
        of_decide_eq_true (inv.read rfl k member)
      rw [UdpPc.lists, if_pos online]
      refine ⟨⟨ident.number i online, listed, rfl, writing⟩, ?_, fun _ k member => ?_⟩
      · refine List.pairwise_append.mpr ⟨inv.increasing, List.pairwise_singleton _ _, ?_⟩
        intro k member l last
        rw [List.mem_singleton.mp last]
        exact before k member
      · refine decide_eq_true ?_
        rcases List.mem_append.mp member with earlier | last
        · exact Nat.le_of_lt (before k earlier)
        · exact Nat.le_of_eq (congrArg Fin.val (List.mem_singleton.mp last))
  | @skipped buff j i offline =>
      rw [UdpPc.lists, if_neg offline]
      refine ⟨UdpPc.writing_afterSlot i writing, inv.increasing, fun _ k member => ?_⟩
      rw [UdpPc.hasRead_afterSlot]
      exact decide_eq_true (Nat.le_of_lt (of_decide_eq_true (inv.read rfl k member)))
  | @readType buff j i =>
      exact ⟨⟨writing.1, ident.aligned _, writing.2⟩, inv.increasing, inv.read⟩
  | @readId buff j i devType =>
      rcases writing with ⟨number, aligned, done, split, built⟩
      rw [split, List.length_append, List.length_singleton] at few
      have pushed := built.push (by omega) (by decide)
        (devType + (s.fepDevList i.slot).devId)
      rw [number] at pushed ⊢
      exact ⟨⟨devType, done, aligned, split, pushed⟩, inv.increasing, inv.read⟩
  | @readData buff j i =>
      rcases writing with ⟨devType, done, aligned, split, built⟩
      rw [split, List.length_append, List.length_singleton] at few
      have pushed := built.push (by omega) (by simp) (s.fepDevList i.slot).data
      exact ⟨⟨devType, _, done, aligned, split, pushed⟩, inv.increasing, inv.read⟩
  | @readDataL buff j i =>
      rcases writing with ⟨devType, data, done, aligned, split, built⟩
      subst split
      rw [List.length_append, List.length_singleton] at few
      have pushed := built.push (by omega) (by simp) (s.fepDevList i.slot).dataL
      refine ⟨UdpPc.writing_afterSlot i ?_, inv.increasing, fun _ k member => ?_⟩
      · exact Built.complete aligned pushed
      · rw [UdpPc.hasRead_afterSlot]
        exact inv.read rfl k member
  | give => exact ⟨writing, inv.increasing, fun inside => Bool.noConfusion inside⟩
  | send => exact ⟨trivial, inv.increasing, fun inside => Bool.noConfusion inside⟩

/-- The invariant of every run. -/
theorem callInv_of_reach {x : Master × CallLog} (reached : (masterLts.watch callLog).Reach x) :
    CallInv x.1.shared.fepDevList x.1.udp x.2.listed := by
  apply Lts.ReachWhile.invariant_watched
    (P := fun x m => CallInv (Master.shared x).fepDevList x.udp m.listed) ?_ ?_ reached
  · intro x start
    subst start
    exact ⟨trivial, .nil, fun inside => Bool.noConfusion inside⟩
  · intro x m a x' before inv _ moved
    have lock := locked_of_reach before.unwatched
    have ident := identified_of_reach before.unwatched
    cases masterLts_move moved with
    | uart4 e => exact inv
    | tim3 => exact inv
    | handler move =>
        refine inv.frame fun inside k => ?_
        rw [move.fepDevList_eq (lock.handler_none inside)]
    | poller move =>
        exact inv.frame fun _ k => congrArg ReportEntry.devId (move.entry_eq k)
    | udp move => exact move.callInv ident inv

/-- Whatever interrupts the call, its datagram lists the slots the loop found active. -/
theorem devIds_of_datagram {x : Master × CallLog} (reached : (masterLts.watch callLog).Reach x)
    {datagram : List UInt8} (sent : x.1.udp.datagram = some datagram) :
    (decodeReport datagram).map ReportEntry.devId = x.2.listed.map Polled.number := by
  have inv := callInv_of_reach reached
  have writing := inv.writing
  generalize x.1.udp = pc at sent writing
  cases pc with
  | send buff j =>
      cases sent
      exact Built.devIds writing (length_le_of_increasing inv.increasing)
  | _ => cases sent

end FepMaster

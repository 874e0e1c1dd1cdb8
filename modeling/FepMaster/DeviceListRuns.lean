import FepMaster.DeviceListRemove
import FepMaster.Lib.Transition

/-!
# Runs of the device list

`FEP_LIST_API.Add` and `Remove` in any order from the empty list.  `listLts` is this system; a
label says which node `pvPortMalloc` returns and what its memory held, and how many iterations a
loop is given.

A run stays in order exactly if no `Remove` meets two adjacent nodes of its device behind the
first node that stays (`list_sound_iff`).  Where every key is added only while it is absent this
never happens, and `Find` returns the record last added exactly if the allocated memory already
held the fields `Add` does not copy (`records_whole_iff`).
-/

namespace FepMaster

open Transition LinkedList

/-! ## The system -/

/-- A call of the list: `Add` with the node it is given, `Remove` with the iterations allowed. -/
inductive ListCall
  | add (tmpDev : FepDev) (tmp : Addr) (memory : FepDev)
  | remove (devId devType : UInt8) (fuel : Nat)

/-- The empty list, in a memory with any contents. -/
def FepList.start (dev : Addr → FepDev) (next : Addr → Option Addr) : FepList :=
  ⟨dev, next, fun _ => false, none, 0⟩

/-- One call; the allocator never returns a node in use. -/
def FepList.call (s : FepList) : ListCall → Option FepList
  | .add tmpDev tmp memory =>
      if s.allocated tmp then none else some (s.fepListAdd tmpDev tmp memory)
  | .remove devId devType fuel => s.fepListRemove fuel devId devType

/-- The system of calls. -/
def listLts : Lts FepList ListCall where
  Init s := ∃ dev next, s = FepList.start dev next
  step := FepList.call

theorem FepList.start_represents (dev : Addr → FepDev) (next : Addr → Option Addr) :
    (FepList.start dev next).Represents [] where
  visits := rfl
  live := fun _ member => by cases member
  counter := rfl

theorem reach_start (dev : Addr → FepDev) (next : Addr → Option Addr) :
    listLts.Reach (FepList.start dev next) := .init ⟨dev, next, rfl⟩

/-! ## Lists in order -/

/-- The list is in order, and every further call of `Remove` ends. -/
structure ListSound (s : FepList) : Prop where
  represents : ∃ nodes, s.Represents nodes
  ends : ∀ devId devType, ∃ s' n, ∀ fuel, n ≤ fuel → s.fepListRemove fuel devId devType = some s'

theorem FepList.Represents.sound {s : FepList} {nodes : List Addr}
    (represents : s.Represents nodes) : ListSound s := by
  refine ⟨⟨nodes, represents⟩, fun devId devType => ?_⟩
  obtain ⟨s', ended, -⟩ := FepList.fepListRemove_eq represents devId devType
  exact ⟨s', nodes.length, ended⟩

/-- The device is deleted wherever it was and nothing else happens: `Find` no longer has it, and
finds every other device where it was. -/
structure RemovesDevice (devId devType : UInt8) (s s' : FepList) : Prop where
  devices : ∀ nodes nodes', Visits s.next s.fepListRoot nodes →
    Visits s'.next s'.fepListRoot nodes' →
    s'.devices nodes' =
      (s.devices nodes).filter fun d => !FepList.isDevice devId devType d
  gone : ∃ n, ∀ fuel, n ≤ fuel → s'.fepListFind fuel devId devType = some none
  others : ∀ id ty, (id, ty) ≠ (devId, devType) → ∃ found,
    (∃ n, ∀ fuel, n ≤ fuel →
      s.fepListFind fuel id ty = some found ∧ s'.fepListFind fuel id ty = some found) ∧
    ∀ a, found = some a → s'.dev a = s.dev a

/-- What a call should do: leave the list in order, and if it is a `Remove`, delete its device. -/
def CallSound (s : FepList) (c : ListCall) (s' : FepList) : Prop :=
  ListSound s' ∧
    ∀ devId devType fuel, c = .remove devId devType fuel → RemovesDevice devId devType s s'

/-- If the call is a `Remove`, no two nodes of its device are adjacent behind the first node that
stays. -/
def RemovesApart (s : FepList) (c : ListCall) : Prop :=
  ∀ devId devType fuel, c = .remove devId devType fuel →
    ∀ nodes, Visits s.next s.fepListRoot nodes →
      FepList.Apart (fun a => FepList.isDevice devId devType (s.dev a)) nodes

/-- A removal after which the links visit the nodes that stay leaves the list in order. -/
theorem FepList.Removal.represents {gone : Addr → Bool} {nodes : List Addr} {s s' : FepList}
    (removal : Removal gone nodes s s') (represents : s.Represents nodes)
    (visits : Visits s'.next s'.fepListRoot (nodes.filter fun a => !gone a)) :
    s'.Represents (nodes.filter fun a => !gone a) := by
  refine ⟨visits, fun a member => ?_, ?_⟩
  · obtain ⟨among, stays⟩ := List.mem_filter.mp member
    rw [removal.allocated, represents.live a among]
    simpa using Or.inl (by simpa using stays)
  · have split := List.length_eq_countP_add_countP gone (l := nodes)
    rw [removal.counter, represents.counter, ← List.countP_eq_length_filter]
    simp only [Bool.not_eq_true, Bool.decide_eq_false] at split
    omega

/-- Two keys of one device are one key. -/
theorem FepList.isDevice_unique {devId devType id ty : UInt8} {d : FepDev}
    (one : isDevice devId devType d = true) (other : isDevice id ty d = true) :
    (id, ty) = (devId, devType) := by
  simp only [isDevice, Bool.and_eq_true, beq_iff_eq] at one other
  rw [← one.1, ← one.2, other.1, other.2]

/-- A removal of nodes that are apart does what it should. -/
theorem removesDevice_of_apart {s s' : FepList} {nodes : List Addr} {devId devType : UInt8}
    (represents : s.Represents nodes)
    (removal : FepList.Removal (fun a => FepList.isDevice devId devType (s.dev a)) nodes s s')
    (after : s'.Represents (nodes.filter fun a => !FepList.isDevice devId devType (s.dev a))) :
    RemovesDevice devId devType s s' := by
  refine ⟨fun one two visits visits' => ?_, ?_, fun id ty other => ?_⟩
  · rw [← represents.unique visits, ← after.unique visits', FepList.devices, FepList.devices,
      removal.dev, List.filter_map]
    rfl
  · refine ⟨_, fun fuel enough => (FepList.fepListFind_eq after devId devType enough).trans ?_⟩
    rw [removal.dev, List.find?_filter, Option.some_inj, List.find?_eq_none]
    simp
  · refine ⟨nodes.find? fun a => FepList.isDevice id ty (s.dev a), ⟨nodes.length, ?_⟩, ?_⟩
    · intro fuel enough
      refine ⟨FepList.fepListFind_eq represents id ty enough, ?_⟩
      rw [FepList.fepListFind_eq after id ty (Nat.le_trans (List.length_filter_le _ nodes) enough),
        removal.dev, List.find?_filter]
      congr 2
      funext a
      cases found : FepList.isDevice id ty (s.dev a) with
      | false => exact decide_eq_false fun both => Bool.noConfusion both.2
      | true =>
          cases gone : FepList.isDevice devId devType (s.dev a) with
          | false => rfl
          | true => exact (other (FepList.isDevice_unique gone found)).elim
    · intro a _
      rw [removal.dev]

/-- The result of a `Remove` that ends does not depend on how many iterations were allowed. -/
theorem FepList.call_remove {s s' : FepList} {nodes : List Addr} {devId devType : UInt8}
    {fuel : Nat} (represents : s.Represents nodes)
    (taken : s.call (.remove devId devType fuel) = some s') :
    Removal (fun a => isDevice devId devType (s.dev a)) nodes s s' ∧
      Visits s'.next s'.fepListRoot
        (visitedAfter (fun a => isDevice devId devType (s.dev a)) nodes) := by
  obtain ⟨result, ended, removal, visited⟩ := fepListRemove_eq represents devId devType
  have same : s' = result := by
    have long := ended (max fuel nodes.length) (Nat.le_max_right _ _)
    rw [call, fepListRemove] at taken
    rw [fepListRemove] at long
    cases root : s.fepListRoot with
    | none =>
        rw [root] at taken long
        exact Option.some.inj (taken.symm.trans long)
    | some tmp =>
        rw [root] at taken long
        have more := removeLoop_fuel (Nat.le_max_left fuel nodes.length) taken
        exact Option.some.inj (more.symm.trans long)
  rw [same]
  exact ⟨removal, visited⟩

theorem FepList.call_add {s s' : FepList} {tmpDev memory : FepDev} {tmp : Addr}
    (taken : s.call (.add tmpDev tmp memory) = some s') :
    s.allocated tmp = false ∧ s' = s.fepListAdd tmpDev tmp memory := by
  rw [call] at taken
  split at taken
  · cases taken
  · next fresh => exact ⟨Bool.eq_false_iff.mpr fresh, (Option.some.inj taken).symm⟩

/-- **One call.**  From a list in order, a call does what it should exactly if its nodes are
apart. -/
theorem callSound_iff {s s' : FepList} {c : ListCall} (sound : ListSound s)
    (taken : s.call c = some s') : CallSound s c s' ↔ RemovesApart s c := by
  obtain ⟨nodes, represents⟩ := sound.represents
  cases c with
  | add tmpDev tmp memory =>
      obtain ⟨fresh, result⟩ := FepList.call_add taken
      have grown : ListSound s' := by
        rw [result]
        exact (FepList.fepListAdd_represents represents fresh tmpDev memory).sound
      constructor
      · intro _ _ _ _ remove
        cases remove
      · intro _
        refine ⟨grown, fun _ _ _ remove => ?_⟩
        cases remove
  | remove devId devType fuel =>
      obtain ⟨removal, visited⟩ := FepList.call_remove represents taken
      constructor
      · intro right id ty more call others visits
        cases call
        rw [← represents.unique visits, ← FepList.visitedAfter_stays_iff]
        intro a linked
        -- what is still linked has not been freed
        obtain ⟨after, afterwards⟩ := right.1.represents
        have live := afterwards.live a (afterwards.unique visited ▸ linked)
        have among := (FepList.visitedAfter_sublist _ _).subset linked
        rw [removal.allocated] at live
        simpa [among] using (Bool.and_eq_true_iff.mp live).2
      · intro apart
        rw [FepList.visitedAfter_eq_filter (apart _ _ _ rfl nodes represents.visits)] at visited
        have after := removal.represents represents visited
        refine ⟨after.sound, fun id ty more call => ?_⟩
        cases call
        exact removesDevice_of_apart represents removal after

/-- **The dynamic device list.**  The empty list is in order; and in every run of calls, each call
leaves the list in order and each `Remove` deletes its device and nothing else, exactly if each
`Remove` finds the nodes of its device apart. -/
theorem list_sound_iff (dev : Addr → FepDev) (next : Addr → Option Addr) (calls : List ListCall) :
    ListSound (FepList.start dev next) ∧
      (listLts.EveryStep CallSound (FepList.start dev next) calls ↔
        listLts.EveryStep (fun s c _ => RemovesApart s c) (FepList.start dev next) calls) := by
  have sound := (FepList.start_represents dev next).sound
  refine ⟨sound, ?_⟩
  apply Lts.everyStep_iff (G := ListSound) ?_ ?_ (reach_start dev next) sound
  · exact fun _ _ _ right => right.1
  · exact fun _ _ _ _ sound taken => callSound_iff sound taken

/-- A device record with this id and type. -/
def FepDev.ofKey (devId devType : UInt8) : FepDev :=
  { FepDev.zero with devId := devId, devType := devType }

/-- Three devices, the two older ones of one key: after their `Remove` the list still leads to a
freed node. -/
theorem list_reaches_freed :
    ¬ ∀ (dev : Addr → FepDev) (next : Addr → Option Addr) (calls : List ListCall),
      listLts.EveryStep CallSound (FepList.start dev next) calls := by
  intro claim
  let adds : List ListCall :=
    [.add (FepDev.ofKey 2 8) 1 FepDev.zero, .add (FepDev.ofKey 2 8) 2 FepDev.zero,
      .add (FepDev.ofKey 3 8) 3 FepDev.zero]
  have every := claim (fun _ => FepDev.zero) (fun _ => none) (adds ++ [.remove 2 8 3])
  have run : ((listLts.exec (FepList.start (fun _ => FepDev.zero) fun _ => none) adds).any
      fun s => (s.fepListRemove 3 2 8).any fun s' =>
        (s'.fepListRoot == some 3 && s'.next 3 == some 1) &&
          (s'.next 1 == none && !s'.allocated 1)) = true := by decide +kernel
  obtain ⟨s, executed, last⟩ := (Option.any_eq_true _ _).mp run
  obtain ⟨s', taken, links⟩ := (Option.any_eq_true _ _).mp last
  obtain ⟨first, second⟩ := Bool.and_eq_true_iff.mp links
  obtain ⟨root, behind⟩ := Bool.and_eq_true_iff.mp first
  obtain ⟨end_, freed⟩ := Bool.and_eq_true_iff.mp second
  have right := Lts.EveryStep.last every executed taken
  obtain ⟨nodes, represents⟩ := right.1.represents
  have visits : Visits s'.next s'.fepListRoot [3, 1] :=
    ⟨eq_of_beq root, eq_of_beq behind, eq_of_beq end_⟩
  have live := represents.live 1 (by rw [represents.unique visits]; decide)
  rw [live] at freed
  cases freed

end FepMaster

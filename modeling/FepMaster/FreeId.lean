import Mathlib.Data.List.Find
import Mathlib.Data.List.Perm.Subperm
import Mathlib.Order.Bounds.Basic
import FepMaster.DeviceRecords

/-!
# Free device ids

Two functions hand out the id of a new device: `fep_list_GetFreeID` searches the dynamic list
(`Drivers/FEP/fep_list.c`), `getFreeID` the array `fep_dev_list_tmp` (`Drivers/FEP/fep_rs485.c`).

The first tries all eight ids (`fepListGetFreeId_leastFree`).  The second collects the ids in use
and tries as many candidates as it has collected; if those are all in use, their number is the
least free id, and the function returns it modulo seven.  So it is right unless seven devices of
the type hold the ids `0..6` (`getFreeId_least_iff`).
-/

namespace FepMaster

/-! ## The dynamic list -/

/-- No node of the list has this id and type. -/
def FepList.freeIn (s : FepList) (nodes : List Addr) (devType : UInt8) (id : Nat) : Bool :=
  nodes.all fun a => !isDevice (UInt8.ofNat id) devType (s.dev a)

theorem FepList.getFreeIdLoop_eq {s : FepList} {nodes : List Addr} (represents : s.Represents nodes)
    (devType : UInt8) {fuel : Nat} (enough : nodes.length ≤ fuel) (candidates : List Nat) :
    getFreeIdLoop fuel s devType candidates =
      some (UInt8.ofNat ((candidates.find? (s.freeIn nodes devType)).getD 8)) := by
  induction candidates with
  | nil => rfl
  | cons id rest ih =>
      rw [getFreeIdLoop, fepListFind_eq represents _ _ enough, List.find?_cons]
      cases found : nodes.find? fun a => isDevice (UInt8.ofNat id) devType (s.dev a) with
      | none =>
          have free : s.freeIn nodes devType id = true := by
            rw [freeIn, List.all_eq_true]
            intro a member
            simpa using List.find?_eq_none.mp found a member
          rw [free]
          rfl
      | some a =>
          obtain ⟨member, key⟩ := find_device found
          have used : s.freeIn nodes devType id = false := by
            rw [freeIn, List.all_eq_false]
            exact ⟨a, member, by simp [isDevice_iff.mpr key]⟩
          rw [used]
          exact ih

/-- On a list in order, `GetFreeID` ends with the first of the ids `0..7` that no device of the
type has, or with 8. -/
theorem FepList.fepListGetFreeId_eq {s : FepList} {nodes : List Addr}
    (represents : s.Represents nodes) (devType : UInt8) {fuel : Nat}
    (enough : nodes.length ≤ fuel) :
    s.fepListGetFreeId fuel devType =
      some (UInt8.ofNat (((List.range 8).find? (s.freeIn nodes devType)).getD 8)) :=
  getFreeIdLoop_eq represents devType enough (List.range 8)

theorem FepList.freeIn_iff {s : FepList} {nodes : List Addr} {devType : UInt8} {id : Nat} :
    s.freeIn nodes devType id = true ↔
      ∀ a ∈ nodes, (s.dev a).key ≠ (UInt8.ofNat id, devType) := by
  unfold freeIn
  rw [List.all_eq_true]
  simp only [Bool.not_eq_true', Bool.eq_false_iff, ne_eq, isDevice_iff]

theorem FepList.not_freeIn_iff {s : FepList} {nodes : List Addr} {devType : UInt8} {id : Nat} :
    s.freeIn nodes devType id = false ↔
      ∃ a ∈ nodes, (s.dev a).key = (UInt8.ofNat id, devType) := by
  rw [Bool.eq_false_iff, ne_eq, freeIn_iff]
  simp only [ne_eq, not_forall, not_not, exists_prop]

/-- The id the search ends with: below it every id is in use, and it is free unless it is 8. -/
theorem FepList.getFreeId_spec {s : FepList} {nodes : List Addr} (represents : s.Represents nodes)
    (devType : UInt8) {fuel : Nat} (enough : nodes.length ≤ fuel) :
    ∃ r : UInt8, s.fepListGetFreeId fuel devType = some r ∧ r ≤ 8 ∧
      (∀ id < r, ∃ a ∈ nodes, (s.dev a).key = (id, devType)) ∧
      (r < 8 → ∀ a ∈ nodes, (s.dev a).key ≠ (r, devType)) := by
  rw [fepListGetFreeId_eq represents devType enough]
  cases search : (List.range 8).find? (s.freeIn nodes devType) with
  | some i =>
      obtain ⟨free, member, used⟩ := List.find?_range_eq_some.mp search
      have below : i < 8 := List.mem_range.mp member
      have value : (UInt8.ofNat i).toNat = i := by
        rw [UInt8.toNat_ofNat']
        omega
      refine ⟨UInt8.ofNat i, rfl, ?_, fun id earlier => ?_, fun _ => freeIn_iff.mp free⟩
      · rw [UInt8.le_iff_toNat_le, value]
        exact below.le
      · rw [UInt8.lt_iff_toNat_lt, value] at earlier
        have taken := used id.toNat earlier
        rw [Bool.not_eq_true', not_freeIn_iff, UInt8.ofNat_toNat] at taken
        exact taken
  | none =>
      refine ⟨8, rfl, UInt8.le_refl 8, fun id earlier => ?_, fun more => absurd more (by decide)⟩
      rw [UInt8.lt_iff_toNat_lt] at earlier
      have taken := List.find?_eq_none.mp search id.toNat (List.mem_range.mpr earlier)
      rw [Bool.not_eq_true, not_freeIn_iff, UInt8.ofNat_toNat] at taken
      exact taken

/-- The ids of the nodes of a type, in list order. -/
def FepList.idsOfType (s : FepList) (nodes : List Addr) (devType : UInt8) : List UInt8 :=
  ((s.devices nodes).filter fun d => d.devType = devType).map FepDev.devId

theorem FepList.mem_idsOfType {s : FepList} {nodes : List Addr} {devType id : UInt8} :
    id ∈ s.idsOfType nodes devType ↔ ∃ a ∈ nodes, (s.dev a).key = (id, devType) := by
  simp only [idsOfType, devices, List.mem_map, List.mem_filter, decide_eq_true_eq, FepDev.key,
    Prod.mk.injEq]
  constructor
  · intro found
    obtain ⟨d, ⟨⟨a, member, rfl⟩, own⟩, same⟩ := found
    exact ⟨a, member, same, own⟩
  · intro found
    obtain ⟨a, member, same, own⟩ := found
    exact ⟨s.dev a, ⟨⟨a, member, rfl⟩, own⟩, same⟩

/-- An `Add` puts the id of the new device before those of its type. -/
theorem FepList.idsOfType_add {s : FepList} {nodes : List Addr} (represents : s.Represents nodes)
    {tmp : Addr} (fresh : s.allocated tmp = false) (tmpDev memory : FepDev) :
    (s.fepListAdd tmpDev tmp memory).idsOfType (tmp :: nodes) tmpDev.devType =
      tmpDev.devId :: s.idsOfType nodes tmpDev.devType := by
  obtain ⟨new, old⟩ := dev_of_add represents fresh tmpDev memory
  have others : (s.fepListAdd tmpDev tmp memory).devices nodes = s.devices nodes :=
    List.map_congr_left old
  have first : (s.fepListAdd tmpDev tmp memory).devices (tmp :: nodes) =
      copyFields memory tmpDev :: s.devices nodes := by
    rw [← others, ← new]
    rfl
  have own : (copyFields memory tmpDev).devType = tmpDev.devType := rfl
  unfold idsOfType
  rw [first, List.filter_cons, if_pos (decide_eq_true own)]
  rfl

/-- **Free ids over the dynamic list.**  The result is at most 8, the ids below it are in use and
it is 8 exactly if all eight are.  Otherwise no device has it, and adding one that has it keeps
the ids of the type distinct. -/
theorem FepList.fepListGetFreeId_leastFree {s : FepList} {nodes : List Addr}
    (represents : s.Represents nodes) (devType : UInt8) {fuel : Nat}
    (enough : nodes.length ≤ fuel) :
    ∃ r : UInt8, s.fepListGetFreeId fuel devType = some r ∧ r ≤ 8 ∧
      (∀ id < r, ∃ a ∈ nodes, (s.dev a).key = (id, devType)) ∧
      (r = 8 ↔ ∀ id < 8, ∃ a ∈ nodes, (s.dev a).key = (id, devType)) ∧
      (r < 8 → (∀ a ∈ nodes, (s.dev a).key ≠ (r, devType)) ∧
        ∀ tmp tmpDev memory, s.allocated tmp = false → tmpDev.key = (r, devType) →
          (s.fepListAdd tmpDev tmp memory).Represents (tmp :: nodes) ∧
          ((s.idsOfType nodes devType).Nodup →
            ((s.fepListAdd tmpDev tmp memory).idsOfType (tmp :: nodes) devType).Nodup)) := by
  obtain ⟨r, result, most, used, free⟩ := getFreeId_spec represents devType enough
  refine ⟨r, result, most, used, ⟨?_, fun full => ?_⟩, fun below => ⟨free below, ?_⟩⟩
  · intro eight
    rw [← eight]
    exact used
  · refine UInt8.le_antisymm most (UInt8.not_lt.mp fun below => ?_)
    obtain ⟨a, member, key⟩ := full r below
    exact free below a member key
  · intro tmp tmpDev memory fresh key
    refine ⟨fepListAdd_represents represents fresh tmpDev memory, fun distinct => ?_⟩
    obtain ⟨id, type⟩ := Prod.mk.inj key
    rw [← type, idsOfType_add represents fresh tmpDev memory, type, id]
    refine List.nodup_cons.mpr ⟨fun again => ?_, distinct⟩
    obtain ⟨a, member, same⟩ := mem_idsOfType.mp again
    exact free below a member same

/-- Three devices of type 8 with the ids 3, 1 and 0, and one of type 4 with id 2: the result
is 2. -/
theorem FepList.getFreeId_gap :
    let empty := start (fun _ => FepDev.ofKey 0 0) fun _ => none
    let one := empty.fepListAdd (FepDev.ofKey 0 8) 5 (FepDev.ofKey 0 0)
    let two := one.fepListAdd (FepDev.ofKey 2 4) 6 (FepDev.ofKey 0 0)
    let three := two.fepListAdd (FepDev.ofKey 1 8) 7 (FepDev.ofKey 0 0)
    let s := three.fepListAdd (FepDev.ofKey 3 8) 9 (FepDev.ofKey 0 0)
    s.Represents [9, 7, 6, 5] ∧ ∃ r : UInt8, s.fepListGetFreeId 4 8 = some r ∧ r = 2 ∧
      ∀ a ∈ [9, 7, 6, 5], (s.dev a).key ≠ (r, 8) := by
  intro empty one two three s
  have none_ : empty.Represents [] := start_represents (fun _ => FepDev.ofKey 0 0) fun _ => none
  have first : one.Represents [5] := fepListAdd_represents none_ rfl _ _
  have second : two.Represents [6, 5] := fepListAdd_represents first rfl _ _
  have third : three.Represents [7, 6, 5] := fepListAdd_represents second rfl _ _
  have represents : s.Represents [9, 7, 6, 5] := fepListAdd_represents third rfl _ _
  obtain ⟨r, result, -, -, -, free⟩ := fepListGetFreeId_leastFree represents 8
    (show [9, 7, 6, 5].length ≤ 4 from le_rfl)
  have gap : s.fepListGetFreeId 4 8 = some 2 := rfl
  have same : r = 2 := Option.some.inj (result.symm.trans gap)
  subst same
  exact ⟨represents, 2, gap, rfl, (free (by decide)).1⟩

/-! ## The array -/

/-- The entries of `fep_dev_list_tmp` in use. -/
def entriesTmp (fepDevListTmp : DevTable) (numberDeviceTmp : Fin (maxDevices + 1)) : List FepDev :=
  ((List.finRange maxDevices).take numberDeviceTmp).map fepDevListTmp

/-- The loop that collects the ids of a type in `buff_id`, `index` of them. -/
def collectLoop (devType : UInt8) : List FepDev → Vector UInt8 8 → Nat → Vector UInt8 8 × Nat
  | [], buffId, index => (buffId, index)
  | d :: rest, buffId, index =>
      if d.devType = devType then
        collectLoop devType rest (buffId.setIfInBounds index d.devId) (index + 1)
      else collectLoop devType rest buffId index

/-- `i != buff_id[0] && .. && i != buff_id[7]`. -/
def notInBuffId (buffId : Vector UInt8 8) (i : Nat) : Bool :=
  buffId.toList.all fun id => i != id.toNat

/-- `getFreeID`. -/
def getFreeId (fepDevListTmp : DevTable) (numberDeviceTmp : Fin (maxDevices + 1))
    (devType : UInt8) : UInt8 :=
  if numberDeviceTmp.val = 0 then 0
  else
    let (buffId, index) := collectLoop devType (entriesTmp fepDevListTmp numberDeviceTmp)
      (Vector.replicate 8 0xFF) 0
    match (List.range index).find? (notInBuffId buffId) with
    | some i => UInt8.ofNat i
    | none => UInt8.ofNat (index % 7)

/-- The ids of a type, in table order. -/
def idsOf (devType : UInt8) (entries : List FepDev) : List Nat :=
  (entries.filter fun d => d.devType = devType).map fun d => d.devId.toNat

/-- An entry of the type has this id. -/
def UsedId (entries : List FepDev) (devType : UInt8) (id : Nat) : Prop :=
  ∃ d ∈ entries, d.devType = devType ∧ d.devId.toNat = id

theorem mem_idsOf {entries : List FepDev} {devType : UInt8} {id : Nat} :
    id ∈ idsOf devType entries ↔ UsedId entries devType id := by
  simp [idsOf, UsedId, and_assoc]

/-- The collecting loop puts the ids of the type behind those already in `buff_id`. -/
theorem collectLoop_eq {devType : UInt8} {entries : List FepDev} {buffId : Vector UInt8 8}
    {ids : List UInt8} (holds : buffId.toList = ids ++ List.replicate (8 - ids.length) 0xFF)
    (room : ids.length + (idsOf devType entries).length ≤ 8) :
    (collectLoop devType entries buffId ids.length).1.toList.map UInt8.toNat =
      ids.map UInt8.toNat ++ idsOf devType entries ++
        List.replicate (8 - (ids.length + (idsOf devType entries).length)) 255 ∧
    (collectLoop devType entries buffId ids.length).2 =
      ids.length + (idsOf devType entries).length := by
  induction entries generalizing buffId ids with
  | nil => simp [collectLoop, idsOf, holds]
  | cons d rest ih =>
      by_cases own : d.devType = devType
      · have found : idsOf devType (d :: rest) = d.devId.toNat :: idsOf devType rest := by
          simp [idsOf, own]
        rw [found, List.length_cons] at room
        have space : 8 - ids.length = 8 - (ids.length + 1) + 1 := by omega
        have stored : (buffId.setIfInBounds ids.length d.devId).toList =
            (ids ++ [d.devId]) ++ List.replicate (8 - (ids ++ [d.devId]).length) 0xFF := by
          rw [Vector.toList_setIfInBounds, holds, space, List.replicate_succ,
            List.set_append_right _ _ (Nat.le_refl _)]
          simp
        have later := ih stored (by rw [List.length_append, List.length_singleton]; omega)
        rw [List.length_append, List.length_singleton] at later
        rw [collectLoop, if_pos own, found, List.length_cons, later.1, later.2]
        constructor
        · rw [List.map_append, List.append_assoc, List.append_assoc, List.append_assoc,
            Nat.add_assoc, Nat.add_comm 1]
          rfl
        · omega
      · have skipped : idsOf devType (d :: rest) = idsOf devType rest := by simp [idsOf, own]
        rw [skipped] at room ⊢
        rw [collectLoop, if_neg own]
        exact ih holds room

/-- With at most eight entries of the type, a candidate below 255 passes the comparisons exactly
if it is not in use. -/
theorem notInBuffId_collectLoop {devType : UInt8} {entries : List FepDev}
    (few : (idsOf devType entries).length ≤ 8) {i : Nat} (small : i < 255) :
    notInBuffId (collectLoop devType entries (Vector.replicate 8 0xFF) 0).1 i =
      decide (i ∉ idsOf devType entries) := by
  have collected := (@collectLoop_eq devType entries (Vector.replicate 8 0xFF) [] (by simp)
    (by simpa using few)).1
  have compared : notInBuffId (collectLoop devType entries (Vector.replicate 8 0xFF) 0).1 i =
      decide (i ∉ (collectLoop devType entries (Vector.replicate 8 0xFF) 0).1.toList.map
        UInt8.toNat) := by
    rw [Bool.eq_iff_iff, notInBuffId, List.all_eq_true, decide_eq_true_iff, List.mem_map]
    constructor
    · intro differ found
      obtain ⟨id, member, same⟩ := found
      have := differ id member
      simp [same] at this
    · intro never id member
      simpa using fun same => never ⟨id, member, same.symm⟩
  rw [compared]
  congr 1
  simp only [List.length_nil, List.map_nil, List.nil_append, Nat.zero_add] at collected
  rw [collected, List.mem_append, List.mem_replicate, eq_iff_iff, not_iff_not]
  exact or_iff_left fun padding => absurd padding.2 (by omega)

/-- `getFreeID` returns the first candidate not in use; without one, the number of entries of the
type modulo seven. -/
theorem getFreeId_eq {fepDevListTmp : DevTable} {numberDeviceTmp : Fin (maxDevices + 1)}
    {devType : UInt8} {ids : List Nat}
    (inUse : idsOf devType (entriesTmp fepDevListTmp numberDeviceTmp) = ids)
    (few : ids.length ≤ 8) :
    getFreeId fepDevListTmp numberDeviceTmp devType =
      UInt8.ofNat (((List.range ids.length).find? fun i => decide (i ∉ ids)).getD
        (ids.length % 7)) := by
  subst inUse
  have collected := (@collectLoop_eq devType (entriesTmp fepDevListTmp numberDeviceTmp)
    (Vector.replicate 8 0xFF) [] (by simp) (by simpa using few)).2
  rw [List.length_nil, Nat.zero_add] at collected
  have search := List.find?_congr
    (l := List.range (idsOf devType (entriesTmp fepDevListTmp numberDeviceTmp)).length)
    fun i member => notInBuffId_collectLoop few (i := i) (by rw [List.mem_range] at member; omega)
  unfold getFreeId
  split
  · next none =>
      have empty : entriesTmp fepDevListTmp numberDeviceTmp = [] := by simp [entriesTmp, none]
      rw [empty]
      rfl
  · simp only [collected]
    rw [search]
    cases (List.range (idsOf devType (entriesTmp fepDevListTmp numberDeviceTmp)).length).find?
      fun i => decide (i ∉ idsOf devType (entriesTmp fepDevListTmp numberDeviceTmp)) <;> rfl

/-- A list that contains every number below a bound is as long as the bound. -/
theorem le_length_of_full {ids : List Nat} {n : Nat} (full : ∀ i < n, i ∈ ids) :
    n ≤ ids.length := by
  have subset : List.range n ⊆ ids := fun i member => full i (List.mem_range.mp member)
  have longer := (List.nodup_range.subperm subset).length_le
  rwa [List.length_range] at longer

/-- The least number not in a list is found below its length, or is its length. -/
theorem isLeast_unused (ids : List Nat) :
    IsLeast {i | i ∉ ids} (((List.range ids.length).find? fun i => decide (i ∉ ids)).getD
      ids.length) := by
  cases search : (List.range ids.length).find? fun i => decide (i ∉ ids) with
  | some i =>
      obtain ⟨unused, -, used⟩ := List.find?_range_eq_some.mp search
      refine ⟨of_decide_eq_true unused, fun j free => Nat.le_of_not_lt fun earlier => free ?_⟩
      simpa using used j earlier
  | none =>
      have full : ∀ i < ids.length, i ∈ ids := by
        intro i below
        simpa using List.find?_eq_none.mp search i (List.mem_range.mpr below)
      refine ⟨fun more => ?_, fun j free => Nat.le_of_not_lt fun earlier => free (full j earlier)⟩
      have longer : ids.length + 1 ≤ ids.length := by
        apply le_length_of_full
        intro i below
        rcases Nat.lt_succ_iff_lt_or_eq.mp below with earlier | rfl
        · exact full i earlier
        · exact more
      omega

section Search

variable {fepDevListTmp : DevTable} {numberDeviceTmp : Fin (maxDevices + 1)} {devType : UInt8}
  {ids : List Nat}

/-- With an id below seven to spare, `getFreeID` returns the least. -/
theorem getFreeId_isLeast
    (inUse : idsOf devType (entriesTmp fepDevListTmp numberDeviceTmp) = ids)
    (few : ids.length ≤ 7) (spare : ∃ i < 7, i ∉ ids) :
    IsLeast {i | i ∉ ids} (getFreeId fepDevListTmp numberDeviceTmp devType).toNat := by
  have least := isLeast_unused ids
  rcases spare with ⟨i, below, unused⟩
  have early := lt_of_le_of_lt (least.2 unused) below
  rw [getFreeId_eq inUse (Nat.le_succ_of_le few)]
  generalize (List.range ids.length).find? (fun i => decide (i ∉ ids)) = found at least early ⊢
  have same : found.getD (ids.length % 7) = found.getD ids.length := by
    cases found with
    | some i => rfl
    | none => exact Nat.mod_eq_of_lt early
  rw [same, UInt8.toNat_ofNat', Nat.mod_eq_of_lt (by omega)]
  exact least

/-- With seven entries that hold the ids below seven it returns 7 % 7. -/
theorem getFreeId_full
    (inUse : idsOf devType (entriesTmp fepDevListTmp numberDeviceTmp) = ids)
    (few : ids.length ≤ 7) (full : ∀ i < 7, i ∈ ids) :
    getFreeId fepDevListTmp numberDeviceTmp devType = 0 := by
  have seven := Nat.le_antisymm few (le_length_of_full full)
  have nothing : (List.range 7).find? (fun i => decide (i ∉ ids)) = none := by
    rw [List.find?_eq_none]
    intro i member
    simpa using full i (List.mem_range.mp member)
  rw [getFreeId_eq inUse (Nat.le_succ_of_le few), seven, nothing]
  rfl

end Search

/-! ## Which id is handed out -/

/-- The list has the devices of the type that the entries have. -/
def SameDevices (s : FepList) (nodes : List Addr) (entries : List FepDev) (devType : UInt8) :
    Prop :=
  ∀ id : UInt8, (∃ a ∈ nodes, (s.dev a).key = (id, devType)) ↔ UsedId entries devType id.toNat

/-- The id is free, the least such, one of `0..7`, and the one the dynamic list would hand out. -/
structure AllocatesFree (entries : List FepDev) (devType id : UInt8) : Prop where
  inRange : id.toNat < 8
  least : IsLeast {i | ¬ UsedId entries devType i} id.toNat
  agrees : ∀ s nodes, s.Represents nodes → SameDevices s nodes entries devType →
    ∀ fuel, nodes.length ≤ fuel → s.fepListGetFreeId fuel devType = some id

/-- The dynamic list hands out the least free id of the same devices. -/
theorem allocatesFree_of_least {entries : List FepDev} {devType id : UInt8}
    (inRange : id.toNat < 8) (least : IsLeast {i | ¬ UsedId entries devType i} id.toNat) :
    AllocatesFree entries devType id := by
  refine ⟨inRange, least, fun s nodes represents same fuel enough => ?_⟩
  have free : ∀ i < 8, s.freeIn nodes devType i = true ↔ ¬ UsedId entries devType i := by
    intro i below
    have value : (UInt8.ofNat i).toNat = i := by
      rw [UInt8.toNat_ofNat']
      omega
    rw [FepList.freeIn_iff, ← value, ← same, value]
    simp only [ne_eq, not_exists, not_and]
  have first : (List.range 8).find? (s.freeIn nodes devType) = some id.toNat := by
    rw [List.find?_range_eq_some]
    refine ⟨(free _ inRange).mpr least.1, List.mem_range.mpr inRange, fun j below => ?_⟩
    rw [Bool.not_eq_true', Bool.eq_false_iff, ne_eq, free j (Nat.lt_trans below inRange)]
    exact fun unused => absurd (least.2 unused) (Nat.not_le.mpr below)
  rw [FepList.fepListGetFreeId_eq represents devType enough, first]
  exact congrArg some UInt8.ofNat_toNat

/-- **Free ids over the array table.**  With at most seven entries of the type, `getFreeID` returns
its least free id, the one the dynamic list would return for the same devices, unless the entries
hold all the ids `0..6`. -/
theorem getFreeId_least_iff (fepDevListTmp : DevTable) (numberDeviceTmp : Fin (maxDevices + 1))
    (devType : UInt8)
    (few : ((entriesTmp fepDevListTmp numberDeviceTmp).filter fun d =>
      d.devType = devType).length ≤ 7) :
    AllocatesFree (entriesTmp fepDevListTmp numberDeviceTmp) devType
        (getFreeId fepDevListTmp numberDeviceTmp devType) ↔
      ¬ ∀ id < 7, UsedId (entriesTmp fepDevListTmp numberDeviceTmp) devType id := by
  have number : (idsOf devType (entriesTmp fepDevListTmp numberDeviceTmp)).length ≤ 7 := by
    rw [idsOf, List.length_map]
    exact few
  simp only [← @mem_idsOf (entriesTmp fepDevListTmp numberDeviceTmp)]
  constructor
  · intro right full
    have used := mem_idsOf.mp (full 0 (by decide))
    have free := right.least.1
    rw [getFreeId_full rfl number full] at free
    exact free used
  · intro open_
    have spare : ∃ i < 7, i ∉ idsOf devType (entriesTmp fepDevListTmp numberDeviceTmp) := by
      simpa using open_
    have least := getFreeId_isLeast rfl number spare
    rcases spare with ⟨i, below, unused⟩
    have early := least.2 unused
    simp only [mem_idsOf] at least
    exact allocatesFree_of_least (by omega) least

/-- Devices of the type with the ids 0, 3 and 1, and one of another type with id 2: the next gets
id 2. -/
theorem getFreeId_gap_array :
    let t : DevTable := fun k =>
      [FepDev.ofKey 0 8, FepDev.ofKey 3 8, FepDev.ofKey 2 4].getD k (FepDev.ofKey 1 8)
    getFreeId t 4 8 = 2 ∧ AllocatesFree (entriesTmp t 4) 8 (getFreeId t 4 8) := by
  intro t
  have entries : entriesTmp t 4 =
      [FepDev.ofKey 0 8, FepDev.ofKey 3 8, FepDev.ofKey 2 4, FepDev.ofKey 1 8] := rfl
  refine ⟨by decide, (getFreeId_least_iff t 4 8 (by rw [entries]; decide)).mpr fun full => ?_⟩
  obtain ⟨d, member, type, id⟩ := full 2 (by decide)
  rw [entries] at member
  have two : ∀ d ∈ [FepDev.ofKey 0 8, FepDev.ofKey 3 8, FepDev.ofKey 2 4, FepDev.ofKey 1 8],
      d.devType = 8 → d.devId.toNat ≠ 2 := by decide
  exact two d member type id

/-- Seven devices with the ids `0..6`: the eighth is given id 0. -/
theorem getFreeId_taken :
    ¬ ∀ (fepDevListTmp : DevTable) (numberDeviceTmp : Fin (maxDevices + 1)) (devType : UInt8),
      ((entriesTmp fepDevListTmp numberDeviceTmp).filter fun d => d.devType = devType).length ≤ 7 →
      (∀ d ∈ entriesTmp fepDevListTmp numberDeviceTmp, d.devId.toNat < 8) →
      AllocatesFree (entriesTmp fepDevListTmp numberDeviceTmp) devType
        (getFreeId fepDevListTmp numberDeviceTmp devType) := by
  intro claim
  let t : DevTable := fun k => FepDev.ofKey (UInt8.ofNat k) 8
  have right := claim t 7 8 (by decide) (by decide)
  have zero : getFreeId t 7 8 = 0 := by decide
  rw [zero] at right
  exact right.least.1 ⟨FepDev.ofKey 0 8, by decide, rfl, rfl⟩

end FepMaster

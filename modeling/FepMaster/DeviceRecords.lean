import FepMaster.DeviceListRuns

/-!
# What `Find` returns

`fep_list_add` copies five fields of a record into a node; the record has eleven.  `lastAdded`
remembers, for each key, the record last added and not removed since, and `recordLts` is the list
used as a table: a key is added only while it is absent.

In such a run `Find` returns whole records exactly if the allocated memory already held the fields
that are not copied (`records_whole_iff`).
-/

namespace FepMaster

open Transition LinkedList

/-! ## The system -/

/-- The key a list is searched for: id and type. -/
abbrev DeviceKey := UInt8 × UInt8

/-- The key of a record. -/
def FepDev.key (d : FepDev) : DeviceKey := (d.devId, d.devType)

theorem FepList.isDevice_iff {devId devType : UInt8} {d : FepDev} :
    isDevice devId devType d = true ↔ d.key = (devId, devType) := by
  simp [isDevice, FepDev.key]

/-- What a call means for the records of the keys. -/
def ListCall.record (m : DeviceKey → Option FepDev) : ListCall → DeviceKey → Option FepDev
  | .add tmpDev _ _ => Function.update m tmpDev.key (some tmpDev)
  | .remove devId devType _ => Function.update m (devId, devType) none

/-- For each key the record last added, unless it has been removed since. -/
def lastAdded : Monitor FepList ListCall (DeviceKey → Option FepDev) where
  init _ _ := none
  next m _ c _ := c.record m

/-- A key is added only while it is absent. -/
def AddsAbsent (x : FepList × (DeviceKey → Option FepDev)) : ListCall → Prop
  | .add tmpDev _ _ => x.2 tmpDev.key = none
  | .remove _ _ _ => True

instance (x : FepList × (DeviceKey → Option FepDev)) : (c : ListCall) → Decidable (AddsAbsent x c)
  | .add _ _ _ => inferInstanceAs (Decidable (_ = none))
  | .remove _ _ _ => inferInstanceAs (Decidable True)

/-- The calls that add a key only while it is absent, with the records of the keys. -/
def recordLts : Lts (FepList × (DeviceKey → Option FepDev)) ListCall :=
  (listLts.watch lastAdded).restrict AddsAbsent

/-- The empty list and no records. -/
def recordStart (dev : Addr → FepDev) (next : Addr → Option Addr) :
    FepList × (DeviceKey → Option FepDev) :=
  (FepList.start dev next, fun _ => none)

theorem recordLts_step {x x' : FepList × (DeviceKey → Option FepDev)} {c : ListCall}
    (taken : recordLts.step x c = some x') :
    AddsAbsent x c ∧ x.1.call c = some x'.1 ∧ x'.2 = c.record x.2 := by
  simp only [recordLts, Lts.restrict] at taken
  split at taken
  · next absent => exact ⟨absent, Lts.watch_step_iff.mp taken⟩
  · cases taken

/-! ## The property -/

/-- `Find` returns, for every key present, a node with the record last added. -/
def RecordsWhole (x : FepList × (DeviceKey → Option FepDev)) : Prop :=
  ∀ devId devType d, x.2 (devId, devType) = some d → ∃ a,
    (∃ n, ∀ fuel, n ≤ fuel → x.1.fepListFind fuel devId devType = some (some a)) ∧
      x.1.dev a = d

/-- If the call is an `Add`, the memory of the node already holds the fields of the record that
are not copied. -/
def MemoryFits : ListCall → Prop
  | .add tmpDev _ memory =>
      memory.dataL = tmpDev.dataL ∧ memory.devLongaddr = tmpDev.devLongaddr ∧
        memory.slaveRegister = tmpDev.slaveRegister ∧ memory.receCount = tmpDev.receCount ∧
        memory.updateCount = tmpDev.updateCount ∧ memory.newData = tmpDev.newData
  | .remove _ _ _ => True

theorem copyFields_eq_iff (memory tmpDev : FepDev) (tmp : Addr) :
    FepList.copyFields memory tmpDev = tmpDev ↔ MemoryFits (.add tmpDev tmp memory) := by
  rcases memory with ⟨⟩
  rcases tmpDev with ⟨⟩
  simp [FepList.copyFields, MemoryFits]

/-! ## Keys are unique -/

/-- The list is in order, no two of its devices have one key, and the keys with a record are those
of its devices. -/
structure Keyed (s : FepList) (m : DeviceKey → Option FepDev) (nodes : List Addr) : Prop where
  represents : s.Represents nodes
  distinct : (nodes.map fun a => (s.dev a).key).Nodup
  present : ∀ k, (m k).isSome = true ↔ ∃ a ∈ nodes, (s.dev a).key = k

/-- Two nodes of one key are one node. -/
theorem Keyed.unique {s : FepList} {m : DeviceKey → Option FepDev} {nodes : List Addr}
    (keyed : Keyed s m nodes) {a b : Addr} (ha : a ∈ nodes) (hb : b ∈ nodes)
    (same : (s.dev a).key = (s.dev b).key) : a = b :=
  List.inj_on_of_nodup_map keyed.distinct ha hb same

/-- What `Find` finds has the key. -/
theorem FepList.find_device {s : FepList} {nodes : List Addr} {devId devType : UInt8} {a : Addr}
    (found : nodes.find? (fun b => isDevice devId devType (s.dev b)) = some a) :
    a ∈ nodes ∧ (s.dev a).key = (devId, devType) := by
  refine ⟨List.mem_of_find?_eq_some found, isDevice_iff.mp ?_⟩
  exact List.find?_some (p := fun b => isDevice devId devType (s.dev b)) found

/-- Where keys are unique, the nodes of a device are apart. -/
theorem Keyed.apart {s : FepList} {m : DeviceKey → Option FepDev} {nodes : List Addr}
    (keyed : Keyed s m nodes) (devId devType : UInt8) :
    FepList.Apart (fun a => FepList.isDevice devId devType (s.dev a)) nodes := by
  have apart : nodes.Pairwise fun a b => ¬ (FepList.isDevice devId devType (s.dev a) = true ∧
      FepList.isDevice devId devType (s.dev b) = true) := by
    refine (List.pairwise_map.mp keyed.distinct).imp fun differ both => differ ?_
    rw [FepList.isDevice_iff.mp both.1, FepList.isDevice_iff.mp both.2]
  exact (apart.sublist (List.dropWhile_sublist _)).isChain

/-- Under unique keys, `Find` returns whole records exactly if every node holds the record of its
key. -/
theorem Keyed.recordsWhole_iff {s : FepList} {m : DeviceKey → Option FepDev} {nodes : List Addr}
    (keyed : Keyed s m nodes) :
    RecordsWhole (s, m) ↔ ∀ a ∈ nodes, m (s.dev a).key = some (s.dev a) := by
  constructor
  · intro whole a member
    obtain ⟨d, record⟩ := Option.isSome_iff_exists.mp ((keyed.present _).mpr ⟨a, member, rfl⟩)
    obtain ⟨b, ⟨n, finds⟩, holds⟩ := whole _ _ d record
    have found := finds (max n nodes.length) (Nat.le_max_left _ _)
    rw [FepList.fepListFind_eq keyed.represents _ _ (Nat.le_max_right _ _)] at found
    have first := Option.some.inj found
    obtain ⟨among, key⟩ := FepList.find_device first
    rw [keyed.unique member among key.symm] at record ⊢
    rw [record]
    exact congrArg some holds.symm
  · intro holds devId devType d record
    obtain ⟨a, member, key⟩ :=
      (keyed.present (devId, devType)).mp (Option.isSome_iff_exists.mpr ⟨d, record⟩)
    cases first : nodes.find? fun b => FepList.isDevice devId devType (s.dev b) with
    | none =>
        exact (List.find?_eq_none.mp first a member (FepList.isDevice_iff.mpr key)).elim
    | some b =>
        refine ⟨b, ⟨nodes.length, fun fuel enough => ?_⟩, ?_⟩
        · rw [FepList.fepListFind_eq keyed.represents _ _ enough, first]
        · obtain ⟨among, own⟩ := FepList.find_device first
          have holdsOwn := holds b among
          rw [own] at holdsOwn
          exact Option.some.inj (holdsOwn.symm.trans record)

/-! ## One call -/

theorem FepList.dev_of_add {s : FepList} {nodes : List Addr} (represents : s.Represents nodes)
    {tmp : Addr} (fresh : s.allocated tmp = false) (tmpDev memory : FepDev) :
    (s.fepListAdd tmpDev tmp memory).dev tmp = copyFields memory tmpDev ∧
      ∀ a ∈ nodes, (s.fepListAdd tmpDev tmp memory).dev a = s.dev a := by
  rw [fepListAdd_dev]
  refine ⟨Function.update_self .., fun a old => Function.update_of_ne ?_ _ _⟩
  intro same
  rw [← same, represents.live a old] at fresh
  cases fresh

/-- An `Add` of an absent key keeps the keys unique. -/
theorem Keyed.add {s : FepList} {m : DeviceKey → Option FepDev} {nodes : List Addr}
    (keyed : Keyed s m nodes) {tmpDev : FepDev} (absent : m tmpDev.key = none) {tmp : Addr}
    (fresh : s.allocated tmp = false) (memory : FepDev) :
    Keyed (s.fepListAdd tmpDev tmp memory) (Function.update m tmpDev.key (some tmpDev))
      (tmp :: nodes) := by
  obtain ⟨new, old⟩ := FepList.dev_of_add keyed.represents fresh tmpDev memory
  have newKey : ((s.fepListAdd tmpDev tmp memory).dev tmp).key = tmpDev.key := by
    rw [new]
    rfl
  have oldKeys : nodes.map (fun a => ((s.fepListAdd tmpDev tmp memory).dev a).key) =
      nodes.map fun a => (s.dev a).key :=
    List.map_congr_left fun a member => by rw [old a member]
  refine ⟨FepList.fepListAdd_represents keyed.represents fresh tmpDev memory, ?_, fun k => ?_⟩
  · rw [List.map_cons, oldKeys, newKey]
    refine List.nodup_cons.mpr ⟨fun again => ?_, keyed.distinct⟩
    obtain ⟨a, member, key⟩ := List.mem_map.mp again
    have present := (keyed.present _).mpr ⟨a, member, key⟩
    rw [absent] at present
    cases present
  · have among : (∃ a ∈ tmp :: nodes, ((s.fepListAdd tmpDev tmp memory).dev a).key = k) ↔
        tmpDev.key = k ∨ ∃ a ∈ nodes, (s.dev a).key = k := by
      rw [List.exists_mem_cons_iff, newKey]
      refine or_congr_right (exists_congr fun a => and_congr_right fun member => ?_)
      rw [old a member]
    rw [among, ← keyed.present]
    by_cases own : k = tmpDev.key
    · simp [own]
    · simp [Function.update_of_ne own, Ne.symm own]

/-- So does a `Remove`, and it leaves the nodes of the other keys. -/
theorem Keyed.remove {s s' : FepList} {m : DeviceKey → Option FepDev} {nodes : List Addr}
    (keyed : Keyed s m nodes) {devId devType : UInt8} {fuel : Nat}
    (taken : s.call (.remove devId devType fuel) = some s') :
    s'.dev = s.dev ∧ Keyed s' (Function.update m (devId, devType) none)
      (nodes.filter fun a => !FepList.isDevice devId devType (s.dev a)) := by
  obtain ⟨removal, visited⟩ := FepList.call_remove keyed.represents taken
  rw [FepList.visitedAfter_eq_filter (keyed.apart devId devType)] at visited
  refine ⟨removal.dev, removal.represents keyed.represents visited, ?_, fun k => ?_⟩
  · rw [removal.dev]
    exact keyed.distinct.sublist ((List.filter_sublist ..).map _)
  · rw [removal.dev]
    by_cases own : k = (devId, devType)
    · simp only [own, Function.update_self, Option.isSome_none, Bool.false_eq_true, false_iff,
        not_exists, not_and]
      intro a member key
      have stays := (List.mem_filter.mp member).2
      rw [FepList.isDevice_iff.mpr key] at stays
      cases stays
    · rw [Function.update_of_ne own, keyed.present]
      refine exists_congr fun a => ⟨fun found => ⟨?_, found.2⟩, fun found => ⟨?_, found.2⟩⟩
      · refine List.mem_filter.mpr ⟨found.1, ?_⟩
        rw [Bool.not_eq_true', Bool.eq_false_iff]
        exact fun device => own (found.2.symm.trans (FepList.isDevice_iff.mp device))
      · exact List.mem_of_mem_filter found.1

theorem keyed_of_reach {x : FepList × (DeviceKey → Option FepDev)} (reached : recordLts.Reach x) :
    ∃ nodes, Keyed x.1 x.2 nodes := by
  apply Lts.ReachWhile.invariant (P := fun x => ∃ nodes, Keyed x.1 x.2 nodes) ?_ ?_ reached
  · intro x start
    rcases x with ⟨s, m⟩
    rcases start with ⟨⟨dev, next, rfl⟩, none⟩
    rw [none]
    exact ⟨[], FepList.start_represents dev next, List.nodup_nil, fun k => by simp [lastAdded]⟩
  · intro x c x' _ keyed _ taken
    obtain ⟨nodes, keyed⟩ := keyed
    obtain ⟨absent, called, record⟩ := recordLts_step taken
    rw [record]
    cases c with
    | add tmpDev tmp memory =>
        obtain ⟨fresh, result⟩ := FepList.call_add called
        rw [result]
        exact ⟨_, keyed.add absent fresh memory⟩
    | remove devId devType fuel => exact ⟨_, (keyed.remove called).2⟩

/-- From a list of whole records, a call leaves one exactly if the memory of a new node fits. -/
theorem recordsWhole_step_iff {x x' : FepList × (DeviceKey → Option FepDev)} {c : ListCall}
    (reached : recordLts.Reach x) (whole : RecordsWhole x) (taken : recordLts.step x c = some x') :
    RecordsWhole x' ↔ MemoryFits c := by
  rcases x with ⟨s, m⟩
  rcases x' with ⟨s', m'⟩
  obtain ⟨nodes, keyed⟩ := keyed_of_reach reached
  obtain ⟨absent, called, record⟩ := recordLts_step taken
  have holds := keyed.recordsWhole_iff.mp whole
  simp only at called record keyed holds
  subst record
  cases c with
  | add tmpDev tmp memory =>
      obtain ⟨fresh, result⟩ := FepList.call_add called
      subst result
      obtain ⟨new, old⟩ := FepList.dev_of_add keyed.represents fresh tmpDev memory
      have absent : m tmpDev.key = none := absent
      have others : ∀ a ∈ nodes, Function.update m tmpDev.key (some tmpDev)
          ((s.fepListAdd tmpDev tmp memory).dev a).key =
            some ((s.fepListAdd tmpDev tmp memory).dev a) := by
        intro a member
        have held := holds a member
        rw [old a member, Function.update_of_ne, held]
        intro same
        rw [same, absent] at held
        cases held
      have newKey : (FepList.copyFields memory tmpDev).key = tmpDev.key := rfl
      rw [ListCall.record, (keyed.add absent fresh memory).recordsWhole_iff,
        List.forall_mem_cons, and_iff_left others, new, newKey, Function.update_self,
        Option.some_inj, eq_comm]
      exact copyFields_eq_iff memory tmpDev tmp
  | remove devId devType fuel =>
      obtain ⟨same, after⟩ := keyed.remove called
      refine ⟨fun _ => trivial, fun _ => ?_⟩
      rw [ListCall.record, after.recordsWhole_iff, same]
      intro a member
      obtain ⟨among, stays⟩ := List.mem_filter.mp member
      rw [Function.update_of_ne, holds a among]
      intro key
      rw [FepList.isDevice_iff.mpr key] at stays
      cases stays

/-- **Whole records.**  In every run in which a key is added only while it is absent, `Find`
returns for every key present the record last added, in every state of the run, exactly if each
`Add` is given memory that already holds the fields it does not copy. -/
theorem records_whole_iff (dev : Addr → FepDev) (next : Addr → Option Addr)
    (calls : List ListCall) :
    recordLts.EveryStep (fun _ _ x' => RecordsWhole x') (recordStart dev next) calls ↔
      recordLts.EveryStep (fun _ c _ => MemoryFits c) (recordStart dev next) calls := by
  have start : recordLts.Reach (recordStart dev next) := .init ⟨⟨dev, next, rfl⟩, rfl⟩
  refine Lts.everyStep_iff (G := RecordsWhole) (C := fun _ c => MemoryFits c)
    (fun _ _ _ whole => whole) (fun _ _ _ reached whole taken => ?_) start ?_ calls
  · exact recordsWhole_step_iff reached whole taken
  · intro _ _ _ record
    cases record

/-- A record whose low data byte is not zero, added into zeroed memory. -/
theorem record_loses_dataL :
    ¬ ∀ (dev : Addr → FepDev) (next : Addr → Option Addr) (calls : List ListCall),
      recordLts.EveryStep (fun _ _ x' => RecordsWhole x') (recordStart dev next) calls := by
  intro claim
  let d : FepDev := { FepDev.ofKey 2 8 with dataL := 0x34 }
  have every := claim (fun _ => FepDev.zero) (fun _ => none) [.add d 1 FepDev.zero]
  have absent : recordLts.step (recordStart (fun _ => FepDev.zero) fun _ => none)
      (.add d 1 FepDev.zero) =
        some ((FepList.start (fun _ => FepDev.zero) fun _ => none).fepListAdd d 1 FepDev.zero,
          Function.update (fun _ => none) d.key (some d)) := rfl
  obtain ⟨a, ⟨n, finds⟩, holds⟩ := (every _ absent).1 2 8 d rfl
  have first := finds (n + 1) (Nat.le_succ n)
  have found : a = 1 := (Option.some.inj (Option.some.inj first)).symm
  subst found
  exact absurd (congrArg FepDev.dataL holds) (by decide)

end FepMaster

import FepMaster.ReportAssembly

/-!
# Whether a report tells of any moment

A report lists the slots its loop found active, one after the other.  Two things can make it a
report of no moment at all.  If the lock cannot be obtained the loop is skipped and the report
lists nothing.  And while the loop runs, the poller sets slots inactive without the lock, so that
the loop may have read one slot before it was lost and another one after.

`Undivided` excludes just these two; then every datagram lists exactly the active slots of a table
there was during the call (`datagram_of_visited`).
-/

namespace FepMaster

open Transition

/-! ## The property -/

/-- A datagram about to be sent lists exactly the active slots of a table of the call. -/
def ListsVisited (x : Master × CallLog) : Prop :=
  ∀ datagram ∈ x.1.udp.datagram, ∃ table ∈ x.2.visited,
    (decodeReport datagram).map ReportEntry.devId =
      (activeOf table polledSlots).map Polled.number

/-- The slot the poller is about to set inactive. -/
def PollerPc.deactivates : PollerPc → Option Polled
  | .setInactive i => some i
  | _ => none

/-- The server task is before its wait for the lock, or in it. -/
def UdpPc.entering : UdpPc → Bool
  | .call | .take _ => true
  | _ => false

/-- The server task waits for the lock. -/
def UdpPc.waiting : UdpPc → Bool
  | .take _ => true
  | _ => false

/-- The wait for the lock runs out only if there was a moment of the call with no slot active; and
once a listed slot has been set inactive, no active slot the loop has yet to read is. -/
def Undivided (x : Master × CallLog) : Act → Prop
  | .udp _ _ => x.1.udp.waiting = true → x.1.shared.fepDevListSem ≠ none →
      ∃ table ∈ x.2.visited, activeOf table polledSlots = []
  | .poller _ => ∀ i, x.1.poller.deactivates = some i → x.2.lost = true →
      x.1.udp.inside = true → x.1.udp.hasRead i = false →
        (x.1.shared.fepDevList i.slot).status ≠ active
  | _ => True

instance (x : Master × CallLog) : (a : Act) → Decidable (Undivided x a)
  | .udp _ _ => inferInstanceAs (Decidable (_ → _ → ∃ table ∈ x.2.visited, _))
  | .poller _ => inferInstanceAs (Decidable (∀ _ : Polled, _ → _ → _ → _ → _))
  | .uart4 _ | .tim3 | .handler _ => inferInstanceAs (Decidable True)

/-! ## The invariant -/

/-- There was a table that agrees with the list where the loop has read, and with the present table
where it has not; as long as no listed slot is lost, it agrees with the present table throughout. -/
def Snapshot (table : DevTable) (m : CallLog) (read : Polled → Bool) : Prop :=
  ∃ moment ∈ m.visited,
    (∀ k : Polled, read k = true → ((moment k.slot).status = active ↔ k ∈ m.listed)) ∧
    ∀ k : Polled, read k = false ∨ m.lost = false →
      ((moment k.slot).status = active ↔ (table k.slot).status = active)

/-- What is known of the call at each of its points. -/
structure ScanInv (table : DevTable) (pc : UdpPc) (m : CallLog) : Prop where
  current : table ∈ m.visited
  entering : pc.entering = true → m.lost = false
  during : pc.inside = true → Snapshot table m fun k => pc.hasRead k
  sent : ∀ datagram ∈ pc.datagram, ∃ moment ∈ m.visited,
    ∀ k : Polled, (moment k.slot).status = active ↔ k ∈ m.listed

theorem Snapshot.grow {table : DevTable} {m : CallLog} {read : Polled → Bool}
    (snapshot : Snapshot table m read) (now : DevTable) :
    Snapshot table ⟨now :: m.visited, m.listed, m.lost⟩ read := by
  rcases snapshot with ⟨moment, visited, agrees, ahead⟩
  exact ⟨moment, List.mem_cons_of_mem _ visited, agrees, ahead⟩

/-- A step that leaves the server task alone, and every status while the loop runs. -/
theorem ScanInv.frame {table table' : DevTable} {pc : UdpPc} {m : CallLog}
    (inv : ScanInv table pc m)
    (same : pc.inside = true → ∀ k, (table' k).status = (table k).status) :
    ScanInv table' pc ⟨table' :: m.visited, m.listed, m.lost⟩ := by
  refine ⟨List.mem_cons_self, inv.entering, fun inside => ?_, fun datagram member => ?_⟩
  · obtain ⟨moment, visited, read, unread⟩ := inv.during inside
    refine ⟨moment, List.mem_cons_of_mem _ visited, read, fun k open_ => ?_⟩
    rw [same inside]
    exact unread k open_
  · obtain ⟨moment, visited, listed⟩ := inv.sent datagram member
    exact ⟨moment, List.mem_cons_of_mem _ visited, listed⟩

theorem CallInv.listed_nil {table : DevTable} {pc : UdpPc} {listed : List Polled}
    (inv : CallInv table pc listed) (entering : pc.entering = true) : listed = [] := by
  have writing := inv.writing
  cases pc with
  | call => exact writing
  | take buff => exact writing.1
  | _ => cases entering

/-- The poller sets a slot inactive while the loop runs. -/
theorem Snapshot.setInactive {s : Shared} {m : CallLog} {read : Polled → Bool} {i : Polled}
    (snapshot : Snapshot s.fepDevList m read) (within : i ∈ m.listed → read i = true)
    (undivided : m.lost = true → read i = false → (s.fepDevList i.slot).status ≠ active) :
    let table' := (s.write i.slot fun d => { d with status := inactive }).fepDevList
    Snapshot table' ⟨table' :: m.visited, m.listed, m.lost || decide (i ∈ m.listed)⟩ read := by
  intro table'
  rcases snapshot with ⟨moment, visited, agrees, ahead⟩
  have other : ∀ k : Polled, k ≠ i → table' k.slot = s.fepDevList k.slot := fun k different =>
    s.write_other _ fun same => different (Polled.slot_injective same)
  -- as long as slot `i` has been read, the old snapshot serves: the write is behind the loop
  have behind : read i = true → (m.lost || decide (i ∈ m.listed)) = true →
      Snapshot table' ⟨table' :: m.visited, m.listed, m.lost || decide (i ∈ m.listed)⟩ read := by
    intro seen gone
    refine ⟨moment, List.mem_cons_of_mem _ visited, agrees, fun k unread => ?_⟩
    rw [gone] at unread
    have fresh : read k = false := unread.resolve_right Bool.noConfusion
    have different : k ≠ i := fun same => by rw [same, seen] at fresh; cases fresh
    rw [other k different]
    exact ahead k (.inl fresh)
  by_cases online : (s.fepDevList i.slot).status = active
  · cases lost : m.lost with
    | true =>
        have seen : read i = true := by
          by_contra unread
          exact undivided lost (Bool.eq_false_iff.mpr unread) online
        rw [← lost]
        exact behind seen (by rw [lost]; rfl)
    | false =>
        by_cases listed : i ∈ m.listed
        · rw [← lost]
          exact behind (within listed) (by rw [decide_eq_true listed, Bool.or_true])
        · -- nothing listed is lost, so the table just written serves
          have unread : read i ≠ true := fun seen =>
            listed ((agrees i seen).mp ((ahead i (.inr lost)).mpr online))
          refine ⟨table', List.mem_cons_self, fun k seen => ?_, fun _ _ => Iff.rfl⟩
          have different : k ≠ i := fun same => unread (same ▸ seen)
          rw [other k different]
          exact (ahead k (.inr lost)).symm.trans (agrees k seen)
  · -- the slot was inactive already
    have same : ∀ k : Polled, (table' k.slot).status = active ↔
        (s.fepDevList k.slot).status = active := by
      intro k
      by_cases own : k = i
      · subst own
        have gone : (table' k.slot).status = inactive :=
          congrArg FepDev.status (s.write_self _ _)
        rw [gone]
        exact ⟨fun absurd_ => absurd absurd_ (by decide), fun now => (online now).elim⟩
      · rw [other k own]
    refine ⟨moment, List.mem_cons_of_mem _ visited, agrees, fun k unread => ?_⟩
    rw [same]
    exact ahead k (unread.imp_right fun kept => (Bool.or_eq_false_iff.mp kept).1)

/-- The poller sets a slot inactive. -/
theorem ScanInv.setInactive {s : Shared} {pc : UdpPc} {m : CallLog} {i : Polled}
    (inv : ScanInv s.fepDevList pc m) (call : CallInv s.fepDevList pc m.listed)
    (undivided : m.lost = true → pc.inside = true → pc.hasRead i = false →
      (s.fepDevList i.slot).status ≠ active) :
    let table' := (s.write i.slot fun d => { d with status := inactive }).fepDevList
    ScanInv table' pc ⟨table' :: m.visited, m.listed, m.lost || decide (i ∈ m.listed)⟩ := by
  intro table'
  refine ⟨List.mem_cons_self, fun entering => ?_, fun inside => ?_, fun datagram member => ?_⟩
  · have empty := call.listed_nil entering
    simp [inv.entering entering, empty]
  · exact (inv.during inside).setInactive (call.read inside i) fun lost => undivided lost inside
  · obtain ⟨moment, visited, listed⟩ := inv.sent datagram member
    exact ⟨moment, List.mem_cons_of_mem _ visited, listed⟩

/-- Every step of the poller keeps the invariant. -/
theorem PollerMove.scanInv {s s' : Shared} {pc pc' : PollerPc} {udp : UdpPc} {m : CallLog}
    (move : PollerMove s pc s' pc') (inv : ScanInv s.fepDevList udp m)
    (call : CallInv s.fepDevList udp m.listed)
    (undivided : ∀ i, pc.deactivates = some i → m.lost = true → udp.inside = true →
      udp.hasRead i = false → (s.fepDevList i.slot).status ≠ active) :
    ScanInv s'.fepDevList udp
      ⟨s'.fepDevList :: m.visited, m.listed, m.lost || pc.loses m.listed⟩ := by
  have quiet : ∀ table' : DevTable, (∀ k, (table' k).status = (s.fepDevList k).status) →
      ScanInv table' udp ⟨table' :: m.visited, m.listed, m.lost || false⟩ := by
    intro table' same
    rw [Bool.or_false]
    exact inv.frame fun _ => same
  cases move with
  | writeCount | clearNew =>
      exact quiet _ (Shared.write_field FepDev.status _ _ · fun _ => rfl)
  | setInactive => exact inv.setInactive call (undivided _ rfl)
  | _ => exact quiet _ fun _ => rfl

/-- The loop reads a slot that is active. -/
theorem Snapshot.list {table : DevTable} {m : CallLog} {i : Polled}
    (snapshot : Snapshot table m fun k => decide (k < i))
    (online : (table i.slot).status = active) :
    Snapshot table ⟨m.visited, m.listed ++ [i], m.lost⟩ fun k => decide (k ≤ i) := by
  rcases snapshot with ⟨moment, visited, agrees, ahead⟩
  refine ⟨moment, visited, fun k read => ?_, fun k unread => ahead k (unread.imp_left ?_)⟩
  · rw [List.mem_append, List.mem_singleton]
    rcases Nat.lt_or_eq_of_le (of_decide_eq_true read) with before | here
    · have different : k ≠ i := fun same => Nat.ne_of_lt before (congrArg Fin.val same)
      rw [agrees k (decide_eq_true before), or_iff_left different]
    · have same : k = i := Fin.ext here
      subst same
      have now := ahead k (.inl (decide_eq_false (lt_irrefl k)))
      exact ⟨fun _ => .inr rfl, fun _ => now.mpr online⟩
  · intro later
    exact decide_eq_false fun before => of_decide_eq_false later (Nat.le_of_lt before)

/-- The loop passes a slot that is not. -/
theorem Snapshot.skip {table : DevTable} {m : CallLog} {i : Polled}
    (snapshot : Snapshot table m fun k => decide (k < i))
    (within : ∀ k ∈ m.listed, decide (k < i) = true)
    (offline : (table i.slot).status ≠ active) :
    Snapshot table m fun k => decide (k ≤ i) := by
  rcases snapshot with ⟨moment, visited, agrees, ahead⟩
  refine ⟨moment, visited, fun k read => ?_, fun k unread => ahead k (unread.imp_left ?_)⟩
  · rcases Nat.lt_or_eq_of_le (of_decide_eq_true read) with before | here
    · exact agrees k (decide_eq_true before)
    · have same : k = i := Fin.ext here
      subst same
      have now := ahead k (.inl (decide_eq_false (lt_irrefl k)))
      refine ⟨fun then_ => (offline (now.mp then_)).elim, fun member => ?_⟩
      exact (lt_irrefl k (of_decide_eq_true (within k member))).elim
  · intro later
    exact decide_eq_false fun before => of_decide_eq_false later (Nat.le_of_lt before)

/-- The loop goes on to its next slot, or ends. -/
theorem ScanInv.afterSlot {table : DevTable} {m : CallLog} {i : Polled}
    (current : table ∈ m.visited) (snapshot : Snapshot table m fun k => decide (k ≤ i))
    (buff : Vector UInt8 100) (j : Nat) : ScanInv table (.afterSlot buff j i) m := by
  have next : (UdpPc.afterSlot buff j i).entering = false ∧
      (UdpPc.afterSlot buff j i).datagram = none := by
    unfold UdpPc.afterSlot
    cases i.next <;> exact ⟨rfl, rfl⟩
  refine ⟨current, fun entering => ?_, fun _ => ?_, fun datagram member => ?_⟩
  · rw [next.1] at entering
    cases entering
  · simpa only [UdpPc.hasRead_afterSlot] using snapshot
  · rw [next.2] at member
    cases member

/-- A step inside the loop that reads no status. -/
theorem ScanInv.copy {table : DevTable} {pc pc' : UdpPc} {m : CallLog} (inv : ScanInv table pc m)
    (inside : pc.inside = true) (same : ∀ k, pc'.hasRead k = pc.hasRead k)
    (entering : pc'.entering = false) (datagram : pc'.datagram = none) :
    ScanInv table pc' ⟨table :: m.visited, m.listed, m.lost⟩ := by
  refine ⟨List.mem_cons_self, fun enters => ?_, fun _ => ?_, fun d member => ?_⟩
  · rw [entering] at enters
    cases enters
  · simp only [same]
    exact (inv.during inside).grow table
  · rw [datagram] at member
    cases member

/-- A step outside the loop and before its end. -/
theorem ScanInv.outside {table : DevTable} {pc : UdpPc} {m : CallLog}
    (current : table ∈ m.visited) (entering : pc.entering = true → m.lost = false)
    (outside : pc.inside = false) (datagram : pc.datagram = none) : ScanInv table pc m := by
  refine ⟨current, entering, fun inside => ?_, fun d member => ?_⟩
  · rw [outside] at inside
    cases inside
  · rw [datagram] at member
    cases member

/-- Every step of the server task keeps the invariant. -/
theorem UdpMove.scanInv {s s' : Shared} {pc pc' : UdpPc} {m : CallLog}
    (move : UdpMove s pc s' pc') (inv : ScanInv s.fepDevList pc m)
    (call : CallInv s.fepDevList pc m.listed)
    (undivided : pc.waiting = true → s.fepDevListSem ≠ none →
      ∃ table ∈ m.visited, activeOf table polledSlots = []) :
    ScanInv s'.fepDevList pc'
      ⟨pc.visits s'.fepDevList m.visited, pc.lists s.fepDevList m.listed,
        pc.keepsLost m.lost⟩ := by
  cases move with
  | idle | begin | send =>
      exact .outside List.mem_cons_self (fun enters => Bool.noConfusion enters) rfl rfl
  | clearFlag => exact .outside (List.mem_singleton_self _) (fun _ => rfl) rfl rfl
  | call => exact .outside List.mem_cons_self (fun _ => inv.entering rfl) rfl rfl
  | granted =>
      refine ⟨List.mem_cons_self, fun enters => Bool.noConfusion enters, fun _ => ?_,
        fun d member => absurd member (Option.not_mem_none d)⟩
      refine ⟨s.fepDevList, List.mem_cons_self, fun k read => ?_, fun k _ => Iff.rfl⟩
      exact (Nat.not_lt_zero k.val (of_decide_eq_true (p := k < 0) read)).elim
  | refused taken =>
      obtain ⟨moment, visited, none⟩ := undivided rfl taken
      have empty := call.listed_nil rfl
      refine ⟨List.mem_cons_self, fun enters => Bool.noConfusion enters,
        fun inside => Bool.noConfusion inside, fun d _ => ?_⟩
      refine ⟨moment, List.mem_cons_of_mem _ visited, fun k => ?_⟩
      rw [← mem_activeOf, none, ← empty]
      exact Iff.rfl
  | listed online =>
      rw [UdpPc.lists, if_pos online]
      refine ⟨List.mem_cons_self, fun enters => Bool.noConfusion enters, fun _ => ?_,
        fun d member => absurd member (Option.not_mem_none d)⟩
      exact ((inv.during rfl).grow s.fepDevList).list online
  | @skipped buff j i offline =>
      rw [UdpPc.lists, if_neg offline]
      refine .afterSlot List.mem_cons_self ?_ buff j
      exact ((inv.during rfl).grow s.fepDevList).skip (call.read rfl) offline
  | readType | readId | readData => exact inv.copy rfl (fun _ => rfl) rfl rfl
  | readDataL =>
      exact .afterSlot List.mem_cons_self ((inv.during rfl).grow s.fepDevList) _ _
  | give =>
      obtain ⟨moment, visited, agrees, -⟩ := inv.during rfl
      refine ⟨List.mem_cons_self, fun enters => Bool.noConfusion enters,
        fun inside => Bool.noConfusion inside, fun d _ => ?_⟩
      exact ⟨moment, List.mem_cons_of_mem _ visited, fun k => agrees k rfl⟩

/-- The invariant of every run with undivided calls. -/
theorem scanInv_of_reach {x : Master × CallLog}
    (reached : (masterLts.watch callLog).ReachWhile Undivided x) :
    ScanInv x.1.shared.fepDevList x.1.udp x.2 := by
  apply Lts.ReachWhile.invariant_watched
    (P := fun x m => ScanInv (Master.shared x).fepDevList x.udp m) ?_ ?_ reached
  · intro x start
    subst start
    exact .outside (List.mem_singleton_self _) (fun enters => Bool.noConfusion enters) rfl rfl
  · intro x m a x' before inv undivided moved
    have lock := locked_of_reach before.unwatched
    have call := callInv_of_reach before.reach
    cases masterLts_move moved with
    | uart4 e => exact inv.frame fun _ _ => rfl
    | tim3 => exact inv.frame fun _ _ => rfl
    | handler move =>
        refine inv.frame fun inside k => ?_
        rw [move.fepDevList_eq (lock.handler_none inside)]
    | poller move => exact move.scanInv inv call undivided
    | udp move => exact move.scanInv inv call undivided

/-- **Lock contention never changes what the server is told**, in every run with undivided calls:
a datagram lists exactly the active slots of a table there was during the call. -/
theorem datagram_of_visited (x : Master × CallLog)
    (reached : (masterLts.watch callLog).ReachWhile Undivided x) : ListsVisited x := by
  intro datagram sent
  have call := callInv_of_reach reached.reach
  obtain ⟨moment, visited, listed⟩ := (scanInv_of_reach reached).sent datagram sent
  refine ⟨moment, visited, ?_⟩
  rw [devIds_of_datagram reached.reach sent]
  congr 1
  -- both lists increase and have the same members
  have order : (activeOf moment polledSlots).Pairwise (· < ·) :=
    (List.pairwise_lt_finRange 6).filter _
  have distinct : ∀ {l : List Polled}, l.Pairwise (· < ·) → l.Nodup := fun increasing =>
    increasing.imp fun before => Nat.ne_of_lt before ∘ congrArg Fin.val
  refine List.Perm.eq_of_pairwise ?_ call.increasing order ?_
  · intro k l _ _ before after
    exact (lt_asymm before after).elim
  · refine (List.perm_ext_iff_of_nodup (distinct call.increasing) (distinct order)).mpr fun k => ?_
    rw [mem_activeOf, listed]

/-- A handled reply, one cycle of the poller, and the server task up to its wait for the lock. -/
def replyThenCall : List Act :=
  replyOnBus [0x14, 0x05, 0x09, 0x12, 0x34] ++ List.replicate 15 (.handler false) ++
    .tim3 :: List.replicate 45 (.poller false) ++
    List.replicate 3 (.udp false (Vector.replicate 100 0))

/-- The report of an undisturbed call lists the one active slot. -/
theorem datagram_one_active :
    ∃ x, (masterLts.watch callLog).Reach x ∧ ∃ table ∈ x.2.visited,
      (activeOf table polledSlots).map Polled.number = [1] := by
  obtain ⟨x, reached, told⟩ := Lts.exists_reachWhile_of_exec
    (L := masterLts.watch callLog) Undivided
    (s := (Master.start, ⟨[DevTable.zero], [], false⟩)) ⟨rfl, rfl⟩
    (replyThenCall ++ List.replicate 12 (.udp false (Vector.replicate 100 0)))
    (P := fun x => x.1.udp.datagram.any fun datagram =>
      (decodeReport datagram).map ReportEntry.devId == [1]) (by decide +kernel)
  rcases (Option.any_eq_true _ _).mp told with ⟨datagram, sent, ids⟩
  obtain ⟨table, visited, listed⟩ := datagram_of_visited x reached datagram sent
  exact ⟨x, reached.reach, table, visited, listed.symm.trans (eq_of_beq ids)⟩

/-- The wait for the lock runs out while the handler is in its section: the datagram lists nothing,
though slot 1 was active throughout the call. -/
theorem datagram_of_no_table : ¬ ∀ x, (masterLts.watch callLog).Reach x → ListsVisited x := by
  intro claim
  obtain ⟨x, reached, told⟩ := Lts.exists_reach_of_exec
    (L := masterLts.watch callLog) (s := (Master.start, ⟨[DevTable.zero], [], false⟩)) ⟨rfl, rfl⟩
    (replyThenCall ++ (frameEvents [0x14, 0x05, 0x09, 0x12, 0x34]).map Act.uart4 ++
      [.handler false, .handler false, .udp true (Vector.replicate 100 0)])
    (P := fun x =>
      (x.1.udp.datagram.any fun datagram => decodeReport datagram == []) &&
        x.2.visited.all fun table => (table (Polled.slot 0)).status == active)
    (by decide +kernel)
  rcases (Bool.and_eq_true_iff).mp told with ⟨silent, throughout⟩
  rcases (Option.any_eq_true _ _).mp silent with ⟨datagram, sent, empty⟩
  obtain ⟨table, visited, listed⟩ := claim x reached datagram sent
  have online := eq_of_beq (List.all_eq_true.mp throughout table visited)
  rw [eq_of_beq empty, List.map_nil, eq_comm, List.map_eq_nil_iff] at listed
  have member := mem_activeOf.mpr online
  rw [listed] at member
  cases member

end FepMaster

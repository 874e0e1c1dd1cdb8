import FepMaster.Conservation

/-!
# Timeouts under preemption

The poller counts a slot under the lock, but decides on it without: `test` reads `rece_count`, and
`setInactive` writes the status two accesses later.  Between them a reply may be applied.

`sinceReply` counts, for each slot, the count steps since its last applied reply.  As long as no
reply slips in between test and write (`NotOvertaken`), a slot that has replied and is inactive
has been counted more than ten times since (`inactive_of_late`).
-/

namespace FepMaster

open Transition

/-! ## The property -/

/-- For each slot, the count steps since its last applied reply, if it had one. -/
abbrev SinceReply := Polled → Option Nat

/-- A reply is applied with its last write. -/
def HandlerPc.resetSince (m : SinceReply) : HandlerPc → SinceReply
  | .setStatus p => fun i => if p.slot = i.slot then some 0 else m i
  | _ => m

/-- `rece_count++` is done with its write. -/
def PollerPc.countSince (m : SinceReply) : PollerPc → SinceReply
  | .writeCount i _ => fun k => if k = i then (m i).map (· + 1) else m k
  | _ => m

theorem HandlerPc.resetSince_setStatus (m : SinceReply) (p : FepPacket) (i : Polled) :
    (setStatus p).resetSince m i = if p.slot = i.slot then some 0 else m i := rfl

theorem PollerPc.countSince_writeCount (m : SinceReply) (i k : Polled) (count : UInt8) :
    (writeCount i count).countSince m k = if k = i then (m i).map (· + 1) else m k := rfl

/-- The count steps of a run since the last applied replies. -/
def sinceReply : Monitor Master Act SinceReply where
  init _ _ := none
  next m x a _ :=
    match a with
    | .handler _ => x.handler.resetSince m
    | .poller _ => x.poller.countSince m
    | _ => m

/-- A slot that has replied and is inactive has been counted more than ten times since. -/
def InactiveLate (x : Master × SinceReply) : Prop :=
  ∀ i n, x.2 i = some n → (x.1.shared.fepDevList (Polled.slot i)).status = inactive → 10 < n

/-- The handler is outside its update code. -/
def HandlerPc.atRest : HandlerPc → Bool
  | .receive => true
  | _ => false

/-- The poller is outside its update code, between two cycles. -/
def PollerPc.atRest : PollerPc → Bool
  | .wait => true
  | _ => false

/-- The handler is about to apply a reply of the slot the poller is about to set inactive. -/
def HandlerPc.overtakes : HandlerPc → PollerPc → Bool
  | .setStatus p, .setInactive i => p.slot = i.slot
  | _, _ => false

/-- No reply of a slot is applied between the poller's test of the slot and the write that follows
from it. -/
def NotOvertaken (x : Master × SinceReply) : Act → Prop
  | .handler _ => x.1.handler.overtakes x.1.poller = false
  | _ => True

instance (x : Master × SinceReply) : (a : Act) → Decidable (NotOvertaken x a)
  | .handler _ => inferInstanceAs (Decidable (_ = false))
  | .uart4 _ | .tim3 | .poller _ | .udp _ _ => inferInstanceAs (Decidable True)

/-! ## The invariant -/

/-- What the poller has read and decided is true of the count steps since the last reply. -/
def PollerPc.Informed (m : SinceReply) : PollerPc → Prop
  | .writeCount i count => ∀ n, m i = some n → count.toNat ≤ n
  | .setInactive i => ∀ n, m i = some n → 10 < n
  | _ => True

/-- Before the last write of a reply, the count of its slot is zero. -/
def HandlerPc.Cleared (table : DevTable) : HandlerPc → Prop
  | .setStatus p => (table p.slot).receCount = 0
  | _ => True

/-- The byte the table keeps never exceeds the true count; it may be less once it has wrapped. -/
structure TimeoutInv (table : DevTable) (handler : HandlerPc) (poller : PollerPc)
    (m : SinceReply) : Prop where
  count : ∀ i n, m i = some n → (table (Polled.slot i)).receCount.toNat ≤ n
  late : ∀ i n, m i = some n → (table (Polled.slot i)).status = inactive → 10 < n
  informed : poller.Informed m
  cleared : handler.Cleared table

/-- The fields of a slot that decide on its presence. -/
def FepDev.presence (d : FepDev) : UInt8 × UInt8 := (d.receCount, d.status)

/-- Steps that leave the presence fields alone keep the invariant, wherever they lead. -/
theorem TimeoutInv.frame {table table' : DevTable} {handler handler' : HandlerPc}
    {poller poller' : PollerPc} {m : SinceReply} (inv : TimeoutInv table handler poller m)
    (same : ∀ k, (table' k).presence = (table k).presence) (informed : poller'.Informed m)
    (cleared : handler'.Cleared table) : TimeoutInv table' handler' poller' m := by
  have count : ∀ k, (table' k).receCount = (table k).receCount := fun k =>
    congrArg Prod.fst (same k)
  have status : ∀ k, (table' k).status = (table k).status := fun k => congrArg Prod.snd (same k)
  refine ⟨fun i n since => ?_, fun i n since offline => ?_, informed, ?_⟩
  · rw [count]
    exact inv.count i n since
  · rw [status] at offline
    exact inv.late i n since offline
  · cases handler' with
    | setStatus p => rw [HandlerPc.Cleared, count]; exact cleared
    | _ => trivial

/-- A write keeps the invariant if it does so in its own slot. -/
theorem TimeoutInv.write {s : Shared} {handler handler' : HandlerPc} {poller poller' : PollerPc}
    {m m' : SinceReply} (inv : TimeoutInv s.fepDevList handler poller m) {k : Slot}
    {f : FepDev → FepDev} (others : ∀ i : Polled, i.slot ≠ k → m' i = m i)
    (own : ∀ (i : Polled) n, i.slot = k → m' i = some n →
      (f (s.fepDevList k)).receCount.toNat ≤ n ∧ ((f (s.fepDevList k)).status = inactive → 10 < n))
    (informed : poller'.Informed m') (cleared : handler'.Cleared (s.write k f).fepDevList) :
    TimeoutInv (s.write k f).fepDevList handler' poller' m' := by
  refine ⟨fun i n since => ?_, fun i n since offline => ?_, informed, cleared⟩
  · rw [Shared.write_apply]
    split
    · next here => exact (own i n here since).1
    · next there => exact inv.count i n ((others i there).symm.trans since)
  · rw [Shared.write_apply] at offline
    split at offline
    · next here => exact (own i n here since).2 offline
    · next there => exact inv.late i n ((others i there).symm.trans since) offline

theorem HandlerPc.Cleared.write {s : Shared} {handler : HandlerPc} {k : Slot}
    {f : FepDev → FepDev} (cleared : handler.Cleared s.fepDevList)
    (keeps : ∀ d, (f d).receCount = d.receCount) :
    handler.Cleared (s.write k f).fepDevList := by
  cases handler with
  | setStatus p => exact (s.write_field FepDev.receCount k p.slot keeps).trans cleared
  | _ => trivial

theorem PollerPc.informed_afterCount (m : SinceReply) (i : Polled) :
    (afterCount i).Informed m := by
  rcases afterCount_cases i with ⟨j, next⟩ | next <;> rw [next] <;> trivial

theorem PollerPc.informed_afterCheck (m : SinceReply) (i : Polled) :
    (afterCheck i).Informed m := by
  rcases afterCheck_cases i with ⟨j, next⟩ | next <;> rw [next] <;> trivial

theorem HandlerPc.cleared_dispatch (table : DevTable) (p : FepPacket) :
    (dispatch p).Cleared table := by
  rcases dispatch_cases p with ⟨-, next⟩ | ⟨-, next⟩ <;> rw [next] <;> trivial

/-- The poller still knows enough after a reply, unless the reply overtakes it. -/
theorem PollerPc.Informed.reset {m : SinceReply} {pc : PollerPc} (informed : pc.Informed m)
    (outside : pc.inside = false) {p : FepPacket}
    (inTime : ∀ i, pc = .setInactive i → p.slot ≠ i.slot) :
    pc.Informed ((HandlerPc.setStatus p).resetSince m) := by
  cases pc with
  | setInactive i =>
      intro n since
      rw [HandlerPc.resetSince_setStatus, if_neg (inTime i rfl)] at since
      exact informed n since
  | writeCount i count => cases outside
  | _ => trivial

/-- Every step of the handler that overtakes no decision keeps the invariant. -/
theorem HandlerMove.timeoutInv {s s' : Shared} {pc pc' : HandlerPc} {poller : PollerPc}
    {m : SinceReply} (move : HandlerMove s pc s' pc')
    (alone : ∀ p, pc.inside = some p → poller.inside = false)
    (inTime : ∀ p i, pc = .setStatus p → poller = .setInactive i → p.slot ≠ i.slot)
    (inv : TimeoutInv s.fepDevList pc poller m) :
    TimeoutInv s'.fepDevList pc' poller (pc.resetSince m) := by
  have informed := inv.informed
  cases move with
  | dequeue => exact inv.frame (fun _ => rfl) informed (HandlerPc.cleared_dispatch _ _)
  | setDevType | setDevId | setNewData | setData | setDataL =>
      exact inv.frame (Shared.write_field FepDev.presence _ _ · fun _ => rfl) informed trivial
  | @clearCount p =>
      apply inv.write (fun _ _ => rfl) ?_ informed
      · rw [HandlerPc.Cleared, Shared.write_self]
      · intro i n own since
        rw [← own]
        exact ⟨Nat.zero_le n, inv.late i n since⟩
  | @setStatus p =>
      have zero : (s.fepDevList p.slot).receCount = 0 := inv.cleared
      apply inv.write
      · intro i other
        rw [HandlerPc.resetSince_setStatus, if_neg (Ne.symm other)]
      · intro i n _ _
        constructor
        · rw [zero]
          exact Nat.zero_le n
        · intro offline
          exact absurd offline.symm inactive_ne_active
      · exact informed.reset (alone p rfl) fun i there => inTime p i rfl there
      · trivial
  | _ => exact inv.frame (fun _ => rfl) informed trivial

/-- Every step of the poller keeps the invariant. -/
theorem PollerMove.timeoutInv {s s' : Shared} {pc pc' : PollerPc} {handler : HandlerPc}
    {m : SinceReply} (move : PollerMove s pc s' pc')
    (alone : pc.inside = true → handler.inside = none)
    (inv : TimeoutInv s.fepDevList handler pc m) :
    TimeoutInv s'.fepDevList handler pc' (pc.countSince m) := by
  have informed := inv.informed
  have cleared := inv.cleared
  cases move with
  | refused | inTime | give =>
      refine inv.frame (fun _ => rfl) ?_ cleared
      first
      | exact PollerPc.informed_afterCount m _
      | exact PollerPc.informed_afterCheck m _
  | readCount => exact inv.frame (fun _ => rfl) (fun n since => inv.count _ n since) cleared
  | @writeCount i count =>
      apply inv.write
      · intro k other
        rw [PollerPc.countSince_writeCount, if_neg fun same => other (congrArg Polled.slot same)]
      · intro k n here since
        cases Polled.slot_injective here
        rw [PollerPc.countSince_writeCount, if_pos rfl] at since
        rcases Option.map_eq_some_iff.mp since with ⟨before, was, rfl⟩
        constructor
        · -- the byte may wrap to less than the count, never to more
          rw [UInt8.toNat_add]
          exact Nat.le_trans (Nat.mod_le _ _) (Nat.add_le_add_right (informed before was) 1)
        · intro offline
          exact Nat.lt_succ_of_lt (inv.late i before was offline)
      · trivial
      · have outside := alone rfl
        cases handler with
        | setStatus p => cases outside
        | _ => trivial
  | clearNew =>
      exact inv.frame (Shared.write_field FepDev.presence _ _ · fun _ => rfl) trivial cleared
  | @late i count =>
      refine inv.frame (fun _ => rfl) (fun n since => ?_) cleared
      exact Nat.lt_of_lt_of_le (UInt8.lt_iff_toNat_lt.mp count) (inv.count i n since)
  | @setInactive i =>
      apply inv.write (fun _ _ => rfl) ?_ (PollerPc.informed_afterCheck m i)
      · exact cleared.write fun _ => rfl
      · intro k n here since
        cases Polled.slot_injective here
        exact ⟨inv.count i n since, fun _ => informed n since⟩
  | _ => exact inv.frame (fun _ => rfl) trivial cleared

/-- The invariant of every run in which no reply overtakes a decision. -/
theorem timeoutInv_of_reach {x : Master × SinceReply}
    (reached : (masterLts.watch sinceReply).ReachWhile NotOvertaken x) :
    TimeoutInv x.1.shared.fepDevList x.1.handler x.1.poller x.2 := by
  apply Lts.ReachWhile.invariant_watched
    (P := fun x m => TimeoutInv (Master.shared x).fepDevList x.handler x.poller m) ?_ ?_ reached
  · intro x start
    subst start
    refine ⟨fun i n since => ?_, fun i n since => ?_, trivial, trivial⟩ <;> cases since
  · intro x m a x' before inv allowed moved
    have lock := locked_of_reach before.unwatched
    cases masterLts_move moved with
    | uart4 e => exact inv
    | tim3 => exact inv
    | handler move =>
        refine move.timeoutInv (fun p inside => (lock.handler_outside inside).1) ?_ inv
        intro p i here there
        simp only [NotOvertaken] at allowed
        rw [here, there] at allowed
        exact of_decide_eq_false allowed
    | poller move =>
        refine move.timeoutInv (fun inside => ?_) inv
        cases within : x.handler.inside with
        | none => rfl
        | some p => rw [(lock.handler_outside within).1] at inside; cases inside
    | udp move =>
        have same := move.fepDevList_eq
        simp only [sinceReply, same]
        exact inv

/-- **A fresh reply is never undone by a stale timeout decision**, in every run in which no reply
of a slot is applied between the poller's test of that slot and the write that follows from it. -/
theorem inactive_of_late (x : Master × SinceReply)
    (reached : (masterLts.watch sinceReply).ReachWhile NotOvertaken x) : InactiveLate x :=
  (timeoutInv_of_reach reached).late

/-- The poller's steps through one cycle in which no slot is late. -/
def quietCycle : List Act := .tim3 :: List.replicate 45 (.poller false)

/-- Ten such cycles, and one more up to the decision on slot 1. -/
def upToDecision : List Act :=
  (List.replicate 10 quietCycle).flatten ++ .tim3 :: List.replicate 33 (.poller false)

/-- A device that replies once and falls silent is inactive after eleven cycles. -/
theorem inactive_after_silence :
    ∃ (x : Master × SinceReply) (n : Nat), (masterLts.watch sinceReply).Reach x ∧
      x.2 0 = some n ∧ (x.1.shared.fepDevList (Polled.slot 0)).status = inactive ∧ 10 < n := by
  obtain ⟨x, reached, silent⟩ := Lts.exists_reachWhile_of_exec
    (L := masterLts.watch sinceReply) NotOvertaken (s := (Master.start, fun _ => none))
    ⟨rfl, rfl⟩
    (replyOnBus [0x14, 0x05, 0x09, 0x12, 0x34] ++ List.replicate 15 (.handler false) ++
      upToDecision ++ [.poller false])
    (P := fun x => x.2 0 == some 11 &&
      (x.1.shared.fepDevList (Polled.slot 0)).status == inactive) (by decide +kernel)
  rcases (Bool.and_eq_true_iff).mp silent with ⟨since, offline⟩
  exact ⟨x, 11, reached.reach, eq_of_beq since, eq_of_beq offline,
    inactive_of_late x reached 0 11 (eq_of_beq since) (eq_of_beq offline)⟩

/-- A reply applied between test and write: the slot is inactive with no count step since. -/
theorem inactive_at_once : ¬ ∀ x, (masterLts.watch sinceReply).Reach x →
    x.1.handler.atRest = true → x.1.poller.atRest = true → InactiveLate x := by
  intro claim
  obtain ⟨x, reached, undone⟩ := Lts.exists_reach_of_exec
    (L := masterLts.watch sinceReply) (s := (Master.start, fun _ => none)) ⟨rfl, rfl⟩
    (upToDecision ++ replyOnBus [0x14, 0x05, 0x09, 0x12, 0x34] ++
      List.replicate 15 (.handler false) ++ List.replicate 20 (.poller false))
    (P := fun x => (x.1.handler.atRest && x.1.poller.atRest) && (x.2 0 == some 0 &&
      (x.1.shared.fepDevList (Polled.slot 0)).status == inactive)) (by decide +kernel)
  rcases (Bool.and_eq_true_iff).mp undone with ⟨rest, facts⟩
  rcases (Bool.and_eq_true_iff).mp rest with ⟨handler, poller⟩
  rcases (Bool.and_eq_true_iff).mp facts with ⟨since, offline⟩
  have late := claim x reached handler poller 0 0 (eq_of_beq since) (eq_of_beq offline)
  exact absurd late (by decide)

end FepMaster

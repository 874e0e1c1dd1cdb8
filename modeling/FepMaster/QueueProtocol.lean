import FepMaster.Lib.Waiters
import FepMaster.Queue

/-!
# Waiting for a queue

What the tasks and interrupts at a queue do to each other, without the items: each task takes from
one side (a sender takes free places, a receiver takes items) and gives to the other; each side has
its units on offer, its event list, and the lock that counts what interrupts gave to it.  `Move` has
one case for each thing that can happen, `Orderly` is what they all keep: the locks are locked
exactly where a task has them locked, only tasks that will look again are in an event list, and no
unit lies there unnoticed (`Waiters.Served`).
-/

namespace FepMaster

/-- What a call takes: a free place, or an item. -/
inductive QueueSide
  | sending
  | receiving
  deriving DecidableEq, Repr

/-- The side it gives to. -/
def QueueSide.other : QueueSide → QueueSide
  | .sending => .receiving
  | .receiving => .sending

@[simp] theorem QueueSide.other_ne (side : QueueSide) : side.other ≠ side := by
  cases side with
  | sending => decide
  | receiving => decide

theorem QueueSide.eq_or_other (side side' : QueueSide) : side' = side ∨ side' = side.other := by
  cases side with
  | sending => cases side' with
    | sending => exact .inl rfl
    | receiving => exact .inr rfl
  | receiving => cases side' with
    | sending => exact .inr rfl
    | receiving => exact .inl rfl

namespace QueuePc

/-- The task has suspended the scheduler. -/
def suspends : QueuePc → Bool
  | .outside | .look | .vTaskSuspendAll => false
  | _ => true

/-- The task has locked this side of the queue. -/
def locks : QueuePc → QueueSide → Bool
  | .checkForTimeOut, _ | .checkQueue, _ | .placeOnEventList, _ | .unlockTx _, _ => true
  | .unlockRx _, .sending => true
  | _, _ => false

/-- The task is going to look, as soon as it runs. -/
def looks : QueuePc → Bool
  | .look => true
  | .unlockTx again | .unlockRx again | .xTaskResumeAll again => again
  | _ => false

theorem suspends_of_locks {pc : QueuePc} {side : QueueSide} (locked : pc.locks side = true) :
    pc.suspends = true := by
  cases pc <;> first | rfl | cases locked

theorem eq_look {pc : QueuePc} (looks : pc.looks = true) (free : pc.suspends = false) :
    pc = .look := by
  cases pc <;> first | rfl | (cases looks; done) | cases free

end QueuePc

/-- The tasks and the queue, as far as they wait for each other. -/
@[ext] structure QueueProtocol (Task : Type) where
  pc : Task → QueuePc
  side : Task → QueueSide
  owner : Option Task
  waiting : QueueSide → List Task
  lock : QueueSide → Int
  available : QueueSide → Nat

namespace QueueProtocol

variable {Task : Type}

/-! ## What holds throughout -/

/-- The task is ready and nobody else has suspended the scheduler. -/
def Runs (v : QueueProtocol Task) (t : Task) : Prop :=
  if v.owner = none then ∀ side, t ∉ v.waiting side else v.owner = some t

/-- Exactly the task that is past `vTaskSuspendAll` has suspended the scheduler. -/
def Owned (v : QueueProtocol Task) : Prop := ∀ t, v.owner = some t ↔ (v.pc t).suspends = true

variable {xItemValue : Task → Nat} {v v' : QueueProtocol Task} {t u : Task} {pc : QueuePc}
  {side : QueueSide}

theorem Owned.runs_of_suspends (owned : v.Owned) (suspends : (v.pc t).suspends = true)
    (runs : v.Runs u) : u = t := by
  have owner := (owned t).mpr suspends
  unfold Runs at runs
  rw [owner, if_neg (Option.some_ne_none t)] at runs
  exact (Option.some.inj runs).symm

/-- A task that has not suspended the scheduler runs only while nobody has, and waits nowhere. -/
theorem Owned.ready (owned : v.Owned) (runs : v.Runs t) (free : (v.pc t).suspends = false) :
    v.owner = none ∧ ∀ side, t ∉ v.waiting side := by
  unfold Runs at runs
  split at runs
  · next nobody => exact ⟨nobody, runs⟩
  · have suspends := (owned t).mp runs
    rw [free] at suspends
    cases suspends

theorem Owned.of_owner_none (owned : v.Owned) (nobody : v.owner = none) (t : Task) :
    (v.pc t).suspends = false := by
  cases suspends : (v.pc t).suspends with
  | false => rfl
  | true =>
      have owner := (owned t).mpr suspends
      rw [nobody] at owner
      cases owner

/-- A side is locked while a task has it locked, and unlocked otherwise. -/
structure Locked (v : QueueProtocol Task) : Prop where
  locked : ∀ t side, (v.pc t).locks side = true → queueLockedUnmodified ≤ v.lock side
  unlocked : ∀ side, (∀ t, (v.pc t).locks side = false) → v.lock side = queueUnlocked

/-- A side that nobody has locked is not at a count. -/
theorem Locked.of_count (locks : v.Locked) (counted : v.lock side ≠ queueUnlocked) :
    ∃ t, (v.pc t).locks side = true := by
  by_contra nobody
  refine counted (locks.unlocked side fun t => ?_)
  cases held : (v.pc t).locks side with
  | false => rfl
  | true => exact absurd ⟨t, held⟩ nobody

/-- In an event list are tasks of its side that are going to look again, each once, in the order of
the values of their list items. -/
structure Lined (xItemValue : Task → Nat) (v : QueueProtocol Task) : Prop where
  waits : ∀ side, ∀ t ∈ v.waiting side, v.side t = side ∧ (v.pc t).looks = true
  nodup : ∀ side, (v.waiting side).Nodup
  sorted : ∀ side, (v.waiting side).Pairwise fun t u => xItemValue t ≤ xItemValue u

theorem mem_vListInsert {l : List Task} : u ∈ vListInsert xItemValue t l ↔ u = t ∨ u ∈ l := by
  induction l with
  | nil => rw [vListInsert, List.mem_singleton, or_iff_left (List.not_mem_nil)]
  | cons next rest ih =>
      unfold vListInsert
      split
      · rw [List.mem_cons, ih, List.mem_cons]
        exact or_left_comm
      · exact List.mem_cons

theorem nodup_vListInsert {l : List Task} (nodup : l.Nodup) (new : t ∉ l) :
    (vListInsert xItemValue t l).Nodup := by
  induction l with
  | nil => exact List.nodup_singleton t
  | cons next rest ih =>
      rw [List.nodup_cons] at nodup
      rw [List.mem_cons, not_or] at new
      unfold vListInsert
      split
      · rw [List.nodup_cons, mem_vListInsert, not_or]
        exact ⟨⟨fun same => new.1 same.symm, nodup.1⟩, ih nodup.2 new.2⟩
      · rw [List.nodup_cons, List.mem_cons, not_or]
        exact ⟨new, List.nodup_cons.mpr nodup⟩

theorem sorted_vListInsert {l : List Task}
    (sorted : l.Pairwise fun t u => xItemValue t ≤ xItemValue u) :
    (vListInsert xItemValue t l).Pairwise fun t u => xItemValue t ≤ xItemValue u := by
  induction l with
  | nil => exact List.pairwise_singleton _ t
  | cons next rest ih =>
      rw [List.pairwise_cons] at sorted
      unfold vListInsert
      split
      · next before =>
          rw [List.pairwise_cons]
          refine ⟨fun u member => ?_, ih sorted.2⟩
          rcases mem_vListInsert.mp member with rfl | behind
          · exact before
          · exact sorted.1 u behind
      · next behind =>
          rw [List.pairwise_cons]
          refine ⟨fun u member => ?_, List.pairwise_cons.mpr sorted⟩
          rcases List.mem_cons.mp member with rfl | later
          · omega
          · exact le_trans (by omega) (sorted.1 u later)

/-- The first of a list is in it. -/
theorem mem_of_first {l : List Task} (first : v.waiting side = u :: l) : u ∈ v.waiting side := by
  rw [first]
  exact List.mem_cons_self

/-- A task that is not going to look waits nowhere. -/
theorem Lined.not_waiting (lined : v.Lined xItemValue) (busy : (v.pc t).looks = false)
    (side : QueueSide) : t ∉ v.waiting side := by
  intro member
  have looks := (lined.waits side t member).2
  rw [busy] at looks
  cases looks

/-- Tasks leave the event lists, and those left in them are as they were. -/
theorem Lined.of_sublist (lined : v.Lined xItemValue)
    (fewer : ∀ side, (v'.waiting side).Sublist (v.waiting side))
    (kept : ∀ side, ∀ t ∈ v.waiting side, v'.side t = v.side t ∧ (v'.pc t).looks = true) :
    v'.Lined xItemValue where
  waits side t member := by
    have before := (fewer side).subset member
    obtain ⟨same, looks⟩ := kept side t before
    exact ⟨same.trans (lined.waits side t before).1, looks⟩
  nodup side := (lined.nodup side).sublist (fewer side)
  sorted side := (lined.sorted side).sublist (fewer side)

/-- One event list gets shorter. -/
theorem update_sublist {l : List Task} (fewer : l.Sublist (v.waiting side)) (side' : QueueSide) :
    (Function.update v.waiting side l side').Sublist (v.waiting side') := by
  rcases side.eq_or_other side' with rfl | rfl
  · rw [Function.update_self]
    exact fewer
  · rw [Function.update_of_ne side.other_ne]

/-! ## What can happen -/

variable [DecidableEq Task]

/-- The task goes on at `pc`. -/
def goto (v : QueueProtocol Task) (t : Task) (pc : QueuePc) : QueueProtocol Task :=
  { v with pc := Function.update v.pc t pc }

/-- An event list becomes another one. -/
def withList (v : QueueProtocol Task) (side : QueueSide) (l : List Task) : QueueProtocol Task :=
  { v with waiting := Function.update v.waiting side l }

/-- A lock becomes another one. -/
def withLock (v : QueueProtocol Task) (side : QueueSide) (lock : Int) : QueueProtocol Task :=
  { v with lock := Function.update v.lock side lock }

/-- What can happen. -/
inductive Move (xItemValue : Task → Nat) (v : QueueProtocol Task) : QueueProtocol Task → Prop
  /-- Nothing that matters here. -/
  | idle : Move xItemValue v v
  /-- A call starts. -/
  | enter (t : Task) (side : QueueSide) : v.pc t = .outside → v.owner = none →
      Move xItemValue v { v.goto t .look with side := Function.update v.side t side }
  /-- There was nothing to take, and the call ends or goes on to wait. -/
  | turnAway (t : Task) (pc : QueuePc) : v.pc t = .look → v.Runs t → v.available (v.side t) = 0 →
      pc = .outside ∨ pc = .vTaskSuspendAll → Move xItemValue v (v.goto t pc)
  /-- A unit was taken, one was given to the other side, and the first that waits there is woken. -/
  | serve (t : Task) (units : QueueSide → Nat) : v.pc t = .look → v.Runs t →
      units (v.side t) ≤ v.available (v.side t) - 1 →
      units (v.side t).other ≤ v.available (v.side t).other + 1 →
      Move xItemValue v { (v.goto t .outside).withList (v.side t).other
        (v.waiting (v.side t).other).tail with available := units }
  /-- A unit was looked at, and the next that waits for it is woken. -/
  | relay (t : Task) : v.pc t = .look → v.Runs t →
      Move xItemValue v ((v.goto t .outside).withList (v.side t) (v.waiting (v.side t)).tail)
  | suspend (t : Task) : v.pc t = .vTaskSuspendAll → v.Runs t →
      Move xItemValue v { v.goto t .prvLockQueue with owner := some t }
  | lockQueue (t : Task) : v.pc t = .prvLockQueue →
      Move xItemValue v { v.goto t .checkForTimeOut with
        lock := fun side =>
          if v.lock side = queueUnlocked then queueLockedUnmodified else v.lock side }
  /-- With the queue locked the task goes on, or is to unlock it. -/
  | goOn (t : Task) (pc : QueuePc) : (v.pc t = .checkForTimeOut ∧ pc = .checkQueue) ∨
      (v.pc t = .checkForTimeOut ∧ pc = .unlockTx false) ∨
      (v.pc t = .checkQueue ∧ pc = .unlockTx true) → Move xItemValue v (v.goto t pc)
  | mustWait (t : Task) : v.pc t = .checkQueue → v.available (v.side t) = 0 →
      Move xItemValue v (v.goto t .placeOnEventList)
  | place (t : Task) : v.pc t = .placeOnEventList →
      Move xItemValue v ((v.goto t (.unlockTx true)).withList (v.side t)
        (vListInsert xItemValue t (v.waiting (v.side t))))
  /-- One side is unlocked, and what interrupts gave to it is passed on. -/
  | unlock (t : Task) (side : QueueSide) (pc : QueuePc) (again : Bool) :
      (side = .receiving ∧ v.pc t = .unlockTx again ∧ pc = .unlockRx again) ∨
      (side = .sending ∧ v.pc t = .unlockRx again ∧ pc = .xTaskResumeAll again) →
      Move xItemValue v (((v.goto t pc).withList side
        ((v.waiting side).drop (v.lock side).toNat)).withLock side queueUnlocked)
  | resume (t : Task) (again : Bool) : v.pc t = .xTaskResumeAll again →
      Move xItemValue v { v.goto t (if again then .look else .outside) with owner := none }
  /-- The wait of a task comes to its end. -/
  | unblock (t : Task) : v.owner = none →
      Move xItemValue v { v with waiting := fun side => (v.waiting side).erase t }
  /-- An interrupt gives a unit to an unlocked queue. -/
  | give (side : QueueSide) (units : QueueSide → Nat) : v.lock side = queueUnlocked →
      units side ≤ v.available side + 1 → units side.other ≤ v.available side.other →
      Move xItemValue v { v.withList side (v.waiting side).tail with available := units }
  /-- An interrupt gives a unit to a locked queue. -/
  | count (side : QueueSide) (units : QueueSide → Nat) : v.lock side ≠ queueUnlocked →
      units side ≤ v.available side + 1 → units side.other ≤ v.available side.other →
      Move xItemValue v { v.withLock side (v.lock side + 1) with available := units }

@[simp] theorem goto_pc_self : (v.goto t pc).pc t = pc := Function.update_self ..

@[simp] theorem goto_pc_of_ne (other : u ≠ t) : (v.goto t pc).pc u = v.pc u :=
  Function.update_of_ne other ..

/-! ## Who has suspended the scheduler -/

/-- A task that goes on without suspending or resuming the scheduler. -/
theorem Owned.goto (owned : v.Owned) (t : Task) (pc : QueuePc)
    (same : pc.suspends = (v.pc t).suspends) :
    (v.goto t pc).Owned := by
  intro u
  change v.owner = some u ↔ _
  by_cases itself : u = t
  · rw [itself, goto_pc_self, same]
    exact owned t
  · rw [goto_pc_of_ne itself]
    exact owned u

theorem Owned.move (owned : v.Owned) (move : Move xItemValue v v') : v'.Owned := by
  cases move with
  | idle => exact owned
  | enter t side out nobody => exact owned.goto t .look (by rw [out]; rfl)
  | turnAway t pc looking runs nothing target =>
      apply owned.goto t
      rcases target with rfl | rfl
      · rw [looking]; rfl
      · rw [looking]; rfl
  | serve t units looking => exact owned.goto t .outside (by rw [looking]; rfl)
  | relay t looking => exact owned.goto t .outside (by rw [looking]; rfl)
  | suspend t before runs =>
      have nobody := (owned.ready runs (by rw [before]; rfl)).1
      intro u
      change some t = some u ↔ ((v.goto t .prvLockQueue).pc u).suspends = true
      by_cases itself : u = t
      · rw [itself, goto_pc_self]
        exact iff_of_true rfl rfl
      · rw [goto_pc_of_ne itself, owned.of_owner_none nobody u]
        exact iff_of_false (fun same => itself (Option.some.inj same).symm) Bool.false_ne_true
  | lockQueue t before => exact owned.goto t .checkForTimeOut (by rw [before]; rfl)
  | goOn t pc edge =>
      apply owned.goto t
      rcases edge with ⟨before, rfl⟩ | ⟨before, rfl⟩ | ⟨before, rfl⟩
      · rw [before]; rfl
      · rw [before]; rfl
      · rw [before]; rfl
  | mustWait t before => exact owned.goto t _ (by rw [before]; rfl)
  | place t before => exact owned.goto t (.unlockTx true) (by rw [before]; rfl)
  | unlock t side pc again edge =>
      refine Owned.goto owned t pc ?_
      rcases edge with ⟨_, before, rfl⟩ | ⟨_, before, rfl⟩
      · rw [before]; rfl
      · rw [before]; rfl
  | resume t again before =>
      have owner := (owned t).mpr (by rw [before]; rfl)
      intro u
      change none = some u ↔ _
      by_cases itself : u = t
      · rw [itself]
        refine iff_of_false (Option.some_ne_none t).symm ?_
        change ¬ ((v.goto t (if again then .look else .outside)).pc t).suspends = true
        rw [goto_pc_self]
        cases again with
        | false => exact Bool.false_ne_true
        | true => exact Bool.false_ne_true
      · refine iff_of_false (Option.some_ne_none u).symm ?_
        change ¬ ((v.goto t (if again then .look else .outside)).pc u).suspends = true
        rw [goto_pc_of_ne itself]
        intro suspends
        have other := (owned u).mpr suspends
        rw [owner] at other
        exact itself (Option.some.inj other).symm
  | unblock t => exact owned
  | give side units => exact owned
  | count side units => exact owned

/-! ## The locks -/

/-- A task that goes on with the same sides locked. -/
theorem Locked.goto (locks : v.Locked) (t : Task) (pc : QueuePc)
    (same : ∀ side, pc.locks side = (v.pc t).locks side) :
    (v.goto t pc).Locked where
  locked u side held := by
    by_cases itself : u = t
    · rw [itself, goto_pc_self, same] at held
      exact locks.locked t side held
    · rw [goto_pc_of_ne itself] at held
      exact locks.locked u side held
  unlocked side free := by
    refine locks.unlocked side fun u => ?_
    have before := free u
    by_cases itself : u = t
    · rw [itself, goto_pc_self, same] at before
      rw [itself]
      exact before
    · rw [goto_pc_of_ne itself] at before
      exact before

theorem Locked.move (locks : v.Locked) (owned : v.Owned) (move : Move xItemValue v v') :
    v'.Locked := by
  cases move with
  | idle => exact locks
  | enter t side out nobody =>
      have moved := locks.goto t .look (by rw [out]; exact fun _ => rfl)
      exact ⟨moved.locked, moved.unlocked⟩
  | turnAway t pc looking runs nothing target =>
      apply locks.goto t
      rw [looking]
      rcases target with rfl | rfl
      · exact fun _ => rfl
      · exact fun _ => rfl
  | serve t units looking =>
      have moved := locks.goto t .outside (by rw [looking]; exact fun _ => rfl)
      exact ⟨moved.locked, moved.unlocked⟩
  | relay t looking =>
      have moved := locks.goto t .outside (by rw [looking]; exact fun _ => rfl)
      exact ⟨moved.locked, moved.unlocked⟩
  | suspend t before =>
      have moved := locks.goto t .prvLockQueue (by rw [before]; exact fun _ => rfl)
      exact ⟨moved.locked, moved.unlocked⟩
  | lockQueue t before =>
      constructor
      · intro u side _
        change queueLockedUnmodified ≤
          if v.lock side = queueUnlocked then queueLockedUnmodified else v.lock side
        split
        · exact Int.le_refl _
        · next counted =>
            obtain ⟨other, held⟩ := locks.of_count counted
            exact locks.locked other side held
      · intro side free
        have held : ((v.goto t .checkForTimeOut).pc t).locks side = false := free t
        rw [goto_pc_self] at held
        cases held
  | goOn t pc edge =>
      apply locks.goto t
      rcases edge with ⟨before, rfl⟩ | ⟨before, rfl⟩ | ⟨before, rfl⟩
      · rw [before]; exact fun _ => rfl
      · rw [before]; exact fun _ => rfl
      · rw [before]; exact fun _ => rfl
  | mustWait t before => exact locks.goto t _ (by rw [before]; exact fun _ => rfl)
  | place t before =>
      have moved := locks.goto t (.unlockTx true) (by rw [before]; exact fun _ => rfl)
      exact ⟨moved.locked, moved.unlocked⟩
  | unlock t side pc again edge =>
      -- only the owner can have a side locked, and it keeps the other one as it was
      have kept : pc.locks side = false ∧ pc.locks side.other = (v.pc t).locks side.other := by
        rcases edge with ⟨rfl, before, rfl⟩ | ⟨rfl, before, rfl⟩
        · rw [before]; exact ⟨rfl, rfl⟩
        · rw [before]; exact ⟨rfl, rfl⟩
      have suspends : (v.pc t).suspends = true := by
        rcases edge with ⟨_, before, _⟩ | ⟨_, before, _⟩
        · rw [before]; rfl
        · rw [before]; rfl
      have alone : ∀ u side', u ≠ t → (v.pc u).locks side' = false := by
        intro u side' different
        cases held : (v.pc u).locks side' with
        | false => rfl
        | true =>
            have owner := (owned u).mpr (QueuePc.suspends_of_locks held)
            rw [(owned t).mpr suspends] at owner
            exact absurd (Option.some.inj owner).symm different
      have elsewhere : ∀ u side', ((v.goto t pc).pc u).locks side' = true →
          side' = side.other ∧ (v.pc t).locks side' = true := by
        intro u side' held
        by_cases itself : u = t
        · rw [itself, goto_pc_self] at held
          rcases side.eq_or_other side' with rfl | rfl
          · rw [kept.1] at held
            cases held
          · exact ⟨rfl, kept.2 ▸ held⟩
        · rw [goto_pc_of_ne itself, alone u side' itself] at held
          cases held
      constructor
      · intro u side' held
        obtain ⟨rfl, before⟩ := elsewhere u side' held
        change queueLockedUnmodified ≤ Function.update v.lock side queueUnlocked side.other
        rw [Function.update_of_ne side.other_ne]
        exact locks.locked t _ before
      · intro side' free
        change Function.update v.lock side queueUnlocked side' = queueUnlocked
        rcases side.eq_or_other side' with rfl | rfl
        · exact Function.update_self ..
        · rw [Function.update_of_ne side.other_ne]
          refine locks.unlocked _ fun u => ?_
          by_cases itself : u = t
          · have after : ((v.goto t pc).pc t).locks side.other = false := free t
            rw [goto_pc_self, kept.2] at after
            rw [itself]
            exact after
          · exact alone u _ itself
  | resume t again before =>
      have moved := locks.goto t (if again then .look else .outside) (by
        rw [before]
        cases again with
        | false => exact fun _ => rfl
        | true => exact fun _ => rfl)
      exact ⟨moved.locked, moved.unlocked⟩
  | unblock t => exact ⟨locks.locked, locks.unlocked⟩
  | give side units => exact ⟨locks.locked, locks.unlocked⟩
  | count side units counted =>
      have before : queueLockedUnmodified ≤ v.lock side := by
        obtain ⟨other, held⟩ := locks.of_count counted
        exact locks.locked other side held
      constructor
      · intro u side' held
        change queueLockedUnmodified ≤ Function.update v.lock side (v.lock side + 1) side'
        rcases side.eq_or_other side' with rfl | rfl
        · rw [Function.update_self]
          exact Int.le_trans before (Int.le_of_lt (Int.lt_succ _))
        · rw [Function.update_of_ne side.other_ne]
          exact locks.locked u _ held
      · intro side' free
        change Function.update v.lock side (v.lock side + 1) side' = queueUnlocked
        rcases side.eq_or_other side' with rfl | rfl
        · exact absurd (locks.unlocked _ free) counted
        · rw [Function.update_of_ne side.other_ne]
          exact locks.unlocked _ free

/-! ## The event lists -/

/-- A task that goes on, and looks again if it is in an event list. -/
theorem Lined.goto_looks (lined : v.Lined xItemValue) (t : Task) (pc : QueuePc)
    (looks : ∀ side, t ∈ v.waiting side → pc.looks = true) (side : QueueSide) :
    ∀ u ∈ v.waiting side, v.side u = v.side u ∧ ((v.goto t pc).pc u).looks = true := by
  intro u member
  refine ⟨rfl, ?_⟩
  by_cases itself : u = t
  · rw [itself] at member
    rw [itself, goto_pc_self]
    exact looks side member
  · rw [goto_pc_of_ne itself]
    exact (lined.waits side u member).2

theorem Lined.move (lined : v.Lined xItemValue) (owned : v.Owned)
    (move : Move xItemValue v v') : v'.Lined xItemValue := by
  cases move with
  | idle => exact lined
  | enter t side out nobody =>
      have awake := lined.not_waiting (t := t) (by rw [out]; rfl)
      have looks := lined.goto_looks t .look fun _ _ => rfl
      refine lined.of_sublist (fun _ => List.Sublist.refl _) fun side' u member => ?_
      have different : u ≠ t := fun same => awake side' (same ▸ member)
      exact ⟨Function.update_of_ne different .., (looks side' u member).2⟩
  | turnAway t pc looking runs nothing target =>
      have awake := (owned.ready runs (by rw [looking]; rfl)).2
      exact lined.of_sublist (fun _ => List.Sublist.refl _)
        (lined.goto_looks t _ fun side waits => absurd waits (awake side))
  | serve t units looking runs =>
      have awake := (owned.ready runs (by rw [looking]; rfl)).2
      exact lined.of_sublist (update_sublist (List.tail_sublist _))
        (lined.goto_looks t _ fun side waits => absurd waits (awake side))
  | relay t looking runs =>
      have awake := (owned.ready runs (by rw [looking]; rfl)).2
      exact lined.of_sublist (update_sublist (List.tail_sublist _))
        (lined.goto_looks t _ fun side waits => absurd waits (awake side))
  | suspend t before =>
      have awake := lined.not_waiting (t := t) (by rw [before]; rfl)
      exact lined.of_sublist (fun _ => List.Sublist.refl _)
        (lined.goto_looks t _ fun side waits => absurd waits (awake side))
  | lockQueue t before =>
      have awake := lined.not_waiting (t := t) (by rw [before]; rfl)
      exact lined.of_sublist (fun _ => List.Sublist.refl _)
        (lined.goto_looks t _ fun side waits => absurd waits (awake side))
  | goOn t pc edge =>
      have busy : (v.pc t).looks = false := by
        rcases edge with ⟨before, _⟩ | ⟨before, _⟩ | ⟨before, _⟩
        · rw [before]; rfl
        · rw [before]; rfl
        · rw [before]; rfl
      exact lined.of_sublist (fun _ => List.Sublist.refl _)
        (lined.goto_looks t _ fun side waits => absurd waits (lined.not_waiting busy side))
  | mustWait t before =>
      have awake := lined.not_waiting (t := t) (by rw [before]; rfl)
      exact lined.of_sublist (fun _ => List.Sublist.refl _)
        (lined.goto_looks t _ fun side waits => absurd waits (awake side))
  | place t before =>
      have awake := lined.not_waiting (t := t) (by rw [before]; rfl)
      have looks := lined.goto_looks t (.unlockTx true) fun _ _ => rfl
      constructor
      · intro side u member
        change u ∈ Function.update v.waiting (v.side t) _ side at member
        rcases (v.side t).eq_or_other side with rfl | rfl
        · rw [Function.update_self] at member
          rcases mem_vListInsert.mp member with rfl | other
          · exact ⟨rfl, congrArg QueuePc.looks goto_pc_self⟩
          · exact ⟨(lined.waits _ u other).1, (looks _ u other).2⟩
        · rw [Function.update_of_ne (v.side t).other_ne] at member
          exact ⟨(lined.waits _ u member).1, (looks _ u member).2⟩
      · intro side
        change (Function.update v.waiting (v.side t) _ side).Nodup
        rcases (v.side t).eq_or_other side with rfl | rfl
        · rw [Function.update_self]
          exact nodup_vListInsert (lined.nodup _) (awake _)
        · rw [Function.update_of_ne (v.side t).other_ne]
          exact lined.nodup _
      · intro side
        change (Function.update v.waiting (v.side t) _ side).Pairwise _
        rcases (v.side t).eq_or_other side with rfl | rfl
        · rw [Function.update_self]
          exact sorted_vListInsert (lined.sorted _)
        · rw [Function.update_of_ne (v.side t).other_ne]
          exact lined.sorted _
  | unlock t side pc again edge =>
      have same : pc.looks = (v.pc t).looks := by
        rcases edge with ⟨_, before, rfl⟩ | ⟨_, before, rfl⟩
        · rw [before]; rfl
        · rw [before]; rfl
      exact lined.of_sublist (update_sublist (List.drop_sublist ..))
        (lined.goto_looks t _ fun side' waits => same.trans (lined.waits side' t waits).2)
  | resume t again before =>
      refine lined.of_sublist (fun _ => List.Sublist.refl _)
        (lined.goto_looks t _ fun side waits => ?_)
      have looks := (lined.waits side t waits).2
      rw [before] at looks
      cases again with
      | false => cases looks
      | true => rfl
  | unblock t =>
      exact lined.of_sublist (fun _ => List.erase_sublist ..)
        (fun side u member => ⟨rfl, (lined.waits side u member).2⟩)
  | give side units =>
      exact lined.of_sublist (update_sublist (List.tail_sublist _))
        (fun side' u member => ⟨rfl, (lined.waits side' u member).2⟩)
  | count side units =>
      exact lined.of_sublist (fun _ => List.Sublist.refl _)
        (fun side' u member => ⟨rfl, (lined.waits side' u member).2⟩)

/-! ## No unit lies there unnoticed -/

/-- The tasks that are about to put themselves into an event list are not those that went on. -/
theorem placing_goto (ne : pc ≠ .placeOnEventList)
    (placing : (v.goto t pc).pc u = .placeOnEventList) : v.pc u = .placeOnEventList ∧ u ≠ t := by
  have different : u ≠ t := by
    intro itself
    rw [itself, goto_pc_self] at placing
    exact ne placing
  rw [goto_pc_of_ne different] at placing
  exact ⟨placing, different⟩

section Served

variable [Fintype Task]

/-- The tasks of a side that are going to look, as soon as they run. -/
def looking (v : QueueProtocol Task) (side : QueueSide) : Finset Task :=
  Finset.univ.filter fun t => v.side t = side ∧ (v.pc t).looks = true ∧ t ∉ v.waiting side

theorem mem_looking :
    t ∈ v.looking side ↔ v.side t = side ∧ (v.pc t).looks = true ∧ t ∉ v.waiting side := by
  rw [looking, Finset.mem_filter, and_iff_right (Finset.mem_univ t)]

/-- A side, as a place where parties wait for units. -/
def waiters (v : QueueProtocol Task) (side : QueueSide) : Waiters Task where
  available := v.available side
  pending := (v.lock side).toNat
  waiting := v.waiting side
  looking := v.looking side

/-- No unit lies there unnoticed; and a task on its way into an event list does not overlook one. -/
structure Noticed (v : QueueProtocol Task) : Prop where
  placing : ∀ t, v.pc t = .placeOnEventList →
    v.available (v.side t) ≤ (v.lock (v.side t)).toNat
  served : ∀ side, (v.waiters side).Served

/-- Who is going to look after a task went on: the others still, and the task if it looks. -/
theorem looking_goto (t : Task) (pc : QueuePc) (side : QueueSide) :
    (v.looking side).erase t ⊆ (v.goto t pc).looking side := by
  intro u member
  obtain ⟨different, before⟩ := Finset.mem_erase.mp member
  rw [mem_looking] at before ⊢
  rw [goto_pc_of_ne different]
  exact before

theorem looking_goto_of_not_mem (pc : QueuePc) (out : t ∉ v.looking side) :
    v.looking side ⊆ (v.goto t pc).looking side := by
  rw [← Finset.erase_eq_of_notMem out]
  exact looking_goto t pc side

theorem looking_goto_of_looks (looks : (v.pc t).looks = true → pc.looks = true) :
    v.looking side ⊆ (v.goto t pc).looking side := by
  intro u member
  rw [mem_looking] at member ⊢
  rcases member with ⟨same, before, absent⟩
  refine ⟨same, ?_, absent⟩
  by_cases itself : u = t
  · rw [itself, goto_pc_self]
    exact looks (itself ▸ before)
  · rw [goto_pc_of_ne itself]
    exact before

/-- A task that is not going to look. -/
theorem not_mem_looking_of_pc (busy : (v.pc t).looks = false) : t ∉ v.looking side := by
  rw [mem_looking]
  intro member
  rw [busy] at member
  cases member.2.1

theorem not_mem_looking_of_side (other : side ≠ v.side t) : t ∉ v.looking side := by
  rw [mem_looking]
  exact fun member => other member.1.symm

/-- Tasks that were going to look, and the first of the event list that is woken. -/
theorem looking_wake (lined : v.Lined xItemValue) {l : List Task} (first : v.waiting side = u :: l)
    {S : Finset Task} (subset : S ⊆ v.looking side) {w : QueueProtocol Task}
    (same : w.side = v.side) (shorter : w.waiting side = (v.waiting side).tail)
    (pcs : ∀ x ∈ insert u S, w.pc x = v.pc x) : insert u S ⊆ w.looking side := by
  have nodup := lined.nodup side
  rw [first, List.nodup_cons] at nodup
  intro x found
  rw [mem_looking, same, pcs x found, shorter, first, List.tail_cons]
  rcases Finset.mem_insert.mp found with rfl | before
  · have member : x ∈ v.waiting side := mem_of_first first
    exact ⟨(lined.waits side x member).1, (lined.waits side x member).2, nodup.1⟩
  · have looks := subset before
    rw [mem_looking, first, List.mem_cons, not_or] at looks
    exact ⟨looks.1, looks.2.1, looks.2.2.2⟩

/-- A task in an event list is not on its way. -/
theorem not_mem_looking_of_waiting {l : List Task} (first : v.waiting side = u :: l) :
    u ∉ v.looking side := by
  rw [mem_looking, first]
  exact fun member => member.2.2 List.mem_cons_self

/-- The other event list does not matter. -/
theorem looking_withList {side' : QueueSide} (apart : side ≠ side') (l : List Task) :
    v.looking side ⊆ (v.withList side' l).looking side := by
  intro u member
  rw [mem_looking] at member ⊢
  have kept : (v.withList side' l).waiting side = v.waiting side := Function.update_of_ne apart ..
  rw [kept]
  exact member

/-- What is on offer does not change behind the back of a task that is about to put itself into an
event list: only interrupts step meanwhile, and the lock counts what they give. -/
theorem Noticed.placing_move (noticed : v.Noticed) (owned : v.Owned) (locks : v.Locked)
    (move : Move xItemValue v v') : ∀ t, v'.pc t = .placeOnEventList →
      v'.available (v'.side t) ≤ (v'.lock (v'.side t)).toNat := by
  intro u placing
  have suspends (before : v.pc u = .placeOnEventList) : (v.pc u).suspends = true := by
    rw [before]
    rfl
  have locked (before : v.pc u = .placeOnEventList) :
      queueLockedUnmodified ≤ v.lock (v.side u) :=
    locks.locked u (v.side u) (by rw [before]; rfl)
  cases move with
  | idle => exact noticed.placing u placing
  | enter t side out nobody =>
      have before := (placing_goto (by decide) placing).1
      rw [(owned u).mpr (suspends before)] at nobody
      cases nobody
  | turnAway t pc looking runs nothing target =>
      refine noticed.placing u (placing_goto ?_ placing).1
      rcases target with rfl | rfl
      · decide
      · decide
  | serve t units looking runs =>
      obtain ⟨before, different⟩ := placing_goto (by decide) placing
      exact absurd (owned.runs_of_suspends (suspends before) runs).symm different
  | relay t looking runs =>
      obtain ⟨before, different⟩ := placing_goto (by decide) placing
      exact absurd (owned.runs_of_suspends (suspends before) runs).symm different
  | suspend t before runs =>
      exact noticed.placing u (placing_goto (by decide) placing).1
  | lockQueue t before =>
      have placed := (placing_goto (by decide) placing).1
      have bound := noticed.placing u placed
      have held := locked placed
      change v.available (v.side u) ≤ (if v.lock (v.side u) = queueUnlocked
        then queueLockedUnmodified else v.lock (v.side u)).toNat
      have counted : v.lock (v.side u) ≠ queueUnlocked := by
        intro free
        rw [free] at held
        exact absurd held (by decide)
      rw [if_neg counted]
      exact bound
  | goOn t pc edge =>
      refine noticed.placing u (placing_goto ?_ placing).1
      rcases edge with ⟨_, rfl⟩ | ⟨_, rfl⟩ | ⟨_, rfl⟩
      · decide
      · decide
      · decide
  | mustWait t before nothing =>
      by_cases itself : u = t
      · rw [itself]
        exact le_trans (Nat.le_of_eq nothing) (Nat.zero_le _)
      · have placed : (v.goto t .placeOnEventList).pc u = .placeOnEventList := placing
        rw [goto_pc_of_ne itself] at placed
        exact noticed.placing u placed
  | place t before =>
      exact noticed.placing u (placing_goto (by decide) placing).1
  | unlock t side pc again edge =>
      -- the task that unlocks has suspended the scheduler, so no other one is on its way
      have unlocking : (v.pc t).suspends = true ∧ pc ≠ .placeOnEventList := by
        rcases edge with ⟨_, before, rfl⟩ | ⟨_, before, rfl⟩
        · rw [before]
          exact ⟨rfl, fun same => by cases same⟩
        · rw [before]
          exact ⟨rfl, fun same => by cases same⟩
      obtain ⟨before, different⟩ := placing_goto unlocking.2 placing
      have owner := (owned u).mpr (suspends before)
      rw [(owned t).mpr unlocking.1] at owner
      exact absurd (Option.some.inj owner).symm different
  | resume t again before =>
      refine noticed.placing u (placing_goto ?_ placing).1
      cases again with
      | false => decide
      | true => decide
  | unblock t nobody => exact noticed.placing u placing
  | give side units free more others =>
      have bound := noticed.placing u placing
      have held := locked placing
      change units (v.side u) ≤ (v.lock (v.side u)).toNat
      rcases side.eq_or_other (v.side u) with same | other
      · rw [same, free] at held
        exact absurd held (by decide)
      · rw [other] at bound ⊢
        exact le_trans others bound
  | count side units counted more others =>
      have bound := noticed.placing u placing
      have held := locked placing
      change units (v.side u) ≤
        (Function.update v.lock side (v.lock side + 1) (v.side u)).toNat
      rcases side.eq_or_other (v.side u) with same | other
      · rw [same] at bound held ⊢
        rw [Function.update_self]
        unfold queueLockedUnmodified at held
        omega
      · rw [other] at bound ⊢
        rw [Function.update_of_ne side.other_ne]
        exact le_trans others bound

/-- Whoever gives a unit wakes a task that waits for one, or leaves a count in the lock; and whoever
unlocks the queue passes the counts on. -/
theorem Noticed.served_move (noticed : v.Noticed) (owned : v.Owned) (locks : v.Locked)
    (lined : v.Lined xItemValue) (move : Move xItemValue v v') (side : QueueSide) :
    (v'.waiters side).Served := by
  have served := noticed.served side
  cases move with
  | idle => exact served
  | enter t entered out nobody =>
      refine served.mono (Nat.le_refl _) (Nat.le_refl _) id ?_
      intro u member
      have before := mem_looking.mp member
      have different : u ≠ t := by
        intro itself
        have looks := before.2.1
        rw [itself, out] at looks
        cases looks
      refine mem_looking.mpr ⟨?_, ?_, before.2.2⟩
      · exact (Function.update_of_ne different ..).trans before.1
      · exact (congrArg QueuePc.looks (goto_pc_of_ne different)).trans before.2.1
  | turnAway t pc looking runs nothing target =>
      rcases (v.side t).eq_or_other side with rfl | rfl
      · apply Waiters.Served.of_pending
        exact le_trans (Nat.le_of_eq nothing) (Nat.zero_le _)
      · exact served.mono (Nat.le_refl _) (Nat.le_refl _) id (looking_goto_of_not_mem pc
          (not_mem_looking_of_side (v.side t).other_ne))
  | serve t units looking runs less more =>
      have awake := (owned.ready runs (by rw [looking]; rfl)).2
      rcases (v.side t).eq_or_other side with rfl | rfl
      · have kept : Function.update v.waiting (v.side t).other (v.waiting (v.side t).other).tail
            (v.side t) = v.waiting (v.side t) := Function.update_of_ne (v.side t).other_ne.symm ..
        refine served.leave (t := t) less (Nat.le_refl _)
          (fun some nothing => some (kept.trans nothing)) ?_
        exact (looking_goto t .outside (v.side t)).trans
          (looking_withList (v.side t).other_ne.symm _)
      · refine served.wake_first more (Nat.le_refl _) (Function.update_self ..) ?_
        intro u rest first
        refine ⟨not_mem_looking_of_waiting first, looking_wake lined first
          (Finset.Subset.refl _) rfl (Function.update_self ..) fun x member => ?_⟩
        have different : x ≠ t := by
          intro itself
          rw [itself] at member
          rcases Finset.mem_insert.mp member with same | looks
          · have waited : u ∈ v.waiting (v.side t).other := mem_of_first first
            rw [← same] at waited
            exact awake _ waited
          · exact not_mem_looking_of_side (v.side t).other_ne looks
        exact goto_pc_of_ne different
  | relay t looking runs =>
      have awake := (owned.ready runs (by rw [looking]; rfl)).2
      rcases (v.side t).eq_or_other side with rfl | rfl
      · refine served.relay_first (t := t) (Nat.le_refl _) (Nat.le_refl _)
          (Function.update_self ..) ?_
        intro u rest first
        refine ⟨not_mem_looking_of_waiting first, looking_wake lined first
          (Finset.erase_subset ..) rfl (Function.update_self ..) fun x member => ?_⟩
        have different : x ≠ t := by
          intro itself
          rw [itself] at member
          rcases Finset.mem_insert.mp member with same | looks
          · have waited : u ∈ v.waiting (v.side t) := mem_of_first first
            rw [← same] at waited
            exact awake _ waited
          · exact Finset.notMem_erase t _ looks
        exact goto_pc_of_ne different
      · have kept : Function.update v.waiting (v.side t) (v.waiting (v.side t)).tail
            (v.side t).other = v.waiting (v.side t).other :=
          Function.update_of_ne (v.side t).other_ne ..
        refine served.mono (Nat.le_refl _) (Nat.le_refl _)
          (fun some nothing => some (kept.trans nothing)) ?_
        exact (looking_goto_of_not_mem .outside
          (not_mem_looking_of_side (v.side t).other_ne)).trans
          (looking_withList (v.side t).other_ne _)
  | suspend t before =>
      exact served.mono (Nat.le_refl _) (Nat.le_refl _) id (looking_goto_of_not_mem .prvLockQueue
        (not_mem_looking_of_pc (by rw [before]; rfl)))
  | lockQueue t before =>
      refine served.mono (Nat.le_refl _) ?_ id (looking_goto_of_not_mem .checkForTimeOut
        (not_mem_looking_of_pc (by rw [before]; rfl)))
      change (v.lock side).toNat ≤ (if v.lock side = queueUnlocked then queueLockedUnmodified
        else v.lock side).toNat
      split
      · next free =>
          rw [free]
          decide
      · exact Nat.le_refl _
  | goOn t pc edge =>
      refine served.mono (Nat.le_refl _) (Nat.le_refl _) id (looking_goto_of_not_mem pc
        (not_mem_looking_of_pc ?_))
      rcases edge with ⟨before, _⟩ | ⟨before, _⟩ | ⟨before, _⟩
      · rw [before]; rfl
      · rw [before]; rfl
      · rw [before]; rfl
  | mustWait t before nothing =>
      exact served.mono (Nat.le_refl _) (Nat.le_refl _) id
        (looking_goto_of_not_mem .placeOnEventList (not_mem_looking_of_pc (by rw [before]; rfl)))
  | place t before =>
      rcases (v.side t).eq_or_other side with rfl | rfl
      · exact Waiters.Served.of_pending (noticed.placing t before)
      · have kept : Function.update v.waiting (v.side t)
            (vListInsert xItemValue t (v.waiting (v.side t))) (v.side t).other =
            v.waiting (v.side t).other := Function.update_of_ne (v.side t).other_ne ..
        refine served.mono (Nat.le_refl _) (Nat.le_refl _)
          (fun some nothing => some (kept.trans nothing)) ?_
        exact (looking_goto_of_not_mem (.unlockTx true)
          (not_mem_looking_of_side (v.side t).other_ne)).trans
          (looking_withList (v.side t).other_ne _)
  | unlock t unlocked pc again edge =>
      have same : pc.looks = (v.pc t).looks := by
        rcases edge with ⟨_, before, rfl⟩ | ⟨_, before, rfl⟩
        · rw [before]; rfl
        · rw [before]; rfl
      have looks {side : QueueSide} : v.looking side ⊆ (v.goto t pc).looking side :=
        looking_goto_of_looks fun before => same.trans before
      rcases unlocked.eq_or_other side with rfl | rfl
      · have rest : Function.update v.waiting side
            ((v.waiting side).drop (v.lock side).toNat) side =
            (v.waiting side).drop (v.lock side).toNat := Function.update_self ..
        refine served.pass_on (Nat.le_refl _) rest (lined.nodup side) ?_ ?_
        · intro u member looks
          exact (mem_looking.mp looks).2.2 member
        · intro u member
          apply mem_looking.mpr
          change v.side u = side ∧ ((v.goto t pc).pc u).looks = true ∧
            u ∉ Function.update v.waiting side ((v.waiting side).drop (v.lock side).toNat) side
          rw [rest]
          rcases Finset.mem_union.mp member with before | woken
          · have kept := mem_looking.mp (looks before)
            exact ⟨kept.1, kept.2.1, fun later => kept.2.2 (List.mem_of_mem_drop later)⟩
          · have first := List.mem_toFinset.mp woken
            have waited := List.mem_of_mem_take first
            refine ⟨(lined.waits side u waited).1, (lined.goto_looks t pc (fun side' waits =>
              same.trans (lined.waits side' t waits).2) side u waited).2, ?_⟩
            exact List.disjoint_take_drop (lined.nodup side) (Nat.le_refl _) first
      · have kept : Function.update v.waiting unlocked
            ((v.waiting unlocked).drop (v.lock unlocked).toNat) unlocked.other =
            v.waiting unlocked.other := Function.update_of_ne unlocked.other_ne ..
        have signals : Function.update v.lock unlocked queueUnlocked unlocked.other =
            v.lock unlocked.other := Function.update_of_ne unlocked.other_ne ..
        refine served.mono (Nat.le_refl _) (Nat.le_of_eq (congrArg Int.toNat signals.symm))
          (fun some nothing => some (kept.trans nothing)) ?_
        exact looks.trans (looking_withList unlocked.other_ne _)
  | resume t again before =>
      refine served.mono (Nat.le_refl _) (Nat.le_refl _) id ?_
      apply looking_goto_of_looks (t := t)
      rw [before]
      intro looks
      cases again with
      | false => cases looks
      | true => rfl
  | unblock t nobody =>
      refine served.mono (Nat.le_refl _) (Nat.le_refl _) ?_ ?_
      · intro somebody nothing
        apply somebody
        change (v.waiting side).erase t = []
        have none_waits : v.waiting side = [] := nothing
        rw [none_waits]
        rfl
      · intro u member
        have before := mem_looking.mp member
        exact mem_looking.mpr ⟨before.1, before.2.1, fun later =>
          before.2.2 (List.mem_of_mem_erase later)⟩
  | give given units free more others =>
      rcases given.eq_or_other side with rfl | rfl
      · refine served.wake_first more (Nat.le_refl _) (Function.update_self ..) ?_
        intro u rest first
        exact ⟨not_mem_looking_of_waiting first, looking_wake lined first
          (Finset.Subset.refl _) rfl (Function.update_self ..) fun x _ => rfl⟩
      · have kept : Function.update v.waiting given (v.waiting given).tail given.other =
            v.waiting given.other := Function.update_of_ne given.other_ne ..
        refine served.mono others (Nat.le_refl _) (fun some nothing => some (kept.trans nothing)) ?_
        exact looking_withList given.other_ne _
  | count given units counted more others =>
      rcases given.eq_or_other side with rfl | rfl
      · refine served.signal more ?_ id (Finset.Subset.refl _)
        change (v.lock side).toNat + 1 ≤
          (Function.update v.lock side (v.lock side + 1) side).toNat
        obtain ⟨other, held⟩ := locks.of_count counted
        have above := locks.locked other side held
        unfold queueLockedUnmodified at above
        rw [Function.update_self]
        omega
      · have signals : Function.update v.lock given (v.lock given + 1) given.other =
            v.lock given.other := Function.update_of_ne given.other_ne ..
        exact served.mono others (Nat.le_of_eq (congrArg Int.toNat signals.symm)) id
          (Finset.Subset.refl _)

/-- What every move keeps. -/
structure Orderly (xItemValue : Task → Nat) (v : QueueProtocol Task) : Prop where
  owned : v.Owned
  locks : v.Locked
  lined : v.Lined xItemValue
  noticed : v.Noticed

theorem Orderly.move (orderly : v.Orderly xItemValue) (move : Move xItemValue v v') :
    v'.Orderly xItemValue where
  owned := orderly.owned.move move
  locks := orderly.locks.move orderly.owned move
  lined := orderly.lined.move orderly.owned move
  noticed :=
    { placing := orderly.noticed.placing_move orderly.owned orderly.locks move
      served := orderly.noticed.served_move orderly.owned orderly.locks orderly.lined move }

end Served

end QueueProtocol

end FepMaster

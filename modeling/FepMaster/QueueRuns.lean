import FepMaster.Lib.Fifo
import FepMaster.QueueCalls

/-!
# Runs of a queue

What holds in every run of the tasks and interrupts at a queue: it holds the items of the history
(`queue_contents`), in the order they were sent if all went to the back (`queue_fifo`), which makes
it the `Fifo` that the tasks of the master use (`queue_refines_fifo`), and no byte beside its storage
changes (`queue_bytes_apart`); the event lists are in the order of priority (`event_lists_ordered`),
nobody waits for what is there (`no_lost_wakeup`, `nobody_overlooked`), and one task at a time has
the scheduler suspended and the queue locked (`queue_locked_by_one`), until it resumes it
(`scheduler_resumed`).
-/

namespace FepMaster

open QueueProtocol QueueDefinition Transition

namespace QueueEvent

variable {Task : Type}

/-- The item that was copied in. -/
def sentItem : QueueEvent Task → Option (List UInt8)
  | .sent _ item _ => some item
  | _ => none

/-- The item that was copied out and taken. -/
def receivedItem : QueueEvent Task → Option (List UInt8)
  | .received _ item => some item
  | _ => none

/-- No item was copied in but to the back. -/
def toBack : QueueEvent Task → Prop
  | .sent _ _ xCopyPosition => xCopyPosition = .queueSendToBack
  | _ => True

instance : DecidablePred (@toBack Task)
  | .sent _ _ xCopyPosition => inferInstanceAs (Decidable (xCopyPosition = .queueSendToBack))
  | .received _ _ => inferInstanceAs (Decidable True)
  | .peeked _ _ => inferInstanceAs (Decidable True)
  | .failed _ => inferInstanceAs (Decidable True)

/-- What is sent to the back comes out in that order. -/
theorem foldlM_toBack {n : Nat} {log : List (QueueEvent Task)} {start items : List (List UInt8)}
    (back : ∀ event ∈ log, event.toBack) (replayed : log.foldlM (apply n) start = some items) :
    start ++ log.filterMap sentItem = log.filterMap receivedItem ++ items := by
  induction log generalizing start with
  | nil =>
      cases replayed
      exact List.append_nil _
  | cons event rest ih =>
      rw [List.foldlM_cons] at replayed
      obtain ⟨mid, first, later⟩ := Option.bind_eq_some_iff.mp replayed
      have others := ih (fun event member => back event (List.mem_cons_of_mem _ member)) later
      cases event with
      | sent task item xCopyPosition =>
          have position : xCopyPosition = .queueSendToBack := back _ List.mem_cons_self
          rw [apply, Option.ite_none_right_eq_some, position] at first
          rcases first with ⟨-, placed⟩
          cases placed
          rw [CopyPosition.place, List.append_assoc] at others
          exact others
      | received task item =>
          rw [apply, Option.ite_none_right_eq_some] at first
          rcases first with ⟨front, taken⟩
          cases taken
          rw [List.eq_cons_of_mem_head? front]
          exact congrArg (item :: ·) others
      | peeked task item =>
          rw [apply, Option.ite_none_right_eq_some] at first
          rcases first with ⟨-, kept⟩
          cases kept
          exact others
      | failed task =>
          cases first
          exact others

/-- The event on a queue of items. -/
def onFifo {n : Nat} (f : Fifo (List UInt8) n) : QueueEvent Task → Option (Fifo (List UInt8) n)
  | .sent _ item _ => f.send item
  | .received _ item =>
      match f.receive with
      | some (first, rest) => if first = item then some rest else none
      | none => none
  | .peeked _ item => if f.items.head? = some item then some f else none
  | .failed _ => some f

/-- Without items sent to the front, or overwritten, an event does there what it does to the list. -/
theorem onFifo_of_apply {n : Nat} {f : Fifo (List UInt8) n} {event : QueueEvent Task}
    (back : event.toBack) {items : List (List UInt8)}
    (applied : event.apply n f.items = some items) :
    ∃ g, event.onFifo f = some g ∧ g.items = items := by
  cases event with
  | sent task item xCopyPosition =>
      have position : xCopyPosition = .queueSendToBack := back
      rw [apply, Option.ite_none_right_eq_some, position] at applied
      rcases applied with ⟨room | overwrites, placed⟩
      · cases placed
        exact ⟨_, dif_pos room, rfl⟩
      · cases overwrites
  | received task item =>
      rw [apply, Option.ite_none_right_eq_some] at applied
      rcases applied with ⟨front, taken⟩
      cases taken
      cases received : f.receive with
      | none =>
          rw [Fifo.receive_eq_none received] at front
          cases front
      | some result =>
          have first := Fifo.receive_eq_some received
          rw [first] at front ⊢
          cases front
          refine ⟨result.2, ?_, rfl⟩
          rw [onFifo, received]
          exact if_pos rfl
  | peeked task item =>
      rw [apply, Option.ite_none_right_eq_some] at applied
      rcases applied with ⟨front, kept⟩
      cases kept
      exact ⟨f, if_pos front, rfl⟩
  | failed task =>
      cases applied
      exact ⟨f, rfl, rfl⟩

theorem foldlM_onFifo {n : Nat} {log : List (QueueEvent Task)} {f : Fifo (List UInt8) n}
    {items : List (List UInt8)} (back : ∀ event ∈ log, event.toBack)
    (replayed : log.foldlM (apply n) f.items = some items) :
    ∃ g, log.foldlM onFifo f = some g ∧ g.items = items := by
  induction log generalizing f with
  | nil =>
      cases replayed
      exact ⟨f, rfl, rfl⟩
  | cons event rest ih =>
      rw [List.foldlM_cons] at replayed
      obtain ⟨mid, first, later⟩ := Option.bind_eq_some_iff.mp replayed
      obtain ⟨g, moved, same⟩ := onFifo_of_apply (back event List.mem_cons_self) first
      rw [← same] at later
      obtain ⟨g', moves, result⟩ :=
        ih (fun event member => back event (List.mem_cons_of_mem _ member)) later
      refine ⟨g', ?_, result⟩
      rw [List.foldlM_cons, moved]
      exact moves

end QueueEvent

namespace QueueState

variable {Task : Type} {s s' : QueueState Task} {call : QueueCall}

theorem callable_of_sizes (same : s'.queue.sizes = s.queue.sizes) (callable : s.callable call) :
    s'.callable call := by
  have uxLength : s'.queue.uxLength = s.queue.uxLength := congrArg (·.2.2.1) same
  have uxItemSize : s'.queue.uxItemSize = s.queue.uxItemSize := congrArg (·.2.2.2) same
  cases call with
  | send item xCopyPosition =>
      change item.length = s'.queue.uxItemSize ∧ (_ → s'.queue.uxLength = 1)
      rw [uxLength, uxItemSize]
      exact callable
  | receive xJustPeeking => trivial

theorem fits_of_sizes (same : s'.queue.sizes = s.queue.sizes) (fits : s.Fits call) :
    s'.Fits call := by
  have uxItemSize : s'.queue.uxItemSize = s.queue.uxItemSize := congrArg (·.2.2.2) same
  cases call with
  | send item xCopyPosition =>
      have callable : s.callable (.send item xCopyPosition) := fits.1
      refine ⟨callable_of_sizes same callable, ?_⟩
      rw [uxItemSize]
      exact fits.2
  | receive xJustPeeking => trivial

end QueueState

/-! ## The items -/

/-- The step may overwrite an item, or starts a call that may. -/
def QueueAct.overwrites {Task : Type} : QueueAct Task → Bool
  | .call _ (.send _ xCopyPosition) _ => xCopyPosition == .queueOverwrite
  | .sendFromISR _ xCopyPosition => xCopyPosition == .queueOverwrite
  | _ => false

/-- Only an item with bytes is overwritten: `prvCopyDataToQueue` discounts no other. -/
def OverwritesData {Task : Type} (x : QueueState Task × List (QueueEvent Task))
    (a : QueueAct Task) : Prop :=
  a.overwrites = true → x.1.queue.uxItemSize ≠ 0

instance {Task : Type} (x : QueueState Task × List (QueueEvent Task)) (a : QueueAct Task) :
    Decidable (OverwritesData x a) :=
  inferInstanceAs (Decidable (_ → _))

/-- The queue holds the items of the history, and the calls under way have items that fit. -/
structure QueueContents {Task : Type} (s : QueueState Task) (log : List (QueueEvent Task)) :
    Prop where
  items : ∃ items, QueueEvent.replay s.queue.uxLength log = some items ∧
    s.queue.storage.Holds s.memory items
  fits : ∀ t, (s.frame t).pc ≠ .outside → s.Fits (s.frame t).call

variable {Task : Type} [DecidableEq Task] {uxPriority : Task → Fin configMaxPriorities}
  {s s' : QueueState Task} {a : QueueAct Task}

theorem queueLts_step_iff : (queueLts uxPriority).step s a = some s' ↔
    ∃ event, s.next uxPriority a = some (s', event) := by
  rw [queueLts, Option.map_eq_some_iff]
  constructor
  · intro result
    rcases result with ⟨⟨s', event⟩, taken, rfl⟩
    exact ⟨event, taken⟩
  · intro result
    rcases result with ⟨event, taken⟩
    exact ⟨_, taken, rfl⟩

theorem queueContents_of_reach {x : QueueState Task × List (QueueEvent Task)}
    (reached : ((queueLts uxPriority).watch (queueLog uxPriority)).ReachWhile OverwritesData x) :
    QueueContents x.1 x.2 := by
  apply Lts.ReachWhile.invariant_watched (P := QueueContents) ?_ ?_ reached
  · intro s start
    exact ⟨⟨[], rfl, holds_created start.1 _⟩, fun t inside => absurd (start.2.1 t) inside⟩
  · intro s log a s' before inv allowed moved
    obtain ⟨event, taken⟩ := queueLts_step_iff.mp moved
    obtain ⟨items, replayed, holds⟩ := inv.items
    have sizes := QueueState.next_sizes taken
    have uxLength : s'.queue.uxLength = s.queue.uxLength := congrArg (·.2.2.1) sizes
    have history : (queueLog uxPriority).next log s a s' = log ++ event.toList :=
      congrArg (fun result => log ++ (Option.bind result Prod.snd).toList) taken
    refine ⟨?_, fun t inside => QueueState.fits_of_sizes sizes ?_⟩
    · rw [history, uxLength, QueueEvent.replay_append replayed event]
      by_cases stores : ∃ address value, a = .store address value
      · rcases stores with ⟨address, value, rfl⟩
        simp only [QueueState.next] at taken
        split at taken
        · next apart =>
            cases taken
            exact ⟨items, rfl, holds_store holds apart value⟩
        · cases taken
      · have effect := QueueState.next_effect holds inv.fits
          (fun item same => allowed (by rw [same]; rfl))
          (fun address value same => stores ⟨address, value, same⟩) taken
        exact effect.records
    · refine QueueState.next_calls inv.fits ?_ taken t inside
      intro u call xTicksToWait same callable
      cases call with
      | send item xCopyPosition =>
          exact ⟨callable, fun overwrites => allowed (by rw [same, overwrites]; rfl)⟩
      | receive xJustPeeking => trivial

/-- In every run the queue holds, byte for byte, the items that its history makes: each call got the
first of them, and no item was lost or came twice. -/
theorem queue_contents {x : QueueState Task × List (QueueEvent Task)}
    (reached : ((queueLts uxPriority).watch (queueLog uxPriority)).ReachWhile OverwritesData x) :
    ∃ items, QueueEvent.replay x.1.queue.uxLength x.2 = some items ∧
      x.1.queue.storage.Holds x.1.memory items :=
  (queueContents_of_reach reached).items

/-- A queue for two items of a byte, and two tasks. -/
def twoTasks : QueueState Bool where
  queue := QueueDefinition.xQueueGenericReset ⟨0x20000000, 0, 0, 0, [], [], 0, 2, 1, 0, 0⟩
  memory _ := 0
  frame _ := ⟨.outside, .receive false, 0, false, ⟨0, 0⟩⟩
  uxSchedulerSuspended := none
  ticks := ⟨0, 0⟩
  uxPendedTicks := 0

/-- One has a higher priority than the other. -/
def twoPriorities (t : Bool) : Fin configMaxPriorities := if t then 2 else 1

theorem twoTasks_init : (queueLts twoPriorities).Init twoTasks := by
  refine ⟨⟨by decide, by decide, by decide, by decide, rfl⟩, fun t => rfl, rfl, ?_, ?_, rfl⟩
  · exact Nat.two_pow_pos 32
  · exact Nat.two_pow_pos 32

/-- A task finds the queue empty and puts itself into the event list. -/
def receiverWaits : List (QueueAct Bool) :=
  .call true (.receive false) 10 :: List.replicate 9 (.step true)

/-- A byte is sent. -/
def sends (b : UInt8) : List (QueueAct Bool) :=
  [.call false (.send [b] .queueSendToBack) 0, .step false]

/-- And one received. -/
def receives : List (QueueAct Bool) := [.call true (.receive false) 0, .step true]

/-- Three bytes go into the queue for two, which wraps its ring. -/
def ringWraps : List (QueueAct Bool) := sends 7 ++ sends 8 ++ receives ++ sends 9

/-- A queue for one item. -/
def oneItem : QueueState Bool :=
  { twoTasks with
    queue := QueueDefinition.xQueueGenericReset ⟨0x20000000, 0, 0, 0, [], [], 0, 1, 1, 0, 0⟩ }

theorem oneItem_init : (queueLts twoPriorities).Init oneItem :=
  ⟨⟨by decide, by decide, by decide, by decide, rfl⟩, twoTasks_init.2⟩

/-- The ring is wrapped and another byte sent to the front; and an item is overwritten. -/
theorem queue_contents_wrapped_and_overwritten :
    (∃ x, ((queueLts twoPriorities).watch (queueLog twoPriorities)).ReachWhile OverwritesData x ∧
      x.1.queue.storage.Holds x.1.memory [[5], [9]]) ∧
    ∃ x, ((queueLts twoPriorities).watch (queueLog twoPriorities)).ReachWhile OverwritesData x ∧
      x.1.queue.storage.Holds x.1.memory [[2]] := by
  constructor
  · obtain ⟨x, reached, history⟩ := Lts.exists_reachWhile_of_exec
      (L := (queueLts twoPriorities).watch (queueLog twoPriorities)) OverwritesData
      (s := (twoTasks, [])) ⟨twoTasks_init, rfl⟩
      (ringWraps ++ receives ++ [.sendFromISR [5] .queueSendToFront])
      (P := fun x => QueueEvent.replay x.1.queue.uxLength x.2 == some [[5], [9]]) (by decide)
    obtain ⟨items, replayed, holds⟩ := queue_contents reached
    cases replayed.symm.trans (beq_iff_eq.mp history)
    exact ⟨x, reached, holds⟩
  · obtain ⟨x, reached, history⟩ := Lts.exists_reachWhile_of_exec
      (L := (queueLts twoPriorities).watch (queueLog twoPriorities)) OverwritesData
      (s := (oneItem, [])) ⟨oneItem_init, rfl⟩ (sends 1 ++ [.sendFromISR [2] .queueOverwrite])
      (P := fun x => QueueEvent.replay x.1.queue.uxLength x.2 == some [[2]]) (by decide)
    obtain ⟨items, replayed, holds⟩ := queue_contents reached
    cases replayed.symm.trans (beq_iff_eq.mp history)
    exact ⟨x, reached, holds⟩

/-- In every run in which all items are sent to the back, what was sent is what was received and
then what the queue holds. -/
theorem queue_fifo {x : QueueState Task × List (QueueEvent Task)}
    (reached : ((queueLts uxPriority).watch (queueLog uxPriority)).ReachWhile OverwritesData x)
    (back : ∀ event ∈ x.2, event.toBack) :
    ∃ items, x.2.filterMap QueueEvent.sentItem = x.2.filterMap QueueEvent.receivedItem ++ items ∧
      x.1.queue.storage.Holds x.1.memory items := by
  obtain ⟨items, replayed, holds⟩ := (queueContents_of_reach reached).items
  exact ⟨items, QueueEvent.foldlM_toBack back replayed, holds⟩

/-- The ring is wrapped, and a receiver that waits is woken by the third item. -/
theorem queue_fifo_wrapped :
    ∃ x, ((queueLts twoPriorities).watch (queueLog twoPriorities)).ReachWhile OverwritesData x ∧
      x.2.filterMap QueueEvent.receivedItem = [[7], [8], [9]] ∧
      ∃ items, x.2.filterMap QueueEvent.sentItem =
          x.2.filterMap QueueEvent.receivedItem ++ items ∧
        x.1.queue.storage.Holds x.1.memory items := by
  obtain ⟨x, reached, seen⟩ := Lts.exists_reachWhile_of_exec
    (L := (queueLts twoPriorities).watch (queueLog twoPriorities)) OverwritesData
    (s := (twoTasks, [])) ⟨twoTasks_init, rfl⟩
    (sends 7 ++ sends 8 ++ receives ++ receives ++ receiverWaits ++ sends 9 ++ [.step true] ++
      sends 4)
    (P := fun x => decide (x.2.filterMap QueueEvent.receivedItem = [[7], [8], [9]] ∧
      ∀ event ∈ x.2, event.toBack)) (by decide)
  obtain ⟨received, back⟩ := of_decide_eq_true seen
  exact ⟨x, reached, received, queue_fifo reached back⟩

/-- In every such run the queue is a `Fifo` of its length: the calls that took effect are sends and
receives there, in the order of the history, and it holds what is left. -/
theorem queue_refines_fifo {x : QueueState Task × List (QueueEvent Task)}
    (reached : ((queueLts uxPriority).watch (queueLog uxPriority)).ReachWhile OverwritesData x)
    (back : ∀ event ∈ x.2, event.toBack) :
    ∃ f : Fifo (List UInt8) x.1.queue.uxLength,
      x.2.foldlM QueueEvent.onFifo Fifo.empty = some f ∧
      x.1.queue.storage.Holds x.1.memory f.items := by
  obtain ⟨items, replayed, holds⟩ := (queueContents_of_reach reached).items
  obtain ⟨f, moves, same⟩ := QueueEvent.foldlM_onFifo (f := Fifo.empty) back replayed
  rw [← same] at holds
  exact ⟨f, moves, holds⟩

theorem queue_refines_fifo_wrapped :
    ∃ x, ((queueLts twoPriorities).watch (queueLog twoPriorities)).ReachWhile OverwritesData x ∧
      x.2.filterMap QueueEvent.sentItem = [[7], [8], [9]] ∧
      x.2.filterMap QueueEvent.receivedItem = [[7]] ∧
      ∃ f : Fifo (List UInt8) x.1.queue.uxLength,
        x.2.foldlM QueueEvent.onFifo Fifo.empty = some f ∧
        x.1.queue.storage.Holds x.1.memory f.items := by
  obtain ⟨x, reached, seen⟩ := Lts.exists_reachWhile_of_exec
    (L := (queueLts twoPriorities).watch (queueLog twoPriorities)) OverwritesData
    (s := (twoTasks, [])) ⟨twoTasks_init, rfl⟩ ringWraps
    (P := fun x => decide (x.2.filterMap QueueEvent.sentItem = [[7], [8], [9]] ∧
      x.2.filterMap QueueEvent.receivedItem = [[7]] ∧ ∀ event ∈ x.2, event.toBack)) (by decide)
  obtain ⟨sent, received, back⟩ := of_decide_eq_true seen
  exact ⟨x, reached, sent, received, queue_refines_fifo reached back⟩

/-- With items that have bytes, every run overwrites only such. -/
theorem overwritesData_of_reach (reached : (queueLts uxPriority).Reach s)
    (data : s.queue.uxItemSize ≠ 0) :
    ∃ log, ((queueLts uxPriority).watch (queueLog uxPriority)).ReachWhile OverwritesData
      (s, log) := by
  have allowed : (queueLts uxPriority).ReachWhile
      (fun s a => a.overwrites = true → s.queue.uxItemSize ≠ 0) s := by
    induction reached with
    | init start => exact .init start
    | step _ _ moved ih =>
        obtain ⟨event, taken⟩ := queueLts_step_iff.mp moved
        have before := data ∘ (congrArg (·.2.2.2) (QueueState.next_sizes taken)).trans
        exact .step (ih before) (fun _ => before) moved
  exact allowed.watched (queueLog uxPriority)

/-- In every run the steps of the queue leave the memory beside its storage alone. -/
theorem queue_bytes_apart (reached : (queueLts uxPriority).Reach s)
    (own : ∀ address value, a ≠ .store address value)
    (moved : (queueLts uxPriority).step s a = some s') {address : Nat}
    (apart : address < s.queue.pcHead ∨ s.queue.pcTail ≤ address) :
    s'.memory address = s.memory address := by
  obtain ⟨event, taken⟩ := queueLts_step_iff.mp moved
  by_cases empty : s.queue.uxItemSize = 0
  · rw [QueueState.next_memory empty own taken]
  · obtain ⟨log, watched⟩ := overwritesData_of_reach reached empty
    have inv := queueContents_of_reach watched
    obtain ⟨items, -, holds⟩ := inv.items
    have effect := QueueState.next_effect holds inv.fits (fun _ _ => empty) own taken
    exact effect.outside address apart

/-- An interrupt sends to the front once the ring is wrapped: the last byte of the storage changes,
the next one does not. -/
theorem queue_bytes_apart_of_sendFromISR :
    ∃ s s', (queueLts twoPriorities).Reach s ∧
      (queueLts twoPriorities).step s (.sendFromISR [5] .queueSendToFront) = some s' ∧
      s'.memory 0x20000001 ≠ s.memory 0x20000001 ∧ s'.memory 0x20000002 = s.memory 0x20000002 := by
  obtain ⟨s, reached, seen⟩ := Lts.exists_reach_of_exec (L := queueLts twoPriorities)
    twoTasks_init (ringWraps ++ receives)
    (P := fun s => ((queueLts twoPriorities).step s (.sendFromISR [5] .queueSendToFront)).any
      fun s' => decide (s.queue.pcTail = 0x20000002 ∧
        s'.memory 0x20000001 ≠ s.memory 0x20000001)) (by decide)
  obtain ⟨s', moved, changed⟩ := (Option.any_eq_true _ _).mp seen
  obtain ⟨tail, written⟩ := of_decide_eq_true changed
  refine ⟨s, s', reached, moved, written, queue_bytes_apart reached ?_ moved (.inr tail.le)⟩
  exact fun address value same => by cases same

/-! ## Waiting -/

namespace QueueState

variable [Fintype Task]

/-- A new queue is in order. -/
theorem orderly_of_init (start : (queueLts uxPriority).Init s) :
    s.view.Orderly (xEventListItemValue uxPriority) := by
  rcases start with ⟨created, outside, nobody, -⟩
  have nobody_waits (side : QueueSide) : s.queue.waiting side = [] := by
    rw [created.reset]
    cases side with
    | sending => rfl
    | receiving => rfl
  have unlocked (side : QueueSide) : s.queue.lock side = queueUnlocked := by
    rw [created.reset]
    cases side with
    | sending => rfl
    | receiving => rfl
  have pc (t : Task) : s.view.pc t = .outside := outside t
  have waiting (side : QueueSide) : s.view.waiting side = [] := nobody_waits side
  constructor
  · intro t
    rw [pc]
    exact iff_of_false (fun owner => absurd (nobody.symm.trans owner) (by simp)) (by decide)
  · constructor
    · intro t side locked
      rw [pc] at locked
      cases locked
    · exact fun side _ => unlocked side
  · constructor
    · intro side t member
      rw [waiting] at member
      cases member
    · intro side
      rw [waiting]
      exact List.nodup_nil
    · intro side
      rw [waiting]
      exact List.Pairwise.nil
  · constructor
    · intro t placing
      rw [pc] at placing
      cases placing
    · exact fun side somebody => absurd (waiting side) somebody

theorem orderly_of_reach (reached : (queueLts uxPriority).Reach s) :
    s.Entered ∧ 0 < s.queue.uxLength ∧ s.view.Orderly (xEventListItemValue uxPriority) := by
  apply Lts.ReachWhile.invariant (P := fun s : QueueState Task => s.Entered ∧ 0 < s.queue.uxLength ∧
    s.view.Orderly (xEventListItemValue uxPriority)) ?_ ?_ reached
  · intro s start
    exact ⟨fun t inside => absurd (start.2.1 t) inside, start.1.uxLengthPos, orderly_of_init start⟩
  · intro s a s' before inv _ moved
    obtain ⟨event, taken⟩ := queueLts_step_iff.mp moved
    rcases inv with ⟨entered, some_place, orderly⟩
    have sizes := next_sizes taken
    have uxLength : s'.queue.uxLength = s.queue.uxLength := congrArg (·.2.2.1) sizes
    refine ⟨fun t inside => callable_of_sizes sizes ?_, ?_, orderly.move (next_move entered taken)⟩
    · exact next_calls entered (fun _ _ _ _ callable => callable) taken t inside
    · rw [uxLength]
      exact some_place

end QueueState

variable [Fintype Task]

/-- In every run, while a task waits for items, there are at most as many as tasks that are going to
look for one and interrupts that the locked queue has counted; and the same with free places. -/
theorem no_lost_wakeup (reached : (queueLts uxPriority).Reach s) :
    (s.queue.xTasksWaitingToReceive ≠ [] → s.queue.uxMessagesWaiting ≤
      (s.view.looking .receiving).card + s.queue.xTxLock.toNat) ∧
    (s.queue.xTasksWaitingToSend ≠ [] → s.queue.uxLength - s.queue.uxMessagesWaiting ≤
      (s.view.looking .sending).card + s.queue.xRxLock.toNat) := by
  have noticed := (QueueState.orderly_of_reach reached).2.2.noticed
  exact ⟨noticed.served .receiving, noticed.served .sending⟩

theorem no_lost_wakeup_receiver : ∃ s, (queueLts twoPriorities).Reach s ∧
    s.queue.xTasksWaitingToReceive = [true] ∧
    s.queue.uxMessagesWaiting ≤ (s.view.looking .receiving).card + s.queue.xTxLock.toNat := by
  obtain ⟨s, reached, waits⟩ := Lts.exists_reach_of_exec (L := queueLts twoPriorities)
    twoTasks_init receiverWaits (P := fun s => s.queue.xTasksWaitingToReceive == [true])
    (by decide)
  have list := beq_iff_eq.mp waits
  refine ⟨s, reached, list, (no_lost_wakeup reached).1 ?_⟩
  rw [list]
  exact List.cons_ne_nil true []

/-- Nobody is on the way to look, if all who look are in an event list. -/
theorem nobody_looking (orderly : s.view.Orderly (xEventListItemValue uxPriority))
    (running : s.uxSchedulerSuspended = none)
    (rest : ∀ t, (s.frame t).pc = .look → s.blocked t) (side : QueueSide) :
    s.view.looking side = ∅ := by
  apply Finset.eq_empty_of_forall_notMem
  intro t member
  obtain ⟨sided, looks, awake⟩ := mem_looking.mp member
  have looking : (s.frame t).pc = .look :=
    QueuePc.eq_look looks (orderly.owned.of_owner_none running t)
  rcases rest t looking with sends | receives
  · have same := (orderly.lined.waits .sending t sends).1
    rw [← sided, same] at awake
    exact awake sends
  · have same := (orderly.lined.waits .receiving t receives).1
    rw [← sided, same] at awake
    exact awake receives

/-- In every run, when the scheduler runs and every task that is looking has gone to wait, tasks
wait for items only at an empty queue and for places only at a full one, so not for both. -/
theorem nobody_overlooked (reached : (queueLts uxPriority).Reach s)
    (running : s.uxSchedulerSuspended = none)
    (rest : ∀ t, (s.frame t).pc = .look → s.blocked t) :
    (s.queue.xTasksWaitingToReceive ≠ [] → s.queue.uxMessagesWaiting = 0) ∧
    (s.queue.xTasksWaitingToSend ≠ [] → s.queue.uxLength ≤ s.queue.uxMessagesWaiting) ∧
    (s.queue.xTasksWaitingToReceive = [] ∨ s.queue.xTasksWaitingToSend = []) := by
  obtain ⟨-, some_place, orderly⟩ := QueueState.orderly_of_reach reached
  have unlocked (side : QueueSide) : s.queue.lock side = queueUnlocked := by
    apply orderly.locks.unlocked side
    intro t
    cases locked : (s.view.pc t).locks side with
    | false => rfl
    | true =>
        have suspends := QueuePc.suspends_of_locks locked
        rw [orderly.owned.of_owner_none running t] at suspends
        cases suspends
  have none_left (side : QueueSide) (waits : s.queue.waiting side ≠ []) :
      s.queue.available side = 0 := by
    have nobody := nobody_looking orderly running rest side
    refine (orderly.noticed.served side).none_left nobody ?_ waits
    change (s.queue.lock side).toNat = 0
    rw [unlocked]
    rfl
  have empty : s.queue.xTasksWaitingToReceive ≠ [] → s.queue.uxMessagesWaiting = 0 :=
    none_left .receiving
  have full : s.queue.xTasksWaitingToSend ≠ [] → s.queue.uxLength ≤ s.queue.uxMessagesWaiting :=
    fun waits => Nat.sub_eq_zero_iff_le.mp (none_left .sending waits)
  refine ⟨empty, full, ?_⟩
  by_contra both
  rw [not_or] at both
  have items := empty both.1
  have places := full both.2
  omega

theorem nobody_overlooked_receiver : ∃ s, (queueLts twoPriorities).Reach s ∧
    s.queue.xTasksWaitingToReceive = [true] ∧ s.queue.uxMessagesWaiting = 0 := by
  obtain ⟨s, reached, seen⟩ := Lts.exists_reach_of_exec (L := queueLts twoPriorities)
    twoTasks_init receiverWaits (P := fun s => decide (s.uxSchedulerSuspended = none ∧
      (∀ t, (s.frame t).pc = .look → s.blocked t) ∧ s.queue.xTasksWaitingToReceive = [true]))
    (by decide)
  obtain ⟨running, rest, list⟩ := of_decide_eq_true seen
  refine ⟨s, reached, list, (nobody_overlooked reached running rest).1 ?_⟩
  rw [list]
  exact List.cons_ne_nil true []

/-- In every run the event lists are in the order of the priorities, a task is in one list at most
and once, and the call of a task in a list is of that kind and is going to look again. -/
theorem event_lists_ordered (reached : (queueLts uxPriority).Reach s) (side : QueueSide) :
    (s.queue.waiting side).Nodup ∧
    (s.queue.waiting side).Pairwise (fun t u => uxPriority u ≤ uxPriority t) ∧
    ∀ t ∈ s.queue.waiting side, (s.frame t).call.side = side ∧ (s.frame t).pc.looks = true := by
  have lined := (QueueState.orderly_of_reach reached).2.2.lined
  refine ⟨lined.nodup side, ?_, lined.waits side⟩
  refine (lined.sorted side).imp fun {t u} before => ?_
  have above := (uxPriority t).isLt
  have below := (uxPriority u).isLt
  unfold xEventListItemValue at before
  rw [Fin.le_def]
  omega

theorem event_lists_ordered_receiver : ∃ s, (queueLts twoPriorities).Reach s ∧
    s.queue.waiting .receiving = [true] ∧ (s.frame true).pc.looks = true := by
  obtain ⟨s, reached, waits⟩ := Lts.exists_reach_of_exec (L := queueLts twoPriorities)
    twoTasks_init receiverWaits (P := fun s => s.queue.waiting .receiving == [true]) (by decide)
  have list := beq_iff_eq.mp waits
  refine ⟨s, reached, list, ((event_lists_ordered reached .receiving).2.2 true ?_).2⟩
  rw [list]
  exact List.mem_cons_self

/-- In every run one task at most is between `vTaskSuspendAll` and `xTaskResumeAll`, and a side of
the queue that nobody has locked is unlocked. -/
theorem queue_locked_by_one (reached : (queueLts uxPriority).Reach s) :
    (∀ t, s.uxSchedulerSuspended = some t ↔ (s.frame t).pc.suspends = true) ∧
    (∀ t u, (s.frame t).pc.suspends = true → (s.frame u).pc.suspends = true → t = u) ∧
    ∀ side, s.queue.lock side = queueUnlocked ↔ ∀ t, (s.frame t).pc.locks side = false := by
  obtain ⟨-, -, orderly⟩ := QueueState.orderly_of_reach reached
  refine ⟨orderly.owned, fun t u first second => ?_, fun side => ⟨fun unlocked t => ?_, ?_⟩⟩
  · have owner := (orderly.owned t).mpr first
    exact Option.some.inj (owner.symm.trans ((orderly.owned u).mpr second))
  · cases locked : (s.frame t).pc.locks side with
    | false => rfl
    | true =>
        have counted : queueLockedUnmodified ≤ s.queue.lock side :=
          orderly.locks.locked t side locked
        rw [unlocked] at counted
        exact absurd counted (by decide)
  · exact orderly.locks.unlocked side

theorem queue_locked_by_one_receiver : ∃ s, (queueLts twoPriorities).Reach s ∧
    (s.frame true).pc = .checkQueue ∧ (s.frame false).pc.suspends = false := by
  obtain ⟨s, reached, seen⟩ := Lts.exists_reach_of_exec (L := queueLts twoPriorities)
    twoTasks_init (receiverWaits.take 5) (P := fun s => (s.frame true).pc == .checkQueue)
    (by decide)
  have inside := beq_iff_eq.mp seen
  refine ⟨s, reached, inside, Bool.eq_false_of_not_eq_true fun suspends => ?_⟩
  have same := (queue_locked_by_one reached).2.1 true false (by rw [inside]; rfl) suspends
  cases same

/-- The steps to `xTaskResumeAll`. -/
def QueuePc.ahead : QueuePc → Nat
  | .prvLockQueue => 6
  | .checkForTimeOut => 5
  | .checkQueue => 4
  | .placeOnEventList => 3
  | .unlockTx _ => 2
  | .unlockRx _ => 1
  | _ => 0

namespace QueueState

omit [Fintype Task]

variable {t : Task}

/-- The task is still in the section, and nearer to its end. -/
def Nearer (s s' : QueueState Task) (t : Task) : Prop :=
  s'.uxSchedulerSuspended = some t ∧ (s'.frame t).pc.suspends = true ∧
    (s'.frame t).pc.ahead < (s.frame t).pc.ahead

theorem nearer_update {r : QueueState Task} {f : QueueFrame} (pc : QueuePc)
    (owner : r.uxSchedulerSuspended = some t) (frame : r.frame = Function.update s.frame t f)
    (goes : f.pc = pc) (suspends : pc.suspends = true)
    (nearer : pc.ahead < (s.frame t).pc.ahead) : s.Nearer r t := by
  have own : (r.frame t).pc = pc := by rw [frame, Function.update_self, goes]
  unfold Nearer
  rw [own]
  exact ⟨owner, suspends, nearer⟩

/-- The task that has suspended the scheduler can go on, and resumes it or comes nearer to that. -/
theorem section_step (owner : s.uxSchedulerSuspended = some t)
    (suspends : (s.frame t).pc.suspends = true) :
    ∃ s', (queueLts uxPriority).step s (.step t) = some s' ∧
      (s'.uxSchedulerSuspended = none ∨ s.Nearer s' t) := by
  have runs : s.canRun t := by
    rw [canRun, owner, if_neg (Option.some_ne_none t)]
  have taken : s.next uxPriority (.step t) = s.taskStep uxPriority t := if_pos runs
  simp only [queueLts, taken, taskStep]
  cases before : (s.frame t).pc with
  | outside | look | vTaskSuspendAll =>
      rw [before] at suspends
      cases suspends
  | prvLockQueue =>
      exact ⟨_, rfl, .inr (nearer_update .checkForTimeOut owner rfl rfl rfl
        (by rw [before]; decide))⟩
  | checkForTimeOut =>
      refine ⟨_, rfl, .inr ?_⟩
      unfold checkTimeOut
      cases (s.timeOutResult t).1 with
      | true =>
          exact nearer_update (.unlockTx false) owner rfl rfl rfl (by rw [before]; decide)
      | false =>
          exact nearer_update .checkQueue owner rfl rfl rfl (by rw [before]; decide)
  | checkQueue =>
      refine ⟨_, rfl, .inr ?_⟩
      cases s.mustWait (s.frame t).call with
      | true =>
          exact nearer_update .placeOnEventList owner rfl rfl rfl (by rw [before]; decide)
      | false =>
          exact nearer_update (.unlockTx true) owner rfl rfl rfl (by rw [before]; decide)
  | placeOnEventList =>
      exact ⟨_, rfl, .inr (nearer_update (.unlockTx true) owner rfl rfl rfl
        (by rw [before]; decide))⟩
  | unlockTx again =>
      exact ⟨_, rfl, .inr (nearer_update (.unlockRx again) owner rfl rfl rfl
        (by rw [before]; exact Nat.one_lt_two))⟩
  | unlockRx again =>
      exact ⟨_, rfl, .inr (nearer_update (.xTaskResumeAll again) owner rfl rfl rfl
        (by rw [before]; exact Nat.one_pos))⟩
  | xTaskResumeAll again =>
      refine ⟨_, rfl, .inl ?_⟩
      unfold resume
      cases again with
      | true => rfl
      | false => rfl

theorem leads_resumed (n : Nat) (owner : s.uxSchedulerSuspended = some t)
    (suspends : (s.frame t).pc.suspends = true) (bound : (s.frame t).pc.ahead ≤ n) :
    ∃ s', (queueLts uxPriority).Leads (.step t) s s' ∧ s'.uxSchedulerSuspended = none := by
  induction n generalizing s with
  | zero =>
      obtain ⟨s', taken, resumed | nearer⟩ := section_step owner suspends
      · exact ⟨s', .step taken (.refl s'), resumed⟩
      · exact absurd nearer.2.2 (by omega)
  | succ n ih =>
      obtain ⟨mid, taken, resumed | nearer⟩ := section_step owner suspends
      · exact ⟨mid, .step taken (.refl mid), resumed⟩
      · obtain ⟨owner', suspends', less⟩ := nearer
        obtain ⟨s', leads, resumed⟩ := ih owner' suspends' (by omega)
        exact ⟨s', .step taken leads, resumed⟩

end QueueState

/-- In every run the task that has suspended the scheduler can always go on by itself, and does
resume it. -/
theorem scheduler_resumed (reached : (queueLts uxPriority).Reach s) {t : Task}
    (owner : s.uxSchedulerSuspended = some t) :
    ∃ s', (queueLts uxPriority).Leads (.step t) s s' ∧ s'.uxSchedulerSuspended = none := by
  obtain ⟨-, -, orderly⟩ := QueueState.orderly_of_reach reached
  exact QueueState.leads_resumed _ owner ((orderly.owned t).mp owner) (Nat.le_refl _)

theorem scheduler_resumed_receiver : ∃ s, (queueLts twoPriorities).Reach s ∧
    s.uxSchedulerSuspended = some true ∧
    ∃ s', (queueLts twoPriorities).Leads (.step true) s s' ∧ s'.uxSchedulerSuspended = none := by
  obtain ⟨s, reached, seen⟩ := Lts.exists_reach_of_exec (L := queueLts twoPriorities)
    twoTasks_init (receiverWaits.take 4) (P := fun s => s.uxSchedulerSuspended == some true)
    (by decide)
  have owner := beq_iff_eq.mp seen
  exact ⟨s, reached, owner, scheduler_resumed reached owner⟩

end FepMaster

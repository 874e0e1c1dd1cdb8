import FepMaster.Moves

/-!
# What becomes of the replies the queue accepted

`replyLog` records the replies `xQueueSendFromISR` accepted and those the handler is through with,
each with what became of it: applied to the table, or dropped because `xSemaphoreTake` timed out
after the packet had left the queue.

`Accounted` is the conservation law that holds of every run: nothing is lost but by such a
timeout, nothing is handled twice, and the order of arrival is kept.
-/

namespace FepMaster

open Transition

/-! ## The log -/

/-- The accepted replies, and the finished ones with whether they were applied; oldest first. -/
structure ReplyLog where
  accepted : List FepPacket
  finished : List (FepPacket × Bool)

/-- The replies applied to `fep_dev_list`. -/
def ReplyLog.applied (m : ReplyLog) : List FepPacket := (m.finished.filter Prod.snd).map Prod.fst

/-- The replies dropped by a timeout. -/
def ReplyLog.dropped (m : ReplyLog) : List FepPacket :=
  (m.finished.filter fun o => !o.2).map Prod.fst

/-- The reply an interrupt posts and the queue accepts. -/
def acceptedReply (s : Shared) (e : IrqEvent) : Option FepPacket :=
  (uart4IrqHandler s.uart e).sent.filter fun p =>
    p.IsReply ∧ (s.fepProcessQueueBuffer.send p).isSome

/-- What a step of the handler finishes: a packet whose wait for the lock ran out, or one whose
section ends. -/
def HandlerPc.finishes : HandlerPc → HandlerPc → Option (FepPacket × Bool)
  | .take p, .receive => some (p, false)
  | .give p, .receive => some (p, true)
  | _, _ => none

/-- The log of a run. -/
def replyLog : Monitor Master Act ReplyLog where
  init _ := ⟨[], []⟩
  next m x a x' :=
    match a with
    | .uart4 e => { m with accepted := m.accepted ++ (acceptedReply x.shared e).toList }
    | .handler _ =>
        { m with finished := m.finished ++ (x.handler.finishes x'.handler).toList }
    | _ => m

/-- The reply the handler holds. -/
def HandlerPc.held : HandlerPc → Option FepPacket
  | .receive => none
  | .take p => some p
  | pc => pc.inside

/-- The replies still in the queue. -/
def Shared.queuedReplies (s : Shared) : List FepPacket :=
  s.fepProcessQueueBuffer.items.filter FepPacket.IsReply

/-! ## The conservation law -/

/-- The accepted replies are the finished ones, the one held, and those queued. -/
def Accounted (x : Master × ReplyLog) : Prop :=
  x.2.accepted =
    x.2.finished.map Prod.fst ++ x.1.handler.held.toList ++ x.1.shared.queuedReplies

/-- An interrupt accepts a reply exactly when it puts one into the queue. -/
theorem queuedReplies_uart4 (s : Shared) (e : IrqEvent) :
    (s.uart4 e).queuedReplies = s.queuedReplies ++ (acceptedReply s e).toList := by
  simp only [Shared.queuedReplies, Shared.uart4, acceptedReply]
  cases (uart4IrqHandler s.uart e).sent with
  | none => simp
  | some p =>
      cases sent : s.fepProcessQueueBuffer.send p with
      | none => simp [sent]
      | some q =>
          by_cases reply : p.IsReply
          · simp [sent, reply, Fifo.send_eq_some sent, Option.filter_some]
          · simp [sent, reply, Fifo.send_eq_some sent]

/-- A step of the handler moves a reply from the queue to its hand, or from its hand to the
finished ones. -/
theorem HandlerMove.accounts {s s' : Shared} {pc pc' : HandlerPc}
    (move : HandlerMove s pc s' pc') :
    pc.held.toList ++ s.queuedReplies =
      (pc.finishes pc').toList.map Prod.fst ++ (pc'.held.toList ++ s'.queuedReplies) := by
  cases move with
  | @dequeue p rest front =>
      simp only [Shared.queuedReplies, front]
      rcases HandlerPc.dispatch_cases p with ⟨reply, next⟩ | ⟨other, next⟩
      · simp [next, HandlerPc.held, HandlerPc.finishes, reply]
      · simp [next, HandlerPc.held, HandlerPc.finishes, other]
  | _ => rfl

theorem accounted_of_reach {x : Master × ReplyLog}
    (reached : (masterLts.watch replyLog).Reach x) : Accounted x := by
  apply Lts.ReachWhile.invariant_watched (P := fun x m => Accounted (x, m)) ?_ ?_ reached
  · intro x start
    subst start
    rfl
  · intro x m a x' _ balance _ moved
    simp only [Accounted] at balance ⊢
    cases masterLts_move moved with
    | uart4 e =>
        simp only [replyLog, balance, queuedReplies_uart4, List.append_assoc]
    | handler move =>
        have step := move.accounts
        simp only [replyLog, List.map_append, List.append_assoc, balance, ← step]
    | poller move =>
        simp only [replyLog, Shared.queuedReplies, move.queue_eq] at balance ⊢
        exact balance
    | udp move =>
        simp only [replyLog, Shared.queuedReplies, move.queue_eq] at balance ⊢
        exact balance
    | tim3 => exact balance

/-! ## When nothing is lost -/

/-- The accepted replies are the applied ones, the one held, and those queued. -/
def Conserved (x : Master × ReplyLog) : Prop :=
  x.2.accepted = x.2.applied ++ x.1.handler.held.toList ++ x.1.shared.queuedReplies

instance (x : Master × ReplyLog) : Decidable (Conserved x) :=
  inferInstanceAs (Decidable (_ = _))

/-- The step is not the handler giving up on the lock. -/
def HandlerGranted (x : Master × ReplyLog) : Act → Prop
  | .handler _ => ∀ p, x.1.handler = .take p → x.1.shared.fepDevListSem = none
  | _ => True

theorem ReplyLog.dropped_eq_nil_iff (m : ReplyLog) :
    m.dropped = [] ↔ ∀ o ∈ m.finished, o.2 = true := by
  simp [dropped, List.filter_eq_nil_iff]

/-- The finished replies are all applied exactly if none was dropped. -/
theorem ReplyLog.applied_eq_iff (m : ReplyLog) :
    m.finished.map Prod.fst = m.applied ↔ m.dropped = [] := by
  rw [dropped_eq_nil_iff, ← List.filter_eq_self]
  constructor
  · intro same
    have length := congrArg List.length same
    rw [List.length_map, applied, List.length_map] at length
    exact List.filter_sublist.eq_of_length length.symm
  · intro all
    rw [applied, all]

/-- A handler that gets the lock finishes by applying. -/
theorem HandlerMove.finishes_applied {s s' : Shared} {pc pc' : HandlerPc}
    (move : HandlerMove s pc s' pc') (granted : ∀ p, pc = .take p → s.fepDevListSem = none) :
    ∀ o ∈ pc.finishes pc', o.2 = true := by
  cases move with
  | refused taken => exact (taken (granted _ rfl)).elim
  | _ => simp [HandlerPc.finishes]

theorem dropped_of_granted {x : Master × ReplyLog}
    (reached : (masterLts.watch replyLog).ReachWhile HandlerGranted x) : x.2.dropped = [] := by
  simp only [ReplyLog.dropped_eq_nil_iff]
  apply Lts.ReachWhile.invariant_watched (P := fun _ m => ∀ o ∈ m.finished, o.2 = true) ?_ ?_
    reached
  · intro x _ o member
    cases member
  · intro x m a x' _ none granted moved
    cases masterLts_move moved with
    | handler move =>
        intro o member
        rcases List.mem_append.mp member with earlier | now
        · exact none o earlier
        · exact move.finishes_applied granted o (Option.mem_toList.mp now)
    | _ => exact none

/-- **No accepted reply is lost or applied twice** as long as no wait of the handler for the lock
runs out: then the accepted replies are those applied, the one held and those queued, in order of
arrival.  In any run, this holds exactly of the states before the first such timeout. -/
theorem replies_conserved_iff (x : Master × ReplyLog) :
    ((masterLts.watch replyLog).ReachWhile HandlerGranted x → Conserved x) ∧
      ((masterLts.watch replyLog).Reach x → (Conserved x ↔ x.2.dropped = [])) := by
  have exactly : (masterLts.watch replyLog).Reach x → (Conserved x ↔ x.2.dropped = []) := by
    intro reached
    have balance := accounted_of_reach reached
    rw [Accounted] at balance
    rw [Conserved, balance, ← ReplyLog.applied_eq_iff, List.append_cancel_right_eq,
      List.append_cancel_right_eq]
  exact ⟨fun granted => (exactly granted.reach).mpr (dropped_of_granted granted), exactly⟩

/-- The events of a reply on the bus between two breaks. -/
def replyOnBus (bytes : List UInt8) : List Act :=
  (breakEvent :: frameEvents bytes).map Act.uart4

/-- A reply is taken from the queue while the poller holds the lock for the whole timeout. -/
theorem reply_dropped :
    ¬ ∀ x, (masterLts.watch replyLog).Reach x → Conserved x := by
  intro claim
  obtain ⟨x, reached, lost⟩ := Lts.exists_reach_of_exec
    (L := masterLts.watch replyLog) (s := (Master.start, ⟨[], []⟩)) ⟨rfl, rfl⟩
    (replyOnBus [0x14, 0x05, 0x09, 0x12, 0x34] ++
      [.tim3, .poller false, .poller false, .poller false,
        .handler false, .handler false, .handler true])
    (P := fun x => !decide (Conserved x)) (by decide +kernel)
  exact absurd (claim x reached) (by simpa using lost)

end FepMaster

/-!
# Flags between a sender and a receiver

A sender raises a flag; a receiver that finds it raised lowers it and serves what it stands for.
A flag cannot count, so several raises may be served together.  What matters is the order of
lowering and serving: `flag_or_owing_or_answered` holds of every history, so a raise can only be
forgotten by a receiver that serves first and lowers later; `kept_cons_iff` says which lowerings
forget one.  `Orderly.served_le` counts: a receiver that lowers a raised flag before each serve
never serves more often than the flag was raised.

Histories are lists with the newest event first.
-/

namespace Signal

/-- The flag is raised, it is lowered, a serve begins. -/
inductive Event
  | raise
  | lower
  | serve
  deriving DecidableEq

/-- Whether the flag is raised. -/
def flag : List Event → Bool
  | [] => false
  | .raise :: _ => true
  | .lower :: _ => false
  | .serve :: earlier => flag earlier

/-- Whether a serve has begun since the last raise; a flag never raised asks for none. -/
def answered : List Event → Bool
  | [] => true
  | .raise :: _ => false
  | .lower :: earlier => answered earlier
  | .serve :: _ => true

/-- Whether the flag has been lowered since the last serve began. -/
def owing : List Event → Bool
  | [] => false
  | .raise :: earlier => owing earlier
  | .lower :: _ => true
  | .serve :: _ => false

/-- A raise leaves the flag up, or the receiver still owes a serve, or has begun one since. -/
theorem flag_or_owing_or_answered (h : List Event) :
    flag h = true ∨ owing h = true ∨ answered h = true := by
  induction h with
  | nil => exact .inr (.inr rfl)
  | cons e earlier ih =>
      cases e with
      | raise => exact .inl rfl
      | lower => exact .inr (.inl rfl)
      | serve => exact .inr (.inr rfl)

/-! ## Raises forgotten by a late lowering -/

/-- The last raise is still to be seen, or a serve has begun since. -/
def Kept (h : List Event) : Prop := flag h = true ∨ answered h = true

theorem answered_of_no_raise {h : List Event} (never : .raise ∉ h) : answered h = true := by
  induction h with
  | nil => rfl
  | cons e earlier ih =>
      rw [List.mem_cons, not_or] at never
      cases e with
      | raise => exact (never.1 rfl).elim
      | lower => exact ih never.2
      | serve => rfl

/-- Only a lowering can forget a raise, and it does so if no serve has begun since the raise. -/
theorem kept_cons_iff (e : Event) (h : List Event) :
    Kept (e :: h) ↔ (e = .lower → answered h = true) := by
  cases e with
  | raise => simp [Kept, flag]
  | lower => simp [Kept, flag, answered]
  | serve => simp [Kept, answered]

/-! ## Receivers that lower first -/

/-- The receiver lowers a raised flag, then serves, then may lower again. -/
def Orderly : List Event → Prop
  | [] => True
  | .raise :: earlier => Orderly earlier
  | .lower :: earlier => flag earlier = true ∧ owing earlier = false ∧ Orderly earlier
  | .serve :: earlier => owing earlier = true ∧ Orderly earlier

/-- Every serve, one still owed and the flag still raised have a raise of their own. -/
theorem Orderly.served_le {h : List Event} (orderly : Orderly h) :
    h.count .serve + (owing h).toNat + (flag h).toNat ≤ h.count .raise := by
  induction h with
  | nil => exact Nat.le_refl 0
  | cons e earlier ih =>
      cases e with
      | raise =>
          have before := ih orderly
          simp only [owing, flag, List.count_cons_self, Bool.toNat_true,
            List.count_cons_of_ne (by decide : Event.raise ≠ Event.serve)]
          omega
      | lower =>
          rcases orderly with ⟨raised, paid, rest⟩
          have before := ih rest
          rw [raised, paid] at before
          simpa [owing, flag, List.count_cons] using before
      | serve =>
          rcases orderly with ⟨owed, rest⟩
          have before := ih rest
          rw [owed, Bool.toNat_true] at before
          simp only [owing, flag, List.count_cons_self, Bool.toNat_false,
            List.count_cons_of_ne (by decide : Event.serve ≠ Event.raise)]
          omega

end Signal

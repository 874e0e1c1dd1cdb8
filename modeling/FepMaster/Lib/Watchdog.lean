/-!
# Watchdogs with a wrapping counter

A watched party is online from each sign of life until a check finds more than `limit` misses since
the last one.  The counter of a real watchdog wraps at `size`; the party's history does not.
`online_iff_alive` says when the two agree: `limit + 1` still fits the counter, and no two misses
fall between consecutive checks, so the first check past the limit sees the counter before it can
wrap.  After that check the party stays offline whatever the counter does.

Histories are lists with the newest event first.
-/

namespace Watchdog

/-- A sign of life, a miss, a check. -/
inductive Event
  | hit
  | miss
  | check
  deriving DecidableEq

/-- What the watchdog keeps. -/
structure State where
  online : Bool
  count : Nat
  deriving DecidableEq

/-- One event on a watchdog with a counter of `size` values. -/
def step (size limit : Nat) (s : State) : Event → State
  | .hit => ⟨true, 0⟩
  | .miss => { s with count := (s.count + 1) % size }
  | .check => { s with online := s.online && decide (s.count ≤ limit) }

/-- The watchdog after a history. -/
def after (size limit : Nat) : List Event → State
  | [] => ⟨false, 0⟩
  | e :: earlier => step size limit (after size limit earlier) e

/-! ## The unbounded history -/

/-- The number of misses since the last sign of life, if there was one. -/
def missed : List Event → Option Nat
  | [] => none
  | .hit :: _ => some 0
  | .miss :: earlier => (missed earlier).map (· + 1)
  | .check :: earlier => missed earlier

/-- The number of misses since the last sign of life as the latest check after it found it, if
there was such a check. -/
def missedAtCheck : List Event → Option Nat
  | [] => none
  | .hit :: _ => none
  | .miss :: earlier => missedAtCheck earlier
  | .check :: earlier => missed earlier

/-- There was a sign of life, and the latest check after it, if any, found at most `limit`
misses. -/
def Alive (limit : Nat) (h : List Event) : Prop :=
  (missed h).isSome = true ∧ (missedAtCheck h).all (· ≤ limit) = true

instance (limit : Nat) (h : List Event) : Decidable (Alive limit h) :=
  inferInstanceAs (Decidable (_ ∧ _))

/-- The number of misses since the last check. -/
def sinceCheck : List Event → Nat
  | [] => 0
  | .hit :: earlier => sinceCheck earlier
  | .miss :: earlier => sinceCheck earlier + 1
  | .check :: _ => 0

/-- At no point of the history were there two misses since the last check. -/
def Paced : List Event → Prop
  | [] => True
  | e :: earlier => sinceCheck (e :: earlier) ≤ 1 ∧ Paced earlier

theorem Paced.sinceCheck_le {h : List Event} (paced : Paced h) : sinceCheck h ≤ 1 := by
  cases h with
  | nil => exact Nat.zero_le 1
  | cons e earlier => exact paced.1

/-! ## The counter follows the history -/

/-- The counter is the number of misses modulo its size. -/
theorem count_eq {size limit : Nat} {h : List Event} {n : Nat} (counted : missed h = some n) :
    (after size limit h).count = n % size := by
  induction h generalizing n with
  | nil => cases counted
  | cons e earlier ih =>
      cases e with
      | hit =>
          cases counted
          exact (Nat.zero_mod size).symm
      | miss =>
          rcases Option.map_eq_some_iff.mp counted with ⟨k, before, rfl⟩
          simp only [after, step, ih before, Nat.mod_add_mod]
      | check => exact ih counted

/-- Since a check the number of misses has grown by those after the check; without one, all of
them came after it. -/
theorem missed_bounds {h : List Event} {n : Nat} (counted : missed h = some n) :
    (missedAtCheck h).getD 0 ≤ n ∧ n ≤ (missedAtCheck h).getD 0 + sinceCheck h := by
  induction h generalizing n with
  | nil => cases counted
  | cons e earlier ih =>
      cases e with
      | hit =>
          cases counted
          exact ⟨Nat.le_refl 0, Nat.zero_le _⟩
      | miss =>
          rcases Option.map_eq_some_iff.mp counted with ⟨k, before, rfl⟩
          obtain ⟨low, high⟩ := ih before
          simp only [missedAtCheck, sinceCheck]
          omega
      | check =>
          simp only [missed] at counted
          simp [missedAtCheck, counted]

/-- **The wrapping watchdog tells the truth about a paced history.** -/
theorem online_iff_alive {size limit : Nat} (fits : limit + 1 < size) {h : List Event}
    (paced : Paced h) : (after size limit h).online = true ↔ Alive limit h := by
  induction h with
  | nil => simp [after, Alive, missed]
  | cons e earlier ih =>
      rcases paced with ⟨pace, earlierPaced⟩
      have online := ih earlierPaced
      cases e with
      | hit => simp [after, step, Alive, missed, missedAtCheck]
      | miss => simpa [after, step, Alive, missed, missedAtCheck] using online
      | check =>
          simp only [after, step, Bool.and_eq_true, decide_eq_true_eq, Alive, missed,
            missedAtCheck] at online ⊢
          cases counted : missed earlier with
          | none => simp [online, counted]
          | some n =>
              have count := @count_eq size limit earlier n counted
              obtain ⟨low, high⟩ := missed_bounds counted
              have tight := earlierPaced.sinceCheck_le
              simp only [online, counted, count, Option.isSome_some, Option.all_some,
                decide_eq_true_eq, true_and]
              cases checked : missedAtCheck earlier with
              | none =>
                  simp only [checked, Option.getD_none] at low high
                  rw [Nat.mod_eq_of_lt (by omega)]
                  simp
              | some m =>
                  simp only [checked, Option.getD_some] at low high
                  by_cases within : m ≤ limit
                  · -- the counter has not wrapped yet
                    rw [Nat.mod_eq_of_lt (by omega)]
                    simp [within]
                  · have late : ¬ n ≤ limit := by omega
                    simp [within, late]

end Watchdog

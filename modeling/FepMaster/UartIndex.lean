import FepMaster.Uart

/-!
# The receive index

`UART4_IRQHandler` advances `rx_index` after each stored byte and rewinds it when the advanced
value exceeds ten, so the value ten survives the guard and the next byte without a framing event
in between is stored one place past `data_buff`.

`BurstsFit` is the condition on the incoming events alone that excludes this: no more than ten
bytes are received from one framing event (its own byte included) to the next.  It is exact:
`irqStores_inBounds_iff`.
-/

namespace FepMaster

/-- Count one more event of a burst: a framing event starts a new burst, a received byte
lengthens it. -/
def burstStep (count : Nat) (e : IrqEvent) : Nat :=
  (if e.fe then 0 else count) + (if e.rxne then 1 else 0)

/-- The number of bytes received since the last framing event of `es`, counting that event's own
byte; since the start if `es` has none. -/
def burst (es : List IrqEvent) : Nat := es.foldl burstStep 0

/-- No burst of a sequence of events is longer than `data_buff`. -/
def BurstsFit (es : List IrqEvent) : Prop := ∀ pre, pre <+: es → burst pre ≤ 10

theorem burstStep_le (count : Nat) (e : IrqEvent) : burstStep count e ≤ count + 1 := by
  unfold burstStep
  split <;> split <;> omega

/-- While the burst fits, the index is its length, and what is stored goes to its last place. -/
theorem uart4IrqHandler_of_fit {u : Uart} {e : IrqEvent} {count : Nat}
    (index : u.rxIndex = count) (fit : burstStep count e ≤ 10) :
    (uart4IrqHandler u e).uart.rxIndex = burstStep count e ∧
      ∀ k, (uart4IrqHandler u e).stored = some k → k < 10 := by
  subst index
  rcases e with ⟨fe, rxne, data⟩
  cases fe <;> cases rxne <;>
    simp only [uart4IrqHandler, frameBranch, receiveBranch, burstStep, Bool.false_eq_true,
      ↓reduceIte, Nat.zero_add, Nat.add_zero] at fit ⊢
  · exact ⟨trivial, fun k h => by cases h⟩
  · refine ⟨by split <;> omega, fun k h => ?_⟩
    cases h
    exact fit
  · exact ⟨trivial, fun k h => by cases h⟩
  · refine ⟨by split <;> omega, fun k h => ?_⟩
    cases h
    decide

/-- The eleventh byte of a burst is stored at index ten. -/
theorem uart4IrqHandler_of_overlong {u : Uart} {e : IrqEvent} {count : Nat}
    (index : u.rxIndex = count) (before : count ≤ 10) (overlong : ¬ burstStep count e ≤ 10) :
    (uart4IrqHandler u e).stored = some 10 := by
  have atMost := burstStep_le count e
  have full : count = 10 := by omega
  subst full
  rcases e with ⟨fe, rxne, data⟩
  cases fe <;> cases rxne <;> simp [burstStep] at overlong
  simp [uart4IrqHandler, index]

private theorem prefixes_cons {count : Nat} {e : IrqEvent} {es : List IrqEvent} :
    (∀ pre, pre <+: e :: es → pre.foldl burstStep count ≤ 10) ↔
      count ≤ 10 ∧ ∀ pre, pre <+: es → pre.foldl burstStep (burstStep count e) ≤ 10 := by
  constructor
  · intro fit
    exact ⟨fit [] (List.nil_prefix), fun pre hpre => fit (e :: pre) (by simpa using hpre)⟩
  · intro both pre hpre
    rcases both with ⟨now, later⟩
    rcases List.prefix_cons_iff.mp hpre with rfl | ⟨rest, rfl, hrest⟩
    · exact now
    · exact later rest hrest

/-- From any state whose index is the length of the running burst, the stores of a sequence of
events stay inside the buffer exactly if no burst outgrows it. -/
theorem irqStores_inBounds_iff_of_index {u : Uart} {count : Nat} (index : u.rxIndex = count)
    (before : count ≤ 10) (es : List IrqEvent) :
    (∀ k ∈ irqStores u es, k < 10) ↔
      ∀ pre, pre <+: es → pre.foldl burstStep count ≤ 10 := by
  induction es generalizing u count with
  | nil =>
      refine ⟨fun _ pre hpre => ?_, fun _ k hk => by cases hk⟩
      rw [List.prefix_nil.mp hpre]
      exact before
  | cons e es ih =>
      have split : (∀ k ∈ irqStores u (e :: es), k < 10) ↔
          (∀ k, (uart4IrqHandler u e).stored = some k → k < 10) ∧
            ∀ k ∈ irqStores (uart4IrqHandler u e).uart es, k < 10 := by
        simp only [irqStores, irqRun, List.mem_filterMap, List.mem_cons]
        grind
      rw [split, prefixes_cons]
      by_cases fit : burstStep count e ≤ 10
      · obtain ⟨index', inside⟩ := uart4IrqHandler_of_fit index fit
        rw [ih index' fit]
        exact ⟨fun h => ⟨before, h.2⟩, fun h => ⟨inside, h.2⟩⟩
      · have stored := uart4IrqHandler_of_overlong index before fit
        constructor
        · intro both
          rcases both with ⟨inside, -⟩
          exact absurd (inside 10 stored) (by decide)
        · intro both
          rcases both with ⟨-, later⟩
          exact (fit (later [] (List.nil_prefix))).elim

/-- **The receive index stays inside `data_buff` exactly on the event sequences without an
overlong burst.** -/
theorem irqStores_inBounds_iff (queueBuffer : Bool) (es : List IrqEvent) :
    (∀ k ∈ irqStores (Uart.reset queueBuffer) es, 0 ≤ k ∧ k < 10) ↔ BurstsFit es := by
  simp only [Nat.zero_le, true_and]
  exact irqStores_inBounds_iff_of_index rfl (Nat.zero_le 10) es

/-- Eleven bytes without a framing event: the last one is stored at index ten. -/
theorem irqStores_overrun :
    ¬ ∀ (queueBuffer : Bool) (es : List IrqEvent),
      ∀ k ∈ irqStores (Uart.reset queueBuffer) es, 0 ≤ k ∧ k < 10 := by
  intro inside
  have := (inside true (List.replicate 11 (dataEvent 0)) 10 (by decide)).2
  omega

end FepMaster

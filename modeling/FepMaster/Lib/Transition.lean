/-!
# Labelled transition systems with history variables

A system is a set of initial states and a partial step function whose label resolves every choice
(which party moves, what its environment answers).  This module has what safety proofs over whole
runs need and nothing about any particular system:

* `Lts.ReachWhile ok`: the states reached by runs whose every step meets `ok` in the state it
  starts from; `Lts.Reach` is the unrestricted case;
* `ReachWhile.invariant`: the induction that turns what one step preserves into what every run
  preserves;
* `Monitor`: history variables, computed along a run and never read by the system;
  `ReachWhile.unwatched` forgets them, `ReachWhile.watched` adds them, and
  `ReachWhile.invariant_watched` is the induction with them;
* `Lts.exec`: a run given by the list of its labels, which a closed instance can evaluate;
* `Lts.EveryStep`: what all steps of such a run have in common;
* `Lts.Leads`: what one party does when nobody interrupts it.
-/

namespace Transition

universe u v w

/-- Initial states and a partial step function. -/
structure Lts (σ : Type u) (α : Type v) where
  Init : σ → Prop
  step : σ → α → Option σ

/-- A history variable: its first value, and its next value from the step just taken. -/
structure Monitor (σ : Type u) (α : Type v) (μ : Type w) where
  init : σ → μ
  next : μ → σ → α → σ → μ

namespace Lts

variable {σ : Type u} {α : Type v} {μ : Type w}

/-! ## Reachable states -/

/-- The states reached from an initial state by steps that meet `ok` where they start. -/
inductive ReachWhile (L : Lts σ α) (ok : σ → α → Prop) : σ → Prop
  | init {s : σ} : L.Init s → ReachWhile L ok s
  | step {s s' : σ} {a : α} :
      ReachWhile L ok s → ok s a → L.step s a = some s' → ReachWhile L ok s'

/-- The states reached by any run. -/
abbrev Reach (L : Lts σ α) : σ → Prop := L.ReachWhile fun _ _ => True

variable {L : Lts σ α} {ok : σ → α → Prop}

/-- Restricting the steps of a run only restricts the states it reaches. -/
theorem ReachWhile.reach {s : σ} (reached : L.ReachWhile ok s) : L.Reach s := by
  induction reached with
  | init start => exact .init start
  | step _ _ taken ih => exact .step ih trivial taken

/-- What holds initially and is preserved by every step from a reached state holds of every
reached state. -/
theorem ReachWhile.invariant {P : σ → Prop} (base : ∀ s, L.Init s → P s)
    (preserved : ∀ s a s', L.ReachWhile ok s → P s → ok s a → L.step s a = some s' → P s')
    {s : σ} (reached : L.ReachWhile ok s) : P s := by
  induction reached with
  | init start => exact base _ start
  | step before allowed taken ih => exact preserved _ _ _ before ih allowed taken

/-! ## History variables -/

/-- The system run under a monitor: the steps are those of the system. -/
def watch (L : Lts σ α) (m : Monitor σ α μ) : Lts (σ × μ) α where
  Init x := L.Init x.1 ∧ x.2 = m.init x.1
  step x a := (L.step x.1 a).map fun s' => (s', m.next x.2 x.1 a s')

/-- A watched step is a step of the system together with the monitor's update. -/
theorem watch_step_iff {m : Monitor σ α μ} {x x' : σ × μ} {a : α} :
    (L.watch m).step x a = some x' ↔
      L.step x.1 a = some x'.1 ∧ x'.2 = m.next x.2 x.1 a x'.1 := by
  rw [watch, Option.map_eq_some_iff]
  constructor
  · intro result
    rcases result with ⟨s', taken, rfl⟩
    exact ⟨taken, rfl⟩
  · intro result
    rcases result with ⟨taken, update⟩
    exact ⟨x'.1, taken, by rw [← update]⟩

/-- Forgetting the history of a watched run leaves a run of the system. -/
theorem ReachWhile.unwatched {m : Monitor σ α μ} {allowed : σ × μ → α → Prop} {x : σ × μ}
    (reached : (L.watch m).ReachWhile allowed x) : L.Reach x.1 := by
  induction reached with
  | init start => exact .init start.1
  | step _ _ taken ih => exact .step ih trivial (watch_step_iff.mp taken).1

/-- Every run of the system has a history. -/
theorem ReachWhile.watched (m : Monitor σ α μ) {s : σ} (reached : L.ReachWhile ok s) :
    ∃ h, (L.watch m).ReachWhile (fun x a => ok x.1 a) (s, h) := by
  induction reached with
  | @init s start => exact ⟨m.init s, .init ⟨start, rfl⟩⟩
  | @step s s' a _ allowed taken ih =>
      obtain ⟨h, before⟩ := ih
      exact ⟨m.next h s a s', .step before allowed (watch_step_iff.mpr ⟨taken, rfl⟩)⟩

/-- What holds initially of state and history, and is preserved by every step of the system with
the update of the history, holds of every reached state and its history. -/
theorem ReachWhile.invariant_watched {m : Monitor σ α μ} {allowed : σ × μ → α → Prop}
    {P : σ → μ → Prop} (base : ∀ s, L.Init s → P s (m.init s))
    (preserved : ∀ s h a s', (L.watch m).ReachWhile allowed (s, h) → P s h → allowed (s, h) a →
      L.step s a = some s' → P s' (m.next h s a s'))
    {x : σ × μ} (reached : (L.watch m).ReachWhile allowed x) : P x.1 x.2 := by
  apply ReachWhile.invariant (P := fun y => P y.1 y.2) ?_ ?_ reached
  · intro y init
    rcases init with ⟨start, origin⟩
    rw [origin]
    exact base y.1 start
  · intro y a y' before inv now taken
    rcases watch_step_iff.mp taken with ⟨moved, update⟩
    rw [update]
    exact preserved y.1 y.2 a y'.1 before inv now moved

/-! ## Runs given by their labels -/

/-- The state after a list of labels, if every one of them can be taken. -/
def exec (L : Lts σ α) : σ → List α → Option σ
  | s, [] => some s
  | s, a :: rest =>
      match L.step s a with
      | some s' => L.exec s' rest
      | none => none

theorem exec_append (s : σ) (first second : List α) :
    L.exec s (first ++ second) = (L.exec s first).bind fun s' => L.exec s' second := by
  induction first generalizing s with
  | nil => rfl
  | cons a rest ih =>
      rw [List.cons_append, exec, exec]
      cases L.step s a with
      | none => rfl
      | some s' => exact ih s'

/-- A run with a first label has a first step. -/
theorem exec_cons_eq_some {s s' : σ} {a : α} {rest : List α}
    (executed : L.exec s (a :: rest) = some s') :
    ∃ mid, L.step s a = some mid ∧ L.exec mid rest = some s' := by
  rw [exec] at executed
  cases taken : L.step s a with
  | none => simp [taken] at executed
  | some mid =>
      rw [taken] at executed
      exact ⟨mid, rfl, executed⟩

/-- What the steps with these labels preserve, the run preserves. -/
theorem exec_invariant {P : σ → Prop} {s s' : σ} (start : P s) {labels : List α}
    (preserved : ∀ a ∈ labels, ∀ s s', P s → L.step s a = some s' → P s')
    (executed : L.exec s labels = some s') : P s' := by
  induction labels generalizing s with
  | nil => cases executed; exact start
  | cons a rest ih =>
      obtain ⟨mid, taken, later⟩ := exec_cons_eq_some executed
      have next := preserved a List.mem_cons_self s mid start taken
      exact ih next (fun b member => preserved b (.tail a member)) later

/-- An executed list of labels that are allowed everywhere extends a run. -/
theorem reachWhile_exec {s s' : σ} (reached : L.ReachWhile ok s) {labels : List α}
    (allowed : ∀ a ∈ labels, ∀ s, ok s a) (executed : L.exec s labels = some s') :
    L.ReachWhile ok s' :=
  exec_invariant reached
    (fun a member s _ before taken => .step before (allowed a member s) taken) executed

/-- An executed list of labels extends a run. -/
theorem reach_exec {s s' : σ} (reached : L.Reach s) {labels : List α}
    (executed : L.exec s labels = some s') : L.Reach s' :=
  reachWhile_exec reached (fun _ _ _ => trivial) executed

/-- A run that can be evaluated reaches a state with the property its evaluation shows. -/
theorem exists_reach_of_exec {s : σ} (start : L.Init s) (labels : List α) {P : σ → Bool}
    (evaluated : (L.exec s labels).any P = true) : ∃ s', L.Reach s' ∧ P s' = true := by
  rcases (Option.any_eq_true _ _).mp evaluated with ⟨s', executed, holds⟩
  exact ⟨s', reach_exec (.init start) executed, holds⟩

/-- The system that refuses the steps that do not meet `ok`. -/
def restrict (L : Lts σ α) (ok : σ → α → Prop) [∀ s a, Decidable (ok s a)] : Lts σ α where
  Init := L.Init
  step s a := if ok s a then L.step s a else none

/-- Its runs are those whose steps meet `ok`. -/
theorem ReachWhile.of_restrict [∀ s a, Decidable (ok s a)] {s : σ}
    (reached : (L.restrict ok).Reach s) : L.ReachWhile ok s := by
  induction reached with
  | init start => exact .init start
  | step _ _ taken ih =>
      simp only [restrict] at taken
      split at taken
      · next allowed => exact .step ih allowed taken
      · cases taken

/-- A run that meets `ok` and can be evaluated. -/
theorem exists_reachWhile_of_exec (ok : σ → α → Prop) [∀ s a, Decidable (ok s a)] {s : σ}
    (start : L.Init s) (labels : List α) {P : σ → Bool}
    (evaluated : ((L.restrict ok).exec s labels).any P = true) :
    ∃ s', L.ReachWhile ok s' ∧ P s' = true := by
  obtain ⟨s', reached, holds⟩ := exists_reach_of_exec (L := L.restrict ok) start labels evaluated
  exact ⟨s', reached.of_restrict, holds⟩

/-- Every step of the run given by `labels` has the property. -/
def EveryStep (L : Lts σ α) (P : σ → α → σ → Prop) : σ → List α → Prop
  | _, [] => True
  | s, a :: rest => ∀ s', L.step s a = some s' → P s a s' ∧ L.EveryStep P s' rest

/-- What every step from a reached state has, every step of a run has. -/
theorem EveryStep.of_reach {P : σ → α → σ → Prop}
    (holds : ∀ s a s', L.Reach s → L.step s a = some s' → P s a s')
    {s : σ} (reached : L.Reach s) (labels : List α) : L.EveryStep P s labels := by
  induction labels generalizing s with
  | nil => trivial
  | cons a rest ih =>
      exact fun s' taken => ⟨holds s a s' reached taken, ih (.step reached trivial taken)⟩

/-- A property of steps that another one implies at every reached state. -/
theorem EveryStep.imp {P Q : σ → α → σ → Prop}
    (weaken : ∀ s a s', L.Reach s → L.step s a = some s' → P s a s' → Q s a s')
    {labels : List α} {s : σ} (reached : L.Reach s) (every : L.EveryStep P s labels) :
    L.EveryStep Q s labels := by
  induction labels generalizing s with
  | nil => trivial
  | cons a rest ih =>
      intro s' taken
      obtain ⟨here, later⟩ := every s' taken
      exact ⟨weaken s a s' reached taken here, ih (.step reached trivial taken) later⟩

/-- What every step of a run has in common, its last step has. -/
theorem EveryStep.last {P : σ → α → σ → Prop} {labels : List α} {a : α} {s mid s' : σ}
    (every : L.EveryStep P s (labels ++ [a])) (executed : L.exec s labels = some mid)
    (taken : L.step mid a = some s') : P mid a s' := by
  induction labels generalizing s with
  | nil =>
      cases executed
      exact (every s' taken).1
  | cons b rest ih =>
      obtain ⟨next, first, later⟩ := exec_cons_eq_some executed
      exact ih (every next first).2 later

/-- What the steps that have the property preserve, a run of such steps preserves. -/
theorem EveryStep.exec_invariant {P : σ → α → σ → Prop} {Q : σ → Prop}
    (preserved : ∀ s a s', Q s → L.step s a = some s' → P s a s' → Q s')
    {labels : List α} {s s' : σ} (every : L.EveryStep P s labels) (start : Q s)
    (executed : L.exec s labels = some s') : Q s' := by
  induction labels generalizing s with
  | nil => cases executed; exact start
  | cons a rest ih =>
      obtain ⟨mid, taken, later⟩ := exec_cons_eq_some executed
      obtain ⟨here, further⟩ := every mid taken
      exact ih further (preserved s a mid start taken here) later

/-- If a step from a good state (`G`) has the property exactly when it meets the condition, and
then leads to a good state, the steps of a run from a good state all have the property exactly when
all meet the condition: both sides stop at the same first step. -/
theorem everyStep_iff {G : σ → Prop} {P : σ → α → σ → Prop} {C : σ → α → Prop}
    (keeps : ∀ s a s', P s a s' → G s')
    (exactly : ∀ s a s', L.Reach s → G s → L.step s a = some s' → (P s a s' ↔ C s a))
    {s : σ} (reached : L.Reach s) (start : G s) (labels : List α) :
    L.EveryStep P s labels ↔ L.EveryStep (fun s a _ => C s a) s labels := by
  induction labels generalizing s with
  | nil => exact Iff.rfl
  | cons a rest ih =>
      constructor
      · intro every s' taken
        obtain ⟨here, later⟩ := every s' taken
        refine ⟨(exactly s a s' reached start taken).mp here, ?_⟩
        exact (ih (.step reached trivial taken) (keeps s a s' here)).mp later
      · intro every s' taken
        obtain ⟨here, later⟩ := every s' taken
        have property := (exactly s a s' reached start taken).mpr here
        exact ⟨property, (ih (.step reached trivial taken) (keeps s a s' property)).mpr later⟩

/-! ## One party alone -/

/-- Repeating the step `a`, some number of times, leads from `s` to `s'`. -/
def Leads (L : Lts σ α) (a : α) (s s' : σ) : Prop :=
  ∃ n, L.exec s (List.replicate n a) = some s'

theorem Leads.refl {a : α} (s : σ) : L.Leads a s s := ⟨0, rfl⟩

theorem Leads.step {a : α} {s mid s' : σ} (taken : L.step s a = some mid)
    (rest : L.Leads a mid s') : L.Leads a s s' := by
  rcases rest with ⟨n, executed⟩
  refine ⟨n + 1, ?_⟩
  rw [List.replicate_succ, exec, taken]
  exact executed

theorem Leads.trans {a : α} {s mid s' : σ} (first : L.Leads a s mid) (second : L.Leads a mid s') :
    L.Leads a s s' := by
  rcases first with ⟨n, executed⟩
  rcases second with ⟨m, continued⟩
  refine ⟨n + m, ?_⟩
  rw [← List.replicate_append_replicate, exec_append, executed]
  exact continued

end Lts

end Transition

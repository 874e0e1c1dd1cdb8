/-!
# One lock, its holder and the sections it guards

A lock is the name of its holder, if it has one.  `Mutex.Disciplined holder inside` says that the
parties inside their guarded sections are exactly the holders: the fact every step of a system has
to keep, after which mutual exclusion is immediate (`Disciplined.exclusive`).
-/

universe u

namespace Mutex

variable {τ : Type u} {holder : Option τ} {inside inside' : τ → Prop}

/-- A party is inside its guarded section exactly while it holds the lock. -/
def Disciplined (holder : Option τ) (inside : τ → Prop) : Prop :=
  ∀ t, inside t ↔ holder = some t

/-- Two parties are never inside together. -/
theorem Disciplined.exclusive (lock : Disciplined holder inside) {t u : τ}
    (first : inside t) (second : inside u) : t = u :=
  Option.some.inj (((lock t).mp first).symm.trans ((lock u).mp second))

/-- While the lock is free nobody is inside. -/
theorem Disciplined.outside_of_free (lock : Disciplined (none : Option τ) inside) (t : τ) :
    ¬ inside t := by
  intro entered
  cases (lock t).mp entered

/-- A step that moves nobody across the border of a section keeps the discipline. -/
theorem Disciplined.local_step (lock : Disciplined holder inside)
    (same : ∀ t, inside' t ↔ inside t) : Disciplined holder inside' :=
  fun t => (same t).trans (lock t)

/-- Taking the free lock enters one section. -/
theorem Disciplined.acquire (lock : Disciplined (none : Option τ) inside) (t : τ)
    (enters : inside' t) (others : ∀ u, u ≠ t → (inside' u ↔ inside u)) :
    Disciplined (some t) inside' := by
  intro u
  by_cases same : u = t
  · subst same
    exact ⟨fun _ => rfl, fun _ => enters⟩
  · constructor
    · intro entered
      exact (lock.outside_of_free u ((others u same).mp entered)).elim
    · intro held
      exact (same (Option.some.inj held).symm).elim

/-- Giving the lock back leaves the section of its holder. -/
theorem Disciplined.release {t : τ} (lock : Disciplined (some t) inside)
    (leaves : ¬ inside' t) (others : ∀ u, u ≠ t → (inside' u ↔ inside u)) :
    Disciplined none inside' := by
  intro u
  constructor
  · intro entered
    by_cases same : u = t
    · subst same
      exact (leaves entered).elim
    · exact (same (Option.some.inj ((lock u).mp ((others u same).mp entered))).symm).elim
  · intro held
    cases held

/-- What a move of one party does to the lock and to its place: it stays on its side of the border,
enters with the free lock, or leaves and frees the lock. -/
inductive Transfer (t : τ) : Option τ → Prop → Option τ → Prop → Prop
  | stay {holder : Option τ} {before after : Prop} (same : after ↔ before) :
      Transfer t holder before holder after
  | acquire {before after : Prop} (enters : after) : Transfer t none before (some t) after
  | release {holder : Option τ} {before after : Prop} (entered : before) (leaves : ¬ after) :
      Transfer t holder before none after

/-- A move of one party keeps the discipline. -/
theorem Disciplined.transfer {holder' : Option τ} {t : τ} (lock : Disciplined holder inside)
    (move : Transfer t holder (inside t) holder' (inside' t))
    (others : ∀ u, u ≠ t → (inside' u ↔ inside u)) : Disciplined holder' inside' := by
  generalize before : inside t = own at move
  generalize after : inside' t = own' at move
  cases move with
  | stay same =>
      refine lock.local_step fun u => ?_
      by_cases self : u = t
      · subst self
        rw [before, after]
        exact same
      · exact others u self
  | acquire enters => exact lock.acquire t (after ▸ enters) others
  | release entered leaves =>
      have held : holder = some t := (lock t).mp (before ▸ entered)
      subst held
      exact lock.release (after ▸ leaves) others

end Mutex

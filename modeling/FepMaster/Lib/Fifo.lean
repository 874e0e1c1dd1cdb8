/-!
# Bounded first-in first-out queues

A queue of at most `capacity` items, copied in at the back and out at the front; a send to a full
queue is refused and leaves it as it was.  The bound is a field, so no operation can build an
overfull queue.

`Fifo.run` lets one sender and one reader use the queue in any order and records what was accepted,
refused and delivered.  `run_accepted_of_room` says that a sender that is never refused has all its
items accepted, in the order it sent them.
-/

universe u

/-- At most `capacity` items, the oldest first. -/
structure Fifo (α : Type u) (capacity : Nat) where
  items : List α
  bounded : items.length ≤ capacity

namespace Fifo

variable {α : Type u} {capacity : Nat}

/-- The queue without items. -/
def empty : Fifo α capacity := ⟨[], Nat.zero_le _⟩

/-- Copy an item to the back, unless the queue is full. -/
def send (q : Fifo α capacity) (x : α) : Option (Fifo α capacity) :=
  if room : q.items.length < capacity then
    some ⟨q.items ++ [x], by rw [List.length_append]; exact room⟩
  else none

/-- Take the oldest item. -/
def receive (q : Fifo α capacity) : Option (α × Fifo α capacity) :=
  match items : q.items with
  | [] => none
  | x :: rest =>
      some (x, ⟨rest, by
        have := q.bounded
        rw [items, List.length_cons] at this
        omega⟩)

theorem send_eq_some {q q' : Fifo α capacity} {x : α} (sent : q.send x = some q') :
    q'.items = q.items ++ [x] := by
  unfold send at sent
  split at sent
  · cases sent; rfl
  · cases sent

theorem receive_eq_some {q q' : Fifo α capacity} {x : α} (received : q.receive = some (x, q')) :
    q.items = x :: q'.items := by
  unfold receive at received
  split at received
  · cases received
  · next items => cases received; exact items

theorem receive_eq_none {q : Fifo α capacity} (received : q.receive = none) : q.items = [] := by
  unfold receive at received
  split at received
  · next items => exact items
  · cases received

/-! ## A sender and a reader in any order -/

/-- What became of the items of a run. -/
structure Log (α : Type u) where
  accepted : List α
  refused : List α
  delivered : List α

/-- A run over the moves of both parties: `some x` sends `x`, `none` is a read. -/
def run : Fifo α capacity → List (Option α) → Fifo α capacity × Log α
  | q, [] => (q, ⟨[], [], []⟩)
  | q, some x :: rest =>
      match q.send x with
      | some q' =>
          let (final, log) := q'.run rest
          (final, { log with accepted := x :: log.accepted })
      | none =>
          let (final, log) := q.run rest
          (final, { log with refused := x :: log.refused })
  | q, none :: rest =>
      match q.receive with
      | some (x, q') =>
          let (final, log) := q'.run rest
          (final, { log with delivered := x :: log.delivered })
      | none => q.run rest

/-- A sender that is never refused has everything accepted, in order. -/
theorem run_accepted_of_room (q : Fifo α capacity) (moves : List (Option α))
    (room : (q.run moves).2.refused = []) :
    (q.run moves).2.accepted = moves.filterMap id := by
  induction moves generalizing q with
  | nil => rfl
  | cons move rest ih =>
      cases move with
      | some x =>
          cases sent : q.send x with
          | some q' =>
              simp only [run, sent] at room ⊢
              rw [ih q' room]
              rfl
          | none => simp [run, sent] at room
      | none =>
          cases received : q.receive with
          | some front =>
              simp only [run, received] at room ⊢
              exact ih front.2 room
          | none =>
              simp only [run, received] at room ⊢
              exact ih q room

end Fifo

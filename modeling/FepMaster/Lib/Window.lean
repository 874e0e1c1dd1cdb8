import Mathlib.Data.Finset.Card

/-!
# Bounded windows without duplicates

A window holds at most `capacity` elements, no two with the same key, the oldest first.  An
element whose key is listed leaves it alone; a new one goes to the end, and the oldest makes room
for it if need be.  `roomy_iff` counts when nobody ever has to.
-/

namespace Window

universe u v

variable {α : Type u} {κ : Type v} {capacity : Nat} {key : α → κ} {window : List α} {x : α}

theorem nodup_snoc (nodup : (window.map key).Nodup) (unlisted : key x ∉ window.map key) :
    ((window ++ [x]).map key).Nodup := by
  rw [List.map_append, List.map_singleton, List.nodup_append_comm]
  exact List.nodup_cons.mpr ⟨unlisted, nodup⟩

variable [DecidableEq κ]

/-- Let an element in. -/
def enter (capacity : Nat) (key : α → κ) (window : List α) (x : α) : List α :=
  if key x ∈ window.map key then window
  else (if window.length < capacity then window else window.tail) ++ [x]

/-- No more than `capacity` elements, all with different keys. -/
structure IsWindow (capacity : Nat) (key : α → κ) (window : List α) : Prop where
  bounded : window.length ≤ capacity
  nodup : (window.map key).Nodup

/-- Each element in turn is listed or finds room. -/
def Roomy (capacity : Nat) (key : α → κ) : List α → List α → Prop
  | _, [] => True
  | window, x :: rest =>
      (key x ∈ window.map key ∨ window.length < capacity) ∧
        Roomy capacity key (enter capacity key window x) rest

theorem enter_listed (listed : key x ∈ window.map key) : enter capacity key window x = window :=
  if_pos listed

theorem enter_room (unlisted : key x ∉ window.map key) (room : window.length < capacity) :
    enter capacity key window x = window ++ [x] := by
  rw [enter, if_neg unlisted, if_pos room]

/-- A window stays one. -/
theorem IsWindow.enter (isWindow : IsWindow capacity key window) (positive : 0 < capacity) (x : α) :
    IsWindow capacity key (enter capacity key window x) := by
  by_cases listed : key x ∈ window.map key
  · rw [enter_listed listed]
    exact isWindow
  · rw [Window.enter, if_neg listed]
    split
    · next room =>
        refine ⟨?_, nodup_snoc isWindow.nodup listed⟩
        rw [List.length_append]
        exact room
    · have tail : (window.tail.map key).Sublist (window.map key) :=
        (List.tail_sublist window).map key
      have unlisted : key x ∉ window.tail.map key := fun member => listed (tail.subset member)
      refine ⟨?_, nodup_snoc (isWindow.nodup.sublist tail) unlisted⟩
      have bounded := isWindow.bounded
      rw [List.length_append, List.length_tail, List.length_singleton]
      omega

/-- A listed key adds none. -/
theorem toFinset_of_listed (listed : key x ∈ window.map key) (rest : List α) :
    ((window ++ x :: rest).map key).toFinset = ((window ++ rest).map key).toFinset := by
  ext k
  simp only [List.map_append, List.map_cons, List.mem_toFinset, List.mem_append, List.mem_cons]
  refine ⟨fun member => ?_, Or.imp_right Or.inr⟩
  rcases member with here | rfl | later
  · exact .inl here
  · exact .inl listed
  · exact .inr later

/-- The keys of a window and a new one are one more than the window has elements. -/
theorem IsWindow.length_lt_card (isWindow : IsWindow capacity key window)
    (unlisted : key x ∉ window.map key) (rest : List α) :
    window.length < ((window ++ x :: rest).map key).toFinset.card := by
  have among : ((window ++ [x]).map key).toFinset ⊆
      ((window ++ x :: rest).map key).toFinset := by
    intro k member
    rw [List.mem_toFinset] at member ⊢
    rw [← List.singleton_append, ← List.append_assoc, List.map_append]
    exact List.mem_append_left _ member
  have many := Finset.card_le_card among
  rwa [List.toFinset_card_of_nodup (nodup_snoc isWindow.nodup unlisted), List.length_map,
    List.length_append, List.length_singleton] at many

/-- Nobody has to make room exactly if all keys together fit. -/
theorem roomy_iff (isWindow : IsWindow capacity key window) (elements : List α) :
    Roomy capacity key window elements ↔
      ((window ++ elements).map key).toFinset.card ≤ capacity := by
  induction elements generalizing window with
  | nil =>
      rw [List.append_nil, List.toFinset_card_of_nodup isWindow.nodup, List.length_map]
      exact ⟨fun _ => isWindow.bounded, fun _ => trivial⟩
  | cons x rest ih =>
      unfold Roomy
      by_cases listed : key x ∈ window.map key
      · rw [enter_listed listed, ih isWindow, toFinset_of_listed listed]
        exact and_iff_right (.inl listed)
      · by_cases room : window.length < capacity
        · have longer : IsWindow capacity key (window ++ [x]) :=
            ⟨by rw [List.length_append]; exact room, nodup_snoc isWindow.nodup listed⟩
          rw [enter_room listed room, ih longer, List.append_assoc, List.singleton_append]
          exact and_iff_right (.inr room)
        · -- the keys of the window and the new one are too many already
          have many := isWindow.length_lt_card listed rest
          constructor
          · intro roomy
            exact absurd roomy.1 (not_or.mpr ⟨listed, room⟩)
          · intro few
            omega

end Window

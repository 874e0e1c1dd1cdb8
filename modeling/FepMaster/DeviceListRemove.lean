import Mathlib.Data.List.Chain
import Mathlib.Data.List.TakeWhile
import FepMaster.DeviceList

/-!
# What `fep_list_remove` leaves behind

The loop unlinks and frees in one walk, and moves its trailing pointer to the node it has just
freed.  At the head of the list this does no harm: the root itself moves on.  Behind the first
node that stays, the link past the second of two adjacent nodes of the device is written into the
first, already freed one, so the second stays linked (`visitedAfter`).

`fepListRemove_eq` says what the call does to any list in order; `visitedAfter_stays_iff` and
`visitedAfter_eq_filter` say when that is the deletion of the device.
-/

namespace FepMaster

open LinkedList

namespace FepList

/-! ## Removing -/

/-- What a walk along `nodes` frees: the nodes that are `gone`. -/
structure Removal (gone : Addr → Bool) (nodes : List Addr) (s s' : FepList) : Prop where
  dev : s'.dev = s.dev
  allocated : ∀ a, s'.allocated a = (s.allocated a && !(gone a && decide (a ∈ nodes)))
  counter : s'.fepListCounter = s.fepListCounter - nodes.countP gone

theorem Removal.nil (gone : Addr → Bool) (s : FepList) : Removal gone [] s s where
  dev := rfl
  allocated := by simp
  counter := by simp

theorem Removal.cons {gone : Addr → Bool} {a : Addr} {rest : List Addr} {s mid s' : FepList}
    (first : Removal gone [a] s mid) (later : Removal gone rest mid s') :
    Removal gone (a :: rest) s s' where
  dev := later.dev.trans first.dev
  allocated := by
    intro b
    rw [later.allocated, first.allocated]
    cases s.allocated b <;> cases gone b <;> by_cases same : b = a <;> simp [same]
  counter := by
    rw [later.counter, first.counter, List.countP_cons, List.countP_cons, List.countP_nil]
    push_cast
    omega

/-- A node that stays. -/
theorem removeNode_stays {s : FepList} {devId devType : UInt8} {tmp : Addr}
    (other : isDevice devId devType (s.dev tmp) = false) (preTmp : Addr) :
    s.removeNode devId devType tmp preTmp = s := by
  simp [removeNode, other]

/-- One iteration frees its node if that is the device looked for. -/
theorem removeNode_removal (s : FepList) (devId devType : UInt8) (tmp preTmp : Addr) :
    Removal (fun a => isDevice devId devType (s.dev a)) [tmp] s
      (s.removeNode devId devType tmp preTmp) := by
  unfold removeNode
  split
  · next device =>
      refine ⟨by split <;> rfl, fun a => ?_, by split <;> simp [vPortFree, device]⟩
      by_cases same : a = tmp
      · subst same
        split <;> simp [vPortFree, device]
      · split <;> simp [vPortFree, same]
  · next other =>
      refine ⟨rfl, fun a => ?_, by simp [other]⟩
      by_cases same : a = tmp
      · simp [same, other]
      · simp [same]

/-- The head of the list moves past a freed root; its links stay. -/
theorem removeNode_root {s : FepList} {devId devType : UInt8} {tmp : Addr}
    (device : isDevice devId devType (s.dev tmp) = true) (root : s.fepListRoot = some tmp)
    (preTmp : Addr) :
    (s.removeNode devId devType tmp preTmp).fepListRoot = s.next tmp ∧
      (s.removeNode devId devType tmp preTmp).next = s.next := by
  simp [removeNode, device, root, vPortFree]

/-- Behind the root, the node the walk came from is linked past a freed one. -/
theorem removeNode_inner {s : FepList} {tmp : Addr} (inner : s.fepListRoot ≠ some tmp)
    (devId devType : UInt8) (preTmp : Addr) :
    (s.removeNode devId devType tmp preTmp).fepListRoot = s.fepListRoot ∧
      (s.removeNode devId devType tmp preTmp).next =
        if isDevice devId devType (s.dev tmp) = true then
          Function.update s.next preTmp (s.next tmp)
        else s.next := by
  cases device : isDevice devId devType (s.dev tmp) <;>
    simp [removeNode, device, Ne.symm inner, vPortFree]

/-- Only the link of the node the walk came from can change. -/
theorem removeNode_frame {s : FepList} {tmp : Addr} (inner : s.fepListRoot ≠ some tmp)
    (devId devType : UInt8) {preTmp b : Addr} (other : b ≠ preTmp) :
    (s.removeNode devId devType tmp preTmp).next b = s.next b := by
  rw [(removeNode_inner inner devId devType preTmp).2]
  split
  · exact Function.update_of_ne other _ _
  · rfl

/-- The nodes the links visit after the walk.  The node behind a freed one is kept whatever it is
(`pass`): the link past it is written into the node just freed. -/
def linkedAfter (gone : Addr → Bool) : Bool → List Addr → List Addr
  | _, [] => []
  | true, a :: rest => a :: linkedAfter gone false rest
  | false, a :: rest =>
      if gone a then linkedAfter gone true rest else a :: linkedAfter gone false rest

/-- What the walk does from `tmp` on, coming from `preTmp`. -/
structure WalkedInner (gone : Addr → Bool) (nodes : List Addr) (tmp : Option Addr) (preTmp : Addr)
    (s s' : FepList) : Prop where
  removal : Removal gone nodes s s'
  root : s'.fepListRoot = s.fepListRoot
  frame : ∀ a, a ≠ preTmp → a ∉ nodes → s'.next a = s.next a
  linked : s.next preTmp = tmp → Visits s'.next (s'.next preTmp) (linkedAfter gone false nodes)
  passed : Visits s'.next tmp (linkedAfter gone true nodes)

/-- Behind the root the loop ends, frees the nodes of the device, and leaves these links. -/
theorem removeLoop_inner {devId devType : UInt8} {gone : Addr → Bool} {nodes : List Addr}
    {s : FepList} (device : ∀ a, isDevice devId devType (s.dev a) = gone a) {tmp : Option Addr}
    (visits : Visits s.next tmp nodes) (inner : ∀ a ∈ nodes, s.fepListRoot ≠ some a)
    {preTmp : Addr} (behind : preTmp ∉ nodes) {fuel : Nat} (enough : nodes.length ≤ fuel) :
    ∃ s', removeLoop devId devType fuel s tmp preTmp = some s' ∧
      WalkedInner gone nodes tmp preTmp s s' := by
  induction nodes generalizing s tmp preTmp fuel with
  | nil =>
      rw [visits_nil.mp visits]
      refine ⟨s, by cases fuel <;> rfl, Removal.nil gone s, rfl, fun _ _ _ => rfl, ?_, rfl⟩
      exact fun last => last
  | cons a rest ih =>
      have distinct := visits.nodup
      rcases visits with ⟨rfl, visits⟩
      rw [List.nodup_cons] at distinct
      rw [List.mem_cons, not_or] at behind
      cases fuel with
      | zero => cases enough
      | succ fuel =>
          have first := removeNode_removal s devId devType a preTmp
          rw [funext device] at first
          -- the walk goes on from the link of `a`, which is what it was, with `a` behind
          have here := inner a List.mem_cons_self
          obtain ⟨rootMid, nextMid⟩ := removeNode_inner here devId devType preTmp
          have link := removeNode_frame here devId devType (Ne.symm behind.1)
          have visitsMid : Visits (s.removeNode devId devType a preTmp).next (s.next a) rest :=
            visits.frame fun b member =>
              removeNode_frame here devId devType (ne_of_mem_of_not_mem member behind.2)
          obtain ⟨s', ended, walked⟩ := ih (s := s.removeNode devId devType a preTmp)
            (fun b => by rw [first.dev]; exact device b) (link ▸ visitsMid)
            (fun b member => by rw [rootMid]; exact inner b (List.mem_cons_of_mem _ member))
            distinct.1 (Nat.le_of_succ_le_succ enough)
          refine ⟨s', ended, first.cons walked.removal, walked.root.trans rootMid, ?_, ?_, ?_⟩
          · intro b other outside
            rw [List.mem_cons, not_or] at outside
            exact (walked.frame b outside.1 outside.2).trans
              (removeNode_frame here devId devType other)
          · intro linked
            have kept := walked.frame preTmp behind.1 behind.2
            rw [nextMid, device a] at kept
            cases goes : gone a with
            | false =>
                rw [goes, if_neg Bool.false_ne_true] at kept
                rw [kept, linked, linkedAfter, goes]
                exact ⟨rfl, walked.linked rfl⟩
            | true =>
                rw [goes, if_pos rfl, Function.update_self] at kept
                rw [kept, linkedAfter, goes, if_pos rfl, ← link]
                exact walked.passed
          · exact ⟨rfl, walked.linked rfl⟩

/-- The nodes the links visit after `fep_list_remove`: the devices at the head go one by one, and
behind the first that stays every second of adjacent ones is kept. -/
def visitedAfter (gone : Addr → Bool) (nodes : List Addr) : List Addr :=
  match nodes.dropWhile gone with
  | [] => []
  | a :: rest => a :: linkedAfter gone false rest

/-- From the root the loop ends, frees the nodes of the device, and leaves these links. -/
theorem removeLoop_root {devId devType : UInt8} {gone : Addr → Bool} {nodes : List Addr}
    {s : FepList} (device : ∀ a, isDevice devId devType (s.dev a) = gone a)
    (visits : Visits s.next s.fepListRoot nodes) (preTmp : Addr) {fuel : Nat}
    (enough : nodes.length ≤ fuel) :
    ∃ s', removeLoop devId devType fuel s s.fepListRoot preTmp = some s' ∧
      Removal gone nodes s s' ∧ Visits s'.next s'.fepListRoot (visitedAfter gone nodes) := by
  induction nodes generalizing s preTmp fuel with
  | nil =>
      rw [visits_nil.mp visits]
      exact ⟨s, by cases fuel <;> rfl, Removal.nil gone s, visits⟩
  | cons a rest ih =>
      have distinct := List.nodup_cons.mp visits.nodup
      rcases visits with ⟨root, visits⟩
      cases fuel with
      | zero => cases enough
      | succ fuel =>
          have first := removeNode_removal s devId devType a preTmp
          rw [funext device] at first
          rw [root, removeLoop]
          cases here : gone a with
          | true =>
              obtain ⟨moved, same⟩ := removeNode_root ((device a).trans here) root preTmp
              obtain ⟨s', ended, removal, visited⟩ := ih (s := s.removeNode devId devType a preTmp)
                (fun b => by rw [first.dev]; exact device b) (by rw [moved, same]; exact visits) a
                (Nat.le_of_succ_le_succ enough)
              refine ⟨s', ?_, first.cons removal, ?_⟩
              · simp only [same, ← moved]
                exact ended
              · rw [visitedAfter, List.dropWhile_cons_of_pos here]
                exact visited
          | false =>
              have stays := removeNode_stays ((device a).trans here) preTmp
              have inner : ∀ b ∈ rest, s.fepListRoot ≠ some b := fun b member same => by
                rw [root] at same
                cases same
                exact distinct.1 member
              obtain ⟨s', ended, walked⟩ := removeLoop_inner device visits inner distinct.1
                (Nat.le_of_succ_le_succ enough)
              refine ⟨s', ?_, ?_, ?_⟩
              · simp only [stays]
                exact ended
              · rw [stays] at first
                exact first.cons walked.removal
              · have behind : (a :: rest).dropWhile gone = a :: rest :=
                  List.dropWhile_cons_of_neg (by rw [here]; exact Bool.false_ne_true)
                rw [visitedAfter, behind, walked.root, root]
                exact ⟨rfl, walked.linked rfl⟩

/-- More iterations than needed change nothing. -/
theorem removeLoop_fuel {devId devType : UInt8} {fuel more : Nat} (enough : fuel ≤ more)
    {s s' : FepList} {tmp : Option Addr} {preTmp : Addr}
    (ended : removeLoop devId devType fuel s tmp preTmp = some s') :
    removeLoop devId devType more s tmp preTmp = some s' := by
  induction fuel generalizing s tmp preTmp more with
  | zero =>
      cases tmp with
      | none => cases more <;> exact ended
      | some tmp => cases ended
  | succ fuel ih =>
      cases tmp with
      | none => cases more <;> exact ended
      | some tmp =>
          cases more with
          | zero => cases enough
          | succ more => exact ih (Nat.le_of_succ_le_succ enough) ended

/-- **What `fep_list_remove` does to a list in order**: it ends, it frees the nodes of the device,
and the links visit the nodes of `visitedAfter`. -/
theorem fepListRemove_eq {s : FepList} {nodes : List Addr} (represents : s.Represents nodes)
    (devId devType : UInt8) :
    ∃ s', (∀ fuel, nodes.length ≤ fuel → s.fepListRemove fuel devId devType = some s') ∧
      Removal (fun a => isDevice devId devType (s.dev a)) nodes s s' ∧
      Visits s'.next s'.fepListRoot
        (visitedAfter (fun a => isDevice devId devType (s.dev a)) nodes) := by
  have visits := represents.visits
  cases root : s.fepListRoot with
  | none =>
      rw [root] at visits
      cases nodes with
      | nil =>
          refine ⟨s, fun fuel _ => by rw [fepListRemove, root], Removal.nil _ s, ?_⟩
          rw [root]
          rfl
      | cons a rest => cases visits.1
  | some tmp =>
      obtain ⟨s', ended, removal, visited⟩ :=
        @removeLoop_root devId devType _ nodes s (fun _ => rfl) visits tmp _ (Nat.le_refl _)
      refine ⟨s', fun fuel enough => ?_, removal, visited⟩
      rw [fepListRemove, root]
      rw [root] at ended
      exact removeLoop_fuel enough ended

theorem linkedAfter_sublist (gone : Addr → Bool) (pass : Bool) (nodes : List Addr) :
    (linkedAfter gone pass nodes).Sublist nodes := by
  induction nodes generalizing pass with
  | nil => exact List.Sublist.refl []
  | cons a rest ih =>
      cases pass with
      | true => exact (ih false).cons_cons a
      | false =>
          unfold linkedAfter
          split
          · exact (ih true).cons a
          · exact (ih false).cons_cons a

/-- A removal links no node anew. -/
theorem visitedAfter_sublist (gone : Addr → Bool) (nodes : List Addr) :
    (visitedAfter gone nodes).Sublist nodes := by
  refine List.Sublist.trans ?_ (List.dropWhile_sublist gone)
  unfold visitedAfter
  cases nodes.dropWhile gone with
  | nil => exact List.Sublist.refl []
  | cons a rest => exact (linkedAfter_sublist gone false rest).cons_cons a

/-! ## When a removal is right -/

/-- Behind the first node that stays, no two adjacent nodes are gone. -/
def Apart (gone : Addr → Bool) (nodes : List Addr) : Prop :=
  (nodes.dropWhile gone).IsChain fun a b => ¬ (gone a = true ∧ gone b = true)

/-- The node a walk comes to is not gone if the one before it was (`pass`). -/
def Passable (gone : Addr → Bool) (pass : Bool) (nodes : List Addr) : Prop :=
  (pass = true → ∀ a ∈ nodes.head?, gone a = false) ∧
    nodes.IsChain fun a b => ¬ (gone a = true ∧ gone b = true)

theorem passable_cons {gone : Addr → Bool} {pass : Bool} {a : Addr} {rest : List Addr} :
    Passable gone pass (a :: rest) ↔
      (pass = true → gone a = false) ∧ Passable gone (gone a) rest := by
  have first : (∀ b ∈ (a :: rest).head?, gone b = false) ↔ gone a = false := by simp
  have second : (∀ b ∈ rest.head?, ¬ (gone a = true ∧ gone b = true)) ↔
      (gone a = true → ∀ b ∈ rest.head?, gone b = false) := by
    simp only [not_and, Bool.not_eq_true]
    exact ⟨fun apart here b next => apart b next here, fun apart b next here => apart here b next⟩
  rw [Passable, Passable, List.isChain_cons, first, second]

/-- The links visit exactly the nodes that stay if and only if no node is passed over. -/
theorem linkedAfter_stays_iff {gone : Addr → Bool} {pass : Bool} {nodes : List Addr} :
    (∀ a ∈ linkedAfter gone pass nodes, gone a = false) ↔ Passable gone pass nodes := by
  induction nodes generalizing pass with
  | nil => simp [linkedAfter, Passable]
  | cons a rest ih =>
      rw [passable_cons]
      cases pass with
      | true =>
          rw [linkedAfter, List.forall_mem_cons, ih]
          constructor
          · intro both
            exact ⟨fun _ => both.1, both.1 ▸ both.2⟩
          · intro both
            have stays := both.1 rfl
            exact ⟨stays, stays ▸ both.2⟩
      | false =>
          rw [linkedAfter]
          cases here : gone a with
          | true => simp [ih]
          | false => simp [ih, here]

theorem linkedAfter_eq_filter {gone : Addr → Bool} {pass : Bool} {nodes : List Addr}
    (passable : Passable gone pass nodes) :
    linkedAfter gone pass nodes = nodes.filter fun a => !gone a := by
  induction nodes generalizing pass with
  | nil => rfl
  | cons a rest ih =>
      obtain ⟨stays, later⟩ := passable_cons.mp passable
      cases pass with
      | true =>
          rw [stays rfl] at later
          rw [linkedAfter, ih later, List.filter_cons_of_pos (by simp [stays rfl])]
      | false =>
          rw [linkedAfter]
          cases here : gone a with
          | true =>
              rw [here] at later
              rw [if_pos rfl, ih later, List.filter_cons_of_neg (by simp [here])]
          | false =>
              rw [here] at later
              rw [if_neg Bool.false_ne_true, ih later, List.filter_cons_of_pos (by simp [here])]

theorem apart_iff_passable {gone : Addr → Bool} {nodes : List Addr} {a : Addr} {rest : List Addr}
    (stays : nodes.dropWhile gone = a :: rest) : gone a = false ∧
      (Apart gone nodes ↔ Passable gone false rest) := by
  have first : gone a = false := by
    have := List.head_dropWhile_not gone (by rw [stays]; exact List.cons_ne_nil a rest)
    simpa [stays] using this
  refine ⟨first, ?_⟩
  rw [Apart, stays, List.isChain_cons, Passable]
  simp [first]

/-- After a removal the links visit no freed node exactly if the nodes to go were apart. -/
theorem visitedAfter_stays_iff {gone : Addr → Bool} {nodes : List Addr} :
    (∀ a ∈ visitedAfter gone nodes, gone a = false) ↔ Apart gone nodes := by
  unfold visitedAfter
  cases stays : nodes.dropWhile gone with
  | nil => simp [Apart, stays]
  | cons a rest =>
      obtain ⟨first, apart⟩ := apart_iff_passable stays
      rw [apart, List.forall_mem_cons, linkedAfter_stays_iff]
      exact ⟨And.right, fun passable => ⟨first, passable⟩⟩

theorem visitedAfter_eq_filter {gone : Addr → Bool} {nodes : List Addr}
    (apart : Apart gone nodes) : visitedAfter gone nodes = nodes.filter fun a => !gone a := by
  have dropped : (nodes.takeWhile gone).filter (fun a => !gone a) = [] := by
    rw [List.filter_eq_nil_iff]
    intro a member
    simp [List.mem_takeWhile_imp member]
  have whole : nodes.filter (fun a => !gone a) =
      (nodes.dropWhile gone).filter fun a => !gone a := by
    conv => lhs; rw [← @List.takeWhile_append_dropWhile _ gone nodes]
    rw [List.filter_append, dropped, List.nil_append]
  rw [whole, visitedAfter]
  cases stays : nodes.dropWhile gone with
  | nil => rfl
  | cons a rest =>
      obtain ⟨first, passable⟩ := apart_iff_passable stays
      rw [List.filter_cons_of_pos (by simp [first]), ← linkedAfter_eq_filter (passable.mp apart)]

end FepList

end FepMaster

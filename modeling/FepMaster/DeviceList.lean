import FepMaster.Device
import FepMaster.Lib.LinkedList
import FepMaster.Uart

/-!
# The dynamic device list

`Drivers/FEP/fep_list.c`: the list behind `FEP_LIST_API`, whose nodes come from `pvPortMalloc` and
go back with `vPortFree`.  A freed node keeps its contents, and its link, until it is allocated
again.

The loops follow links and need not end on every memory, so each takes the number of iterations it
is allowed and has no result when they do not suffice.  `char` is unsigned, as it is on the
target.

Each function has one lemma that says what it does to a list that is in order
(`Represents`); nothing later unfolds it.
-/

namespace FepMaster

open LinkedList

/-! ## The code -/

/-- The nodes in memory, field by field and link, which of them are allocated, `fep_list_root` and
`fep_list_counter`. -/
structure FepList where
  dev : Addr → FepDev
  next : Addr → Option Addr
  allocated : Addr → Bool
  fepListRoot : Option Addr
  fepListCounter : Int

namespace FepList

/-- A node the allocator hands out at address `tmp`, with what the memory held before. -/
def pvPortMalloc (s : FepList) (tmp : Addr) (memory : FepDev) : FepList :=
  { s with
    dev := Function.update s.dev tmp memory
    allocated := Function.update s.allocated tmp true }

/-- `vPortFree`. -/
def vPortFree (s : FepList) (tmp : Addr) : FepList :=
  { s with allocated := Function.update s.allocated tmp false }

/-- The fields `fep_list_add` copies, written over a record. -/
def copyFields (memory tmpDev : FepDev) : FepDev :=
  { memory with
    devId := tmpDev.devId
    devType := tmpDev.devType
    status := tmpDev.status
    needRegister := tmpDev.needRegister
    data := tmpDev.data }

/-- `fep_list_add`, with the node `pvPortMalloc` returns. -/
def fepListAdd (s : FepList) (tmpDev : FepDev) (tmp : Addr) (memory : FepDev) : FepList :=
  let s := s.pvPortMalloc tmp memory
  let s := { s with dev := Function.update s.dev tmp (copyFields (s.dev tmp) tmpDev) }
  { s with
    next := Function.update s.next tmp s.fepListRoot
    fepListRoot := some tmp
    fepListCounter := s.fepListCounter + 1 }

/-- `tmp->dev_id == dev_id && tmp->dev_type == dev_type`. -/
def isDevice (devId devType : UInt8) (d : FepDev) : Bool :=
  d.devId == devId && d.devType == devType

/-- The body of the loop of `fep_list_remove`. -/
def removeNode (s : FepList) (devId devType : UInt8) (tmp preTmp : Addr) : FepList :=
  if isDevice devId devType (s.dev tmp) then
    let s :=
      if some tmp = s.fepListRoot then
        { s with fepListRoot := s.next tmp }.vPortFree tmp
      else
        { s with next := Function.update s.next preTmp (s.next tmp) }.vPortFree tmp
    { s with fepListCounter := s.fepListCounter - 1 }
  else s

/-- The loop of `fep_list_remove`; the link of a node is read after the node is freed. -/
def removeLoop (devId devType : UInt8) : Nat → FepList → Option Addr → Addr → Option FepList
  | _, s, none, _ => some s
  | 0, _, some _, _ => none
  | fuel + 1, s, some tmp, preTmp =>
      let s := s.removeNode devId devType tmp preTmp
      removeLoop devId devType fuel s (s.next tmp) tmp

/-- `fep_list_remove`; `pre_tmp` starts as `tmp`. -/
def fepListRemove (fuel : Nat) (s : FepList) (devId devType : UInt8) : Option FepList :=
  match s.fepListRoot with
  | none => some s
  | some tmp => removeLoop devId devType fuel s (some tmp) tmp

/-- The loop of `fep_list_find`. -/
def findLoop (devId devType : UInt8) (s : FepList) : Nat → Option Addr → Option (Option Addr)
  | _, none => some none
  | 0, some _ => none
  | fuel + 1, some tmp =>
      if isDevice devId devType (s.dev tmp) then some (some tmp)
      else findLoop devId devType s fuel (s.next tmp)

/-- `fep_list_find`. -/
def fepListFind (fuel : Nat) (s : FepList) (devId devType : UInt8) : Option (Option Addr) :=
  findLoop devId devType s fuel s.fepListRoot

/-- The loop of `fep_list_GetFreeID` from one candidate on. -/
def getFreeIdLoop (fuel : Nat) (s : FepList) (devType : UInt8) : List Nat → Option UInt8
  | [] => some 8
  | res :: rest =>
      match s.fepListFind fuel (UInt8.ofNat res) devType with
      | none => none
      | some none => some (UInt8.ofNat res)
      | some (some _) => getFreeIdLoop fuel s devType rest

/-- `fep_list_GetFreeID`. -/
def fepListGetFreeId (fuel : Nat) (s : FepList) (devType : UInt8) : Option UInt8 :=
  getFreeIdLoop fuel s devType (List.range 8)

/-! ## Lists in order -/

/-- The links from the root visit these nodes, all of them allocated, and the counter is their
number. -/
structure Represents (s : FepList) (nodes : List Addr) : Prop where
  visits : Visits s.next s.fepListRoot nodes
  live : ∀ a ∈ nodes, s.allocated a = true
  counter : s.fepListCounter = nodes.length

/-- The devices of some nodes, in their order. -/
def devices (s : FepList) (nodes : List Addr) : List FepDev := nodes.map s.dev

theorem Represents.unique {s : FepList} {nodes others : List Addr} (represents : s.Represents nodes)
    (visits : Visits s.next s.fepListRoot others) : nodes = others :=
  represents.visits.unique visits

/-! ## Adding -/

theorem fepListAdd_represents {s : FepList} {nodes : List Addr} (represents : s.Represents nodes)
    {tmp : Addr} (fresh : s.allocated tmp = false) (tmpDev memory : FepDev) :
    (s.fepListAdd tmpDev tmp memory).Represents (tmp :: nodes) := by
  have new : tmp ∉ nodes := fun old => by
    rw [represents.live tmp old] at fresh
    cases fresh
  refine ⟨⟨rfl, ?_⟩, fun a member => ?_, ?_⟩
  · simp only [fepListAdd, Function.update_self]
    exact represents.visits.update new _
  · simp only [fepListAdd, pvPortMalloc]
    rcases List.mem_cons.mp member with rfl | old
    · exact Function.update_self ..
    · rw [Function.update_of_ne (ne_of_mem_of_not_mem old new)]
      exact represents.live a old
  · simp only [fepListAdd, pvPortMalloc, represents.counter, List.length_cons]
    omega

/-- The new node holds the copied fields over what the memory held; no other node is touched. -/
theorem fepListAdd_dev (s : FepList) (tmpDev : FepDev) (tmp : Addr) (memory : FepDev) :
    (s.fepListAdd tmpDev tmp memory).dev =
      Function.update s.dev tmp (copyFields memory tmpDev) := by
  simp [fepListAdd, pvPortMalloc]

/-! ## Finding -/

theorem findLoop_of_visits {s : FepList} (devId devType : UInt8) {p : Option Addr}
    {nodes : List Addr} (visits : Visits s.next p nodes) {fuel : Nat}
    (enough : nodes.length ≤ fuel) :
    findLoop devId devType s fuel p =
      some (nodes.find? fun a => isDevice devId devType (s.dev a)) := by
  induction nodes generalizing p fuel with
  | nil =>
      rw [visits_nil.mp visits]
      cases fuel <;> rfl
  | cons a rest ih =>
      rcases visits with ⟨rfl, visits⟩
      cases fuel with
      | zero => cases enough
      | succ fuel =>
          rw [findLoop, List.find?_cons]
          cases found : isDevice devId devType (s.dev a) with
          | true => rfl
          | false => exact ih visits (Nat.le_of_succ_le_succ enough)

/-- On a list in order, `Find` ends with the first node of the key. -/
theorem fepListFind_eq {s : FepList} {nodes : List Addr} (represents : s.Represents nodes)
    (devId devType : UInt8) {fuel : Nat} (enough : nodes.length ≤ fuel) :
    s.fepListFind fuel devId devType =
      some (nodes.find? fun a => isDevice devId devType (s.dev a)) :=
  findLoop_of_visits devId devType represents.visits enough

end FepList

end FepMaster

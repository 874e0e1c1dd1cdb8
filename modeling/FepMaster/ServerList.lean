import FepMaster.Lib.Transition
import FepMaster.Lib.Window
import FepMaster.UdpTask

/-!
# The list of servers

`fep_server_addr`, `number_server` and `check_ipserver` of `Drivers/FEP/fep_udp.c`.  The array has
five entries; the memory it lies in is modelled from its first entry on without an end, and a call
says which indices it used.

What the list is for is a window of `FepMaster.Lib.Window`, by address: `checkRight_iff` says when
one call acts as it should, `server_list_iff` when all calls of a run do.
-/

namespace FepMaster

open Transition Window

/-- `MAX_SERVER_CONNECT`. -/
def maxServerConnect : Nat := 5

/-- `fep_server_addr` with the memory behind it, and `number_server`. -/
structure ServerList where
  fepServerAddr : Nat → SockaddrIn
  numberServer : UInt8

/-- What a call leaves, and the indices of `fep_server_addr` it used. -/
structure CheckResult where
  list : ServerList
  accesses : List Nat

/-- `check_ipserver`.  For a full list the code has a loop without a body, so nothing is done. -/
def checkIpserver (s : ServerList) (addr : SockaddrIn) : CheckResult :=
  let scan := List.range s.numberServer.toNat
  let nextIp := scan.foldl
    (fun nextIp i => if addr.sinAddr = (s.fepServerAddr i).sinAddr then true else nextIp) false
  if nextIp = false then
    let last := s.numberServer.toNat
    ⟨⟨Function.update s.fepServerAddr last addr, s.numberServer + 1⟩, scan ++ [last]⟩
  else ⟨s, scan⟩

/-- The entries in use. -/
def ServerList.entries (s : ServerList) : List SockaddrIn :=
  (List.range s.numberServer.toNat).map s.fepServerAddr

/-- The list after start-up, whatever the memory of the other entries holds. -/
def ServerList.start (memory : Nat → SockaddrIn) : ServerList :=
  ⟨Function.update memory 0 configuredSockaddr, 1⟩

/-- Calls of `check_ipserver` one after the other. -/
def serverLts : Lts ServerList SockaddrIn where
  Init s := ∃ memory, s = ServerList.start memory
  step s addr := some (checkIpserver s addr).list

/-- The list is in order: at most five entries with different addresses. -/
abbrev ServerList.InOrder (s : ServerList) : Prop :=
  IsWindow maxServerConnect SockaddrIn.sinAddr s.entries

/-- A call stays inside the array, leaves the list in order, and lets the address in as a window
does. -/
structure CheckRight (s : ServerList) (addr : SockaddrIn) (s' : ServerList) : Prop where
  inside : ∀ i ∈ (checkIpserver s addr).accesses, i < maxServerConnect
  number : s'.numberServer.toNat ≤ maxServerConnect
  nodup : (s'.entries.map SockaddrIn.sinAddr).Nodup
  entered : s'.entries = enter maxServerConnect SockaddrIn.sinAddr s.entries addr

variable {s : ServerList} {addr : SockaddrIn}

@[simp] theorem length_entries (s : ServerList) : s.entries.length = s.numberServer.toNat := by
  rw [ServerList.entries, List.length_map, List.length_range]

theorem entries_start (memory : Nat → SockaddrIn) :
    (ServerList.start memory).entries = [configuredSockaddr] := by
  have first : (ServerList.start memory).fepServerAddr 0 = configuredSockaddr := by
    simp only [ServerList.start, Function.update_self]
  exact congrArg (fun addr => [addr]) first

theorem inOrder_start (memory : Nat → SockaddrIn) : (ServerList.start memory).InOrder := by
  rw [ServerList.InOrder, entries_start]
  exact ⟨by decide, List.nodup_singleton _⟩

/-! ## One call -/

/-- The scan without a break finds out whether one of the entries matches. -/
theorem foldl_found {α : Type} (found : α → Prop) [DecidablePred found] (l : List α) (b : Bool) :
    l.foldl (fun b i => if found i then true else b) b = (b || l.any fun i => found i) := by
  induction l generalizing b with
  | nil => simp
  | cons i rest ih =>
      rw [List.foldl_cons, ih, List.any_cons]
      by_cases here : found i <;> simp [here]

/-- A call leaves a listed address alone and stores a new one behind the entries in use. -/
theorem checkIpserver_eq (s : ServerList) (addr : SockaddrIn) :
    checkIpserver s addr =
      if addr.sinAddr ∈ s.entries.map SockaddrIn.sinAddr then
        ⟨s, List.range s.numberServer.toNat⟩
      else
        ⟨⟨Function.update s.fepServerAddr s.numberServer.toNat addr, s.numberServer + 1⟩,
          List.range s.numberServer.toNat ++ [s.numberServer.toNat]⟩ := by
  have listed : ((List.range s.numberServer.toNat).any fun i =>
      decide (addr.sinAddr = (s.fepServerAddr i).sinAddr)) =
        decide (addr.sinAddr ∈ s.entries.map SockaddrIn.sinAddr) := by
    rw [Bool.eq_iff_iff, List.any_eq_true, decide_eq_true_iff, ServerList.entries, List.map_map,
      List.mem_map]
    simp only [decide_eq_true_eq, Function.comp_apply, @eq_comm _ addr.sinAddr]
  rw [checkIpserver, foldl_found, Bool.false_or, listed]
  by_cases known : addr.sinAddr ∈ s.entries.map SockaddrIn.sinAddr
  · rw [if_pos known, decide_eq_true known]
    rfl
  · rw [if_neg known, decide_eq_false known]
    rfl

/-- A new entry goes behind the others. -/
theorem entries_snoc (addr : SockaddrIn) (room : s.numberServer.toNat < maxServerConnect) :
    (ServerList.mk (Function.update s.fepServerAddr s.numberServer.toNat addr)
      (s.numberServer + 1)).entries = s.entries ++ [addr] := by
  have five : maxServerConnect = 5 := rfl
  have next : (s.numberServer + 1).toNat = s.numberServer.toNat + 1 := by
    have one : (1 : UInt8).toNat = 1 := rfl
    rw [UInt8.toNat_add, one]
    omega
  have kept : ∀ i ∈ List.range s.numberServer.toNat,
      Function.update s.fepServerAddr s.numberServer.toNat addr i = s.fepServerAddr i :=
    fun i below => Function.update_of_ne (Nat.ne_of_lt (List.mem_range.mp below)) _ _
  rw [ServerList.entries, ServerList.entries, next, List.range_succ, List.map_append,
    List.map_congr_left kept, List.map_singleton]
  exact congrArg (fun last => _ ++ [last]) (Function.update_self _ _ _)

/-- A call acts as it should exactly if the address is listed or the list is not full. -/
theorem checkRight_iff (inOrder : s.InOrder) (addr : SockaddrIn) :
    CheckRight s addr (checkIpserver s addr).list ↔
      addr.sinAddr ∈ s.entries.map SockaddrIn.sinAddr ∨ s.entries.length < maxServerConnect := by
  have bounded := inOrder.bounded
  rw [length_entries] at bounded ⊢
  have scanned : ∀ i ∈ List.range s.numberServer.toNat, i < maxServerConnect :=
    fun i below => Nat.lt_of_lt_of_le (List.mem_range.mp below) bounded
  by_cases listed : addr.sinAddr ∈ s.entries.map SockaddrIn.sinAddr
  · have unchanged := checkIpserver_eq s addr
    rw [if_pos listed] at unchanged
    refine ⟨fun _ => .inl listed, fun _ => ?_⟩
    refine ⟨?_, ?_, ?_, ?_⟩ <;> rw [unchanged]
    · exact scanned
    · exact bounded
    · exact inOrder.nodup
    · exact (enter_listed listed).symm
  · have stored := checkIpserver_eq s addr
    rw [if_neg listed] at stored
    constructor
    · intro right
      have inside := right.inside s.numberServer.toNat
      rw [stored] at inside
      exact .inr (inside (List.mem_append_right _ List.mem_cons_self))
    · intro condition
      have room := condition.resolve_left listed
      have entered := enter_room listed (lt_of_eq_of_lt (length_entries s) room)
      have after := entries_snoc addr room
      have inOrder' := inOrder.enter (by decide) addr
      rw [entered, ← after] at inOrder'
      refine ⟨?_, ?_, ?_, ?_⟩ <;> rw [stored]
      · intro i member
        rcases List.mem_append.mp member with read | written
        · exact scanned i read
        · rw [List.mem_singleton.mp written]
          exact room
      · exact length_entries _ ▸ inOrder'.bounded
      · exact inOrder'.nodup
      · rw [after, entered]

/-! ## Runs -/

theorem CheckRight.inOrder {s' : ServerList} (right : CheckRight s addr s') : s'.InOrder :=
  ⟨(length_entries s').trans_le right.number, right.nodup⟩

theorem everyCheck_iff (inOrder : s.InOrder) (calls : List SockaddrIn) :
    serverLts.EveryStep CheckRight s calls ↔
      Roomy maxServerConnect SockaddrIn.sinAddr s.entries calls := by
  induction calls generalizing s with
  | nil => exact Iff.rfl
  | cons addr rest ih =>
      rw [Roomy, ← checkRight_iff inOrder addr]
      constructor
      · intro every
        obtain ⟨right, later⟩ := every _ rfl
        exact ⟨right, right.entered ▸ (ih right.inOrder).mp later⟩
      · intro roomy s' taken
        rcases roomy with ⟨right, later⟩
        cases taken
        exact ⟨right, (ih right.inOrder).mpr (right.entered ▸ later)⟩

/-- **The server list** is in order after start-up; and in a run of calls every call acts as it
should, exactly if no more than five different addresses occur, the configured server's included. -/
theorem server_list_iff (memory : Nat → SockaddrIn) (calls : List SockaddrIn) :
    (ServerList.start memory).InOrder ∧
      (serverLts.EveryStep CheckRight (ServerList.start memory) calls ↔
        (serverIpAddr :: calls.map SockaddrIn.sinAddr).toFinset.card ≤ maxServerConnect) := by
  have inOrder := inOrder_start memory
  refine ⟨inOrder, ?_⟩
  rw [everyCheck_iff inOrder, roomy_iff inOrder, entries_start]
  rfl

/-- The sixth address is stored behind the array. -/
theorem server_list_overrun :
    ¬ ∀ (memory : Nat → SockaddrIn) (calls : List SockaddrIn),
      serverLts.EveryStep CheckRight (ServerList.start memory) calls := by
  intro claim
  let client : UInt32 → SockaddrIn := fun ip => ⟨16, afInet, 0, ip⟩
  let before : List SockaddrIn := [client 1, client 2, client 3, client 4]
  have every := claim (fun _ => configuredSockaddr) (before ++ [client 5])
  have full : (serverLts.exec (.start fun _ => configuredSockaddr) before).any
      fun s => (checkIpserver s (client 5)).accesses.contains 5 = true := by decide
  obtain ⟨s, executed, sixth⟩ := (Option.any_eq_true _ _).mp full
  have right := Lts.EveryStep.last every executed rfl
  exact absurd (right.inside 5 (List.contains_iff_mem.mp (of_decide_eq_true sixth))) (by decide)

end FepMaster

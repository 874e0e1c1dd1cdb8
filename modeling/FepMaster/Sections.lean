import FepMaster.Moves

/-!
# Sections nobody interrupts

A task that runs through its section without being interrupted computes the function that
`FepMaster.TableUpdates` and `FepMaster.Report` give for the whole section: the handler
`applyReply`, the poller `countStep` and `endOfCycleCheck`, the server task `sendGetValue`.
-/

namespace FepMaster

open Transition

/-- The memory with another table. -/
def Shared.withTable (s : Shared) (t : DevTable) : Shared := { s with fepDevList := t }

/-! ## The handler -/

/-- The handler with the lock free applies the packet it has dequeued. -/
theorem handler_section {s : Shared} {p : FepPacket} {poller : PollerPc} {udp : UdpPc}
    (free : s.fepDevListSem = none) :
    masterLts.Leads (.handler false) ⟨s, .take p, poller, udp⟩
      ⟨s.withTable (applyReply s.uart.dataBuff p s.fepDevList), .receive, poller, udp⟩ := by
  rcases s with ⟨uart, queue, table, sem, getData, sendUdp⟩
  subst free
  by_cases value : valueWord (dataBuff3 uart.dataBuff) (dataBuff4 uart.dataBuff) = 0xFFFF
  · refine ⟨8, ?_⟩
    simp [List.replicate, Lts.exec, masterLts, Master.step, handlerStep, Shared.xSemaphoreTake,
      Shared.write, Shared.xSemaphoreGive, Shared.withTable, applyReply, value]
  · refine ⟨13, ?_⟩
    simp [List.replicate, Lts.exec, masterLts, Master.step, handlerStep, Shared.xSemaphoreTake,
      Shared.write, Shared.xSemaphoreGive, Shared.withTable, applyReply, value]

/-- The handler that gives up on the lock has changed nothing. -/
theorem handler_refused {s : Shared} {p : FepPacket} {poller : PollerPc} {udp : UdpPc} {t : Task}
    (taken : s.fepDevListSem = some t) :
    masterLts.Leads (.handler true) ⟨s, .take p, poller, udp⟩ ⟨s, .receive, poller, udp⟩ := by
  rcases s with ⟨uart, queue, table, sem, getData, sendUdp⟩
  subst taken
  exact .step rfl (.refl _)

/-! ## Sweeps over the slots -/

/-- A loop over the slots whose iteration `i` turns `b` into `body b i`. -/
theorem sweep {β : Type} {a : Act} (head : Polled → β → Master) (last : β → Master)
    (body : β → Polled → β)
    (iteration : ∀ i b, masterLts.Leads a (head i b)
      (match i.next with
        | some k => head k (body b i)
        | none => last (body b i)))
    (i : Polled) (b : β) :
    masterLts.Leads a (head i b) (last ((polledSlots.drop i.val).foldl body b)) := by
  -- on the number of iterations left
  suffices claim : ∀ left, ∀ i : Polled, i.val + left = 5 → ∀ b,
      masterLts.Leads a (head i b) (last ((polledSlots.drop i.val).foldl body b)) by
    exact claim (5 - i.val) i (by omega) b
  intro left
  induction left with
  | zero =>
      intro i final b
      obtain rfl : i = 5 := Fin.ext final
      exact iteration 5 b
  | succ left ih =>
      intro i more b
      have bound : i.val + 1 < 6 := by omega
      have next : i.next = some ⟨i.val + 1, bound⟩ := dif_pos bound
      have here := iteration i b
      rw [next] at here
      have rest : polledSlots.drop i.val = i :: polledSlots.drop (i.val + 1) := by
        rw [List.drop_eq_getElem_cons (by simp [polledSlots])]
        simp [polledSlots]
      rw [rest, List.foldl_cons]
      exact here.trans (ih ⟨i.val + 1, bound⟩ (by simp only; omega) (body b i))

/-! ## The poller -/

/-- The poller with the lock free counts the slot. -/
theorem poller_count_section {s : Shared} {handler : HandlerPc} {udp : UdpPc} {i : Polled}
    (free : s.fepDevListSem = none) :
    masterLts.Leads (.poller false) ⟨s, handler, .take i, udp⟩
      ⟨s.withTable (countStep true i s.fepDevList), handler, .afterCount i, udp⟩ := by
  rcases s with ⟨uart, queue, table, sem, getData, sendUdp⟩
  subst free
  exact .step rfl (.step rfl (.step rfl (.step rfl (.refl _))))

/-- One iteration of the end-of-cycle check. -/
theorem poller_check_slot (s : Shared) (handler : HandlerPc) (udp : UdpPc) (i : Polled) :
    masterLts.Leads (.poller false) ⟨s, handler, .clearNew i, udp⟩
      ⟨s.withTable (checkSlot s.fepDevList i), handler, .afterCheck i, udp⟩ := by
  let mid := s.write i.slot fun d => { d with newData := inactive }
  have cleared : masterLts.step ⟨s, handler, .clearNew i, udp⟩ (.poller false) =
      some ⟨mid, handler, .test i, udp⟩ := rfl
  refine .step cleared ?_
  by_cases late : (mid.fepDevList i.slot).receCount > 10
  · have test : masterLts.step ⟨mid, handler, .test i, udp⟩ (.poller false) =
        some ⟨mid, handler, .setInactive i, udp⟩ := by
      simp [masterLts, Master.step, pollerStep, late]
    have checked : checkSlot s.fepDevList i =
        (mid.write i.slot fun d => { d with status := inactive }).fepDevList := if_pos late
    rw [checked]
    exact .step test (.step rfl (.refl _))
  · have test : masterLts.step ⟨mid, handler, .test i, udp⟩ (.poller false) =
        some ⟨mid, handler, .afterCheck i, udp⟩ := by
      simp [masterLts, Master.step, pollerStep, late]
    have checked : checkSlot s.fepDevList i = mid.fepDevList := if_neg late
    rw [checked]
    exact .step test (.refl _)

/-- The end-of-cycle check of all slots. -/
theorem poller_check_section (s : Shared) (handler : HandlerPc) (udp : UdpPc) :
    masterLts.Leads (.poller false) ⟨s, handler, .clearNew .first, udp⟩
      ⟨s.withTable (endOfCycleCheck s.fepDevList), handler, .clearGetData, udp⟩ := by
  refine sweep (fun i t => ⟨s.withTable t, handler, .clearNew i, udp⟩)
    (fun t => ⟨s.withTable t, handler, .clearGetData, udp⟩) checkSlot ?_ .first s.fepDevList
  intro i t
  have iteration := poller_check_slot (s.withTable t) handler udp i
  unfold PollerPc.afterCheck at iteration
  cases next : i.next with
  | some k => rw [next] at iteration; exact iteration
  | none => rw [next] at iteration; exact iteration

/-! ## The server task -/

/-- One iteration of the loop of `SendGetValue`. -/
theorem udp_slot (s : Shared) (handler : HandlerPc) (poller : PollerPc)
    (stack buff : Vector UInt8 100) (j : Nat) (i : Polled) :
    masterLts.Leads (.udp false stack) ⟨s, handler, poller, .readStatus buff j i⟩
      ⟨s, handler, poller, .afterSlot (writeEntry s.fepDevList (buff, j) i).1
        (writeEntry s.fepDevList (buff, j) i).2 i⟩ := by
  by_cases online : (s.fepDevList i.slot).status = active
  · have test : masterLts.step ⟨s, handler, poller, .readStatus buff j i⟩ (.udp false stack) =
        some ⟨s, handler, poller, .readType buff j i⟩ := by
      simp [masterLts, Master.step, udpStep, online]
    simp only [writeEntry, online, ↓reduceIte]
    exact .step test (.step rfl (.step rfl (.step rfl (.step rfl (.refl _)))))
  · have test : masterLts.step ⟨s, handler, poller, .readStatus buff j i⟩ (.udp false stack) =
        some ⟨s, handler, poller, .afterSlot buff j i⟩ := by
      simp [masterLts, Master.step, udpStep, online]
    simp only [writeEntry, online, ↓reduceIte]
    exact .step test (.refl _)

/-- A call that obtains the free lock and is not interrupted sends the report of the table. -/
theorem udp_section {s : Shared} (handler : HandlerPc) (poller : PollerPc)
    (stack : Vector UInt8 100) (free : s.fepDevListSem = none) :
    ∃ pc, masterLts.Leads (.udp false stack) ⟨s, handler, poller, .call⟩ ⟨s, handler, poller, pc⟩ ∧
      pc.datagram = some (sendGetValue stack true s.fepDevList) := by
  rcases s with ⟨uart, queue, table, sem, getData, sendUdp⟩
  subst free
  let held : Shared := ⟨uart, queue, table, some .udp, getData, sendUdp⟩
  let final := polledSlots.foldl (writeEntry table) (startReport stack, 0)
  have loop : masterLts.Leads (.udp false stack)
      ⟨held, handler, poller, .readStatus (startReport stack) 0 .first⟩
      ⟨held, handler, poller, .give final.1 final.2⟩ := by
    refine sweep
      (fun i (b : Vector UInt8 100 × Nat) => ⟨held, handler, poller, .readStatus b.1 b.2 i⟩)
      (fun b => ⟨held, handler, poller, .give b.1 b.2⟩) (writeEntry table) ?_ .first
      (startReport stack, 0)
    intro i b
    have iteration := udp_slot held handler poller stack b.1 b.2 i
    unfold UdpPc.afterSlot at iteration
    cases next : i.next with
    | some k => rw [next] at iteration; exact iteration
    | none => rw [next] at iteration; exact iteration
  refine ⟨_, .step rfl (.step rfl (loop.trans (.step rfl (.refl _)))), ?_⟩
  have report : sendGetValue stack true table = finishReport final.1 final.2 := by
    simp only [sendGetValue, ↓reduceIte, final]
  exact congrArg some report.symm

/-- A call that gives up on the lock sends the report of no slot. -/
theorem udp_refused {s : Shared} (handler : HandlerPc) (poller : PollerPc)
    (stack : Vector UInt8 100) {t : Task} (taken : s.fepDevListSem = some t) :
    ∃ x pc, masterLts.step ⟨s, handler, poller, .call⟩ (.udp false stack) = some x ∧
      masterLts.step x (.udp true stack) = some ⟨s, handler, poller, pc⟩ ∧
        pc.datagram = some (sendGetValue stack false s.fepDevList) := by
  rcases s with ⟨uart, queue, table, sem, getData, sendUdp⟩
  subst taken
  exact ⟨_, _, rfl, rfl, rfl⟩

end FepMaster

import FepMaster.TransmitDescriptors

/-!
# What the DMA sends

Runs of `ethTxLts`.  `Phase` says what holds at each place of a call beside the ring: what is
copied, how many descriptors are left to hand over, and what the DMA has taken and will take of the
frames that were accepted.  From it: what is sent is what was accepted (`transmit_integrity`),
nothing accepted stays behind (`transmit_drains`), and what is dropped was dropped for want of the
semaphore or of descriptors (`transmit_drops`).
-/

namespace FepMaster

open Transition Register Ring Memory Chunk

namespace EthTx

/-! ## The phases of a call -/

/-- The next segment goes to position `base`, and what was accepted has been or will be taken. -/
structure Settled (s : EthTx) (h : TxLog) (head base : Nat) (queued : List TxSegment) : Prop where
  back : head + queued.length = base
  toSet : s.dmaTxDescToSet = slot ethTxBufNb base
  log : h.taken ++ queued = h.accepted.flatMap segments

theorem Settled.frame {s s' : EthTx} {h : TxLog} {head base : Nat} {queued : List TxSegment}
    (settled : s.Settled h head base queued) (same : s'.dmaTxDescToSet = s.dmaTxDescToSet) :
    s'.Settled h head base queued :=
  ⟨settled.back, same.trans settled.toSet, settled.log⟩

/-- The frame of the call in progress. -/
structure Called (h : TxLog) (frame : List UInt8) : Prop where
  sending : h.sending = frame
  sublist : (h.accepted ++ [frame]).Sublist h.calls
  fits : frame.length ≤ ethTxBufNb * ethTxBufSize

theorem Called.accepted {h : TxLog} {frame : List UInt8} (called : Called h frame) :
    h.accepted.Sublist h.calls :=
  (List.sublist_append_left ..).trans called.sublist

/-- The DMA suspends itself only when it has taken all. -/
def Awake (s : EthTx) (queued : List TxSegment) : Prop := s.suspended = true → queued = []

/-- What holds at a place of a call. -/
def Phase (s : EthTx) (h : TxLog) (head base : Nat) (queued : List TxSegment) : TxPc → Prop
  | .idle => s.Settled h head base queued ∧ s.Awake queued ∧ h.accepted.Sublist h.calls
  | .pbuf q l =>
      s.Settled h head base queued ∧ s.Awake queued ∧
        ∃ c done, Called h (done ++ q.flatten) ∧ Copied s.txBuff base c done l ∧
          (c = 0 ∨ 0 < l.bufferoffset) ∧ (done = [] ∨ base + c < head + ethTxBufNb)
  | .next payload q l =>
      s.Settled h head base queued ∧ s.Awake queued ∧
        ∃ c done, Called h (done ++ (payload.drop (ethTxBufSize - l.bufferoffset) ++ q.flatten)) ∧
          payload.drop (ethTxBufSize - l.bufferoffset) ≠ [] ∧
          l.dmaTxDesc = slot ethTxBufNb (base + (c + 1)) ∧ base + c < head + ethTxBufNb ∧
          Copied s.txBuff base c done {
            dmaTxDesc := slot ethTxBufNb (base + c)
            bufferoffset := ethTxBufSize
            framelength := (l.framelength + (ethTxBufSize - l.bufferoffset)) % 65536 }
  | .give frameLength count i d =>
      ∃ frame, frameLength = frame.length ∧ count = bufCount frame.length ∧ i < count ∧
        d = slot ethTxBufNb (base + i) ∧ head + queued.length = base + i ∧
        base + count ≤ head + ethTxBufNb ∧ Stored ethTxBufSize s.txBuff base frame count ∧
        h.taken ++ queued ++ (segments frame).drop i = h.accepted.flatMap segments ∧
        h.accepted.Sublist h.calls
  | .resume => s.Settled h head base queued ∧ h.accepted.Sublist h.calls

/-- The invariant. -/
def TxInv (s : EthTx) (h : TxLog) : Prop :=
  ∃ head base queued, s.Ready head queued ∧ s.Phase h head base queued s.pc

variable {s s' : EthTx} {h : TxLog} {head base c : Nat} {queued : List TxSegment}
  {done payload : List UInt8} {q : List (List UInt8)} {l : TxLocals} {flags : Word}

theorem txInv_start (memory : Fin ethTxBufNb → Word) (txBuff : Fin ethTxBufNb → Nat → UInt8) :
    TxInv (start memory txBuff) .empty := by
  have chained : Chained (start memory txBuff).dmaTxDscrTab := descChainInit_chained _ _
  have free (d : Fin ethTxBufNb) : (start memory txBuff).given d = none := by
    rw [given_eq_none]
    show isSet ethDmaTxDescOwn (ethDmaTxDescTch ||| ethDmaTxDescChecksum) = false
    decide
  refine ⟨0, 0, [], ⟨chained, rfl, .empty free 0, fun suspended => suspended⟩, ?_⟩
  exact ⟨⟨rfl, rfl, rfl⟩, fun _ => rfl, List.Sublist.refl _⟩

/-! ## What was dropped -/

/-- What holds of the call does not depend on the calls that were dropped. -/
theorem Phase.logged {h' : TxLog} {pc : TxPc} (phase : s.Phase h head base queued pc)
    (calls : h.calls.Sublist h'.calls) (sending : h'.sending = h.sending)
    (accepted : h'.accepted = h.accepted) (taken : h'.taken = h.taken) :
    s.Phase h' head base queued pc := by
  have settle (settled : s.Settled h head base queued) : s.Settled h' head base queued := by
    refine ⟨settled.back, settled.toSet, ?_⟩
    rw [taken, accepted]
    exact settled.log
  have called {frame : List UInt8} (called : Called h frame) : Called h' frame := by
    refine ⟨sending.trans called.sending, ?_, called.fits⟩
    rw [accepted]
    exact called.sublist.trans calls
  have ordered (sublist : h.accepted.Sublist h.calls) : h'.accepted.Sublist h'.calls := by
    rw [accepted]
    exact sublist.trans calls
  cases pc with
  | idle =>
      obtain ⟨settled, awake, sublist⟩ := phase
      exact ⟨settle settled, awake, ordered sublist⟩
  | pbuf q l =>
      obtain ⟨settled, awake, c, done, frame, rest⟩ := phase
      exact ⟨settle settled, awake, c, done, called frame, rest⟩
  | next payload q l =>
      obtain ⟨settled, awake, c, done, frame, rest⟩ := phase
      exact ⟨settle settled, awake, c, done, called frame, rest⟩
  | give frameLength count i d =>
      obtain ⟨frame, total, number, below, desc, back, room, stored, log, sublist⟩ := phase
      refine ⟨frame, total, number, below, desc, back, room, stored, ?_, ordered sublist⟩
      rw [taken, accepted]
      exact log
  | resume =>
      obtain ⟨settled, sublist⟩ := phase
      exact ⟨settle settled, ordered sublist⟩

theorem TxInv.logged {h' : TxLog} (inv : TxInv s h) (calls : h.calls.Sublist h'.calls)
    (sending : h'.sending = h.sending) (accepted : h'.accepted = h.accepted)
    (taken : h'.taken = h.taken) : TxInv s h' := by
  obtain ⟨head, base, queued, ready, phase⟩ := inv
  exact ⟨head, base, queued, ready, phase.logged calls sending accepted taken⟩

/-! ## The DMA -/

/-- Taking a segment does not change what holds of the call. -/
theorem Phase.take {segment : TxSegment} {pc : TxPc}
    (phase : s.Phase h head base (segment :: queued) pc) (running : s.suspended = false) :
    (s.dmaTake flags).Phase { h with taken := h.taken ++ [segment] } (head + 1) base queued pc := by
  have length : head + (segment :: queued).length = head + 1 + queued.length := by
    rw [List.length_cons]
    omega
  have awake : (s.dmaTake flags).Awake queued := fun suspended => by
    have off : (s.dmaTake flags).suspended = false := running
    rw [off] at suspended
    cases suspended
  have settle (settled : s.Settled h head base (segment :: queued)) :
      (s.dmaTake flags).Settled { h with taken := h.taken ++ [segment] } (head + 1) base queued := by
    refine ⟨length.symm.trans settled.back, settled.toSet, ?_⟩
    rw [List.append_assoc]
    exact settled.log
  cases pc with
  | idle =>
      obtain ⟨settled, -, sublist⟩ := phase
      exact ⟨settle settled, awake, sublist⟩
  | pbuf q l =>
      obtain ⟨settled, -, c, done, called, copied, begun, room⟩ := phase
      exact ⟨settle settled, awake, c, done, ⟨called.sending, called.sublist, called.fits⟩, copied,
        begun, room.imp_right (by omega)⟩
  | next payload q l =>
      obtain ⟨settled, -, c, done, called, rest, desc, room, copied⟩ := phase
      exact ⟨settle settled, awake, c, done, ⟨called.sending, called.sublist, called.fits⟩, rest,
        desc, by omega, copied⟩
  | give frameLength count i d =>
      obtain ⟨frame, total, number, below, desc, back, room, stored, log, sublist⟩ := phase
      refine ⟨frame, total, number, below, desc, length.symm.trans back, by omega, stored, ?_,
        sublist⟩
      rw [← log]
      simp
  | resume =>
      obtain ⟨settled, sublist⟩ := phase
      exact ⟨settle settled, sublist⟩

/-- Nor does suspending with nothing left. -/
theorem Phase.suspend {pc : TxPc} (phase : s.Phase h head base [] pc) :
    Phase { s with suspended := true, tbus := true } h head base [] pc := by
  cases pc with
  | idle => exact ⟨phase.1.frame rfl, fun _ => rfl, phase.2.2⟩
  | pbuf q l => exact ⟨phase.1.frame rfl, fun _ => rfl, phase.2.2⟩
  | next payload q l => exact ⟨phase.1.frame rfl, fun _ => rfl, phase.2.2⟩
  | give frameLength count i d => exact phase
  | resume => exact ⟨phase.1.frame rfl, phase.2⟩

theorem TxInv.dma (inv : TxInv s h) (taken : s.dmaStep flags = some s') :
    TxInv s' (txLog.next h s (.dma flags) s') := by
  obtain ⟨head, base, queued, ready, phase⟩ := inv
  obtain ⟨running, found | ⟨free, rfl⟩⟩ := dmaStep_cases taken
  · obtain ⟨owned, rfl⟩ := found
    obtain ⟨rest, rfl, later⟩ := ready.take owned flags
    have log : txLog.next h s (.dma flags) (s.dmaTake flags) =
        { h with taken := h.taken ++ [s.segment s.dma] } := if_pos owned
    rw [log]
    exact ⟨head + 1, base, rest, later, phase.take running⟩
  · obtain ⟨rfl, later⟩ := ready.suspend free
    have log : txLog.next h s (.dma flags) { s with suspended := true, tbus := true } = h :=
      if_neg (Bool.eq_false_iff.mp free)
    rw [log]
    exact ⟨head, base, [], later, phase.suspend⟩

/-! ## The call -/

theorem Ready.withPc (ready : s.Ready head queued) (pc : TxPc) :
    Ready { s with pc := pc } head queued :=
  ⟨ready.chained, ready.dma, ready.queue, ready.unavailable⟩

theorem Ready.memcpy (ready : s.Ready head queued) {d : Fin ethTxBufNb} (free : s.owned d = false)
    (offset : Nat) (data : List UInt8) : (s.memcpy d offset data).Ready head queued where
  chained := ready.chained
  dma := ready.dma
  queue := by
    rw [given_memcpy ready.chained free]
    exact ready.queue
  unavailable := ready.unavailable

/-- A descriptor of the next ones that is free is within the round. -/
theorem Ready.within (ready : s.Ready head queued) (back : head + queued.length = base)
    (small : c < ethTxBufNb) (free : s.owned (slot ethTxBufNb (base + c)) = false) :
    base + c < head + ethTxBufNb := by
  rw [← back] at free
  have inside := ready.queue.within small (given_eq_none.mpr free)
  omega

/-- Part of a pbuf is copied into a descriptor that is free. -/
theorem Phase.copyPayload (ready : s.Ready head queued)
    (settled : s.Settled h head base queued) (awake : s.Awake queued)
    (called : Called h (done ++ (payload ++ q.flatten)))
    (copied : Copied s.txBuff base c done l) (free : s.owned l.dmaTxDesc = false)
    (progress : payload ≠ [] ∨ c = 0 ∨ 0 < l.bufferoffset) :
    (s.copyPayload payload q l).Ready head queued ∧
      (s.copyPayload payload q l).Phase h head base queued (s.copyPayload payload q l).pc := by
  have room := ready.within settled.back copied.small (copied.desc ▸ free)
  have within := copied.within
  unfold EthTx.copyPayload
  split_ifs with large
  · have length : (payload.take (ethTxBufSize - l.bufferoffset)).length =
        ethTxBufSize - l.bufferoffset := by
      rw [List.length_take]
      omega
    have filled := copied.memcpy ready.chained
      (payload.take (ethTxBufSize - l.bufferoffset)) (by rw [length]; omega)
    rw [length, Nat.add_sub_cancel' within] at filled
    refine ⟨(ready.memcpy free ..).withPc _, settled.frame rfl, awake, c,
      done ++ payload.take (ethTxBufSize - l.bufferoffset), ?_, ?_, ?_, room, ?_⟩
    · rw [List.append_assoc, ← List.append_assoc (payload.take _), List.take_append_drop]
      exact called
    · rw [ne_eq, List.drop_eq_nil_iff]
      show ¬payload.length ≤ ethTxBufSize - l.bufferoffset
      omega
    · show (s.dmaTxDscrTab l.dmaTxDesc).buffer2NextDescAddr = _
      rw [copied.desc, ready.chained.next, Nat.add_assoc]
    · rw [← copied.desc]
      exact filled
  · have fits := copied.memcpy ready.chained payload (by omega)
    refine ⟨(ready.memcpy free ..).withPc _, settled.frame rfl, awake, c, done ++ payload, ?_,
      fits, ?_, .inr room⟩
    · rw [List.append_assoc]
      exact called
    · show c = 0 ∨ 0 < l.bufferoffset + payload.length
      rcases progress with more | first | begun
      · exact .inr (Nat.add_pos_right _ (List.length_pos_of_ne_nil more))
      · exact .inl first
      · exact .inr (Nat.add_pos_left begun _)

/-- A step that does not accept the frame at most drops it. -/
theorem TxInv.cpu_log (inv : TxInv s' h) (unaccepted : s.accepts = false) :
    TxInv s' (txLog.next h s .cpu s') := by
  have log : txLog.next h s .cpu s' =
      if s'.pc = .idle ∧ s.pc ≠ .resume then
        { h with dropped := h.dropped ++ [(h.sending, .inUse s.freeDescs)] }
      else h := if_neg (Bool.eq_false_iff.mp unaccepted)
  rw [log]
  split_ifs
  · exact inv.logged (.refl _) rfl rfl rfl
  · exact inv

/-- A call that finds the next descriptor in use returns. -/
theorem Phase.refuse {frame : List UInt8} (settled : s.Settled h head base queued)
    (awake : s.Awake queued) (called : Called h frame) :
    Phase { s with pc := .idle } h head base queued .idle :=
  ⟨settled.frame rfl, awake, called.accepted⟩

theorem TxInv.output (inv : TxInv s h) {p : List (List UInt8)} {got : Bool}
    (taken : s.output p got = some s')
    (fits : got = true → p.flatten.length ≤ ethTxBufNb * ethTxBufSize) :
    TxInv s' (txLog.next h s (.output p got) s') := by
  cases got with
  | false =>
      cases taken
      exact inv.logged (List.sublist_append_left ..) rfl rfl rfl
  | true =>
      obtain ⟨head, base, queued, ready, phase⟩ := inv
      unfold EthTx.output at taken
      rw [if_pos rfl] at taken
      split_ifs at taken with idle
      rw [idle] at phase
      obtain ⟨settled, awake, sublist⟩ := phase
      cases taken
      refine ⟨head, base, queued, ready.withPc _, ⟨settled.back, settled.toSet, settled.log⟩, awake,
        0, [], ⟨rfl, sublist.append (.refl _), fits rfl⟩, copied_start s settled.toSet, .inl rfl,
        .inl rfl⟩

theorem TxInv.pbuf (ready : s.Ready head queued)
    (phase : s.Phase h head base queued (.pbuf (payload :: q) l)) :
    TxInv (if s.owned l.dmaTxDesc then { s with pc := .idle } else s.copyPayload payload q l) h := by
  obtain ⟨settled, awake, c, done, called, copied, begun, -⟩ := phase
  rw [List.flatten_cons] at called
  split_ifs with owned
  · exact ⟨head, base, queued, ready.withPc _, .refuse settled awake called⟩
  · exact ⟨head, base, queued, Phase.copyPayload ready settled awake called copied
      (Bool.eq_false_of_not_eq_true owned) (.inr begun)⟩

theorem TxInv.next (ready : s.Ready head queued)
    (phase : s.Phase h head base queued (.next payload q l)) :
    TxInv (if s.owned l.dmaTxDesc then { s with pc := .idle } else s.nextBuffer payload q l) h := by
  obtain ⟨settled, awake, c, done, called, more, desc, -, copied⟩ := phase
  split_ifs with owned
  · exact ⟨head, base, queued, ready.withPc _, .refuse settled awake called⟩
  · have small : c + 1 < ethTxBufNb := by
      have fits := called.fits
      have left := List.length_pos_of_ne_nil more
      have length : done.length = c * ethTxBufSize + ethTxBufSize := copied.length
      rw [List.length_append, List.length_append] at fits
      show c + 1 < 5
      change _ ≤ 5 * _ at fits
      rw [ethTxBufSize_eq] at *
      omega
    have next := copied.next rfl small
    rw [← desc] at next
    exact ⟨head, base, queued, Phase.copyPayload ready settled awake called next
      (Bool.eq_false_of_not_eq_true owned) (.inl more)⟩

/-- All is copied: the descriptors can be handed over. -/
theorem TxInv.prepare (ready : s.Ready head queued)
    (phase : s.Phase h head base queued (.pbuf [] l)) (free : s.owned s.dmaTxDescToSet = false) :
    TxInv { s with pc := .give l.framelength (bufCount l.framelength) 0 s.dmaTxDescToSet }
      { h with accepted := h.accepted ++ [h.sending] } := by
  obtain ⟨settled, -, c, done, called, copied, begun, room⟩ := phase
  rw [List.flatten_nil, List.append_nil] at called
  have count := bufCount_eq copied.length copied.within begun
  have first : base < head + ethTxBufNb := by
    rw [settled.toSet] at free
    exact ready.within settled.back (Nat.pos_of_neZero _) free
  have enough : base + (c + 1) ≤ head + ethTxBufNb := by
    rcases room with rfl | room
    · have none_copied : c = 0 := by
        have length := copied.length
        rw [ethTxBufSize_eq, List.length_nil] at length
        omega
      omega
    · omega
  refine ⟨head, base, queued, ready.withPc _, done, copied.framelength,
    copied.framelength ▸ rfl, ?_, settled.toSet, settled.back, ?_, ?_, ?_, ?_⟩
  · rw [copied.framelength]
    exact bufCount_pos _
  · rw [copied.framelength, count]
    exact enough
  · rw [copied.framelength, count]
    exact copied.stored
  · simp [settled.log, called.sending]
  · rw [called.sending]
    exact called.sublist

theorem TxInv.give {frameLength count i : Nat} {d : Fin ethTxBufNb} (ready : s.Ready head queued)
    (phase : s.Phase h head base queued (.give frameLength count i d)) :
    TxInv (s.giveDesc frameLength count i d) h := by
  obtain ⟨frame, rfl, rfl, below, desc, back, room, stored, log, sublist⟩ := phase
  have later := ready.give (back ▸ desc) (by omega) below (desc ▸ stored i below)
  have next : (s.dmaTxDscrTab d).buffer2NextDescAddr = slot ethTxBufNb (base + i + 1) := by
    rw [desc, ready.chained.next]
  have back' : head + (queued ++ [segmentOf frame i]).length = base + i + 1 := by
    rw [List.length_append, ← Nat.add_assoc, back]
    rfl
  rw [drop_segments below, List.append_cons, List.append_assoc h.taken] at log
  by_cases last : i + 1 = bufCount frame.length
  · obtain ⟨pc, toSet⟩ := giveDesc_last (s := s) (d := d) frame.length last
    have done : (segments frame).drop (i + 1) = [] := by
      rw [List.drop_eq_nil_iff, segments, List.length_map, List.length_range]
      omega
    rw [done, List.append_nil] at log
    refine ⟨head, base + i + 1, _, later, ?_⟩
    rw [pc]
    exact ⟨⟨back', toSet.trans next, log⟩, sublist⟩
  · refine ⟨head, base, _, later, ?_⟩
    rw [giveDesc_more last, next]
    refine ⟨frame, rfl, rfl, by omega, rfl, back', room, ?_, log, sublist⟩
    rw [giveDesc_txBuff]
    exact stored

theorem resume_running (ready : s.Ready head queued) :
    (if s.tbus then false else s.suspended) = false := by
  cases tbus : s.tbus with
  | true => rfl
  | false =>
      by_contra suspended
      have set := ready.unavailable (by simpa using suspended)
      rw [tbus] at set
      cases set

theorem TxInv.resume (ready : s.Ready head queued)
    (phase : s.Phase h head base queued .resume) :
    TxInv { s with
      pc := .idle, tbus := false, suspended := if s.tbus then false else s.suspended } h := by
  obtain ⟨settled, sublist⟩ := phase
  rw [resume_running ready]
  exact ⟨head, base, queued, ⟨ready.chained, ready.dma, ready.queue, fun set => by cases set⟩,
    settled.frame rfl, fun set => (by cases set), sublist⟩

theorem TxInv.cpu (inv : TxInv s h) (taken : s.lowLevelOutput = some s') :
    TxInv s' (txLog.next h s .cpu s') := by
  obtain ⟨head, base, queued, ready, phase⟩ := inv
  unfold EthTx.lowLevelOutput at taken
  cases pc : s.pc with
  | idle =>
      rw [pc] at taken
      cases taken
  | next payload q l =>
      refine TxInv.cpu_log ?_ (by unfold accepts; rw [pc])
      rw [pc] at taken phase
      exact Option.some.inj taken ▸ TxInv.next ready phase
  | give frameLength count i d =>
      refine TxInv.cpu_log ?_ (by unfold accepts; rw [pc])
      rw [pc] at taken phase
      exact Option.some.inj taken ▸ TxInv.give ready phase
  | resume =>
      refine TxInv.cpu_log ?_ (by unfold accepts; rw [pc])
      rw [pc] at taken phase
      exact Option.some.inj taken ▸ TxInv.resume ready phase
  | pbuf q l =>
      cases q with
      | cons payload q =>
          refine TxInv.cpu_log ?_ (by unfold accepts; rw [pc])
          rw [pc] at taken phase
          exact Option.some.inj taken ▸ TxInv.pbuf ready phase
      | nil =>
          have accepts : s.accepts = !s.owned s.dmaTxDescToSet := by
            unfold EthTx.accepts
            rw [pc]
          rw [pc] at taken phase
          rw [← Option.some.inj taken]
          split_ifs with owned
          · refine TxInv.cpu_log ?_ (by rw [accepts, owned]; rfl)
            obtain ⟨settled, awake, c, done, called, -⟩ := phase
            exact ⟨head, base, queued, ready.withPc _, .refuse settled awake called⟩
          · have free := Bool.eq_false_of_not_eq_true owned
            have log : txLog.next h s .cpu { s with
                pc := .give l.framelength (bufCount l.framelength) 0 s.dmaTxDescToSet } =
                { h with accepted := h.accepted ++ [h.sending] } :=
              if_pos (by rw [accepts, free]; rfl)
            rw [log]
            exact TxInv.prepare ready phase free

end EthTx

open EthTx

/-- The invariant holds in every run in which the frames fit into the ring. -/
theorem txInv_of_reached {x : EthTx × TxLog}
    (reached : (ethTxLts.watch txLog).ReachWhile FitsRing x) : TxInv x.1 x.2 := by
  apply Lts.ReachWhile.invariant_watched ?_ ?_ reached
  · intro s start
    obtain ⟨memory, txBuff, rfl⟩ := start
    exact txInv_start memory txBuff
  · intro s h a s' _ inv fits taken
    cases a with
    | output p got =>
        refine inv.output taken fun yes => ?_
        rw [yes] at fits
        exact fits
    | cpu => exact inv.cpu taken
    | dma flags => exact inv.dma taken

/-! ## Results -/

variable {x : EthTx × TxLog} {s s' : EthTx} {h : TxLog}

/-- What is taken and what is left are the segments of the frames accepted, some of those called
for. -/
theorem EthTx.TxInv.log (inv : TxInv s h) :
    (∃ rest, h.taken ++ rest = h.accepted.flatMap segments) ∧ h.accepted.Sublist h.calls := by
  obtain ⟨head, base, queued, -, phase⟩ := inv
  cases pc : s.pc with
  | idle =>
      rw [pc] at phase
      exact ⟨⟨queued, phase.1.log⟩, phase.2.2⟩
  | pbuf q l =>
      rw [pc] at phase
      obtain ⟨settled, -, c, done, called, -⟩ := phase
      exact ⟨⟨queued, settled.log⟩, called.accepted⟩
  | next payload q l =>
      rw [pc] at phase
      obtain ⟨settled, -, c, done, called, -⟩ := phase
      exact ⟨⟨queued, settled.log⟩, called.accepted⟩
  | give frameLength count i d =>
      rw [pc] at phase
      obtain ⟨frame, -, -, -, -, -, -, -, log, ordered⟩ := phase
      rw [List.append_assoc] at log
      exact ⟨⟨_, log⟩, ordered⟩
  | resume =>
      rw [pc] at phase
      exact ⟨⟨queued, phase.1.log⟩, phase.2⟩

/-- Between calls. -/
theorem EthTx.TxInv.idle (inv : TxInv s h) (idle : s.pc = .idle) :
    ∃ head queued, s.Ready head queued ∧ s.Awake queued ∧
      h.taken ++ queued = h.accepted.flatMap segments := by
  obtain ⟨head, base, queued, ready, phase⟩ := inv
  rw [idle] at phase
  exact ⟨head, queued, ready, phase.2.1, phase.1.log⟩

/-- In every run, what the DMA takes is the frames accepted, some of those called for: whole,
unchanged and in order; all of them, when no call is in progress and the DMA owns no descriptor. -/
theorem transmit_integrity (reached : (ethTxLts.watch txLog).ReachWhile FitsRing x) :
    x.2.accepted.Sublist x.2.calls ∧ reassemble [] x.2.taken <+: x.2.accepted ∧
      (x.1.pc = .idle → (∀ d, x.1.owned d = false) →
        reassemble [] x.2.taken = x.2.accepted) := by
  have inv := txInv_of_reached reached
  obtain ⟨⟨rest, log⟩, sublist⟩ := inv.log
  refine ⟨sublist, ?_, ?_⟩
  · have begun := reassemble_isPrefix [] x.2.taken rest
    rw [log, reassemble_flatMap_segments] at begun
    exact begun
  · intro idle free
    obtain ⟨head, queued, ready, -, all⟩ := inv.idle idle
    have front := ready.queue.front
    rw [given_eq_none.mpr (free _)] at front
    rw [List.head?_eq_none_iff.mp front.symm, List.append_nil] at all
    rw [all, reassemble_flatMap_segments]

/-- The first state over a blank memory. -/
def EthTx.blank : EthTx := .start (fun _ => 0) (fun _ _ => 0)

/-- A frame of two pbufs, copied and handed over. -/
def twoPbufs : List TxAct := [.output [[1, 2], [3]] true, .cpu, .cpu, .cpu, .cpu]

/-- The frame is sent. -/
theorem transmit_integrity_two_pbufs :
    ∃ x, (ethTxLts.watch txLog).ReachWhile FitsRing x ∧ reassemble [] x.2.taken = [[1, 2, 3]] ∧
      reassemble [] x.2.taken <+: x.2.accepted := by
  obtain ⟨x, reached, sent⟩ := Lts.exists_reachWhile_of_exec (L := ethTxLts.watch txLog) FitsRing
    (s := (EthTx.blank, .empty)) ⟨⟨_, _, rfl⟩, rfl⟩ (twoPbufs ++ [.dma 0, .cpu])
    (P := fun x => reassemble [] x.2.taken == [[1, 2, 3]]) (by decide)
  exact ⟨x, reached, beq_iff_eq.mp sent, (transmit_integrity reached).2.1⟩

/-- The DMA alone takes all that is queued. -/
theorem EthTx.Ready.drains {head : Nat} {queued : List TxSegment} (ready : s.Ready head queued)
    (awake : s.Awake queued) (h : TxLog) (flags : Word) :
    ∃ s', (ethTxLts.watch txLog).Leads (.dma flags) (s, h)
      (s', { h with taken := h.taken ++ queued }) := by
  induction queued generalizing s h head with
  | nil =>
      rw [List.append_nil]
      exact ⟨s, .refl _⟩
  | cons segment rest ih =>
      have running : s.suspended = false := by
        by_contra suspended
        cases awake (Bool.eq_true_of_not_eq_false suspended)
      have owned : s.owned s.dma = true := by
        by_contra free
        have front := ready.queue.front
        rw [← ready.dma, given_eq_none.mpr (Bool.eq_false_of_not_eq_true free)] at front
        cases front
      obtain ⟨rest', same, later⟩ := ready.take owned flags
      obtain ⟨rfl, rfl⟩ := List.cons_eq_cons.mp same
      have taken : s.dmaStep flags = some (s.dmaTake flags) := by
        unfold dmaStep
        rw [running, if_neg Bool.false_ne_true, if_pos owned]
      have log : txLog.next h s (.dma flags) (s.dmaTake flags) =
          { h with taken := h.taken ++ [s.segment s.dma] } := if_pos owned
      have moved : (ethTxLts.watch txLog).step (s, h) (.dma flags) = some (s.dmaTake flags,
          { h with taken := h.taken ++ [s.segment s.dma] }) :=
        Lts.watch_step_iff.mpr ⟨taken, log.symm⟩
      have awake' : (s.dmaTake flags).Awake rest := fun suspended =>
        absurd running (Bool.eq_false_iff.not.mpr (not_not.mpr suspended))
      obtain ⟨s', drained⟩ := ih later awake' { h with taken := h.taken ++ [s.segment s.dma] }
      refine ⟨s', .step moved ?_⟩
      rw [List.append_cons h.taken (s.segment s.dma) rest]
      exact drained

/-- Whenever no call is in progress, a DMA that is suspended owns nothing, and steps of the DMA
alone lead to a state where all that was accepted is sent. -/
theorem transmit_drains (reached : (ethTxLts.watch txLog).ReachWhile FitsRing x)
    (idle : x.1.pc = .idle) (flags : Word) :
    (x.1.suspended = true → ∀ d, x.1.owned d = false) ∧
      ∃ x', (ethTxLts.watch txLog).Leads (.dma flags) x x' ∧
        x'.2.accepted = x.2.accepted ∧ reassemble [] x'.2.taken = x.2.accepted := by
  obtain ⟨head, queued, ready, awake, log⟩ := (txInv_of_reached reached).idle idle
  constructor
  · intro suspended d
    have queue := ready.queue
    rw [awake suspended] at queue
    exact given_eq_none.mp (queue.vacant d)
  · obtain ⟨s', drained⟩ := ready.drains awake x.2 flags
    refine ⟨_, drained, rfl, ?_⟩
    dsimp only
    rw [log, reassemble_flatMap_segments]

/-- The DMA has suspended itself before the frame, and is resumed. -/
theorem transmit_drains_two_pbufs :
    ∃ x, (ethTxLts.watch txLog).ReachWhile FitsRing x ∧ x.2.taken = [] ∧
      x.2.accepted = [[1, 2, 3]] ∧ ∃ x', (ethTxLts.watch txLog).Leads (.dma 0) x x' ∧
        reassemble [] x'.2.taken = x.2.accepted := by
  obtain ⟨x, reached, queued⟩ := Lts.exists_reachWhile_of_exec (L := ethTxLts.watch txLog) FitsRing
    (s := (EthTx.blank, .empty)) ⟨⟨_, _, rfl⟩, rfl⟩ (.dma 0 :: twoPbufs ++ [.cpu])
    (P := fun x => decide (x.1.pc = .idle ∧ x.2.taken = [] ∧ x.2.accepted = [[1, 2, 3]]))
    (by decide)
  obtain ⟨idle, taken, accepted⟩ := of_decide_eq_true queued
  obtain ⟨-, x', drained, -, sent⟩ := transmit_drains reached idle 0
  exact ⟨x, reached, taken, accepted, x', drained, sent⟩

/-! ## Frames dropped -/

theorem EthTx.Ready.freeDescs_le {head : Nat} {queued : List TxSegment}
    (ready : s.Ready head queued) : s.freeDescs ≤ ethTxBufNb - queued.length := by
  have card := ready.queue.card_vacant_le
  simp only [given_eq_none] at card
  exact card

/-- A descriptor that the DMA owns is a round ahead of it at least. -/
theorem EthTx.Ready.occupied {head base c : Nat} {queued : List TxSegment}
    (ready : s.Ready head queued) (back : head + queued.length = base)
    (owned : s.owned (slot ethTxBufNb (base + c)) = true) : head + ethTxBufNb ≤ base + c := by
  by_contra inside
  have vacant := ready.queue.cell (queued.length + c) (by omega)
  rw [List.getElem?_eq_none (Nat.le_add_right ..), ← Nat.add_assoc, back, given_eq_none,
    owned] at vacant
  cases vacant

/-- The frame of the call in progress is being copied. -/
def TxPc.copying : TxPc → Bool
  | .pbuf .. => true
  | .next .. => true
  | _ => false

theorem copyPayload_copying (payload : List UInt8) (q : List (List UInt8)) (l : TxLocals) :
    (s.copyPayload payload q l).pc.copying = true := by
  unfold EthTx.copyPayload
  split_ifs <;> rfl

theorem copyPayload_ne_idle (payload : List UInt8) (q : List (List UInt8)) (l : TxLocals) :
    (s.copyPayload payload q l).pc ≠ .idle := by
  intro idle
  have copying := copyPayload_copying (s := s) payload q l
  rw [idle] at copying
  cases copying

theorem copying_idle : TxPc.idle.copying = false := rfl

/-- A descriptor that the call needs now is in use. -/
def EthTx.inUse (s : EthTx) : Prop :=
  (∃ payload q l, s.pc = .next payload q l ∧ s.owned l.dmaTxDesc = true) ∨
    ∃ q l, s.pc = .pbuf q l ∧ (s.owned l.dmaTxDesc = true ∨ s.owned s.dmaTxDescToSet = true)

/-- A step of a call starts to hand its frame over, or returns because a descriptor is in use, or
goes on. -/
theorem lowLevelOutput_cases (taken : s.lowLevelOutput = some s') :
    (s.accepts = true ∧ s.pc.copying = true ∧ s'.pc.copying = false) ∨
      (s.accepts = false ∧ s.pc.copying = true ∧ s'.pc = .idle ∧ s.inUse) ∨
      (s.accepts = false ∧ s'.pc.copying = s.pc.copying ∧ (s'.pc = .idle → s.pc = .resume)) := by
  unfold EthTx.lowLevelOutput at taken
  unfold EthTx.accepts EthTx.inUse
  cases pc : s.pc with
  | idle =>
      rw [pc] at taken
      cases taken
  | next payload q l =>
      rw [pc] at taken
      have same := Option.some.inj taken
      split_ifs at same with owned
      · exact .inr (.inl ⟨rfl, rfl, same ▸ rfl, .inl ⟨payload, q, l, rfl, owned⟩⟩)
      · rw [← same]
        exact .inr (.inr ⟨rfl, copyPayload_copying .., fun idle =>
          absurd idle (copyPayload_ne_idle _ _ _)⟩)
  | give frameLength count i d =>
      rw [pc] at taken
      have same := Option.some.inj taken
      rw [← same]
      unfold giveDesc
      split_ifs
      · exact .inr (.inr ⟨rfl, rfl, fun idle => by cases idle⟩)
      · exact .inr (.inr ⟨rfl, rfl, fun idle => by cases idle⟩)
  | resume =>
      rw [pc] at taken
      have same := Option.some.inj taken
      exact .inr (.inr ⟨rfl, same ▸ rfl, fun _ => rfl⟩)
  | pbuf q l =>
      cases q with
      | cons payload q =>
          rw [pc] at taken
          have same := Option.some.inj taken
          split_ifs at same with owned
          · exact .inr (.inl ⟨rfl, rfl, same ▸ rfl, .inr ⟨_, l, rfl, .inl owned⟩⟩)
          · rw [← same]
            exact .inr (.inr ⟨rfl, copyPayload_copying .., fun idle =>
              absurd idle (copyPayload_ne_idle _ _ _)⟩)
      | nil =>
          rw [pc] at taken
          have same := Option.some.inj taken
          split_ifs at same with owned
          · exact .inr (.inl ⟨by rw [owned]; rfl, rfl, same ▸ rfl, .inr ⟨_, l, rfl, .inr owned⟩⟩)
          · exact .inl ⟨by rw [Bool.eq_false_of_not_eq_true owned]; rfl, rfl, same ▸ rfl⟩

/-- A call that finds a descriptor in use needs more descriptors than are free. -/
theorem EthTx.TxInv.refused (inv : TxInv s h) (inUse : s.inUse) :
    s.freeDescs < bufCount h.sending.length := by
  obtain ⟨head, base, queued, ready, phase⟩ := inv
  have few := ready.freeDescs_le
  rcases inUse with next | pbuf
  · rcases next with ⟨payload, q, l, pc, owned⟩
    rw [pc] at phase
    obtain ⟨settled, -, c, done, ⟨sending, -⟩, more, desc, -, copied⟩ := phase
    rw [sending]
    rw [desc] at owned
    have occupied := ready.occupied settled.back owned
    have left := List.length_pos_of_ne_nil more
    have length : done.length = c * ethTxBufSize + ethTxBufSize := copied.length
    have back := settled.back
    have needed : c + 1 < bufCount
        (done ++ (payload.drop (ethTxBufSize - l.bufferoffset) ++ q.flatten)).length := by
      have covers := (bufCount_bounds
        (done ++ (payload.drop (ethTxBufSize - l.bufferoffset) ++ q.flatten)).length).2
      by_contra less
      have most := Nat.mul_le_mul_right ethTxBufSize (Nat.not_lt.mp less)
      rw [List.length_append, List.length_append] at covers most
      rw [Nat.succ_mul] at most
      omega
    omega
  · rcases pbuf with ⟨q, l, pc, owned⟩
    rw [pc] at phase
    obtain ⟨settled, -, c, done, ⟨sending, -⟩, copied, -, room⟩ := phase
    rw [sending]
    have back := settled.back
    have full : head + ethTxBufNb ≤ base := by
      rcases owned with owned | owned
      · rw [copied.desc] at owned
        have occupied := ready.occupied back owned
        rcases room with rfl | room
        · have first : c = 0 := by
            have length := copied.length
            rw [ethTxBufSize_eq, List.length_nil] at length
            omega
          omega
        · omega
      · rw [settled.toSet] at owned
        exact ready.occupied (c := 0) back owned
    have positive := bufCount_pos (done ++ q.flatten).length
    omega

theorem perm_append_right_comm (first second third : List (List UInt8)) :
    (first ++ second ++ third).Perm (first ++ third ++ second) := by
  rw [List.append_assoc, List.append_assoc]
  exact List.perm_append_comm.append_left first

/-- What becomes of the frames: each is accepted, dropped, or being copied; and those dropped by a
call that had the semaphore needed more descriptors than were free. -/
structure TxAccounted (s : EthTx) (h : TxLog) : Prop where
  few : ∀ frame free, (frame, TxDrop.inUse free) ∈ h.dropped → free < bufCount frame.length
  all : h.calls.Perm
    (h.accepted ++ h.dropped.map Prod.fst ++ if s.pc.copying then [h.sending] else [])

theorem TxAccounted.output (accounted : TxAccounted s h) {p : List (List UInt8)} {got : Bool}
    (taken : s.output p got = some s') : TxAccounted s' (txLog.next h s (.output p got) s') := by
  have all := accounted.all.append_right [p.flatten]
  cases got with
  | false =>
      cases taken
      refine ⟨fun frame free member => ?_, ?_⟩
      · rcases List.mem_append.mp member with before | here
        · exact accounted.few frame free before
        · cases List.mem_singleton.mp here
      · show (h.calls ++ [p.flatten]).Perm
          (h.accepted ++ (h.dropped ++ [(p.flatten, TxDrop.timedOut)]).map Prod.fst ++
            if s.pc.copying then [h.sending] else [])
        rw [List.map_append, ← List.append_assoc h.accepted]
        exact all.trans (perm_append_right_comm ..)
  | true =>
      unfold EthTx.output at taken
      rw [if_pos rfl] at taken
      split_ifs at taken with idle
      cases taken
      refine ⟨accounted.few, ?_⟩
      rw [idle] at all
      rw [copying_idle, if_neg Bool.false_ne_true, List.append_nil] at all
      exact all

theorem TxAccounted.cpu (accounted : TxAccounted s h) (inv : TxInv s h)
    (taken : s.lowLevelOutput = some s') : TxAccounted s' (txLog.next h s .cpu s') := by
  have all := accounted.all
  rcases lowLevelOutput_cases taken with accepted | refused | goesOn
  · obtain ⟨accepts, copying, done⟩ := accepted
    have log : txLog.next h s .cpu s' = { h with accepted := h.accepted ++ [h.sending] } :=
      if_pos accepts
    rw [log]
    refine ⟨accounted.few, ?_⟩
    rw [copying, if_pos rfl] at all
    rw [done, if_neg Bool.false_ne_true, List.append_nil]
    exact all.trans (perm_append_right_comm ..)
  · obtain ⟨unaccepted, copying, returned, inUse⟩ := refused
    have unsent : s.pc ≠ .resume := by
      intro resume
      rw [resume] at copying
      cases copying
    have log : txLog.next h s .cpu s' =
        { h with dropped := h.dropped ++ [(h.sending, .inUse s.freeDescs)] } :=
      (if_neg (Bool.eq_false_iff.mp unaccepted)).trans (if_pos ⟨returned, unsent⟩)
    rw [log]
    refine ⟨fun frame free member => ?_, ?_⟩
    · rcases List.mem_append.mp member with before | here
      · exact accounted.few frame free before
      · cases List.mem_singleton.mp here
        exact inv.refused inUse
    · rw [copying, if_pos rfl] at all
      rw [returned, copying_idle, if_neg Bool.false_ne_true, List.append_nil, List.map_append,
        ← List.append_assoc h.accepted]
      exact all
  · obtain ⟨unaccepted, same, returns⟩ := goesOn
    have log : txLog.next h s .cpu s' = h :=
      (if_neg (Bool.eq_false_iff.mp unaccepted)).trans
        (if_neg fun returned => returned.2 (returns returned.1))
    rw [log]
    refine ⟨accounted.few, ?_⟩
    rw [same]
    exact all

theorem TxAccounted.dma (accounted : TxAccounted s h) {flags : Word}
    (taken : s.dmaStep flags = some s') : TxAccounted s' (txLog.next h s (.dma flags) s') := by
  have same : s'.pc = s.pc := by
    obtain ⟨-, found | ⟨-, rfl⟩⟩ := dmaStep_cases taken
    · exact found.2 ▸ rfl
    · rfl
  have kept : TxAccounted s' h := ⟨accounted.few, by rw [same]; exact accounted.all⟩
  dsimp only [txLog]
  split_ifs
  · exact ⟨kept.few, kept.all⟩
  · exact kept

theorem txAccounted_of_reached (reached : (ethTxLts.watch txLog).ReachWhile FitsRing x) :
    TxAccounted x.1 x.2 := by
  apply Lts.ReachWhile.invariant_watched ?_ ?_ reached
  · intro s start
    obtain ⟨memory, txBuff, rfl⟩ := start
    exact ⟨fun frame free member => (by cases member), List.Perm.nil⟩
  · intro s h a s' before accounted _ taken
    cases a with
    | output p got => exact accounted.output taken
    | cpu => exact accounted.cpu (txInv_of_reached before) taken
    | dma flags => exact accounted.dma taken

/-- In every run a frame is dropped only if its call's wait for the semaphore timed out, or if fewer
descriptors were free than it needs; and when no call is in progress, each frame called for was
accepted or dropped. -/
theorem transmit_drops (reached : (ethTxLts.watch txLog).ReachWhile FitsRing x) :
    (∀ frame cause, (frame, cause) ∈ x.2.dropped →
      cause = .timedOut ∨ ∃ free, cause = .inUse free ∧ free < bufCount frame.length) ∧
      (x.1.pc = .idle → x.2.calls.Perm (x.2.accepted ++ x.2.dropped.map Prod.fst)) := by
  have accounted := txAccounted_of_reached reached
  constructor
  · intro frame cause member
    cases cause with
    | timedOut => exact .inl rfl
    | inUse free => exact .inr ⟨free, rfl, accounted.few frame free member⟩
  · intro idle
    have all := accounted.all
    rw [idle, copying_idle, if_neg Bool.false_ne_true, List.append_nil] at all
    exact all

/-- Five frames are waiting when the sixth call begins; it is refused, and a seventh has waited for
it in vain.  The DMA takes one, and the eighth is accepted. -/
theorem transmit_drops_full :
    ∃ x, (ethTxLts.watch txLog).ReachWhile FitsRing x ∧
      x.2.dropped = [([7], .timedOut), ([6], .inUse 0)] ∧
      x.2.calls.Perm (x.2.accepted ++ x.2.dropped.map Prod.fst) := by
  obtain ⟨x, reached, ended⟩ := Lts.exists_reachWhile_of_exec (L := ethTxLts.watch txLog) FitsRing
    (s := (EthTx.blank, .empty)) ⟨⟨_, _, rfl⟩, rfl⟩
    (((List.range 5).flatMap fun i =>
        [.output [[UInt8.ofNat (i + 1)]] true, .cpu, .cpu, .cpu, .cpu]) ++
      [.output [[6]] true, .output [[7]] false, .cpu, .dma 0, .output [[8]] true, .cpu, .cpu, .cpu,
        .cpu])
    (P := fun x => decide (x.1.pc = .idle ∧
      x.2.dropped = [([7], .timedOut), ([6], .inUse 0)] ∧ x.2.accepted.length = 6)) (by decide)
  obtain ⟨idle, dropped, -⟩ := of_decide_eq_true ended
  exact ⟨x, reached, dropped, (transmit_drops reached).2 idle⟩

end FepMaster

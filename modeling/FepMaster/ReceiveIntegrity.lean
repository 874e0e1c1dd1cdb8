import FepMaster.ReceiveSteps

/-!
# What the stack receives

Runs of `ethRxLts`: the frames received and what is handed on of them (`receive_faithful`,
`receive_exact`), and that no frame and no suspended DMA is left behind (`receive_complete`).
-/

namespace FepMaster

open Transition Register Ring Memory Chunk

namespace EthRx

/-- In a prompt run the task is awake if there is work for it: what it has not been told of is not
complete, and a full ring is not empty. -/
structure Prompt (s : EthRx) (queue : List RxSegment) (pending : List (List UInt8)) : Prop where
  told : s.inIsr = true → s.sem = true
  unavailable : s.suspended = true → s.rbus = true ∧ s.incoming = none
  wake : s.pc = .wait ∨ s.pc = .resume none →
    pending.length ≤ s.incoming.toList.length ∨ s.sem = true ∨ s.rs = true
  full : (s.pc = .wait ∨ ∃ p, s.pc = .input p) → s.suspended = true → queue.length = ethRxBufNb

/-- The invariant. -/
def RxInv (short prompt : Bool) (s : EthRx) (h : RxLog) : Prop :=
  ∃ tail queue held pending released, s.Flow short h tail queue held pending released ∧
    s.Phase tail queue held pending released s.pc ∧ (prompt = true → s.Prompt queue pending)

variable {short prompt : Bool} {s s' : EthRx} {h : RxLog} {tail : Nat} {queue : List RxSegment}
  {held pending : List (List UInt8)}

theorem rxInv_start (short prompt : Bool) (rxBuff : Fin ethRxBufNb → Nat → UInt8) :
    RxInv short prompt (start rxBuff) ⟨[], []⟩ := by
  have vacant (d : Fin ethRxBufNb) : (start rxBuff).received d = none := by
    rw [received_eq_none]
    show isSet ethDmaRxDescOwn ethDmaRxDescOwn = true
    decide
  refine ⟨0, [], [], [], 0, ⟨⟨descChainInit_chained _ _, rfl, .empty vacant 0⟩, rfl,
    ⟨[], rfl, rfl, .nil, rfl⟩, (by simp), .inl rfl, by decide, (by simp), (by simp [start])⟩, ?_,
    fun _ => ?_⟩
  · exact ⟨rfl, 0, rfl, rfl, (by simp), Nat.le_refl _, (by simp), fun _ => rfl⟩
  · exact ⟨(by simp [start]), (by simp [start]), fun _ => .inl (Nat.le_refl _), (by simp [start])⟩

/-! ## Every step -/

theorem rxLog_task (silent : s.returns = none) : rxLog.next h s .task s' = h := by
  show RxLog.mk h.frames (h.results ++ s.returns.toList.map some) = h
  rw [silent]
  simp

/-- The task at work in a prompt run. -/
theorem Prompt.busy (prompt : s.Prompt queue pending) (free : s.inIsr = false)
    (same : SameFlags s s') (awake : s'.pc ≠ .wait) (called : ∀ p, s'.pc ≠ .input p)
    (seen : s'.pc = .resume none → pending.length ≤ s.incoming.toList.length)
    (queue' : List RxSegment) : s'.Prompt queue' pending where
  told set := by
    rw [same.inIsr, free] at set
    cases set
  unavailable set := by
    rw [same.suspended] at set
    rw [same.rbus, same.incoming]
    exact prompt.unavailable set
  wake place := by
    rw [same.incoming]
    exact place.elim (absurd · awake) fun ended => .inl (seen ended)
  full place := place.elim (absurd · awake) fun some_ => absurd some_.choose_spec (called _)

theorem copy_rest (left : Nat) (payload : List UInt8) (q : List Nat) (p : List (List UInt8))
    (l : RxLocals) : SameFlags s (s.copy left payload q p l) ∧
      (s.copy left payload q p l).pc ≠ .wait ∧ (s.copy left payload q p l).pc ≠ .resume none ∧
      ∀ p', (s.copy left payload q p l).pc ≠ .input p' := by
  unfold EthRx.copy
  split_ifs
  · exact ⟨⟨rfl, rfl, rfl, rfl⟩, (by simp), (by simp), (by simp)⟩
  · cases q with
    | nil => exact ⟨⟨rfl, rfl, rfl, rfl⟩, (by simp), (by simp), (by simp)⟩
    | cons len q => exact ⟨⟨rfl, rfl, rfl, rfl⟩, (by simp), (by simp), (by simp)⟩

theorem release_rest (i : Nat) (d : Fin ethRxBufNb) (p : List (List UInt8)) :
    SameFlags s (s.release i d p) ∧ (s.release i d p).pc ≠ .wait ∧
      (s.release i d p).pc ≠ .resume none ∧ ∀ p', (s.release i d p).pc ≠ .input p' := by
  unfold EthRx.release
  split_ifs <;> exact ⟨⟨rfl, rfl, rfl, rfl⟩, (by simp), (by simp), (by simp)⟩

/-- The end of `low_level_input` leaves the DMA running. -/
theorem Prompt.resume (prompt : s.Prompt queue pending) (free : s.inIsr = false)
    (p : Option (List (List UInt8))) (pending' : List (List UInt8))
    (wake : p = none → pending'.length ≤ s.incoming.toList.length ∨ s.sem = true ∨ s.rs = true) :
    (s.resume p).Prompt queue pending' := by
  have running : (s.resume p).suspended = false := by
    show (if s.rbus then false else s.suspended) = false
    cases unavailable : s.rbus with
    | true => rfl
    | false =>
        by_contra suspended
        have set := (prompt.unavailable (by simpa using suspended)).1
        rw [unavailable] at set
        cases set
  refine ⟨fun set => ?_, fun set => ?_, fun place => ?_, fun _ set => ?_⟩
  · exact absurd free (Bool.eq_false_iff.not.mpr (not_not.mpr set))
  · rw [running] at set
    cases set
  · cases p with
    | none => exact wake rfl
    | some p => rcases place with place | place <;> cases place
  · rw [running] at set
    cases set

theorem RxInv.task (inv : RxInv short prompt s h) (free : s.inIsr = false)
    (taken : s.task = some s') : RxInv short prompt s' (rxLog.next h s .task s') := by
  obtain ⟨tail, queue, held, pending, released, flow, phase, watched⟩ := inv
  unfold EthRx.task at taken
  cases pc : s.pc with
  | alloc length buffer descriptor =>
      rw [pc] at taken
      cases taken
  | input p =>
      rw [pc] at taken
      cases taken
  | wait =>
      rw [rxLog_task (by unfold returns; rw [pc])]
      rw [pc] at taken phase
      dsimp only at taken
      split_ifs at taken with sem
      cases taken
      obtain ⟨rfl, k, scanning⟩ := phase
      refine ⟨tail, queue, held, pending, 0, flow.keep rfl rfl rfl rfl,
        ⟨rfl, k, scanning.keep rfl rfl rfl, Nat.zero_le _⟩, fun yes => ?_⟩
      have same : SameFlags s { s with sem := false, pc := .scan 0 } := ⟨rfl, rfl, rfl, rfl⟩
      exact (watched yes).busy free same (by simp) (by simp) (by simp) _
  | scan counter =>
      rw [rxLog_task (by unfold returns; rw [pc])]
      rw [pc] at taken phase
      obtain ⟨rfl, k, scanning, seen⟩ := phase
      obtain ⟨flow', phase', drained, awake, called, same⟩ := scanning.scan flow seen taken
      exact ⟨tail, queue, held, pending, 0, flow', phase', fun yes =>
        (watched yes).busy free same awake called drained _⟩
  | copy left payload q p l =>
      rw [rxLog_task (by unfold returns; rw [pc])]
      rw [pc] at taken phase
      cases taken
      obtain ⟨flow', phase'⟩ := Phase.copy flow phase
      obtain ⟨same, awake, going, called⟩ := copy_rest (s := s) left payload q p l
      exact ⟨tail, queue, held, pending, released, flow', phase', fun yes =>
        (watched yes).busy free same awake called (absurd · going) _⟩
  | release i d p =>
      rw [rxLog_task (by unfold returns; rw [pc])]
      rw [pc] at taken phase
      cases taken
      obtain ⟨tail', queue', released', flow', phase'⟩ := Phase.release flow phase
      obtain ⟨same, awake, going, called⟩ := release_rest (s := s) i d p
      exact ⟨tail', queue', held, pending, released', flow', phase', fun yes =>
        (watched yes).busy free same awake called (absurd · going) _⟩
  | resume p =>
      rw [pc] at taken phase
      cases taken
      cases p with
      | none =>
          rw [rxLog_task (by unfold returns; rw [pc])]
          obtain ⟨rfl, k, scanning⟩ := phase
          refine ⟨tail, queue, held, pending, 0, flow.keep rfl rfl rfl rfl,
            ⟨rfl, k, scanning.keep rfl rfl rfl⟩, fun yes => ?_⟩
          exact (watched yes).resume free none pending fun _ => (watched yes).wake (.inr pc)
      | some p =>
          have log : rxLog.next h s .task (s.resume (some p)) =
              { h with results := h.results ++ [some p.flatten] } := by
            show RxLog.mk h.frames (h.results ++ s.returns.toList.map some) = _
            unfold returns
            rw [pc]
            rfl
          rw [log]
          obtain ⟨pending', flow', scanning⟩ := flow.deliver phase
          exact ⟨tail, queue, [], pending', 0, flow', ⟨rfl, 0, scanning⟩,
            fun yes => (watched yes).resume free _ pending' (by simp)⟩

theorem RxInv.alloc (inv : RxInv short prompt s h) (free : s.inIsr = false)
    {lens : Option (List Nat)} (taken : s.pbufAlloc lens = some s')
    (allowed : RxOk short prompt (s, h) (.alloc lens)) :
    RxInv short prompt s' (rxLog.next h s (.alloc lens) s') := by
  obtain ⟨tail, queue, held, pending, released, flow, phase, watched⟩ := inv
  unfold EthRx.pbufAlloc at taken
  cases pc : s.pc with
  | alloc length buffer descriptor =>
      rw [pc] at taken phase
      obtain ⟨rfl, f, more, first, found, total, rfl, rfl, start⟩ := phase
      cases lens with
      | none =>
          cases taken
          obtain ⟨yes, slow, few⟩ := allowed
          obtain ⟨flow', scanning⟩ := flow.fail first found start yes few
          exact ⟨tail, queue, held ++ [f], more, 0, flow', ⟨rfl, 0, scanning⟩,
            fun quick => absurd quick (slow ▸ Bool.false_ne_true)⟩
      | some lens =>
          cases lens with
          | nil => cases taken
          | cons len q =>
              dsimp only at taken
              split_ifs at taken with sizes
              cases taken
              obtain ⟨-, small, -⟩ := flow.pending_valid (f := f) (first ▸ List.mem_cons_self)
              have sum := sizes.2
              have bounded : f.length < 16384 := small.trans_lt (by decide)
              rw [total, Nat.mod_eq_of_lt (by omega)] at sum
              refine ⟨tail, queue, held, pending, 0, flow.keep rfl rfl rfl rfl,
                ⟨rfl, f, more, first, found.keep rfl rfl, 0, copying_start _ _ sum⟩, fun yes => ?_⟩
              have same := sameFlags_pc s (.copy len [] q []
                ⟨slot ethRxBufNb tail, slot ethRxBufNb tail, slot ethRxBufNb tail, 0⟩)
              exact (watched yes).busy free same (by simp) (by simp) (by simp) _
  | wait => rw [pc] at taken; cases taken
  | scan counter => rw [pc] at taken; cases taken
  | copy left payload q p l => rw [pc] at taken; cases taken
  | release i d p => rw [pc] at taken; cases taken
  | resume p => rw [pc] at taken; cases taken
  | input p => rw [pc] at taken; cases taken

theorem RxInv.input (inv : RxInv short prompt s h) (free : s.inIsr = false) {ok : Bool}
    (taken : s.input ok = some s') (allowed : RxOk short prompt (s, h) (.input ok)) :
    RxInv short prompt s' (rxLog.next h s (.input ok) s') := by
  obtain ⟨tail, queue, held, pending, released, flow, phase, watched⟩ := inv
  unfold EthRx.input at taken
  cases pc : s.pc with
  | input p =>
      rw [pc] at taken phase
      cases taken
      obtain ⟨rfl, k, scanning⟩ := phase
      cases ok with
      | true =>
          refine ⟨tail, queue, held, pending, 0, flow.keep rfl rfl rfl rfl,
            ⟨rfl, k, scanning.keep rfl rfl rfl, Nat.zero_le _⟩, fun yes => ?_⟩
          exact (watched yes).busy free (sameFlags_pc s (.scan 0)) (by simp) (by simp) (by simp) _
      | false =>
          exact ⟨tail, queue, held, pending, 0, flow.keep rfl rfl rfl rfl,
            ⟨rfl, k, scanning.keep rfl rfl rfl⟩, fun yes => absurd yes (allowed ▸ Bool.false_ne_true)⟩
  | alloc length buffer descriptor => rw [pc] at taken; cases taken
  | wait => rw [pc] at taken; cases taken
  | scan counter => rw [pc] at taken; cases taken
  | copy left payload q p l => rw [pc] at taken; cases taken
  | release i d p => rw [pc] at taken; cases taken
  | resume p => rw [pc] at taken; cases taken

/-- The interrupt. -/
theorem RxInv.irq (inv : RxInv short prompt s h) (taken : s.ethIrqHandler = some s') :
    RxInv short prompt s' h := by
  obtain ⟨tail, queue, held, pending, released, flow, phase, watched⟩ := inv
  unfold EthRx.ethIrqHandler at taken
  split_ifs at taken with isr flag
  · cases taken
    refine ⟨tail, queue, held, pending, released, flow.keep rfl rfl rfl rfl, phase.keep rfl rfl rfl rfl,
      fun yes => ⟨(by simp), (watched yes).unavailable, fun _ => .inr (.inl ((watched yes).told isr)),
        (watched yes).full⟩⟩
  · cases taken
    exact ⟨tail, queue, held, pending, released, flow.keep rfl rfl rfl rfl, phase.keep rfl rfl rfl rfl,
      fun yes => ⟨fun _ => rfl, (watched yes).unavailable, fun _ => .inr (.inl rfl),
        (watched yes).full⟩⟩

/-- A frame arrives. -/
theorem RxInv.wire (inv : RxInv short prompt s h) {frame : List UInt8}
    (taken : s.wire frame = some s') (allowed : RxOk short prompt (s, h) (.wire frame)) :
    RxInv short prompt s' (rxLog.next h s (.wire frame) s') := by
  obtain ⟨tail, queue, held, pending, released, flow, phase, watched⟩ := inv
  unfold EthRx.wire at taken
  split_ifs at taken with ready owned
  · obtain ⟨idle, running⟩ := ready
    cases taken
    have log : rxLog.next h s (.wire frame) { s with incoming := some (frame, 0) } =
        { h with frames := h.frames ++ [frame] } := if_pos owned
    rw [log]
    have later : Phase { s with incoming := some (frame, 0) } tail (queue ++ []) held
        (pending ++ [frame]) released s.pc := by
      refine phase.later ?_ ?_ ?_ (fun c _ => ?_) [] [frame] <;> rfl
    rw [List.append_nil] at later
    have flow' := flow.wire (phase.released_le flow.length_held) idle owned allowed
    refine ⟨tail, queue, held, pending ++ [frame], released, flow', later, fun yes => ?_⟩
    have prompt := watched yes
    refine ⟨prompt.told, fun set => absurd running (Bool.eq_false_iff.not.mpr (not_not.mpr set)),
      fun place => ?_, prompt.full⟩
    rcases prompt.wake place with none_left | told
    · rw [idle] at none_left
      rw [List.length_append]
      exact .inl (Nat.add_le_add_right none_left 1)
    · exact .inr told
  · obtain ⟨idle, running⟩ := ready
    cases taken
    have log : rxLog.next h s (.wire frame) { s with suspended := true, rbus := true } = h :=
      if_neg owned
    rw [log]
    refine ⟨tail, queue, held, pending, released, flow.keep rfl rfl rfl rfl,
      phase.keep rfl rfl rfl rfl, fun yes => ?_⟩
    exact ⟨(watched yes).told, fun _ => ⟨rfl, idle⟩, (watched yes).wake,
      fun _ _ => flow.ready.full (Bool.eq_false_of_not_eq_true owned)⟩

/-- The DMA closes a descriptor. -/
theorem RxInv.dma (inv : RxInv short prompt s h) {flags : Word}
    (taken : s.dmaStep flags = some s') (allowed : short = false → s.truncates = false) :
    RxInv short prompt s' h := by
  obtain ⟨tail, queue, held, pending, released, flow, phase, watched⟩ := inv
  have fits : s.truncates = false := by
    cases yes : short with
    | false => exact allowed yes
    | true => exact flow.truncates_of_short yes
  unfold EthRx.dmaStep at taken
  cases arriving : s.incoming with
  | none =>
      rw [arriving] at taken
      cases taken
  | some x =>
      obtain ⟨f, i⟩ := x
      rw [arriving, fits] at taken
      dsimp only at taken
      rw [if_neg Bool.false_ne_true] at taken
      obtain ⟨-, -, owned⟩ := flow.incoming f i arriving
      have room := flow.ready.room owned
      have later {s' : EthRx} (same : s'.segCount = s.segCount)
          (get : s'.dmaRxDescToGet = s.dmaRxDescToGet) (first : s'.fsRxDesc = s.fsRxDesc)
          (buffers : s'.rxBuff = Function.update s.rxBuff s.dma
            (write (s.rxBuff s.dma) 0 (chunk ethRxBufSize f i))) :
          s'.Phase tail (queue ++ [rxSegmentOf f i]) held pending released s.pc := by
        have phase' := phase.later same get first (fun c below => by
          rw [buffers, flow.ready.dma, Function.update_of_ne (slot_ne (by omega) (by omega))])
          [rxSegmentOf f i] []
        rw [List.append_nil] at phase'
        exact phase'
      have running (yes : prompt = true) : s.suspended = false := by
        by_contra suspended
        have idle := ((watched yes).unavailable (Bool.eq_true_of_not_eq_false suspended)).2
        rw [arriving] at idle
        cases idle
      split_ifs at taken with last
      · cases taken
        have written := close_rxBuff flow.ready.chained f i
          (firstBit i ||| ethDmaRxDescLs ||| lengthField f.length)
          (segmentBits ||| ethDmaRxDescFl) flags
        refine ⟨tail, queue ++ [rxSegmentOf f i], held, pending, released,
          flow.close_last arriving last rfl rfl rfl rfl, later rfl rfl rfl written,
          fun yes => ?_⟩
        exact ⟨(watched yes).told, fun set => (by cases (running yes).symm.trans set),
          fun _ => .inr (.inr rfl), fun _ set => (by cases (running yes).symm.trans set)⟩
      · cases taken
        have written := close_rxBuff flow.ready.chained f i (firstBit i) segmentBits flags
        refine ⟨tail, queue ++ [rxSegmentOf f i], held, pending, released,
          flow.close_middle arriving last fits rfl rfl rfl rfl, later rfl rfl rfl written,
          fun yes => ?_⟩
        have wake := (watched yes).wake
        rw [arriving] at wake
        exact ⟨(watched yes).told, fun set => (by cases (running yes).symm.trans set), wake,
          fun _ set => (by cases (running yes).symm.trans set)⟩

end EthRx

open EthRx

/-- The invariant holds in every run that meets the assumptions. -/
theorem rxInv_of_reached {short prompt : Bool} {x : EthRx × RxLog}
    (reached : (ethRxLts.watch rxLog).ReachWhile (RxOk short prompt) x) :
    RxInv short prompt x.1 x.2 := by
  apply Lts.ReachWhile.invariant_watched ?_ ?_ reached
  · intro s start
    obtain ⟨rxBuff, rfl⟩ := start
    exact rxInv_start short prompt rxBuff
  · intro s h a s' _ inv allowed taken
    have moved : s.step a = some s' := taken
    unfold EthRx.step at moved
    cases a with
    | task =>
        dsimp only at moved
        split_ifs at moved with isr
        exact inv.task (Bool.eq_false_of_not_eq_true isr) moved
    | alloc lens =>
        dsimp only at moved
        split_ifs at moved with isr
        exact inv.alloc (Bool.eq_false_of_not_eq_true isr) moved allowed
    | input ok =>
        dsimp only at moved
        split_ifs at moved with isr
        exact inv.input (Bool.eq_false_of_not_eq_true isr) moved allowed
    | irq => exact inv.irq moved
    | wire frame => exact inv.wire moved allowed
    | dma flags => exact inv.dma moved allowed

/-! ## Results -/

variable {short prompt : Bool} {x : EthRx × RxLog}

/-- The first state over blank buffers. -/
def EthRx.blank : EthRx := .start fun _ _ => 0

/-- A frame arrives, the task is woken and finds it. -/
def frameArrives (frame : List UInt8) : List RxAct :=
  [.wire frame, .dma 0, .irq, .irq, .task, .task]

/-- A failed allocation is the only way for a frame to fail. -/
theorem results_some (never : short = false ∨ prompt = true)
    (reached : (ethRxLts.watch rxLog).ReachWhile (RxOk short prompt) x) :
    ∀ r ∈ x.2.results, r.isSome = true := by
  apply Lts.ReachWhile.invariant_watched (P := fun _ h => ∀ r ∈ h.results, r.isSome = true)
    ?_ ?_ reached
  · exact fun _ _ r member => absurd member List.not_mem_nil
  · intro s h a s' _ all allowed _
    cases a with
    | wire frame =>
        show ∀ r ∈ (if s.owned s.dma then { h with frames := h.frames ++ [frame] } else h).results, _
        split_ifs <;> exact all
    | dma flags => exact all
    | irq => exact all
    | input ok => exact all
    | alloc lens =>
        cases lens with
        | none => exact (never.elim (fun no => by cases no.symm.trans allowed.1)
            fun yes => by cases yes.symm.trans allowed.2.1)
        | some lens => exact all
    | task =>
        show ∀ r ∈ h.results ++ s.returns.toList.map some, r.isSome = true
        intro r member
        rcases List.mem_append.mp member with before | here
        · exact all r before
        · obtain ⟨payload, -, same⟩ := List.mem_map.mp here
          rw [← same]
          rfl

/-- Without failures no frame is held. -/
theorem EthRx.Flow.all_returned {s : EthRx} {h : RxLog} {tail released : Nat}
    {queue : List RxSegment} {held pending : List (List UInt8)}
    (flow : s.Flow short h tail queue held pending released)
    (all : ∀ r ∈ h.results, r.isSome = true) :
    held = [] ∧ ∃ done, h.frames = done ++ pending ∧
      h.results = done.map fun f => some (f.take (f.length - 4)) := by
  obtain ⟨done, frames, length, faithful, same⟩ := flow.handled
  obtain ⟨free, returned⟩ := faithful.all_returned fun y member => all y.2 (List.of_mem_zip member).2
  refine ⟨same.symm.trans free, done, frames, ?_⟩
  have handled : (done.zip h.results).map Prod.fst = done := List.map_fst_zip length.le
  rw [List.map_snd_zip length.ge] at returned
  rw [returned]
  conv_rhs => rw [← handled, List.map_map]
  rfl

/-- Behind a short frame one of two buffers arrives: its first segment is scanned before the DMA
closes the second one. -/
def longBehindShort : List RxAct :=
  frameArrives [1, 2, 3, 4, 5, 6] ++
    [.wire (List.replicate 1530 7), .dma 0, .alloc (some [1, 1])] ++ List.replicate 5 .task ++
    [.input true, .task, .task, .task, .dma 0, .irq, .irq, .task, .task,
      .alloc (some [1000, 526])] ++ List.replicate 7 .task

/-- In a run in which no allocation and no hand-over fails: when the task waits and will not be
woken, the DMA is not suspended, and unless a frame is arriving every frame was handed on and the DMA
owns all descriptors. -/
theorem receive_complete (reached : (ethRxLts.watch rxLog).ReachWhile (RxOk short true) x)
    (waiting : x.1.pc = .wait) (untold : x.1.sem = false) (quiet : x.1.rs = false) :
    x.1.suspended = false ∧ (x.1.incoming = none →
      x.2.results = x.2.frames.map (fun f => some (f.take (f.length - 4))) ∧
        ∀ d, x.1.owned d = true) := by
  obtain ⟨tail, queue, held, pending, released, flow, phase, watched⟩ := rxInv_of_reached reached
  have prompt := watched rfl
  rw [waiting] at phase
  obtain ⟨rfl, -⟩ := phase
  obtain ⟨rfl, done, frames, results⟩ := flow.all_returned (results_some (.inr rfl) reached)
  have emptied (idle : x.1.incoming = none) : pending = [] ∧ queue = [] := by
    have none_left : pending.length ≤ 0 := by
      rcases prompt.wake (.inl waiting) with none_left | told | flag
      · rw [idle] at none_left
        exact none_left
      · cases untold.symm.trans told
      · cases quiet.symm.trans flag
    have empty := List.length_eq_zero_iff.mp (Nat.le_zero.mp none_left)
    have closed := flow.closed
    rw [empty] at closed
    exact ⟨empty, (List.append_eq_nil_iff.mp closed.symm).1⟩
  constructor
  · by_contra suspended
    have set := Bool.eq_true_of_not_eq_false suspended
    have full := prompt.full (.inl waiting) set
    rw [(emptied (prompt.unavailable set).2).2] at full
    cases full
  · intro idle
    obtain ⟨rfl, rfl⟩ := emptied idle
    rw [List.append_nil] at frames
    rw [frames]
    exact ⟨results, fun d => received_eq_none.mp (flow.ready.queue.vacant d)⟩

/-- Both frames are handed on; the task has woken once more and found nothing. -/
theorem receive_complete_long :
    ∃ x, (ethRxLts.watch rxLog).ReachWhile (RxOk false true) x ∧ x.2.frames.length = 2 ∧
      x.1.suspended = false ∧
        x.2.results = x.2.frames.map (fun f => some (f.take (f.length - 4))) := by
  obtain ⟨x, reached, ended⟩ := Lts.exists_reachWhile_of_exec (L := ethRxLts.watch rxLog)
    (RxOk false true) (s := (EthRx.blank, ⟨[], []⟩)) ⟨⟨_, rfl⟩, rfl⟩
    (longBehindShort ++ .input true :: List.replicate 2 .task)
    (P := fun x => decide (x.1.pc = .wait ∧ x.1.sem = false ∧ x.1.rs = false ∧
      x.1.incoming = none ∧ x.2.frames.length = 2)) (by decide +kernel)
  obtain ⟨waiting, untold, quiet, idle, frames⟩ := of_decide_eq_true ended
  obtain ⟨running, all⟩ := receive_complete reached waiting untold quiet
  exact ⟨x, reached, frames, running, (all idle).1⟩

end FepMaster

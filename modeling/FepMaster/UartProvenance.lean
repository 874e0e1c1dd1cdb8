import FepMaster.Lib.Transition
import FepMaster.TableUpdates
import FepMaster.Uart

/-!
# Where the bytes of an applied packet come from

The interrupt posts the buffer at every framing error, however few bytes have arrived since the
last one, and shifts it without clearing it.  Whether a posted packet was received as one frame
depends on what the cells still hold.

`provenance` is a history variable that runs beside the handler: it numbers the framing events and
remembers for each cell of `data_buff` after which of them its byte was received.  `Inv` says what
the receive index reveals of it, and `applied_from_one_frame_iff` which applied packets come from
one frame.
-/

namespace FepMaster

open Transition

/-! ## Interrupt and handler in turn -/

/-- What the line brings: a byte, or a byte received with a framing error (a break if it is
zero). -/
inductive LineEvent
  | data (b : UInt8)
  | framing (b : UInt8)

/-- The interrupt an event raises. -/
def LineEvent.irq : LineEvent → IrqEvent
  | .data b => dataEvent b
  | .framing b => ⟨true, true, b⟩

/-- The driver and the device table. -/
structure Link where
  uart : Uart
  fepDevList : DevTable

/-- One interrupt; a posted packet is handled, with the lock, before the next. -/
def Link.handle (l : Link) (e : LineEvent) : Link :=
  let r := uart4IrqHandler l.uart e.irq
  ⟨r.uart,
    match r.sent with
    | some p => fepRs485Handler true r.uart.dataBuff p l.fepDevList
    | none => l.fepDevList⟩

/-- The system, as long as the handler stores inside `data_buff`. -/
def linkLts : Lts Link LineEvent where
  Init l := l = ⟨Uart.reset true, DevTable.zero⟩
  step l e :=
    match (uart4IrqHandler l.uart e.irq).stored with
    | some k => if k < 10 then some (l.handle e) else none
    | none => some (l.handle e)

/-! ## Provenance -/

/-- The number of framing events so far, and for each cell of the buffer the number of framing
events there had been when its byte was received; zero for a cell not yet written. -/
structure Provenance where
  epoch : Nat
  origin : Vector Nat 10

/-- The cells move and are overwritten as in the handler. -/
def provenance : Monitor Link LineEvent Provenance where
  init _ := ⟨0, Vector.replicate 10 0⟩
  next m l e _ :=
    match e with
    | .data _ => { m with origin := m.origin.setIfInBounds l.uart.rxIndex m.epoch }
    | .framing _ =>
        ⟨m.epoch + 1, (shiftLoop m.origin).setIfInBounds 0 (m.epoch + 1)⟩

/-- The packet a framing event posts. -/
def Link.posted (l : Link) : FepPacket := castPacket (shiftLoop l.uart.dataBuff)

/-- The origins of the bytes an applied packet relies on: start, size and device byte of the
posted copy, and the two value bytes in the buffer when it is handled. -/
def reliedOrigins (before after : Provenance) : List Nat :=
  (shiftLoop before.origin).toList.take 3 ++ [dataBuff3 after.origin, dataBuff4 after.origin]

/-- They were all received between the previous framing event and the present one: between one
pair of consecutive framing events, with nothing left over from an earlier frame. -/
def FromOneFrame (before after : Provenance) : Prop :=
  1 ≤ before.epoch ∧ ∀ o ∈ reliedOrigins before after, o = before.epoch

/-- There was a framing event before, and at least five bytes have been received since. -/
def WholeFrame (l : Link) (m : Provenance) : Prop := 1 ≤ m.epoch ∧ 6 ≤ l.uart.rxIndex

/-! ## What the receive index reveals -/

/-- The cells below the index were filled since the last framing event, the others before it. -/
structure Inv (l : Link) (m : Provenance) : Prop where
  ready : l.uart.queueBuffer = true
  index : l.uart.rxIndex ≤ 10
  fresh : ∀ j (bound : j < 10), j < l.uart.rxIndex → m.origin[j] = m.epoch
  stale : ∀ j (bound : j < 10), l.uart.rxIndex ≤ j → 1 ≤ m.epoch → m.origin[j] < m.epoch
  past : ∀ j (bound : j < 10), m.origin[j] ≤ m.epoch

theorem Inv.reset : Inv ⟨Uart.reset true, DevTable.zero⟩ ⟨0, Vector.replicate 10 0⟩ where
  ready := rfl
  index := Nat.zero_le 10
  fresh := by intro j bound below; simp
  stale := by intro j bound above later; exact absurd later (by decide)
  past := by intro j bound; simp

theorem linkLts_step_data {l l' : Link} {b : UInt8}
    (taken : linkLts.step l (.data b) = some l') :
    l.uart.rxIndex < 10 ∧ l' = ⟨receiveBranch l.uart b, l.fepDevList⟩ := by
  simp only [linkLts, LineEvent.irq, Link.handle, uart4IrqHandler_data] at taken
  split at taken
  · next inside => exact ⟨inside, (Option.some.inj taken).symm⟩
  · cases taken

/-- The driver after a framing event with received byte `b`. -/
def Uart.framed (u : Uart) (b : UInt8) : Uart :=
  ⟨(shiftLoop u.dataBuff).setIfInBounds 0 b, 1, u.queueBuffer⟩

theorem linkLts_step_framing {l l' : Link} {b : UInt8} (ready : l.uart.queueBuffer = true)
    (taken : linkLts.step l (.framing b) = some l') :
    l' = ⟨l.uart.framed b,
      fepRs485Handler true (l.uart.framed b).dataBuff l.posted l.fepDevList⟩ := by
  simp only [linkLts, LineEvent.irq, Link.handle, uart4IrqHandler, frameBranch, receiveBranch,
    ready, ↓reduceIte] at taken
  rw [← Option.some.inj taken]
  simp [Uart.framed, Link.posted, ready]

theorem Inv.data {l : Link} {m : Provenance} (inv : Inv l m) (room : l.uart.rxIndex < 10)
    (b : UInt8) (t : DevTable) :
    Inv ⟨receiveBranch l.uart b, t⟩
      { m with origin := m.origin.setIfInBounds l.uart.rxIndex m.epoch } := by
  have advanced : (receiveBranch l.uart b).rxIndex = l.uart.rxIndex + 1 := by
    simp only [receiveBranch]
    exact if_neg (by omega)
  refine ⟨inv.ready, ?_, ?_, ?_, ?_⟩
  · simp only [advanced]; omega
  · intro j bound below
    simp only [advanced] at below
    rw [Vector.getElem_setIfInBounds]
    split
    · rfl
    · exact inv.fresh j bound (by omega)
  · intro j bound above later
    simp only [advanced] at above
    rw [Vector.getElem_setIfInBounds, if_neg (by omega)]
    exact inv.stale j bound (by omega) later
  · intro j bound
    rw [Vector.getElem_setIfInBounds]
    split
    · exact Nat.le_refl _
    · exact inv.past j bound

theorem Inv.framing {l : Link} {m : Provenance} (inv : Inv l m) (b : UInt8) (t : DevTable) :
    Inv ⟨l.uart.framed b, t⟩
      ⟨m.epoch + 1, (shiftLoop m.origin).setIfInBounds 0 (m.epoch + 1)⟩ := by
  have older : ∀ j (bound : j < 10), (shiftLoop m.origin)[j] ≤ m.epoch := by
    intro j bound
    rw [getElem_shiftLoop]
    split
    · exact inv.past _ (by omega)
    · exact inv.past _ bound
  refine ⟨inv.ready, by simp [Uart.framed], ?_, ?_, ?_⟩
  · intro j bound below
    have first : j = 0 := Nat.lt_one_iff.mp below
    subst first
    simp
  · intro j bound above _
    have later : 1 ≤ j := above
    rw [Vector.getElem_setIfInBounds, if_neg (by omega)]
    exact Nat.lt_succ_of_le (older j bound)
  · intro j bound
    rw [Vector.getElem_setIfInBounds]
    split
    · exact Nat.le_refl _
    · exact Nat.le_succ_of_le (older j bound)

theorem inv_of_reach {x : Link × Provenance}
    (reached : (linkLts.watch provenance).Reach x) : Inv x.1 x.2 := by
  apply Lts.ReachWhile.invariant_watched (P := Inv) ?_ ?_ reached
  · intro l start
    subst start
    exact Inv.reset
  · intro l m e l' _ inv _ moved
    cases e with
    | data b =>
        rcases linkLts_step_data moved with ⟨room, next⟩
        rw [next]
        exact inv.data room b _
    | framing b =>
        rw [linkLts_step_framing inv.ready moved]
        exact inv.framing b _

/-! ## Applied packets -/

/-- The handler writes to the table because of this event. -/
def Applied (l : Link) : LineEvent → Prop
  | .data _ => False
  | .framing _ => l.posted.IsReply

/-- After a framing event they are the origins of the cells `1..5` before it. -/
theorem reliedOrigins_framing (l l' : Link) (m : Provenance) (b : UInt8) :
    reliedOrigins m (provenance.next m l (.framing b) l') = (m.origin.toList.drop 1).take 5 := by
  have cells : ∀ v : Vector Nat 10, (shiftLoop v).toList.take 3 ++
      [dataBuff3 (shiftLoop v), dataBuff4 (shiftLoop v)] = (v.toList.drop 1).take 5 := by
    intro v
    rcases v with ⟨⟨cells⟩, size⟩
    match cells, size with
    | [_, _, _, _, _, _, _, _, _, _], _ => rfl
  simp only [reliedOrigins, provenance]
  rw [← cells]
  simp [dataBuff3, dataBuff4]

theorem mem_reliedCells {v : Vector Nat 10} {o : Nat} :
    o ∈ (v.toList.drop 1).take 5 ↔ ∃ j, ∃ bound : j < 10, 1 ≤ j ∧ j ≤ 5 ∧ v[j] = o := by
  rw [List.mem_iff_getElem]
  constructor
  · intro found
    rcases found with ⟨j, inside, rfl⟩
    simp only [List.length_take, List.length_drop, Vector.length_toList] at inside
    exact ⟨j + 1, by omega, by omega, by omega, by simp⟩
  · intro among
    rcases among with ⟨j, bound, above, below, rfl⟩
    refine ⟨j - 1, by simp; omega, ?_⟩
    have back : j - 1 + 1 = j := by omega
    simp [back]

/-- Only an applied packet changes the table. -/
theorem applied_of_changed {l l' : Link} {m m' : Provenance} {e : LineEvent}
    (reached : (linkLts.watch provenance).Reach (l, m))
    (taken : (linkLts.watch provenance).step (l, m) e = some (l', m'))
    (changed : l'.fepDevList ≠ l.fepDevList) : Applied l e := by
  obtain ⟨moved, -⟩ := Lts.watch_step_iff.mp taken
  cases e with
  | data b =>
      obtain ⟨-, next⟩ := linkLts_step_data moved
      simp only at next changed
      rw [next] at changed
      exact changed rfl
  | framing b =>
      have next := linkLts_step_framing (inv_of_reach reached).ready moved
      simp only at next changed
      by_contra refused
      rw [next] at changed
      exact changed (fepRs485Handler_of_not_isReply refused true _ _)

/-- The bytes of an applied packet are from one frame exactly if the receive index has moved past
them since the last framing event. -/
theorem fromOneFrame_iff {l l' : Link} {m m' : Provenance} {e : LineEvent}
    (reached : (linkLts.watch provenance).Reach (l, m))
    (taken : (linkLts.watch provenance).step (l, m) e = some (l', m')) (applied : Applied l e) :
    FromOneFrame m m' ↔ WholeFrame l m := by
  have inv := inv_of_reach reached
  obtain ⟨-, update⟩ := Lts.watch_step_iff.mp taken
  simp only at update inv
  cases e with
  | data b => exact applied.elim
  | framing b =>
      rw [FromOneFrame, WholeFrame, update, reliedOrigins_framing]
      refine and_congr_right fun later => ⟨fun same => ?_, fun whole => ?_⟩
      · -- the last of the five bytes was received latest, so a short frame leaves an older one
        by_contra short
        have last := same _ (mem_reliedCells.mpr ⟨5, by decide, by decide, by decide, rfl⟩)
        have leftover := inv.stale 5 (by decide) (by omega) later
        omega
      · intro o relied
        obtain ⟨j, bound, -, inside, rfl⟩ := mem_reliedCells.mp relied
        exact inv.fresh j bound (by omega)

/-- The system and its history at reset. -/
def linkStart : Link × Provenance :=
  (⟨Uart.reset true, DevTable.zero⟩, ⟨0, Vector.replicate 10 0⟩)

theorem reach_linkStart : (linkLts.watch provenance).Reach linkStart := .init ⟨rfl, rfl⟩

/-- In the run of `es` from reset, every step has the property. -/
abbrev LinkAlways (es : List LineEvent)
    (P : Link × Provenance → LineEvent → Link × Provenance → Prop) : Prop :=
  (linkLts.watch provenance).EveryStep P linkStart es

/-- The property: what changes the table comes from one frame. -/
def ChangesFromOneFrame (es : List LineEvent) : Prop :=
  LinkAlways es fun x _ x' => x'.1.fepDevList ≠ x.1.fepDevList → FromOneFrame x.2 x'.2

/-- **Wholly received frames.**  In every run from reset, only applied packets change the table.
They come from one frame exactly if each of them is posted by a framing event that has an earlier
one, with at least five bytes received in between; and whatever changes the table comes from one
frame exactly if this holds of the applied packets that do change it. -/
theorem applied_from_one_frame_iff (es : List LineEvent) :
    LinkAlways es (fun x e x' => x'.1.fepDevList ≠ x.1.fepDevList → Applied x.1 e) ∧
    (LinkAlways es (fun x e x' => Applied x.1 e → FromOneFrame x.2 x'.2) ↔
      LinkAlways es fun x e _ => Applied x.1 e → WholeFrame x.1 x.2) ∧
    (ChangesFromOneFrame es ↔
      LinkAlways es fun x _ x' => x'.1.fepDevList ≠ x.1.fepDevList → WholeFrame x.1 x.2) := by
  refine ⟨?_, ⟨?_, ?_⟩, ⟨?_, ?_⟩⟩
  · refine Lts.EveryStep.of_reach (fun x e x' reached taken changed => ?_) reach_linkStart es
    exact applied_of_changed reached taken changed
  · refine Lts.EveryStep.imp (fun x e x' reached taken one applied => ?_) reach_linkStart
    exact (fromOneFrame_iff reached taken applied).mp (one applied)
  · refine Lts.EveryStep.imp (fun x e x' reached taken whole applied => ?_) reach_linkStart
    exact (fromOneFrame_iff reached taken applied).mpr (whole applied)
  · refine Lts.EveryStep.imp (fun x e x' reached taken one changed => ?_) reach_linkStart
    have applied := applied_of_changed reached taken changed
    exact (fromOneFrame_iff reached taken applied).mp (one changed)
  · refine Lts.EveryStep.imp (fun x e x' reached taken whole changed => ?_) reach_linkStart
    have applied := applied_of_changed reached taken changed
    exact (fromOneFrame_iff reached taken applied).mpr (whole changed)

/-- One frame, then a single byte cut short by noise: the third framing event posts that byte
followed by bytes the shift left over from the frame before, as a reply of slot 2. -/
theorem changes_by_leftover_bytes : ¬ ∀ es, ChangesFromOneFrame es := by
  intro claim
  let es : List LineEvent :=
    [.framing 0, .data 0x14, .data 0x05, .data 0x09, .data 0x12, .data 0x34, .framing 0,
      .data 0x14]
  have mixed : ((linkLts.watch provenance).exec linkStart es).any (fun x =>
      ((linkLts.watch provenance).step x (.framing 0)).any fun x' =>
        (x'.1.fepDevList (Polled.slot 1)).status != (x.1.fepDevList (Polled.slot 1)).status &&
          reliedOrigins x.2 x'.2 == [2, 1, 1, 1, 0]) = true := by decide +kernel
  rcases (Option.any_eq_true _ _).mp mixed with ⟨x, executed, last⟩
  rcases (Option.any_eq_true _ _).mp last with ⟨x', taken, differs⟩
  rcases (Bool.and_eq_true_iff).mp differs with ⟨status, origins⟩
  have changed : x'.1.fepDevList ≠ x.1.fepDevList := by
    intro same
    simp [same] at status
  obtain ⟨-, same⟩ := Lts.EveryStep.last (claim (es ++ [.framing 0])) executed taken changed
  rw [eq_of_beq origins] at same
  have two := same 2 (by decide)
  have one := same 1 (by decide)
  omega

end FepMaster

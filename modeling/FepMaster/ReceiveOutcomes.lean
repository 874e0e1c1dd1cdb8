import FepMaster.ReceiveDescriptors

/-!
# What becomes of a frame

A frame for which no pbuf could be had is not handed to the stack, but its
descriptors stay with the processor and its segments are counted with those of the next frame.
`Faithful` says what each call then returns: without failures the frames, and after a failure a
frame of the next one's length with the contents of the frame that failed.
-/

namespace FepMaster

open Transition Register Ring Memory Chunk

/-! ## Frames and results -/

/-- The frames that the DMA began to receive, and what came of each: no frame for want of a pbuf, or
what the pbufs contained. -/
structure RxLog where
  frames : List (List UInt8)
  results : List (Option (List UInt8))

/-- What the next step returns from `low_level_input`. -/
def EthRx.returns (s : EthRx) : Option (List UInt8) :=
  match s.pc with
  | .resume (some p) => some p.flatten
  | _ => none

/-- The history. -/
def rxLog : Monitor EthRx RxAct RxLog where
  init _ := ⟨[], []⟩
  next h s a _ :=
    match a with
    | .wire frame => if s.owned s.dma then { h with frames := h.frames ++ [frame] } else h
    | .alloc none => { h with results := h.results ++ [none] }
    | .task => { h with results := h.results ++ s.returns.toList.map some }
    | _ => h

/-- The frames whose descriptors were not given back: those that failed since the last that was
handed on. -/
def heldFrames (outcomes : List (List UInt8 × Option (List UInt8))) : List (List UInt8) :=
  outcomes.foldl (fun held x => if x.2.isSome then [] else held ++ [x.1]) []

/-- What is handed on for a frame, with the first of the frames held: the frame without its check
sequence; or as many bytes, from the buffer of the frame held. -/
def Returned (oldest : Option (List UInt8)) (frame payload : List UInt8) : Prop :=
  match oldest with
  | none => payload = frame.take (frame.length - 4)
  | some o => payload.length = frame.length - 4 ∧
      payload.take o.length = o.take payload.length

/-- Each frame is handed on or fails. -/
inductive Faithful : List (List UInt8 × Option (List UInt8)) → Prop
  | nil : Faithful []
  | failed {outcomes : List (List UInt8 × Option (List UInt8))} {frame : List UInt8} :
      Faithful outcomes → Faithful (outcomes ++ [(frame, none)])
  | returned {outcomes : List (List UInt8 × Option (List UInt8))} {frame payload : List UInt8} :
      Faithful outcomes → Returned (heldFrames outcomes).head? frame payload →
        Faithful (outcomes ++ [(frame, some payload)])

/-- What is assumed of a run.  Frames are longer than their check sequence and fit into the ring.
Either frames fit into one buffer (`short`), and then fewer than `ETH_RXBUFNB` in a row fail for
want of a pbuf; or none fails, and within a frame the DMA never finds the next descriptor in use.
If `prompt`, none fails and the stack takes each frame. -/
def RxOk (short prompt : Bool) (x : EthRx × RxLog) : RxAct → Prop
  | .wire frame => 4 < frame.length ∧ frame.length ≤ ethRxBufNb * ethRxBufSize ∧
      (short = true → frame.length ≤ ethRxBufSize)
  | .dma _ => short = false → x.1.truncates = false
  | .alloc none => short = true ∧ prompt = false ∧ x.1.segCount < ethRxBufNb
  | .input false => prompt = false
  | _ => True

instance (short prompt : Bool) (x : EthRx × RxLog) :
    (a : RxAct) → Decidable (RxOk short prompt x a)
  | .wire frame => inferInstanceAs (Decidable (4 < frame.length ∧
      frame.length ≤ ethRxBufNb * ethRxBufSize ∧ (short = true → frame.length ≤ ethRxBufSize)))
  | .dma _ => inferInstanceAs (Decidable (short = false → x.1.truncates = false))
  | .alloc none =>
      inferInstanceAs (Decidable (short = true ∧ prompt = false ∧ x.1.segCount < ethRxBufNb))
  | .input false => inferInstanceAs (Decidable (prompt = false))
  | .alloc (some _) => inferInstanceAs (Decidable True)
  | .input true => inferInstanceAs (Decidable True)
  | .task => inferInstanceAs (Decidable True)
  | .irq => inferInstanceAs (Decidable True)

theorem heldFrames_failed (outcomes : List (List UInt8 × Option (List UInt8)))
    (frame : List UInt8) :
    heldFrames (outcomes ++ [(frame, none)]) = heldFrames outcomes ++ [frame] := by
  unfold heldFrames
  rw [List.foldl_append]
  rfl

theorem heldFrames_returned (outcomes : List (List UInt8 × Option (List UInt8)))
    (frame payload : List UInt8) : heldFrames (outcomes ++ [(frame, some payload)]) = [] := by
  unfold heldFrames
  rw [List.foldl_append]
  rfl

/-- Nothing fails: every frame is handed on. -/
theorem Faithful.all_returned {outcomes : List (List UInt8 × Option (List UInt8))}
    (faithful : Faithful outcomes) (never : ∀ x ∈ outcomes, x.2.isSome = true) :
    heldFrames outcomes = [] ∧
      outcomes.map Prod.snd = outcomes.map fun x => some (x.1.take (x.1.length - 4)) := by
  induction faithful with
  | nil => exact ⟨rfl, rfl⟩
  | failed _ _ =>
      have failure := never _ (List.mem_append_right _ List.mem_cons_self)
      cases failure
  | returned _ returned ih =>
      obtain ⟨free, same⟩ := ih fun x member => never x (List.mem_append_left _ member)
      rw [free] at returned
      refine ⟨heldFrames_returned .., ?_⟩
      rw [List.map_append, List.map_append, same, List.map_cons, List.map_cons, returned]
      rfl

/-- A frame that fits into one buffer is one segment. -/
theorem count_of_short {frame : List UInt8} (short : frame.length ≤ ethRxBufSize) :
    count ethRxBufSize frame.length = 1 := by
  have bounds := (count_bounds (m := ethRxBufSize) (by decide) frame.length).2 0
  have positive : 0 < count ethRxBufSize frame.length := Nat.succ_pos _
  omega

theorem length_flatMap_of_short {held : List (List UInt8)}
    (short : ∀ f ∈ held, f.length ≤ ethRxBufSize) :
    (held.flatMap rxSegments).length = held.length := by
  induction held with
  | nil => rfl
  | cons f held ih =>
      rw [List.flatMap_cons, List.length_append, ih fun g member => short g (.tail _ member),
        rxSegments_length, count_of_short (short f List.mem_cons_self), List.length_cons, Nat.add_comm]

end FepMaster

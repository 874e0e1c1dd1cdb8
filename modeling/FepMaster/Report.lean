import Mathlib.Data.List.FinRange
import FepMaster.Device

/-!
# The report datagram

`SendGetValue` of `Drivers/FEP/fep_udp.c`, and the format it writes: a header of three bytes, one
group of three bytes for each active slot among `1..6`, a trailer.

`ReportEntry` and `encodeReport` say what a report is, independently of the buffer the code builds
it in; an entry that is `WellFormed` is recovered by `decodeReport`.  `sendGetValue_granted`
connects the two: with the lock, the datagram is the encoding of the active slots, whatever the
stack held before.
-/

namespace FepMaster

/-! ## The format -/

/-- What a group of three bytes reports of a device. -/
structure ReportEntry where
  devType : UInt8
  devId : UInt8
  data : UInt8
  dataL : UInt8
  deriving DecidableEq

/-- The type leaves the low three bits to the id. -/
def ReportEntry.WellFormed (e : ReportEntry) : Prop :=
  e.devType &&& 0x07 = 0 ∧ e.devId.toNat < 8

/-- The group of an entry; its first byte is an eight-bit sum. -/
def ReportEntry.bytes (e : ReportEntry) : List UInt8 := [e.devType + e.devId, e.data, e.dataL]

/-- The groups of a list of entries. -/
def entryBytes (es : List ReportEntry) : List UInt8 := es.flatMap ReportEntry.bytes

/-- Header, groups and trailer. -/
def encodeReport (es : List ReportEntry) : List UInt8 :=
  0x11 :: UInt8.ofNat (3 * es.length + 4) :: 0x00 :: (entryBytes es ++ [0xFE])

/-- Read groups of three with `PACKET_DEV_TYPE` and `PACKET_DEV_ID` on the first byte. -/
def decodeGroups : List UInt8 → List ReportEntry
  | first :: data :: dataL :: rest =>
      ⟨first &&& 0xF8, first &&& 0x07, data, dataL⟩ :: decodeGroups rest
  | _ => []

/-- Read the bytes between header and trailer. -/
def decodeReport (datagram : List UInt8) : List ReportEntry :=
  decodeGroups ((datagram.drop 3).dropLast)

theorem length_entryBytes (es : List ReportEntry) : (entryBytes es).length = 3 * es.length := by
  induction es with
  | nil => rfl
  | cons e rest ih =>
      simp only [entryBytes, List.flatMap_cons, List.length_append, List.length_cons] at ih ⊢
      rw [ih]
      simp only [ReportEntry.bytes, List.length_cons, List.length_nil]
      omega

theorem length_encodeReport (es : List ReportEntry) :
    (encodeReport es).length = 3 * es.length + 4 := by
  simp [encodeReport, length_entryBytes]

theorem decodeGroups_entryBytes {es : List ReportEntry}
    (wellFormed : ∀ e ∈ es, e.WellFormed) : decodeGroups (entryBytes es) = es := by
  induction es with
  | nil => rfl
  | cons e rest ih =>
      obtain ⟨aligned, small⟩ := wellFormed e List.mem_cons_self
      have tail := ih fun f member => wellFormed f (List.mem_cons_of_mem _ member)
      rw [entryBytes] at tail
      simp only [entryBytes, List.flatMap_cons, ReportEntry.bytes, List.cons_append,
        List.nil_append, decodeGroups, low_of_add aligned small, high_of_add aligned small]
      rw [tail]

/-- Decoding an encoded report gives its entries back. -/
theorem decodeReport_encodeReport {es : List ReportEntry}
    (wellFormed : ∀ e ∈ es, e.WellFormed) : decodeReport (encodeReport es) = es := by
  have between : (encodeReport es).drop 3 = entryBytes es ++ [0xFE] := rfl
  rw [decodeReport, between, List.dropLast_concat]
  exact decodeGroups_entryBytes wellFormed

/-! ## The buffer of the call -/

/-- The loop body of `SendGetValue`: `j` groups have been written. -/
def writeEntry (t : DevTable) (local_ : Vector UInt8 100 × Nat) (i : Polled) :
    Vector UInt8 100 × Nat :=
  let (buff, j) := local_
  let d := t i.slot
  if d.status = active then
    let buff := buff.setIfInBounds (3 + 3 * j + 0) (d.devType + d.devId)
    let buff := buff.setIfInBounds (3 + 3 * j + 1) d.data
    let buff := buff.setIfInBounds (3 + 3 * j + 2) d.dataL
    (buff, j + 1)
  else (buff, j)

/-- The end of `SendGetValue`: size, device byte and trailer; the bytes passed to `sendto`. -/
def finishReport (buff : Vector UInt8 100) (j : Nat) : List UInt8 :=
  let buff := buff.set 1 (UInt8.ofNat (3 * j + 4))
  let buff := buff.set 2 0x00
  let buff := buff.setIfInBounds (buff[1].toNat - 1) 0xFE
  buff.toList.take buff[1].toNat

/-- `buff[0] = 0x11`, the first write to the uninitialised buffer. -/
def startReport (stack : Vector UInt8 100) : Vector UInt8 100 := stack.set 0 0x11

/-- `SendGetValue`: `stack` is what the uninitialised `buff` holds on entry, `granted` the answer
of `xSemaphoreTake`. -/
def sendGetValue (stack : Vector UInt8 100) (granted : Bool) (t : DevTable) : List UInt8 :=
  let buff := startReport stack
  let (buff, j) := if granted then polledSlots.foldl (writeEntry t) (buff, 0) else (buff, 0)
  finishReport buff j

/-- After the header's first byte and two bytes not yet written, the buffer begins with `body`. -/
def Holds (buff : Vector UInt8 100) (body : List UInt8) : Prop :=
  ∃ size device rest, buff.toList = 0x11 :: size :: device :: (body ++ rest)

theorem Holds.start (stack : Vector UInt8 100) : Holds (startReport stack) [] := by
  rcases stack with ⟨⟨cells⟩, size⟩
  match cells, size with
  | _ :: x :: y :: rest, _ => exact ⟨x, y, rest, rfl⟩

/-- Writing the next byte lengthens the body. -/
theorem Holds.push {buff : Vector UInt8 100} {body : List UInt8} (holds : Holds buff body)
    {k : Nat} (next : k = 3 + body.length) (room : body.length < 97) (b : UInt8) :
    Holds (buff.setIfInBounds k b) (body ++ [b]) := by
  subst next
  rcases holds with ⟨size, device, rest, cells⟩
  have length : buff.toList.length = 100 := Vector.length_toList
  rw [cells] at length
  simp only [List.length_cons, List.length_append] at length
  match rest, length with
  | [], length => simp at length; omega
  | _ :: rest, _ =>
      refine ⟨size, device, rest, ?_⟩
      rw [Vector.toList_setIfInBounds, cells, Nat.add_comm 3]
      simp [List.set_cons_succ, List.set_append_right]

theorem toNat_sizeByte {j : Nat} (few : j ≤ 6) :
    (UInt8.ofNat (3 * j + 4)).toNat = 3 * j + 4 := by
  rw [UInt8.toNat_ofNat']
  omega

/-- The end of the call on the cells of the buffer.  The trailer does not hit the size byte, so
the length read back is the one written. -/
theorem finishReport_eq (buff : Vector UInt8 100) {j : Nat} (few : j ≤ 6) :
    finishReport buff j =
      (((buff.toList.set 1 (UInt8.ofNat (3 * j + 4))).set 2 0x00).set (3 * j + 3) 0xFE).take
        (3 * j + 4) := by
  have size := toNat_sizeByte few
  have trailer : 3 * j + 4 - 1 = 3 * j + 3 := rfl
  have apart : ¬ 3 * j + 3 = 1 := by omega
  simp only [finishReport, Vector.toList_setIfInBounds, Vector.toList_set,
    Vector.getElem_setIfInBounds, Vector.getElem_set_self, Vector.getElem_set_ne, ne_eq,
    OfNat.ofNat_ne_one, not_false_eq_true, size, trailer, apart, ↓reduceIte]

/-- Size, device byte and trailer complete a body of whole groups to a report. -/
theorem Holds.finish {buff : Vector UInt8 100} {es : List ReportEntry}
    (holds : Holds buff (entryBytes es)) (few : es.length ≤ 6) :
    finishReport buff es.length = encodeReport es := by
  rcases holds with ⟨size, device, rest, cells⟩
  have bodyLength := length_entryBytes es
  have length : buff.toList.length = 100 := Vector.length_toList
  rw [cells] at length
  simp only [List.length_cons, List.length_append] at length
  rw [finishReport_eq buff few, cells]
  match rest, length with
  | [], length => simp at length; omega
  | last :: rest, _ =>
      have body : (entryBytes es ++ 0xFE :: rest).take (3 * es.length + 1) =
          entryBytes es ++ [0xFE] := by
        rw [← bodyLength, List.take_length_add_append]
        rfl
      simpa [encodeReport, bodyLength, List.set_append_right] using body

/-! ## The loop of the call -/

/-- What a report says of a record. -/
def FepDev.entry (d : FepDev) : ReportEntry := ⟨d.devType, d.devId, d.data, d.dataL⟩

/-- What the report says of a slot. -/
def entryOf (t : DevTable) (i : Polled) : ReportEntry := (t i.slot).entry

/-- The active slots among the given sweep positions. -/
def activeOf (t : DevTable) (loop : List Polled) : List Polled :=
  loop.filter fun i => (t i.slot).status = active

/-- One group more. -/
theorem writeEntry_holds (t : DevTable) {buff : Vector UInt8 100} {done : List Polled}
    (holds : Holds buff (entryBytes (done.map (entryOf t)))) (few : done.length < 6)
    (i : Polled) :
    let now := if (t i.slot).status = active then done ++ [i] else done
    Holds (writeEntry t (buff, done.length) i).1 (entryBytes (now.map (entryOf t))) ∧
      (writeEntry t (buff, done.length) i).2 = now.length := by
  have body : (entryBytes (done.map (entryOf t))).length = 3 * done.length := by
    rw [length_entryBytes, List.length_map]
  by_cases online : (t i.slot).status = active
  · simp only [writeEntry, online, ↓reduceIte, List.map_append, List.length_append,
      List.length_singleton, and_true]
    have first := holds.push (k := 3 + 3 * done.length + 0) (by omega) (by omega)
      ((t i.slot).devType + (t i.slot).devId)
    have second := first.push (k := 3 + 3 * done.length + 1)
      (by rw [List.length_append, body]; rfl)
      (by rw [List.length_append, body, List.length_singleton]; omega) (t i.slot).data
    have third := second.push (k := 3 + 3 * done.length + 2)
      (by rw [List.length_append, List.length_append, body]; rfl)
      (by simp only [List.length_append, body, List.length_singleton]; omega) (t i.slot).dataL
    simpa [entryBytes, List.flatMap_append, ReportEntry.bytes, entryOf, FepDev.entry] using third
  · simpa [writeEntry, online] using holds

/-- The loop writes the group of every active slot, in order. -/
theorem foldl_writeEntry_holds (t : DevTable) {buff : Vector UInt8 100} {done loop : List Polled}
    (holds : Holds buff (entryBytes (done.map (entryOf t))))
    (few : done.length + loop.length ≤ 6) :
    let final := loop.foldl (writeEntry t) (buff, done.length)
    Holds final.1 (entryBytes ((done ++ activeOf t loop).map (entryOf t))) ∧
      final.2 = (done ++ activeOf t loop).length := by
  induction loop generalizing buff done with
  | nil => simpa [activeOf] using holds
  | cons i rest ih =>
      rw [List.length_cons] at few
      obtain ⟨next, count⟩ := writeEntry_holds t holds (by omega) i
      rw [List.foldl_cons, ← Prod.mk.eta (p := writeEntry t (buff, done.length) i), count]
      by_cases online : (t i.slot).status = active
      · simp only [online, ↓reduceIte] at next ⊢
        have := ih next (by rw [List.length_append, List.length_singleton]; omega)
        simpa [activeOf, online] using this
      · simp only [online, ↓reduceIte] at next ⊢
        simpa [activeOf, online] using ih next (by omega)

/-- The entries of the active slots among `1..6`. -/
def activeEntries (t : DevTable) : List ReportEntry :=
  (activeOf t polledSlots).map (entryOf t)

theorem length_activeOf (t : DevTable) : (activeOf t polledSlots).length ≤ 6 :=
  Nat.le_trans (List.length_filter_le _ _) (by decide)

/-- With the lock, the datagram is the report of the active slots. -/
theorem sendGetValue_granted (stack : Vector UInt8 100) (t : DevTable) :
    sendGetValue stack true t = encodeReport (activeEntries t) := by
  obtain ⟨holds, count⟩ :=
    @foldl_writeEntry_holds t (startReport stack) [] polledSlots (Holds.start stack) (by decide)
  rw [List.nil_append] at holds count
  have finished := holds.finish (by rw [List.length_map]; exact length_activeOf t)
  rw [List.length_map, ← count] at finished
  unfold sendGetValue
  simp only [↓reduceIte]
  generalize polledSlots.foldl (writeEntry t) (startReport stack, 0) = final at finished ⊢
  exact finished

end FepMaster

import Mathlib.Data.List.GetD
import FepMaster.Lib.Hex

/-!
# Intel-HEX text

`convertToByteArray` of `Utilities/IntelHexUtil/intel_hex.c`, which reads pairs of hex digits from a
character buffer.  Buffer and destination are memory without an end; a run says what it stored
where, and which characters it took for digits.

The loop counts to the number of characters but takes two at a time, and looks for a terminator at
even places only.  `exists_stops` says where it stops, `convertToByteArray_exact_iff` when that is
where the digits end.
-/

namespace FepMaster

open Hex

/-! ## The function -/

/-- `'\0'`, `'\r'` or `'\n'`. -/
def IsTerminator (c : UInt8) : Prop := c = 0x00 ∨ c = 0x0D ∨ c = 0x0A

instance (c : UInt8) : Decidable (IsTerminator c) :=
  inferInstanceAs (Decidable (_ ∨ _))

/-- The value the function gives a digit: `'A'` is `0x41`, `'0'` is `0x30`. -/
def digitValue (c : UInt8) : UInt8 := if c > 0x39 then c - 0x41 + 10 else c - 0x30

/-- What a call returns, the bytes it stores with their indices in `destData`, and the places of
the characters it uses as digits. -/
structure Conversion where
  res : UInt8
  stores : List (UInt8 × Nat)
  digits : List Nat

/-- The loop with `i` turns left; `char` and `dest` are the places of the two pointers. -/
def convertLoop (charData : Nat → UInt8) : Nat → Nat → Nat → Conversion → Conversion
  | 0, _, _, c => c
  | i + 1, char, dest, c =>
      if ¬ IsTerminator (charData char) then
        let hByte := digitValue (charData char)
        let lByte := digitValue (charData (char + 1))
        convertLoop charData i (char + 2) (dest + 1)
          ⟨c.res + 1, c.stores ++ [(hByte <<< 4 ||| lByte, dest)], c.digits ++ [char, char + 1]⟩
      else c

/-- `convertToByteArray`; a colon is `0x3A`. -/
def convertToByteArray (charData : Nat → UInt8) (len : UInt8) : Conversion :=
  let (char, len) := if charData 0 = 0x3A then (1, len - 1) else (0, len)
  if len % 2 ≠ 0 then ⟨0, [], []⟩ else convertLoop charData len.toNat char 0 ⟨0, [], []⟩

/-! ## Buffers -/

/-- A buffer with `2 * n` characters given, after a colon or not; of these the first `digits` are
hex digits, and then there is a terminator or no more characters. -/
structure HexBuffer where
  charData : Nat → UInt8
  colon : Bool
  n : Nat
  digits : Nat
  fits : n ≤ 127
  marked : colon = true → charData 0 = 0x3A
  given : digits ≤ 2 * n
  hex : ∀ i < digits, IsDigit (charData (colon.toNat + i))
  ended : digits = 2 * n ∨ IsTerminator (charData (colon.toNat + digits))

namespace HexBuffer

/-- The length argument: the given characters and the colon. -/
def len (b : HexBuffer) : UInt8 := UInt8.ofNat (2 * b.n + b.colon.toNat)

/-- The complete pairs of digits. -/
def pairs (b : HexBuffer) : Nat := b.digits / 2

/-- The characters of these pairs. -/
def pairText (b : HexBuffer) : List UInt8 :=
  (List.range (2 * b.pairs)).map fun i => b.charData (b.colon.toNat + i)

/-- The same characters given, with something else behind them. -/
def SameGiven (b : HexBuffer) (charData : Nat → UInt8) : Prop :=
  ∀ i < b.colon.toNat + 2 * b.n, charData i = b.charData i

/-- The call decodes the pairs and nothing else. -/
structure ConvertsExactly (b : HexBuffer) : Prop where
  count : (convertToByteArray b.charData b.len).res.toNat = b.pairs
  bytes : ∃ bytes, bytes.length = b.pairs ∧ text bytes = b.pairText ∧
    (convertToByteArray b.charData b.len).stores = bytes.zipIdx
  noTerminator : ∀ i ∈ (convertToByteArray b.charData b.len).digits,
    ¬ IsTerminator (b.charData i)
  independent : ∀ charData, b.SameGiven charData →
    convertToByteArray charData b.len = convertToByteArray b.charData b.len

end HexBuffer

/-- The text of `bytes`, after a colon or not, decodes to `bytes` whatever follows it. -/
def RoundTrips (bytes : List UInt8) : Prop :=
  ∀ (colon : Bool) (charData : Nat → UInt8),
    (∀ i c, ((if colon then [0x3A] else []) ++ text bytes)[i]? = some c → charData i = c) →
    let c := convertToByteArray charData (UInt8.ofNat (2 * bytes.length + colon.toNat))
    c.res.toNat = bytes.length ∧ c.stores = bytes.zipIdx

/-! ## Where the loop stops -/

/-- The byte made of two characters. -/
def byteAt (charData : Nat → UInt8) (char : Nat) : UInt8 :=
  digitValue (charData char) <<< 4 ||| digitValue (charData (char + 1))

/-- What has been done after `k` turns. -/
def converted (charData : Nat → UInt8) (start k : Nat) : Conversion where
  res := UInt8.ofNat k
  stores := ((List.range k).map fun j => byteAt charData (start + 2 * j)).zipIdx
  digits := (List.range k).flatMap fun j => [start + 2 * j, start + 2 * j + 1]

/-- The loop stops before turn `k`: no terminator has been seen, and now there is one or the turns
are over. -/
structure Stops (charData : Nat → UInt8) (start turns k : Nat) : Prop where
  atMost : k ≤ turns
  passed : ∀ j < k, ¬ IsTerminator (charData (start + 2 * j))
  ended : k = turns ∨ IsTerminator (charData (start + 2 * k))

/-- One turn of the loop. -/
theorem converted_succ (charData : Nat → UInt8) (start k : Nat) :
    converted charData start (k + 1) =
      ⟨(converted charData start k).res + 1,
        (converted charData start k).stores ++ [(byteAt charData (start + 2 * k), k)],
        (converted charData start k).digits ++ [start + 2 * k, start + 2 * k + 1]⟩ := by
  simp only [converted, List.range_succ, List.map_append, List.map_singleton, List.zipIdx_append,
    List.length_map, List.length_range, List.flatMap_append, List.flatMap_singleton,
    UInt8.ofNat_add, Nat.zero_add]
  rfl

theorem convertLoop_stops (charData : Nat → UInt8) (start turns done : Nat)
    (passed : ∀ j < done, ¬ IsTerminator (charData (start + 2 * j))) :
    ∃ k, Stops charData start (done + turns) k ∧
      convertLoop charData turns (start + 2 * done) done (converted charData start done) =
        converted charData start k := by
  induction turns generalizing done with
  | zero => exact ⟨done, ⟨Nat.le_refl _, passed, .inl rfl⟩, rfl⟩
  | succ turns ih =>
      by_cases terminator : IsTerminator (charData (start + 2 * done))
      · refine ⟨done, ⟨Nat.le_add_right _ _, passed, .inr terminator⟩, ?_⟩
        rw [convertLoop, if_neg (not_not.mpr terminator)]
      · have further : ∀ j < done + 1, ¬ IsTerminator (charData (start + 2 * j)) := by
          intro j below
          rcases Nat.lt_succ_iff_lt_or_eq.mp below with earlier | rfl
          · exact passed j earlier
          · exact terminator
        obtain ⟨k, stops, result⟩ := ih (done + 1) further
        rw [Nat.add_right_comm, Nat.add_assoc] at stops
        refine ⟨k, stops, ?_⟩
        rw [convertLoop, if_pos terminator, ← result, converted_succ]
        rfl

/-- With nothing given nothing is done. -/
theorem convert_none {colon : Bool} {charData : Nat → UInt8}
    (marked : colon = true → charData 0 = 0x3A) :
    convertToByteArray charData (UInt8.ofNat colon.toNat) = ⟨0, [], []⟩ := by
  unfold convertToByteArray
  cases colon with
  | true =>
      rw [if_pos (marked rfl)]
      rfl
  | false =>
      by_cases first : charData 0 = 0x3A
      · rw [if_pos first]
        rfl
      · rw [if_neg first]
        rfl

/-! ## The characters of a buffer -/

theorem not_terminator_of_isDigit {c : UInt8} (digit : IsDigit c) : ¬ IsTerminator c := by
  rcases digit with ⟨v, rfl⟩
  exact (by decide : ∀ v, ¬ IsTerminator (Hex.digit v)) v

theorem not_colon_of_isDigit {c : UInt8} (digit : IsDigit c) : c ≠ 0x3A := by
  rcases digit with ⟨v, rfl⟩
  exact (by decide : ∀ v, Hex.digit v ≠ 0x3A) v

/-- A byte made of two digits has these digits. -/
theorem byteText_byteAt {charData : Nat → UInt8} {i : Nat} (high : IsDigit (charData i))
    (low : IsDigit (charData (i + 1))) :
    byteText (byteAt charData i) = [charData i, charData (i + 1)] := by
  have pairs : ∀ v w, byteText (digitValue (Hex.digit v) <<< 4 ||| digitValue (Hex.digit w)) =
      [Hex.digit v, Hex.digit w] := by decide +kernel
  rcases high with ⟨v, high⟩
  rcases low with ⟨w, low⟩
  rw [byteAt, ← high, ← low, pairs]

namespace HexBuffer

variable (b : HexBuffer)

/-- The place of the first character after the colon. -/
abbrev start : Nat := b.colon.toNat

theorem colon_iff (some : 0 < b.n) : b.charData 0 = 0x3A ↔ b.colon = true := by
  refine ⟨fun first => ?_, b.marked⟩
  cases none : b.colon with
  | true => rfl
  | false =>
      have hex := b.hex 0
      have ended := b.ended
      rw [none] at hex ended
      rcases Nat.eq_zero_or_pos b.digits with zero | positive
      · rw [zero] at ended
        rcases ended with last | terminator
        · omega
        · change IsTerminator (b.charData 0) at terminator
          rw [first] at terminator
          exact absurd terminator (by decide)
      · exact absurd first (not_colon_of_isDigit (hex positive))

/-- With characters given, the function gets into its loop, with the given number of turns. -/
theorem exists_stops (some : 0 < b.n) :
    ∃ k, Stops b.charData b.start (2 * b.n) k ∧
      convertToByteArray b.charData b.len = converted b.charData b.start k := by
  obtain ⟨k, stops, result⟩ := convertLoop_stops b.charData b.start (2 * b.n) 0
    fun j none => absurd none (Nat.not_lt_zero j)
  rw [Nat.zero_add] at stops
  refine ⟨k, stops, result ▸ ?_⟩
  have fits := b.fits
  have even : UInt8.ofNat (2 * b.n) % 2 = 0 := by
    apply UInt8.toNat_inj.mp
    have two : (2 : UInt8).toNat = 2 := rfl
    have zero : (0 : UInt8).toNat = 0 := rfl
    rw [UInt8.toNat_mod, UInt8.toNat_ofNat', two, zero]
    omega
  have turns : (UInt8.ofNat (2 * b.n)).toNat = 2 * b.n := by
    rw [UInt8.toNat_ofNat']
    omega
  have colon := b.colon_iff some
  rw [convertToByteArray, len, start]
  cases marked : b.colon with
  | true =>
      have less : UInt8.ofNat (2 * b.n + 1) - 1 = UInt8.ofNat (2 * b.n) := by
        rw [UInt8.ofNat_add]
        exact UInt8.add_sub_cancel _ _
      simp only [colon.mpr marked, Bool.toNat_true, if_true, less, even, ne_eq, not_true, if_false,
        turns]
      rfl
  | false =>
      have unmarked : b.charData 0 ≠ 0x3A := fun first => by
        rw [colon, marked] at first
        cases first
      simp only [unmarked, Bool.toNat_false, Nat.add_zero, if_false, even, ne_eq, not_true, turns]
      rfl

/-- Digits are not terminators, so all complete pairs are converted. -/
theorem pairs_le {k : Nat} (stops : Stops b.charData b.start (2 * b.n) k) : b.pairs ≤ k := by
  have given := b.given
  have half : 2 * b.pairs ≤ b.digits := Nat.mul_div_le _ _
  by_contra few
  rcases stops.ended with last | terminator
  · omega
  · exact not_terminator_of_isDigit (b.hex (2 * k) (by omega)) terminator

/-- An odd digit is paired with the terminator behind it. -/
theorem pairs_lt_of_odd {k : Nat} (stops : Stops b.charData b.start (2 * b.n) k)
    (odd : b.digits % 2 = 1) : b.pairs < k := by
  have given := b.given
  have least := b.pairs_le stops
  rw [pairs] at least ⊢
  by_contra few
  rcases stops.ended with last | terminator
  · omega
  · exact not_terminator_of_isDigit (b.hex (2 * k) (by omega)) terminator

/-- With digits to the end of the given characters the loop goes on behind them. -/
theorem pairs_lt_of_full {k : Nat} (stops : Stops b.charData b.start (2 * b.n) k)
    (some : 0 < b.n) (full : b.digits = 2 * b.n)
    (further : ¬ IsTerminator (b.charData (b.start + 2 * b.n))) : b.pairs < k := by
  have least := b.pairs_le stops
  rw [pairs, full, Nat.mul_div_cancel_left _ (Nat.succ_pos 1)] at least ⊢
  refine Nat.lt_of_le_of_ne least fun equal => ?_
  subst equal
  rcases stops.ended with last | terminator
  · omega
  · exact further terminator

/-- The loop stops at a terminator that follows complete pairs. -/
theorem eq_pairs {k : Nat} (stops : Stops b.charData b.start (2 * b.n) k)
    (even : b.digits % 2 = 0) (early : b.digits < 2 * b.n) : k = b.pairs := by
  have whole : 2 * b.pairs = b.digits := Nat.mul_div_cancel' (Nat.dvd_of_mod_eq_zero even)
  have terminator := b.ended.resolve_left (Nat.ne_of_lt early)
  refine Nat.le_antisymm (Nat.le_of_not_lt fun more => ?_) (b.pairs_le stops)
  apply stops.passed b.pairs more
  rw [whole]
  exact terminator

/-- The same characters given, before other memory. -/
def withRest {charData : Nat → UInt8} (same : b.SameGiven charData) : HexBuffer where
  charData := charData
  colon := b.colon
  n := b.n
  digits := b.digits
  fits := b.fits
  marked colon := by
    rw [same 0 (by rw [colon, Bool.toNat_true]; omega)]
    exact b.marked colon
  given := b.given
  hex i below := by
    have given := b.given
    rw [same _ (by omega)]
    exact b.hex i below
  ended := by
    have given := b.given
    rcases Nat.lt_or_eq_of_le given with early | full
    · rw [same _ (by omega)]
      exact b.ended
    · exact .inl full

end HexBuffer

/-! ## The results -/

theorem converted_res {charData : Nat → UInt8} {start turns k : Nat}
    (stops : Stops charData start turns k) (turnsFit : turns < 256) :
    (converted charData start k).res.toNat = k := by
  have atMost := stops.atMost
  rw [converted, UInt8.toNat_ofNat']
  omega

/-- What has been done after `k` turns depends on `2 * k` characters. -/
theorem converted_congr {charData charData' : Nat → UInt8} {start k : Nat}
    (same : ∀ i < start + 2 * k, charData' i = charData i) :
    converted charData' start k = converted charData start k := by
  have bytes : ∀ j ∈ List.range k,
      byteAt charData' (start + 2 * j) = byteAt charData (start + 2 * j) := by
    intro j member
    have below := List.mem_range.mp member
    rw [byteAt, byteAt, same _ (by omega), same _ (by omega)]
  rw [converted, converted, List.map_congr_left bytes]

namespace HexBuffer

variable (b : HexBuffer)

theorem convertsExactly_none (none : b.n = 0) : b.ConvertsExactly := by
  have given := b.given
  have noPairs : b.pairs = 0 := by
    unfold pairs
    omega
  have nothing : ∀ charData, b.SameGiven charData →
      convertToByteArray charData b.len = ⟨0, [], []⟩ := by
    intro charData same
    have empty : b.len = UInt8.ofNat b.colon.toNat := by
      rw [len, none, Nat.mul_zero, Nat.zero_add]
    rw [empty]
    exact convert_none (b.withRest same).marked
  have done := nothing b.charData fun _ _ => rfl
  refine ⟨?_, ⟨[], ?_⟩, ?_, ?_⟩
  · rw [done, noPairs]
    rfl
  · rw [done, pairText, noPairs]
    exact ⟨rfl, rfl, rfl⟩
  · rw [done]
    exact fun i used => absurd used List.not_mem_nil
  · intro charData same
    rw [done]
    exact nothing charData same

theorem convertsExactly_early (even : b.digits % 2 = 0) (early : b.digits < 2 * b.n) :
    b.ConvertsExactly := by
  have whole : 2 * b.pairs = b.digits := Nat.mul_div_cancel' (Nat.dvd_of_mod_eq_zero even)
  have fits := b.fits
  obtain ⟨k, stops, result⟩ := b.exists_stops (by omega)
  obtain rfl := b.eq_pairs stops even early
  refine ⟨?_, ⟨_, ?_, ?_, congrArg Conversion.stores result⟩, ?_, ?_⟩
  · rw [result]
    exact converted_res stops (by omega)
  · rw [List.length_map, List.length_range]
  · apply text_range
    intro j below
    exact byteText_byteAt (b.hex (2 * j) (by omega)) (b.hex (2 * j + 1) (by omega))
  · intro i used
    rw [result] at used
    obtain ⟨j, member, here⟩ := List.mem_flatMap.mp used
    have below := List.mem_range.mp member
    rcases List.mem_cons.mp here with rfl | second
    · exact not_terminator_of_isDigit (b.hex (2 * j) (by omega))
    · rw [List.mem_singleton.mp second]
      exact not_terminator_of_isDigit (b.hex (2 * j + 1) (by omega))
  · intro charData same
    obtain ⟨k, stops', result'⟩ := (b.withRest same).exists_stops (show 0 < b.n by omega)
    have equal : k = b.pairs := (b.withRest same).eq_pairs stops' even early
    subst equal
    refine Eq.trans result' (Eq.trans ?_ result.symm)
    have within : b.start + 2 * b.pairs ≤ b.start + 2 * b.n := by omega
    exact converted_congr fun i below => same i (Nat.lt_of_lt_of_le below within)

/-- A call that does not stop before the given characters end depends on what follows them. -/
theorem not_convertsExactly_full (some : 0 < b.n) (full : b.digits = 2 * b.n) :
    ¬ b.ConvertsExactly := by
  intro right
  have fits := b.fits
  let charData := Function.update b.charData (b.start + 2 * b.n) 0x30
  have same : b.SameGiven charData :=
    fun i below => Function.update_of_ne (Nat.ne_of_lt below) _ _
  have digit : charData (b.start + 2 * b.n) = 0x30 := Function.update_self _ _ _
  obtain ⟨k, stops, result⟩ := (b.withRest same).exists_stops some
  have more : b.pairs < k := (b.withRest same).pairs_lt_of_full stops some full (by
    change ¬ IsTerminator (charData (b.start + 2 * b.n))
    rw [digit]
    decide)
  have count := right.count
  rw [← right.independent charData same] at count
  have res := converted_res stops (by change 2 * b.n < 256; omega)
  rw [← result] at res
  exact absurd (count.symm.trans res) (Nat.ne_of_lt more)

theorem convertsExactly_iff :
    b.ConvertsExactly ↔ b.digits % 2 = 0 ∧ (b.digits < 2 * b.n ∨ b.n = 0) := by
  have given := b.given
  have fits := b.fits
  rcases Nat.eq_zero_or_pos b.n with none | some
  · exact ⟨fun _ => ⟨by omega, .inr none⟩, fun _ => b.convertsExactly_none none⟩
  constructor
  · intro right
    obtain ⟨k, stops, result⟩ := b.exists_stops some
    have count := right.count
    rw [result, converted_res stops (by omega)] at count
    have even : b.digits % 2 = 0 := by
      by_contra odd
      have more := b.pairs_lt_of_odd stops (by omega)
      omega
    refine ⟨even, .inl (Nat.lt_of_le_of_ne given fun full => ?_)⟩
    exact b.not_convertsExactly_full some full right
  · intro condition
    exact b.convertsExactly_early condition.1 (condition.2.resolve_right (by omega))

/-- The text of a byte string, with further digits behind it. -/
def ofBytes (bytes : List UInt8) (short : bytes.length ≤ 127) : HexBuffer where
  charData i := (text bytes).getD i 0x30
  colon := false
  n := bytes.length
  digits := 2 * bytes.length
  fits := short
  marked none := by cases none
  given := Nat.le_refl _
  hex i below := by
    have inside : (false.toNat + i) < (text bytes).length := by
      rw [length_text, Bool.toNat_false, Nat.zero_add]
      exact below
    rw [List.getD_eq_getElem _ _ inside]
    exact isDigit_of_mem_text (List.getElem_mem inside)
  ended := .inl rfl

end HexBuffer

theorem roundTrips_iff {bytes : List UInt8} (short : bytes.length ≤ 127) :
    RoundTrips bytes ↔ bytes = [] := by
  constructor
  · intro right
    by_contra some
    let b := HexBuffer.ofBytes bytes short
    have positive : 0 < b.n := List.length_pos_iff.mpr some
    obtain ⟨k, stops, result⟩ := b.exists_stops positive
    have more : b.pairs < k := b.pairs_lt_of_full stops positive rfl (by
      have behind : b.charData (b.start + 2 * b.n) = 0x30 := by
        apply List.getD_eq_default
        rw [length_text]
        exact Nat.le_add_left _ _
      rw [behind]
      decide)
    obtain ⟨count, -⟩ := right false b.charData fun i c here => by
      change (text bytes)[i]? = Option.some c at here
      change (text bytes).getD i 0x30 = c
      rw [List.getD_eq_getElem?_getD, here, Option.getD_some]
    change (convertToByteArray b.charData b.len).res.toNat = b.n at count
    rw [result, converted_res stops (by change 2 * bytes.length < 256; omega)] at count
    have whole : b.pairs = b.n := Nat.mul_div_cancel_left _ (Nat.succ_pos 1)
    omega
  · intro none colon charData characters
    subst none
    have done := @convert_none colon charData fun marked =>
      characters 0 0x3A (by rw [marked]; rfl)
    rw [List.length_nil, Nat.mul_zero, Nat.zero_add, done]
    exact ⟨rfl, rfl⟩

/-- **Decoding of Intel-HEX text** is exact exactly if the digits come in pairs and end at a
terminator among the given characters (or no characters are given); no text but the empty one
decodes to its bytes whatever follows it. -/
theorem convertToByteArray_exact_iff (b : HexBuffer)
    (bytes : {bytes : List UInt8 // bytes.length ≤ 127}) :
    (b.ConvertsExactly ↔ b.digits % 2 = 0 ∧ (b.digits < 2 * b.n ∨ b.n = 0)) ∧
      (RoundTrips bytes ↔ bytes.val = []) :=
  ⟨b.convertsExactly_iff, roundTrips_iff bytes.property⟩

/-- Of `4142` only the first two characters are given, and both pairs are converted. -/
theorem convertToByteArray_runs_on : ¬ ∀ b : HexBuffer, b.ConvertsExactly := by
  intro claim
  let b : HexBuffer :=
    { charData := fun i => [0x34, 0x31, 0x34, 0x32].getD i 0x00
      colon := false
      n := 1
      digits := 2
      fits := by decide
      marked := by decide
      given := by decide
      hex := fun i below => by
        rcases Nat.le_one_iff_eq_zero_or_eq_one.mp (Nat.le_of_lt_succ below) with rfl | rfl
        · exact ⟨4, rfl⟩
        · exact ⟨1, rfl⟩
      ended := .inl rfl }
  have count := (claim b).count
  exact absurd count (by decide)

end FepMaster

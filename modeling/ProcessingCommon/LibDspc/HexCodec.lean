import ProcessingCommon.Lib.PairCode
import ProcessingCommon.LibDspc.TypeIp

/-!
# Hex strings (`toHexStr` and `toHex` of `LibDspc.cpp`)

`toHex` is a loop with two states: the high digit of a byte is kept in `b` until the low one comes.
With an odd number of digits it starts behind the high digit, so the first byte has a single one.
A `char` is signed.
-/

namespace ProcessingCommon
namespace LibDspc

/-- `hexDigits`. -/
def hexDigits : Bytes :=
  ['0', '1', '2', '3', '4', '5', '6', '7', '8', '9', 'a', 'b', 'c', 'd', 'e', 'f'].map Char.toUInt8

/-- One pass of the loop in `toHexStr`. -/
def hexPush (strOut : Bytes) (ch : UInt8) : Bytes :=
  strOut ++ [hexDigits.getD (ch >>> 4).toNat 0] ++ [hexDigits.getD (ch &&& 0xF).toNat 0]

def toHexStr (strIn : Bytes) : Bytes := strIn.foldl hexPush []

/-- `digit` of the loop in `toHex`. -/
def hexDigit (ch : Int8) : Int8 :=
  if ch ≥ 'a'.toUInt8.toInt8 ∧ ch ≤ 'f'.toUInt8.toInt8 then ch - 'a'.toUInt8.toInt8 + 10
  else if ch ≥ 'A'.toUInt8.toInt8 ∧ ch ≤ 'F'.toUInt8.toInt8 then ch - 'A'.toUInt8.toInt8 + 10
  else if ch ≥ '0'.toUInt8.toInt8 ∧ ch ≤ '9'.toUInt8.toInt8 then ch - '0'.toUInt8.toInt8
  else 0

/-- The variables of the loop in `toHex`. -/
structure HexLoop where
  highByteDone : Bool
  b : Int8
  res : List Int8

/-- One pass of the loop in `toHex`. -/
def HexLoop.next (s : HexLoop) (c : UInt8) : HexLoop :=
  let digit := hexDigit c.toInt8
  if s.highByteDone then
    let b := s.b ||| digit
    { highByteDone := false, b := b, res := s.res ++ [b] }
  else { s with highByteDone := true, b := digit <<< 4 }

def toHex (strIn : Bytes) : List Int8 :=
  (strIn.foldl HexLoop.next { highByteDone := strIn.length % 2 = 1, b := 0, res := [] }).res

/-- `tolower` of the C locale. -/
def toLower (c : UInt8) : UInt8 :=
  if 'A'.toUInt8 ≤ c ∧ c ≤ 'Z'.toUInt8 then c + 32 else c

/-! ## Bytes as pairs of digits -/

/-- The digit that `toHexStr` writes. -/
def digitChar (d : Fin 16) : UInt8 := hexDigits.getD d.val 0

/-- The digit that `toHex` reads. -/
def digitValue (c : UInt8) : Fin 16 := Fin.ofNat 16 (hexDigit c.toInt8).toNatClampNeg

/-- A byte is its high digit and its low digit. -/
def hexCode : PairCode UInt8 (Fin 16) where
  split b := (Fin.ofNat 16 (b.toNat / 16), Fin.ofNat 16 b.toNat)
  join high low := UInt8.ofNat (16 * high.val + low.val)
  join_split b := by
    apply UInt8.toNat_inj.mp
    have := b.toNat_lt
    simp only [Fin.ofNat, UInt8.toNat_ofNat']
    omega
  split_join high low := by
    have hh := high.isLt
    have hl := low.isLt
    simp only [Prod.mk.injEq, Fin.ext_iff, Fin.ofNat, UInt8.toNat_ofNat']
    omega

/-- A fact about all bytes is checked byte by byte. -/
theorem forall_byte {p : UInt8 → Prop} (h : ∀ n : Fin 256, p (UInt8.ofFin n)) (c : UInt8) : p c :=
  h c.toFin

theorem digitValue_digitChar (d : Fin 16) : digitValue (digitChar d) = d := by
  revert d
  decide +kernel

theorem digitChar_digitValue {c : UInt8} (h : isHexDigit c = true) :
    digitChar (digitValue c) = toLower c := by
  revert c
  apply forall_byte
  decide +kernel

theorem hexDigit_eq (c : UInt8) : hexDigit c.toInt8 = Int8.ofNat (digitValue c).val := by
  revert c
  apply forall_byte
  decide +kernel

/-- What the two states of the loop make of two digits. -/
theorem join_eq (high low : Fin 16) :
    (Int8.ofNat high.val <<< 4 ||| Int8.ofNat low.val).toUInt8 = hexCode.join high low := by
  revert high low
  decide +kernel

theorem split_eq (ch : UInt8) :
    hexDigits.getD (ch >>> 4).toNat 0 = digitChar (hexCode.split ch).1 ∧
      hexDigits.getD (ch &&& 0xF).toNat 0 = digitChar (hexCode.split ch).2 := by
  revert ch
  apply forall_byte
  decide +kernel

/-! ## The two functions as writing and reading digits -/

theorem toHexStr_eq (strIn : Bytes) : toHexStr strIn = (hexCode.write strIn).map digitChar := by
  have general : ∀ strOut : Bytes,
      strIn.foldl hexPush strOut = strOut ++ (hexCode.write strIn).map digitChar := by
    induction strIn with
    | nil =>
      intro strOut
      exact (List.append_nil strOut).symm
    | cons ch strIn ih =>
      intro strOut
      rw [List.foldl_cons, ih, hexPush, (split_eq ch).1, (split_eq ch).2, PairCode.write,
        List.map_cons, List.map_cons, List.append_assoc, List.append_assoc]
      rfl
  exact general []

/-- Two passes make one byte of two digits. -/
theorem next_next (s : HexLoop) (high low : UInt8) (h : s.highByteDone = false) :
    ∃ b, ((s.next high).next low) = { highByteDone := false, b := b, res := s.res ++ [b] } ∧
      b.toUInt8 = hexCode.join (digitValue high) (digitValue low) := by
  refine ⟨hexDigit high.toInt8 <<< 4 ||| hexDigit low.toInt8, ?_, ?_⟩
  · unfold HexLoop.next
    rw [h]
    rfl
  · rw [hexDigit_eq, hexDigit_eq, join_eq]

/-- From a high digit on, the loop reads pairs. -/
theorem foldl_next : ∀ (strIn : Bytes) (s : HexLoop), s.highByteDone = false →
    (strIn.foldl HexLoop.next s).res.map Int8.toUInt8 =
      s.res.map Int8.toUInt8 ++ hexCode.read (strIn.map digitValue)
  | [], s, _ => (List.append_nil _).symm
  | [c], s, h => by
    have hstep : (s.next c).res = s.res := by
      unfold HexLoop.next
      rw [h]
      rfl
    rw [List.foldl_cons, List.foldl_nil, hstep]
    exact (List.append_nil _).symm
  | high :: low :: strIn, s, h => by
    obtain ⟨b, hnext, hb⟩ := next_next s high low h
    rw [List.foldl_cons, List.foldl_cons, hnext, foldl_next strIn _ rfl, List.map_append,
      List.append_assoc, List.map_cons (f := digitValue), List.map_cons (f := digitValue),
      PairCode.read, List.map_cons, hb]
    rfl

/-- The first pass of an odd number of digits joins the digit to a zero. -/
theorem next_odd (c : UInt8) :
    ∃ b, HexLoop.next { highByteDone := true, b := 0, res := [] } c =
        { highByteDone := false, b := b, res := [b] } ∧
      b.toUInt8 = hexCode.join 0 (digitValue c) := by
  refine ⟨0 ||| hexDigit c.toInt8, rfl, ?_⟩
  rw [hexDigit_eq, ← join_eq]
  rfl

theorem toHex_eq (strIn : Bytes) :
    (toHex strIn).map Int8.toUInt8 = hexCode.read (PairCode.pad 0 (strIn.map digitValue)) := by
  unfold toHex PairCode.pad
  rw [List.length_map]
  cases strIn with
  | nil => rfl
  | cons c strIn =>
    by_cases hodd : (c :: strIn).length % 2 = 1
    · obtain ⟨b, hnext, hb⟩ := next_odd c
      rw [if_pos hodd, decide_eq_true hodd, List.foldl_cons, hnext, foldl_next strIn _ rfl,
        List.map_cons (f := digitValue), PairCode.read, List.map_cons, hb]
      rfl
    · rw [if_neg hodd, decide_eq_false hodd, foldl_next _ _ rfl]
      rfl

/-- Reading what was written gives the bytes, and writing what was read gives the digits in lower
case, behind a zero if their number is odd. -/
theorem hex_roundTrip :
    (∀ s : Bytes, (toHex (toHexStr s)).map Int8.toUInt8 = s) ∧
    ∀ h : Bytes, (∀ c ∈ h, isHexDigit c = true) →
      toHexStr ((toHex h).map Int8.toUInt8) =
        (if h.length % 2 = 1 then ['0'.toUInt8] else []) ++ h.map toLower := by
  constructor
  · intro s
    have hback : (hexCode.write s).map (digitValue ∘ digitChar) = hexCode.write s :=
      List.map_id'' digitValue_digitChar _
    rw [toHexStr_eq, toHex_eq, List.map_map, hback, PairCode.read_pad_write]
  · intro h hdigits
    have hlower : (h.map digitValue).map digitChar = h.map toLower := by
      rw [List.map_map]
      exact List.map_congr_left fun c hc => digitChar_digitValue (hdigits c hc)
    rw [toHexStr_eq, toHex_eq, PairCode.write_read_pad, PairCode.pad, List.length_map]
    split
    · rw [List.map_cons, hlower]
      rfl
    · rw [hlower]
      rfl

/-- The first digit of three is a byte of its own, and the last byte is negative as a `char`. -/
theorem hex_roundTrip_odd :
    toHexStr ((toHex (['4', 'a', 'F'].map Char.toUInt8)).map Int8.toUInt8) =
      ['0', '4', 'a', 'f'].map Char.toUInt8 :=
  (hex_roundTrip.2 (['4', 'a', 'F'].map Char.toUInt8) (by decide +kernel)).trans (by decide +kernel)

end LibDspc
end ProcessingCommon

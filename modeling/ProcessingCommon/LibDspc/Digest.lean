import ProcessingCommon.LibDspc.HexCodec

/-!
# Digests as text (`isValidSha256` of `LibDspc.cpp`)

The texts that pass are those that write 32 bytes in hex digits of either case. Which bytes they
write is what `toHex` reads.
-/

namespace ProcessingCommon
namespace LibDspc

/-- `SHA256::DIGESTSIZE`. -/
def digestSize : Nat := 32

/-- The pass of the loop goes on. -/
def digestCharOk (ch : Int8) : Bool :=
  (decide (ch ≥ '0'.toUInt8.toInt8) && decide (ch ≤ '9'.toUInt8.toInt8)) ||
  (decide (ch ≥ 'a'.toUInt8.toInt8) && decide (ch ≤ 'f'.toUInt8.toInt8)) ||
  (decide (ch ≥ 'A'.toUInt8.toInt8) && decide (ch ≤ 'F'.toUInt8.toInt8))

def isValidSha256 (digest : Bytes) : Bool :=
  if digest.length ≠ digestSize <<< 1 then false else digest.all fun ch => digestCharOk ch.toInt8

/-- The text writes the bytes, in lower or upper case. -/
def Writes (text bs : Bytes) : Prop := text.map toLower = toHexStr bs

variable {text bs : Bytes} {c : UInt8}

/-- The digits are the characters that `toHexStr` writes, or their capitals. -/
theorem digestCharOk_iff (c : UInt8) :
    digestCharOk c.toInt8 = true ↔ digitChar (digitValue c) = toLower c := by
  revert c
  apply forall_byte
  decide +kernel

theorem digitValue_toLower (c : UInt8) : digitValue (toLower c) = digitValue c := by
  revert c
  apply forall_byte
  decide +kernel

theorem Writes.digits (h : Writes text bs) : text.map digitValue = hexCode.write bs := by
  have hlower : text.map digitValue = (text.map toLower).map digitValue := by
    rw [List.map_map]
    exact List.map_congr_left fun c _ => (digitValue_toLower c).symm
  rw [hlower, h, toHexStr_eq, List.map_map]
  exact List.map_id'' digitValue_digitChar _

theorem Writes.length (h : Writes text bs) : text.length = 2 * bs.length := by
  rw [← hexCode.write_length bs, ← h.digits, List.length_map]

/-- `toHex` reads the bytes that a text writes. -/
theorem Writes.toHex (h : Writes text bs) : (LibDspc.toHex text).map Int8.toUInt8 = bs := by
  rw [toHex_eq, h.digits, hexCode.read_pad_write]

/-- Only digits write something. -/
theorem Writes.ok (h : Writes text bs) : ∀ c ∈ text, digestCharOk c.toInt8 = true := by
  intro c hc
  rw [digestCharOk_iff]
  have hmem : toLower c ∈ (hexCode.write bs).map digitChar := by
    rw [← toHexStr_eq, ← h]
    exact List.mem_map_of_mem hc
  obtain ⟨d, -, hd⟩ := List.mem_map.mp hmem
  rw [← hd, ← digitValue_toLower, ← hd, digitValue_digitChar]

/-- Digits in pairs write bytes. -/
theorem writes_read (heven : text.length % 2 = 0) (h : ∀ c ∈ text, digestCharOk c.toInt8 = true) :
    Writes text (hexCode.read (text.map digitValue)) := by
  rw [Writes, toHexStr_eq, hexCode.write_read (by rwa [List.length_map]), List.map_map]
  exact List.map_congr_left fun c hc => ((digestCharOk_iff c).mp (h c hc)).symm

/-- The valid texts are those that write a digest, and `toHex` gives this digest. -/
theorem isValidSha256_iff (text : Bytes) :
    (isValidSha256 text = true ↔ ∃ bs, bs.length = digestSize ∧ Writes text bs) ∧
      ∀ bs, Writes text bs → (LibDspc.toHex text).map Int8.toUInt8 = bs := by
  refine ⟨?_, fun bs h => h.toHex⟩
  unfold isValidSha256
  constructor
  · intro hvalid
    split at hvalid
    · cases hvalid
    next hlen =>
    have hlen' : text.length = 64 := not_not.mp hlen
    have hwrites := writes_read (by omega) (List.all_eq_true.mp hvalid)
    have htwice := hwrites.length
    exact ⟨_, by rw [digestSize]; omega, hwrites⟩
  · rintro ⟨bs, hbs, hwrites⟩
    have hlen : text.length = digestSize <<< 1 := by
      rw [hwrites.length, hbs]
      rfl
    rw [if_neg (not_not.mpr hlen), List.all_eq_true]
    exact hwrites.ok

end LibDspc
end ProcessingCommon

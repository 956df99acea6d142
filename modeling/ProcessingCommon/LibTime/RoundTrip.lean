import ProcessingCommon.LibTime.LocalTime

/-!
# From a time point to its text and back

`tpToStr` prints the local time and `strToTp` reads all its fields back, but not whether daylight
saving was in force: the `tm` it starts from says that it was not, and `mktime` takes the fields for
a standard time.
-/

namespace ProcessingCommon
namespace LibTime

open CString LibDspc

variable {z : Zone} {lib : Mktime z} {tm acc : Tm} {tp : TimePoint} {r : Bytes}

/-! ## Reading back what was printed -/

/-- A year that two digits stand for: 1969 to 2068. -/
def Tm.Covered (tm : Tm) : Prop := 69 ≤ tm.tm_year ∧ tm.tm_year ≤ 168

instance : Decidable tm.Covered := inferInstanceAs (Decidable (_ ∧ _))

/-- The field of a conversion is taken from `tm`. -/
def Tm.take (tm acc : Tm) : FmtItem → Tm
  | .lit _ => acc
  | .conv .Y | .conv .y => { acc with tm_year := tm.tm_year }
  | .conv .m => { acc with tm_mon := tm.tm_mon }
  | .conv .d => { acc with tm_mday := tm.tm_mday }
  | .conv .H => { acc with tm_hour := tm.tm_hour }
  | .conv .M => { acc with tm_min := tm.tm_min }
  | .conv .S => { acc with tm_sec := tm.tm_sec }

/-- Text that does not begin with a blank. -/
def beginsSolid : List FmtItem → Bool
  | [] => true
  | .lit c :: _ => !isSpace c.toUInt8
  | .conv _ :: _ => true

/-- Each conversion has two digits, and a blank is followed by something else. -/
def Readable : List FmtItem → Bool
  | [] => true
  | .lit c :: fmt => (!isSpace c.toUInt8 || beginsSolid fmt) && Readable fmt
  | .conv c :: fmt => decide (c ≠ .Y) && Readable fmt

theorem getNum_fixed {w n : Nat} {lo hi : Int} (hw : 0 < w) (hn : n < 10 ^ w) (hlo : lo ≤ n)
    (hhi : n ≤ hi) : getNum w lo hi (fixed w n ++ r) = some ((n : Int), r) := by
  have htake : (fixed w n ++ r).take w = fixed w n := List.take_left' (fixed_length w n)
  have hdrop : (fixed w n ++ r).drop w = r := List.drop_left' (fixed_length w n)
  rw [getNum, htake, takeWhile_fixed, digitsValue_fixed hn, if_pos ⟨fixed_ne_nil hw n, hlo, hhi⟩,
    fixed_length, hdrop]

theorem getNum_twoDigits {n lo hi : Int} (h0 : 0 ≤ n) (h : n < 100) (hlo : lo ≤ n) (hhi : n ≤ hi) :
    getNum 2 lo hi (twoDigits n ++ r) = some (n, r) := by
  obtain ⟨k, rfl⟩ := Int.eq_ofNat_of_zero_le h0
  rw [twoDigits_eq h0 h, Int.toNat_natCast]
  exact getNum_fixed (by decide) (by omega) hlo hhi

theorem yearOfTwo_mod (h : tm.Covered) : yearOfTwo (tm.tm_year % 100) = tm.tm_year := by
  unfold Tm.Covered at h
  unfold yearOfTwo
  split <;> omega

/-- A field is read back from its two digits. -/
theorem getConv_convText (hv : tm.Valid) (hy : tm.Covered) {c : Conv} (hc : c ≠ .Y) :
    getConv acc (convText tm c ++ r) c = some (tm.take acc (.conv c), r) := by
  obtain ⟨hs, hmin, hh, hd, hm⟩ := hv
  cases c with
  | Y => exact absurd rfl hc
  | y =>
    rw [convText, getConv, getNum_twoDigits (by omega) (by omega) (by omega) (by omega),
      Option.map_some, yearOfTwo_mod hy]
    rfl
  | m =>
    rw [convText, getConv, getNum_twoDigits (by omega) (by omega) (by omega) (by omega),
      Option.map_some, Int.add_sub_cancel]
    rfl
  | d | H | M | S =>
    rw [convText, getConv, getNum_twoDigits (by omega) (by omega) (by omega) (by omega)]
    rfl

theorem getItem_itemText (hv : tm.Valid) (hy : tm.Covered) {i : FmtItem} (hi : i ≠ .conv .Y)
    (hblank : ∀ c, i = .lit c → isSpace c.toUInt8 = true → r.dropWhile isSpace = r) :
    getItem acc (itemText tm i ++ r) i = some (tm.take acc i, r) := by
  cases i with
  | lit c =>
    rw [itemText, List.singleton_append, getItem]
    split
    · next h => rw [List.dropWhile_cons_of_pos h, hblank c rfl h, Tm.take]
    · rw [if_pos (by rfl), List.tail_cons, Tm.take]
  | conv c => exact getConv_convText hv hy fun h => hi (by rw [h])

/-- Two digits do not begin with a blank. -/
theorem dropWhile_twoDigits {n : Int} (h0 : 0 ≤ n) (h : n < 100) :
    (twoDigits n ++ r).dropWhile isSpace = twoDigits n ++ r := by
  obtain ⟨d, s, hs, hd⟩ := fixed_succ_cons 1 n.toNat
  rw [twoDigits_eq h0 h, hs, List.cons_append,
    List.dropWhile_cons_of_neg (by rw [(isDigit_ne hd).2.1]; exact Bool.false_ne_true)]

theorem dropWhile_flatMap (hv : tm.Valid) {fmt : List FmtItem} (hr : Readable fmt = true)
    (hs : beginsSolid fmt = true) :
    (fmt.flatMap (itemText tm)).dropWhile isSpace = fmt.flatMap (itemText tm) := by
  obtain ⟨hsec, hmin, hh, hd, hm⟩ := hv
  cases fmt with
  | nil => rfl
  | cons i fmt =>
    rw [List.flatMap_cons]
    cases i with
    | lit c =>
      rw [beginsSolid, Bool.not_eq_true'] at hs
      rw [itemText, List.singleton_append,
        List.dropWhile_cons_of_neg (by rw [hs]; exact Bool.false_ne_true)]
    | conv c =>
      cases c with
      | Y => cases hr
      | y | m | d | H | M | S => exact dropWhile_twoDigits (by omega) (by omega)

theorem readable_cons {i : FmtItem} {fmt : List FmtItem} (h : Readable (i :: fmt) = true) :
    Readable fmt = true ∧ i ≠ .conv .Y ∧
      ∀ c, i = .lit c → isSpace c.toUInt8 = true → beginsSolid fmt = true := by
  cases i with
  | lit c =>
    rw [Readable, Bool.and_eq_true, Bool.or_eq_true, Bool.not_eq_true'] at h
    refine ⟨h.2, nofun, ?_⟩
    rintro e he hc
    cases he
    exact h.1.resolve_left fun hn => absurd (hn.symm.trans hc) Bool.false_ne_true
  | conv c =>
    rw [Readable, Bool.and_eq_true, decide_eq_true_eq] at h
    exact ⟨h.2, fun hi => h.1 (FmtItem.conv.inj hi), nofun⟩

/-- What was printed is read back field by field. -/
theorem getItems_flatMap (hv : tm.Valid) (hy : tm.Covered) {fmt : List FmtItem}
    (hr : Readable fmt = true) :
    getItems fmt acc (fmt.flatMap (itemText tm)) = some (fmt.foldl tm.take acc) := by
  induction fmt generalizing acc with
  | nil => rfl
  | cons i fmt ih =>
    obtain ⟨hrest, hne, hblank⟩ := readable_cons hr
    rw [List.flatMap_cons, getItems, getItem_itemText hv hy hne fun c hc hspace =>
      dropWhile_flatMap hv hrest (hblank c hc hspace), Option.bind_some, List.foldl_cons]
    exact ih hrest

/-- All fields come back but the one that the format does not have. -/
theorem getTime_default (hv : tm.Valid) (hy : tm.Covered) :
    getTime fmtDefault {} (fmtDefault.flatMap (itemText tm)) = some { tm with tm_isdst := 0 } := by
  have hne : fmtDefault.flatMap (itemText tm) ≠ [] := by
    intro h
    have hlen := congrArg List.length h
    simp [fmtDefault, itemText] at hlen
  rw [getTime, dropWhile_flatMap hv (by decide) (by decide), if_neg hne,
    getItems_flatMap hv hy (by decide)]
  rfl

/-- The text has room in the buffer of `tpToStr`. -/
theorem tpToStr_default (z : Zone) (tp : TimePoint) :
    tpToStr z tp none = fmtDefault.flatMap (itemText (z.localtime (toTimeT tp))) := by
  obtain ⟨hs, hmin, hh, hd, hm⟩ := localtime_valid z (toTimeT tp)
  have hroom : (fmtDefault.flatMap (itemText (z.localtime (toTimeT tp)))).length < 32 := by
    simp only [fmtDefault, List.flatMap_cons, List.flatMap_nil, itemText, convText,
      List.length_append, List.length_singleton, List.length_nil]
    rw [twoDigits_length hs.1 (by omega), twoDigits_length hmin.1 (by omega),
      twoDigits_length hh.1 (by omega), twoDigits_length (by omega) (by omega),
      twoDigits_length (by omega) (by omega), twoDigits_length (by omega) (by omega)]
    omega
  rw [tpToStr, Option.getD_none, strftime, if_pos hroom, Option.getD_some]

/-! ## The instant that is read -/

/-- `tp` without its fraction. -/
def truncated (tp : TimePoint) : TimePoint := fromTimeT (toTimeT tp)

theorem fromTimeT_toInt (t : Int) :
    (fromTimeT t).toInt = (t * nanosPerSec).bmod (2 ^ 64) :=
  Int64.toInt_ofInt

/-- Instants that are less than 2^32 seconds apart are told apart as time points. -/
theorem fromTimeT_inj {s t : Int} (hlo : -2 ^ 32 < s - t) (hhi : s - t < 2 ^ 32) :
    fromTimeT s = fromTimeT t ↔ s = t := by
  constructor
  · intro h
    have hint := congrArg Int64.toInt h
    rw [fromTimeT_toInt, fromTimeT_toInt, Int.bmod_eq_bmod_iff_bmod_sub_eq_zero, ← Int.sub_mul,
      nanosPerSec, Int.bmod_eq_of_le (by omega) (by omega)] at hint
    omega
  · intro h
    rw [h]

/-- Where the standard offset stays the same, a standard time is that of one instant. -/
theorem definite_of_steady {offset : Int} (h : ∀ t, z.stdOffset t = offset) (s : Int) :
    z.Definite s := by
  refine ⟨s - offset, ?_, fun t ht => ?_⟩
  · rw [Zone.standardSec, h]
    omega
  · rw [Zone.standardSec, h] at ht
    omega

/-- The text is taken for a standard time. -/
theorem strToTp_tpToStr (lib : Mktime z) (tp : TimePoint)
    (hy : (z.localtime (toTimeT tp)).Covered) (hd : z.Definite (z.localSec (toTimeT tp))) :
    ∃ t, strToTp lib (tpToStr z tp none) none = fromTimeT t ∧
      z.standardSec t = z.localSec (toTimeT tp) := by
  have hgm : timegm { z.localtime (toTimeT tp) with tm_isdst := 0 } = z.localSec (toTimeT tp) :=
    timegm_localtime z (toTimeT tp)
  refine ⟨lib.mktime { z.localtime (toTimeT tp) with tm_isdst := 0 }, ?_, ?_⟩
  · rw [strToTp, tpToStr_default, Option.getD_none, getTime_default (localtime_valid z _) hy]
  · rw [lib.standard _ rfl (by rw [hgm]; exact hd), hgm]

/-- In the years that two digits stand for, a time point comes back to the second exactly where
daylight saving is not in force at it. Its local time has to be the standard time of one instant,
which it always is where the standard offset stays the same. -/
theorem strToTp_tpToStr_iff (z : Zone) (lib : Mktime z) (tp : TimePoint)
    (hy : (z.localtime (toTimeT tp)).Covered) (hd : z.Definite (z.localSec (toTimeT tp))) :
    strToTp lib (tpToStr z tp none) none = truncated tp ↔ z.saving (toTimeT tp) = 0 := by
  obtain ⟨t, ht, hstd⟩ := strToTp_tpToStr lib tp hy hd
  have hbounds := z.stdOffset_bounds t
  have hbounds' := z.offset_bounds (toTimeT tp)
  rw [ht, truncated, fromTimeT_inj (by rw [Zone.standardSec, Zone.localSec] at hstd; omega)
    (by rw [Zone.standardSec, Zone.localSec] at hstd; omega)]
  constructor
  · rintro rfl
    rw [Zone.standardSec, Zone.localSec] at hstd
    omega
  · intro hsave
    obtain ⟨u, -, hunique⟩ := hd
    rw [hunique t hstd]
    refine (hunique _ ?_).symm
    rw [Zone.standardSec, Zone.localSec, hsave, Int.add_zero]

/-- Central Europe in 2023: an hour is added from 26 March to 29 October. -/
def centralEurope : Zone where
  stdOffset := fun _ => 3600
  saving := fun t => if 1679792400 ≤ t ∧ t < 1698541200 then 3600 else 0
  stdOffset_bounds := fun _ => by decide
  offset_bounds := fun t => by split <;> decide

/-- The `mktime` of that zone. A time whose `tm_isdst` is negative is a daylight time where one is
in force. -/
def centralEuropeMktime : Mktime centralEurope where
  mktime tm :=
    let summer := timegm tm - 7200
    let winter := timegm tm - 3600
    if tm.tm_isdst = 0 then winter
    else if 0 < tm.tm_isdst ∨ centralEurope.saving summer ≠ 0 then summer else winter
  standard := by
    intro tm hdst _
    rw [if_pos hdst]
    exact Int.sub_add_cancel _ _

/-- 2023-01-15 12:00:00.123 UTC. -/
theorem strToTp_tpToStr_winter :
    strToTp centralEuropeMktime (tpToStr centralEurope 1673784000123000000 none) none =
      truncated 1673784000123000000 :=
  (strToTp_tpToStr_iff centralEurope centralEuropeMktime 1673784000123000000
    (by decide +kernel) (definite_of_steady (fun _ => rfl) _)).mpr (by decide +kernel)

/-- 2023-07-01 12:00:00 UTC is printed as `01.07.23 14:00:00` and read as an hour later. -/
theorem strToTp_tpToStr_fails : ¬ ∀ (z : Zone) (lib : Mktime z) (tp : TimePoint),
    (z.localtime (toTimeT tp)).Covered →
    (∀ t, z.localSec t = z.localSec (toTimeT tp) → t = toTimeT tp) →
    strToTp lib (tpToStr z tp none) none = truncated tp := by
  intro h
  have htime : toTimeT 1688212800000000000 = 1688212800 := by decide +kernel
  refine absurd (h centralEurope centralEuropeMktime 1688212800000000000 (by decide +kernel) ?_)
    (by decide +kernel)
  intro t ht
  rw [htime] at ht ⊢
  simp only [Zone.localSec, centralEurope] at ht
  split at ht <;> omega

end LibTime
end ProcessingCommon

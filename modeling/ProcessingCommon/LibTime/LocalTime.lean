import ProcessingCommon.LibTime.Model

/-!
# The fields of a local time

They are in the ranges of their conversions, so a field of two digits is printed with two digits,
and they determine the second they were taken from.
-/

namespace ProcessingCommon
namespace LibTime

open CString LibDspc

/-- The fields of a date and a time of day. -/
structure Tm.Valid (tm : Tm) : Prop where
  sec : 0 ≤ tm.tm_sec ∧ tm.tm_sec < 60
  min : 0 ≤ tm.tm_min ∧ tm.tm_min < 60
  hour : 0 ≤ tm.tm_hour ∧ tm.tm_hour < 24
  mday : 1 ≤ tm.tm_mday ∧ tm.tm_mday ≤ 31
  mon : 0 ≤ tm.tm_mon ∧ tm.tm_mon < 12

variable {z : Zone} {t : Int} {tp : TimePoint}

theorem gmtime_valid (t : Int) : (gmtime t).Valid := by
  have hd := CivilDate.ofDays_day (t / 86400)
  have hm := CivilDate.ofDays_month (t / 86400)
  constructor <;> dsimp only [gmtime] <;> omega

theorem localtime_valid (z : Zone) (t : Int) : (z.localtime t).Valid := by
  obtain ⟨hs, hmin, hh, hd, hm⟩ := gmtime_valid (z.localSec t)
  exact ⟨hs, hmin, hh, hd, hm⟩

theorem timegm_gmtime (t : Int) : timegm (gmtime t) = t := by
  have hdate : (⟨(gmtime t).tm_year + 1900, (gmtime t).tm_mon + 1, (gmtime t).tm_mday⟩ :
      CivilDate) = CivilDate.ofDays (t / 86400) := by
    simp only [gmtime, Int.sub_add_cancel]
  rw [timegm, hdate, CivilDate.toDays_ofDays]
  dsimp only [gmtime]
  omega

theorem timegm_localtime (z : Zone) (t : Int) : timegm (z.localtime t) = z.localSec t :=
  timegm_gmtime (z.localSec t)

/-- One time is before another by the first field in which they differ. -/
def Tm.Before (a b : Tm) : Prop :=
  a.tm_year < b.tm_year ∨ a.tm_year = b.tm_year ∧
    (a.tm_mon < b.tm_mon ∨ a.tm_mon = b.tm_mon ∧
      (a.tm_mday < b.tm_mday ∨ a.tm_mday = b.tm_mday ∧
        (a.tm_hour < b.tm_hour ∨ a.tm_hour = b.tm_hour ∧
          (a.tm_min < b.tm_min ∨ a.tm_min = b.tm_min ∧ a.tm_sec < b.tm_sec))))

theorem gmtime_before {t t' : Int} (h : t < t') : (gmtime t).Before (gmtime t') := by
  have hm := CivilDate.ofDays_month (t / 86400)
  have hm' := CivilDate.ofDays_month (t' / 86400)
  have hday : t / 86400 ≤ t' / 86400 := by omega
  unfold Tm.Before
  dsimp only [gmtime]
  rcases Int.lt_or_eq_of_le hday with hlt | heq
  · have hdate := CivilDate.ofDays_lt hlt
    unfold CivilDate.months at hdate
    omega
  · rw [heq]
    omega

/-! ## Two digits -/

theorem decimalInt_of_nonneg {n : Int} (h : 0 ≤ n) : decimalInt n = decimal n.toNat := by
  cases n with
  | ofNat n => rfl
  | negSucc n => exact absurd h (by omega)

theorem twoDigits_eq {n : Int} (h0 : 0 ≤ n) (h : n < 100) : twoDigits n = fixed 2 n.toNat := by
  rw [twoDigits, decimalInt_of_nonneg h0, setw_decimal_of_lt (by decide)]
  omega

theorem twoDigits_length {n : Int} (h0 : 0 ≤ n) (h : n < 100) : (twoDigits n).length = 2 := by
  rw [twoDigits_eq h0 h, fixed_length]

/-! ## The clock -/

theorem toInt_split (tp : TimePoint) : tp.toInt = toTimeT tp * nanosPerSec + nanoSec tp := by
  rw [nanoSec]
  omega

theorem nanoSec_eq_tmod (tp : TimePoint) : nanoSec tp = tp.toInt.tmod nanosPerSec := by
  rw [nanoSec, toTimeT, Int.tmod_def, Int.mul_comm]

/-- The fraction that `to_time_t` drops has the sign of the time. -/
theorem nanoSec_bounds (tp : TimePoint) :
    (0 ≤ tp.toInt → 0 ≤ nanoSec tp ∧ nanoSec tp < nanosPerSec) ∧
      (tp.toInt ≤ 0 → -nanosPerSec < nanoSec tp ∧ nanoSec tp ≤ 0) := by
  rw [nanoSec, toTimeT]
  constructor
  · intro h
    rw [Int.tdiv_eq_ediv_of_nonneg h]
    unfold nanosPerSec
    omega
  · intro h
    obtain ⟨m, hm⟩ : ∃ m, tp.toInt = -m := ⟨-tp.toInt, (Int.neg_neg _).symm⟩
    rw [hm, Int.neg_tdiv, Int.tdiv_eq_ediv_of_nonneg (by omega)]
    unfold nanosPerSec
    omega

/-- A time point is less than 300 years from the epoch. -/
theorem toTimeT_bounds (tp : TimePoint) : -9300000000 < toTimeT tp ∧ toTimeT tp < 9300000000 := by
  have hlo := tp.le_toInt
  have hhi := tp.toInt_lt
  have hb := nanoSec_bounds tp
  unfold nanoSec nanosPerSec at hb
  omega

/-- A year of four digits. -/
theorem localtime_year (z : Zone) (tp : TimePoint) :
    1600 ≤ (z.localtime (toTimeT tp)).tm_year + 1900 ∧
      (z.localtime (toTimeT tp)).tm_year + 1900 ≤ 2400 := by
  have ht := toTimeT_bounds tp
  have hz := z.offset_bounds (toTimeT tp)
  have hy := CivilDate.ofDays_year (z.localSec (toTimeT tp) / 86400)
  show 1600 ≤ (CivilDate.ofDays (z.localSec (toTimeT tp) / 86400)).year - 1900 + 1900 ∧
    (CivilDate.ofDays (z.localSec (toTimeT tp) / 86400)).year - 1900 + 1900 ≤ 2400
  unfold Zone.localSec at hy ⊢
  omega

end LibTime
end ProcessingCommon

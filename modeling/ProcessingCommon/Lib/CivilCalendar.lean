import Mathlib.Tactic.Common

/-!
# Days and dates

The proleptic Gregorian calendar as a numbering of days. A year is taken to begin in March, so that
the leap day is its last day, and 400 of these years make an era of 146097 days.
-/

/-- A date; months and days are counted from 1. -/
structure CivilDate where
  year : Int
  month : Int
  day : Int
deriving DecidableEq

namespace CivilDate

/-- The day in its era on which a year begins. -/
def yearStart (y : Int) : Int := 365 * y + y / 4 - y / 100

/-- The day in its year on which a month begins; March is month 0. -/
def monthStart (m : Int) : Int := (153 * m + 2) / 5

/-- The number of a date in days from 1970-01-01 on. -/
def toDays (c : CivilDate) : Int :=
  let year := if c.month ≤ 2 then c.year - 1 else c.year
  let m := if c.month ≤ 2 then c.month + 9 else c.month - 3
  year / 400 * 146097 + yearStart (year % 400) + monthStart m + c.day - 719469

/-- The century of its era in which a day is; the last one is a day longer. -/
def centuryOf (d : Int) : Int := min (d / 36524) 3

/-- The year of a cycle of four, the last of which is a day longer. -/
def cycleYearOf (d : Int) : Int := min (d / 365) 3

/-- The year of its era in which a day is. -/
def yearOf (d : Int) : Int :=
  let inCentury := d - 36524 * centuryOf d
  100 * centuryOf d + 4 * (inCentury / 1461) + cycleYearOf (inCentury % 1461)

/-- The month in which a day of the year is. -/
def monthOf (dayOfYear : Int) : Int := (5 * dayOfYear + 2) / 153

def ofDays (z : Int) : CivilDate :=
  let d := (z + 719468) % 146097
  let dayOfYear := d - yearStart (yearOf d)
  let m := monthOf dayOfYear
  let year := (z + 719468) / 146097 * 400 + yearOf d
  { year := if m < 10 then year else year + 1
    month := if m < 10 then m + 3 else m - 9
    day := dayOfYear - monthStart m + 1 }

example : ofDays 0 = ⟨1970, 1, 1⟩ ∧ ofDays 11016 = ⟨2000, 2, 29⟩ ∧
    ofDays 36159 = ⟨2068, 12, 31⟩ := by
  decide

variable {d d' n z z' : Int}

/-! ## Ranges -/

theorem centuryOf_bounds (h0 : 0 ≤ d) (h1 : d < 146097) :
    (0 ≤ centuryOf d ∧ centuryOf d ≤ 3) ∧
      0 ≤ d - 36524 * centuryOf d ∧ d - 36524 * centuryOf d ≤ 36524 := by
  unfold centuryOf
  omega

theorem cycleYearOf_bounds (h0 : 0 ≤ d) (h1 : d < 1461) :
    (0 ≤ cycleYearOf d ∧ cycleYearOf d ≤ 3) ∧
      0 ≤ d - 365 * cycleYearOf d ∧ d - 365 * cycleYearOf d ≤ 365 := by
  unfold cycleYearOf
  omega

/-- The days before a year, by its century, its cycle of four and its year in that. -/
theorem yearStart_split {c q y : Int} (hq0 : 0 ≤ q) (hq : q ≤ 24) (hy0 : 0 ≤ y) (hy : y ≤ 3) :
    yearStart (100 * c + 4 * q + y) = 36524 * c + 1461 * q + 365 * y := by
  have h4 : (100 * c + 4 * q + y) / 4 = 25 * c + q := by omega
  have h100 : (100 * c + 4 * q + y) / 100 = c := by omega
  rw [yearStart, h4, h100]
  omega

/-- A day is at most 365 days after the beginning of its year. -/
theorem yearOf_bounds (h0 : 0 ≤ d) (h1 : d < 146097) :
    (0 ≤ yearOf d ∧ yearOf d < 400) ∧
      0 ≤ d - yearStart (yearOf d) ∧ d - yearStart (yearOf d) ≤ 365 := by
  obtain ⟨hc, hr⟩ := centuryOf_bounds h0 h1
  obtain ⟨hy, hn⟩ := cycleYearOf_bounds (d := (d - 36524 * centuryOf d) % 1461)
    (by omega) (by omega)
  unfold yearOf
  dsimp only
  rw [yearStart_split (by omega) (by omega) hy.1 hy.2]
  omega

theorem monthOf_bounds (h0 : 0 ≤ n) (h1 : n ≤ 365) : 0 ≤ monthOf n ∧ monthOf n < 12 := by
  unfold monthOf
  omega

theorem day_bounds (n : Int) :
    1 ≤ n - monthStart (monthOf n) + 1 ∧ n - monthStart (monthOf n) + 1 ≤ 31 := by
  unfold monthStart monthOf
  omega

theorem ofDays_month (z : Int) : 1 ≤ (ofDays z).month ∧ (ofDays z).month ≤ 12 := by
  have hd := yearOf_bounds (d := (z + 719468) % 146097) (by omega) (by omega)
  have hm := monthOf_bounds hd.2.1 hd.2.2
  unfold ofDays
  dsimp only
  split <;> omega

theorem ofDays_day (z : Int) : 1 ≤ (ofDays z).day ∧ (ofDays z).day ≤ 31 := day_bounds _

/-- An era has 400 years. -/
theorem ofDays_year (z : Int) :
    (z + 719468) / 146097 * 400 ≤ (ofDays z).year ∧
      (ofDays z).year ≤ (z + 719468) / 146097 * 400 + 400 := by
  have hd := yearOf_bounds (d := (z + 719468) % 146097) (by omega) (by omega)
  unfold ofDays
  dsimp only
  split <;> omega

/-! ## Round trip -/

/-- The date of a day is numbered with that day. -/
theorem toDays_ofDays (z : Int) : (ofDays z).toDays = z := by
  obtain ⟨hy, hd⟩ := yearOf_bounds (d := (z + 719468) % 146097) (by omega) (by omega)
  have hm := monthOf_bounds hd.1 hd.2
  have hera : ((z + 719468) / 146097 * 400 + yearOf ((z + 719468) % 146097)) / 400 =
      (z + 719468) / 146097 := by omega
  have hyear : ((z + 719468) / 146097 * 400 + yearOf ((z + 719468) % 146097)) % 400 =
      yearOf ((z + 719468) % 146097) := by omega
  -- the months from March on and the first two of the next year
  by_cases h : monthOf ((z + 719468) % 146097 - yearStart (yearOf ((z + 719468) % 146097))) < 10
  · simp only [toDays, ofDays, if_pos h]
    rw [if_neg (by omega), if_neg (by omega), hera, hyear, Int.add_sub_cancel]
    omega
  · simp only [toDays, ofDays, if_neg h]
    rw [if_pos (by omega), if_pos (by omega), Int.add_sub_cancel, hera, hyear, Int.sub_add_cancel]
    omega

/-! ## Order -/

/-- The months from year 0 on. -/
def months (c : CivilDate) : Int := 12 * c.year + c.month

theorem yearOf_mono (h0 : 0 ≤ d) (h : d ≤ d') (h1 : d' < 146097) : yearOf d ≤ yearOf d' := by
  obtain ⟨hc, hr⟩ := centuryOf_bounds h0 (Int.lt_of_le_of_lt h h1)
  obtain ⟨hc', hr'⟩ := centuryOf_bounds (Int.le_trans h0 h) h1
  obtain ⟨hy, -⟩ := cycleYearOf_bounds (d := (d - 36524 * centuryOf d) % 1461) (by omega) (by omega)
  obtain ⟨hy', -⟩ := cycleYearOf_bounds (d := (d' - 36524 * centuryOf d') % 1461)
    (by omega) (by omega)
  have hcent : centuryOf d ≤ centuryOf d' := by
    unfold centuryOf
    omega
  unfold yearOf
  dsimp only
  rcases Int.lt_or_eq_of_le hcent with hlt | heq
  · omega
  · rw [← heq] at hr' hy' ⊢
    have hcycle : (d - 36524 * centuryOf d) / 1461 = (d' - 36524 * centuryOf d) / 1461 →
        cycleYearOf ((d - 36524 * centuryOf d) % 1461) ≤
          cycleYearOf ((d' - 36524 * centuryOf d) % 1461) := by
      intro hq
      unfold cycleYearOf
      omega
    omega

/-- With March as the first month, the months are counted without a break. -/
theorem ofDays_months (z : Int) : (ofDays z).months =
    12 * ((z + 719468) / 146097 * 400 + yearOf ((z + 719468) % 146097)) + 3 +
      monthOf ((z + 719468) % 146097 - yearStart (yearOf ((z + 719468) % 146097))) := by
  unfold months ofDays
  dsimp only
  split <;> omega

/-- A later day has a later date. -/
theorem ofDays_lt (h : z < z') : (ofDays z).months < (ofDays z').months ∨
    (ofDays z).months = (ofDays z').months ∧ (ofDays z).day < (ofDays z').day := by
  obtain ⟨hy, hd⟩ := yearOf_bounds (d := (z + 719468) % 146097) (by omega) (by omega)
  obtain ⟨hy', hd'⟩ := yearOf_bounds (d := (z' + 719468) % 146097) (by omega) (by omega)
  have hm := monthOf_bounds hd.1 hd.2
  have hm' := monthOf_bounds hd'.1 hd'.2
  rw [ofDays_months, ofDays_months]
  have hera : (z + 719468) / 146097 ≤ (z' + 719468) / 146097 := by omega
  rcases Int.lt_or_eq_of_le hera with hlt | heq
  · left
    omega
  · have hlt : (z + 719468) % 146097 < (z' + 719468) % 146097 := by omega
    have hyear := yearOf_mono (by omega) (Int.le_of_lt hlt) (by omega)
    rcases Int.lt_or_eq_of_le hyear with hylt | hyeq
    · left
      omega
    · simp only [ofDays]
      rw [← hyeq] at hd' hm' ⊢
      unfold monthStart monthOf at *
      omega

end CivilDate

import ProcessingCommon.LibTime.LocalTime

/-!
# The fraction of a UTC stamp

`nowUtc` prints the nanoseconds of the second with `setw(7)`, but there are nine digits of them. A
count below `10 ^ 8` is printed without its leading zeros, and one from before the epoch with its
sign. Stamps of one second are compared digit by digit, up to the `'Z'` that ends the shorter one;
those of different seconds are in the order of the local time.
-/

namespace ProcessingCommon
namespace LibTime

open CString LibDspc

variable {z : Zone} {tp tp' : TimePoint} {n n' : Nat}

/-- What `nowUtc` prints for a count of nanoseconds. -/
def nanoText (n : Int) : Bytes := setw 7 48 (decimalInt n)

/-- The second that a time is in. -/
def secondOf (tp : TimePoint) : Int := tp.toInt / nanosPerSec

/-- The part of a second that has passed in it. -/
def subSecond (tp : TimePoint) : ℚ := (tp.toInt % nanosPerSec : Int) / 10 ^ 9

/-- The digits between the `'.'` and the `'Z'` are the fraction of the second. -/
def Decodes (z : Zone) (tp : TimePoint) : Prop :=
  ∃ date digits, nowUtc z tp = date ++ '.'.toUInt8 :: (digits ++ ['Z'.toUInt8]) ∧
    fraction digits = some (subSecond tp)

/-- A whole second, or a fraction of at least 100 ms in a time from the epoch on. -/
def Legible (tp : TimePoint) : Prop :=
  tp.toInt % nanosPerSec = 0 ∨ 0 ≤ tp.toInt ∧ 10 ^ 8 ≤ tp.toInt % nanosPerSec

instance : Decidable (Legible tp) := inferInstanceAs (Decidable (_ ∨ _))

/-- The digits of a number. -/
def numDigits (n : Nat) : Nat := (decimal n).length

/-- The digits that `setw(7)` makes of a number. -/
def printedWidth (n : Nat) : Nat := max 7 (numDigits n)

/-- Two counts of one second whose texts are in order. Of different widths, the first has to be
below the leading digits of the second. Before the epoch the first has the greater number behind its
sign, and is right only with a sign further to the front, or with leading digits that are not above
the second. -/
def InOrder : Int → Int → Prop
  | .ofNat n, .ofNat n' =>
    printedWidth n = printedWidth n' ∨ n < n' / 10 ^ (printedWidth n' - printedWidth n)
  | .negSucc _, .ofNat _ => True
  | .ofNat _, .negSucc _ => False
  | .negSucc m, .negSucc m' =>
    numDigits (m' + 1) < 6 ∧ numDigits (m' + 1) < numDigits (m + 1) ∨
      (m + 1) / 10 ^ (numDigits (m + 1) - numDigits (m' + 1)) ≤ m' + 1

/-! ## The text -/

theorem legible_iff : Legible tp ↔ nanoSec tp = 0 ∨ 10 ^ 8 ≤ nanoSec tp := by
  obtain ⟨hpos, hneg⟩ := nanoSec_bounds tp
  have hsplit := toInt_split tp
  unfold Legible
  unfold nanosPerSec at hpos hneg hsplit ⊢
  omega

theorem lt_pow_printedWidth (n : Nat) : n < 10 ^ printedWidth n := by
  refine Nat.lt_of_lt_of_le (lt_pow_decimal_length n) (Nat.pow_le_pow_right (by decide) ?_)
  exact Nat.le_max_right _ _

theorem printedWidth_mono (h : n ≤ n') : printedWidth n ≤ printedWidth n' := by
  have := decimal_length_mono h
  rw [printedWidth, printedWidth, numDigits, numDigits]
  omega

theorem printedWidth_eq_nine (hn : n < 10 ^ 9) : printedWidth n = 9 ↔ 10 ^ 8 ≤ n := by
  have h8 := decimal_length_le (n := n) (k := 8) (by decide)
  have h9 := decimal_length_le (n := n) (k := 9) (by decide)
  rw [printedWidth, numDigits]
  omega

theorem nanoText_ofNat (n : Nat) : nanoText n = fixed (printedWidth n) n := setw_decimal 7 n

/-- The sign is behind the zeros. -/
theorem nanoText_negSucc (m : Nat) : nanoText (Int.negSucc m) =
    fixed (6 - numDigits (m + 1)) 0 ++
      '-'.toUInt8 :: fixed (numDigits (m + 1)) (m + 1) := by
  rw [nanoText, decimalInt, setw, List.length_cons, fixed_zero, numDigits, ← decimal_eq_fixed]
  rw [show 7 - ((decimal (m + 1)).length + 1) = 6 - (decimal (m + 1)).length by omega]

theorem dot_not_mem_nanoText (n : Int) : '.'.toUInt8 ∉ nanoText n := by
  have hfixed : ∀ w k, '.'.toUInt8 ∉ fixed w k := by
    intro w k h
    exact absurd (isDigit_of_mem_fixed h) (by decide)
  cases n with
  | ofNat n =>
    rw [Int.ofNat_eq_natCast, nanoText_ofNat]
    exact hfixed _ _
  | negSucc m =>
    rw [nanoText_negSucc, List.mem_append, List.mem_cons]
    rintro (h | h | h)
    · exact hfixed _ _ h
    · exact absurd h (by decide)
    · exact hfixed _ _ h

/-! ## The date -/

/-- The fields of a stamp up to the `'.'`. -/
def dateText (tm : Tm) : Bytes :=
  fixed 4 (tm.tm_year + 1900).toNat ++ '-'.toUInt8 :: (fixed 2 (tm.tm_mon + 1).toNat ++
    '-'.toUInt8 :: (fixed 2 tm.tm_mday.toNat ++ 'T'.toUInt8 :: (fixed 2 tm.tm_hour.toNat ++
      ':'.toUInt8 :: (fixed 2 tm.tm_min.toNat ++ ':'.toUInt8 :: (fixed 2 tm.tm_sec.toNat ++
        ['.'.toUInt8])))))

theorem dateText_length (tm : Tm) : (dateText tm).length = 20 := by
  simp only [dateText, List.length_append, List.length_cons, List.length_nil, fixed_length]

/-- A year of four digits. -/
theorem decimalInt_year {y : Int} (h0 : 1000 ≤ y) (h : y < 10000) :
    decimalInt y = fixed 4 y.toNat := by
  have h3 := decimal_length_le (n := y.toNat) (k := 3) (by decide)
  have h4 := decimal_length_le (n := y.toNat) (k := 4) (by decide)
  have hlen : (decimal y.toNat).length = 4 := by omega
  rw [decimalInt_of_nonneg (by omega), decimal_eq_fixed, hlen]

/-- The date has room in the buffer of `tpToStr`. -/
theorem tpToStr_fmtUtc (z : Zone) (tp : TimePoint) :
    tpToStr z tp (some fmtUtc) = dateText (z.localtime (toTimeT tp)) := by
  obtain ⟨hs, hmin, hh, hd, hm⟩ := localtime_valid z (toTimeT tp)
  have hy := localtime_year z tp
  have htext : fmtUtc.flatMap (itemText (z.localtime (toTimeT tp))) =
      dateText (z.localtime (toTimeT tp)) := by
    simp only [fmtUtc, List.flatMap_cons, List.flatMap_nil, itemText, convText]
    rw [decimalInt_year (by omega) (by omega), twoDigits_eq hs.1 (by omega),
      twoDigits_eq hmin.1 (by omega), twoDigits_eq hh.1 (by omega),
      twoDigits_eq (by omega) (by omega), twoDigits_eq (by omega) (by omega)]
    rfl
  have hroom : (dateText (z.localtime (toTimeT tp))).length < 32 := by
    rw [dateText_length]
    decide
  rw [tpToStr, Option.getD_some, strftime, htext, if_pos hroom, Option.getD_some]

theorem nowUtc_eq (z : Zone) (tp : TimePoint) : nowUtc z tp =
    dateText (z.localtime (toTimeT tp)) ++ (nanoText (nanoSec tp) ++ ['Z'.toUInt8]) := by
  rw [nowUtc, tpToStr_fmtUtc]
  rfl

theorem dateText_dot (tm : Tm) : ∃ date, dateText tm = date ++ ['.'.toUInt8] := by
  have hne : dateText tm ≠ [] := by
    rw [← List.length_pos_iff, dateText_length]
    decide
  refine ⟨(dateText tm).dropLast, ?_⟩
  have hlast : (dateText tm).getLast hne = '.'.toUInt8 := by simp [dateText]
  rw [← hlast, List.dropLast_append_getLast]

/-- Texts of one width for each field are in the order of the fields. -/
theorem dateText_lt {a b : Tm} (ha : a.Valid) (hb : b.Valid)
    (hya : 1600 ≤ a.tm_year + 1900 ∧ a.tm_year + 1900 ≤ 2400)
    (hyb : 1600 ≤ b.tm_year + 1900 ∧ b.tm_year + 1900 ≤ 2400) (h : a.Before b) :
    dateText a < dateText b := by
  obtain ⟨hs, hmin, hh, hd, hm⟩ := ha
  obtain ⟨hs', hmin', hh', hd', hm'⟩ := hb
  unfold Tm.Before at h
  rw [dateText, dateText, fixed_lt_fixed_cons (by omega) (by omega),
    fixed_lt_fixed_cons (by omega) (by omega), fixed_lt_fixed_cons (by omega) (by omega),
    fixed_lt_fixed_cons (by omega) (by omega), fixed_lt_fixed_cons (by omega) (by omega),
    fixed_lt_fixed_cons (by omega) (by omega)]
  omega

/-- A later local time has a later stamp, whatever the fractions are. -/
theorem nowUtc_lt (h : z.localSec (toTimeT tp) < z.localSec (toTimeT tp')) :
    nowUtc z tp < nowUtc z tp' := by
  rw [nowUtc_eq, nowUtc_eq,
    append_lt_append_iff ((dateText_length _).trans (dateText_length _).symm)]
  exact .inl (dateText_lt (localtime_valid z _) (localtime_valid z _) (localtime_year z tp)
    (localtime_year z tp') (gmtime_before h))

/-! ## Decoding -/

theorem decodes_iff_fraction :
    Decodes z tp ↔ fraction (nanoText (nanoSec tp)) = some (subSecond tp) := by
  obtain ⟨date, hdate⟩ := dateText_dot (z.localtime (toTimeT tp))
  have hstamp : nowUtc z tp =
      date ++ '.'.toUInt8 :: (nanoText (nanoSec tp) ++ ['Z'.toUInt8]) := by
    rw [nowUtc_eq, hdate, List.append_assoc, List.singleton_append]
  have hdot : ∀ s : Bytes, '.'.toUInt8 ∉ s → '.'.toUInt8 ∉ s ++ ['Z'.toUInt8] := by
    intro s hs h
    rw [List.mem_append, List.mem_singleton] at h
    exact h.elim hs (by decide)
  constructor
  · rintro ⟨date', digits, hs, hf⟩
    have hdigits : '.'.toUInt8 ∉ digits := by
      intro hmem
      rw [fraction_eq_none hmem (by decide)] at hf
      cases hf
    rw [hstamp] at hs
    have hsame := BasicString.last_unique (hdot _ (dot_not_mem_nanoText _)) (hdot _ hdigits) hs
    rw [List.append_cancel_right hsame]
    exact hf
  · intro hf
    exact ⟨date, _, hstamp, hf⟩

/-- Seven digits and more are read as they are meant if there is nothing to read, or if there are
nine of them. -/
theorem fraction_nanoText (hn : n < 10 ^ 9) :
    fraction (nanoText n) = some ((n : ℚ) / 10 ^ 9) ↔ n = 0 ∨ 10 ^ 8 ≤ n := by
  rw [nanoText_ofNat, fraction_fixed (by rw [printedWidth]; omega) (lt_pow_printedWidth n),
    Option.some_inj, div_eq_div_iff (by positivity) (by positivity), ← printedWidth_eq_nine hn]
  constructor
  · intro h
    rcases Nat.eq_zero_or_pos n with h0 | hpos
    · exact .inl h0
    · right
      have hpow : (10 : ℚ) ^ 9 = 10 ^ printedWidth n :=
        mul_left_cancel₀ (Nat.cast_ne_zero.mpr (Nat.ne_of_gt hpos)) h
      exact (Nat.pow_right_injective (by decide : 2 ≤ 10) (by exact_mod_cast hpow)).symm
  · rintro (rfl | h)
    · rw [Nat.cast_zero, zero_mul, zero_mul]
    · rw [h]

theorem decodes_iff (z : Zone) (tp : TimePoint) : Decodes z tp ↔ Legible tp := by
  obtain ⟨hpos, hneg⟩ := nanoSec_bounds tp
  have hsplit := toInt_split tp
  rw [decodes_iff_fraction, legible_iff]
  rcases Int.lt_or_le (nanoSec tp) 0 with h | h
  · obtain ⟨m, hm⟩ := Int.eq_negSucc_of_lt_zero h
    rw [hm, fraction_eq_none (c := '-'.toUInt8) (by rw [nanoText_negSucc]; simp) (by decide), ← hm]
    simp only [reduceCtorEq, false_iff]
    omega
  · obtain ⟨n, hn⟩ := Int.eq_ofNat_of_zero_le h
    have hmod : tp.toInt % nanosPerSec = n := by
      unfold nanosPerSec at hpos hneg hsplit ⊢
      omega
    have hlt : n < 10 ^ 9 := by
      unfold nanosPerSec at hpos hneg
      omega
    rw [subSecond, hmod, Int.cast_natCast, hn, fraction_nanoText hlt]
    omega

/-! ## Order -/

theorem ofNat_le_iff (h : n ≤ n') :
    nanoText n ++ ['Z'.toUInt8] ≤ nanoText n' ++ ['Z'.toUInt8] ↔
      printedWidth n = printedWidth n' ∨ n < n' / 10 ^ (printedWidth n' - printedWidth n) := by
  obtain ⟨k, hk⟩ := Nat.exists_eq_add_of_le (printedWidth_mono h)
  have hlt := lt_pow_printedWidth n'
  rw [hk] at hlt
  rw [nanoText_ofNat, nanoText_ofNat, hk, fixed_le_wider (lt_pow_printedWidth n) hlt (by decide),
    Nat.add_sub_cancel_left]
  constructor
  · rintro (hq | ⟨rfl, -⟩)
    · exact .inr hq
    · exact .inl rfl
  · rintro (hw | hq)
    · obtain rfl : k = 0 := by omega
      rw [Nat.pow_zero, Nat.div_one]
      omega
    · exact .inl hq

/-- A sign is before every digit, and at most five zeros are before it. -/
theorem negSucc_lt_ofNat (m n : Nat) :
    nanoText (Int.negSucc m) ++ ['Z'.toUInt8] < nanoText n ++ ['Z'.toUInt8] := by
  have hd : 0 < numDigits (m + 1) := decimal_length_pos (m + 1)
  obtain ⟨k, hk⟩ : ∃ k, printedWidth n = (6 - numDigits (m + 1)) + (k + 1) :=
    ⟨printedWidth n - (6 - numDigits (m + 1)) - 1, by rw [printedWidth]; omega⟩
  have hlt := lt_pow_printedWidth n
  rw [hk, Nat.pow_add, Nat.mul_comm] at hlt
  rw [nanoText_negSucc, nanoText_ofNat, hk, fixed_add, List.append_assoc, List.append_assoc,
    fixed_lt_fixed_append (Nat.pow_pos (by decide)) (Nat.div_lt_of_lt_mul hlt)]
  rcases Nat.eq_zero_or_pos (n / 10 ^ (k + 1)) with h0 | hpos
  · exact .inr ⟨h0.symm, cons_lt_fixed (by decide)⟩
  · exact .inl hpos

theorem negSucc_le_iff {m m' : Nat} (h : m' ≤ m) :
    nanoText (Int.negSucc m) ++ ['Z'.toUInt8] ≤ nanoText (Int.negSucc m') ++ ['Z'.toUInt8] ↔
      numDigits (m' + 1) < 6 ∧ numDigits (m' + 1) < numDigits (m + 1) ∨
        (m + 1) / 10 ^ (numDigits (m + 1) - numDigits (m' + 1)) ≤ m' + 1 := by
  have hd : numDigits (m' + 1) ≤ numDigits (m + 1) := decimal_length_mono (by omega)
  rw [nanoText_negSucc, nanoText_negSucc, List.append_assoc, List.append_assoc]
  by_cases hsign : numDigits (m' + 1) < 6 ∧ numDigits (m' + 1) < numDigits (m + 1)
  · -- the sign of the first is where the second has a zero
    obtain ⟨k, hk⟩ : ∃ k, 6 - numDigits (m' + 1) = (6 - numDigits (m + 1)) + (k + 1) :=
      ⟨6 - numDigits (m' + 1) - (6 - numDigits (m + 1)) - 1, by omega⟩
    rw [hk, fixed_add, Nat.zero_div, List.append_assoc, prefix_le_prefix_iff]
    exact iff_of_true (List.le_of_lt (cons_lt_fixed (by decide))) (.inl hsign)
  · obtain ⟨k, hk⟩ := Nat.exists_eq_add_of_le hd
    have hzeros : 6 - numDigits (m + 1) = 6 - numDigits (m' + 1) := by omega
    have hlt : m + 1 < 10 ^ (numDigits (m' + 1) + k) := hk ▸ lt_pow_decimal_length (m + 1)
    rw [hzeros, prefix_le_prefix_iff, List.cons_append, List.cons_append, List.cons_le_cons_iff, hk,
      fixed_le_narrower hlt (lt_pow_decimal_length (m' + 1)) (by decide), Nat.add_sub_cancel_left,
      or_iff_right (by decide), and_iff_right rfl, or_iff_right (hk ▸ hsign)]

theorem nanoText_le_iff {a b : Int} (h : a ≤ b) :
    nanoText a ++ ['Z'.toUInt8] ≤ nanoText b ++ ['Z'.toUInt8] ↔ InOrder a b := by
  cases a with
  | ofNat n =>
    cases b with
    | ofNat n' => exact ofNat_le_iff (Int.ofNat_le.mp h)
    | negSucc m' =>
      exact absurd (Int.lt_of_lt_of_le (Int.negSucc_lt_zero m') (Int.natCast_nonneg n))
        (Int.not_lt.mpr h)
  | negSucc m =>
    cases b with
    | ofNat n' => exact iff_of_true (List.le_of_lt (negSucc_lt_ofNat m n')) trivial
    | negSucc m' => exact negSucc_le_iff (by omega)

/-- Stamps with the same date are compared by what follows. -/
theorem nowUtc_le_of_sameDate (hs : z.localSec (toTimeT tp) = z.localSec (toTimeT tp')) :
    nowUtc z tp ≤ nowUtc z tp' ↔
      nanoText (nanoSec tp) ++ ['Z'.toUInt8] ≤ nanoText (nanoSec tp') ++ ['Z'.toUInt8] := by
  have hdate : dateText (z.localtime (toTimeT tp)) = dateText (z.localtime (toTimeT tp')) := by
    show dateText (gmtime (z.localSec (toTimeT tp))) = dateText (gmtime (z.localSec (toTimeT tp')))
    rw [hs]
  rw [nowUtc_eq, nowUtc_eq, hdate, prefix_le_prefix_iff]

/-- Of a second that is printed as two, the first is a whole one before the epoch. -/
theorem nanoSec_of_split (h : tp ≤ tp') (hs : secondOf tp = secondOf tp')
    (hne : toTimeT tp ≠ toTimeT tp') : nanoSec tp = 0 ∧ nanoSec tp' < 0 := by
  obtain ⟨hpos, hneg⟩ := nanoSec_bounds tp
  obtain ⟨hpos', hneg'⟩ := nanoSec_bounds tp'
  have hsplit := toInt_split tp
  have hsplit' := toInt_split tp'
  have hle := Int64.le_iff_toInt_le.mp h
  unfold secondOf at hs
  unfold nanosPerSec at hpos hneg hpos' hneg' hsplit hsplit' hs
  omega

/-- The stamps of two times of a second are in order if the first has the earlier local time, or if
both show the same second and their fractions are in order. -/
theorem nowUtc_le_iff (h : tp ≤ tp') (hs : secondOf tp = secondOf tp') :
    nowUtc z tp ≤ nowUtc z tp' ↔ z.localSec (toTimeT tp) < z.localSec (toTimeT tp') ∨
      toTimeT tp = toTimeT tp' ∧
        InOrder (tp.toInt.tmod nanosPerSec) (tp'.toInt.tmod nanosPerSec) := by
  rw [← nanoSec_eq_tmod, ← nanoSec_eq_tmod]
  rcases Int.lt_trichotomy (z.localSec (toTimeT tp)) (z.localSec (toTimeT tp')) with hlt | heq | hgt
  · exact iff_of_true (List.le_of_lt (nowUtc_lt hlt)) (.inl hlt)
  · rw [nowUtc_le_of_sameDate heq, or_iff_right (by rw [heq]; exact Int.lt_irrefl _)]
    by_cases hsame : toTimeT tp = toTimeT tp'
    · have hle := Int64.le_iff_toInt_le.mp h
      rw [and_iff_right hsame, nanoText_le_iff]
      rw [nanoSec, nanoSec, hsame]
      omega
    · -- the clock of the zone goes back by a second, and the sign is before the zeros
      obtain ⟨h0, hneg⟩ := nanoSec_of_split h hs hsame
      obtain ⟨m, hm⟩ := Int.eq_negSucc_of_lt_zero hneg
      rw [h0, hm]
      exact iff_of_false (fun hle => hle (negSucc_lt_ofNat m 0)) fun hand => hsame hand.1
  · refine iff_of_false (fun hle => hle (nowUtc_lt hgt)) ?_
    rintro (hlt | ⟨hsame, -⟩)
    · omega
    · rw [hsame] at hgt
      exact Int.lt_irrefl _ hgt

/-- Two counts that are read as they are meant are in order. -/
theorem inOrder_of_legible (h : n ≤ n') (hn' : n' < 10 ^ 9) (hl : n = 0 ∨ 10 ^ 8 ≤ n)
    (hl' : n' = 0 ∨ 10 ^ 8 ≤ n') : InOrder n n' := by
  show printedWidth n = printedWidth n' ∨ _
  rcases hl with rfl | hl
  · rcases hl' with rfl | hl'
    · exact .inl rfl
    · have hzero : printedWidth 0 = 7 := by decide
      right
      rw [hzero, (printedWidth_eq_nine hn').mpr hl']
      omega
  · left
    rw [(printedWidth_eq_nine (by omega)).mpr hl, (printedWidth_eq_nine hn').mpr (by omega)]

/-- Stamps that can be decoded are in order. -/
theorem nowUtc_le_of_legible (h : tp ≤ tp') (hs : secondOf tp = secondOf tp') (hl : Legible tp)
    (hl' : Legible tp') : nowUtc z tp ≤ nowUtc z tp' := by
  obtain ⟨hpos, hneg⟩ := nanoSec_bounds tp'
  have hle := Int64.le_iff_toInt_le.mp h
  have hsplit := toInt_split tp
  have hsplit' := toInt_split tp'
  rw [legible_iff] at hl hl'
  by_cases hsame : toTimeT tp = toTimeT tp'
  · refine (nowUtc_le_iff h hs).mpr (.inr ⟨hsame, ?_⟩)
    rw [hsame] at hsplit
    obtain ⟨n, hn⟩ := Int.eq_ofNat_of_zero_le (a := nanoSec tp) (by omega)
    obtain ⟨n', hn'⟩ := Int.eq_ofNat_of_zero_le (a := nanoSec tp') (by omega)
    unfold nanosPerSec at hpos hneg
    rw [← nanoSec_eq_tmod, ← nanoSec_eq_tmod, hn, hn']
    exact inOrder_of_legible (by omega) (by omega) (by omega) (by omega)
  · have hsplit := nanoSec_of_split h hs hsame
    omega

/-- A stamp can be decoded exactly where its fraction is none or at least 100 ms, and not before the
epoch. The order of two stamps of a second is right exactly where the first shows the earlier local
time, or the same with a fraction that is in order. It is right if both can be decoded. -/
theorem nowUtc_decodes_iff (z : Zone) :
    (∀ tp, Decodes z tp ↔ Legible tp) ∧
    (∀ tp tp', tp ≤ tp' → secondOf tp = secondOf tp' →
      (nowUtc z tp ≤ nowUtc z tp' ↔ z.localSec (toTimeT tp) < z.localSec (toTimeT tp') ∨
        toTimeT tp = toTimeT tp' ∧
        InOrder (tp.toInt.tmod nanosPerSec) (tp'.toInt.tmod nanosPerSec))) ∧
    ∀ tp tp', tp ≤ tp' → secondOf tp = secondOf tp' → Legible tp → Legible tp' →
      nowUtc z tp ≤ nowUtc z tp' :=
  ⟨decodes_iff z, fun _ _ => nowUtc_le_iff, fun _ _ => nowUtc_le_of_legible⟩

/-- 100 ms and 250 ms of a second. -/
theorem nowUtc_decodes_quarter :
    Decodes utc 1688212800250000000 ∧
      nowUtc utc 1688212800100000000 ≤ nowUtc utc 1688212800250000000 :=
  have h := nowUtc_decodes_iff utc
  ⟨(h.1 _).mpr (by decide +kernel), h.2.2 _ _ (by decide +kernel) (by decide +kernel)
    (by decide +kernel) (by decide +kernel)⟩

/-- 5 ms are printed as `.5000000Z`, which is half a second and after the 100 ms of
`.100000000Z`. -/
theorem nowUtc_decodes_fails :
    (¬ ∀ z tp, Decodes z tp) ∧
      ¬ ∀ z tp tp', tp ≤ tp' → secondOf tp = secondOf tp' → nowUtc z tp ≤ nowUtc z tp' := by
  constructor
  · intro h
    exact absurd ((decodes_iff utc 1688212800005000000).mp (h _ _)) (by decide +kernel)
  · intro h
    exact absurd (h utc 1688212800005000000 1688212800100000000 (by decide +kernel)
      (by decide +kernel)) (by decide +kernel)

end LibTime
end ProcessingCommon

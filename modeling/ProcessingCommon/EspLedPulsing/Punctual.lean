import Mathlib.Order.MinMax
import ProcessingCommon.EspLedPulsing

/-!
# Pulses that are not late

`pulses_inTime` says that no pulse is early. With ticks that are never more than `d` apart, and a
period that has room for three of them, no pulse is late either: every edge comes within a few `d`
of its time, and the delays do not add up, since every wait counts from the start of the burst.
-/

namespace ProcessingCommon
namespace EspLedPulsing

variable {p : Params} {d : Nat} {s : EspLedPulsing} {log : List Burst} {t0 t last : Nat} {b : Burst}

/-! ## What is wanted -/

/-- Ticks at most `d` apart keep up with the pulses. -/
structure KeepsUp (p : Params) (d : Nat) : Prop where
  pulse : p.width.toNat + d ≤ p.period.toNat
  period : 3 * d ≤ p.period.toNat
  noWrap : p.count.toNat * p.period.toNat + max p.gap.toNat d + d < 2 ^ 32

instance (p : Params) (d : Nat) : Decidable (KeepsUp p d) :=
  decidable_of_iff (p.width.toNat + d ≤ p.period.toNat ∧ 3 * d ≤ p.period.toNat ∧
    p.count.toNat * p.period.toNat + max p.gap.toNat d + d < 2 ^ 32)
    ⟨fun h => ⟨h.1, h.2.1, h.2.2⟩, fun h => ⟨h.pulse, h.period, h.noWrap⟩⟩

/-- The longest pulse. -/
def longest (p : Params) (d : Nat) : Nat := max p.width.toNat (2 * d) + d

/-- From the start of a burst to the start of the next one, at most. -/
def turn (p : Params) (d : Nat) : Nat :=
  p.count.toNat * p.period.toNat + max p.gap.toNat d + 2 * d

/-- No edge is late. -/
structure Prompt (p : Params) (d : Nat) (b : Burst) : Prop where
  on : ∀ k t, b.ons[k]? = some t → t ≤ b.t0 + k * p.period.toNat + 2 * d
  off : ∀ k t, b.offs[k]? = some t → t ≤ b.t0 + k * p.period.toNat + longest p d

/-- The burst `b'` that follows `b` is not late. -/
def Soon (p : Params) (d : Nat) (b' b : Burst) : Prop := b'.t0 ≤ b.t0 + turn p d

/-- All edges of the burst that are due at `last` have come, and it is not over for too long. -/
structure UpToDate (p : Params) (d last : Nat) (b : Burst) : Prop where
  ons : ∀ k < p.count.toNat, b.t0 + k * p.period.toNat + 2 * d < last → k < b.ons.length
  offs : ∀ k < p.count.toNat, b.t0 + k * p.period.toNat + longest p d < last → k < b.offs.length
  turn : last ≤ b.t0 + turn p d

/-- The times of two successive ticks. -/
def Close (d : Nat) (i j : Nat × Bool) : Prop := i.1 ≤ j.1 ∧ j.1 ≤ i.1 + d

instance (d : Nat) (i j : Nat × Bool) : Decidable (Close d i j) :=
  inferInstanceAs (Decidable (_ ∧ _))

/-! ## Waits -/

theorem KeepsUp.noWrap_pulses (h : KeepsUp p d) (hc : 1 ≤ p.count.toNat) : NoWrap p := by
  obtain ⟨hpulse, hperiod, hwrap⟩ := h
  have hmul := mul_period_le (P := p.period.toNat) (Nat.sub_one_lt (Nat.ne_of_gt hc))
  have hsucc := Nat.add_one_mul (p.count.toNat - 1) p.period.toNat
  rw [Nat.sub_add_cancel hc] at hsucc
  have hgap := Nat.le_max_left p.gap.toNat d
  exact ⟨by omega, by omega⟩

/-- Within one turn of the clock the time difference loses nothing. -/
theorem elapsed_eq (h : t0 ≤ t) (hlt : t - t0 < 2 ^ 32) :
    (UInt32.ofNat t - UInt32.ofNat t0).toNat = t - t0 := by
  rw [UInt32.toNat_sub, UInt32.toNat_ofNat', UInt32.toNat_ofNat']
  omega

/-- A wait that goes on is not over. -/
theorem wait_on {ms : UInt32} (h : t0 ≤ t) (hturn : t - t0 < 2 ^ 32)
    (hs : s.mStartMs = UInt32.ofNat t0)
    (hlt : s.mCurCount.toNat * s.mPeriod.toNat + ms.toNat < 2 ^ 32)
    (hon : UInt32.ofNat t - s.mStartMs < s.threshold ms) :
    t < t0 + s.mCurCount.toNat * s.mPeriod.toNat + ms.toNat := by
  have he := elapsed_eq h hturn
  rw [hs, UInt32.lt_iff_toNat_lt, threshold_toNat, Nat.mod_eq_of_lt hlt] at hon
  omega

/-! ## Invariant -/

/-- How long after the start of the burst the last tick was, at most. -/
def deadline (p : Params) (d : Nat) (s : EspLedPulsing) : Nat :=
  match s.mState with
  | .StLedHigh => s.mCurCount.toNat * p.period.toNat + max p.width.toNat (2 * d)
  | .StLedLow => (s.mCurCount.toNat + 1) * p.period.toNat
  | .StLedBurstWait => p.count.toNat * p.period.toNat + max p.gap.toNat d
  | _ =>
    if s.mCurCount.toNat = 0 then p.count.toNat * p.period.toNat + max p.gap.toNat d + d
    else s.mCurCount.toNat * p.period.toNat + d

structure Timely (p : Params) (d last : Nat) (s : EspLedPulsing) (b : Burst) (log : List Burst) :
    Prop where
  prompt : ∀ c ∈ b :: log, Prompt p d c
  chain : (b :: log).IsChain (Soon p d)
  due : last ≤ b.t0 + deadline p d s
  whole : s.mState = .StLedHighSet → s.mCurCount.toNat = 0 → b.offs.length = p.count.toNat

theorem Prompt.rise (h : Prompt p d b) (ht : t ≤ b.t0 + b.ons.length * p.period.toNat + 2 * d) :
    Prompt p d { b with ons := b.ons ++ [t] } where
  on k u hk := by
    rcases mem_snoc hk with hk | ⟨rfl, rfl⟩
    · exact h.on k u hk
    · exact ht
  off := h.off

theorem Prompt.fall (h : Prompt p d b)
    (ht : t ≤ b.t0 + b.offs.length * p.period.toNat + longest p d) :
    Prompt p d { b with offs := b.offs ++ [t] } where
  on := h.on
  off k u hk := by
    rcases mem_snoc hk with hk | ⟨rfl, rfl⟩
    · exact h.off k u hk
    · exact ht

theorem Prompt.first (p : Params) (d t : Nat) : Prompt p d ⟨t, [t], []⟩ where
  on k u hk := by
    cases k with
    | zero =>
      cases hk
      change t ≤ t + 0 * p.period.toNat + 2 * d
      omega
    | succ k => cases hk
  off k u hk := by cases hk

/-- A tick in which the latest burst stays or gets an edge. -/
theorem Timely.stay {s' : EspLedPulsing} {b' : Burst} (h : Timely p d last s b log)
    (ht : b'.t0 = b.t0) (hb : Prompt p d b') (hdue : t ≤ b.t0 + deadline p d s')
    (hwhole : s'.mState = .StLedHighSet → s'.mCurCount.toNat = 0 →
      b'.offs.length = p.count.toNat) : Timely p d t s' b' log where
  prompt c hc := by
    rcases List.mem_cons.mp hc with rfl | hc
    · exact hb
    · exact h.prompt c (List.mem_cons_of_mem _ hc)
  chain := by
    have hch := List.isChain_cons.mp h.chain
    refine List.isChain_cons.mpr ⟨fun c hc => ?_, hch.2⟩
    rw [Soon, ht]
    exact hch.1 c hc
  due := ht ▸ hdue
  whole := hwhole

section Tick

variable {i : Nat × Bool}

/-- Where the object is after the tick, and its latest bursts. -/
def After (p : Params) (d t : Nat) (r : EspLedPulsing × List Burst) : Prop :=
  ∃ b log, r.2 = b :: log ∧ Timely p d t r.1 b log

theorem high_timely (hk : KeepsUp p d) (hc : 1 ≤ p.count.toNat) (hsame : SameParams p s)
    (h : Timely p d last s b log) (hs : s.mState = .StLedHigh)
    (hlt : s.mCurCount.toNat < p.count.toNat)
    (he : Edges last (s.mCurCount.toNat + 1) s.mCurCount.toNat s b) (hle : last ≤ i.1)
    (hd : i.1 ≤ last + d) : After p d i.1 (tick (s, b :: log) i) := by
  have hmul := mul_period_le (P := p.period.toNat) hlt
  have hsucc := Nat.add_one_mul (p.count.toNat - 1) p.period.toNat
  rw [Nat.sub_add_cancel hc] at hsucc
  have hdue := h.due
  simp only [deadline, hs] at hdue
  obtain ⟨hpulse, hperiod, hwrap⟩ := hk
  have hbegun := he.le
  have hnow : i.1 ≤ b.t0 + s.mCurCount.toNat * p.period.toNat + longest p d := by
    rw [longest]
    omega
  rw [tick_eq]
  simp only [process, hs]
  split
  · next hon =>
    refine ⟨b, log, rfl, h.stay rfl (h.prompt b List.mem_cons_self) ?_ h.whole⟩
    have hon := wait_on (Nat.le_trans hbegun hle) (by rw [longest] at hnow; omega) he.start
      (by rw [hsame.period, hsame.width]; omega) hon
    rw [hsame.period, hsame.width] at hon
    simp only [deadline, hs]
    omega
  · refine ⟨{ b with offs := b.offs ++ [i.1] }, log, rfl, h.stay rfl ?_ ?_ ProcState.noConfusion⟩
    · exact (h.prompt b List.mem_cons_self).fall (by rw [he.offs]; exact hnow)
    · simp only [deadline]
      rw [longest] at hnow
      have hnext := Nat.add_one_mul s.mCurCount.toNat p.period.toNat
      omega

theorem low_timely (hk : KeepsUp p d) (hsame : SameParams p s)
    (h : Timely p d last s b log) (hs : s.mState = .StLedLow)
    (hlt : s.mCurCount.toNat < p.count.toNat)
    (he : Edges last (s.mCurCount.toNat + 1) (s.mCurCount.toNat + 1) s b) (hle : last ≤ i.1)
    (hd : i.1 ≤ last + d) : After p d i.1 (tick (s, b :: log) i) := by
  have hsucc := curCount_succ hlt
  have hnext := Nat.add_one_mul s.mCurCount.toNat p.period.toNat
  have hmul := Nat.mul_le_mul_right p.period.toNat (Nat.succ_le_of_lt hlt)
  have hdue := h.due
  simp only [deadline, hs] at hdue
  obtain ⟨hpulse, hperiod, hwrap⟩ := hk
  have hbegun := he.le
  rw [Nat.succ_eq_add_one] at hmul
  have hb := h.prompt b List.mem_cons_self
  rw [tick_eq]
  simp only [process, hs]
  split
  · next hon =>
    refine ⟨b, log, rfl, h.stay rfl hb ?_ h.whole⟩
    have hon := wait_on (Nat.le_trans hbegun hle) (by omega) he.start
      (by rw [hsame.period]; omega) hon
    rw [hsame.period] at hon
    simp only [deadline, hs]
    omega
  split
  · next hge =>
    -- the last pulse: the gap begins
    rw [ge_iff_le, UInt8.le_iff_toNat_le, hsame.count, hsucc] at hge
    have heq : s.mCurCount.toNat + 1 = p.count.toNat := by omega
    refine ⟨b, log, rfl, h.stay rfl hb ?_ ProcState.noConfusion⟩
    simp only [deadline]
    rw [heq] at hdue
    omega
  · refine ⟨b, log, rfl, h.stay rfl hb ?_ fun _ h0 => ?_⟩
    · simp only [deadline, hsucc, if_neg (Nat.succ_ne_zero _)]
      omega
    · exact absurd (hsucc.symm.trans h0) (Nat.succ_ne_zero _)

theorem wait_timely (hk : KeepsUp p d) (hsame : SameParams p s)
    (h : Timely p d last s b log) (hs : s.mState = .StLedBurstWait)
    (hcur : s.mCurCount.toNat = p.count.toNat)
    (he : Edges last p.count.toNat p.count.toNat s b) (hle : last ≤ i.1)
    (hd : i.1 ≤ last + d) : After p d i.1 (tick (s, b :: log) i) := by
  have hdue := h.due
  simp only [deadline, hs] at hdue
  obtain ⟨hpulse, hperiod, hwrap⟩ := hk
  have hbegun := he.le
  have hb := h.prompt b List.mem_cons_self
  rw [tick_eq]
  simp only [process, hs]
  split
  · next hon =>
    refine ⟨b, log, rfl, h.stay rfl hb ?_ h.whole⟩
    have hon := wait_on (Nat.le_trans hbegun hle) (by omega) he.start
      (by rw [hsame.period, hsame.gap, hcur]; omega) hon
    rw [hsame.period, hsame.gap, hcur] at hon
    simp only [deadline, hs]
    omega
  · refine ⟨b, log, rfl, h.stay rfl hb ?_ fun _ _ => he.offs⟩
    simp only [deadline, UInt8.toNat_zero, if_true]
    omega

theorem tick_timely (hw : 1 ≤ p.width.toNat) (hc : 1 ≤ p.count.toNat) (hk : KeepsUp p d)
    (hinv : Inv p last s (b :: log)) (h : Timely p d last s b log) (hle : last ≤ i.1)
    (hd : i.1 ≤ last + d) : After p d i.1 (tick (s, b :: log) i) := by
  obtain ⟨hsame, -, hphase⟩ := hinv
  have hon := level_on hw hsame.width
  have hdue := h.due
  cases hphase with
  | next hs hcur hlen ht =>
    have hcur0 : s.mCurCount = 0 := UInt8.toNat_inj.mp hcur
    simp only [deadline, hs, hcur, if_true] at hdue
    rw [tick_eq]
    simp only [process, hs, hon, logged, hcur0, if_true]
    refine ⟨⟨i.1, [i.1], []⟩, b :: log, rfl, fun c hc => ?_, h.chain.cons fun c hc => ?_, ?_,
      ProcState.noConfusion⟩
    · rcases List.mem_cons.mp hc with rfl | hc
      · exact Prompt.first p d i.1
      · exact h.prompt c hc
    · cases hc
      rw [Soon, turn]
      dsimp only
      omega
    · exact Nat.le_add_right ..
  | again hs hcur hlt he ht =>
    have hne : s.mCurCount ≠ 0 := fun h0 => hcur (by rw [h0]; rfl)
    simp only [deadline, hs, if_neg hcur] at hdue
    rw [tick_eq]
    simp only [process, hs, hon, logged, if_neg hne, List.modifyHead_cons]
    refine ⟨{ b with ons := b.ons ++ [i.1] }, log, rfl, h.stay rfl ?_ ?_ ProcState.noConfusion⟩
    · exact (h.prompt b List.mem_cons_self).rise (by rw [he.ons]; omega)
    · simp only [deadline]
      omega
  | high hs hlt he => exact high_timely hk hc hsame h hs hlt he hle hd
  | low hs hlt he => exact low_timely hk hsame h hs hlt he hle hd
  | wait hs hcur he => exact wait_timely hk hsame h hs hcur he hle hd

end Tick

theorem lt_of_due {m k P x y : Nat} (hdue : last ≤ t0 + m * P + x) (hxy : x ≤ y)
    (h : t0 + k * P + y < last) : k < m := by
  by_contra hle
  have hmul := Nat.mul_le_mul_right P (Nat.not_lt.mp hle)
  omega

/-- What is due has come: each phase has as many edges as its deadline leaves room for. -/
theorem Timely.upToDate (hk : KeepsUp p d) (hinv : Inv p last s (b :: log))
    (h : Timely p d last s b log) : UpToDate p d last b := by
  obtain ⟨hpulse, hperiod, -⟩ := hk
  have hdue := h.due
  have hlong : 2 * d ≤ longest p d := by
    rw [longest]
    omega
  cases hinv.phase with
  | next hs hcur hlen ht =>
    simp only [deadline, hs, hcur, if_true] at hdue
    refine ⟨fun k hk _ => hlen ▸ hk, fun k hk _ => h.whole hs hcur ▸ hk, ?_⟩
    rw [turn]
    omega
  | again hs hcur hlt he ht =>
    simp only [deadline, hs, if_neg hcur, ← Nat.add_assoc] at hdue
    have hmul := Nat.mul_le_mul_right p.period.toNat (Nat.le_of_lt hlt)
    refine ⟨fun k _ hover => ?_, fun k _ hover => ?_, ?_⟩
    · rw [he.ons]
      exact lt_of_due hdue (by omega) hover
    · rw [he.offs]
      exact lt_of_due hdue (by omega) hover
    · rw [turn]
      omega
  | high hs hlt he =>
    simp only [deadline, hs, ← Nat.add_assoc] at hdue
    have hmul := Nat.mul_le_mul_right p.period.toNat (Nat.succ_le_of_lt hlt)
    have hnext := Nat.add_one_mul s.mCurCount.toNat p.period.toNat
    rw [Nat.succ_eq_add_one] at hmul
    refine ⟨fun k _ hover => ?_, fun k _ hover => ?_, ?_⟩
    · rw [he.ons]
      exact lt_of_due (x := 0) (by omega) (Nat.zero_le _) hover
    · rw [he.offs]
      refine lt_of_due hdue ?_ hover
      rw [longest]
      omega
    · rw [turn]
      omega
  | low hs hlt he =>
    simp only [deadline, hs] at hdue
    have hmul := Nat.mul_le_mul_right p.period.toNat (Nat.succ_le_of_lt hlt)
    rw [Nat.succ_eq_add_one] at hmul
    refine ⟨fun k _ hover => ?_, fun k _ hover => ?_, ?_⟩
    · rw [he.ons]
      exact lt_of_due (x := 0) hdue (Nat.zero_le _) hover
    · rw [he.offs]
      exact lt_of_due (x := 0) hdue (Nat.zero_le _) hover
    · rw [turn]
      omega
  | wait hs hcur he =>
    simp only [deadline, hs, ← Nat.add_assoc] at hdue
    refine ⟨fun k hk _ => he.ons ▸ hk, fun k hk _ => he.offs ▸ hk, ?_⟩
    rw [turn]
    omega

/-! ## Runs -/

/-- No burst gets lost, and none begins at another time. -/
theorem logged_t0 (s : EspLedPulsing) (t : Nat) (level : Option Bool) (log : List Burst) :
    log.map Burst.t0 <:+ (logged s t level log).map Burst.t0 := by
  have hhead (f : Burst → Burst) (hf : ∀ b, (f b).t0 = b.t0) :
      log.map Burst.t0 <:+ (log.modifyHead f).map Burst.t0 := by
    cases log with
    | nil => exact List.suffix_rfl
    | cons b log =>
      have heq : ((b :: log).modifyHead f).map Burst.t0 = (b :: log).map Burst.t0 := by
        rw [List.modifyHead_cons, List.map_cons, List.map_cons, hf]
      exact heq ▸ List.suffix_rfl
  cases level with
  | none => exact List.suffix_rfl
  | some on =>
    cases on with
    | true =>
      rw [logged]
      split
      · exact List.suffix_cons ..
      · exact hhead _ fun _ => rfl
    | false => exact hhead _ fun _ => rfl

theorem run_timely (hw : 1 ≤ p.width.toNat) (hc : 1 ≤ p.count.toNat) (hk : KeepsUp p d)
    (i : Nat × Bool) (ticks : List (Nat × Bool)) (hinv : Inv p i.1 s (b :: log))
    (h : Timely p d i.1 s b log) (hclose : (i :: ticks).IsChain (Close d)) :
    ∃ b' log', (ticks.foldl tick (s, b :: log)).2 = b' :: log' ∧
      (b :: log).map Burst.t0 <:+ (b' :: log').map Burst.t0 ∧ Pulses p (b' :: log') ∧
      (∀ c ∈ b' :: log', Prompt p d c) ∧ (b' :: log').IsChain (Soon p d) ∧
      UpToDate p d (ticks.getLastD i).1 b' := by
  induction ticks generalizing i s b log with
  | nil =>
    exact ⟨b, log, rfl, List.suffix_rfl, hinv.pulses, h.prompt, h.chain, h.upToDate hk hinv⟩
  | cons j ticks ih =>
    obtain ⟨hij, hclose⟩ := List.isChain_cons_cons.mp hclose
    have hinv' := tick_inv hw hc (hk.noWrap_pulses hc) hinv hij.1
    have ht0 := logged_t0 s j.1 (s.process (UInt32.ofNat j.1) j.2).2.1 (b :: log)
    obtain ⟨b', log', hlog, ht⟩ := tick_timely hw hc hk hinv h hij.1 hij.2
    have hr : tick (s, b :: log) j = ((tick (s, b :: log) j).1, b' :: log') := by rw [← hlog]
    rw [tick_eq] at hlog
    change logged _ _ _ _ = _ at hlog
    rw [hlog] at ht0
    rw [hr] at hinv'
    rw [List.foldl_cons, hr, List.getLastD_cons]
    obtain ⟨c, log'', hc', hsuffix, hrest⟩ := ih j hinv' ht hclose
    exact ⟨c, log'', hc', ht0.trans hsuffix, hrest⟩

/-- The first two ticks. -/
theorem run_begin {pin : UInt8} (hpin : pin ≠ 0) (hw : 1 ≤ p.width.toNat) {i j : Nat × Bool}
    (hconf : i.2 = true) : tick (tick (start pin p, []) i) j =
      ({ start pin p with mState := .StLedHigh, mStartMs := UInt32.ofNat j.1 },
        [⟨j.1, [j.1], []⟩]) := by
  have hi : tick (start pin p, []) i = ({ start pin p with mState := .StLedHighSet }, []) := by
    have hpin' : (start pin p).mPin ≠ 0 := hpin
    have hst : (start pin p).mState = .StStart := rfl
    rw [tick_eq]
    simp only [process, hst, if_neg hpin', hconf, gpioInit, if_true, ne_eq, not_true_eq_false,
      if_false, logged]
  have hon : ((start pin p).mWidth != 0) = true := level_on hw rfl
  rw [hi, tick_eq]
  simp only [process, hon, logged]
  rfl

/-- The pulses are neither early nor late and do not drift: with ticks at most `d` apart that keep
up with the pulses, every run over two ticks of a pin that is set up has a first burst, begun in its
second tick; every edge comes within its time, every burst follows the one before it within its
time, and at any tick all edges that were due have come. -/
theorem pulses_punctual (hw : 1 ≤ p.width.toNat) (hc : 1 ≤ p.count.toNat) (hk : KeepsUp p d)
    {pin : UInt8} (hpin : pin ≠ 0) {i j : Nat × Bool} (hconf : i.2 = true)
    {ticks : List (Nat × Bool)} (hclose : (i :: j :: ticks).IsChain (Close d)) :
    ∃ b log, (run pin p (i :: j :: ticks)).2 = b :: log ∧
      [j.1] <:+ (b :: log).map Burst.t0 ∧ Pulses p (b :: log) ∧
      (∀ c ∈ b :: log, Prompt p d c) ∧ (b :: log).IsChain (Soon p d) ∧
      UpToDate p d (ticks.getLastD j).1 b := by
  obtain ⟨-, hclose⟩ := List.isChain_cons_cons.mp hclose
  rw [run, List.foldl_cons, List.foldl_cons, run_begin hpin hw hconf]
  refine run_timely hw hc hk j ticks ?_ ?_ hclose
  · exact ⟨⟨rfl, rfl, rfl, rfl⟩, (Pulses.nil p).begin hc (fun b hb => by cases hb),
      .high rfl hc ⟨rfl, Nat.le_refl _, rfl, rfl⟩⟩
  · refine ⟨fun c hc => ?_, .singleton _, Nat.le_add_right .., ProcState.noConfusion⟩
    rw [List.mem_singleton.mp hc]
    exact Prompt.first p d j.1

/-- Two pulses of 50 ms in a second and a gap, with ticks every 40 to 50 ms: the second pulse is
due at 500. -/
theorem pulses_punctual_double : ∃ b log,
    (run 1 ⟨50, 200, 2, 500⟩ [(0, true), (40, true), (90, true), (140, true), (190, true),
      (240, true), (290, true), (340, true), (380, true)]).2 = b :: log ∧
    [40] <:+ (b :: log).map Burst.t0 ∧ Pulses ⟨50, 200, 2, 500⟩ (b :: log) ∧
    (∀ c ∈ b :: log, Prompt ⟨50, 200, 2, 500⟩ 50 c) ∧
    (b :: log).IsChain (Soon ⟨50, 200, 2, 500⟩ 50) ∧ UpToDate ⟨50, 200, 2, 500⟩ 50 380 b :=
  pulses_punctual (p := ⟨50, 200, 2, 500⟩) (d := 50) (by decide) (by decide) (by decide) (by decide)
    rfl (by decide)

end EspLedPulsing
end ProcessingCommon

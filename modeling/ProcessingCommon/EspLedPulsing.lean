import Mathlib.Algebra.Group.Nat.Defs
import Mathlib.Data.List.Chain
import Mathlib.Tactic.Common
import ProcessingCommon.Processing

/-!
# LED pulses (`EspLedPulsing.h`, `EspLedPulsing.cpp`)

One state for each tick: a burst of `mCount` pulses, then a gap. Every wait compares the time
since the start of the burst with a threshold. The time difference wraps, which can only make a
wait longer; the thresholds are products and sums in `uint32_t`, and one that wraps ends its wait
early. `pulses_inTime` says for which parameters no pulse is early, however the ticks are spaced.
-/

namespace ProcessingCommon
namespace EspLedPulsing

inductive ProcState
  | StStart
  | StLedHighSet
  | StLedHigh
  | StLedLow
  | StLedBurstWait
  | StTmp
deriving DecidableEq

end EspLedPulsing

structure EspLedPulsing where
  mState : EspLedPulsing.ProcState := .StStart
  mStartMs : UInt32 := 0
  mPin : UInt8 := 0
  mCount : UInt8 := 1
  mCurCount : UInt8 := 0
  mWidth : UInt32 := 50
  mPeriod : UInt32 := 1000
  mGap : UInt32 := 0
  mNumBurstsDone : UInt32 := 0
deriving DecidableEq

namespace EspLedPulsing

def pinSet (s : EspLedPulsing) (id : UInt8) : EspLedPulsing := { s with mPin := id }

def paramSet (s : EspLedPulsing) (width period : UInt32) (count : UInt8) (gap : UInt32) :
    EspLedPulsing :=
  { s with mWidth := width, mPeriod := period, mCount := count, mGap := gap }

/-- `gpioInit` with the answer of `gpio_config`. -/
def gpioInit (configured : Bool) : Success := if configured then .positive else .negative

/-- `mCurCount * mPeriod + ms`, a sum of `uint32_t`. -/
def threshold (s : EspLedPulsing) (ms : UInt32) : UInt32 := s.mCurCount.toUInt32 * s.mPeriod + ms

/-- One tick: the state, the level that the pin is set to, if it is, and the result.
`curTimeMs` is `millis()`. -/
def process (s : EspLedPulsing) (curTimeMs : UInt32) (configured : Bool) :
    EspLedPulsing × Option Bool × Success :=
  let diffMs := curTimeMs - s.mStartMs
  match s.mState with
  | .StStart =>
    if s.mPin = 0 then (s, none, .negative)
    else if gpioInit configured ≠ .positive then (s, none, .negative)
    else ({ s with mState := .StLedHighSet }, none, .pending)
  | .StLedHighSet =>
    ({ s with
        mStartMs := if s.mCurCount = 0 then curTimeMs else s.mStartMs
        mState := .StLedHigh }, some (s.mWidth != 0), .pending)
  | .StLedHigh =>
    if diffMs < s.threshold s.mWidth then (s, none, .pending)
    else ({ s with mState := .StLedLow }, some false, .pending)
  | .StLedLow =>
    if diffMs < s.threshold s.mPeriod then (s, none, .pending)
    else
      let s := { s with mCurCount := s.mCurCount + 1 }
      if s.mCurCount ≥ s.mCount then ({ s with mState := .StLedBurstWait }, none, .pending)
      else ({ s with mState := .StLedHighSet }, none, .pending)
  | .StLedBurstWait =>
    if diffMs < s.threshold s.mGap then (s, none, .pending)
    else
      ({ s with
          mCurCount := 0
          mNumBurstsDone := s.mNumBurstsDone + 1
          mState := .StLedHighSet }, none, .pending)
  | .StTmp => (s, none, .pending)

/-! ## Runs -/

/-- The times at which a burst switched the LED on and off; it begins with its first pulse. -/
structure Burst where
  t0 : Nat
  ons : List Nat
  offs : List Nat
deriving DecidableEq

/-- The bursts after the pin was set at time `t`, the latest one first. -/
def logged (s : EspLedPulsing) (t : Nat) : Option Bool → List Burst → List Burst
  | none, log => log
  | some true, log =>
    if s.mCurCount = 0 then ⟨t, [t], []⟩ :: log
    else log.modifyHead fun b => { b with ons := b.ons ++ [t] }
  | some false, log => log.modifyHead fun b => { b with offs := b.offs ++ [t] }

/-- A tick at the true time `t`, of which `millis()` shows the last 32 bits. -/
def tick (r : EspLedPulsing × List Burst) (i : Nat × Bool) : EspLedPulsing × List Burst :=
  ((r.1.process (UInt32.ofNat i.1) i.2).1,
    logged r.1 i.1 (r.1.process (UInt32.ofNat i.1) i.2).2.1 r.2)

structure Params where
  width : UInt32
  period : UInt32
  count : UInt8
  gap : UInt32

/-- The object that is ticked. -/
def start (pin : UInt8) (p : Params) : EspLedPulsing :=
  (pinSet {} pin).paramSet p.width p.period p.count p.gap

def run (pin : UInt8) (p : Params) (ticks : List (Nat × Bool)) : EspLedPulsing × List Burst :=
  ticks.foldl tick (start pin p, [])

/-! ## What is wanted of the bursts -/

/-- No pulse begins or ends early, and there are not too many. -/
structure InTime (p : Params) (b : Burst) : Prop where
  on : ∀ k t, b.ons[k]? = some t → b.t0 + k * p.period.toNat ≤ t
  off : ∀ k t, b.offs[k]? = some t → b.t0 + k * p.period.toNat + p.width.toNat ≤ t
  count : b.ons.length ≤ p.count.toNat

/-- `b'` follows a complete burst, and not early. -/
def Follows (p : Params) (b' b : Burst) : Prop :=
  b.ons.length = p.count.toNat ∧ b.t0 + p.count.toNat * p.period.toNat + p.gap.toNat ≤ b'.t0

structure Pulses (p : Params) (log : List Burst) : Prop where
  inTime : ∀ b ∈ log, InTime p b
  chain : log.IsChain (Follows p)

/-- No threshold of a burst wraps. -/
def NoWrap (p : Params) : Prop :=
  (p.count.toNat - 1) * p.period.toNat + p.width.toNat < 2 ^ 32 ∧
    p.count.toNat * p.period.toNat + p.gap.toNat < 2 ^ 32

instance (p : Params) : Decidable (NoWrap p) := inferInstanceAs (Decidable (_ ∧ _))

/-! ## Arithmetic -/

variable {p : Params} {s : EspLedPulsing} {log : List Burst} {t0 t last : Nat}

/-- The time difference can lose turns of the clock, but not gain any. -/
theorem elapsed_le (h : t0 ≤ t) : (UInt32.ofNat t - UInt32.ofNat t0).toNat ≤ t - t0 := by
  rw [UInt32.toNat_sub, UInt32.toNat_ofNat', UInt32.toNat_ofNat']
  omega

theorem threshold_toNat (s : EspLedPulsing) (ms : UInt32) :
    (s.threshold ms).toNat = (s.mCurCount.toNat * s.mPeriod.toNat + ms.toNat) % 2 ^ 32 := by
  rw [threshold, UInt32.toNat_add, UInt32.toNat_mul, UInt8.toNat_toUInt32, Nat.mod_add_mod]

/-- A wait for a threshold that does not wrap ends in time. -/
theorem wait_over {ms : UInt32} (h : t0 ≤ t) (hs : s.mStartMs = UInt32.ofNat t0)
    (hlt : s.mCurCount.toNat * s.mPeriod.toNat + ms.toNat < 2 ^ 32)
    (hover : ¬ UInt32.ofNat t - s.mStartMs < s.threshold ms) :
    t0 + s.mCurCount.toNat * s.mPeriod.toNat + ms.toNat ≤ t := by
  have he := elapsed_le h
  rw [hs, UInt32.lt_iff_toNat_lt, threshold_toNat, Nat.mod_eq_of_lt hlt] at hover
  omega

/-- What a pulse before the last one needs is less than what the last one needs. -/
theorem mul_period_le {k n P : Nat} (h : k < n) : k * P ≤ (n - 1) * P :=
  Nat.mul_le_mul_right P (Nat.le_sub_one_of_lt h)

/-! ## Invariant -/

/-- The object goes by these parameters. -/
structure SameParams (p : Params) (s : EspLedPulsing) : Prop where
  width : s.mWidth = p.width
  period : s.mPeriod = p.period
  count : s.mCount = p.count
  gap : s.mGap = p.gap

/-- The latest burst has seen `on` rising and `off` falling edges, the last tick was at `last`. -/
structure Edges (last on off : Nat) (s : EspLedPulsing) (b : Burst) : Prop where
  start : s.mStartMs = UInt32.ofNat b.t0
  le : b.t0 ≤ last
  ons : b.ons.length = on
  offs : b.offs.length = off

/-- Where the object is in its burst, after a tick at `last`. -/
inductive Phase (p : Params) (last : Nat) (s : EspLedPulsing) : List Burst → Prop
  | start : s.mState = .StStart → s.mCurCount.toNat = 0 → Phase p last s []
  | first : s.mState = .StLedHighSet → s.mCurCount.toNat = 0 → Phase p last s []
  | next {b : Burst} {log : List Burst} : s.mState = .StLedHighSet → s.mCurCount.toNat = 0 →
      b.ons.length = p.count.toNat →
      b.t0 + p.count.toNat * p.period.toNat + p.gap.toNat ≤ last → Phase p last s (b :: log)
  | again {b : Burst} {log : List Burst} : s.mState = .StLedHighSet → s.mCurCount.toNat ≠ 0 →
      s.mCurCount.toNat < p.count.toNat → Edges last s.mCurCount.toNat s.mCurCount.toNat s b →
      b.t0 + s.mCurCount.toNat * p.period.toNat ≤ last → Phase p last s (b :: log)
  | high {b : Burst} {log : List Burst} : s.mState = .StLedHigh →
      s.mCurCount.toNat < p.count.toNat →
      Edges last (s.mCurCount.toNat + 1) s.mCurCount.toNat s b → Phase p last s (b :: log)
  | low {b : Burst} {log : List Burst} : s.mState = .StLedLow →
      s.mCurCount.toNat < p.count.toNat →
      Edges last (s.mCurCount.toNat + 1) (s.mCurCount.toNat + 1) s b → Phase p last s (b :: log)
  | wait {b : Burst} {log : List Burst} : s.mState = .StLedBurstWait →
      s.mCurCount.toNat = p.count.toNat → Edges last p.count.toNat p.count.toNat s b →
      Phase p last s (b :: log)

structure Inv (p : Params) (last : Nat) (s : EspLedPulsing) (log : List Burst) : Prop where
  params : SameParams p s
  pulses : Pulses p log
  phase : Phase p last s log

/-! ## Bursts -/

theorem Pulses.nil (p : Params) : Pulses p [] where
  inTime b hb := by cases hb
  chain := .nil

/-- A new burst, after a complete one if there is any. -/
theorem Pulses.begin (h : Pulses p log) (hc : 1 ≤ p.count.toNat)
    (hf : ∀ b ∈ log.head?, Follows p ⟨t, [t], []⟩ b) : Pulses p (⟨t, [t], []⟩ :: log) where
  inTime b hb := by
    rcases List.mem_cons.mp hb with rfl | hb
    · refine ⟨fun k u hk => ?_, fun k u hk => ?_, hc⟩
      · cases k with
        | zero =>
          cases hk
          rw [Nat.zero_mul]
          exact Nat.le_refl _
        | succ k => cases hk
      · cases hk
    · exact h.inTime b hb
  chain := h.chain.cons hf

/-- The latest burst becomes a longer one that began at the same time. -/
theorem Pulses.extend {b b' : Burst} (h : Pulses p (b :: log)) (ht : b'.t0 = b.t0)
    (hb : InTime p b') : Pulses p (b' :: log) where
  inTime c hc := by
    rcases List.mem_cons.mp hc with rfl | hc
    · exact hb
    · exact h.inTime c (List.mem_cons_of_mem _ hc)
  chain := by
    have hch := List.isChain_cons.mp h.chain
    refine List.isChain_cons.mpr ⟨fun c hc => ?_, hch.2⟩
    have hf := hch.1 c hc
    exact ⟨hf.1, by rw [ht]; exact hf.2⟩

theorem mem_snoc {l : List Nat} {k x u : Nat} (h : (l ++ [x])[k]? = some u) :
    l[k]? = some u ∨ k = l.length ∧ x = u := by
  rw [List.getElem?_append] at h
  split at h
  · exact .inl h
  · next hk =>
    obtain ⟨hlt, he⟩ := List.getElem?_eq_some_iff.mp h
    rw [List.length_singleton] at hlt
    rw [List.getElem_singleton] at he
    exact .inr ⟨by omega, he⟩

/-- One more rising edge. -/
theorem InTime.rise {b : Burst} (h : InTime p b) (hlt : b.ons.length < p.count.toNat)
    (ht : b.t0 + b.ons.length * p.period.toNat ≤ t) :
    InTime p { b with ons := b.ons ++ [t] } where
  on k u hk := by
    rcases mem_snoc hk with hk | ⟨rfl, rfl⟩
    · exact h.on k u hk
    · exact ht
  off := h.off
  count := by
    rw [List.length_append]
    exact hlt

/-- One more falling edge. -/
theorem InTime.fall {b : Burst} (h : InTime p b)
    (ht : b.t0 + b.offs.length * p.period.toNat + p.width.toNat ≤ t) :
    InTime p { b with offs := b.offs ++ [t] } where
  on := h.on
  off k u hk := by
    rcases mem_snoc hk with hk | ⟨rfl, rfl⟩
    · exact h.off k u hk
    · exact ht
  count := h.count

/-! ## Ticks -/

theorem Edges.mono {on off : Nat} {b : Burst} (h : Edges last on off s b) (hle : last ≤ t) :
    Edges t on off s b :=
  ⟨h.start, Nat.le_trans h.le hle, h.ons, h.offs⟩

/-- A tick that ends no wait. -/
theorem Phase.mono (h : Phase p last s log) (hle : last ≤ t) : Phase p t s log := by
  cases h with
  | start hs hk => exact .start hs hk
  | first hs hk => exact .first hs hk
  | next hs hk hn ht => exact .next hs hk hn (Nat.le_trans ht hle)
  | again hs hk hlt he ht => exact .again hs hk hlt (he.mono hle) (Nat.le_trans ht hle)
  | high hs hlt he => exact .high hs hlt (he.mono hle)
  | low hs hlt he => exact .low hs hlt (he.mono hle)
  | wait hs hk he => exact .wait hs hk (he.mono hle)

/-- The counter has room for one more pulse. -/
theorem curCount_succ (h : s.mCurCount.toNat < p.count.toNat) :
    (s.mCurCount + 1).toNat = s.mCurCount.toNat + 1 := by
  have := p.count.toNat_lt
  rw [UInt8.toNat_add, UInt8.toNat_one, Nat.mod_eq_of_lt]
  omega

theorem level_on (hw : 1 ≤ p.width.toNat) (h : s.mWidth = p.width) : (s.mWidth != 0) = true := by
  rw [h, bne_iff_ne]
  intro h0
  rw [h0] at hw
  exact absurd hw (by decide)

theorem tick_eq (s : EspLedPulsing) (log : List Burst) (i : Nat × Bool) : tick (s, log) i =
    ((s.process (UInt32.ofNat i.1) i.2).1,
      logged s i.1 (s.process (UInt32.ofNat i.1) i.2).2.1 log) := rfl

section Tick

variable {i : Nat × Bool} {b : Burst}

/-- The pulse goes on, or its falling edge is noted. -/
theorem high_inv (hn : NoWrap p) (hsame : SameParams p s) (hpulses : Pulses p (b :: log))
    (hs : s.mState = .StLedHigh) (hlt : s.mCurCount.toNat < p.count.toNat)
    (he : Edges last (s.mCurCount.toNat + 1) s.mCurCount.toNat s b) (hle : last ≤ i.1) :
    Inv p i.1 (tick (s, b :: log) i).1 (tick (s, b :: log) i).2 := by
  rw [tick_eq]
  simp only [process, hs]
  split
  · exact ⟨hsame, hpulses, .high hs hlt (he.mono hle)⟩
  · next hover =>
    have hk := mul_period_le (P := p.period.toNat) hlt
    have hover := wait_over (Nat.le_trans he.le hle) he.start
      (by rw [hsame.period, hsame.width]; have := hn.1; omega) hover
    rw [hsame.period, hsame.width] at hover
    refine ⟨{ hsame with }, hpulses.extend rfl ?_, .low rfl hlt ?_⟩
    · exact (hpulses.inTime b List.mem_cons_self).fall (by rw [he.offs]; exact hover)
    · refine ⟨he.start, Nat.le_trans he.le hle, he.ons, ?_⟩
      rw [List.length_append, he.offs]
      rfl

/-- The period goes on, or it was the last one, or the next pulse is due. -/
theorem low_inv (hn : NoWrap p) (hsame : SameParams p s) (hpulses : Pulses p (b :: log))
    (hs : s.mState = .StLedLow) (hlt : s.mCurCount.toNat < p.count.toNat)
    (he : Edges last (s.mCurCount.toNat + 1) (s.mCurCount.toNat + 1) s b) (hle : last ≤ i.1) :
    Inv p i.1 (tick (s, b :: log) i).1 (tick (s, b :: log) i).2 := by
  have hsucc := curCount_succ hlt
  rw [tick_eq]
  simp only [process, hs]
  split
  · exact ⟨hsame, hpulses, .low hs hlt (he.mono hle)⟩
  next hover =>
  split
  · next hge =>
    rw [ge_iff_le, UInt8.le_iff_toNat_le, hsame.count, hsucc] at hge
    have heq : s.mCurCount.toNat + 1 = p.count.toNat := by omega
    refine ⟨{ hsame with }, hpulses, .wait rfl (hsucc.trans heq) ?_⟩
    rw [← heq]
    exact ⟨he.start, Nat.le_trans he.le hle, he.ons, he.offs⟩
  · next hge =>
    rw [ge_iff_le, UInt8.le_iff_toNat_le, hsame.count, hsucc, Nat.not_le] at hge
    have hk := mul_period_le (P := p.period.toNat) hge
    have hmul := Nat.add_one_mul s.mCurCount.toNat p.period.toNat
    have hover := wait_over (Nat.le_trans he.le hle) he.start
      (by rw [hsame.period]; have := hn.1; omega) hover
    rw [hsame.period] at hover
    refine ⟨{ hsame with }, hpulses,
      .again rfl (by rw [hsucc]; exact Nat.succ_ne_zero _) (by rw [hsucc]; exact hge) ?_ ?_⟩
    · rw [hsucc]
      exact ⟨he.start, Nat.le_trans he.le hle, he.ons, he.offs⟩
    · rw [hsucc]
      omega

/-- The gap goes on, or the burst is over. -/
theorem wait_inv (hn : NoWrap p) (hsame : SameParams p s) (hpulses : Pulses p (b :: log))
    (hs : s.mState = .StLedBurstWait) (hk : s.mCurCount.toNat = p.count.toNat)
    (he : Edges last p.count.toNat p.count.toNat s b) (hle : last ≤ i.1) :
    Inv p i.1 (tick (s, b :: log) i).1 (tick (s, b :: log) i).2 := by
  rw [tick_eq]
  simp only [process, hs]
  split
  · exact ⟨hsame, hpulses, .wait hs hk (he.mono hle)⟩
  · next hover =>
    have hover := wait_over (Nat.le_trans he.le hle) he.start
      (by rw [hsame.period, hsame.gap, hk]; exact hn.2) hover
    rw [hsame.period, hsame.gap, hk] at hover
    exact ⟨{ hsame with }, hpulses, .next rfl rfl he.ons hover⟩

/-- One tick from each phase. -/
theorem tick_inv (hw : 1 ≤ p.width.toNat) (hc : 1 ≤ p.count.toNat) (hn : NoWrap p)
    (h : Inv p last s log) (hle : last ≤ i.1) :
    Inv p i.1 (tick (s, log) i).1 (tick (s, log) i).2 := by
  obtain ⟨hsame, hpulses, hphase⟩ := h
  have hon := level_on hw hsame.width
  have hcur0 (hk : s.mCurCount.toNat = 0) : s.mCurCount = 0 := UInt8.toNat_inj.mp hk
  cases hphase with
  | start hs hk =>
    rw [tick_eq]
    simp only [process, hs]
    split
    · exact ⟨hsame, hpulses, .start hs hk⟩
    · split
      · exact ⟨hsame, hpulses, .start hs hk⟩
      · exact ⟨{ hsame with }, hpulses, .first rfl hk⟩
  | first hs hk =>
    rw [tick_eq]
    simp only [process, hs, hon, logged, hcur0 hk, if_true]
    exact ⟨{ hsame with }, hpulses.begin hc (fun b hb => by cases hb),
      .high rfl hc ⟨rfl, Nat.le_refl _, rfl, rfl⟩⟩
  | next hs hk hlen ht =>
    rw [tick_eq]
    simp only [process, hs, hon, logged, hcur0 hk, if_true]
    refine ⟨{ hsame with }, hpulses.begin hc fun b hb => ?_,
      .high rfl hc ⟨rfl, Nat.le_refl _, rfl, rfl⟩⟩
    cases hb
    exact ⟨hlen, Nat.le_trans ht hle⟩
  | @again b log hs hk hlt he ht =>
    have hne : s.mCurCount ≠ 0 := fun h0 => hk (by rw [h0]; rfl)
    rw [tick_eq]
    simp only [process, hs, hon, logged, if_neg hne, List.modifyHead_cons]
    refine ⟨{ hsame with }, hpulses.extend rfl ?_, .high rfl hlt ?_⟩
    · exact (hpulses.inTime b List.mem_cons_self).rise (by rw [he.ons]; exact hlt)
        (by rw [he.ons]; exact Nat.le_trans ht hle)
    · refine ⟨he.start, Nat.le_trans he.le hle, ?_, he.offs⟩
      rw [List.length_append, he.ons]
      rfl
  | high hs hlt he => exact high_inv hn hsame hpulses hs hlt he hle
  | low hs hlt he => exact low_inv hn hsame hpulses hs hlt he hle
  | wait hs hk he => exact wait_inv hn hsame hpulses hs hk he hle

end Tick

/-- From the start, whatever the pin and the ticks are. -/
theorem run_inv (hw : 1 ≤ p.width.toNat) (hc : 1 ≤ p.count.toNat) (hn : NoWrap p)
    (h : Inv p last s log) (ticks : List (Nat × Bool))
    (hsorted : (last :: ticks.map Prod.fst).Pairwise (· ≤ ·)) :
    Pulses p (ticks.foldl tick (s, log)).2 := by
  induction ticks generalizing last s log with
  | nil => exact h.pulses
  | cons i ticks ih =>
    rw [List.map_cons, List.pairwise_cons] at hsorted
    exact ih (tick_inv hw hc hn h (hsorted.1 i.1 List.mem_cons_self)) hsorted.2

theorem start_inv (pin : UInt8) (p : Params) : Inv p 0 (start pin p) [] :=
  ⟨⟨rfl, rfl, rfl, rfl⟩, .nil p, .start rfl rfl⟩

/-! ## Late ticks

With all ticks after the first pulse at the end of the first turn of the clock, every wait is
over at once. So a threshold that wraps is passed early. -/

section Late

-- `d` is the last millisecond of the first turn
variable {d k : Nat} {b : Burst}

theorem late_over (hd : d + 1 = 2 ^ 32) (h : s.mStartMs = 0) (ms : UInt32) :
    ¬ UInt32.ofNat d - s.mStartMs < ms := by
  have := ms.toNat_lt
  rw [h, UInt32.lt_iff_toNat_lt, UInt32.sub_zero, UInt32.toNat_ofNat']
  omega

/-- In the pulse `k` of the first burst, which began at time 0. -/
structure Late (p : Params) (k : Nat) (s : EspLedPulsing) (b : Burst) : Prop where
  params : SameParams p s
  state : s.mState = .StLedHigh
  startMs : s.mStartMs = 0
  curCount : s.mCurCount.toNat = k
  t0 : b.t0 = 0
  offs : b.offs.length = k

/-- The falling edge. -/
theorem late_fall (hd : d + 1 = 2 ^ 32) (h : Late p k s b) : tick (s, [b]) (d, true) =
    ({ s with mState := .StLedLow }, [{ b with offs := b.offs ++ [d] }]) := by
  rw [tick_eq]
  simp only [process, h.state, if_neg (late_over hd h.startMs _), logged, List.modifyHead_cons]

/-- The end of a period: to the next pulse, or to the gap. -/
theorem late_low (hd : d + 1 = 2 ^ 32) (hs : s.mState = .StLedLow) (h0 : s.mStartMs = 0)
    (log : List Burst) : tick (s, log) (d, true) =
      ({ s with
          mCurCount := s.mCurCount + 1
          mState := if s.mCurCount + 1 ≥ s.mCount then .StLedBurstWait else .StLedHighSet },
        log) := by
  rw [tick_eq]
  simp only [process, hs, if_neg (late_over hd h0 _)]
  split <;> rfl

/-- The end of the gap. -/
theorem late_wait (hd : d + 1 = 2 ^ 32) (hs : s.mState = .StLedBurstWait) (h0 : s.mStartMs = 0)
    (log : List Burst) : tick (s, log) (d, true) =
      ({ s with
          mCurCount := 0
          mNumBurstsDone := s.mNumBurstsDone + 1
          mState := .StLedHighSet }, log) := by
  rw [tick_eq]
  simp only [process, hs, if_neg (late_over hd h0 _), logged]

/-- Three ticks take one pulse to the next. -/
theorem late_pulse (hd : d + 1 = 2 ^ 32) (hw : 1 ≤ p.width.toNat) (h : Late p k s b)
    (hlt : k + 1 < p.count.toNat) :
    ∃ s' b', (List.replicate 3 (d, true)).foldl tick (s, [b]) = (s', [b']) ∧
      Late p (k + 1) s' b' := by
  have hsucc : (s.mCurCount + 1).toNat = k + 1 := by
    rw [curCount_succ (p := p) (by rw [h.curCount]; omega), h.curCount]
  have hge : ¬ s.mCurCount + 1 ≥ s.mCount := by
    rw [ge_iff_le, UInt8.le_iff_toNat_le, hsucc, h.params.count]
    omega
  have hne : s.mCurCount + 1 ≠ 0 := by
    intro h0
    rw [h0] at hsucc
    cases hsucc
  refine ⟨{ s with mCurCount := s.mCurCount + 1, mState := .StLedHigh },
    { b with ons := b.ons ++ [d], offs := b.offs ++ [d] }, ?_, ⟨h.params.width, h.params.period,
      h.params.count, h.params.gap⟩, rfl, h.startMs, hsucc, h.t0, ?_⟩
  · have hlow := late_low (s := { s with mState := .StLedLow }) hd rfl h.startMs
    rw [List.replicate_succ, List.foldl_cons, late_fall hd h, List.replicate_succ, List.foldl_cons,
      hlow, List.replicate_one, List.foldl_cons, List.foldl_nil, tick_eq]
    simp only [process, if_neg hge, level_on hw h.params.width, logged, if_neg hne,
      List.modifyHead_cons]
  · rw [List.length_append, h.offs]
    rfl

/-- To any pulse of the burst. -/
theorem late_pulses (hd : d + 1 = 2 ^ 32) (hw : 1 ≤ p.width.toNat) (h : Late p 0 s b) (k : Nat)
    (hlt : k < p.count.toNat) :
    ∃ s' b', (List.replicate (3 * k) (d, true)).foldl tick (s, [b]) = (s', [b']) ∧
      Late p k s' b' := by
  induction k with
  | zero => exact ⟨s, b, rfl, h⟩
  | succ k ih =>
    obtain ⟨s₁, b₁, h₁, hl₁⟩ := ih (Nat.lt_of_succ_lt hlt)
    obtain ⟨s₂, b₂, h₂, hl₂⟩ := late_pulse hd hw hl₁ hlt
    refine ⟨s₂, b₂, ?_, hl₂⟩
    rw [Nat.mul_succ, List.replicate_add, List.foldl_append, h₁, h₂]

/-- The four ticks from the last pulse of the first burst to the first one of the second. -/
theorem late_burst (hd : d + 1 = 2 ^ 32) (hw : 1 ≤ p.width.toNat) (h : Late p k s b)
    (hlast : k + 1 = p.count.toNat) :
    ((List.replicate 4 (d, true)).foldl tick (s, [b])).2 =
      [⟨d, [d], []⟩, { b with offs := b.offs ++ [d] }] := by
  have hge : s.mCurCount + 1 ≥ s.mCount := by
    rw [ge_iff_le, UInt8.le_iff_toNat_le, h.params.count, ← hlast,
      curCount_succ (p := p) (by rw [h.curCount]; omega), h.curCount]
  have hlow := late_low (s := { s with mState := .StLedLow }) hd rfl h.startMs
  have hwait := late_wait (s := { s with
    mCurCount := s.mCurCount + 1
    mState := if s.mCurCount + 1 ≥ s.mCount then .StLedBurstWait else .StLedHighSet }) hd
    (if_pos hge) h.startMs
  rw [List.replicate_succ, List.foldl_cons, late_fall hd h, List.replicate_succ, List.foldl_cons,
    hlow, List.replicate_succ, List.foldl_cons, hwait, List.replicate_one, List.foldl_cons,
    List.foldl_nil, tick_eq]
  simp only [process, level_on hw h.params.width, logged, if_true]

/-- The first pulse, at time 0. -/
theorem start_late (hw : 1 ≤ p.width.toNat) :
    ∃ s b, [(0, true), (0, true)].foldl tick (start 1 p, []) = (s, [b]) ∧ Late p 0 s b := by
  refine ⟨{ start 1 p with mState := .StLedHigh }, ⟨0, [0], []⟩, ?_,
    ⟨rfl, rfl, rfl, rfl⟩, rfl, rfl, rfl, rfl, rfl⟩
  rw [List.foldl_cons, List.foldl_cons, List.foldl_nil]
  have h1 : tick (start 1 p, []) (0, true) = ({ start 1 p with mState := .StLedHighSet }, []) := rfl
  rw [h1, tick_eq]
  have hon : ((start 1 p).mWidth != 0) = true := level_on hw rfl
  simp only [process, hon, logged]
  rfl

end Late

/-- No pulse is early and all are counted, in every run, exactly when no threshold of a burst
wraps. -/
theorem pulses_inTime (p : Params) (hw : 1 ≤ p.width.toNat) (hc : 1 ≤ p.count.toNat) :
    (∀ (pin : UInt8) (ticks : List (Nat × Bool)), (ticks.map Prod.fst).Pairwise (· ≤ ·) →
      Pulses p (run pin p ticks).2) ↔ NoWrap p := by
  constructor
  · intro h
    obtain ⟨d, hd⟩ : ∃ d : Nat, d + 1 = 2 ^ 32 := ⟨2 ^ 32 - 1, by omega⟩
    obtain ⟨k, hk⟩ : ∃ k, k + 1 = p.count.toNat := ⟨p.count.toNat - 1, by omega⟩
    obtain ⟨s₀, b₀, h₀, hl₀⟩ := start_late (p := p) hw
    obtain ⟨s₁, b₁, h₁, hl₁⟩ := late_pulses hd hw hl₀ k (by omega)
    have hsorted : (([(0, true), (0, true)] ++ List.replicate (3 * k + 4) (d, true)).map
        Prod.fst).Pairwise (· ≤ ·) := by
      rw [List.map_append, List.map_replicate]
      simp
    have hp := h 1 _ hsorted
    rw [run, List.foldl_append, h₀, List.replicate_add, List.foldl_append, h₁,
      late_burst hd hw hl₁ hk] at hp
    have hoff := (hp.inTime _ (List.mem_cons_of_mem _ List.mem_cons_self)).off k d
      (by rw [← hl₁.offs]; exact List.getElem?_concat_length)
    have hnext := ((List.isChain_cons.mp hp.chain).1 _ rfl).2
    dsimp only at hoff hnext
    rw [hl₁.t0] at hoff hnext
    rw [NoWrap, ← hk, Nat.add_sub_cancel]
    rw [← hk] at hnext
    omega
  · intro hn pin ticks hsorted
    refine run_inv hw hc hn (start_inv pin p) ticks ?_
    exact List.pairwise_cons.mpr ⟨fun _ _ => Nat.zero_le _, hsorted⟩

/-- Two pulses of 50 ms in a second, then a gap of three. -/
theorem pulses_inTime_double : Pulses ⟨50, 500, 2, 3000⟩ (run 1 ⟨50, 500, 2, 3000⟩
    [(0, true), (0, true), (50, true), (50, true), (500, true), (500, true), (550, true)]).2 :=
  (pulses_inTime ⟨50, 500, 2, 3000⟩ (by decide) (by decide)).mpr (by decide) 1 _ (by decide)

/-- A gap of `UINT32_MAX` after a pulse of 1 ms is no gap at all: the next burst begins at 1. -/
theorem pulses_inTime_fails : ¬ ∀ (p : Params), 1 ≤ p.width.toNat → 1 ≤ p.count.toNat →
    ∀ (pin : UInt8) (ticks : List (Nat × Bool)), (ticks.map Prod.fst).Pairwise (· ≤ ·) →
      Pulses p (run pin p ticks).2 := by
  intro h
  have hp := h ⟨1, 1, 1, 0xFFFFFFFF⟩ (by decide) (by decide) 1
    [(0, true), (0, true), (1, true), (1, true), (1, true), (1, true)] (by decide)
  have hchain := hp.chain
  rw [show (run 1 ⟨1, 1, 1, 0xFFFFFFFF⟩
    [(0, true), (0, true), (1, true), (1, true), (1, true), (1, true)]).2 =
      [⟨1, [1], []⟩, ⟨0, [0], [1]⟩] by decide] at hchain
  exact absurd ((List.isChain_cons.mp hchain).1 _ rfl).2 (by decide)

end EspLedPulsing
end ProcessingCommon

import ProcessingCommon.Lib.Nearest
import ProcessingCommon.ListIdxCursor
import ProcessingCommon.TextBox.Dirty

/-!
# Jumps over words

`cursorJump` moves a text pointer, a 16-bit position and the front index side by side, until the
two characters around the pointer are an edge of a word. The pointer to the character before is
not set any more when the pointer arrives at the start of the text.
-/

namespace ProcessingCommon
namespace TextBox

open ListIdx

/-- A word ends before position `p` of the text (`isRight`) or starts at it. -/
def WordEdge (work : U32String) (isRight : Bool) (p : Nat) : Prop :=
  0 < p ∧ p < work.length ∧ keyIsBoundary (.ofChar (charAt work (p - 1))) = !isRight ∧
    keyIsBoundary (.ofChar (charAt work p)) = isRight

/-! ## The loop with its reads -/

/-- `*(c_str() + p)`; `none` is a read before the text or behind its terminator. -/
def deref (work : U32String) (p : Int) : Option Char32 :=
  if 0 ≤ p ∧ p ≤ work.length then some (charAt work p.toNat) else none

/-- The loop of `cursorJump` on pointers that may leave the text. `none` is a read outside of the
text, or that the rounds were not enough. -/
def cursorJumpChecked (work : U32String) (isRight : Bool) (idxStop : UInt16) :
    Nat → ListIdx → UInt16 → Int → Option Int → Bool → Option (ListIdx × Bool)
  | 0, _, _, _, _, _ => none
  | n + 1, idxFront, idxAbs, pCursor, pPrev, changed =>
    if idxAbs = idxStop then some (idxFront, changed)
    else
      let idxFront := if isRight then idxFront.inc.1 else idxFront.dec.1
      let pCursor := if isRight then pCursor + 1 else pCursor - 1
      let idxAbs := if isRight then idxAbs + 1 else idxAbs - 1
      let pPrev := if idxAbs ≠ 0 then some (pCursor - 1) else pPrev
      match pPrev with
      | none => cursorJumpChecked work isRight idxStop n idxFront idxAbs pCursor none true
      | some p =>
        -- the source makes the second read only if the first test holds
        (deref work p).bind fun chPrev => (deref work pCursor).bind fun chCursor =>
          if keyIsBoundary (.ofChar chPrev) = !isRight ∧
              keyIsBoundary (.ofChar chCursor) = isRight then some (idxFront, true)
          else cursorJumpChecked work isRight idxStop n idxFront idxAbs pCursor (some p) true

variable {work : U32String} {isRight : Bool} {idxStop idxAbs : UInt16} {n c : Nat}
  {x : ListIdx} {k : ListCursor} {pPrev : Option Nat} {changed : Bool} {r : ListIdx × Bool}

/-- Both loops give the result, so all reads are in the text. -/
def Jumps (work : U32String) (isRight : Bool) (idxStop : UInt16) (n : Nat) (x : ListIdx)
    (idxAbs : UInt16) (pCursor : Nat) (pPrev : Option Nat) (changed : Bool)
    (r : ListIdx × Bool) : Prop :=
  cursorJumpLoop work isRight idxStop n x idxAbs pCursor pPrev changed = r ∧
    cursorJumpChecked work isRight idxStop n x idxAbs pCursor (pPrev.map Nat.cast) changed = some r

theorem deref_natCast (h : c ≤ work.length) : deref work (c : Int) = some (charAt work c) := by
  have hrange : (0 : Int) ≤ c ∧ (c : Int) ≤ work.length :=
    ⟨Int.natCast_nonneg c, Int.ofNat_le.mpr h⟩
  rw [deref, if_pos hrange, Int.toNat_natCast]

/-- The terminator is no boundary. -/
theorem keyIsBoundary_terminator (work : U32String) :
    keyIsBoundary (.ofChar (charAt work work.length)) = false := by
  have hchar : charAt work work.length = 0 := by
    rw [charAt, List.getD_eq_getElem?_getD, List.getElem?_eq_none (Nat.le_refl _)]
    rfl
  rw [hchar]
  decide

/-! ## One round -/

namespace Jumps

theorem stop (work : U32String) (isRight : Bool) (idxStop : UInt16) (n : Nat) (x : ListIdx)
    (c : Nat) (pPrev : Option Nat) (changed : Bool) :
    Jumps work isRight idxStop (n + 1) x idxStop c pPrev changed (x, changed) := by
  constructor
  · rw [cursorJumpLoop, if_pos rfl]
  · rw [cursorJumpChecked, if_pos rfl]

/-- To the right every round reads the character that is left and the one behind it. -/
theorem right (hstop : idxAbs ≠ idxStop) (hwrap : idxAbs + 1 ≠ 0) (hc : c < work.length)
    (hedge : WordEdge work true (c + 1) → r = (x.inc.1, true))
    (hnext : ¬ WordEdge work true (c + 1) →
      Jumps work true idxStop n x.inc.1 (idxAbs + 1) (c + 1) (some c) true r) :
    Jumps work true idxStop (n + 1) x idxAbs c pPrev changed r := by
  have hiff : WordEdge work true (c + 1) ↔
      keyIsBoundary (.ofChar (charAt work c)) = !true ∧
        keyIsBoundary (.ofChar (charAt work (c + 1))) = true := by
    refine ⟨fun h => ⟨h.2.2.1, h.2.2.2⟩, fun h => ⟨Nat.succ_pos c, ?_, h.1, h.2⟩⟩
    refine Nat.lt_of_le_of_ne hc fun heq => ?_
    rw [heq, keyIsBoundary_terminator] at h
    exact Bool.false_ne_true h.2
  have hprev : ((c : Int) + 1 - 1) = (c : Int) := Int.add_sub_cancel _ _
  have hsucc : ((c : Int) + 1) = ((c + 1 : Nat) : Int) := rfl
  rw [Jumps, cursorJumpLoop, cursorJumpChecked, if_neg hstop, if_neg hstop]
  simp only [if_true, if_pos hwrap, Nat.add_sub_cancel, hprev]
  rw [hsucc, deref_natCast (Nat.le_of_lt hc), deref_natCast hc]
  simp only [Option.bind_some]
  split
  · next he =>
    rw [hedge (hiff.mpr he)]
    exact ⟨rfl, rfl⟩
  · next he => exact hnext (mt hiff.mp he)

/-- To the left, as long as there is a character before the pointer. -/
theorem left (hstop : idxAbs ≠ idxStop) (hzero : idxAbs - 1 ≠ 0) (hc : c + 1 < work.length)
    (hedge : WordEdge work false (c + 1) → r = (x.dec.1, true))
    (hnext : ¬ WordEdge work false (c + 1) →
      Jumps work false idxStop n x.dec.1 (idxAbs - 1) (c + 1) (some c) true r) :
    Jumps work false idxStop (n + 1) x idxAbs (c + 2) pPrev changed r := by
  have hiff : WordEdge work false (c + 1) ↔
      keyIsBoundary (.ofChar (charAt work c)) = !false ∧
        keyIsBoundary (.ofChar (charAt work (c + 1))) = false :=
    ⟨fun h => ⟨h.2.2.1, h.2.2.2⟩, fun h => ⟨Nat.succ_pos c, hc, h.1, h.2⟩⟩
  have hpred : (((c + 2 : Nat) : Int) - 1) = ((c + 1 : Nat) : Int) := by omega
  have hprev : (((c + 1 : Nat) : Int) - 1) = (c : Int) := by omega
  have hnat : c + 2 - 1 = c + 1 := rfl
  rw [Jumps, cursorJumpLoop, cursorJumpChecked, if_neg hstop, if_neg hstop]
  simp only [Bool.false_eq_true, if_false, if_pos hzero, hnat, Nat.add_sub_cancel, hpred, hprev]
  rw [deref_natCast (Nat.le_of_lt (Nat.lt_of_succ_lt hc)), deref_natCast (Nat.le_of_lt hc)]
  simp only [Option.bind_some]
  split
  · next he =>
    rw [hedge (hiff.mpr he)]
    exact ⟨rfl, rfl⟩
  · next he => exact hnext (mt hiff.mp he)

/-- The last round to the left. The pointer to the character before is missing or has become
the pointer to the first character itself, which is no edge. -/
theorem left_last (hone : idxAbs - 1 = 0) (hstop : idxAbs ≠ 0) (hp : pPrev = none ∨ pPrev = some 0) :
    Jumps work false 0 (n + 2) x idxAbs 1 pPrev changed (x.dec.1, true) := by
  have hnone : ¬ (keyIsBoundary (.ofChar (charAt work 0)) = !false ∧
      keyIsBoundary (.ofChar (charAt work 0)) = false) := by
    rintro ⟨htrue, hfalse⟩
    exact Bool.false_ne_true (hfalse.symm.trans htrue)
  have hnext : Jumps work false 0 (n + 1) x.dec.1 (idxAbs - 1) 0 pPrev true (x.dec.1, true) := by
    rw [hone]
    exact stop work false 0 n x.dec.1 0 pPrev true
  have hpred : (((1 : Nat) : Int) - 1) = ((0 : Nat) : Int) := rfl
  rw [Jumps, cursorJumpLoop, cursorJumpChecked, if_neg hstop, if_neg hstop]
  simp only [Bool.false_eq_true, if_false, hone, ne_eq, not_true_eq_false, Nat.sub_self, hpred]
  rw [hone] at hnext
  rcases hp with rfl | rfl
  · exact hnext
  · simp only [Option.map_some]
    rw [deref_natCast (Nat.zero_le _), if_neg hnone]
    simp only [Option.bind_some]
    rw [if_neg hnone]
    exact hnext

end Jumps

/-! ## The whole jump -/

/-- Where a jump from `c` ends. -/
def JumpTarget (work : U32String) : Bool → Nat → Nat → Prop
  | true, c, p => NearestAbove (WordEdge work true) work.length c p
  | false, c, p => NearestBelow (WordEdge work false) c p

theorem jumps_right (hlen : work.length < 2 ^ 16) (hk : x.Refines k)
    (hs : k.size = work.length + 1) (ha : idxAbs.toNat = k.pos) (hn : work.length - k.pos < n)
    (pPrev : Option Nat) (changed : Bool) :
    ∃ y d, y.Refines d ∧ JumpTarget work true k.pos d.pos ∧
      Jumps work true (UInt16.ofNat work.length) n x idxAbs k.pos pPrev changed
        (y, changed || decide (d.pos ≠ k.pos)) := by
  induction n generalizing x k idxAbs pPrev changed with
  | zero => exact absurd hn (Nat.not_lt_zero _)
  | succ n ih =>
    have hle := k.pos_le_pred
    have hstop : (UInt16.ofNat work.length).toNat = work.length := UInt16.toNat_ofNat_of_lt' hlen
    by_cases hend : k.pos = work.length
    · have heq : idxAbs = UInt16.ofNat work.length := by
        rw [← UInt16.toNat_inj, hstop, ha, hend]
      refine ⟨x, k, hk, ?_, ?_⟩
      · rw [hend]
        exact .self fun q hq hedge => Nat.lt_asymm hq hedge.2.1
      · rw [heq, decide_eq_false (not_not.mpr rfl), Bool.or_false]
        exact .stop ..
    · have hlt : k.pos < work.length := by omega
      have hne : idxAbs ≠ UInt16.ofNat work.length := fun heq => hend (by rw [← ha, heq, hstop])
      have hsucc : (idxAbs + 1).toNat = k.pos + 1 := by
        rw [UInt16.toNat_add, ha, UInt16.toNat_one]
        omega
      have hwrap : idxAbs + 1 ≠ 0 := fun heq => by
        rw [heq] at hsucc
        exact absurd hsucc (Nat.succ_ne_zero _).symm
      have hi := (inc_refines hk).1
      have hpos : k.next.pos = k.pos + 1 := by
        rw [ListCursor.next_pos]
        omega
      by_cases hedge : WordEdge work true (k.pos + 1)
      · refine ⟨x.inc.1, k.next, hi, ?_, ?_⟩
        · rw [hpos]
          exact .succ hedge
        · rw [hpos, decide_eq_true (Nat.succ_ne_self _), Bool.or_true]
          exact .right hne hwrap hlt (fun _ => rfl) fun hno => absurd hedge hno
      · obtain ⟨y, d, hy, hd, hj⟩ := ih hi hs (by rw [hsucc, hpos]) (by omega) (some k.pos) true
        rw [hpos] at hd hj
        have htarget : JumpTarget work true k.pos d.pos := .of_succ hedge hd
        have hmoved : d.pos ≠ k.pos := Nat.ne_of_gt (NearestAbove.lt htarget hlt)
        refine ⟨y, d, hy, htarget, ?_⟩
        rw [decide_eq_true hmoved, Bool.or_true]
        exact .right hne hwrap hlt (fun hyes => absurd hyes hedge) fun _ => hj

theorem jumps_left (hlen : work.length < 2 ^ 16) (hk : x.Refines k)
    (hs : k.size = work.length + 1) (ha : idxAbs.toNat = k.pos) (hn : k.pos < n)
    (hp : pPrev = none ∨ pPrev = some (k.pos - 1)) (changed : Bool) :
    ∃ y d, y.Refines d ∧ JumpTarget work false k.pos d.pos ∧
      Jumps work false 0 n x idxAbs k.pos pPrev changed
        (y, changed || decide (d.pos ≠ k.pos)) := by
  induction n generalizing x k idxAbs pPrev changed with
  | zero => exact absurd hn (Nat.not_lt_zero _)
  | succ n ih =>
    have hle := k.pos_le_pred
    have hi := (dec_refines hk).1
    have hprev : k.prev.pos = k.pos - 1 := ListCursor.prev_pos
    have hzero : idxAbs = 0 ↔ k.pos = 0 := by rw [← UInt16.toNat_inj, ha, UInt16.toNat_zero]
    have hpred : k.pos ≠ 0 → (idxAbs - 1).toNat = k.pos - 1 := fun h0 => by
      rw [UInt16.toNat_sub, ha, UInt16.toNat_one]
      omega
    match hc : k.pos with
    | 0 =>
      refine ⟨x, k, hk, ?_, ?_⟩
      · rw [hc]
        exact .zero
      · rw [hc, hzero.mpr hc, decide_eq_false (not_not.mpr rfl), Bool.or_false]
        exact .stop ..
    | 1 =>
      have hone : k.pos ≠ 0 := by omega
      have hlast : idxAbs - 1 = 0 := by
        rw [← UInt16.toNat_inj, hpred hone, hc]
        rfl
      rw [hc] at hp hprev
      obtain ⟨m, rfl⟩ : ∃ m, n = m + 1 := Nat.exists_eq_succ_of_ne_zero (by omega)
      refine ⟨x.dec.1, k.prev, hi, ?_, ?_⟩
      · rw [hprev]
        exact .of_pred (fun hedge => absurd hedge.1 (Nat.lt_irrefl 0)) .zero
      · rw [hprev, decide_eq_true (by decide), Bool.or_true]
        exact .left_last hlast (fun heq => hone (hzero.mp heq)) hp
    | c + 2 =>
      have hpos : k.pos ≠ 0 := by omega
      have hne : idxAbs ≠ 0 := fun heq => hpos (hzero.mp heq)
      have hsucc := hpred hpos
      have hagain : idxAbs - 1 ≠ 0 := fun heq => by
        rw [heq, UInt16.toNat_zero] at hsucc
        omega
      have hlt : c + 1 < work.length := by omega
      rw [hc] at hprev
      by_cases hedge : WordEdge work false (c + 1)
      · refine ⟨x.dec.1, k.prev, hi, ?_, ?_⟩
        · rw [hprev]
          exact .pred hedge
        · rw [hprev, decide_eq_true (by omega), Bool.or_true]
          exact .left hne hagain hlt (fun _ => rfl) fun hno => absurd hedge hno
      · obtain ⟨y, d, hy, hd, hj⟩ := ih hi hs (by rw [hsucc, hprev, hc]) (by omega)
          (.inr (congrArg some (by rw [hprev]; rfl : c = k.prev.pos - 1))) true
        rw [hprev] at hd hj
        have htarget : JumpTarget work false (c + 2) d.pos := .of_pred hedge hd
        have hmoved : d.pos ≠ c + 2 := Nat.ne_of_lt (NearestBelow.lt htarget (Nat.succ_pos _))
        refine ⟨y, d, hy, htarget, ?_⟩
        rw [decide_eq_true hmoved, Bool.or_true]
        exact .left hne hagain hlt (fun hyes => absurd hyes hedge) fun _ => hj

variable {b : TextBox} {key : KeyUser}

/-- `cursorJump` with the loop that checks its reads. -/
def jumpChecked (b : TextBox) (key : KeyUser) : Option (ListIdx × Bool) :=
  if b.mUstrWork.length = 0 then some (b.mIdxFront, false)
  else
    let isRight := key.eqCtrl keyRight
    let idxAbs := b.mIdxFront.cursorAbs.toUInt16
    let idxStop := if isRight then UInt16.ofNat b.mUstrWork.length else 0
    cursorJumpChecked b.mUstrWork isRight idxStop (2 ^ 16) b.mIdxFront idxAbs idxAbs.toNat none
      false

theorem jumps_total (hlen : b.mUstrWork.length < 2 ^ 16) (hk : b.mIdxFront.Refines k)
    (hs : k.size = b.mUstrWork.length + 1) (key : KeyUser) :
    ∃ y d, y.Refines d ∧ JumpTarget b.mUstrWork (key.eqCtrl keyRight) k.pos d.pos ∧
      b.cursorJump key = (y, decide (d.pos ≠ k.pos)) ∧
      b.jumpChecked key = some (y, decide (d.pos ≠ k.pos)) := by
  have hle := k.pos_le_pred
  have hcur : b.mIdxFront.cursorAbs.toUInt16.toNat = k.pos := by
    rw [UInt32.toNat_toUInt16, hk.pos_eq]
    omega
  unfold cursorJump jumpChecked
  by_cases hempty : b.mUstrWork.length = 0
  · have hpos : k.pos = 0 := by omega
    refine ⟨b.mIdxFront, k, hk, ?_, ?_, ?_⟩
    · rw [hpos]
      cases key.eqCtrl keyRight with
      | true =>
        show NearestAbove _ b.mUstrWork.length 0 0
        rw [hempty]
        exact .self fun q hq hedge => absurd hedge.2.1 (by omega)
      | false => exact .zero
    · rw [if_pos hempty, decide_eq_false (not_not.mpr rfl)]
    · rw [if_pos hempty, decide_eq_false (not_not.mpr rfl)]
  · rw [if_neg hempty, if_neg hempty]
    dsimp only
    rw [hcur]
    cases key.eqCtrl keyRight with
    | true =>
      obtain ⟨y, d, hy, hd, hj⟩ := jumps_right hlen hk hs hcur (n := 2 ^ 16) (by omega) none false
      exact ⟨y, d, hy, hd, hj.1, hj.2⟩
    | false =>
      obtain ⟨y, d, hy, hd, hj⟩ :=
        jumps_left hlen hk hs hcur (n := 2 ^ 16) (by omega) (.inl rfl) false
      exact ⟨y, d, hy, hd, hj.1, hj.2⟩

/-- Ctrl-Left and Ctrl-Right are handled by `cursorJump` alone. -/
theorem keyProcess_jump (hf : b.mFocus = true) (hmod : key.modCtrl = true)
    (hkey : key.eqCtrl keyLeft = true ∨ key.eqCtrl keyRight = true) :
    (b.keyProcess key).1.mIdxFront = (b.cursorJump key).1 := by
  have hother : ∀ c, c ≠ keyLeft → c ≠ keyRight → ¬ key.eqCtrl c = true := by
    intro c hl hr
    rcases hkey with hkey | hkey
    · exact KeyUser.eqCtrl_of_ne hkey hl.symm
    · exact KeyUser.eqCtrl_of_ne hkey hr.symm
  have harrow : ((key.eqCtrl keyLeft || key.eqCtrl keyRight) && key.modCtrl) = true := by
    rw [hmod, Bool.and_true, Bool.or_eq_true]
    exact hkey
  have hclean : cursorJump { b with mDirty := false } key = b.cursorJump key := rfl
  have hnav : navigateFront { b with mDirty := false } key = some (b.cursorJump key) := by
    rw [navigateFront, if_neg (hother _ (by decide) (by decide)),
      if_neg (hother _ (by decide) (by decide)), if_pos harrow, hclean]
  have hmoved : (navigate { b with mDirty := false } key).1.mIdxFront = (b.cursorJump key).1 := by
    rw [navigate, hnav]
    dsimp only
    split <;> rfl
  unfold keyProcess
  dsimp only
  rw [if_neg (hother _ (by decide) (by decide)), if_neg (hother _ (by decide) (by decide)),
    if_neg (not_unfocused hf), if_neg (hother _ (by decide) (by decide))]
  split
  · exact hmoved
  · rw [keyEdit_of_navigate hnav]
    exact hmoved

/-- Ctrl-Right goes to the nearest end of a word, Ctrl-Left to the nearest start of one, or else
to the end of the text. The rounds suffice, only the text and its terminator are read, and a jump
is reported exactly if the cursor is somewhere else. -/
theorem word_jump (hf : b.mFocus = true) (hi : b.mIdxFront.RepInv)
    (hw : 1 ≤ b.mIdxFront.mWin.toNat) (hs : b.mIdxFront.mSize.toNat = b.mUstrWork.length + 1)
    (hlen : b.mUstrWork.length ≤ 65535) (hmod : key.modCtrl = true)
    (hkey : key.eqCtrl keyLeft = true ∨ key.eqCtrl keyRight = true) :
    (b.keyProcess key).1.mIdxFront = (b.cursorJump key).1 ∧
      JumpTarget b.mUstrWork (key.eqCtrl keyRight) b.mIdxFront.cursorAbs.toNat
        (b.cursorJump key).1.cursorAbs.toNat ∧
      b.jumpChecked key = some (b.cursorJump key) ∧
      ((b.cursorJump key).2 = true ↔ (b.cursorJump key).1.cursorAbs ≠ b.mIdxFront.cursorAbs) := by
  obtain ⟨k, hsize, hk⟩ := hi.refines hw
  obtain ⟨y, d, hy, htarget, hjump, hchecked⟩ :=
    jumps_total (Nat.lt_succ_of_le hlen) hk (hsize.trans hs) key
  refine ⟨keyProcess_jump hf hmod hkey, ?_, ?_, ?_⟩
  · rw [hjump, hk.pos_eq, hy.pos_eq]
    exact htarget
  · rw [hchecked, hjump]
  · have hmoved : d.pos ≠ k.pos ↔ y.cursorAbs ≠ b.mIdxFront.cursorAbs := by
      rw [ne_eq, ne_eq, ← UInt32.toNat_inj, hk.pos_eq, hy.pos_eq]
    rw [hjump]
    exact decide_eq_true_iff.trans hmoved

def wordsLine : TextBox :=
  new.run [.focusSet true true, .ustrWorkSet (['t', 'e', 'x', 't', ' ', 'b', 'o', 'x'].map Char.val)]

def keyCtrlLeft : KeyUser := { KeyUser.ofCtrl keyLeft with mModCtrl := true }

theorem word_jump_words :
    (wordsLine.keyProcess keyCtrlLeft).1.mIdxFront = (wordsLine.cursorJump keyCtrlLeft).1 ∧
      JumpTarget wordsLine.mUstrWork (keyCtrlLeft.eqCtrl keyRight)
        wordsLine.mIdxFront.cursorAbs.toNat (wordsLine.cursorJump keyCtrlLeft).1.cursorAbs.toNat ∧
      wordsLine.jumpChecked keyCtrlLeft = some (wordsLine.cursorJump keyCtrlLeft) ∧
      ((wordsLine.cursorJump keyCtrlLeft).2 = true ↔
        (wordsLine.cursorJump keyCtrlLeft).1.cursorAbs ≠ wordsLine.mIdxFront.cursorAbs) :=
  word_jump (by decide) ⟨by decide, by decide, by decide, by decide, by decide⟩ (by decide)
    (by decide) (by decide) (by decide) (by decide)

end TextBox
end ProcessingCommon

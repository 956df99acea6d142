import Mathlib.Algebra.Group.Nat.Defs
import Mathlib.Data.List.Basic
import Mathlib.Data.List.Infix
import Mathlib.Data.List.TakeWhile
import Mathlib.Tactic.Common

/-!
# Searching and cutting a `std::basic_string`

A string is the list of its characters. A search gives a position, `none` for `npos`; `substr`
throws `out_of_range` (`none`) behind the end of the string only. The lemmas say what the calls
give on a string that is written as its parts.
-/

namespace ProcessingCommon

/-- `size_t` subtraction. -/
def sizeSub (a b : Nat) : Nat := (a + (2 ^ 64 - b)) % 2 ^ 64

end ProcessingCommon

namespace BasicString

variable {α : Type}

/-- `s.substr(pos, len)`. -/
def substr (s : List α) (pos len : Nat) : Option (List α) :=
  if pos ≤ s.length then some ((s.drop pos).take len) else none

theorem substr_append {a m t : List α} {pos len : Nat} (hp : pos = a.length)
    (hl : len = m.length) : substr (a ++ (m ++ t)) pos len = some m := by
  subst hp hl
  rw [substr, if_pos (by simp), List.drop_left, List.take_left]

/-- A length that goes beyond the end takes the rest. -/
theorem substr_rest {a t : List α} {pos len : Nat} (hp : pos = a.length) (hl : t.length ≤ len) :
    substr (a ++ t) pos len = some t := by
  subst hp
  rw [substr, if_pos (by simp), List.drop_left, List.take_of_length_le hl]

/-- A list that has `c` has a last one. -/
theorem last_of_mem {s : List α} {c : α} (h : c ∈ s) : ∃ a m, s = a ++ c :: m ∧ c ∉ m := by
  obtain ⟨m, a, hs, hm⟩ := List.eq_append_cons_of_mem (List.mem_reverse.mpr h)
  refine ⟨a.reverse, m.reverse, ?_, by rwa [List.mem_reverse]⟩
  rw [← List.reverse_reverse s, hs, List.reverse_append, List.reverse_cons, List.append_assoc]
  rfl

/-- What follows the last `c` is determined. -/
theorem last_unique {a b s t : List α} {c : α} (hs : c ∉ s) (ht : c ∉ t)
    (h : a ++ c :: s = b ++ c :: t) : s = t := by
  rcases List.append_eq_append_iff.mp h with ⟨m, -, hm⟩ | ⟨m, -, hm⟩
  · cases m with
    | nil => exact (List.cons.inj hm).2
    | cons x m => exact absurd (by rw [(List.cons.inj hm).2]; simp) hs
  · cases m with
    | nil => exact (List.cons.inj hm).2.symm
    | cons x m => exact absurd (by rw [(List.cons.inj hm).2]; simp) ht

variable [DecidableEq α]

/-- `s.find(c, pos)`. -/
def find (s : List α) (c : α) (pos : Nat) : Option Nat := ((s.drop pos).idxOf? c).map (pos + ·)

/-- `s.find(t, pos)`. -/
def findStr (s t : List α) (pos : Nat) : Option Nat :=
  ((s.drop pos).tails.findIdx? fun r => t.isPrefixOf r).map (pos + ·)

/-- `s.rfind(c, pos)`: the last position up to `pos`. -/
def rfind (s : List α) (c : α) : Nat → Option Nat
  | 0 => if s[0]? = some c then some 0 else none
  | pos + 1 => if s[pos + 1]? = some c then some (pos + 1) else rfind s c pos

/-- What a reader of `s.c_str()` sees, where `nul` ends a string. -/
def cStr (nul : α) (s : List α) : List α := s.takeWhile (· ≠ nul)

variable {a m t s : List α} {c : α} {pos i : Nat}

theorem idxOf?_append (h : c ∉ m) : (m ++ c :: t).idxOf? c = some m.length := by
  induction m with
  | nil => simp [List.idxOf?_cons]
  | cons d m ih =>
    rw [List.mem_cons, not_or] at h
    rw [List.cons_append, List.idxOf?_cons, if_neg (by simpa using Ne.symm h.1), ih h.2]
    rfl

theorem find_append (h : c ∉ m) :
    find (a ++ (m ++ c :: t)) c a.length = some (a.length + m.length) := by
  rw [find, List.drop_left, idxOf?_append h]
  rfl

theorem find_eq_none (h : c ∉ t) : find (a ++ t) c a.length = none := by
  rw [find, List.drop_left, List.idxOf?_eq_none_iff.mpr h]
  rfl

/-- The first `t` is where it was put, if its first character is not in front of it. -/
theorem findStr_append {r : List α} (h : c ∉ m) :
    findStr (m ++ (c :: t ++ r)) (c :: t) 0 = some m.length := by
  unfold findStr
  rw [List.drop_zero]
  induction m with
  | nil =>
    have hp : (c :: t).isPrefixOf (c :: t ++ r) = true :=
      List.isPrefixOf_iff_prefix.mpr (List.prefix_append _ _)
    rw [List.nil_append, List.cons_append, List.tails_cons, List.findIdx?_cons]
    rw [List.cons_append] at hp
    rw [if_pos hp]
    rfl
  | cons d m ih =>
    rw [List.mem_cons, not_or] at h
    have hp : ¬ (c :: t).isPrefixOf (d :: (m ++ (c :: t ++ r))) = true := by
      rw [List.isPrefixOf_iff_prefix, List.cons_prefix_cons]
      exact fun hd => h.1 hd.1
    rw [List.cons_append, List.tails_cons, List.findIdx?_cons, if_neg hp]
    have := ih h.2
    rw [Option.map_eq_some_iff] at this ⊢
    obtain ⟨k, hk, hk'⟩ := this
    exact ⟨k + 1, by rw [hk]; rfl, by rw [List.length_cons]; omega⟩

/-! ## From the right -/

theorem rfind_eq_some (h : rfind s c pos = some i) : i ≤ pos ∧ s[i]? = some c := by
  induction pos with
  | zero =>
    unfold rfind at h
    split at h
    · next hc =>
      cases h
      exact ⟨Nat.le_refl _, hc⟩
    · cases h
  | succ pos ih =>
    unfold rfind at h
    split at h
    · next hc =>
      cases h
      exact ⟨Nat.le_refl _, hc⟩
    · have := ih h
      exact ⟨by omega, this.2⟩

theorem rfind_eq_none (h : c ∉ s) : rfind s c pos = none := by
  cases hr : rfind s c pos with
  | none => rfl
  | some i => exact absurd (List.mem_of_getElem? (rfind_eq_some hr).2) h

/-- The last `c` up to a position that is not behind the part after it. -/
theorem rfind_append (h : c ∉ m) (hlo : a.length ≤ pos) (hhi : pos ≤ a.length + m.length) :
    rfind (a ++ (c :: m ++ t)) c pos = some a.length := by
  have hget : ∀ j, a.length < j → j ≤ a.length + m.length →
      ¬ (a ++ (c :: m ++ t))[j]? = some c := by
    intro j hj hj' hc
    obtain ⟨k, rfl⟩ := Nat.exists_eq_add_of_lt hj
    rw [List.getElem?_append_right (by omega), show a.length + k + 1 - a.length = k + 1 by omega,
      List.cons_append, List.getElem?_cons_succ, List.getElem?_append_left (by omega)] at hc
    exact h (List.mem_of_getElem? hc)
  have hat : (a ++ (c :: m ++ t))[a.length]? = some c := by
    rw [List.getElem?_append_right (Nat.le_refl _), Nat.sub_self]
    rfl
  induction pos with
  | zero =>
    have h0 : a.length = 0 := by omega
    rw [rfind, if_pos (by rw [← h0]; exact hat), h0]
  | succ pos ih =>
    rw [rfind]
    by_cases hp : a.length = pos + 1
    · rw [← hp, if_pos hat]
    · rw [if_neg (hget (pos + 1) (by omega) hhi)]
      exact ih (by omega) (by omega)

/-! ## C strings -/

theorem cStr_eq_self {nul : α} (h : nul ∉ s) : cStr nul s = s := by
  rw [cStr, List.takeWhile_eq_self_iff]
  intro d hd
  rw [decide_eq_true_eq]
  rintro rfl
  exact h hd

/-- The terminator in front hides what follows. -/
theorem cStr_append_of_mem {nul : α} (h : nul ∈ s) : cStr nul (s ++ t) = cStr nul s := by
  induction s with
  | nil => cases h
  | cons d s ih =>
    rw [cStr, cStr, List.cons_append, List.takeWhile_cons, List.takeWhile_cons]
    split
    · next hd =>
      rw [decide_eq_true_eq] at hd
      exact congrArg (d :: ·) (ih ((List.mem_cons.mp h).resolve_left (Ne.symm hd)))
    · rfl

theorem cStr_append_of_not_mem {nul : α} (h : nul ∉ s) : cStr nul (s ++ t) = s ++ cStr nul t := by
  refine List.takeWhile_append_of_pos fun d hd => ?_
  rw [decide_eq_true_eq]
  rintro rfl
  exact h hd

theorem cStr_append {nul : α} (h : nul ∉ s) : cStr nul (s ++ nul :: t) = s := by
  induction s with
  | nil => simp [cStr]
  | cons d s ih =>
    rw [List.mem_cons, not_or] at h
    have := ih h.2
    rw [cStr] at this ⊢
    rw [List.cons_append, List.takeWhile_cons_of_pos (by simpa using Ne.symm h.1), this]

end BasicString

import Mathlib.Data.List.Perm.Basic

/-!
# Custody

An account of things that come in, are held for some time and leave, each to a fate of its own.
Nothing is lost from it and nothing is counted twice.
-/

universe u v

structure Custody (ε : Type u) (φ : Type v) where
  entered : List ε := []
  held : List ε := []
  left : List (ε × φ) := []

namespace Custody

variable {ε : Type u} {φ : Type v} {c : Custody ε φ} {e : ε} {p : ε → Bool} {f : ε → φ}

def enter (c : Custody ε φ) (e : ε) : Custody ε φ :=
  { c with entered := c.entered ++ [e], held := c.held ++ [e] }

/-- The held things that satisfy `p` leave. -/
def dismiss (c : Custody ε φ) (p : ε → Bool) (f : ε → φ) : Custody ε φ :=
  { c with
    held := c.held.filter fun e => !p e
    left := c.left ++ (c.held.filter p).map fun e => (e, f e) }

@[simp] theorem entered_dismiss : (c.dismiss p f).entered = c.entered := rfl

@[simp] theorem entered_enter : (c.enter e).entered = c.entered ++ [e] := rfl

@[simp] theorem held_enter : (c.enter e).held = c.held ++ [e] := rfl

theorem mem_held_dismiss : e ∈ (c.dismiss p f).held ↔ e ∈ c.held ∧ p e = false := by
  simp [dismiss]

theorem mem_left_dismiss {x : ε × φ} :
    x ∈ (c.dismiss p f).left ↔ x ∈ c.left ∨ ∃ e ∈ c.held, p e = true ∧ (e, f e) = x := by
  simp [dismiss, and_assoc]

/-- What came in is held or has left, each as often as it came. -/
def Balanced (c : Custody ε φ) : Prop := c.entered.Perm (c.held ++ c.left.map Prod.fst)

theorem balanced_empty : Balanced ({} : Custody ε φ) := .refl _

theorem Balanced.enter (h : c.Balanced) (e : ε) : (c.enter e).Balanced := by
  show (c.entered ++ [e]).Perm (c.held ++ [e] ++ c.left.map Prod.fst)
  refine (h.append_right [e]).trans ?_
  rw [List.append_assoc, List.append_assoc]
  exact List.Perm.append_left _ List.perm_append_comm

theorem Balanced.dismiss (h : c.Balanced) : (c.dismiss p f).Balanced := by
  have hsplit : ((c.held.filter fun e => !p e) ++ c.held.filter p).Perm c.held := by
    simpa using List.perm_append_comm.trans (List.filter_append_perm p c.held)
  show c.entered.Perm ((c.held.filter fun e => !p e) ++
    (c.left ++ (c.held.filter p).map fun e => (e, f e)).map Prod.fst)
  refine h.trans ((hsplit.symm.append_right _).trans ?_)
  rw [List.map_append, List.map_map, List.append_assoc]
  refine List.Perm.append_left _ ?_
  rw [show (c.held.filter p).map (Prod.fst ∘ fun e => (e, f e)) = c.held.filter p from
    List.map_id _]
  exact List.perm_append_comm

theorem Balanced.entered_of_held (h : c.Balanced) (he : e ∈ c.held) : e ∈ c.entered :=
  h.symm.subset (List.mem_append_left _ he)

theorem Balanced.mem (h : c.Balanced) (he : e ∈ c.entered) :
    e ∈ c.held ∨ ∃ x, (e, x) ∈ c.left := by
  rcases List.mem_append.mp (h.subset he) with hheld | hleft
  · exact .inl hheld
  · obtain ⟨⟨_, x⟩, hx, rfl⟩ := List.mem_map.mp hleft
    exact .inr ⟨x, hx⟩

/-- Distinct things each have one fate. -/
theorem Balanced.nodup (h : c.Balanced) (hn : c.entered.Nodup) :
    (c.held ++ c.left.map Prod.fst).Nodup :=
  h.nodup_iff.mp hn

/-! ## Things with a key of their own -/

section Keys

variable {κ : Type*} [DecidableEq κ] {key : ε → κ} {l : List ε} {i : Nat}

/-- Exactly the one at this position has its key. -/
theorem filter_key (h : (l.map key).Nodup) (hi : l[i]? = some e) :
    l.filter (fun d => !decide (key d = key e)) = l.eraseIdx i ∧
      l.filter (fun d => decide (key d = key e)) = [e] := by
  induction l generalizing i with
  | nil => cases hi
  | cons d l ih =>
    rw [List.map_cons, List.nodup_cons] at h
    cases i with
    | zero =>
      cases hi
      have hne : ∀ d ∈ l, key d ≠ key e := fun d hd he => h.1 (he ▸ List.mem_map_of_mem hd)
      refine ⟨?_, ?_⟩
      · rw [List.filter_cons_of_neg (by simp)]
        exact List.filter_eq_self.mpr fun d hd => by simp [hne d hd]
      · rw [List.filter_cons_of_pos (by simp), List.filter_eq_nil_iff.mpr fun d hd => by
          simp [hne d hd]]
    | succ i =>
      rw [List.getElem?_cons_succ] at hi
      have hne : key d ≠ key e := fun he => h.1 (he ▸ List.mem_map_of_mem (List.mem_of_getElem? hi))
      obtain ⟨hkeep, hgo⟩ := ih h.2 hi
      refine ⟨?_, ?_⟩
      · rw [List.filter_cons_of_pos (by simp [hne]), hkeep, List.eraseIdx_cons_succ]
      · rw [List.filter_cons_of_neg (by simp [hne]), hgo]

/-- What comes in may leave at once. -/
theorem dismiss_enter (h : key e ∉ c.held.map key) (f : ε → φ) :
    (c.enter e).dismiss (fun d => key d = key e) f =
      { entered := c.entered ++ [e], held := c.held, left := c.left ++ [(e, f e)] } := by
  have hne : ∀ d ∈ c.held, key d ≠ key e := fun d hd he => h (he ▸ List.mem_map_of_mem hd)
  have hkeep : (c.held ++ [e]).filter (fun d => !decide (key d = key e)) = c.held := by
    rw [List.filter_append, List.filter_eq_self.mpr fun d hd => by simp [hne d hd]]
    simp
  have hgo : (c.held ++ [e]).filter (fun d => decide (key d = key e)) = [e] := by
    rw [List.filter_append, List.filter_eq_nil_iff.mpr fun d hd => by simp [hne d hd]]
    simp
  simp only [dismiss, enter, hkeep, hgo, List.map_cons, List.map_nil]

end Keys

end Custody

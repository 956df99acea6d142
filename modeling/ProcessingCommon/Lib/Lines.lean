import Mathlib.Data.List.Basic

/-!
# Lines

Lines are written with an end each, and a text is read back as the lines that it was written from:
there is at most one list of lines without ends inside for every text. A text whose last line has
no end is the same lines as with it.
-/

namespace Lines

variable {α : Type} {d : α} {l s : List α} {ls ls' : List (List α)}

/-- Every line with its end. -/
def write (d : α) (ls : List (List α)) : List α := ls.flatMap (· ++ [d])

/-- No line has an end inside. -/
def Whole (d : α) (ls : List (List α)) : Prop := ∀ l ∈ ls, d ∉ l

/-- The text with an end behind its last line. -/
def closed [DecidableEq α] (d : α) (s : List α) : List α :=
  if s = [] ∨ s.getLast? = some d then s else s ++ [d]

theorem write_nil (d : α) : write d [] = [] := rfl

theorem write_cons (d : α) (l : List α) (ls : List (List α)) :
    write d (l :: ls) = l ++ d :: write d ls := by
  rw [write, List.flatMap_cons, List.append_assoc]
  rfl

theorem whole_cons : Whole d (l :: ls) ↔ d ∉ l ∧ Whole d ls := List.forall_mem_cons

/-- The first line ends at the first end. -/
theorem append_cons_inj {l' s' : List α} (h : d ∉ l) (h' : d ∉ l')
    (he : l ++ d :: s = l' ++ d :: s') : l = l' ∧ s = s' := by
  induction l generalizing l' with
  | nil =>
    cases l' with
    | nil => exact ⟨rfl, List.tail_eq_of_cons_eq he⟩
    | cons c l' =>
      obtain ⟨rfl, -⟩ := List.cons.inj he
      exact absurd List.mem_cons_self h'
  | cons c l ih =>
    cases l' with
    | nil =>
      obtain ⟨rfl, -⟩ := List.cons.inj he
      exact absurd List.mem_cons_self h
    | cons c' l' =>
      obtain ⟨rfl, htail⟩ := List.cons.inj he
      obtain ⟨rfl, hs⟩ := ih (fun hm => h (List.mem_cons_of_mem _ hm))
        (fun hm => h' (List.mem_cons_of_mem _ hm)) htail
      exact ⟨rfl, hs⟩

/-- A text has its lines in one way. -/
theorem write_inj (h : Whole d ls) (h' : Whole d ls') (he : write d ls = write d ls') :
    ls = ls' := by
  induction ls generalizing ls' with
  | nil =>
    cases ls' with
    | nil => rfl
    | cons l' ls' =>
      rw [write_nil, write_cons] at he
      exact absurd he.symm (List.append_ne_nil_of_right_ne_nil _ (List.cons_ne_nil _ _))
  | cons l ls ih =>
    cases ls' with
    | nil =>
      rw [write_nil, write_cons] at he
      exact absurd he (List.append_ne_nil_of_right_ne_nil _ (List.cons_ne_nil _ _))
    | cons l' ls' =>
      rw [write_cons, write_cons] at he
      obtain ⟨hl, hls⟩ := whole_cons.mp h
      obtain ⟨hl', hls'⟩ := whole_cons.mp h'
      obtain ⟨rfl, hrest⟩ := append_cons_inj hl hl' he
      rw [ih hls hls' hrest]

variable [DecidableEq α]

theorem closed_nil (d : α) : closed d [] = [] := if_pos (.inl rfl)

/-- A last line without an end gets one. -/
theorem closed_line (h : d ∉ l) (hne : l ≠ []) : closed d l = l ++ [d] := by
  refine if_neg ?_
  rintro (hnil | hlast)
  · exact hne hnil
  · exact h (List.mem_of_getLast? hlast)

/-- The lines before do not matter. -/
theorem closed_append (d : α) (l s : List α) : closed d (l ++ d :: s) = l ++ d :: closed d s := by
  have hlast : (l ++ d :: s).getLast? = if s = [] then some d else s.getLast? := by
    rw [List.getLast?_append_cons]
    cases s with
    | nil => rfl
    | cons c s => rw [List.getLast?_cons_cons, if_neg (List.cons_ne_nil c s)]
  rw [closed, closed, hlast]
  by_cases hs : s = []
  · rw [if_pos (.inr (if_pos hs)), if_pos (.inl hs)]
  · have hne : l ++ d :: s ≠ [] := List.append_ne_nil_of_right_ne_nil _ (List.cons_ne_nil _ _)
    rw [if_neg hs]
    by_cases hd : s.getLast? = some d
    · rw [if_pos (.inr hd), if_pos (.inr hd)]
    · rw [if_neg (not_or.mpr ⟨hne, hd⟩), if_neg (not_or.mpr ⟨hs, hd⟩), List.append_assoc]
      rfl

/-- Written lines are closed. -/
theorem closed_write (d : α) (ls : List (List α)) : closed d (write d ls) = write d ls := by
  induction ls with
  | nil => exact closed_nil d
  | cons l ls ih => rw [write_cons, closed_append, ih]

end Lines

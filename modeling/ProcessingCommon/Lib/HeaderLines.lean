import Mathlib.Data.List.Infix
import Mathlib.Tactic.Common

/-!
# Lines and a body

A message is its header lines, each with CR LF at its end, an empty line and a body. The reader
takes lines up to the first empty one. It gives back what was written if no line has a CR LF
inside, and never gives a line that has one.
-/

namespace HeaderLines

def cr : UInt8 := 13

def lf : UInt8 := 10

def crlf : List UInt8 := [cr, lf]

/-- What is in front of the first CR LF, and what is behind it. -/
def cutLine : List UInt8 → Option (List UInt8 × List UInt8)
  | [] => none
  | c :: text =>
    if c = cr ∧ text.head? = some lf then some ([], text.tail)
    else (cutLine text).map fun p => (c :: p.1, p.2)

/-- The lines up to the first empty one, and the rest; `n` bounds the number of lines. -/
def readLines : Nat → List UInt8 → Option (List (List UInt8) × List UInt8)
  | 0, _ => none
  | n + 1, text =>
    match cutLine text with
    | none => none
    | some ([], rest) => some ([], rest)
    | some (c :: l, rest) => (readLines n rest).map fun p => ((c :: l) :: p.1, p.2)

/-- The header lines and the body of a message; there are fewer lines than characters. -/
def read (text : List UInt8) : Option (List (List UInt8) × List UInt8) :=
  readLines (text.length + 1) text

def write (lines : List (List UInt8)) (body : List UInt8) : List UInt8 :=
  lines.flatMap (· ++ crlf) ++ (crlf ++ body)

variable {s t text rest body : List UInt8} {lines : List (List UInt8)} {n : Nat}

/-! ## Where a CR LF is -/

theorem not_crlf_nil : ¬ crlf <:+: [] := fun h => absurd (List.infix_nil.mp h) (List.cons_ne_nil _ _)

theorem crlf_infix_cons {c : UInt8} :
    crlf <:+: c :: s ↔ c = cr ∧ s.head? = some lf ∨ crlf <:+: s := by
  rw [List.infix_cons_iff, crlf, List.cons_prefix_cons]
  refine or_congr_left (and_congr eq_comm ?_)
  cases s with
  | nil => simp
  | cons d s =>
    rw [List.cons_prefix_cons, List.head?_cons, Option.some.injEq]
    exact ⟨fun h => h.1.symm, fun h => ⟨h.symm, List.nil_prefix⟩⟩

/-- A character that is neither CR nor LF separates. -/
theorem crlf_infix_append {c : UInt8} (hcr : c ≠ cr) (hlf : c ≠ lf) (s t : List UInt8) :
    crlf <:+: s ++ c :: t ↔ crlf <:+: s ∨ crlf <:+: t := by
  induction s with
  | nil =>
    rw [List.nil_append, crlf_infix_cons, or_iff_right fun h => hcr h.1, or_iff_right not_crlf_nil]
  | cons d s ih =>
    rw [List.cons_append, crlf_infix_cons, crlf_infix_cons, ih, or_assoc]
    cases s with
    | nil =>
      refine or_congr_left (iff_of_false (fun h => ?_) fun h => ?_)
      · exact hlf (Option.some_inj.mp h.2)
      · cases h.2
    | cons e s => rfl

/-! ## Lines that were written -/

theorem cutLine_append (h : ¬ crlf <:+: s) : cutLine (s ++ (crlf ++ t)) = some (s, t) := by
  induction s with
  | nil => rfl
  | cons c s ih =>
    rw [crlf_infix_cons, not_or] at h
    have hsep : ¬ (c = cr ∧ (s ++ (crlf ++ t)).head? = some lf) := by
      cases s with
      | nil =>
        rintro ⟨-, hc⟩
        exact absurd (Option.some_inj.mp (show some cr = some lf from hc)) (by decide)
      | cons d s => exact h.1
    rw [List.cons_append, cutLine, if_neg hsep, ih h.2]
    rfl

/-- Lines without a CR LF inside are read back. -/
theorem readLines_write (h : ∀ l ∈ lines, l ≠ [] ∧ ¬ crlf <:+: l) (hn : lines.length < n) :
    readLines n (write lines body) = some (lines, body) := by
  induction lines generalizing n with
  | nil =>
    obtain ⟨n, rfl⟩ := Nat.exists_eq_succ_of_ne_zero (Nat.ne_of_gt hn)
    rfl
  | cons l lines ih =>
    obtain ⟨n, rfl⟩ := Nat.exists_eq_succ_of_ne_zero (Nat.ne_of_gt (Nat.zero_lt_of_lt hn))
    obtain ⟨hne, hcrlf⟩ := h l List.mem_cons_self
    have hcut : cutLine (write (l :: lines) body) = some (l, write lines body) := by
      rw [write, List.flatMap_cons, List.append_assoc, List.append_assoc]
      exact cutLine_append hcrlf
    have hrest := ih (fun l' hl' => h l' (List.mem_cons_of_mem _ hl')) (Nat.lt_of_succ_lt_succ hn)
    cases l with
    | nil => exact absurd rfl hne
    | cons c l =>
      rw [readLines, hcut]
      dsimp only
      rw [hrest]
      rfl

theorem length_lt_write (h : ∀ l ∈ lines, l ≠ []) : lines.length < (write lines body).length := by
  induction lines with
  | nil =>
    rw [write, List.length_append, List.length_append]
    exact Nat.lt_of_lt_of_le (by decide : 0 < crlf.length) (by omega)
  | cons l lines ih =>
    have hrest := ih fun l' hl' => h l' (List.mem_cons_of_mem _ hl')
    have hwrite : write (l :: lines) body = l ++ crlf ++ write lines body := by
      rw [write, List.flatMap_cons, List.append_assoc]
      rfl
    have hl : 0 < l.length := List.length_pos_of_ne_nil (h l List.mem_cons_self)
    rw [hwrite, List.length_append, List.length_append, List.length_cons]
    omega

/-! ## Lines that were read -/

theorem cutLine_crlf (h : cutLine text = some (s, t)) : ¬ crlf <:+: s ∧ text = s ++ (crlf ++ t) := by
  induction text generalizing s with
  | nil => cases h
  | cons c text ih =>
    unfold cutLine at h
    split at h
    · next hc =>
      obtain ⟨rfl, hhead⟩ := hc
      obtain ⟨text, rfl⟩ := List.head?_eq_some_iff.mp hhead
      cases h
      exact ⟨not_crlf_nil, rfl⟩
    · next hc =>
      obtain ⟨⟨l, r⟩, hcut, hl⟩ := Option.map_eq_some_iff.mp h
      cases hl
      obtain ⟨hno, rfl⟩ := ih hcut
      refine ⟨?_, rfl⟩
      rw [crlf_infix_cons, not_or]
      refine ⟨fun hsep => hc ⟨hsep.1, ?_⟩, hno⟩
      rw [List.head?_append, hsep.2]
      rfl

/-- A line that was read has no CR LF inside. -/
theorem readLines_crlf (h : readLines n text = some (lines, body)) :
    ∀ l ∈ lines, ¬ crlf <:+: l := by
  induction n generalizing text lines with
  | zero => cases h
  | succ n ih =>
    unfold readLines at h
    split at h
    · cases h
    · cases h
      intro l hl
      cases hl
    · next c l rest hcut =>
      obtain ⟨⟨ls, b⟩, hread, heq⟩ := Option.map_eq_some_iff.mp h
      cases heq
      intro l' hl'
      rcases List.mem_cons.mp hl' with rfl | hl'
      · exact (cutLine_crlf hcut).1
      · exact ih hread l' hl'

/-- A message reads back as the lines and the body that were written exactly if no line has a CR LF
inside. -/
theorem read_write_iff (hne : ∀ l ∈ lines, l ≠ []) :
    read (write lines body) = some (lines, body) ↔ ∀ l ∈ lines, ¬ crlf <:+: l := by
  constructor
  · exact readLines_crlf
  · intro h
    exact readLines_write (fun l hl => ⟨hne l hl, h l hl⟩) (Nat.lt_succ_of_lt (length_lt_write hne))

end HeaderLines

import ProcessingCommon.TextBox.Model

/-!
# The output of `print` as tokens

What `print` writes is a sequence of modifiers, characters of the frame, overflow marks and
characters of the text. `print_eq` shows that the characters are those of the tokens; the modifiers
may be any strings, so nothing is said about them but where they stand. There is an output exactly
if all of it can be converted, and then it is the tokens' bytes one after another.
-/

namespace ProcessingCommon
namespace TextBox

inductive Token
  | modifierFrame
  | modifierContent
  | modifierSelection
  | reset
  | underline
  /-- A character of the frame or of the padding. -/
  | border (ch : Char)
  | mark (ch : Char)
  | text (idxAbs : Nat) (ch : Char32)
deriving DecidableEq

namespace Token

/-- The characters of a token; `none` is a `range_error`. -/
def render (m : Modifiers) : Token → Option U32String
  | modifierFrame => strToUtf m.mModifierFrame
  | modifierContent => strToUtf m.mModifierContent
  | modifierSelection => strToUtf m.mModifierSelection
  | reset => strToUtf sgrReset
  | underline => strToUtf sgrUnderline
  | border ch => some [ch.val]
  | mark ch => strToUtf (utf8Of [ch])
  | text _ ch => some [ch]

/-- The bytes of a token; `none` is a `range_error`. -/
def bytes (m : Modifiers) : Token → Option StdString
  | modifierFrame => some m.mModifierFrame
  | modifierContent => some m.mModifierContent
  | modifierSelection => some m.mModifierSelection
  | reset => some sgrReset
  | underline => some sgrUnderline
  | border ch | mark ch => some (utf8Of [ch])
  | text _ ch => utfToStr [ch]

/-- The token can be converted: a modifier is UTF-8 and a character of the text a scalar value. -/
def Printable (m : Modifiers) : Token → Prop
  | modifierFrame => (strToUtf m.mModifierFrame).isSome = true
  | modifierContent => (strToUtf m.mModifierContent).isSome = true
  | modifierSelection => (strToUtf m.mModifierSelection).isSome = true
  | text _ ch => ch.isValidChar
  | _ => True

/-- The token takes a cell on the terminal. -/
def isVisible : Token → Bool
  | border _ | mark _ | text _ _ => true
  | _ => false

end Token

/-- The tokens are written one after another. -/
def emit (m : Modifiers) (ustrPrint : U32String) (ts : List Token) : Option U32String :=
  ts.foldlM (fun ustrPrint t => (t.render m).map (ustrPrint ++ ·)) ustrPrint

/-- The bytes of the tokens one after another. -/
def spell (m : Modifiers) : List Token → Option StdString
  | [] => some ByteArray.empty
  | t :: ts => do
    let str ← t.bytes m
    let rest ← spell m ts
    return str ++ rest

/-- The content modifier, or the one of the selection. -/
def modifier (isSelection : Bool) : Token :=
  if isSelection then .modifierSelection else .modifierContent

/-- The modifiers in front of a position of the text. -/
def switches (b : TextBox) (idxAbs : Nat) : List Token :=
  (if b.selectionPrint && idxAbs == b.listIdxLow.cursorAbs.toNat then [.modifierSelection]
    else []) ++
  if b.selectionPrint && idxAbs == b.listIdxHigh.cursorAbs.toNat then [.reset, .modifierContent]
  else []

def cellTokens (b : TextBox) : Cell → List Token
  | .mark ch => [.mark ch]
  | .text idxAbs ch underlined =>
    b.switches idxAbs ++
      if underlined then
        [.underline, .text idxAbs ch, .reset,
          modifier (b.selectionPrint && decide (idxAbs < b.listIdxHigh.cursorAbs.toNat))]
      else [.text idxAbs ch]

/-- The cells of the window. -/
def cells (b : TextBox) : List Cell := (List.range b.mIdxFront.win.toNat).map b.cell

def frameTokens (b : TextBox) (foc noFoc : Char) : List Token :=
  if b.mFrameEnabled then [.border (if b.mFocus then foc else noFoc)] else []

def paddingTokens (b : TextBox) : List Token := if b.mPaddingEnabled then [.border ' '] else []

/-- What stands in front of the first cell. -/
def headTokens (b : TextBox) : List Token :=
  .modifierFrame :: (b.frameTokens '>' '|' ++ b.paddingTokens ++ [.reset, modifier
    (b.selectionPrint && decide (b.mIdxFront.offset.toNat ≥ b.listIdxLow.cursorAbs.toNat))])

/-- What stands behind the last cell. -/
def tailTokens (b : TextBox) : List Token :=
  [.reset, .modifierFrame] ++ b.paddingTokens ++ b.frameTokens '<' '|' ++ [.reset]

def tokens (b : TextBox) : List Token :=
  b.headTokens ++ b.cells.flatMap b.cellTokens ++ b.tailTokens

/-- What `print` shows can be converted. -/
def Printable (b : TextBox) (m : Modifiers) : Prop := ∀ t ∈ b.tokens, t.Printable m

/-- `print` writes these tokens. -/
def Writes (b : TextBox) (m : Modifiers) (ts : List Token) : Prop :=
  ∃ out, b.print m = some out ∧ spell m ts = some out

/-! ## The characters are those of the tokens -/

variable {b : TextBox} {m : Modifiers} {ustrPrint : U32String} {ts ts' : List Token}

theorem emit_append :
    emit m ustrPrint (ts ++ ts') = (emit m ustrPrint ts).bind fun u => emit m u ts' := by
  unfold emit
  exact List.foldlM_append

theorem emit_cons (t : Token) :
    emit m ustrPrint (t :: ts) = (emit m ustrPrint [t]).bind fun u => emit m u ts := by
  rw [← emit_append, List.singleton_append]

/-- A call of `utfStrAdd` writes one token. -/
theorem emit_utfStrAdd {t : Token} {str : StdString} (h : t.render m = strToUtf str) :
    emit m ustrPrint [t] = utfStrAdd ustrPrint str := by
  rw [utfStrAdd, ← h]
  exact bind_pure _

/-- A `push_back` writes one token. -/
theorem emit_push {t : Token} {ch : Char32} (h : t.render m = some [ch]) :
    emit m ustrPrint [t] = some (ustrPrint ++ [ch]) := by
  unfold emit
  rw [List.foldlM_cons, h]
  rfl

theorem emit_reset : emit m ustrPrint [.reset] = utfStrAdd ustrPrint sgrReset :=
  emit_utfStrAdd rfl

theorem emit_modifierFrame :
    emit m ustrPrint [.modifierFrame] = utfStrAdd ustrPrint m.mModifierFrame :=
  emit_utfStrAdd rfl

theorem emit_modifier (isSelection : Bool) :
    emit m ustrPrint [modifier isSelection] =
      utfStrAdd ustrPrint (if isSelection then m.mModifierSelection else m.mModifierContent) := by
  cases isSelection <;> exact emit_utfStrAdd rfl

theorem emit_switches (idxAbs : Nat) :
    emit m ustrPrint (b.switches idxAbs) =
      (if b.selectionPrint && idxAbs == b.listIdxLow.cursorAbs.toNat then
        utfStrAdd ustrPrint m.mModifierSelection else some ustrPrint).bind fun ustrPrint =>
      if b.selectionPrint && idxAbs == b.listIdxHigh.cursorAbs.toNat then
        (utfStrAdd ustrPrint sgrReset).bind (utfStrAdd · m.mModifierContent)
      else some ustrPrint := by
  unfold switches
  rw [emit_append]
  congr 1
  · split
    · exact emit_utfStrAdd rfl
    · rfl
  · funext ustrPrint
    split
    · rw [emit_cons, emit_reset]
      exact Option.bind_congr fun u _ => emit_utfStrAdd rfl
    · rfl

/-- A round of the loop writes the tokens of its cell. -/
theorem printCell_eq (c : Cell) :
    b.printCell m ustrPrint c = emit m ustrPrint (b.cellTokens c) := by
  cases c with
  | mark ch => exact (emit_utfStrAdd rfl).symm
  | text idxAbs ch underlined =>
    have hpush : ∀ u, emit m u [.text idxAbs ch] = some (u ++ [ch]) := fun u => emit_push rfl
    have hunder : ∀ u, emit m u [.underline] = utfStrAdd u sgrUnderline :=
      fun u => emit_utfStrAdd rfl
    -- the character, with what is around it if the cursor is there
    have hchar : ∀ u, (if !underlined then some (u ++ [ch])
        else (utfStrAdd u sgrUnderline).bind fun u => (utfStrAdd (u ++ [ch]) sgrReset).bind fun u =>
          utfStrAdd u (if b.selectionPrint && decide (idxAbs < b.listIdxHigh.cursorAbs.toNat)
            then m.mModifierSelection else m.mModifierContent)) =
        emit m u (if underlined then [.underline, .text idxAbs ch, .reset,
          modifier (b.selectionPrint && decide (idxAbs < b.listIdxHigh.cursorAbs.toNat))]
          else [.text idxAbs ch]) := by
      intro u
      cases underlined with
      | false => exact (hpush u).symm
      | true =>
        rw [if_pos rfl, if_neg (by decide), emit_cons, hunder]
        refine Option.bind_congr fun u _ => ?_
        rw [emit_cons, hpush, Option.bind_some, emit_cons, emit_reset]
        refine Option.bind_congr fun u _ => ?_
        exact (emit_modifier _).symm
    unfold printCell cellTokens
    rw [emit_append, emit_switches]
    simp only [Option.bind_eq_bind, hchar]
    split <;> split <;> simp only [Option.bind_some, Option.bind_assoc]

theorem foldlM_printCell (cs : List Cell) :
    cs.foldlM (b.printCell m) ustrPrint = emit m ustrPrint (cs.flatMap b.cellTokens) := by
  induction cs generalizing ustrPrint with
  | nil => rfl
  | cons c cs ih =>
    rw [List.foldlM_cons, List.flatMap_cons, emit_append, printCell_eq]
    exact Option.bind_congr fun u _ => ih

theorem emit_borders (b : TextBox) (foc noFoc : Char) :
    emit m ustrPrint (b.frameTokens foc noFoc) = some (ustrPrint ++
        if b.mFrameEnabled then [(if b.mFocus then foc else noFoc).val] else []) ∧
      emit m ustrPrint b.paddingTokens =
        some (ustrPrint ++ if b.mPaddingEnabled then [' '.val] else []) := by
  unfold frameTokens paddingTokens
  constructor
  · split
    · exact emit_push rfl
    · rw [List.append_nil]
      rfl
  · split
    · exact emit_push rfl
    · rw [List.append_nil]
      rfl

theorem emit_headTokens : emit m [] b.headTokens =
    (utfStrAdd [] m.mModifierFrame).bind fun ustrPrint =>
    (utfStrAdd (ustrPrint ++
      (if b.mFrameEnabled then [(if b.mFocus then '>' else '|').val] else []) ++
      if b.mPaddingEnabled then [' '.val] else []) sgrReset).bind fun ustrPrint =>
    utfStrAdd ustrPrint (if b.selectionPrint &&
        decide (b.mIdxFront.offset.toNat ≥ b.listIdxLow.cursorAbs.toNat)
      then m.mModifierSelection else m.mModifierContent) := by
  unfold headTokens
  rw [emit_cons, emit_modifierFrame]
  refine Option.bind_congr fun u _ => ?_
  rw [emit_append, emit_append, (b.emit_borders '>' '|').1, Option.bind_some,
    (b.emit_borders '>' '|').2, Option.bind_some, emit_cons, emit_reset]
  exact Option.bind_congr fun u _ => emit_modifier _

theorem emit_tailTokens : emit m ustrPrint b.tailTokens =
    (utfStrAdd ustrPrint sgrReset).bind fun ustrPrint =>
    (utfStrAdd ustrPrint m.mModifierFrame).bind fun ustrPrint =>
    utfStrAdd (ustrPrint ++ (if b.mPaddingEnabled then [' '.val] else []) ++
      if b.mFrameEnabled then [(if b.mFocus then '<' else '|').val] else []) sgrReset := by
  unfold tailTokens
  simp only [List.append_assoc]
  rw [emit_append, emit_cons, emit_reset, Option.bind_assoc]
  refine Option.bind_congr fun u _ => ?_
  rw [emit_modifierFrame]
  refine Option.bind_congr fun u _ => ?_
  rw [emit_append, (b.emit_borders '<' '|').2, Option.bind_some, emit_append,
    (b.emit_borders '<' '|').1, Option.bind_some, emit_reset, List.append_assoc]

/-- `print` writes the tokens. -/
theorem print_eq (b : TextBox) (m : Modifiers) :
    b.print m = (emit m [] b.tokens).bind utfToStr := by
  unfold tokens
  rw [emit_append, emit_append, emit_headTokens]
  unfold print
  simp only [foldlM_printCell, emit_tailTokens, Option.bind_eq_bind, Option.bind_assoc]
  rfl

/-! ## The output is the bytes of the tokens -/

theorem utf8Of_append (cs ds : List Char) : utf8Of (cs ++ ds) = utf8Of cs ++ utf8Of ds := by
  rw [utf8Of, String.ofList_append, String.toByteArray_append]
  rfl

/-- A string that can be decoded is the bytes of its characters. -/
theorem exists_chars {str : StdString} (h : (strToUtf str).isSome = true) :
    ∃ cs : List Char, strToUtf str = some (cs.map Char.val) ∧ str = utf8Of cs := by
  obtain ⟨ustr, hu⟩ := Option.isSome_iff_exists.mp h
  obtain ⟨cs, hstr, rfl⟩ := strToUtf_some hu
  exact ⟨cs, hu, hstr⟩

/-- Characters and bytes of a token belong together. -/
theorem Token.Printable.chars {t : Token} (h : t.Printable m) : ∃ cs : List Char,
    t.render m = some (cs.map Char.val) ∧ t.bytes m = some (utf8Of cs) := by
  cases t with
  | modifierFrame | modifierContent | modifierSelection =>
    obtain ⟨cs, hu, hstr⟩ := exists_chars h
    exact ⟨cs, hu, congrArg some hstr⟩
  | reset => exact ⟨_, strToUtf_utf8Of _, rfl⟩
  | underline => exact ⟨_, strToUtf_utf8Of _, rfl⟩
  | border ch => exact ⟨[ch], rfl, rfl⟩
  | mark ch => exact ⟨[ch], strToUtf_utf8Of [ch], rfl⟩
  | text idxAbs ch => exact ⟨[⟨ch, h⟩], rfl, utfToStr_map_val [⟨ch, h⟩]⟩

theorem emit_chars (h : ∀ t ∈ ts, t.Printable m) : ∃ cs : List Char,
    (∀ us : List Char, emit m (us.map Char.val) ts = some ((us ++ cs).map Char.val)) ∧
      spell m ts = some (utf8Of cs) := by
  induction ts with
  | nil => exact ⟨[], fun us => by rw [List.append_nil]; rfl, rfl⟩
  | cons t ts ih =>
    obtain ⟨cs, hrender, hbytes⟩ := (h t List.mem_cons_self).chars
    obtain ⟨ds, hemit, hspell⟩ := ih fun t' ht => h t' (List.mem_cons_of_mem _ ht)
    refine ⟨cs ++ ds, fun us => ?_, ?_⟩
    · rw [emit, List.foldlM_cons, hrender, ← List.append_assoc, ← hemit (us ++ cs), List.map_append]
      rfl
    · rw [spell, hbytes, hspell, utf8Of_append]
      rfl

theorem emit_prefix {u : U32String} (h : emit m ustrPrint ts = some u) :
    ∃ rest, u = ustrPrint ++ rest := by
  induction ts generalizing ustrPrint with
  | nil => exact ⟨[], by rw [List.append_nil]; exact (Option.some.inj h).symm⟩
  | cons t ts ih =>
    rw [emit, List.foldlM_cons] at h
    obtain ⟨u', hu', h⟩ := Option.bind_eq_some_iff.mp h
    obtain ⟨ustr, -, rfl⟩ := Option.map_eq_some_iff.mp hu'
    obtain ⟨rest, rfl⟩ := ih h
    exact ⟨ustr ++ rest, List.append_assoc ..⟩

/-- What was written and can be encoded was printable. -/
theorem printable_of_emit {u : U32String} (h : emit m ustrPrint ts = some u) (hu : Encodable u) :
    ∀ t ∈ ts, t.Printable m := by
  induction ts generalizing ustrPrint with
  | nil => exact fun t ht => absurd ht List.not_mem_nil
  | cons t ts ih =>
    rw [emit, List.foldlM_cons] at h
    obtain ⟨u', hu', h⟩ := Option.bind_eq_some_iff.mp h
    obtain ⟨ustr, hrender, rfl⟩ := Option.map_eq_some_iff.mp hu'
    obtain ⟨rest, rfl⟩ := emit_prefix h
    intro t' ht
    rcases List.mem_cons.mp ht with rfl | ht
    · cases t' with
      | modifierFrame | modifierContent | modifierSelection =>
        exact Option.isSome_iff_exists.mpr ⟨ustr, hrender⟩
      | text idxAbs ch =>
        obtain rfl : [ch] = ustr := Option.some.inj hrender
        exact hu ch (List.mem_append_left _ (List.mem_append_right _ List.mem_cons_self))
      | _ => trivial
    · exact ih h t' ht

theorem Printable.writes (h : b.Printable m) : b.Writes m b.tokens := by
  obtain ⟨cs, hemit, hspell⟩ := emit_chars h
  refine ⟨utf8Of cs, ?_, hspell⟩
  rw [print_eq, show emit m [] b.tokens = some (cs.map Char.val) from hemit []]
  exact utfToStr_map_val cs

/-- `print` throws exactly if something that it shows cannot be converted. -/
theorem print_eq_none (b : TextBox) (m : Modifiers) : b.print m = none ↔ ¬ b.Printable m := by
  rw [Option.eq_none_iff_forall_ne_some]
  constructor
  · intro h hp
    obtain ⟨out, hout, -⟩ := hp.writes
    exact h out hout
  · intro h out hout
    rw [print_eq] at hout
    obtain ⟨u, hu, hstr⟩ := Option.bind_eq_some_iff.mp hout
    obtain ⟨cs, rfl, -⟩ := utfToStr_some hstr
    exact h (printable_of_emit hu (encodable_map_val cs))

theorem writes_iff (b : TextBox) (m : Modifiers) : b.Writes m b.tokens ↔ b.Printable m := by
  refine ⟨fun h => ?_, Printable.writes⟩
  obtain ⟨out, hout, -⟩ := h
  by_contra hp
  rw [(print_eq_none b m).mpr hp] at hout
  cases hout

/-- The modifiers are UTF-8. -/
structure Modifiers.Decodable (m : Modifiers) : Prop where
  frame : (strToUtf m.mModifierFrame).isSome = true
  content : (strToUtf m.mModifierContent).isSome = true
  selection : (strToUtf m.mModifierSelection).isSome = true

/-- The tokens of the text are characters of the text, masks and blanks. -/
theorem shownChar_valid (h : Encodable b.shown) (idxAbs : Nat) :
    (b.shownChar idxAbs).isValidChar := by
  unfold shownChar
  dsimp only
  split
  · exact ' '.valid
  split
  · exact '*'.valid
  · next hlt _ =>
    rw [charAt, List.getD_eq_getElem?_getD, List.getElem?_eq_getElem (Nat.lt_of_not_le hlt)]
    rcases List.mem_append.mp (List.getElem_mem (Nat.lt_of_not_le hlt)) with hc | hc
    · exact h _ hc
    · rw [List.mem_singleton.mp hc]
      exact ' '.valid

/-! ## What stands around the cells -/

/-- A modifier, the frame or the padding. -/
def Token.isAround : Token → Bool
  | modifierFrame | modifierContent | modifierSelection | reset | border _ => true
  | _ => false

theorem Token.not_mem_of_around {t : Token} (ht : t.isAround = false)
    (h : ∀ t' ∈ ts, t'.isAround = true) : t ∉ ts :=
  fun hm => Bool.false_ne_true (ht.symm.trans (h t hm))

theorem modifier_isAround (isSelection : Bool) : (modifier isSelection).isAround = true := by
  cases isSelection <;> rfl

theorem Token.ne_modifier {t : Token} (ht : t.isAround = false) (isSelection : Bool) :
    t ≠ modifier isSelection :=
  fun he => Bool.false_ne_true (ht.symm.trans (he ▸ modifier_isAround isSelection))

theorem switches_isAround (idxAbs : Nat) : ∀ t ∈ b.switches idxAbs, t.isAround = true := by
  unfold switches
  split <;> split <;> simp [Token.isAround]

theorem borders_isAround (b : TextBox) (foc noFoc : Char) :
    (∀ t ∈ b.frameTokens foc noFoc, t.isAround = true) ∧
      ∀ t ∈ b.paddingTokens, t.isAround = true := by
  unfold frameTokens paddingTokens
  constructor <;> split <;> simp [Token.isAround]

theorem headTokens_isAround : ∀ t ∈ b.headTokens, t.isAround = true := by
  intro t ht
  simp only [headTokens, List.mem_cons, List.mem_append, List.not_mem_nil, or_false] at ht
  rcases ht with rfl | (ht | ht) | rfl | rfl
  · rfl
  · exact (b.borders_isAround '>' '|').1 t ht
  · exact (b.borders_isAround '>' '|').2 t ht
  · rfl
  · exact modifier_isAround _

theorem tailTokens_isAround : ∀ t ∈ b.tailTokens, t.isAround = true := by
  intro t ht
  simp only [tailTokens, List.mem_cons, List.mem_append, List.not_mem_nil, or_false] at ht
  rcases ht with (((rfl | rfl) | ht) | ht) | rfl
  · rfl
  · rfl
  · exact (b.borders_isAround '<' '|').2 t ht
  · exact (b.borders_isAround '<' '|').1 t ht
  · rfl

/-! ## The texts among the tokens -/

/-- A character of the text is written by the cell that shows it. -/
theorem text_mem_cellTokens {c : Cell} {idxAbs : Nat} {ch : Char32}
    (h : .text idxAbs ch ∈ b.cellTokens c) : ∃ underlined, c = .text idxAbs ch underlined := by
  cases c with
  | mark ch' => exact absurd (List.mem_singleton.mp h) (by simp)
  | text idxAbs' ch' underlined =>
    refine ⟨underlined, ?_⟩
    rcases List.mem_append.mp h with h | h
    · exact absurd h (Token.not_mem_of_around rfl (switches_isAround idxAbs'))
    · cases underlined with
      | false =>
        cases List.mem_singleton.mp h
        rfl
      | true =>
        rw [if_pos rfl] at h
        have hmodifier := Token.ne_modifier (t := .text idxAbs ch) rfl
        simp only [List.mem_cons, hmodifier, List.not_mem_nil, reduceCtorEq, or_false,
          false_or] at h
        cases h
        rfl

theorem cell_text {idxRel idxAbs : Nat} {ch : Char32} {underlined : Bool}
    (h : b.cell idxRel = .text idxAbs ch underlined) : ch = b.shownChar idxAbs := by
  unfold cell at h
  dsimp only at h
  split at h
  · cases h
  split at h
  · cases h
  · cases h
    rfl

theorem text_mem_tokens {idxAbs : Nat} {ch : Char32} (h : .text idxAbs ch ∈ b.tokens) :
    ch = b.shownChar idxAbs := by
  have hhead : .text idxAbs ch ∉ b.headTokens := Token.not_mem_of_around rfl headTokens_isAround
  have htail : .text idxAbs ch ∉ b.tailTokens := Token.not_mem_of_around rfl tailTokens_isAround
  -- frame and padding show no text, so it is one of the cells
  rcases List.mem_append.mp h with h | h
  · obtain ⟨c, hc, h⟩ := List.mem_flatMap.mp ((List.mem_append.mp h).resolve_left hhead)
    obtain ⟨underlined, rfl⟩ := text_mem_cellTokens h
    obtain ⟨idxRel, -, hcell⟩ := List.mem_map.mp hc
    exact cell_text hcell
  · exact absurd h htail

/-- A text of scalar values can be shown wherever it is scrolled to. -/
theorem printable_of_encodable (hm : m.Decodable) (h : Encodable b.shown) : b.Printable m := by
  intro t ht
  cases t with
  | modifierFrame => exact hm.frame
  | modifierContent => exact hm.content
  | modifierSelection => exact hm.selection
  | text idxAbs ch =>
    rw [text_mem_tokens ht]
    exact shownChar_valid h idxAbs
  | _ => trivial

end TextBox
end ProcessingCommon

import ProcessingCommon.Lib.Lines
import ProcessingCommon.LibDspc.Url

/-!
# Text resources (`Res.cpp`, `strToVecStr` and `resToVecStr` of `LibDspc.cpp`)

A program registers one table of resources. A name finds the first resource of the table that has
it, and its text is appended line by line. Names and texts are C strings: arrays that are read up to
the first null byte.
-/

namespace ProcessingCommon
namespace LibDspc

open BasicString (cStr)

/-! ## Lines -/

/-- `getline(ss, line, delim)`: the line and what is left of the stream. The end of the text is the
only end of a stream, and there nothing can be extracted. -/
def getline (ss : Bytes) (delim : UInt8) : Option (Bytes × Bytes) :=
  if ss = [] then none
  else some (ss.takeWhile (· ≠ delim), (ss.dropWhile (· ≠ delim)).tail)

theorem getline_lt {ss rest line : Bytes} {delim : UInt8}
    (h : getline ss delim = some (line, rest)) : rest.length < ss.length := by
  unfold getline at h
  split at h
  · cases h
  · next hne =>
    cases h
    have hle : (ss.dropWhile (· ≠ delim)).length ≤ ss.length := (List.dropWhile_suffix _).length_le
    have hpos : 0 < ss.length := List.length_pos_iff.mpr hne
    rw [List.length_tail]
    omega

/-- The `vStr` after the call. -/
def strToVecStr (str : Bytes) (vStr : List Bytes) (delim : UInt8) : List Bytes :=
  match _h : getline str delim with
  | none => vStr
  | some (line, ss) => strToVecStr ss (vStr ++ [line]) delim
termination_by str.length
decreasing_by exact getline_lt _h

/-! ## The table -/

/-- A `Resource`; the arrays have a null byte. -/
structure Resource where
  name : Bytes
  pSrc : Bytes
  size : Nat

/-- `pTableStart` and `pTableEnd`, as addresses of resources; `none` is `NULL`. -/
structure ResourceTable where
  pTableStart : Option Nat := none
  pTableEnd : Option Nat := none

def resourceTableAdd (t : ResourceTable) (pStart pEnd : Option Nat) : ResourceTable × Bool :=
  match pStart, pEnd with
  | some s, some e =>
    if s ≥ e then (t, false)
    else if t.pTableStart.isSome || t.pTableEnd.isSome then (t, false)
    else (⟨some s, some e⟩, true)
  | _, _ => (t, false)

/-- `for (; pRes != pTableEnd; ++pRes)`, with the number of resources that are left. -/
def resourceLoop (mem : Nat → Resource) (pName : Bytes) : Nat → Nat → Option Resource
  | _, 0 => none
  | pRes, n + 1 =>
    if cStr 0 (mem pRes).name = cStr 0 pName then some (mem pRes)
    else resourceLoop mem pName (pRes + 1) n

/-- `resourceFind`; `none` is `NULL`. -/
def resourceFind (mem : Nat → Resource) (t : ResourceTable) (pName : Bytes) : Option Resource :=
  match t.pTableStart, t.pTableEnd with
  | some s, some e => resourceLoop mem pName s (e - s)
  | _, _ => none

/-- The `vStr` after the call. -/
def resToVecStr (mem : Nat → Resource) (t : ResourceTable) (nameRes : Bytes) (vStr : List Bytes) :
    List Bytes :=
  match resourceFind mem t nameRes with
  | none => vStr
  | some res => strToVecStr (cStr 0 res.pSrc) vStr 10

/-! ## The lines of a text -/

variable {str line rest : Bytes} {delim : UInt8} {vStr ls : List Bytes}

theorem getline_none (h : getline str delim = none) : str = [] := by
  unfold getline at h
  split at h
  · assumption
  · cases h

/-- The line has no end inside, and it is the text up to its end, if it has one. -/
theorem getline_some (h : getline str delim = some (line, rest)) : delim ∉ line ∧
    (str = line ++ delim :: rest ∨ str = line ∧ line ≠ [] ∧ rest = []) := by
  unfold getline at h
  split at h
  · cases h
  next hne =>
  cases h
  have hsplit : str.takeWhile (· ≠ delim) ++ str.dropWhile (· ≠ delim) = str :=
    List.takeWhile_append_dropWhile
  have hline : ∀ c ∈ str.takeWhile (· ≠ delim), c ≠ delim := fun c hc =>
    of_decide_eq_true (List.mem_takeWhile_imp (p := fun c => decide (c ≠ delim)) hc)
  refine ⟨fun hmem => hline delim hmem rfl, ?_⟩
  cases hd : str.dropWhile (· ≠ delim) with
  | nil =>
    rw [hd, List.append_nil] at hsplit
    exact .inr ⟨hsplit.symm, fun hnil => hne (hsplit.symm.trans hnil), rfl⟩
  | cons c cs =>
    have hc := List.head?_dropWhile_not (fun c => decide (c ≠ delim)) str
    rw [hd] at hc hsplit
    obtain rfl : c = delim := not_not.mp (of_decide_eq_false hc)
    exact .inl hsplit.symm

theorem strToVecStr_lines (str : Bytes) (vStr : List Bytes) (delim : UInt8) : ∃ ls,
    strToVecStr str vStr delim = vStr ++ ls ∧ Lines.Whole delim ls ∧
      Lines.write delim ls = Lines.closed delim str := by
  fun_induction strToVecStr str vStr delim with
  | case1 str vStr h =>
    obtain rfl := getline_none h
    exact ⟨[], (List.append_nil _).symm, fun _ hl => absurd hl List.not_mem_nil,
      (Lines.closed_nil delim).symm⟩
  | case2 str vStr line ss h ih =>
    obtain ⟨ls, hls, hwhole, hwrite⟩ := ih
    obtain ⟨hline, hstr⟩ := getline_some h
    refine ⟨line :: ls, ?_, Lines.whole_cons.mpr ⟨hline, hwhole⟩, ?_⟩
    · rw [hls, List.append_assoc]
      rfl
    rw [Lines.write_cons, hwrite]
    rcases hstr with rfl | ⟨rfl, hne, rfl⟩
    · rw [Lines.closed_append]
    · rw [Lines.closed_nil, Lines.closed_line hline hne]

/-- What is appended are the lines of the text, and nothing else fits. -/
theorem strToVecStr_iff : strToVecStr str vStr delim = vStr ++ ls ↔
    Lines.Whole delim ls ∧ Lines.write delim ls = Lines.closed delim str := by
  obtain ⟨ls', hls, hwhole, hwrite⟩ := strToVecStr_lines str vStr delim
  rw [hls, List.append_cancel_left_eq]
  constructor
  · rintro rfl
    exact ⟨hwhole, hwrite⟩
  · rintro ⟨hwhole', hwrite'⟩
    exact Lines.write_inj hwhole hwhole' (hwrite.trans hwrite'.symm)

/-- Lines that were written come back. -/
theorem strToVecStr_write (h : Lines.Whole delim ls) (vStr : List Bytes) :
    strToVecStr (Lines.write delim ls) vStr delim = vStr ++ ls :=
  strToVecStr_iff.mpr ⟨h, (Lines.closed_write delim ls).symm⟩

/-! ## The registered resources -/

variable {mem : Nat → Resource} {calls : List (Option Nat × Option Nat)}

/-- The range of a call of `resourceTableAdd`, if there is one. -/
def tableRange : Option Nat × Option Nat → Option (Nat × Nat)
  | (some s, some e) => if s < e then some (s, e) else none
  | _ => none

/-- The table after calls of `resourceTableAdd`. -/
def tableAfter (calls : List (Option Nat × Option Nat)) : ResourceTable :=
  calls.foldl (fun t call => (resourceTableAdd t call.1 call.2).1) {}

/-- The first resource with this name in the first range that was given. -/
def registered (mem : Nat → Resource) (calls : List (Option Nat × Option Nat)) (nameRes : Bytes) :
    Option Resource :=
  (calls.findSome? tableRange).bind fun range =>
    ((List.range' range.1 (range.2 - range.1)).map mem).find? fun res =>
      decide (cStr 0 res.name = cStr 0 nameRes)

/-- The lines of a text resource, if there is one. -/
def LinesOf : Option Resource → List Bytes → Prop
  | none, ls => ls = []
  | some res, ls => Lines.Whole 10 ls ∧ Lines.write 10 ls = Lines.closed 10 (cStr 0 res.pSrc)

/-- The table that holds a range, or none. -/
def tableOf : Option (Nat × Nat) → ResourceTable
  | none => {}
  | some range => ⟨some range.1, some range.2⟩

theorem resourceTableAdd_tableOf (range : Option (Nat × Nat)) (call : Option Nat × Option Nat) :
    resourceTableAdd (tableOf range) call.1 call.2 =
      (tableOf (range.or (tableRange call)), range.isNone && (tableRange call).isSome) := by
  obtain ⟨pStart, pEnd⟩ := call
  cases pStart with
  | none => cases range <;> rfl
  | some s =>
    cases pEnd with
    | none => cases range <;> rfl
    | some e =>
      rcases Nat.lt_or_ge s e with hlt | hge
      · rw [resourceTableAdd, tableRange, if_pos hlt, if_neg (Nat.not_le.mpr hlt)]
        cases range <;> rfl
      · rw [resourceTableAdd, tableRange, if_pos hge, if_neg (Nat.not_lt.mpr hge)]
        cases range <;> rfl

/-- The first range stays. -/
theorem foldl_tableOf (range : Option (Nat × Nat)) (calls : List (Option Nat × Option Nat)) :
    calls.foldl (fun t call => (resourceTableAdd t call.1 call.2).1) (tableOf range) =
      tableOf (range.or (calls.findSome? tableRange)) := by
  induction calls generalizing range with
  | nil => rw [List.foldl_nil, List.findSome?_nil, Option.or_none]
  | cons call calls ih =>
    rw [List.foldl_cons, resourceTableAdd_tableOf, ih, Option.or_assoc, List.findSome?_cons]
    cases tableRange call <;> rfl

theorem tableAfter_eq (calls : List (Option Nat × Option Nat)) :
    tableAfter calls = tableOf (calls.findSome? tableRange) := by
  rw [tableAfter]
  exact foldl_tableOf none calls

theorem resourceLoop_eq (mem : Nat → Resource) (pName : Bytes) (pRes n : Nat) :
    resourceLoop mem pName pRes n = ((List.range' pRes n).map mem).find? fun res =>
      decide (cStr 0 res.name = cStr 0 pName) := by
  induction n generalizing pRes with
  | zero => rfl
  | succ n ih =>
    rw [resourceLoop, ih, List.range'_succ, List.map_cons, List.find?_cons]
    by_cases h : cStr 0 (mem pRes).name = cStr 0 pName
    · rw [if_pos h, decide_eq_true h]
    · rw [if_neg h, decide_eq_false h]

theorem resourceFind_eq (mem : Nat → Resource) (calls : List (Option Nat × Option Nat))
    (pName : Bytes) : resourceFind mem (tableAfter calls) pName = registered mem calls pName := by
  rw [tableAfter_eq, registered]
  cases calls.findSome? tableRange with
  | none => rfl
  | some range => exact resourceLoop_eq mem pName _ _

/-- After any calls of `resourceTableAdd`: one succeeds exactly if it is the first with a range, and
a name appends exactly the lines of the first resource of that range that has it. -/
theorem resources_read (mem : Nat → Resource) (calls : List (Option Nat × Option Nat)) :
    (∀ call, (resourceTableAdd (tableAfter calls) call.1 call.2).2 = true ↔
      (tableRange call).isSome ∧ ∀ earlier ∈ calls, tableRange earlier = none) ∧
    ∀ nameRes vStr ls, resToVecStr mem (tableAfter calls) nameRes vStr = vStr ++ ls ↔
      LinesOf (registered mem calls nameRes) ls := by
  constructor
  · intro call
    rw [tableAfter_eq, resourceTableAdd_tableOf, Bool.and_eq_true, Option.isNone_iff_eq_none,
      List.findSome?_eq_none_iff, and_comm]
  · intro nameRes vStr ls
    rw [resToVecStr, resourceFind_eq]
    cases registered mem calls nameRes with
    | none => exact List.self_eq_append_right
    | some res => exact strToVecStr_iff

end LibDspc
end ProcessingCommon

import Mathlib.Algebra.Ring.Nat
import ProcessingCommon.LibDspc.HexCodec

/-!
# Hex dumps (`hexDump` and `hexDumpPrint` of `LibDspc.cpp`)

Both print a row for each `numBytesPerLine` bytes, the width of the caller cut to eight bits. One
formats the rows into a line of its own. The other formats them into the buffer of the caller, with
`dInfo` that stops at its end, and stores the characters of the last column without asking.
-/

namespace ProcessingCommon
namespace LibDspc

open BasicString

/-! ## The texts -/

def blanks (n : Nat) : Bytes := List.replicate n ' '.toUInt8

/-- `" %02" PRIx8` -/
def hexCell (c : UInt8) : Bytes := ' '.toUInt8 :: toHexStr [c]

/-- `"%08" PRIx32` -/
def hexAddress (addressAbs : UInt32) : Bytes :=
  [28, 24, 20, 16, 12, 8, 4, 0].map fun shift : UInt32 =>
    hexDigits.getD ((addressAbs >>> shift) &&& 0xF).toNat 0

/-- `"  |"` -/
def asciiBegin : Bytes := blanks 2 ++ ['|'.toUInt8]

/-- A byte in the last column; `char` is signed. -/
def asciiOf (c : UInt8) : UInt8 := if c.toInt8 < 32 ∨ c.toInt8 > 126 then '.'.toUInt8 else c

/-- `pName ? pName : "Data"` -/
def nameText (pName : Option Bytes) : Bytes :=
  pName.elim (['D', 'a', 't', 'a'].map Char.toUInt8) (cStr 0)

/-- `"%p  %s"`, where the text of the pointer is given. -/
def headText (pointer : Bytes) (pName : Option Bytes) : Bytes :=
  pointer ++ blanks 2 ++ nameText pName

/-! ## The rows -/

/-- The columns of a row so far: what `dInfo` got, what is left at `pByte`, and what was taken. -/
structure HexRow where
  texts : List Bytes := []
  lenPrinted : UInt8 := 0
  rest : Bytes
  taken : Bytes := []

/-- One column. -/
def HexRow.column (r : HexRow) (i : Nat) : HexRow :=
  let texts := if i &&& 7 = 0 then r.texts ++ [blanks 1] else r.texts
  match r.rest with
  | [] => { r with texts := texts ++ [blanks 3] }
  | c :: rest =>
    { texts := texts ++ [hexCell c], lenPrinted := r.lenPrinted + 1, rest := rest,
      taken := r.taken ++ [c] }

def hexColumns (numBytesPerLine : UInt8) (rest : Bytes) : HexRow :=
  (List.range numBytesPerLine.toNat).foldl HexRow.column { rest := rest }

/-- The characters of the last column, read again from `pLine`. -/
def asciiColumn (pLine : Bytes) (r : HexRow) : Bytes :=
  (pLine.take r.lenPrinted.toNat).map asciiOf

/-- A dump under way: the data at `pByte`, the next address, what was taken so far, and the
output. -/
structure Dump (σ : Type) where
  rest : Bytes
  addressAbs : UInt32 := 0
  taken : Bytes := []
  out : σ

variable {σ : Type}

/-- One row, which `print` puts out. -/
def Dump.pass (print : σ → UInt32 → HexRow → Bytes → σ) (numBytesPerLine : UInt8) (d : Dump σ) :
    Dump σ :=
  let r := hexColumns numBytesPerLine d.rest
  { rest := r.rest, addressAbs := d.addressAbs + r.lenPrinted.toUInt32,
    taken := d.taken ++ r.taken, out := print d.out d.addressAbs r (asciiColumn d.rest r) }

/-- `while (len)`, up to `n` rows. -/
def Dump.rows (pass : Dump σ → Dump σ) : Nat → Dump σ → Dump σ
  | 0, d => d
  | n + 1, d => if d.rest.length = 0 then d else rows pass n (pass d)

/-- The lines of `hexDump`, each as the texts that `dInfo` formats into `bufLine`. -/
def lineOf (out : List (List Bytes)) (addressAbs : UInt32) (r : HexRow) (ascii : Bytes) :
    List (List Bytes) :=
  out ++ [[hexAddress addressAbs] ++ r.texts ++ [asciiBegin] ++ ascii.map (fun c => [c]) ++
    [['|'.toUInt8]]]

/-- `hexDump` after up to `n` rows. -/
def hexDump (pointer : Bytes) (pData : Option Bytes) (pName : Option Bytes) (colWidth : UInt64)
    (n : Nat) : Dump (List (List Bytes)) :=
  match pData with
  | none => { rest := [], out := [] }
  | some data =>
    Dump.rows (Dump.pass lineOf colWidth.toUInt8) n
      { rest := data, out := [[headText pointer pName]] }

/-! ## The buffer of the caller -/

/-- `dInfo` of SystemCore on a buffer of `size` bytes: what it stores for a text at a position, and
the position behind it. The text is cut at the end of the buffer. -/
structure DInfo (size : Nat) where
  put : Nat → Bytes → List (Nat × UInt8) × Nat
  put_lt : ∀ pos text, pos ≤ size → ∀ s ∈ (put pos text).1, s.1 < size
  put_end : ∀ pos text, pos ≤ size → (put pos text).2 = min (pos + text.length) size

/-- The position of `pBuf` and all stores so far. -/
structure PrintBuf where
  pBuf : Nat := 0
  stores : List (Nat × UInt8) := []

variable {size : Nat} (o : DInfo size)

def PrintBuf.info (b : PrintBuf) (text : Bytes) : PrintBuf where
  pBuf := (o.put b.pBuf text).2
  stores := b.stores ++ (o.put b.pBuf text).1

/-- `*pBuf = c` and `++pBuf`. -/
def PrintBuf.store (b : PrintBuf) (c : UInt8) : PrintBuf where
  pBuf := b.pBuf + 1
  stores := b.stores ++ [(b.pBuf, c)]

def printRow (b : PrintBuf) (addressAbs : UInt32) (r : HexRow) (ascii : Bytes) : PrintBuf :=
  let b := (r.texts.foldl (PrintBuf.info o) (b.info o (hexAddress addressAbs))).info o asciiBegin
  (ascii.foldl PrintBuf.store b).info o (['|', '\n'].map Char.toUInt8)

/-- `hexDumpPrint` after up to `n` rows; when no data is left, `pBuf` is the returned length. -/
def hexDumpPrint (pointer : Bytes) (pData : Option Bytes) (pName : Option Bytes)
    (colWidth : UInt64) (n : Nat) : Dump PrintBuf :=
  match pData with
  | none => { rest := [], out := {} }
  | some data =>
    Dump.rows (Dump.pass (printRow o) colWidth.toUInt8) n
      { rest := data, out := PrintBuf.info o {} (headText pointer pName ++ ['\n'.toUInt8]) }

/-! ## What a row takes -/

variable {data : Bytes} {w : UInt8}

/-- `n` columns: `len` bytes at most are taken, and an eight-bit counter counts them. -/
theorem columns_eq (data : Bytes) (n : Nat) (hn : n ≤ 255) :
    let r := (List.range n).foldl HexRow.column { rest := data }
    r.rest = data.drop n ∧ r.taken = data.take n ∧ r.lenPrinted.toNat = min n data.length ∧
      (r.texts.map List.length).sum = 3 * n + (n + 7) / 8 := by
  induction n with
  | zero => exact ⟨rfl, rfl, (Nat.zero_min _).symm, rfl⟩
  | succ n ih =>
    obtain ⟨hrest, htaken, hlen, htexts⟩ := ih (by omega)
    rw [List.range_succ, List.foldl_append, List.foldl_cons, List.foldl_nil]
    generalize (List.range n).foldl HexRow.column { rest := data } = r at *
    have hmask : n &&& 7 = n % 8 := Nat.and_two_pow_sub_one_eq_mod n 3
    have hsep : ∀ cell : Bytes, cell.length = 3 →
        (((if n &&& 7 = 0 then r.texts ++ [blanks 1] else r.texts) ++ [cell]).map
          List.length).sum = 3 * (n + 1) + (n + 1 + 7) / 8 := by
      intro cell hcell
      rw [hmask, List.map_append, List.sum_append, List.map_singleton, List.sum_singleton, hcell]
      split
      · rw [List.map_append, List.sum_append, htexts]
        simp only [blanks, List.replicate, List.map_singleton, List.sum_singleton,
          List.length_singleton]
        omega
      · rw [htexts]
        omega
    unfold HexRow.column
    dsimp only
    cases hr : r.rest with
    | nil =>
      rw [hr] at hrest
      have hshort : data.length ≤ n := List.drop_eq_nil_iff.mp hrest.symm
      refine ⟨?_, ?_, ?_, hsep _ rfl⟩
      · rw [List.drop_eq_nil_of_le (by omega)]
      · rw [htaken, List.take_of_length_le hshort, List.take_of_length_le (by omega)]
      · dsimp only
        rw [hlen]
        omega
    | cons c rest =>
      rw [hr] at hrest
      have hlong : n < data.length := by
        by_contra hle
        rw [List.drop_eq_nil_of_le (by omega)] at hrest
        cases hrest
      rw [List.drop_eq_getElem_cons hlong] at hrest
      obtain ⟨rfl, rfl⟩ := List.cons.inj hrest
      refine ⟨rfl, ?_, ?_, hsep _ rfl⟩
      · dsimp only
        rw [htaken, List.take_concat_get' _ _ hlong]
      · dsimp only
        rw [UInt8.toNat_add, hlen]
        simp only [UInt8.toNat_one]
        omega

theorem hexColumns_eq (w : UInt8) (data : Bytes) :
    (hexColumns w data).rest = data.drop w.toNat ∧ (hexColumns w data).taken = data.take w.toNat ∧
      (hexColumns w data).lenPrinted.toNat = min w.toNat data.length ∧
      ((hexColumns w data).texts.map List.length).sum = 3 * w.toNat + (w.toNat + 7) / 8 :=
  columns_eq data w.toNat (by have := w.toNat_lt; omega)

theorem asciiColumn_length (w : UInt8) (data : Bytes) :
    (asciiColumn data (hexColumns w data)).length = min w.toNat data.length := by
  rw [asciiColumn, List.length_map, List.length_take, (hexColumns_eq w data).2.2.1]
  omega

/-! ## The loop over the rows -/

namespace Dump

variable (print : σ → UInt32 → HexRow → Bytes → σ) {d : Dump σ}

theorem pass_rest : (d.pass print w).rest = d.rest.drop w.toNat := (hexColumns_eq w d.rest).1

theorem pass_taken : (d.pass print w).taken = d.taken ++ d.rest.take w.toNat :=
  congrArg _ (hexColumns_eq w d.rest).2.1

theorem rows_done {pass : Dump σ → Dump σ} (h : d.rest = []) (n : Nat) : rows pass n d = d := by
  cases n with
  | zero => rfl
  | succ n => rw [rows, if_pos (by rw [h]; rfl)]

theorem rows_more {pass : Dump σ → Dump σ} (h : d.rest ≠ []) (n : Nat) :
    rows pass (n + 1) d = rows pass n (pass d) := by
  rw [rows, if_neg fun h0 => h (List.length_eq_zero_iff.mp h0)]

/-- Rows of a positive width take all the data, byte by byte. -/
theorem rows_consume (hw : w ≠ 0) : ∀ (m : Nat) (d : Dump σ), d.rest.length ≤ m →
    ∃ n, (rows (pass print w) n d).rest = [] ∧
      (rows (pass print w) n d).taken = d.taken ++ d.rest
  | 0, d, hm => by
    have hrest : d.rest = [] := List.length_eq_zero_iff.mp (Nat.le_zero.mp hm)
    refine ⟨0, hrest, ?_⟩
    rw [hrest, List.append_nil]
    rfl
  | m + 1, d, hm => by
    by_cases hrest : d.rest = []
    · refine ⟨0, hrest, ?_⟩
      rw [hrest, List.append_nil]
      rfl
    · have hpos : w.toNat ≠ 0 := fun h0 => hw (UInt8.toNat_inj.mp h0)
      have hshort : (d.pass print w).rest.length ≤ m := by
        rw [pass_rest, List.length_drop]
        omega
      obtain ⟨n, hend, htaken⟩ := rows_consume hw m (d.pass print w) hshort
      refine ⟨n + 1, ?_, ?_⟩
      · rw [rows_more hrest, hend]
      · rw [rows_more hrest, htaken, pass_taken, pass_rest, List.append_assoc,
          List.take_append_drop]

/-- A row without columns takes nothing. -/
theorem rows_stuck : ∀ (n : Nat) (d : Dump σ), (rows (pass print 0) n d).rest = d.rest
  | 0, _ => rfl
  | n + 1, d => by
    by_cases hrest : d.rest = []
    · rw [rows_done hrest]
    · rw [rows_more hrest, rows_stuck n, pass_rest]
      rfl

end Dump

/-- The loop ends, and has taken each byte once and in order. -/
def Consumes (dump : Nat → Dump σ) (pData : Option Bytes) : Prop :=
  ∃ n, (dump n).rest = [] ∧ (dump n).taken = pData.getD []

/-- Both loops have the same condition. -/
theorem rows_consumes_iff {print : σ → UInt32 → HexRow → Bytes → σ} {out : σ} (data : Bytes)
    (w : UInt8) : Consumes (fun n => Dump.rows (Dump.pass print w) n { rest := data, out := out })
      (some data) ↔ data = [] ∨ w ≠ 0 := by
  constructor
  · rintro ⟨n, hend, -⟩
    refine or_iff_not_imp_right.mpr fun hw => ?_
    rw [Decidable.not_not] at hw
    subst hw
    dsimp only at hend
    rwa [Dump.rows_stuck] at hend
  · rintro (rfl | hw)
    · exact ⟨0, rfl, rfl⟩
    · obtain ⟨n, hend, htaken⟩ :=
        Dump.rows_consume print hw _ { rest := data, out := out } (Nat.le_refl _)
      exact ⟨n, hend, htaken⟩

/-- What is left of the width is zero exactly for the multiples of 256. -/
theorem width_ne_zero (colWidth : UInt64) : colWidth.toUInt8 ≠ 0 ↔ colWidth.toNat % 256 ≠ 0 := by
  rw [ne_eq, ← UInt8.toNat_inj, UInt64.toNat_toUInt8]
  rfl

/-- Both dumps end exactly if there is no data or the width is no multiple of 256. -/
theorem hexDumps_consume_iff (pointer : Bytes) (pData pName : Option Bytes) (colWidth : UInt64) :
    Consumes (hexDump pointer pData pName colWidth) pData ∧
      Consumes (hexDumpPrint o pointer pData pName colWidth) pData ↔
      pData.getD [] = [] ∨ colWidth.toNat % 256 ≠ 0 := by
  rw [← width_ne_zero]
  cases pData with
  | none => exact ⟨fun _ => .inl rfl, fun _ => ⟨⟨0, rfl, rfl⟩, ⟨0, rfl, rfl⟩⟩⟩
  | some data =>
    have hdump : Consumes (hexDump pointer (some data) pName colWidth) (some data) ↔
      data = [] ∨ colWidth.toUInt8 ≠ 0 := rows_consumes_iff data _
    have hprint : Consumes (hexDumpPrint o pointer (some data) pName colWidth) (some data) ↔
      data = [] ∨ colWidth.toUInt8 ≠ 0 := rows_consumes_iff data _
    rw [hdump, hprint, and_self]
    rfl

/-- 256 columns are no columns: the only byte is never taken. -/
theorem hexDump_stuck :
    ¬ (∀ (pointer : Bytes) (pData pName : Option Bytes) (colWidth : UInt64),
      Consumes (hexDump pointer pData pName colWidth) pData) ∧
    ∀ n, (hexDump [] (some [65]) none 256 n).rest = [65] := by
  have hrest : ∀ n, (hexDump [] (some [65]) none 256 n).rest = [65] :=
    fun n => Dump.rows_stuck _ n _
  refine ⟨fun hall => ?_, hrest⟩
  obtain ⟨n, hend, -⟩ := hall [] (some [65]) none 256
  rw [hrest n] at hend
  cases hend

/-! ## The stores of `hexDumpPrint` -/

variable {o} {b : PrintBuf}

/-- All stores are inside of the buffer, and so is the position. -/
def PrintBuf.Inside (size : Nat) (b : PrintBuf) : Prop :=
  b.pBuf ≤ size ∧ ∀ s ∈ b.stores, s.1 < size

namespace PrintBuf

theorem info_inside (h : b.Inside size) (text : Bytes) :
    (b.info o text).Inside size ∧ (b.info o text).pBuf = min (b.pBuf + text.length) size := by
  have hend := o.put_end b.pBuf text h.1
  refine ⟨⟨?_, ?_⟩, hend⟩
  · rw [info, hend]
    exact Nat.min_le_right _ _
  · intro s hs
    rcases List.mem_append.mp hs with hold | hnew
    · exact h.2 s hold
    · exact o.put_lt b.pBuf text h.1 s hnew

theorem infos_inside (texts : List Bytes) : ∀ {b : PrintBuf}, b.Inside size →
    (texts.foldl (info o) b).Inside size ∧
      (texts.foldl (info o) b).pBuf = min (b.pBuf + (texts.map List.length).sum) size := by
  induction texts with
  | nil =>
    intro b h
    exact ⟨h, (Nat.min_eq_left h.1).symm⟩
  | cons text texts ih =>
    intro b h
    obtain ⟨hin, hpos⟩ := info_inside (o := o) h text
    obtain ⟨hin', hpos'⟩ := ih hin
    rw [List.foldl_cons, List.map_cons, List.sum_cons]
    refine ⟨hin', ?_⟩
    rw [hpos', hpos]
    omega

/-- The characters are stored one behind the other. -/
theorem stores_eq (ascii : Bytes) : ∀ b : PrintBuf,
    (ascii.foldl store b).pBuf = b.pBuf + ascii.length ∧
      (ascii.foldl store b).stores = b.stores ++ (ascii.zipIdx b.pBuf).map Prod.swap := by
  induction ascii with
  | nil =>
    intro b
    exact ⟨rfl, (List.append_nil _).symm⟩
  | cons c ascii ih =>
    intro b
    obtain ⟨hpos, hstores⟩ := ih (b.store c)
    rw [List.foldl_cons]
    constructor
    · rw [hpos, List.length_cons, Nat.add_comm ascii.length 1, ← Nat.add_assoc]
      rfl
    · rw [hstores, List.zipIdx_cons, List.map_cons, store, List.append_assoc]
      rfl

theorem ascii_inside {ascii : Bytes} (h : b.Inside size) (hfit : b.pBuf + ascii.length ≤ size) :
    (ascii.foldl store b).Inside size := by
  obtain ⟨hpos, hstores⟩ := stores_eq ascii b
  rw [Inside, hpos, hstores]
  refine ⟨hfit, fun s hs => ?_⟩
  rcases List.mem_append.mp hs with hold | hnew
  · exact h.2 s hold
  · obtain ⟨⟨c, pos⟩, hmem, rfl⟩ := List.mem_map.mp hnew
    exact Nat.lt_of_lt_of_le (List.snd_lt_add_of_mem_zipIdx hmem) (by omega)

/-- The last of too many characters is stored behind the end. -/
theorem ascii_outside {ascii : Bytes} (hne : ascii ≠ []) (hfit : size < b.pBuf + ascii.length) :
    ∃ s ∈ (ascii.foldl store b).stores, size ≤ s.1 := by
  have hlen : 0 < ascii.length := List.length_pos_of_ne_nil hne
  have hlast : ascii.length - 1 < ascii.length := by omega
  refine ⟨(b.pBuf + (ascii.length - 1), ascii[ascii.length - 1]), ?_, by dsimp only; omega⟩
  rw [(stores_eq ascii b).2]
  refine List.mem_append_right _ (List.mem_map.mpr ⟨(_, _), ?_, rfl⟩)
  exact List.mk_add_mem_zipIdx_iff_getElem?.mpr (List.getElem?_eq_getElem hlast)

end PrintBuf

/-- The length of a row in front of the last column. -/
def rowLength (w : Nat) : Nat := 11 + 3 * w + (w + 7) / 8

/-- The length of the rows for `len` bytes, up to the last character of the last column. -/
def rowsLength (w len : Nat) : Nat :=
  let rows := (len + w - 1) / w
  rows * rowLength w + len + 2 * (rows - 1)

theorem rowsLength_last {w len : Nat} (hpos : 0 < len) (hlen : len ≤ w) :
    rowsLength w len = rowLength w + len := by
  have hrows : (len + w - 1) / w = 1 := by
    rw [Nat.div_eq_iff (by omega)]
    omega
  rw [rowsLength, hrows]
  omega

theorem rowsLength_more {w len : Nat} (hw : 0 < w) (hlen : w < len) :
    rowsLength w len = rowLength w + w + 2 + rowsLength w (len - w) := by
  have hrows : (len + w - 1) / w = (len - w + w - 1) / w + 1 := by
    rw [← Nat.add_div_right _ hw]
    congr 1
    omega
  have hpos : 0 < (len - w + w - 1) / w := Nat.div_pos (by omega) hw
  rw [rowsLength, rowsLength, hrows, Nat.succ_mul]
  omega

section Rows

variable {r : HexRow} {ascii : Bytes} {n : Nat} (addressAbs : UInt32)

/-- The buffer in front of the last column. -/
theorem row_front (h : b.Inside size) (hr : (r.texts.map List.length).sum = n) :
    let front := (r.texts.foldl (PrintBuf.info o) (b.info o (hexAddress addressAbs))).info o asciiBegin
    front.Inside size ∧ front.pBuf = min (b.pBuf + (8 + n + 3)) size := by
  obtain ⟨hin, hpos⟩ := PrintBuf.info_inside (o := o) h (hexAddress addressAbs)
  obtain ⟨hin', hpos'⟩ := PrintBuf.infos_inside (o := o) r.texts hin
  obtain ⟨hin'', hpos''⟩ := PrintBuf.info_inside (o := o) hin' asciiBegin
  refine ⟨hin'', ?_⟩
  have haddress : (hexAddress addressAbs).length = 8 := rfl
  have hbegin : asciiBegin.length = 3 := rfl
  rw [hpos'', hpos', hpos, hr, haddress, hbegin]
  omega

theorem row_inside (h : b.Inside size) (hr : (r.texts.map List.length).sum = n)
    (hfit : ascii = [] ∨ b.pBuf + (8 + n + 3) + ascii.length ≤ size) :
    (printRow o b addressAbs r ascii).Inside size ∧
      (printRow o b addressAbs r ascii).pBuf =
        min (b.pBuf + (8 + n + 3) + ascii.length + 2) size := by
  obtain ⟨hin, hpos⟩ := row_front (o := o) addressAbs h hr
  unfold printRow
  dsimp only
  generalize (r.texts.foldl (PrintBuf.info o) (b.info o (hexAddress addressAbs))).info o
    asciiBegin = front at *
  have hroom : front.pBuf + ascii.length ≤ size := by
    rw [hpos]
    rcases hfit with rfl | hfit
    · exact Nat.min_le_right _ _
    · omega
  obtain ⟨hin', hpos'⟩ := PrintBuf.info_inside (o := o) (PrintBuf.ascii_inside hin hroom)
    (['|', '\n'].map Char.toUInt8)
  refine ⟨hin', ?_⟩
  have htwo : (['|', '\n'].map Char.toUInt8).length = 2 := rfl
  rw [hpos', (PrintBuf.stores_eq ascii front).1, hpos, htwo]
  rcases hfit with rfl | hfit
  · rw [List.length_nil]
    omega
  · omega

theorem row_outside (h : b.Inside size) (hr : (r.texts.map List.length).sum = n)
    (hne : ascii ≠ []) (hfit : size < b.pBuf + (8 + n + 3) + ascii.length) :
    ∃ s ∈ (printRow o b addressAbs r ascii).stores, size ≤ s.1 := by
  obtain ⟨-, hpos⟩ := row_front (o := o) addressAbs h hr
  have hlen : 0 < ascii.length := List.length_pos_of_ne_nil hne
  have hout : size < ((r.texts.foldl (PrintBuf.info o)
      (b.info o (hexAddress addressAbs))).info o asciiBegin).pBuf + ascii.length := by
    rw [hpos]
    omega
  obtain ⟨s, hs, hout⟩ := PrintBuf.ascii_outside hne hout
  exact ⟨s, List.mem_append_left _ hs, hout⟩

end Rows

/-- Nothing is stored behind the end of the buffer, after any number of rows, and the returned
length is not beyond it. -/
def StaysInside (size : Nat) (dump : Nat → Dump PrintBuf) : Prop :=
  ∀ n, (∀ s ∈ (dump n).out.stores, s.1 < size) ∧ ((dump n).rest = [] → (dump n).out.pBuf ≤ size)

section Runs

variable {d : Dump PrintBuf}

/-- A row that is not the last of a dump moves the question to the next one. -/
theorem staysInside_pass {pass : Dump PrintBuf → Dump PrintBuf} (h : d.out.Inside size)
    (hrest : d.rest ≠ []) : StaysInside size (fun n => Dump.rows pass n d) ↔
      StaysInside size (fun n => Dump.rows pass n (pass d)) := by
  constructor
  · intro hs n
    have := hs (n + 1)
    dsimp only at this
    rwa [Dump.rows_more hrest] at this
  · intro hs n
    cases n with
    | zero => exact ⟨h.2, fun hend => absurd hend hrest⟩
    | succ n =>
      dsimp only
      rw [Dump.rows_more hrest]
      exact hs n

theorem staysInside_done {pass : Dump PrintBuf → Dump PrintBuf} (h : d.out.Inside size)
    (hrest : d.rest = []) : StaysInside size (fun n => Dump.rows pass n d) := by
  intro n
  dsimp only
  rw [Dump.rows_done hrest]
  exact ⟨h.2, fun _ => h.1⟩

theorem ascii_ne_nil (hw : w ≠ 0) (hdata : data ≠ []) :
    asciiColumn data (hexColumns w data) ≠ [] := by
  have hpos : w.toNat ≠ 0 := fun h0 => hw (UInt8.toNat_inj.mp h0)
  have hlen : 0 < data.length := List.length_pos_of_ne_nil hdata
  intro hnil
  have := asciiColumn_length w data
  rw [hnil, List.length_nil] at this
  omega

/-- From a position in the buffer, the rows stay inside exactly if the last character of the last
column does. -/
theorem rows_staysInside_iff (hw : w ≠ 0) : ∀ (m : Nat) (d : Dump PrintBuf), d.rest.length ≤ m →
    d.out.Inside size →
    (StaysInside size (fun n => Dump.rows (Dump.pass (printRow o) w) n d) ↔
      d.rest = [] ∨ d.out.pBuf + rowsLength w.toNat d.rest.length ≤ size)
  | 0, d, hm, h => by
    have hrest : d.rest = [] := List.length_eq_zero_iff.mp (Nat.le_zero.mp hm)
    exact ⟨fun _ => .inl hrest, fun _ => staysInside_done h hrest⟩
  | m + 1, d, hm, h => by
    by_cases hrest : d.rest = []
    · exact ⟨fun _ => .inl hrest, fun _ => staysInside_done h hrest⟩
    · have hpos : w.toNat ≠ 0 := fun h0 => hw (UInt8.toNat_inj.mp h0)
      have hlen : 0 < d.rest.length := List.length_pos_of_ne_nil hrest
      obtain ⟨-, -, -, htexts⟩ := hexColumns_eq w d.rest
      have hascii := asciiColumn_length w d.rest
      have hnext : (Dump.pass (printRow o) w d).rest.length = d.rest.length - w.toNat := by
        rw [Dump.pass_rest, List.length_drop]
      rw [staysInside_pass h hrest, or_iff_right hrest]
      by_cases hfit : d.out.pBuf + (8 + (3 * w.toNat + (w.toNat + 7) / 8) + 3) +
          (asciiColumn d.rest (hexColumns w d.rest)).length ≤ size
      · obtain ⟨hin, hpos'⟩ := row_inside (o := o) d.addressAbs h htexts (.inr hfit)
        have hout : (Dump.pass (printRow o) w d).out = printRow o d.out d.addressAbs
            (hexColumns w d.rest) (asciiColumn d.rest (hexColumns w d.rest)) := rfl
        rw [← hout] at hin hpos'
        rw [rows_staysInside_iff hw m _ (by omega) hin, ← List.length_eq_zero_iff, hnext, hpos',
          hascii]
        rw [hascii] at hfit
        rcases Nat.lt_or_ge w.toNat d.rest.length with hmore | hlast
        · rw [rowsLength_more (by omega) hmore, rowLength]
          have hne : 0 < rowsLength w.toNat (d.rest.length - w.toNat) := by
            rw [rowsLength]
            omega
          omega
        · rw [rowsLength_last hlen hlast, rowLength]
          omega
      · have hbad := row_outside (o := o) d.addressAbs h htexts
          (ascii_ne_nil hw hrest) (Nat.lt_of_not_le hfit)
        obtain ⟨s, hs, hout⟩ := hbad
        rw [hascii] at hfit
        refine iff_of_false (fun hall => ?_) ?_
        · exact absurd ((hall 0).1 s hs) (Nat.not_lt_of_le hout)
        · rcases Nat.lt_or_ge w.toNat d.rest.length with hmore | hlast
          · rw [rowsLength_more (by omega) hmore, rowLength]
            omega
          · rw [rowsLength_last hlen hlast, rowLength]
            omega

/-- Without columns there are no characters to store. -/
theorem rows_staysInside_stuck : ∀ (n : Nat) (d : Dump PrintBuf), d.out.Inside size →
    (Dump.rows (Dump.pass (printRow o) 0) n d).out.Inside size
  | 0, _, h => h
  | n + 1, d, h => by
    by_cases hrest : d.rest = []
    · rwa [Dump.rows_done hrest]
    · rw [Dump.rows_more hrest]
      obtain ⟨-, -, -, htexts⟩ := hexColumns_eq 0 d.rest
      exact rows_staysInside_stuck n _ (row_inside d.addressAbs h htexts (.inl rfl)).1

end Runs

/-- The stores stay inside of the buffer exactly if the last character of the last column does. A
dump without data has no such character, and one without columns never comes to it. -/
theorem hexDumpPrint_staysInside_iff (o : DInfo size) (pointer : Bytes) (pData pName : Option Bytes)
    (colWidth : UInt64) : StaysInside size (hexDumpPrint o pointer pData pName colWidth) ↔
      pData.getD [] = [] ∨ colWidth.toNat % 256 = 0 ∨
        (headText pointer pName).length + 1 +
          rowsLength (colWidth.toNat % 256) (pData.getD []).length ≤ size := by
  cases pData with
  | none =>
    refine iff_of_true (fun n => ⟨fun s hs => ?_, fun _ => Nat.zero_le _⟩) (.inl rfl)
    cases hs
  | some data =>
    have hempty : PrintBuf.Inside size {} := by
      refine ⟨Nat.zero_le _, fun s hs => ?_⟩
      cases hs
    obtain ⟨hin, hpos⟩ :=
      PrintBuf.info_inside (o := o) hempty (headText pointer pName ++ ['\n'.toUInt8])
    rw [Nat.zero_add, List.length_append, List.length_singleton] at hpos
    have hwidth : colWidth.toUInt8.toNat = colWidth.toNat % 256 := UInt64.toNat_toUInt8 colWidth
    rw [Option.getD_some, ← hwidth]
    by_cases hw : colWidth.toUInt8 = 0
    · refine iff_of_true (fun n => ?_) (.inr (.inl (by rw [hw]; rfl)))
      have hn := rows_staysInside_stuck (o := o) n
        { rest := data, out := PrintBuf.info o {} (headText pointer pName ++ ['\n'.toUInt8]) } hin
      unfold hexDumpPrint
      dsimp only
      rw [hw]
      exact ⟨hn.2, fun _ => hn.1⟩
    · have hw0 : colWidth.toUInt8.toNat ≠ 0 := fun h0 => hw (UInt8.toNat_inj.mp h0)
      have hrows := rows_staysInside_iff (o := o) hw _
        { rest := data, out := PrintBuf.info o {} (headText pointer pName ++ ['\n'.toUInt8]) }
        (Nat.le_refl _) hin
      refine hrows.trans ?_
      dsimp only
      rw [hpos, or_iff_right hw0]
      by_cases hdata : data = []
      · exact iff_of_true (.inl hdata) (.inl hdata)
      · have hlen : 0 < data.length := List.length_pos_of_ne_nil hdata
        have hne : 0 < rowsLength colWidth.toUInt8.toNat data.length := by
          rw [rowsLength]
          omega
        rw [or_iff_right hdata, or_iff_right hdata]
        omega

theorem cut_lt {pos : Nat} {text : Bytes} {s : Nat × UInt8} (hpos : pos ≤ size)
    (h : s ∈ ((text.take (size - pos)).zipIdx pos).map Prod.swap) : s.1 < size := by
  obtain ⟨⟨c, i⟩, hmem, rfl⟩ := List.mem_map.mp h
  have hlt := List.snd_lt_add_of_mem_zipIdx hmem
  rw [List.length_take] at hlt
  dsimp only [Prod.swap] at hlt ⊢
  omega

/-- The text cut at the end. -/
def DInfo.cut (size : Nat) : DInfo size where
  put pos text := (((text.take (size - pos)).zipIdx pos).map Prod.swap, min (pos + text.length) size)
  put_lt _ _ hpos _ := cut_lt hpos
  put_end _ _ _ := rfl

/-- In four bytes there is no room for the characters: that of the only byte is the fifth. -/
theorem hexDumpPrint_outside :
    ¬ (∀ (size : Nat) (o : DInfo size) (pointer : Bytes) (pData pName : Option Bytes)
      (colWidth : UInt64), 1 ≤ colWidth →
      StaysInside size (hexDumpPrint o pointer pData pName colWidth)) ∧
    (4, 65) ∈ (hexDumpPrint (.cut 4) [] (some [65]) none 16 1).out.stores := by
  have hstore : (4, 65) ∈ (hexDumpPrint (.cut 4) [] (some [65]) none 16 1).out.stores := by
    decide +kernel
  refine ⟨fun hall => ?_, hstore⟩
  exact absurd ((hall 4 (.cut 4) [] (some [65]) none 16 (by decide) 1).1 _ hstore)
    (Nat.lt_irrefl 4)

end LibDspc
end ProcessingCommon

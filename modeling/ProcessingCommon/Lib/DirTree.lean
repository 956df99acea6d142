import Mathlib.Data.List.Basic
import Mathlib.Tactic.Common

/-!
# Directories and paths

The directories of a POSIX file system, with the names in each that lead to another directory. A
path is walked name by name from the root or from the working directory; repeated and trailing
slashes are no names. `mkdir` adds a directory below an existing one. Links to directories are
names like others.
-/

namespace DirTree

abbrev Name := List UInt8

def slash : UInt8 := '/'.toUInt8

/-- `.` -/
def dot : Name := ['.'.toUInt8]

/-- `..` -/
def dotdot : Name := ['.'.toUInt8, '.'.toUInt8]

/-- The directories are the numbers below `next`. -/
structure Dirs where
  next : Nat
  entry : Nat → Name → Option Nat
  root : Nat
  cwd : Nat
  /-- A name that leads to no directory and at which none can be created: a file, or a directory
  that is not writable. -/
  refuses : Nat → Name → Bool
  entry_lt : ∀ {d n e}, entry d n = some e → d < next ∧ e < next
  entry_dot : ∀ d < next, entry d dot = some d
  entry_dotdot : ∀ d < next, (entry d dotdot).isSome
  root_lt : root < next
  cwd_lt : cwd < next

/-- The names of a path. -/
def names (path : List UInt8) : List Name := (path.splitOn slash).filter (· ≠ [])

namespace Dirs

/-- The names of a root directory without directories in it. -/
def rootEntry (d : Nat) (n : Name) : Option Nat :=
  if d = 0 ∧ (n = dot ∨ n = dotdot) then some 0 else none

theorem rootEntry_lt {d e : Nat} {n : Name} (h : rootEntry d n = some e) : d < 1 ∧ e < 1 := by
  unfold rootEntry at h
  split at h
  · cases h
    omega
  · cases h

theorem rootEntry_dot (d : Nat) (h : d < 1) : rootEntry d dot = some d := by
  rw [rootEntry, if_pos ⟨by omega, .inl rfl⟩, Nat.lt_one_iff.mp h]

theorem rootEntry_dotdot (d : Nat) (h : d < 1) : (rootEntry d dotdot).isSome := by
  rw [rootEntry, if_pos ⟨by omega, .inr rfl⟩]
  rfl

/-- A file system with nothing but its root. -/
def rootOnly : Dirs where
  next := 1
  entry := rootEntry
  root := 0
  cwd := 0
  refuses _ _ := false
  entry_lt := rootEntry_lt
  entry_dot := rootEntry_dot
  entry_dotdot := rootEntry_dotdot
  root_lt := Nat.one_pos
  cwd_lt := Nat.one_pos

variable (t : Dirs)

def IsDir (d : Nat) : Prop := d < t.next

def walk : Nat → List Name → Option Nat
  | d, [] => some d
  | d, n :: ns => (t.entry d n).bind fun e => walk e ns

/-- Where a path begins. -/
def start (path : List UInt8) : Nat := if path.head? = some slash then t.root else t.cwd

/-- The directory of a path; the empty path has none. -/
def resolve (path : List UInt8) : Option Nat :=
  if path = [] then none else t.walk (t.start path) (names path)

/-- The names with a new directory under `name` in `d`. -/
def addEntry (d : Nat) (name : Name) (e : Nat) (n : Name) : Option Nat :=
  if e = t.next then
    if n = dot then some t.next else if n = dotdot then some d else none
  else if e = d ∧ n = name then some t.next
  else t.entry e n

theorem addEntry_lt {d e f : Nat} {name n : Name} (hd : d < t.next)
    (he : t.addEntry d name e n = some f) : e < t.next + 1 ∧ f < t.next + 1 := by
  unfold addEntry at he
  split at he
  · split at he
    · cases he
      omega
    · split at he
      · cases he
        omega
      · cases he
  · split at he
    · cases he
      omega
    · have := t.entry_lt he
      omega

/-- The old names stay. -/
theorem addEntry_old {d e f : Nat} {name n : Name} (hname : t.entry d name = none)
    (he : t.entry e n = some f) : t.addEntry d name e n = some f := by
  have hlt := (t.entry_lt he).1
  rw [addEntry, if_neg (by omega), if_neg, he]
  rintro ⟨rfl, rfl⟩
  rw [hname] at he
  cases he

theorem addEntry_dot {d e : Nat} {name : Name} (hname : t.entry d name = none)
    (he : e < t.next + 1) : t.addEntry d name e dot = some e := by
  by_cases hnew : e = t.next
  · rw [addEntry, if_pos hnew, if_pos rfl, hnew]
  · exact t.addEntry_old hname (t.entry_dot e (by omega))

theorem addEntry_dotdot {d e : Nat} {name : Name} (hname : t.entry d name = none)
    (he : e < t.next + 1) : (t.addEntry d name e dotdot).isSome := by
  by_cases hnew : e = t.next
  · rw [addEntry, if_pos hnew, if_neg (by decide), if_pos rfl]
    rfl
  · obtain ⟨f, hf⟩ := Option.isSome_iff_exists.mp (t.entry_dotdot e (by omega))
    rw [t.addEntry_old hname hf]
    rfl

/-- A new directory under `name` in `d`. -/
def add (d : Nat) (name : Name) (hd : d < t.next) (hname : t.entry d name = none) : Dirs where
  next := t.next + 1
  entry := t.addEntry d name
  root := t.root
  cwd := t.cwd
  refuses := t.refuses
  entry_lt := t.addEntry_lt hd
  entry_dot _ := t.addEntry_dot hname
  entry_dotdot _ := t.addEntry_dotdot hname
  root_lt := Nat.lt_succ_of_lt t.root_lt
  cwd_lt := Nat.lt_succ_of_lt t.cwd_lt

/-- `mkdir` of a name in a directory; `none` is a failure. -/
def mkdirAt (d : Nat) (name : Name) : Option Dirs :=
  if h : d < t.next ∧ t.entry d name = none then
    if t.refuses d name then none else some (t.add d name h.1 h.2)
  else none

/-- `mkdir` of a path: the names before the last one are walked. -/
def mkdir (path : List UInt8) : Option Dirs := do
  let name ← (names path).getLast?
  let d ← t.walk (t.start path) (names path).dropLast
  t.mkdirAt d name

/-- No directory is lost and no name leads elsewhere. -/
structure Extends (t u : Dirs) : Prop where
  next : t.next ≤ u.next
  root : u.root = t.root
  cwd : u.cwd = t.cwd
  refuses : u.refuses = t.refuses
  entry : ∀ {d n e}, t.entry d n = some e → u.entry d n = some e

variable {t} {u v : Dirs} {d e : Nat} {n : Name} {ns : List Name} {path : List UInt8}

namespace Extends

theorem refl (t : Dirs) : Extends t t := ⟨Nat.le_refl _, rfl, rfl, rfl, id⟩

theorem trans (h : Extends t u) (h' : Extends u v) : Extends t v where
  next := Nat.le_trans h.next h'.next
  root := h'.root.trans h.root
  cwd := h'.cwd.trans h.cwd
  refuses := h'.refuses.trans h.refuses
  entry he := h'.entry (h.entry he)

theorem start (h : Extends t u) (path : List UInt8) : u.start path = t.start path := by
  rw [Dirs.start, Dirs.start, h.root, h.cwd]

theorem walk (h : Extends t u) : ∀ {d : Nat} {ns : List Name},
    t.walk d ns = some e → u.walk d ns = some e
  | _, [], hw => hw
  | d, n :: ns, hw => by
    rw [Dirs.walk, Option.bind_eq_some_iff] at hw ⊢
    obtain ⟨f, hf, hw⟩ := hw
    exact ⟨f, h.entry hf, walk h hw⟩

theorem resolve (h : Extends t u) (hr : t.resolve path = some d) : u.resolve path = some d := by
  unfold Dirs.resolve at hr ⊢
  split at hr
  · cases hr
  · next hne =>
    rw [if_neg hne, h.start]
    exact h.walk hr

end Extends

theorem walk_lt : ∀ {d : Nat} {ns : List Name}, d < t.next → t.walk d ns = some e → e < t.next
  | _, [], hd, hw => by
    cases hw
    exact hd
  | d, n :: ns, _, hw => by
    rw [walk, Option.bind_eq_some_iff] at hw
    obtain ⟨f, hf, hw⟩ := hw
    exact walk_lt (t.entry_lt hf).2 hw

theorem walk_append (d : Nat) (ns ms : List Name) :
    t.walk d (ns ++ ms) = (t.walk d ns).bind fun e => t.walk e ms := by
  induction ns generalizing d with
  | nil => rfl
  | cons n ns ih =>
    rw [List.cons_append, walk, walk, Option.bind_assoc]
    exact congrArg _ (funext fun e => ih e)

theorem start_lt (t : Dirs) (path : List UInt8) : t.start path < t.next := by
  unfold start
  split
  · exact t.root_lt
  · exact t.cwd_lt

/-- What a new directory changes. -/
theorem add_extends (hd : d < t.next) (hn : t.entry d n = none) :
    Extends t (t.add d n hd hn) where
  next := Nat.le_succ _
  root := rfl
  cwd := rfl
  refuses := rfl
  entry := t.addEntry_old hn

theorem add_entry (hd : d < t.next) (hn : t.entry d n = none) :
    (t.add d n hd hn).entry d n = some t.next := by
  show t.addEntry d n d n = _
  rw [addEntry, if_neg (by omega), if_pos ⟨rfl, rfl⟩]

/-- `mkdir` of a missing name in an existing directory, where nothing refuses it. -/
theorem mkdirAt_missing (hd : d < t.next) (hn : t.entry d n = none) (hr : t.refuses d n = false) :
    t.mkdirAt d n = some (t.add d n hd hn) := by
  rw [mkdirAt, dif_pos ⟨hd, hn⟩, if_neg (by rw [hr]; exact Bool.false_ne_true)]

/-- A path whose names but the last are walked to a directory: it is there, or `mkdir` makes it
and nothing else. -/
theorem resolve_or_mkdir (hpath : path ≠ []) (hw : t.walk (t.start path) ns = some d)
    (hnames : names path = ns ∨ ∃ n, names path = ns ++ [n])
    (hgrant : ∀ d n, t.refuses d n = false) :
    (∃ e, t.resolve path = some e) ∨ ∃ u, t.mkdir path = some u ∧ Extends t u ∧
      u.resolve path = some t.next ∧ u.next = t.next + 1 := by
  rcases hnames with hnames | ⟨n, hnames⟩
  · refine .inl ⟨d, ?_⟩
    rw [resolve, if_neg hpath, hnames, hw]
  · cases hentry : t.entry d n with
    | some e =>
      refine .inl ⟨e, ?_⟩
      rw [resolve, if_neg hpath, hnames, walk_append, hw, Option.bind_some, walk, hentry]
      rfl
    | none =>
      have hd : d < t.next := walk_lt (t.start_lt path) hw
      have hext := add_extends hd hentry
      refine .inr ⟨t.add d n hd hentry, ?_, hext, ?_, rfl⟩
      · have hlast : (ns ++ [n]).getLast? = some n := List.getLast?_concat
        have hinit : (ns ++ [n]).dropLast = ns := List.dropLast_concat
        rw [mkdir, hnames, hlast, hinit, hw]
        exact mkdirAt_missing hd hentry (hgrant d n)
      · rw [resolve, if_neg hpath, hnames, walk_append, hext.start, hext.walk hw,
          Option.bind_some, walk, add_entry hd hentry]
        rfl

end Dirs

/-! ## Names of paths -/

variable {s : List UInt8}

theorem names_append (a b : List UInt8) : names (a ++ slash :: b) = names a ++ names b := by
  rw [names, List.splitOn_append_cons_self, List.filter_append]
  rfl

/-- A part without slashes is one name, or none if it is empty. -/
theorem names_part (h : slash ∉ s) : names s = [] ∨ names s = [s] := by
  rw [names, List.splitOn_eq_singleton h]
  by_cases hs : s = []
  · subst hs
    exact .inl rfl
  · exact .inr (by rw [List.filter_cons_of_pos (by simpa using hs), List.filter_nil])

end DirTree

import ProcessingCommon.Lib.BasicString
import ProcessingCommon.Lib.DirTree

/-!
# `dirCreate` (`LibFilesys.cpp`)

The loop creates the directories of a path from slash to slash. In front of a leading slash there
is no node, which it takes for an error, so an absolute path is never created.
-/

namespace ProcessingCommon
namespace LibFilesys

open BasicString DirTree

def dirExists (fs : Dirs) (path : List UInt8) : Bool := (fs.resolve (cStr 0 path)).isSome

/-- The loop of `dirCreate` from `pos`; `none` is a loop that does not end. -/
def dirCreateLoop (path : List UInt8) : Nat → Nat → Dirs → Option (Bool × Dirs)
  | 0, _, _ => none
  | fuel + 1, pos, fs =>
    let found := find path slash pos
    -- `substr(0, npos)` is the whole path
    let node := path.take (found.getD path.length)
    if node.length = 0 then some (false, fs)
    else
      let made := if dirExists fs node then some fs else fs.mkdir (cStr 0 node)
      match made with
      | none => some (false, fs)
      | some fs =>
        match found with
        | none => some (true, fs)
        | some pos => dirCreateLoop path fuel (pos + 1) fs

def dirCreate (fs : Dirs) (path : List UInt8) : Option (Bool × Dirs) :=
  dirCreateLoop path (path.length + 1) 0 fs

/-- A non-empty prefix that ends before a slash or at the end. -/
def IsNode (path p : List UInt8) : Prop :=
  p ≠ [] ∧ p <+: path ∧ (p = path ∨ path[p.length]? = some slash)

/-- The call returns `true`; then every node is a directory, and no other directory is new. -/
def Creates (fs : Dirs) (path : List UInt8) : Prop :=
  ∃ fs', dirCreate fs path = some (true, fs') ∧
    (∀ p, IsNode path p → dirExists fs' p = true) ∧
    ∀ d, fs'.IsDir d → fs.IsDir d ∨ ∃ p, IsNode path p ∧ fs'.resolve (cStr 0 p) = some d

variable {path pre m rest : List UInt8} {fs fs₀ fs' : Dirs} {pos i : Nat}

/-! ## Every call ends -/

theorem find_lt {c : UInt8} (h : find path c pos = some i) : pos ≤ i ∧ i < path.length := by
  rw [find, Option.map_eq_some_iff] at h
  obtain ⟨k, hk, rfl⟩ := h
  rw [List.idxOf?, List.findIdx?_eq_some_iff_getElem] at hk
  obtain ⟨hk, -⟩ := hk
  rw [List.length_drop] at hk
  omega

theorem dirCreateLoop_isSome (path : List UInt8) : ∀ (fuel pos : Nat) (fs : Dirs),
    path.length - pos < fuel → (dirCreateLoop path fuel pos fs).isSome
  | 0, _, _, h => absurd h (Nat.not_lt_zero _)
  | fuel + 1, pos, fs, h => by
    unfold dirCreateLoop
    dsimp only
    split
    · rfl
    · split
      · rfl
      · split
        · rfl
        · next hfound =>
          have := find_lt hfound
          exact dirCreateLoop_isSome path fuel _ _ (by omega)

/-- Every call ends, whatever the file system answers. -/
theorem dirCreate_isSome (fs : Dirs) (path : List UInt8) : (dirCreate fs path).isSome :=
  dirCreateLoop_isSome path _ 0 fs (by omega)

/-! ## One pass -/

/-- What lies behind the loop when it looks at `rest`: its part of the path ends with a slash, and
the nodes in it are directories. -/
structure Behind (path pre : List UInt8) (fs₀ fs : Dirs) : Prop where
  ext : Dirs.Extends fs₀ fs
  front : pre = [] ∨ ∃ p, pre = p ++ [slash] ∧ dirExists fs p = true
  made : ∀ p, IsNode path p → p.length < pre.length → dirExists fs p = true
  only : ∀ d, fs.IsDir d → fs₀.IsDir d ∨ ∃ p, IsNode path p ∧ fs.resolve (cStr 0 p) = some d

theorem dirExists_extends (h : Dirs.Extends fs fs') (hd : dirExists fs pre = true) :
    dirExists fs' pre = true := by
  obtain ⟨d, hd⟩ := Option.isSome_iff_exists.mp hd
  exact Option.isSome_iff_exists.mpr ⟨d, h.resolve hd⟩

/-- The directory in which a node lies is there. -/
theorem node_parent (hfront : pre = [] ∨ ∃ p, pre = p ++ [slash] ∧ dirExists fs p = true)
    (hm : slash ∉ m) : (∃ e, fs.resolve (cStr 0 (pre ++ m)) = some e) ∨
      ∃ ns d, fs.walk (fs.start (cStr 0 (pre ++ m))) ns = some d ∧
        (names (cStr 0 (pre ++ m)) = ns ∨ ∃ n, names (cStr 0 (pre ++ m)) = ns ++ [n]) := by
  have hpart : slash ∉ cStr 0 m := fun hc => hm ((List.takeWhile_sublist _).subset hc)
  rcases hfront with rfl | ⟨p, rfl, hp⟩
  · refine .inr ⟨[], _, rfl, ?_⟩
    rcases names_part hpart with hn | hn
    · exact .inl hn
    · exact .inr ⟨_, hn⟩
  · obtain ⟨d, hd⟩ := Option.isSome_iff_exists.mp hp
    rw [List.append_assoc]
    by_cases hnul : (0 : UInt8) ∈ p
    · exact .inl ⟨d, by rw [cStr_append_of_mem hnul, hd]⟩
    · rw [cStr_eq_self hnul] at hd
      have hc : cStr 0 (p ++ ([slash] ++ m)) = p ++ slash :: cStr 0 m := by
        rw [cStr_append_of_not_mem hnul, cStr_append_of_not_mem (by decide)]
        rfl
      unfold Dirs.resolve at hd
      split at hd
      · cases hd
      · next hne =>
        have hstart : fs.start (p ++ slash :: cStr 0 m) = fs.start p := by
          rw [Dirs.start, Dirs.start, List.head?_append_of_ne_nil _ hne]
        refine .inr ⟨names p, d, by rw [hc, hstart, hd], ?_⟩
        rw [hc, names_append]
        rcases names_part hpart with hn | hn
        · exact .inl (by rw [hn, List.append_nil])
        · exact .inr ⟨_, by rw [hn]⟩

/-- After `dirExists` and `mkdir` the node is a directory. -/
theorem made_node (hgrant : ∀ d n, fs.refuses d n = false)
    (hfront : pre = [] ∨ ∃ p, pre = p ++ [slash] ∧ dirExists fs p = true) (hm : slash ∉ m)
    (hne : cStr 0 (pre ++ m) ≠ []) :
    ∃ fs', (if dirExists fs (pre ++ m) then some fs else fs.mkdir (cStr 0 (pre ++ m))) =
        some fs' ∧ Dirs.Extends fs fs' ∧ dirExists fs' (pre ++ m) = true ∧
      ∀ d, fs'.IsDir d → fs.IsDir d ∨ fs'.resolve (cStr 0 (pre ++ m)) = some d := by
  by_cases hex : dirExists fs (pre ++ m) = true
  · exact ⟨fs, by rw [if_pos hex], .refl fs, hex, fun d hd => .inl hd⟩
  · have hnot : ¬ ∃ e, fs.resolve (cStr 0 (pre ++ m)) = some e :=
      fun he => hex (Option.isSome_iff_exists.mpr he)
    obtain ⟨ns, d, hw, hnames⟩ := (node_parent hfront hm).resolve_left hnot
    obtain ⟨u, hmk, hext, hres, hnext⟩ :=
      (Dirs.resolve_or_mkdir hne hw hnames hgrant).resolve_left hnot
    refine ⟨u, by rw [if_neg hex, hmk], hext, Option.isSome_iff_exists.mpr ⟨_, hres⟩, ?_⟩
    intro e he
    unfold Dirs.IsDir at he ⊢
    by_cases heq : e = fs.next
    · exact .inr (by rw [heq, hres])
    · exact .inl (by omega)

/-! ## The loop -/

/-- A node in the part up to the next slash lies behind the loop or is the one it looks at. -/
theorem IsNode.before {p : List UInt8} (h : IsNode path p)
    (hpath : path = pre ++ (m ++ slash :: rest)) (hm : slash ∉ m)
    (hlen : p.length < (pre ++ m ++ [slash]).length) : p.length < pre.length ∨ p = pre ++ m := by
  obtain ⟨-, hpre, hend⟩ := h
  simp only [List.length_append, List.length_singleton] at hlen
  have hslash : path[p.length]? = some slash := by
    refine hend.resolve_left fun heq => ?_
    rw [heq, hpath] at hlen
    simp only [List.length_append, List.length_cons] at hlen
    omega
  refine or_iff_not_imp_left.mpr fun hlo => ?_
  rw [hpath, List.getElem?_append_right (by omega)] at hslash
  have hat : p.length = pre.length + m.length := by
    by_contra hne
    rw [List.getElem?_append_left (by omega)] at hslash
    exact hm (List.mem_of_getElem? hslash)
  have hnode : pre ++ m <+: path := ⟨slash :: rest, by rw [hpath, List.append_assoc]⟩
  have hlen' : p.length = (pre ++ m).length := by rw [hat, List.length_append]
  exact (List.prefix_of_prefix_length_le hpre hnode (Nat.le_of_eq hlen')).eq_of_length hlen'

/-- Without another slash only the whole path is left. -/
theorem IsNode.last {p : List UInt8} (h : IsNode path p) (hpath : path = pre ++ rest)
    (hrest : slash ∉ rest) : p.length < pre.length ∨ p = path := by
  obtain ⟨-, -, heq | hslash⟩ := h
  · exact .inr heq
  · refine .inl (Nat.lt_of_not_le fun hlo => ?_)
    rw [hpath, List.getElem?_append_right hlo] at hslash
    exact hrest (List.mem_of_getElem? hslash)

/-- A node is not empty for the system calls. -/
theorem cStr_ne_nil {p : List UInt8} (hp : p ≠ []) (hpre : p <+: path)
    (hnul : path.head? ≠ some 0) : cStr 0 p ≠ [] := by
  obtain ⟨t, rfl⟩ := hpre
  cases p with
  | nil => exact absurd rfl hp
  | cons c p =>
    rw [cStr, List.takeWhile_cons_of_pos]
    · exact List.cons_ne_nil _ _
    · rw [decide_eq_true_eq]
      rintro rfl
      exact hnul rfl

/-- What the pass to a node leaves for the next one. -/
theorem Behind.next (h : Behind path pre fs₀ fs) (hpath : path = pre ++ (m ++ slash :: rest))
    (hm : slash ∉ m) (hne : pre ++ m ≠ []) (hext : Dirs.Extends fs fs')
    (hmade : dirExists fs' (pre ++ m) = true)
    (honly : ∀ d, fs'.IsDir d → fs.IsDir d ∨ fs'.resolve (cStr 0 (pre ++ m)) = some d) :
    Behind path (pre ++ m ++ [slash]) fs₀ fs' where
  ext := h.ext.trans hext
  front := .inr ⟨_, rfl, hmade⟩
  made p hp hlen := by
    rcases hp.before hpath hm hlen with hlo | rfl
    · exact dirExists_extends hext (h.made p hp hlo)
    · exact hmade
  only d hd := by
    have hnode : IsNode path (pre ++ m) := by
      refine ⟨hne, ⟨slash :: rest, by rw [hpath, List.append_assoc]⟩, .inr ?_⟩
      rw [hpath, ← List.append_assoc, List.getElem?_append_right (Nat.le_refl _), Nat.sub_self]
      rfl
    rcases honly d hd with hold | hnew
    · rcases h.only d hold with h0 | ⟨p, hp, hr⟩
      · exact .inl h0
      · exact .inr ⟨p, hp, hext.resolve hr⟩
    · exact .inr ⟨_, hnode, hnew⟩

/-- A pass whose node is there or can be made goes on, or ends the loop behind the last slash. -/
theorem dirCreateLoop_pass {fuel : Nat} {found : Option Nat} {node : List UInt8}
    (hfound : find path slash pos = found) (hnode : path.take (found.getD path.length) = node)
    (hne : node ≠ [])
    (hmk : (if dirExists fs node then some fs else fs.mkdir (cStr 0 node)) = some fs') :
    dirCreateLoop path (fuel + 1) pos fs =
      found.elim (some (true, fs')) fun pos => dirCreateLoop path fuel (pos + 1) fs' := by
  subst hfound hnode
  rw [dirCreateLoop]
  dsimp only
  rw [if_neg fun h0 => hne (List.length_eq_zero_iff.mp h0), hmk]
  cases find path slash pos with
  | none => rfl
  | some pos => rfl

theorem dirCreateLoop_creates (hgrant : ∀ d n, fs₀.refuses d n = false)
    (hslash : path.head? ≠ some slash) (hnul : path.head? ≠ some 0) (hpath0 : path ≠ []) :
    ∀ (fuel : Nat) {pre rest : List UInt8} {fs : Dirs}, path = pre ++ rest → rest.length < fuel →
      Behind path pre fs₀ fs →
      ∃ fs', dirCreateLoop path fuel pre.length fs = some (true, fs') ∧
        (∀ p, IsNode path p → dirExists fs' p = true) ∧
        ∀ d, fs'.IsDir d → fs₀.IsDir d ∨ ∃ p, IsNode path p ∧ fs'.resolve (cStr 0 p) = some d
  | 0, _, _, _, _, hfuel, _ => absurd hfuel (Nat.not_lt_zero _)
  | fuel + 1, pre, rest, fs, hpath, hfuel, h => by
    have hgrant' : ∀ d n, fs.refuses d n = false := by
      intro d n
      rw [h.ext.refuses]
      exact hgrant d n
    by_cases hin : slash ∈ rest
    · obtain ⟨m, t, rfl, hm⟩ := List.eq_append_cons_of_mem hin
      have hne : pre ++ m ≠ [] := by
        intro hnil
        rw [← List.append_assoc, hnil] at hpath
        exact hslash (by rw [hpath]; rfl)
      have hnode : pre ++ m <+: path := ⟨slash :: t, by rw [hpath, List.append_assoc]⟩
      have htake : path.take (pre.length + m.length) = pre ++ m := by
        rw [← List.length_append]
        exact (List.prefix_iff_eq_take.mp hnode).symm
      have hfound : find path slash pre.length = some (pre.length + m.length) := by
        rw [hpath, find_append hm]
      obtain ⟨fs', hmk, hext, hmade, honly⟩ :=
        made_node hgrant' h.front hm (cStr_ne_nil hne hnode hnul)
      have hnext := h.next hpath hm hne hext hmade honly
      have hlen : pre.length + m.length + 1 = (pre ++ m ++ [slash]).length := by
        simp only [List.length_append, List.length_singleton]
      rw [dirCreateLoop_pass hfound htake hne hmk, Option.elim_some, hlen]
      have hrest : path = (pre ++ m ++ [slash]) ++ t := by
        rw [hpath]
        simp only [List.append_assoc, List.singleton_append]
      refine dirCreateLoop_creates hgrant hslash hnul hpath0 fuel hrest ?_ hnext
      simp only [List.length_append, List.length_cons] at hfuel
      omega
    · have hfound : find path slash pre.length = none := by
        rw [hpath, find_eq_none hin]
      obtain ⟨fs', hmk, hext, hmade, honly⟩ := made_node hgrant' h.front hin
        (by rw [← hpath]; exact cStr_ne_nil hpath0 (List.prefix_refl path) hnul)
      rw [← hpath] at hmk hmade honly
      rw [dirCreateLoop_pass hfound List.take_length hpath0 hmk]
      refine ⟨fs', rfl, ?_, ?_⟩
      · intro p hp
        rcases hp.last hpath hin with hlo | rfl
        · exact dirExists_extends hext (h.made p hp hlo)
        · exact hmade
      · intro d hd
        rcases honly d hd with hold | hnew
        · rcases h.only d hold with h0 | ⟨p, hp, hr⟩
          · exact .inl h0
          · exact .inr ⟨p, hp, hext.resolve hr⟩
        · exact .inr ⟨path, ⟨hpath0, List.prefix_refl path, .inl rfl⟩, hnew⟩

/-! ## Which paths are created -/

/-- A leading slash is taken for a node without a name. -/
theorem dirCreate_slash (fs : Dirs) (h : path.head? = some slash) :
    dirCreate fs path = some (false, fs) := by
  obtain ⟨t, rfl⟩ := List.head?_eq_some_iff.mp h
  have hfound : find (slash :: t) slash 0 = some 0 := find_append (a := []) (m := []) (by simp)
  unfold dirCreate dirCreateLoop
  rw [hfound]
  rfl

/-- Nothing can be made of a path that begins with the terminator. -/
theorem dirCreate_nul (fs : Dirs) (h : path.head? = some 0) :
    dirCreate fs path = some (false, fs) := by
  obtain ⟨t, rfl⟩ := List.head?_eq_some_iff.mp h
  unfold dirCreate dirCreateLoop
  dsimp only
  split
  · rfl
  · next hne =>
    have hcut : ∀ k, k ≠ 0 → cStr 0 ((0 :: t).take k) = [] := by
      intro k hk
      obtain ⟨k, rfl⟩ := Nat.exists_eq_succ_of_ne_zero hk
      rfl
    have hk : (find (0 :: t) slash 0).getD (0 :: t).length ≠ 0 := by
      intro h0
      rw [h0] at hne
      exact hne rfl
    have hex : dirExists fs ((0 :: t).take ((find (0 :: t) slash 0).getD (0 :: t).length)) =
        false := by
      rw [dirExists, hcut _ hk]
      rfl
    rw [hex, hcut _ hk]
    rfl

/-- Where `mkdir` is refused nowhere, a path is created exactly if it begins neither with a slash
nor with the terminator. -/
theorem creates_iff (hgrant : ∀ d n, fs.refuses d n = false) (hpath : path ≠ []) :
    Creates fs path ↔ path.head? ≠ some slash ∧ path.head? ≠ some 0 := by
  constructor
  · rintro ⟨fs', hcall, -, -⟩
    constructor
    · intro h
      rw [dirCreate_slash fs h] at hcall
      cases hcall
    · intro h
      rw [dirCreate_nul fs h] at hcall
      cases hcall
  · rintro ⟨hslash, hnul⟩
    have hbegin : Behind path [] fs fs :=
      ⟨.refl fs, .inl rfl, fun p _ h => absurd h (Nat.not_lt_zero _), fun d hd => .inl hd⟩
    exact dirCreateLoop_creates hgrant hslash hnul hpath _ rfl (Nat.lt_succ_self _) hbegin

/-- Below the root, a path with repeated and trailing slashes. -/
theorem creates_relative : Creates .rootOnly (['a', '/', '/', 'b', '/'].map Char.toUInt8) :=
  (creates_iff (fun _ _ => rfl) (by decide)).mpr ⟨by decide, by decide⟩

/-- The same directory by its absolute path. -/
theorem not_creates_absolute :
    ¬ ∀ (fs : Dirs) (path : List UInt8), (∀ d n, fs.refuses d n = false) → path ≠ [] →
      path.head? ≠ some 0 → Creates fs path := by
  intro hall
  obtain ⟨fs', hcall, -, -⟩ :=
    hall .rootOnly (['/', 'a'].map Char.toUInt8) (fun _ _ => rfl) (by decide) (by decide)
  rw [dirCreate_slash _ rfl] at hcall
  cases hcall

end LibFilesys
end ProcessingCommon

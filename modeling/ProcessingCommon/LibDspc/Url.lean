import ProcessingCommon.Lib.CString

/-!
# `urlToParts` (`LibDspc.cpp`)

A URL is taken apart with two positions, `idxLeft` and `idxRight`: the protocol from the left,
then queries, path and port from the right, and what is left over is the host. `none` is the
`out_of_range` of `substr`. A string is shorter than `2 ^ 63`.
-/

namespace ProcessingCommon
namespace LibDspc

open BasicString CString

/-- `std::string`. -/
abbrev Bytes := List UInt8

/-! ## The function -/

/-- The output parameters. -/
structure UrlParts where
  protocol : Bytes
  host : Bytes
  port : UInt16
  path : Bytes
  queries : Bytes
deriving DecidableEq

/-- The protocol, and `idxLeft` behind it. -/
def protocolPart (url : Bytes) : Option (Bytes × Nat) :=
  match findStr url ([':', '/', '/'].map Char.toUInt8) 0 with
  | none => some ([], 0)
  | some find => (substr url 0 (sizeSub find 0)).map (·, find + 3)

/-- What is between `find` and `idxRight`, and `idxRight` before it; a position `0` stays. -/
def rightPart (url : Bytes) (find : Option Nat) (idxRight : Nat) : Option (Bytes × Nat) :=
  match find with
  | none => some ([], idxRight)
  | some find => (substr url (find + 1) (sizeSub idxRight find)).map (·, find - 1)

/-- The loop that looks for the port; `url[url.size()]` is the terminator. -/
def portFind (url : Bytes) (idxLeft : Nat) : Nat → Option Nat
  | 0 => none
  | idx + 1 =>
    if idx + 1 > idxLeft then
      if url.getD (idx + 1) 0 ≠ ':'.toUInt8 then portFind url idxLeft idx else some (idx + 1)
    else none

/-- Port and host, which are left between the two positions. -/
def hostPart (url : Bytes) (idxLeft idxRight : Nat) : Option (UInt16 × Bytes) := do
  let find := portFind url idxLeft idxRight
  let (str, idxRight) ← rightPart url find idxRight
  let port := if find.isSome then UInt16.ofInt (atoi str) else 0
  let host ← substr url idxLeft (sizeSub (idxRight + 1) idxLeft)
  return (port, host)

def urlToParts (url : Bytes) : Option UrlParts := do
  let idxRight := if url.length ≠ 0 then url.length - 1 else 0
  let (protocol, idxLeft) ← protocolPart url
  let (queries, idxRight) ← rightPart url (rfind url '?'.toUInt8 idxRight) idxRight
  let (path, idxRight) ← rightPart url (find url '/'.toUInt8 idxLeft) idxRight
  let (port, host) ← hostPart url idxLeft idxRight
  return { protocol, host, port, path, queries }

/-! ## Assembly -/

/-- The components of a URL. -/
structure UrlText where
  protocol : Bytes
  host : Bytes
  port : Option UInt16
  path : Option Bytes
  query : Option Bytes

namespace UrlText

def portText (u : UrlText) : Bytes := u.port.elim [] fun n => ':'.toUInt8 :: decimal n.toNat

def pathText (u : UrlText) : Bytes := u.path.elim [] fun p => '/'.toUInt8 :: p

def queryText (u : UrlText) : Bytes := u.query.elim [] fun q => '?'.toUInt8 :: q

/-- `protocol://host[:port][/path][?query]`. -/
def assemble (u : UrlText) : Bytes :=
  u.protocol ++ ([':', '/', '/'].map Char.toUInt8 ++
    (u.host ++ (u.portText ++ (u.pathText ++ u.queryText))))

/-- What `urlToParts` is meant to give back. -/
def parts (u : UrlText) : UrlParts :=
  { protocol := u.protocol
    host := u.host
    port := u.port.getD 0
    path := u.path.getD []
    queries := u.query.getD [] }

end UrlText

/-! ## The stages on a string that is written as its parts -/

variable {url a m t : Bytes} {r : UrlParts} {c : UInt8} {idxRight : Nat}

theorem urlToParts_eq_some : urlToParts url = some r ↔
    ∃ idxLeft idxQueries idxPath,
      protocolPart url = some (r.protocol, idxLeft) ∧
      rightPart url (rfind url '?'.toUInt8 (url.length - 1)) (url.length - 1) =
        some (r.queries, idxQueries) ∧
      rightPart url (find url '/'.toUInt8 idxLeft) idxQueries = some (r.path, idxPath) ∧
      hostPart url idxLeft idxPath = some (r.port, r.host) := by
  have hlast : (if url.length ≠ 0 then url.length - 1 else 0) = url.length - 1 := by
    split <;> omega
  unfold urlToParts
  simp only [hlast, Option.bind_eq_bind, Option.bind_eq_some_iff, Prod.exists, Option.pure_def]
  constructor
  · rintro ⟨protocol, idxLeft, hp, queries, idxQueries, hq, path, idxPath, hpath, port, host, hh, hr⟩
    cases hr
    exact ⟨idxLeft, idxQueries, idxPath, hp, hq, hpath, hh⟩
  · rintro ⟨idxLeft, idxQueries, idxPath, hp, hq, hpath, hh⟩
    exact ⟨_, idxLeft, hp, _, idxQueries, hq, _, idxPath, hpath, _, _, hh, rfl⟩

theorem protocolPart_append (h : ':'.toUInt8 ∉ m) (hlen : m.length < 2 ^ 64) :
    protocolPart (m ++ ([':', '/', '/'].map Char.toUInt8 ++ t)) = some (m, m.length + 3) := by
  have hfind : findStr (m ++ ([':', '/', '/'].map Char.toUInt8 ++ t))
      ([':', '/', '/'].map Char.toUInt8) 0 = some m.length := findStr_append h
  have hcut : sizeSub m.length 0 = m.length := by
    rw [sizeSub]
    omega
  have hsub : substr (m ++ ([':', '/', '/'].map Char.toUInt8 ++ t)) 0 m.length = some m :=
    substr_append (a := []) rfl rfl
  rw [protocolPart, hfind]
  dsimp only
  rw [hcut, hsub]
  rfl

theorem rightPart_append (hlen : (a ++ (c :: m ++ t)).length < 2 ^ 63)
    (hright : idxRight = a.length + m.length) :
    rightPart (a ++ (c :: m ++ t)) (some a.length) idxRight = some (m, a.length - 1) := by
  subst hright
  have hcut : sizeSub (a.length + m.length) a.length = m.length := by
    simp only [List.length_append, List.length_cons] at hlen
    rw [sizeSub]
    omega
  have hcons : a ++ (c :: m ++ t) = (a ++ [c]) ++ (m ++ t) := by simp
  rw [rightPart, hcut, hcons, substr_append (by simp) rfl]
  rfl

/-- Behind `idxRight` the length wraps, and the rest of the URL is taken. -/
theorem rightPart_rest (hlen : (a ++ c :: t).length < 2 ^ 63) (hright : idxRight < a.length) :
    rightPart (a ++ c :: t) (some a.length) idxRight = some (t, a.length - 1) := by
  have hcut : t.length ≤ sizeSub idxRight a.length := by
    simp only [List.length_append, List.length_cons] at hlen
    rw [sizeSub]
    omega
  have hcons : a ++ c :: t = (a ++ [c]) ++ t := by simp
  rw [rightPart, hcons, substr_rest (by simp) hcut]
  rfl

/-- The port loop is a search to the right of `idxLeft`. -/
theorem portFind_eq (url : Bytes) (idxLeft idx : Nat) :
    portFind url idxLeft idx =
      (rfind url ':'.toUInt8 idx).filter fun i => decide (idxLeft < i) := by
  induction idx with
  | zero =>
    unfold portFind rfind
    split <;> rfl
  | succ idx ih =>
    have hget : url.getD (idx + 1) 0 = ':'.toUInt8 ↔ url[idx + 1]? = some ':'.toUInt8 := by
      rw [List.getD_eq_getElem?_getD]
      cases url[idx + 1]? with
      | none => decide
      | some c => simp
    unfold portFind rfind
    by_cases hc : url[idx + 1]? = some ':'.toUInt8
    · rw [if_pos hc, if_neg (not_not_intro (hget.mpr hc))]
      split
      · next hlt => rw [Option.filter_some, if_pos (decide_eq_true hlt)]
      · next hlt => rw [Option.filter_some, if_neg (by simpa using hlt)]
    · rw [if_neg hc, if_pos (mt hget.mp hc), ih]
      split
      · rfl
      · next hlt =>
        cases hr : rfind url ':'.toUInt8 idx with
        | none => rfl
        | some i =>
          have := (rfind_eq_some hr).1
          rw [Option.filter_some, if_neg (by simp; omega)]

/-- The port is read up to what is no digit. -/
theorem ofInt_atoi_decimal (n : UInt16) (h : ∀ c ∈ t.head?, isDigit c = false) :
    UInt16.ofInt (atoi (decimal n.toNat ++ t)) = n := by
  have hn := n.toNat_lt
  have hmod : ((n.toNat : Int) % 2 ^ 16).toNat = n.toNat := by omega
  rw [atoi_decimal h (by omega), UInt16.ofInt, hmod]
  exact UInt16.ofNat_toNat

/-- No digit is one of the delimiters. -/
theorem not_mem_decimal (hc : isDigit c = false) (n : Nat) : c ∉ decimal n := by
  intro h
  rw [isDigit_of_mem_decimal h] at hc
  cases hc

theorem portFind_eq_none (h : ∀ i, a.length < i → i ≤ idxRight → url[i]? ≠ some ':'.toUInt8) :
    portFind url a.length idxRight = none := by
  rw [portFind_eq, Option.filter_eq_none_iff]
  intro i hi
  have hr := rfind_eq_some hi
  rw [decide_eq_true_eq]
  intro hlt
  exact h i hlt hr.1 hr.2

/-- The last colon of the authority separates the port. -/
theorem hostPart_port {host : Bytes} (hhost : host ≠ []) (hm : ':'.toUInt8 ∉ m)
    (hlen : (a ++ (host ++ (':'.toUInt8 :: m ++ t))).length < 2 ^ 63)
    (hright : idxRight = a.length + host.length + m.length) :
    hostPart (a ++ (host ++ (':'.toUInt8 :: m ++ t))) a.length idxRight =
      some (UInt16.ofInt (atoi m), host) := by
  have hpos : 0 < host.length := List.length_pos_of_ne_nil hhost
  have hfind : portFind (a ++ (host ++ (':'.toUInt8 :: m ++ t))) a.length idxRight =
      some (a ++ host).length := by
    rw [portFind_eq, ← List.append_assoc, rfind_append hm (by simp; omega) (by simp; omega),
      Option.filter_some, if_pos (by simp; omega)]
  have hidx : idxRight = (a ++ host).length + m.length := by
    rw [List.length_append]
    exact hright
  have hright' := rightPart_append (by rwa [List.append_assoc]) hidx (c := ':'.toUInt8) (t := t)
  rw [List.append_assoc] at hright'
  have hcut : sizeSub ((a ++ host).length - 1 + 1) a.length = host.length := by
    simp only [List.length_append, List.length_cons] at hlen ⊢
    rw [sizeSub]
    omega
  rw [hostPart, hfind]
  simp only [hright', hcut, substr_append rfl rfl, Option.bind_eq_bind, Option.bind_some]
  rfl

/-- Without a colon in it, the authority is the host. -/
theorem hostPart_noPort {host : Bytes} (h : ':'.toUInt8 ∉ host)
    (hlen : (a ++ (host ++ t)).length < 2 ^ 63) (hright : idxRight + 1 = a.length + host.length) :
    hostPart (a ++ (host ++ t)) a.length idxRight = some (0, host) := by
  have hfind : portFind (a ++ (host ++ t)) a.length idxRight = none := by
    refine portFind_eq_none fun i hlo hhi hc => ?_
    rw [List.getElem?_append_right (by omega), List.getElem?_append_left (by omega)] at hc
    exact h (List.mem_of_getElem? hc)
  have hcut : sizeSub (idxRight + 1) a.length = host.length := by
    simp only [List.length_append] at hlen
    rw [sizeSub]
    omega
  rw [hostPart, hfind]
  simp only [rightPart, hcut, substr_append rfl rfl, Option.bind_eq_bind, Option.bind_some]
  rfl

/-- Left of the authority there is no port, and the rest of the URL is the host. -/
theorem hostPart_rest (hlen : (a ++ t).length < 2 ^ 63) (hright : idxRight + 1 < a.length) :
    hostPart (a ++ t) a.length idxRight = some (0, t) := by
  have hfind : portFind (a ++ t) a.length idxRight = none :=
    portFind_eq_none fun i hlo hhi => absurd hhi (by omega)
  have hcut : t.length ≤ sizeSub (idxRight + 1) a.length := by
    simp only [List.length_append] at hlen
    rw [sizeSub]
    omega
  rw [hostPart, hfind]
  simp only [rightPart, substr_rest rfl hcut, Option.bind_eq_bind, Option.bind_some]
  rfl

/-! ## Assembled URLs -/

namespace UrlText

/-- What the assembly puts in front of the host. -/
def front (u : UrlText) : Bytes := u.protocol ++ [':', '/', '/'].map Char.toUInt8

def authority (u : UrlText) : Bytes := u.host ++ u.portText

theorem assemble_eq (u : UrlText) :
    u.assemble = u.front ++ (u.authority ++ (u.pathText ++ u.queryText)) := by
  simp only [assemble, front, authority, List.append_assoc]

theorem front_length (u : UrlText) : u.front.length = u.protocol.length + 3 := by
  rw [front, List.length_append]
  rfl

theorem pathText_some {u : UrlText} {p : Bytes} (h : u.path = some p) :
    u.pathText = '/'.toUInt8 :: p := by
  rw [pathText, h]
  rfl

theorem pathText_none {u : UrlText} (h : u.path = none) : u.pathText = [] := by
  rw [pathText, h]
  rfl

theorem queryText_some {u : UrlText} {q : Bytes} (h : u.query = some q) :
    u.queryText = '?'.toUInt8 :: q := by
  rw [queryText, h]
  rfl

theorem queryText_none {u : UrlText} (h : u.query = none) : u.queryText = [] := by
  rw [queryText, h]
  rfl

theorem mem_authority {u : UrlText} {c : UInt8} (h : c ∈ u.authority) (hc : c ≠ ':'.toUInt8) :
    c ∈ u.host ∨ isDigit c = true := by
  rcases List.mem_append.mp h with h | h
  · exact .inl h
  · rw [portText] at h
    cases hp : u.port with
    | none =>
      rw [hp] at h
      exact absurd h List.not_mem_nil
    | some n =>
      rw [hp] at h
      exact .inr (isDigit_of_mem_decimal ((List.mem_cons.mp h).resolve_left hc))

/-- What all URLs below keep to: the delimiters do not occur in front of their component. -/
structure Regular (u : UrlText) : Prop where
  protocol_colon : ':'.toUInt8 ∉ u.protocol
  host_ne : u.host ≠ []
  host_slash : '/'.toUInt8 ∉ u.host
  host_query : '?'.toUInt8 ∉ u.host
  path_query : ∀ p ∈ u.path, '?'.toUInt8 ∉ p
  length_lt : u.assemble.length < 2 ^ 63

namespace Regular

variable {u : UrlText} {p q : Bytes} {idx : Nat}

theorem authority_slash (h : u.Regular) : '/'.toUInt8 ∉ u.authority := by
  intro hc
  rcases mem_authority hc (by decide) with hc | hc
  · exact h.host_slash hc
  · exact absurd hc (by decide)

theorem authority_query (h : u.Regular) : '?'.toUInt8 ∉ u.authority := by
  intro hc
  rcases mem_authority hc (by decide) with hc | hc
  · exact h.host_query hc
  · exact absurd hc (by decide)

theorem pathText_query (h : u.Regular) : '?'.toUInt8 ∉ u.pathText := by
  cases hp : u.path with
  | none =>
    rw [pathText_none hp]
    exact List.not_mem_nil
  | some p =>
    rw [pathText_some hp, List.mem_cons, not_or]
    exact ⟨by decide, h.path_query p hp⟩

theorem authority_ne (h : u.Regular) : 0 < u.authority.length := by
  have := List.length_pos_of_ne_nil h.host_ne
  rw [authority, List.length_append]
  omega

/-- The lengths of the four pieces. -/
theorem lengths (h : u.Regular) :
    u.assemble.length = u.front.length + u.authority.length + u.pathText.length +
      u.queryText.length ∧ u.assemble.length < 2 ^ 63 := by
  refine ⟨?_, h.length_lt⟩
  simp only [assemble_eq, List.length_append]
  omega

theorem protocolPart_eq (h : u.Regular) :
    protocolPart u.assemble = some (u.protocol, u.front.length) := by
  have hlen := h.lengths
  have hfront := u.front_length
  rw [hfront, assemble]
  exact protocolPart_append h.protocol_colon (by omega)

/-- The queries are what stands behind the last question mark. -/
theorem queries_last {a m : Bytes} (h : u.Regular) (hu : u.assemble = a ++ '?'.toUInt8 :: m)
    (hm : '?'.toUInt8 ∉ m) :
    rightPart u.assemble (rfind u.assemble '?'.toUInt8 (u.assemble.length - 1))
      (u.assemble.length - 1) = some (m, a.length - 1) := by
  have hcons : u.assemble = a ++ ('?'.toUInt8 :: m ++ []) := by rw [hu, List.append_nil]
  have hlen : u.assemble.length = a.length + (m.length + 1) := by
    rw [hu, List.length_append, List.length_cons]
  have hlt := h.length_lt
  rw [hlen, hcons, rfind_append hm (by omega) (by omega)]
  exact rightPart_append (by rw [← hcons]; exact hlt) (by omega)

theorem queries_none (h : u.Regular) (hq : u.query = none) (hp : '?'.toUInt8 ∉ u.protocol) :
    rightPart u.assemble (rfind u.assemble '?'.toUInt8 (u.assemble.length - 1))
      (u.assemble.length - 1) = some ([], u.assemble.length - 1) := by
  have hnone : '?'.toUInt8 ∉ u.assemble := by
    simp only [assemble_eq, front, queryText_none hq, List.append_nil, List.mem_append, not_or]
    exact ⟨⟨hp, by decide⟩, h.authority_query, h.pathText_query⟩
  rw [rfind_eq_none hnone]
  rfl

/-- Without query, a question mark in the protocol is taken for the start of one. -/
theorem queries_protocol (h : u.Regular) (hq : u.query = none) (hc : '?'.toUInt8 ∈ u.protocol) :
    ∃ queries idx, queries ≠ [] ∧ idx + 1 < u.front.length ∧
      rightPart u.assemble (rfind u.assemble '?'.toUInt8 (u.assemble.length - 1))
        (u.assemble.length - 1) = some (queries, idx) := by
  obtain ⟨a, m, hp, hm⟩ := last_of_mem hc
  have hu : u.assemble = a ++ '?'.toUInt8 ::
      (m ++ ([':', '/', '/'].map Char.toUInt8 ++ (u.authority ++ u.pathText))) := by
    rw [assemble_eq, front, hp, queryText_none hq]
    simp only [List.append_assoc, List.cons_append, List.append_nil]
  refine ⟨_, _, ?_, ?_, h.queries_last hu ?_⟩
  · intro he
    have := congrArg List.length he
    rw [List.length_append, List.length_append, List.length_map] at this
    exact absurd this (by simp)
  · rw [front_length, hp, List.length_append, List.length_cons]
    omega
  · simp only [List.mem_append, not_or]
    exact ⟨hm, by decide, h.authority_query, h.pathText_query⟩

/-- A path is found, and ends at `idxRight`. -/
theorem path_some (h : u.Regular) (hp : u.path = some p)
    (hidx : idx = u.front.length + u.authority.length + p.length) :
    rightPart u.assemble (find u.assemble '/'.toUInt8 u.front.length) idx =
      some (p, u.front.length + u.authority.length - 1) := by
  have hlt := h.length_lt
  rw [assemble_eq, pathText_some hp] at hlt ⊢
  rw [List.cons_append, find_append h.authority_slash, ← List.append_assoc, ← List.cons_append,
    ← List.length_append]
  rw [← List.append_assoc] at hlt
  exact rightPart_append hlt (by rw [List.length_append]; exact hidx)

/-- If the queries were cut off in front of the host, the path takes all that follows. -/
theorem path_rest (h : u.Regular) (hp : u.path = some p) (hidx : idx < u.front.length) :
    rightPart u.assemble (find u.assemble '/'.toUInt8 u.front.length) idx =
      some (p ++ u.queryText, u.front.length + u.authority.length - 1) := by
  have hlt := h.length_lt
  rw [assemble_eq, pathText_some hp] at hlt ⊢
  rw [List.cons_append, find_append h.authority_slash, ← List.append_assoc, ← List.length_append]
  rw [List.cons_append, ← List.append_assoc] at hlt
  exact rightPart_rest hlt (by rw [List.length_append]; omega)

theorem path_none (h : u.Regular) (hp : u.path = none) (hq : '/'.toUInt8 ∉ u.queryText) :
    rightPart u.assemble (find u.assemble '/'.toUInt8 u.front.length) idx = some ([], idx) := by
  rw [assemble_eq, pathText_none hp, List.nil_append, find_eq_none]
  · rfl
  · rw [List.mem_append, not_or]
    exact ⟨h.authority_slash, hq⟩

/-- Without a path, the first slash of the query is taken for the start of the path. -/
theorem path_inQuery {q' : Bytes} (h : u.Regular) (hp : u.path = none)
    (hq : u.query = some (q ++ '/'.toUInt8 :: q')) (hslash : '/'.toUInt8 ∉ q)
    (hidx : idx + 1 = u.front.length + u.authority.length) :
    rightPart u.assemble (find u.assemble '/'.toUInt8 u.front.length) idx =
      some (q', u.front.length + (u.authority ++ '?'.toUInt8 :: q).length - 1) := by
  have hlt := h.length_lt
  have hbefore : '/'.toUInt8 ∉ u.authority ++ '?'.toUInt8 :: q := by
    rw [List.mem_append, List.mem_cons, not_or, not_or]
    exact ⟨h.authority_slash, by decide, hslash⟩
  have hu : u.assemble =
      u.front ++ ((u.authority ++ '?'.toUInt8 :: q) ++ '/'.toUInt8 :: q') := by
    rw [assemble_eq, pathText_none hp, queryText_some hq]
    simp only [List.nil_append, List.append_assoc, List.cons_append]
  rw [hu] at hlt ⊢
  rw [find_append hbefore, ← List.append_assoc, ← List.length_append]
  rw [← List.append_assoc] at hlt
  exact rightPart_rest hlt (by simp only [List.length_append, List.length_cons]; omega)

end Regular
end UrlText

end LibDspc
end ProcessingCommon

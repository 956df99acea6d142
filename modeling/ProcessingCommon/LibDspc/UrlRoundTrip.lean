import ProcessingCommon.LibDspc.Url

/-!
# Taking apart what was assembled

`urlToParts` cuts the queries off at the last question mark, and looks for the path in all that
follows the protocol. So a question mark in the query, or a slash in the query of a URL without
path, ends up in the wrong component.
-/

namespace ProcessingCommon
namespace LibDspc

open BasicString CString

/-- The components of a URL that RFC 3986 would tell apart. -/
structure Url extends UrlText where
  protocol_ne : protocol ≠ []
  protocol_colon : ':'.toUInt8 ∉ protocol
  host_ne : host ≠ []
  host_slash : '/'.toUInt8 ∉ host
  host_query : '?'.toUInt8 ∉ host
  host_colon : ':'.toUInt8 ∉ host
  port_ne : port ≠ some 0
  path_query : ∀ p ∈ path, '?'.toUInt8 ∉ p
  length_lt : toUrlText.assemble.length < 2 ^ 63

namespace Url

/-- `urlToParts` gives the components back. -/
def Recovered (u : Url) : Prop := urlToParts u.assemble = some u.parts

/-- A slash at the very end of the query ends up nowhere, if the port in front of the query
is still the last one. -/
def SlashAtEnd (u : Url) (q : Bytes) : Prop :=
  u.port.isSome = true ∧ ∃ r, q = r ++ ['/'.toUInt8] ∧ '/'.toUInt8 ∉ r ∧ ':'.toUInt8 ∉ r

/-- No delimiter is found in a wrong component. -/
def Separable (u : Url) : Prop :=
  match u.query with
  | none => '?'.toUInt8 ∉ u.protocol
  | some q => '?'.toUInt8 ∉ q ∧ (u.path.isSome = true ∨ '/'.toUInt8 ∉ q ∨ u.SlashAtEnd q)

variable {u : Url} {q x : Bytes} {idx : Nat}

theorem regular (u : Url) : u.Regular :=
  ⟨u.protocol_colon, u.host_ne, u.host_slash, u.host_query, u.path_query, u.length_lt⟩

/-! ## Port and host -/

theorem authority_noPort (h : u.port = none) : u.authority = u.host := by
  rw [UrlText.authority, UrlText.portText, h]
  exact List.append_nil _

theorem authority_port {n : UInt16} (h : u.port = some n) :
    u.authority = u.host ++ ':'.toUInt8 :: decimal n.toNat := by
  rw [UrlText.authority, UrlText.portText, h]
  rfl

/-- Between the two positions stands the authority, with what comes behind it up to `idx`. The
port is read up to it, the host is not. -/
theorem hostPart_eq {m t : Bytes} (hu : u.assemble = u.front ++ ((u.authority ++ m) ++ t))
    (hm : ':'.toUInt8 ∉ m) (hdigit : ∀ c ∈ m.head?, isDigit c = false)
    (hidx : idx + 1 = u.front.length + (u.authority ++ m).length) :
    hostPart u.assemble u.front.length idx =
      some (u.port.getD 0, if u.port.isSome then u.host else u.host ++ m) := by
  have hlen := u.length_lt
  rw [hu] at hlen ⊢
  cases hport : u.port with
  | none =>
    rw [authority_noPort hport] at hlen hidx ⊢
    refine hostPart_noPort ?_ hlen hidx
    rw [List.mem_append, not_or]
    exact ⟨u.host_colon, hm⟩
  | some n =>
    have hcolon : ':'.toUInt8 ∉ decimal n.toNat ++ m := by
      rw [List.mem_append, not_or]
      exact ⟨not_mem_decimal (by decide) _, hm⟩
    have happ : u.authority ++ m ++ t =
        u.host ++ (':'.toUInt8 :: (decimal n.toNat ++ m) ++ t) := by
      rw [authority_port hport]
      simp only [List.append_assoc, List.cons_append]
    rw [happ] at hlen ⊢
    rw [hostPart_port u.host_ne hcolon hlen, ofInt_atoi_decimal n hdigit]
    · rfl
    · rw [authority_port hport] at hidx
      simp only [List.length_append, List.length_cons] at hidx ⊢
      omega

theorem hostPart_authority (u : Url) :
    hostPart u.assemble u.front.length (u.front.length + u.authority.length - 1) =
      some (u.port.getD 0, u.host) := by
  have hpos := u.regular.authority_ne
  have hidx : u.front.length + u.authority.length - 1 + 1 =
      u.front.length + (u.authority ++ []).length := by
    rw [List.append_nil]
    omega
  have hu : u.assemble = u.front ++ ((u.authority ++ []) ++ (u.pathText ++ u.queryText)) := by
    rw [List.append_nil]
    exact u.assemble_eq
  have h := hostPart_eq hu List.not_mem_nil (by intro c hc; cases hc) hidx
  rw [List.append_nil, ite_self] at h
  exact h

/-! ## The stages together -/

theorem recovered_iff_stages : u.Recovered ↔ ∃ idxQueries idxPath,
    rightPart u.assemble (rfind u.assemble '?'.toUInt8 (u.assemble.length - 1))
      (u.assemble.length - 1) = some (u.query.getD [], idxQueries) ∧
    rightPart u.assemble (find u.assemble '/'.toUInt8 u.front.length) idxQueries =
      some (u.path.getD [], idxPath) ∧
    hostPart u.assemble u.front.length idxPath = some (u.port.getD 0, u.host) := by
  rw [Recovered, urlToParts_eq_some, u.regular.protocolPart_eq]
  constructor
  · rintro ⟨idxLeft, idxQueries, idxPath, hp, hq, hpath, hh⟩
    cases hp
    exact ⟨idxQueries, idxPath, hq, hpath, hh⟩
  · rintro ⟨idxQueries, idxPath, hq, hpath, hh⟩
    exact ⟨_, idxQueries, idxPath, rfl, hq, hpath, hh⟩

/-- Other queries than those of the URL. -/
theorem not_recovered_of_queries
    (h : rightPart u.assemble (rfind u.assemble '?'.toUInt8 (u.assemble.length - 1))
      (u.assemble.length - 1) = some (x, idx)) (hx : x ≠ u.query.getD []) : ¬ u.Recovered := by
  rw [recovered_iff_stages]
  rintro ⟨idxQueries, idxPath, hq, -⟩
  rw [h] at hq
  cases hq
  exact hx rfl

/-- Once the queries are cut off where they begin, a path is found if there is one. -/
theorem recovered_of_queries
    (h : rightPart u.assemble (rfind u.assemble '?'.toUInt8 (u.assemble.length - 1))
      (u.assemble.length - 1) = some (u.query.getD [], idx))
    (hidx : idx + 1 = u.front.length + u.authority.length + u.pathText.length)
    (hslash : u.path = none → '/'.toUInt8 ∉ u.queryText) : u.Recovered := by
  have hpos := u.regular.authority_ne
  refine recovered_iff_stages.mpr
    ⟨idx, u.front.length + u.authority.length - 1, h, ?_, u.hostPart_authority⟩
  cases hp : u.path with
  | none =>
    rw [UrlText.pathText_none hp, List.length_nil] at hidx
    rw [u.regular.path_none hp (hslash hp),
      show idx = u.front.length + u.authority.length - 1 by omega]
    rfl
  | some p =>
    rw [UrlText.pathText_some hp, List.length_cons] at hidx
    rw [Option.getD_some]
    exact u.regular.path_some hp (by omega)

/-! ## The condition -/

theorem recovered_iff_noQuery (hq : u.query = none) :
    u.Recovered ↔ '?'.toUInt8 ∉ u.protocol := by
  have hlen := u.regular.lengths
  have hpos := u.regular.authority_ne
  constructor
  · intro hr hc
    obtain ⟨queries, idx, hne, -, hqueries⟩ := u.regular.queries_protocol hq hc
    refine not_recovered_of_queries hqueries ?_ hr
    rw [hq]
    exact hne
  · intro hp
    have hnone := u.regular.queries_none hq hp
    rw [UrlText.queryText_none hq, List.length_nil] at hlen
    have hidx : u.assemble.length - 1 + 1 =
        u.front.length + u.authority.length + u.pathText.length := by omega
    refine recovered_of_queries ?_ hidx fun _ => ?_
    · rw [hnone, hq]
      rfl
    · rw [UrlText.queryText_none hq]
      exact List.not_mem_nil

/-- A query with a question mark loses what stands in front of the last one. -/
theorem not_recovered_of_mem (hq : u.query = some q) (hc : '?'.toUInt8 ∈ q) : ¬ u.Recovered := by
  obtain ⟨a, m, rfl, hm⟩ := last_of_mem hc
  have hu : u.assemble = (u.front ++ (u.authority ++ (u.pathText ++ '?'.toUInt8 :: a))) ++
      '?'.toUInt8 :: m := by
    rw [UrlText.assemble_eq, UrlText.queryText_some hq]
    simp only [List.append_assoc, List.cons_append]
  refine not_recovered_of_queries (u.regular.queries_last hu hm) ?_
  intro he
  have := congrArg List.length he
  rw [hq, Option.getD_some, List.length_append, List.length_cons] at this
  omega

theorem queries_eq (hq : u.query = some q) (hc : '?'.toUInt8 ∉ q) :
    rightPart u.assemble (rfind u.assemble '?'.toUInt8 (u.assemble.length - 1))
      (u.assemble.length - 1) =
      some (q, (u.front ++ (u.authority ++ u.pathText)).length - 1) := by
  refine u.regular.queries_last ?_ hc
  rw [UrlText.assemble_eq, UrlText.queryText_some hq]
  simp only [List.append_assoc]

/-- A colon in the query is taken for the separator of the port. -/
theorem hostPart_colon {r t : Bytes}
    (hu : u.assemble = u.front ++ ((u.authority ++ '?'.toUInt8 :: r) ++ t))
    (hc : ':'.toUInt8 ∈ r)
    (hidx : idx + 1 = u.front.length + (u.authority ++ '?'.toUInt8 :: r).length) :
    ∃ port host, host ≠ u.host ∧
      hostPart u.assemble u.front.length idx = some (port, host) := by
  obtain ⟨r, m, rfl, hm⟩ := last_of_mem hc
  have hpos := u.regular.authority_ne
  have hlen := u.length_lt
  have happ : u.authority ++ '?'.toUInt8 :: (r ++ ':'.toUInt8 :: m) ++ t =
      (u.authority ++ '?'.toUInt8 :: r) ++ (':'.toUInt8 :: m ++ t) := by
    simp only [List.append_assoc, List.cons_append]
  rw [hu, happ] at hlen ⊢
  refine ⟨_, _, ?_, hostPart_port (by simp) hm hlen ?_⟩
  · intro he
    have := congrArg List.length he
    rw [UrlText.authority] at this
    simp only [List.length_append, List.length_cons] at this
    omega
  · simp only [List.length_append, List.length_cons] at hidx ⊢
    omega

/-- Without path, a slash in the query is harmless at its very end only. -/
theorem recovered_iff_slash (hq : u.query = some q) (hc : '?'.toUInt8 ∉ q) (hp : u.path = none)
    (hs : '/'.toUInt8 ∈ q) : u.Recovered ↔ u.SlashAtEnd q := by
  have hpos := u.regular.authority_ne
  obtain ⟨r, q', rfl, hr⟩ := List.eq_append_cons_of_mem hs
  have hqueries := queries_eq hq hc
  rw [UrlText.pathText_none hp, List.append_nil, List.length_append] at hqueries
  have hidx : u.front.length + u.authority.length - 1 + 1 =
      u.front.length + u.authority.length := by omega
  have hpath := u.regular.path_inQuery hp hq hr hidx
  have hend : u.SlashAtEnd (r ++ '/'.toUInt8 :: q') ↔
      u.port.isSome = true ∧ q' = [] ∧ ':'.toUInt8 ∉ r := by
    constructor
    · rintro ⟨hport, r', he, hr', hcolon⟩
      have := (List.append_cons_inj_of_notMem hr' (by simp)).mp he.symm
      exact ⟨hport, this.2.2.symm, this.1 ▸ hcolon⟩
    · rintro ⟨hport, rfl, hcolon⟩
      exact ⟨hport, r, rfl, hr, hcolon⟩
  have hstages : u.Recovered ↔ q' = [] ∧
      hostPart u.assemble u.front.length
          (u.front.length + (u.authority ++ '?'.toUInt8 :: r).length - 1) =
        some (u.port.getD 0, u.host) := by
    rw [recovered_iff_stages, hqueries, hq, hp]
    constructor
    · rintro ⟨idxQueries, idxPath, hq, hpath', hh⟩
      cases hq
      rw [hpath] at hpath'
      cases hpath'
      exact ⟨rfl, hh⟩
    · rintro ⟨rfl, hh⟩
      exact ⟨_, _, rfl, hpath, hh⟩
  rw [hstages, hend, and_left_comm]
  refine and_congr_right fun hq' => ?_
  subst hq'
  have hu : u.assemble = u.front ++ ((u.authority ++ '?'.toUInt8 :: r) ++ ['/'.toUInt8]) := by
    rw [UrlText.assemble_eq, UrlText.pathText_none hp, UrlText.queryText_some hq]
    simp only [List.nil_append, List.append_assoc, List.cons_append]
  have hidx' : u.front.length + (u.authority ++ '?'.toUInt8 :: r).length - 1 + 1 =
      u.front.length + (u.authority ++ '?'.toUInt8 :: r).length := by
    rw [List.length_append, List.length_cons]
    omega
  by_cases hcolon : ':'.toUInt8 ∈ r
  · obtain ⟨port, host, hne, hh⟩ := hostPart_colon hu hcolon hidx'
    rw [hh]
    refine iff_of_false (fun he => ?_) fun h => h.2 hcolon
    cases he
    exact hne rfl
  · have hmid : ':'.toUInt8 ∉ '?'.toUInt8 :: r := by
      rw [List.mem_cons, not_or]
      exact ⟨by decide, hcolon⟩
    rw [hostPart_eq hu hmid (by intro c hc; cases hc; decide) hidx']
    cases u.port with
    | none => simp
    | some n => simp [hcolon]

/-- `urlToParts` gives back the components of an assembled URL exactly if it is separable. -/
theorem recovered_iff (u : Url) : u.Recovered ↔ u.Separable := by
  unfold Separable
  cases hq : u.query with
  | none => exact recovered_iff_noQuery hq
  | some q =>
    dsimp only
    by_cases hc : '?'.toUInt8 ∈ q
    · exact iff_of_false (not_recovered_of_mem hq hc) (fun h => h.1 hc)
    by_cases hs : u.path = none ∧ '/'.toUInt8 ∈ q
    · rw [recovered_iff_slash hq hc hs.1 hs.2, hs.1]
      simp [hc, hs.2]
    · have hr : u.Recovered := by
        refine recovered_of_queries (by rw [queries_eq hq hc, hq]; rfl) ?_ fun hp => ?_
        · have := u.regular.authority_ne
          simp only [List.length_append]
          omega
        · rw [UrlText.queryText_some hq, List.mem_cons, not_or]
          exact ⟨by decide, fun h => hs ⟨hp, h⟩⟩
      refine iff_of_true hr ⟨hc, ?_⟩
      rcases hp : u.path with _ | p
      · exact .inr (.inl fun h => hs ⟨hp, h⟩)
      · exact .inl rfl

theorem https_ne : ['h', 't', 't', 'p', 's'].map Char.toUInt8 ≠ [] := by decide

theorem https_colon : ':'.toUInt8 ∉ ['h', 't', 't', 'p', 's'].map Char.toUInt8 := by decide

theorem noPort_ne : (none : Option UInt16) ≠ some 0 := by decide

theorem noPath_query : ∀ p ∈ (none : Option Bytes), '?'.toUInt8 ∉ p := by
  intro p hp
  cases hp

/-- `https://h?a/b` -/
def slashInQuery : Url where
  protocol := ['h', 't', 't', 'p', 's'].map Char.toUInt8
  host := ['h'].map Char.toUInt8
  port := none
  path := none
  query := some (['a', '/', 'b'].map Char.toUInt8)
  protocol_ne := https_ne
  protocol_colon := https_colon
  host_ne := by decide
  host_slash := by decide
  host_query := by decide
  host_colon := by decide
  port_ne := noPort_ne
  path_query := noPath_query
  length_lt := by decide

/-- The request goes to the host `h?a`. -/
theorem recovered_fails :
    urlToParts slashInQuery.assemble = some
      { protocol := ['h', 't', 't', 'p', 's'].map Char.toUInt8
        host := ['h', '?', 'a'].map Char.toUInt8
        port := 0
        path := ['b'].map Char.toUInt8
        queries := ['a', '/', 'b'].map Char.toUInt8 } ∧
    ¬ slashInQuery.Recovered := by
  have hparts : urlToParts slashInQuery.assemble = some
      { protocol := ['h', 't', 't', 'p', 's'].map Char.toUInt8
        host := ['h', '?', 'a'].map Char.toUInt8
        port := 0
        path := ['b'].map Char.toUInt8
        queries := ['a', '/', 'b'].map Char.toUInt8 } := by decide +kernel
  refine ⟨hparts, ?_⟩
  rw [Recovered, hparts]
  decide

end Url
end LibDspc
end ProcessingCommon

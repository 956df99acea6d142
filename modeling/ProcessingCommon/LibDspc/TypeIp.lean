import ProcessingCommon.LibDspc.Url

/-!
# Addresses as hosts (`typeIp` and `urlToParts` of `LibDspc.cpp`)

`HttpRequesting` skips the name resolution if the host of its URL is an address. An IPv6 address
stands in brackets there. `typeIp` takes the first and the last character away without looking at
the last one, and has the address stored where there is room for an IPv4 address only; and
`urlToParts` takes the last colon of the brackets for the separator of the port.
-/

namespace ProcessingCommon
namespace LibDspc

open BasicString CString

def isHexDigit (c : UInt8) : Bool :=
  isDigit c || (decide ('a'.toUInt8 ≤ c) && decide (c ≤ 'f'.toUInt8)) ||
    (decide ('A'.toUInt8 ≤ c) && decide (c ≤ 'F'.toUInt8))

/-- `inet_pton` of the C library: which C strings are addresses of the two families. Numbers and
delimiters of the dotted and of the colon form are documented. -/
structure InetPton where
  ip4 : Bytes → Bool
  ip6 : Bytes → Bool
  ip4_chars : ∀ s, ip4 s = true → ∀ c ∈ s, isDigit c = true ∨ c = '.'.toUInt8
  ip6_chars : ∀ s, ip6 s = true → ∀ c ∈ s,
    isHexDigit c = true ∨ c = '.'.toUInt8 ∨ c = ':'.toUInt8
  ip6_colon : ∀ s, ip6 s = true → ':'.toUInt8 ∈ s

/-- `AF_UNSPEC`, `AF_INET` and `AF_INET6`. -/
inductive AddrFamily
  | unspec
  | inet
  | inet6
deriving DecidableEq

variable (o : InetPton)

/-- What `inet_pton` returns for an address of `len` bytes and a destination of `lenDst` bytes. An
accepted address is stored; `none` is a store behind the end of the destination, of which nothing is
known. -/
def inetPton (accepted : Bool) (len lenDst : Nat) : Option Bool :=
  if !accepted then some false
  else if len ≤ lenDst then some true
  else none

/-- `sizeof(struct in_addr)` -/
def sizeInAddr : Nat := 4

/-- `sizeof(struct in6_addr)` -/
def sizeIn6Addr : Nat := 16

def isValidIp4 (ip : Bytes) : Option Bool := inetPton (o.ip4 (cStr 0 ip)) sizeInAddr sizeInAddr

/-- `addr6` is a `struct in_addr`, too. -/
def isValidIp6 (ip : Bytes) : Option Bool := inetPton (o.ip6 (cStr 0 ip)) sizeIn6Addr sizeInAddr

/-- What `typeIp` checks: the string without its first and last character, if it begins with a
bracket and something is left. -/
def ipCheck (ip : Bytes) : Bytes :=
  -- the position is inside of the string
  let ipCopy := if ip.length > 1 ∧ ip.getD 0 0 = '['.toUInt8 then
    (substr ip 1 (ip.length - 2)).getD [] else []
  if ipCopy.length ≠ 0 then ipCopy else ip

/-- `none` if the store of an address leaves its destination -/
def typeIp (ip : Bytes) : Option AddrFamily := do
  if ← isValidIp4 o ip then
    return .inet
  if ← isValidIp6 o (ipCheck ip) then
    return .inet6
  return .unspec

/-- A result that may be seen: any one after a store that left its destination. -/
def MayReturn (r : Option AddrFamily) (a : AddrFamily) : Prop := ∀ b ∈ r, b = a

/-- An address as it stands in a URL. -/
def bracketed (address : Bytes) : Bytes := '['.toUInt8 :: (address ++ [']'.toUInt8])

variable {o} {s ip : Bytes} {c : UInt8}

/-! ## Addresses -/

/-- What is no digit of an IPv6 address. -/
theorem InetPton.not_mem_ip6 (h : o.ip6 s = true) (hc : isHexDigit c = false)
    (hdot : c ≠ '.'.toUInt8) (hcolon : c ≠ ':'.toUInt8) : c ∉ s := by
  intro hm
  rcases o.ip6_chars s h c hm with hx | hx | hx
  · rw [hx] at hc
    cases hc
  · exact hdot hx
  · exact hcolon hx

theorem InetPton.ip6_nul (h : o.ip6 s = true) : 0 ∉ s :=
  o.not_mem_ip6 h (by decide) (by decide) (by decide)

/-- No string is an address of both families. -/
theorem InetPton.ip4_false (hc : c ∈ s) (hd : isDigit c = false) (hdot : c ≠ '.'.toUInt8) :
    o.ip4 s = false := by
  cases h : o.ip4 s with
  | false => rfl
  | true =>
    rcases o.ip4_chars s h c hc with hx | hx
    · rw [hx] at hd
      cases hd
    · exact absurd hx hdot

/-! ## `typeIp` -/

theorem substr_bracket (m : Bytes) :
    substr ('['.toUInt8 :: (m ++ [c])) 1 (('['.toUInt8 :: (m ++ [c])).length - 2) = some m :=
  substr_append (a := ['['.toUInt8]) rfl (by simp)

theorem ipCheck_bracket {m : Bytes} (hm : m ≠ []) : ipCheck ('['.toUInt8 :: (m ++ [c])) = m := by
  have hpos := List.length_pos_of_ne_nil hm
  have hopen : ('['.toUInt8 :: (m ++ [c])).length > 1 ∧
      ('['.toUInt8 :: (m ++ [c])).getD 0 0 = '['.toUInt8 := by
    refine ⟨?_, rfl⟩
    rw [List.length_cons, List.length_append]
    omega
  unfold ipCheck
  rw [if_pos hopen, substr_bracket, Option.getD_some]
  exact if_pos (by omega)

theorem ipCheck_of_head {d : UInt8} (hd : d ≠ '['.toUInt8) (rest : Bytes) :
    ipCheck (d :: rest) = d :: rest := by
  have hcopy : ¬ ((d :: rest).length > 1 ∧ (d :: rest).getD 0 0 = '['.toUInt8) :=
    fun h => hd h.2
  unfold ipCheck
  rw [if_neg hcopy]
  rfl

/-- Brackets are taken off, or the string is checked as it is. -/
theorem ipCheck_cases (ip : Bytes) :
    (∃ m c, ip = '['.toUInt8 :: (m ++ [c]) ∧ ipCheck ip = m) ∨ ipCheck ip = ip := by
  cases ip with
  | nil => exact .inr rfl
  | cons d rest =>
    by_cases hd : d = '['.toUInt8
    · subst hd
      rcases List.eq_nil_or_concat' rest with rfl | ⟨m, c, rfl⟩
      · exact .inr rfl
      · by_cases hm : m = []
        · subst hm
          exact .inr rfl
        · exact .inl ⟨m, c, rfl, ipCheck_bracket hm⟩
    · exact .inr (ipCheck_of_head hd rest)

theorem isValidIp4_eq (o : InetPton) (ip : Bytes) : isValidIp4 o ip = some (o.ip4 (cStr 0 ip)) := by
  unfold isValidIp4 inetPton
  cases o.ip4 (cStr 0 ip) <;> rfl

/-- There is no room for an IPv6 address. -/
theorem isValidIp6_eq (o : InetPton) (ip : Bytes) :
    isValidIp6 o ip = if o.ip6 (cStr 0 ip) then none else some false := by
  unfold isValidIp6 inetPton
  cases o.ip6 (cStr 0 ip) <;> rfl

/-- So `AF_INET6` is never returned: what `inet_pton` accepts does not fit. -/
theorem typeIp_eq (o : InetPton) (ip : Bytes) : typeIp o ip =
    if o.ip4 (cStr 0 ip) then some .inet
    else if o.ip6 (cStr 0 (ipCheck ip)) then none
    else some .unspec := by
  unfold typeIp
  rw [isValidIp4_eq, isValidIp6_eq]
  cases o.ip4 (cStr 0 ip) with
  | true => rfl
  | false => cases o.ip6 (cStr 0 (ipCheck ip)) <;> rfl

theorem typeIp_ne_inet6 (o : InetPton) (ip : Bytes) : typeIp o ip ≠ some .inet6 := by
  rw [typeIp_eq]
  split
  · simp
  · split <;> simp

theorem mayReturn_inet6 : MayReturn (typeIp o ip) .inet6 ↔
    o.ip4 (cStr 0 ip) = false ∧ o.ip6 (cStr 0 (ipCheck ip)) = true := by
  rw [typeIp_eq, MayReturn]
  cases o.ip4 (cStr 0 ip) with
  | true => simp
  | false => cases o.ip6 (cStr 0 (ipCheck ip)) <;> simp

/-- What begins with a bracket is no IPv4 address. -/
theorem ip4_bracket (m : Bytes) : o.ip4 (cStr 0 ('['.toUInt8 :: m)) = false := by
  refine o.ip4_false (c := '['.toUInt8) ?_ (by decide) (by decide)
  rw [cStr, List.takeWhile_cons_of_pos (by decide)]
  exact List.mem_cons_self

/-- The store of a bracketed address leaves its destination. -/
theorem typeIp_bracketed (h : o.ip6 s = true) : typeIp o (bracketed s) = none := by
  have hne : s ≠ [] := List.ne_nil_of_mem (o.ip6_colon s h)
  rw [typeIp_eq, bracketed, ipCheck_bracket hne, ip4_bracket, cStr_eq_self (o.ip6_nul h), h]
  rfl

/-- An IPv6 address, alone or in brackets. -/
def IsIp6 (o : InetPton) (ip : Bytes) : Prop :=
  o.ip6 ip = true ∨ ∃ s, o.ip6 s = true ∧ ip = bracketed s

/-- Behind an address stand neither a terminator nor, in place of the closing bracket, some other
character. -/
structure Closed (o : InetPton) (ip : Bytes) : Prop where
  nul : ∀ s t, ip = s ++ 0 :: t → o.ip6 s = false
  bracket : ∀ m c, ip = '['.toUInt8 :: (m ++ [c]) → o.ip6 (cStr 0 m) = true →
    c = ']'.toUInt8 ∧ 0 ∉ m

theorem IsIp6.closed (h : MayReturn (typeIp o ip) .inet6 → IsIp6 o ip) : Closed o ip where
  nul s t hip := by
    cases h6 : o.ip6 s with
    | false => rfl
    | true =>
      subst hip
      have hbracket : '['.toUInt8 ∉ s := o.not_mem_ip6 h6 (by decide) (by decide) (by decide)
      have hcolon := o.ip6_colon s h6
      obtain ⟨d, s, rfl⟩ := List.exists_cons_of_ne_nil (List.ne_nil_of_mem hcolon)
      have hcut := cStr_append (t := t) (o.ip6_nul h6)
      have hd : d ≠ '['.toUInt8 := by
        rintro rfl
        exact hbracket List.mem_cons_self
      have htype : MayReturn (typeIp o (d :: s ++ 0 :: t)) .inet6 := by
        rw [mayReturn_inet6, List.cons_append, ipCheck_of_head hd, ← List.cons_append, hcut]
        exact ⟨o.ip4_false hcolon (by decide) (by decide), h6⟩
      rcases h htype with h6' | ⟨L, -, he⟩
      · exact absurd (List.mem_append_right _ List.mem_cons_self) (o.ip6_nul h6')
      · rw [bracketed, List.cons_append, List.cons.injEq] at he
        exact absurd he.1 hd
  bracket m c hip h6 := by
    subst hip
    have hm : m ≠ [] := by
      rintro rfl
      exact absurd (o.ip6_colon _ h6) List.not_mem_nil
    have htype : MayReturn (typeIp o ('['.toUInt8 :: (m ++ [c]))) .inet6 := by
      rw [mayReturn_inet6, ipCheck_bracket hm]
      exact ⟨ip4_bracket _, h6⟩
    rcases h htype with h6' | ⟨s, hs, he⟩
    · exact absurd List.mem_cons_self (o.not_mem_ip6 h6' (by decide) (by decide) (by decide))
    · rw [bracketed, List.cons.injEq, List.append_singleton_inj] at he
      obtain ⟨-, rfl, rfl⟩ := he
      exact ⟨rfl, o.ip6_nul hs⟩

theorem Closed.isIp6 (h : Closed o ip) (ht : MayReturn (typeIp o ip) .inet6) : IsIp6 o ip := by
  have h6 := (mayReturn_inet6.mp ht).2
  rcases ipCheck_cases ip with ⟨m, c, hip, hcheck⟩ | hcheck
  · rw [hcheck] at h6
    obtain ⟨rfl, hnul⟩ := h.bracket m c hip h6
    rw [cStr_eq_self hnul] at h6
    exact .inr ⟨m, h6, hip⟩
  · rw [hcheck] at h6
    by_cases hnul : 0 ∈ ip
    · obtain ⟨s, t, hip, hs⟩ := List.eq_append_cons_of_mem hnul
      rw [hip, cStr_append hs, h.nul s t hip] at h6
      cases h6
    · rw [cStr_eq_self hnul] at h6
      exact .inl h6

theorem isIp6_iff : (MayReturn (typeIp o ip) .inet6 → IsIp6 o ip) ↔ Closed o ip :=
  ⟨IsIp6.closed, Closed.isIp6⟩

/-! ## Bracketed hosts -/

/-- The components of a URL with an IPv6 address as host. -/
structure Ip6Url (o : InetPton) where
  protocol : Bytes
  address : Bytes
  port : Option UInt16
  path : Option Bytes
  protocol_ne : protocol ≠ []
  protocol_colon : ':'.toUInt8 ∉ protocol
  address_ip6 : o.ip6 address = true
  port_ne : port ≠ some 0
  path_query : ∀ p ∈ path, '?'.toUInt8 ∉ p
  length_lt : ({ protocol, host := bracketed address, port, path, query := none } :
    UrlText).assemble.length < 2 ^ 63

namespace Ip6Url

def text (u : Ip6Url o) : UrlText :=
  { protocol := u.protocol
    host := bracketed u.address
    port := u.port
    path := u.path
    query := none }

/-- The URL gives address and port. -/
def Parted (u : Ip6Url o) : Prop :=
  ∃ r, urlToParts u.text.assemble = some r ∧ r.host = bracketed u.address ∧
    r.port = u.port.getD 0

/-- The URL gives address and port, and the host is known to be an address. -/
def Resolved (u : Ip6Url o) : Prop :=
  ∃ r, urlToParts u.text.assemble = some r ∧ r.host = bracketed u.address ∧
    r.port = u.port.getD 0 ∧ typeIp o r.host = some .inet6

/-- There is a port, so the last colon is its separator. A question mark in the protocol of a URL
without path ends the search for it before the authority, so there must be no port then. -/
def Separable (u : Ip6Url o) : Prop :=
  if '?'.toUInt8 ∈ u.protocol ∧ u.path = none then u.port = none else u.port.isSome = true

variable {u : Ip6Url o} {idx : Nat}

theorem not_mem_host (u : Ip6Url o) (hc : isHexDigit c = false) (hdot : c ≠ '.'.toUInt8)
    (hcolon : c ≠ ':'.toUInt8) (hopen : c ≠ '['.toUInt8) (hclose : c ≠ ']'.toUInt8) :
    c ∉ bracketed u.address := by
  rw [bracketed, List.mem_cons, List.mem_append, List.mem_singleton, not_or, not_or]
  exact ⟨hopen, o.not_mem_ip6 u.address_ip6 hc hdot hcolon, hclose⟩

theorem regular (u : Ip6Url o) : u.text.Regular where
  protocol_colon := u.protocol_colon
  host_ne := List.cons_ne_nil _ _
  host_slash := u.not_mem_host (by decide) (by decide) (by decide) (by decide) (by decide)
  host_query := u.not_mem_host (by decide) (by decide) (by decide) (by decide) (by decide)
  path_query := u.path_query
  length_lt := u.length_lt

theorem authority_noPort (h : u.port = none) : u.text.authority = bracketed u.address := by
  rw [UrlText.authority, UrlText.portText, show u.text.port = none from h]
  exact List.append_nil _

theorem authority_port {n : UInt16} (h : u.port = some n) :
    u.text.authority = bracketed u.address ++ ':'.toUInt8 :: decimal n.toNat := by
  rw [UrlText.authority, UrlText.portText, show u.text.port = some n from h]
  rfl

/-- The last colon of an authority without port stands in the brackets. -/
theorem hostPart_inBrackets (hport : u.port = none) :
    ∃ port host, host ≠ bracketed u.address ∧
      hostPart u.text.assemble u.text.front.length
        (u.text.front.length + u.text.authority.length - 1) = some (port, host) := by
  have hlen := u.length_lt
  obtain ⟨s, m, haddr, hm⟩ := last_of_mem (o.ip6_colon _ u.address_ip6)
  have happ : u.text.authority ++ (u.text.pathText ++ u.text.queryText) =
      ('['.toUInt8 :: s) ++ (':'.toUInt8 :: (m ++ [']'.toUInt8]) ++
        (u.text.pathText ++ u.text.queryText)) := by
    rw [authority_noPort hport, bracketed, haddr]
    simp only [List.append_assoc, List.cons_append]
  have hcolon : ':'.toUInt8 ∉ m ++ [']'.toUInt8] := by
    rw [List.mem_append, not_or]
    exact ⟨hm, by decide⟩
  have hauth : u.text.authority.length = s.length + m.length + 3 := by
    rw [authority_noPort hport, bracketed, haddr]
    simp only [List.length_append, List.length_cons, List.length_nil]
    omega
  have hassemble := u.text.assemble_eq
  rw [happ] at hassemble
  have hlen' : (u.text.front ++ (('['.toUInt8 :: s) ++ (':'.toUInt8 :: (m ++ [']'.toUInt8]) ++
      (u.text.pathText ++ u.text.queryText)))).length < 2 ^ 63 := by
    rw [← hassemble]
    exact u.regular.length_lt
  rw [hassemble]
  refine ⟨_, _, ?_, hostPart_port (List.cons_ne_nil _ _) hcolon hlen' ?_⟩
  · intro he
    have := congrArg List.length he
    rw [bracketed, haddr] at this
    simp only [List.length_append, List.length_cons] at this
    omega
  · rw [hauth]
    simp only [List.length_append, List.length_cons, List.length_nil]
    omega

/-- Between the two positions, bracketed host and port are told apart if there is a port. -/
theorem hostPart_iff (u : Ip6Url o) :
    hostPart u.text.assemble u.text.front.length
        (u.text.front.length + u.text.authority.length - 1) =
      some (u.port.getD 0, bracketed u.address) ↔ u.port.isSome = true := by
  cases hport : u.port with
  | none =>
    obtain ⟨port, host, hne, hh⟩ := hostPart_inBrackets hport
    rw [hh]
    refine iff_of_false (fun he => ?_) Bool.false_ne_true
    cases he
    exact hne rfl
  | some n =>
    refine iff_of_true ?_ rfl
    have hne : bracketed u.address ≠ [] := List.cons_ne_nil _ _
    have hlen := u.regular.length_lt
    have hcolon : ':'.toUInt8 ∉ decimal n.toNat := not_mem_decimal (by decide) _
    have happ : u.text.authority ++ (u.text.pathText ++ u.text.queryText) =
        bracketed u.address ++ (':'.toUInt8 :: decimal n.toNat ++
          (u.text.pathText ++ u.text.queryText)) := by
      rw [authority_port hport, List.append_assoc]
    have hatoi := ofInt_atoi_decimal n (t := []) (by intro c hc; cases hc)
    rw [List.append_nil] at hatoi
    rw [UrlText.assemble_eq, happ] at hlen ⊢
    rw [hostPart_port hne hcolon hlen, hatoi]
    · rfl
    · rw [authority_port hport, List.length_append, List.length_cons]
      omega

/-- Left of the authority all of it is the host. -/
theorem hostPart_rest_iff (hpath : u.path = none) (hidx : idx + 1 < u.text.front.length) :
    hostPart u.text.assemble u.text.front.length idx =
      some (u.port.getD 0, bracketed u.address) ↔ u.port = none := by
  have hlen := u.regular.length_lt
  rw [UrlText.assemble_eq, UrlText.pathText_none hpath, UrlText.queryText_none rfl,
    List.append_nil, List.append_nil] at hlen ⊢
  rw [hostPart_rest hlen hidx]
  cases hport : u.port with
  | none =>
    rw [authority_noPort hport]
    exact iff_of_true rfl rfl
  | some n =>
    refine iff_of_false (fun he => ?_) (by simp)
    rw [authority_port hport, Option.some.injEq, Prod.mk.injEq] at he
    have := congrArg List.length he.2
    rw [List.length_append, List.length_cons] at this
    omega

/-! ## The stages together -/

theorem parted_iff_stages : u.Parted ↔ ∃ queries idxQueries path idxPath,
    rightPart u.text.assemble (rfind u.text.assemble '?'.toUInt8 (u.text.assemble.length - 1))
      (u.text.assemble.length - 1) = some (queries, idxQueries) ∧
    rightPart u.text.assemble (find u.text.assemble '/'.toUInt8 u.text.front.length) idxQueries =
      some (path, idxPath) ∧
    hostPart u.text.assemble u.text.front.length idxPath =
      some (u.port.getD 0, bracketed u.address) := by
  have hprotocol := u.regular.protocolPart_eq
  constructor
  · rintro ⟨r, hr, hhost, hport⟩
    obtain ⟨idxLeft, idxQueries, idxPath, hp, hq, hpath, hh⟩ := urlToParts_eq_some.mp hr
    rw [hprotocol, Option.some.injEq, Prod.mk.injEq] at hp
    rw [← hp.2] at hpath hh
    rw [hhost, hport] at hh
    exact ⟨_, idxQueries, _, idxPath, hq, hpath, hh⟩
  · rintro ⟨queries, idxQueries, path, idxPath, hq, hpath, hh⟩
    exact ⟨⟨u.protocol, _, _, path, queries⟩,
      urlToParts_eq_some.mpr ⟨_, idxQueries, idxPath, hprotocol, hq, hpath, hh⟩, rfl, rfl⟩

/-- Where the right position stands after queries and path. -/
theorem stages (u : Ip6Url o) : ∃ queries idxQueries path idxPath,
    rightPart u.text.assemble (rfind u.text.assemble '?'.toUInt8 (u.text.assemble.length - 1))
      (u.text.assemble.length - 1) = some (queries, idxQueries) ∧
    rightPart u.text.assemble (find u.text.assemble '/'.toUInt8 u.text.front.length) idxQueries =
      some (path, idxPath) ∧
    if '?'.toUInt8 ∈ u.protocol ∧ u.path = none then idxPath + 1 < u.text.front.length
    else idxPath = u.text.front.length + u.text.authority.length - 1 := by
  have hlen := u.regular.lengths
  have hpos := u.regular.authority_ne
  rw [UrlText.queryText_none rfl, List.length_nil] at hlen
  have hslash : '/'.toUInt8 ∉ u.text.queryText := List.not_mem_nil
  by_cases hc : '?'.toUInt8 ∈ u.protocol
  · -- the queries begin in the protocol
    obtain ⟨queries, idx, -, hidx, hqueries⟩ := u.regular.queries_protocol rfl hc
    cases hpath : u.path with
    | none =>
      refine ⟨_, _, _, _, hqueries, u.regular.path_none hpath hslash, ?_⟩
      rw [if_pos ⟨hc, rfl⟩]
      exact hidx
    | some p =>
      refine ⟨_, _, _, _, hqueries, u.regular.path_rest hpath (by omega), ?_⟩
      rw [if_neg (by simp)]
  · have hqueries := u.regular.queries_none rfl hc
    refine ⟨_, _, (u.path.getD []), u.text.front.length + u.text.authority.length - 1, hqueries,
      ?_, by rw [if_neg fun h => hc h.1]⟩
    cases hpath : u.path with
    | none =>
      rw [UrlText.pathText_none hpath, List.length_nil] at hlen
      rw [u.regular.path_none hpath hslash, hlen.1]
      rfl
    | some p =>
      rw [UrlText.pathText_some hpath, List.length_cons] at hlen
      rw [Option.getD_some]
      exact u.regular.path_some hpath (by omega)

theorem parted_iff (u : Ip6Url o) : u.Parted ↔ u.Separable := by
  obtain ⟨queries, idxQueries, path, idxPath, hq, hpath, hidx⟩ := u.stages
  have hhost : u.Parted ↔ hostPart u.text.assemble u.text.front.length idxPath =
      some (u.port.getD 0, bracketed u.address) := by
    rw [parted_iff_stages]
    constructor
    · rintro ⟨_, _, _, _, hq', hpath', hh⟩
      rw [hq] at hq'
      cases hq'
      rw [hpath] at hpath'
      cases hpath'
      exact hh
    · intro hh
      exact ⟨_, _, _, _, hq, hpath, hh⟩
  rw [hhost]
  unfold Separable
  split at hidx
  · next hc =>
    rw [if_pos hc]
    exact hostPart_rest_iff hc.2 hidx
  · next hc =>
    rw [if_neg hc, hidx]
    exact u.hostPart_iff

end Ip6Url

/-- No bracketed address is found to be one: the store of `inet_pton` leaves its destination before
`typeIp` can say so. `urlToParts` alone gives address and port exactly in separable URLs. And
`AF_INET6` can be the result, as any other one after such a store, of other strings than addresses:
it cannot exactly for those that end with the address or its bracket. -/
theorem bracketedIp6 (o : InetPton) :
    (∀ u : Ip6Url o, ¬ u.Resolved ∧ typeIp o (bracketed u.address) = none ∧
      (u.Parted ↔ u.Separable)) ∧
    ∀ ip, typeIp o ip ≠ some .inet6 ∧
      ((MayReturn (typeIp o ip) .inet6 → IsIp6 o ip) ↔ Closed o ip) := by
  refine ⟨fun u => ⟨?_, typeIp_bracketed u.address_ip6, u.parted_iff⟩,
    fun ip => ⟨typeIp_ne_inet6 o ip, isIp6_iff⟩⟩
  rintro ⟨r, -, -, -, htype⟩
  exact typeIp_ne_inet6 o r.host htype

/-- The two loopback addresses. -/
def loopback : InetPton where
  ip4 s := s == ['1', '2', '7', '.', '0', '.', '0', '.', '1'].map Char.toUInt8
  ip6 s := s == [':', ':', '1'].map Char.toUInt8
  ip4_chars s h := by
    rw [beq_iff_eq] at h
    subst h
    decide +kernel
  ip6_chars s h := by
    rw [beq_iff_eq] at h
    subst h
    decide +kernel
  ip6_colon s h := by
    rw [beq_iff_eq] at h
    subst h
    decide +kernel

/-- `https://[::1]` -/
def noPort : Ip6Url loopback where
  protocol := ['h', 't', 't', 'p', 's'].map Char.toUInt8
  address := [':', ':', '1'].map Char.toUInt8
  port := none
  path := none
  protocol_ne := by decide
  protocol_colon := by decide
  address_ip6 := by decide
  port_ne := by decide
  path_query := by
    intro p hp
    cases hp
  length_lt := by decide

/-- `https://[::1]:80` -/
def withPort : Ip6Url loopback where
  protocol := noPort.protocol
  address := noPort.address
  port := some 80
  path := none
  protocol_ne := noPort.protocol_ne
  protocol_colon := noPort.protocol_colon
  address_ip6 := noPort.address_ip6
  port_ne := by decide
  path_query := noPort.path_query
  length_lt := by decide

/-- The host of `https://[::1]` is `[:` and the port 1. The host of `https://[::1]:80` is `[::1]`, but
nothing is known of the result of `typeIp` for it, nor of that for `[::1x`. -/
theorem bracketedIp6_fails :
    urlToParts noPort.text.assemble = some
        { protocol := ['h', 't', 't', 'p', 's'].map Char.toUInt8
          host := ['[', ':'].map Char.toUInt8
          port := 1
          path := []
          queries := [] } ∧
      ¬ noPort.Resolved ∧
      urlToParts withPort.text.assemble = some
        { protocol := ['h', 't', 't', 'p', 's'].map Char.toUInt8
          host := ['[', ':', ':', '1', ']'].map Char.toUInt8
          port := 80
          path := []
          queries := [] } ∧
      typeIp loopback (['[', ':', ':', '1', ']'].map Char.toUInt8) = none ∧
      ¬ withPort.Resolved ∧
      MayReturn (typeIp loopback (['[', ':', ':', '1', 'x'].map Char.toUInt8)) .inet6 ∧
      ¬ IsIp6 loopback (['[', ':', ':', '1', 'x'].map Char.toUInt8) := by
  have hresolved : ∀ u : Ip6Url loopback, ¬ u.Resolved := by
    rintro u ⟨r, -, -, -, htype⟩
    exact typeIp_ne_inet6 loopback r.host htype
  refine ⟨by decide +kernel, hresolved noPort, by decide +kernel, by decide, hresolved withPort,
    mayReturn_inet6.mpr (by decide), ?_⟩
  rintro (h | ⟨s, h, he⟩)
  · exact absurd h (by decide)
  · rw [show s = [':', ':', '1'].map Char.toUInt8 from beq_iff_eq.mp h] at he
    exact absurd he (by decide)

end LibDspc
end ProcessingCommon

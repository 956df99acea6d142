import ProcessingCommon.HttpRequesting.Runs
import ProcessingCommon.LibDspc.TypeIp

/-!
# Every handle and every list is given back once

Where all TLS versions are known and libcurl takes handles out of the multi handle and knows whom they
belong to, the ledger is in order, and what a destroyed request has taken it has given back. An
unknown TLS version has its handle cleaned up twice.
-/

namespace ProcessingCommon

namespace HttpRequesting

open Ledger (Event Disciplined heldAfter)
open Program (Exec)
open Transition (Reachable)

variable {ok : (c : Call) → Answer c → Prop} {okTick : HttpRequesting → Prop} {i : Nat} {w w' : Curl}

/-- Nothing is given twice. -/
def Once (w : Curl) : Prop := ∀ a, w.trace.count (.acquire a) ≤ 1

theorem Once.note (h : Once w) {e : Event Resource} (he : ∀ a, e = .acquire a → e ∉ w.trace) :
    Once (w.note e) := by
  intro a
  rw [Curl.note, List.count_append]
  by_cases hea : e = .acquire a
  · have hzero : w.trace.count e = 0 := List.count_eq_zero.mpr (he a hea)
    exact Nat.le_of_eq (by rw [← hea, hzero, List.count_singleton_self])
  · rw [List.count_singleton, if_neg (by simpa using hea)]
    exact h a

theorem Once.use (h : Once w) (p : Option Resource) : Once (w.use p) := by
  cases p with
  | none => exact h
  | some a => exact h.note fun b hb => nomatch hb

theorem Once.setopt (h : Once w) (p : Option Resource) (opt : CurlOpt) : Once (w.setopt p opt) := by
  cases opt with
  | httpHeader l => exact (h.use p).use (some l)
  | resolve l => exact (h.use p).use (some l)
  | _ => exact h.use p

theorem curl_once {c : Call} {r : Answer c} (he : curl i w c r w') (h : Once w) : Once w' := by
  cases c with
  | easyInit =>
    cases r with
    | none => exact he ▸ h
    | some a => exact he.2 ▸ h.note fun _ _ => he.1.2.2.1
  | easySetopt p opt =>
    cases r with
    | false => exact he ▸ h.use _
    | true => exact he ▸ h.setopt _ _
  | easyCleanup p =>
    cases p with
    | none => exact he ▸ h
    | some a => exact he ▸ h.note fun b hb => nomatch hb
  | getinfoPrivate a => exact he.2 ▸ h.use (some _)
  | getinfoResponseCode a => exact he.2 ▸ h.use (some _)
  | multiAddHandle p =>
    cases p <;> cases r
    · exact he ▸ h
    · exact he.elim
    · exact he ▸ h.use (some _)
    · exact he ▸ h.use (some _)
  | multiRemoveHandle p =>
    cases p <;> cases r
    · exact he ▸ h
    · exact he ▸ h
    · exact he ▸ h.use (some _)
    · exact he ▸ h.use (some _)
  | multiPerform =>
    obtain ⟨new, -, rfl⟩ := he
    exact h
  | multiInfoRead =>
    cases r with
    | none => exact he.2 ▸ h
    | some m =>
      obtain ⟨rest, -, rfl⟩ := he
      exact h
  | slistAppend p str =>
    cases p <;> cases r
    · exact he ▸ h
    · exact he.2 ▸ h.note fun _ _ => he.1.2.2.1
    · exact he ▸ h.use (some _)
    · exact he.2 ▸ h.use (some _)
  | slistFreeAll l => exact he ▸ h.note fun b hb => nomatch hb
  | _ => exact he ▸ h

theorem reachable_once {s : System} (hs : Reachable Start (Step okTick ok) s) : Once s.curl := by
  have hexec : ∀ {α : Type} {i : Nat} {p : Http α} {rs rs' : Requests} {w w' : Curl} {a : α},
      Exec (env ok i) p rs w a rs' w' → Once w → Once w' := fun he =>
    he.keeps fun _ _ _ _ hcall => curl_once hcall.2
  refine hs.invariant (P := fun s => Once s.curl) ?_ fun s a t h hstep => ?_
  · rintro s ⟨-, hcurl, -⟩ a
    rw [hcurl]
    exact Nat.zero_le 1
  · cases hstep with
    | construct _ he => exact hexec he h
    | configure _ => exact h
    | tick _ _ he => exact hexec he h
    | shutdown _ he => exact hexec he h
    | destruct _ he => exact hexec he h

/-- In every run nothing is used after it was given back or given back twice, no handle
is cleaned up in the multi handle, and everything that a destroyed request has taken was
given back exactly once. -/
theorem handles_released {s : System} (hs : Reachable Start (Step TlsKnown (Obeyed False)) s) :
    Disciplined [] s.curl.trace ∧ s.curl.cleanedAttached = [] ∧
      ∀ a, .acquire a ∈ s.curl.trace →
        s.curl.trace.count (.acquire a) = 1 ∧ s.curl.trace.count (.release a) ≤ 1 ∧
        (s.phase a.owner = .gone → s.curl.trace.count (.release a) = 1) := by
  have hok : s.Ok False := reachable_ok hs
  have hacc := hok.2
  refine ⟨hacc.books.disciplined, hacc.clean, fun a ha => ?_⟩
  have honce : s.curl.trace.count (.acquire a) = 1 :=
    Nat.le_antisymm (reachable_once hs a) (List.count_pos_iff.mpr ha)
  have hcount := hacc.books.disciplined.count a
  rw [List.count_nil, honce, Nat.zero_add] at hcount
  refine ⟨honce, hcount ▸ Nat.le_add_left .., fun hgone => ?_⟩
  -- a destroyed request holds nothing
  have hfree : a ∉ heldAfter [] s.curl.trace := by
    intro hheld
    obtain ⟨⟨i, m⟩, hm⟩ := (hacc.books.held a).mp hheld
    have hr := hok.1.req i
    rw [hr.owned m a hm] at hgone
    have hdown := hr.down (by rw [hgone]; decide)
    cases m with
    | mpCurl => exact nomatch (hr.gone hgone).symm.trans hm
    | mpListHeader => exact nomatch hdown.2.1.symm.trans hm
    | mpListResolv => exact nomatch hdown.2.2.symm.trans hm
  rw [List.count_eq_zero.mpr hfree, Nat.zero_add] at hcount
  exact hcount.symm

/-! ## Requests to the own machine -/

/-- The handle and the list of request `i`, each at the one address for its kind. -/
def easy (i : Nat) : Resource := ⟨.easy, i, 0, 0⟩

def slist (i : Nat) : Resource := ⟨.slist, i, 0, 1⟩

/-- A libcurl with one address for handles and one for lists, which completes what is attached. All
requests are to `http://127.0.0.1`. -/
def oneHandle (removed : Bool) (i : Nat) (w : Curl) : (c : Call) → Answer c × Curl
  | .easyInit =>
    if w.New .easy i (easy i) then (some (easy i), w.note (.acquire (easy i))) else (none, w)
  | .easySetopt p opt => (true, w.setopt (p.map w.target) (opt.map w.target))
  | .easyCleanup none => ((), w)
  | .easyCleanup (some a) => ((), w.cleanup (w.target a))
  | .getinfoPrivate a => ((true, (w.priv (w.target a)).getD 0), w.use (some (w.target a)))
  | .getinfoResponseCode a => (some 200, w.use (some (w.target a)))
  | .multiInit => (true, w)
  | .multiAddHandle none => (false, w)
  | .multiAddHandle (some a) => (true, (w.use (some (w.target a))).attach (w.target a))
  | .multiRemoveHandle none => (removed, w)
  | .multiRemoveHandle (some a) =>
    (removed, if removed then (w.use (some (w.target a))).detach (w.target a)
      else w.use (some (w.target a)))
  | .multiPerform =>
    ((), { w with
      msgs := w.msgs ++ if w.attached (w.target (easy 0)) then
        [⟨.done, w.target (easy 0), CURLE_OK, 200⟩] else [] })
  | .multiInfoRead =>
    match w.msgs with
    | [] => (none, w)
    | m :: rest => (some m, { w with
        msgs := rest
        consumed := if m.msg = .done then w.consumed ++ [m] else w.consumed })
  | .slistAppend none _ =>
    if w.New .slist i (slist i) then (some (slist i), w.note (.acquire (slist i)))
    else (none, w)
  | .slistAppend (some l) _ => (some l, w.use (some (w.target l)))
  | .slistFreeAll l => ((), w.note (.release (w.target l)))
  | .curlGlobalInit => ((), w)
  | .urlToParts _ => (⟨"http", "127.0.0.1", 0, "", ""⟩, w)
  | .typeIp _ => (.inet, w)
  | .resolvStart _ => (false, w)
  | .resolvSuccess => ((.negative, []), w)
  | .resolvRepel => ((), w)

/-- `urlToParts` and `typeIp` give these answers. -/
example (o : LibDspc.InetPton) (h : o.ip4 ("127.0.0.1".toList.map Char.toUInt8) = true) :
    LibDspc.urlToParts ("http://127.0.0.1".toList.map Char.toUInt8) =
        some ⟨"http".toList.map Char.toUInt8, "127.0.0.1".toList.map Char.toUInt8, 0, [], []⟩ ∧
      LibDspc.typeIp o ("127.0.0.1".toList.map Char.toUInt8) = some .inet := by
  refine ⟨by decide +kernel, ?_⟩
  rw [LibDspc.typeIp_eq, BasicString.cStr_eq_self (by decide +kernel), if_pos h]

/-- Every response has code 200. -/
def Code200 (w : Curl) : Prop := ∀ m ∈ w.msgs ++ w.consumed, m.respCode = 200

theorem Code200.use {w : Curl} (h : Code200 w) (p : Option Resource) : Code200 (w.use p) := by
  cases p <;> exact h

theorem curl_oneHandle (removed : Bool) (i : Nat) (w : Curl) (c : Call) (h : Code200 w) :
    curl i w c (oneHandle removed i w c).1 (oneHandle removed i w c).2 ∧
      Code200 (oneHandle removed i w c).2 := by
  cases c with
  | easyInit =>
    rw [oneHandle]
    split
    · next hnew => exact ⟨⟨hnew, rfl⟩, h⟩
    · exact ⟨rfl, h⟩
  | easySetopt p opt =>
    refine ⟨rfl, ?_⟩
    cases opt with
    | httpHeader l => exact (h.use _).use (some _)
    | resolve l => exact (h.use _).use (some _)
    | _ => exact h.use (p.map w.target)
  | easyCleanup p => cases p <;> exact ⟨rfl, h⟩
  | getinfoPrivate a =>
    exact ⟨⟨fun _ j hj => by rw [oneHandle, hj, Option.getD_some], rfl⟩, h⟩
  | getinfoResponseCode a =>
    refine ⟨⟨fun code hcode m hm _ => ?_, rfl⟩, h⟩
    exact (Option.some.inj hcode).symm.trans (h m (List.mem_append_right _ hm)).symm
  | multiAddHandle p => cases p <;> exact ⟨rfl, h⟩
  | multiRemoveHandle p =>
    cases p with
    | none => cases removed <;> exact ⟨rfl, h⟩
    | some a =>
      cases removed with
      | false => exact ⟨rfl, h⟩
      | true =>
        refine ⟨rfl, fun m hm => h m ?_⟩
        rcases List.mem_append.mp hm with hm | hm
        · exact List.mem_append_left _ (List.mem_filter.mp hm).1
        · exact List.mem_append_right _ hm
  | multiPerform =>
    refine ⟨⟨_, fun m hm => ?_, rfl⟩, fun m hm => ?_⟩
    · split at hm
      · next hatt =>
        rw [List.mem_singleton.mp hm]
        exact hatt
      · cases hm
    · rcases List.mem_append.mp hm with hm | hm
      · rcases List.mem_append.mp hm with hm | hm
        · exact h m (List.mem_append_left _ hm)
        · split at hm
          · rw [List.mem_singleton.mp hm]
          · cases hm
      · exact h m (List.mem_append_right _ hm)
  | multiInfoRead =>
    rw [oneHandle]
    split
    · next hmsgs => exact ⟨⟨hmsgs, rfl⟩, h⟩
    · next m rest hmsgs =>
      refine ⟨⟨rest, hmsgs, rfl⟩, fun m' hm' => h m' ?_⟩
      rw [hmsgs]
      rcases List.mem_append.mp hm' with hm' | hm'
      · exact List.mem_append_left _ (List.mem_cons_of_mem _ hm')
      · split at hm'
        · rcases List.mem_append.mp hm' with hm' | hm'
          · exact List.mem_append_right _ hm'
          · rw [List.mem_singleton.mp hm']
            exact List.mem_append_left _ List.mem_cons_self
        · exact List.mem_append_right _ hm'
  | slistAppend p str =>
    cases p with
    | none =>
      rw [oneHandle]
      split
      · next hnew => exact ⟨⟨hnew, rfl⟩, h⟩
      · exact ⟨rfl, h⟩
    | some l => exact ⟨⟨rfl, rfl⟩, h⟩
  | _ => exact ⟨rfl, h⟩

theorem obeyed_oneHandle (coded : Prop) (i : Nat) (w : Curl) (c : Call) :
    Obeyed coded c (oneHandle true i w c).1 := by
  cases c with
  | multiRemoveHandle p => cases p <;> rfl
  | easySetopt p opt => cases opt <;> first | rfl | trivial
  | getinfoPrivate a => rfl
  | getinfoResponseCode a => exact fun _ => rfl
  | _ => trivial

/-- A run in which `oneHandle` has answered. -/
structure Played (okTick : HttpRequesting → Prop) (ok : (c : Call) → Answer c → Prop)
    (s : System) : Prop where
  reach : Reachable Start (Step okTick ok) s
  code : Code200 s.curl

namespace Played

variable {s : System} {removed : Bool}

theorem start : Played okTick ok
    ⟨⟨false, fun _ => {}⟩, ⟨[], fun _ => false, fun _ => none, [], [], []⟩, fun _ => .unborn⟩ :=
  ⟨.start ⟨rfl, rfl, rfl⟩, fun _ hm => by cases hm⟩

theorem exec (h : Played okTick ok s) (hok : ∀ i w c, ok c (oneHandle removed i w c).1) {α : Type}
    (i : Nat) (p : Http α) :
    Exec (env ok i) p s.requests s.curl (p.run (oneHandle removed i) s.requests s.curl).1
      (p.run (oneHandle removed i) s.requests s.curl).2.1
      (p.run (oneHandle removed i) s.requests s.curl).2.2 ∧
    Code200 (p.run (oneHandle removed i) s.requests s.curl).2.2 :=
  Program.exec_run_on (fun w c hw => ⟨⟨hok i w c, (curl_oneHandle removed i w c hw).1⟩,
    (curl_oneHandle removed i w c hw).2⟩) p s.requests h.code

theorem construct (h : Played okTick ok s) (hok : ∀ i w c, ok c (oneHandle removed i w c).1)
    (i : Nat) (hph : s.phase i = .unborn) :
    Played okTick ok
      ⟨((HttpRequesting.construct i (some "http://127.0.0.1")).run (oneHandle removed i)
          s.requests s.curl).2.1,
        ((HttpRequesting.construct i (some "http://127.0.0.1")).run (oneHandle removed i)
          s.requests s.curl).2.2,
        Function.update s.phase i .running⟩ :=
  have he := h.exec hok i (HttpRequesting.construct i (some "http://127.0.0.1"))
  ⟨h.reach.next (.construct hph he.1), he.2⟩

theorem configure (h : Played okTick ok s) (i : Nat) (c : Setting) (hph : s.phase i = .running) :
    Played okTick ok ⟨s.requests.update i fun r => r.apply c, s.curl, s.phase⟩ :=
  ⟨h.reach.next (.configure hph), h.code⟩

theorem tick (h : Played okTick ok s) (hok : ∀ i w c, ok c (oneHandle removed i w c).1)
    (n i : Nat) (hph : s.phase i = .running) (htick : okTick (s.requests.req i)) :
    Played okTick ok
      ⟨((process n i).run (oneHandle removed i) s.requests s.curl).2.1,
        ((process n i).run (oneHandle removed i) s.requests s.curl).2.2, s.phase⟩ :=
  have he := h.exec hok i (process n i)
  ⟨h.reach.next (.tick hph htick he.1), he.2⟩

theorem shutdown (h : Played okTick ok s) (hok : ∀ i w c, ok c (oneHandle removed i w c).1)
    (i : Nat) (hph : s.phase i = .running) :
    Played okTick ok
      ⟨((HttpRequesting.shutdown i).run (oneHandle removed i) s.requests s.curl).2.1,
        ((HttpRequesting.shutdown i).run (oneHandle removed i) s.requests s.curl).2.2,
        Function.update s.phase i .down⟩ :=
  have he := h.exec hok i (HttpRequesting.shutdown i)
  ⟨h.reach.next (.shutdown (.inl hph) he.1), he.2⟩

theorem destruct (h : Played okTick ok s) (hok : ∀ i w c, ok c (oneHandle removed i w c).1)
    (i : Nat) (hph : s.phase i = .down) :
    Played okTick ok
      ⟨((HttpRequesting.destruct i).run (oneHandle removed i) s.requests s.curl).2.1,
        ((HttpRequesting.destruct i).run (oneHandle removed i) s.requests s.curl).2.2,
        Function.update s.phase i .gone⟩ :=
  have he := h.exec hok i (HttpRequesting.destruct i)
  ⟨h.reach.next (.destruct hph he.1), he.2⟩

end Played

/-- A request with a header runs to its end. -/
theorem handles_released_completed : ∃ s, Reachable Start (Step TlsKnown (Obeyed False)) s ∧
    s.phase 0 = .gone ∧ s.curl.consumed = [⟨.done, easy 0, CURLE_OK, 200⟩] ∧
    s.curl.trace.count (.release (easy 0)) = 1 ∧
    s.curl.trace.count (.release (slist 0)) = 1 := by
  have hok := obeyed_oneHandle False
  have h₀ : Played TlsKnown (Obeyed False) _ := .start
  have h₁ := h₀.construct hok 0 rfl
  have h₂ := h₁.configure 0 (.hdrAdd "a: b") rfl
  have h₃ := h₂.tick hok 2 0 rfl fun _ => .inl rfl
  have h₄ := h₃.tick hok 2 0 rfl fun _ => .inl rfl
  have h₅ := h₄.tick hok 2 0 rfl fun _ => .inl rfl
  have h₆ := h₅.tick hok 2 0 rfl fun _ => .inl rfl
  have h₇ := h₆.tick hok 2 0 rfl fun _ => .inl rfl
  have h₈ := h₇.shutdown hok 0 rfl
  have h₉ := h₈.destruct hok 0 rfl
  have hrel := (handles_released h₉.reach).2.2
  refine ⟨_, h₉.reach, rfl, rfl, (hrel (easy 0) ?_).2.2 rfl, (hrel (slist 0) ?_).2.2 rfl⟩
  · decide
  · decide

/-- Any answer will do. -/
def AnyAnswer (c : Call) (_ : Answer c) : Prop := True

/-- The error path for an unknown TLS version cleans the handle up and leaves its pointer, which
the destructor cleans up again. And a handle that cannot be taken out of the multi handle
is cleaned up there. -/
theorem handles_released_fails :
    (∃ s, Reachable Start (Step (fun _ => True) (Obeyed False)) s ∧ s.phase 0 = .gone ∧
      s.curl.trace.count (.release (easy 0)) = 2 ∧ ¬Disciplined [] s.curl.trace) ∧
    ∃ s, Reachable Start (Step TlsKnown AnyAnswer) s ∧ s.phase 0 = .gone ∧
      s.curl.cleanedAttached = [easy 0] := by
  constructor
  · have hok := obeyed_oneHandle False
    have h₀ : Played (fun _ => True) (Obeyed False) _ := .start
    have h₁ := h₀.construct hok 0 rfl
    have h₂ := h₁.configure 0 (.versionTlsSet "foo") rfl
    have h₃ := h₂.tick hok 0 0 rfl trivial
    have h₄ := h₃.tick hok 0 0 rfl trivial
    have h₅ := h₄.tick hok 0 0 rfl trivial
    have h₆ := h₅.shutdown hok 0 rfl
    have h₇ := h₆.destruct hok 0 rfl
    exact ⟨_, h₇.reach, rfl, by decide, fun hd => absurd (hd.count (easy 0)) (by decide)⟩
  · have hok : ∀ i w c, AnyAnswer c (oneHandle false i w c).1 := fun _ _ _ => trivial
    have h₀ : Played TlsKnown AnyAnswer _ := .start
    have h₁ := h₀.construct hok 0 rfl
    have h₂ := h₁.tick hok 0 0 rfl fun _ => .inl rfl
    have h₃ := h₂.tick hok 0 0 rfl fun _ => .inl rfl
    have h₄ := h₃.tick hok 0 0 rfl fun _ => .inl rfl
    have h₅ := h₄.tick hok 0 0 rfl fun _ => .inl rfl
    have h₆ := h₅.shutdown hok 0 rfl
    have h₇ := h₆.destruct hok 0 rfl
    exact ⟨_, h₇.reach, rfl, rfl⟩

end HttpRequesting

end ProcessingCommon

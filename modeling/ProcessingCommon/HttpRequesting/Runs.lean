import ProcessingCommon.HttpRequesting.Invariant

/-!
# What the runs of the requests keep

The completions that a tick takes from the queue, the tick itself, and with the other steps the
invariant of every run.
-/

namespace ProcessingCommon

namespace HttpRequesting

open Ledger (Event Books)
open Program (Exec wp rounds wp_mono wp_seq)
open Transition (Reachable)

variable {coded : Prop} {old : System} {rs : Requests} {w w' : Curl}
  {i j : Nat} {r r' : HttpRequesting} {f : HttpRequesting → HttpRequesting}

/-! ## Messages -/

/-- Only running requests have messages, and only of their own handles. -/
theorem Base.running (h : Base coded old rs w) {m : CURLMsg} (hm : m ∈ w.msgs) :
    old.phase m.easyHandle.owner = .running ∧
      old.handle m.easyHandle.owner = some m.easyHandle := by
  have hr := h.req m.easyHandle.owner
  obtain ⟨hbound, hcurl, -⟩ := hr.attached _ rfl (h.msgs m hm)
  constructor
  · by_contra hne
    exact nomatch (hr.down hne).1.symm.trans hbound
  · rcases hr.handle with hh | hh
    · exact hh.symm.trans hcurl
    · exact nomatch hh.symm.trans hcurl

/-- The handle of a request is still attached: no completion of it was taken. -/
theorem ReqOk.first {r : HttpRequesting} (h : ReqOk coded old i r w) {a : Resource}
    (hcurl : r.mpCurl = some a) : own i w.consumed = [] := by
  have ho := h.outcome
  match hms : own i w.consumed with
  | [] => rfl
  | [_] =>
    rw [hms] at ho
    exact nomatch ho.2.2.2.symm.trans hcurl
  | _ :: _ :: _ =>
    rw [hms] at ho
    exact ho.elim

/-- The request of a completion, which gives up its handle and its lists. -/
theorem ReqOk.completed {r : HttpRequesting} {m : CURLMsg} {code : Nat}
    (h : ReqOk coded old m.easyHandle.owner r w) (hcode : coded → code = m.respCode)
    (hrun : old.phase m.easyHandle.owner = .running) (ha : w.attached m.easyHandle = true)
    (hatt : w'.attached = Function.update w.attached m.easyHandle false)
    (hcons : w'.consumed = w.consumed ++ [m]) :
    ReqOk coded old m.easyHandle.owner { r with
      mCurlRes := m.result, mRespCode := code, mCurlBound := false
      mpListHeader := none, mpListResolv := none, mpCurl := none, mDoneCurl := .positive } w' where
  unborn := fun hu => nomatch hrun.symm.trans hu
  owned := fun m b hb => by cases m <;> cases hb
  down := fun hd => absurd hrun hd
  gone := fun _ => rfl
  handle := .inr rfl
  named := fun _ b hb => nomatch hb
  attached := fun b hb hb' => by
    rw [hatt] at hb'
    have hne : b ≠ m.easyHandle := by
      rintro rfl
      rw [Function.update_self] at hb'
      cases hb'
    rw [Function.update_of_ne hne] at hb'
    have hcurl := (h.attached m.easyHandle rfl ha).2.1
    exact absurd (Option.some.inj ((h.attached b hb hb').2.1.symm.trans hcurl)) hne
  outcome := by
    have hone : own m.easyHandle.owner w'.consumed = [m] := by
      rw [hcons, own, List.filter_append]
      change own _ w.consumed ++ _ = _
      rw [h.first (h.attached m.easyHandle rfl ha).2.1, List.filter_cons_of_pos (by simp)]
      rfl
    rw [hone]
    exact ⟨rfl, rfl, hcode, rfl⟩

/-- The request of a completion gets its result. -/
theorem Base.completed (h : Base coded old rs w) {m : CURLMsg} {rest : List CURLMsg} {code : Nat}
    (hmsgs : w.msgs = m :: rest) (hcode : coded → code = m.respCode)
    (hatt : w'.attached = Function.update w.attached m.easyHandle false)
    (hpriv : w'.priv = w.priv)
    (hmsgs' : w'.msgs = rest.filter fun m' => m'.easyHandle ≠ m.easyHandle)
    (hcons : w'.consumed = w.consumed ++ [m]) :
    Base coded old (rs.update m.easyHandle.owner fun r => { r with
      mCurlRes := m.result, mRespCode := code, mCurlBound := false
      mpListHeader := none, mpListResolv := none, mpCurl := none, mDoneCurl := .positive }) w' := by
  have hmem : m ∈ w.msgs := hmsgs ▸ List.mem_cons_self
  have ha := h.msgs m hmem
  refine h.change ⟨fun b hb => ?_, fun b _ => by rw [hpriv], fun j hj => ?_⟩ (fun hr => ?_)
    (fun m' hm' => ?_) ?_
  · rw [hatt, Function.update_of_ne (by rintro rfl; exact hb rfl)]
  · rw [hcons, own, List.filter_append, List.filter_cons_of_neg (by simpa using Ne.symm hj)]
    exact List.append_nil _
  · exact hr.completed hcode (h.running hmem).1 ha hatt hcons
  · rw [hmsgs'] at hm'
    obtain ⟨hm', hne⟩ := List.mem_filter.mp hm'
    rw [hatt, Function.update_of_ne (of_decide_eq_true hne)]
    exact h.msgs m' (hmsgs ▸ List.mem_cons_of_mem _ hm')
  · obtain ⟨ms, hms, hrun⟩ := h.grown
    refine ⟨ms ++ [m], by rw [hcons, hms, List.append_assoc], fun m' hm' => ?_⟩
    rcases List.mem_append.mp hm' with hm' | hm'
    · exact hrun m' hm'
    · rw [List.mem_singleton.mp hm']
      exact h.running hmem

theorem curl_easyCleanup {k : Nat} {p : Option Resource} {a : Resource} {r : Unit}
    (hp : p = some a) (htarget : w.target a = a) (he : curl k w (.easyCleanup p) r w') :
    w' = w.cleanup a := by
  subst hp
  exact htarget ▸ he

theorem Inv.complete (h : Inv coded old rs w) {m : CURLMsg} {rest : List CURLMsg}
    (hmsgs : w.msgs = m :: rest) (k : Nat) :
    wp (env (Obeyed coded) k) (complete m) (fun _ => Inv coded old) rs
      { w with msgs := rest, consumed := w.consumed ++ [m] } := by
  have ha := h.1.msgs m (hmsgs ▸ List.mem_cons_self)
  obtain ⟨-, hcurl, hpriv⟩ := (h.1.req m.easyHandle.owner).attached m.easyHandle rfl ha
  have hk : slot rs (m.easyHandle.owner, .mpCurl) = some m.easyHandle := hcurl
  have hacc : Accounts rs { w with msgs := rest, consumed := w.consumed ++ [m] } := h.2.congr rfl rfl
  simp only [HttpRequesting.complete, Program.wp_bind, Program.wp_perform, wp_assign]
  rintro ⟨given, i⟩ w₁ ⟨hgiven, hi, rfl⟩ code w₂ ⟨hcoded, hcode, rfl⟩ removed w₃ ⟨rfl, rfl⟩
  -- the handle of the message is still the one of its request in all three calls
  rw [hacc.target hk] at hi hcode ⊢
  have hacc₁ := hacc.use hk
  simp only [Curl.use] at hacc₁ hcode ⊢
  rw [hacc₁.target hk] at hcode ⊢
  have hacc₂ := hacc₁.use hk
  rw [hacc₂.target hk]
  obtain rfl : i = m.easyHandle.owner := hi hgiven _ hpriv
  have hresp : coded → code.getD (rs.req m.easyHandle.owner).mRespCode = m.respCode := fun hc => by
    obtain ⟨c, rfl⟩ := Option.isSome_iff_exists.mp (hcoded hc)
    exact hcode c rfl m (List.mem_append_right _ List.mem_cons_self) rfl
  rw [update_update, update_update]
  have hacc₃ := hacc₂.use hk
  refine wp_mono (curlListFree_spec k _ _ _ _) ?_
  rintro _ _ _ ⟨rfl, ⟨t₁, rfl⟩, hb₁⟩
  refine wp_seq (curlListFree_spec k _ _ _ _) ?_
  rintro _ _ _ ⟨rfl, ⟨t₂, rfl⟩, hb₂⟩
  have hacc₅ := hb₂ (hb₁ ((hacc₃.kept fun m => by cases m <;> rfl).congr rfl rfl))
  rw [Program.wp_bind, wp_this, Program.wp_bind, Program.wp_perform]
  rintro _ w' ⟨-, he⟩
  rw [update_update, update_update] at he hacc₅ ⊢
  rw [update_req_self] at he
  have hslot : ∀ f, (f (rs.req m.easyHandle.owner)).mpCurl = some m.easyHandle →
      slot (rs.update m.easyHandle.owner f) (m.easyHandle.owner, .mpCurl) = some m.easyHandle :=
    fun f hf => by
      rw [slot, update_req_self]
      exact hf
  obtain rfl := curl_easyCleanup hcurl (hacc₅.target (hslot _ hcurl)) he
  rw [Program.wp_bind, wp_assign, wp_assign]
  refine ⟨?_, ?_⟩
  · rw [update_update, update_update]
    exact h.1.completed hmsgs hresp rfl rfl rfl rfl
  · refine Accounts.kept ?_ fun m => by cases m <;> rfl
    change Accounts (Requests.update _ _ fun r => r.setMember .mpCurl none) _
    exact hacc₅.cleanup (hslot _ hcurl) (Function.update_self ..) (slot_setMember ..)

theorem Inv.messageRound (h : Inv coded old rs w) (k : Nat) (u : Unit) :
    wp (env (Obeyed coded) k) (messageRound u) (fun _ => Inv coded old) rs w := by
  rw [HttpRequesting.messageRound, Program.wp_bind, Program.wp_perform]
  rintro r w' ⟨-, he⟩
  match r with
  | none =>
    obtain ⟨-, rfl⟩ := he
    exact h
  | some m =>
    obtain ⟨rest, hmsgs, rfl⟩ := he
    simp only [Program.wp_ite, Program.wp_pure]
    split
    · have hrest : ∀ m' ∈ rest, w.attached m'.easyHandle = true := fun m' hm' =>
        h.1.msgs m' (hmsgs ▸ List.mem_cons_of_mem _ hm')
      exact ⟨⟨fun j => { h.1.req j with }, hrest, h.1.grown⟩, h.2.congr rfl rfl⟩
    · next hdone =>
      rw [if_pos (not_not.mp hdone)]
      exact wp_seq (h.complete hmsgs k) fun _ _ _ h' => h'

theorem Inv.multiProcess (h : Inv coded old rs w) (k n : Nat) :
    wp (env (Obeyed coded) k) (multiProcess n) (fun _ => Inv coded old) rs w := by
  rw [HttpRequesting.multiProcess, Program.wp_bind, Program.wp_perform]
  rintro _ w' ⟨-, new, hnew, rfl⟩
  refine Program.wp_rounds_inv (fun u _ _ h => h.messageRound k u) n () ?_
  refine ⟨⟨fun j => { h.1.req j with }, fun m hm => ?_, h.1.grown⟩, h.2.congr rfl rfl⟩
  rcases List.mem_append.mp hm with hm | hm
  · exact h.1.msgs m hm
  · exact hnew m hm

theorem complete_msgs (k : Nat) (m : CURLMsg) (rs : Requests) (w : Curl) :
    wp (env (Obeyed coded) k) (complete m) (fun _ _ w' => w'.msgs.length ≤ w.msgs.length) rs w := by
  have huse : ∀ (v : Curl) (p : Option Resource), (v.use p).msgs = v.msgs := fun v p => by
    cases p <;> rfl
  simp only [HttpRequesting.complete, Program.wp_bind, Program.wp_perform, wp_assign]
  rintro ⟨given, i⟩ w₁ ⟨-, -, rfl⟩ code w₂ ⟨-, -, rfl⟩ removed w₃ ⟨rfl, rfl⟩
  refine wp_mono (curlListFree_spec k _ _ _ _) ?_
  rintro _ _ _ ⟨-, ⟨t₁, rfl⟩, -⟩
  refine wp_seq (curlListFree_spec k _ _ _ _) ?_
  rintro _ rs₂ _ ⟨-, ⟨t₂, rfl⟩, -⟩
  rw [Program.wp_bind, wp_this, Program.wp_bind, Program.wp_perform]
  rintro _ w' ⟨-, he⟩
  have hle : w'.msgs.length ≤ w.msgs.length := by
    cases hp : (rs₂.req i).mpCurl with
    | none =>
      rw [hp] at he
      exact he ▸ List.length_filter_le ..
    | some a =>
      rw [hp] at he
      exact he ▸ List.length_filter_le ..
  exact hle

/-- With more rounds than messages the loop reads all of them. -/
theorem rounds_drained (k : Nat) {n : Nat} (hn : w.msgs.length < n) :
    wp (env (Obeyed coded) k) (rounds HttpRequesting.messageRound (fun _ => return) n ())
      (fun _ _ w' => w'.msgs = []) rs w := by
  refine Program.wp_rounds (fun n _ _ w => w.msgs.length < n) ?_ ?_ hn
  · intro n u rs w hw
    rw [HttpRequesting.messageRound, Program.wp_bind, Program.wp_perform]
    rintro r w' ⟨-, he⟩
    match r with
    | none =>
      obtain ⟨hmsgs, rfl⟩ := he
      exact hmsgs
    | some m =>
      obtain ⟨rest, hmsgs, rfl⟩ := he
      rw [hmsgs, List.length_cons] at hw
      simp only [Program.wp_ite, Program.wp_pure]
      split
      · exact Nat.lt_of_succ_lt_succ hw
      · exact wp_seq (complete_msgs k m rs _) fun _ _ _ hle =>
          Nat.lt_of_le_of_lt hle (Nat.lt_of_succ_lt_succ hw)
  · exact fun _ _ w hw => absurd hw (Nat.not_lt_zero _)

/-! ## The other functions -/

theorem Inv.easyHandleCurlUnbind (h : Inv coded old rs w) (hph : old.phase i ≠ .unborn) :
    wp (env (Obeyed coded) i) (easyHandleCurlUnbind i) (fun _ rs' w' => Inv coded old rs' w' ∧
      (rs'.req i).mCurlBound = false) rs w := by
  rw [HttpRequesting.easyHandleCurlUnbind, Program.wp_bind, wp_this, Program.wp_ite]
  split
  · next hbound => exact ⟨h, by simpa using hbound⟩
  · rw [Program.wp_bind, wp_this, Program.wp_bind, Program.wp_perform]
    rintro r w' ⟨hr, he⟩
    obtain rfl : r = true := hr
    rw [wp_assign, update_req_self]
    refine ⟨h.detach hph ?_, rfl⟩
    cases hp : (rs.req i).mpCurl with
    | none =>
      rw [hp] at he
      exact he
    | some a =>
      rw [hp] at he
      change w' = (w.use (some (w.target a))).detach (w.target a) at he
      rwa [h.2.target (k := (i, .mpCurl)) hp] at he

theorem Inv.shutdown (h : Inv coded old rs w) (hph : old.phase i ≠ .unborn) :
    wp (env (Obeyed coded) i) (shutdown i) (fun _ rs' w' => Inv coded old rs' w' ∧
      Down (rs'.req i)) rs w := by
  rw [HttpRequesting.shutdown]
  refine wp_seq (h.easyHandleCurlUnbind hph) ?_
  rintro _ rs₁ w₁ ⟨h₁, hbound⟩
  refine wp_seq (h₁.curlListFree (by decide) i i) ?_
  rintro _ _ w₂ ⟨rfl, h₂⟩
  refine wp_seq (h₂.curlListFree (by decide) i i) ?_
  rintro _ _ w₃ ⟨rfl, h₃⟩
  refine ⟨h₃, ?_⟩
  rw [update_update, update_req_self]
  exact ⟨hbound, rfl, rfl⟩

theorem Inv.destruct (h : Inv coded old rs w) (hph : old.phase i = .down) :
    wp (env (Obeyed coded) i) (destruct i) (fun _ rs' w' => Inv coded old rs' w' ∧
      (rs'.req i).mpCurl = none) rs w := by
  rw [HttpRequesting.destruct, Program.wp_bind, wp_this, Program.wp_ite]
  split
  · next hnone => exact ⟨h, hnone⟩
  next hsome =>
  obtain ⟨a, ha⟩ := Option.ne_none_iff_exists'.mp hsome
  rw [Program.wp_bind, wp_this, Program.wp_bind, Program.wp_perform]
  rintro _ w' ⟨-, he⟩
  have hk : slot rs (i, .mpCurl) = some a := ha
  obtain rfl := curl_easyCleanup ha (h.2.target hk) he
  have hr := h.1.req i
  have hdown := hr.down (by rw [hph]; decide)
  have hfree : ∀ b, b.owner = i → w.attached b = false := fun b hb =>
    Bool.eq_false_iff.mpr fun hatt => nomatch hdown.1.symm.trans (hr.attached b hb hatt).1
  rw [wp_assign, update_req_self]
  refine ⟨⟨?_, h.2.cleanup hk (hfree a (hr.owned .mpCurl a ha)) ?_⟩, rfl⟩
  · refine h.1.change ⟨fun _ _ => rfl, fun _ _ => rfl, fun _ _ => rfl⟩ (fun hr => ?_) h.1.msgs
      h.1.grown
    exact { hr with
      unborn := fun hu => nomatch hph.symm.trans hu
      owned := fun m b hb => by
        cases m with
        | mpCurl => cases hb
        | mpListHeader => exact hr.owned .mpListHeader b hb
        | mpListResolv => exact hr.owned .mpListResolv b hb
      gone := fun _ => rfl
      named := fun _ b hb => nomatch hb
      attached := fun b hb hatt => nomatch (hfree b hb).symm.trans hatt
      outcome := hr.outcome.congr (fun _ => rfl) rfl rfl rfl
      handle := .inr rfl }
  · exact slot_setMember rs i .mpCurl none

/-! ## The tick -/

theorem Inv.goto (h : Inv coded old rs w) (hph : old.phase i ≠ .unborn) (st : ProcState)
    (hn : st = .stEasyBind → Named i (rs.req i) w) (k : Nat) :
    wp (env (Obeyed coded) k) (goto i st) (fun _ => Inv coded old) rs w := by
  rw [HttpRequesting.goto, Program.wp_bind, wp_assign]
  exact h.kept hph ⟨fun m => by cases m <;> rfl, rfl, rfl, rfl, rfl⟩ hn

theorem Inv.goto_other (h : Inv coded old rs w) (hph : old.phase i ≠ .unborn) {st : ProcState}
    (hst : st ≠ .stEasyBind) (k : Nat) :
    wp (env (Obeyed coded) k) (HttpRequesting.goto i st) (fun _ => Inv coded old) rs w :=
  h.goto hph st (fun he => absurd he hst) k

theorem Inv.urlSplit (h : Inv coded old rs w) (hph : old.phase i ≠ .unborn)
    (hst : (rs.req i).mState = .stStart) :
    wp (env (Obeyed coded) i) (urlSplit i) (fun _ => Inv coded old) rs w := by
  rw [HttpRequesting.urlSplit, Program.wp_bind, wp_this, Program.wp_ite]
  split
  · exact h
  rw [Program.wp_ite]
  split
  · exact h
  simp only [Program.wp_bind, Program.wp_perform, wp_assign]
  rintro _ _ ⟨-, rfl⟩ parts _ ⟨-, rfl⟩ typeNameHost _ ⟨-, rfl⟩
  rw [Program.wp_ite]
  have hbind : (rs.req i).mState ≠ .stEasyBind := by rw [hst]; decide
  split
  all_goals
    refine Inv.goto_other ?_ hph (by decide) i
    exact h.kept hph ⟨fun m => by cases m <;> rfl, rfl, rfl, rfl, rfl⟩ fun h => absurd h hbind

theorem Inv.dnsResolvStart (h : Inv coded old rs w) (hph : old.phase i ≠ .unborn) :
    wp (env (Obeyed coded) i) (dnsResolvStart i) (fun _ => Inv coded old) rs w := by
  simp only [HttpRequesting.dnsResolvStart, Program.wp_bind, wp_this, Program.wp_perform]
  rintro started _ ⟨-, rfl⟩
  rw [Program.wp_ite]
  split
  · exact h
  · exact h.goto_other hph (by decide) i

theorem Inv.dnsResolvDoneWait (h : Inv coded old rs w) (hph : old.phase i ≠ .unborn) :
    wp (env (Obeyed coded) i) (dnsResolvDoneWait i) (fun _ => Inv coded old) rs w := by
  have hrepel : ∀ {rs}, Inv coded old rs w → wp (env (Obeyed coded) i) (do
      perform .resolvRepel
      HttpRequesting.goto i .stUrlReAsm) (fun _ => Inv coded old) rs w := by
    intro rs h
    rw [Program.wp_bind, Program.wp_perform]
    rintro _ _ ⟨-, rfl⟩
    exact h.goto_other hph (by decide) i
  rw [HttpRequesting.dnsResolvDoneWait, Program.wp_bind, Program.wp_perform]
  rintro ⟨success, lstAddr⟩ _ ⟨-, rfl⟩
  rw [Program.wp_ite]
  split
  · exact h
  rw [Program.wp_ite]
  split
  · rw [Program.wp_bind, wp_assign]
    refine hrepel (h.kept hph ⟨fun m => by cases m <;> rfl, rfl, rfl, rfl, rfl⟩ ?_)
    exact fun hst => (h.1.req i).named hst
  · exact hrepel h

theorem Inv.process (h : Inv coded old rs w) (hph : old.phase i = .running)
    (htls : TlsKnown (rs.req i)) (n : Nat) :
    wp (env (Obeyed coded) i) (process n i) (fun _ => Inv coded old) rs w := by
  have hborn : old.phase i ≠ .unborn := by rw [hph]; decide
  rw [HttpRequesting.process, Program.wp_bind, wp_this]
  split
  · next hst => exact h.urlSplit hborn hst
  · exact h.dnsResolvStart hborn
  · exact h.dnsResolvDoneWait hborn
  · rw [Program.wp_bind, wp_assign]
    refine Inv.goto_other ?_ hborn (by decide) i
    exact h.kept hborn ⟨fun m => by cases m <;> rfl, rfl, rfl, rfl, rfl⟩ (h.1.req i).named
  · next hst =>
    refine wp_seq (h.easyHandleCurlConfigure hph (htls hst)) ?_
    rintro success rs₁ w₁ ⟨h₁, hn⟩
    rw [Program.wp_ite]
    split
    · exact h₁
    · next hpos => exact h₁.goto hborn .stEasyBind (fun _ => hn (not_not.mp hpos)) i
  · next hst =>
    refine wp_seq (h.easyHandleCurlBind hph ((h.1.req i).named hst)) ?_
    rintro success rs₁ w₁ ⟨h₁, -⟩
    rw [Program.wp_ite]
    split
    · exact h₁
    · exact h₁.goto_other hborn (by decide) i
  · refine wp_seq (h.multiProcess i n) fun _ rs₁ w₁ h₁ => ?_
    exact h₁.goto_other hborn (by decide) i
  · rw [reqDoneWait]
    refine wp_seq (h.multiProcess i n) fun _ rs₁ w₁ h₁ => ?_
    simp only [Program.wp_bind, wp_this, Program.wp_ite, Program.wp_pure]
    split
    · exact h₁
    · split <;> exact h₁

/-! ## Steps -/

/-- What holds before every step. -/
def System.Ok (coded : Prop) (s : System) : Prop := Inv coded s s.requests s.curl

/-- The step is over: the next one begins here, with request `i` in phase `ph`. -/
theorem Inv.restart (h : Inv coded old rs w) {ph : Phase} (hborn : ph ≠ .unborn)
    (hdown : ph ≠ .running → Down (rs.req i)) (hgone : ph = .gone → (rs.req i).mpCurl = none) :
    System.Ok coded ⟨rs, w, Function.update old.phase i ph⟩ := by
  refine ⟨⟨fun j => ?_, h.1.msgs, [], (List.append_nil _).symm, fun m hm => nomatch hm⟩, h.2⟩
  have hr := h.1.req j
  by_cases hj : j = i
  · subst hj
    have hphase : Function.update old.phase j ph j = ph := Function.update_self ..
    exact { hr with
      unborn := fun hu => absurd (hphase.symm.trans hu) hborn
      down := fun hd => hdown fun he => hd (hphase.trans he)
      gone := fun hg => hgone (hphase.symm.trans hg)
      handle := .inl rfl }
  · have hphase : Function.update old.phase i ph j = old.phase j := Function.update_of_ne hj ..
    exact { hr with
      unborn := fun hu => hr.unborn (hphase.symm.trans hu)
      down := fun hd => hr.down fun he => hd (hphase.trans he)
      gone := fun hg => hr.gone (hphase.symm.trans hg)
      handle := .inl rfl }

/-- A step that leaves the phases as they are. -/
theorem Inv.again (h : Inv coded old rs w) (hph : old.phase i = .running) :
    System.Ok coded ⟨rs, w, old.phase⟩ := by
  have h' : System.Ok coded ⟨rs, w, Function.update old.phase i .running⟩ :=
    h.restart (by decide) (fun hd => absurd rfl hd) fun hg => nomatch hg
  rwa [← hph, Function.update_eq_self] at h'

/-- The members after the constructor. -/
def constructed (url : Option String) (pCurl : Option Resource) : HttpRequesting :=
  match url with
  | none => { mVersionHttp := "HTTP/2", mpCurl := pCurl }
  | some url => { mUrl := url, mpCurl := pCurl }

theorem construct_spec (i : Nat) (url : Option String) (rs : Requests) (w : Curl) :
    wp (env (Obeyed coded) i) (construct i url) (fun _ rs' w' => ∃ pCurl,
      rs' = rs.update i (fun _ => constructed url pCurl) ∧
      match pCurl with
      | none => w' = w
      | some a => w.New .easy i a ∧ w' = w.note (.acquire a)) rs w := by
  rw [construct.eq_def, Program.wp_bind, wp_assign, Program.wp_bind, Program.wp_perform]
  rintro pCurl w' ⟨-, he⟩
  rw [wp_assign, update_update]
  refine ⟨pCurl, ?_, ?_⟩
  · cases url <;> rfl
  · cases pCurl <;> exact he

theorem ReqOk.construct (h : ReqOk coded old i r w) (hph : old.phase i = .unborn) {new : System}
    (hnew : new.phase i = .running) {url : Option String} {pCurl : Option Resource}
    (hreq : new.requests.req i = constructed url pCurl)
    (hown : ∀ a, pCurl = some a → a.owner = i)
    (hatt : ∀ a, w'.attached a = w.attached a) (hcons : w'.consumed = w.consumed) :
    ReqOk coded new i (constructed url pCurl) w' := by
  obtain rfl := h.unborn hph
  have hnone : own i w.consumed = [] := by
    have ho := h.outcome
    match hms : own i w.consumed with
    | [] => rfl
    | [_] =>
      rw [hms] at ho
      exact nomatch ho.1
    | _ :: _ :: _ =>
      rw [hms] at ho
      exact ho.elim
  exact {
    unborn := fun hu => nomatch hnew.symm.trans hu
    owned := fun m a ha => by
      cases m with
      | mpCurl => exact hown a (by cases url <;> exact ha)
      | mpListHeader => cases url <;> cases ha
      | mpListResolv => cases url <;> cases ha
    down := fun hd => absurd hnew hd
    gone := fun hg => nomatch hnew.symm.trans hg
    named := fun hst => by cases url <;> cases hst
    attached := fun a ha hatt' => nomatch (h.attached a ha ((hatt a).symm.trans hatt')).1
    outcome := by
      rw [hcons, hnone]
      cases url <;> exact ⟨rfl, rfl, rfl⟩
    handle := .inl (by rw [System.handle, hreq]) }

/-- The other requests do not see a new one, whose handle is not attached. -/
theorem Base.construct {s : System} {pCurl : Option Resource} (h : s.Ok coded)
    (hph : s.phase i = .unborn) (url : Option String) (hatt : w'.attached = s.curl.attached)
    (hpriv : w'.priv = s.curl.priv) (hmsgs : w'.msgs = s.curl.msgs)
    (hcons : w'.consumed = s.curl.consumed) (hown : ∀ a, pCurl = some a → a.owner = i) :
    Base coded ⟨s.requests.update i fun _ => constructed url pCurl, w',
      Function.update s.phase i .running⟩
      (s.requests.update i fun _ => constructed url pCurl) w' := by
  refine ⟨fun j => ?_, ?_, [], (List.append_nil _).symm, fun m hm => nomatch hm⟩
  · have hr := h.1.req j
    by_cases hj : j = i
    · subst hj
      rw [update_req_self]
      exact hr.construct hph (Function.update_self ..)
        (update_req_self s.requests j fun _ => constructed url pCurl) hown
        (fun a => by rw [hatt]) hcons
    · have hphase : Function.update s.phase i .running j = s.phase j :=
        Function.update_of_ne hj ..
      have he : Elsewhere i s.curl w' :=
        ⟨fun _ _ => by rw [hatt], fun _ _ => by rw [hpriv], fun _ _ => by rw [hcons]⟩
      rw [update_req, if_neg hj]
      exact { hr.elsewhere hj he with
        unborn := fun hu => hr.unborn (hphase.symm.trans hu)
        down := fun hd => hr.down fun he => hd (hphase.trans he)
        gone := fun hg => hr.gone (hphase.symm.trans hg)
        handle := .inl (by rw [System.handle, update_req, if_neg hj]) }
  · rw [hmsgs, hatt]
    exact h.1.msgs

theorem System.Ok.construct {s : System} (h : s.Ok coded) (hph : s.phase i = .unborn)
    (url : Option String) :
    wp (env (Obeyed coded) i) (construct i url) (fun _ rs' w' =>
      System.Ok coded ⟨rs', w', Function.update s.phase i .running⟩ ∧ Grown s w')
      s.requests s.curl := by
  refine wp_mono (construct_spec i url s.requests s.curl) ?_
  rintro _ _ w' ⟨pCurl, rfl, he⟩
  have hslot : slot (s.requests.update i fun _ => constructed url pCurl) =
      Function.update (slot s.requests) (i, .mpCurl) pCurl :=
    slot_update_member _ i .mpCurl pCurl fun m' => by
      rw [(h.1.req i).unborn hph]
      cases m' <;> cases url <;> rfl
  have hnone : slot s.requests (i, .mpCurl) = none := by
    rw [slot, (h.1.req i).unborn hph]
    rfl
  have hgrown : ∀ w' : Curl, w'.consumed = s.curl.consumed → Grown s w' := fun w' hcons =>
    ⟨[], by rw [hcons, List.append_nil], fun m hm => absurd hm List.not_mem_nil⟩
  cases pCurl with
  | none =>
    obtain rfl := he
    have hbase := Base.construct h hph url rfl rfl rfl rfl
      fun (a : Resource) (ha : none = some a) => by cases ha
    refine ⟨⟨hbase, ⟨?_, h.2.placed, h.2.clean⟩⟩, hgrown _ rfl⟩
    rw [hslot, ← hnone, Function.update_eq_self]
    exact h.2.books
  | some a =>
    obtain ⟨hnew, rfl⟩ := he
    have hbase : Base coded _ _ (s.curl.note (.acquire a)) :=
      Base.construct h hph url rfl rfl rfl rfl fun b hb => Option.some.inj hb ▸ hnew.2.1
    exact ⟨⟨hbase, h.2.acquire hnone hnew hslot⟩, hgrown _ rfl⟩

theorem kept_apply (r : HttpRequesting) (s : Setting) : Kept r (r.apply s) := by
  cases s <;> exact ⟨fun m => by cases m <;> rfl, rfl, rfl, rfl, rfl⟩

theorem apply_mState (r : HttpRequesting) (s : Setting) : (r.apply s).mState = r.mState := by
  cases s <;> rfl

theorem Step.ok {s t : System} {a : Action} (hs : Step TlsKnown (Obeyed coded) s a t)
    (h : s.Ok coded) : t.Ok coded ∧ Grown s t.curl := by
  cases hs with
  | construct hph he => exact Program.wp_iff.mp (h.construct hph _) _ _ _ he
  | @configure i c hph =>
    have h' := Inv.kept h (i := i) (f := fun r => r.apply c) (by rw [hph]; decide)
      (kept_apply _ c) fun hst => (h.1.req i).named ((apply_mState _ c).symm.trans hst)
    exact ⟨h'.again hph, h'.1.grown⟩
  | @tick i n success rs w hph htls he =>
    have h' := Program.wp_iff.mp (Inv.process h hph htls n) _ _ _ he
    exact ⟨h'.again hph, h'.1.grown⟩
  | @shutdown i success rs w hph he =>
    have hborn : s.phase i ≠ .unborn := by rcases hph with hph | hph <;> rw [hph] <;> decide
    obtain ⟨h', hdown⟩ := Program.wp_iff.mp (Inv.shutdown h hborn) _ _ _ he
    exact ⟨h'.restart (by decide) (fun _ => hdown) (fun hg => nomatch hg), h'.1.grown⟩
  | @destruct i rs w hph he =>
    obtain ⟨h', hnone⟩ := Program.wp_iff.mp (Inv.destruct h hph) _ _ _ he
    have hdown := (h'.1.req i).down (by rw [hph]; decide)
    exact ⟨h'.restart (by decide) (fun _ => hdown) fun _ => hnone, h'.1.grown⟩

theorem Start.ok {s : System} (hs : Start s) : s.Ok coded := by
  obtain ⟨requests, curl, phase⟩ := s
  obtain ⟨rfl, rfl, rfl⟩ := hs
  refine ⟨⟨fun i => ?_, fun m hm => (nomatch hm), [], rfl, fun m hm => (nomatch hm)⟩,
    Ledger.Books.start ?_, List.nodup_nil, rfl⟩
  · exact {
      unborn := fun _ => rfl
      owned := fun m a ha => by cases m <;> cases ha
      down := fun _ => ⟨rfl, rfl, rfl⟩
      gone := fun _ => rfl
      named := fun hst => nomatch hst
      attached := fun a _ hatt => nomatch hatt
      outcome := ⟨rfl, rfl, rfl⟩
      handle := .inl rfl }
  · rintro ⟨i, m⟩
    cases m <;> rfl

theorem reachable_ok {s : System} (hs : Reachable Start (Step TlsKnown (Obeyed coded)) s) :
    s.Ok coded :=
  hs.invariant (fun _ h => Start.ok h) fun _ _ _ h hstep => (hstep.ok h).1

end HttpRequesting

end ProcessingCommon

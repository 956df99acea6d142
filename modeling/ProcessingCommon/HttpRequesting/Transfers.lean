import ProcessingCommon.HttpRequesting.Told
import ProcessingCommon.HttpRequesting.Handles

/-!
# Every transfer is what was asked for

A tick keeps what is said of its request and leaves the others alone. So each handle that ever
gets to the multi handle was told exactly what the user of its request has set.
-/

namespace ProcessingCommon

namespace HttpRequesting

open Program (Exec wp wp_mono wp_seq)
open Transition (Reachable)

variable {lib : Lib} {i j : Nat} {u r r' : HttpRequesting} {rs : Requests} {w w' : Told}
  {a : Resource}

/-! ## The other functions -/

theorem complete_told (k : Nat) (m : CURLMsg) :
    wp (told lib k) (complete m) (fun _ rs' w' =>
      (∀ j, Released (rs.req j) (rs'.req j)) ∧ w' = w) rs w := by
  simp only [complete, Program.wp_bind, Program.wp_perform, wp_assign]
  rintro ⟨given, p⟩ _ rfl code _ rfl removed _ rfl
  refine wp_mono (curlListFree_told k p .mpListHeader) ?_
  rintro _ _ _ ⟨rfl, rfl⟩
  refine wp_seq (curlListFree_told k p .mpListResolv) ?_
  rintro _ _ _ ⟨rfl, rfl⟩
  rw [Program.wp_bind, wp_this, Program.wp_bind, Program.wp_perform]
  rintro _ _ rfl
  rw [Program.wp_bind, wp_assign, wp_assign]
  refine ⟨fun j => ?_, rfl⟩
  simp only [update_update]
  refine Released.update ⟨rfl, rfl, fun m a ha => ?_⟩ j
  cases m <;> cases ha

theorem multiProcess_told (k n : Nat) :
    wp (told lib k) (multiProcess n) (fun _ rs' w' =>
      (∀ j, Released (rs.req j) (rs'.req j)) ∧ w' = w) rs w := by
  rw [multiProcess, Program.wp_bind, Program.wp_perform]
  rintro _ w rfl
  refine Program.wp_rounds_inv (I := fun (rs' : Requests) (w' : Told) =>
    (∀ j, Released (rs.req j) (rs'.req j)) ∧ w' = w) (fun u rs' w' h => ?_) n ()
    ⟨fun j => .refl _, rfl⟩
  obtain ⟨hrel, rfl⟩ := h
  rw [messageRound, Program.wp_bind, Program.wp_perform]
  rintro m _ rfl
  cases m with
  | none => exact ⟨hrel, rfl⟩
  | some m =>
    rw [Program.wp_ite]
    split
    · exact ⟨hrel, rfl⟩
    · refine wp_seq (complete_told k m) ?_
      rintro _ _ _ ⟨hrel', rfl⟩
      exact ⟨fun j => (hrel j).trans (hrel' j), rfl⟩

theorem easyHandleCurlUnbind_told :
    wp (told lib i) (easyHandleCurlUnbind i) (fun _ rs' w' =>
      (∀ j, Released (rs.req j) (rs'.req j)) ∧ w' = w) rs w := by
  rw [easyHandleCurlUnbind, Program.wp_bind, wp_this, Program.wp_ite]
  split
  · exact ⟨fun j => .refl _, rfl⟩
  · rw [Program.wp_bind, wp_this, Program.wp_bind, Program.wp_perform]
    rintro _ _ rfl
    rw [wp_assign]
    exact ⟨Released.update ⟨rfl, rfl, fun m a ha => by cases m <;> exact ha⟩, rfl⟩

theorem shutdown_told :
    wp (told lib i) (shutdown i) (fun _ rs' w' =>
      (∀ j, Released (rs.req j) (rs'.req j)) ∧ w' = w) rs w := by
  rw [shutdown]
  refine wp_seq easyHandleCurlUnbind_told ?_
  rintro _ rs₁ _ ⟨hrel, rfl⟩
  refine wp_seq (curlListFree_told i i .mpListHeader) ?_
  rintro _ _ _ ⟨rfl, rfl⟩
  refine wp_seq (curlListFree_told i i .mpListResolv) ?_
  rintro _ _ _ ⟨rfl, rfl⟩
  refine ⟨fun j => (hrel j).trans ?_, rfl⟩
  exact (Released.update (setMember_released _ _) j).trans
    (Released.update (setMember_released _ _) j)

theorem destruct_told :
    wp (told lib i) (destruct i) (fun _ rs' w' =>
      (∀ j, Released (rs.req j) (rs'.req j)) ∧ w' = w) rs w := by
  rw [destruct, Program.wp_bind, wp_this, Program.wp_ite]
  split
  · exact ⟨fun j => .refl _, rfl⟩
  · rw [Program.wp_bind, wp_this, Program.wp_bind, Program.wp_perform]
    rintro _ _ rfl
    rw [wp_assign]
    exact ⟨Released.update (setMember_released _ .mpCurl), rfl⟩

/-! ## The tick -/

/-- After a tick of request `i`. -/
structure Ticked (lib : Lib) (i : Nat) (u : HttpRequesting) (success : Success)
    (rs : Requests) (w : Told) (rs' : Requests) (w' : Told) : Prop where
  self : Says lib i u (success = .pending) (rs'.req i) w'
  other : ∀ j, j ≠ i → Released (rs.req j) (rs'.req j) ∧ Untouched j w w'
  blank : Blank w'

theorem Says.finish (h : Says lib i u True r w) (live : Prop) : Says lib i u live r w :=
  { h with plain := fun hst _ => h.plain hst trivial }

/-- Nothing but request `i` changes. -/
theorem Ticked.alone {success : Success} {f : HttpRequesting → HttpRequesting} (hb : Blank w)
    (h : Says lib i u (success = .pending) (f (rs.req i)) w) :
    Ticked lib i u success rs w (rs.update i f) w where
  self := by rwa [update_req_self]
  other j hj := by
    rw [update_req, if_neg hj]
    exact ⟨.refl _, .refl j w⟩
  blank := hb

theorem Ticked.same {success : Success} (hb : Blank w) (h : Says lib i u True (rs.req i) w) :
    Ticked lib i u success rs w rs w :=
  ⟨h.finish _, fun j _ => ⟨.refl _, .refl j w⟩, hb⟩

/-- A step of the state machine before the configuration. -/
theorem Says.move (h : Says lib i u True r w) (hst : ¬Configured r.mState)
    (hm : ∀ m, r'.member m = r.member m) (hst' : ¬Configured r'.mState)
    (hface : r'.face = (stage lib (w.addrs i) u r'.mState).face)
    (hask : r'.mState = .stStart ∨ r'.mState = .stDnsResolvStart ∨ r'.mState = .stDnsResolvDoneWait →
      w.addrs i = [] ∧ (r'.mState ≠ .stStart → u.mAddrHost = "")) (live : Prop) :
    Says lib i u live r' w where
  owned m a ha := h.owned m a ((hm m).symm.trans ha)
  face := hface
  asking := hask
  plain _ _ := (h.plain hst trivial).imp_right fun hopts a ha =>
    hopts a ((hm .mpCurl).symm.trans ha)
  complete hc := absurd hc hst'
  added a ha hown := absurd (h.added a ha hown).1 hst

/-- A step of the state machine after the configuration. -/
theorem Says.goto (h : Says lib i u True r w) (hst : Configured r.mState) {st : ProcState}
    (hst' : Configured st) (live : Prop) : Says lib i u live { r with mState := st } w where
  owned m a ha := h.owned m a (by cases m <;> exact ha)
  face := by
    refine Eq.trans h.face ?_
    cases hr : r.mState <;> cases st <;> simp only [hr, Configured] at hst hst' <;> rfl
  asking hask := by rcases hask with rfl | rfl | rfl <;> exact hst'.elim
  plain hno := absurd hst' hno
  complete _ a ha := h.complete hst a ha
  added a ha hown := ⟨hst', (h.added a ha hown).2⟩

theorem orKept_empty (s : String) : orKept s "" = s := by
  rw [orKept]
  split
  · next h => exact h.symm
  · rfl

theorem resolved_nil (r : HttpRequesting) : resolved [] r = r := by
  rw [resolved]
  change { r with mAddrHost := orKept r.mAddrHost "" } = r
  rw [orKept_empty]

theorem urlSplit_told (h : Says lib i u True (rs.req i) w) (hb : Blank w)
    (hst : (rs.req i).mState = .stStart) :
    wp (told lib i) (urlSplit i) (fun success rs' w' => Ticked lib i u success rs w rs' w') rs w := by
  have hno : ¬Configured (rs.req i).mState := by rw [hst]; exact id
  have haddrs : w.addrs i = [] := (h.asking (.inl hst)).1
  have hface : (rs.req i).face = u.face := by
    have hface := h.face
    rwa [hst] at hface
  have haddr : (rs.req i).face.mAddrHost = u.face.mAddrHost := by rw [hface]
  have hsplit : (splitUrl lib (rs.req i).face).face = (splitUrl lib u.face).face := by rw [hface]
  change (splitUrl lib (rs.req i)).face = (splitUrl lib u).face at hsplit
  rw [← resolved_nil (splitUrl lib u)] at hsplit
  rw [urlSplit, Program.wp_bind, wp_this, Program.wp_ite]
  split
  · exact .same hb h
  rw [Program.wp_ite]
  split
  · exact .same hb h
  simp only [Program.wp_bind, Program.wp_perform, wp_assign]
  rintro _ w rfl _ w ⟨rfl, rfl⟩ _ w ⟨rfl, rfl⟩
  rw [Program.wp_ite]
  split
  · next hask =>
    rw [goto, Program.wp_bind, wp_assign, update_update]
    refine .alone hb
      (h.move hno (fun m => by cases m <;> rfl) id ?_ (fun _ => ⟨haddrs, fun _ => ?_⟩) _)
    · rw [haddrs]
      exact hsplit
    · exact haddr ▸ hask.2
  · rw [goto, Program.wp_bind, wp_assign, update_update]
    refine .alone hb (h.move hno (fun m => by cases m <;> rfl) id ?_ (fun hor => ?_) _)
    · rw [haddrs]
      exact hsplit
    · rcases hor with hor | hor | hor <;> cases hor

theorem dnsResolvStart_told (h : Says lib i u True (rs.req i) w) (hb : Blank w)
    (hst : (rs.req i).mState = .stDnsResolvStart) :
    wp (told lib i) (dnsResolvStart i) (fun success rs' w' => Ticked lib i u success rs w rs' w')
      rs w := by
  have hno : ¬Configured (rs.req i).mState := by rw [hst]; exact id
  have hface := h.face
  rw [hst] at hface
  obtain ⟨haddrs, haddr⟩ := h.asking (.inr (.inl hst))
  simp only [dnsResolvStart, Program.wp_bind, wp_this, Program.wp_perform]
  rintro started w rfl
  rw [Program.wp_ite]
  split
  · exact .same hb h
  · rw [goto, Program.wp_bind, wp_assign]
    refine .alone hb
      (h.move hno (fun m => by cases m <;> rfl) id hface (fun _ => ⟨haddrs, fun _ => ?_⟩) _)
    exact haddr (by rw [hst]; exact ProcState.noConfusion)

/-- The first address that was found is the one of the host. -/
theorem Says.found (h : Says lib i u True r w) (hst : r.mState = .stDnsResolvDoneWait)
    (lstAddr : List String) :
    Says lib i u True { r with mAddrHost := lstAddr.headD r.mAddrHost, mState := .stUrlReAsm }
      { w with addrs := Function.update w.addrs i lstAddr } := by
  have hno : ¬Configured r.mState := by rw [hst]; exact id
  obtain ⟨haddrs, haddr⟩ := h.asking (.inr (.inr hst))
  have hempty : u.mAddrHost = "" := haddr (by rw [hst]; exact ProcState.noConfusion)
  have hface : r.face = (splitUrl lib u).face := by
    have hface := h.face
    rw [hst, haddrs] at hface
    rwa [← resolved_nil (splitUrl lib u)]
  have haddr : r.face.mAddrHost = (splitUrl lib u).face.mAddrHost := by rw [hface]
  have hfound : { r.face with mAddrHost := lstAddr.headD r.face.mAddrHost } =
      (resolved lstAddr (splitUrl lib u)).face := by
    rw [haddr, hface]
    change { (splitUrl lib u).face with mAddrHost := lstAddr.headD u.mAddrHost } =
      { (splitUrl lib u).face with mAddrHost := orKept u.mAddrHost (lstAddr.headD "") }
    rw [hempty]
    rfl
  refine ⟨fun m a ha => h.owned m a (by cases m <;> exact ha), hfound.trans ?_, fun hor => ?_,
    fun _ _ => h.plain hno trivial, fun hc => hc.elim,
    fun a ha hown => absurd (h.added a ha hown).1 hno⟩
  · change _ = (resolved (Function.update w.addrs i lstAddr i) (splitUrl lib u)).face
    rw [Function.update_self]
  · rcases hor with hor | hor | hor <;> cases hor

/-- The request goes on with what the resolver has found. -/
theorem dnsResolvDoneWait_told (h : Says lib i u True (rs.req i) w) (hb : Blank w)
    (hst : (rs.req i).mState = .stDnsResolvDoneWait) :
    wp (told lib i) (dnsResolvDoneWait i) (fun success rs' w' =>
      Ticked lib i u success rs w rs' w') rs w := by
  have hno : ¬Configured (rs.req i).mState := by rw [hst]; exact id
  have hface := h.face
  obtain ⟨haddrs, haddr⟩ := h.asking (.inr (.inr hst))
  rw [hst, haddrs] at hface
  have hempty : u.mAddrHost = "" := haddr (by rw [hst]; exact ProcState.noConfusion)
  rw [dnsResolvDoneWait, Program.wp_bind, Program.wp_perform]
  rintro ⟨success, lstAddr⟩ w' he
  have hw' : w' = if success = .positive then
      { w with addrs := Function.update w.addrs i lstAddr } else w := he
  rw [Program.wp_ite]
  split
  · next hpending =>
    obtain rfl : w' = w := by rw [hw', if_neg (by rw [hpending]; decide)]
    exact hpending ▸ .same hb h
  rw [Program.wp_ite]
  split
  · next hpos =>
    rw [if_pos hpos] at hw'
    subst hw'
    rw [Program.wp_bind, wp_assign, Program.wp_bind, Program.wp_perform]
    rintro _ _ rfl
    rw [goto, Program.wp_bind, wp_assign, update_update]
    refine ⟨?_, fun j hj => ⟨?_, ?_⟩, hb⟩
    · rw [update_req_self]
      exact (h.found hst lstAddr).finish _
    · rw [update_req, if_neg hj]
      exact .refl _
    · exact { Untouched.refl j w with addrs := Function.update_of_ne hj .. }
  · next hneg =>
    rw [if_neg hneg] at hw'
    subst hw'
    rw [Program.wp_bind, Program.wp_perform]
    rintro _ w rfl
    rw [goto, Program.wp_bind, wp_assign]
    refine .alone hb (h.move hno (fun m => by cases m <;> rfl) id ?_ (fun hor => ?_) _)
    · rw [haddrs]
      exact hface
    · rcases hor with hor | hor | hor <;> cases hor

theorem urlReAsm_told (h : Says lib i u True (rs.req i) w) (hb : Blank w)
    (hst : (rs.req i).mState = .stUrlReAsm) :
    wp (told lib i) (do
      assign i fun r => { r with mUrl := r.urlReAsm }
      goto i .stEasyInit) (fun success rs' w' => Ticked lib i u success rs w rs' w') rs w := by
  have hno : ¬Configured (rs.req i).mState := by rw [hst]; exact id
  have hface := h.face
  rw [hst] at hface
  rw [Program.wp_bind, wp_assign, goto, Program.wp_bind, wp_assign, update_update]
  refine .alone hb (h.move hno (fun m => by cases m <;> rfl) id ?_ (fun hor => ?_) _)
  · change { (rs.req i).face with mUrl := (rs.req i).face.urlReAsm } = _
    rw [hface]
    rfl
  · rcases hor with hor | hor | hor <;> cases hor

/-- The handle is told the request as it is now. -/
theorem Configures.configured {header resolv : Option Resource}
    (h : Says lib i u True r w) (hst : r.mState = .stEasyInit)
    (hcurl : r.mpCurl = some a)
    (hc : Configures i a r (requestOpts i r header resolv) header resolv w w') (live : Prop) :
    Says lib i u live { withLists header resolv r with mState := .stEasyBind } w' := by
  have hno : ¬Configured r.mState := by rw [hst]; exact id
  have hface := h.face
  rw [hst] at hface
  have haddrs : w'.addrs = w.addrs := hc.listed.addrs
  have hadded : w'.added = w.added := hc.listed.added
  have howna := h.owned .mpCurl a hcurl
  have hopts : w'.opts a = w.opts a ++ requestOpts i r header resolv := by
    rw [hc.listed.opts]
    exact Function.update_self ..
  rw [(h.plain hno trivial).2 a hcurl, List.nil_append] at hopts
  refine ⟨fun m b hm => ?_, ?_, fun hor => ?_, fun hno' => absurd trivial hno', fun _ b hm => ?_,
    fun b hm hown => ?_⟩
  · cases m with
    | mpCurl => exact (h.owned .mpCurl b hm).imp_right (hc.listed.given b)
    | mpListHeader =>
      have hheaders := hc.headers
      rw [show header = some b from hm] at hheaders
      exact ⟨hheaders.1, hheaders.2.1⟩
    | mpListResolv =>
      have hresolv := hc.resolv
      rw [show resolv = some b from hm] at hresolv
      exact ⟨hresolv.1, hresolv.2.1⟩
  · rw [haddrs]
    exact hface
  · rcases hor with hor | hor | hor <;> cases hor
  · obtain rfl : a = b := Option.some.inj (hcurl.symm.trans hm)
    refine ⟨header, resolv, ?_, ?_, ?_⟩
    · rw [hopts, haddrs]
      change requestOpts i r.face header resolv = requestOpts i (asked lib (w.addrs i) u).face _ _
      rw [hface]
      rfl
    · have hheaders := hc.headers
      change HeaderList i w' r.face.mLstHdrs header at hheaders
      rw [hface] at hheaders
      rw [haddrs]
      exact hheaders
    · have hresolv : ResolvList i w' r.face resolv := by
        have hr := hc.resolv
        cases resolv <;> exact hr
      rw [hface] at hresolv
      rw [haddrs]
      cases resolv <;> exact hresolv
  · rw [hadded] at hm
    exact absurd (h.added b hm hown).1 hno

/-- The configuration has failed, and `process()` with it. -/
theorem Says.fail (h : Says lib i u True r w) (hst : ¬Configured r.mState) (hr : Released r r')
    (opts : List CurlOpt) : Says lib i u (Success.negative = .pending) r' (w.tell a opts) where
  owned m b hb := h.owned m b (hr.member m b hb)
  face := by rw [hr.face, hr.mState]; exact h.face
  asking := by rw [hr.mState]; exact h.asking
  plain _ hlive := Success.noConfusion hlive
  complete hc := absurd (hr.mState ▸ hc) hst
  added b hb hown := absurd (h.added b hb hown).1 hst

theorem Blank.tell (hb : Blank w) (ha : a ∈ w.given) {opts : List CurlOpt}
    (h : Listed i (w.tell a opts) w') : Blank w' := by
  intro b hnew
  have hnew' : b ∉ w.given := fun hm => hnew (h.given b hm)
  have hba : b ≠ a := by
    rintro rfl
    exact hnew' ha
  rw [h.opts, h.added]
  exact ⟨(Function.update_of_ne hba ..).trans (hb b hnew').1, (hb b hnew').2⟩

theorem easyInit_told (h : Says lib i u True (rs.req i) w) (hb : Blank w)
    (hst : (rs.req i).mState = .stEasyInit) :
    wp (told lib i) (do
      if (← easyHandleCurlConfigure i) ≠ .positive then return Success.negative
      goto i .stEasyBind) (fun success rs' w' => Ticked lib i u success rs w rs' w') rs w := by
  have hno : ¬Configured (rs.req i).mState := by rw [hst]; exact id
  cases hcurl : (rs.req i).mpCurl with
  | none =>
    rw [easyHandleCurlConfigure, Program.wp_bind, Program.wp_bind, wp_this, Program.wp_ite,
      if_pos hcurl]
    exact .same hb h
  | some a =>
    have howna := h.owned .mpCurl a hcurl
    refine wp_seq (easyHandleCurlConfigure_told hcurl) ?_
    rintro success rs' w' (⟨rfl, header, resolv, rfl, hc⟩ | ⟨rfl, hrel, opts, rfl⟩)
    · rw [Program.wp_ite, if_neg (fun hne => hne rfl), goto, Program.wp_bind, wp_assign,
        update_update]
      refine ⟨?_, fun j hj => ⟨?_, ?_⟩, hb.tell howna.2 hc.listed⟩
      · rw [update_req_self]
        exact hc.configured h hst hcurl _
      · rw [update_req, if_neg hj]
        exact .refl _
      · exact hc.listed.untouched hj howna.1
    · rw [Program.wp_ite, if_pos (by decide)]
      refine ⟨?_, fun j hj => ⟨hrel j, ?_⟩, hb.tell howna.2 (.refl i _)⟩
      · exact h.fail hno (hrel i) opts
      · exact (Listed.refl i _).untouched hj howna.1

/-- A configured handle is given to the multi handle. -/
theorem Says.add (h : Says lib i u True r w) (hst : Configured r.mState) (ha : r.mpCurl = some a) :
    Says lib i u True { r with mCurlBound := true } { w with added := a :: w.added } where
  owned m b hb := h.owned m b (by cases m <;> exact hb)
  face := h.face
  asking := h.asking
  plain := fun hno => absurd hst hno
  complete := h.complete
  added b hb hown := by
    rcases List.mem_cons.mp hb with rfl | hb
    · exact ⟨hst, h.complete hst b ha⟩
    · exact h.added b hb hown

theorem Ticked.finish {rs' : Requests} (h : Ticked lib i u .pending rs w rs' w')
    (success : Success) : Ticked lib i u success rs w rs' w' :=
  { h with self := { h.self with plain := fun hst _ => h.self.plain hst rfl } }

/-- After the configuration, the state machine goes on in what a function has left. -/
theorem Ticked.goto {rs' : Requests} (h : Ticked lib i u .pending rs w rs' w')
    (hst : Configured (rs'.req i).mState) {st : ProcState} (hst' : Configured st) :
    wp (told lib i) (goto i st) (fun success rs' w' => Ticked lib i u success rs w rs' w') rs' w' := by
  rw [HttpRequesting.goto, Program.wp_bind, wp_assign]
  refine ⟨?_, fun j hj => ?_, h.blank⟩
  · rw [update_req_self]
    exact Says.goto { h.self with plain := fun hst _ => h.self.plain hst rfl } hst hst' _
  · rw [update_req, if_neg hj]
    exact h.other j hj

theorem easyHandleCurlBind_told (h : Says lib i u True (rs.req i) w) (hb : Blank w)
    (hst : Configured (rs.req i).mState) :
    wp (told lib i) (easyHandleCurlBind i) (fun _ rs' w' => Ticked lib i u .pending rs w rs' w' ∧
      Configured (rs'.req i).mState) rs w := by
  have hadd {b : Bool} : wp (told lib i) (do
      if !(← get).pCurlMulti then return Success.negative
      if !(← perform (.multiAddHandle (← this i).mpCurl)) then return .negative
      assign i fun r => { r with mCurlBound := true }
      return .positive) (fun _ rs' w' => Ticked lib i u .pending rs w rs' w' ∧
        Configured (rs'.req i).mState) { rs with pCurlMulti := b } w := by
    have hsame : Ticked lib i u .pending rs w { rs with pCurlMulti := b } w :=
      ⟨h.finish _, fun j _ => ⟨.refl _, .refl j w⟩, hb⟩
    rw [Program.wp_bind, Program.wp_get, Program.wp_ite]
    split
    · exact ⟨hsame, hst⟩
    rw [Program.wp_bind, wp_this, Program.wp_bind, Program.wp_perform]
    intro added w' he
    rw [Program.wp_ite]
    cases added with
    | false =>
      have hw' : w' = w := by cases hcurl : (rs.req i).mpCurl <;> rw [hcurl] at he <;> exact he
      subst hw'
      exact ⟨hsame, hst⟩
    | true =>
      cases hcurl : (rs.req i).mpCurl with
      | none =>
        rw [hcurl] at he
        exact he.elim
      | some a =>
        rw [hcurl] at he
        obtain rfl := he
        have howna := h.owned .mpCurl a hcurl
        rw [if_neg (by decide), Program.wp_bind, wp_assign]
        refine ⟨⟨?_, fun j hj => ⟨?_, ?_⟩, fun b hnew => ⟨(hb b hnew).1, ?_⟩⟩, ?_⟩
        · rw [update_req_self]
          exact (h.add hst hcurl).finish _
        · rw [update_req, if_neg hj]
          exact .refl _
        · refine { Untouched.refl j w with added := fun b hm hown => ?_ }
          rcases List.mem_cons.mp hm with rfl | hm
          · exact absurd (hown.symm.trans howna.1) hj
          · exact hm
        · intro hm
          rcases List.mem_cons.mp hm with rfl | hm
          · exact hnew howna.2
          · exact (hb b hnew).2 hm
        · rw [update_req_self]
          exact hst
  rw [easyHandleCurlBind, Program.wp_bind, Program.wp_get, Program.wp_ite]
  split
  · simp only [multiHandleCurlInit, Program.wp_bind, Program.wp_perform, Program.wp_modify]
    rintro b _ rfl
    exact hadd
  · exact hadd (b := rs.pCurlMulti)

/-- The completions of others do not matter. -/
theorem multiProcess_ticked (h : Says lib i u True (rs.req i) w) (hb : Blank w)
    (hst : Configured (rs.req i).mState) (n : Nat) :
    wp (told lib i) (multiProcess n) (fun _ rs' w' => Ticked lib i u .pending rs w rs' w' ∧
      Configured (rs'.req i).mState) rs w := by
  refine wp_mono (multiProcess_told i n) ?_
  rintro _ rs' _ ⟨hrel, rfl⟩
  refine ⟨⟨(h.finish _).untouched (hrel i) (.refl i _), fun j _ => ⟨hrel j, .refl j _⟩, hb⟩, ?_⟩
  rw [(hrel i).mState]
  exact hst

theorem process_told (h : Says lib i u True (rs.req i) w) (hb : Blank w) (n : Nat) :
    wp (told lib i) (process n i) (fun success rs' w' => Ticked lib i u success rs w rs' w') rs w := by
  rw [process, Program.wp_bind, wp_this]
  split
  · next hst => exact urlSplit_told h hb hst
  · next hst => exact dnsResolvStart_told h hb hst
  · next hst => exact dnsResolvDoneWait_told h hb hst
  · next hst => exact urlReAsm_told h hb hst
  · next hst => exact easyInit_told h hb hst
  · next hst =>
    refine wp_seq (easyHandleCurlBind_told h hb (by rw [hst]; trivial)) ?_
    rintro success rs' w' ⟨ht, hconf⟩
    rw [Program.wp_ite]
    split
    · exact ht.finish _
    · exact ht.goto hconf trivial
  · next hst =>
    refine wp_seq (multiProcess_ticked h hb (by rw [hst]; trivial) n) ?_
    rintro _ rs' w' ⟨ht, hconf⟩
    exact ht.goto hconf trivial
  · next hst =>
    rw [reqDoneWait]
    refine wp_seq (multiProcess_ticked h hb (by rw [hst]; trivial) n) ?_
    rintro _ rs' w' ⟨ht, -⟩
    simp only [Program.wp_bind, wp_this, Program.wp_ite, Program.wp_pure]
    split
    · exact ht
    · split <;> exact ht.finish _

/-! ## Runs -/

theorem construct_told (i : Nat) (url : Option String) :
    wp (told lib i) (construct i url) (fun _ rs' w' => ∃ pCurl,
      rs' = rs.update i (fun _ => constructed url pCurl) ∧
      match pCurl with
      | none => w' = w
      | some a => w.New i a ∧ w' = w.give a) rs w := by
  rw [construct.eq_def, Program.wp_bind, wp_assign, Program.wp_bind, Program.wp_perform]
  intro pCurl w' he
  rw [wp_assign, update_update]
  refine ⟨pCurl, ?_, ?_⟩
  · cases url <;> rfl
  · cases pCurl <;> exact he

structure Desk.Ok (lib : Lib) (s : Desk) : Prop where
  req : ∀ i, Says lib i (s.user i) (s.result i = .pending) (s.requests.req i) s.told
  blank : Blank s.told
  unborn : ∀ i, s.phase i = .unborn → (s.requests.req i).mState = .stStart ∧ s.result i = .pending

theorem Desk.Start.ok {s : Desk} (h : s.Start) : s.Ok lib := by
  obtain ⟨requests, told, phase, result, user⟩ := s
  obtain ⟨rfl, rfl, rfl, rfl, rfl⟩ := h
  refine ⟨fun i => ?_, fun a _ => ⟨rfl, List.not_mem_nil⟩, fun i _ => ⟨rfl, rfl⟩⟩
  exact {
    owned := fun m a ha => by cases m <;> cases ha
    face := rfl
    asking := fun _ => ⟨rfl, fun hne => absurd rfl hne⟩
    plain := fun _ _ => ⟨rfl, fun a ha => by cases ha⟩
    complete := fun hc => hc.elim
    added := fun a ha => absurd ha List.not_mem_nil }

/-- A new request with its handle, if there is one. -/
theorem Says.construct (h : Says lib i u True r w) (hb : Blank w) (hst : r.mState = .stStart)
    (url : Option String) {pCurl : Option Resource}
    (hnew : match pCurl with
      | none => w' = w
      | some a => w.New i a ∧ w' = w.give a) :
    Says lib i (constructed url none) True (constructed url pCurl) w' ∧ Blank w' ∧
      ∀ j, j ≠ i → Untouched j w w' := by
  have hno : ¬Configured r.mState := by rw [hst]; exact id
  obtain ⟨haddrs, -⟩ := h.asking (.inl hst)
  obtain ⟨hrefused, -⟩ := h.plain hno trivial
  have hstart : ∀ p, (constructed url p).mState = .stStart := fun p => by cases url <;> rfl
  have hface : ∀ p, (constructed url p).face = (constructed url none).face := fun p => by
    cases url <;> rfl
  have hmember : ∀ p m a, (constructed url p).member m = some a → p = some a := fun p m a ha => by
    cases url <;> cases m <;> first | exact ha | cases ha
  have hbuilt : ∀ v : Told, v.addrs i = [] → v.refused i = false → (∀ a ∈ v.added, a ∈ w.added) →
      (∀ a, pCurl = some a → a.owner = i ∧ a ∈ v.given ∧ v.opts a = []) →
      Says lib i (constructed url none) True (constructed url pCurl) v := fun v hva hvr hadd ha => {
    owned := fun m a hm => ⟨(ha a (hmember _ m a hm)).1, (ha a (hmember _ m a hm)).2.1⟩
    face := by rw [hstart]; exact hface pCurl
    asking := fun _ => ⟨hva, fun hne => absurd (hstart pCurl) hne⟩
    plain := fun _ _ => ⟨hvr, fun a hm => (ha a (hmember _ .mpCurl a hm)).2.2⟩
    complete := fun hc => by rw [hstart] at hc; exact hc.elim
    added := fun a hm hown => absurd (h.added a (hadd a hm) hown).1 hno }
  cases pCurl with
  | none =>
    obtain rfl := hnew
    refine ⟨hbuilt _ haddrs hrefused (fun _ => id) fun a ha => ?_, hb, fun j _ => .refl j _⟩
    cases ha
  | some a =>
    obtain ⟨⟨hown, hnew⟩, rfl⟩ := hnew
    refine ⟨hbuilt _ haddrs hrefused (fun _ => id) fun b hba => ?_, fun b hb' => ?_, fun j _ => ?_⟩
    · obtain rfl := Option.some.inj hba
      exact ⟨hown, List.mem_cons_self, (hb a hnew).1⟩
    · exact hb b fun hm => hb' (List.mem_cons_of_mem _ hm)
    · exact { Untouched.refl j w with given := fun b hm => List.mem_cons_of_mem _ hm }

/-- A setting is made in the request as its user has made it. -/
theorem Says.apply {live : Prop} (h : Says lib i u live r w) (hst : r.mState = .stStart)
    (c : Setting) : Says lib i (u.apply c) live (r.apply c) w := by
  have hno : ¬Configured r.mState := by rw [hst]; exact id
  have hstart : (r.apply c).mState = .stStart := (apply_mState r c).trans hst
  have hface : r.face = u.face := by
    have hface := h.face
    rwa [hst] at hface
  have happly : ∀ q : HttpRequesting, (q.apply c).face = (q.face.apply c).face := fun q => by
    cases c <;> rfl
  have hmember : ∀ m, (r.apply c).member m = r.member m := (kept_apply r c).member
  exact {
    owned := fun m a ha => h.owned m a ((hmember m).symm.trans ha)
    face := by
      rw [hstart, happly, hface, ← happly]
      rfl
    asking := fun _ => ⟨(h.asking (.inl hst)).1, fun hne => absurd hstart hne⟩
    plain := fun _ hlive => (h.plain hno hlive).imp_right fun hopts a ha =>
      hopts a ((hmember .mpCurl).symm.trans ha)
    complete := fun hc => by rw [hstart] at hc; exact hc.elim
    added := fun a ha hown => absurd (h.added a ha hown).1 hno }

theorem Says.live {live : Prop} (h : Says lib i u live r w) (hlive : live) :
    Says lib i u True r w :=
  { h with plain := fun hst _ => h.plain hst hlive }

/-- A request that is not born is not the one that has just got into a later phase. -/
theorem unborn_other {phase : Nat → Phase} {ph : Phase} (hph : ph ≠ .unborn)
    (h : Function.update phase i ph j = .unborn) : j ≠ i ∧ phase j = .unborn := by
  have hj : j ≠ i := by
    rintro rfl
    exact hph ((Function.update_self ..).symm.trans h)
  exact ⟨hj, (Function.update_of_ne hj ..).symm.trans h⟩

/-- Requests lose what libcurl has given them, and nothing is noted. -/
theorem Desk.Ok.released {s : Desk} (h : s.Ok lib) (hrel : ∀ j, Released (s.requests.req j) (rs.req j))
    {ph : Phase} (hph : ph ≠ .unborn) :
    Desk.Ok lib ⟨rs, s.told, Function.update s.phase i ph, s.result, s.user⟩ := by
  refine ⟨fun j => (h.req j).untouched (hrel j) (.refl j _), h.blank, fun j hj => ?_⟩
  rw [(hrel j).mState]
  exact h.unborn j (unborn_other hph hj).2

theorem Desk.Step.ok {s t : Desk} {e : Action} (hs : Desk.Step lib s e t) (h : s.Ok lib) :
    t.Ok lib := by
  cases hs with
  | @construct i url rs w hph he =>
    obtain ⟨pCurl, rfl, hnew⟩ := Program.wp_iff.mp (construct_told i url) _ _ _ he
    obtain ⟨hst, hresult⟩ := h.unborn i hph
    obtain ⟨hself, hblank, hother⟩ :=
      ((h.req i).live hresult).construct h.blank hst url hnew
    refine ⟨fun j => ?_, hblank, fun j hj => ?_⟩
    · rcases eq_or_ne j i with rfl | hj
      · simp only [Function.update_self, update_req_self]
        exact hself.finish _
      · simp only [Function.update_of_ne hj, update_req, if_neg hj]
        exact (h.req j).untouched (.refl _) (hother j hj)
    · obtain ⟨hji, hj⟩ := unborn_other (by decide) hj
      simp only [update_req, if_neg hji]
      exact h.unborn j hj
  | @configure i c hph hst =>
    refine ⟨fun j => ?_, h.blank, fun j hj => ?_⟩
    · rcases eq_or_ne j i with rfl | hj
      · simp only [Function.update_self, update_req_self]
        exact (h.req j).apply hst c
      · simp only [Function.update_of_ne hj, update_req, if_neg hj]
        exact h.req j
    · have hji : j ≠ i := by
        rintro rfl
        exact Phase.noConfusion (hph.symm.trans hj)
      simp only [update_req, if_neg hji]
      exact h.unborn j hj
  | @tick i n success rs w hph hresult he =>
    have ht := Program.wp_iff.mp (process_told ((h.req i).live hresult) h.blank n) _ _ _ he
    refine ⟨fun j => ?_, ht.blank, fun j hj => ?_⟩
    · rcases eq_or_ne j i with rfl | hj
      · simp only [Function.update_self]
        exact ht.self
      · simp only [Function.update_of_ne hj]
        exact (h.req j).untouched (ht.other j hj).1 (ht.other j hj).2
    · have hji : j ≠ i := by
        rintro rfl
        exact Phase.noConfusion (hph.symm.trans hj)
      simp only [Function.update_of_ne hji, (ht.other j hji).1.mState]
      exact h.unborn j hj
  | @shutdown i success rs w hph he =>
    obtain ⟨hrel, rfl⟩ := Program.wp_iff.mp shutdown_told _ _ _ he
    exact h.released hrel (by decide)
  | @destruct i rs w hph he =>
    obtain ⟨hrel, rfl⟩ := Program.wp_iff.mp destruct_told _ _ _ he
    exact h.released hrel (by decide)

/-- What `urlToParts` and `typeIp` make of `http://b:8080/a` and its host. -/
def nameOnly : Lib := ⟨fun _ => ⟨"http", "b", 8080, "a", ""⟩, fun _ => .unspec⟩

/-- A libcurl with one handle and two lists. -/
def oneTold (w : Told) : (c : Call) → Answer c × Told
  | .easyInit => if easy 0 ∈ w.given then (none, w) else (some (easy 0), w.give (easy 0))
  | .easySetopt p opt => (true, w.setopt p opt)
  | .slistAppend none str =>
    let l : Resource := ⟨.slist, 0, w.given.length, w.given.length⟩
    if l ∈ w.given then (none, { w with refused := Function.update w.refused 0 true })
    else (some l, (w.give l).list l [str])
  | .slistAppend (some l) str => (some l, w.list l (w.strs l ++ [str]))
  | .multiAddHandle none => (false, w)
  | .multiAddHandle (some a) => (true, { w with added := a :: w.added })
  | .urlToParts url => (nameOnly.urlToParts url, w)
  | .typeIp ip => (nameOnly.typeIp ip, w)
  | .resolvSuccess =>
    ((.positive, ["10.0.0.1"]), { w with addrs := Function.update w.addrs 0 ["10.0.0.1"] })
  | .easyCleanup _ => ((), w)
  | .getinfoPrivate _ => ((true, 0), w)
  | .getinfoResponseCode _ => (some 200, w)
  | .multiInit => (true, w)
  | .multiRemoveHandle _ => (true, w)
  | .multiPerform => ((), w)
  | .multiInfoRead => (none, w)
  | .slistFreeAll _ => ((), w)
  | .curlGlobalInit => ((), w)
  | .resolvStart _ => (true, w)
  | .resolvRepel => ((), w)

theorem told_oneTold (w : Told) (c : Call) : told nameOnly 0 w c (oneTold w c).1 (oneTold w c).2 := by
  cases c with
  | easyInit =>
    rw [oneTold]
    split
    · rfl
    · next hnew => exact ⟨⟨rfl, hnew⟩, rfl⟩
  | slistAppend p str =>
    cases p with
    | none =>
      rw [oneTold]
      split
      · rfl
      · next hnew => exact ⟨⟨rfl, hnew⟩, rfl⟩
    | some l => exact ⟨rfl, rfl⟩
  | multiAddHandle p => cases p <;> rfl
  | easySetopt p opt => exact ⟨rfl, rfl⟩
  | urlToParts url => exact ⟨rfl, rfl⟩
  | typeIp ip => exact ⟨rfl, rfl⟩
  | _ => rfl

abbrev Served (s : Desk) : Prop := Reachable Desk.Start (Desk.Step nameOnly) s

theorem Served.tick {s : Desk} (h : Served s) (n : Nat) (hph : s.phase 0 = .running)
    (hresult : s.result 0 = .pending) :
    Served ⟨((process n 0).run oneTold s.requests s.told).2.1,
      ((process n 0).run oneTold s.requests s.told).2.2, s.phase,
      Function.update s.result 0 ((process n 0).run oneTold s.requests s.told).1, s.user⟩ :=
  h.next (.tick hph hresult (Program.exec_run told_oneTold (process n 0) s.requests s.told))

end HttpRequesting

end ProcessingCommon

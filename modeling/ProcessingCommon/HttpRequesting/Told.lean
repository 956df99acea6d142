import ProcessingCommon.HttpRequesting.Options
import ProcessingCommon.HttpRequesting.Runs

/-!
# From the settings to the transfers

Any number of requests that are configured before they are started, and libcurl as somebody who
takes notes: of the options of each handle, none of which it refuses, the strings of each list and
the handles that were given to the multi handle. It gives no address twice. Everything else that it
answers is free here.
-/

namespace ProcessingCommon

namespace HttpRequesting

open Program (Exec wp rounds each wp_mono wp_seq)
open Transition (Reachable)

/-- The functions of `LibDspc` that a request calls. -/
structure Lib where
  urlToParts : String → UrlParts
  typeIp : String → AddrFamily

/-- The notes. -/
structure Told where
  given : List Resource
  opts : Resource → List CurlOpt
  strs : Resource → List String
  /-- The handles that were ever given to the multi handle. -/
  added : List Resource
  /-- The addresses that the resolver of a request reported. -/
  addrs : Nat → List String
  /-- A list entry of the request could not be created. -/
  refused : Nat → Bool

namespace Told

variable (w : Told)

def setopt (p : Option Resource) (opt : CurlOpt) : Told :=
  match p with
  | none => w
  | some a => { w with opts := Function.update w.opts a (w.opts a ++ [opt]) }

def give (a : Resource) : Told := { w with given := a :: w.given }

/-- The list `l` has the strings `strs` now. -/
def list (l : Resource) (strs : List String) : Told :=
  { w with strs := Function.update w.strs l strs }

def New (i : Nat) (a : Resource) : Prop := a.owner = i ∧ a ∉ w.given

end Told

/-- What is answered to the calls of request `i`, and noted. -/
def told (lib : Lib) (i : Nat) (w : Told) : (c : Call) → Answer c → Told → Prop
  | .easyInit, r, w' =>
    match r with
    | none => w' = w
    | some a => w.New i a ∧ w' = w.give a
  | .easySetopt p opt, r, w' => r = true ∧ w' = w.setopt p opt
  | .slistAppend p str, r, w' =>
    match p, r with
    | none, some a => w.New i a ∧ w' = (w.give a).list a [str]
    | some l, some a => a = l ∧ w' = w.list l (w.strs l ++ [str])
    | _, none => w' = { w with refused := Function.update w.refused i true }
  | .multiAddHandle p, r, w' =>
    match p, r with
    | some a, true => w' = { w with added := a :: w.added }
    | none, true => False
    | _, false => w' = w
  | .urlToParts url, r, w' => r = lib.urlToParts url ∧ w' = w
  | .typeIp ip, r, w' => r = lib.typeIp ip ∧ w' = w
  | .resolvSuccess, r, w' =>
    w' = if r.1 = .positive then { w with addrs := Function.update w.addrs i r.2 } else w
  | _, _, w' => w' = w

/-! ## Runs -/

/-- `user` are the requests as their users have made them. -/
structure Desk where
  requests : Requests
  told : Told
  phase : Nat → Phase
  /-- What `process()` has returned. -/
  result : Nat → Success
  user : Nat → HttpRequesting

def Desk.Start (s : Desk) : Prop :=
  s.requests = ⟨false, fun _ => {}⟩ ∧
    s.told = ⟨[], fun _ => [], fun _ => [], [], fun _ => [], fun _ => false⟩ ∧
    s.phase = (fun _ => .unborn) ∧ s.result = (fun _ => .pending) ∧ s.user = fun _ => {}

/-- A request is configured before its first tick, and ticked until `process()` has a result. -/
inductive Desk.Step (lib : Lib) : Desk → Action → Desk → Prop
  | construct {s : Desk} {i : Nat} {url : Option String} {rs : Requests} {w : Told} :
      s.phase i = .unborn →
      Exec (HttpRequesting.told lib i) (construct i url) s.requests s.told () rs w →
      Desk.Step lib s (.construct i url) ⟨rs, w, Function.update s.phase i .running, s.result,
        Function.update s.user i (constructed url none)⟩
  | configure {s : Desk} {i : Nat} {c : Setting} :
      s.phase i = .running → (s.requests.req i).mState = .stStart →
      Desk.Step lib s (.configure i c) ⟨s.requests.update i fun r => r.apply c, s.told, s.phase,
        s.result, Function.update s.user i ((s.user i).apply c)⟩
  | tick {s : Desk} {i n : Nat} {success : Success} {rs : Requests} {w : Told} :
      s.phase i = .running → s.result i = .pending →
      Exec (HttpRequesting.told lib i) (process n i) s.requests s.told success rs w →
      Desk.Step lib s (.tick i success)
        ⟨rs, w, s.phase, Function.update s.result i success, s.user⟩
  | shutdown {s : Desk} {i : Nat} {success : Success} {rs : Requests} {w : Told} :
      s.phase i = .running ∨ s.phase i = .down →
      Exec (HttpRequesting.told lib i) (shutdown i) s.requests s.told success rs w →
      Desk.Step lib s (.shutdown i)
        ⟨rs, w, Function.update s.phase i .down, s.result, s.user⟩
  | destruct {s : Desk} {i : Nat} {rs : Requests} {w : Told} :
      s.phase i = .down →
      Exec (HttpRequesting.told lib i) (destruct i) s.requests s.told () rs w →
      Desk.Step lib s (.destruct i)
        ⟨rs, w, Function.update s.phase i .gone, s.result, s.user⟩

variable {lib : Lib}

/-! ## What is asked for -/

/-- The request `u` with its URL split. -/
def splitUrl (lib : Lib) (u : HttpRequesting) : HttpRequesting :=
  let parts := lib.urlToParts u.mUrl
  let protocol := orKept parts.protocol "https"
  { u with
    mProtocol := protocol
    mNameHost := parts.host
    mPort := if parts.port = 0 then (if protocol = "https" then 443 else 80) else parts.port
    mPath := parts.path
    mQueries := parts.queries
    mTypeNameHost := lib.typeIp parts.host }

/-- The address is the one of the user or else the first one that was found. -/
def resolved (addrs : List String) (r : HttpRequesting) : HttpRequesting :=
  { r with mAddrHost := orKept r.mAddrHost (addrs.headD "") }

/-- The request in its configuration. -/
def asked (lib : Lib) (addrs : List String) (u : HttpRequesting) : HttpRequesting :=
  let r := resolved addrs (splitUrl lib u)
  { r with mUrl := r.urlReAsm }

/-- How far the members have got. -/
def stage (lib : Lib) (addrs : List String) (u : HttpRequesting) : ProcState → HttpRequesting
  | .stStart => u
  | .stDnsResolvStart | .stDnsResolvDoneWait | .stUrlReAsm => resolved addrs (splitUrl lib u)
  | .stEasyInit | .stEasyBind | .stReqStart | .stReqDoneWait => asked lib addrs u

/-- The members that neither libcurl nor the state machine changes. -/
def face (r : HttpRequesting) : HttpRequesting :=
  { r with
    mState := .stStart, mpCurl := none, mCurlBound := false, mpListHeader := none
    mpListResolv := none, mCurlRes := CURLE_OK, mRespCode := 0, mDoneCurl := .pending }

/-- The handle is configured. -/
def Configured : ProcState → Prop
  | .stEasyBind | .stReqStart | .stReqDoneWait => True
  | _ => False

/-- A name that is to be resolved has an address. -/
def Resolves (r : HttpRequesting) : Prop := r.mTypeNameHost = .unspec ∧ r.mAddrHost ≠ ""

/-- The header lines are in the list, all of them unless an entry was refused. -/
def HeaderList (i : Nat) (w : Told) (hdrs : List String) : Option Resource → Prop
  | none => hdrs = [] ∨ w.refused i = true
  | some l => l.owner = i ∧ l ∈ w.given ∧ w.strs l <+: hdrs ∧ (w.strs l = hdrs ∨ w.refused i = true)

/-- The address of the host is in the list, unless the entry was refused. -/
def ResolvList (i : Nat) (w : Told) (r : HttpRequesting) : Option Resource → Prop
  | none => r.Resolves → w.refused i = true
  | some l => l.owner = i ∧ l ∈ w.given ∧ r.Resolves ∧
    w.strs l = [r.mNameHost ++ ":" ++ toString r.mPort ++ ":" ++ r.mAddrHost]

/-- The handle `a` was told all of request `r`. -/
def Complete (i : Nat) (w : Told) (r : HttpRequesting) (a : Resource) : Prop :=
  ∃ header resolv, w.opts a = requestOpts i r header resolv ∧ HeaderList i w r.mLstHdrs header ∧
    ResolvList i w r resolv

/-- What holds of request `i`, made as `u`; `live` while `process()` has no result. -/
structure Says (lib : Lib) (i : Nat) (u : HttpRequesting) (live : Prop) (r : HttpRequesting)
    (w : Told) : Prop where
  owned : ∀ m a, r.member m = some a → a.owner = i ∧ a ∈ w.given
  face : face r = face (stage lib (w.addrs i) u r.mState)
  asking : r.mState = .stStart ∨ r.mState = .stDnsResolvStart ∨ r.mState = .stDnsResolvDoneWait →
    w.addrs i = [] ∧ (r.mState ≠ .stStart → u.mAddrHost = "")
  plain : ¬Configured r.mState → live → w.refused i = false ∧ ∀ a, r.mpCurl = some a → w.opts a = []
  complete : Configured r.mState → ∀ a, r.mpCurl = some a →
    Complete i w (asked lib (w.addrs i) u) a
  added : ∀ a ∈ w.added, a.owner = i →
    Configured r.mState ∧ Complete i w (asked lib (w.addrs i) u) a

/-- Nothing is noted of what was not given. -/
def Blank (w : Told) : Prop := ∀ a, a ∉ w.given → w.opts a = [] ∧ a ∉ w.added

variable {i j : Nat} {u r r' : HttpRequesting} {rs : Requests} {w w₀ w' v : Told} {live : Prop}
  {a l : Resource}

/-! ## Frames -/

/-- Something of libcurl may be gone. -/
structure Released (r r' : HttpRequesting) : Prop where
  mState : r'.mState = r.mState
  face : r'.face = r.face
  member : ∀ m a, r'.member m = some a → r.member m = some a

theorem Released.refl (r : HttpRequesting) : Released r r := ⟨rfl, rfl, fun _ _ => id⟩

theorem Released.trans {r'' : HttpRequesting} (h : Released r r') (h' : Released r' r'') :
    Released r r'' :=
  ⟨h'.mState.trans h.mState, h'.face.trans h.face, fun m a ha => h.member m a (h'.member m a ha)⟩

theorem Released.update {f : HttpRequesting → HttpRequesting}
    (hf : Released (rs.req i) (f (rs.req i))) (j : Nat) : Released (rs.req j) ((rs.update i f).req j) := by
  rw [update_req]
  split
  · next hj => exact hj ▸ hf
  · exact .refl _

theorem setMember_released (r : HttpRequesting) (m : Member) : Released r (r.setMember m none) := by
  refine ⟨by cases m <;> rfl, by cases m <;> rfl, fun m' a ha => ?_⟩
  cases m <;> cases m' <;> first | exact ha | cases ha

/-- Nothing new is noted of request `j`. -/
structure Untouched (j : Nat) (w w' : Told) : Prop where
  given : ∀ a ∈ w.given, a ∈ w'.given
  opts : ∀ a, a.owner = j → w'.opts a = w.opts a
  strs : ∀ a, a.owner = j → w'.strs a = w.strs a
  added : ∀ a ∈ w'.added, a.owner = j → a ∈ w.added
  addrs : w'.addrs j = w.addrs j
  refused : w'.refused j = w.refused j

theorem Untouched.refl (j : Nat) (w : Told) : Untouched j w w :=
  ⟨fun _ => id, fun _ _ => rfl, fun _ _ => rfl, fun _ h _ => h, rfl, rfl⟩

theorem HeaderList.untouched {hdrs : List String} {header : Option Resource}
    (h : HeaderList j w hdrs header) (hw : Untouched j w w') : HeaderList j w' hdrs header := by
  cases header with
  | none => rwa [HeaderList, hw.refused]
  | some l =>
    obtain ⟨hown, hgiven, hpre, hall⟩ := h
    rw [HeaderList, hw.refused, hw.strs l hown]
    exact ⟨hown, hw.given l hgiven, hpre, hall⟩

theorem ResolvList.untouched {resolv : Option Resource} (h : ResolvList j w r resolv)
    (hw : Untouched j w w') : ResolvList j w' r resolv := by
  cases resolv with
  | none => rwa [ResolvList, hw.refused]
  | some l =>
    obtain ⟨hown, hgiven, hres, hstrs⟩ := h
    rw [ResolvList, hw.strs l hown]
    exact ⟨hown, hw.given l hgiven, hres, hstrs⟩

theorem Complete.untouched (h : Complete j w r a) (ha : a.owner = j) (hw : Untouched j w w') :
    Complete j w' r a := by
  obtain ⟨header, resolv, hopts, hheader, hresolv⟩ := h
  exact ⟨header, resolv, (hw.opts a ha).trans hopts, hheader.untouched hw, hresolv.untouched hw⟩

theorem Says.untouched (h : Says lib j u live r w) (hr : Released r r') (hw : Untouched j w w') :
    Says lib j u live r' w' where
  owned m a ha := (h.owned m a (hr.member m a ha)).imp id (hw.given a)
  face := by rw [hr.face, hr.mState, hw.addrs, h.face]
  asking := by rw [hr.mState, hw.addrs]; exact h.asking
  plain hst hlive := by
    rw [hr.mState] at hst
    obtain ⟨hrefused, hopts⟩ := h.plain hst hlive
    refine ⟨hw.refused.trans hrefused, fun a ha => ?_⟩
    have ha' := hr.member .mpCurl a ha
    exact (hw.opts a (h.owned .mpCurl a ha').1).trans (hopts a ha')
  complete hst a ha := by
    rw [hr.mState] at hst
    have ha' := hr.member .mpCurl a ha
    rw [hw.addrs]
    exact (h.complete hst a ha').untouched (h.owned .mpCurl a ha').1 hw
  added a ha hown := by
    obtain ⟨hst, hc⟩ := h.added a (hw.added a ha hown) hown
    rw [hr.mState, hw.addrs]
    exact ⟨hst, hc.untouched hown hw⟩

/-! ## Configuration -/

namespace Told

/-- The handle `a` is told these options. -/
def tell (w : Told) (a : Resource) (opts : List CurlOpt) : Told :=
  { w with opts := Function.update w.opts a (w.opts a ++ opts) }

theorem tell_tell (w : Told) (a : Resource) (opts opts' : List CurlOpt) :
    (w.tell a opts).tell a opts' = w.tell a (opts ++ opts') := by
  simp only [tell, Function.update_self, Function.update_idem, List.append_assoc]

end Told

/-- What request `i` may have noted while it makes its lists. -/
structure Listed (i : Nat) (w w' : Told) : Prop where
  given : ∀ a ∈ w.given, a ∈ w'.given
  opts : w'.opts = w.opts
  strs : ∀ a, a.owner ≠ i ∨ a ∈ w.given → w'.strs a = w.strs a
  added : w'.added = w.added
  addrs : w'.addrs = w.addrs
  refused : ∀ j, j ≠ i → w'.refused j = w.refused j
  refused_self : w.refused i = true → w'.refused i = true

theorem Listed.refl (i : Nat) (w : Told) : Listed i w w :=
  ⟨fun _ => id, rfl, fun _ _ => rfl, rfl, rfl, fun _ _ => rfl, id⟩

theorem Listed.trans (h : Listed i w v) (h' : Listed i v w') : Listed i w w' where
  given a ha := h'.given a (h.given a ha)
  opts := h'.opts.trans h.opts
  strs a ha := (h'.strs a (ha.imp_right (h.given a))).trans (h.strs a ha)
  added := h'.added.trans h.added
  addrs := h'.addrs.trans h.addrs
  refused j hj := (h'.refused j hj).trans (h.refused j hj)
  refused_self hr := h'.refused_self (h.refused_self hr)

/-- Options of its own handle do not matter to the others. -/
theorem Listed.untouched {opts : List CurlOpt} (h : Listed i (w.tell a opts) w') (hj : j ≠ i)
    (ha : a.owner = i) : Untouched j w w' where
  given := h.given
  opts b hb := by
    have hba : b ≠ a := by
      rintro rfl
      exact hj (hb.symm.trans ha)
    rw [h.opts]
    exact Function.update_of_ne hba ..
  strs b hb := h.strs b (.inl fun hi => hj (hb.symm.trans hi))
  added b hb _ := h.added ▸ hb
  addrs := congrFun h.addrs j
  refused := h.refused j hj

theorem Listed.refuse (h : Listed i w₀ w) :
    Listed i w₀ { w with refused := Function.update w.refused i true } :=
  { h with
    refused := fun j hj => (Function.update_of_ne hj ..).trans (h.refused j hj)
    refused_self := fun _ => Function.update_self .. }

theorem Listed.list (h : Listed i w₀ w) (hown : l.owner = i) (hnew : l ∉ w₀.given)
    (strs : List String) : Listed i w₀ (w.list l strs) :=
  { h with
    strs := fun b hb => by
      have hbl : b ≠ l := by
        rintro rfl
        exact hb.elim (fun hne => hne hown) hnew
      exact (Function.update_of_ne hbl ..).trans (h.strs b hb) }

theorem Listed.give (h : Listed i w₀ w) (l : Resource) : Listed i w₀ (w.give l) :=
  { h with given := fun b hb => List.mem_cons_of_mem _ (h.given b hb) }

/-- The list that is made since `w₀`. -/
def Holds (i : Nat) (w₀ w : Told) (strs : List String) : Option Resource → Prop
  | none => strs = []
  | some l => l.owner = i ∧ l ∉ w₀.given ∧ l ∈ w.given ∧ w.strs l = strs

theorem setopts_told (hcurl : (rs.req i).mpCurl = some a) (opts : List CurlOpt) :
    wp (told lib i) (setopts i opts) (fun _ rs' w' => rs' = rs ∧ w' = w.tell a opts) rs w := by
  rw [setopts]
  induction opts generalizing w with
  | nil => exact ⟨rfl, by rw [Told.tell, List.append_nil, Function.update_eq_self]⟩
  | cons opt opts ih =>
    simp only [each, Program.wp_bind, wp_this, Program.wp_perform, Program.wp_pure]
    rintro _ w' ⟨-, he⟩
    rw [hcurl] at he
    obtain rfl : w' = w.tell a [opt] := he
    refine wp_mono ih ?_
    rintro _ _ _ ⟨rfl, rfl⟩
    exact ⟨rfl, Told.tell_tell w a [opt] opts⟩

theorem curlListFree_told (k j : Nat) (m : Member) :
    wp (told lib k) (curlListFree j m) (fun _ rs' w' =>
      rs' = rs.update j (fun r => r.setMember m none) ∧ w' = w) rs w := by
  simp only [curlListFree, Program.wp_bind, wp_this]
  split
  · next hnone => exact ⟨(update_same rs j (setMember_none hnone)).symm, rfl⟩
  · rw [Program.wp_bind, Program.wp_perform]
    rintro _ _ rfl
    exact ⟨rfl, rfl⟩

/-- The entries are appended up to the first one that is refused. -/
theorem headersAppend_told (done : List String) (h : Listed i w₀ w)
    (hheld : Holds i w₀ w done (rs.req i).mpListHeader) (hdrs : List String) :
    wp (told lib i) (headersAppend i hdrs) (fun _ rs' w' => ∃ header strs,
      rs' = rs.update i (fun r => r.setMember .mpListHeader header) ∧ Listed i w₀ w' ∧
      Holds i w₀ w' strs header ∧ strs <+: done ++ hdrs ∧
      (strs = done ++ hdrs ∨ w'.refused i = true)) rs w := by
  have hkeep {rs : Requests} : rs = rs.update i fun r =>
      r.setMember .mpListHeader (rs.req i).mpListHeader := (update_same rs i rfl).symm
  induction hdrs generalizing rs w done with
  | nil =>
    rw [headersAppend, List.append_nil]
    exact ⟨_, done, hkeep, h, hheld, List.prefix_rfl, .inl rfl⟩
  | cons hdr hdrs ih =>
    simp only [headersAppend, Program.wp_bind, wp_this, Program.wp_perform]
    intro r w' he
    cases r with
    | none =>
      have hw' : w' = { w with refused := Function.update w.refused i true } := by
        cases hl : (rs.req i).mpListHeader <;> rw [hl] at he <;> exact he
      subst hw'
      refine ⟨_, done, hkeep, h.refuse, ?_, List.prefix_append .., .inr (Function.update_self ..)⟩
      cases hl : (rs.req i).mpListHeader <;> rw [hl] at hheld <;> exact hheld
    | some l =>
      cases hl : (rs.req i).mpListHeader with
      | none =>
        rw [hl] at he hheld
        obtain ⟨⟨hown, hnew⟩, rfl⟩ := he
        obtain rfl : done = [] := hheld
        have hnew₀ : l ∉ w₀.given := fun hmem => hnew (h.given l hmem)
        rw [Program.wp_bind, wp_assign]
        have hset : rs.update i (fun r =>
            if r.mpListHeader = none then { r with mpListHeader := some l } else r) =
            rs.update i fun r => r.setMember .mpListHeader (some l) := by
          simp only [Requests.update, hl, if_pos, setMember]
        rw [hset]
        refine wp_mono (ih [hdr] ((h.give l).list hown hnew₀ [hdr]) ?_) ?_
        · rw [update_req_self]
          exact ⟨hown, hnew₀, List.mem_cons_self, Function.update_self ..⟩
        · rintro _ _ w' ⟨header, strs, rfl, h', hheld', hpre, hall⟩
          exact ⟨header, strs, update_update .., h', hheld', hpre, hall⟩
      | some l' =>
        rw [hl] at he hheld
        obtain ⟨rfl, rfl⟩ := he
        obtain ⟨hown, hnew₀, hgiven, rfl⟩ := hheld
        rw [Program.wp_bind, wp_assign]
        have hsame : rs.update i (fun r =>
            if r.mpListHeader = none then { r with mpListHeader := some l } else r) = rs :=
          update_same rs i (if_neg (by rw [hl]; exact Option.some_ne_none l))
        rw [hsame]
        refine wp_mono (ih (w.strs l ++ [hdr]) (h.list hown hnew₀ _) ?_) ?_
        · rw [hl]
          exact ⟨hown, hnew₀, hgiven, Function.update_self ..⟩
        · rintro _ _ w' ⟨header, strs, rfl, h', hheld', hpre, hall⟩
          rw [List.append_assoc] at hpre hall
          exact ⟨header, strs, rfl, h', hheld', hpre, hall⟩

theorem Holds.headerList {hdrs strs : List String} {header : Option Resource}
    (h : Holds i w₀ w strs header) (hpre : strs <+: hdrs)
    (hall : strs = hdrs ∨ w.refused i = true) : HeaderList i w hdrs header := by
  cases header with
  | none =>
    obtain rfl : strs = [] := h
    exact hall.imp_left Eq.symm
  | some l =>
    obtain ⟨hown, -, hgiven, rfl⟩ := h
    exact ⟨hown, hgiven, hpre, hall⟩

theorem Listed.tell (h : Listed i w w') (a : Resource) (opts : List CurlOpt) :
    Listed i (w.tell a opts) (w'.tell a opts) :=
  { h with opts := by rw [Told.tell, Told.tell, h.opts] }

/-- Options before the lists and options after them. -/
theorem Listed.told {opts opts' : List CurlOpt} (h : Listed i (w.tell a opts) v)
    (h' : Listed i (v.tell a opts') w') : Listed i (w.tell a (opts ++ opts')) w' := by
  rw [← Told.tell_tell]
  exact (h.tell a opts').trans h'

theorem HeaderList.listed {hdrs : List String} {header : Option Resource}
    (h : HeaderList i w hdrs header) (hw : Listed i w w') : HeaderList i w' hdrs header := by
  cases header with
  | none => exact h.imp_right hw.refused_self
  | some l =>
    obtain ⟨hown, hgiven, hpre, hall⟩ := h
    rw [HeaderList, hw.strs l (.inr hgiven)]
    exact ⟨hown, hw.given l hgiven, hpre, hall.imp_right hw.refused_self⟩

theorem headersConfigure_told (hcurl : (rs.req i).mpCurl = some a) :
    wp (told lib i) (headersConfigure i) (fun _ rs' w' => ∃ header,
      rs' = rs.update i (fun r => r.setMember .mpListHeader header) ∧
      Listed i (w.tell a (header.toList.map .httpHeader)) w' ∧
      HeaderList i w' (rs.req i).mLstHdrs header) rs w := by
  rw [headersConfigure]
  refine wp_seq (curlListFree_told i i .mpListHeader) ?_
  rintro _ _ _ ⟨rfl, rfl⟩
  rw [Program.wp_bind, wp_this]
  refine wp_seq (headersAppend_told [] (Listed.refl i _) ?_ _) ?_
  · rw [update_req_self]
    rfl
  rintro _ _ v ⟨header, strs, rfl, h, hheld, hpre, hall⟩
  rw [update_update, Program.wp_bind, wp_this, update_req_self]
  rw [update_req_self] at hpre hall
  have hlist : HeaderList i v (rs.req i).mLstHdrs header := hheld.headerList hpre hall
  cases header with
  | none => exact ⟨none, rfl, { h with opts := by simp [Told.tell, h.opts] }, hlist⟩
  | some l =>
    refine wp_mono (setopts_told (a := a) ?_ _) ?_
    · rw [update_req_self]
      exact hcurl
    · rintro _ _ _ ⟨rfl, rfl⟩
      exact ⟨some l, rfl, h.tell a _, hlist⟩

/-- The name, the port and the address of the host are one entry. -/
theorem resolvConfigure_told (hcurl : (rs.req i).mpCurl = some a) :
    wp (told lib i) (resolvConfigure i) (fun _ rs' w' => ∃ resolv,
      rs' = rs.update i (fun r => r.setMember .mpListResolv resolv) ∧
      Listed i (w.tell a (resolv.toList.map .resolve)) w' ∧
      ResolvList i w' (rs.req i) resolv) rs w := by
  have hrest (resolv : Option Resource) {v : Told} (h : Listed i w v)
      (hlist : ResolvList i v (rs.req i) resolv) : wp (told lib i) (do
        match (← this i).mpListResolv with
        | none => return
        | some l => setopts i [.resolve l]) (fun _ rs' w' => ∃ resolv,
      rs' = rs.update i (fun r => r.setMember .mpListResolv resolv) ∧
      Listed i (w.tell a (resolv.toList.map .resolve)) w' ∧ ResolvList i w' (rs.req i) resolv)
      (rs.update i fun r => r.setMember .mpListResolv resolv) v := by
    rw [Program.wp_bind, wp_this, update_req_self]
    cases resolv with
    | none => exact ⟨none, rfl, { h with opts := by simp [Told.tell, h.opts] }, hlist⟩
    | some l =>
      refine wp_mono (setopts_told (a := a) ?_ _) ?_
      · rw [update_req_self]
        exact hcurl
      · rintro _ _ _ ⟨rfl, rfl⟩
        exact ⟨some l, rfl, h.tell a _, hlist⟩
  rw [resolvConfigure]
  refine wp_seq (curlListFree_told i i .mpListResolv) ?_
  rintro _ _ _ ⟨rfl, rfl⟩
  rw [Program.wp_bind, wp_this, update_req_self, Program.wp_ite]
  split
  · next hres =>
    rw [Program.wp_bind, Program.wp_perform]
    intro resolv v he
    rw [Program.wp_bind, wp_assign, update_update]
    refine hrest resolv ?_ ?_
    · cases resolv with
      | none => exact he ▸ (Listed.refl i _).refuse
      | some l =>
        obtain ⟨⟨hown, hnew⟩, rfl⟩ := he
        exact ((Listed.refl i _).give l).list hown hnew _
    · cases resolv with
      | none => exact fun _ => he ▸ Function.update_self ..
      | some l =>
        obtain ⟨⟨hown, hnew⟩, rfl⟩ := he
        exact ⟨hown, List.mem_cons_self, hres, Function.update_self ..⟩
  · next hres => exact hrest none (.refl i _) fun h => absurd h hres

/-- The request with its lists. -/
def withLists (header resolv : Option Resource) (r : HttpRequesting) : HttpRequesting :=
  { r with mpListHeader := header, mpListResolv := resolv }

/-- Lists were made and options were told besides, and request `r` has got these lists. -/
structure Configures (i : Nat) (a : Resource) (r : HttpRequesting) (opts : List CurlOpt)
    (header resolv : Option Resource) (w w' : Told) : Prop where
  listed : Listed i (w.tell a opts) w'
  headers : HeaderList i w' r.mLstHdrs header
  resolv : ResolvList i w' r resolv

/-- The handle is told all that is left after the TLS version. -/
theorem versionsConfigure_told (hcurl : (rs.req i).mpCurl = some a) :
    wp (told lib i) (versionsConfigure i) (fun success rs' w' => success = .positive ∧
      ∃ header resolv, rs' = rs.update i (withLists header resolv) ∧
        Configures i a (rs.req i) ((httpVersion (rs.req i).mVersionHttp).toList.map .httpVersion ++
          header.toList.map .httpHeader ++ resolv.toList.map .resolve ++
          optsContinued i (rs.req i)) header resolv w w') rs w := by
  have hrest (opts : List CurlOpt) : wp (told lib i) (do
      headersConfigure i
      resolvConfigure i
      setopts i (optsContinued i (← this i))
      return Success.positive) (fun success rs' w' => success = .positive ∧
      ∃ header resolv, rs' = rs.update i (withLists header resolv) ∧
        Configures i a (rs.req i) (opts ++ header.toList.map .httpHeader ++
          resolv.toList.map .resolve ++ optsContinued i (rs.req i)) header resolv w w')
      rs (w.tell a opts) := by
    refine wp_seq (headersConfigure_told hcurl) ?_
    rintro _ _ w₁ ⟨header, rfl, h₁, hheader⟩
    refine wp_seq (resolvConfigure_told (a := a) (by rwa [update_req_self])) ?_
    rintro _ _ w₂ ⟨resolv, rfl, h₂, hresolv⟩
    rw [update_update, Program.wp_bind, wp_this, update_req_self]
    rw [update_req_self] at hresolv
    refine wp_seq (setopts_told (a := a) (by rwa [update_req_self]) _) ?_
    rintro _ rs _ ⟨rfl, rfl⟩
    rw [Told.tell_tell] at h₁
    have hheader₂ : HeaderList i w₂ (rs.req i).mLstHdrs header :=
      HeaderList.listed (w := w₁.tell a _) hheader h₂
    exact ⟨rfl, header, resolv, rfl, (h₁.told h₂).told (.refl i _), hheader₂, hresolv⟩
  rw [versionsConfigure, Program.wp_bind, wp_this]
  cases hversion : httpVersion (rs.req i).mVersionHttp with
  | none =>
    have hnone := hrest []
    rwa [Told.tell, List.append_nil, Function.update_eq_self] at hnone
  | some v =>
    refine wp_seq (setopts_told hcurl _) ?_
    rintro _ rs _ ⟨rfl, rfl⟩
    exact hrest _

theorem errCleanupCurl_told :
    wp (told lib i) (errCleanupCurl i) (fun success rs' w' => success = .negative ∧
      (∀ j, Released (rs.req j) (rs'.req j)) ∧ w' = w) rs w := by
  rw [errCleanupCurl]
  refine wp_seq (curlListFree_told i i .mpListHeader) ?_
  rintro _ rs _ ⟨rfl, rfl⟩
  refine wp_seq (curlListFree_told i i .mpListResolv) ?_
  rintro _ rs _ ⟨rfl, rfl⟩
  rw [Program.wp_bind, wp_this, Program.wp_bind, Program.wp_perform]
  rintro _ _ rfl
  refine ⟨rfl, fun j => ?_, rfl⟩
  exact (Released.update (setMember_released _ _) j).trans
    (Released.update (setMember_released _ _) j)

/-- The handle is told the request, or else `process()` fails. -/
theorem easyHandleCurlConfigure_told (hcurl : (rs.req i).mpCurl = some a) :
    wp (told lib i) (easyHandleCurlConfigure i) (fun success rs' w' =>
      (success = .positive ∧ ∃ header resolv, rs' = rs.update i (withLists header resolv) ∧
        Configures i a (rs.req i) (requestOpts i (rs.req i) header resolv) header resolv w w') ∨
      (success = .negative ∧ (∀ j, Released (rs.req j) (rs'.req j)) ∧
        ∃ opts, w' = w.tell a opts)) rs w := by
  rw [easyHandleCurlConfigure, Program.wp_bind, wp_this, Program.wp_ite]
  rw [if_neg (by rw [hcurl]; exact Option.some_ne_none a)]
  refine wp_seq (setopts_told hcurl _) ?_
  rintro _ rs _ ⟨rfl, rfl⟩
  have hversions {v : Told} {opts : List CurlOpt} (hv : v = w.tell a opts)
      (hopts : opts = optsConnection (rs.req i) ++
        (sslVersion (rs.req i).versionTls).toList.map .sslVersion) :
      wp (told lib i) (versionsConfigure i) (fun success rs' w' =>
        (success = .positive ∧ ∃ header resolv, rs' = rs.update i (withLists header resolv) ∧
          Configures i a (rs.req i) (requestOpts i (rs.req i) header resolv) header resolv w w') ∨
        (success = .negative ∧ (∀ j, Released (rs.req j) (rs'.req j)) ∧
          ∃ opts, w' = w.tell a opts)) rs v := by
    refine wp_mono (versionsConfigure_told hcurl) ?_
    rintro _ _ w' ⟨rfl, header, resolv, rfl, h⟩
    refine .inl ⟨rfl, header, resolv, rfl, ?_, h.headers, h.resolv⟩
    have hlisted := h.listed
    rw [hv, Told.tell_tell, hopts] at hlisted
    simpa only [requestOpts, List.append_assoc] using hlisted
  cases hssl : sslVersion (rs.req i).versionTls with
  | some version =>
    refine wp_seq (setopts_told hcurl _) ?_
    rintro _ rs _ ⟨rfl, rfl⟩
    exact hversions (Told.tell_tell ..) (by rw [hssl]; rfl)
  | none =>
    rw [Program.wp_ite]
    split
    · refine wp_mono errCleanupCurl_told ?_
      rintro _ _ _ ⟨rfl, hreq, rfl⟩
      exact .inr ⟨rfl, hreq, _, rfl⟩
    · exact hversions rfl (by rw [hssl]; exact (List.append_nil _).symm)

end HttpRequesting

end ProcessingCommon

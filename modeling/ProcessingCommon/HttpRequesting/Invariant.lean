import Mathlib.Data.List.Nodup
import ProcessingCommon.HttpRequesting.System

/-!
# What holds between the requests and libcurl

`ReqOk` is about one request and what libcurl knows of its handle, so that a step which
works on one request leaves the others as they are (`Elsewhere`). `Accounts` is the ledger, which is
in order as long as every TLS version is known: then a pointer means what it was given for.
-/

namespace ProcessingCommon

namespace HttpRequesting

open Ledger (Event Books heldAfter)
open Program (wp rounds each wp_mono wp_seq)

/-- The completions of request `i`. -/
def own (i : Nat) (ms : List CURLMsg) : List CURLMsg := ms.filter fun m => m.easyHandle.owner = i

/-- The result members after these completions. -/
def Outcome (coded : Prop) (r : HttpRequesting) : List CURLMsg → Prop
  | [] => r.mDoneCurl = .pending ∧ r.mCurlRes = CURLE_OK ∧ r.mRespCode = 0
  | [m] => r.mDoneCurl = .positive ∧ r.mCurlRes = m.result ∧ (coded → r.mRespCode = m.respCode) ∧
    r.mpCurl = none
  | _ => False

theorem Outcome.congr {coded : Prop} {r r' : HttpRequesting} {ms : List CURLMsg}
    (h : Outcome coded r ms) (hcurl : r.mpCurl = none → r'.mpCurl = none)
    (hdone : r'.mDoneCurl = r.mDoneCurl) (hres : r'.mCurlRes = r.mCurlRes)
    (hcode : r'.mRespCode = r.mRespCode) : Outcome coded r' ms := by
  match ms with
  | [] => rwa [Outcome, hdone, hres, hcode]
  | [m] =>
    rw [Outcome, hdone, hres, hcode]
    exact ⟨h.1, h.2.1, h.2.2.1, hcurl h.2.2.2⟩
  | _ :: _ :: _ => exact h

def System.handle (s : System) (i : Nat) : Option Resource := (s.requests.req i).mpCurl

/-- The handle names its request. -/
def Named (i : Nat) (r : HttpRequesting) (w : Curl) : Prop :=
  ∀ a, r.mpCurl = some a → w.priv a = some i

/-- Nothing of libcurl is left but the handle. -/
def Down (r : HttpRequesting) : Prop :=
  r.mCurlBound = false ∧ r.mpListHeader = none ∧ r.mpListResolv = none

/-- The state of a request while a step from `old` is under way. -/
structure ReqOk (coded : Prop) (old : System) (i : Nat) (r : HttpRequesting) (w : Curl) : Prop where
  unborn : old.phase i = .unborn → r = {}
  owned : ∀ m a, r.member m = some a → a.owner = i
  down : old.phase i ≠ .running → Down r
  gone : old.phase i = .gone → r.mpCurl = none
  named : r.mState = .stEasyBind → Named i r w
  attached : ∀ a, a.owner = i → w.attached a = true →
    r.mCurlBound = true ∧ r.mpCurl = some a ∧ w.priv a = some i
  outcome : Outcome coded r (own i w.consumed)
  handle : r.mpCurl = old.handle i ∨ r.mpCurl = none

/-- What libcurl knows of the other requests stays. -/
structure Elsewhere (i : Nat) (w w' : Curl) : Prop where
  attached : ∀ a, a.owner ≠ i → w'.attached a = w.attached a
  priv : ∀ a, a.owner ≠ i → w'.priv a = w.priv a
  consumed : ∀ j, j ≠ i → own j w'.consumed = own j w.consumed

/-- The completions of the step are of running requests and of their own handles. -/
def Grown (old : System) (w : Curl) : Prop :=
  ∃ ms, w.consumed = old.curl.consumed ++ ms ∧ ∀ m ∈ ms,
    old.phase m.easyHandle.owner = .running ∧ old.handle m.easyHandle.owner = some m.easyHandle

structure Base (coded : Prop) (old : System) (rs : Requests) (w : Curl) : Prop where
  req : ∀ i, ReqOk coded old i (rs.req i) w
  msgs : ∀ m ∈ w.msgs, w.attached m.easyHandle = true
  grown : Grown old w

/-- The members as the variables of the ledger. -/
def slot (rs : Requests) (k : Nat × Member) : Option Resource := (rs.req k.1).member k.2

structure Accounts (rs : Requests) (w : Curl) : Prop where
  books : Books (slot rs) w.trace
  placed : (w.held.map Resource.addr).Nodup
  clean : w.cleanedAttached = []

def Inv (coded : Prop) (old : System) (rs : Requests) (w : Curl) : Prop :=
  Base coded old rs w ∧ Accounts rs w

variable {coded : Prop} {old : System} {rs rs' : Requests} {w w' : Curl}
  {i j : Nat} {r r' : HttpRequesting} {f g : HttpRequesting → HttpRequesting}

/-! ## Requests -/

theorem update_req (rs : Requests) (i j : Nat) (f : HttpRequesting → HttpRequesting) :
    (rs.update i f).req j = if j = i then f (rs.req i) else rs.req j := by
  simp only [Requests.update, Function.update_apply]

@[simp] theorem update_req_self (rs : Requests) (i : Nat) (f : HttpRequesting → HttpRequesting) :
    (rs.update i f).req i = f (rs.req i) := Function.update_self ..

theorem update_update (rs : Requests) (i : Nat) (f g : HttpRequesting → HttpRequesting) :
    (rs.update i f).update i g = rs.update i fun r => g (f r) := by
  simp only [Requests.update, Function.update_self, Function.update_idem]

theorem update_same (rs : Requests) (i : Nat) (h : f (rs.req i) = rs.req i) :
    rs.update i f = rs := by
  simp only [Requests.update, h, Function.update_eq_self]

theorem setMember_none {m : Member} (h : r.member m = none) : r.setMember m none = r := by
  cases m <;> cases r <;> cases h <;> rfl

theorem member_setMember (r : HttpRequesting) (m m' : Member) (p : Option Resource) :
    (r.setMember m p).member m' = if m' = m then p else r.member m' := by
  cases m <;> cases m' <;> rfl

theorem slot_update (rs : Requests) (i : Nat)
    (hf : ∀ m, (f (rs.req i)).member m = (rs.req i).member m) :
    slot (rs.update i f) = slot rs := by
  funext ⟨j, m⟩
  rw [slot, slot, update_req]
  split
  · next h => rw [hf, h]
  · rfl

theorem slot_update_member (rs : Requests) (i : Nat) (m : Member) (p : Option Resource)
    (hf : ∀ m', (f (rs.req i)).member m' = if m' = m then p else (rs.req i).member m') :
    slot (rs.update i f) = Function.update (slot rs) (i, m) p := by
  funext ⟨j, m'⟩
  rw [slot, update_req, Function.update_apply, slot]
  by_cases hj : j = i
  · subst hj
    rw [if_pos rfl, hf]
    by_cases hm : m' = m
    · rw [if_pos hm, if_pos (by rw [hm])]
    · rw [if_neg hm, if_neg fun h => hm (Prod.mk.inj h).2]
  · rw [if_neg hj, if_neg fun h => hj (Prod.mk.inj h).1]

theorem slot_setMember (rs : Requests) (i : Nat) (m : Member) (p : Option Resource) :
    slot (rs.update i fun r => r.setMember m p) = Function.update (slot rs) (i, m) p :=
  slot_update_member rs i m p fun m' => member_setMember _ m m' p

/-! ## The ledger -/

namespace Accounts

variable {k : Nat × Member} {a : Resource} {p : Option Resource}

/-- A pointer in a member means what it was given for. -/
theorem target (h : Accounts rs w) (hk : slot rs k = some a) : w.target a = a := by
  have hheld : a ∈ w.held := h.books.mem hk
  have hsome : (w.held.find? fun b => b.addr = a.addr).isSome = true :=
    List.find?_isSome.mpr ⟨a, hheld, decide_eq_true rfl⟩
  obtain ⟨b, hb⟩ := Option.isSome_iff_exists.mp hsome
  have haddr := List.find?_some (p := fun b : Resource => decide (b.addr = a.addr)) hb
  rw [Curl.target, hb, Option.getD_some]
  exact List.inj_on_of_nodup_map h.placed (List.mem_of_find?_eq_some hb) hheld
    (of_decide_eq_true haddr)

theorem target_member (h : Accounts rs w) (i : Nat) (m : Member) :
    ((rs.req i).member m).map w.target = (rs.req i).member m := by
  cases hp : (rs.req i).member m with
  | none => rfl
  | some a => rw [Option.map_some, h.target (k := (i, m)) hp]

theorem target_mpCurl (h : Accounts rs w) (i : Nat) :
    (rs.req i).mpCurl.map w.target = (rs.req i).mpCurl := h.target_member i .mpCurl

/-- The ledger knows nothing of attached handles and messages. -/
theorem congr (h : Accounts rs w) (htrace : w'.trace = w.trace)
    (hclean : w'.cleanedAttached = w.cleanedAttached) : Accounts rs w' := by
  refine ⟨htrace ▸ h.books, ?_, hclean ▸ h.clean⟩
  rw [Curl.held, htrace]
  exact h.placed

theorem kept (h : Accounts rs w)
    (hf : ∀ m, (f (rs.req i)).member m = (rs.req i).member m) : Accounts (rs.update i f) w :=
  ⟨slot_update rs i hf ▸ h.books, h.placed, h.clean⟩

theorem use (h : Accounts rs w) (hk : slot rs k = some a) : Accounts rs (w.note (.use a)) := by
  refine ⟨h.books.use hk, ?_, h.clean⟩
  rw [Curl.held, Curl.note, Ledger.heldAfter_append]
  exact h.placed

theorem release (h : Accounts rs w) (hk : slot rs k = some a)
    (hslot : slot rs' = Function.update (slot rs) k none) :
    Accounts rs' (w.note (.release a)) := by
  refine ⟨hslot ▸ h.books.release hk, ?_, h.clean⟩
  rw [Curl.held, Curl.note, Ledger.heldAfter_append]
  exact h.placed.sublist (List.erase_sublist.map Resource.addr)

/-- A handle that is not attached is cleaned up, and its member is reset. -/
theorem cleanup (h : Accounts rs w) (hk : slot rs k = some a) (hatt : w.attached a = false)
    (hslot : slot rs' = Function.update (slot rs) k none) : Accounts rs' (w.cleanup a) := by
  have hrel := h.release hk hslot
  refine ⟨hrel.books, hrel.placed, ?_⟩
  change (if w.attached a then _ else w.cleanedAttached) = []
  rw [hatt]
  exact h.clean

theorem acquire (h : Accounts rs w) (hk : slot rs k = none) {kind : Kind} (ha : w.New kind i a)
    (hslot : slot rs' = Function.update (slot rs) k (some a)) :
    Accounts rs' (w.note (.acquire a)) := by
  have hnew : a ∉ heldAfter [] w.trace := fun hheld =>
    ha.2.2.1 ((Ledger.mem_heldAfter hheld).resolve_left List.not_mem_nil)
  refine ⟨hslot ▸ h.books.acquire hk hnew, ?_, h.clean⟩
  rw [Curl.held, Curl.note, Ledger.heldAfter_append]
  refine List.nodup_cons.mpr ⟨fun hmem => ?_, h.placed⟩
  obtain ⟨b, hb, haddr⟩ := List.mem_map.mp hmem
  exact ha.2.2.2 b hb haddr

end Accounts

/-! ## Steps of one request -/

theorem Elsewhere.refl (i : Nat) (w : Curl) : Elsewhere i w w :=
  ⟨fun _ _ => rfl, fun _ _ => rfl, fun _ _ => rfl⟩

theorem ReqOk.elsewhere (h : ReqOk coded old j r w) (hj : j ≠ i) (he : Elsewhere i w w') :
    ReqOk coded old j r w' := by
  have hown : ∀ a : Resource, a.owner = j → a.owner ≠ i := fun a ha hi => hj (ha.symm.trans hi)
  exact { h with
    named := fun hst a ha => (he.priv a (hown a (h.owned .mpCurl a ha))).trans (h.named hst a ha)
    attached := fun a ha hatt => by
      rw [he.attached a (hown a ha)] at hatt
      rw [he.priv a (hown a ha)]
      exact h.attached a ha hatt
    outcome := by
      rw [he.consumed j hj]
      exact h.outcome }

theorem Base.change (h : Base coded old rs w) (he : Elsewhere i w w')
    (hr : ReqOk coded old i (rs.req i) w → ReqOk coded old i (f (rs.req i)) w')
    (hm : ∀ m ∈ w'.msgs, w'.attached m.easyHandle = true) (hg : Grown old w') :
    Base coded old (rs.update i f) w' := by
  refine ⟨fun j => ?_, hm, hg⟩
  rw [update_req]
  split
  · next hj =>
    subst hj
    exact hr (h.req j)
  · next hj => exact (h.req j).elsewhere hj he

/-- The members that libcurl has nothing to do with. -/
structure Kept (r r' : HttpRequesting) : Prop where
  member : ∀ m, r'.member m = r.member m
  mCurlBound : r'.mCurlBound = r.mCurlBound
  mDoneCurl : r'.mDoneCurl = r.mDoneCurl
  mCurlRes : r'.mCurlRes = r.mCurlRes
  mRespCode : r'.mRespCode = r.mRespCode

theorem ReqOk.kept (h : ReqOk coded old i r w) (hph : old.phase i ≠ .unborn) (hk : Kept r r')
    (hn : r'.mState = .stEasyBind → Named i r w) : ReqOk coded old i r' w := by
  have hcurl : r'.mpCurl = r.mpCurl := hk.member .mpCurl
  have hheader : r'.mpListHeader = r.mpListHeader := hk.member .mpListHeader
  have hresolv : r'.mpListResolv = r.mpListResolv := hk.member .mpListResolv
  exact {
    unborn := fun h => absurd h hph
    owned := fun m a ha => h.owned m a ((hk.member m).symm.trans ha)
    down := by rw [Down, hk.mCurlBound, hheader, hresolv]; exact h.down
    gone := by rw [hcurl]; exact h.gone
    named := fun hst a ha => hn hst a (hcurl.symm.trans ha)
    attached := by rw [hk.mCurlBound, hcurl]; exact h.attached
    outcome := h.outcome.congr hcurl.trans hk.mDoneCurl hk.mCurlRes hk.mRespCode
    handle := by rw [hcurl]; exact h.handle }

theorem Inv.kept (h : Inv coded old rs w) (hph : old.phase i ≠ .unborn)
    (hk : Kept (rs.req i) (f (rs.req i)))
    (hn : (f (rs.req i)).mState = .stEasyBind → Named i (rs.req i) w) :
    Inv coded old (rs.update i f) w := by
  exact ⟨h.1.change (Elsewhere.refl i w) (fun hr => hr.kept hph hk hn) h.1.msgs h.1.grown,
    h.2.kept hk.member⟩

/-- A pointer of a member is used. -/
theorem Inv.use (h : Inv coded old rs w) {p : Option Resource} {m : Member}
    (hp : p = (rs.req i).member m) : Inv coded old rs (w.use p) := by
  cases p with
  | none => exact h
  | some a =>
    exact ⟨⟨fun j => { h.1.req j with }, h.1.msgs, h.1.grown⟩, h.2.use (k := (i, m)) hp.symm⟩

/-! ## Options -/

/-- A list that an option names is in its member, and the private data are the request. -/
def OptOk (i : Nat) (r : HttpRequesting) : CurlOpt → Prop
  | .httpHeader l => r.mpListHeader = some l
  | .resolve l => r.mpListResolv = some l
  | .privateData j => j = i
  | _ => True

theorem Inv.privateData (h : Inv coded old rs w) :
    Inv coded old rs (w.setopt (rs.req i).mpCurl (.privateData i)) := by
  have hu := h.use (i := i) (m := .mpCurl) rfl
  cases hp : (rs.req i).mpCurl with
  | none => exact h
  | some a =>
    rw [show (rs.req i).member .mpCurl = some a from hp] at hu
    have ha : a.owner = i := (h.1.req i).owned .mpCurl a hp
    have helse : Elsewhere i (w.use (some a)) (w.setopt (some a) (.privateData i)) :=
      ⟨fun _ _ => rfl, fun b hb => Function.update_of_ne (by rintro rfl; exact hb ha) ..,
        fun _ _ => rfl⟩
    have hself : rs.update i id = rs := update_same rs i rfl
    refine ⟨?_, hu.2.congr rfl rfl⟩
    rw [← hself]
    refine hu.1.change helse (fun hr => ?_) hu.1.msgs hu.1.grown
    exact { hr with
      named := fun _ b hb => by
        obtain rfl : b = a := Option.some.inj (hb.symm.trans hp)
        exact Function.update_self ..
      attached := fun b hb hatt => by
        obtain ⟨hbound, hcurl, -⟩ := hr.attached b hb hatt
        obtain rfl : b = a := Option.some.inj (hcurl.symm.trans hp)
        exact ⟨hbound, hcurl, Function.update_self ..⟩ }

theorem Inv.setopt (h : Inv coded old rs w) {opt : CurlOpt} (ho : OptOk i (rs.req i) opt) :
    Inv coded old rs (w.setopt (rs.req i).mpCurl opt) := by
  have hu := h.use (i := i) (m := .mpCurl) rfl
  cases opt with
  | httpHeader l => exact hu.use (i := i) (m := .mpListHeader) ho.symm
  | resolve l => exact hu.use (i := i) (m := .mpListResolv) ho.symm
  | privateData j =>
    obtain rfl : j = i := ho
    exact h.privateData
  | _ => exact hu

/-- Once it is named, and after the private data are set, the handle names its request. -/
theorem named_setopt {opt : CurlOpt} (h : opt = .privateData i ∨ Named i r w)
    (ho : OptOk i r opt) : Named i r (w.setopt r.mpCurl opt) := by
  intro a ha
  rcases h with rfl | h
  · rw [ha]
    exact Function.update_self ..
  · have hn := h a ha
    rw [ha]
    cases opt with
    | privateData j =>
      obtain rfl : j = i := ho
      exact Function.update_self ..
    | _ => exact hn

/-- The lists that an option names mean what they were given for. -/
theorem OptOk.target {opt : CurlOpt} (ho : OptOk i (rs.req i) opt) (h : Accounts rs w) :
    opt.map w.target = opt := by
  cases opt with
  | httpHeader l => rw [CurlOpt.map, h.target (k := (i, .mpListHeader)) ho]
  | resolve l => rw [CurlOpt.map, h.target (k := (i, .mpListResolv)) ho]
  | _ => rfl

/-- The option is taken, or it is refused and is not the private data. -/
theorem Inv.setopt_answer (h : Inv coded old rs w) {opt : CurlOpt} (ho : OptOk i (rs.req i) opt)
    {taken : Bool}
    (he : env (Obeyed coded) i w (.easySetopt (rs.req i).mpCurl opt) taken w') :
    Inv coded old rs w' ∧
      (opt = .privateData i ∨ Named i (rs.req i) w → Named i (rs.req i) w') := by
  obtain ⟨hok, rfl⟩ := he
  rw [h.2.target_mpCurl, ho.target h.2]
  cases taken with
  | true => exact ⟨h.setopt ho, fun hn => named_setopt hn ho⟩
  | false =>
    refine ⟨h.use (i := i) (m := .mpCurl) rfl, fun hn a ha => ?_⟩
    rcases hn with rfl | hn
    · exact Bool.noConfusion hok
    · rw [ha]
      exact hn a ha

theorem Inv.setopts (h : Inv coded old rs w) {opts : List CurlOpt}
    (ho : ∀ opt ∈ opts, OptOk i (rs.req i) opt) :
    wp (env (Obeyed coded) i) (setopts i opts) (fun _ rs' w' => rs' = rs ∧ Inv coded old rs w' ∧
      (.privateData i ∈ opts ∨ Named i (rs.req i) w → Named i (rs.req i) w')) rs w := by
  rw [HttpRequesting.setopts]
  induction opts generalizing w with
  | nil => exact ⟨rfl, h, fun hn => hn.resolve_left (List.not_mem_nil)⟩
  | cons opt opts ih =>
    simp only [each, Program.wp_bind, wp_this, Program.wp_perform, Program.wp_pure]
    intro taken w' he
    obtain ⟨h', hname⟩ := h.setopt_answer (ho opt List.mem_cons_self) he
    refine wp_mono (ih h' fun o hm => ho o (List.mem_cons_of_mem _ hm)) ?_
    rintro _ _ w' ⟨rfl, h', hn⟩
    refine ⟨rfl, h', fun hmem => hn ?_⟩
    rcases hmem with hmem | hnamed
    · rcases List.mem_cons.mp hmem with rfl | hmem
      · exact .inr (hname (.inl rfl))
      · exact .inl hmem
    · exact .inr (hname (.inr hnamed))

/-! ## Lists -/

theorem ReqOk.dropList (h : ReqOk coded old i r w) {m : Member} (hm : m ≠ .mpCurl) :
    ReqOk coded old i (r.setMember m none) w := by
  have hown : ∀ m' a, (r.setMember m none).member m' = some a → a.owner = i := by
    intro m' a ha
    rw [member_setMember] at ha
    split at ha
    · cases ha
    · exact h.owned m' a ha
  cases m with
  | mpCurl => exact absurd rfl hm
  | mpListHeader =>
    exact { h with
      unborn := fun hu => by rw [h.unborn hu]; rfl
      owned := hown
      down := fun hd => ⟨(h.down hd).1, rfl, (h.down hd).2.2⟩
      outcome := h.outcome.congr id rfl rfl rfl }
  | mpListResolv =>
    exact { h with
      unborn := fun hu => by rw [h.unborn hu]; rfl
      owned := hown
      down := fun hd => ⟨(h.down hd).1, (h.down hd).2.1, rfl⟩
      outcome := h.outcome.congr id rfl rfl rfl }

/-- The list of a member is freed, and the member is reset. -/
theorem curlListFree_spec (k j : Nat) (m : Member) (rs : Requests) (w : Curl) :
    wp (env (Obeyed coded) k) (curlListFree j m) (fun _ rs' w' =>
      rs' = rs.update j (fun r => r.setMember m none) ∧ (∃ t, w' = { w with trace := t }) ∧
      (Accounts rs w → Accounts rs' w')) rs w := by
  simp only [HttpRequesting.curlListFree, Program.wp_bind, wp_this]
  split
  · next hnone =>
    have hsame : rs.update j (fun r => r.setMember m none) = rs :=
      update_same rs j (setMember_none hnone)
    rw [hsame]
    exact ⟨rfl, ⟨w.trace, rfl⟩, id⟩
  · next l hl =>
    rw [Program.wp_bind, Program.wp_perform]
    rintro _ w' ⟨-, rfl⟩
    refine ⟨rfl, ⟨_, rfl⟩, fun h => ?_⟩
    have hk : slot rs (j, m) = some l := hl
    rw [h.target hk]
    exact h.release hk (slot_setMember ..)

theorem Inv.curlListFree (h : Inv coded old rs w) {m : Member} (hm : m ≠ .mpCurl) (k j : Nat) :
    wp (env (Obeyed coded) k) (curlListFree j m) (fun _ rs' w' =>
      rs' = rs.update j (fun r => r.setMember m none) ∧ Inv coded old rs' w') rs w := by
  refine wp_mono (curlListFree_spec k j m rs w) ?_
  rintro _ _ _ ⟨rfl, ⟨t, rfl⟩, hacc⟩
  refine ⟨rfl, ?_, hacc h.2⟩
  refine h.1.change ⟨fun _ _ => rfl, fun _ _ => rfl, fun _ _ => rfl⟩ (fun hr => ?_) h.1.msgs
    h.1.grown
  exact { hr.dropList hm with }

/-- A new list goes to a member. -/
theorem Inv.listNew (h : Inv coded old rs w) (hph : old.phase i = .running) {m : Member}
    (hm : m ≠ .mpCurl) (hnone : (rs.req i).member m = none) {a : Resource}
    (ha : w.New .slist i a) :
    Inv coded old (rs.update i fun r => r.setMember m (some a)) (w.note (.acquire a)) := by
  refine ⟨h.1.change ⟨fun _ _ => rfl, fun _ _ => rfl, fun _ _ => rfl⟩ (fun hr => ?_) h.1.msgs
    h.1.grown, h.2.acquire (k := (i, m)) hnone ha (slot_setMember ..)⟩
  · have hown : ∀ m' b, ((rs.req i).setMember m (some a)).member m' = some b → b.owner = i := by
      intro m' b hb
      rw [member_setMember] at hb
      split at hb
      · rw [← Option.some.inj hb]
        exact ha.2.1
      · exact hr.owned m' b hb
    have hborn : old.phase i ≠ .unborn := by rw [hph]; decide
    cases m with
    | mpCurl => exact absurd rfl hm
    | mpListHeader =>
      exact { hr with
        unborn := fun hu => absurd hu hborn
        owned := hown
        down := fun hd => absurd hph hd
        outcome := hr.outcome.congr id rfl rfl rfl }
    | mpListResolv =>
      exact { hr with
        unborn := fun hu => absurd hu hborn
        owned := hown
        down := fun hd => absurd hph hd
        outcome := hr.outcome.congr id rfl rfl rfl }

theorem Inv.headersAppend (h : Inv coded old rs w) (hph : old.phase i = .running)
    (hdrs : List String) :
    wp (env (Obeyed coded) i) (headersAppend i hdrs) (fun _ => Inv coded old) rs w := by
  induction hdrs generalizing rs w with
  | nil => exact h
  | cons hdr hdrs ih =>
    simp only [HttpRequesting.headersAppend, Program.wp_bind, wp_this, Program.wp_perform]
    rintro r w' ⟨-, he⟩
    cases hl : (rs.req i).mpListHeader with
    | none =>
      rw [hl] at he
      match r with
      | none =>
        obtain rfl := he
        exact h
      | some a =>
        obtain ⟨hnew, rfl⟩ := he
        have h' := h.listNew hph (m := .mpListHeader) (by decide) hl hnew
        rw [Program.wp_bind, wp_assign]
        have hsame : rs.update i (fun r =>
            if r.mpListHeader = none then { r with mpListHeader := some a } else r) =
            rs.update i fun r => r.setMember .mpListHeader (some a) := by
          simp only [Requests.update, hl, if_pos, setMember]
        rw [hsame]
        exact ih h'
    | some l =>
      rw [hl] at he
      have hu := h.use (i := i) (m := .mpListHeader) hl.symm
      have htarget : w.target l = l := h.2.target (k := (i, .mpListHeader)) hl
      match r with
      | none =>
        obtain rfl := he
        rw [Option.map_some, htarget]
        exact hu
      | some a =>
        obtain ⟨rfl, rfl⟩ := he
        -- libcurl appends in place: the list keeps its pointer
        rw [htarget]
        rw [Program.wp_bind, wp_assign]
        have hsame : rs.update i (fun r =>
            if r.mpListHeader = none then { r with mpListHeader := some a } else r) = rs :=
          update_same rs i (if_neg (by rw [hl]; exact Option.some_ne_none a))
        rw [hsame]
        exact ih hu

theorem Inv.headersConfigure (h : Inv coded old rs w) (hph : old.phase i = .running) :
    wp (env (Obeyed coded) i) (headersConfigure i) (fun _ => Inv coded old) rs w := by
  rw [HttpRequesting.headersConfigure]
  refine wp_seq (h.curlListFree (by decide) i i) ?_
  rintro _ rs₁ w₁ ⟨-, h₁⟩
  rw [Program.wp_bind, wp_this]
  refine wp_seq (h₁.headersAppend hph _) fun _ rs₂ w₂ h₂ => ?_
  rw [Program.wp_bind, wp_this]
  split
  · exact h₂
  · next l hl =>
    refine wp_mono (h₂.setopts fun opt ho => ?_) ?_
    · rw [List.mem_singleton.mp ho]
      exact hl
    · rintro _ _ w₃ ⟨rfl, h₃, -⟩
      exact h₃

theorem Inv.resolvConfigure (h : Inv coded old rs w) (hph : old.phase i = .running) :
    wp (env (Obeyed coded) i) (resolvConfigure i) (fun _ => Inv coded old) rs w := by
  have hset : ∀ {rs w l}, Inv coded old rs w → (rs.req i).mpListResolv = some l →
      wp (env (Obeyed coded) i) (HttpRequesting.setopts i [.resolve l])
        (fun _ => Inv coded old) rs w := by
    intro rs w l h hl
    refine wp_mono (h.setopts fun opt ho => ?_) ?_
    · rw [List.mem_singleton.mp ho]
      exact hl
    · rintro _ _ w' ⟨rfl, h', -⟩
      exact h'
  rw [HttpRequesting.resolvConfigure]
  refine wp_seq (h.curlListFree (by decide) i i) ?_
  rintro _ rs₁ w₁ ⟨rfl, h₁⟩
  rw [Program.wp_bind, wp_this, Program.wp_ite]
  split
  · rw [Program.wp_bind, Program.wp_perform]
    rintro l w₂ ⟨-, he⟩
    rw [Program.wp_bind, wp_assign]
    -- the old list is freed and its pointer cleared, so the new one has a free place
    have hnone : ((rs.update i fun r => r.setMember .mpListResolv none).req i).mpListResolv =
        none := by
      rw [update_req_self]
      rfl
    have h₂ : Inv coded old ((rs.update i fun r => r.setMember .mpListResolv none).update i
        fun r => r.setMember .mpListResolv l) w₂ := by
      cases l with
      | none =>
        obtain rfl := he
        rw [update_same _ i (setMember_none (m := .mpListResolv) hnone)]
        exact h₁
      | some a =>
        obtain ⟨hnew, rfl⟩ := he
        exact h₁.listNew hph (m := .mpListResolv) (by decide) hnone hnew
    change wp _ _ _ (Requests.update _ i fun r => r.setMember .mpListResolv l) _
    simp only [Program.wp_bind, wp_this]
    split
    · exact h₂
    · next l hl => exact hset h₂ hl
  · simp only [Program.wp_bind, wp_this]
    split
    · exact h₁
    · next l hl => exact hset h₁ hl

theorem Inv.versionsConfigure (h : Inv coded old rs w) (hph : old.phase i = .running) :
    wp (env (Obeyed coded) i) (versionsConfigure i) (fun _ rs' w' => Inv coded old rs' w' ∧
      Named i (rs'.req i) w') rs w := by
  -- what comes after the version of HTTP, whether one is set or not
  have hrest : ∀ {rs w}, Inv coded old rs w → wp (env (Obeyed coded) i) (do
      HttpRequesting.headersConfigure i
      HttpRequesting.resolvConfigure i
      HttpRequesting.setopts i (optsContinued i (← this i))
      return Success.positive) (fun _ rs' w' => Inv coded old rs' w' ∧
        Named i (rs'.req i) w') rs w := by
    intro rs w h
    refine wp_seq (h.headersConfigure hph) fun _ rs₁ w₁ h₁ => ?_
    refine wp_seq (h₁.resolvConfigure hph) fun _ rs₂ w₂ h₂ => ?_
    rw [Program.wp_bind, wp_this]
    refine wp_seq (h₂.setopts fun opt ho => ?_) ?_
    · simp only [optsContinued, List.mem_append, List.mem_ite_nil_right, List.mem_cons,
        List.not_mem_nil, or_false] at ho
      rcases ho with ((⟨-, rfl | rfl⟩ | ⟨-, rfl⟩) | rfl | rfl | rfl | rfl | rfl) | ⟨-, rfl | rfl⟩ <;>
        trivial
    · rintro _ _ w₃ ⟨rfl, h₃, hn⟩
      refine ⟨h₃, hn (.inl ?_)⟩
      simp only [optsContinued, List.mem_append, List.mem_cons]
      tauto
  rw [HttpRequesting.versionsConfigure, Program.wp_bind, wp_this]
  split
  · exact hrest h
  · refine wp_seq (h.setopts fun opt ho => ?_) ?_
    · rw [List.mem_singleton.mp ho]
      trivial
    · rintro _ _ w₁ ⟨rfl, h₁, -⟩
      exact hrest h₁

/-- The default is known too. -/
theorem tls_known (h : r.mVersionTls = "" ∨ (sslVersion r.mVersionTls).isSome) :
    r.versionTls = "" ∨ (sslVersion r.versionTls).isSome := by
  rw [versionTls, orKept]
  split
  · split
    · exact .inr rfl
    · exact .inl rfl
  · exact h

theorem Inv.easyHandleCurlConfigure (h : Inv coded old rs w) (hph : old.phase i = .running)
    (htls : (rs.req i).mVersionTls = "" ∨ (sslVersion (rs.req i).mVersionTls).isSome) :
    wp (env (Obeyed coded) i) (easyHandleCurlConfigure i) (fun s rs' w' => Inv coded old rs' w' ∧
      (s = .positive → Named i (rs'.req i) w')) rs w := by
  rw [HttpRequesting.easyHandleCurlConfigure, Program.wp_bind, wp_this, Program.wp_ite]
  split
  · exact ⟨h, fun h => nomatch h⟩
  refine wp_seq (h.setopts fun opt ho => ?_) ?_
  · simp only [optsConnection, List.mem_append, List.mem_ite_nil_right, List.mem_cons,
      List.not_mem_nil, or_false] at ho
    rcases ho with ((rfl | ⟨-, rfl⟩) | ⟨-, rfl⟩) | ⟨-, rfl | rfl | rfl⟩ <;> trivial
  rintro _ _ w₁ ⟨rfl, h₁, -⟩
  have hversions := fun {rs w} (h : Inv coded old rs w) =>
    wp_mono (h.versionsConfigure hph) fun s rs' w' h =>
      (⟨h.1, fun _ => h.2⟩ : Inv coded old rs' w' ∧ (s = .positive → Named i (rs'.req i) w'))
  split
  · refine wp_seq (h₁.setopts fun opt ho => ?_) ?_
    · rw [List.mem_singleton.mp ho]
      trivial
    · rintro _ _ w₂ ⟨rfl, h₂, -⟩
      exact hversions h₂
  · next hnone =>
    rw [Program.wp_ite]
    split
    · next hne =>
      -- the error path that leaves the pointer of a handle that is gone
      rcases tls_known htls with heq | hsome
      · exact absurd heq hne
      · rw [hnone] at hsome
        cases hsome
    · exact hversions h₁

/-- The handle is attached, and the request knows it. -/
theorem Inv.attach (h : Inv coded old rs w) (hph : old.phase i = .running) {a : Resource}
    (ha : (rs.req i).mpCurl = some a) (hn : Named i (rs.req i) w) :
    Inv coded old (rs.update i fun r => { r with mCurlBound := true })
      ((w.use (some a)).attach a) := by
  have hown : a.owner = i := (h.1.req i).owned .mpCurl a ha
  have hne : ∀ b : Resource, b.owner ≠ i → b ≠ a := fun b hb hba => hb (hba ▸ hown)
  have hu := h.use (i := i) (m := .mpCurl) ha.symm
  have hmember : ∀ m, member { rs.req i with mCurlBound := true } m = (rs.req i).member m :=
    fun m => by cases m <;> rfl
  refine ⟨?_, (hu.2.kept hmember).congr rfl rfl⟩
  refine hu.1.change ⟨fun b hb => Function.update_of_ne (hne b hb) .., fun _ _ => rfl,
    fun _ _ => rfl⟩ (fun hr => ?_) (fun m hm => ?_) hu.1.grown
  · exact { hr with
      unborn := fun hu => nomatch hph.symm.trans hu
      owned := fun m b hb => hr.owned m b (by cases m <;> exact hb)
      down := fun hd => absurd hph hd
      attached := fun b hb hatt => by
        by_cases hba : b = a
        · subst hba
          exact ⟨rfl, ha, hn b ha⟩
        · have hatt' : w.attached b = true := (Function.update_of_ne hba ..).symm.trans hatt
          exact ⟨rfl, (hr.attached b hb hatt').2⟩
      outcome := hr.outcome.congr id rfl rfl rfl }
  · by_cases hma : m.easyHandle = a
    · rw [hma]
      exact Function.update_self ..
    · exact (Function.update_of_ne hma ..).trans (hu.1.msgs m hm)

theorem Inv.easyHandleCurlBind (h : Inv coded old rs w) (hph : old.phase i = .running)
    (hn : Named i (rs.req i) w) :
    wp (env (Obeyed coded) i) (easyHandleCurlBind i) (fun _ rs' w' => Inv coded old rs' w' ∧
      (rs'.req i).mState = (rs.req i).mState) rs w := by
  -- what comes after the multi handle was created, if it had to be
  have hadd : ∀ {b : Bool}, wp (env (Obeyed coded) i) (do
      if !(← get).pCurlMulti then return Success.negative
      if !(← perform (.multiAddHandle (← this i).mpCurl)) then return .negative
      assign i fun r => { r with mCurlBound := true }
      return .positive) (fun _ rs' w' => Inv coded old rs' w' ∧
        (rs'.req i).mState = (rs.req i).mState) { rs with pCurlMulti := b } w := by
    intro b
    have h' : Inv coded old { rs with pCurlMulti := b } w :=
      ⟨⟨h.1.req, h.1.msgs, h.1.grown⟩, h.2.books, h.2.placed, h.2.clean⟩
    simp only [Program.wp_ite, Program.wp_bind, Program.wp_get, wp_this, Program.wp_perform,
      wp_assign, Program.wp_pure]
    split
    · exact ⟨h', trivial⟩
    rintro r w' ⟨-, he⟩
    cases hp : (rs.req i).mpCurl with
    | none =>
      rw [hp] at he
      match r with
      | true => exact he.elim
      | false =>
        obtain rfl := he
        exact ⟨h', trivial⟩
    | some a =>
      rw [hp] at he
      have htarget : w.target a = a := h.2.target (k := (i, .mpCurl)) hp
      match r with
      | true =>
        obtain rfl := he
        rw [htarget]
        refine ⟨h'.attach hph hp hn, ?_⟩
        rw [update_req_self]
      | false =>
        obtain rfl := he
        rw [Option.map_some, htarget]
        exact ⟨h'.use (i := i) (m := .mpCurl) hp.symm, trivial⟩
  rw [HttpRequesting.easyHandleCurlBind, Program.wp_bind, Program.wp_get, Program.wp_ite]
  split
  · simp only [multiHandleCurlInit, Program.wp_bind, Program.wp_perform, Program.wp_modify]
    rintro b _ ⟨-, rfl⟩
    exact hadd
  · exact hadd (b := rs.pCurlMulti)

/-- The handle of the request is taken out of the multi handle. -/
theorem Inv.detach (h : Inv coded old rs w) (hph : old.phase i ≠ .unborn)
    (he : match (rs.req i).mpCurl with
      | some a => w' = (w.use (some a)).detach a
      | none => w' = w) :
    Inv coded old (rs.update i fun r => { r with mCurlBound := false }) w' := by
  have hmember : ∀ m, member { rs.req i with mCurlBound := false } m = (rs.req i).member m :=
    fun m => by cases m <;> rfl
  have hreq : ∀ {w'}, ReqOk coded old i (rs.req i) w' →
      (∀ b, b.owner = i → w'.attached b = false) →
      ReqOk coded old i { rs.req i with mCurlBound := false } w' := fun hr hno =>
    { hr with
      unborn := fun hu => absurd hu hph
      owned := fun m b hb => hr.owned m b (by cases m <;> exact hb)
      down := fun hd => ⟨rfl, (hr.down hd).2⟩
      attached := fun b hb hatt => nomatch (hno b hb).symm.trans hatt
      outcome := hr.outcome.congr id rfl rfl rfl }
  cases hp : (rs.req i).mpCurl with
  | none =>
    rw [hp] at he
    obtain rfl := he
    refine ⟨h.1.change (Elsewhere.refl i w') (fun hr => hreq hr fun b hb => ?_) h.1.msgs
      h.1.grown, h.2.kept hmember⟩
    rw [Bool.eq_false_iff]
    exact fun hatt => nomatch hp.symm.trans (hr.attached b hb hatt).2.1
  | some a =>
    rw [hp] at he
    obtain rfl := he
    have hu := h.use (i := i) (m := .mpCurl) hp.symm
    have hown : a.owner = i := (h.1.req i).owned .mpCurl a hp
    refine ⟨?_, (hu.2.kept hmember).congr rfl rfl⟩
    refine h.1.change ⟨fun b hb => Function.update_of_ne (by rintro rfl; exact hb hown) ..,
      fun _ _ => rfl, fun _ _ => rfl⟩ (fun hr => hreq ?_ fun b hb => ?_) (fun m hm => ?_) h.1.grown
    · exact { hr with
        attached := fun b hb hatt => by
          have hba : b ≠ a := by
            rintro rfl
            exact nomatch (Function.update_self ..).symm.trans hatt
          exact hr.attached b hb ((Function.update_of_ne hba ..).symm.trans hatt) }
    -- a request has attached no handle but its own
    · by_cases hba : b = a
      · rw [hba]
        exact Function.update_self ..
      · refine (Function.update_of_ne hba ..).trans (Bool.eq_false_iff.mpr fun hatt => hba ?_)
        exact Option.some.inj ((hr.attached b hb hatt).2.1.symm.trans hp)
    -- the messages of the handle go with it
    · obtain ⟨hm, hne⟩ := List.mem_filter.mp hm
      exact (Function.update_of_ne (of_decide_eq_true hne) ..).trans (h.1.msgs m hm)

end HttpRequesting

end ProcessingCommon

import ProcessingCommon.MailSending.Invariant

/-!
# What the runs of the mails keep

The handle in the multi handle, the messages that any tick takes from it, the destructor, and with
the other steps the invariant of every run in which no mail is destroyed while its transfer is
under way.
-/

namespace ProcessingCommon

namespace MailSending

open HttpRequesting (Resource CURLMsg Phase)
open Ledger (Books)
open Program (wp wp_mono wp_seq)
open Transition (Reachable)

variable {busy : Option Nat} {ph : Nat → Phase} {ms : Mails} {w w' : MailCurl} {i : Nat}
  {f : MailSending → MailSending}

/-! ## The multi handle -/

theorem Begun.attach (h : Begun i ph ms w) {a : Resource} (ha : (ms.mail i).mpCurl = some a)
    (hn : Named i (ms.mail i) w) :
    Inv (some i) ph ms (w.on fun c => (c.use (some a)).attach a) := by
  have hu := h.inv.use (i := i) (k := .mpCurl) ha
  have hown : a.owner = i := (h.inv.mail i).owned .mpCurl a ha
  have hself : ms.update i id = ms := update_same ms i rfl
  rw [← hself]
  refine hu.change ⟨fun b hb => Function.update_of_ne (by rintro rfl; exact hb hown) ..,
    fun _ _ => rfl, fun _ _ => rfl⟩ (fun hm => ?_) (fun m hm => ?_) hu.rcpt
    (hself.symm ▸ hu.books) hu.cleaned hu.freed
  · exact { hm with
      attached := fun b hb hatt => by
        by_cases hba : b = a
        · subst hba
          exact ⟨ha, h.pending, hn b ha⟩
        · exact hm.attached b hb ((Function.update_of_ne hba ..).symm.trans hatt)
      fresh := fun hb => absurd rfl hb
      idle := fun hb => absurd rfl hb }
  · by_cases hma : m.easyHandle = a
    · exact (congrArg _ hma).trans (Function.update_self ..)
    · exact (Function.update_of_ne hma ..).trans (hu.msgs m hm)

theorem Begun.curlEasyHandleBind (h : Begun i ph ms w) (hn : Named i (ms.mail i) w) :
    wp (env HandleRemoved i) (curlEasyHandleBind i) (fun r ms' w' => Inv (some i) ph ms' w' ∧
      (r ≠ .positive → Idle i w')) ms w := by
  have hadd : ∀ {b : Bool}, wp (env HandleRemoved i) (do
      if !(← get).pCurlMulti then return Success.negative
      if !(← perform (.multiAddHandle (← this i).mpCurl)) then return .negative
      return .positive) (fun r ms' w' => Inv (some i) ph ms' w' ∧
        (r ≠ .positive → Idle i w')) { ms with pCurlMulti := b } w := by
    intro b
    have h' : Begun i ph { ms with pCurlMulti := b } w :=
      ⟨⟨h.inv.mail, h.inv.msgs, h.inv.rcpt, h.inv.books, h.inv.cleaned, h.inv.freed⟩, h.idle,
        h.pending⟩
    simp only [Program.wp_ite, Program.wp_bind, Program.wp_get, wp_this, Program.wp_perform,
      Program.wp_pure]
    split
    · exact ⟨h'.inv, fun _ => h'.idle⟩
    rintro r w' ⟨-, he⟩
    cases hp : (ms.mail i).mpCurl with
    | none =>
      rw [hp] at he
      cases r with
      | true => exact he.elim
      | false =>
        obtain rfl := he
        exact ⟨h'.inv, fun _ => h'.idle⟩
    | some a =>
      rw [hp] at he
      cases r with
      | true =>
        obtain rfl := he
        exact ⟨h'.attach hp hn, fun hr => absurd rfl hr⟩
      | false =>
        obtain rfl := he
        exact ⟨h'.inv.use (i := i) (k := .mpCurl) hp, fun _ => h'.idle⟩
  rw [MailSending.curlEasyHandleBind, Program.wp_bind, Program.wp_get, Program.wp_ite]
  split
  · simp only [Program.wp_bind, Program.wp_perform, Program.wp_modify]
    rintro b _ ⟨-, rfl⟩
    exact hadd
  · exact hadd (b := ms.pCurlMulti)

/-! ## Messages -/

/-- The list of a mail that is not attached is freed, and the member is reset. -/
theorem listFree_spec (k j : Nat) (ms : Mails) (w : MailCurl)
    (hfree : ∀ l, (ms.mail j).mpListRecipients = some l → w.inUse l = false) :
    wp (env HandleRemoved k) (listFree j) (fun _ ms' w' =>
      ms' = ms.update j (fun m => { m with mpListRecipients := none }) ∧
      (∃ t, w' = { w with trace := t }) ∧
      (Books (slot ms) w.trace → Books (slot ms') w'.trace)) ms w := by
  rw [MailSending.listFree, Program.wp_bind, wp_this]
  split
  · next hnone =>
    have hsame : ms.update j (fun m => { m with mpListRecipients := none }) = ms :=
      update_same ms j (by rw [← hnone])
    rw [hsame]
    exact ⟨rfl, ⟨w.trace, rfl⟩, id⟩
  · next l hl =>
    rw [Program.wp_bind, Program.wp_perform]
    rintro _ w' ⟨-, rfl⟩
    refine ⟨rfl, ⟨w.trace ++ [.release l], ?_⟩, fun hb => ?_⟩
    · rw [MailCurl.freeAll, hfree l hl]
      rfl
    · rw [slot_update_member ms j .mpListRecipients none fun k => by cases k <;> rfl]
      exact hb.release (k := (j, Member.mpListRecipients)) hl

/-- A list is not in use when no handle of its mail is attached. -/
theorem not_inUse (hrcpt : ∀ l a, w.rcptOf l = some a → a.owner = l.owner) {l : Resource}
    (hidle : Idle l.owner w) : w.inUse l = false := by
  rw [MailCurl.inUse]
  split
  · next a ha => exact hidle a (hrcpt l a ha)
  · rfl

/-- The one handle that a mail has in the multi handle is taken out. -/
theorem Inv.idle_detached (h : Inv busy ph ms w) {a : Resource} (ha : w.attached a = true) :
    ∀ b : Resource, b.owner = a.owner → Function.update w.attached a false b = false := by
  intro b hb
  have hcurl := ((h.mail a.owner).attached a rfl ha).1
  by_cases hba : b = a
  · rw [hba, Function.update_self]
  · rw [Function.update_of_ne hba, Bool.eq_false_iff]
    intro hatt
    exact hba (Option.some.inj (((h.mail a.owner).attached b hb hatt).1.symm.trans hcurl))

theorem curl_easyCleanup {k : Nat} {p : Option Resource} {a : Resource} {r : Unit}
    (hp : p = some a) (he : curl k w (.easyCleanup p) r w') : w' = w.on fun c => c.cleanup a := by
  subst hp
  exact he

/-- A completion ends the transfer of its mail and gives its handle and its list back. -/
theorem Inv.complete (h : Inv busy ph ms w) {m : CURLMsg} {rest : List CURLMsg}
    (hmsgs : w.msgs = m :: rest) (k : Nat) :
    wp (env HandleRemoved k) (complete m) (fun _ => Inv busy ph) ms
      (w.on fun c => { c with msgs := rest, consumed := c.consumed ++ [m] }) := by
  have ha := h.msgs m (hmsgs ▸ List.mem_cons_self)
  obtain ⟨hcurl, hpend, hpriv, hread⟩ := (h.mail m.easyHandle.owner).attached m.easyHandle rfl ha
  simp only [MailSending.complete, Program.wp_bind, Program.wp_perform, wp_assign]
  rintro i w₁ ⟨-, hi, rfl⟩ code w₂ ⟨-, -, rfl⟩ removed w₃ ⟨hr, rfl⟩
  obtain rfl : i = m.easyHandle.owner := hi _ hpriv
  obtain rfl : removed = true := hr
  rw [update_update]
  have hidle := h.idle_detached ha
  have hbooks : Books (slot (ms.update m.easyHandle.owner fun m' =>
      { m' with mCurlRes := m.result, mRespCode := code }))
      (w.trace ++ [.use m.easyHandle] ++ [.use m.easyHandle] ++ [.use m.easyHandle]) := by
    rw [slot_update ms _ fun k => by cases k <;> rfl]
    have hk : slot ms (m.easyHandle.owner, .mpCurl) = some m.easyHandle := hcurl
    exact ((h.books.use hk).use hk).use hk
  refine wp_mono (listFree_spec k _ _ _ ?_) ?_
  · intro l hl
    rw [update_mail_self] at hl
    apply not_inUse
    · exact h.rcpt
    · rw [(h.mail m.easyHandle.owner).owned .mpListRecipients l hl]
      exact hidle
  rintro _ _ _ ⟨rfl, ⟨t, rfl⟩, hb⟩
  have hb' := hb hbooks
  rw [Program.wp_bind, wp_this, Program.wp_bind, Program.wp_perform]
  rintro _ w' ⟨-, he⟩
  rw [update_update] at he hb' ⊢
  rw [update_mail_self] at he
  obtain rfl := curl_easyCleanup hcurl he
  have hreleased := hb'.release (k := (m.easyHandle.owner, Member.mpCurl)) (a := m.easyHandle)
    (by rw [slot, update_mail_self]; exact hcurl)
  rw [← slot_update_member (f := fun m' => { m' with mpCurl := none, mDone := .positive }) _ _ _ _
    fun k => by cases k <;> rfl, update_update] at hreleased
  rw [Program.wp_bind, wp_assign, wp_assign, update_update, update_update]
  refine h.change ⟨fun b hb => Function.update_of_ne (by rintro rfl; exact hb rfl) ..,
    fun _ _ => rfl, fun _ _ => rfl⟩ (fun hm => ?_) (fun m' hm' => ?_) h.rcpt ?_ ?_ h.freed
  · exact {
      unborn := fun hu => by
        have hnone := hm.unborn hu
        rw [hnone] at hcurl
        cases hcurl
      owned := fun k b hb => by cases k <;> cases hb
      gone := fun _ k => by cases k <;> rfl
      attached := fun b hb hatt => absurd hatt (Bool.eq_false_iff.mp (hidle b hb))
      fresh := fun hb _ hst => absurd ha (Bool.eq_false_iff.mp (hm.idle hb hst _ rfl))
      idle := fun _ _ => hidle }
  · obtain ⟨hm', hne⟩ := List.mem_filter.mp hm'
    exact (Function.update_of_ne (of_decide_eq_true hne) ..).trans
      (h.msgs m' (hmsgs ▸ List.mem_cons_of_mem _ hm'))
  · exact hreleased
  · change (if Function.update w.attached m.easyHandle false m.easyHandle then _
      else w.cleanedAttached) = []
    rw [Function.update_self]
    exact h.cleaned

theorem Inv.messageRound (h : Inv busy ph ms w) (k : Nat) (u : Unit) :
    wp (env HandleRemoved k) (messageRound u) (fun _ => Inv busy ph) ms w := by
  rw [MailSending.messageRound, Program.wp_bind, Program.wp_perform]
  rintro r w' ⟨-, he⟩
  cases r with
  | none =>
    obtain ⟨-, rfl⟩ := he
    exact h
  | some m =>
    obtain ⟨rest, hmsgs, rfl⟩ := he
    simp only [Program.wp_ite, Program.wp_pure]
    split
    · exact ⟨fun j => { h.mail j with }, fun m' hm' =>
        h.msgs m' (hmsgs ▸ List.mem_cons_of_mem _ hm'), h.rcpt, h.books, h.cleaned, h.freed⟩
    · next hdone =>
      simp only [if_pos (not_not.mp hdone)]
      exact wp_seq (h.complete hmsgs k) fun _ _ _ h' => h'

theorem stringToCurlDataRead_fst (m : MailSending) (size nmemb : Nat) :
    ∃ n, (m.stringToCurlDataRead size nmemb).1 = { m with mNumSent := n } := by
  rw [stringToCurlDataRead]
  split
  · exact ⟨m.mNumSent, rfl⟩
  · exact ⟨_, rfl⟩

/-- The reads of the transfers go on in their messages. -/
theorem Inv.reads (h : Inv busy ph ms w) {k : Nat} {reads : List Read}
    (hr : ∀ d ∈ reads, ∃ a, w.attached a = true ∧ w.readData a = some d.pReq) :
    wp (env HandleRemoved k) (Program.each reads fun d => assign d.pReq fun m =>
      (m.stringToCurlDataRead d.size d.nmemb).1) (fun _ => Inv busy ph) ms w := by
  refine wp_mono (Program.wp_each (fun _ ms' w' => w' = w ∧ Inv busy ph ms' w) ?_ ⟨rfl, h⟩) ?_
  · rintro d _ ms' w₁ hd ⟨rfl, h'⟩
    obtain ⟨a, ha, hread⟩ := hr d hd
    obtain ⟨hcurl, -, -, hread'⟩ := (h'.mail a.owner).attached a rfl ha
    have hown : d.pReq = a.owner := Option.some.inj (hread.symm.trans hread')
    have hborn : ph d.pReq ≠ .unborn := by
      intro hu
      have hnone := (h'.mail d.pReq).unborn hu
      rw [hown] at hnone
      rw [hnone] at hcurl
      cases hcurl
    obtain ⟨n, hn⟩ := stringToCurlDataRead_fst (ms'.mail d.pReq) d.size d.nmemb
    have hkept : Inv busy ph
        (ms'.update d.pReq fun m => (m.stringToCurlDataRead d.size d.nmemb).1) w₁ := by
      refine h'.kept hborn (fun k => ?_) ?_ fun hst => ?_
      · rw [hn]
        cases k <;> rfl
      · rw [hn]
      · rwa [hn] at hst
    exact ⟨rfl, hkept⟩
  · rintro _ _ _ ⟨rfl, h'⟩
    exact h'

theorem Inv.multiProcess (h : Inv busy ph ms w) (k n : Nat) :
    wp (env HandleRemoved k) (multiProcess n) (fun _ => Inv busy ph) ms w := by
  rw [MailSending.multiProcess, Program.wp_bind, Program.wp_perform]
  rintro reads w' ⟨-, hreads, new, hnew, rfl⟩
  have h' : Inv busy ph ms (w.on fun c => { c with msgs := c.msgs ++ new }) := by
    refine ⟨fun j => { h.mail j with }, fun m hm => ?_, h.rcpt, h.books, h.cleaned, h.freed⟩
    rcases List.mem_append.mp hm with hm | hm
    · exact h.msgs m hm
    · exact hnew m hm
  refine wp_seq (h'.reads hreads) fun _ ms₁ w₁ h₁ => ?_
  exact Program.wp_rounds_inv (fun u _ _ h => h.messageRound k u) n () h₁

/-! ## The destructor -/

/-- All that holds of a mail that is down and not attached. -/
theorem mailOk_down {m : MailSending} (hph : ph i = .down) (hidle : Idle i w)
    (howned : ∀ k a, m.member k = some a → a.owner = i) : MailOk busy (ph i) i m w := by
  rw [hph]
  exact {
    unborn := fun hu => by cases hu
    owned := howned
    gone := fun hg => by cases hg
    attached := fun a ha hatt => by
      rw [hidle a ha] at hatt
      cases hatt
    fresh := fun _ hr => by cases hr
    idle := fun _ _ => hidle }

/-- A mail that is not attached gives back what it has. -/
theorem Inv.destruct (h : Inv none ph ms w) (hph : ph i = .down) (hidle : Idle i w) :
    wp (env HandleRemoved i) (destruct i) (fun _ ms' w' => Inv none ph ms' w' ∧
      ∀ k, (ms'.mail i).member k = none) ms w := by
  rw [MailSending.destruct]
  refine wp_seq (listFree_spec i i ms w ?_) ?_
  · intro l hl
    apply not_inUse h.rcpt
    rwa [(h.mail i).owned .mpListRecipients l hl]
  rintro _ _ _ ⟨rfl, ⟨t, rfl⟩, hb⟩
  have h₁ : Inv none ph (ms.update i fun m => { m with mpListRecipients := none })
      { w with trace := t } := by
    refine h.change ⟨fun _ _ => rfl, fun _ _ => rfl, fun _ _ => rfl⟩ (fun hm => ?_) h.msgs h.rcpt
      (hb h.books) h.cleaned h.freed
    refine mailOk_down hph hidle fun k a ha => ?_
    cases k with
    | mpCurl => exact hm.owned .mpCurl a ha
    | mpListRecipients => cases ha
  rw [Program.wp_bind, wp_this, update_mail_self, Program.wp_ite]
  split
  · next hnone =>
    refine ⟨h₁, fun k => ?_⟩
    rw [update_mail_self]
    cases k with
    | mpCurl => exact hnone
    | mpListRecipients => rfl
  next hsome =>
  obtain ⟨a, ha⟩ := Option.ne_none_iff_exists'.mp hsome
  rw [Program.wp_bind, wp_this, Program.wp_bind, Program.wp_perform, update_mail_self]
  rintro _ w' ⟨-, he⟩
  obtain rfl := curl_easyCleanup ha he
  rw [wp_assign]
  refine ⟨?_, fun k => ?_⟩
  · refine h₁.change ⟨fun _ _ => rfl, fun _ _ => rfl, fun _ _ => rfl⟩ (fun hm => ?_) h₁.msgs
      h₁.rcpt ?_ ?_ h₁.freed
    · refine mailOk_down hph hidle fun k a ha => ?_
      cases k with
      | mpCurl => cases ha
      | mpListRecipients => exact hm.owned .mpListRecipients a ha
    · rw [slot_update_member _ i .mpCurl none fun k => by cases k <;> rfl]
      refine h₁.books.release ?_
      rw [slot, update_mail_self]
      exact ha
    · change (if w.attached a then _ else w.cleanedAttached) = []
      rw [hidle a ((h.mail i).owned .mpCurl a ha)]
      exact h.cleaned
  · rw [update_mail_self, update_mail_self]
    cases k <;> rfl

/-! ## The tick -/

/-- The phases after a tick with this result. -/
def ticked (ph : Nat → Phase) (i : Nat) (success : Success) : Nat → Phase :=
  if success = .pending then ph else Function.update ph i .down

/-- The mail of the step goes to another phase, or its transfer has begun. -/
theorem Inv.rephase (h : Inv busy ph ms w) {p : Phase} (hborn : p ≠ .unborn)
    (hgone : p = .gone → ∀ k, (ms.mail i).member k = none) (hrun : p ≠ .running)
    (hbusy : busy = none ∨ busy = some i) (hidle : busy = some i → Idle i w) :
    Inv none (Function.update ph i p) ms w := by
  refine { h with mail := fun j => ?_ }
  have hm := h.mail j
  by_cases hj : j = i
  · subst hj
    rw [Function.update_self]
    exact { hm with
      unborn := fun hu => absurd hu hborn
      gone := hgone
      fresh := fun _ hr => absurd hr hrun
      idle := fun _ hst => by
        rcases hbusy with rfl | rfl
        · exact hm.idle (by simp) hst
        · exact hidle rfl }
  · have hcalm : busy ≠ some j := by
      rcases hbusy with rfl | rfl
      · simp
      · simpa using Ne.symm hj
    rw [Function.update_of_ne hj]
    exact { hm with
      fresh := fun _ => hm.fresh hcalm
      idle := fun _ => hm.idle hcalm }

/-- The transfer of the mail has begun. -/
theorem Inv.transfer (h : Inv (some i) ph ms w) (hborn : ph i ≠ .unborn)
    (hmember : ∀ k, (f (ms.mail i)).member k = (ms.mail i).member k)
    (hdone : (f (ms.mail i)).mDone = (ms.mail i).mDone)
    (hst : (f (ms.mail i)).mState = .mailSeDoneWait) : Inv none ph (ms.update i f) w := by
  have hkept := h.kept (f := f) hborn hmember hdone fun hs => nomatch hst.symm.trans hs
  refine { hkept with mail := fun j => ?_ }
  have hm := hkept.mail j
  by_cases hj : j = i
  · subst hj
    exact { hm with
      fresh := fun _ _ hs => by
        rw [update_mail_self, hst] at hs
        cases hs
      idle := fun _ hs => by
        rw [update_mail_self, hst] at hs
        cases hs }
  · have hcalm : some i ≠ some j := by simpa using Ne.symm hj
    exact { hm with
      fresh := fun _ => hm.fresh hcalm
      idle := fun _ => hm.idle hcalm }

theorem Inv.mailStart (h : Inv none ph ms w) (hph : ph i = .running)
    (hst : (ms.mail i).mState = .mailSeStart) (n : Nat) (curTimeMs : UInt32) :
    wp (env HandleRemoved i) (mailStart n i curTimeMs) (fun r ms' w' =>
      Inv none (ticked ph i r) ms' w') ms w := by
  have hborn : ph i ≠ .unborn := by
    rw [hph]
    decide
  -- an error ends the mail with nothing attached
  have hfail : ∀ {ms : Mails} {w : MailCurl}, Inv (some i) ph ms w → Idle i w →
      Inv none (ticked ph i .negative) ms w := fun h hidle =>
    h.rephase (by decide) (fun hg => nomatch hg) (by decide) (.inr rfl) fun _ => hidle
  rw [MailSending.mailStart, Program.wp_bind, Program.wp_perform]
  rintro _ _ ⟨-, rfl⟩
  refine wp_seq (h.easyHandleCreate hph hst) ?_
  rintro r ms₁ w₁ ⟨h₁, hn⟩
  rw [Program.wp_ite]
  split
  · exact hfail h₁.inv h₁.idle
  next hr =>
  refine wp_seq (h₁.curlEasyHandleBind (hn (not_not.mp hr))) ?_
  rintro r' ms₂ w₂ ⟨h₂, hidle⟩
  rw [Program.wp_ite]
  split
  · next hr' => exact hfail h₂ (hidle hr')
  refine wp_seq (h₂.multiProcess i n) fun _ ms₃ w₃ h₃ => ?_
  rw [Program.wp_bind, wp_assign]
  exact h₃.transfer hborn (member_congr rfl rfl) rfl rfl

theorem Inv.process (h : Inv none ph ms w) (hph : ph i = .running) (n : Nat) (curTimeMs : UInt32) :
    wp (env HandleRemoved i) (process n i curTimeMs) (fun r ms' w' =>
      Inv none (ticked ph i r) ms' w') ms w := by
  have hend : ∀ {ms : Mails} {w : MailCurl} (r : Success), Inv none ph ms w →
      Inv none (ticked ph i r) ms w := by
    intro ms w r h
    rw [ticked]
    split
    · exact h
    · exact h.rephase (by decide) (fun hg => nomatch hg) (by decide) (.inl rfl)
        fun hb => nomatch hb
  rw [MailSending.process, Program.wp_bind, wp_this]
  split
  · next hst => exact h.mailStart hph hst n curTimeMs
  · rw [mailDoneWait, Program.wp_bind, wp_this]
    refine wp_seq (h.multiProcess i n) fun _ ms₁ w₁ h₁ => ?_
    simp only [Program.wp_bind, wp_this, Program.wp_ite, Program.wp_pure]
    split
    · exact hend _ h₁
    · split
      · exact hend _ h₁
      · split
        · exact hend _ h₁
        · split <;> exact hend _ h₁

/-! ## Steps -/

/-- What holds before every step. -/
def System.Ok (s : System) : Prop := Inv none s.phase s.mails s.curl

/-- A settled mail is not attached. -/
theorem Inv.settled (h : Inv none ph ms w) (hs : (ms.mail i).Settled) : Idle i w := by
  intro a ha
  rw [Bool.eq_false_iff]
  intro hatt
  cases hst : (ms.mail i).mState with
  | mailSeStart => exact nomatch ((h.mail i).idle (by simp) hst a ha).symm.trans hatt
  | mailSeDoneWait => exact hs ⟨hst, ((h.mail i).attached a ha hatt).2.1⟩

theorem Inv.construct (h : Inv none ph ms w) (hph : ph i = .unborn) :
    Inv none (Function.update ph i .running) ms w := by
  refine { h with mail := fun j => ?_ }
  have hm := h.mail j
  by_cases hj : j = i
  · subst hj
    have hnew := hm.unborn hph
    rw [Function.update_self]
    exact { hm with
      unborn := fun hu => nomatch hu
      gone := fun hg => nomatch hg
      fresh := fun _ _ _ => by
        rw [hnew]
        exact ⟨rfl, rfl, rfl⟩ }
  · rw [Function.update_of_ne hj]
    exact hm

theorem apply_member (m : MailSending) (c : Setting) (k : Member) :
    (m.apply c).member k = m.member k := by
  cases c <;> cases k <;> rfl

theorem Step.ok {s t : System} {a : Action} (hs : Step Settled HandleRemoved s a t) (h : s.Ok) :
    t.Ok := by
  cases hs with
  | construct hph => exact Inv.construct h hph
  | @configure i c hph =>
    have hborn : s.phase i ≠ .unborn := by
      rw [hph]
      decide
    refine Inv.kept h (f := fun m => m.apply c) hborn (apply_member _ c) ?_ ?_
    · cases c <;> rfl
    · cases c <;> exact id
  | tick hph he => exact Program.wp_iff.mp (Inv.process h hph _ _) _ _ _ he
  | cancel hph =>
    exact Inv.rephase h (by decide) (fun hg => nomatch hg) (by decide) (.inl rfl)
      fun hb => nomatch hb
  | destruct hph hset he =>
    obtain ⟨h', hnone⟩ := Program.wp_iff.mp (Inv.destruct h hph (Inv.settled h hset)) _ _ _ he
    exact h'.rephase (by decide) (fun _ => hnone) (by decide) (.inl rfl) fun hb => nomatch hb

theorem Start.ok {s : System} (hs : Start s) : s.Ok := by
  obtain ⟨mails, curl, phase⟩ := s
  obtain ⟨rfl, rfl, rfl⟩ := hs
  refine ⟨fun i => ?_, fun m hm => (nomatch hm), fun l a hl => (nomatch hl),
    Ledger.Books.start ?_, rfl, rfl⟩
  · exact {
      unborn := fun _ => rfl
      owned := fun k a ha => by cases k <;> cases ha
      gone := fun hg => nomatch hg
      attached := fun a _ hatt => nomatch hatt
      fresh := fun _ hr => nomatch hr
      idle := fun _ _ _ _ => rfl }
  · rintro ⟨i, k⟩
    cases k <;> rfl

theorem reachable_ok {s : System} (hs : Reachable Start (Step Settled HandleRemoved) s) : s.Ok :=
  hs.invariant (fun _ h => Start.ok h) fun _ _ _ h hstep => hstep.ok h

end MailSending

end ProcessingCommon

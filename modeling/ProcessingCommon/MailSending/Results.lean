import ProcessingCommon.HttpRequesting.Attribution
import ProcessingCommon.MailSending.Handles

/-!
# Every mail gets its own result

The messages of the multi handle are taken in the tick of any mail. Each completion is given to the
mail whose handle it names, once, while that mail exists and has no result yet, also after the mail
was cancelled. So the result of a tick is the one of the mail's own completion, or of its timeout.
-/

namespace ProcessingCommon

namespace MailSending

open HttpRequesting (Resource CURLMsg CURLE_OK Phase easy own own_append mem_own)
open Program (Exec wp wp_mono wp_seq)
open Transition (Reachable)

variable {busy : Option Nat} {ph : Nat → Phase} {ms₀ ms ms' : Mails} {w₀ w w' : MailCurl}
  {i : Nat} {f : MailSending → MailSending} {ok : (c : Call) → Answer c → Prop}
  {new : List CURLMsg}

/-- What a mail knows of the completions of its handle: there is none or one. -/
def Outcome (m : MailSending) : List CURLMsg → Prop
  | [] => m.mDone = .pending
  | [c] => m.mDone = .positive ∧ m.mCurlRes = c.result ∧ m.mRespCode = c.respCode
  | _ => False

structure SameResult (m m' : MailSending) : Prop where
  mDone : m'.mDone = m.mDone
  mCurlRes : m'.mCurlRes = m.mCurlRes
  mRespCode : m'.mRespCode = m.mRespCode

/-- A mail without a result gets the one of the completion. -/
structure Given (c : CURLMsg) (m m' : MailSending) : Prop where
  pending : m.mDone = .pending
  mDone : m'.mDone = .positive
  mCurlRes : m'.mCurlRes = c.result
  mRespCode : m'.mRespCode = c.respCode

/-- The completions `new` were taken, and each was given to its mail. -/
structure GivenOut (ph : Nat → Phase) (ms₀ ms : Mails) (w₀ w : MailCurl) (new : List CURLMsg) :
    Prop where
  consumed : w.consumed = w₀.consumed ++ new
  mail : ∀ j, own j new = [] ∧ SameResult (ms₀.mail j) (ms.mail j) ∨
    ∃ c, own j new = [c] ∧ Given c (ms₀.mail j) (ms.mail j)
  exists_mail : ∀ c ∈ new, ph c.easyHandle.owner = .running ∨ ph c.easyHandle.owner = .down

/-- The result of a tick after the start, from its time and the completions of the mail. -/
def verdict (late : Bool) : List CURLMsg → Success
  | [] => if late then .negative else .pending
  | c :: _ =>
    if late ∨ c.result ≠ CURLE_OK ∨ c.respCode ≠ dSmtpCodeActionOkeyCompleted then .negative
    else .positive

/-! ## What takes no completion -/

/-- No completion was taken, and no mail has got a result. -/
structure Quiet (ms₀ ms : Mails) (w₀ w : MailCurl) : Prop where
  consumed : w.consumed = w₀.consumed
  mail : ∀ j, SameResult (ms₀.mail j) (ms.mail j)

theorem SameResult.refl (m : MailSending) : SameResult m m := ⟨rfl, rfl, rfl⟩

theorem SameResult.trans {m₁ m₂ m₃ : MailSending} (h : SameResult m₁ m₂) (h' : SameResult m₂ m₃) :
    SameResult m₁ m₃ :=
  ⟨h'.mDone.trans h.mDone, h'.mCurlRes.trans h.mCurlRes, h'.mRespCode.trans h.mRespCode⟩

theorem Quiet.refl (ms : Mails) (w : MailCurl) : Quiet ms ms w w := ⟨rfl, fun _ => .refl _⟩

theorem Quiet.assign (h : Quiet ms₀ ms w₀ w) (hf : ∀ m, SameResult m (f m)) :
    Quiet ms₀ (ms.update i f) w₀ w := by
  refine ⟨h.consumed, fun j => (h.mail j).trans ?_⟩
  rcases eq_or_ne j i with rfl | hne
  · rw [update_mail_self]
    exact hf _
  · rw [update_mail, if_neg hne]
    exact .refl _

theorem setopt_consumed (w : MailCurl) (a : Resource) (opt : CurlOpt) :
    (w.setopt a opt).consumed = w.consumed := by
  cases opt with
  | mailRcpt l => cases l <;> rfl
  | _ => rfl

/-- Only one call takes completions. -/
theorem curl_consumed {c : Call} {r : Answer c} (he : curl i w c r w') (hc : c ≠ .multiInfoRead) :
    w'.consumed = w.consumed := by
  cases c with
  | multiInfoRead => exact absurd rfl hc
  | easyInit =>
    cases r with
    | none => exact he ▸ rfl
    | some a => exact he.2 ▸ rfl
  | easySetopt a opt => exact he ▸ setopt_consumed w a opt
  | easyCleanup p => cases p <;> exact he ▸ rfl
  | getinfoPrivate a => exact he.2 ▸ rfl
  | getinfoResponseCode a => exact he.2 ▸ rfl
  | multiAddHandle p =>
    cases p <;> cases r
    · exact he ▸ rfl
    · exact he.elim
    · exact he ▸ rfl
    · exact he ▸ rfl
  | multiRemoveHandle a => cases r <;> exact he ▸ rfl
  | multiPerform =>
    obtain ⟨-, new, -, rfl⟩ := he
    rfl
  | slistAppend p str =>
    cases p <;> cases r
    · exact he ▸ rfl
    · exact he.2 ▸ rfl
    · exact he ▸ rfl
    · exact he.2 ▸ rfl
  | _ => exact he ▸ rfl

theorem Quiet.call (h : Quiet ms₀ ms w₀ w) {c : Call} {r : Answer c} (he : env ok i w c r w')
    (hc : c ≠ .multiInfoRead) : Quiet ms₀ ms w₀ w' :=
  ⟨(curl_consumed he.2 hc).trans h.consumed, h.mail⟩

theorem Quiet.setopts (h : Quiet ms₀ ms w₀ w) (a : Resource) (opts : List CurlOpt) :
    wp (env ok i) (setopts a opts) (fun _ ms' w' => Quiet ms₀ ms' w₀ w') ms w := by
  refine Program.wp_each (fun _ ms' w' => Quiet ms₀ ms' w₀ w') ?_ h
  rintro opt _ ms' w' - h' _ w'' he
  exact h'.call he (Call.noConfusion ·)

theorem Quiet.easyHandleCreate (h : Quiet ms₀ ms w₀ w) :
    wp (env ok i) (easyHandleCreate i) (fun _ ms' w' => Quiet ms₀ ms' w₀ w') ms w := by
  rw [MailSending.easyHandleCreate, Program.wp_bind, Program.wp_perform]
  intro p w₁ he
  rw [Program.wp_bind, wp_assign]
  have h₁ : Quiet ms₀ (ms.update i fun m => { m with mpCurl := p }) w₀ w₁ :=
    (h.call he (Call.noConfusion ·)).assign fun _ => ⟨rfl, rfl, rfl⟩
  cases p with
  | none => exact h₁
  | some a =>
    rw [Program.wp_bind, wp_this]
    refine wp_seq (h₁.setopts a _) fun _ ms₂ w₂ h₂ => ?_
    rw [Program.wp_bind, wp_assign, Program.wp_bind, wp_this, Program.wp_bind, Program.wp_perform]
    intro l w₃ he
    have h₃ := (h₂.assign (i := i) (f := fun m => { m with mpListRecipients := none })
      fun _ => ⟨rfl, rfl, rfl⟩).call he (Call.noConfusion ·)
    rw [Program.wp_bind, wp_assign]
    refine wp_seq (Quiet.setopts (h₃.assign fun _ => ?_) a _) fun _ ms₄ w₄ h₄ => ?_
    · exact ⟨rfl, rfl, rfl⟩
    rw [Program.wp_bind, wp_this]
    refine wp_seq (h₄.setopts a _) fun _ ms₅ w₅ h₅ => ?_
    rw [Program.wp_bind, wp_assign]
    refine wp_seq (Quiet.setopts (h₅.assign fun _ => ?_) a _) fun _ _ _ h₆ => h₆
    exact ⟨rfl, rfl, rfl⟩

theorem Quiet.curlEasyHandleBind (h : Quiet ms₀ ms w₀ w) :
    wp (env ok i) (curlEasyHandleBind i) (fun _ ms' w' => Quiet ms₀ ms' w₀ w') ms w := by
  have hadd : ∀ {ms : Mails} {w : MailCurl}, Quiet ms₀ ms w₀ w → wp (env ok i) (do
      if !(← get).pCurlMulti then return Success.negative
      if !(← perform (.multiAddHandle (← this i).mpCurl)) then return .negative
      return .positive) (fun _ ms' w' => Quiet ms₀ ms' w₀ w') ms w := by
    intro ms w h
    simp only [Program.wp_ite, Program.wp_bind, Program.wp_get, wp_this, Program.wp_perform,
      Program.wp_pure]
    split
    · exact h
    intro r w' he
    split <;> exact h.call he (Call.noConfusion ·)
  rw [MailSending.curlEasyHandleBind, Program.wp_bind, Program.wp_get, Program.wp_ite]
  split
  · simp only [Program.wp_bind, Program.wp_perform, Program.wp_modify]
    intro b w' he
    have h' := h.call he (Call.noConfusion ·)
    exact hadd ⟨h'.consumed, h'.mail⟩
  · exact hadd h

theorem Quiet.listFree (h : Quiet ms₀ ms w₀ w) (j : Nat) :
    wp (env ok i) (listFree j) (fun _ ms' w' => Quiet ms₀ ms' w₀ w') ms w := by
  rw [MailSending.listFree, Program.wp_bind, wp_this]
  split
  · exact h
  · rw [Program.wp_bind, Program.wp_perform]
    intro _ w' he
    rw [wp_assign]
    exact (h.call he (Call.noConfusion ·)).assign fun _ => ⟨rfl, rfl, rfl⟩

theorem Quiet.destruct (h : Quiet ms₀ ms w₀ w) :
    wp (env ok i) (destruct i) (fun _ ms' w' => Quiet ms₀ ms' w₀ w') ms w := by
  rw [MailSending.destruct]
  refine wp_seq (h.listFree i) fun _ ms₁ w₁ h₁ => ?_
  rw [Program.wp_bind, wp_this, Program.wp_ite]
  split
  · exact h₁
  · rw [Program.wp_bind, wp_this, Program.wp_bind, Program.wp_perform]
    intro _ w' he
    rw [wp_assign]
    exact (h₁.call he (Call.noConfusion ·)).assign fun _ => ⟨rfl, rfl, rfl⟩

theorem Quiet.reads (h : Quiet ms₀ ms w₀ w) (reads : List Read) :
    wp (env ok i) (Program.each reads fun d => MailSending.assign d.pReq fun m =>
      (m.stringToCurlDataRead d.size d.nmemb).1) (fun _ ms' w' => Quiet ms₀ ms' w₀ w') ms w := by
  refine Program.wp_each (fun _ ms' w' => Quiet ms₀ ms' w₀ w') ?_ h
  rintro d _ ms' w' - h'
  rw [wp_assign]
  refine h'.assign fun m => ?_
  obtain ⟨n, hn⟩ := stringToCurlDataRead_fst m d.size d.nmemb
  rw [hn]
  exact ⟨rfl, rfl, rfl⟩

/-! ## Completions -/

theorem GivenOut.of_quiet (h : Quiet ms₀ ms w₀ w) : GivenOut ph ms₀ ms w₀ w [] :=
  ⟨h.consumed.trans (List.append_nil _).symm, fun j => .inl ⟨rfl, h.mail j⟩,
    fun _ hc => absurd hc List.not_mem_nil⟩

theorem Given.congr {c : CURLMsg} {m₁ m₂ m₃ m₄ : MailSending} (h : Given c m₂ m₃)
    (h₁ : SameResult m₁ m₂) (h₂ : SameResult m₃ m₄) : Given c m₁ m₄ :=
  ⟨h₁.mDone.symm.trans h.pending, h₂.mDone.trans h.mDone, h₂.mCurlRes.trans h.mCurlRes,
    h₂.mRespCode.trans h.mRespCode⟩

/-- Mails are left alone before and after completions are given out. -/
theorem GivenOut.quiet (h : GivenOut ph ms ms' w w' new) {ms₁ : Mails} {w₁ : MailCurl}
    (hbefore : Quiet ms₀ ms w₀ w) (hafter : Quiet ms' ms₁ w' w₁) :
    GivenOut ph ms₀ ms₁ w₀ w₁ new := by
  refine ⟨?_, fun j => ?_, h.exists_mail⟩
  · rw [hafter.consumed, h.consumed, hbefore.consumed]
  · rcases h.mail j with ⟨hnil, hsame⟩ | ⟨c, hc, hgiven⟩
    · exact .inl ⟨hnil, ((hbefore.mail j).trans hsame).trans (hafter.mail j)⟩
    · exact .inr ⟨c, hc, hgiven.congr (hbefore.mail j) (hafter.mail j)⟩

/-- What one completion does to the mails. -/
structure Completes (c : CURLMsg) (ms ms' : Mails) (w w' : MailCurl) : Prop where
  consumed : w'.consumed = w.consumed ++ [c]
  given : Given c (ms.mail c.easyHandle.owner) (ms'.mail c.easyHandle.owner)
  others : ∀ j, j ≠ c.easyHandle.owner → SameResult (ms.mail j) (ms'.mail j)

theorem Inv.complete_completes (h : Inv busy ph ms w) {c : CURLMsg} {rest : List CURLMsg}
    (hmsgs : w.msgs = c :: rest) (k : Nat) :
    wp (env HandleRemoved k) (MailSending.complete c) (fun _ ms' w' => Completes c ms ms' w w') ms
      (w.on fun v => { v with msgs := rest, consumed := v.consumed ++ [c] }) := by
  have ha := h.msgs c (hmsgs ▸ List.mem_cons_self)
  obtain ⟨-, hpend, hpriv, -⟩ := (h.mail c.easyHandle.owner).attached c.easyHandle rfl ha
  simp only [MailSending.complete, Program.wp_bind, Program.wp_perform, wp_assign]
  rintro i w₁ ⟨-, hi, rfl⟩ code w₂ ⟨-, hcode, rfl⟩ removed w₃ he
  obtain rfl : i = c.easyHandle.owner := hi _ hpriv
  obtain rfl : code = c.respCode := hcode c (List.mem_append_right _ (List.mem_singleton_self c)) rfl
  rw [update_update]
  have hremoved := curl_consumed he.2 (Call.noConfusion ·)
  refine wp_mono ((Quiet.refl _ w₃).listFree _) fun _ ms₄ w₄ h₄ => ?_
  rw [Program.wp_bind, wp_this, Program.wp_bind, Program.wp_perform]
  intro _ w₅ he
  have h₅ := h₄.call he (Call.noConfusion ·)
  rw [Program.wp_bind, wp_assign, wp_assign, update_update]
  refine ⟨h₅.consumed.trans hremoved, ⟨hpend, ?_, ?_, ?_⟩, fun j hj => ?_⟩
  · rw [update_mail_self]
  · rw [update_mail_self]
    exact (h₅.mail _).mCurlRes.trans (by rw [update_mail_self])
  · rw [update_mail_self]
    exact (h₅.mail _).mRespCode.trans (by rw [update_mail_self])
  · have hsame := h₅.mail j
    rw [update_mail, if_neg hj] at hsame
    rwa [update_mail, if_neg hj]

theorem own_singleton (j : Nat) (c : CURLMsg) :
    own j [c] = if c.easyHandle.owner = j then [c] else [] := by
  simp only [own, List.filter_cons, List.filter_nil, decide_eq_true_eq]

/-- One more completion is given out. -/
theorem GivenOut.complete (h : GivenOut ph ms₀ ms w₀ w new) (hinv : Inv busy ph ms w)
    {c : CURLMsg} (hc : c ∈ w.msgs) (hcomp : Completes c ms ms' w w') :
    GivenOut ph ms₀ ms' w₀ w' (new ++ [c]) := by
  obtain ⟨hcurl, hpend, -, -⟩ :=
    (hinv.mail c.easyHandle.owner).attached c.easyHandle rfl (hinv.msgs c hc)
  refine ⟨?_, fun j => ?_, fun d hd => ?_⟩
  · rw [hcomp.consumed, h.consumed, List.append_assoc]
  · rw [own_append, own_singleton]
    split
    · next hj =>
      subst hj
      rcases h.mail c.easyHandle.owner with ⟨hnil, hsame⟩ | ⟨d, -, hgiven⟩
      · rw [hnil]
        exact .inr ⟨c, rfl, hcomp.given.congr hsame (.refl _)⟩
      · exact absurd (hpend.symm.trans hgiven.mDone) Success.noConfusion
    · next hj =>
      have hothers := hcomp.others j fun he => hj he.symm
      rw [List.append_nil]
      rcases h.mail j with ⟨hnil, hsame⟩ | ⟨d, hd, hgiven⟩
      · exact .inl ⟨hnil, hsame.trans hothers⟩
      · exact .inr ⟨d, hd, hgiven.congr (.refl _) hothers⟩
  · rcases List.mem_append.mp hd with hd | hd
    · exact h.exists_mail d hd
    · rw [List.mem_singleton.mp hd]
      cases hph : ph c.easyHandle.owner with
      | running => exact .inl rfl
      | down => exact .inr rfl
      | unborn =>
        rw [(hinv.mail _).unborn hph] at hcurl
        cases hcurl
      | gone =>
        have hnone : (ms.mail c.easyHandle.owner).mpCurl = none := (hinv.mail _).gone hph .mpCurl
        rw [hnone] at hcurl
        cases hcurl

theorem GivenOut.messageRound (h : GivenOut ph ms₀ ms w₀ w new) (hinv : Inv busy ph ms w) (k : Nat)
    (u : Unit) : wp (env HandleRemoved k) (MailSending.messageRound u) (fun _ ms' w' =>
      Inv busy ph ms' w' ∧ ∃ new, GivenOut ph ms₀ ms' w₀ w' new) ms w := by
  refine Program.wp_and (hinv.messageRound k u) ?_
  rw [MailSending.messageRound, Program.wp_bind, Program.wp_perform]
  rintro r w' ⟨-, he⟩
  cases r with
  | none =>
    obtain ⟨-, rfl⟩ := he
    exact ⟨new, h⟩
  | some c =>
    obtain ⟨rest, hmsgs, rfl⟩ := he
    simp only [Program.wp_ite, Program.wp_pure]
    split
    · exact ⟨new, h.quiet (.refl _ _) ⟨rfl, fun _ => .refl _⟩⟩
    · next hdone =>
      simp only [if_pos (not_not.mp hdone)]
      refine wp_seq (hinv.complete_completes hmsgs k) fun _ ms₁ w₁ hcomp => ?_
      exact ⟨_, h.complete hinv (hmsgs ▸ List.mem_cons_self) hcomp⟩

theorem Inv.multiProcess_givenOut (h : Inv busy ph ms w) (k n : Nat) :
    wp (env HandleRemoved k) (MailSending.multiProcess n) (fun _ ms' w' =>
      ∃ new, GivenOut ph ms ms' w w' new) ms w := by
  rw [MailSending.multiProcess, Program.wp_bind, Program.wp_perform]
  rintro reads w' ⟨-, hreads, more, hmore, rfl⟩
  have h' : Inv busy ph ms (w.on fun c => { c with msgs := c.msgs ++ more }) := by
    refine ⟨fun j => { h.mail j with }, fun c hc => ?_, h.rcpt, h.books, h.cleaned, h.freed⟩
    rcases List.mem_append.mp hc with hc | hc
    · exact h.msgs c hc
    · exact hmore c hc
  have hquiet : Quiet ms ms w (w.on fun c => { c with msgs := c.msgs ++ more }) :=
    ⟨rfl, fun _ => .refl _⟩
  refine wp_seq (Program.wp_and (h'.reads hreads) (hquiet.reads reads)) ?_
  rintro _ ms₁ w₁ ⟨h₁, hq₁⟩
  refine wp_mono (Program.wp_rounds_inv (I := fun ms' w' => Inv busy ph ms' w' ∧
    ∃ new, GivenOut ph ms ms' w w' new) ?_ n () ⟨h₁, [], .of_quiet hq₁⟩) fun _ _ _ hI => hI.2
  rintro u ms₂ w₂ ⟨h₂, new, hnew⟩
  exact hnew.messageRound h₂ k u

/-! ## Runs -/

theorem Inv.mailStart_givenOut (h : Inv none ph ms w) (hph : ph i = .running)
    (hst : (ms.mail i).mState = .mailSeStart) (n : Nat) (curTimeMs : UInt32) :
    wp (env HandleRemoved i) (MailSending.mailStart n i curTimeMs) (fun _ ms' w' =>
      ∃ new, GivenOut ph ms ms' w w' new) ms w := by
  rw [MailSending.mailStart, Program.wp_bind, Program.wp_perform]
  rintro _ _ ⟨-, rfl⟩
  refine wp_seq (Program.wp_and (h.easyHandleCreate hph hst)
    (Quiet.refl ms _).easyHandleCreate) ?_
  rintro r ms₁ w₁ ⟨⟨h₁, hn⟩, hq₁⟩
  rw [Program.wp_ite]
  split
  · exact ⟨[], .of_quiet hq₁⟩
  next hr =>
  refine wp_seq (Program.wp_and (h₁.curlEasyHandleBind (hn (not_not.mp hr)))
    hq₁.curlEasyHandleBind) ?_
  rintro r' ms₂ w₂ ⟨⟨h₂, -⟩, hq₂⟩
  rw [Program.wp_ite]
  split
  · exact ⟨[], .of_quiet hq₂⟩
  -- the transfer may be over before the tick that began it
  refine wp_seq (h₂.multiProcess_givenOut i n) ?_
  rintro _ ms₃ w₃ ⟨new, hnew⟩
  rw [Program.wp_bind, wp_assign]
  exact ⟨new, hnew.quiet hq₂ ((Quiet.refl ms₃ w₃).assign fun _ => ⟨rfl, rfl, rfl⟩)⟩

theorem Inv.process_givenOut (h : Inv none ph ms w) (hph : ph i = .running) (n : Nat)
    (curTimeMs : UInt32) : wp (env HandleRemoved i) (MailSending.process n i curTimeMs)
      (fun _ ms' w' => ∃ new, GivenOut ph ms ms' w w' new) ms w := by
  rw [MailSending.process, Program.wp_bind, wp_this]
  split
  · next hst => exact h.mailStart_givenOut hph hst n curTimeMs
  · rw [mailDoneWait, Program.wp_bind, wp_this]
    refine wp_seq (h.multiProcess_givenOut i n) fun _ ms₁ w₁ h₁ => ?_
    simp only [Program.wp_bind, wp_this, Program.wp_ite, Program.wp_pure]
    split
    · exact h₁
    · split
      · exact h₁
      · split
        · exact h₁
        · split <;> exact h₁

theorem apply_sameResult (m : MailSending) (c : Setting) : SameResult m (m.apply c) := by
  cases c <;> exact ⟨rfl, rfl, rfl⟩

theorem Step.givenOut {s t : System} {a : Action} (h : Step Settled HandleRemoved s a t)
    (hs : s.Ok) : ∃ new, GivenOut s.phase s.mails t.mails s.curl t.curl new := by
  cases h with
  | construct _ => exact ⟨[], .of_quiet (.refl _ _)⟩
  | @configure i c _ =>
    exact ⟨[], .of_quiet ((Quiet.refl s.mails s.curl).assign fun m => apply_sameResult m c)⟩
  | tick hph he => exact Program.wp_iff.mp (Inv.process_givenOut hs hph _ _) _ _ _ he
  | cancel _ => exact ⟨[], .of_quiet (.refl _ _)⟩
  | destruct _ _ he =>
    exact ⟨[], .of_quiet (Program.wp_iff.mp (Quiet.refl s.mails s.curl).destruct _ _ _ he)⟩

theorem Outcome.same {m m' : MailSending} {cs : List CURLMsg} (h : Outcome m cs)
    (hs : SameResult m m') : Outcome m' cs := by
  rcases cs with - | ⟨c, - | ⟨d, cs⟩⟩
  · exact hs.mDone.trans h
  · exact ⟨hs.mDone.trans h.1, hs.mCurlRes.trans h.2.1, hs.mRespCode.trans h.2.2⟩
  · exact h.elim

theorem Outcome.of_pending {m : MailSending} {cs : List CURLMsg} (h : Outcome m cs)
    (hm : m.mDone = .pending) : cs = [] := by
  rcases cs with - | ⟨c, - | ⟨d, cs⟩⟩
  · rfl
  · exact absurd (hm.symm.trans h.1) Success.noConfusion
  · exact h.elim

theorem GivenOut.outcome (h : GivenOut ph ms ms' w w' new) {j : Nat}
    (ho : Outcome (ms.mail j) (own j w.consumed)) :
    Outcome (ms'.mail j) (own j w'.consumed) := by
  rw [h.consumed, own_append]
  rcases h.mail j with ⟨hnil, hsame⟩ | ⟨c, hc, hgiven⟩
  · rw [hnil, List.append_nil]
    exact ho.same hsame
  · rw [hc, ho.of_pending hgiven.pending]
    exact ⟨hgiven.mDone, hgiven.mCurlRes, hgiven.mRespCode⟩

theorem reachable_outcome {s : System} (hs : Reachable Start (Step Settled HandleRemoved) s) :
    s.Ok ∧ ∀ j, Outcome (s.mails.mail j) (own j s.curl.consumed) := by
  refine hs.invariant (P := fun s => s.Ok ∧ ∀ j, Outcome (s.mails.mail j) (own j s.curl.consumed))
    (fun s h => ⟨h.ok, fun j => ?_⟩) ?_
  · obtain ⟨hmails, hcurl, -⟩ := h
    rw [hmails, hcurl]
    rfl
  · rintro s a t ⟨hok, ho⟩ hstep
    obtain ⟨new, hnew⟩ := hstep.givenOut hok
    exact ⟨hstep.ok hok, fun j => hnew.outcome (ho j)⟩

/-- A tick after the start goes by the own completion. -/
theorem Inv.process_verdict (h : Inv none ph ms w)
    (hst : (ms.mail i).mState = .mailSeDoneWait) (ho : Outcome (ms.mail i) (own i w.consumed))
    (n : Nat) (curTimeMs : UInt32) :
    wp (env HandleRemoved i) (MailSending.process n i curTimeMs) (fun success _ w' =>
      success = verdict (decide (curTimeMs - (ms.mail i).mStartMs > dMailSendTimeoutMs))
        (own i w'.consumed)) ms w := by
  rw [MailSending.process, Program.wp_bind, wp_this, hst]
  dsimp only
  rw [mailDoneWait, Program.wp_bind, wp_this]
  refine wp_seq (h.multiProcess_givenOut i n) ?_
  rintro _ ms₁ w₁ ⟨new, hnew⟩
  have ho₁ := hnew.outcome ho
  simp only [Program.wp_bind, wp_this, Program.wp_ite, Program.wp_pure]
  generalize own i w₁.consumed = cs at ho₁ ⊢
  rcases cs with - | ⟨c, - | ⟨d, cs⟩⟩
  · have hpend : (ms₁.mail i).mDone = .pending := ho₁
    rw [if_pos hpend]
    by_cases hlate : curTimeMs - (ms.mail i).mStartMs > dMailSendTimeoutMs
    · rw [if_pos hlate, verdict, decide_eq_true hlate, if_pos rfl]
    · rw [if_neg hlate, verdict, decide_eq_false hlate, if_neg Bool.false_ne_true]
  · obtain ⟨hdone, hres, hcode⟩ := ho₁
    have hpos : Success.positive ≠ .pending := Success.noConfusion
    rw [hdone, hres, hcode, if_neg hpos]
    by_cases hlate : curTimeMs - (ms.mail i).mStartMs > dMailSendTimeoutMs
    · rw [if_pos hlate, decide_eq_true hlate, verdict, if_pos (.inl rfl)]
    rw [if_neg hlate, decide_eq_false hlate, verdict]
    by_cases hres' : c.result = CURLE_OK
    · rw [if_neg (not_not.mpr hres')]
      by_cases hcode' : c.respCode = dSmtpCodeActionOkeyCompleted
      · rw [if_neg (not_not.mpr hcode'), if_neg]
        rintro (hf | hbad | hbad)
        · cases hf
        · exact hbad hres'
        · exact hbad hcode'
      · rw [if_pos hcode', if_pos (.inr (.inr hcode'))]
    · rw [if_pos hres', if_pos (.inr (.inl hres'))]
  · exact ho₁.elim

/-- In every run that destroys only settled mails, and in each of its steps: the completions that
are taken are given to the mails that own their handles and to no others, those mails exist and had
no result, and no mail gets a second one. A tick of a mail whose transfer has begun returns what
its own completion and its time make of it. -/
theorem results_attributed {s : System} (hs : Reachable Start (Step Settled HandleRemoved) s) :
    (∀ j, Outcome (s.mails.mail j) (own j s.curl.consumed)) ∧
      (∀ a t, Step Settled HandleRemoved s a t →
        ∃ new, GivenOut s.phase s.mails t.mails s.curl t.curl new) ∧
      ∀ i n curTimeMs success ms w, (s.mails.mail i).mState = .mailSeDoneWait →
        Exec (env HandleRemoved i) (process n i curTimeMs) s.mails s.curl success ms w →
        success = verdict (decide (curTimeMs - (s.mails.mail i).mStartMs > dMailSendTimeoutMs))
          (own i w.consumed) := by
  obtain ⟨hok, ho⟩ := reachable_outcome hs
  refine ⟨ho, fun a t ht => ht.givenOut hok, ?_⟩
  intro i n curTimeMs success ms w hst he
  exact Program.wp_iff.mp (Inv.process_verdict hok hst (ho i) n curTimeMs) _ _ _ he

/-- The second tick of a mail takes its completion and reports it. -/
theorem results_attributed_sent : ∃ s ms w, Reachable Start (Step Settled HandleRemoved) s ∧
    Exec (env HandleRemoved 0) (process 2 0 100) s.mails s.curl .positive ms w ∧
    own 0 s.curl.consumed = [] ∧ own 0 w.consumed = [⟨.done, easy 0, CURLE_OK, 250⟩] ∧
    verdict (decide (100 - (s.mails.mail 0).mStartMs > dMailSendTimeoutMs)) (own 0 w.consumed) =
      .positive := by
  have h₀ : Played Settled _ := .start
  have h₁ := h₀.construct rfl
  have h₂ := h₁.tick false 2 0 rfl
  obtain ⟨he, -⟩ := Played.exec true (process 2 0 100) _ h₂.code
  obtain ⟨-, -, hverdict⟩ := results_attributed h₂.reach
  exact ⟨_, _, _, h₂.reach, he, rfl, rfl, (hverdict 0 2 100 _ _ _ rfl he).symm⟩

end MailSending

end ProcessingCommon

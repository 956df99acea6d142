import ProcessingCommon.MailSending.System

/-!
# What holds between the mails and libcurl

`MailOk` is about one mail and what libcurl knows of its handle: a handle in the multi handle is
the one of its mail, whose completion is still to come. From the beginning of its transfer to the
end of that tick a mail is `busy`, and less is known of it.
-/

namespace ProcessingCommon

namespace MailSending

open HttpRequesting (Resource CURLMsg Kind Curl Phase)
open Ledger (Event Books)
open Program (wp wp_mono wp_seq)

/-- No handle of the mail is attached. -/
def Idle (i : Nat) (w : MailCurl) : Prop := ∀ a, a.owner = i → w.attached a = false

/-- Nothing was taken from libcurl yet. -/
def Fresh (m : MailSending) : Prop :=
  m.mpCurl = none ∧ m.mpListRecipients = none ∧ m.mDone = .pending

structure MailOk (busy : Option Nat) (ph : Phase) (i : Nat) (m : MailSending) (w : MailCurl) :
    Prop where
  unborn : ph = .unborn → m = {}
  owned : ∀ k a, m.member k = some a → a.owner = i
  gone : ph = .gone → ∀ k, m.member k = none
  attached : ∀ a, a.owner = i → w.attached a = true →
    m.mpCurl = some a ∧ m.mDone = .pending ∧ w.priv a = some i ∧ w.readData a = some i
  fresh : busy ≠ some i → ph = .running → m.mState = .mailSeStart → Fresh m
  idle : busy ≠ some i → m.mState = .mailSeStart → Idle i w

/-- The members as the variables of the ledger. -/
def slot (ms : Mails) (k : Nat × Member) : Option Resource := (ms.mail k.1).member k.2

structure Inv (busy : Option Nat) (ph : Nat → Phase) (ms : Mails) (w : MailCurl) : Prop where
  mail : ∀ i, MailOk busy (ph i) i (ms.mail i) w
  msgs : ∀ m ∈ w.msgs, w.attached m.easyHandle = true
  rcpt : ∀ l a, w.rcptOf l = some a → a.owner = l.owner
  books : Books (slot ms) w.trace
  cleaned : w.cleanedAttached = []
  freed : w.freedAttached = []

/-- What libcurl knows of the other mails stays. -/
structure Elsewhere (i : Nat) (w w' : MailCurl) : Prop where
  attached : ∀ a, a.owner ≠ i → w'.attached a = w.attached a
  priv : ∀ a, a.owner ≠ i → w'.priv a = w.priv a
  readData : ∀ a, a.owner ≠ i → w'.readData a = w.readData a

variable {busy : Option Nat} {ph : Nat → Phase} {ms : Mails} {w w' : MailCurl} {i j : Nat}
  {m : MailSending} {f : MailSending → MailSending}

/-! ## Mails -/

/-- Mails with the same handles hold the same. -/
theorem member_congr {m m' : MailSending} (hcurl : m'.mpCurl = m.mpCurl)
    (hlist : m'.mpListRecipients = m.mpListRecipients) (k : Member) : m'.member k = m.member k := by
  cases k with
  | mpCurl => exact hcurl
  | mpListRecipients => exact hlist

theorem update_mail (ms : Mails) (i j : Nat) (f : MailSending → MailSending) :
    (ms.update i f).mail j = if j = i then f (ms.mail i) else ms.mail j := by
  simp only [Mails.update, Function.update_apply]

@[simp] theorem update_mail_self (ms : Mails) (i : Nat) (f : MailSending → MailSending) :
    (ms.update i f).mail i = f (ms.mail i) := Function.update_self ..

theorem update_update (ms : Mails) (i : Nat) (f g : MailSending → MailSending) :
    (ms.update i f).update i g = ms.update i fun m => g (f m) := by
  simp only [Mails.update, Function.update_self, Function.update_idem]

theorem update_same (ms : Mails) (i : Nat) (h : f (ms.mail i) = ms.mail i) :
    ms.update i f = ms := by
  simp only [Mails.update, h, Function.update_eq_self]

theorem slot_update (ms : Mails) (i : Nat)
    (hf : ∀ k, (f (ms.mail i)).member k = (ms.mail i).member k) :
    slot (ms.update i f) = slot ms := by
  funext ⟨j, k⟩
  rw [slot, slot, update_mail]
  split
  · next h => rw [hf, h]
  · rfl

theorem slot_update_member (ms : Mails) (i : Nat) (k : Member) (p : Option Resource)
    (hf : ∀ k', (f (ms.mail i)).member k' = if k' = k then p else (ms.mail i).member k') :
    slot (ms.update i f) = Function.update (slot ms) (i, k) p := by
  funext ⟨j, k'⟩
  rw [slot, update_mail, Function.update_apply, slot]
  by_cases hj : j = i
  · subst hj
    rw [if_pos rfl, hf]
    by_cases hk : k' = k
    · rw [if_pos hk, if_pos (by rw [hk])]
    · rw [if_neg hk, if_neg fun h => hk (Prod.mk.inj h).2]
  · rw [if_neg hj, if_neg fun h => hj (Prod.mk.inj h).1]

/-! ## Steps of one mail -/

theorem Elsewhere.refl (i : Nat) (w : MailCurl) : Elsewhere i w w :=
  ⟨fun _ _ => rfl, fun _ _ => rfl, fun _ _ => rfl⟩

theorem MailOk.elsewhere {p : Phase} (h : MailOk busy p j m w) (hj : j ≠ i)
    (he : Elsewhere i w w') : MailOk busy p j m w' := by
  have hown : ∀ a : Resource, a.owner = j → a.owner ≠ i := fun a ha hi => hj (ha.symm.trans hi)
  exact { h with
    attached := fun a ha hatt => by
      rw [he.attached a (hown a ha)] at hatt
      rw [he.priv a (hown a ha), he.readData a (hown a ha)]
      exact h.attached a ha hatt
    idle := fun hb hst a ha => (he.attached a (hown a ha)).trans (h.idle hb hst a ha) }

/-- A step that works on mail `i` and its handle alone. -/
theorem Inv.change (h : Inv busy ph ms w) (he : Elsewhere i w w')
    (hm : MailOk busy (ph i) i (ms.mail i) w → MailOk busy (ph i) i (f (ms.mail i)) w')
    (hmsgs : ∀ m ∈ w'.msgs, w'.attached m.easyHandle = true)
    (hrcpt : ∀ l a, w'.rcptOf l = some a → a.owner = l.owner)
    (hbooks : Books (slot (ms.update i f)) w'.trace)
    (hcleaned : w'.cleanedAttached = []) (hfreed : w'.freedAttached = []) :
    Inv busy ph (ms.update i f) w' := by
  refine ⟨fun j => ?_, hmsgs, hrcpt, hbooks, hcleaned, hfreed⟩
  rw [update_mail]
  split
  · next hj =>
    subst hj
    exact hm (h.mail j)
  · next hj => exact (h.mail j).elsewhere hj he

/-- Members that have nothing to do with libcurl change. -/
theorem Inv.kept (h : Inv busy ph ms w) (hborn : ph i ≠ .unborn)
    (hmember : ∀ k, (f (ms.mail i)).member k = (ms.mail i).member k)
    (hdone : (f (ms.mail i)).mDone = (ms.mail i).mDone)
    (hst : (f (ms.mail i)).mState = .mailSeStart → (ms.mail i).mState = .mailSeStart) :
    Inv busy ph (ms.update i f) w := by
  have hcurl : (f (ms.mail i)).mpCurl = (ms.mail i).mpCurl := hmember .mpCurl
  have hlist : (f (ms.mail i)).mpListRecipients = (ms.mail i).mpListRecipients :=
    hmember .mpListRecipients
  refine h.change (Elsewhere.refl i w) (fun hm => ?_) h.msgs h.rcpt
    (slot_update ms i hmember ▸ h.books) h.cleaned h.freed
  exact {
    unborn := fun hu => absurd hu hborn
    owned := fun k a ha => hm.owned k a ((hmember k).symm.trans ha)
    gone := fun hg k => (hmember k).trans (hm.gone hg k)
    attached := by
      rw [hcurl, hdone]
      exact hm.attached
    fresh := fun hb hr hs => by
      rw [Fresh, hcurl, hlist, hdone]
      exact hm.fresh hb hr (hst hs)
    idle := fun hb hs => hm.idle hb (hst hs) }

/-- A pointer of a member is used. -/
theorem Inv.use (h : Inv busy ph ms w) {a : Resource} {k : Member}
    (ha : (ms.mail i).member k = some a) : Inv busy ph ms (w.on fun c => c.use (some a)) :=
  ⟨fun j => { h.mail j with }, h.msgs, h.rcpt, h.books.use (k := (i, k)) ha, h.cleaned, h.freed⟩

/-- A new resource goes to a member of the mail that is beginning. -/
theorem Inv.take (h : Inv (some i) ph ms w) (hph : ph i = .running) {k : Member} {a : Resource}
    (hnone : (ms.mail i).member k = none) (hidle : Idle i w) (hown : a.owner = i)
    (hnew : .acquire a ∉ w.trace)
    (hf : ∀ k', (f (ms.mail i)).member k' = if k' = k then some a else (ms.mail i).member k') :
    Inv (some i) ph (ms.update i f) (w.on fun c => c.note (.acquire a)) := by
  refine h.change ⟨fun _ _ => rfl, fun _ _ => rfl, fun _ _ => rfl⟩ (fun hm => ?_) h.msgs h.rcpt
    ?_ h.cleaned h.freed
  · exact {
      unborn := fun hu => nomatch hph.symm.trans hu
      owned := fun k' b hb => by
        rw [hf] at hb
        split at hb
        · rw [← Option.some.inj hb]
          exact hown
        · exact hm.owned k' b hb
      gone := fun hg => nomatch hph.symm.trans hg
      attached := fun b hb hatt => nomatch (hidle b hb).symm.trans hatt
      fresh := fun hb => absurd rfl hb
      idle := fun hb => absurd rfl hb }
  · rw [slot_update_member ms i k (some a) hf]
    refine h.books.acquire (k := (i, k)) hnone fun hheld => hnew ?_
    exact (Ledger.mem_heldAfter hheld).resolve_left List.not_mem_nil

/-! ## The beginning of a transfer -/

/-- A list that an option names is in its member, and the data are the mail. -/
def OptOk (i : Nat) (m : MailSending) : CurlOpt → Prop
  | .mailRcpt l => m.mpListRecipients = l
  | .readData j => j = i
  | .privateData j => j = i
  | _ => True

/-- The handle names its mail. -/
def Named (i : Nat) (m : MailSending) (w : MailCurl) : Prop :=
  ∀ a, m.mpCurl = some a → w.priv a = some i ∧ w.readData a = some i

/-- The mail has a handle or not, and no transfer. -/
structure Begun (i : Nat) (ph : Nat → Phase) (ms : Mails) (w : MailCurl) : Prop where
  inv : Inv (some i) ph ms w
  idle : Idle i w
  pending : (ms.mail i).mDone = .pending

theorem Inv.begins (h : Inv none ph ms w) (i : Nat) : Inv (some i) ph ms w :=
  { h with
    mail := fun j => { h.mail j with
      fresh := fun _ => (h.mail j).fresh (by simp)
      idle := fun _ => (h.mail j).idle (by simp) } }

theorem setopt_attached (a : Resource) (opt : CurlOpt) :
    (w.setopt a opt).attached = w.attached := by
  cases opt with
  | mailRcpt l => cases l <;> rfl
  | _ => rfl

theorem Inv.setopt (h : Inv busy ph ms w) {a : Resource} (ha : (ms.mail i).mpCurl = some a)
    {opt : CurlOpt} (ho : OptOk i (ms.mail i) opt) : Inv busy ph ms (w.setopt a opt) := by
  have hu := h.use (i := i) (k := .mpCurl) ha
  have hown : a.owner = i := (h.mail i).owned .mpCurl a ha
  have hself : ms.update i id = ms := update_same ms i rfl
  have hne : ∀ b : Resource, b.owner ≠ i → b ≠ a := fun b hb hba => hb (hba ▸ hown)
  cases opt with
  | mailRcpt l =>
    cases l with
    | none => exact hu
    | some l =>
      have hul := hu.use (i := i) (k := .mpListRecipients) ho
      refine { hul with
        mail := fun j => { hul.mail j with }
        rcpt := fun l' b hb => ?_ }
      change Function.update w.rcptOf l (some a) l' = some b at hb
      by_cases hl : l' = l
      · rw [hl, Function.update_self] at hb
        rw [hl, ← Option.some.inj hb, hown]
        exact ((h.mail i).owned .mpListRecipients l ho).symm
      · rw [Function.update_of_ne hl] at hb
        exact h.rcpt l' b hb
  | readData j =>
    obtain rfl : j = i := ho
    rw [← hself]
    refine hu.change ⟨fun _ _ => rfl, fun _ _ => rfl,
      fun b hb => Function.update_of_ne (hne b hb) ..⟩ (fun hm => ?_) hu.msgs hu.rcpt
      (hself.symm ▸ hu.books) hu.cleaned hu.freed
    exact { hm with
      attached := fun b hb hatt => by
        obtain ⟨hcurl, hdone, hpriv, -⟩ := hm.attached b hb hatt
        obtain rfl : b = a := Option.some.inj (hcurl.symm.trans ha)
        exact ⟨hcurl, hdone, hpriv, Function.update_self ..⟩ }
  | privateData j =>
    obtain rfl : j = i := ho
    rw [← hself]
    refine hu.change ⟨fun _ _ => rfl, fun b hb => Function.update_of_ne (hne b hb) ..,
      fun _ _ => rfl⟩ (fun hm => ?_) hu.msgs hu.rcpt (hself.symm ▸ hu.books) hu.cleaned hu.freed
    exact { hm with
      attached := fun b hb hatt => by
        obtain ⟨hcurl, hdone, -, hread⟩ := hm.attached b hb hatt
        obtain rfl : b = a := Option.some.inj (hcurl.symm.trans ha)
        exact ⟨hcurl, hdone, Function.update_self .., hread⟩ }
  | _ => exact hu

theorem Begun.setopts (h : Begun i ph ms w) {a : Resource} (ha : (ms.mail i).mpCurl = some a)
    {opts : List CurlOpt} (ho : ∀ opt ∈ opts, OptOk i (ms.mail i) opt) :
    wp (env HandleRemoved i) (setopts a opts) (fun _ ms' w' => ms' = ms ∧ Begun i ph ms w' ∧
      w' = opts.foldl (fun w opt => w.setopt a opt) w) ms w := by
  rw [MailSending.setopts]
  induction opts generalizing w with
  | nil => exact ⟨rfl, h, rfl⟩
  | cons opt opts ih =>
    rw [Program.each, Program.wp_bind, Program.wp_perform]
    rintro _ w' ⟨-, rfl⟩
    refine ih ⟨h.inv.setopt ha (ho opt List.mem_cons_self), fun b hb => ?_, h.pending⟩
      fun o hm => ho o (List.mem_cons_of_mem _ hm)
    rw [setopt_attached]
    exact h.idle b hb

theorem Begun.kept (h : Begun i ph ms w) (hborn : ph i ≠ .unborn)
    (hmember : ∀ k, (f (ms.mail i)).member k = (ms.mail i).member k)
    (hdone : (f (ms.mail i)).mDone = (ms.mail i).mDone)
    (hst : (f (ms.mail i)).mState = (ms.mail i).mState) : Begun i ph (ms.update i f) w := by
  refine ⟨h.inv.kept hborn hmember hdone (fun hs => hst.symm.trans hs), h.idle, ?_⟩
  rw [update_mail_self, hdone]
  exact h.pending

theorem Begun.take (h : Begun i ph ms w) (hph : ph i = .running) {k : Member} {a : Resource}
    (hnone : (ms.mail i).member k = none) (hown : a.owner = i) (hnew : .acquire a ∉ w.trace)
    (hf : ∀ k', (f (ms.mail i)).member k' = if k' = k then some a else (ms.mail i).member k')
    (hdone : (f (ms.mail i)).mDone = (ms.mail i).mDone) :
    Begun i ph (ms.update i f) (w.on fun c => c.note (.acquire a)) := by
  refine ⟨h.inv.take hph hnone h.idle hown hnew hf, h.idle, ?_⟩
  rw [update_mail_self, hdone]
  exact h.pending

/-- The recipients, the other options, the message and the callback. -/
theorem Begun.recipients (h : Begun i ph ms w) (hph : ph i = .running) {a : Resource}
    (ha : (ms.mail i).mpCurl = some a) (hnone : (ms.mail i).mpListRecipients = none) :
    wp (env HandleRemoved i) (do
      let l ← perform (.slistAppend none (← this i).mRecipientAddr)
      assign i fun m => { m with mpListRecipients := l }
      MailSending.setopts a [.mailRcpt l]
      MailSending.setopts a (optsTransfer (← this i))
      assign i fun m => { m with mBody := m.message }
      MailSending.setopts a [.readFunction, .readData i, .privateData i]
      return Success.positive)
      (fun _ ms' w' => Begun i ph ms' w' ∧ Named i (ms'.mail i) w') ms w := by
  have hborn : ph i ≠ .unborn := by
    rw [hph]
    decide
  rw [Program.wp_bind, wp_this, Program.wp_bind, Program.wp_perform]
  rintro l w₁ ⟨-, he⟩
  rw [Program.wp_bind, wp_assign]
  have h₁ : Begun i ph (ms.update i fun m => { m with mpListRecipients := l }) w₁ := by
    cases l with
    | none =>
      obtain rfl := he
      exact h.kept hborn (fun k => by cases k; rfl; exact hnone.symm) rfl rfl
    | some b =>
      obtain ⟨hnew, rfl⟩ := he
      exact h.take hph (k := .mpListRecipients) hnone hnew.2.1 hnew.2.2.1
        (fun k => by cases k <;> rfl) rfl
  have ha₁ : ((ms.update i fun m => { m with mpListRecipients := l }).mail i).mpCurl = some a := by
    rw [update_mail_self]
    exact ha
  refine wp_seq (h₁.setopts ha₁ fun opt ho => ?_) ?_
  · rw [List.mem_singleton.mp ho, update_mail_self]
    rfl
  rintro _ _ w₂ ⟨rfl, h₂, -⟩
  rw [Program.wp_bind, wp_this]
  refine wp_seq (h₂.setopts ha₁ fun opt ho => ?_) ?_
  · simp only [optsTransfer, List.mem_cons, List.not_mem_nil, or_false] at ho
    rcases ho with rfl | rfl | rfl | rfl | rfl | rfl | rfl | rfl | rfl | rfl | rfl | rfl <;> trivial
  rintro _ _ w₃ ⟨rfl, h₃, -⟩
  rw [Program.wp_bind, wp_assign]
  have h₄ := h₃.kept (f := fun m => { m with mBody := m.message }) hborn (member_congr rfl rfl)
    rfl rfl
  generalize hms : Mails.update _ i (fun m => { m with mBody := m.message }) = ms₄ at h₄ ⊢
  have ha₄ : (ms₄.mail i).mpCurl = some a := by
    rw [← hms, update_mail_self]
    exact ha₁
  refine wp_seq (h₄.setopts ha₄ fun opt ho => ?_) ?_
  · simp only [List.mem_cons, List.not_mem_nil, or_false] at ho
    rcases ho with rfl | rfl | rfl
    · trivial
    · rfl
    · rfl
  rintro _ _ w₅ ⟨rfl, h₅, rfl⟩
  refine ⟨h₅, fun b hb => ?_⟩
  obtain rfl : b = a := Option.some.inj (hb.symm.trans ha₄)
  exact ⟨Function.update_self .., Function.update_self ..⟩

theorem Inv.easyHandleCreate (h : Inv none ph ms w) (hph : ph i = .running)
    (hst : (ms.mail i).mState = .mailSeStart) :
    wp (env HandleRemoved i) (easyHandleCreate i) (fun r ms' w' => Begun i ph ms' w' ∧
      (r = .positive → Named i (ms'.mail i) w')) ms w := by
  have hborn : ph i ≠ .unborn := by
    rw [hph]
    decide
  obtain ⟨hcurl, hlist, hdone⟩ := (h.mail i).fresh (by simp) hph hst
  have h₀ : Begun i ph ms w := ⟨h.begins i, (h.mail i).idle (by simp) hst, hdone⟩
  rw [MailSending.easyHandleCreate, Program.wp_bind, Program.wp_perform]
  rintro p w₁ ⟨-, he⟩
  rw [Program.wp_bind, wp_assign]
  cases p with
  | none =>
    obtain rfl := he
    refine ⟨?_, fun hr => nomatch hr⟩
    exact h₀.kept hborn (fun k => by cases k; exact hcurl.symm; rfl) rfl rfl
  | some a =>
    obtain ⟨hnew, rfl⟩ := he
    have h₁ := h₀.take hph (f := fun m => { m with mpCurl := some a }) (k := .mpCurl) hcurl
      hnew.2.1 hnew.2.2.1 (fun k => by cases k <;> rfl) rfl
    generalize hms : Mails.update ms i (fun m => { m with mpCurl := some a }) = ms₁ at h₁ ⊢
    have ha₁ : (ms₁.mail i).mpCurl = some a := by rw [← hms, update_mail_self]
    have hlist₁ : (ms₁.mail i).mpListRecipients = none := by
      rw [← hms, update_mail_self]
      exact hlist
    rw [Program.wp_bind, wp_this]
    refine wp_seq (h₁.setopts ha₁ fun opt ho => ?_) ?_
    · rw [List.mem_singleton.mp ho]
      trivial
    rintro _ _ w₂ ⟨rfl, h₂, -⟩
    rw [Program.wp_bind, wp_assign]
    have h₃ := h₂.kept (f := fun m => { m with mpListRecipients := none }) hborn
      (fun k => by cases k; rfl; exact hlist₁.symm) rfl rfl
    refine wp_mono (h₃.recipients hph (a := a) ?_ ?_) fun r ms' w' h' => ⟨h'.1, fun _ => h'.2⟩
    · rw [update_mail_self]
      exact ha₁
    · rw [update_mail_self]

end MailSending

end ProcessingCommon

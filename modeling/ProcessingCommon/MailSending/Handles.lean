import ProcessingCommon.HttpRequesting.Handles
import ProcessingCommon.MailSending.Runs

/-!
# The handle and the list of a mail

While no mail is destroyed with its transfer under way, every handle is cleaned up once and every
list is freed once, and never in the multi handle. A mail that has run into its timeout is
destroyed with its handle attached.
-/

namespace ProcessingCommon

namespace MailSending

open HttpRequesting (Resource CURLMsg CURLE_OK Once Phase easy slist)
open Ledger (Event Disciplined heldAfter)
open Program (Exec)
open Transition (Reachable)

variable {okDestruct : MailSending → Prop} {ok : (c : Call) → Answer c → Prop} {i : Nat}
  {w w' : MailCurl}

theorem once_setopt (h : Once w.toCurl) (a : Resource) (opt : CurlOpt) :
    Once (w.setopt a opt).toCurl := by
  cases opt with
  | mailRcpt l =>
    cases l with
    | none => exact h.use (some a)
    | some l => exact (h.use (some a)).use (some l)
  | _ => exact h.use (some a)

theorem curl_once {c : Call} {r : Answer c} (he : curl i w c r w') (h : Once w.toCurl) :
    Once w'.toCurl := by
  cases c with
  | easyInit =>
    cases r with
    | none => exact he ▸ h
    | some a => exact he.2 ▸ h.note fun _ _ => he.1.2.2.1
  | easySetopt a opt => exact he ▸ once_setopt h a opt
  | easyCleanup p =>
    cases p with
    | none => exact he ▸ h
    | some a => exact he ▸ h.note fun b hb => by cases hb
  | getinfoPrivate a => exact he.2 ▸ h.use (some a)
  | getinfoResponseCode a => exact he.2 ▸ h.use (some a)
  | multiAddHandle p =>
    cases p <;> cases r
    · exact he ▸ h
    · exact he.elim
    · exact he ▸ h.use (some _)
    · exact he ▸ h.use (some _)
  | multiRemoveHandle a =>
    cases r
    · exact he ▸ h.use (some a)
    · exact he ▸ h.use (some a)
  | multiPerform =>
    obtain ⟨-, new, -, rfl⟩ := he
    exact h
  | multiInfoRead =>
    cases r with
    | none => exact he.2 ▸ h
    | some m =>
      obtain ⟨rest, -, rfl⟩ := he
      exact h
  | slistAppend p str =>
    cases p <;> cases r
    · exact he ▸ h
    · exact he.2 ▸ h.note fun _ _ => he.1.2.2.1
    · exact he ▸ h.use (some _)
    · exact he.2 ▸ h.use (some _)
  | slistFreeAll l => exact he ▸ h.note fun b hb => by cases hb
  | _ => exact he ▸ h

theorem reachable_once {s : System} (hs : Reachable Start (Step okDestruct ok) s) :
    Once s.curl.toCurl := by
  have hexec : ∀ {α : Type} {i : Nat} {p : Mail α} {ms ms' : Mails} {w w' : MailCurl} {a : α},
      Exec (env ok i) p ms w a ms' w' → Once w.toCurl → Once w'.toCurl := fun he =>
    he.keeps (I := fun w => Once w.toCurl) fun _ _ _ _ hcall => curl_once hcall.2
  refine hs.invariant (P := fun s => Once s.curl.toCurl) ?_ fun s a t h hstep => ?_
  · rintro s ⟨-, hcurl, -⟩ a
    rw [hcurl]
    exact Nat.zero_le 1
  · cases hstep with
    | construct _ => exact h
    | configure _ => exact h
    | tick _ he => exact hexec he h
    | cancel _ => exact h
    | destruct _ _ he => exact hexec he h

/-- In every run that destroys only settled mails no handle is cleaned up and no list is freed in
the multi handle, nothing is used after it was given back, and everything that a destroyed mail
has taken was given back exactly once. -/
theorem handles_freed {s : System} (hs : Reachable Start (Step Settled HandleRemoved) s) :
    s.curl.cleanedAttached = [] ∧ s.curl.freedAttached = [] ∧ Disciplined [] s.curl.trace ∧
      ∀ a, .acquire a ∈ s.curl.trace →
        s.curl.trace.count (.acquire a) = 1 ∧ s.curl.trace.count (.release a) ≤ 1 ∧
        (s.phase a.owner = .gone → s.curl.trace.count (.release a) = 1) := by
  have hok : s.Ok := reachable_ok hs
  refine ⟨hok.cleaned, hok.freed, hok.books.disciplined, fun a ha => ?_⟩
  have honce : s.curl.trace.count (.acquire a) = 1 :=
    Nat.le_antisymm (reachable_once hs a) (List.count_pos_iff.mpr ha)
  have hcount := hok.books.disciplined.count a
  rw [List.count_nil, honce, Nat.zero_add] at hcount
  refine ⟨honce, hcount ▸ Nat.le_add_left .., fun hgone => ?_⟩
  -- a destroyed mail holds nothing
  have hfree : a ∉ heldAfter [] s.curl.trace := by
    intro hheld
    obtain ⟨⟨i, k⟩, hk⟩ := (hok.books.held a).mp hheld
    rw [(hok.mail i).owned k a hk] at hgone
    exact absurd (((hok.mail i).gone hgone k).symm.trans hk) (Option.some_ne_none a).symm
  rw [List.count_eq_zero.mpr hfree, Nat.zero_add] at hcount
  exact hcount.symm

/-! ## Runs of one mail -/

/-- A libcurl with one handle and one list, which reads once from what is attached, and completes
it or not. -/
def oneMail (completes : Bool) (w : MailCurl) : (c : Call) → Answer c × MailCurl
  | .easyInit =>
    if w.New .easy 0 (easy 0) then (some (easy 0), w.on fun c => c.note (.acquire (easy 0)))
    else (none, w)
  | .easySetopt a opt => ((), w.setopt a opt)
  | .easyCleanup none => ((), w)
  | .easyCleanup (some a) => ((), w.on fun c => c.cleanup a)
  | .getinfoPrivate a => ((w.priv a).getD 0, w.on fun c => c.use (some a))
  | .getinfoResponseCode a => (250, w.on fun c => c.use (some a))
  | .multiInit => (true, w)
  | .multiAddHandle none => (false, w)
  | .multiAddHandle (some a) => (true, w.on fun c => (c.use (some a)).attach a)
  | .multiRemoveHandle a => (true, w.on fun c => (c.use (some a)).detach a)
  | .multiPerform =>
    (if w.attached (easy 0) then (w.readData (easy 0)).toList.map fun j => ⟨j, 1, 16384⟩ else [],
      w.on fun c => { c with msgs := c.msgs ++
        if completes ∧ c.attached (easy 0) then [⟨.done, easy 0, CURLE_OK, 250⟩] else [] })
  | .multiInfoRead =>
    match w.msgs with
    | [] => (none, w)
    | m :: rest => (some m, w.on fun c => { c with
        msgs := rest
        consumed := if m.msg = .done then c.consumed ++ [m] else c.consumed })
  | .slistAppend none _ =>
    if w.New .slist 0 (slist 0) then (some (slist 0), w.on fun c => c.note (.acquire (slist 0)))
    else (none, w)
  | .slistAppend (some l) _ => (some l, w.on fun c => c.use (some l))
  | .slistFreeAll l => ((), w.freeAll l)
  | .curlGlobalInit => ((), w)

/-- Every response has code 250. -/
def Code250 (w : MailCurl) : Prop := ∀ m ∈ w.msgs ++ w.consumed, m.respCode = 250

theorem curl_oneMail (completes : Bool) (w : MailCurl) (c : Call) (h : Code250 w) :
    curl 0 w c (oneMail completes w c).1 (oneMail completes w c).2 ∧
      Code250 (oneMail completes w c).2 := by
  cases c with
  | easyInit =>
    rw [oneMail]
    split
    · next hnew => exact ⟨⟨hnew, rfl⟩, h⟩
    · exact ⟨rfl, h⟩
  | easySetopt a opt =>
    refine ⟨rfl, ?_⟩
    cases opt with
    | mailRcpt l => cases l <;> exact h
    | _ => exact h
  | easyCleanup p => cases p <;> exact ⟨rfl, h⟩
  | getinfoPrivate a => exact ⟨⟨fun j hj => by rw [oneMail, hj, Option.getD_some], rfl⟩, h⟩
  | getinfoResponseCode a =>
    exact ⟨⟨fun m hm _ => (h m (List.mem_append_right _ hm)).symm, rfl⟩, h⟩
  | multiAddHandle p => cases p <;> exact ⟨rfl, h⟩
  | multiRemoveHandle a =>
    refine ⟨rfl, fun m hm => h m ?_⟩
    rcases List.mem_append.mp hm with hm | hm
    · exact List.mem_append_left _ (List.mem_filter.mp hm).1
    · exact List.mem_append_right _ hm
  | multiPerform =>
    refine ⟨⟨fun d hd => ?_, _, fun m hm => ?_, rfl⟩, fun m hm => ?_⟩
    · rw [oneMail] at hd
      split at hd
      · next hatt =>
        obtain ⟨j, hj, rfl⟩ := List.mem_map.mp hd
        exact ⟨easy 0, hatt, Option.mem_toList.mp hj⟩
      · cases hd
    · split at hm
      · next hatt =>
        rw [List.mem_singleton.mp hm]
        exact hatt.2
      · cases hm
    · rcases List.mem_append.mp hm with hm | hm
      · rcases List.mem_append.mp hm with hm | hm
        · exact h m (List.mem_append_left _ hm)
        · split at hm
          · rw [List.mem_singleton.mp hm]
          · cases hm
      · exact h m (List.mem_append_right _ hm)
  | multiInfoRead =>
    rw [oneMail]
    split
    · next hnil => exact ⟨⟨hnil, rfl⟩, h⟩
    · next m rest hmsgs =>
      refine ⟨⟨rest, hmsgs, rfl⟩, fun m' hm' => ?_⟩
      have hmem : m' ∈ w.msgs ++ w.consumed := by
        rw [hmsgs]
        rcases List.mem_append.mp hm' with hm' | hm'
        · exact List.mem_append_left _ (List.mem_cons_of_mem _ hm')
        · dsimp only [MailCurl.on] at hm'
          split at hm'
          · rcases List.mem_append.mp hm' with hm' | hm'
            · exact List.mem_append_right _ hm'
            · rw [List.mem_singleton.mp hm']
              exact List.mem_cons_self
          · exact List.mem_append_right _ hm'
      exact h m' hmem
  | slistAppend p str =>
    cases p with
    | none =>
      rw [oneMail]
      split
      · next hnew => exact ⟨⟨hnew, rfl⟩, h⟩
      · exact ⟨rfl, h⟩
    | some l => exact ⟨⟨rfl, rfl⟩, h⟩
  | slistFreeAll l => exact ⟨rfl, h⟩
  | _ => exact ⟨rfl, h⟩

theorem handleRemoved_oneMail (completes : Bool) (w : MailCurl) (c : Call) :
    HandleRemoved c (oneMail completes w c).1 := by
  cases c with
  | multiRemoveHandle a => rfl
  | _ => trivial

/-- A run of mail 0 in which `oneMail` has answered. -/
structure Played (okDestruct : MailSending → Prop) (s : System) : Prop where
  reach : Reachable Start (Step okDestruct HandleRemoved) s
  code : Code250 s.curl

namespace Played

theorem start : Played okDestruct
    ⟨⟨false, fun _ => {}⟩,
      ⟨⟨[], fun _ => false, fun _ => none, [], [], []⟩, fun _ => none, fun _ => none, []⟩,
      fun _ => .unborn⟩ :=
  ⟨.start ⟨rfl, rfl, rfl⟩, fun _ hm => absurd hm List.not_mem_nil⟩

variable {s : System}

theorem exec {α : Type} (completes : Bool) (p : Mail α) (ms : Mails) {w : MailCurl}
    (hw : Code250 w) :
    Exec (env HandleRemoved 0) p ms w (p.run (oneMail completes) ms w).1
      (p.run (oneMail completes) ms w).2.1 (p.run (oneMail completes) ms w).2.2 ∧
      Code250 (p.run (oneMail completes) ms w).2.2 :=
  Program.exec_run_on (fun w c h => ⟨⟨handleRemoved_oneMail completes w c,
    (curl_oneMail completes w c h).1⟩, (curl_oneMail completes w c h).2⟩) p ms hw

theorem construct (h : Played okDestruct s) (hph : s.phase 0 = .unborn) :
    Played okDestruct ⟨s.mails, s.curl, Function.update s.phase 0 .running⟩ :=
  ⟨h.reach.next (.construct hph), h.code⟩

theorem tick (h : Played okDestruct s) (completes : Bool) (n : Nat) (curTimeMs : UInt32)
    (hph : s.phase 0 = .running) :
    Played okDestruct
      ⟨((process n 0 curTimeMs).run (oneMail completes) s.mails s.curl).2.1,
        ((process n 0 curTimeMs).run (oneMail completes) s.mails s.curl).2.2,
        ticked s.phase 0 ((process n 0 curTimeMs).run (oneMail completes) s.mails s.curl).1⟩ :=
  have he := exec completes (process n 0 curTimeMs) s.mails h.code
  ⟨h.reach.next (.tick hph he.1), he.2⟩

theorem destruct (h : Played okDestruct s) (completes : Bool) (hph : s.phase 0 = .down)
    (hd : okDestruct (s.mails.mail 0)) :
    Played okDestruct
      ⟨((MailSending.destruct 0).run (oneMail completes) s.mails s.curl).2.1,
        ((MailSending.destruct 0).run (oneMail completes) s.mails s.curl).2.2,
        Function.update s.phase 0 .gone⟩ :=
  have he := exec completes (MailSending.destruct 0) s.mails h.code
  ⟨h.reach.next (.destruct hph hd he.1), he.2⟩

end Played

/-- A mail is sent, and destroyed after that. -/
theorem handles_freed_sent : ∃ s, Reachable Start (Step Settled HandleRemoved) s ∧
    s.phase 0 = .gone ∧ s.curl.consumed = [⟨.done, easy 0, CURLE_OK, 250⟩] ∧
    s.curl.trace.count (.release (easy 0)) = 1 ∧
    s.curl.trace.count (.release (slist 0)) = 1 := by
  have h₀ : Played Settled _ := .start
  have h₁ := h₀.construct rfl
  have h₂ := h₁.tick true 2 0 rfl
  have h₃ := h₂.tick true 2 100 rfl
  have h₄ := h₃.destruct true rfl fun hw => absurd hw.2 (by decide)
  have hrel := (handles_freed h₄.reach).2.2.2
  refine ⟨_, h₄.reach, rfl, rfl, (hrel (easy 0) ?_).2.2 rfl, (hrel (slist 0) ?_).2.2 rfl⟩
  · decide
  · decide

/-- A mail that has run into its timeout is destroyed in the multi handle. -/
theorem handles_freed_fails : ∃ s, Reachable Start (Step (fun _ => True) HandleRemoved) s ∧
    s.phase 0 = .gone ∧ s.curl.cleanedAttached = [easy 0] ∧ s.curl.freedAttached = [slist 0] := by
  have h₀ : Played (fun _ => True) _ := .start
  have h₁ := h₀.construct rfl
  have h₂ := h₁.tick false 2 0 rfl
  have h₃ := h₂.tick false 2 1001 rfl
  have h₄ := h₃.destruct false rfl trivial
  exact ⟨_, h₄.reach, rfl, rfl, rfl⟩

end MailSending

end ProcessingCommon

import ProcessingCommon.MailSending.Handles

/-!
# Accepted mails and the timeout

The runs of the mails with the time: a clock that goes on by any delay between two steps, and the
tick in which each transfer has begun. `mailDoneWait` looks at the timeout first, so a mail whose
transfer completes behind it is reported as an error, also if it was delivered.
-/

namespace ProcessingCommon

namespace MailSending

open HttpRequesting (Resource CURLMsg CURLE_OK Phase easy)
open Program (Exec wp wp_mono wp_seq)
open Transition (Reachable)

/-! ## The error of a tick -/

/-- What `process()` logs when it ends with an error. -/
inductive MailError
  /-- "could not create curl easy handle" -/
  | easyHandle
  /-- "could not bind curl easy handle" -/
  | bind
  /-- "timeout sending mail" -/
  | timeout
  /-- "curl performing failed: %s (%d)" -/
  | performing
  /-- "SMTP server did not return %d" -/
  | respCode
deriving DecidableEq

/-- The decision of `MailSeDoneWait` after `multiProcess()`. -/
def doneWaitEnd (m : MailSending) (diffMs : UInt32) : Success × Option MailError :=
  if diffMs > dMailSendTimeoutMs then (.negative, some .timeout)
  else if m.mDone = .pending then (.pending, none)
  else if m.mCurlRes ≠ CURLE_OK then (.negative, some .performing)
  else if m.mRespCode ≠ dSmtpCodeActionOkeyCompleted then (.negative, some .respCode)
  else (.positive, none)

/-- `process()` with its error. -/
def processErr (n i : Nat) (curTimeMs : UInt32) : Mail (Success × Option MailError) := do
  match (← this i).mState with
  | .mailSeStart =>
    perform .curlGlobalInit
    if (← easyHandleCreate i) ≠ .positive then return (.negative, some .easyHandle)
    if (← curlEasyHandleBind i) ≠ .positive then return (.negative, some .bind)
    multiProcess n
    assign i fun m => { m with mStartMs := curTimeMs, mState := .mailSeDoneWait }
    return (.pending, none)
  | .mailSeDoneWait =>
    let diffMs := curTimeMs - (← this i).mStartMs
    multiProcess n
    return doneWaitEnd (← this i) diffMs

variable {ω : Type} {env' : ω → (c : Call) → Answer c → ω → Prop} {ms ms' : Mails} {w w' : ω}
  {n i j : Nat} {curTimeMs : UInt32}

/-- It is `process()`. -/
theorem wp_processErr (n i : Nat) (curTimeMs : UInt32) {Q : Success → Mails → ω → Prop} :
    wp env' (processErr n i curTimeMs) (fun r => Q r.1) ms w =
      wp env' (process n i curTimeMs) Q ms w := by
  rw [processErr, process, Program.wp_bind, wp_this, Program.wp_bind, wp_this]
  cases (ms.mail i).mState with
  | mailSeStart =>
    dsimp only
    rw [mailStart, Program.wp_bind, Program.wp_bind]
    refine Program.wp_congr fun _ ms₁ w₁ => ?_
    rw [Program.wp_bind, Program.wp_bind]
    refine Program.wp_congr fun r₁ ms₂ w₂ => ?_
    rw [Program.wp_ite, Program.wp_ite]
    refine if_congr Iff.rfl rfl ?_
    rw [Program.wp_bind, Program.wp_bind]
    refine Program.wp_congr fun r₂ ms₃ w₃ => ?_
    rw [Program.wp_ite, Program.wp_ite]
    refine if_congr Iff.rfl rfl ?_
    rw [Program.wp_bind, Program.wp_bind]
    rfl
  | mailSeDoneWait =>
    dsimp only
    rw [mailDoneWait, Program.wp_bind, wp_this, Program.wp_bind, Program.wp_bind, wp_this,
      Program.wp_bind]
    refine Program.wp_congr fun _ ms₁ w₁ => ?_
    rw [Program.wp_bind, wp_this, Program.wp_pure, doneWaitEnd, Program.wp_ite]
    simp only [Program.wp_bind, wp_this, Program.wp_ite, Program.wp_pure]
    split
    · rfl
    · split
      · rfl
      · split
        · rfl
        · split <;> rfl

theorem exec_process {r : Success × Option MailError}
    (h : Exec env' (processErr n i curTimeMs) ms w r ms' w') :
    Exec env' (process n i curTimeMs) ms w r.1 ms' w' := by
  have hruns : wp env' (process n i curTimeMs)
      (fun success ms' w' => Exec env' (process n i curTimeMs) ms w success ms' w') ms w :=
    Program.wp_iff.mpr fun _ _ _ he => he
  rw [← wp_processErr] at hruns
  exact Program.wp_iff.mp hruns _ _ _ h

/-! ## What a tick leaves alone -/

/-- The mails have the same states and start times. -/
def SameClock (ms ms' : Mails) : Prop :=
  ∀ j, (ms'.mail j).mState = (ms.mail j).mState ∧ (ms'.mail j).mStartMs = (ms.mail j).mStartMs

theorem SameClock.refl (ms : Mails) : SameClock ms ms := fun _ => ⟨rfl, rfl⟩

theorem SameClock.assign {ms₀ : Mails} (h : SameClock ms₀ ms) {f : MailSending → MailSending}
    (hf : ∀ m, (f m).mState = m.mState ∧ (f m).mStartMs = m.mStartMs) (i : Nat) :
    SameClock ms₀ (ms.update i f) := by
  intro j
  rw [update_mail]
  split
  · next hj =>
    subst hj
    exact ⟨(hf _).1.trans (h j).1, (hf _).2.trans (h j).2⟩
  · exact h j

section

variable {ms₀ : Mails}

end

/-! ## What a tick does with the clock of its mail -/

/-- A tick that fails before the transfer, one in which it begins, and one that waits for it. -/
inductive Ticked (curTimeMs : UInt32) (m m' : MailSending) : Success × Option MailError → Prop
  | failed {err : Option MailError} : m.mState = .mailSeStart → m'.mState = .mailSeStart →
      err ≠ some .timeout → Ticked curTimeMs m m' (.negative, err)
  | begun : m.mState = .mailSeStart → m'.mState = .mailSeDoneWait → m'.mStartMs = curTimeMs →
      Ticked curTimeMs m m' (.pending, none)
  | waited : m.mState = .mailSeDoneWait → m'.mState = .mailSeDoneWait →
      m'.mStartMs = m.mStartMs → Ticked curTimeMs m m' (doneWaitEnd m' (curTimeMs - m.mStartMs))

/-- The time is in milliseconds, and `startedAt` that of the tick in which a transfer began. -/
structure Timed where
  sys : System
  now : Nat
  startedAt : Nat → Nat

inductive TimedAction
  | wait (delay : Nat)
  | other (a : Action)
  | tick (i : Nat) (success : Success) (err : Option MailError)

/-- `millis()` counts in 32 bits. -/
def millis (s : Timed) : UInt32 := UInt32.ofNat s.now

/-- Any delay, a step of the system that is no tick, or a tick at the time. -/
inductive TimedStep (okDestruct : MailSending → Prop) (ok : (c : Call) → Answer c → Prop) :
    Timed → TimedAction → Timed → Prop
  | wait {s : Timed} (delay : Nat) :
      TimedStep okDestruct ok s (.wait delay) { s with now := s.now + delay }
  | other {s : Timed} {a : Action} {sys : System} : Step okDestruct ok s.sys a sys →
      (∀ i success, a ≠ .tick i success) →
      TimedStep okDestruct ok s (.other a) { s with sys := sys }
  | tick {s : Timed} {i n : Nat} {success : Success} {err : Option MailError} {ms : Mails}
      {w : MailCurl} : s.sys.phase i = .running →
      Exec (env ok i) (processErr n i (millis s)) s.sys.mails s.sys.curl (success, err) ms w →
      TimedStep okDestruct ok s (.tick i success err)
        { sys := ⟨ms, w, ticked s.sys.phase i success⟩, now := s.now,
          startedAt := if (s.sys.mails.mail i).mState = .mailSeStart then
            Function.update s.startedAt i s.now else s.startedAt }

/-- At any time, with no mail. -/
def TimedStart (s : Timed) : Prop := Start s.sys

variable {okDestruct : MailSending → Prop} {ok : (c : Call) → Answer c → Prop} {s t : Timed}
  {success : Success} {err : Option MailError}

/-- A run with the time is a run of the system. -/
theorem TimedStep.step {a : TimedAction} (h : TimedStep okDestruct ok s a t) :
    t.sys = s.sys ∨ ∃ a, Step okDestruct ok s.sys a t.sys := by
  cases h with
  | wait delay => exact .inl rfl
  | other hs _ => exact .inr ⟨_, hs⟩
  | tick hph he => exact .inr ⟨_, .tick hph (exec_process he)⟩

theorem reachable_system (hs : Reachable TimedStart (TimedStep okDestruct ok) s) :
    Reachable Start (Step okDestruct ok) s.sys := by
  induction hs with
  | start h0 => exact .start h0
  | next _ hstep ih =>
    rcases hstep.step with heq | ⟨a, hs⟩
    · rw [heq]
      exact ih
    · exact .next ih hs

/-- More than a second since the start, as far as 32 bits tell. -/
def Late (s : Timed) (i : Nat) : Prop := 1000 < (s.now - s.startedAt i) % 2 ^ 32

/-- A run of mail 0 in which `oneMail` has answered. -/
structure TimedPlayed (s : Timed) : Prop where
  reach : Reachable TimedStart (TimedStep (fun _ => True) HandleRemoved) s
  code : Code250 s.sys.curl

namespace TimedPlayed

theorem start : TimedPlayed ⟨⟨⟨false, fun _ => {}⟩,
    ⟨⟨[], fun _ => false, fun _ => none, [], [], []⟩, fun _ => none, fun _ => none, []⟩,
    fun _ => .unborn⟩, 0, fun _ => 0⟩ :=
  ⟨.start ⟨rfl, rfl, rfl⟩, fun _ hm => absurd hm List.not_mem_nil⟩

theorem construct (h : TimedPlayed s) (hph : s.sys.phase 0 = .unborn) : TimedPlayed
    { s with sys := ⟨s.sys.mails, s.sys.curl, Function.update s.sys.phase 0 .running⟩ } :=
  ⟨h.reach.next (.other (.construct hph) fun _ _ ha => by cases ha), h.code⟩

theorem wait (h : TimedPlayed s) (delay : Nat) :
    TimedPlayed { s with now := s.now + delay } :=
  ⟨h.reach.next (.wait delay), h.code⟩

/-- The state after a tick. -/
def ticks (s : Timed) (completes : Bool) : Timed :=
  let r := (processErr 2 0 (millis s)).run (oneMail completes) s.sys.mails s.sys.curl
  { sys := ⟨r.2.1, r.2.2, ticked s.sys.phase 0 r.1.1⟩, now := s.now,
    startedAt := if (s.sys.mails.mail 0).mState = .mailSeStart then
      Function.update s.startedAt 0 s.now else s.startedAt }

theorem step (h : TimedPlayed s) (completes : Bool) (hph : s.sys.phase 0 = .running) :
    TimedStep (fun _ => True) HandleRemoved s
      (.tick 0 ((processErr 2 0 (millis s)).run (oneMail completes) s.sys.mails s.sys.curl).1.1
        ((processErr 2 0 (millis s)).run (oneMail completes) s.sys.mails s.sys.curl).1.2)
      (ticks s completes) :=
  .tick hph (Played.exec completes (processErr 2 0 (millis s)) s.sys.mails h.code).1

theorem tick (h : TimedPlayed s) (completes : Bool) (hph : s.sys.phase 0 = .running) :
    TimedPlayed (ticks s completes) :=
  ⟨h.reach.next (h.step completes hph),
    (Played.exec completes (processErr 2 0 (millis s)) s.sys.mails h.code).2⟩

end TimedPlayed

end MailSending

end ProcessingCommon

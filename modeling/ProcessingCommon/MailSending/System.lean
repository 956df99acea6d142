import ProcessingCommon.HttpRequesting.System
import ProcessingCommon.MailSending.Model

/-!
# The mails and libcurl

What libcurl may answer to a mail, and the runs of any number of mails: they are constructed,
configured, ticked and cancelled at any moment, and destroyed. There is no `shutdown()` of their
own, so what a cancellation or a timeout leaves behind is for the destructor.
-/

namespace ProcessingCommon

namespace MailSending

open HttpRequesting (Resource CURLMsg Kind Curl Phase)
open Ledger (Event)
open Program (Exec)

/-- libcurl as the requests know it, and what it knows of mails. No mail keeps the pointer of
something it gave back, so a pointer means what it was given for. -/
structure MailCurl extends Curl where
  /-- `CURLOPT_READDATA` of a handle. -/
  readData : Resource → Option Nat
  /-- The handle that has this list as `CURLOPT_MAIL_RCPT`. -/
  rcptOf : Resource → Option Resource
  /-- The lists that were freed while the handle that has them was attached. -/
  freedAttached : List Resource

namespace MailCurl

variable (w : MailCurl)

/-- Something that has to do with handles and messages alone. -/
def on (f : Curl → Curl) : MailCurl := { w with toCurl := f w.toCurl }

/-- The list that an option names is used with it. -/
def setopt (a : Resource) : CurlOpt → MailCurl
  | .mailRcpt (some l) =>
    { w.on fun c => (c.use (some a)).use (some l) with
      rcptOf := Function.update w.rcptOf l (some a) }
  | .readData j =>
    { w.on fun c => c.use (some a) with readData := Function.update w.readData a (some j) }
  | .privateData j =>
    w.on fun c => { c.use (some a) with priv := Function.update c.priv a (some j) }
  | _ => w.on fun c => c.use (some a)

/-- Is the handle that has the list attached? -/
def inUse (l : Resource) : Bool :=
  match w.rcptOf l with
  | some a => w.attached a
  | none => false

def freeAll (l : Resource) : MailCurl :=
  { w.on fun c => c.note (.release l) with
    freedAttached := if w.inUse l then w.freedAttached ++ [l] else w.freedAttached }

end MailCurl

/-- What libcurl answers to the calls of mail `i`. -/
def curl (i : Nat) (w : MailCurl) : (c : Call) → Answer c → MailCurl → Prop
  | .easyInit, r, w' =>
    match r with
    | none => w' = w
    | some a => w.New .easy i a ∧ w' = w.on fun c => c.note (.acquire a)
  | .easySetopt a opt, _, w' => w' = w.setopt a opt
  | .easyCleanup p, _, w' =>
    match p with
    | none => w' = w
    | some a => w' = w.on fun c => c.cleanup a
  | .getinfoPrivate a, r, w' =>
    (∀ j, w.priv a = some j → r = j) ∧ w' = w.on fun c => c.use (some a)
  | .getinfoResponseCode a, r, w' =>
    (∀ m ∈ w.consumed, m.easyHandle = a → r = m.respCode) ∧ w' = w.on fun c => c.use (some a)
  | .multiAddHandle p, r, w' =>
    match p, r with
    | some a, true => w' = w.on fun c => (c.use p).attach a
    | _, true => False
    | _, false => w' = w.on fun c => c.use p
  | .multiRemoveHandle a, r, w' =>
    w' = w.on fun c => if r then (c.use (some a)).detach a else c.use (some a)
  | .multiPerform, r, w' =>
    (∀ d ∈ r, ∃ a, w.attached a = true ∧ w.readData a = some d.pReq) ∧
      ∃ new, (∀ m ∈ new, w.attached m.easyHandle = true) ∧
        w' = w.on fun c => { c with msgs := c.msgs ++ new }
  | .multiInfoRead, r, w' =>
    match r with
    | none => w.msgs = [] ∧ w' = w
    | some m => ∃ rest, w.msgs = m :: rest ∧ w' = w.on fun c => { c with
        msgs := rest
        consumed := if m.msg = .done then c.consumed ++ [m] else c.consumed }
  | .slistAppend p _, r, w' =>
    match p, r with
    | some l, some a => a = l ∧ w' = w.on fun c => c.use p
    | none, some a => w.New .slist i a ∧ w' = w.on fun c => c.note (.acquire a)
    | _, none => w' = w.on fun c => c.use p
  | .slistFreeAll l, _, w' => w' = w.freeAll l
  | _, _, w' => w' = w

/-- The calls that meet the condition `ok`. -/
def env (ok : (c : Call) → Answer c → Prop) (i : Nat) (w : MailCurl) (c : Call) (r : Answer c)
    (w' : MailCurl) : Prop :=
  ok c r ∧ curl i w c r w'

/-- A mail that is `down` has had its result or was cancelled: it is not ticked any more. -/
structure System where
  mails : Mails
  curl : MailCurl
  phase : Nat → Phase

/-- `tick` with the result of `process()`. -/
inductive Action
  | construct (i : Nat)
  | configure (i : Nat) (s : Setting)
  | tick (i : Nat) (success : Success)
  | cancel (i : Nat)
  | destruct (i : Nat)

def Start (s : System) : Prop :=
  s.mails = ⟨false, fun _ => {}⟩ ∧
    s.curl = ⟨⟨[], fun _ => false, fun _ => none, [], [], []⟩, fun _ => none, fun _ => none, []⟩ ∧
    s.phase = fun _ => .unborn

/-- A step in which a destroyed mail meets `okDestruct` and the calls of libcurl meet `ok`. -/
inductive Step (okDestruct : MailSending → Prop) (ok : (c : Call) → Answer c → Prop) :
    System → Action → System → Prop
  | construct {s : System} {i : Nat} :
      s.phase i = .unborn →
      Step okDestruct ok s (.construct i) ⟨s.mails, s.curl, Function.update s.phase i .running⟩
  | configure {s : System} {i : Nat} {c : Setting} :
      s.phase i = .running →
      Step okDestruct ok s (.configure i c) ⟨s.mails.update i fun m => m.apply c, s.curl, s.phase⟩
  | tick {s : System} {i n : Nat} {curTimeMs : UInt32} {success : Success} {ms : Mails}
      {w : MailCurl} :
      s.phase i = .running →
      Exec (env ok i) (process n i curTimeMs) s.mails s.curl success ms w →
      Step okDestruct ok s (.tick i success)
        ⟨ms, w, if success = .pending then s.phase else Function.update s.phase i .down⟩
  | cancel {s : System} {i : Nat} :
      s.phase i = .running →
      Step okDestruct ok s (.cancel i) ⟨s.mails, s.curl, Function.update s.phase i .down⟩
  | destruct {s : System} {i : Nat} {ms : Mails} {w : MailCurl} :
      s.phase i = .down → okDestruct (s.mails.mail i) →
      Exec (env ok i) (destruct i) s.mails s.curl () ms w →
      Step okDestruct ok s (.destruct i) ⟨ms, w, Function.update s.phase i .gone⟩

/-- The transfer has begun, and its completion has not been read. -/
def UnderWay (m : MailSending) : Prop := m.mState = .mailSeDoneWait ∧ m.mDone = .pending

instance (m : MailSending) : Decidable m.UnderWay := inferInstanceAs (Decidable (_ ∧ _))

/-- A mail whose transfer is over, or has not begun. -/
def Settled (m : MailSending) : Prop := ¬ m.UnderWay

/-- `curl_multi_remove_handle` takes the handle out. -/
def HandleRemoved : (c : Call) → Answer c → Prop
  | .multiRemoveHandle _, r => r = true
  | _, _ => True

end MailSending

end ProcessingCommon

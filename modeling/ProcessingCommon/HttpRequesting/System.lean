import ProcessingCommon.HttpRequesting.Model
import ProcessingCommon.Lib.Ledger
import ProcessingCommon.Lib.Transition

/-!
# The requests and libcurl

What libcurl may answer, with a ledger of everything that was taken from it and given back,
and the runs of any number of requests: they are constructed, configured, ticked, shut down at
any moment and destroyed after that, one after the other in any order. A tick holds
`mtxCurlMulti` while it works on the multi handle and is one step here.

A pointer that is passed to libcurl is an address: it means what is held there now (`target`), which
is something else if its own resource was given back and the address used again.
-/

namespace ProcessingCommon

namespace HttpRequesting

open Ledger (Event heldAfter)
open Program (Exec)

structure Curl where
  trace : List (Event Resource)
  /-- The handles in the multi handle. -/
  attached : Resource → Bool
  /-- `CURLOPT_PRIVATE` of a handle. -/
  priv : Resource → Option Nat
  /-- What `curl_multi_info_read` has still to give. -/
  msgs : List CURLMsg
  /-- The completions that it has given. -/
  consumed : List CURLMsg
  /-- The handles that were cleaned up while they were attached. -/
  cleanedAttached : List Resource

namespace Curl

variable (w : Curl)

def note (e : Event Resource) : Curl := { w with trace := w.trace ++ [e] }

def held : List Resource := heldAfter [] w.trace

/-- What lies where `a` was given; `a` itself, which is gone, if nothing does. -/
def target (a : Resource) : Resource := (w.held.find? fun b => b.addr = a.addr).getD a

/-- The pointer is passed to a function. -/
def use : Option Resource → Curl
  | none => w
  | some a => w.note (.use a)

def attach (a : Resource) : Curl := { w with attached := Function.update w.attached a true }

/-- With the handle its messages go. -/
def detach (a : Resource) : Curl :=
  { w with
    attached := Function.update w.attached a false
    msgs := w.msgs.filter fun m => m.easyHandle ≠ a }

def cleanup (a : Resource) : Curl :=
  { w.note (.release a) with
    cleanedAttached := if w.attached a then w.cleanedAttached ++ [a] else w.cleanedAttached }

/-- The list that an option names is used with it. -/
def setopt (p : Option Resource) (opt : CurlOpt) : Curl :=
  match opt with
  | .httpHeader l | .resolve l => (w.use p).use (some l)
  | .privateData j =>
    { w.use p with priv := match p with
      | none => w.priv
      | some a => Function.update w.priv a (some j) }
  | _ => w.use p

/-- Something new for request `i`, at an address where nothing is held. -/
def New (k : Kind) (i : Nat) (a : Resource) : Prop :=
  a.kind = k ∧ a.owner = i ∧ .acquire a ∉ w.trace ∧ ∀ b ∈ w.held, b.addr ≠ a.addr

instance (k : Kind) (i : Nat) (a : Resource) : Decidable (w.New k i a) :=
  inferInstanceAs (Decidable (_ ∧ _ ∧ _ ∧ _))

end Curl

/-- The list that an option names is passed to libcurl too. -/
def CurlOpt.map (f : Resource → Resource) : CurlOpt → CurlOpt
  | .httpHeader l => .httpHeader (f l)
  | .resolve l => .resolve (f l)
  | opt => opt

/-- What libcurl answers to the calls of request `i`. -/
def curl (i : Nat) (w : Curl) : (c : Call) → Answer c → Curl → Prop
  | .easyInit, r, w' =>
    match r with
    | none => w' = w
    | some a => w.New .easy i a ∧ w' = w.note (.acquire a)
  | .easySetopt p opt, r, w' =>
    w' = if r then w.setopt (p.map w.target) (opt.map w.target) else w.use (p.map w.target)
  | .easyCleanup p, _, w' =>
    match p with
    | none => w' = w
    | some a => w' = w.cleanup (w.target a)
  | .getinfoPrivate a, r, w' =>
    (r.1 = true → ∀ j, w.priv (w.target a) = some j → r.2 = j) ∧ w' = w.use (some (w.target a))
  | .getinfoResponseCode a, r, w' =>
    (∀ code, r = some code → ∀ m ∈ w.consumed, m.easyHandle = w.target a → code = m.respCode) ∧
      w' = w.use (some (w.target a))
  | .multiAddHandle p, r, w' =>
    match p, r with
    | some a, true => w' = (w.use (some (w.target a))).attach (w.target a)
    | none, true => False
    | p, false => w' = w.use (p.map w.target)
  | .multiRemoveHandle p, r, w' =>
    match p, r with
    | some a, true => w' = (w.use (some (w.target a))).detach (w.target a)
    | p, _ => w' = w.use (p.map w.target)
  | .multiPerform, _, w' =>
    ∃ new, (∀ m ∈ new, w.attached m.easyHandle = true) ∧ w' = { w with msgs := w.msgs ++ new }
  | .multiInfoRead, r, w' =>
    match r with
    | none => w.msgs = [] ∧ w' = w
    | some m => ∃ rest, w.msgs = m :: rest ∧ w' = { w with
        msgs := rest
        consumed := if m.msg = .done then w.consumed ++ [m] else w.consumed }
  | .slistAppend p _, r, w' =>
    match p, r with
    | some l, some a => a = l ∧ w' = w.use (some (w.target l))
    | none, some a => w.New .slist i a ∧ w' = w.note (.acquire a)
    | p, none => w' = w.use (p.map w.target)
  | .slistFreeAll l, _, w' => w' = w.note (.release (w.target l))
  | _, _, w' => w' = w

/-- The calls that meet the condition `ok`. -/
def env (ok : (c : Call) → Answer c → Prop) (i : Nat) (w : Curl) (c : Call) (r : Answer c)
    (w' : Curl) : Prop :=
  ok c r ∧ curl i w c r w'

/-- Where a request is in its life. -/
inductive Phase
  | unborn
  | running
  | down
  | gone
deriving DecidableEq

structure System where
  requests : Requests
  curl : Curl
  phase : Nat → Phase

/-- `tick` with the result of `process()`. -/
inductive Action
  | construct (i : Nat) (url : Option String)
  | configure (i : Nat) (s : Setting)
  | tick (i : Nat) (success : Success)
  | shutdown (i : Nat)
  | destruct (i : Nat)

def Start (s : System) : Prop :=
  s.requests = ⟨false, fun _ => {}⟩ ∧ s.curl = ⟨[], fun _ => false, fun _ => none, [], [], []⟩ ∧
    s.phase = fun _ => .unborn

/-- A step in which the ticked request meets `okTick` and the calls of libcurl meet `ok`. -/
inductive Step (okTick : HttpRequesting → Prop) (ok : (c : Call) → Answer c → Prop) :
    System → Action → System → Prop
  | construct {s : System} {i : Nat} {url : Option String} {rs : Requests} {w : Curl} :
      s.phase i = .unborn →
      Exec (env ok i) (construct i url) s.requests s.curl () rs w →
      Step okTick ok s (.construct i url) ⟨rs, w, Function.update s.phase i .running⟩
  | configure {s : System} {i : Nat} {c : Setting} :
      s.phase i = .running →
      Step okTick ok s (.configure i c)
        ⟨s.requests.update i fun r => r.apply c, s.curl, s.phase⟩
  | tick {s : System} {i n : Nat} {success : Success} {rs : Requests} {w : Curl} :
      s.phase i = .running → okTick (s.requests.req i) →
      Exec (env ok i) (process n i) s.requests s.curl success rs w →
      Step okTick ok s (.tick i success) ⟨rs, w, s.phase⟩
  | shutdown {s : System} {i : Nat} {success : Success} {rs : Requests} {w : Curl} :
      s.phase i = .running ∨ s.phase i = .down →
      Exec (env ok i) (shutdown i) s.requests s.curl success rs w →
      Step okTick ok s (.shutdown i) ⟨rs, w, Function.update s.phase i .down⟩
  | destruct {s : System} {i : Nat} {rs : Requests} {w : Curl} :
      s.phase i = .down →
      Exec (env ok i) (destruct i) s.requests s.curl () rs w →
      Step okTick ok s (.destruct i) ⟨rs, w, Function.update s.phase i .gone⟩

/-- `curl_multi_remove_handle` takes the handle out, and `CURLOPT_PRIVATE` is set and got. All else
may fail; where results matter (`coded`) the response codes may not. -/
def Obeyed (coded : Prop) : (c : Call) → Answer c → Prop
  | .multiRemoveHandle _, r => r = true
  | .easySetopt _ (.privateData _), r => r = true
  | .getinfoPrivate _, r => r.1 = true
  | .getinfoResponseCode _, r => coded → r.isSome = true
  | _, _ => True

/-- Where the easy handle is configured next, the TLS version is one of those that the
code knows. -/
def TlsKnown (r : HttpRequesting) : Prop :=
  r.mState = .stEasyInit → r.mVersionTls = "" ∨ (sslVersion r.mVersionTls).isSome

end HttpRequesting

end ProcessingCommon

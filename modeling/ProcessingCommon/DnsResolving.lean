import ProcessingCommon.Lib.Program
import ProcessingCommon.Lib.Transition
import ProcessingCommon.Processing

/-!
# Resolving a host name (`DnsResolving.h`, `DnsResolving.cpp`)

c-ares reports with a callback, inside of `ares_getaddrinfo` or of a later `ares_process`. The tick
that follows a callback inside of `ares_getaddrinfo` finds no descriptor of the query any more and
takes that for an error: an address that is known at once is lost.
-/

namespace ProcessingCommon

namespace DnsResolving

inductive ProcState
  | stStart
  | stGlobalInit
  | stAresStart
  | stAresDoneWait
deriving DecidableEq

inductive SdState
  | stSdStart
deriving DecidableEq

/-- `ai_family` -/
inductive Family
  | afInet
  | afInet6
  | other (n : Int)
deriving DecidableEq

/-- A node of `ares_addrinfo`, with the bytes of `sin_addr` or `sin6_addr`. -/
structure AddrinfoNode where
  aiFamily : Family
  aiAddr : List UInt8
deriving DecidableEq

/-- What `aresRequestDone` is called with. -/
structure RequestDone where
  status : Int
  nodes : List AddrinfoNode
deriving DecidableEq

structure AresOptions where
  flags : Nat
  timeout : Nat
  tries : Nat

end DnsResolving

structure DnsResolving where
  mState : DnsResolving.ProcState := .stStart
  mStateSd : DnsResolving.SdState := .stSdStart
  mHostname : String := ""
  mLstIPv4 : List String := []
  mLstIPv6 : List String := []
  mChannelAresInitDone : Bool := false
  mDoneAres : Success := .pending
  mErrAres : String := ""

namespace DnsResolving

open Program (Exec wp wp_mono wp_seq)
open Transition (Reachable)

/-! ## c-ares -/

def ARES_SUCCESS : Int := 0

def ARES_FLAG_NORECURSE : Nat := 8

/-- The functions of c-ares that give a text. -/
structure Texts where
  aresStrerror : Int → String
  aresInetNtop : Family → List UInt8 → String

inductive Call
  | caresGlobalInit
  | aresInitOptions (options : AresOptions)
  | aresGetaddrinfo (hostname : String)
  | aresFds
  | aresTimeout (usec : Nat)
  | select (fdsMax : Nat)
  | aresProcess
  | aresDestroy
  | errLog (msg : String)

/-- Where c-ares may call back, the answer is the callback that it makes. An error of `select` has
its text and its number. -/
@[reducible] def Answer : Call → Type
  | .caresGlobalInit => Unit
  | .aresInitOptions _ => Int
  | .aresGetaddrinfo _ => Option RequestDone
  | .aresFds => Nat
  | .aresTimeout _ => Unit
  | .select _ => Except (String × Int) Nat
  | .aresProcess => Option RequestDone
  | .aresDestroy => Option RequestDone
  | .errLog _ => Unit

abbrev Dns := Program Call Answer DnsResolving

abbrev perform (k : Call) : Dns (Answer k) := Program.perform k

def procErrLog (msg : String) : Dns Success := do
  perform (.errLog msg)
  return .negative

variable (texts : Texts)

/-- One round of the loop over the nodes. -/
def nodeAdd (d : DnsResolving) (node : AddrinfoNode) : DnsResolving :=
  match node.aiFamily with
  | .afInet => { d with
      mLstIPv4 := d.mLstIPv4 ++ [texts.aresInetNtop node.aiFamily node.aiAddr] }
  | .afInet6 => { d with
      mLstIPv6 := d.mLstIPv6 ++ [texts.aresInetNtop node.aiFamily node.aiAddr] }
  | .other _ => d

def aresRequestDone (d : DnsResolving) (done : RequestDone) : DnsResolving :=
  if done.status ≠ 0 then
    { d with mErrAres := texts.aresStrerror done.status, mDoneAres := .negative }
  else { done.nodes.foldl (nodeAdd texts) d with mDoneAres := .positive }

/-- The callback of a call, if there is one. -/
def calledBack (done : Option RequestDone) : Dns Unit :=
  match done with
  | none => pure ()
  | some done => modify fun d => d.aresRequestDone texts done

/-! ## The member functions -/

def hostnameSet (d : DnsResolving) (hostname : String) : DnsResolving :=
  { d with mHostname := hostname }

def aresStart : Dns Bool := do
  let res ← perform (.aresInitOptions ⟨ARES_FLAG_NORECURSE, 400, 2⟩)
  if res ≠ ARES_SUCCESS then
    let _ ← procErrLog "could not set ares options"
    return false
  let done ← perform (.aresGetaddrinfo (← get).mHostname)
  calledBack texts done
  modify fun d => { d with mChannelAresInitDone := true }
  return true

def aresProcess : Dns Unit := do
  if !(← get).mChannelAresInitDone then
    modify fun d => { d with mDoneAres := .negative }
    return
  let fdsMax ← perform .aresFds
  if fdsMax = 0 then
    let done ← procErrLog "no file descriptors to be processed"
    modify fun d => { d with mDoneAres := done }
    return
  if fdsMax > 1000 then
    let done ← procErrLog "socket numbers above 1000 not supported at the moment"
    modify fun d => { d with mDoneAres := done }
    return
  perform (.aresTimeout 5000)
  match ← perform (.select fdsMax) with
  | .error (err, errno) =>
    let done ← procErrLog ("select returned error: " ++ err ++ " (" ++ toString errno ++ ")")
    modify fun d => { d with mDoneAres := done }
  | .ok _ =>
    let done ← perform .aresProcess
    calledBack texts done

def aresDestroy : Dns Unit := do
  let done ← perform .aresDestroy
  calledBack texts done
  modify fun d => { d with mChannelAresInitDone := false }

/-- `StAresDoneWait` -/
def aresDoneWait : Dns Success := do
  aresProcess texts
  if (← get).mDoneAres = .pending then return .pending
  if (← get).mDoneAres ≠ .positive then
    return ← procErrLog ("could not finish async address resolution: " ++ (← get).mErrAres)
  aresDestroy texts
  return .positive

def process : Dns Success := do
  match (← get).mState with
  | .stStart =>
    if (← get).mHostname = "" then return ← procErrLog "hostname not set"
    modify fun d => { d with mState := .stGlobalInit }
    return .pending
  | .stGlobalInit =>
    perform .caresGlobalInit
    modify fun d => { d with mState := .stAresStart }
    return .pending
  | .stAresStart =>
    if !(← aresStart texts) then
      return ← procErrLog "could not start async address resolution"
    modify fun d => { d with mState := .stAresDoneWait }
    return .pending
  | .stAresDoneWait => aresDoneWait texts

def shutdown : Dns Success := do
  match (← get).mStateSd with
  | .stSdStart =>
    if (← get).mChannelAresInitDone then aresDestroy texts
    return .positive

/-! ## Runs -/

def ARES_EDESTRUCTION : Int := 16

/-- The call of c-ares that has called back. -/
inductive Moment
  | aresGetaddrinfo
  | aresProcess
  | aresDestroy
deriving DecidableEq

structure CAres where
  /-- The query has begun and is not answered. -/
  outstanding : Bool
  called : Option (Moment × RequestDone)

/-- c-ares calls back once for a query. Without a query there is no descriptor, their numbers are
below 1000, and `select` has no error. -/
def cares (w : CAres) : (c : Call) → Answer c → CAres → Prop
  | .aresGetaddrinfo _, r, w' =>
    match r with
    | none => w' = { w with outstanding := true }
    | some done => w' = { w with called := some (.aresGetaddrinfo, done) }
  | .aresFds, r, w' => (w.outstanding = false → r = 0) ∧ r ≤ 1000 ∧ w' = w
  | .select _, r, w' => (∃ n, r = .ok n) ∧ w' = w
  | .aresProcess, r, w' =>
    match r with
    | none => w' = w
    | some done => w.outstanding = true ∧ w' = ⟨false, some (.aresProcess, done)⟩
  | .aresDestroy, r, w' =>
    match r with
    | none => w.outstanding = false ∧ w' = w
    | some done => w.outstanding = true ∧ done.status = ARES_EDESTRUCTION ∧
        w' = ⟨false, some (.aresDestroy, done)⟩
  | _, _, w' => w' = w

def Start (hostname : String) (s : DnsResolving × CAres) : Prop :=
  s = (hostnameSet {} hostname, ⟨false, none⟩)

/-- A tick that is not the last one. -/
def Tick (s : DnsResolving × CAres) (_ : Unit) (t : DnsResolving × CAres) : Prop :=
  Exec cares (process texts) s.1 s.2 .pending t.1 t.2

/-! ## What is wanted -/

def addresses (family : Family) (nodes : List AddrinfoNode) : List String :=
  (nodes.filter fun node => node.aiFamily = family).map fun node =>
    texts.aresInetNtop family node.aiAddr

/-- The last tick says what the callback has said. -/
structure Faithful (done : RequestDone) (success : Success) (d : DnsResolving) : Prop where
  outcome : success = .positive ↔ done.status = ARES_SUCCESS
  lstIPv4 : success = .positive → d.mLstIPv4 = addresses texts .afInet done.nodes
  lstIPv6 : success = .positive → d.mLstIPv6 = addresses texts .afInet6 done.nodes

/-- A success inside of `ares_getaddrinfo`. -/
def AtOnce (moment : Moment) (done : RequestDone) : Prop :=
  moment = .aresGetaddrinfo ∧ done.status = ARES_SUCCESS

/-- Nothing has come from c-ares yet. -/
structure Unresolved (d : DnsResolving) : Prop where
  mDoneAres : d.mDoneAres = .pending
  mLstIPv4 : d.mLstIPv4 = []
  mLstIPv6 : d.mLstIPv6 = []

/-- Between the ticks the query has not begun, is under way, or was answered at once. -/
def Inv (d : DnsResolving) (w : CAres) : Prop :=
  if d.mState = .stAresDoneWait then
    d.mChannelAresInitDone = true ∧ (w = ⟨true, none⟩ ∧ Unresolved d ∨
      ∃ done, w = ⟨false, some (.aresGetaddrinfo, done)⟩)
  else w = ⟨false, none⟩ ∧ Unresolved d

/-- The state after a tick, or what the last one says. -/
def TickOk (success : Success) (d : DnsResolving) (w : CAres) : Prop :=
  (success = .pending → Inv d w) ∧ (success ≠ .pending → ∀ moment done,
    w.called = some (moment, done) → (Faithful texts done success d ↔ ¬ AtOnce moment done))

variable {texts} {d : DnsResolving} {w : CAres} {done : RequestDone} {success : Success}

/-! ## The callback -/

theorem foldl_nodeAdd (nodes : List AddrinfoNode) (d : DnsResolving) :
    nodes.foldl (nodeAdd texts) d = { d with
      mLstIPv4 := d.mLstIPv4 ++ addresses texts .afInet nodes
      mLstIPv6 := d.mLstIPv6 ++ addresses texts .afInet6 nodes } := by
  induction nodes generalizing d with
  | nil => simp [addresses]
  | cons node nodes ih =>
    rw [List.foldl_cons, ih]
    cases hf : node.aiFamily <;> simp [nodeAdd, addresses, hf]

theorem Unresolved.positive (h : Unresolved d) (hst : done.status = ARES_SUCCESS) :
    d.aresRequestDone texts done = { d with
      mLstIPv4 := addresses texts .afInet done.nodes
      mLstIPv6 := addresses texts .afInet6 done.nodes
      mDoneAres := .positive } := by
  have hzero : ¬ done.status ≠ 0 := not_not.mpr hst
  rw [aresRequestDone, if_neg hzero, foldl_nodeAdd, h.mLstIPv4, h.mLstIPv6]
  rfl

/-- An end without success says what a callback without success has said. -/
theorem faithful_negative : Faithful texts done .negative d ↔ done.status ≠ ARES_SUCCESS := by
  constructor
  · intro h hst
    cases h.outcome.mpr hst
  · intro hne
    have hno : Success.negative ≠ .positive := by decide
    exact ⟨⟨fun h => absurd h hno, fun h => absurd h hne⟩, fun h => absurd h hno,
      fun h => absurd h hno⟩

/-! ## Ticks -/

theorem TickOk.negative (h : ∀ moment done, w.called = some (moment, done) →
    (done.status ≠ ARES_SUCCESS ↔ ¬ AtOnce moment done)) : TickOk texts .negative d w :=
  ⟨fun hp => absurd hp (by decide),
    fun _ moment done hc => faithful_negative.trans (h moment done hc)⟩

/-- No callback was made before this end. -/
theorem TickOk.uncalled (h : w.called = none) : TickOk texts .negative d w := by
  refine .negative fun moment done hc => ?_
  rw [h] at hc
  cases hc

/-- The callback came in time, and it was no success. -/
theorem TickOk.failed {outstanding : Bool} {moment : Moment} (hst : done.status ≠ ARES_SUCCESS) :
    TickOk texts .negative d ⟨outstanding, some (moment, done)⟩ := by
  refine .negative fun m done' hc => ?_
  obtain ⟨rfl, rfl⟩ := Prod.mk.inj (Option.some.inj hc)
  exact ⟨fun h ha => h ha.2, fun _ => hst⟩

/-- Descriptors belong to a query: it goes on, or it is answered. Without one there is an error. -/
theorem aresProcess_spec (hinit : d.mChannelAresInitDone = true) :
    wp cares (aresProcess texts) (fun _ d' w' =>
      (d' = { d with mDoneAres := .negative } ∧ w' = w) ∨
      w.outstanding = true ∧ (d' = d ∧ w' = w ∨
        ∃ done, d' = d.aresRequestDone texts done ∧ w' = ⟨false, some (.aresProcess, done)⟩))
      d w := by
  have herr : ∀ (w : CAres) (msg : String), wp cares (do
      let done ← procErrLog msg
      modify fun d => { d with mDoneAres := done })
      (fun _ d' w' => d' = { d with mDoneAres := .negative } ∧ w' = w) d w := by
    intro w msg
    simp only [procErrLog, Program.wp_bind, Program.wp_perform, Program.wp_modify, Program.wp_pure]
    rintro _ _ rfl
    exact ⟨trivial, rfl⟩
  rw [DnsResolving.aresProcess, Program.wp_bind, Program.wp_get, Program.wp_ite,
    if_neg (by rw [hinit]; decide), Program.wp_bind, Program.wp_perform]
  rintro fdsMax w₁ ⟨hfds, hmax, rfl⟩
  rw [Program.wp_ite]
  split
  · exact wp_mono (herr w₁ _) fun _ _ _ h => .inl h
  next hne =>
  have hout : w₁.outstanding = true := by
    rw [← Bool.not_eq_false]
    exact fun ho => hne (hfds ho)
  rw [Program.wp_ite, if_neg (Nat.not_lt.mpr hmax)]
  simp only [Program.wp_bind, Program.wp_perform]
  rintro _ _ rfl res w₂ ⟨⟨n, rfl⟩, rfl⟩
  rw [Program.wp_bind, Program.wp_perform]
  rintro done w' he
  cases done with
  | none => exact .inr ⟨hout, .inl ⟨rfl, he⟩⟩
  | some done => exact .inr ⟨hout, .inr ⟨done, rfl, he.2⟩⟩

/-- The end of a tick that has found an error. -/
theorem aresDoneWait_negative (hdone : d.mDoneAres = .negative)
    (h : TickOk texts .negative d w) :
    wp cares (do
      if (← get).mDoneAres = .pending then return Success.pending
      if (← get).mDoneAres ≠ .positive then
        return ← procErrLog ("could not finish async address resolution: " ++ (← get).mErrAres)
      aresDestroy texts
      return .positive) (TickOk texts) d w := by
  simp only [procErrLog, Program.wp_bind, Program.wp_get, Program.wp_ite, Program.wp_perform,
    Program.wp_pure, hdone]
  rw [if_neg (by decide), if_pos (by decide)]
  rintro _ _ rfl
  exact h

theorem aresDoneWait_ok (hst : d.mState = .stAresDoneWait) (h : Inv d w) :
    wp cares (aresDoneWait texts) (TickOk texts) d w := by
  rw [Inv, if_pos hst] at h
  obtain ⟨hinit, hw⟩ := h
  rw [aresDoneWait]
  refine wp_seq (aresProcess_spec hinit) ?_
  rintro _ d' w' (⟨rfl, rfl⟩ | ⟨hout, ⟨rfl, rfl⟩ | ⟨done, rfl, rfl⟩⟩)
  · apply aresDoneWait_negative rfl
    rcases hw with ⟨rfl, -⟩ | ⟨done, rfl⟩
    · exact .uncalled rfl
    · refine .negative fun moment done' hc => ?_
      obtain ⟨rfl, rfl⟩ := Prod.mk.inj (Option.some.inj hc)
      exact ⟨fun h ha => h ha.2, fun h hs => h ⟨rfl, hs⟩⟩
  · rcases hw with ⟨rfl, hun⟩ | ⟨done, rfl⟩
    · simp only [Program.wp_bind, Program.wp_get, Program.wp_ite, Program.wp_pure, hun.mDoneAres]
      rw [if_pos trivial]
      refine ⟨fun _ => ?_, fun hp => absurd rfl hp⟩
      rw [Inv, if_pos hst]
      exact ⟨hinit, .inl ⟨rfl, hun⟩⟩
    · cases hout
  · rcases hw with ⟨rfl, hun⟩ | ⟨done, rfl⟩
    · by_cases hs : done.status = ARES_SUCCESS
      · rw [hun.positive hs]
        simp only [procErrLog, aresDestroy, calledBack, Program.wp_bind, Program.wp_get,
          Program.wp_ite, Program.wp_perform, Program.wp_pure]
        rw [if_neg (by decide), if_neg (by decide)]
        rintro r w' he
        cases r with
        | some done' => cases he.1
        | none =>
          obtain ⟨-, rfl⟩ := he
          refine ⟨fun hp => absurd hp (by decide), fun _ moment done' hc => ?_⟩
          obtain ⟨rfl, rfl⟩ := Prod.mk.inj (Option.some.inj hc)
          refine ⟨fun _ ha => absurd ha.1 (by decide), fun _ => ?_⟩
          exact ⟨⟨fun _ => hs, fun _ => rfl⟩, fun _ => rfl, fun _ => rfl⟩
      · apply aresDoneWait_negative
        · exact congrArg mDoneAres (if_pos hs)
        · exact .failed hs
    · cases hout

theorem aresStart_ok (hst : d.mState = .stAresStart) (h : Inv d w) :
    wp cares (process texts) (TickOk texts) d w := by
  rw [Inv, if_neg (by rw [hst]; decide)] at h
  obtain ⟨rfl, hun⟩ := h
  rw [process, Program.wp_bind, Program.wp_get, hst]
  simp only [aresStart, procErrLog, calledBack, Program.wp_bind, Program.wp_get, Program.wp_ite,
    Program.wp_perform, Program.wp_modify, Program.wp_pure]
  rintro res _ rfl
  split
  · rintro _ _ rfl
    rw [if_pos (by decide)]
    rintro _ _ rfl
    exact .uncalled rfl
  · rintro done w' he
    cases done with
    | none =>
      obtain rfl := he
      refine ⟨fun _ => ?_, fun hp => absurd rfl hp⟩
      exact ⟨rfl, .inl ⟨rfl, { hun with }⟩⟩
    | some done =>
      obtain rfl := he
      refine ⟨fun _ => ?_, fun hp => absurd rfl hp⟩
      exact ⟨rfl, .inr ⟨done, rfl⟩⟩

theorem process_ok (h : Inv d w) : wp cares (process texts) (TickOk texts) d w := by
  cases hst : d.mState with
  | stStart =>
    rw [Inv, if_neg (by rw [hst]; decide)] at h
    obtain ⟨rfl, hun⟩ := h
    rw [process, Program.wp_bind, Program.wp_get, hst]
    simp only [procErrLog, Program.wp_bind, Program.wp_get, Program.wp_ite, Program.wp_perform,
      Program.wp_modify, Program.wp_pure]
    split
    · rintro _ _ rfl
      exact .uncalled rfl
    · exact ⟨fun _ => ⟨rfl, { hun with }⟩, fun hp => absurd rfl hp⟩
  | stGlobalInit =>
    rw [Inv, if_neg (by rw [hst]; decide)] at h
    obtain ⟨rfl, hun⟩ := h
    rw [process, Program.wp_bind, Program.wp_get, hst]
    simp only [Program.wp_bind, Program.wp_perform, Program.wp_modify, Program.wp_pure]
    rintro _ _ rfl
    exact ⟨fun _ => ⟨rfl, { hun with }⟩, fun hp => absurd rfl hp⟩
  | stAresStart => exact aresStart_ok hst h
  | stAresDoneWait =>
    rw [process, Program.wp_bind, Program.wp_get, hst]
    exact aresDoneWait_ok hst h

/-! ## The result -/

theorem reachable_inv {hostname : String} {s : DnsResolving × CAres}
    (hs : Reachable (Start hostname) (Tick texts) s) : Inv s.1 s.2 := by
  refine hs.invariant (P := fun s => Inv s.1 s.2) ?_ fun s i t h ht => ?_
  · rintro s rfl
    exact ⟨rfl, rfl, rfl, rfl⟩
  · exact (Program.wp_iff.mp (process_ok h) _ _ _ ht).1 rfl

/-- Whenever the last tick comes after the callback, it says what the callback has said, unless
that was a success inside of `ares_getaddrinfo`. -/
theorem result_faithful {hostname : String} {s : DnsResolving × CAres}
    (hs : Reachable (Start hostname) (Tick texts) s) {success : Success} {d : DnsResolving}
    {w : CAres} (he : Exec cares (process texts) s.1 s.2 success d w) (hend : success ≠ .pending)
    {moment : Moment} {done : RequestDone} (hcalled : w.called = some (moment, done)) :
    Faithful texts done success d ↔ ¬ AtOnce moment done :=
  (Program.wp_iff.mp (process_ok (reachable_inv hs)) _ _ _ he).2 hend moment done hcalled

/-! ## The address of this host -/

def localhost : RequestDone := ⟨ARES_SUCCESS, [⟨.afInet, [127, 0, 0, 1]⟩]⟩

def names : Texts := ⟨fun _ => "", fun _ _ => "127.0.0.1"⟩

/-- A c-ares that knows the address at once, or has to ask for it. -/
def answers (atOnce : Bool) (w : CAres) : (c : Call) → Answer c × CAres
  | .caresGlobalInit => ((), w)
  | .aresInitOptions _ => (ARES_SUCCESS, w)
  | .aresGetaddrinfo _ =>
    if atOnce then (some localhost, { w with called := some (.aresGetaddrinfo, localhost) })
    else (none, { w with outstanding := true })
  | .aresFds => (if w.outstanding then 6 else 0, w)
  | .aresTimeout _ => ((), w)
  | .select _ => (.ok 1, w)
  | .aresProcess =>
    if w.outstanding then (some localhost, ⟨false, some (.aresProcess, localhost)⟩) else (none, w)
  | .aresDestroy =>
    if w.outstanding then
      (some ⟨ARES_EDESTRUCTION, []⟩, ⟨false, some (.aresDestroy, ⟨ARES_EDESTRUCTION, []⟩)⟩)
    else (none, w)
  | .errLog _ => ((), w)

theorem cares_answers (atOnce : Bool) (w : CAres) (c : Call) :
    cares w c (answers atOnce w c).1 (answers atOnce w c).2 := by
  obtain ⟨outstanding, called⟩ := w
  cases c with
  | aresGetaddrinfo hostname => cases atOnce <;> rfl
  | aresFds =>
    cases outstanding
    · exact ⟨fun _ => rfl, Nat.zero_le _, rfl⟩
    · exact ⟨fun h => absurd h.symm Bool.false_ne_true, show 6 ≤ 1000 from by decide, rfl⟩
  | select fdsMax => exact ⟨⟨1, rfl⟩, rfl⟩
  | aresProcess =>
    cases outstanding
    · rfl
    · exact ⟨rfl, rfl⟩
  | aresDestroy =>
    cases outstanding
    · exact ⟨rfl, rfl⟩
    · exact ⟨rfl, rfl, rfl⟩
  | _ => rfl

/-- What a tick does there. -/
def ticked (atOnce : Bool) (s : DnsResolving × CAres) : Success × DnsResolving × CAres :=
  (process names).run (answers atOnce) s.1 s.2

theorem exec_ticked (atOnce : Bool) (s : DnsResolving × CAres) :
    Exec cares (process names) s.1 s.2 (ticked atOnce s).1 (ticked atOnce s).2.1
      (ticked atOnce s).2.2 :=
  Program.exec_run (cares_answers atOnce) (process names) s.1 s.2

theorem reachable_ticked {hostname : String} {s : DnsResolving × CAres} (atOnce : Bool)
    (hs : Reachable (Start hostname) (Tick names) s) (hp : (ticked atOnce s).1 = .pending) :
    Reachable (Start hostname) (Tick names) (ticked atOnce s).2 := by
  refine hs.next (i := ()) ?_
  rw [Tick, ← hp]
  exact exec_ticked atOnce s

/-- c-ares asks for the address, and the callback comes in the fourth tick. -/
theorem result_faithful_asked : ∃ s d w, Reachable (Start "localhost") (Tick names) s ∧
    Exec cares (process names) s.1 s.2 .positive d w ∧ d.mLstIPv4 = ["127.0.0.1"] ∧
    Faithful names localhost .positive d := by
  have h₀ : Reachable (Start "localhost") (Tick names) _ := .start rfl
  have h₁ := reachable_ticked false h₀ rfl
  have h₂ := reachable_ticked false h₁ rfl
  have h₃ := reachable_ticked false h₂ rfl
  refine ⟨_, _, _, h₃, exec_ticked false _, rfl, ?_⟩
  have hf := (result_faithful h₃ (exec_ticked false _) (by decide) rfl).mpr
    fun ha => absurd ha.1 (by decide)
  exact hf

/-- c-ares knows the address at once, and the fourth tick ends without it. -/
theorem result_faithful_fails : ¬ ∀ (texts : Texts) (hostname : String) (s : DnsResolving × CAres),
    Reachable (Start hostname) (Tick texts) s → ∀ success d w,
    Exec cares (process texts) s.1 s.2 success d w → success ≠ .pending → ∀ moment done,
    w.called = some (moment, done) → Faithful texts done success d := by
  intro h
  have h₀ : Reachable (Start "localhost") (Tick names) _ := .start rfl
  have h₁ := reachable_ticked true h₀ rfl
  have h₂ := reachable_ticked true h₁ rfl
  have h₃ := reachable_ticked true h₂ rfl
  have hf := h names _ _ h₃ _ _ _ (exec_ticked true _) (by decide) .aresGetaddrinfo localhost rfl
  exact absurd (hf.outcome.mpr rfl) (by decide)

end DnsResolving

end ProcessingCommon

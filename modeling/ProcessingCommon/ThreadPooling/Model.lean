import Mathlib.Tactic.Common
import ProcessingCommon.Processing

/-!
# The thread pool

`ThreadPooling`: the broker creates its internals, the workers, and hands the requests of a pipe
to them. Both are objects of the one class. A call that reads `mVecInternals` outside its size
has no result here.
-/

namespace ProcessingCommon

structure PoolRequest (Proc : Type) where
  pProc : Proc
  idDriverDesired : Int
deriving DecidableEq

namespace ThreadPooling

inductive ProcState
  | stStart
  | stBrokerStart
  | stBrokerMain
  | stInternalStart
  | stInternalMain
deriving DecidableEq

inductive SdState
  | stSdStart
  | stBrokerSdStart
  | stInternalSdStart
  | stInternalSdMain
deriving DecidableEq

end ThreadPooling

structure ThreadPooling (Proc : Type) where
  mState : ThreadPooling.ProcState := .stStart
  mStateSd : ThreadPooling.SdState := .stSdStart
  -- broker
  mCntInternals : UInt16 := 1
  mVecInternals : List (ThreadPooling Proc) := []
  -- internal
  mIsInternal : Bool := false
  mNumProcessing : Nat := 0
  mNumFinished : Nat := 0
  mListProcsReq : List Proc := []
  mListProcs : List Proc := []

namespace ThreadPooling

variable {Proc : Type}

/-- What a tick leaves, with the processes that it has set undriven. -/
structure Tick (Proc : Type) where
  success : Success
  pool : ThreadPooling Proc
  pipe : List (PoolRequest Proc)
  undriven : List Proc

/-- `create()` of a worker and the call of `mpFctDriverCreate` for it, which may call
`workerCntSet` of the broker. -/
inductive Creation
  | failed
  | created (cntSet : Option UInt16)
deriving DecidableEq

section Internal

variable (p : ThreadPooling Proc)

def workerCntSet (cnt : UInt16) : ThreadPooling Proc := { p with mCntInternals := cnt }

def numProcessingGet : Nat := p.mNumProcessing

def procInternalAdd (pProc : Proc) : ThreadPooling Proc :=
  { p with
    mListProcsReq := p.mListProcsReq ++ [pProc]
    mNumProcessing := p.mNumProcessing + 1 }

/-- The first locked section of `procsDrive`. -/
def procsReqSplice : ThreadPooling Proc :=
  { p with
    mListProcs := p.mListProcs ++ p.mListProcsReq
    mListProcsReq := [] }

/-- The second locked section of `procsDrive`. -/
def numProcessingDec : ThreadPooling Proc := { p with mNumProcessing := p.mNumProcessing - 1 }

/-- What `procsDrive` does behind it with a finished process. -/
def procErase (iter : Nat) : ThreadPooling Proc :=
  { p with
    mNumFinished := p.mNumFinished + 1
    mListProcs := p.mListProcs.eraseIdx iter }

end Internal

/-- The loop of `procsDrive` with `todo` processes between `iter` and the end of the list. The
process driven as number `n` in this tick goes on if `progress n`. -/
def driveLoop (progress : Nat → Bool) :
    (todo n iter : Nat) → ThreadPooling Proc → ThreadPooling Proc × List Proc
  | 0, _, _, p => (p, [])
  | todo + 1, n, iter, p =>
    if progress n then driveLoop progress todo (n + 1) (iter + 1) p
    else
      let r := driveLoop progress todo (n + 1) iter (p.numProcessingDec.procErase iter)
      (r.1, p.mListProcs[iter]?.toList ++ r.2)

def procsDrive (progress : Nat → Bool) (p : ThreadPooling Proc) :
    ThreadPooling Proc × List Proc :=
  driveLoop progress p.procsReqSplice.mListProcs.length 0 0 p.procsReqSplice

/-- The loop of `idDriverNextGet` with `n` workers from `idCurrent` on. -/
def selectLoop (vec : List (ThreadPooling Proc)) : (n idCurrent idSelected num : Nat) → Option Nat
  | 0, _, idSelected, _ => some idSelected
  | n + 1, idCurrent, idSelected, num => do
    let w ← vec[idCurrent]?
    if num ≤ w.numProcessingGet then selectLoop vec n (idCurrent + 1) idSelected num
    else selectLoop vec n (idCurrent + 1) idCurrent w.numProcessingGet

def idDriverNextGet (vec : List (ThreadPooling Proc)) : Option Nat := do
  let w ← vec[0]?
  selectLoop vec (vec.length - 1) 1 0 w.numProcessingGet

/-- The request names one of the configured workers. -/
def Desired (cnt : UInt16) (req : PoolRequest Proc) : Prop :=
  0 ≤ req.idDriverDesired ∧ req.idDriverDesired < cnt.toNat

instance (cnt : UInt16) (req : PoolRequest Proc) : Decidable (Desired cnt req) :=
  inferInstanceAs (Decidable (_ ∧ _))

def poolRequestsProcess (cnt : UInt16) :
    List (PoolRequest Proc) → List (ThreadPooling Proc) → Option (List (ThreadPooling Proc))
  | [], vec => some vec
  | req :: pipe, vec => do
    let idDriver ←
      (if Desired cnt req then some req.idDriverDesired.toNat else idDriverNextGet vec)
    let w ← vec[idDriver]?
    poolRequestsProcess cnt pipe (vec.set idDriver (w.procInternalAdd req.pProc))

/-- The loop of `StBrokerStart`. It reads the count before each worker; with a `uint16_t` there
are less than 65536 of them. -/
def createLoop (creation : Nat → Creation) :
    (fuel i : Nat) → ThreadPooling Proc → Success × ThreadPooling Proc
  | 0, _, p => (.pending, p)
  | fuel + 1, i, p =>
    if i < p.mCntInternals.toNat then
      match creation i with
      | .failed => (.negative, p)
      | .created cntSet =>
        createLoop creation fuel (i + 1)
          { p with
            mVecInternals := p.mVecInternals ++ [{ mIsInternal := true }]
            mCntInternals := cntSet.getD p.mCntInternals }
    else (.pending, { p with mState := .stBrokerMain })

def process (creation : Nat → Creation) (progress : Nat → Bool) (pipe : List (PoolRequest Proc))
    (p : ThreadPooling Proc) : Option (Tick Proc) :=
  match p.mState with
  | .stStart =>
    if p.mIsInternal then some ⟨.pending, { p with mState := .stInternalStart }, pipe, []⟩
    else some ⟨.pending, { p with mState := .stBrokerStart }, pipe, []⟩
  | .stBrokerStart =>
    if p.mCntInternals = 0 then some ⟨.negative, p, pipe, []⟩
    else
      let r := createLoop creation 65536 0 p
      some ⟨r.1, r.2, pipe, []⟩
  | .stBrokerMain => do
    let vec ← poolRequestsProcess p.mCntInternals pipe p.mVecInternals
    some ⟨.pending, { p with mVecInternals := vec }, [], []⟩
  | .stInternalStart => some ⟨.pending, { p with mState := .stInternalMain }, pipe, []⟩
  | .stInternalMain =>
    let r := p.procsDrive progress
    some ⟨.pending, r.1, pipe, r.2⟩

/-- `cancel(mVecInternals[i])` for the `n` workers from `i` on. -/
def cancelLoop (vec : List (ThreadPooling Proc)) : (n i : Nat) → Option Unit
  | 0, _ => some ()
  | n + 1, i => do
    let _ ← vec[i]?
    cancelLoop vec n (i + 1)

/-- Whether the `n` workers from `i` on have shut down. -/
def doneLoop (shutdownDone : Nat → Bool) (vec : List (ThreadPooling Proc)) :
    (n i : Nat) → Option Bool
  | 0, _ => some true
  | n + 1, i => do
    let _ ← vec[i]?
    if shutdownDone i then doneLoop shutdownDone vec n (i + 1) else some false

def shutdown (shutdownDone progress : Nat → Bool) (pipe : List (PoolRequest Proc))
    (p : ThreadPooling Proc) : Option (Tick Proc) :=
  match p.mStateSd with
  | .stSdStart =>
    if p.mIsInternal then some ⟨.pending, { p with mStateSd := .stInternalSdStart }, pipe, []⟩
    else do
      cancelLoop p.mVecInternals p.mCntInternals.toNat 0
      some ⟨.pending, { p with mStateSd := .stBrokerSdStart }, pipe, []⟩
  | .stBrokerSdStart => do
    let done ← doneLoop shutdownDone p.mVecInternals p.mCntInternals.toNat 0
    some ⟨if done then .positive else .pending, p, pipe, []⟩
  | .stInternalSdStart =>
    let r := p.procsDrive progress
    if r.1.mListProcs = [] then some ⟨.positive, r.1, pipe, r.2⟩
    else some ⟨.pending, { r.1 with mStateSd := .stInternalSdMain }, pipe, r.2⟩
  | .stInternalSdMain =>
    let r := p.procsDrive progress
    some ⟨if r.1.mListProcs = [] then .positive else .pending, r.1, pipe, r.2⟩

end ThreadPooling

end ProcessingCommon

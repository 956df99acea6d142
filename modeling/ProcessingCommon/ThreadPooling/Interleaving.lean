import Mathlib.Data.List.Perm.Basic
import Mathlib.Logic.Function.Basic
import ProcessingCommon.Lib.Transition
import ProcessingCommon.ThreadPooling.Model

/-!
# The pool in its threads

After the start the broker and every worker run in a thread of their own, and anybody may add
processes. A step is one locked section, with what its thread does alone up to the next one, so
that the steps of a tick may come between those of all the others.
-/

namespace ProcessingCommon

namespace ThreadPooling

variable {Proc : Type}

/-- Where the broker is in `poolRequestsProcess`. -/
inductive BrokerPc (Proc : Type)
  /-- between two ticks -/
  | idle
  /-- at `ppPoolRequests.get` -/
  | requests
  /-- in `idDriverNextGet`, before the count of the first worker is read -/
  | nextGet (req : PoolRequest Proc)
  /-- in the loop of `idDriverNextGet` -/
  | selecting (req : PoolRequest Proc) (idCurrent idSelected num : Nat)
  /-- before `procInternalAdd` -/
  | adding (req : PoolRequest Proc) (idDriver : Nat)

/-- The request that the broker has taken and not yet handed on. -/
def BrokerPc.hand : BrokerPc Proc → List (PoolRequest Proc)
  | .nextGet req | .selecting req _ _ _ | .adding req _ => [req]
  | _ => []

/-- Where a worker is in `procsDrive`. -/
inductive InternalPc
  | idle
  | driving (iter : Nat)
  /-- after `--mNumProcessing` -/
  | counted (iter : Nat)
deriving DecidableEq

/-- The objects and the pipe, where every thread is, and a log: the requests added, those
handed to a worker and the processes that a worker has set undriven. -/
structure Pool (Proc : Type) where
  broker : ThreadPooling Proc
  pipe : List (PoolRequest Proc)
  brokerPc : BrokerPc Proc
  internalPc : Nat → InternalPc
  added : List (PoolRequest Proc)
  delivered : List (PoolRequest Proc × Nat)
  undriven : List (Proc × Nat)

namespace Pool

variable (s : Pool Proc)

def setInternal (i : Nat) (w : ThreadPooling Proc) : Pool Proc :=
  { s with broker := { s.broker with mVecInternals := s.broker.mVecInternals.set i w } }

def setInternalPc (i : Nat) (pc : InternalPc) : Pool Proc :=
  { s with internalPc := Function.update s.internalPc i pc }

def brokerStep : Pool Proc :=
  match s.brokerPc with
  | .idle => { s with brokerPc := .requests }
  | .requests =>
    match s.pipe with
    | [] => { s with brokerPc := .idle }
    | req :: pipe =>
      if Desired s.broker.mCntInternals req then
        { s with pipe := pipe, brokerPc := .adding req req.idDriverDesired.toNat }
      else { s with pipe := pipe, brokerPc := .nextGet req }
  | .nextGet req =>
    match s.broker.mVecInternals[0]? with
    | none => s
    | some w => { s with brokerPc := .selecting req 1 0 w.numProcessingGet }
  | .selecting req idCurrent idSelected num =>
    match s.broker.mVecInternals[idCurrent]? with
    | none => { s with brokerPc := .adding req idSelected }
    | some w =>
      if num ≤ w.numProcessingGet then
        { s with brokerPc := .selecting req (idCurrent + 1) idSelected num }
      else { s with brokerPc := .selecting req (idCurrent + 1) idCurrent w.numProcessingGet }
  | .adding req idDriver =>
    match s.broker.mVecInternals[idDriver]? with
    | none => s
    | some w =>
      { s.setInternal idDriver (w.procInternalAdd req.pProc) with
        brokerPc := .requests
        delivered := s.delivered ++ [(req, idDriver)] }

/-- A step of worker `i`; the process at the iterator, if it is driven, goes on if `progress`. -/
def internalStep (i : Nat) (progress : Bool) : Pool Proc :=
  match s.broker.mVecInternals[i]? with
  | none => s
  | some w =>
    match s.internalPc i with
    | .idle => (s.setInternal i w.procsReqSplice).setInternalPc i (.driving 0)
    | .driving iter =>
      if iter < w.mListProcs.length then
        if progress then s.setInternalPc i (.driving (iter + 1))
        else (s.setInternal i w.numProcessingDec).setInternalPc i (.counted iter)
      else s.setInternalPc i .idle
    | .counted iter =>
      { (s.setInternal i (w.procErase iter)).setInternalPc i (.driving iter) with
        undriven := s.undriven ++ w.mListProcs[iter]?.toList.map fun pProc => (pProc, i) }

inductive Op (Proc : Type)
  | procAdd (req : PoolRequest Proc)
  | broker
  | internal (i : Nat) (progress : Bool)

def step (s : Pool Proc) : Op Proc → Pool Proc
  | .procAdd req => { s with pipe := s.pipe ++ [req], added := s.added ++ [req] }
  | .broker => s.brokerStep
  | .internal i progress => s.internalStep i progress

/-- A step of a worker leaves the others as they are. -/
theorem internalStep_other {i j : Nat} (hij : i ≠ j) (progress : Bool) :
    (s.internalStep j progress).broker.mVecInternals[i]? = s.broker.mVecInternals[i]? ∧
      (s.internalStep j progress).internalPc i = s.internalPc i := by
  have hset : ∀ w, (s.setInternal j w).broker.mVecInternals[i]? = s.broker.mVecInternals[i]? :=
    fun w => List.getElem?_set_ne (Ne.symm hij)
  have hpc : ∀ pc, Function.update s.internalPc j pc i = s.internalPc i := fun pc =>
    Function.update_of_ne hij ..
  unfold internalStep
  split
  · exact ⟨rfl, rfl⟩
  split
  · exact ⟨hset _, hpc _⟩
  · split
    · split
      · exact ⟨rfl, hpc _⟩
      · exact ⟨hset _, hpc _⟩
    · exact ⟨rfl, hpc _⟩
  · exact ⟨hset _, hpc _⟩

/-- The broker after its start, with `cnt` workers. -/
def started (cnt : UInt16) : ThreadPooling Proc :=
  { mState := .stBrokerMain
    mCntInternals := cnt
    mVecInternals := List.replicate cnt.toNat { mIsInternal := true } }

/-- Requests may have come before the start. -/
def Start (cnt : UInt16) (s : Pool Proc) : Prop :=
  ∃ reqs, s = ⟨started cnt, reqs, .idle, fun _ => .idle, reqs, [], []⟩

end Pool

end ThreadPooling

end ProcessingCommon

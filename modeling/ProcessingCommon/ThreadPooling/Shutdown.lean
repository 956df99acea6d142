import Mathlib.Logic.Relation
import ProcessingCommon.ThreadPooling.Ticks

/-!
# The pool shuts down

The threads of the pool with `cancel()` of the broker and `shutdown()` of the broker and of the
workers. Somebody cancels the broker at any time; the broker ends the tick it is in, cancels one
worker after the other and asks them from then on whether they are done. A worker ends its tick,
too, and goes on driving until its list is empty.
-/

namespace ProcessingCommon

namespace ThreadPooling

variable {Proc : Type} {cnt : UInt16} {i : Nat}

/-- Where the broker is in `shutdown()`. -/
inductive BrokerSdPc
  /-- in no tick of `shutdown()` -/
  | idle
  /-- before `cancel(mVecInternals[i])` -/
  | canceling (i : Nat)
  /-- before `mVecInternals[i]->shutdownDone()` -/
  | checking (i : Nat)

/-- The pool, and what the threads know of each other's end. -/
structure Life (Proc : Type) where
  pool : Pool Proc
  brokerSdPc : BrokerSdPc
  /-- `cancel()` has been called for the broker -/
  canceled : Bool
  /-- `shutdown()` of the broker has returned `Positive` -/
  shutdownDone : Bool
  internalCanceled : Nat → Bool
  /-- worker `i` has begun to drive in `shutdown()` -/
  internalSd : Nat → Bool
  internalDone : Nat → Bool

namespace Life

section Steps

variable (s : Life Proc)

def brokerStep : Life Proc :=
  match s.brokerSdPc with
  | .idle =>
    match s.pool.brokerPc with
    | .idle =>
      if s.shutdownDone then s
      else if s.canceled then
        match s.pool.broker.mStateSd with
        | .stSdStart => { s with brokerSdPc := .canceling 0 }
        | _ => { s with brokerSdPc := .checking 0 }
      else { s with pool := s.pool.brokerStep }
    | _ => { s with pool := s.pool.brokerStep }
  | .canceling i =>
    if i < s.pool.broker.mCntInternals.toNat then
      { s with
        internalCanceled := Function.update s.internalCanceled i true
        brokerSdPc := .canceling (i + 1) }
    else
      { s with
        pool := { s.pool with broker := { s.pool.broker with mStateSd := .stBrokerSdStart } }
        brokerSdPc := .idle }
  | .checking i =>
    if i < s.pool.broker.mCntInternals.toNat then
      if s.internalDone i then { s with brokerSdPc := .checking (i + 1) }
      else { s with brokerSdPc := .idle }
    else { s with shutdownDone := true, brokerSdPc := .idle }

/-- The end of `procsDrive` in `shutdown()` of worker `i`. -/
def internalSdEnd (i : Nat) (w : ThreadPooling Proc) : Life Proc :=
  if w.mListProcs = [] then
    { s with
      pool := s.pool.setInternalPc i .idle
      internalDone := Function.update s.internalDone i true }
  else
    { s with
      pool := (s.pool.setInternal i { w with mStateSd := .stInternalSdMain }).setInternalPc i .idle }

/-- A step of worker `i`. Its driver asks at the start of a tick whether it is canceled, and does
not tick it any more once `shutdown()` has returned `Positive`. -/
def internalStep (i : Nat) (progress : Bool) : Life Proc :=
  match s.pool.broker.mVecInternals[i]? with
  | none => s
  | some w =>
    if s.internalDone i then s
    else
      match s.pool.internalPc i with
      | .idle =>
        if s.internalCanceled i then
          match w.mStateSd with
          | .stSdStart =>
            { s with pool := s.pool.setInternal i { w with mStateSd := .stInternalSdStart } }
          | _ =>
            { s with
              pool := s.pool.internalStep i progress
              internalSd := Function.update s.internalSd i true }
        else { s with pool := s.pool.internalStep i progress }
      | .driving iter =>
        if iter < w.mListProcs.length ∨ s.internalSd i = false then
          { s with pool := s.pool.internalStep i progress }
        else s.internalSdEnd i w
      | .counted _ => { s with pool := s.pool.internalStep i progress }

end Steps

inductive Op (Proc : Type)
  | procAdd (req : PoolRequest Proc)
  | cancel
  | broker
  | internal (i : Nat) (progress : Bool)

def step (s : Life Proc) : Op Proc → Life Proc
  | .procAdd req => { s with pool := s.pool.step (.procAdd req) }
  | .cancel => { s with canceled := true }
  | .broker => s.brokerStep
  | .internal i progress => s.internalStep i progress

/-- After the start, with nothing canceled. -/
def Start (cnt : UInt16) (s : Life Proc) : Prop :=
  ∃ pool, Pool.Start cnt pool ∧
    s = ⟨pool, .idle, false, false, fun _ => false, fun _ => false, fun _ => false⟩

variable {s : Life Proc} {w : ThreadPooling Proc}

/-! ## Ticks that nobody interrupts -/

section Ticks

open Relation (ReflTransGen)

/-- Steps of one thread alone. -/
def Alone (op : Op Proc → Prop) : Life Proc → Life Proc → Prop :=
  ReflTransGen fun s t => ∃ o, op o ∧ t = s.step o

theorem Alone.head {op : Op Proc → Prop} {t u : Life Proc} {o : Op Proc} (ho : op o)
    (h : s.step o = t) (ht : Alone op t u) : Alone op s u :=
  ReflTransGen.head ⟨o, ho, h.symm⟩ ht

theorem Alone.single {op : Op Proc → Prop} {t : Life Proc} {o : Op Proc} (ho : op o)
    (h : s.step o = t) : Alone op s t :=
  ReflTransGen.single ⟨o, ho, h.symm⟩

/-- The loop that asks the workers. -/
theorem checking_run {n i : Nat} {done : Bool}
    (hn : i + n = s.pool.broker.mCntInternals.toNat)
    (hloop : doneLoop s.internalDone s.pool.broker.mVecInternals n i = some done) :
    Alone (· = .broker) { s with brokerSdPc := .checking i }
      { s with brokerSdPc := .idle, shutdownDone := s.shutdownDone || done } := by
  induction n generalizing i with
  | zero =>
    cases hloop
    have hge : ¬ i < s.pool.broker.mCntInternals.toNat := by omega
    rw [Bool.or_true]
    exact .single rfl (by simp only [step, Life.brokerStep, if_neg hge])
  | succ n ih =>
    have hlt : i < s.pool.broker.mCntInternals.toNat := by omega
    rw [doneLoop] at hloop
    simp only [Option.bind_eq_bind, Option.bind_eq_some_iff] at hloop
    obtain ⟨_, -, hloop⟩ := hloop
    split at hloop
    · next hdone =>
      refine .head rfl ?_ (ih (by omega) hloop)
      simp only [step, Life.brokerStep, if_pos hlt, hdone, if_true]
    · next hdone =>
      cases hloop
      rw [Bool.or_false]
      refine .single rfl ?_
      simp only [step, Life.brokerStep, if_pos hlt, hdone, Bool.false_eq_true, if_false]

/-- The steps of a broker tick in `shutdown()`, with the workers canceled, do what the call
does. -/
theorem broker_shutdown_run {progress : Nat → Bool} {t : Tick Proc} (hidle : s.brokerSdPc = .idle)
    (hpc : s.pool.brokerPc = .idle) (hcanceled : s.canceled = true)
    (hrun : s.shutdownDone = false) (hst : s.pool.broker.mStateSd = .stBrokerSdStart)
    (ht : s.pool.broker.shutdown s.internalDone progress s.pool.pipe = some t) :
    Alone (· = .broker) s
      { s with
        pool := { s.pool with broker := t.pool, pipe := t.pipe }
        shutdownDone := decide (t.success = .positive) } := by
  simp only [ThreadPooling.shutdown, hst, Option.bind_eq_bind, Option.bind_eq_some_iff] at ht
  obtain ⟨done, hloop, ht⟩ := ht
  cases ht
  have hfirst : s.step .broker = { s with brokerSdPc := .checking 0, shutdownDone := false } := by
    simp only [step, Life.brokerStep, hidle, hpc, hrun, hcanceled, hst, Bool.false_eq_true, if_false,
      if_true]
  have hcheck := checking_run (s := s) (i := 0) (Nat.zero_add _) hloop
  rw [hrun, ← hidle] at hcheck
  refine .head rfl hfirst ?_
  cases done <;> exact hcheck

/-- Worker `i` at `pc`, after it has set `us` undriven. -/
def put (s : Life Proc) (i : Nat) (w : ThreadPooling Proc) (pc : InternalPc) (us : List Proc) :
    Life Proc :=
  { s with
    pool := s.pool.putInternal i w pc us
    internalSd := Function.update s.internalSd i true }

/-- The loop of `procsDrive` in `shutdown()`, up to the end of the list. -/
theorem shutdown_drive_run (progress : Nat → Bool) {todo n iter : Nat} (us : List Proc)
    (hi : i < s.pool.broker.mVecInternals.length) (hrun : s.internalDone i = false)
    (htodo : iter + todo = w.mListProcs.length) :
    Alone (fun o => ∃ p, o = .internal i p) (s.put i w (.driving iter) us)
      (s.put i (driveLoop progress todo n iter w).1
        (.driving (driveLoop progress todo n iter w).1.mListProcs.length)
        (us ++ (driveLoop progress todo n iter w).2)) := by
  have hput : ∀ {w pc us}, (s.put i w pc us).pool.broker.mVecInternals[i]? = some w :=
    fun {w pc us} => Pool.putInternal_worker hi
  have hpc : ∀ {w pc us}, (s.put i w pc us).pool.internalPc i = pc :=
    fun {w pc us} => Pool.putInternal_pc
  have hnot : ∀ {w pc us}, (s.put i w pc us).internalDone i = false := hrun
  induction todo generalizing w n iter us with
  | zero =>
    rw [driveLoop, List.append_nil, ← htodo, Nat.add_zero]
    exact ReflTransGen.refl
  | succ todo ih =>
    have hiter : iter < w.mListProcs.length := by omega
    rw [driveLoop]
    split
    · refine .head ⟨true, rfl⟩ ?_ (ih us (by omega))
      simp only [step, Life.internalStep, hput, hnot, hpc, Bool.false_eq_true, if_false, hiter,
        true_or, if_true]
      rw [put, Pool.step_drive hi hiter]
      rfl
    · have hlen : iter + todo = (w.numProcessingDec.procErase iter).mListProcs.length := by
        show _ = (w.mListProcs.eraseIdx iter).length
        rw [List.length_eraseIdx_of_lt hiter]
        omega
      rw [← List.append_assoc]
      refine .head (t := s.put i w.numProcessingDec (.counted iter) us) ⟨false, rfl⟩ ?_
        (.head ⟨false, rfl⟩ ?_ (ih _ hlen))
      · simp only [step, Life.internalStep, hput, hnot, hpc, Bool.false_eq_true, if_false, hiter,
          true_or, if_true]
        rw [put, Pool.step_dec hi hiter]
        rfl
      · simp only [step, Life.internalStep, hput, hnot, hpc, Bool.false_eq_true, if_false]
        rw [put, Pool.step_erase hi]
        rfl

theorem driveLoop_mStateSd {progress : Nat → Bool} {todo n iter : Nat} :
    (driveLoop progress todo n iter w).1.mStateSd = w.mStateSd := by
  induction todo generalizing n iter w with
  | zero => rfl
  | succ todo ih =>
    rw [driveLoop]
    split
    · exact ih
    · exact ih (w := w.numProcessingDec.procErase iter)

theorem sd_self {sd : SdState} (h : w.mStateSd = sd) : { w with mStateSd := sd } = w := by
  cases w
  cases h
  rfl

/-- The step that ends a tick of `shutdown()`. -/
theorem step_sdEnd (us : List Proc) (hi : i < s.pool.broker.mVecInternals.length)
    (hrun : s.internalDone i = false) :
    (s.put i w (.driving w.mListProcs.length) us).step (.internal i true) =
      if w.mListProcs = [] then
        { s.put i w .idle us with internalDone := Function.update s.internalDone i true }
      else s.put i { w with mStateSd := .stInternalSdMain } .idle us := by
  have hput : (s.put i w (.driving w.mListProcs.length) us).pool.broker.mVecInternals[i]? = some w :=
    Pool.putInternal_worker hi
  have hpc : (s.put i w (.driving w.mListProcs.length) us).pool.internalPc i = _ :=
    Pool.putInternal_pc
  have hnot : (s.put i w (.driving w.mListProcs.length) us).internalDone i = false := hrun
  have hsd : (s.put i w (.driving w.mListProcs.length) us).internalSd i = true :=
    Function.update_self ..
  simp only [step, Life.internalStep, hput, hnot, hpc, hsd, Bool.false_eq_true, if_false,
    Nat.lt_irrefl, reduceCtorEq, or_self, internalSdEnd]
  split
  · simp only [put, Pool.putInternal, Pool.setInternalPc, Pool.setInternal, Function.update_idem]
  · simp only [put, Pool.putInternal, Pool.setInternalPc, Pool.setInternal, Function.update_idem,
      List.set_set]

/-- The steps of a worker's tick in `shutdown()` that are not interrupted do what the call does. -/
theorem internal_shutdown_run {shutdownDone progress : Nat → Bool}
    {pipe : List (PoolRequest Proc)} {t : Tick Proc}
    (hw : s.pool.broker.mVecInternals[i]? = some w) (hpc : s.pool.internalPc i = .idle)
    (hcanceled : s.internalCanceled i = true) (hrun : s.internalDone i = false)
    (hst : w.mStateSd = .stInternalSdStart ∨ w.mStateSd = .stInternalSdMain)
    (ht : w.shutdown shutdownDone progress pipe = some t) :
    Alone (fun o => ∃ p, o = .internal i p) s
      { s.put i t.pool .idle t.undriven with
        internalDone := Function.update s.internalDone i (decide (t.success = .positive)) } := by
  have hi : i < s.pool.broker.mVecInternals.length := (List.getElem?_eq_some_iff.mp hw).1
  have hfirst : s.step (.internal i true) = s.put i w.procsReqSplice (.driving 0) [] := by
    rcases hst with hst | hst
    all_goals
      simp only [step, Life.internalStep, Pool.internalStep, hw, hrun, hpc, hcanceled, hst,
        Bool.false_eq_true, if_false, if_true, put, Pool.putInternal, List.map_nil,
        List.append_nil]
      rfl
  have hdrive := shutdown_drive_run (n := 0) progress [] hi hrun
    (Nat.zero_add w.procsReqSplice.mListProcs.length)
  rw [List.nil_append] at hdrive
  have hstate : (w.procsDrive progress).1.mStateSd = w.mStateSd :=
    driveLoop_mStateSd (w := w.procsReqSplice)
  have hend := step_sdEnd (w := (w.procsDrive progress).1) (w.procsDrive progress).2 hi hrun
  refine .head ⟨true, rfl⟩ hfirst (ReflTransGen.trans hdrive (Alone.single ⟨true, rfl⟩ ?_))
  refine hend.trans ?_
  have hkept : Function.update s.internalDone i false = s.internalDone :=
    hrun ▸ Function.update_eq_self i s.internalDone
  rcases hst with hst | hst
  · simp only [ThreadPooling.shutdown, hst] at ht
    split
    · next hnil =>
      rw [if_pos hnil] at ht
      cases ht
      rfl
    · next hnil =>
      rw [if_neg hnil] at ht
      cases ht
      simp only [reduceCtorEq, decide_false, hkept]
      rfl
  · simp only [ThreadPooling.shutdown, hst] at ht
    cases ht
    split
    · simp only [decide_true]
    · next hnil =>
      have hsame : { (w.procsDrive progress).1 with mStateSd := .stInternalSdMain } =
          (w.procsDrive progress).1 := sd_self (hstate.trans hst)
      simp only [reduceCtorEq, decide_false, hkept, hsame]
      rfl

end Ticks

end Life

end ThreadPooling

end ProcessingCommon

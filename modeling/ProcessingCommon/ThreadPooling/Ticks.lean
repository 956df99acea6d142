import Mathlib.Logic.Relation
import ProcessingCommon.ThreadPooling.Interleaving

/-!
# Ticks and their steps

The start of the broker, and a tick of the broker or of a worker that nobody interrupts: its
steps do what the call of `process()` does.
-/

namespace ProcessingCommon

namespace ThreadPooling

open Relation (ReflTransGen)

variable {Proc : Type} {cnt : UInt16} {progress : Nat → Bool}

/-! ## The start -/

theorem createLoop_created {fuel i : Nat} {p : ThreadPooling Proc}
    (hi : p.mCntInternals.toNat - i < fuel) :
    createLoop (fun _ => .created none) fuel i p =
      (.pending, { p with
        mState := .stBrokerMain
        mVecInternals := p.mVecInternals ++
          List.replicate (p.mCntInternals.toNat - i) { mIsInternal := true } }) := by
  induction fuel generalizing i p with
  | zero => omega
  | succ fuel ih =>
    rw [createLoop]
    split
    · next hlt =>
      have hrest : p.mCntInternals.toNat - i = p.mCntInternals.toNat - (i + 1) + 1 := by omega
      have hvec : ∀ w : ThreadPooling Proc,
          p.mVecInternals ++ List.replicate (p.mCntInternals.toNat - i) w =
            p.mVecInternals ++ [w] ++ List.replicate (p.mCntInternals.toNat - (i + 1)) w := by
        intro w
        rw [hrest, List.replicate_succ, List.append_assoc]
        rfl
      have hfuel : p.mCntInternals.toNat - (i + 1) < fuel := by omega
      have hnext := ih (p := { p with
        mVecInternals := p.mVecInternals ++ [{ mIsInternal := true }] }) hfuel
      rw [hvec]
      exact hnext
    · next hge =>
      rw [show p.mCntInternals.toNat - i = 0 by omega, List.replicate_zero, List.append_nil]

/-- Two ticks start the broker with its workers, if they can be created. -/
theorem process_started (hcnt : cnt ≠ 0) (pipe : List (PoolRequest Proc)) :
    ((({} : ThreadPooling Proc).workerCntSet cnt).process (fun _ => .created none) progress pipe
      |>.bind fun t => t.pool.process (fun _ => .created none) progress t.pipe) =
      some ⟨.pending, Pool.started cnt, pipe, []⟩ := by
  have hlt : cnt.toNat - 0 < 65536 := cnt.toNat_lt
  simp only [process, workerCntSet, Bool.false_eq_true, if_false, Option.bind_some, hcnt]
  rw [createLoop_created hlt]
  rfl

/-! ## The steps of a tick -/

namespace Pool

variable {s : Pool Proc} {i : Nat} {w : ThreadPooling Proc}

/-- Steps of the broker alone. -/
def Broker : Pool Proc → Pool Proc → Prop := ReflTransGen fun s t => t = step s .broker

/-- Steps of worker `i` alone. -/
def Internal (i : Nat) : Pool Proc → Pool Proc → Prop :=
  ReflTransGen fun s t => ∃ progress, t = step s (.internal i progress)

theorem Broker.single {t : Pool Proc} (h : s.brokerStep = t) : Broker s t :=
  ReflTransGen.single h.symm

theorem Broker.head {t u : Pool Proc} (h : s.brokerStep = t) (ht : Broker t u) : Broker s u :=
  ReflTransGen.head h.symm ht

theorem Internal.single {t : Pool Proc} (progress : Bool) (h : s.internalStep i progress = t) :
    Internal i s t :=
  ReflTransGen.single ⟨progress, h.symm⟩

theorem Internal.head {t u : Pool Proc} (progress : Bool) (h : s.internalStep i progress = t)
    (ht : Internal i t u) : Internal i s u :=
  ReflTransGen.head ⟨progress, h.symm⟩ ht

theorem selecting_run {n cur sel num id : Nat} {req : PoolRequest Proc}
    (hn : cur + n = s.broker.mVecInternals.length)
    (hid : selectLoop s.broker.mVecInternals n cur sel num = some id) :
    Broker { s with brokerPc := .selecting req cur sel num }
      { s with brokerPc := .adding req id } := by
  induction n generalizing cur sel num with
  | zero =>
    cases hid
    have hcur : s.broker.mVecInternals.length ≤ cur := Nat.le_of_eq hn.symm
    refine Broker.single ?_
    simp only [brokerStep, List.getElem?_eq_none hcur]
  | succ n ih =>
    have hcur : cur < s.broker.mVecInternals.length := by omega
    rw [selectLoop] at hid
    simp only [List.getElem?_eq_getElem hcur, Option.bind_eq_bind, Option.bind_some] at hid
    split at hid
    · next hle =>
      refine Broker.head ?_ (ih (by omega) hid)
      simp only [brokerStep, List.getElem?_eq_getElem hcur, if_pos hle]
    · next hgt =>
      refine Broker.head ?_ (ih (by omega) hid)
      simp only [brokerStep, List.getElem?_eq_getElem hcur, if_neg hgt]

/-- From `get` to `procInternalAdd`. -/
theorem get_run {req : PoolRequest Proc} {pipe : List (PoolRequest Proc)} {id : Nat}
    (hid : (if Desired s.broker.mCntInternals req then some req.idDriverDesired.toNat
      else idDriverNextGet s.broker.mVecInternals) = some id) :
    Broker { s with pipe := req :: pipe, brokerPc := .requests }
      { s with pipe := pipe, brokerPc := .adding req id } := by
  split at hid
  · next hd =>
    cases hid
    refine Broker.single ?_
    simp only [brokerStep, if_pos hd]
  · next hd =>
    simp only [idDriverNextGet, Option.bind_eq_bind, Option.bind_eq_some_iff] at hid
    obtain ⟨w, hw, hsel⟩ := hid
    have hpos : 0 < s.broker.mVecInternals.length := (List.getElem?_eq_some_iff.mp hw).1
    have hn : 1 + (s.broker.mVecInternals.length - 1) = s.broker.mVecInternals.length := by omega
    have hnext : brokerStep { s with pipe := req :: pipe, brokerPc := .requests } =
        { s with pipe := pipe, brokerPc := .nextGet req } := by
      simp only [brokerStep, if_neg hd]
    refine Broker.head hnext (Broker.head ?_ (selecting_run (s := { s with pipe := pipe }) hn hsel))
    simp only [brokerStep, hw]

theorem requests_run {pipe : List (PoolRequest Proc)} {vec : List (ThreadPooling Proc)}
    (hvec : poolRequestsProcess s.broker.mCntInternals pipe s.broker.mVecInternals = some vec) :
    ∃ ds, Broker { s with pipe := pipe, brokerPc := .requests }
      { s with
        broker := { s.broker with mVecInternals := vec }
        pipe := []
        brokerPc := .idle
        delivered := s.delivered ++ ds } := by
  induction pipe generalizing s with
  | nil =>
    cases hvec
    refine ⟨[], Broker.single ?_⟩
    rw [List.append_nil]
    obtain ⟨broker, _⟩ := s
    cases broker
    rfl
  | cons req pipe ih =>
    rw [poolRequestsProcess] at hvec
    simp only [Option.bind_eq_bind, Option.bind_eq_some_iff] at hvec
    obtain ⟨id, hid, w, hw, hrest⟩ := hvec
    obtain ⟨ds, hds⟩ := ih (s := { s.setInternal id (w.procInternalAdd req.pProc) with
      delivered := s.delivered ++ [(req, id)] }) hrest
    have hadd : brokerStep { s with pipe := pipe, brokerPc := .adding req id } =
        { s.setInternal id (w.procInternalAdd req.pProc) with
          pipe := pipe, brokerPc := .requests, delivered := s.delivered ++ [(req, id)] } := by
      simp only [brokerStep, hw]
      rfl
    refine ⟨(req, id) :: ds, ReflTransGen.trans (get_run hid) (Broker.head hadd ?_)⟩
    have happ : s.delivered ++ (req, id) :: ds = s.delivered ++ [(req, id)] ++ ds := by
      rw [List.append_assoc]
      rfl
    rw [happ]
    exact hds

/-- The steps of a broker tick that are not interrupted. -/
theorem broker_run {creation : Nat → Creation} {t : Tick Proc}
    (hst : s.broker.mState = .stBrokerMain) (hpc : s.brokerPc = .idle)
    (ht : s.broker.process creation progress s.pipe = some t) :
    ∃ ds, Broker s
      { s with broker := t.pool, pipe := t.pipe, delivered := s.delivered ++ ds } := by
  simp only [process, hst, Option.bind_eq_bind, Option.bind_eq_some_iff] at ht
  obtain ⟨vec, hvec, ht⟩ := ht
  cases ht
  obtain ⟨ds, hds⟩ := requests_run hvec
  have hidle : s.brokerStep = { s with brokerPc := .requests } := by
    simp only [brokerStep, hpc]
  refine ⟨ds, Broker.head hidle ?_⟩
  rw [hpc, ← hst]
  exact hds

/-- The worker and where it is, with what it has set undriven. -/
def putInternal (s : Pool Proc) (i : Nat) (w : ThreadPooling Proc) (pc : InternalPc)
    (us : List Proc) : Pool Proc :=
  { (s.setInternal i w).setInternalPc i pc with
    undriven := s.undriven ++ us.map fun pProc => (pProc, i) }

section Put

variable {pc : InternalPc} {us : List Proc} {iter : Nat}

@[simp] theorem putInternal_pc : (s.putInternal i w pc us).internalPc i = pc :=
  Function.update_self ..

theorem putInternal_worker (hi : i < s.broker.mVecInternals.length) :
    (s.putInternal i w pc us).broker.mVecInternals[i]? = some w :=
  List.getElem?_set_self hi

theorem step_end (hi : i < s.broker.mVecInternals.length) (hiter : w.mListProcs.length ≤ iter)
    (progress : Bool) :
    (s.putInternal i w (.driving iter) us).internalStep i progress =
      s.putInternal i w .idle us := by
  simp only [internalStep, putInternal_worker hi, putInternal_pc, if_neg (Nat.not_lt.mpr hiter)]
  simp only [putInternal, setInternalPc, setInternal, Function.update_idem]

theorem step_drive (hi : i < s.broker.mVecInternals.length) (hiter : iter < w.mListProcs.length) :
    (s.putInternal i w (.driving iter) us).internalStep i true =
      s.putInternal i w (.driving (iter + 1)) us := by
  simp only [internalStep, putInternal_worker hi, putInternal_pc, if_pos hiter, if_true]
  simp only [putInternal, setInternalPc, setInternal, Function.update_idem]

theorem step_dec (hi : i < s.broker.mVecInternals.length) (hiter : iter < w.mListProcs.length) :
    (s.putInternal i w (.driving iter) us).internalStep i false =
      s.putInternal i w.numProcessingDec (.counted iter) us := by
  simp only [internalStep, putInternal_worker hi, putInternal_pc, if_pos hiter]
  simp only [putInternal, setInternalPc, setInternal, Function.update_idem, List.set_set]
  rfl

theorem step_erase (hi : i < s.broker.mVecInternals.length) (progress : Bool) :
    (s.putInternal i w (.counted iter) us).internalStep i progress =
      s.putInternal i (w.procErase iter) (.driving iter) (us ++ w.mListProcs[iter]?.toList) := by
  simp only [internalStep, putInternal_worker hi, putInternal_pc]
  simp only [putInternal, setInternalPc, setInternal, Function.update_idem, List.set_set,
    List.map_append, List.append_assoc]

/-- The loop of `procsDrive`, from one process of the list to its end. -/
theorem drive_run {todo n : Nat} (hi : i < s.broker.mVecInternals.length)
    (htodo : iter + todo = w.mListProcs.length) :
    Internal i (s.putInternal i w (.driving iter) us)
      (s.putInternal i (driveLoop progress todo n iter w).1 .idle
        (us ++ (driveLoop progress todo n iter w).2)) := by
  induction todo generalizing w n iter us with
  | zero =>
    rw [driveLoop, List.append_nil]
    exact .single true (step_end hi (Nat.le_of_eq htodo.symm) true)
  | succ todo ih =>
    have hiter : iter < w.mListProcs.length := by omega
    rw [driveLoop]
    split
    · exact .head true (step_drive hi hiter) (ih (by omega))
    · have hlen : iter + todo = (w.numProcessingDec.procErase iter).mListProcs.length := by
        show _ = (w.mListProcs.eraseIdx iter).length
        rw [List.length_eraseIdx_of_lt hiter]
        omega
      refine .head false (step_dec hi hiter) (.head false (step_erase hi false) ?_)
      rw [← List.append_assoc]
      exact ih hlen

/-- The steps of a worker's tick that are not interrupted. -/
theorem internal_run {pipe : List (PoolRequest Proc)} {creation : Nat → Creation} {t : Tick Proc}
    (hw : s.broker.mVecInternals[i]? = some w) (hst : w.mState = .stInternalMain)
    (hpc : s.internalPc i = .idle) (ht : w.process creation progress pipe = some t) :
    Internal i s (s.putInternal i t.pool .idle t.undriven) := by
  have hi : i < s.broker.mVecInternals.length := (List.getElem?_eq_some_iff.mp hw).1
  simp only [process, hst] at ht
  cases ht
  have hsplice : s.internalStep i true = s.putInternal i w.procsReqSplice (.driving 0) [] := by
    simp only [internalStep, hw, hpc]
    rw [putInternal, List.map_nil, List.append_nil]
    rfl
  exact .head true hsplice (drive_run hi (Nat.zero_add _))

end Put

end Pool

end ThreadPooling

end ProcessingCommon

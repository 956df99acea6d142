import ProcessingCommon.ThreadPooling.Conservation
import ProcessingCommon.ThreadPooling.Shutdown

/-!
# Shutdown is graceful

What the broker has handed on when it is canceled is driven to its end: a worker that drives in
`shutdown()` gets nothing new, so that it is done with both lists empty, and the broker is done when
all workers are.
-/

namespace ProcessingCommon

namespace ThreadPooling

open Transition (Reachable ofFun)

variable {Proc : Type} {cnt : UInt16} {i : Nat} {progress : Bool}

/-! ## What the pool steps leave alone -/

namespace Pool

variable {s : Pool Proc} {w : ThreadPooling Proc}

theorem brokerStep_mStateSd (s : Pool Proc) :
    s.brokerStep.broker.mStateSd = s.broker.mStateSd := by
  unfold brokerStep
  split
  · rfl
  · split
    · rfl
    · split <;> rfl
  · split <;> rfl
  · split
    · rfl
    · split <;> rfl
  · split <;> rfl

/-- What worker `i` is after a step of its own. -/
structure Moved (s : Pool Proc) (i : Nat) (w' : ThreadPooling Proc) (pc : InternalPc)
    (t : Pool Proc) : Prop where
  vec : t.broker.mVecInternals = s.broker.mVecInternals.set i w'
  pc : t.internalPc = Function.update s.internalPc i pc
  brokerPc : t.brokerPc = s.brokerPc
  mStateSd : t.broker.mStateSd = s.broker.mStateSd

theorem Moved.worker {w' : ThreadPooling Proc} {pc : InternalPc} {t : Pool Proc}
    (h : Moved s i w' pc t) (hw : s.broker.mVecInternals[i]? = some w) :
    t.broker.mVecInternals[i]? = some w' := by
  rw [h.vec]
  exact List.getElem?_set_self (List.getElem?_eq_some_iff.mp hw).1

theorem Moved.other {w' : ThreadPooling Proc} {pc : InternalPc} {t : Pool Proc} {j : Nat}
    (h : Moved s i w' pc t) (hj : j ≠ i) :
    t.broker.mVecInternals[j]? = s.broker.mVecInternals[j]? ∧ t.internalPc j = s.internalPc j := by
  rw [h.vec, h.pc]
  exact ⟨List.getElem?_set_ne (Ne.symm hj), Function.update_of_ne hj _ _⟩

theorem moved_setInternalPc (hw : s.broker.mVecInternals[i]? = some w) (pc : InternalPc) :
    Moved s i w pc (s.setInternalPc i pc) where
  vec := by
    obtain ⟨hi, rfl⟩ := List.getElem?_eq_some_iff.mp hw
    exact (List.set_getElem_self hi).symm
  pc := rfl
  brokerPc := rfl
  mStateSd := rfl

theorem moved_setInternal (s : Pool Proc) (i : Nat) (w : ThreadPooling Proc) :
    Moved s i w (s.internalPc i) (s.setInternal i w) :=
  ⟨rfl, (Function.update_eq_self i s.internalPc).symm, rfl, rfl⟩

theorem moved_setBoth (s : Pool Proc) (i : Nat) (w : ThreadPooling Proc) (pc : InternalPc) :
    Moved s i w pc ((s.setInternal i w).setInternalPc i pc) :=
  ⟨rfl, rfl, rfl, rfl⟩

/-- The start of a tick. -/
theorem internalStep_idle (progress : Bool) (hw : s.broker.mVecInternals[i]? = some w)
    (hpc : s.internalPc i = .idle) :
    Moved s i w.procsReqSplice (.driving 0) (s.internalStep i progress) := by
  simp only [internalStep, hw, hpc]
  exact ⟨rfl, rfl, rfl, rfl⟩

/-- A process goes on. -/
theorem internalStep_drive {iter : Nat} (hw : s.broker.mVecInternals[i]? = some w)
    (hpc : s.internalPc i = .driving iter) (hiter : iter < w.mListProcs.length) :
    Moved s i w (.driving (iter + 1)) (s.internalStep i true) := by
  simp only [internalStep, hw, hpc, if_pos hiter, if_true]
  exact moved_setInternalPc hw _

/-- A process has ended. -/
theorem internalStep_dec {iter : Nat} (hw : s.broker.mVecInternals[i]? = some w)
    (hpc : s.internalPc i = .driving iter) (hiter : iter < w.mListProcs.length) :
    Moved s i w.numProcessingDec (.counted iter) (s.internalStep i false) := by
  simp only [internalStep, hw, hpc, if_pos hiter, Bool.false_eq_true, if_false]
  exact ⟨rfl, rfl, rfl, rfl⟩

theorem internalStep_erase {iter : Nat} (progress : Bool) (hw : s.broker.mVecInternals[i]? = some w)
    (hpc : s.internalPc i = .counted iter) :
    Moved s i (w.procErase iter) (.driving iter) (s.internalStep i progress) := by
  simp only [internalStep, hw, hpc]
  exact ⟨rfl, rfl, rfl, rfl⟩

/-- The end of a tick. -/
theorem internalStep_end {iter : Nat} (progress : Bool) (hw : s.broker.mVecInternals[i]? = some w)
    (hpc : s.internalPc i = .driving iter) (hiter : ¬ iter < w.mListProcs.length) :
    Moved s i w .idle (s.internalStep i progress) := by
  simp only [internalStep, hw, hpc, if_neg hiter]
  exact moved_setInternalPc hw _

/-- The shutdown state of a worker is not in its books. -/
theorem Ok.setSd (h : Ok cnt s) (hw : s.broker.mVecInternals[i]? = some w) (sd : SdState) :
    Ok cnt (s.setInternal i { w with mStateSd := sd }) where
  count := h.count
  length := by
    show (s.broker.mVecInternals.set i _).length = _
    rw [List.length_set, h.length]
  order := h.order
  hand := h.hand
  delivered := h.delivered
  undriven := h.undriven
  worker := by
    obtain ⟨hbooks, hcount, hiter⟩ := h.worker i w hw
    exact forall_set h.worker ⟨hbooks, hcount, hiter⟩ fun _ _ _ hv => hv

end Pool

/-! ## The invariant -/

namespace Life

variable {s : Life Proc} {w : ThreadPooling Proc}

/-- The broker is in `shutdown()` for good. -/
def Closed (s : Life Proc) : Prop :=
  s.brokerSdPc ≠ .idle ∨ s.pool.broker.mStateSd = .stBrokerSdStart

/-- A worker that drives in `shutdown()` has nothing in its list of requests, and one that is done
has nothing at all. -/
structure WorkerSdOk (s : Life Proc) (i : Nat) (w : ThreadPooling Proc) : Prop where
  spliced : s.internalSd i = true → w.mListProcsReq = []
  done : s.internalDone i = true →
    s.internalSd i = true ∧ w.mListProcs = [] ∧ s.pool.internalPc i = .idle

structure Ok (cnt : UInt16) (s : Life Proc) : Prop where
  pool : s.pool.Ok cnt
  closed : s.Closed → s.canceled = true ∧ s.pool.brokerPc = .idle
  canceled : ∀ i, s.internalCanceled i = true → s.Closed
  sd : ∀ i, s.internalSd i = true → s.internalCanceled i = true
  worker : ∀ i w, s.pool.broker.mVecInternals[i]? = some w → s.WorkerSdOk i w
  checked : ∀ i, s.brokerSdPc = .checking i →
    s.pool.broker.mStateSd = .stBrokerSdStart ∧ ∀ j < i, s.internalDone j = true
  finished : s.shutdownDone = true →
    s.pool.broker.mStateSd = .stBrokerSdStart ∧ ∀ j < cnt.toNat, s.internalDone j = true
  mStateSd : s.pool.broker.mStateSd = .stSdStart ∨ s.pool.broker.mStateSd = .stBrokerSdStart

theorem start_ok (h : Start cnt s) : Ok cnt s := by
  obtain ⟨pool, hpool, rfl⟩ := h
  have hok := Pool.start_ok hpool
  obtain ⟨reqs, rfl⟩ := hpool
  refine ⟨hok, ?_, nofun, nofun, fun i w _ => ⟨nofun, nofun⟩, nofun, nofun, .inl rfl⟩
  rintro (hne | hsd)
  · exact absurd rfl hne
  · cases hsd

/-- As long as the broker is not in `shutdown()`, no worker is either. -/
theorem Ok.open (h : Ok cnt s) (hopen : ¬ s.Closed) :
    (∀ i, s.internalCanceled i = false) ∧ (∀ i, s.internalSd i = false) ∧
      ∀ i w, s.pool.broker.mVecInternals[i]? = some w → s.internalDone i = false := by
  have hcanceled : ∀ i, s.internalCanceled i = false := fun i =>
    Bool.eq_false_iff.mpr fun hc => hopen (h.canceled i hc)
  have hsd : ∀ i, s.internalSd i = false := fun i =>
    Bool.eq_false_iff.mpr fun hs => absurd (h.sd i hs) (by rw [hcanceled i]; decide)
  refine ⟨hcanceled, hsd, fun i w hw => Bool.eq_false_iff.mpr fun hd => ?_⟩
  exact absurd ((h.worker i w hw).done hd).1 (by rw [hsd i]; decide)

/-! ## The broker -/

/-- A step of `process()`. -/
theorem Ok.poolBroker (hcnt : cnt ≠ 0) (h : Ok cnt s) (hopen : ¬ s.Closed) :
    Ok cnt { s with pool := s.pool.brokerStep } := by
  obtain ⟨hcanceled, hsd, -⟩ := h.open hopen
  have hstate := s.pool.brokerStep_mStateSd
  have hstill : ¬ Closed { s with pool := s.pool.brokerStep } := by
    rintro (hne | hst)
    · exact hopen (.inl hne)
    · exact hopen (.inr (hstate ▸ hst))
  have hdone : ∀ j, s.internalDone j = true → j < cnt.toNat → False := by
    intro j hd hj
    have hlt : j < s.pool.broker.mVecInternals.length := h.pool.length ▸ hj
    have hworker := (h.worker j _ (List.getElem?_eq_getElem hlt)).done hd
    exact absurd hworker.1 (by rw [hsd j]; decide)
  refine ⟨h.pool.brokerStep hcnt, fun hc => absurd hc hstill,
    fun i hc => absurd hc (by rw [hcanceled i]; decide), h.sd, fun i w hw => ?_, fun i hpc => ?_,
    fun hd => ?_, ?_⟩
  · have hlt : i < cnt.toNat :=
      (h.pool.brokerStep hcnt).length ▸ (List.getElem?_eq_some_iff.mp hw).1
    exact ⟨fun hs => absurd hs (by rw [hsd i]; decide), fun hd => (hdone i hd hlt).elim⟩
  · exact absurd (.inl (by rw [hpc]; nofun)) hopen
  · exact absurd (.inr (h.finished hd).1) hopen
  · show s.pool.brokerStep.broker.mStateSd = _ ∨ s.pool.brokerStep.broker.mStateSd = _
    rw [hstate]
    exact h.mStateSd

theorem Ok.brokerStep (hcnt : cnt ≠ 0) (h : Ok cnt s) : Ok cnt s.brokerStep := by
  unfold Life.brokerStep
  split
  · next hsdpc =>
    split
    · next hpc =>
      split
      · exact h
      split
      · next hcanceled =>
        split
        · refine ⟨h.pool, fun _ => ⟨hcanceled, hpc⟩, fun i _ => .inl nofun, h.sd, ?_, nofun,
            h.finished, h.mStateSd⟩
          exact fun i w hw => ⟨(h.worker i w hw).spliced, (h.worker i w hw).done⟩
        · next hstate =>
          have hsd := h.mStateSd.resolve_left hstate
          refine ⟨h.pool, fun _ => ⟨hcanceled, hpc⟩, fun i _ => .inl nofun, h.sd, ?_, ?_,
            h.finished, h.mStateSd⟩
          · exact fun i w hw => ⟨(h.worker i w hw).spliced, (h.worker i w hw).done⟩
          · rintro i hi
            cases hi
            exact ⟨hsd, fun j hj => absurd hj (Nat.not_lt_zero j)⟩
      · next hcanceled => exact h.poolBroker hcnt fun hc => hcanceled (h.closed hc).1
    · next hpc => exact h.poolBroker hcnt fun hc => hpc (h.closed hc).2
  · next i hsdpc =>
    have hclosed : s.Closed := .inl (by rw [hsdpc]; nofun)
    split
    · refine ⟨h.pool, fun _ => h.closed hclosed, fun j _ => .inl nofun, fun j hj => ?_, ?_, nofun,
        h.finished, h.mStateSd⟩
      · by_cases hij : j = i
        · rw [hij]
          exact Function.update_self ..
        · show Function.update s.internalCanceled i true j = true
          rw [Function.update_of_ne hij]
          exact h.sd j hj
      · exact fun j w hw => ⟨(h.worker j w hw).spliced, (h.worker j w hw).done⟩
    · refine ⟨⟨h.pool.count, h.pool.length, h.pool.order, h.pool.hand, h.pool.delivered,
        h.pool.undriven, h.pool.worker⟩, fun _ => h.closed hclosed, fun j _ => .inr rfl, h.sd, ?_,
        nofun, fun hd => ⟨rfl, (h.finished hd).2⟩, .inr rfl⟩
      exact fun j w hw => ⟨(h.worker j w hw).spliced, (h.worker j w hw).done⟩
  · next i hsdpc =>
    obtain ⟨hstate, hbelow⟩ := h.checked i hsdpc
    have hclosed : s.Closed := .inr hstate
    have hworker : ∀ {t : Life Proc}, t.pool = s.pool → t.internalSd = s.internalSd →
        t.internalDone = s.internalDone → ∀ j w, t.pool.broker.mVecInternals[j]? = some w →
        t.WorkerSdOk j w := by
      rintro ⟨pool, _, _, _, _, sd, dn⟩ rfl rfl rfl j w hw
      exact ⟨(h.worker j w hw).spliced, (h.worker j w hw).done⟩
    split
    · split
      · next hdone =>
        -- the workers below `i` were done when they were looked at, and stay so
        refine ⟨h.pool, fun _ => h.closed hclosed, fun j _ => .inl nofun, h.sd, hworker rfl rfl rfl,
          ?_, h.finished, h.mStateSd⟩
        rintro k hk
        cases hk
        refine ⟨hstate, fun j hj => ?_⟩
        rcases Nat.lt_succ_iff_lt_or_eq.mp hj with hlt | rfl
        · exact hbelow j hlt
        · exact hdone
      · exact ⟨h.pool, fun _ => h.closed hclosed, fun j _ => .inr hstate, h.sd, hworker rfl rfl rfl,
          nofun, h.finished, h.mStateSd⟩
    · next hge =>
      -- every worker was looked at
      refine ⟨h.pool, fun _ => h.closed hclosed, fun j _ => .inr hstate, h.sd, hworker rfl rfl rfl,
        nofun, fun _ => ⟨hstate, fun j hj => hbelow j ?_⟩, h.mStateSd⟩
      rw [h.pool.count] at hge
      omega

/-! ## The workers -/

/-- Worker `i` has made a step, which says what it has begun and whether it is done. -/
theorem Ok.moved {w' : ThreadPooling Proc} {pc : InternalPc} {pool : Pool Proc}
    (h : Ok cnt s) (sd dn : Bool) (hw : s.pool.broker.mVecInternals[i]? = some w)
    (hm : Pool.Moved s.pool i w' pc pool) (hok : pool.Ok cnt)
    (hsd : sd = true → s.internalCanceled i = true) (hmono : s.internalDone i = true → dn = true)
    (hspliced : sd = true → w'.mListProcsReq = [])
    (hdone : dn = true → sd = true ∧ w'.mListProcs = [] ∧ pc = .idle) :
    Ok cnt { s with
      pool := pool
      internalSd := Function.update s.internalSd i sd
      internalDone := Function.update s.internalDone i dn } := by
  have hkept : ∀ j, s.internalDone j = true → Function.update s.internalDone i dn j = true := by
    intro j hj
    by_cases hij : j = i
    · subst hij
      rw [Function.update_self]
      exact hmono hj
    · rw [Function.update_of_ne hij]
      exact hj
  refine ⟨hok, fun hc => ?_, fun j hj => ?_, fun j hj => ?_, fun j v hv => ?_, fun j hj => ?_,
    fun hd => ?_, ?_⟩
  · rw [show pool.brokerPc = s.pool.brokerPc from hm.brokerPc]
    exact h.closed (hc.imp_right fun hst => hm.mStateSd ▸ hst)
  · exact (h.canceled j hj).imp_right fun hst => hm.mStateSd.trans hst
  · by_cases hij : j = i
    · subst hij
      exact hsd ((Function.update_self j sd s.internalSd).symm.trans hj)
    · exact h.sd j ((Function.update_of_ne hij _ _).symm.trans hj)
  · by_cases hij : j = i
    · subst hij
      have hv' : w' = v := Option.some.inj ((hm.worker hw).symm.trans hv)
      subst hv'
      refine ⟨fun hs => hspliced ((Function.update_self j sd s.internalSd).symm.trans hs),
        fun hd => ?_⟩
      obtain ⟨hs, hnil, hpc⟩ := hdone ((Function.update_self j dn s.internalDone).symm.trans hd)
      refine ⟨(Function.update_self j sd s.internalSd).trans hs, hnil, ?_⟩
      show pool.internalPc j = .idle
      rw [hm.pc, Function.update_self, hpc]
    · obtain ⟨hvec, hpc⟩ := hm.other hij
      have hworker := h.worker j v (hvec ▸ hv)
      refine ⟨fun hs => hworker.spliced ((Function.update_of_ne hij _ _).symm.trans hs),
        fun hd => ?_⟩
      obtain ⟨hs, hnil, hidle⟩ := hworker.done ((Function.update_of_ne hij _ _).symm.trans hd)
      exact ⟨(Function.update_of_ne hij _ _).trans hs, hnil, hpc.trans hidle⟩
  · obtain ⟨hst, hbelow⟩ := h.checked j hj
    exact ⟨hm.mStateSd.trans hst, fun k hk => hkept k (hbelow k hk)⟩
  · obtain ⟨hst, hall⟩ := h.finished hd
    exact ⟨hm.mStateSd.trans hst, fun k hk => hkept k (hall k hk)⟩
  · show pool.broker.mStateSd = _ ∨ pool.broker.mStateSd = _
    rw [hm.mStateSd]
    exact h.mStateSd

/-- A step that neither begins nor ends anything. -/
theorem Ok.moved_same {w' : ThreadPooling Proc} {pc : InternalPc} {pool : Pool Proc}
    (h : Ok cnt s) (hw : s.pool.broker.mVecInternals[i]? = some w)
    (hm : Pool.Moved s.pool i w' pc pool) (hok : pool.Ok cnt) (hrun : s.internalDone i = false)
    (hspliced : s.internalSd i = true → w'.mListProcsReq = []) :
    Ok cnt { s with pool := pool } := by
  have hnext := h.moved (s.internalSd i) (s.internalDone i) hw hm hok (h.sd i) id
    hspliced fun hd => absurd hd (by rw [hrun]; decide)
  rw [Function.update_eq_self, Function.update_eq_self] at hnext
  exact hnext

theorem Ok.internalSdEnd {iter : Nat} (h : Ok cnt s)
    (hw : s.pool.broker.mVecInternals[i]? = some w) (hpc : s.pool.internalPc i = .driving iter)
    (hsd : s.internalSd i = true) (hrun : s.internalDone i = false) :
    Ok cnt (s.internalSdEnd i w) := by
  have hworker := h.pool.worker i w hw
  have hspliced := (h.worker i w hw).spliced hsd
  rw [hpc] at hworker
  unfold Life.internalSdEnd
  split
  · next hnil =>
    have hmoved : WorkerOk .idle w _ _ := hworker.move fun _ => nofun
    have hok := h.pool.setInternalPc hw hmoved
    have hnext := h.moved (s.internalSd i) true hw
      (Pool.moved_setInternalPc hw .idle) hok (h.sd i) (fun _ => rfl) (fun _ => hspliced)
      fun _ => ⟨hsd, hnil, rfl⟩
    rw [Function.update_eq_self] at hnext
    exact hnext
  · have hset := h.pool.setSd hw .stInternalSdMain
    have hw' : (s.pool.setInternal i
        { w with mStateSd := .stInternalSdMain }).broker.mVecInternals[i]? = _ :=
      (Pool.moved_setInternal s.pool i _).worker hw
    have hidle := hset.worker i _ hw'
    rw [show (s.pool.setInternal i _).internalPc i = _ from hpc] at hidle
    have hmoved : WorkerOk .idle _ _ _ := hidle.move fun _ => nofun
    have hok := hset.setInternalPc hw' hmoved
    exact h.moved_same hw (Pool.moved_setBoth s.pool i _ .idle) hok hrun fun _ => hspliced

theorem Ok.internalStep (h : Ok cnt s) (i : Nat) (progress : Bool) :
    Ok cnt (s.internalStep i progress) := by
  have hok := h.pool.internalStep i progress
  unfold Life.internalStep
  split
  · exact h
  next w hw =>
  have hspliced := (h.worker i w hw).spliced
  split
  · exact h
  next hrun =>
  rw [Bool.not_eq_true] at hrun
  split
  · next hpc =>
    split
    · next hcanceled =>
      split
      · exact h.moved_same hw (Pool.moved_setInternal s.pool i _) (h.pool.setSd hw _) hrun hspliced
      · have hnext := h.moved true (s.internalDone i) hw
          (Pool.internalStep_idle progress hw hpc) hok (fun _ => hcanceled) id
          (fun _ => rfl) fun hd => absurd hd (by rw [hrun]; decide)
        rw [Function.update_eq_self] at hnext
        exact hnext
    -- the splice leaves no request behind
    · exact h.moved_same hw (Pool.internalStep_idle progress hw hpc) hok hrun
        fun _ => rfl
  · next iter hpc =>
    split
    · next hgo =>
      by_cases hiter : iter < w.mListProcs.length
      · cases progress with
        | true => exact h.moved_same hw (Pool.internalStep_drive hw hpc hiter) hok hrun hspliced
        | false => exact h.moved_same hw (Pool.internalStep_dec hw hpc hiter) hok hrun hspliced
      · exact h.moved_same hw (Pool.internalStep_end progress hw hpc hiter) hok hrun
          hspliced
    · next hend =>
      rw [not_or, Bool.not_eq_false] at hend
      exact h.internalSdEnd hw hpc hend.2 hrun
  · next hpc =>
    exact h.moved_same hw (Pool.internalStep_erase progress hw hpc) hok hrun hspliced

theorem step_ok (hcnt : cnt ≠ 0) (h : Ok cnt s) (op : Op Proc) : Ok cnt (s.step op) := by
  cases op with
  | procAdd req =>
    exact ⟨h.pool.procAdd req, h.closed, h.canceled, h.sd,
      fun i w hw => ⟨(h.worker i w hw).spliced, (h.worker i w hw).done⟩, h.checked, h.finished,
      h.mStateSd⟩
  | cancel =>
    exact ⟨h.pool, fun hc => ⟨rfl, (h.closed hc).2⟩, h.canceled, h.sd,
      fun i w hw => ⟨(h.worker i w hw).spliced, (h.worker i w hw).done⟩, h.checked, h.finished,
      h.mStateSd⟩
  | broker => exact h.brokerStep hcnt
  | internal i progress => exact h.internalStep i progress

theorem reachable_ok (hcnt : cnt ≠ 0) (h : Reachable (Start cnt) (ofFun step) s) : Ok cnt s :=
  h.invariant (fun _ => start_ok) fun s op t hs hst => by
    subst hst
    exact step_ok hcnt hs op

/-! ## The end -/

theorem Ok.worker_done (h : Ok cnt s) (hd : s.shutdownDone = true)
    (hw : s.pool.broker.mVecInternals[i]? = some w) :
    s.internalDone i = true ∧ w.procs = [] ∧ w.mNumProcessing = 0 := by
  have hlt : i < cnt.toNat := h.pool.length ▸ (List.getElem?_eq_some_iff.mp hw).1
  have hdone := (h.finished hd).2 i hlt
  obtain ⟨hsd, hnil, hpc⟩ := (h.worker i w hw).done hdone
  have hprocs : w.procs = [] := by rw [procs, (h.worker i w hw).spliced hsd, hnil, List.nil_append]
  have hcount := (h.pool.worker i w hw).count
  rw [hpc, hprocs] at hcount
  exact ⟨hdone, hprocs, hcount⟩

/-- A pool that has shut down does nothing more. -/
theorem Ok.step_done (h : Ok cnt s) (hd : s.shutdownDone = true) (op : Op Proc) :
    (s.step op).shutdownDone = true ∧ (s.step op).pool.delivered = s.pool.delivered ∧
      (s.step op).pool.undriven = s.pool.undriven := by
  cases op with
  | procAdd req => exact ⟨hd, rfl, rfl⟩
  | cancel => exact ⟨hd, rfl, rfl⟩
  | internal i progress =>
    show (s.internalStep i progress).shutdownDone = _ ∧
      (s.internalStep i progress).pool.delivered = _ ∧ (s.internalStep i progress).pool.undriven = _
    unfold Life.internalStep
    split
    · exact ⟨hd, rfl, rfl⟩
    · next hw =>
      rw [if_pos (h.worker_done hd hw).1]
      exact ⟨hd, rfl, rfl⟩
  | broker =>
    have hpc := (h.closed (.inr (h.finished hd).1)).2
    show s.brokerStep.shutdownDone = _ ∧ s.brokerStep.pool.delivered = _ ∧
      s.brokerStep.pool.undriven = _
    unfold Life.brokerStep
    split
    · rw [hpc]
      dsimp only
      rw [if_pos hd]
      exact ⟨hd, rfl, rfl⟩
    · split <;> exact ⟨hd, rfl, rfl⟩
    · split
      · split <;> exact ⟨hd, rfl, rfl⟩
      · exact ⟨rfl, rfl, rfl⟩

theorem run_done (hcnt : cnt ≠ 0) (h : Reachable (Start cnt) (ofFun step) s)
    (hd : s.shutdownDone = true) (ops : List (Op Proc)) :
    (ops.foldl step s).pool.delivered = s.pool.delivered ∧
      (ops.foldl step s).pool.undriven = s.pool.undriven := by
  induction ops generalizing s with
  | nil => exact ⟨rfl, rfl⟩
  | cons op ops ih =>
    obtain ⟨hd', hdelivered, hundriven⟩ := (reachable_ok hcnt h).step_done hd op
    obtain ⟨hrest, hrest'⟩ := ih (.next h rfl) hd'
    exact ⟨hrest.trans hdelivered, hrest'.trans hundriven⟩

/-- In every interleaving: once `shutdown()` of the broker has returned `Positive`, the lists of
all workers are empty, every process that was handed to a worker has been set undriven by it as
often as it was handed on, and the other ones are in the pipe in their order. Nothing is handed on
or set undriven afterwards. -/
theorem shutdown_graceful (hcnt : cnt ≠ 0) (h : Reachable (Start cnt) (ofFun step) s)
    (hd : s.shutdownDone = true) :
    (∀ w ∈ s.pool.broker.mVecInternals,
      w.mListProcsReq = [] ∧ w.mListProcs = [] ∧ w.mNumProcessing = 0) ∧
    (∀ i < cnt.toNat, (s.pool.deliveredTo i).Perm (Share.share i s.pool.undriven)) ∧
    ((s.pool.delivered.map Prod.fst).map PoolRequest.pProc).Perm (s.pool.undriven.map Prod.fst) ∧
    s.pool.added = s.pool.delivered.map Prod.fst ++ s.pool.pipe ∧
    ∀ ops : List (Op Proc), (ops.foldl step s).pool.delivered = s.pool.delivered ∧
      (ops.foldl step s).pool.undriven = s.pool.undriven := by
  have hok := reachable_ok hcnt h
  have hhand := (hok.closed (.inr (hok.finished hd).1)).2
  refine ⟨fun w hw => ?_, fun i hi => ?_, ?_, ?_, run_done hcnt h hd⟩
  · obtain ⟨i, hi⟩ := List.mem_iff_getElem?.mp hw
    obtain ⟨-, hprocs, hcount⟩ := hok.worker_done hd hi
    obtain ⟨hreq, hlist⟩ := List.append_eq_nil_iff.mp hprocs
    exact ⟨hreq, hlist, hcount⟩
  · have hlt : i < s.pool.broker.mVecInternals.length := hok.pool.length ▸ hi
    have hw := List.getElem?_eq_getElem hlt
    have hbooks := (hok.pool.worker i _ hw).books
    rwa [(hok.worker_done hd hw).2.1, List.nil_append] at hbooks
  · have hsum := hok.pool.sum_delivered
    have hzero : (s.pool.broker.mVecInternals.map fun w => (w.procs : Multiset Proc)).sum = 0 := by
      refine List.sum_eq_zero fun m hm => ?_
      obtain ⟨w, hw, rfl⟩ := List.mem_map.mp hm
      obtain ⟨i, hi⟩ := List.mem_iff_getElem?.mp hw
      rw [(hok.worker_done hd hi).2.1]
      rfl
    rw [hzero, zero_add] at hsum
    exact Multiset.coe_eq_coe.mp hsum
  · have horder := hok.pool.order
    rwa [hhand, show BrokerPc.hand (.idle : BrokerPc Proc) = [] from rfl, List.nil_append] at horder

/-- One worker: process `7` is handed on and ends in `shutdown()`, and process `8` comes when the
broker takes nothing out of the pipe any more. -/
theorem shutdown_graceful_one : ∃ s : Life Nat, Reachable (Start 1) (ofFun step) s ∧
    s.shutdownDone = true ∧ s.pool.undriven = [(7, 0)] ∧ s.pool.pipe = [⟨8, -1⟩] ∧
    ((s.pool.delivered.map Prod.fst).map PoolRequest.pProc).Perm (s.pool.undriven.map Prod.fst) ∧
    s.pool.added = s.pool.delivered.map Prod.fst ++ s.pool.pipe := by
  have hstart : Reachable (Start 1) (ofFun step)
      (⟨⟨Pool.started 1, [], .idle, fun _ => .idle, [], [], []⟩, .idle, false, false,
        fun _ => false, fun _ => false, fun _ => false⟩ : Life Nat) := .start ⟨_, ⟨[], rfl⟩, rfl⟩
  have hrun := hstart.foldl [.procAdd ⟨7, 0⟩, .broker, .broker, .broker, .cancel, .broker,
    .procAdd ⟨8, -1⟩, .broker, .broker, .broker, .internal 0 true, .internal 0 true,
    .internal 0 false, .internal 0 true, .internal 0 true, .broker, .broker, .broker]
  have hend := shutdown_graceful (by decide) hrun rfl
  exact ⟨_, hrun, rfl, rfl, rfl, hend.2.2.1, hend.2.2.2.1⟩

end Life

end ThreadPooling

end ProcessingCommon

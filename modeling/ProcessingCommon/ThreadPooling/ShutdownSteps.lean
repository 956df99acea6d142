import ProcessingCommon.ThreadPooling.ShutdownInvariant

/-!
# How long a worker takes to shut down

If its processes end, a worker that has been canceled is done after a number of its own steps that
its lists determine, whatever the other threads do in between.
-/

namespace ProcessingCommon

namespace ThreadPooling

open Transition (Reachable ofFun)

variable {Proc : Type} {cnt : UInt16} {i : Nat} {progress : Bool}

namespace Life

variable {s : Life Proc} {w : ThreadPooling Proc}

/-- The steps to the end of `shutdown()`, apart from those that take a process out of the list. A
tick in which a process went on may end with a list that is not empty, and another one follows. -/
def phaseSteps (sd : Bool) (mStateSd : SdState) : InternalPc → Nat
  | .idle => if mStateSd = .stSdStart then 3 else 2
  | .driving iter => if sd then (if iter = 0 then 1 else 3) else 4
  | .counted iter => if sd then (if iter = 0 then 0 else 2) else 3

/-- The steps that worker `i` has before it, if every process ends when it is driven next. -/
def stepsLeft (s : Life Proc) (i : Nat) (w : ThreadPooling Proc) : Nat :=
  if s.internalDone i then 0
  else 2 * w.procs.length + phaseSteps (s.internalSd i) w.mStateSd (s.pool.internalPc i)

theorem stepsLeft_le (s : Life Proc) (i : Nat) (w : ThreadPooling Proc) :
    s.stepsLeft i w ≤ 2 * w.procs.length + 4 := by
  have hphase : ∀ sd st pc, phaseSteps sd st pc ≤ 4 := by
    intro sd st pc
    unfold phaseSteps
    split <;> split_ifs <;> omega
  have := hphase (s.internalSd i) w.mStateSd (s.pool.internalPc i)
  unfold stepsLeft
  split <;> omega

theorem stepsLeft_running (hrun : s.internalDone i = false) : s.stepsLeft i w =
    2 * w.procs.length + phaseSteps (s.internalSd i) w.mStateSd (s.pool.internalPc i) := by
  rw [stepsLeft, hrun, if_neg Bool.false_ne_true]

/-- A process that is counted as finished is still in the list. -/
theorem Ok.stepsLeft_pos (h : Ok cnt s) (hw : s.pool.broker.mVecInternals[i]? = some w)
    (hrun : s.internalDone i = false) : 0 < s.stepsLeft i w := by
  rw [stepsLeft_running hrun, length_procs]
  unfold phaseSteps
  cases hpc : s.pool.internalPc i with
  | idle =>
    dsimp only
    split_ifs <;> omega
  | driving iter =>
    dsimp only
    split_ifs <;> omega
  | counted iter =>
    have hiter := (h.pool.worker i w hw).iter iter hpc
    omega

/-- Nothing is changed that belongs to worker `i`. -/
structure SameWorker (i : Nat) (s t : Life Proc) : Prop where
  vec : t.pool.broker.mVecInternals[i]? = s.pool.broker.mVecInternals[i]?
  pc : t.pool.internalPc i = s.pool.internalPc i
  sd : t.internalSd i = s.internalSd i
  done : t.internalDone i = s.internalDone i

theorem SameWorker.refl (i : Nat) (s : Life Proc) : SameWorker i s s := ⟨rfl, rfl, rfl, rfl⟩

theorem internalStep_other {j : Nat} (s : Life Proc) (hj : j ≠ i) :
    SameWorker i s (s.internalStep j progress) := by
  obtain ⟨hvec, hpc⟩ := s.pool.internalStep_other (Ne.symm hj) progress
  have hupd : ∀ (f : Nat → Bool) (b : Bool), Function.update f j b i = f i :=
    fun f b => Function.update_of_ne (Ne.symm hj) b f
  unfold Life.internalStep
  split
  · exact .refl i s
  next w hw =>
  split
  · exact .refl i s
  split
  · split
    · split
      · obtain ⟨hset, hsetpc⟩ := (Pool.moved_setInternal s.pool j
          { w with mStateSd := .stInternalSdStart }).other (Ne.symm hj)
        exact ⟨hset, hsetpc, rfl, rfl⟩
      · exact ⟨hvec, hpc, hupd _ _, rfl⟩
    · exact ⟨hvec, hpc, rfl, rfl⟩
  · split
    · exact ⟨hvec, hpc, rfl, rfl⟩
    · unfold Life.internalSdEnd
      split
      · obtain ⟨hset, hsetpc⟩ := (Pool.moved_setInternalPc hw .idle).other (Ne.symm hj)
        exact ⟨hset, hsetpc, rfl, hupd _ _⟩
      · obtain ⟨hset, hsetpc⟩ := (Pool.moved_setBoth s.pool j
          { w with mStateSd := .stInternalSdMain } .idle).other (Ne.symm hj)
        exact ⟨hset, hsetpc, rfl, rfl⟩
  · exact ⟨hvec, hpc, rfl, rfl⟩

/-- A broker in `shutdown()` does not touch the workers. -/
theorem Ok.brokerStep_closed (h : Ok cnt s) (hc : s.Closed) (i : Nat) :
    SameWorker i s s.brokerStep := by
  obtain ⟨hcanceled, hpc⟩ := h.closed hc
  unfold Life.brokerStep
  split
  · rw [hpc]
    dsimp only
    rw [if_pos hcanceled]
    split
    · exact .refl i s
    · split <;> exact ⟨rfl, rfl, rfl, rfl⟩
  · split <;> exact ⟨rfl, rfl, rfl, rfl⟩
  · split
    · split <;> exact ⟨rfl, rfl, rfl, rfl⟩
    · exact ⟨rfl, rfl, rfl, rfl⟩

/-- Nobody takes a `cancel()` back. -/
theorem step_canceled (hc : s.internalCanceled i = true) (op : Op Proc) :
    (s.step op).internalCanceled i = true := by
  cases op with
  | procAdd req => exact hc
  | cancel => exact hc
  | internal j progress =>
    show (s.internalStep j progress).internalCanceled i = true
    unfold Life.internalStep Life.internalSdEnd
    split
    · exact hc
    split
    · exact hc
    split
    · split
      · split <;> exact hc
      · exact hc
    · split
      · exact hc
      · split <;> exact hc
    · exact hc
  | broker =>
    show s.brokerStep.internalCanceled i = true
    unfold Life.brokerStep
    split
    · split
      · split
        · exact hc
        split
        · split <;> exact hc
        · exact hc
      · exact hc
    · next j _ =>
      split
      · show Function.update s.internalCanceled j true i = true
        by_cases hij : i = j
        · rw [hij]
          exact Function.update_self ..
        · rw [Function.update_of_ne hij]
          exact hc
      · exact hc
    · split
      · split <;> exact hc
      · exact hc

/-- What is left after a step that leads to `w'` at `pc`. -/
theorem stepsLeft_moved {w' : ThreadPooling Proc} {pc : InternalPc} {t : Life Proc} {n : Nat}
    (hw : s.pool.broker.mVecInternals[i]? = some w) (hm : Pool.Moved s.pool i w' pc t.pool)
    (hn : 2 * w'.procs.length + phaseSteps (t.internalSd i) w'.mStateSd pc < n) :
    ∃ v, t.pool.broker.mVecInternals[i]? = some v ∧ t.stepsLeft i v < n := by
  refine ⟨w', hm.worker hw, ?_⟩
  rw [stepsLeft, hm.pc, Function.update_self]
  split
  · exact Nat.zero_lt_of_lt hn
  · exact hn

/-- A step of a canceled worker whose processes end when they are driven. -/
theorem Ok.internalStep_stepsLeft (h : Ok cnt s) (hw : s.pool.broker.mVecInternals[i]? = some w)
    (hc : s.internalCanceled i = true) (hrun : s.internalDone i = false) :
    ∃ w', (s.internalStep i false).pool.broker.mVecInternals[i]? = some w' ∧
      (s.internalStep i false).stepsLeft i w' < s.stepsLeft i w := by
  rw [stepsLeft_running hrun]
  unfold Life.internalStep
  simp only [hw, hrun, Bool.false_eq_true, if_false]
  cases hpc : s.pool.internalPc i with
  | idle =>
    simp only [hc, if_true]
    split
    · next hst =>
      refine stepsLeft_moved hw (Pool.moved_setInternal s.pool i _) ?_
      rw [hpc, hst]
      exact Nat.lt_succ_self _
    · next hst =>
      refine stepsLeft_moved hw (Pool.internalStep_idle _ hw hpc) ?_
      simp only [Function.update_self, length_procs, procsReqSplice, List.length_append,
        List.length_nil, phaseSteps, if_true, if_neg hst]
      omega
  | driving iter =>
    by_cases hiter : iter < w.mListProcs.length
    · simp only [hiter, true_or, if_true]
      refine stepsLeft_moved (t := { s with pool := s.pool.internalStep i false }) hw
        (Pool.internalStep_dec hw hpc hiter) ?_
      simp only [length_procs, numProcessingDec, phaseSteps]
      split_ifs <;> omega
    · simp only [hiter, false_or]
      by_cases hsd : s.internalSd i = false
      · -- the tick of `process()` in which the worker was canceled
        rw [if_pos hsd]
        refine stepsLeft_moved hw (Pool.internalStep_end _ hw hpc hiter) ?_
        simp only [phaseSteps, hsd, Bool.false_eq_true, if_false]
        split_ifs <;> omega
      · rw [if_neg hsd, Life.internalSdEnd]
        rw [Bool.not_eq_false] at hsd
        split
        · refine ⟨w, (Pool.moved_setInternalPc hw .idle).worker hw, ?_⟩
          simp only [stepsLeft, Function.update_self, if_true, phaseSteps, hsd]
          split_ifs <;> omega
        · next hlist =>
          have hiter0 : iter ≠ 0 := fun h0 => hiter (h0 ▸ List.length_pos_iff.mpr hlist)
          refine stepsLeft_moved hw (Pool.moved_setBoth s.pool i _ .idle) ?_
          simp only [phaseSteps, hsd, if_true, if_neg hiter0, length_procs, reduceCtorEq, if_false]
          omega
  | counted iter =>
    have hiter := (h.pool.worker i w hw).iter iter hpc
    refine stepsLeft_moved hw (Pool.internalStep_erase _ hw hpc) ?_
    simp only [length_procs, procErase, List.length_eraseIdx_of_lt hiter, phaseSteps]
    split_ifs <;> omega

def Op.isInternal (i : Nat) : Op Proc → Bool
  | .internal j _ => j == i
  | _ => false

/-- Every step of a canceled worker counts, whatever the others do. -/
theorem Ok.step_stepsLeft (h : Ok cnt s) (hw : s.pool.broker.mVecInternals[i]? = some w)
    (hc : s.internalCanceled i = true) (op : Op Proc)
    (hends : ∀ progress, op = .internal i progress → progress = false) :
    ∃ w', (s.step op).pool.broker.mVecInternals[i]? = some w' ∧
      ((s.step op).internalDone i = true ∨
        (s.step op).stepsLeft i w' + (if op.isInternal i then 1 else 0) ≤ s.stepsLeft i w) := by
  have hsame : ∀ {t : Life Proc}, SameWorker i s t → ∃ w',
      t.pool.broker.mVecInternals[i]? = some w' ∧
        (t.internalDone i = true ∨ t.stepsLeft i w' + 0 ≤ s.stepsLeft i w) := by
    intro t ht
    refine ⟨w, ht.vec.trans hw, .inr (Nat.le_of_eq ?_)⟩
    rw [Nat.add_zero, stepsLeft, stepsLeft, ht.pc, ht.sd, ht.done]
  cases op with
  | procAdd req => exact hsame (t := s.step (.procAdd req)) ⟨rfl, rfl, rfl, rfl⟩
  | cancel => exact hsame (t := s.step .cancel) ⟨rfl, rfl, rfl, rfl⟩
  | broker => exact hsame (h.brokerStep_closed (h.canceled i hc) i)
  | internal j progress =>
    by_cases hij : j = i
    · subst hij
      cases hends progress rfl
      simp only [Op.isInternal, beq_self_eq_true, if_true, step]
      cases hrun : s.internalDone j with
      | true =>
        have hstay : s.internalStep j false = s := by
          simp only [Life.internalStep, hw, hrun, if_true]
        rw [hstay]
        exact ⟨w, hw, .inl hrun⟩
      | false =>
        obtain ⟨w', hw', hlt⟩ := h.internalStep_stepsLeft hw hc hrun
        exact ⟨w', hw', .inr hlt⟩
    · have hno : Op.isInternal i (.internal j progress : Op Proc) = false :=
        beq_eq_false_iff_ne.mpr hij
      rw [hno]
      exact hsame (internalStep_other s hij)

/-- A worker that is done stays so. -/
theorem Ok.step_internalDone (h : Ok cnt s) (hi : i < cnt.toNat)
    (hd : s.internalDone i = true) (op : Op Proc) : (s.step op).internalDone i = true := by
  have hw := List.getElem?_eq_getElem (h.pool.length.symm ▸ hi)
  have hc : s.internalCanceled i = true := h.sd i ((h.worker i _ hw).done hd).1
  cases op with
  | procAdd req => exact hd
  | cancel => exact hd
  | broker => exact (h.brokerStep_closed (h.canceled i hc) i).done.trans hd
  | internal j progress =>
    by_cases hij : j = i
    · subst hij
      have hstay : s.internalStep j progress = s := by
        simp only [Life.internalStep, hw, hd, if_true]
      rw [step, hstay]
      exact hd
    · exact (internalStep_other s hij).done.trans hd

theorem run_internalDone (hcnt : cnt ≠ 0) (h : Ok cnt s) (hi : i < cnt.toNat)
    (hd : s.internalDone i = true) (ops : List (Op Proc)) :
    (ops.foldl step s).internalDone i = true := by
  induction ops generalizing s with
  | nil => exact hd
  | cons op ops ih => exact ih (step_ok hcnt h op) (h.step_internalDone hi hd op)

theorem run_stepsLeft (hcnt : cnt ≠ 0) (h : Ok cnt s)
    (hw : s.pool.broker.mVecInternals[i]? = some w) (hc : s.internalCanceled i = true)
    (ops : List (Op Proc)) (hends : ∀ progress, .internal i progress ∈ ops → progress = false) :
    (ops.foldl step s).internalDone i = true ∨ ops.countP (Op.isInternal i) < s.stepsLeft i w := by
  induction ops generalizing s w with
  | nil =>
    cases hrun : s.internalDone i with
    | true => exact .inl hrun
    | false => exact .inr (h.stepsLeft_pos hw hrun)
  | cons op ops ih =>
    have hok := step_ok hcnt h op
    have hi : i < cnt.toNat := h.pool.length ▸ (List.getElem?_eq_some_iff.mp hw).1
    obtain ⟨v, hv, hstep⟩ := h.step_stepsLeft hw hc op
      fun progress hop => hends progress (hop ▸ List.mem_cons_self)
    rcases hstep with hdone | hstep
    · exact .inl (run_internalDone hcnt hok hi hdone ops)
    · refine (ih hok hv (step_canceled hc op) fun progress hop =>
        hends progress (List.mem_cons_of_mem _ hop)).imp_right fun hlt => ?_
      rw [List.countP_cons]
      omega

/-- A worker that has been canceled is done after at most two steps for each of its processes and
four for its ticks, if the processes end when they are driven. It does not matter what the broker
and the other workers do in between, and what is added. -/
theorem worker_shuts_down (hcnt : cnt ≠ 0) (h : Reachable (Start cnt) (ofFun step) s)
    (hw : s.pool.broker.mVecInternals[i]? = some w) (hc : s.internalCanceled i = true)
    (ops : List (Op Proc)) (hends : ∀ progress, .internal i progress ∈ ops → progress = false)
    (hmany : 2 * (w.mListProcsReq.length + w.mListProcs.length) + 4 ≤
      ops.countP (Op.isInternal i)) :
    (ops.foldl step s).internalDone i = true := by
  refine (run_stepsLeft hcnt (reachable_ok hcnt h) hw hc ops hends).resolve_right fun hlt => ?_
  have hbound := s.stepsLeft_le i w
  rw [length_procs] at hbound
  omega

/-- A worker is canceled between two ticks with one process; six of its steps follow, with the
broker and a new request between them. -/
theorem worker_shuts_down_one : ∃ s : Life Nat, Reachable (Start 1) (ofFun step) s ∧
    (((.broker :: .procAdd ⟨8, 0⟩ :: List.replicate 6 (.internal 0 false) : List (Op Nat))).foldl
      step s).internalDone 0 = true := by
  have hstart : Reachable (Start 1) (ofFun step)
      (⟨⟨Pool.started 1, [], .idle, fun _ => .idle, [], [], []⟩, .idle, false, false,
        fun _ => false, fun _ => false, fun _ => false⟩ : Life Nat) := .start ⟨_, ⟨[], rfl⟩, rfl⟩
  have hrun := hstart.foldl [.procAdd ⟨7, 0⟩, .broker, .broker, .broker, .broker, .cancel, .broker,
    .broker]
  refine ⟨_, hrun, ?_⟩
  refine worker_shuts_down (by decide) hrun rfl rfl _ (fun progress hp => ?_) (by decide)
  simp only [List.mem_cons, reduceCtorEq, false_or, List.mem_replicate] at hp
  cases hp.2
  rfl

end Life

end ThreadPooling

end ProcessingCommon

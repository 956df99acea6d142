import Mathlib.Data.List.Infix
import ProcessingCommon.ThreadPooling.Conservation

/-!
# The rounds of a worker

`procsDrive` goes through the list of a worker once, while others add processes and the list
shrinks below it. A round is what happens between two splices; beside the pool runs a log of it,
which only reads.
-/

namespace ProcessingCommon

namespace ThreadPooling

open Share (share share_append share_self share_of_ne)
open Transition (Reachable ofFun)

/-- The list of every worker at its last splice, and what it has driven since. -/
structure Watched (Proc : Type) where
  pool : Pool Proc
  round : Nat → List Proc
  driven : Nat → List Proc

variable {Proc : Type} {w : ThreadPooling Proc} {ds round driven : List Proc} {pc : InternalPc}
  {iter i : Nat} {cnt : UInt16}

namespace Watched

open Pool (Op)

/-- What a step adds to the log. A worker drives the process at its iterator, if there is one. -/
def note (s : Watched Proc) : Op Proc → Watched Proc
  | .internal i _ =>
    match s.pool.broker.mVecInternals[i]?, s.pool.internalPc i with
    | some w, .idle =>
      { s with
        round := Function.update s.round i w.procsReqSplice.mListProcs
        driven := Function.update s.driven i [] }
    | some w, .driving iter =>
      { s with driven := Function.update s.driven i (s.driven i ++ w.mListProcs[iter]?.toList) }
    | _, _ => s
  | _ => s

def step (s : Watched Proc) (op : Op Proc) : Watched Proc :=
  { s.note op with pool := s.pool.step op }

/-- Nothing has been driven. -/
def Start (cnt : UInt16) (s : Watched Proc) : Prop :=
  Pool.Start cnt s.pool ∧ s.round = (fun _ => []) ∧ s.driven = fun _ => []

/-- What is left of a round. -/
def left (pc : InternalPc) (w : ThreadPooling Proc) : List Proc :=
  match pc with
  | .idle => []
  | .driving iter => w.mListProcs.drop iter
  | .counted iter => w.mListProcs.drop (iter + 1)

/-- `ds` was handed to the worker. -/
structure WorkerOk (pc : InternalPc) (w : ThreadPooling Proc) (ds round driven : List Proc) :
    Prop where
  order : (w.mListProcs ++ w.mListProcsReq).Sublist ds
  known : round.Sublist ds
  round : round = driven ++ left pc w

theorem WorkerOk.new : WorkerOk .idle ({ mIsInternal := true } : ThreadPooling Proc) [] [] [] :=
  ⟨.refl _, .refl _, rfl⟩

theorem WorkerOk.add (h : WorkerOk pc w ds round driven) (pProc : Proc) :
    WorkerOk pc (w.procInternalAdd pProc) (ds ++ [pProc]) round driven where
  order := by
    show (w.mListProcs ++ (w.mListProcsReq ++ [pProc])).Sublist _
    rw [← List.append_assoc]
    exact h.order.append (.refl _)
  known := h.known.trans (List.sublist_append_left ..)
  round := h.round

theorem WorkerOk.splice (h : WorkerOk .idle w ds round driven) :
    WorkerOk (.driving 0) w.procsReqSplice ds w.procsReqSplice.mListProcs [] where
  order := by
    show (w.mListProcs ++ w.mListProcsReq ++ []).Sublist ds
    rw [List.append_nil]
    exact h.order
  known := h.order
  round := rfl

/-- The process at the iterator is driven and goes on. -/
theorem WorkerOk.goesOn (h : WorkerOk (.driving iter) w ds round driven) :
    WorkerOk (.driving (iter + 1)) w ds round (driven ++ w.mListProcs[iter]?.toList) where
  order := h.order
  known := h.known
  round := by
    rw [h.round, left, left, List.append_assoc, List.drop_eq_getElem?_toList_append]

/-- It is driven and has finished. -/
theorem WorkerOk.finished (h : WorkerOk (.driving iter) w ds round driven) :
    WorkerOk (.counted iter) w.numProcessingDec ds round
      (driven ++ w.mListProcs[iter]?.toList) where
  order := h.order
  known := h.known
  round := h.goesOn.round

theorem WorkerOk.ends (h : WorkerOk (.driving iter) w ds round driven)
    (hiter : w.mListProcs.length ≤ iter) :
    WorkerOk .idle w ds round (driven ++ w.mListProcs[iter]?.toList) where
  order := h.order
  known := h.known
  round := by
    rw [h.round, left, left, List.drop_of_length_le hiter, List.getElem?_eq_none hiter,
      Option.toList_none, List.append_nil, List.append_nil]

/-- Behind an erased place nothing changes. -/
theorem drop_eraseIdx (l : List Proc) (iter : Nat) :
    (l.eraseIdx iter).drop iter = l.drop (iter + 1) := by
  rw [List.eraseIdx_eq_take_drop_succ, List.drop_append, List.drop_take_self, List.nil_append,
    List.length_take]
  rcases Nat.le_total iter l.length with hle | hge
  · rw [Nat.min_eq_left hle, Nat.sub_self, List.drop_zero]
  · rw [List.drop_of_length_le (Nat.le_succ_of_le hge), List.drop_nil]

theorem WorkerOk.erase (h : WorkerOk (.counted iter) w ds round driven) :
    WorkerOk (.driving iter) (w.procErase iter) ds round driven where
  order := ((List.eraseIdx_sublist ..).append (.refl _)).trans h.order
  known := h.known
  round := by
    show round = driven ++ (w.mListProcs.eraseIdx iter).drop iter
    rw [drop_eraseIdx]
    exact h.round

/-! ## The pool -/

structure Ok (s : Watched Proc) : Prop where
  worker : ∀ i w, s.pool.broker.mVecInternals[i]? = some w →
    WorkerOk (s.pool.internalPc i) w (s.pool.deliveredTo i) (s.round i) (s.driven i)

variable {s : Watched Proc}

theorem start_ok (h : Start cnt s) : s.Ok := by
  obtain ⟨⟨reqs, hpool⟩, hround, hdriven⟩ := h
  refine ⟨fun i w hw => ?_⟩
  rw [hpool] at hw ⊢
  rw [hround, hdriven]
  obtain ⟨-, rfl⟩ := List.mem_replicate.mp (List.mem_of_getElem? hw)
  exact .new

/-- What a step of the broker does to the workers. -/
theorem brokerStep_workers (p : Pool Proc) :
    p.brokerStep.internalPc = p.internalPc ∧
      (p.brokerStep.broker.mVecInternals = p.broker.mVecInternals ∧
          p.brokerStep.delivered = p.delivered ∨
        ∃ req i w, p.broker.mVecInternals[i]? = some w ∧
          p.brokerStep.broker.mVecInternals =
            p.broker.mVecInternals.set i (w.procInternalAdd req.pProc) ∧
          p.brokerStep.delivered = p.delivered ++ [(req, i)]) := by
  unfold Pool.brokerStep
  split
  · exact ⟨rfl, .inl ⟨rfl, rfl⟩⟩
  · split
    · exact ⟨rfl, .inl ⟨rfl, rfl⟩⟩
    · split <;> exact ⟨rfl, .inl ⟨rfl, rfl⟩⟩
  · split <;> exact ⟨rfl, .inl ⟨rfl, rfl⟩⟩
  · split
    · exact ⟨rfl, .inl ⟨rfl, rfl⟩⟩
    · split <;> exact ⟨rfl, .inl ⟨rfl, rfl⟩⟩
  · split
    · exact ⟨rfl, .inl ⟨rfl, rfl⟩⟩
    · next w hw => exact ⟨rfl, .inr ⟨_, _, w, hw, rfl, rfl⟩⟩

theorem Ok.broker (h : s.Ok) : (s.step .broker).Ok := by
  obtain ⟨hpc, hworkers⟩ := brokerStep_workers s.pool
  refine ⟨?_⟩
  show ∀ i w, s.pool.brokerStep.broker.mVecInternals[i]? = some w → WorkerOk
    (s.pool.brokerStep.internalPc i) w ((share i s.pool.brokerStep.delivered).map PoolRequest.pProc)
    (s.round i) (s.driven i)
  rw [hpc]
  rcases hworkers with ⟨hvec, hdelivered⟩ | ⟨req, j, v, hv, hvec, hdelivered⟩
  · rw [hvec, hdelivered]
    exact h.worker
  · rw [hvec, hdelivered, show [(req, j)] = [req].map fun r => (r, j) from rfl]
    refine Pool.forall_set h.worker ?_ fun k u hne hu => ?_
    · rw [share_append, share_self, List.map_append]
      exact (h.worker j v hv).add req.pProc
    · rw [share_append, share_of_ne (Ne.symm hne), List.append_nil]
      exact hu

/-- A worker makes a step of its own. -/
theorem Ok.replace {t : Watched Proc} (h : s.Ok) (w' : ThreadPooling Proc)
    (hvec : t.pool.broker.mVecInternals = s.pool.broker.mVecInternals.set i w')
    (hpc : t.pool.internalPc = Function.update s.pool.internalPc i pc)
    (hdelivered : t.pool.delivered = s.pool.delivered)
    (hother : ∀ j, j ≠ i → t.round j = s.round j ∧ t.driven j = s.driven j)
    (hok : WorkerOk pc w' (s.pool.deliveredTo i) (t.round i) (t.driven i)) : t.Ok := by
  refine ⟨?_⟩
  unfold Pool.deliveredTo
  rw [hvec, hpc, hdelivered]
  refine Pool.forall_set h.worker ?_ fun k u hne hu => ?_
  · rw [Function.update_self]
    exact hok
  · rw [Function.update_of_ne hne, (hother k hne).1, (hother k hne).2]
    exact hu

theorem set_same {vec : List (ThreadPooling Proc)} (hw : vec[i]? = some w) : vec.set i w = vec := by
  obtain ⟨hlt, rfl⟩ := List.getElem?_eq_some_iff.mp hw
  exact List.set_getElem_self hlt

theorem Ok.internal (h : s.Ok) (i : Nat) (progress : Bool) :
    (s.step (.internal i progress)).Ok := by
  cases hw : s.pool.broker.mVecInternals[i]? with
  | none =>
    have hstep : s.step (.internal i progress) = s := by
      simp only [step, note, Pool.step, Pool.internalStep, hw]
    rw [hstep]
    exact h
  | some w =>
  have hworker := h.worker i w hw
  cases hpc : s.pool.internalPc i with
  | idle =>
    rw [hpc] at hworker
    have hstep : s.step (.internal i progress) =
        { pool := (s.pool.setInternal i w.procsReqSplice).setInternalPc i (.driving 0)
          round := Function.update s.round i w.procsReqSplice.mListProcs
          driven := Function.update s.driven i [] } := by
      simp only [step, note, Pool.step, Pool.internalStep, hw, hpc]
    rw [hstep]
    refine h.replace _ rfl rfl rfl (fun j hj => ⟨Function.update_of_ne hj .., ?_⟩) ?_
    · exact Function.update_of_ne hj ..
    · simp only [Function.update_self]
      exact hworker.splice
  | counted iter =>
    rw [hpc] at hworker
    have hstep : (s.step (.internal i progress)).round = s.round ∧
        (s.step (.internal i progress)).driven = s.driven ∧
        (s.step (.internal i progress)).pool = s.pool.internalStep i progress := by
      simp only [step, note, Pool.step, hw, hpc, and_self]
    obtain ⟨hround, hdriven, hpool⟩ := hstep
    have hnext : s.pool.internalStep i progress =
        { (s.pool.setInternal i (w.procErase iter)).setInternalPc i (.driving iter) with
          undriven := s.pool.undriven ++
            w.mListProcs[iter]?.toList.map fun pProc => (pProc, i) } := by
      simp only [Pool.internalStep, hw, hpc]
    refine h.replace (w.procErase iter) (by rw [hpool, hnext]; rfl) (by rw [hpool, hnext]; rfl)
      (by rw [hpool, hnext]; rfl) (fun j _ => ⟨by rw [hround], by rw [hdriven]⟩) ?_
    rw [hround, hdriven]
    exact hworker.erase
  | driving iter =>
    rw [hpc] at hworker
    have hstep : (s.step (.internal i progress)).round = s.round ∧
        (s.step (.internal i progress)).driven =
          Function.update s.driven i (s.driven i ++ w.mListProcs[iter]?.toList) ∧
        (s.step (.internal i progress)).pool = s.pool.internalStep i progress := by
      simp only [step, note, Pool.step, hw, hpc, and_self]
    obtain ⟨hround, hdriven, hpool⟩ := hstep
    have hother : ∀ j, j ≠ i → (s.step (.internal i progress)).round j = s.round j ∧
        (s.step (.internal i progress)).driven j = s.driven j := fun j hj => by
      rw [hround, hdriven, Function.update_of_ne hj]
      exact ⟨rfl, rfl⟩
    have hself : (s.step (.internal i progress)).driven i =
        s.driven i ++ w.mListProcs[iter]?.toList := by rw [hdriven, Function.update_self]
    by_cases hiter : iter < w.mListProcs.length
    · cases progress with
      | true =>
        have hnext : s.pool.internalStep i true = s.pool.setInternalPc i (.driving (iter + 1)) := by
          simp only [Pool.internalStep, hw, hpc, if_pos hiter, if_true]
        refine h.replace w ?_ (by rw [hpool, hnext]; rfl) (by rw [hpool, hnext]; rfl) hother ?_
        · rw [hpool, hnext, set_same hw]
          rfl
        · rw [hround, hself]
          exact hworker.goesOn
      | false =>
        have hnext : s.pool.internalStep i false =
            (s.pool.setInternal i w.numProcessingDec).setInternalPc i (.counted iter) := by
          simp only [Pool.internalStep, hw, hpc, if_pos hiter, Bool.false_eq_true, if_false]
        refine h.replace w.numProcessingDec (by rw [hpool, hnext]; rfl)
          (by rw [hpool, hnext]; rfl) (by rw [hpool, hnext]; rfl) hother ?_
        rw [hround, hself]
        exact hworker.finished
    · have hnext : s.pool.internalStep i progress = s.pool.setInternalPc i .idle := by
        simp only [Pool.internalStep, hw, hpc, if_neg hiter]
      refine h.replace w ?_ (by rw [hpool, hnext]; rfl) (by rw [hpool, hnext]; rfl) hother ?_
      · rw [hpool, hnext, set_same hw]
        rfl
      · rw [hround, hself]
        exact hworker.ends (Nat.le_of_not_lt hiter)

theorem reachable_ok (h : Reachable (Start cnt) (ofFun step) s) : s.Ok :=
  h.invariant (fun _ => start_ok) fun s op t hs hst => by
    subst hst
    cases op with
    | procAdd req => exact ⟨hs.worker⟩
    | broker => exact hs.broker
    | internal i progress => exact hs.internal i progress

theorem reachable_pool (h : Reachable (Start cnt) (ofFun step) s) :
    Reachable (Pool.Start cnt) (ofFun Pool.step) s.pool := by
  induction h with
  | start h0 => exact .start h0.1
  | next _ hstep ih =>
    subst hstep
    exact ih.next rfl

/-! ## The end of a round -/

/-- The steps of its own that a worker needs up to the end of its round. -/
def stepsLeft (pc : InternalPc) (w : ThreadPooling Proc) : Nat :=
  match pc with
  | .idle => 0
  | .driving iter => 2 * (w.mListProcs.length - iter) + 1
  | .counted iter => 2 * (w.mListProcs.length - iter)

theorem stepsLeft_congr {v : ThreadPooling Proc} (h : v.mListProcs = w.mListProcs) :
    stepsLeft pc v = stepsLeft pc w := by
  cases pc <;> simp only [stepsLeft, h]

def Own (i : Nat) : Op Proc → Bool
  | .internal j _ => j = i
  | _ => false

/-- What a step does to the round of worker `i`. -/
structure Advanced (i : Nat) (op : Op Proc) (s t : Watched Proc) (w v : ThreadPooling Proc) :
    Prop where
  entry : t.pool.broker.mVecInternals[i]? = some v
  round : t.round i = s.round i
  left : stepsLeft (t.pool.internalPc i) v + (if Own i op then 1 else 0) ≤
    stepsLeft (s.pool.internalPc i) w

theorem round_note (s : Watched Proc) {op : Op Proc}
    (h : Own i op = true → s.pool.internalPc i ≠ .idle) : (s.note op).round i = s.round i := by
  cases op with
  | procAdd req => rfl
  | broker => rfl
  | internal j progress =>
    rw [note]
    split
    · next hpc =>
      refine Function.update_of_ne (fun hij => ?_) ..
      exact h (decide_eq_true hij.symm) (hij ▸ hpc)
    · rfl
    · rfl

/-- The worker's own step brings the round nearer to its end. -/
theorem own_step (hpool : Pool.Ok cnt s.pool) (hw : s.pool.broker.mVecInternals[i]? = some w)
    (hbusy : s.pool.internalPc i ≠ .idle) (progress : Bool) :
    ∃ v, (s.pool.internalStep i progress).broker.mVecInternals[i]? = some v ∧
      stepsLeft ((s.pool.internalStep i progress).internalPc i) v + 1 ≤
        stepsLeft (s.pool.internalPc i) w := by
  have hlt := (List.getElem?_eq_some_iff.mp hw).1
  have hset : ∀ v, (s.pool.setInternal i v).broker.mVecInternals[i]? = some v := fun v =>
    List.getElem?_set_self hlt
  have hpc' : ∀ pc, Function.update s.pool.internalPc i pc i = pc := fun pc =>
    Function.update_self ..
  cases hpc : s.pool.internalPc i with
  | idle => exact absurd hpc hbusy
  | counted iter =>
    have hiter := (hpool.worker i w hw).iter iter hpc
    refine ⟨w.procErase iter, ?_, ?_⟩
    · simp only [Pool.internalStep, hw, hpc]
      exact hset _
    · have hnext : (s.pool.internalStep i progress).internalPc i = .driving iter := by
        simp only [Pool.internalStep, hw, hpc]
        exact hpc' _
      have hlength : (w.procErase iter).mListProcs.length = w.mListProcs.length - 1 :=
        List.length_eraseIdx_of_lt hiter
      rw [hnext, stepsLeft, stepsLeft, hlength]
      omega
  | driving iter =>
    by_cases hiter : iter < w.mListProcs.length
    · cases progress with
      | true =>
        refine ⟨w, ?_, ?_⟩
        · simp only [Pool.internalStep, hw, hpc, if_pos hiter, if_true]
          exact hw
        · have hnext : (s.pool.internalStep i true).internalPc i = .driving (iter + 1) := by
            simp only [Pool.internalStep, hw, hpc, if_pos hiter, if_true]
            exact hpc' _
          rw [hnext, stepsLeft, stepsLeft]
          omega
      | false =>
        refine ⟨w.numProcessingDec, ?_, ?_⟩
        · simp only [Pool.internalStep, hw, hpc, if_pos hiter, Bool.false_eq_true, if_false]
          exact hset _
        · have hnext : (s.pool.internalStep i false).internalPc i = .counted iter := by
            simp only [Pool.internalStep, hw, hpc, if_pos hiter, Bool.false_eq_true, if_false]
            exact hpc' _
          rw [hnext]
          exact Nat.le_refl _
    · refine ⟨w, ?_, ?_⟩
      · simp only [Pool.internalStep, hw, hpc, if_neg hiter]
        exact hw
      · have hnext : (s.pool.internalStep i progress).internalPc i = .idle := by
          simp only [Pool.internalStep, hw, hpc, if_neg hiter]
          exact hpc' _
        rw [hnext, stepsLeft, stepsLeft]
        omega

theorem advanced_step (hpool : Pool.Ok cnt s.pool)
    (hw : s.pool.broker.mVecInternals[i]? = some w) (hbusy : s.pool.internalPc i ≠ .idle)
    (op : Op Proc) : ∃ v, Advanced i op s (s.step op) w v := by
  have hround : (s.step op).round i = s.round i := round_note s fun _ => hbusy
  cases op with
  | procAdd req => exact ⟨w, hw, hround, Nat.le_refl _⟩
  | broker =>
    obtain ⟨hpc, hworkers⟩ := brokerStep_workers s.pool
    have hstay : ∀ v : ThreadPooling Proc, v.mListProcs = w.mListProcs →
        s.pool.brokerStep.broker.mVecInternals[i]? = some v →
          ∃ v, Advanced i .broker s (s.step .broker) w v := fun v hlist hv => by
      refine ⟨v, hv, hround, ?_⟩
      show stepsLeft (s.pool.brokerStep.internalPc i) v + 0 ≤ _
      rw [hpc, stepsLeft_congr hlist]
      exact Nat.le_refl _
    rcases hworkers with ⟨hvec, -⟩ | ⟨req, j, u, hu, hvec, -⟩
    · exact hstay w rfl (by rw [hvec]; exact hw)
    · rcases eq_or_ne i j with rfl | hne
      · obtain rfl := Option.some.inj (hu.symm.trans hw)
        refine hstay (u.procInternalAdd req.pProc) rfl ?_
        rw [hvec]
        exact List.getElem?_set_self (List.getElem?_eq_some_iff.mp hw).1
      · refine hstay w rfl ?_
        rw [hvec, List.getElem?_set_ne (Ne.symm hne)]
        exact hw
  | internal j progress =>
    rcases eq_or_ne i j with rfl | hne
    · obtain ⟨v, hv, hleft⟩ := own_step hpool hw hbusy progress
      refine ⟨v, hv, hround, ?_⟩
      have hown : Own i (.internal i progress : Op Proc) = true := decide_eq_true rfl
      rw [if_pos hown]
      exact hleft
    · obtain ⟨hentry, hpc⟩ := s.pool.internalStep_other hne progress
      refine ⟨w, hentry.trans hw, hround, ?_⟩
      show stepsLeft ((s.pool.internalStep j progress).internalPc i) w + _ ≤ _
      rw [hpc, if_neg (by rw [Own, decide_eq_true_iff]; exact Ne.symm hne)]
      exact Nat.le_refl _

theorem stepsLeft_pos (h : Pool.Ok cnt s.pool) (hw : s.pool.broker.mVecInternals[i]? = some w)
    (hbusy : s.pool.internalPc i ≠ .idle) : 0 < stepsLeft (s.pool.internalPc i) w := by
  have hiter := (h.worker i w hw).iter
  cases hpc : s.pool.internalPc i with
  | idle => exact absurd hpc hbusy
  | driving iter => exact Nat.succ_pos _
  | counted iter =>
    have hlt := hiter iter hpc
    rw [stepsLeft]
    omega

/-- The round of a worker ends, with all its processes driven, before these steps are used up. -/
theorem round_ends (hcnt : cnt ≠ 0) (ops : List (Op Proc))
    (h : Reachable (Start cnt) (ofFun step) s) (hw : s.pool.broker.mVecInternals[i]? = some w)
    (hown : stepsLeft (s.pool.internalPc i) w ≤ ops.countP (Own i)) :
    ∃ n ≤ ops.length, ((ops.take n).foldl step s).pool.internalPc i = .idle ∧
      ((ops.take n).foldl step s).driven i = s.round i := by
  have hround := ((reachable_ok h).worker i w hw).round
  have hpool := Pool.reachable_ok hcnt (reachable_pool h)
  rcases Classical.em (s.pool.internalPc i = .idle) with hidle | hbusy
  · refine ⟨0, Nat.zero_le _, hidle, ?_⟩
    rw [hidle, left, List.append_nil] at hround
    exact hround.symm
  induction ops generalizing s w with
  | nil => exact absurd (stepsLeft_pos hpool hw hbusy) (Nat.not_lt.mpr hown)
  | cons op ops ih =>
    obtain ⟨v, hadv⟩ := advanced_step hpool hw hbusy op
    have hnext : Reachable (Start cnt) (ofFun step) (s.step op) := h.next rfl
    have hround' := ((reachable_ok hnext).worker i v hadv.entry).round
    rcases Classical.em ((s.step op).pool.internalPc i = .idle) with hidle | hbusy'
    · refine ⟨1, Nat.succ_le_succ (Nat.zero_le _), hidle, ?_⟩
      rw [hidle, left, List.append_nil] at hround'
      exact hround'.symm.trans hadv.round
    · have hleft := hadv.left
      rw [List.countP_cons] at hown
      obtain ⟨n, hn, hidle, hdriven⟩ := ih hnext hadv.entry (by omega) hround'
        (Pool.reachable_ok hcnt (reachable_pool hnext)) hbusy'
      exact ⟨n + 1, Nat.succ_le_succ hn, hidle, hdriven.trans hadv.round⟩

/-- In every interleaving of the broker, the workers and those who add: the processes of a worker
stay in the order in which they were handed to it, and a round drives the processes that it began
with one by one in this order, whichever of them finish and whatever is added; from every state the
round ends, with each of them driven exactly once, in as many own steps of the worker as are left. -/
theorem rounds_served (hcnt : cnt ≠ 0) (h : Reachable (Start cnt) (ofFun step) s)
    (hw : s.pool.broker.mVecInternals[i]? = some w) :
    (w.mListProcs ++ w.mListProcsReq).Sublist (s.pool.deliveredTo i) ∧
      (s.round i).Sublist (s.pool.deliveredTo i) ∧
      s.round i = s.driven i ++ left (s.pool.internalPc i) w ∧
      ∀ ops : List (Op Proc), stepsLeft (s.pool.internalPc i) w ≤ ops.countP (Own i) →
        ∃ n ≤ ops.length, ((ops.take n).foldl step s).pool.internalPc i = .idle ∧
          ((ops.take n).foldl step s).driven i = s.round i := by
  have hworker := (reachable_ok h).worker i w hw
  exact ⟨hworker.order, hworker.known, hworker.round, fun ops => round_ends hcnt ops h hw⟩

/-- Two processes come to a worker; while the first one is driven, and finishes, a third one comes. -/
theorem rounds_served_three : ∃ s : Watched Nat, Reachable (Start 1) (ofFun step) s ∧
    s.round 0 = [7, 8] ∧ s.driven 0 = [7] ∧ s.pool.deliveredTo 0 = [7, 8, 9] ∧
    ∃ n ≤ 5, ((([.internal 0 true, .broker, .internal 0 false, .internal 0 true,
      .internal 0 true] : List (Op Nat)).take n).foldl step s).driven 0 = [7, 8] := by
  have hstart : Reachable (Start 1) (ofFun step)
      (⟨⟨Pool.started 1, [], .idle, fun _ => .idle, [], [], []⟩, fun _ => [], fun _ => []⟩ :
        Watched Nat) := .start ⟨⟨[], rfl⟩, rfl, rfl⟩
  have hrun := hstart.foldl [.procAdd ⟨7, 0⟩, .procAdd ⟨8, 0⟩, .broker, .broker, .broker, .broker,
    .broker, .internal 0 true, .internal 0 false, .procAdd ⟨9, 0⟩, .broker, .broker]
  refine ⟨_, hrun, rfl, rfl, rfl, ?_⟩
  obtain ⟨-, -, -, hends⟩ := rounds_served (i := 0) (by decide) hrun rfl
  obtain ⟨n, hn, -, hdriven⟩ := hends
    [.internal 0 true, .broker, .internal 0 false, .internal 0 true, .internal 0 true] (by decide)
  exact ⟨n, hn, hdriven⟩

end Watched

end ThreadPooling

end ProcessingCommon

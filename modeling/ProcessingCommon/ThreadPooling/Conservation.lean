import Mathlib.Tactic.Abel
import ProcessingCommon.Lib.Share
import ProcessingCommon.ThreadPooling.Interleaving

/-!
# No process is lost

Every process that was added is in one place, in every interleaving of the broker, the workers
and those who add: first for one worker and what was handed to it, then for the pool.
-/

namespace ProcessingCommon

namespace ThreadPooling

open Share (share share_append share_self share_of_ne)
open Transition (Reachable ofFun)

variable {Proc : Type} {w : ThreadPooling Proc} {ds us : List Proc} {pc : InternalPc}
  {iter : Nat} {cnt : UInt16}

/-! ## One worker -/

/-- The processes of a worker. -/
def procs (w : ThreadPooling Proc) : List Proc := w.mListProcsReq ++ w.mListProcs

@[simp] theorem length_procs :
    w.procs.length = w.mListProcsReq.length + w.mListProcs.length := List.length_append

/-- With `ds` handed to the worker and `us` set undriven by it. -/
structure WorkerOk (pc : InternalPc) (w : ThreadPooling Proc) (ds us : List Proc) : Prop where
  books : ds.Perm (w.procs ++ us)
  count : w.mNumProcessing + (match pc with | .counted _ => 1 | _ => 0) = w.procs.length
  iter : ∀ iter, pc = .counted iter → iter < w.mListProcs.length

theorem WorkerOk.new : WorkerOk .idle ({ mIsInternal := true } : ThreadPooling Proc) [] [] where
  books := .refl _
  count := rfl
  iter _ h := nomatch h

/-- The broker may come at any time. -/
theorem WorkerOk.add (h : WorkerOk pc w ds us) (pProc : Proc) :
    WorkerOk pc (w.procInternalAdd pProc) (ds ++ [pProc]) us where
  books := by
    have hperm : (ds ++ [pProc]).Perm (w.procs ++ us ++ [pProc]) := h.books.append_right _
    refine hperm.trans ?_
    show (w.mListProcsReq ++ w.mListProcs ++ us ++ [pProc]).Perm
      (w.mListProcsReq ++ [pProc] ++ w.mListProcs ++ us)
    simp only [List.append_assoc]
    refine List.Perm.append_left _ ?_
    rw [← List.append_assoc w.mListProcs]
    exact List.perm_append_comm
  count := by
    have hcount := h.count
    simp only [procInternalAdd, length_procs, List.length_append, List.length_singleton]
      at hcount ⊢
    omega
  iter := h.iter

theorem WorkerOk.splice (h : WorkerOk .idle w ds us) :
    WorkerOk (.driving 0) w.procsReqSplice ds us where
  books := by
    refine h.books.trans (List.Perm.append_right _ ?_)
    show (w.mListProcsReq ++ w.mListProcs).Perm ([] ++ (w.mListProcs ++ w.mListProcsReq))
    exact List.perm_append_comm
  count := by
    have hcount := h.count
    simp only [procsReqSplice, length_procs, List.length_append, List.length_nil] at hcount ⊢
    omega
  iter _ hpc := nomatch hpc

/-- A driving worker goes on, or ends its tick. -/
theorem WorkerOk.move {pc' : InternalPc} (h : WorkerOk (.driving iter) w ds us)
    (hpc : ∀ i, pc' ≠ .counted i) : WorkerOk pc' w ds us where
  books := h.books
  count := by
    have hcount := h.count
    cases pc' with
    | counted i => exact absurd rfl (hpc i)
    | _ => exact hcount
  iter i hi := absurd hi (hpc i)

theorem WorkerOk.dec (h : WorkerOk (.driving iter) w ds us) (hiter : iter < w.mListProcs.length) :
    WorkerOk (.counted iter) w.numProcessingDec ds us where
  books := h.books
  count := by
    have hcount := h.count
    simp only [numProcessingDec, length_procs] at hcount ⊢
    omega
  iter i hi := by
    cases hi
    exact hiter

theorem WorkerOk.erase (h : WorkerOk (.counted iter) w ds us) :
    WorkerOk (.driving iter) (w.procErase iter) ds (us ++ w.mListProcs[iter]?.toList) where
  books := by
    have hiter := h.iter iter rfl
    have hperm : w.mListProcs.Perm (w.mListProcs.eraseIdx iter ++ [w.mListProcs[iter]]) :=
      (List.getElem_cons_eraseIdx_perm hiter).symm.trans (List.perm_append_singleton ..).symm
    rw [List.getElem?_eq_getElem hiter]
    refine h.books.trans ?_
    show (w.mListProcsReq ++ w.mListProcs ++ us).Perm
      (w.mListProcsReq ++ w.mListProcs.eraseIdx iter ++ (us ++ [w.mListProcs[iter]]))
    simp only [List.append_assoc]
    refine List.Perm.append_left _ ((hperm.append_right us).trans ?_)
    rw [List.append_assoc]
    exact List.Perm.append_left _ List.perm_append_comm
  count := by
    have hcount := h.count
    have hiter := h.iter iter rfl
    simp only [procErase, length_procs, List.length_eraseIdx_of_lt hiter] at hcount ⊢
    omega
  iter _ hpc := nomatch hpc

/-! ## The pool -/

namespace Pool

/-- The processes handed to worker `i`. -/
def deliveredTo (s : Pool Proc) (i : Nat) : List Proc := (share i s.delivered).map PoolRequest.pProc

/-- What the broker has found out about the request in its hand. -/
def HandOk (cnt : UInt16) : BrokerPc Proc → Prop
  | .nextGet req => ¬ Desired cnt req
  | .selecting req _ idSelected _ => ¬ Desired cnt req ∧ idSelected < cnt.toNat
  | .adding req idDriver =>
    idDriver < cnt.toNat ∧ (Desired cnt req → req.idDriverDesired = idDriver)
  | _ => True

structure Ok (cnt : UInt16) (s : Pool Proc) : Prop where
  count : s.broker.mCntInternals = cnt
  length : s.broker.mVecInternals.length = cnt.toNat
  order : s.added = s.delivered.map Prod.fst ++ (s.brokerPc.hand ++ s.pipe)
  hand : HandOk cnt s.brokerPc
  delivered : ∀ d ∈ s.delivered,
    d.2 < cnt.toNat ∧ (Desired cnt d.1 → d.1.idDriverDesired = d.2)
  undriven : ∀ u ∈ s.undriven, u.2 < cnt.toNat
  worker : ∀ i w, s.broker.mVecInternals[i]? = some w →
    WorkerOk (s.internalPc i) w (s.deliveredTo i) (share i s.undriven)

variable {s : Pool Proc} {i : Nat}

/-- The worker at `i` is changed, and what is said of the others does not change. -/
theorem forall_set {vec : List (ThreadPooling Proc)} {w' : ThreadPooling Proc}
    {W W' : Nat → ThreadPooling Proc → Prop} (h : ∀ j w, vec[j]? = some w → W j w)
    (hself : W' i w') (hne : ∀ j w, j ≠ i → W j w → W' j w) :
    ∀ j w, (vec.set i w')[j]? = some w → W' j w := by
  intro j w hj
  rw [List.getElem?_set] at hj
  split at hj
  · next hij =>
    split at hj
    · cases hj
      exact hij ▸ hself
    · cases hj
  · next hij => exact hne j w (Ne.symm hij) (h j w hj)

theorem start_ok (h : Start cnt s) : Ok cnt s := by
  obtain ⟨reqs, rfl⟩ := h
  refine ⟨rfl, List.length_replicate .., rfl, trivial, fun d hd => (nomatch hd),
    fun u hu => (nomatch hu), fun i w hw => ?_⟩
  obtain ⟨-, rfl⟩ := List.mem_replicate.mp (List.mem_of_getElem? hw)
  exact .new

theorem Ok.procAdd (h : Ok cnt s) (req : PoolRequest Proc) : Ok cnt (step s (.procAdd req)) where
  count := h.count
  length := h.length
  order := by
    show s.added ++ [req] = s.delivered.map Prod.fst ++ (s.brokerPc.hand ++ (s.pipe ++ [req]))
    rw [h.order]
    simp only [List.append_assoc]
  hand := h.hand
  delivered := h.delivered
  undriven := h.undriven
  worker := h.worker

/-- The broker goes on without touching a worker. -/
theorem Ok.goto {b : BrokerPc Proc} {pipe : List (PoolRequest Proc)} (h : Ok cnt s)
    (hpipe : s.brokerPc.hand ++ s.pipe = b.hand ++ pipe) (hhand : HandOk cnt b) :
    Ok cnt { s with brokerPc := b, pipe := pipe } where
  count := h.count
  length := h.length
  order := by
    show s.added = s.delivered.map Prod.fst ++ (b.hand ++ pipe)
    rw [h.order, hpipe]
  hand := hhand
  delivered := h.delivered
  undriven := h.undriven
  worker := h.worker

/-- The request in hand is handed to its worker. -/
theorem Ok.deliver {req : PoolRequest Proc} {w : ThreadPooling Proc} (h : Ok cnt s)
    (hpc : s.brokerPc = .adding req i) (hw : s.broker.mVecInternals[i]? = some w) :
    Ok cnt { s.setInternal i (w.procInternalAdd req.pProc) with
      brokerPc := .requests, delivered := s.delivered ++ [(req, i)] } where
  count := h.count
  length := by
    show (s.broker.mVecInternals.set i _).length = _
    rw [List.length_set, h.length]
  order := by
    show s.added = (s.delivered ++ [(req, i)]).map Prod.fst ++ s.pipe
    rw [h.order, hpc, List.map_append, List.append_assoc]
    rfl
  hand := trivial
  delivered := by
    have hhand := h.hand
    rw [hpc] at hhand
    intro d hd
    rcases List.mem_append.mp hd with hd | hd
    · exact h.delivered d hd
    · cases List.mem_singleton.mp hd
      exact hhand
  undriven := h.undriven
  worker := by
    refine forall_set h.worker ?_ ?_
    · show WorkerOk (s.internalPc i) (w.procInternalAdd req.pProc)
        ((share i (s.delivered ++ [req].map fun r => (r, i))).map PoolRequest.pProc)
        (share i s.undriven)
      rw [share_append, share_self, List.map_append]
      exact (h.worker i w hw).add req.pProc
    · intro j v hne hv
      show WorkerOk (s.internalPc j) v
        ((share j (s.delivered ++ [req].map fun r => (r, i))).map PoolRequest.pProc)
        (share j s.undriven)
      rw [share_append, share_of_ne (Ne.symm hne), List.append_nil]
      exact hv

theorem Ok.brokerStep (hcnt : cnt ≠ 0) (h : Ok cnt s) : Ok cnt s.brokerStep := by
  have hpos : 0 < cnt.toNat := Nat.pos_of_ne_zero fun hz => hcnt (UInt16.toNat_inj.mp hz)
  have hhand := h.hand
  unfold Pool.brokerStep
  split
  · next hpc => exact h.goto (by rw [hpc]; rfl) trivial
  · next hpc =>
    split
    · exact h.goto (by rw [hpc]; rfl) trivial
    · next req pipe hpipe =>
      have hmove : s.brokerPc.hand ++ s.pipe = [req] ++ pipe := by
        rw [hpc, hpipe]
        rfl
      split
      · next hdes =>
        rw [h.count] at hdes
        have hid : (req.idDriverDesired.toNat : Int) = req.idDriverDesired :=
          Int.toNat_of_nonneg hdes.1
        refine h.goto hmove ⟨?_, fun _ => hid.symm⟩
        rw [← Int.ofNat_lt, hid]
        exact hdes.2
      · next hdes =>
        rw [h.count] at hdes
        exact h.goto hmove hdes
  · next req hpc =>
    rw [hpc] at hhand
    split
    · exact h
    · exact h.goto (by rw [hpc]; rfl) ⟨hhand, hpos⟩
  · next req idCurrent idSelected num hpc =>
    rw [hpc] at hhand
    obtain ⟨hdes, hsel⟩ := hhand
    split
    · exact h.goto (by rw [hpc]; rfl) ⟨hsel, fun hd => absurd hd hdes⟩
    · next w hw =>
      have hcur : idCurrent < cnt.toNat := h.length ▸ (List.getElem?_eq_some_iff.mp hw).1
      split
      · exact h.goto (by rw [hpc]; rfl) ⟨hdes, hsel⟩
      · exact h.goto (by rw [hpc]; rfl) ⟨hdes, hcur⟩
  · next req idDriver hpc =>
    split
    · exact h
    · next w hw => exact h.deliver hpc hw

/-- A worker makes a step of its own, in which it may set processes undriven. -/
theorem Ok.setInternal {w w' : ThreadPooling Proc} (us : List Proc) (h : Ok cnt s)
    (hw : s.broker.mVecInternals[i]? = some w)
    (hok : WorkerOk pc w' (s.deliveredTo i) (share i s.undriven ++ us)) :
    Ok cnt { (s.setInternal i w').setInternalPc i pc with
      undriven := s.undriven ++ us.map fun pProc => (pProc, i) } where
  count := h.count
  length := by
    show (s.broker.mVecInternals.set i _).length = _
    rw [List.length_set, h.length]
  order := h.order
  hand := h.hand
  delivered := h.delivered
  undriven := by
    intro u hu
    rcases List.mem_append.mp hu with hu | hu
    · exact h.undriven u hu
    · obtain ⟨pProc, -, rfl⟩ := List.mem_map.mp hu
      exact h.length ▸ (List.getElem?_eq_some_iff.mp hw).1
  worker := by
    refine forall_set h.worker ?_ ?_
    · show WorkerOk (Function.update s.internalPc i pc i) w' (s.deliveredTo i)
        (share i (s.undriven ++ us.map fun pProc => (pProc, i)))
      rw [Function.update_self, share_append, share_self]
      exact hok
    · intro j v hne hv
      show WorkerOk (Function.update s.internalPc i pc j) v (s.deliveredTo j)
        (share j (s.undriven ++ us.map fun pProc => (pProc, i)))
      rw [Function.update_of_ne hne, share_append, share_of_ne (Ne.symm hne), List.append_nil]
      exact hv

theorem Ok.setInternalPc {w : ThreadPooling Proc} (h : Ok cnt s)
    (hw : s.broker.mVecInternals[i]? = some w)
    (hok : WorkerOk pc w (s.deliveredTo i) (share i s.undriven)) :
    Ok cnt (s.setInternalPc i pc) where
  count := h.count
  length := h.length
  order := h.order
  hand := h.hand
  delivered := h.delivered
  undriven := h.undriven
  worker := by
    intro j v hv
    show WorkerOk (Function.update s.internalPc i pc j) v (s.deliveredTo j) (share j s.undriven)
    by_cases hij : j = i
    · subst hij
      rw [Function.update_self, ← Option.some.inj (hw.symm.trans hv)]
      exact hok
    · rw [Function.update_of_ne hij]
      exact h.worker j v hv

theorem Ok.internalStep (h : Ok cnt s) (i : Nat) (progress : Bool) :
    Ok cnt (s.internalStep i progress) := by
  unfold Pool.internalStep
  split
  · exact h
  · next w hw =>
    have hworker := h.worker i w hw
    split
    · next hpc =>
      rw [hpc] at hworker
      have hnext := h.setInternal [] hw (by simpa only [List.append_nil] using hworker.splice)
      rw [List.map_nil, List.append_nil] at hnext
      exact hnext
    · next iter hpc =>
      rw [hpc] at hworker
      split
      · next hiter =>
        split
        · exact h.setInternalPc hw (hworker.move fun _ => nofun)
        · have hnext := h.setInternal [] hw
            (by simpa only [List.append_nil] using hworker.dec hiter)
          rw [List.map_nil, List.append_nil] at hnext
          exact hnext
      · exact h.setInternalPc hw (hworker.move fun _ => nofun)
    · next iter hpc =>
      rw [hpc] at hworker
      exact h.setInternal _ hw hworker.erase

theorem reachable_ok (hcnt : cnt ≠ 0) (h : Reachable (Start cnt) (ofFun step) s) : Ok cnt s :=
  h.invariant (fun _ => start_ok) fun s op t hs hst => by
    subst hst
    cases op with
    | procAdd req => exact hs.procAdd req
    | broker => exact hs.brokerStep hcnt
    | internal i progress => exact hs.internalStep i progress

/-- What was handed to the workers is in their lists or was set undriven. -/
theorem Ok.sum_delivered (h : Ok cnt s) :
    ((s.delivered.map Prod.fst).map PoolRequest.pProc : Multiset Proc) =
      (s.broker.mVecInternals.map fun w => (w.procs : Multiset Proc)).sum +
        (s.undriven.map Prod.fst : List Proc) := by
  have hworker : ∀ i w, s.broker.mVecInternals[i]? = some w →
      (s.deliveredTo i : Multiset Proc) = (w.procs : Multiset Proc) + share i s.undriven := by
    intro i w hw
    rw [Multiset.coe_add, Multiset.coe_eq_coe]
    exact (h.worker i w hw).books
  have hto : ∑ i ∈ Finset.range s.broker.mVecInternals.length, (s.deliveredTo i : Multiset Proc) =
      ((s.delivered.map Prod.fst).map PoolRequest.pProc : List Proc) := by
    have hall := Share.sum_share (n := cnt.toNat) fun d hd => (h.delivered d hd).1
    rw [← Multiset.map_coe, ← hall, h.length]
    exact (map_sum (Multiset.mapAddMonoidHom PoolRequest.pProc)
      (fun k => (share k s.delivered : Multiset (PoolRequest Proc)))
      (Finset.range cnt.toNat)).symm
  rw [← hto, Share.sum_entries hworker, Share.sum_share (h.length ▸ h.undriven)]

/-- In every interleaving: the added processes are those in the pipe, in the hand of the broker,
in the lists of one worker and those set undriven, each as often as it was added. Between two
ticks the broker has none in hand, and the counter of a worker is the length of its two lists.
The requests are handed on in their order, what is handed to a worker is in its lists or was set
undriven by it, and a request that desires one of the workers goes to that worker. -/
theorem pool_conserves (hcnt : cnt ≠ 0) (h : Reachable (Start cnt) (ofFun step) s) :
    (s.added.map PoolRequest.pProc : Multiset Proc) =
        (s.pipe.map PoolRequest.pProc : List Proc) +
        (s.brokerPc.hand.map PoolRequest.pProc : List Proc) +
        (s.broker.mVecInternals.map fun w => (w.procs : Multiset Proc)).sum +
        (s.undriven.map Prod.fst : List Proc) ∧
      (s.brokerPc = .idle → s.brokerPc.hand = []) ∧
      (∀ i w, s.broker.mVecInternals[i]? = some w → s.internalPc i = .idle →
        w.mNumProcessing = w.mListProcsReq.length + w.mListProcs.length) ∧
      s.added = s.delivered.map Prod.fst ++ (s.brokerPc.hand ++ s.pipe) ∧
      (∀ i w, s.broker.mVecInternals[i]? = some w →
        (s.deliveredTo i).Perm (w.mListProcsReq ++ w.mListProcs ++ share i s.undriven)) ∧
      ∀ d ∈ s.delivered, d.2 < s.broker.mVecInternals.length ∧
        (Desired cnt d.1 → d.1.idDriverDesired = d.2) := by
  have hok := reachable_ok hcnt h
  refine ⟨?_, fun hpc => by rw [hpc]; rfl, fun i w hw hpc => ?_, hok.order,
    fun i w hw => (hok.worker i w hw).books, fun d hd => ?_⟩
  · have hsum := hok.sum_delivered
    rw [hok.order]
    simp only [List.map_append, ← Multiset.coe_add] at hsum ⊢
    rw [hsum]
    abel
  · have hcount := (hok.worker i w hw).count
    rw [hpc, length_procs] at hcount
    exact hcount
  · rw [hok.length]
    exact hok.delivered d hd

/-- Two processes, the first one for the second worker. The other one is added while it is
driven, and goes to the first worker. -/
theorem pool_conserves_two : ∃ s : Pool Nat, Reachable (Start 2) (ofFun step) s ∧
    s.pipe = [] ∧ s.undriven = [(7, 1)] ∧ s.deliveredTo 0 = [8] ∧
    (s.added.map PoolRequest.pProc : Multiset Nat) =
      0 + 0 + (s.broker.mVecInternals.map fun w => (w.procs : Multiset Nat)).sum + {7} := by
  have hstart : Reachable (Start 2) (ofFun step)
      (⟨started 2, [], .idle, fun _ => .idle, [], [], []⟩ : Pool Nat) := .start ⟨[], rfl⟩
  have hrun := hstart.foldl [.procAdd ⟨7, 1⟩, .broker, .broker, .broker, .internal 1 true,
    .procAdd ⟨8, -1⟩, .broker, .broker, .internal 1 false, .broker, .broker, .broker,
    .internal 1 true, .broker]
  refine ⟨_, hrun, rfl, rfl, rfl, ?_⟩
  exact (pool_conserves (by decide) hrun).1

end Pool

end ThreadPooling

end ProcessingCommon

import ProcessingCommon.Lib.Balance
import ProcessingCommon.ThreadPooling.Interleaving

/-!
# Balanced dispatch

A request that names no worker goes to the first of the least loaded ones. As long as no process
finishes, loads that differ by one at most stay so: in a call of `poolRequestsProcess`, and in
the pool whose threads run beside the broker while it searches.
-/

namespace ProcessingCommon

namespace ThreadPooling

variable {Proc : Type} {vec : List (ThreadPooling Proc)} {cnt : UInt16} {i : Nat}
  {pipe : List (PoolRequest Proc)}

/-- What the workers answer to `numProcessingGet`. -/
def loads (vec : List (ThreadPooling Proc)) : List Nat := vec.map numProcessingGet

@[simp] theorem loads_length (vec : List (ThreadPooling Proc)) :
    (loads vec).length = vec.length := List.length_map _

theorem loads_get {w : ThreadPooling Proc} (h : vec[i]? = some w) :
    (loads vec)[i]? = some w.numProcessingGet := by
  rw [loads, List.getElem?_map, h]
  rfl

/-- The loads up to a worker, and its own. -/
theorem loads_take_succ {w : ThreadPooling Proc} (h : vec[i]? = some w) :
    (loads vec).take (i + 1) = (loads vec).take i ++ [w.numProcessingGet] := by
  rw [List.take_add_one, loads_get h]
  rfl

theorem loads_set (vec : List (ThreadPooling Proc)) (i : Nat) (w : ThreadPooling Proc) :
    loads (vec.set i w) = (loads vec).set i w.numProcessingGet := List.map_set

/-! ## The choice of a worker -/

theorem firstMin_pass {w : ThreadPooling Proc} {idSelected num : Nat} (hw : vec[i]? = some w)
    (h : FirstMin ((loads vec).take i) idSelected num) (hle : num ≤ w.numProcessingGet) :
    FirstMin ((loads vec).take (i + 1)) idSelected num := by
  rw [loads_take_succ hw]
  exact h.keep hle

theorem firstMin_select {w : ThreadPooling Proc} {idSelected num : Nat} (hw : vec[i]? = some w)
    (h : FirstMin ((loads vec).take i) idSelected num) (hlt : ¬ num ≤ w.numProcessingGet) :
    FirstMin ((loads vec).take (i + 1)) i w.numProcessingGet := by
  have hi : i < vec.length := (List.getElem?_eq_some_iff.mp hw).1
  have hnew := h.replace (Nat.not_le.mp hlt)
  rw [List.length_take_of_le (by rw [loads_length]; exact Nat.le_of_lt hi)] at hnew
  rw [loads_take_succ hw]
  exact hnew

theorem selectLoop_firstMin {n idCurrent idSelected num : Nat} (hn : idCurrent + n = vec.length)
    (h : FirstMin ((loads vec).take idCurrent) idSelected num) :
    ∃ i a, selectLoop vec n idCurrent idSelected num = some i ∧ FirstMin (loads vec) i a := by
  induction n generalizing idCurrent idSelected num with
  | zero =>
    refine ⟨idSelected, num, rfl, ?_⟩
    rw [List.take_of_length_le (Nat.le_of_eq (by rw [loads_length, ← hn, Nat.add_zero]))] at h
    exact h
  | succ n ih =>
    have hlt : idCurrent < vec.length := by omega
    have hw : vec[idCurrent]? = some vec[idCurrent] := List.getElem?_eq_getElem hlt
    simp only [selectLoop, hw, Option.bind_eq_bind, Option.bind_some]
    split
    · next hle => exact ih (by omega) (firstMin_pass hw h hle)
    · next hgt => exact ih (by omega) (firstMin_select hw h hgt)

theorem idDriverNextGet_firstMin (hne : vec ≠ []) :
    ∃ i a, idDriverNextGet vec = some i ∧ FirstMin (loads vec) i a := by
  cases vec with
  | nil => exact absurd rfl hne
  | cons w vec =>
    have hfirst : FirstMin ((loads (w :: vec)).take 1) 0 w.numProcessingGet := .single _
    have hn : 1 + ((w :: vec).length - 1) = (w :: vec).length := Nat.add_comm _ _
    exact selectLoop_firstMin hn hfirst

/-! ## The requests of a tick -/

/-- The request goes to a least loaded worker. -/
theorem level_add {a : Nat} {w : ThreadPooling Proc} (hl : Level (loads vec))
    (h : FirstMin (loads vec) i a) (hw : vec[i]? = some w) (pProc : Proc) :
    Level (loads (vec.set i (w.procInternalAdd pProc))) := by
  have ha : a = w.numProcessingGet := Option.some_inj.mp (h.get.symm.trans (loads_get hw))
  rw [loads_set]
  show Level ((loads vec).set i (w.numProcessingGet + 1))
  rw [← ha]
  exact hl.set h.get h.le

/-- Each request has gone to the first of those that were the least loaded then, behind what this
worker had. -/
inductive Dispatched :
    List (ThreadPooling Proc) → List (PoolRequest Proc) → List (ThreadPooling Proc) → Prop
  | nil (vec : List (ThreadPooling Proc)) : Dispatched vec [] vec
  | cons {vec vec' : List (ThreadPooling Proc)} {i : Nat} {w : ThreadPooling Proc}
      {req : PoolRequest Proc} {pipe : List (PoolRequest Proc)}
      (hmin : FirstMin (loads vec) i w.mNumProcessing) (hw : vec[i]? = some w)
      (h : Dispatched (vec.set i { w with
        mListProcsReq := w.mListProcsReq ++ [req.pProc]
        mNumProcessing := w.mNumProcessing + 1 }) pipe vec') : Dispatched vec (req :: pipe) vec'

theorem poolRequestsProcess_dispatched (hne : vec ≠ []) (hp : ∀ req ∈ pipe, ¬ Desired cnt req) :
    ∃ vec', poolRequestsProcess cnt pipe vec = some vec' ∧ Dispatched vec pipe vec' := by
  induction pipe generalizing vec with
  | nil => exact ⟨vec, rfl, .nil vec⟩
  | cons req pipe ih =>
    obtain ⟨hreq, hpipe⟩ := List.forall_mem_cons.mp hp
    obtain ⟨i, a, hnext, hmin⟩ := idDriverNextGet_firstMin hne
    have hi : i < vec.length := by
      rw [← loads_length]
      exact hmin.index_lt
    have hw : vec[i]? = some vec[i] := List.getElem?_eq_getElem hi
    have ha : a = vec[i].mNumProcessing := Option.some_inj.mp (hmin.get.symm.trans (loads_get hw))
    have hne' : vec.set i (vec[i].procInternalAdd req.pProc) ≠ [] := by
      rw [ne_eq, List.set_eq_nil_iff]
      exact hne
    obtain ⟨vec', hrest, hdispatched⟩ := ih hne' hpipe
    refine ⟨vec', ?_, .cons (ha ▸ hmin) hw hdispatched⟩
    rw [poolRequestsProcess, if_neg hreq, hnext]
    simp only [Option.bind_eq_bind, Option.bind_some, hw]
    exact hrest

theorem Dispatched.level {vec' : List (ThreadPooling Proc)} (h : Dispatched vec pipe vec')
    (hl : Level (loads vec)) : Level (loads vec') := by
  induction h with
  | nil => exact hl
  | cons hmin hw h ih => exact ih (level_add hl hmin hw _)

/-- The loads count every request. -/
theorem Dispatched.sum {vec' : List (ThreadPooling Proc)} (h : Dispatched vec pipe vec') :
    (loads vec').sum = (loads vec).sum + pipe.length := by
  induction h with
  | nil => rfl
  | cons hmin hw h ih =>
    rw [ih, loads_set]
    show (List.set _ _ (_ + 1)).sum + _ = _
    rw [sum_set_succ hmin.get, List.length_cons]
    omega

/-- The next worker is the first of the least loaded ones. So requests that name no worker go one
by one to the first of the least loaded ones, and keep level loads level after each of them. -/
theorem balanced_dispatch (hne : vec ≠ []) (cnt : UInt16) (pipe : List (PoolRequest Proc)) :
    (∃ i a, idDriverNextGet vec = some i ∧ FirstMin (loads vec) i a) ∧
      ((∀ req ∈ pipe, ¬ Desired cnt req) → ∀ reqs, reqs <+: pipe →
        ∃ vec', poolRequestsProcess cnt reqs vec = some vec' ∧ Dispatched vec reqs vec' ∧
          (loads vec').sum = (loads vec).sum + reqs.length ∧
          (Level (loads vec) → Level (loads vec'))) := by
  refine ⟨idDriverNextGet_firstMin hne, ?_⟩
  intro hp reqs hpre
  obtain ⟨vec', hrun, h⟩ :=
    poolRequestsProcess_dispatched hne fun req hreq => hp req (hpre.subset hreq)
  exact ⟨vec', hrun, h, h.sum, h.level⟩

/-- Three workers, the second of which is behind the others. -/
def threeWorkers : List (ThreadPooling Nat) :=
  [{ mNumProcessing := 2 }, { mNumProcessing := 1 }, { mNumProcessing := 2 }]

/-- The first request goes to the second worker, the next one to the first. -/
theorem balanced_dispatch_three :
    (∃ i a, idDriverNextGet threeWorkers = some i ∧ FirstMin (loads threeWorkers) i a) ∧
      ∃ vec', poolRequestsProcess 3 [⟨7, -1⟩, ⟨8, 3⟩] threeWorkers = some vec' ∧
        vec'.map mListProcsReq = [[8], [7], []] ∧ Level (loads vec') := by
  have hne : threeWorkers ≠ [] := List.cons_ne_nil _ _
  obtain ⟨hnext, hdispatch⟩ := balanced_dispatch hne 3 [⟨7, -1⟩, ⟨8, 3⟩]
  obtain ⟨vec', hrun, -, -, hlevel⟩ := hdispatch (by decide) _ (List.prefix_refl _)
  refine ⟨hnext, vec', hrun, ?_, hlevel (by decide)⟩
  cases hrun
  rfl

/-! ## The pool in its threads -/

namespace Pool

open Transition

variable {s : Pool Proc}

/-- What the broker knows while it searches. -/
def SearchOk (vec : List (ThreadPooling Proc)) : BrokerPc Proc → Prop
  | .selecting _ idCurrent idSelected num => FirstMin ((loads vec).take idCurrent) idSelected num
  | .adding _ idDriver => ∃ a, FirstMin (loads vec) idDriver a
  | _ => True

structure Balanced (cnt : UInt16) (s : Pool Proc) : Prop where
  cnt_eq : s.broker.mCntInternals = cnt
  level : Level (loads s.broker.mVecInternals)
  pipe : ∀ req ∈ s.pipe, ¬ Desired cnt req
  search : SearchOk s.broker.mVecInternals s.brokerPc

/-- No process finishes, and no request names a worker. -/
def Unfinished (cnt : UInt16) (_ : Pool Proc) : Op Proc → Prop
  | .procAdd req => ¬ Desired cnt req
  | .broker => True
  | .internal _ progress => progress = true

theorem Balanced.brokerStep (h : Balanced cnt s) : Balanced cnt s.brokerStep := by
  obtain ⟨hcnt, hlevel, hpipe, hsearch⟩ := h
  unfold Pool.brokerStep
  split
  · exact ⟨hcnt, hlevel, hpipe, trivial⟩
  · split
    · exact ⟨hcnt, hlevel, hpipe, trivial⟩
    · next req pipe hreqs =>
      rw [hreqs] at hpipe
      obtain ⟨hreq, hrest⟩ := List.forall_mem_cons.mp hpipe
      rw [hcnt, if_neg hreq]
      exact ⟨hcnt, hlevel, hrest, trivial⟩
  · split
    · exact ⟨hcnt, hlevel, hpipe, hsearch⟩
    · next w hw =>
      have hfirst : FirstMin ((loads s.broker.mVecInternals).take 1) 0 w.numProcessingGet := by
        rw [loads_take_succ hw]
        exact .single _
      exact ⟨hcnt, hlevel, hpipe, hfirst⟩
  · next req idCurrent idSelected num hpc =>
    rw [hpc] at hsearch
    split
    · next hnone =>
      -- the search is through
      rw [List.getElem?_eq_none_iff, ← loads_length] at hnone
      have hmin : FirstMin ((loads s.broker.mVecInternals).take idCurrent) idSelected num := hsearch
      rw [List.take_of_length_le hnone] at hmin
      exact ⟨hcnt, hlevel, hpipe, num, hmin⟩
    · next w hw =>
      split
      · next hle => exact ⟨hcnt, hlevel, hpipe, firstMin_pass hw hsearch hle⟩
      · next hgt => exact ⟨hcnt, hlevel, hpipe, firstMin_select hw hsearch hgt⟩
  · next req idDriver hpc =>
    split
    · exact ⟨hcnt, hlevel, hpipe, hsearch⟩
    · next w hw =>
      rw [hpc] at hsearch
      obtain ⟨a, hmin⟩ := hsearch
      exact ⟨hcnt, level_add hlevel hmin hw req.pProc, hpipe, trivial⟩

/-- A worker that counts as many processes as before. -/
theorem Balanced.setInternal {w w' : ThreadPooling Proc} (h : Balanced cnt s)
    (hw : s.broker.mVecInternals[i]? = some w) (hnum : w'.numProcessingGet = w.numProcessingGet) :
    Balanced cnt (s.setInternal i w') := by
  have hsame : loads (s.broker.mVecInternals.set i w') = loads s.broker.mVecInternals := by
    obtain ⟨hi, hget⟩ := List.getElem?_eq_some_iff.mp (loads_get hw)
    rw [loads_set, hnum, ← hget]
    exact List.set_getElem_self hi
  refine ⟨h.cnt_eq, ?_, h.pipe, ?_⟩
  · show Level (loads (s.broker.mVecInternals.set i w'))
    rw [hsame]
    exact h.level
  · have hsearch := h.search
    show SearchOk (s.broker.mVecInternals.set i w') s.brokerPc
    cases hpc : s.brokerPc with
    | idle | requests | nextGet => trivial
    | selecting req idCurrent idSelected num =>
      rw [hpc] at hsearch
      unfold SearchOk
      rw [hsame]
      exact hsearch
    | adding req idDriver =>
      rw [hpc] at hsearch
      unfold SearchOk
      rw [hsame]
      exact hsearch

theorem Balanced.internalStep (h : Balanced cnt s) (i : Nat) :
    Balanced cnt (s.internalStep i true) := by
  unfold Pool.internalStep
  split
  · exact h
  · next w hw =>
    split
    · have hset : Balanced cnt (s.setInternal i w.procsReqSplice) := h.setInternal hw rfl
      exact ⟨hset.cnt_eq, hset.level, hset.pipe, hset.search⟩
    · split
      · exact ⟨h.cnt_eq, h.level, h.pipe, h.search⟩
      · exact ⟨h.cnt_eq, h.level, h.pipe, h.search⟩
    · next iter _ =>
      have hset : Balanced cnt (s.setInternal i (w.procErase iter)) := h.setInternal hw rfl
      exact ⟨hset.cnt_eq, hset.level, hset.pipe, hset.search⟩

/-- In every order of the steps of all threads, the loads stay level while no process finishes
and no request names a worker. -/
theorem balanced_run (h : Reachable
    (fun s => s.broker.mCntInternals = cnt ∧ s.brokerPc = .idle ∧
      Level (loads s.broker.mVecInternals) ∧ ∀ req ∈ s.pipe, ¬ Desired cnt req)
    (guarded (Unfinished cnt) (ofFun step)) s) : Level (loads s.broker.mVecInternals) := by
  suffices hb : Balanced cnt s from hb.level
  refine h.invariant ?_ ?_
  · rintro s ⟨hcnt, hpc, hlevel, hpipe⟩
    refine ⟨hcnt, hlevel, hpipe, ?_⟩
    rw [hpc]
    trivial
  · rintro s op t hs ⟨hok, rfl⟩
    cases op with
    | procAdd req =>
      refine ⟨hs.cnt_eq, hs.level, ?_, hs.search⟩
      intro r hr
      rcases List.mem_append.mp hr with hr | hr
      · exact hs.pipe r hr
      · rw [List.mem_singleton.mp hr]
        exact hok
    | broker => exact hs.brokerStep
    | internal i progress =>
      cases hok
      exact hs.internalStep i

end Pool

end ThreadPooling

end ProcessingCommon

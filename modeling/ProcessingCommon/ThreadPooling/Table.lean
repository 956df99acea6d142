import ProcessingCommon.Lib.Transition
import ProcessingCommon.ThreadPooling.Model

/-!
# Accesses to the table of workers

When `mVecInternals` is read inside its size: the loops of a tick one by one, then a broker
whose count may be set at any time, with workers that may not be created and with any requests.
-/

namespace ProcessingCommon

namespace ThreadPooling

variable {Proc : Type} {vec vec' : List (ThreadPooling Proc)} {p p' : ThreadPooling Proc}
  {cnt : UInt16} {req : PoolRequest Proc} {pipe : List (PoolRequest Proc)}

/-! ## The loops -/

theorem selectLoop_lt {n idCurrent idSelected num : Nat} (hs : idSelected < vec.length)
    (hn : idCurrent + n ≤ vec.length) :
    ∃ id < vec.length, selectLoop vec n idCurrent idSelected num = some id := by
  induction n generalizing idCurrent idSelected num with
  | zero => exact ⟨idSelected, hs, rfl⟩
  | succ n ih =>
    have hc : idCurrent < vec.length := by omega
    simp only [selectLoop, List.getElem?_eq_getElem hc, Option.bind_eq_bind, Option.bind_some]
    split
    · exact ih hs (by omega)
    · exact ih hc (by omega)

/-- A table that is not empty has a next worker. -/
theorem idDriverNextGet_lt (h : vec ≠ []) :
    ∃ id < vec.length, idDriverNextGet vec = some id := by
  have hpos : 0 < vec.length := List.length_pos_iff.mpr h
  simp only [idDriverNextGet, List.getElem?_eq_getElem hpos, Option.bind_eq_bind, Option.bind_some]
  exact selectLoop_lt hpos (by omega)

/-- Only a desired id can lead out of the table. -/
theorem poolRequestsProcess_isSome (h : vec ≠ []) :
    (poolRequestsProcess cnt pipe vec).isSome ↔
      ∀ req ∈ pipe, Desired cnt req → req.idDriverDesired < vec.length := by
  induction pipe generalizing vec with
  | nil => simp [poolRequestsProcess]
  | cons req pipe ih =>
    have hrest : ∀ {id : Nat}, id < vec.length →
        ((vec[id]?.bind fun w =>
          poolRequestsProcess cnt pipe (vec.set id (w.procInternalAdd req.pProc))).isSome ↔
        ∀ req ∈ pipe, Desired cnt req → req.idDriverDesired < vec.length) := by
      intro id hid
      rw [List.getElem?_eq_getElem hid, Option.bind_some, ih, List.length_set]
      simpa using h
    rw [poolRequestsProcess, List.forall_mem_cons]
    split
    · next hd =>
      obtain ⟨id, hid⟩ := Int.eq_ofNat_of_zero_le hd.1
      simp only [Option.bind_eq_bind, Option.bind_some, hid, Int.toNat_natCast, Int.ofNat_lt]
      by_cases hlt : id < vec.length
      · simp only [hrest hlt, hlt, implies_true, true_and]
      · simp only [List.getElem?_eq_none (Nat.le_of_not_lt hlt), Option.bind_none, hlt, hd,
          Option.isSome_none, Bool.false_eq_true, imp_false, not_true_eq_false, false_and]
    · next hd =>
      obtain ⟨id, hid, hnext⟩ := idDriverNextGet_lt h
      simp only [Option.bind_eq_bind, hnext, Option.bind_some, hrest hid, hd, false_implies,
        true_and]

theorem poolRequestsProcess_length (h : poolRequestsProcess cnt pipe vec = some vec') :
    vec'.length = vec.length := by
  induction pipe generalizing vec with
  | nil =>
    cases h
    rfl
  | cons req pipe ih =>
    rw [poolRequestsProcess] at h
    simp only [Option.bind_eq_bind, Option.bind_eq_some_iff] at h
    obtain ⟨id, -, w, -, hrest⟩ := h
    rw [ih hrest, List.length_set]

theorem cancelLoop_isSome {n i : Nat} (hi : i ≤ vec.length) :
    (cancelLoop vec n i).isSome ↔ i + n ≤ vec.length := by
  induction n generalizing i with
  | zero => simp [cancelLoop, hi]
  | succ n ih =>
    rcases Nat.lt_or_eq_of_le hi with hlt | rfl
    · simp only [cancelLoop, List.getElem?_eq_getElem hlt, Option.bind_eq_bind, Option.bind_some,
        ih (Nat.succ_le_of_lt hlt)]
      omega
    · simp [cancelLoop]

/-- The loop ends at the first worker that has not shut down. -/
theorem doneLoop_isSome {done : Nat → Bool} {n i : Nat} (hi : i ≤ vec.length) :
    (doneLoop done vec n i).isSome ↔
      i + n ≤ vec.length ∨ ∃ j, i ≤ j ∧ j < vec.length ∧ done j = false := by
  induction n generalizing i with
  | zero => simp [doneLoop, hi]
  | succ n ih =>
    rcases Nat.lt_or_eq_of_le hi with hlt | rfl
    · simp only [doneLoop, List.getElem?_eq_getElem hlt, Option.bind_eq_bind, Option.bind_some]
      split
      · next hd =>
        rw [ih (Nat.succ_le_of_lt hlt)]
        constructor
        · rintro (hle | ⟨j, hj, hjl, hjd⟩)
          · exact .inl (by omega)
          · exact .inr ⟨j, by omega, hjl, hjd⟩
        · rintro (hle | ⟨j, hj, hjl, hjd⟩)
          · exact .inl (by omega)
          · have hne : j ≠ i := by
              rintro rfl
              rw [hd] at hjd
              cases hjd
            exact .inr ⟨j, by omega, hjl, hjd⟩
      · next hd => simpa using .inr ⟨i, Nat.le_refl i, hlt, by simpa using hd⟩
    · have hno : ¬ ∃ j, vec.length ≤ j ∧ j < vec.length ∧ done j = false := by
        rintro ⟨j, hj, hjl, -⟩
        omega
      simp [doneLoop, hno]

/-! ## The broker -/

/-- A broker with the pipe, and whether `process()` is over: by its result or cancelled. -/
structure System (Proc : Type) where
  pool : ThreadPooling Proc := {}
  pipe : List (PoolRequest Proc) := []
  down : Bool := false

inductive Op (Proc : Type)
  | workerCntSet (cnt : UInt16)
  | procAdd (req : PoolRequest Proc)
  | internal (i : Nat) (progress : Nat → Bool)
  | tick (creation : Nat → Creation) (progress : Nat → Bool)
  | cancel
  | shutdown (shutdownDone progress : Nat → Bool)

/-- Worker `i` is ticked by a driver of its own. -/
def step (s : System Proc) : Op Proc → Option (System Proc)
  | .workerCntSet cnt => some { s with pool := s.pool.workerCntSet cnt }
  | .procAdd req => some { s with pipe := s.pipe ++ [req] }
  | .internal i progress =>
    some { s with pool := { s.pool with
      mVecInternals := s.pool.mVecInternals.modify i fun w => (w.procsDrive progress).1 } }
  | .tick creation progress =>
    if s.down then some s
    else (s.pool.process creation progress s.pipe).map fun t =>
      ⟨t.pool, t.pipe, decide (t.success ≠ .pending)⟩
  | .cancel => some { s with down := true }
  | .shutdown shutdownDone progress =>
    if s.down then (s.pool.shutdown shutdownDone progress s.pipe).map fun t => ⟨t.pool, t.pipe, true⟩
    else some s

/-- The condition on the configured count, the size of the table and the requests. -/
def InRange (s : System Proc) : Op Proc → Prop
  | .tick _ _ => s.down = false → s.pool.mState = .stBrokerMain →
    ∀ req ∈ s.pipe, Desired s.pool.mCntInternals req →
      req.idDriverDesired < s.pool.mVecInternals.length
  | .shutdown shutdownDone _ => s.down = true →
    s.pool.mCntInternals.toNat ≤ s.pool.mVecInternals.length ∨
      s.pool.mStateSd = .stBrokerSdStart ∧
        ∃ i < s.pool.mVecInternals.length, shutdownDone i = false
  | _ => True

/-- What a broker is between two calls. -/
structure IsBroker (p : ThreadPooling Proc) : Prop where
  mIsInternal : p.mIsInternal = false
  mState : p.mState = .stStart ∨ p.mState = .stBrokerStart ∨
    p.mState = .stBrokerMain ∧ p.mVecInternals ≠ []
  mStateSd : p.mStateSd = .stSdStart ∨ p.mStateSd = .stBrokerSdStart

/-- The first pass of the loop runs whenever the count is not zero. -/
theorem createLoop_isBroker {creation : Nat → Creation} {fuel i : Nat} (h : IsBroker p)
    (hi : i < p.mCntInternals.toNat ∨ p.mVecInternals ≠ []) :
    IsBroker (createLoop creation fuel i p).2 := by
  induction fuel generalizing i p with
  | zero => exact h
  | succ fuel ih =>
    rw [createLoop]
    split
    · split
      · exact h
      · have hvec : p.mVecInternals ++ [({ mIsInternal := true } : ThreadPooling Proc)] ≠ [] := by
          simp
        exact ih ⟨h.mIsInternal, h.mState.imp_right (Or.imp_right fun hm => ⟨hm.1, hvec⟩),
          h.mStateSd⟩ (.inr hvec)
    · next hno => exact ⟨h.mIsInternal, .inr (.inr ⟨rfl, hi.resolve_left hno⟩), h.mStateSd⟩

theorem process_isBroker {creation : Nat → Creation} {progress : Nat → Bool} {t : Tick Proc}
    (h : IsBroker p) (ht : p.process creation progress pipe = some t) : IsBroker t.pool := by
  unfold process at ht
  rcases h.mState with hst | hst | ⟨hst, hvec⟩ <;> simp only [hst] at ht
  · rw [h.mIsInternal] at ht
    cases ht
    exact ⟨rfl, .inr (.inl rfl), h.mStateSd⟩
  · split at ht
    · cases ht
      exact h
    · next hcnt =>
      cases ht
      have hpos : 0 < p.mCntInternals.toNat :=
        Nat.pos_of_ne_zero fun hz => hcnt (UInt16.toNat_inj.mp hz)
      exact createLoop_isBroker h (.inl hpos)
  · simp only [Option.bind_eq_bind, Option.bind_eq_some_iff] at ht
    obtain ⟨vec, hreq, ht⟩ := ht
    cases ht
    have hlen := poolRequestsProcess_length hreq
    refine ⟨h.mIsInternal, .inr (.inr ⟨rfl, fun hnil => hvec ?_⟩), h.mStateSd⟩
    rw [show vec = [] from hnil] at hlen
    exact List.length_eq_zero_iff.mp hlen.symm

theorem process_isSome {creation : Nat → Creation} {progress : Nat → Bool} (h : IsBroker p) :
    (p.process creation progress pipe).isSome ↔
      (p.mState = .stBrokerMain → ∀ req ∈ pipe, Desired p.mCntInternals req →
        req.idDriverDesired < p.mVecInternals.length) := by
  unfold process
  rcases h.mState with hst | hst | ⟨hst, hvec⟩ <;> simp only [hst]
  · simp [h.mIsInternal]
  · split <;> simp
  · simp only [Option.bind_eq_bind, Option.isSome_bind, true_implies,
      ← poolRequestsProcess_isSome hvec]
    cases poolRequestsProcess p.mCntInternals pipe p.mVecInternals <;> simp

theorem shutdown_isBroker {done progress : Nat → Bool} {t : Tick Proc} (h : IsBroker p)
    (ht : p.shutdown done progress pipe = some t) : IsBroker t.pool := by
  unfold shutdown at ht
  rcases h.mStateSd with hst | hst <;> simp only [hst] at ht
  · simp only [h.mIsInternal, Bool.false_eq_true, if_false, Option.bind_eq_bind,
      Option.bind_eq_some_iff] at ht
    obtain ⟨_, -, ht⟩ := ht
    cases ht
    exact ⟨rfl, h.mState, .inr rfl⟩
  · simp only [Option.bind_eq_bind, Option.bind_eq_some_iff] at ht
    obtain ⟨_, -, ht⟩ := ht
    cases ht
    exact h

theorem shutdown_isSome {done progress : Nat → Bool} (h : IsBroker p) :
    (p.shutdown done progress pipe).isSome ↔
      p.mCntInternals.toNat ≤ p.mVecInternals.length ∨
        p.mStateSd = .stBrokerSdStart ∧ ∃ i < p.mVecInternals.length, done i = false := by
  unfold shutdown
  rcases h.mStateSd with hst | hst <;> simp only [hst]
  · have hloop : (cancelLoop p.mVecInternals p.mCntInternals.toNat 0).isSome ↔ _ :=
      cancelLoop_isSome (Nat.zero_le _)
    rw [Nat.zero_add] at hloop
    simp only [h.mIsInternal, ← hloop]
    cases cancelLoop p.mVecInternals p.mCntInternals.toNat 0 <;> simp
  · have hloop : (doneLoop done p.mVecInternals p.mCntInternals.toNat 0).isSome ↔ _ :=
      doneLoop_isSome (Nat.zero_le _)
    simp only [Nat.zero_add, Nat.zero_le, true_and] at hloop
    simp only [true_and, ← hloop]
    cases doneLoop done p.mVecInternals p.mCntInternals.toNat 0 <;> simp

theorem step_isBroker {s t : System Proc} {op : Op Proc} (h : IsBroker s.pool)
    (hs : step s op = some t) : IsBroker t.pool := by
  cases op with
  | workerCntSet cnt =>
    cases hs
    exact ⟨h.mIsInternal, h.mState, h.mStateSd⟩
  | procAdd req =>
    cases hs
    exact h
  | internal i progress =>
    cases hs
    have hvec : ∀ {f : ThreadPooling Proc → ThreadPooling Proc}, s.pool.mVecInternals ≠ [] →
        s.pool.mVecInternals.modify i f ≠ [] := by simp
    exact ⟨h.mIsInternal, h.mState.imp_right (Or.imp_right fun hm => ⟨hm.1, hvec hm.2⟩),
      h.mStateSd⟩
  | tick creation progress =>
    simp only [step] at hs
    split at hs
    · cases hs
      exact h
    · obtain ⟨r, hr, rfl⟩ := Option.map_eq_some_iff.mp hs
      exact process_isBroker h hr
  | cancel =>
    cases hs
    exact h
  | shutdown done progress =>
    simp only [step] at hs
    split at hs
    · obtain ⟨r, hr, rfl⟩ := Option.map_eq_some_iff.mp hs
      exact shutdown_isBroker h hr
    · cases hs
      exact h

theorem step_isSome {s : System Proc} {op : Op Proc} (h : IsBroker s.pool) :
    (step s op).isSome ↔ InRange s op := by
  cases op with
  | tick creation progress =>
    simp only [step, InRange]
    split
    · next hd => simp [hd]
    · next hd => simp only [Option.isSome_map, process_isSome h, Bool.not_eq_true _ ▸ hd,
        true_implies]
  | shutdown done progress =>
    simp only [step, InRange]
    split
    · next hd => simp only [Option.isSome_map, shutdown_isSome h, hd, true_implies]
    · next hd => simp [hd]
  | _ => simp [step, InRange]

/-- The accesses of a run are all in range if and only if its steps are: no request in the pipe
desires an id between the size of the table and the count when the broker takes it, and no
`shutdown()` goes through more workers than there are. -/
theorem accesses_inRange (pipe : List (PoolRequest Proc)) (ops : List (Op Proc)) :
    (Transition.run step { pipe := pipe } ops).isSome ↔
      Transition.AllOk InRange step { pipe := pipe } ops :=
  Transition.run_isSome_iff (P := fun s : System Proc => IsBroker s.pool)
    (fun _ _ h => step_isSome h) (fun _ _ _ h => step_isBroker h)
    ⟨rfl, .inl rfl, .inl rfl⟩ ops

/-- Runs with an access outside the table: the broker is cancelled before it has made its one
worker; the second of two workers cannot be created; the count is raised after the start, and
a request desires one of the ids that are new. -/
theorem accesses_inRange_fails :
    Transition.run step ({} : System Nat)
        [.cancel, .shutdown (fun _ => true) fun _ => true] = none ∧
      Transition.run step ({} : System Nat)
        [.workerCntSet 2, .tick (fun _ => .failed) fun _ => true,
          .tick (fun i => if i = 0 then .created none else .failed) fun _ => true,
          .shutdown (fun _ => true) fun _ => true] = none ∧
      Transition.run step ({} : System Nat)
        [.tick (fun _ => .created none) fun _ => true,
          .tick (fun _ => .created none) fun _ => true, .workerCntSet 2, .procAdd ⟨0, 1⟩,
          .tick (fun _ => .created none) fun _ => true] = none := by
  refine ⟨rfl, rfl, rfl⟩

end ThreadPooling

end ProcessingCommon

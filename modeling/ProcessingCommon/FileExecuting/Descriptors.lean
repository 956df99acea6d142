import ProcessingCommon.FileExecuting.Frame
import ProcessingCommon.Lib.Ledger
import ProcessingCommon.Lib.Transition

/-!
# The descriptors of a command

The calls on descriptors as a ledger. Every call may fail, and the descriptors that
the user has handed over are not the command's: calls on them are left out, and
`pipe()` and `open()`, which are made while those are still open, return others.

The six variables of the three nodes are the books of the ledger (`Inv`). A failing
state may leave any of them filled, so nothing is said about which; `shutdown()`
closes what they hold. `descriptors_closed` is about every run of ticks, in which
`process()` and the cancellation come at any time, before `shutdown()`.
-/

namespace ProcessingCommon

/-- The states in which no pipe has been created yet. -/
def ProcState.early : ProcState → Bool
  | .stStart | .stInternalStart | .stPipesCreate => true
  | _ => false

namespace FileExecuting

open Ledger
open Program (wp Exec rounds each)

abbrev Trace := List (Event Int)

section

variable (user : List Int)

/-- A descriptor that the system may return. -/
def Fresh (tr : Trace) (fd : Int) : Prop :=
  0 ≤ fd ∧ fd ∉ user ∧ fd ∉ heldAfter [] tr

/-- Calls on the descriptors of the user are left out. -/
def entry (tr : Trace) (fd : Int) (e : Event Int) : Trace :=
  if fd ∈ user then tr else tr ++ [e]

/-- What the system does. All calls may fail. -/
def env (tr : Trace) : (k : Call) → Answer k → Trace → Prop
  | .pipe _, r, tr' =>
    match r with
    | none => tr' = tr
    | some p =>
      Fresh user tr p.fdRead ∧ Fresh user tr p.fdWrite ∧ p.fdRead ≠ p.fdWrite ∧
        tr' = tr ++ [.acquire p.fdRead] ++ [.acquire p.fdWrite]
  | .openNull _, r, tr' =>
    match r with
    | none => tr' = tr
    | some fd => Fresh user tr fd ∧ tr' = tr ++ [.acquire fd]
  | .fcntl fd, _, tr' => tr' = entry user tr fd (.use fd)
  | .read fd _, _, tr' => tr' = entry user tr fd (.use fd)
  | .write fd _, _, tr' => tr' = entry user tr fd (.use fd)
  | .close fd, _, tr' => tr' = entry user tr fd (.release fd)
  | _, _, tr' => tr' = tr

/-- The variable `fd` of one end of a pipe: empty while it is negative. -/
def slot (fe : FileExecuting) (k : NodeSel × PipeEnd) : Option Int :=
  if fe.fd k.1 k.2 < 0 then none else some (fe.fd k.1 k.2)

/-- What the members keep that are called in state `st`; with `b` nothing is open yet. -/
structure Inv (st : ProcState) (b : Bool) (fe : FileExecuting) (tr : Trace) : Prop where
  books : Books fe.slot tr
  foreign : ∀ fd ∈ user, fd ∉ heldAfter [] tr
  state : fe.mState = st
  unopened : b = true → ∀ k, fe.slot k = none

/-- The descriptors in the list of an active node. -/
def UserFds (fe : FileExecuting) (n : NodeSel) : Prop :=
  (fe.node n).autoDone = false → ∀ f ∈ (fe.node n).lstFds, f.fd ∈ user

def Kept (st : ProcState) (b : Bool) (fe : FileExecuting) (tr : Trace) : Prop :=
  Inv user st b fe tr ∧ ∀ n, UserFds user fe n

/-- What a tick of `process()` keeps. As long as it reports `pending`, nothing is open
in the states before the pipes. -/
def Ticked (res : Success) (fe : FileExecuting) (tr : Trace) : Prop :=
  Kept user fe.mState (decide (res = .pending) && fe.mState.early) fe tr

end

variable {user : List Int} {st : ProcState} {b : Bool} {fe fe' : FileExecuting} {tr tr' : Trace}
  {n : NodeSel} {e : PipeEnd}

/-! ## Single calls -/

theorem slot_setFd (fd : Int) :
    (fe.setFd n e fd).slot = Function.update fe.slot (n, e) (if fd < 0 then none else some fd) := by
  funext ⟨n', e'⟩
  by_cases hk : (n', e') = (n, e)
  · obtain ⟨rfl, rfl⟩ := Prod.mk.inj hk
    simp [slot]
  · rw [Function.update_of_ne hk]
    have hk' : ¬(n' = n ∧ e' = e) := fun h => hk (by rw [h.1, h.2])
    simp [slot, hk']

theorem slot_of_nonneg (h : ¬fe.fd n e < 0) : fe.slot (n, e) = some (fe.fd n e) := if_neg h

theorem UserFds.setFd {n' : NodeSel} (h : UserFds user fe n') (fd : Int) :
    UserFds user (fe.setFd n e fd) n' := by
  cases n <;> cases n' <;> exact h

theorem slot_congr (h : ∀ n e, fe'.fd n e = fe.fd n e) : fe'.slot = fe.slot := by
  funext k
  simp only [slot, h]

/-- The members that are no part of the books. -/
theorem Inv.congr (h : Inv user st b fe tr) (hs : fe'.mState = fe.mState)
    (hslot : fe'.slot = fe.slot) : Inv user st b fe' tr :=
  { books := hslot ▸ h.books, foreign := h.foreign, state := hs.trans h.state
    unopened := fun hb => hslot ▸ h.unopened hb }

theorem Kept.congr (h : Kept user st b fe tr) (hs : fe'.mState = fe.mState)
    (hn : ∀ n, fe'.node n = fe.node n) : Kept user st b fe' tr := by
  refine ⟨h.1.congr hs (slot_congr fun n e => by rw [fd, fd, hn]), fun n => ?_⟩
  rw [UserFds, hn]
  exact h.2 n

theorem Inv.notMem_user (h : Inv user st b fe tr) (hfd : ¬fe.fd n e < 0) : fe.fd n e ∉ user :=
  fun hu => h.foreign _ hu (h.books.mem (slot_of_nonneg hfd))

/-- A call that only uses a descriptor of the command. -/
theorem Inv.use (h : Inv user st b fe tr) (hfd : ¬fe.fd n e < 0) :
    Inv user st b fe (entry user tr (fe.fd n e) (.use (fe.fd n e))) := by
  rw [entry, if_neg (h.notMem_user hfd)]
  refine { h with books := h.books.use (slot_of_nonneg hfd), foreign := fun fd hu => ?_ }
  rw [heldAfter_append]
  exact h.foreign fd hu

/-- A descriptor of the command is closed and its variable reset. -/
theorem Inv.close (h : Inv user st b fe tr) (hfd : ¬fe.fd n e < 0) :
    Inv user st b (fe.setFd n e (-1)) (entry user tr (fe.fd n e) (.release (fe.fd n e))) := by
  have hslot : (fe.setFd n e (-1)).slot = Function.update fe.slot (n, e) none := slot_setFd _
  rw [entry, if_neg (h.notMem_user hfd)]
  refine { books := hslot ▸ h.books.release (slot_of_nonneg hfd), foreign := fun fd hu hm => ?_
           state := (setNode_mState ..).trans h.state, unopened := fun hb k => ?_ }
  · rw [heldAfter_append] at hm
    exact h.foreign fd hu (List.mem_of_mem_erase hm)
  · rw [hslot, Function.update_apply]
    split
    · rfl
    · exact h.unopened hb k

/-- A call on a descriptor of the user. -/
theorem entry_user {fd : Int} (h : fd ∈ user) (ev : Event Int) : entry user tr fd ev = tr :=
  if_pos h

theorem wp_fdClose {Q : Int → FileExecuting → Trace → Prop} {fd : Int}
    (h : if fd < 0 then Q fd fe tr else Q (-1) fe (entry user tr fd (.release fd))) :
    wp (env user) (fdClose fd) Q fe tr := by
  simpa [fdClose, env] using h

theorem fdCloseAt_inv (h : Inv user st b fe tr) (n : NodeSel) (e : PipeEnd) :
    wp (env user) (fdCloseAt n e) (fun _ fe' tr' => Inv user st b fe' tr' ∧ fe'.fd n e < 0 ∧
      ∃ fd, fe' = fe.setFd n e fd) fe tr := by
  refine wp_fdCloseAt (fun hfd => ⟨h, hfd, _, (setFd_self n e).symm⟩) ?_
  rintro hfd _ _ rfl
  exact ⟨h.close hfd, by simp, _, rfl⟩

theorem fdCloseAt_kept (h : Kept user st b fe tr) (n : NodeSel) (e : PipeEnd) :
    wp (env user) (fdCloseAt n e) (fun _ => Kept user st b) fe tr := by
  refine Program.wp_mono (fdCloseAt_inv h.1 n e) fun _ fe' tr' hc => ?_
  obtain ⟨hi, -, fd, rfl⟩ := hc
  exact ⟨hi, fun n' => (h.2 n').setFd fd⟩

/-! ## Sending and reading -/

theorem stdinKept : StdinKept (env user) (Kept user st b) where
  write := by
    rintro fe tr _ d r h hfd rfl
    exact ⟨h.1.use hfd, h.2⟩
  close := by
    rintro fe tr _ r h hfd rfl
    exact ⟨h.1.close hfd, fun n => (h.2 n).setFd (-1)⟩

theorem intSinkRead_kept (h : Kept user st b fe tr) (n : NodeSel) (lenReq : Nat) :
    wp (env user) (intSinkRead n lenReq) (fun _ => Kept user st b) fe tr := by
  simp only [intSinkRead, Program.wp_ite, Program.wp_bind, Program.wp_get, Program.wp_pure,
    Program.wp_perform]
  split
  · exact h
  split
  · exact h
  split
  · exact h
  next hfd =>
  intro r tr' htr
  obtain rfl : tr' = entry user tr (fe.fd n .fdRead) (.use _) := htr
  have hu : Kept user st b fe (entry user tr (fe.fd n .fdRead) (.use _)) := ⟨h.1.use hfd, h.2⟩
  have hclose : ∀ res : Int × Bytes, wp (env user) (do fdCloseAt n .fdRead; pure res)
      (fun _ => Kept user st b) fe (entry user tr (fe.fd n .fdRead) (.use _)) :=
    fun res => Program.wp_result (fdCloseAt_kept hu _ _) _
  cases r with
  | data d =>
    cases d with
    | nil => exact hclose _
    | cons b d => exact hu
  | error => exact hclose _
  | eagain =>
    simp only [Program.wp_ite, Program.wp_bind, Program.wp_get, Program.wp_pure]
    split
    · exact hu
    · simpa only [Program.wp_bind, Program.wp_pure] using hclose (-4, [])

theorem sinkRead_kept (h : Kept user st b fe tr) (n : NodeSel) (lenReq : Nat) :
    wp (env user) (sinkRead n lenReq) (fun _ => Kept user st b) fe tr := by
  simp only [sinkRead, Program.wp_ite, Program.wp_bind, Program.wp_get, Program.wp_pure]
  split
  · exact h
  split
  · exact h
  exact intSinkRead_kept h n lenReq

/-! ## Sources -/

/-- Afterwards the source is done, so its list counts no longer. -/
theorem autoSourceDone_kept (h : Inv user st b fe tr) (hu : ∀ n, n ≠ .nodeIn → UserFds user fe n) :
    wp (env user) autoSourceDone (fun _ => Kept user st b) fe tr := by
  simp only [autoSourceDone, Program.wp_ite, Program.wp_bind, Program.wp_get, Program.wp_pure]
  split
  · next hdone =>
    refine ⟨h, fun n => ?_⟩
    by_cases hn : n = .nodeIn
    · subst hn
      intro hf
      rw [show (fe.node .nodeIn).autoDone = true from hdone] at hf
      cases hf
    · exact hu n hn
  · refine Program.wp_mono (fdCloseAt_inv h .nodeIn .fdWrite) fun _ fe' tr' hc => ?_
    obtain ⟨hi, -, fd, rfl⟩ := hc
    refine ⟨hi.congr rfl (slot_congr fun n e => by cases n <;> rfl), fun n => ?_⟩
    cases n with
    | nodeIn =>
      intro hf
      cases hf
    | nodeOut => exact hu .nodeOut (by decide)
    | nodeErr => exact hu .nodeErr (by decide)

/-- Changes of a node that leave its pipe. -/
theorem Kept.setNode (h : Kept user st b fe tr) {v : FeNode} (hp : v.pipe = (fe.node n).pipe)
    (hv : v.autoDone = false → ∀ f ∈ v.lstFds, f.fd ∈ user) : Kept user st b (fe.setNode n v) tr := by
  refine ⟨h.1.congr (setNode_mState ..) (slot_congr fun n' e' => fd_setNode _ _ _ _ _ hp),
    fun n' => ?_⟩
  rw [UserFds, node_setNode]
  split
  · exact hv
  · exact h.2 n'

/-- The variable of a descriptor of the user, whatever it holds afterwards. -/
theorem wp_fdClose_user {Q : Int → FileExecuting → Trace → Prop} {fd : Int} (hu : fd ∈ user)
    (h : ∀ fd', Q fd' fe tr) : wp (env user) (fdClose fd) Q fe tr := by
  refine wp_fdClose ?_
  rw [entry_user hu]
  split
  · exact h fd
  · exact h (-1)

theorem autoSourceFdDone_kept (h : Kept user st b fe tr) {pFd : FeFileDescSetting}
    (hu : pFd.fd ∈ user) :
    wp (env user) (autoSourceFdDone pFd) (fun _ => Kept user st b) fe tr := by
  simp only [autoSourceFdDone, Program.wp_ite, Program.wp_bind]
  split
  · refine wp_fdClose_user hu fun fd => ?_
    -- the list holds another descriptor until the source is done
    refine autoSourceDone_kept (h.1.congr (setNode_mState ..) (slot_congr fun n e => ?_))
      fun n hn => ?_
    · exact fd_setNode _ _ _ _ _ rfl
    · rw [UserFds, node_setNode, if_neg hn]
      exact h.2 n
  · exact autoSourceDone_kept h.1 fun n _ => h.2 n

theorem sourceKept : SourceKept (env user) (Kept user st b) (· ∈ user) where
  toStdinKept := stdinKept
  done := fun {fe tr} h => by
    have h' : Kept user st b (fe.setNode .nodeIn { fe.mNodeIn with autoDone := true }) tr :=
      h.setNode rfl fun hf => nomatch hf
    exact h'.congr rfl fun n => by cases n <;> rfl
  progress _ h := h.setNode (n := .nodeIn) rfl (h.2 .nodeIn)
  files h := h.2 .nodeIn
  read := by
    rintro fe tr _ fd len r h hu rfl
    rwa [entry_user hu]
  fdDone h hu := autoSourceFdDone_kept h hu
  transRead := by
    rintro fe tr _ t len r h rfl
    exact h

/-! ## Sinks -/

theorem autoSinkBuffers_kept (h : Kept user st b fe tr) (buf : Bytes) (l : List FeNodeBuffer) :
    wp (env user) (autoSinkBuffers buf l) (fun _ => Kept user st b) fe tr := by
  induction l generalizing fe tr with
  | nil => exact h
  | cons b bs ih =>
    rw [autoSinkBuffers]
    split
    · exact Program.wp_seq (ih h) fun _ _ _ h => h
    · simp only [Program.wp_ite, Program.wp_bind, Program.wp_pure, Program.wp_perform]
      split
      · exact ih h
      intro _ tr' htr
      obtain rfl : tr' = tr := htr
      split
      · exact h
      · exact ih h

/-- All of them are the user's. -/
theorem autoSinkFdsClose_kept (h : Kept user st b fe tr) (l : List FeFileDescSetting)
    (hu : ∀ f ∈ l, f.fd ∈ user) :
    wp (env user) (autoSinkFdsClose l) (fun _ => Kept user st b) fe tr := by
  induction l with
  | nil => exact h
  | cons f fs ih =>
    have hrest := fun fd => Program.wp_result (ih fun g hg => hu g (List.mem_cons_of_mem _ hg))
      fun fs' => { f with fd := fd } :: fs'
    simp only [autoSinkFdsClose, Program.wp_ite, Program.wp_bind, Program.wp_pure]
    split
    · exact wp_fdClose_user (hu f List.mem_cons_self) hrest
    · simpa only [Program.wp_bind] using hrest f.fd

theorem autoSinkFinish_kept (h : Kept user st b fe tr) (n : NodeSel)
    (hdone : (fe.node n).autoDone = false) :
    wp (env user) (autoSinkFinish n) (fun _ => Kept user st b) fe tr := by
  simp only [autoSinkFinish, Program.wp_bind, Program.wp_get]
  refine Program.wp_mono (autoSinkFdsClose_kept h _ (h.2 n hdone)) fun lstFds fe tr h => ?_
  simp only [Program.wp_bind, Program.wp_get]
  refine Program.wp_mono (Program.wp_each (fun _ => Kept user st b) ?_ h) fun _ fe tr h => ?_
  · exact fun t ts fe tr _ hk r tr' htr => htr ▸ hk
  · exact h.setNode rfl fun hf => nomatch hf

theorem autoSinkOthers_kept (h : Kept user st b fe tr) (n : NodeSel) (buf : Bytes)
    (hdone : (fe.node n).autoDone = false) :
    wp (env user) (autoSinkOthers n buf) (fun _ => Kept user st b) fe tr := by
  rw [autoSinkOthers, Program.wp_bind, Program.wp_get]
  refine Program.wp_seq (Program.wp_each (fun _ => Kept user st b) ?_ h) fun _ fe₁ tr₁ h₁ => ?_
  · exact fun _ _ _ _ _ hk _ _ htr => htr ▸ hk
  refine Program.wp_seq (Program.wp_each (fun _ => Kept user st b) ?_ h₁) fun _ fe₂ tr₂ h₂ => ?_
  · intro f _ fe₁ tr₁ hf hk _ tr' htr
    obtain rfl : tr' = entry user tr₁ f.fd (.use f.fd) := htr
    rwa [entry_user (h.2 n hdone f hf)]
  exact Program.wp_each (fun _ => Kept user st b) (fun _ _ _ _ _ hk _ _ htr => htr ▸ hk) h₂

theorem autoSinkRound_kept (h : Kept user st b fe tr) (n : NodeSel)
    (hdone : (fe.node n).autoDone = false) :
    wp (env user) (autoSinkRound n) (fun
      | .inl _ => fun fe tr => Kept user st b fe tr ∧ (fe.node n).autoDone = false
      | .inr _ => Kept user st b) fe tr := by
  simp only [autoSinkRound]
  refine Program.wp_seq (Program.wp_and (intSinkRead_kept h n 22) (intSinkRead_frame n 22)) ?_
  rintro ⟨lenDone, buf⟩ fe₁ tr₁ ⟨h₁, hf⟩
  obtain ⟨p, hp⟩ := hf.node n
  have hdone₁ : (fe₁.node n).autoDone = false := by rw [hp]; exact hdone
  simp only [Program.wp_ite, Program.wp_bind, Program.wp_get, Program.wp_pure]
  split
  · exact h₁
  split
  · exact autoSinkFinish_kept h₁ n hdone₁
  refine Program.wp_mono (Program.wp_and (autoSinkBuffers_kept h₁ buf _)
    (autoSinkBuffers_frame buf _)) ?_
  rintro ⟨lstBuffers, ok⟩ fe₂ tr₂ ⟨h₂, rfl⟩
  rw [Program.wp_bind, Program.wp_modify, Program.wp_ite]
  have h₃ : Kept user st b (fe₂.setNode n { fe₂.node n with lstBuffers := lstBuffers }) tr₂ :=
    h₂.setNode (v := { fe₂.node n with lstBuffers := lstBuffers }) rfl (h₂.2 n)
  split
  · exact h₃
  refine Program.wp_seq (Program.wp_and (autoSinkOthers_kept h₃ n buf ?_)
    (autoSinkOthers_frame n buf)) ?_
  · rw [node_setNode_self]
    exact hdone₁
  · rintro _ fe₄ tr₄ ⟨h₄, rfl⟩
    refine ⟨h₄, ?_⟩
    rw [node_setNode_self]
    exact hdone₁

theorem autoSink_kept (h : Kept user st b fe tr) (n : NodeSel) :
    wp (env user) (autoSink n) (fun _ => Kept user st b) fe tr := by
  simp only [autoSink, Program.wp_ite, Program.wp_bind, Program.wp_get, Program.wp_pure]
  split
  · exact h
  split
  · exact h
  next hdone =>
  refine Program.wp_rounds
    (fun _ _ fe tr => Kept user st b fe tr ∧ (fe.node n).autoDone = false) ?_ ?_
    ⟨h, Bool.eq_false_iff.mpr hdone⟩
  · exact fun _ _ fe tr hk => Program.wp_mono (autoSinkRound_kept hk.1 n hk.2) fun
      | .inl _, _, _, hr => hr
      | .inr _, _, _, hr => hr
  · exact fun _ _ _ hk => hk.1

/-! ## The state machine -/

theorem Kept.weaken (h : Kept user st b fe tr) {b' : Bool} (hb : b' = true → b = true) :
    Kept user st b' fe tr :=
  ⟨{ h.1 with unopened := fun hb' => h.1.unopened (hb hb') }, h.2⟩

theorem childStateRecord_kept (h : Kept user st b fe tr) :
    wp (env user) childStateRecord (fun _ => Kept user st b) fe tr := by
  refine Program.wp_mono childStateRecord_spec fun _ fe' tr' hspec => ?_
  rcases hspec with ⟨-, rfl, rfl⟩ | ⟨-, st', htr, rfl⟩
  · exact h
  obtain rfl : tr' = tr := htr
  exact h.congr rfl fun n => by cases n <;> rfl

theorem doneSet_kept (h : Kept user st b fe tr) :
    wp (env user) doneSet (fun _ => Kept user st b) fe tr :=
  h.congr rfl fun n => by cases n <;> rfl

/-- A call that the ledger does not see. -/
theorem perform_kept (h : Kept user st b fe tr) {k : Call}
    (hk : ∀ r tr', env user tr k r tr' → tr' = tr) :
    wp (env user) (perform k) (fun _ => Kept user st b) fe tr :=
  fun r tr' htr => hk r tr' htr ▸ h

theorem sinksReady_kept (h : Kept user st b fe tr) (l : List Transfering) :
    wp (env user) (sinksReady l) (fun _ => Kept user st b) fe tr := by
  induction l generalizing fe tr with
  | nil => exact h
  | cons t ts ih =>
    refine Program.wp_seq (perform_kept h fun _ _ htr => htr) fun r fe' tr' h' => ?_
    rw [Program.wp_ite]
    split
    · exact h'
    · exact ih h'

theorem nonBlockingSetAt_kept (h : Kept user st b fe tr) (n : NodeSel) (e : PipeEnd) :
    wp (env user) (nonBlockingSetAt n e) (fun _ => Kept user st b) fe tr := by
  simp only [nonBlockingSetAt, fileNonBlockingSet, Program.wp_ite, Program.wp_bind, Program.wp_get,
    Program.wp_pure, Program.wp_perform]
  split
  · exact h
  next hfd =>
  rintro r _ rfl
  have h' : Kept user st b fe (entry user tr (fe.fd n e) (.use (fe.fd n e))) :=
    ⟨h.1.use hfd, h.2⟩
  split
  · exact h'
  · rintro r _ rfl
    exact ⟨h'.1.use hfd, h'.2⟩

theorem Kept.ticked (h : Kept user st b fe tr) (hst : st.early = false) (res : Success) :
    Ticked user res fe tr := by
  rw [Ticked, h.1.state, hst, Bool.and_false]
  exact h.weaken fun hb => nomatch hb

theorem goto_ticked (h : Kept user st b fe tr) {st' : ProcState}
    (hb : st'.early = true → b = true) : wp (env user) (goto st') (Ticked user) fe tr := by
  have h' : Kept user st' b { fe with mState := st' } tr :=
    ⟨{ books := h.1.books, foreign := h.1.foreign, state := rfl, unopened := h.1.unopened }, h.2⟩
  exact h'.weaken hb

theorem forkStart_ticked (h : Kept user .stFork b fe tr) :
    wp (env user) forkStart (Ticked user) fe tr := by
  refine Program.wp_seq (perform_kept h fun _ _ htr => htr) fun r fe tr h => ?_
  rw [Program.wp_ite]
  split
  · exact h.ticked rfl _
  refine Program.wp_seq (perform_kept h fun _ _ htr => htr) fun r fe tr h => ?_
  rw [Program.wp_ite]
  split
  · exact h.ticked rfl _
  refine Program.wp_seq (perform_kept h fun _ _ htr => htr) fun r fe tr h => ?_
  match r with
  | none => exact h.ticked rfl _
  | some idProc =>
    have h' : Kept user .stFork b
        { fe with mResult := { fe.mResult with idChild := idProc } } tr :=
      h.congr rfl fun n => by cases n <;> rfl
    exact goto_ticked h' fun hst => nomatch hst

theorem stdinUnusedClose_kept (h : Kept user st b fe tr) :
    wp (env user) stdinUnusedClose (fun _ => Kept user st b) fe tr := by
  simp only [stdinUnusedClose, Program.wp_ite, Program.wp_bind, Program.wp_get, Program.wp_pure]
  split
  · exact fdCloseAt_kept h _ _
  · exact h

theorem parentStart_ticked (h : Kept user .stParentStart b fe tr) :
    wp (env user) parentStart (Ticked user) fe tr := by
  refine Program.wp_seq (fdCloseAt_kept h _ _) fun _ fe tr h => ?_
  refine Program.wp_seq (fdCloseAt_kept h _ _) fun _ fe tr h => ?_
  refine Program.wp_seq (stdinUnusedClose_kept h) fun _ fe tr h => ?_
  refine Program.wp_seq (nonBlockingSetAt_kept h _ _) fun _ fe tr h => ?_
  rw [Program.wp_ite]
  split
  · exact h.ticked rfl _
  refine Program.wp_seq (nonBlockingSetAt_kept h _ _) fun _ fe tr h => ?_
  rw [Program.wp_ite]
  split
  · exact h.ticked rfl _
  refine Program.wp_seq (nonBlockingSetAt_kept h _ _) fun _ fe tr h => ?_
  rw [Program.wp_ite]
  split
  · exact h.ticked rfl _
  have h' : Kept user .stParentStart b { fe with mSendReady := true, mReadReady := true } tr :=
    h.congr rfl fun n => by cases n <;> rfl
  exact goto_ticked h' fun hst => nomatch hst

theorem sinksReadyWait_ticked (h : Kept user .stSinksReadyWait b fe tr) :
    wp (env user) sinksReadyWait (Ticked user) fe tr := by
  rw [sinksReadyWait, Program.wp_bind, Program.wp_get]
  refine Program.wp_seq (sinksReady_kept h _) fun _ fe tr h => ?_
  rw [Program.wp_ite]
  split
  · exact h.ticked rfl _
  rw [Program.wp_bind, Program.wp_get]
  refine Program.wp_seq (sinksReady_kept h _) fun _ fe tr h => ?_
  rw [Program.wp_ite]
  split
  · exact h.ticked rfl _
  exact goto_ticked h fun hst => nomatch hst

theorem childSupervise_ticked (h : Kept user .stChildSupervise b fe tr) :
    wp (env user) childSupervise (Ticked user) fe tr := by
  refine Program.wp_seq (sourceKept.doneCheck
    (fun h => h.congr rfl fun n => by cases n <;> rfl) h) fun _ fe tr h => ?_
  refine Program.wp_seq (sourceKept.autoSource h) fun _ fe tr h => ?_
  refine Program.wp_seq (autoSink_kept h _) fun _ fe tr h => ?_
  refine Program.wp_seq (autoSink_kept h _) fun _ fe tr h => ?_
  refine Program.wp_seq (childStateRecord_kept h) fun _ fe tr h => ?_
  simp only [Program.wp_ite, Program.wp_bind, Program.wp_get, Program.wp_pure]
  have hres := fun res => h.ticked rfl res
  split_ifs <;> exact hres _

/-! ## Opening -/

/-- A new descriptor goes to a variable that is empty. -/
theorem Kept.open (h : Kept user st b fe tr) (hk : fe.slot (n, e) = none) {fd : Int}
    (hf : Fresh user tr fd) :
    Kept user st false (fe.setFd n e fd) (tr ++ [.acquire fd]) := by
  obtain ⟨hpos, hu, hnew⟩ := hf
  have hslot : (fe.setFd n e fd).slot = Function.update fe.slot (n, e) (some fd) := by
    rw [slot_setFd, if_neg (Int.not_lt.mpr hpos)]
  refine ⟨{ books := hslot ▸ h.1.books.acquire hk hnew, foreign := fun fd' hu' hm => ?_
            state := (setNode_mState ..).trans h.1.state, unopened := fun hb => nomatch hb },
    fun n' => (h.2 n').setFd fd⟩
  rw [heldAfter_append] at hm
  rcases List.mem_cons.mp hm with rfl | hm
  · exact hu hu'
  · exact h.1.foreign fd' hu' hm

/-- `pipe()` fills both ends. -/
theorem Kept.pipe (h : Kept user st b fe tr) (hk : ∀ e, fe.slot (n, e) = none) {p : FePairFd}
    {r : Option FePairFd} (hr : r = some p) (henv : env user tr (.pipe n) r tr') :
    Kept user st false (fe.setPipe n p) tr' := by
  subst hr
  obtain ⟨hfr, hfw, hne, rfl⟩ := henv
  have hset : fe.setPipe n p = (fe.setFd n .fdRead p.fdRead).setFd n .fdWrite p.fdWrite := by
    cases n <;> rfl
  rw [hset]
  refine (h.open (hk .fdRead) hfr).open ?_ ⟨hfw.1, hfw.2.1, fun hm => ?_⟩
  · rw [slot_setFd, Function.update_of_ne (by simp)]
    exact hk .fdWrite
  · rw [heldAfter_append] at hm
    rcases List.mem_cons.mp hm with he | hm
    · exact hne he.symm
    · exact hfw.2.2 hm

theorem outputCreate_kept (h : Kept user st b fe tr) (hk : ∀ e, fe.slot (n, e) = none) :
    wp (env user) (outputCreate n) (fun _ fe' tr' => Kept user st false fe' tr' ∧
      ∀ n', n' ≠ n → fe'.node n' = fe.node n') fe tr := by
  have h' : Kept user st false fe tr := h.weaken fun hb => nomatch hb
  have hset : ∀ v n', n' ≠ n → (fe.setNode n v).node n' = fe.node n' := fun v n' hn => by
    rw [node_setNode, if_neg hn]
  rw [outputCreate, Program.wp_bind, Program.wp_get]
  simp only [Program.wp_ite]
  split
  · intro r tr' henv
    match r with
    | none =>
      obtain rfl : tr' = tr := henv
      exact ⟨h', fun _ _ => rfl⟩
    | some p => exact ⟨h.pipe hk rfl henv, hset _⟩
  · intro r tr' henv
    match r with
    | none =>
      obtain rfl : tr' = tr := henv
      refine ⟨⟨h'.1.congr (setNode_mState ..) ?_, fun n' => (h'.2 n').setFd _⟩, hset _⟩
      rw [slot_setFd, if_pos (by decide), ← hk .fdWrite]
      exact Function.update_eq_self ..
    | some fd =>
      obtain ⟨hf, rfl⟩ := henv
      exact ⟨h.open (hk .fdWrite) hf, hset _⟩

theorem pipesCreate_ticked (h : Kept user .stPipesCreate true fe tr) :
    wp (env user) pipesCreate (Ticked user) fe tr := by
  -- an early return leaves the pipes that are there
  have hstop : ∀ {fe tr}, Kept user .stPipesCreate false fe tr → Ticked user .negative fe tr :=
    fun h => by rw [Ticked, h.1.state]; exact h
  have hslot : ∀ {fe' : FileExecuting} {n}, fe'.node n = fe.node n → ∀ e, fe'.slot (n, e) = none :=
    fun hn e => by rw [slot, fd, hn]; exact h.1.unopened rfl (_, e)
  simp only [pipesCreate, Program.wp_bind, Program.wp_perform]
  intro r tr₁ henv
  cases r with
  | none =>
    obtain rfl : tr₁ = tr := henv
    exact hstop (h.weaken fun hb => by cases hb)
  | some p =>
    have h₁ := h.pipe (fun e => h.1.unopened rfl (.nodeIn, e)) rfl henv
    simp only [Program.wp_bind, Program.wp_modify]
    refine Program.wp_mono (outputCreate_kept h₁ (n := .nodeOut) (hslot rfl)) ?_
    rintro ok fe₂ tr₂ ⟨h₂, hn₂⟩
    rw [Program.wp_ite]
    split
    · exact hstop h₂
    have herr : fe₂.node .nodeErr = fe.node .nodeErr := hn₂ .nodeErr (by decide)
    refine Program.wp_seq (outputCreate_kept h₂ (n := .nodeErr) (hslot herr)) ?_
    rintro ok fe₃ tr₃ ⟨h₃, -⟩
    rw [Program.wp_ite]
    split
    · exact hstop h₃
    · exact goto_ticked h₃ fun hst => by cases hst

theorem process_ticked (h : Ticked user .pending fe tr) :
    wp (env user) process (Ticked user) fe tr := by
  rw [process, Program.wp_bind, Program.wp_get]
  rw [Ticked] at h
  generalize hs : fe.mState = st at h
  cases st with
  | stStart | stInternalStart => exact goto_ticked h fun _ => rfl
  | stPipesCreate => exact pipesCreate_ticked h
  | stFork => exact forkStart_ticked h
  | stParentStart => exact parentStart_ticked h
  | stSinksReadyWait => exact sinksReadyWait_ticked h
  | stChildSupervise => exact childSupervise_ticked h
  | stSdStart | stSdInternals | stSdPipesClose => exact h.ticked rfl _

/-! ## Shutting down -/

theorem pipeClose_kept (h : Kept user st b fe tr) (n : NodeSel) :
    wp (env user) (pipeClose n) (fun _ fe' tr' => Kept user st b fe' tr' ∧
      (∀ e, fe'.slot (n, e) = none) ∧ ∀ n', n' ≠ n → fe'.node n' = fe.node n') fe tr := by
  refine Program.wp_seq (fdCloseAt_inv h.1 n .fdRead) ?_
  rintro _ _ tr₁ ⟨h₁, hr, fd₁, rfl⟩
  refine Program.wp_mono (fdCloseAt_inv h₁ n .fdWrite) ?_
  rintro _ _ tr₂ ⟨h₂, hw, fd₂, rfl⟩
  refine ⟨⟨h₂, fun n' => ((h.2 n').setFd fd₁).setFd fd₂⟩, fun e => if_pos ?_, fun n' hn => ?_⟩
  · cases e with
    | fdRead => rwa [fd_setFd, if_neg (by simp)]
    | fdWrite => exact hw
  · rw [setFd, node_setPipe, if_neg hn, setFd, node_setPipe, if_neg hn]

theorem shutdown_kept (h : Kept user fe.mState false fe tr) :
    wp (env user) shutdown (fun res fe' tr' => Kept user fe'.mState false fe' tr' ∧
      (res = .pending ∨ ∀ k, fe'.slot k = none)) fe tr := by
  have hgoto : ∀ st', wp (env user) (goto st') (fun res fe' tr' =>
      Kept user fe'.mState false fe' tr' ∧ (res = .pending ∨ ∀ k, fe'.slot k = none)) fe tr :=
    fun st' => ⟨⟨{ h.1 with state := rfl }, h.2⟩, .inl rfl⟩
  rw [shutdown, Program.wp_bind, Program.wp_get]
  generalize hs : fe.mState = st at h
  cases st with
  | stSdPipesClose =>
    refine Program.wp_seq (pipeClose_kept h .nodeIn) ?_
    rintro _ fe₁ tr₁ ⟨h₁, hin, -⟩
    refine Program.wp_seq (pipeClose_kept h₁ .nodeOut) ?_
    rintro _ fe₂ tr₂ ⟨h₂, hout, hn₂⟩
    refine Program.wp_seq (pipeClose_kept h₂ .nodeErr) ?_
    rintro _ fe₃ tr₃ ⟨h₃, herr, hn₃⟩
    refine ⟨by rw [h₃.1.state]; exact h₃, .inr ?_⟩
    have hstay : ∀ {fe fe' : FileExecuting} {n}, fe'.node n = fe.node n →
        (∀ e, fe.slot (n, e) = none) → ∀ e, fe'.slot (n, e) = none := fun hn hk e => by
      rw [slot, fd, hn]
      exact hk e
    rintro ⟨n, e⟩
    cases n with
    | nodeIn => exact hstay (hn₃ _ (by decide)) (hstay (hn₂ _ (by decide)) hin) e
    | nodeOut => exact hstay (hn₃ _ (by decide)) hout e
    | nodeErr => exact herr e
  | _ => exact hgoto _

/-! ## Runs -/

inductive Phase
  | processing
  | ended
  | gone
deriving DecidableEq

/-- A command and what the system has seen of it. -/
structure Life where
  fe : FileExecuting
  trace : Trace
  phase : Phase

inductive Tick
  | process
  | cancel
  | shutdown
  | send (data : Bytes)
  | sinkRead (n : NodeSel) (lenReq : Nat)
  | doneSet

/-- A new command with any sources and sinks. -/
def Start (user : List Int) (s : Life) : Prop :=
  s.phase = .processing ∧ s.trace = [] ∧ s.fe.mState = .stStart ∧
    (∀ n e, s.fe.fd n e = -1) ∧ ∀ n, ∀ f ∈ (s.fe.node n).lstFds, f.fd ∈ user

/-- `process()` is called until it reports an end or the command is cancelled, then
`shutdown()` until it reports one. The members of the user come at any time in between. -/
inductive Step (user : List Int) : Life → Tick → Life → Prop
  | process {s : Life} {res : Success} {fe : FileExecuting} {tr : Trace} :
      s.phase = .processing → Exec (env user) process s.fe s.trace res fe tr →
      Step user s .process ⟨fe, tr, if res = .pending then .processing else .ended⟩
  | cancel {s : Life} : s.phase = .processing → Step user s .cancel { s with phase := .ended }
  | shutdown {s : Life} {res : Success} {fe : FileExecuting} {tr : Trace} :
      s.phase = .ended → Exec (env user) shutdown s.fe s.trace res fe tr →
      Step user s .shutdown ⟨fe, tr, if res = .pending then .ended else .gone⟩
  | send {s : Life} {data : Bytes} {res : Int} {fe : FileExecuting} {tr : Trace} :
      s.phase ≠ .gone → Exec (env user) (send data) s.fe s.trace res fe tr →
      Step user s (.send data) ⟨fe, tr, s.phase⟩
  | sinkRead {s : Life} {n : NodeSel} {lenReq : Nat} {res : Int × Bytes} {fe : FileExecuting}
      {tr : Trace} :
      s.phase ≠ .gone → Exec (env user) (sinkRead n lenReq) s.fe s.trace res fe tr →
      Step user s (.sinkRead n lenReq) ⟨fe, tr, s.phase⟩
  | doneSet {s : Life} {res : Unit} {fe : FileExecuting} {tr : Trace} :
      s.phase ≠ .gone → Exec (env user) doneSet s.fe s.trace res fe tr →
      Step user s .doneSet ⟨fe, tr, s.phase⟩

/-- The books in every phase. -/
def Life.Inv (user : List Int) (s : Life) : Prop :=
  match s.phase with
  | .processing => Ticked user .pending s.fe s.trace
  | .ended => Kept user s.fe.mState false s.fe s.trace
  | .gone => Kept user s.fe.mState false s.fe s.trace ∧ ∀ k, s.fe.slot k = none

theorem Start.inv {s : Life} (h : Start user s) : s.Inv user := by
  obtain ⟨hp, ht, hs, hfd, hu⟩ := h
  have hslot : ∀ k, s.fe.slot k = none := fun k => if_pos (by rw [hfd]; decide)
  rw [Life.Inv, hp, ht]
  exact ⟨{ books := .start hslot, foreign := by simp, state := rfl, unopened := fun _ => hslot },
    fun n _ => hu n⟩

/-- The members of the user keep the books of every phase in which they may be called. -/
theorem Life.Inv.member {s : Life} (h : s.Inv user) (hp : s.phase ≠ .gone) {α : Type} {p : Fe α}
    (hwp : ∀ {st b}, Kept user st b s.fe s.trace →
      wp (env user) p (fun _ => Kept user st b) s.fe s.trace)
    {res : α} {fe : FileExecuting} {tr : Trace} (he : Exec (env user) p s.fe s.trace res fe tr) :
    (⟨fe, tr, s.phase⟩ : Life).Inv user := by
  have hkept : ∀ {b}, Kept user s.fe.mState b s.fe s.trace →
      fe.mState = s.fe.mState ∧ Kept user s.fe.mState b fe tr := fun hk =>
    have hk' := Program.wp_iff.mp (hwp hk) res fe tr he
    ⟨hk'.1.state, hk'⟩
  match hph : s.phase with
  | .gone => exact absurd hph hp
  | .processing =>
    simp only [Life.Inv, hph] at h ⊢
    obtain ⟨hst, hk⟩ := hkept h
    rw [Ticked, hst]
    exact hk
  | .ended =>
    simp only [Life.Inv, hph] at h ⊢
    obtain ⟨hst, hk⟩ := hkept h
    rw [hst]
    exact hk

theorem Step.inv {s s' : Life} {i : Tick} (h : s.Inv user) (hs : Step user s i s') :
    s'.Inv user := by
  cases hs with
  | @process res _ _ hp he =>
    rw [Life.Inv, hp] at h
    have ht := Program.wp_iff.mp (process_ticked h) _ _ _ he
    by_cases hres : res = .pending
    · subst hres
      rw [if_pos rfl]
      exact ht
    · rw [if_neg hres]
      exact Kept.weaken ht fun hb => nomatch hb
  | cancel hp =>
    rw [Life.Inv, hp] at h
    exact Kept.weaken h fun hb => nomatch hb
  | @shutdown res _ _ hp he =>
    rw [Life.Inv, hp] at h
    obtain ⟨hk, hclosed⟩ := Program.wp_iff.mp (shutdown_kept h) _ _ _ he
    by_cases hres : res = .pending
    · rw [if_pos hres]
      exact hk
    · rw [if_neg hres]
      exact ⟨hk, hclosed.resolve_left hres⟩
  | send hp he => exact h.member hp (fun hk => stdinKept.send hk _) he
  | sinkRead hp he => exact h.member hp (fun hk => sinkRead_kept hk _ _) he
  | doneSet hp he => exact h.member hp (fun hk => doneSet_kept hk) he

theorem Life.Inv.kept {s : Life} (h : s.Inv user) : Kept user s.fe.mState false s.fe s.trace := by
  unfold Life.Inv at h
  split at h
  · exact h.weaken fun hb => nomatch hb
  · exact h
  · exact h.1

/-- In every run no descriptor is used or closed that is not open, and when `shutdown()`
has reported its end, every descriptor has been closed as often as it was obtained. -/
theorem descriptors_closed {s : Life}
    (h : Transition.Reachable (Start user) (Step user) s) :
    Disciplined [] s.trace ∧ (s.phase = .gone → heldAfter [] s.trace = [] ∧
      ∀ fd, s.trace.count (.release fd) = s.trace.count (.acquire fd)) := by
  have hi : s.Inv user :=
    h.invariant (P := Life.Inv user) (fun _ => Start.inv) fun _ _ _ => Step.inv
  have hd := hi.kept.1.books.disciplined
  refine ⟨hd, fun hp => ?_⟩
  rw [Life.Inv, hp] at hi
  have hnil := hi.1.1.books.heldAfter_eq_nil hi.2
  exact ⟨hnil, hd.released hnil⟩

/-- A system with one pipe. -/
def onePipe (tr : Trace) : (k : Call) → Answer k × Trace
  | .pipe _ => if tr = [] then (some ⟨3, 4⟩, [.acquire 3, .acquire 4]) else (none, tr)
  | .openNull _ => (none, tr)
  | .vecConstCharToCharList => (false, tr)
  | .vfork => (none, tr)
  | .fcntl fd => (false, tr ++ [.use fd])
  | .read fd _ => (.error, tr ++ [.use fd])
  | .write fd _ => (.error, tr ++ [.use fd])
  | .close fd => ((), tr ++ [.release fd])
  | .waitpid _ => (.error, tr)
  | .memcpy _ _ _ | .append _ _ | .transSend _ _ | .doneSet _ => ((), tr)
  | .sendReady _ => (false, tr)
  | .transRead _ _ => (none, tr)

theorem env_onePipe (tr : Trace) (k : Call) : env [] tr k (onePipe tr k).1 (onePipe tr k).2 := by
  cases k with
  | pipe n =>
    by_cases htr : tr = []
    · subst htr
      simp [onePipe, env, Fresh]
    · simp [onePipe, env, htr]
  | _ => rfl

/-- The second pipe fails, and `shutdown()` closes the first. -/
theorem descriptors_closed_onePipe : ∃ s, Transition.Reachable (Start []) (Step []) s ∧
    s.phase = .gone ∧ s.trace = [.acquire 3, .acquire 4, .release 3, .release 4] ∧
    s.trace.count (.release 3) = s.trace.count (.acquire 3) := by
  have h₀ : Transition.Reachable (Start []) (Step []) ⟨{}, [], .processing⟩ :=
    .start ⟨rfl, rfl, rfl, fun n e => by cases n <;> cases e <;> rfl,
      fun n f hf => by cases n <;> cases hf⟩
  have h₁ := h₀.next (.process rfl (Program.exec_run env_onePipe _ _ _))
  have h₂ := h₁.next (.process rfl (Program.exec_run env_onePipe _ _ _))
  have h₃ := h₂.next (.process rfl (Program.exec_run env_onePipe _ _ _))
  have h₄ := h₃.next (.shutdown rfl (Program.exec_run env_onePipe _ _ _))
  have h₅ := h₄.next (.shutdown rfl (Program.exec_run env_onePipe _ _ _))
  have h₆ := h₅.next (.shutdown rfl (Program.exec_run env_onePipe _ _ _))
  have h₇ := h₆.next (.shutdown rfl (Program.exec_run env_onePipe _ _ _))
  exact ⟨_, h₇, rfl, rfl, ((descriptors_closed h₇).2 rfl).2 3⟩

end FileExecuting

end ProcessingCommon

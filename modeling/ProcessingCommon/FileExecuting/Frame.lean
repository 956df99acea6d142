import ProcessingCommon.FileExecuting.Model

/-!
# Rules for the members of a command

What the members leave alone, whatever the environment answers: sending and reading
only ever reset the descriptor they work on. And the rules for invariants: what
the calls of a source keep is kept by the whole source (`SourceKept`).
-/

namespace ProcessingCommon

/-- The record after a status. -/
def FeResult.recorded (r : FeResult) : WaitResult → FeResult
  | .exited code => { r with
      idChild := -1, childTerminated := true, childTerminatedBySig := false, codeRet := code }
  | .signaled sig => { r with
      idChild := -1, childTerminated := true, childTerminatedBySig := true, codeSig := sig }
  | .stopped sig => { r with childStopped := true, codeSig := sig }
  | .continued => { r with childStopped := false, codeSig := 0 }
  | .unchanged | .eagain | .error | .unknown => r

namespace FileExecuting

open Program (wp rounds each wp_mono wp_seq)

variable {ω : Type} {env : ω → (k : Call) → Answer k → ω → Prop} {fe : FileExecuting} {w : ω}

theorem Output.node_inj {o o' : Output} (h : o'.node = o.node) : o' = o := by
  cases o <;> cases o' <;> first | rfl | cases h

theorem setFd_self (n : NodeSel) (e : PipeEnd) : fe.setFd n e (fe.fd n e) = fe := by
  cases n <;> cases e <;> rfl

/-- The rule of `fdClose` on a member. -/
theorem wp_fdCloseAt {Q : Unit → FileExecuting → ω → Prop} {n : NodeSel} {e : PipeEnd}
    (hneg : fe.fd n e < 0 → Q () fe w)
    (hclose : ¬fe.fd n e < 0 → ∀ r w', env w (.close (fe.fd n e)) r w' →
      Q () (fe.setFd n e (-1)) w') : wp env (fdCloseAt n e) Q fe w := by
  simp only [fdCloseAt, fdClose, Program.wp_bind, Program.wp_get, Program.wp_ite, Program.wp_pure,
    Program.wp_modify, Program.wp_perform]
  split
  · next hfd => rw [setFd_self]; exact hneg hfd
  · next hfd => exact hclose hfd

/-- `fe'` is `fe`, or the descriptor has been reset. -/
def Reset (n : NodeSel) (e : PipeEnd) (fe fe' : FileExecuting) : Prop :=
  fe' = fe ∨ fe' = fe.setFd n e (-1)

/-- A node apart from its pipe. -/
theorem Reset.node {n : NodeSel} {e : PipeEnd} {fe' : FileExecuting} (h : Reset n e fe fe')
    (n' : NodeSel) : ∃ p, fe'.node n' = { fe.node n' with pipe := p } := by
  rcases h with rfl | rfl
  · exact ⟨_, rfl⟩
  · cases n <;> cases n' <;> exact ⟨_, rfl⟩

theorem fdCloseAt_frame (n : NodeSel) (e : PipeEnd) :
    wp env (fdCloseAt n e) (fun _ fe' _ => Reset n e fe fe') fe w :=
  wp_fdCloseAt (fun _ => .inl rfl) fun _ _ _ _ => .inr rfl

theorem intSinkRead_frame (n : NodeSel) (lenReq : Nat) :
    wp env (intSinkRead n lenReq) (fun _ fe' _ => Reset n .fdRead fe fe') fe w := by
  simp only [intSinkRead, Program.wp_ite, Program.wp_bind, Program.wp_get, Program.wp_pure,
    Program.wp_perform]
  split
  · exact .inl rfl
  split
  · exact .inl rfl
  split
  · exact .inl rfl
  intro r w' _
  match r with
  | .data [] => exact wp_seq (fdCloseAt_frame _ _) fun _ _ _ h => h
  | .data (b :: d) => exact .inl rfl
  | .error => exact wp_seq (fdCloseAt_frame _ _) fun _ _ _ h => h
  | .eagain =>
    simp only [Program.wp_ite, Program.wp_bind, Program.wp_get, Program.wp_pure]
    split
    · exact .inl rfl
    · exact fdCloseAt_frame _ _

theorem autoSinkBuffers_frame (buf : Bytes) (l : List FeNodeBuffer) :
    wp env (autoSinkBuffers buf l) (fun _ fe' _ => fe' = fe) fe w := by
  induction l generalizing w with
  | nil => rfl
  | cons b bs ih =>
    rw [autoSinkBuffers]
    split
    · exact wp_seq ih fun _ _ _ h => h
    · simp only [Program.wp_ite, Program.wp_bind, Program.wp_pure, Program.wp_perform]
      split
      · exact ih
      intro _ w' _
      split
      · trivial
      · exact ih

theorem each_perform_frame {ε : Type} (l : List ε) (body : ε → Fe Unit)
    (hbody : ∀ e fe w, wp env (body e) (fun _ fe' _ => fe' = fe) fe w) :
    wp env (each l body) (fun _ fe' _ => fe' = fe) fe w :=
  Program.wp_each (fun _ fe' _ => fe' = fe) (fun e _ _ w _ h => h ▸ hbody e _ w) rfl

theorem autoSinkOthers_frame (n : NodeSel) (buf : Bytes) :
    wp env (autoSinkOthers n buf) (fun _ fe' _ => fe' = fe) fe w := by
  rw [autoSinkOthers, Program.wp_bind, Program.wp_get]
  refine wp_seq (each_perform_frame _ _ ?_) ?_
  · exact fun _ _ _ _ _ _ => rfl
  rintro _ _ w rfl
  refine wp_seq (each_perform_frame _ _ ?_) ?_
  · exact fun _ _ _ _ _ _ => rfl
  rintro _ _ w rfl
  refine each_perform_frame _ _ ?_
  exact fun _ _ _ _ _ _ => rfl

/-- All that `childStateRecord` can do. -/
theorem childStateRecord_spec :
    wp env childStateRecord (fun _ fe' w' =>
      fe.mResult.childTerminated = true ∧ fe' = fe ∧ w' = w ∨
      fe.mResult.childTerminated = false ∧ ∃ st, env w (.waitpid fe.mResult.idChild) st w' ∧
        fe' = { fe with mResult := fe.mResult.recorded st }) fe w := by
  rw [childStateRecord, Program.wp_bind, Program.wp_get, Program.wp_ite]
  split
  · next hend => exact .inl ⟨hend, rfl, rfl⟩
  · next hrun =>
    rw [Program.wp_bind, Program.wp_get, Program.wp_bind, Program.wp_perform]
    intro st w' hst
    have hrun' := Bool.eq_false_iff.mpr hrun
    cases st <;> exact .inr ⟨hrun', _, hst, rfl⟩

/-! ## Invariants -/

variable {I : FileExecuting → ω → Prop} {F : Int → Prop}

/-- What sending to stdin keeps. -/
structure StdinKept (env : ω → (k : Call) → Answer k → ω → Prop)
    (I : FileExecuting → ω → Prop) : Prop where
  write {fe : FileExecuting} {w w' : ω} {d : Bytes} {r : WriteResult} :
    I fe w → ¬fe.fd .nodeIn .fdWrite < 0 → env w (.write (fe.fd .nodeIn .fdWrite) d) r w' → I fe w'
  close {fe : FileExecuting} {w w' : ω} {r : Unit} :
    I fe w → ¬fe.fd .nodeIn .fdWrite < 0 → env w (.close (fe.fd .nodeIn .fdWrite)) r w' →
      I (fe.setFd .nodeIn .fdWrite (-1)) w'

/-- What a source keeps, whose files in the list are among `F`. -/
structure SourceKept (env : ω → (k : Call) → Answer k → ω → Prop)
    (I : FileExecuting → ω → Prop) (F : Int → Prop) : Prop extends StdinKept env I where
  done {fe : FileExecuting} {w : ω} : I fe w →
    I { fe with mNodeIn := { fe.mNodeIn with autoDone := true }, mDone := true } w
  progress {fe : FileExecuting} {w : ω} (l : List FeNodeBuffer) : I fe w →
    I (fe.setNode .nodeIn { fe.mNodeIn with lstBuffers := l }) w
  files {fe : FileExecuting} {w : ω} : I fe w → fe.mNodeIn.autoDone = false →
    ∀ f ∈ fe.mNodeIn.lstFds, F f.fd
  read {fe : FileExecuting} {w w' : ω} {fd : Int} {len : Nat} {r : ReadResult} :
    I fe w → F fd → env w (.read fd len) r w' → I fe w'
  fdDone {fe : FileExecuting} {w : ω} {pFd : FeFileDescSetting} :
    I fe w → F pFd.fd → wp env (autoSourceFdDone pFd) (fun _ => I) fe w
  transRead {fe : FileExecuting} {w w' : ω} {t : Transfering} {len : Nat} {r : Option Bytes} :
    I fe w → env w (.transRead t len) r w' → I fe w'

theorem StdinKept.stdinClose (hI : StdinKept env I) (h : I fe w) :
    wp env (fdCloseAt .nodeIn .fdWrite) (fun _ => I) fe w :=
  wp_fdCloseAt (fun _ => h) fun hfd _ _ he => hI.close h hfd he

theorem StdinKept.intSend (hI : StdinKept env I) (h : I fe w) (data : Bytes) :
    wp env (intSend data) (fun _ => I) fe w := by
  simp only [FileExecuting.intSend, Program.wp_ite, Program.wp_bind, Program.wp_get,
    Program.wp_pure]
  split
  · exact h
  split
  · exact h
  split
  · exact h
  next hfd =>
  -- until an error resets it, the descriptor stays
  refine Program.wp_rounds (fun _ _ fe w => I fe w ∧ ¬fe.fd .nodeIn .fdWrite < 0) ?_ ?_ ⟨h, hfd⟩
  case refine_2 => exact fun _ _ _ hk => hk.1
  rintro _ left fe w ⟨h, hfd⟩
  simp only [intSendRound, Program.wp_ite, Program.wp_bind, Program.wp_get, Program.wp_pure,
    Program.wp_perform]
  split
  · exact h
  intro r w' he
  have h' := hI.write h hfd he
  match r with
  | .done 0 => exact h'
  | .done (n + 1) => exact ⟨h', hfd⟩
  | .eagain => exact wp_seq (hI.stdinClose h') fun _ _ _ hc => hc
  | .error => exact wp_seq (hI.stdinClose h') fun _ _ _ hc => hc

theorem StdinKept.send (hI : StdinKept env I) (h : I fe w) (data : Bytes) :
    wp env (send data) (fun _ => I) fe w := by
  simp only [FileExecuting.send, Program.wp_ite, Program.wp_bind, Program.wp_get, Program.wp_pure]
  split
  · exact h
  split
  · exact h
  exact hI.intSend h data

theorem SourceKept.autoSourceDone (hI : SourceKept env I F) (h : I fe w) :
    wp env autoSourceDone (fun _ => I) fe w := by
  simp only [FileExecuting.autoSourceDone, Program.wp_ite, Program.wp_bind, Program.wp_get,
    Program.wp_pure]
  split
  · exact h
  · exact wp_mono (hI.stdinClose h) fun _ _ _ h => hI.done h

theorem SourceKept.autoSourceBuffer (hI : SourceKept env I F) (h : I fe w) (buff : FeNodeBuffer) :
    wp env (autoSourceBuffer buff) (fun _ => I) fe w := by
  refine wp_seq (hI.intSend h _) fun lenDone fe w h => ?_
  rw [Program.wp_ite]
  split
  · exact Program.wp_result (hI.autoSourceDone h) _
  rw [Program.wp_bind, Program.wp_modify, Program.wp_ite]
  have h' := hI.progress (fe.mNodeIn.lstBuffers.modifyHead fun b =>
    { b with processed := buff.processed + lenDone.toNat }) h
  split
  · exact h'
  · exact hI.autoSourceDone h'

theorem SourceKept.autoSourceFdRound (hI : SourceKept env I F) (h : I fe w)
    {pFd : FeFileDescSetting} (hF : F pFd.fd) (lenLeft : Nat) :
    wp env (autoSourceFdRound pFd lenLeft) (fun _ => I) fe w := by
  simp only [FileExecuting.autoSourceFdRound, Program.wp_ite, Program.wp_bind, Program.wp_pure,
    Program.wp_perform]
  split
  · exact h
  intro r w' he
  have h' := hI.read h hF he
  have hend := Program.wp_result (hI.fdDone h' hF) fun _ => (.inr () : Nat ⊕ Unit)
  match r with
  | .data [] => exact hend
  | .eagain => exact hend
  | .error => exact hend
  | .data (b :: d) =>
    refine wp_seq (hI.intSend h' _) fun lenDone fe w h => ?_
    rw [Program.wp_ite]
    split
    · exact Program.wp_result (hI.autoSourceDone h) _
    · exact h

theorem SourceKept.autoSourceTransferRound (hI : SourceKept env I F) (h : I fe w)
    (pTrans : Transfering) (lenLeft : Nat) :
    wp env (autoSourceTransferRound pTrans lenLeft) (fun _ => I) fe w := by
  simp only [FileExecuting.autoSourceTransferRound, Program.wp_ite, Program.wp_bind,
    Program.wp_pure, Program.wp_perform]
  split
  · exact h
  intro r w' he
  have h' := hI.transRead h he
  match r with
  | none => exact Program.wp_result (hI.autoSourceDone h') _
  | some [] => exact h'
  | some (b :: d) =>
    refine wp_seq (hI.intSend h' _) fun lenDone fe w h => ?_
    rw [Program.wp_ite]
    split
    · exact Program.wp_result (hI.autoSourceDone h) _
    · exact h

theorem SourceKept.autoSource (hI : SourceKept env I F) (h : I fe w) :
    wp env autoSource (fun _ => I) fe w := by
  simp only [FileExecuting.autoSource, Program.wp_ite, Program.wp_bind, Program.wp_get,
    Program.wp_pure]
  split
  · exact h
  split
  · exact h
  next hdone =>
  split
  · exact hI.autoSourceBuffer h _
  · next pFd fds _ hfds =>
    have hF := hI.files h (Bool.eq_false_iff.mpr hdone) pFd (hfds ▸ List.mem_cons_self)
    exact Program.wp_rounds_inv (fun lenLeft _ _ h => hI.autoSourceFdRound h hF lenLeft) _ _ h
  · exact Program.wp_rounds_inv (fun lenLeft _ _ h => hI.autoSourceTransferRound h _ lenLeft) _ _ h
  · exact h

theorem SourceKept.doneCheck (hI : SourceKept env I F)
    (hack : ∀ {fe w}, I fe w → I { fe with mDoneAck := true } w) (h : I fe w) :
    wp env doneCheck (fun _ => I) fe w := by
  simp only [FileExecuting.doneCheck, Program.wp_ite, Program.wp_bind, Program.wp_get,
    Program.wp_pure]
  split
  · exact wp_mono (hI.autoSourceDone h) fun _ _ _ h => hack h
  · exact h

end FileExecuting

end ProcessingCommon

import ProcessingCommon.FileExecuting.ChildRecord

/-!
# Members that leave the child alone

Most of a tick neither changes the state of the machine nor the record of the child, and asks the
system for other things than children. What holds of these only is kept by all of these members
(`ChildKept`).
-/

namespace ProcessingCommon

/-- A call about the processes. -/
def Call.ofChild : Call → Bool
  | .vfork => true
  | .waitpid _ => true
  | _ => false

namespace FileExecuting

open Program (wp rounds each wp_mono wp_seq)

/-- The same state of the machine and the same record. -/
def SameChild (fe fe' : FileExecuting) : Prop :=
  fe'.mState = fe.mState ∧ fe'.mResult = fe.mResult

theorem SameChild.refl (fe : FileExecuting) : SameChild fe fe := ⟨rfl, rfl⟩

theorem setNode_sameChild (fe : FileExecuting) (n : NodeSel) (v : FeNode) :
    SameChild fe (fe.setNode n v) := ⟨setNode_mState .., setNode_mResult ..⟩

variable {ω : Type} {env : ω → (k : Call) → Answer k → ω → Prop} {fe : FileExecuting} {w : ω}
  {I J : FileExecuting → ω → Prop}

/-- What is about the child only. -/
structure ChildKept (env : ω → (k : Call) → Answer k → ω → Prop)
    (I : FileExecuting → ω → Prop) : Prop where
  same {fe fe' : FileExecuting} {w : ω} : I fe w → SameChild fe fe' → I fe' w
  call {fe : FileExecuting} {w w' : ω} {c : Call} {r : Answer c} :
    c.ofChild = false → I fe w → env w c r w' → I fe w'

namespace ChildKept

theorem setNode (hI : ChildKept env I) (h : I fe w) (n : NodeSel) (v : FeNode) :
    I (fe.setNode n v) w := hI.same h (setNode_sameChild fe n v)

/-- In one state of the machine. -/
theorem inState (hI : ChildKept env I) (st : ProcState) :
    ChildKept env (fun fe w => fe.mState = st ∧ I fe w) where
  same h hs := ⟨hs.1.trans h.1, hI.same h.2 hs⟩
  call hc h he := ⟨h.1, hI.call hc h.2 he⟩

theorem setFd (hI : ChildKept env I) (h : I fe w) (n : NodeSel) (e : PipeEnd) (fd : Int) :
    I (fe.setFd n e fd) w := hI.setNode h n _

theorem fdCloseAt (hI : ChildKept env I) (h : I fe w) (n : NodeSel) (e : PipeEnd) :
    wp env (fdCloseAt n e) (fun _ => I) fe w :=
  wp_fdCloseAt (fun _ => h) fun _ _ _ he => hI.setFd (hI.call rfl h he) n e (-1)

theorem fdClose (hI : ChildKept env I) (h : I fe w) (fd : Int) :
    wp env (fdClose fd) (fun _ => I) fe w := by
  simp only [FileExecuting.fdClose, Program.wp_ite, Program.wp_bind, Program.wp_pure,
    Program.wp_perform]
  split
  · exact h
  · exact fun _ _ he => hI.call rfl h he

/-! ## Sources and sinks -/

theorem stdin (hI : ChildKept env I) : StdinKept env I where
  write h _ he := hI.call rfl h he
  close h _ he := hI.setFd (hI.call rfl h he) _ _ _

theorem source (hI : ChildKept env I) : SourceKept env I (fun _ => True) where
  toStdinKept := hI.stdin
  done h := hI.same h ⟨rfl, rfl⟩
  progress _ h := hI.setNode h _ _
  files _ _ _ _ := trivial
  read h _ he := hI.call rfl h he
  fdDone := by
    intro fe w pFd h _
    have hdone : ∀ fe w, I fe w → wp env autoSourceDone (fun _ => I) fe w := by
      intro fe w h
      simp only [FileExecuting.autoSourceDone, Program.wp_ite, Program.wp_bind, Program.wp_get,
        Program.wp_pure]
      split
      · exact h
      · exact wp_mono (hI.fdCloseAt h _ _) fun _ _ _ h => hI.same h ⟨rfl, rfl⟩
    rw [autoSourceFdDone, Program.wp_ite]
    split
    · refine wp_seq (hI.fdClose h _) fun fd fe w h => ?_
      rw [Program.wp_bind, Program.wp_modify]
      exact hdone _ _ (hI.setNode h _ _)
    · exact hdone _ _ h
  transRead h he := hI.call rfl h he

theorem intSinkRead (hI : ChildKept env I) (h : I fe w) (n : NodeSel) (lenReq : Nat) :
    wp env (intSinkRead n lenReq) (fun _ => I) fe w := by
  simp only [FileExecuting.intSinkRead, Program.wp_ite, Program.wp_bind, Program.wp_get,
    Program.wp_pure, Program.wp_perform]
  split
  · exact h
  split
  · exact h
  split
  · exact h
  intro r w' he
  have h' := hI.call rfl h he
  have hclose := hI.fdCloseAt h' n .fdRead
  cases r with
  | data d =>
    cases d with
    | nil => exact Program.wp_result hclose fun _ => ((-4 : Int), ([] : Bytes))
    | cons b d => exact h'
  | error => exact Program.wp_result hclose fun _ => ((-3 : Int), ([] : Bytes))
  | eagain =>
    simp only [Program.wp_ite, Program.wp_bind, Program.wp_get, Program.wp_pure]
    split
    · exact h'
    · exact hclose

theorem sinkRead (hI : ChildKept env I) (h : I fe w) (n : NodeSel) (lenReq : Nat) :
    wp env (sinkRead n lenReq) (fun _ => I) fe w := by
  simp only [FileExecuting.sinkRead, Program.wp_ite, Program.wp_bind, Program.wp_get,
    Program.wp_pure]
  split
  · exact h
  split
  · exact h
  · exact hI.intSinkRead h n lenReq

theorem autoSinkBuffers (hI : ChildKept env I) (h : I fe w) (buf : Bytes)
    (l : List FeNodeBuffer) : wp env (autoSinkBuffers buf l) (fun _ => I) fe w := by
  induction l generalizing w with
  | nil => exact h
  | cons b bs ih =>
    rw [FileExecuting.autoSinkBuffers]
    split
    · exact Program.wp_result (ih h) _
    · simp only [Program.wp_ite, Program.wp_bind, Program.wp_pure, Program.wp_perform]
      split
      · exact ih h
      intro _ w' he
      have h' := hI.call rfl h he
      split
      · exact h'
      · exact ih h'

/-- A call for each entry of a list. -/
theorem each (hI : ChildKept env I) {ε : Type} (h : I fe w) (l : List ε) (call : ε → Call)
    (hcall : ∀ e, (call e).ofChild = false) :
    wp env (each l fun e => do let _ ← perform (call e)) (fun _ => I) fe w :=
  Program.wp_each (fun _ => I) (fun e _ _ _ _ h _ _ he => hI.call (hcall e) h he) h

theorem autoSinkOthers (hI : ChildKept env I) (h : I fe w) (n : NodeSel) (buf : Bytes) :
    wp env (autoSinkOthers n buf) (fun _ => I) fe w := by
  rw [FileExecuting.autoSinkOthers, Program.wp_bind, Program.wp_get]
  refine wp_seq (hI.each h _ (fun str => .append str buf) fun _ => rfl) fun _ fe w h => ?_
  refine wp_seq (hI.each h _ (fun f : FeFileDescSetting => .write f.fd buf) fun _ => rfl) ?_
  intro _ fe w h
  exact hI.each h _ (fun trans => .transSend trans buf) fun _ => rfl

theorem autoSinkFdsClose (hI : ChildKept env I) (h : I fe w) (l : List FeFileDescSetting) :
    wp env (autoSinkFdsClose l) (fun _ => I) fe w := by
  induction l generalizing fe w with
  | nil => exact h
  | cons f fs ih =>
    rw [FileExecuting.autoSinkFdsClose, Program.wp_ite]
    split
    · exact wp_seq (hI.fdClose h f.fd) fun fd _ _ h =>
        Program.wp_result (ih h) fun fs' => { f with fd := fd } :: fs'
    · exact Program.wp_result (ih h) fun fs' => f :: fs'

theorem autoSinkFinish (hI : ChildKept env I) (h : I fe w) (n : NodeSel) :
    wp env (autoSinkFinish n) (fun _ => I) fe w := by
  rw [FileExecuting.autoSinkFinish, Program.wp_bind, Program.wp_get]
  refine wp_seq (hI.autoSinkFdsClose h _) fun lstFds fe w h => ?_
  rw [Program.wp_bind, Program.wp_get]
  refine wp_seq (hI.each h _ (fun trans => .doneSet trans) fun _ => rfl) fun _ fe w h => ?_
  exact hI.setNode h _ _

theorem autoSinkRound (hI : ChildKept env I) (h : I fe w) (n : NodeSel) :
    wp env (autoSinkRound n) (fun _ => I) fe w := by
  rw [FileExecuting.autoSinkRound]
  refine wp_seq (hI.intSinkRead h n 22) ?_
  rintro ⟨lenDone, buf⟩ fe w h
  simp only [Program.wp_ite]
  split
  · exact h
  split
  · exact Program.wp_result (hI.autoSinkFinish h n) _
  rw [Program.wp_bind, Program.wp_get]
  refine wp_seq (hI.autoSinkBuffers h buf _) ?_
  rintro ⟨lstBuffers, ok⟩ fe w h
  rw [Program.wp_bind, Program.wp_modify, Program.wp_ite]
  have h' := hI.setNode h n { fe.node n with lstBuffers := lstBuffers }
  split
  · exact h'
  · exact Program.wp_result (hI.autoSinkOthers h' n buf) _

theorem autoSink (hI : ChildKept env I) (h : I fe w) (n : NodeSel) :
    wp env (autoSink n) (fun _ => I) fe w := by
  simp only [FileExecuting.autoSink, Program.wp_ite, Program.wp_bind, Program.wp_get,
    Program.wp_pure]
  split
  · exact h
  split
  · exact h
  · exact Program.wp_rounds_inv (fun _ _ _ h => hI.autoSinkRound h n) _ _ h

/-! ## States -/

theorem outputCreate (hI : ChildKept env I) (h : I fe w) (n : NodeSel) :
    wp env (outputCreate n) (fun _ => I) fe w := by
  simp only [FileExecuting.outputCreate, Program.wp_ite, Program.wp_bind, Program.wp_get,
    Program.wp_perform]
  split <;> intro r w' he
  · have h' := hI.call rfl h he
    cases r with
    | none => exact h'
    | some p => exact hI.setNode h' _ _
  · have h' := hI.call rfl h he
    cases r with
    | none => exact hI.setNode h' _ _
    | some fd => exact hI.setNode h' _ _

theorem pipesCreate (hI : ChildKept env I) (hJ : ∀ fe w, I fe w → J fe w)
    (hgoto : ∀ fe w, I fe w → J { fe with mState := .stFork } w) (h : I fe w) :
    wp env pipesCreate (fun _ => J) fe w := by
  rw [FileExecuting.pipesCreate, Program.wp_bind, Program.wp_perform]
  intro r w' he
  have h' := hI.call rfl h he
  cases r with
  | none => exact hJ _ _ h'
  | some p =>
    dsimp only
    rw [Program.wp_bind, Program.wp_modify]
    refine wp_seq (hI.outputCreate (hI.setNode h' _ _) .nodeOut) fun ok fe w h => ?_
    rw [Program.wp_ite]
    split
    · exact hJ _ _ h
    refine wp_seq (hI.outputCreate h .nodeErr) fun ok fe w h => ?_
    rw [Program.wp_ite]
    split
    · exact hJ _ _ h
    · exact hgoto _ _ h

theorem nonBlockingSetAt (hI : ChildKept env I) (h : I fe w) (n : NodeSel) (e : PipeEnd) :
    wp env (nonBlockingSetAt n e) (fun _ => I) fe w := by
  simp only [FileExecuting.nonBlockingSetAt, fileNonBlockingSet, Program.wp_ite, Program.wp_bind,
    Program.wp_get, Program.wp_perform, Program.wp_pure]
  split
  · exact h
  intro r w₁ he
  have h₁ := hI.call rfl h he
  split
  · exact h₁
  · exact fun r w₂ he => hI.call rfl h₁ he

theorem stdinUnusedClose (hI : ChildKept env I) (h : I fe w) :
    wp env stdinUnusedClose (fun _ => I) fe w := by
  simp only [FileExecuting.stdinUnusedClose, Program.wp_bind, Program.wp_get, Program.wp_ite]
  split
  · exact hI.fdCloseAt h _ _
  · exact h

theorem parentStart (hI : ChildKept env I) (hJ : ∀ fe w, I fe w → J fe w)
    (hgoto : ∀ fe w, I fe w → J { fe with mState := .stSinksReadyWait } w) (h : I fe w) :
    wp env parentStart (fun _ => J) fe w := by
  rw [FileExecuting.parentStart]
  refine wp_seq (hI.fdCloseAt h .nodeOut .fdWrite) fun _ fe w h => ?_
  refine wp_seq (hI.fdCloseAt h .nodeErr .fdWrite) fun _ fe w h => ?_
  refine wp_seq (hI.stdinUnusedClose h) fun _ fe w h => ?_
  refine wp_seq (hI.nonBlockingSetAt h .nodeIn .fdWrite) fun ok fe w h => ?_
  rw [Program.wp_ite]
  split
  · exact hJ _ _ h
  refine wp_seq (hI.nonBlockingSetAt h .nodeOut .fdRead) fun ok fe w h => ?_
  rw [Program.wp_ite]
  split
  · exact hJ _ _ h
  refine wp_seq (hI.nonBlockingSetAt h .nodeErr .fdRead) fun ok fe w h => ?_
  rw [Program.wp_ite]
  split
  · exact hJ _ _ h
  · have h' : I { fe with mSendReady := true, mReadReady := true } w := hI.same h ⟨rfl, rfl⟩
    exact hgoto _ _ h'

theorem sinksReady (hI : ChildKept env I) (h : I fe w) (l : List Transfering) :
    wp env (sinksReady l) (fun _ => I) fe w := by
  induction l generalizing w with
  | nil => exact h
  | cons t ts ih =>
    rw [FileExecuting.sinksReady, Program.wp_bind, Program.wp_perform]
    intro r w' he
    have h' := hI.call rfl h he
    rw [Program.wp_ite]
    split
    · exact h'
    · exact ih h'

theorem sinksReadyWait (hI : ChildKept env I) (hJ : ∀ fe w, I fe w → J fe w)
    (hgoto : ∀ fe w, I fe w → J { fe with mState := .stChildSupervise } w) (h : I fe w) :
    wp env sinksReadyWait (fun _ => J) fe w := by
  rw [FileExecuting.sinksReadyWait, Program.wp_bind, Program.wp_get]
  refine wp_seq (hI.sinksReady h _) fun ok fe w h => ?_
  rw [Program.wp_ite]
  split
  · exact hJ _ _ h
  rw [Program.wp_bind, Program.wp_get]
  refine wp_seq (hI.sinksReady h _) fun ok fe w h => ?_
  rw [Program.wp_ite]
  split
  · exact hJ _ _ h
  · exact hgoto _ _ h

/-- In the state in which the child runs, all but `childStateRecord`. -/
theorem childSupervise (hI : ChildKept env I)
    (hrecord : ∀ fe w, I fe w → wp env childStateRecord (fun _ => J) fe w) (h : I fe w) :
    wp env childSupervise (fun _ => J) fe w := by
  rw [FileExecuting.childSupervise]
  refine wp_seq (hI.source.doneCheck (fun h => hI.same h ⟨rfl, rfl⟩) h) fun _ fe w h => ?_
  refine wp_seq (hI.source.autoSource h) fun _ fe w h => ?_
  refine wp_seq (hI.autoSink h .nodeOut) fun _ fe w h => ?_
  refine wp_seq (hI.autoSink h .nodeErr) fun _ fe w h => ?_
  refine wp_seq (hrecord fe w h) fun _ fe w h => ?_
  simp only [Program.wp_ite, Program.wp_bind, Program.wp_get, Program.wp_pure]
  split_ifs <;> exact h

theorem pipeClose (hI : ChildKept env I) (h : I fe w) (n : NodeSel) :
    wp env (pipeClose n) (fun _ => I) fe w :=
  wp_seq (hI.fdCloseAt h n .fdRead) fun _ _ _ h => hI.fdCloseAt h n .fdWrite

end ChildKept

end FileExecuting

end ProcessingCommon

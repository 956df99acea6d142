import ProcessingCommon.FileExecuting.Frame
import ProcessingCommon.Lib.Transition

/-!
# The record of a child

`childStateRecord` writes what `waitpid()` reports to `FeResult`. The branches of the end set their
own members only: what a stop has left there stays, so the record of a child that ends while it is
stopped contradicts itself.
-/

namespace ProcessingCommon

namespace FileExecuting

open Program (Exec)
open Transition (Reachable)

namespace Record

/-- What `waitpid()` reports of one child, and only of this one. -/
def reports (pid : Int) (l : List WaitResult) : (k : Call) → Answer k → List WaitResult → Prop
  | .waitpid id, st, l' =>
    if id = pid then st = l.headD .unchanged ∧ l' = l.tail else st = .error ∧ l' = l
  | _, _, l' => l' = l

/-- A call of `childStateRecord`, while the statuses of the list are still to come. -/
def Step (pid : Int) (s : FileExecuting × List WaitResult) (success : Success)
    (t : FileExecuting × List WaitResult) : Prop :=
  Exec (reports pid) childStateRecord s.1 s.2 success t.1 t.2

/-- The fork has set the process, and the statuses of `l` are to come. -/
def Forked (pid : Int) (l : List WaitResult) (s : FileExecuting × List WaitResult) : Prop :=
  s.1.mResult = { idChild := pid } ∧ s.2 = l

/-- The statuses of one child: stops and continuations in any order, and nothing behind the end. -/
def Lifetime : List WaitResult → Prop
  | [] => True
  | .exited _ :: l => l = []
  | .signaled sig :: l => sig ≠ 0 ∧ l = []
  | .stopped sig :: l => sig ≠ 0 ∧ Lifetime l
  | _ :: l => Lifetime l

/-- The child ends while it is stopped. -/
def endsStopped : Bool → List WaitResult → Bool
  | _, [] => false
  | stopped, .exited _ :: _ => stopped
  | stopped, .signaled _ :: _ => stopped
  | _, .stopped _ :: l => endsStopped true l
  | _, .continued :: l => endsStopped false l
  | stopped, _ :: l => endsStopped stopped l

structure Consistent (r : FeResult) : Prop where
  childStopped : ¬ (r.childTerminated = true ∧ r.childStopped = true)
  idChild : r.idChild = -1 ↔ r.childTerminated = true
  childTerminatedBySig : r.childTerminatedBySig = true → r.childTerminated = true
  codeSig : r.codeSig ≠ 0 ↔ r.childStopped = true ∨ r.childTerminatedBySig = true

/-! ## The two phases of a record -/

structure Alive (pid : Int) (stopped : Bool) (r : FeResult) : Prop where
  idChild : r.idChild = pid
  childTerminated : r.childTerminated = false
  childTerminatedBySig : r.childTerminatedBySig = false
  childStopped : r.childStopped = stopped
  codeSig : r.codeSig ≠ 0 ↔ stopped = true

structure Ended (r : FeResult) : Prop where
  idChild : r.idChild = -1
  childTerminated : r.childTerminated = true
  childStopped : r.childStopped = false
  codeSig : r.codeSig ≠ 0 ↔ r.childTerminatedBySig = true

variable {pid : Int} {stopped : Bool} {r : FeResult} {st : WaitResult} {l : List WaitResult}
  {s t : FileExecuting × List WaitResult}

theorem Alive.consistent (h : Alive pid stopped r) (hpid : 0 < pid) : Consistent r where
  childStopped hboth := by
    rw [h.childTerminated] at hboth
    cases hboth.1
  idChild := by
    rw [h.idChild, h.childTerminated]
    exact iff_of_false (by omega) Bool.false_ne_true
  childTerminatedBySig hsig := by
    rw [h.childTerminatedBySig] at hsig
    cases hsig
  codeSig := by
    rw [h.codeSig, h.childStopped, h.childTerminatedBySig]
    exact (or_iff_left Bool.false_ne_true).symm

theorem Ended.consistent (h : Ended r) : Consistent r where
  childStopped hboth := by
    rw [h.childStopped] at hboth
    cases hboth.2
  idChild := iff_of_true h.idChild h.childTerminated
  childTerminatedBySig _ := h.childTerminated
  codeSig := by
    rw [h.codeSig, h.childStopped]
    exact (or_iff_right Bool.false_ne_true).symm

/-- The record of a child that is not stopped when it ends stays in one of the phases. -/
theorem Alive.recorded (h : Alive pid stopped r) (hl : Lifetime (st :: l))
    (hend : endsStopped stopped (st :: l) = false) :
    (∃ stopped', Alive pid stopped' (r.recorded st) ∧ Lifetime l ∧
      endsStopped stopped' l = false) ∨ Ended (r.recorded st) := by
  cases st with
  | exited code =>
    -- the end leaves `childStopped` and here also `codeSig` as they are
    have hstopped : stopped = false := hend
    have hcode := h.codeSig
    rw [hstopped] at hcode
    exact .inr ⟨rfl, rfl, h.childStopped.trans hstopped, hcode⟩
  | signaled sig =>
    have hstopped : stopped = false := hend
    exact .inr ⟨rfl, rfl, h.childStopped.trans hstopped, iff_of_true hl.1 rfl⟩
  | stopped sig =>
    exact .inl ⟨true, ⟨h.idChild, h.childTerminated, h.childTerminatedBySig, rfl,
      iff_of_true hl.1 rfl⟩, hl.2, hend⟩
  | continued =>
    have hcode : ¬ ((0 : Int) ≠ 0) := fun hne => hne rfl
    exact .inl ⟨false, ⟨h.idChild, h.childTerminated, h.childTerminatedBySig, rfl,
      iff_of_false hcode Bool.false_ne_true⟩, hl, hend⟩
  | unchanged => exact .inl ⟨stopped, h, hl, hend⟩
  | eagain => exact .inl ⟨stopped, h, hl, hend⟩
  | error => exact .inl ⟨stopped, h, hl, hend⟩
  | unknown => exact .inl ⟨stopped, h, hl, hend⟩

/-! ## Runs -/

/-- In a run that keeps its record consistent. -/
def Kept (pid : Int) (s : FileExecuting × List WaitResult) : Prop :=
  (∃ stopped, Alive pid stopped s.1.mResult ∧ Lifetime s.2 ∧ endsStopped stopped s.2 = false) ∨
    Ended s.1.mResult

theorem Kept.consistent (h : Kept pid s) (hpid : 0 < pid) : Consistent s.1.mResult := by
  rcases h with ⟨stopped, halive, -⟩ | hended
  · exact halive.consistent hpid
  · exact hended.consistent

theorem Kept.step {success : Success} (h : Kept pid s) (hs : Step pid s success t) :
    Kept pid t := by
  obtain ⟨fe, l⟩ := s
  obtain ⟨fe', l'⟩ := t
  rcases Program.wp_iff.mp childStateRecord_spec _ _ _ hs with
    ⟨-, hfe, hl'⟩ | ⟨hterm, st, hst, hfe⟩
  · dsimp only at hfe hl'
    rw [hfe, hl']
    exact h
  · dsimp only at hfe hterm
    rw [hfe]
    rcases h with ⟨stopped, halive, hl, hend⟩ | hended
    · rw [reports, if_pos halive.idChild] at hst
      obtain ⟨rfl, hl'⟩ := hst
      dsimp only at hl' hl hend
      rw [hl']
      cases l with
      | nil => exact .inl ⟨stopped, halive, hl, hend⟩
      | cons st l => exact halive.recorded hl hend
    · rw [hended.childTerminated] at hterm
      cases hterm

theorem exists_answer (pid : Int) (l : List WaitResult) (k : Call) :
    ∃ r l', reports pid l k r l' := by
  cases k with
  | waitpid id =>
    by_cases hid : id = pid
    · exact ⟨l.headD .unchanged, l.tail, by rw [reports, if_pos hid]; exact ⟨rfl, rfl⟩⟩
    · exact ⟨.error, l, by rw [reports, if_neg hid]; exact ⟨rfl, rfl⟩⟩
  | pipe _ => exact ⟨none, l, rfl⟩
  | openNull _ => exact ⟨none, l, rfl⟩
  | vecConstCharToCharList => exact ⟨true, l, rfl⟩
  | vfork => exact ⟨none, l, rfl⟩
  | fcntl _ => exact ⟨true, l, rfl⟩
  | read _ _ => exact ⟨.eagain, l, rfl⟩
  | write _ _ => exact ⟨.eagain, l, rfl⟩
  | close _ => exact ⟨(), l, rfl⟩
  | memcpy _ _ _ => exact ⟨(), l, rfl⟩
  | append _ _ => exact ⟨(), l, rfl⟩
  | sendReady _ => exact ⟨true, l, rfl⟩
  | transRead _ _ => exact ⟨none, l, rfl⟩
  | transSend _ _ => exact ⟨(), l, rfl⟩
  | doneSet _ => exact ⟨(), l, rfl⟩

/-- A child that reports a status has it recorded. -/
theorem exists_step {fe : FileExecuting} (hterm : fe.mResult.childTerminated = false)
    (hid : fe.mResult.idChild = pid) : ∃ success,
      Step pid (fe, st :: l) success ({ fe with mResult := fe.mResult.recorded st }, l) := by
  obtain ⟨success, fe', l', he, hspec⟩ :=
    Program.exists_exec (s := fe) (w := st :: l) (exists_answer pid) childStateRecord_spec
  rcases hspec with ⟨hend, -⟩ | ⟨-, st', hst, hfe⟩
  · rw [hterm] at hend
    cases hend
  · rw [reports, if_pos hid] at hst
    obtain ⟨rfl, rfl⟩ := hst
    rw [hfe] at he
    exact ⟨success, he⟩

/-- A child that ends while it is stopped leads to a record that contradicts itself. -/
theorem exists_not_consistent {init : FileExecuting × List WaitResult → Prop}
    {fe : FileExecuting} (hs : Reachable init (Step pid) (fe, l))
    (h : Alive pid stopped fe.mResult) (hl : Lifetime l) (hend : endsStopped stopped l = true) :
    ∃ t, Reachable init (Step pid) t ∧ ¬ Consistent t.1.mResult := by
  induction l generalizing fe stopped with
  | nil => cases hend
  | cons st l ih =>
    obtain ⟨success, hstep⟩ := exists_step h.childTerminated h.idChild
    have ht := hs.next hstep
    cases st with
    | exited code =>
      have hstopped : stopped = true := hend
      exact ⟨_, ht, fun hc => hc.childStopped ⟨rfl, h.childStopped.trans hstopped⟩⟩
    | signaled sig =>
      have hstopped : stopped = true := hend
      exact ⟨_, ht, fun hc => hc.childStopped ⟨rfl, h.childStopped.trans hstopped⟩⟩
    | stopped sig =>
      exact ih ht ⟨h.idChild, h.childTerminated, h.childTerminatedBySig, rfl,
        iff_of_true hl.1 rfl⟩ hl.2 hend
    | continued =>
      exact ih ht ⟨h.idChild, h.childTerminated, h.childTerminatedBySig, rfl,
        iff_of_false (fun hne => hne rfl) Bool.false_ne_true⟩ hl hend
    | unchanged => exact ih ht h hl hend
    | eagain => exact ih ht h hl hend
    | error => exact ih ht h hl hend
    | unknown => exact ih ht h hl hend

/-- The record of a child is consistent after every call of `childStateRecord` exactly if the child
is not stopped when it ends. -/
theorem record_consistent_iff (hpid : 0 < pid) (hl : Lifetime l) :
    (∀ s, Reachable (Forked pid l) (Step pid) s → Consistent s.1.mResult) ↔
      endsStopped false l = false := by
  have halive : Alive pid false { idChild := pid } :=
    ⟨rfl, rfl, rfl, rfl, iff_of_false (fun hne => hne rfl) Bool.false_ne_true⟩
  constructor
  · intro hall
    refine Bool.eq_false_iff.mpr fun hend => ?_
    have hs : Reachable (Forked pid l) (Step pid) ({ mResult := { idChild := pid } }, l) :=
      .start ⟨rfl, rfl⟩
    obtain ⟨t, ht, hnot⟩ := exists_not_consistent hs halive hl hend
    exact hnot (hall t ht)
  · intro hend s hs
    have hkept : Kept pid s := by
      refine hs.invariant (fun s h0 => ?_) fun _ _ _ h hstep => h.step hstep
      obtain ⟨hfe, hl'⟩ := h0
      rw [Kept, hfe, hl']
      exact .inl ⟨false, halive, hl, hend⟩
    exact hkept.consistent hpid

/-- A child that is stopped, continued and then killed. -/
theorem record_consistent_continued : Lifetime [.stopped 19, .continued, .signaled 9] ∧
    ∀ s, Reachable (Forked 17 [.stopped 19, .continued, .signaled 9]) (Step 17) s →
      Consistent s.1.mResult := by
  have hl : Lifetime [.stopped 19, .continued, .signaled 9] := ⟨by decide, by decide, rfl⟩
  exact ⟨hl, (record_consistent_iff (by decide) hl).mpr rfl⟩

/-- A child that is killed while it is stopped is recorded as terminated and as stopped. -/
theorem record_stopped_killed : Lifetime [.stopped 19, .signaled 9] ∧
    ∃ s, Reachable (Forked 17 [.stopped 19, .signaled 9]) (Step 17) s ∧
      s.1.mResult.childTerminated = true ∧ s.1.mResult.childStopped = true := by
  refine ⟨⟨by decide, by decide, rfl⟩, ?_⟩
  obtain ⟨_, h₁⟩ : ∃ success, Step 17 ({ mResult := { idChild := 17 } },
      [.stopped 19, .signaled 9]) success
      ({ mResult := { childStopped := true, idChild := 17, codeSig := 19 } }, [.signaled 9]) :=
    exists_step rfl rfl
  obtain ⟨_, h₂⟩ : ∃ success, Step 17
      ({ mResult := { childStopped := true, idChild := 17, codeSig := 19 } }, [.signaled 9]) success
      ({ mResult := {
          childStopped := true, childTerminated := true, childTerminatedBySig := true,
          idChild := -1, codeSig := 9 } }, []) :=
    exists_step rfl rfl
  have hs : Reachable (Forked 17 [.stopped 19, .signaled 9]) (Step 17)
      ({ mResult := { idChild := 17 } }, [.stopped 19, .signaled 9]) := .start ⟨rfl, rfl⟩
  exact ⟨_, (hs.next h₁).next h₂, rfl, rfl⟩

end Record

end FileExecuting

end ProcessingCommon

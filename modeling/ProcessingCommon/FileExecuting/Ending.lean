import ProcessingCommon.FileExecuting.Sinks

/-!
# The end of a command

Once the child is gone, `process()` reports its end with the whole output, and soon: a tick takes
at least 23 bytes from each pipe or comes to its end, and the termination is recorded in the first
tick. Nobody else has to do anything for that.
-/

namespace ProcessingCommon

namespace FileExecuting

namespace Sinks

open Program (wp Exec wp_and wp_anti wp_mono wp_seq)
open Transition (Reachable Steps)

variable {c : Setup} {buf : Output → Bytes} {fe fe' : FileExecuting} {w w' : Os} {o : Output}
  {u : Output → Nat} {f : Output → Int}

/-! ## A child that is gone -/

/-- Nobody writes any more, and so much is unread. -/
structure Quiet (u : Output → Nat) (w : Os) : Prop where
  dead : w.alive = false
  closed : ∀ o, (w.stream o).isOpen = false
  unread : ∀ o, (w.stream o).unread.length = u o

theorem Quiet.childStep (h : Quiet u w) (hc : Child w w') : Quiet u w' := by
  cases hc with
  | write o d hopen =>
    rw [h.closed o] at hopen
    cases hopen
  | close o =>
    refine ⟨h.dead, fun o' => ?_, fun o' => ?_⟩
    all_goals
      rw [stream_setStream]
      split
    · rfl
    · exact h.closed o'
    · next ho => exact ho ▸ h.unread o
    · exact h.unread o'
  | exit => exact ⟨rfl, fun _ => rfl, h.unread⟩

theorem Quiet.child (h : Quiet u w) (hc : Relation.ReflTransGen Child w w') : Quiet u w' := by
  induction hc with
  | refl => exact h
  | tail _ hs ih => exact ih.childStep hs

/-- A call that leaves the streams alone. -/
theorem Quiet.call (h : Quiet u w) {k : Call} {r : Answer k} (he : env c w k r w')
    (hk : ∀ w₁, sys c w₁ k r w' → w'.alive = w₁.alive ∧ ∀ o,
      (w'.stream o).isOpen = (w₁.stream o).isOpen ∧ (w'.stream o).unread = (w₁.stream o).unread) :
    Quiet u w' := by
  obtain ⟨w₁, hc, hs⟩ := he
  obtain ⟨halive, hstream⟩ := hk w₁ hs
  have h₁ := h.child hc
  exact ⟨halive.trans h₁.dead, fun o => (hstream o).1.trans (h₁.closed o),
    fun o => (congrArg List.length (hstream o).2).trans (h₁.unread o)⟩

theorem Quiet.same (h : Quiet u w) {k : Call} {r : Answer k} (he : env c w k r w')
    (hk : ∀ w₁, sys c w₁ k r w' → w' = w₁) : Quiet u w' :=
  h.call he fun w₁ hs => hk w₁ hs ▸ ⟨rfl, fun _ => ⟨rfl, rfl⟩⟩

theorem Quiet.close (h : Quiet u w) {fd : Int} {r : Answer (.close fd)}
    (he : env c w (.close fd) r w') : Quiet u w' :=
  h.call he fun _ hs => by
    obtain rfl := hs
    exact ⟨rfl, fun _ => ⟨rfl, rfl⟩⟩

/-- The source neither reads nor closes an output. -/
structure Waiting (c : Setup) (u : Output → Nat) (f : Output → Int) (fe : FileExecuting) (w : Os) :
    Prop where
  inv : Inv c noBuf fe w
  quiet : Quiet u w
  fd : ∀ o : Output, fe.fd o.node .fdRead = f o

theorem Waiting.fdDone {pFd : FeFileDescSetting} (h : Waiting c u f fe w)
    (hfd : ∀ o, pFd.fd ≠ c.fdRead o) :
    wp (env c) (autoSourceFdDone pFd) (fun _ => Waiting c u f) fe w := by
  have hclose : ∀ {fe w}, Quiet u w → (∀ o : Output, fe.fd o.node .fdRead = f o) →
      wp (env c) autoSourceDone (fun _ fe' w' =>
        Quiet u w' ∧ ∀ o : Output, fe'.fd o.node .fdRead = f o) fe w := by
    intro fe w hq hf
    simp only [autoSourceDone, Program.wp_ite, Program.wp_bind, Program.wp_get, Program.wp_pure]
    split
    · exact ⟨hq, hf⟩
    · refine wp_fdCloseAt (fun _ => ⟨hq, fun o => ?_⟩) fun _ r w' he => ⟨hq.close he, fun o => ?_⟩
      · rw [← hf o]
        cases o <;> rfl
      · rw [← hf o]
        cases o <;> rfl
  have hquiet : wp (env c) (autoSourceFdDone pFd) (fun _ fe' w' =>
      Quiet u w' ∧ ∀ o : Output, fe'.fd o.node .fdRead = f o) fe w := by
    simp only [autoSourceFdDone, FileExecuting.fdClose, Program.wp_ite, Program.wp_bind,
      Program.wp_pure, Program.wp_perform]
    have hset : ∀ l : List FeFileDescSetting, ∀ o : Output,
        (fe.setNode .nodeIn { fe.mNodeIn with lstFds := l }).fd o.node .fdRead = f o := by
      intro l o
      rw [← h.fd o]
      cases o <;> rfl
    split
    · split
      · exact hclose h.quiet (hset _)
      · exact fun r w' he => hclose (h.quiet.close he) (hset _)
    · exact hclose h.quiet h.fd
  exact wp_mono (wp_and (autoSourceFdDone_inv h.inv hfd) hquiet)
    fun _ _ _ hboth => ⟨hboth.1, hboth.2.1, hboth.2.2⟩

theorem waitingKept : SourceKept (env c) (Waiting c u f) (fun fd => ∀ o, fd ≠ c.fdRead o) where
  write h hfd he := ⟨stdinKept.write h.inv hfd he, h.quiet.same he fun _ hs => hs, h.fd⟩
  close h hfd he := ⟨stdinKept.close h.inv hfd he, h.quiet.close he, fun o => by
    rw [← h.fd o]
    cases o <;> rfl⟩
  done h := ⟨sourceKept.done h.inv, h.quiet, fun o => by
    rw [← h.fd o]
    cases o <;> rfl⟩
  progress l h := ⟨sourceKept.progress l h.inv, h.quiet, fun o => by
    rw [← h.fd o]
    cases o <;> rfl⟩
  files h hd := sourceKept.files h.inv hd
  read h hF he := ⟨h.inv.readOther hF he, h.quiet.same he fun _ hs => hs.2 hF, h.fd⟩
  fdDone h hF := h.fdDone hF
  transRead h he := ⟨sourceKept.transRead h.inv he, h.quiet.same he fun _ hs => hs, h.fd⟩

/-! ## Emptying the pipes -/

/-- A step on the output `o`, which leaves `n` bytes or closes the pipe. -/
def Drained (u : Output → Nat) (o : Output) (fe : FileExecuting) (Left : Nat → Int → Prop)
    (fe' : FileExecuting) (w' : Os) : Prop :=
  ∃ u', Quiet u' w' ∧
    (∀ o' ≠ o, u' o' = u o' ∧ fe'.fd o'.node .fdRead = fe.fd o'.node .fdRead) ∧
    Left (u' o) (fe'.fd o.node .fdRead)

theorem drained_close (hq : Quiet u w) (hfd : fe.fd o.node .fdRead = c.fdRead o) :
    wp (env c) (fdCloseAt o.node .fdRead) (fun _ => Drained u o fe fun _ fd => fd = -1) fe w := by
  refine wp_fdCloseAt (fun hneg => ?_) fun _ r w' he => ⟨u, hq.close he, fun o' ho => ?_, ?_⟩
  · rw [hfd] at hneg
    exact absurd (c.fdRead_nonneg o) (Int.not_le.mpr hneg)
  · rw [fd_setFd, if_neg fun hn => ho (Output.node_inj hn.1)]
    exact ⟨rfl, rfl⟩
  · rw [fd_setFd, if_pos ⟨rfl, rfl⟩]

/-- A `read()` gives at least one byte, or it is the last one. -/
theorem intSinkRead_drains (h : Inv c noBuf fe w) (hq : Quiet u w) (o : Output) :
    wp (env c) (intSinkRead o.node 22) (fun r => Drained u o fe fun n fd =>
      r.1 < 0 ∧ fd = -1 ∨ 0 < r.1 ∧ n + 1 ≤ u o) fe w := by
  simp only [intSinkRead, Program.wp_ite, Program.wp_bind, Program.wp_get, Program.wp_pure,
    Program.wp_perform, h.ready]
  rw [if_neg (by decide), if_neg (by decide)]
  split
  · next hneg =>
    rcases h.fd o with ⟨hf, -⟩ | ⟨hf, -⟩
    · rw [hf] at hneg
      exact absurd (c.fdRead_nonneg o) (Int.not_le.mpr hneg)
    · exact ⟨u, hq, fun _ _ => ⟨rfl, rfl⟩, .inl ⟨by decide, hf⟩⟩
  next hpos =>
  rintro r w' ⟨w₁, hc, hs⟩
  have h₁ := h.child hc
  have hq₁ := hq.child hc
  obtain ⟨hfd, hr⟩ := (h₁.fd o).resolve_right fun hf => hpos (hf.1 ▸ by decide)
  have hp := hs.1 o hfd
  unfold readPipe at hp
  rw [if_neg (by rw [hr]; decide)] at hp
  cases r with
  | data d =>
    cases d with
    | nil =>
      obtain ⟨-, rfl⟩ := hp
      refine wp_seq (drained_close hq₁ hfd) ?_
      rintro _ _ _ ⟨u', hq', hsame, hend⟩
      exact ⟨u', hq', hsame, .inl ⟨by decide, hend⟩⟩
    | cons b d =>
      obtain ⟨-, rest, hu, rfl⟩ := hp
      refine ⟨Function.update u o rest.length, ⟨hq₁.dead, fun o' => ?_, fun o' => ?_⟩,
        fun o' ho => ⟨Function.update_of_ne ho .., rfl⟩, .inr ⟨?_, ?_⟩⟩
      · rw [stream_setStream]
        split
        · exact hq₁.closed o
        · exact hq₁.closed o'
      · rw [stream_setStream, Function.update_apply]
        split
        · rfl
        · exact hq₁.unread o'
      · exact Int.natCast_pos.mpr (Nat.succ_pos _)
      · have hlen := hq₁.unread o
        rw [hu, List.cons_append, List.length_cons, List.length_append] at hlen
        rw [Function.update_self]
        omega
  | eagain =>
    obtain ⟨-, hopen, -⟩ := hp
    rw [hq₁.closed o] at hopen
    cases hopen
  | error => exact hp.elim

/-- A round takes a byte, or the loop ends with the pipe closed. -/
theorem autoSinkRound_drains (h : Inv c noBuf fe w) (hq : Quiet u w) (o : Output) :
    wp (env c) (autoSinkRound o.node) (fun r => Drained u o fe fun n fd =>
      match r with
      | .inl _ => n + 1 ≤ u o
      | .inr _ => fd = -1) fe w := by
  refine wp_seq (wp_and (intSinkRead_inv h o) (intSinkRead_drains h hq o)) ?_
  rintro ⟨lenDone, d⟩ fe₁ w₁ ⟨hr, u', hq', hsame, hleft⟩
  unfold SinkRead at hr
  have hset : ∀ {v : FeNode}, v.pipe = (fe₁.node o.node).pipe → ∀ o' : Output,
      (fe₁.setNode o.node v).fd o'.node .fdRead = fe₁.fd o'.node .fdRead :=
    fun hp o' => fd_setNode _ _ _ _ _ hp
  simp only [Program.wp_ite, Program.wp_bind, Program.wp_get, Program.wp_pure]
  rcases hleft with ⟨hneg, hfd⟩ | ⟨hpos, hle⟩
  · rw [if_neg (Int.ne_of_lt hneg), if_pos hneg] at hr ⊢
    have hs := hr.1.sink o
    rw [autoSinkFinish, Program.wp_bind, Program.wp_get, hs.lstFds]
    simp only [autoSinkFdsClose, Program.wp_bind, Program.wp_pure, Program.wp_get,
      hs.lstTransfers, Program.each, Program.wp_modify]
    refine ⟨u', hq', fun o' ho => ⟨(hsame o' ho).1, ?_⟩, ?_⟩
    · refine (hset ?_ o').trans (hsame o' ho).2
      rfl
    · refine (hset ?_ o).trans hfd
      rfl
  · have hne : lenDone ≠ 0 := Int.ne_of_gt hpos
    have hnot : ¬ lenDone < 0 := Int.not_lt.mpr (Int.le_of_lt hpos)
    rw [if_neg hne, if_neg hnot] at hr ⊢
    have hs := hr.sink o
    simp only [hs.lstBuffers, autoSinkBuffers, Program.wp_pure, Program.wp_bind,
      Program.wp_modify, Program.wp_ite]
    rw [if_neg (by decide), autoSinkOthers, Program.wp_bind, Program.wp_get]
    simp only [node_setNode, if_true, hs.lstStrings, hs.lstFds, hs.lstTransfers, Program.each,
      Program.wp_bind, Program.wp_pure, Program.wp_perform]
    rintro _ w₂ he
    refine ⟨u', hq'.call he fun _ hs => ?_, fun o' ho => ⟨(hsame o' ho).1, ?_⟩, hle⟩
    · obtain rfl := hs
      exact ⟨rfl, fun _ => ⟨rfl, rfl⟩⟩
    · refine (hset ?_ o').trans (hsame o' ho).2
      rfl

/-- A call of `autoSink` takes 23 bytes, or the pipe is closed after it. -/
theorem autoSink_drains (h : Inv c noBuf fe w) (hq : Quiet u w) (o : Output) :
    wp (env c) (autoSink o.node) (fun _ fe' w' => Inv c noBuf fe' w' ∧
      Drained u o fe (fun n fd => fd = -1 ∨ n + 23 ≤ u o) fe' w') fe w := by
  simp only [autoSink, Program.wp_ite, Program.wp_bind, Program.wp_get, Program.wp_pure]
  rw [if_neg (by simp [(h.sink o).autoEnabled])]
  split
  · next hdone => exact ⟨h, u, hq, fun _ _ => ⟨rfl, rfl⟩, .inl (h.done o hdone)⟩
  refine Program.wp_rounds (fun k _ fe' w' => k ≤ 23 ∧ Inv c noBuf fe' w' ∧
    Drained u o fe (fun n _ => n + (23 - k) ≤ u o) fe' w') ?_ ?_
    ⟨Nat.le_refl _, h, u, hq, fun _ _ => ⟨rfl, rfl⟩, Nat.le_refl _⟩
  · rintro k _ fe₁ w₁ ⟨hk, h₁, u₁, hq₁, hsame, hle⟩
    refine wp_mono (wp_and (autoSinkRound_inv h₁ o) (autoSinkRound_drains h₁ hq₁ o)) ?_
    rintro r fe₂ w₂ ⟨h₂, u₂, hq₂, hsame₂, hleft⟩
    have hall : ∀ o' ≠ o, u₂ o' = u o' ∧ fe₂.fd o'.node .fdRead = fe.fd o'.node .fdRead :=
      fun o' ho => ⟨(hsame₂ o' ho).1.trans (hsame o' ho).1,
        (hsame₂ o' ho).2.trans (hsame o' ho).2⟩
    cases r with
    | inl _ => exact ⟨by omega, h₂, u₂, hq₂, hall, by omega⟩
    | inr _ => exact ⟨h₂, u₂, hq₂, hall, .inl hleft⟩
  · rintro _ fe₁ w₁ ⟨-, h₁, u₁, hq₁, hsame, hle⟩
    exact ⟨h₁, u₁, hq₁, hsame, .inr hle⟩

/-! ## The tick -/

def isEnd : WaitResult → Bool
  | .exited _ | .signaled _ => true
  | _ => false

/-- The system in which `waitpid` reports the termination of a child that is gone. -/
def prompt (c : Setup) (w : Os) : (k : Call) → Answer k → Os → Prop
  | .waitpid id, r, w' => env c w (.waitpid id) r w' ∧ (w'.alive = false → isEnd r = true)
  | k, r, w' => env c w k r w'

theorem env_of_prompt (w : Os) (k : Call) (r : Answer k) (w' : Os) (h : prompt c w k r w') :
    env c w k r w' := by
  cases k with
  | waitpid id => exact h.1
  | _ => exact h

/-- The ticks that a pipe with `n` bytes needs. -/
def turnsOf (fd : Int) (n : Nat) : Nat := if fd = -1 then 0 else n / 23 + 1

def turns (s : FileExecuting × Os) (o : Output) : Nat :=
  turnsOf (s.1.fd o.node .fdRead) (s.2.stream o).unread.length

theorem turnsOf_drained {fd fd' : Int} {n n' : Nat} (hclosed : fd = -1 → n = 0)
    (h : fd' = -1 ∨ n' + 23 ≤ n) : turnsOf fd' n' ≤ turnsOf fd n - 1 := by
  unfold turnsOf
  rcases h with hend | hle
  · rw [if_pos hend]
    exact Nat.zero_le _
  · have hopen : fd ≠ -1 := fun he => by
      have hzero := hclosed he
      omega
    rw [if_neg hopen]
    split
    · exact Nat.zero_le _
    · omega

theorem turnsOf_eq_zero {fd : Int} {n : Nat} : turnsOf fd n = 0 ↔ fd = -1 := by
  unfold turnsOf
  split <;> simp_all

theorem Inv.quiet (h : Inv c buf fe w) (hdead : w.alive = false) :
    Quiet (fun o => (w.stream o).unread.length) w :=
  ⟨hdead, h.exited hdead, fun _ => rfl⟩

/-- The termination is recorded. -/
theorem childStateRecord_ends (hq : Quiet u w) :
    wp (prompt c) childStateRecord (fun res fe' w' => Quiet u w' ∧
      (∀ o : Output, fe'.fd o.node .fdRead = fe.fd o.node .fdRead) ∧ res ≠ .negative ∧
        fe'.mResult.childTerminated = true) fe w := by
  rw [childStateRecord, Program.wp_bind, Program.wp_get, Program.wp_ite]
  split
  · next hterm => exact ⟨hq, fun _ => rfl, by decide, hterm⟩
  rw [Program.wp_bind, Program.wp_get, Program.wp_bind, Program.wp_perform]
  rintro st w' ⟨he, hend⟩
  have hq' : Quiet u w' := hq.same he fun _ hs => hs.2
  have hst := hend hq'.dead
  cases st with
  | exited code => exact ⟨hq', fun o => by cases o <;> rfl, by decide, rfl⟩
  | signaled sig => exact ⟨hq', fun o => by cases o <;> rfl, by decide, rfl⟩
  | _ => cases hst

/-- A tick after the end of the child: the pipes need one tick less, and the result is the end if
they are closed. -/
def TickEnds (c : Setup) (s : FileExecuting × Os) (res : Success) (fe' : FileExecuting)
    (w' : Os) : Prop :=
  Inv c noBuf fe' w' ∧ w'.alive = false ∧ (∀ o, turns (fe', w') o ≤ turns s o - 1) ∧
    (res = .pending ∧ (∃ o, turns (fe', w') o ≠ 0) ∨
      res = .positive ∧ fe'.mResult.childTerminated = true ∧ ∀ o, turns (fe', w') o = 0)

theorem process_ends (h : Inv c noBuf fe w) (hdead : w.alive = false) :
    wp (prompt c) process (TickEnds c (fe, w)) fe w := by
  have hack : ∀ {u f fe w}, Waiting c u f fe w → Waiting c u f { fe with mDoneAck := true } w := by
    intro u f fe w h
    refine ⟨?_, h.quiet, fun o => ?_⟩
    · exact { h.inv with
        sink := fun o => by cases o; exacts [h.inv.sink .out, h.inv.sink .err]
        fd := fun o => by cases o; exacts [h.inv.fd .out, h.inv.fd .err]
        done := fun o => by cases o; exacts [h.inv.done .out, h.inv.done .err] }
    · rw [← h.fd o]
      cases o <;> rfl
  have hstart : Waiting c (fun o => (w.stream o).unread.length)
      (fun o => fe.fd o.node .fdRead) fe w := ⟨h, h.quiet hdead, fun _ => rfl⟩
  have hclosed : ∀ o : Output, fe.fd o.node .fdRead = -1 → (w.stream o).unread.length = 0 := by
    intro o hf
    rcases h.fd o with ⟨hfd, -⟩ | ⟨-, hu, -⟩
    · exact absurd (hf.symm.trans hfd) (neg_one_ne o)
    · rw [hu, List.length_nil]
  rw [process, Program.wp_bind, Program.wp_get, h.state]
  refine wp_seq (wp_anti env_of_prompt (waitingKept.doneCheck hack hstart)) fun _ fe₁ w₁ h₁ => ?_
  refine wp_seq (wp_anti env_of_prompt (waitingKept.autoSource h₁)) fun _ fe₂ w₂ h₂ => ?_
  refine wp_seq (wp_anti env_of_prompt (autoSink_drains h₂.inv h₂.quiet .out)) ?_
  rintro _ fe₃ w₃ ⟨h₃, u₃, hq₃, hsame₃, hout⟩
  refine wp_seq (wp_anti env_of_prompt (autoSink_drains h₃ hq₃ .err)) ?_
  rintro _ fe₄ w₄ ⟨h₄, u₄, hq₄, hsame₄, herr⟩
  have hturns : ∀ o, turnsOf (fe₄.fd o.node .fdRead) (u₄ o) ≤ turns (fe, w) o - 1 := by
    intro o
    refine turnsOf_drained (hclosed o) ?_
    cases o with
    | out =>
      obtain ⟨hu, hfd⟩ := hsame₄ .out (by decide)
      rw [hu, hfd]
      exact hout
    | err =>
      have hu := (hsame₃ .err (by decide)).1
      rw [hu] at herr
      exact herr
  refine wp_seq (wp_and (wp_anti env_of_prompt (childStateRecord_inv h₄))
    (childStateRecord_ends hq₄)) ?_
  rintro res fe₅ w₅ ⟨h₅, hq₅, hsame₅, hres, hterm⟩
  have hleft : ∀ o, turns (fe₅, w₅) o = turnsOf (fe₄.fd o.node .fdRead) (u₄ o) := fun o => by
    rw [turns, hq₅.unread o, hsame₅ o]
  have hle : ∀ o, turns (fe₅, w₅) o ≤ turns (fe, w) o - 1 := fun o => hleft o ▸ hturns o
  have hopen : ∀ o : Output, turns (fe₅, w₅) o ≠ 0 ↔ fe₅.fd o.node .fdRead ≠ -1 :=
    fun o => not_congr turnsOf_eq_zero
  simp only [Program.wp_ite, Program.wp_bind, Program.wp_get, Program.wp_pure, hterm]
  rw [if_neg hres, if_neg (by decide)]
  split
  · next hout => exact ⟨h₅, hq₅.dead, hle, .inl ⟨rfl, .out, (hopen .out).mpr hout⟩⟩
  split
  · next herr => exact ⟨h₅, hq₅.dead, hle, .inl ⟨rfl, .err, (hopen .err).mpr herr⟩⟩
  next hout herr =>
  refine ⟨h₅, hq₅.dead, hle, .inr ⟨rfl, hterm, fun o => ?_⟩⟩
  cases o with
  | out => exact turnsOf_eq_zero.mpr (not_not.mp hout)
  | err => exact turnsOf_eq_zero.mpr (not_not.mp herr)

/-! ## Runs -/

/-- A tick that is not the last one. -/
def PendingTick (c : Setup) (s t : FileExecuting × Os) : Prop :=
  Exec (prompt c) process s.1 s.2 .pending t.1 t.2

/-- The ticks that may still be pending. -/
def pendings (s : FileExecuting × Os) : Nat := max (turns s .out) (turns s .err) - 1

theorem pendings_le (s : FileExecuting × Os) :
    pendings s ≤ max (s.2.stream .out).unread.length (s.2.stream .err).unread.length / 23 := by
  have hturns : ∀ o, turns s o ≤ (s.2.stream o).unread.length / 23 + 1 := by
    intro o
    unfold turns turnsOf
    split
    · exact Nat.zero_le _
    · exact Nat.le_refl _
  have hout := hturns .out
  have herr := hturns .err
  have hmax := Nat.div_le_div_right (c := 23) (Nat.le_max_left (s.2.stream .out).unread.length
    (s.2.stream .err).unread.length)
  have hmax' := Nat.div_le_div_right (c := 23) (Nat.le_max_right (s.2.stream .out).unread.length
    (s.2.stream .err).unread.length)
  unfold pendings
  omega

theorem pendingTick_ranked (s t : FileExecuting × Os) (h : Inv c noBuf s.1 s.2 ∧ s.2.alive = false)
    (ht : PendingTick c s t) :
    (Inv c noBuf t.1 t.2 ∧ t.2.alive = false) ∧ pendings t + 1 ≤ pendings s := by
  obtain ⟨fe, w⟩ := s
  obtain ⟨fe', w'⟩ := t
  have hticked : TickEnds c (fe, w) .pending fe' w' :=
    Program.wp_iff.mp (process_ends h.1 h.2) _ _ _ ht
  obtain ⟨hinv, hdead, hle, ⟨-, o, ho⟩ | ⟨hp, -⟩⟩ := hticked
  · refine ⟨⟨hinv, hdead⟩, ?_⟩
    have hout := hle .out
    have herr := hle .err
    unfold pendings
    cases o <;> omega
  · cases hp

/-- Once the child is gone, at most a tick for each 23 bytes in a pipe is pending, and the tick that
is not gives the end with all that the child has written. -/
theorem command_ends {s t : FileExecuting × Os} {n : Nat}
    (h : Reachable (fun s => Start c s.1 s.2) (Step c) s) (hdead : s.2.alive = false)
    (hn : Steps (PendingTick c) n s t) :
    n ≤ max (s.2.stream .out).unread.length (s.2.stream .err).unread.length / 23 ∧
      ∀ res fe w, Exec (prompt c) process t.1 t.2 res fe w → res = .pending ∨
        res = .positive ∧ fe.mResult.childTerminated = true ∧
          ∀ o, w.strs (c.str o) = (w.stream o).written := by
  obtain ⟨⟨hinv, hdead'⟩, hle⟩ := hn.ranked pendingTick_ranked ⟨reachable_inv h, hdead⟩
  refine ⟨Nat.le_trans (Nat.le_trans (Nat.le_add_left _ _) hle) (pendings_le s),
    fun res fe w he => ?_⟩
  obtain ⟨hinv', -, -, hend⟩ := Program.wp_iff.mp (process_ends hinv hdead') _ _ _ he
  rcases hend with ⟨rfl, -⟩ | ⟨rfl, hterm, hclosed⟩
  · exact .inl rfl
  refine .inr ⟨rfl, hterm, fun o => ?_⟩
  rcases hinv'.fd o with ⟨hf, -⟩ | ⟨-, hu, -⟩
  · exact absurd ((turnsOf_eq_zero.mp (hclosed o)).symm.trans hf) (neg_one_ne o)
  · have htext := hinv'.text o
    rwa [hu, noBuf, List.append_nil, List.append_nil] at htext

theorem prompt_answer (c : Setup) (w : Os) (k : Call) :
    prompt c w k (answer c w k).1 (answer c w k).2 := by
  have henv := env_answer c w k
  cases k with
  | waitpid id =>
    refine ⟨henv, fun hdead => ?_⟩
    replace hdead : w.alive = false := hdead
    simp [answer, hdead, isEnd]
  | _ => exact henv

/-- The two bytes come in the first tick. -/
theorem command_ends_hi : ∃ (s : FileExecuting × Os) (fe : FileExecuting) (w : Os),
    Reachable (fun s => Start setup s.1 s.2) (Step setup) s ∧ s.2.alive = false ∧
      Exec (prompt setup) process s.1 s.2 .positive fe w ∧ (w.stream .out).written = [104, 105] ∧
      w.strs 0 = (w.stream .out).written := by
  have h₀ : Reachable (fun s => Start setup s.1 s.2) (Step setup) (command, exited) :=
    .start { state := rfl, ready := rfl, sink := fun o => by cases o <;> constructor <;> rfl
             active := fun o => by cases o <;> rfl
             fd := fun o => by cases o <;> rfl
             running := rfl
             stdin := fun o => by cases o <;> decide
             files := fun f hf => nomatch hf
             empty := fun _ => rfl
             unread := fun o => by cases o <;> rfl
             readable := fun o => by cases o <;> rfl
             exited := fun _ o => by cases o <;> rfl }
  have hrun := Program.exec_run (prompt_answer setup) process command exited
  have hend := (command_ends h₀ rfl .refl).2 _ _ _ hrun
  exact ⟨_, _, _, h₀, rfl, hrun, rfl, (hend.resolve_left (by decide)).2.2 .out⟩

end Sinks

end FileExecuting

end ProcessingCommon

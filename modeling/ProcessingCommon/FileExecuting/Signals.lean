import ProcessingCommon.FileExecuting.ChildFrame
import ProcessingCommon.FileExecuting.Container
import Mathlib.Data.List.Nodup

/-!
# Signals to the children

The runs of a container with the processes that its commands have forked, and `sigSend`. A command
without a process, because it has not forked yet or because its child has been reaped, is an error
for `sigSend`, which ends the round over the commands: the ones behind it get no signal.
-/

namespace ProcessingCommon

namespace FileExecuting

namespace Signals

open Program (wp Exec wp_mono wp_seq)
open Transition (Reachable)

/-! ## `sigSend` -/

/-- A call of `kill()`. -/
structure Kill where
  pid : Int
  sig : Int
deriving DecidableEq

abbrev Sending := Program Kill (fun _ => Int) Unit

/-- `sigSend` of an internal. -/
def sigSendInternal (fe : FileExecuting) (sig : Int) : Sending Int := do
  if fe.mResult.idChild < 0 then return -2
  Program.perform ⟨fe.mResult.idChild, sig⟩

def sigSendAll (sig : Int) : List FileExecuting → Sending Int
  | [] => return 0
  | fe :: l => do
    let res ← sigSendInternal fe sig
    if res < 0 then return -4
    sigSendAll sig l

/-- `sigSend` of the container; the default of `idx` is `-1`. -/
def sigSend (mLstExec : List FileExecuting) (sig idx : Int) : Sending Int := do
  if idx ≥ mLstExec.length then return -3
  if 0 ≤ idx then
    match mLstExec[idx.toNat]? with
    | some fe => sigSendInternal fe sig
    | none => return -3
  else if mLstExec = [] then return -4
  else sigSendAll sig mLstExec

/-- The signals sent so far, where `kill()` gives what `ok` allows. -/
def kills (ok : Int → Prop) (w : List Kill) (k : Kill) (res : Int) (w' : List Kill) : Prop :=
  ok res ∧ w' = w ++ [k]

/-! ## Runs of a container -/

/-- The commands, and which of them has forked a process that has not been reaped. -/
structure Chain where
  cmds : Nat → FileExecuting
  children : Int → Option Nat

def Chain.setCmd (w : Chain) (k : Nat) (fe : FileExecuting) : Chain :=
  { w with cmds := Function.update w.cmds k fe }

/-- The calls of command `k` to the system. A fork gives a new process; an end is reported of a
process that has not been reaped, and reaps it. -/
def sys (k : Nat) (o : Int → Option Nat) : (c : Call) → Answer c → (Int → Option Nat) → Prop
  | .vfork, r, o' =>
    match r with
    | none => o' = o
    | some pid => 0 < pid ∧ o pid = none ∧ o' = Function.update o pid (some k)
  | .waitpid id, r, o' =>
    match r with
    | .exited _ | .signaled _ =>
      -- an `id` that is not positive stands for any child
      ∃ pid, (0 < id → pid = id) ∧ o pid ≠ none ∧ o' = Function.update o pid none
    | _ => o' = o
  | _, _, o' => o' = o

/-- The calls of command `k`, also to the other commands. -/
def env (k : Nat) (w : Chain) : (c : Call) → Answer c → Chain → Prop
  | .transSend (.exec j) d, _, w' =>
    ∃ res fe o, Exec (sys j) (send d) (w.cmds j) w.children res fe o ∧
      w' = ⟨Function.update w.cmds j fe, o⟩
  | .doneSet (.exec j), _, w' => w' = w.setCmd j { w.cmds j with mDone := true }
  | .sendReady (.exec j), r, w' => r = (w.cmds j).mSendReady ∧ w' = w
  | c, r, w' => ∃ o, sys k w.children c r o ∧ w' = { w with children := o }

/-- Ticks of the commands, and the calls of the user that the container hands on to them. -/
inductive Move
  | process (k : Nat)
  | shutdown (k : Nat)
  | send (k : Nat) (data : Bytes)
  | sinkRead (k : Nat) (n : NodeSel) (lenReq : Nat)
  | doneSet (k : Nat)

/-- The command that moves, and what it does. -/
def Move.cmd : Move → Nat
  | .process k => k
  | .shutdown k => k
  | .send k _ => k
  | .sinkRead k _ _ => k
  | .doneSet k => k

def Move.body : Move → Fe Unit
  | .process _ => do let _ ← FileExecuting.process
  | .shutdown _ => do let _ ← FileExecuting.shutdown
  | .send _ data => do let _ ← FileExecuting.send data
  | .sinkRead _ n lenReq => do let _ ← FileExecuting.sinkRead n lenReq
  | .doneSet _ => FileExecuting.doneSet

def count (cs : List Config) : Nat := (Container.configure cs).mLstExec.length

/-- A container that has been configured by any calls, before its first tick. -/
def Start (cs : List Config) (w : Chain) : Prop :=
  w.cmds = (fun j => (Container.configure cs).start[j]?.getD {}) ∧ ∀ pid, w.children pid = none

def Step (cs : List Config) (w : Chain) (m : Move) (w' : Chain) : Prop :=
  m.cmd < count cs ∧ ∃ fe w₁, Exec (env m.cmd) m.body (w.cmds m.cmd) w () fe w₁ ∧
    w' = w₁.setCmd m.cmd fe

def cmds (cs : List Config) (w : Chain) : List FileExecuting := (List.range (count cs)).map w.cmds

/-- Command `j` has a child that it has forked and not reaped. -/
def Live (w : Chain) (j : Nat) : Prop := ∃ pid, w.children pid = some j

/-! ## The children of the commands -/

def beforeFork : ProcState → Bool
  | .stStart | .stInternalStart | .stPipesCreate | .stFork => true
  | _ => false

def afterFork : ProcState → Bool
  | .stParentStart | .stSinksReadyWait | .stChildSupervise => true
  | _ => false

/-- The record of command `j` names its child, as long as it has not been reaped. -/
structure ChildOk (j : Nat) (fe : FileExecuting) (o : Int → Option Nat) : Prop where
  owned : ∀ pid, o pid = some j ↔ 0 < pid ∧ fe.mResult.idChild = pid
  sign : 0 < fe.mResult.idChild ∨ fe.mResult.idChild = -1
  before : beforeFork fe.mState = true → fe.mResult.idChild = -1
  after : afterFork fe.mState = true → fe.mResult.childTerminated = true ∨ 0 < fe.mResult.idChild

/-- During a move of command `k`, whose object is `fe`. -/
structure Inv (cs : List Config) (k : Nat) (fe : FileExecuting) (w : Chain) : Prop where
  bound : ∀ pid j, w.children pid = some j → j < count cs
  child : ∀ j, ChildOk j ((w.setCmd k fe).cmds j) w.children

variable {cs : List Config} {w w' : Chain} {j k : Nat} {fe fe' : FileExecuting}
  {o o' : Int → Option Nat} {pid : Int}

theorem setCmd_cmds (w : Chain) (k : Nat) (fe : FileExecuting) (j : Nat) :
    (w.setCmd k fe).cmds j = if j = k then fe else w.cmds j := Function.update_apply ..

theorem ChildOk.same (h : ChildOk j fe o) (hs : SameChild fe fe') : ChildOk j fe' o where
  owned pid := by rw [hs.2]; exact h.owned pid
  sign := by rw [hs.2]; exact h.sign
  before hst := by rw [hs.2]; exact h.before (hs.1 ▸ hst)
  after hst := by rw [hs.2]; exact h.after (hs.1 ▸ hst)

theorem ChildOk.goto (h : ChildOk j fe o) {st : ProcState}
    (hb : beforeFork st = true → beforeFork fe.mState = true)
    (ha : afterFork st = true → afterFork fe.mState = true) :
    ChildOk j { fe with mState := st } o :=
  ⟨h.owned, h.sign, fun hst => h.before (hb hst), fun hst => h.after (ha hst)⟩

theorem Inv.self (h : Inv cs k fe w) : ChildOk k fe w.children := by
  have hk := h.child k
  rwa [setCmd_cmds, if_pos rfl] at hk

theorem Inv.other (h : Inv cs k fe w) (hj : j ≠ k) : ChildOk j (w.cmds j) w.children := by
  have hk := h.child j
  rwa [setCmd_cmds, if_neg hj] at hk

/-- A change of a process that is not the child of `j`, before and after it. -/
theorem update_owner {a : Option Nat} (hold : o pid ≠ some j) (hnew : a ≠ some j) (p : Int) :
    Function.update o pid a p = some j ↔ o p = some j := by
  rw [Function.update_apply]
  split
  · next hp => exact iff_of_false hnew (hp ▸ hold)
  · exact Iff.rfl

theorem update_bound {n : Nat} (h : ∀ p j, o p = some j → j < n) (pid : Int) {a : Option Nat}
    (ha : ∀ j, a = some j → j < n) (p : Int) (j : Nat)
    (hp : Function.update o pid a p = some j) : j < n := by
  rw [Function.update_apply] at hp
  split at hp
  · exact ha j hp
  · exact h p j hp

/-- What has to be shown of a step of command `k`. -/
theorem Inv.update (h : Inv cs k fe w) (hbound : ∀ pid j, o' pid = some j → j < count cs)
    (hself : ChildOk k fe' o') (hother : ∀ j, j ≠ k → ∀ pid, o' pid = some j ↔
      w.children pid = some j) : Inv cs k fe' { w with children := o' } := by
  refine ⟨hbound, fun j => ?_⟩
  rw [setCmd_cmds]
  split
  · next hj => exact hj ▸ hself
  · next hj =>
    have hj' := h.other hj
    exact { hj' with owned := fun pid => (hother j hj pid).trans (hj'.owned pid) }

/-- What is not about processes leaves the children and the records alone. -/
theorem sys_quiet {c : Call} {r : Answer c} (hc : c.ofChild = false) (he : sys k o c r o') :
    o' = o := by
  cases c <;> first | exact he | cases hc

theorem env_quiet {c : Call} {r : Answer c} (hc : c.ofChild = false) (he : env k w c r w') :
    w' = w ∨ ∃ j fe', SameChild (w.cmds j) fe' ∧ w' = w.setCmd j fe' := by
  have hos : (∃ o, sys k w.children c r o ∧ w' = { w with children := o }) → w' = w := by
    rintro ⟨o, ho, rfl⟩
    rw [sys_quiet hc ho]
  cases c with
  | transSend t d =>
    cases t with
    | user id => exact .inl (hos he)
    | exec j =>
      obtain ⟨res, fe', o, hsend, rfl⟩ := he
      have hkept : ChildKept (sys j) (fun fe o => SameChild (w.cmds j) fe ∧ o = w.children) :=
        ⟨fun h hs => ⟨⟨hs.1.trans h.1.1, hs.2.trans h.1.2⟩, h.2⟩,
          fun hc h he => ⟨h.1, (sys_quiet hc he).trans h.2⟩⟩
      obtain ⟨hs, rfl⟩ := Program.wp_iff.mp
        (hkept.stdin.send ⟨SameChild.refl _, rfl⟩ d) _ _ _ hsend
      exact .inr ⟨j, fe', hs, rfl⟩
  | doneSet t =>
    cases t with
    | user id => exact .inl (hos he)
    | exec j => exact .inr ⟨j, { w.cmds j with mDone := true }, ⟨rfl, rfl⟩, he⟩
  | sendReady t =>
    cases t with
    | user id => exact .inl (hos he)
    | exec j => exact .inl he.2
  | vfork => cases hc
  | waitpid _ => cases hc
  | _ => exact .inl (hos he)

theorem inv_kept (cs : List Config) (k : Nat) : ChildKept (env k) (Inv cs k) where
  same h hs := by
    refine ⟨h.bound, fun j => ?_⟩
    rw [setCmd_cmds]
    split
    · next hj => exact hj ▸ h.self.same hs
    · next hj => exact h.other hj
  call hc h he := by
    rcases env_quiet hc he with rfl | ⟨i, fe', hs, rfl⟩
    · exact h
    · refine ⟨h.bound, fun j => ?_⟩
      rw [setCmd_cmds, setCmd_cmds]
      split
      · next hj => exact hj ▸ h.self
      · next hj =>
        split
        · next hi => exact (h.other hj).same (hi ▸ hs)
        · exact h.other hj

/-! ## One move -/

theorem Inv.goto (h : Inv cs k fe w) {st : ProcState}
    (hb : beforeFork st = true → beforeFork fe.mState = true)
    (ha : afterFork st = true → afterFork fe.mState = true) :
    Inv cs k { fe with mState := st } w :=
  h.update h.bound (h.self.goto hb ha) fun _ _ _ => Iff.rfl

theorem Inv.forkStart (hk : k < count cs) (h : Inv cs k fe w) (hst : fe.mState = .stFork) :
    wp (env k) forkStart (fun _ => Inv cs k) fe w := by
  simp only [FileExecuting.forkStart, Program.wp_ite, Program.wp_bind, Program.wp_perform,
    Program.wp_pure]
  intro r w₁ he
  have h₁ := (inv_kept cs k).call rfl h he
  split
  · exact h₁
  intro r w₂ he
  have h₂ := (inv_kept cs k).call rfl h₁ he
  split
  · exact h₂
  rintro r w₃ ⟨o, hsys, rfl⟩
  cases r with
  | none =>
    obtain rfl := hsys
    exact h₂
  | some pid =>
    obtain ⟨hpid, hnew, rfl⟩ := hsys
    have hid : fe.mResult.idChild = -1 := h₂.self.before (by rw [hst]; rfl)
    have hbound : ∀ j, some k = some j → j < count cs := fun j hj => Option.some.inj hj ▸ hk
    refine h₂.update (update_bound h₂.bound pid hbound) ⟨fun p => ?_, .inl hpid,
      (fun hb => nomatch hb), fun _ => .inr hpid⟩ fun j hj => update_owner ?_ ?_
    · rw [Function.update_apply]
      split
      · next hp => exact iff_of_true rfl ⟨hp ▸ hpid, hp.symm⟩
      · next hp =>
        rw [h₂.self.owned p, hid]
        exact iff_of_false (fun hp => by omega) fun hp' => hp hp'.2.symm
    · rw [hnew]
      exact nofun
    · exact fun he => hj (Option.some.inj he).symm

/-- The child has been reaped, and the record says so. -/
theorem Inv.reaped (h : Inv cs k fe w) (hid : 0 < fe.mResult.idChild) {r : FeResult}
    (hr : r.idChild = -1) (hterm : r.childTerminated = true) :
    Inv cs k { fe with mResult := r }
      { w with children := Function.update w.children fe.mResult.idChild none } := by
  have hown : w.children fe.mResult.idChild = some k := (h.self.owned _).mpr ⟨hid, rfl⟩
  refine h.update (update_bound h.bound _ nofun) ⟨fun p => ?_, .inr hr, fun _ => hr,
    fun _ => .inl hterm⟩ fun j hj => update_owner ?_ nofun
  · dsimp only
    rw [Function.update_apply, hr]
    split
    · exact iff_of_false nofun fun hp => by omega
    · next hp =>
      rw [h.self.owned p]
      exact iff_of_false (fun hp' => hp hp'.2.symm) fun hp => by omega
  · rw [hown]
    exact fun he => hj (Option.some.inj he).symm

theorem Inv.childStateRecord (h : Inv cs k fe w) (hst : fe.mState = .stChildSupervise) :
    wp (env k) childStateRecord (fun _ => Inv cs k) fe w := by
  refine wp_mono childStateRecord_spec fun _ fe' w' hspec => ?_
  rcases hspec with ⟨-, rfl, rfl⟩ | ⟨hrun, st, ⟨o, hsys, rfl⟩, rfl⟩
  · exact h
  -- a child that is not recorded as terminated is there
  have hid : 0 < fe.mResult.idChild := by
    rcases h.self.after (by rw [hst]; rfl) with hterm | hid
    · rw [hterm] at hrun
      cases hrun
    · exact hid
  have hsame : ∀ r : FeResult, r.idChild = fe.mResult.idChild →
      r.childTerminated = fe.mResult.childTerminated →
      Inv cs k { fe with mResult := r } w := by
    intro r hr hterm
    refine h.update h.bound ⟨fun p => ?_, ?_, fun hb => ?_, fun ha => ?_⟩ fun _ _ _ => Iff.rfl
    · dsimp only
      rw [hr]
      exact h.self.owned p
    · dsimp only
      rw [hr]
      exact h.self.sign
    · exact hr.trans (h.self.before hb)
    · dsimp only
      rw [hr, hterm]
      exact h.self.after ha
  cases st with
  | exited code =>
    obtain ⟨pid, hpid, -, rfl⟩ := hsys
    rw [hpid hid]
    exact h.reaped hid rfl rfl
  | signaled sig =>
    obtain ⟨pid, hpid, -, rfl⟩ := hsys
    rw [hpid hid]
    exact h.reaped hid rfl rfl
  | stopped sig =>
    obtain rfl := hsys
    exact hsame _ rfl rfl
  | continued =>
    obtain rfl := hsys
    exact hsame _ rfl rfl
  | unchanged =>
    obtain rfl := hsys
    exact h
  | eagain =>
    obtain rfl := hsys
    exact h
  | error =>
    obtain rfl := hsys
    exact h
  | unknown =>
    obtain rfl := hsys
    exact h

theorem Inv.process (hk : k < count cs) (h : Inv cs k fe w) :
    wp (env k) process (fun _ => Inv cs k) fe w := by
  rw [FileExecuting.process, Program.wp_bind, Program.wp_get]
  -- the members of a state are run with what holds in it
  have hkept := fun st => (inv_kept cs k).inState st
  cases hst : fe.mState with
  | stStart => exact h.goto (fun _ => by rw [hst]; rfl) fun ha => nomatch ha
  | stInternalStart => exact h.goto (fun _ => by rw [hst]; rfl) fun ha => nomatch ha
  | stPipesCreate =>
    refine (hkept .stPipesCreate).pipesCreate (fun _ _ h => h.2) (fun fe w h => ?_) ⟨hst, h⟩
    exact h.2.goto (fun _ => by rw [h.1]; rfl) fun ha => nomatch ha
  | stFork => exact h.forkStart hk hst
  | stParentStart =>
    refine (hkept .stParentStart).parentStart (fun _ _ h => h.2) (fun fe w h => ?_) ⟨hst, h⟩
    exact h.2.goto (fun hb => nomatch hb) fun _ => by rw [h.1]; rfl
  | stSinksReadyWait =>
    refine (hkept .stSinksReadyWait).sinksReadyWait (fun _ _ h => h.2) (fun fe w h => ?_) ⟨hst, h⟩
    exact h.2.goto (fun hb => nomatch hb) fun _ => by rw [h.1]; rfl
  | stChildSupervise =>
    exact (hkept .stChildSupervise).childSupervise (fun _ _ h => h.2.childStateRecord h.1) ⟨hst, h⟩
  | stSdStart => exact h
  | stSdInternals => exact h
  | stSdPipesClose => exact h

theorem Inv.shutdown (h : Inv cs k fe w) : wp (env k) shutdown (fun _ => Inv cs k) fe w := by
  have hgoto : ∀ st, beforeFork st = false → afterFork st = false →
      Inv cs k { fe with mState := st } w := by
    intro st hb ha
    exact h.goto (fun hb' => by rw [hb] at hb'; cases hb') fun ha' => by rw [ha] at ha'; cases ha'
  rw [FileExecuting.shutdown, Program.wp_bind, Program.wp_get]
  split
  · exact hgoto _ rfl rfl
  · exact hgoto _ rfl rfl
  · refine wp_seq ((inv_kept cs k).pipeClose h .nodeIn) fun _ fe w h => ?_
    refine wp_seq ((inv_kept cs k).pipeClose h .nodeOut) fun _ fe w h => ?_
    exact wp_seq ((inv_kept cs k).pipeClose h .nodeErr) fun _ fe w h => h
  · exact hgoto _ rfl rfl

/-! ## Runs -/

/-- Between the moves. -/
structure Sound (cs : List Config) (w : Chain) : Prop where
  bound : ∀ pid j, w.children pid = some j → j < count cs
  child : ∀ j, ChildOk j (w.cmds j) w.children

theorem Sound.inv (h : Sound cs w) (k : Nat) : Inv cs k (w.cmds k) w := by
  refine ⟨h.bound, fun j => ?_⟩
  rw [setCmd_cmds]
  split
  · next hj => exact hj ▸ h.child j
  · exact h.child j

theorem Inv.sound (h : Inv cs k fe w) : Sound cs (w.setCmd k fe) := ⟨h.bound, h.child⟩

theorem Step.sound {m : Move} (h : Sound cs w) (hs : Step cs w m w') : Sound cs w' := by
  obtain ⟨hk, fe, w₁, he, rfl⟩ := hs
  have hinv := h.inv m.cmd
  have hbody : wp (env m.cmd) m.body (fun _ => Inv cs m.cmd) (w.cmds m.cmd) w := by
    cases m with
    | process k => exact Program.wp_result (hinv.process hk) _
    | shutdown k => exact Program.wp_result hinv.shutdown _
    | send k data => exact Program.wp_result ((inv_kept cs k).stdin.send hinv data) _
    | sinkRead k n lenReq => exact Program.wp_result ((inv_kept cs k).sinkRead hinv n lenReq) _
    | doneSet k => exact (inv_kept cs k).same hinv ⟨rfl, rfl⟩
  exact (Program.wp_iff.mp hbody _ _ _ he).sound

theorem forall_mem_modify {P : FileExecuting → Prop} {l : List FileExecuting}
    {f : FileExecuting → FileExecuting} (hf : ∀ fe, P fe → P (f fe)) (h : ∀ fe ∈ l, P fe)
    (i : Nat) : ∀ fe ∈ l.modify i f, P fe := by
  intro fe hfe
  obtain ⟨j, hj⟩ := List.mem_iff_getElem?.mp hfe
  rw [List.getElem?_modify] at hj
  obtain ⟨fe₀, hfe₀, rfl⟩ := Option.map_eq_some_iff.mp hj
  have hP := h fe₀ (List.mem_of_getElem? hfe₀)
  split
  · exact hf _ hP
  · exact hP

/-- The calls of the user leave the state and the record of every command as they were made. -/
theorem apply_new {c : Container} (h : ∀ fe ∈ c.mLstExec, SameChild {} fe) (i : Config) :
    ∀ fe ∈ (c.apply i).mLstExec, SameChild {} fe := by
  have hsink : ∀ fdSel f, ∀ fe ∈ (c.sinkChange fdSel f).mLstExec, SameChild {} fe := by
    intro fdSel f
    refine forall_mem_modify (fun fe hfe => ?_) h _
    exact ⟨(setNode_mState ..).trans hfe.1, (setNode_mResult ..).trans hfe.2⟩
  cases i with
  | sourceEnable => exact h
  | sourceSetBuffer src => exact h
  | sourceSetFd fd autoClose =>
    simp only [Container.apply, Container.sourceSetFd]
    split <;> exact h
  | sourceSetTransfer id => exact h
  | intCmdAdd cmd =>
    have hlink : ∀ idx fe, SameChild {} fe → SameChild {} (Container.link idx fe) :=
      fun _ _ hfe => hfe
    simp only [Container.apply, Container.intCmdAdd]
    split
    · exact h
    split <;> intro fe hfe <;> rcases List.mem_append.mp hfe with hfe | hfe
    · exact h fe hfe
    · exact List.mem_singleton.mp hfe ▸ ⟨rfl, rfl⟩
    · exact forall_mem_modify (hlink _) h _ fe hfe
    · exact List.mem_singleton.mp hfe ▸ ⟨rfl, rfl⟩
  | sinkEnable fdSel => exact hsink fdSel _
  | sinkAddBuffer pDest len fdSel => exact hsink fdSel _
  | sinkAddString str fdSel => exact hsink fdSel _
  | sinkAddFd fd autoClose fdSel =>
    simp only [Container.apply, Container.sinkAddFd]
    split
    · exact h
    · exact hsink fdSel _
  | sinkAddTransfer id fdSel => exact hsink fdSel _

theorem configure_new (cs : List Config) :
    ∀ fe ∈ (Container.configure cs).mLstExec, SameChild {} fe := by
  have hmain : ∀ (cs : List Config) (c : Container), (∀ fe ∈ c.mLstExec, SameChild {} fe) →
      ∀ fe ∈ (cs.foldl Container.apply c).mLstExec, SameChild {} fe := by
    intro cs
    induction cs with
    | nil => exact fun _ h => h
    | cons i cs ih => exact fun c h => ih _ (apply_new h i)
  exact hmain cs {} fun fe hfe => nomatch hfe

theorem Start.sound (h : Start cs w) : Sound cs w := by
  obtain ⟨hcmds, hnone⟩ := h
  have hnew : ∀ j, SameChild {} (w.cmds j) := by
    intro j
    rw [hcmds]
    dsimp only
    cases hj : (Container.configure cs).start[j]? with
    | none => exact ⟨rfl, rfl⟩
    | some fe =>
      have hmem := List.mem_of_getElem? hj
      rw [Container.start] at hmem
      refine forall_mem_modify ?_ (configure_new cs) 0 fe hmem
      exact fun _ hfe => hfe
  refine ⟨fun pid j hj => ?_, fun j => ⟨fun pid => ?_, ?_, fun _ => ?_, fun ha => ?_⟩⟩
  · rw [hnone] at hj
    cases hj
  · rw [hnone, (hnew j).2]
    refine iff_of_false (fun he => nomatch he) ?_
    rintro ⟨hpos, rfl⟩
    exact absurd hpos (by decide)
  · rw [(hnew j).2]
    exact .inr rfl
  · rw [(hnew j).2]
  · rw [(hnew j).1] at ha
    cases ha

theorem reachable_sound (hs : Reachable (Start cs) (Step cs) w) : Sound cs w :=
  hs.invariant (fun _ h0 => h0.sound) fun _ _ _ h hstep => hstep.sound h

/-! ## What is sent -/

variable {sig idx res : Int} {ok : Int → Prop} {ks ks' : List Kill}

def kill (sig : Int) (fe : FileExecuting) : Kill := ⟨fe.mResult.idChild, sig⟩

/-- `sigSend` takes the command for one with a child. -/
def hasChild (fe : FileExecuting) : Bool := decide (0 ≤ fe.mResult.idChild)

/-- Every `kill()` is for a command that is taken for one with a child. -/
theorem sigSendInternal_kill (fe : FileExecuting) :
    wp (kills ok) (sigSendInternal fe sig) (fun res _ ks' =>
      hasChild fe = false ∧ res = -2 ∧ ks' = ks ∨
      hasChild fe = true ∧ ok res ∧ ks' = ks ++ [kill sig fe]) () ks := by
  rw [sigSendInternal, Program.wp_ite]
  split
  · next hneg => exact .inl ⟨decide_eq_false (by omega), rfl, rfl⟩
  · next hpos =>
    intro res ks' he
    exact .inr ⟨decide_eq_true (by omega), he⟩

theorem sigSendInternal_targets (fe : FileExecuting) :
    wp (kills ok) (sigSendInternal fe sig) (fun _ _ ks' =>
      ∀ k ∈ ks', k ∈ ks ∨ hasChild fe = true ∧ k = kill sig fe) () ks := by
  refine wp_mono (sigSendInternal_kill fe) fun res _ ks' hres k hk => ?_
  rcases hres with ⟨-, -, rfl⟩ | ⟨hchild, -, rfl⟩
  · exact .inl hk
  · rcases List.mem_append.mp hk with hk | hk
    · exact .inl hk
    · exact .inr ⟨hchild, List.mem_singleton.mp hk⟩

theorem sigSendAll_targets (l : List FileExecuting) :
    wp (kills ok) (sigSendAll sig l) (fun _ _ ks' =>
      ∀ k ∈ ks', k ∈ ks ∨ ∃ fe ∈ l, hasChild fe = true ∧ k = kill sig fe) () ks := by
  induction l generalizing ks with
  | nil => exact fun k hk => .inl hk
  | cons fe l ih =>
    refine wp_seq (sigSendInternal_targets fe) fun res _ ks₁ hone => ?_
    have hone' : ∀ k ∈ ks₁, k ∈ ks ∨ ∃ fe' ∈ fe :: l, hasChild fe' = true ∧ k = kill sig fe' :=
      fun k hk => (hone k hk).imp_right fun hk => ⟨fe, List.mem_cons_self, hk⟩
    rw [Program.wp_ite]
    split
    · exact hone'
    · refine wp_mono ih fun _ _ ks' hks k hk => ?_
      rcases hks k hk with hk | ⟨fe', hfe', hrest⟩
      · exact hone' k hk
      · exact .inr ⟨fe', List.mem_cons_of_mem _ hfe', hrest⟩

theorem sigSend_targets (l : List FileExecuting) :
    wp (kills ok) (sigSend l sig idx) (fun _ _ ks' =>
      ∀ k ∈ ks', k ∈ ks ∨ ∃ fe ∈ l, hasChild fe = true ∧ k = kill sig fe) () ks := by
  rw [sigSend, Program.wp_ite]
  split
  · exact fun k hk => .inl hk
  rw [Program.wp_ite]
  split
  · split
    · next fe hfe =>
      refine wp_mono (sigSendInternal_targets fe) fun res _ ks₁ hone k hk => ?_
      exact (hone k hk).imp_right fun hk => ⟨fe, List.mem_of_getElem? hfe, hk⟩
    · exact fun k hk => .inl hk
  rw [Program.wp_ite]
  split
  · exact fun k hk => .inl hk
  · exact sigSendAll_targets l

/-- The round over the commands comes to the first one without a child. -/
theorem sigSendAll_kills (l : List FileExecuting) :
    wp (kills (0 ≤ ·)) (sigSendAll sig l) (fun _ _ ks' =>
      ks' = ks ++ (l.takeWhile hasChild).map (kill sig)) () ks := by
  induction l generalizing ks with
  | nil => exact (List.append_nil ks).symm
  | cons fe l ih =>
    refine wp_seq (sigSendInternal_kill fe) fun res _ ks₁ hres => ?_
    rw [Program.wp_ite]
    rcases hres with ⟨hnone, rfl, rfl⟩ | ⟨hchild, hres, rfl⟩
    · rw [if_pos (by decide), List.takeWhile_cons, hnone]
      exact (List.append_nil _).symm
    · rw [if_neg (by omega), List.takeWhile_cons, hchild]
      refine wp_mono ih fun _ _ ks' hks => ?_
      rw [hks, List.append_assoc]
      rfl

/-- The commands that the default index comes to. -/
def served (cs : List Config) (w : Chain) : List Nat :=
  (List.range (count cs)).takeWhile fun j => hasChild (w.cmds j)

theorem sigSend_kills (cs : List Config) (w : Chain) :
    wp (kills (0 ≤ ·)) (sigSend (cmds cs w) sig (-1)) (fun _ _ ks =>
      ks = (served cs w).map fun j => kill sig (w.cmds j)) () [] := by
  have hserved : (served cs w).map (fun j => kill sig (w.cmds j)) =
      ((cmds cs w).takeWhile hasChild).map (kill sig) := by
    rw [cmds, List.takeWhile_map, List.map_map]
    rfl
  rw [sigSend, Program.wp_ite, if_neg (by omega), Program.wp_ite, if_neg (by decide),
    Program.wp_ite, hserved]
  split
  · next hnil =>
    rw [hnil]
    rfl
  · exact wp_mono (sigSendAll_kills _) fun _ _ _ hks => hks.trans (List.nil_append _)

theorem mem_takeWhile_range' {p : Nat → Bool} {a n i : Nat} :
    i ∈ (List.range' a n).takeWhile p ↔ (a ≤ i ∧ i < a + n) ∧ ∀ j, a ≤ j → j ≤ i → p j = true := by
  induction n generalizing a with
  | zero => exact iff_of_false List.not_mem_nil fun h => by omega
  | succ n ih =>
    rw [List.range'_succ, List.takeWhile_cons]
    cases hp : p a with
    | false =>
      refine iff_of_false List.not_mem_nil fun h => ?_
      rw [h.2 a (Nat.le_refl a) h.1.1] at hp
      cases hp
    | true =>
      rw [if_pos rfl, List.mem_cons, ih]
      constructor
      · rintro (rfl | ⟨hi, hall⟩)
        · exact ⟨by omega, fun j ha hi => (Nat.le_antisymm ha hi) ▸ hp⟩
        · refine ⟨by omega, fun j ha hi => ?_⟩
          rcases Nat.eq_or_lt_of_le ha with rfl | ha
          · exact hp
          · exact hall j ha hi
      · rintro ⟨hi, hall⟩
        rcases Nat.eq_or_lt_of_le hi.1 with rfl | ha
        · exact .inl rfl
        · exact .inr ⟨by omega, fun j hj => hall j (by omega)⟩

theorem mem_served {i : Nat} :
    i ∈ served cs w ↔ i < count cs ∧ ∀ j ≤ i, hasChild (w.cmds j) = true := by
  rw [served, List.range_eq_range', mem_takeWhile_range']
  exact ⟨fun h => ⟨by omega, fun j => h.2 j (Nat.zero_le j)⟩, fun h => ⟨by omega, fun j _ => h.2 j⟩⟩

theorem Sound.live_iff (h : Sound cs w) : Live w j ↔ hasChild (w.cmds j) = true := by
  rw [hasChild, decide_eq_true_iff]
  constructor
  · rintro ⟨pid, hpid⟩
    obtain ⟨hpos, rfl⟩ := ((h.child j).owned pid).mp hpid
    exact Int.le_of_lt hpos
  · intro hpos
    have hid : 0 < (w.cmds j).mResult.idChild := by
      rcases (h.child j).sign with hid | hid
      · exact hid
      · rw [hid] at hpos
        exact absurd hpos (by decide)
    exact ⟨_, ((h.child j).owned _).mpr ⟨hid, rfl⟩⟩

/-- Whatever `kill()` gives, it is called with the positive process of a child only. -/
def Targeted (cs : List Config) (w : Chain) : Prop :=
  ∀ sig idx res ks, Exec (kills fun _ => True) (sigSend (cmds cs w) sig idx) () [] res () ks →
    ∀ k ∈ ks, 0 < k.pid ∧ w.children k.pid ≠ none ∧ k.sig = sig

/-- With the default index, every child gets one signal if `kill()` does not fail. -/
def Delivered (cs : List Config) (w : Chain) : Prop :=
  ∀ sig res ks, Exec (kills (0 ≤ ·)) (sigSend (cmds cs w) sig (-1)) () [] res () ks →
    ∀ pid, w.children pid ≠ none → ks.count ⟨pid, sig⟩ = 1

theorem Sound.targeted (h : Sound cs w) : Targeted cs w := by
  intro sig idx res ks he k hk
  have htargets := Program.wp_iff.mp (sigSend_targets (cmds cs w)) _ _ _ he k hk
  rcases htargets with hk | ⟨fe, hfe, hchild, rfl⟩
  · cases hk
  obtain ⟨j, -, rfl⟩ := List.mem_map.mp hfe
  obtain ⟨pid, hpid⟩ := h.live_iff.mpr hchild
  obtain ⟨hpos, hid⟩ := ((h.child j).owned pid).mp hpid
  have hkill : (kill sig (w.cmds j)).pid = pid := hid
  rw [hkill, hpid]
  exact ⟨hpos, Option.some_ne_none j, rfl⟩

/-- In every run, the signals reach exactly the children exactly if no command without a child
stands before one with a child. -/
theorem sigSend_reaches_iff (hs : Reachable (Start cs) (Step cs) w) :
    Targeted cs w ∧ Delivered cs w ↔ ∀ i j, i < j → Live w j → Live w i := by
  have h := reachable_sound hs
  have howner : ∀ i j, (w.cmds i).mResult.idChild = (w.cmds j).mResult.idChild → Live w j →
      i = j := by
    rintro i j hid ⟨pid, hpid⟩
    have hj := ((h.child j).owned pid).mp hpid
    have hi := ((h.child i).owned pid).mpr ⟨hj.1, hid.trans hj.2⟩
    exact Option.some.inj (hi.symm.trans hpid)
  constructor
  · rintro ⟨-, hdel⟩ i j hij ⟨pid, hpid⟩
    have hspec := @sigSend_kills 0 cs w
    obtain ⟨res, _, ks, he, hks⟩ :=
      Program.exists_exec (fun w k => ⟨0, w ++ [k], Int.le_refl 0, rfl⟩) hspec
    have hone := hdel 0 res ks he pid (by rw [hpid]; exact Option.some_ne_none j)
    have hmem : ⟨pid, 0⟩ ∈ ks := List.count_pos_iff.mp (by rw [hone]; decide)
    rw [hks] at hmem
    -- the signal of this child was sent for its own command, which the round came to
    obtain ⟨j', hj', hkill⟩ := List.mem_map.mp hmem
    have hid : (w.cmds j').mResult.idChild = pid := congrArg Kill.pid hkill
    have heq : j' = j := howner j' j
      (hid.trans (((h.child j).owned pid).mp hpid).2.symm) ⟨pid, hpid⟩
    exact h.live_iff.mpr ((mem_served.mp (heq ▸ hj')).2 i (Nat.le_of_lt hij))
  · intro hfirst
    refine ⟨h.targeted, fun sig res ks he pid hpid => ?_⟩
    obtain ⟨j, hj⟩ := Option.ne_none_iff_exists'.mp hpid
    have hid : (w.cmds j).mResult.idChild = pid := (((h.child j).owned pid).mp hj).2
    have hserved : j ∈ served cs w := by
      refine mem_served.mpr ⟨h.bound pid j hj, fun i hi => h.live_iff.mp ?_⟩
      rcases Nat.eq_or_lt_of_le hi with rfl | hi
      · exact ⟨pid, hj⟩
      · exact hfirst i j hi ⟨pid, hj⟩
    rw [Program.wp_iff.mp (sigSend_kills cs w) _ _ _ he]
    refine List.count_eq_one_of_mem ?_ (List.mem_map.mpr ⟨j, hserved, ?_⟩)
    · refine List.Nodup.map_on ?_ ?_
      · intro a _ b hb hab
        have hlive := h.live_iff.mpr ((mem_served.mp hb).2 b (Nat.le_refl b))
        exact howner a b (congrArg Kill.pid hab) hlive
      · exact List.nodup_range.sublist (List.takeWhile_sublist _)
    · rw [kill, hid]

/-! ## A pipeline whose first command ends -/

/-- A system in which the child of the first command exits. -/
def sysAnswer (k : Nat) (o : Int → Option Nat) : (c : Call) → Answer c × (Int → Option Nat)
  | .vfork =>
    if o (100 + k) = none then (some (100 + k), Function.update o (100 + k) (some k)) else (none, o)
  | .waitpid id =>
    if id = 100 ∧ o 100 ≠ none then (.exited 0, Function.update o 100 none) else (.unchanged, o)
  | .pipe _ => (some ⟨4, 5⟩, o)
  | .openNull _ => (some 6, o)
  | .read _ _ => (.eagain, o)
  | .write _ _ => (.eagain, o)
  | .transRead _ _ => (none, o)
  | .vecConstCharToCharList | .fcntl _ | .sendReady _ => (true, o)
  | .close _ | .memcpy _ _ _ | .append _ _ | .transSend _ _ | .doneSet _ => ((), o)

theorem sys_answer (k : Nat) (o : Int → Option Nat) (c : Call) :
    sys k o c (sysAnswer k o c).1 (sysAnswer k o c).2 := by
  cases c with
  | vfork =>
    simp only [sysAnswer]
    split
    · next hnone => exact ⟨by omega, hnone, rfl⟩
    · rfl
  | waitpid id =>
    simp only [sysAnswer]
    split
    · next hid => exact ⟨100, fun _ => hid.1.symm, hid.2, rfl⟩
    · rfl
  | pipe _ => rfl
  | openNull _ => rfl
  | vecConstCharToCharList => rfl
  | fcntl _ => rfl
  | read _ _ => rfl
  | write _ _ => rfl
  | close _ => rfl
  | memcpy _ _ _ => rfl
  | append _ _ => rfl
  | sendReady _ => rfl
  | transRead _ _ => rfl
  | transSend _ _ => rfl
  | doneSet _ => rfl

def answer (k : Nat) (w : Chain) : (c : Call) → Answer c × Chain
  | .transSend (.exec j) d =>
    let (_, fe, o) := Program.run (sysAnswer j) (send d) (w.cmds j) w.children
    ((), ⟨Function.update w.cmds j fe, o⟩)
  | .doneSet (.exec j) => ((), w.setCmd j { w.cmds j with mDone := true })
  | .sendReady (.exec j) => ((w.cmds j).mSendReady, w)
  | c => ((sysAnswer k w.children c).1, { w with children := (sysAnswer k w.children c).2 })

theorem env_answer (k : Nat) (w : Chain) (c : Call) :
    env k w c (answer k w c).1 (answer k w c).2 := by
  have hos : ∀ c, ∃ o, sys k w.children c (sysAnswer k w.children c).1 o ∧
      ({ w with children := (sysAnswer k w.children c).2 } : Chain) = { w with children := o } :=
    fun c => ⟨_, sys_answer k w.children c, rfl⟩
  cases c with
  | transSend t d =>
    cases t with
    | user id => exact hos _
    | exec j => exact ⟨_, _, _, Program.exec_run (sys_answer j) (send d) _ _, rfl⟩
  | doneSet t =>
    cases t with
    | user id => exact hos _
    | exec j => rfl
  | sendReady t =>
    cases t with
    | user id => exact hos _
    | exec j => exact ⟨rfl, rfl⟩
  | pipe _ => exact hos _
  | openNull _ => exact hos _
  | read _ _ => exact hos _
  | write _ _ => exact hos _
  | close _ => exact hos _
  | vfork => exact hos _
  | waitpid _ => exact hos _
  | transRead _ _ => exact hos _
  | vecConstCharToCharList => exact hos _
  | fcntl _ => exact hos _
  | memcpy _ _ _ => exact hos _
  | append _ _ => exact hos _

/-- `cat | sort`. -/
def pipeline : List Config := [.intCmdAdd "cat", .intCmdAdd "sort"]

/-- The container after ticks of these commands. -/
def ticks : List Nat → Chain
  | [] => { cmds := fun j => (Container.configure pipeline).start[j]?.getD {}
            children := fun _ => none }
  | k :: ks =>
    let (_, fe, w) := Program.run (answer k) (Move.process k).body ((ticks ks).cmds k) (ticks ks)
    w.setCmd k fe

theorem reachable_ticks : ∀ {ks : List Nat}, (∀ k ∈ ks, k < count pipeline) →
    Reachable (Start pipeline) (Step pipeline) (ticks ks)
  | [], _ => .start ⟨rfl, fun _ => rfl⟩
  | k :: ks, h => by
    have hks := reachable_ticks fun k' hk' => h k' (List.mem_cons_of_mem k hk')
    exact .next (i := .process k) hks ⟨h k List.mem_cons_self, _, _,
      Program.exec_run (env_answer k) (Move.process k).body _ _, rfl⟩

/-- The two commands in turn. -/
def turns : Nat → List Nat
  | 0 => []
  | n + 1 => 1 :: 0 :: turns n

theorem turns_lt (n : Nat) : ∀ k ∈ turns n, k < count pipeline := by
  induction n with
  | zero => exact fun k hk => nomatch hk
  | succ n ih =>
    exact List.forall_mem_cons.mpr ⟨by decide, List.forall_mem_cons.mpr ⟨by decide, ih⟩⟩

/-- Both children run. -/
theorem sigSend_reaches_running : ∃ w, Reachable (Start pipeline) (Step pipeline) w ∧
    Live w 1 ∧ Targeted pipeline w ∧ Delivered pipeline w := by
  have h := reachable_ticks (turns_lt 4)
  have hlive : Live (ticks (turns 4)) 0 ∧ Live (ticks (turns 4)) 1 :=
    ⟨⟨100, by decide +kernel⟩, ⟨101, by decide +kernel⟩⟩
  refine ⟨_, h, hlive.2, (sigSend_reaches_iff h).mpr fun i j hij hj => ?_⟩
  obtain ⟨pid, hpid⟩ := hj
  have hj : j < 2 := (reachable_sound h).bound pid j hpid
  obtain rfl : i = 0 := by omega
  exact hlive.1

/-- The child of the first command has been reaped, and that of the second one gets no signal. -/
theorem sigSend_first_reaped : ∃ w, Reachable (Start pipeline) (Step pipeline) w ∧
    w.children 101 = some 1 ∧ ∃ res, Exec (kills (0 ≤ ·)) (sigSend (cmds pipeline w) 15 (-1)) () []
      res () [] := by
  have hks : ∀ k ∈ 0 :: turns 6, k < count pipeline :=
    List.forall_mem_cons.mpr ⟨by decide, turns_lt 6⟩
  have hspec := @sigSend_kills 15 pipeline (ticks (0 :: turns 6))
  obtain ⟨res, _, ks, he, hks'⟩ :=
    Program.exists_exec (fun w k => ⟨0, w ++ [k], Int.le_refl 0, rfl⟩) hspec
  have hserved : served pipeline (ticks (0 :: turns 6)) = [] := by decide +kernel
  rw [hserved] at hks'
  obtain rfl : ks = [] := hks'
  exact ⟨_, reachable_ticks hks, by decide +kernel, res, he⟩

end Signals

end FileExecuting

end ProcessingCommon

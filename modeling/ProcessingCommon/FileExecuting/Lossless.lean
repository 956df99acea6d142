import ProcessingCommon.FileExecuting.ChainTick

/-!
# Lossless stdin

What the parent has to send has been accepted where it closes a stdin, in every run whose
calls fit; and a run in which a full pipe loses a byte.
-/

namespace ProcessingCommon

namespace FileExecuting

namespace Chains

variable {S : Setup} {k j : Nat} {w w' : Chain}

/-! ## The commands get their data -/

theorem Inv.any (h : Inv S k [] w) (k' : Nat) : Inv S k' [] w :=
  ⟨h.table, h.own, fun p hp => by
    have hpair := h.pair p hp
    rwa [ite_self] at hpair ⊢⟩

theorem step_inv (h : Inv S 0 [] w) (hs : Step S (Fits S) w k w') : Inv S 0 [] w' := by
  obtain ⟨hk, res, fe, w₁, hexec, rfl⟩ := hs
  have htick : Tick S k [] (w.cmds k) w := by
    refine ⟨hk, ?_⟩
    rw [Chain.setCmd, Function.update_eq_self]
    exact h.any k
  exact (Program.wp_iff.mp htick.process _ _ _ hexec).2.any 0

theorem reachable_inv (hl : Container.Linked S.user S.size S.container)
    (h : Transition.Reachable (Start S) (Step S (Fits S)) w) : Inv S 0 [] w :=
  h.invariant (P := Inv S 0 []) (fun _ h0 => inv_start hl h0) fun _ _ _ => step_inv

/-- What the stdin of a command has to get. -/
def Setup.due (S : Setup) (o : Os) : Nat → Option Bytes
  | 0 => S.source
  | p + 1 => some (o.outRead p)

/-- However the commands were put together and their ticks come: where the parent has
closed a stdin, the pipe has accepted all that was due. -/
theorem stdin_delivered {cs : List Config} {user : List Int} {size : Nat → Nat} {cap : Nat}
    (hcs : ∀ i ∈ cs, Container.Allowed user size i) {S : Setup}
    (hS : S = ⟨Container.configure cs, user, size, cap⟩)
    (h : Transition.Reachable (Start S) (Step S (Fits S)) w) (hj : j < S.count)
    (hclosed : w.os.closed j = true) {data : Bytes} (hdue : S.due w.os j = some data) :
    w.os.accepted j = data := by
  subst hS
  have hi := reachable_inv (Container.linked_configure hcs) h
  have hown := hi.own j hj
  cases j with
  | zero =>
    have hc : Setup.Claimed _ 0 := .inr fun hnone => nomatch hnone.symm.trans hdue
    obtain ⟨-, ⟨b, -, -, -, hacc⟩, -⟩ := hown.source rfl data hdue
    rw [hacc, hown.closed hc hclosed, if_pos rfl]
  | succ p =>
    have hflow := (hi.pair p hj).flow
    rw [ite_self, List.append_nil] at hflow
    exact hflow.trans (Option.some.inj hdue)

/-! ## Two runs -/

/-- Before a call the children read everything, or nothing. -/
def before (drain : Bool) (o : Os) : Os :=
  if drain then { o with unread := fun _ => [] } else o

instance (S : Setup) (o : Os) (fd : Int) : Decidable (Fresh S o fd) :=
  inferInstanceAs (Decidable (_ ∧ _ ∧ _))

def writeAnswer (S : Setup) (o : Os) (j : Nat) (data : Bytes) : WriteResult × Os :=
  if data = [] then (.done 0, o)
  else if (o.unread j).length < S.cap then
    let m := min data.length (S.cap - (o.unread j).length)
    (.done m, o.accept j (data.take m))
  else (.eagain, o)

theorem writePipe_answer (S : Setup) (o : Os) (j : Nat) (data : Bytes) :
    writePipe S o j data (writeAnswer S o j data).1 (writeAnswer S o j data).2 := by
  rw [writePipe, writeAnswer]
  split
  · exact ⟨rfl, rfl⟩
  next hne =>
  have hlen := List.length_pos_iff.mpr hne
  split
  · exact ⟨_, rfl, by omega, Nat.min_le_left .., by omega, rfl⟩
  · exact ⟨rfl, rfl⟩

/-- The first descriptor that this system gives for a node. -/
def fdOf : NodeSel → Int
  | .nodeIn => 4
  | .nodeOut => 6
  | .nodeErr => 8

/-- A system whose children go on running. -/
def sysAnswer (S : Setup) (k : Nat) (o : Os) : (c : Call) → Answer c × Os
  | .pipe n =>
    if Fresh S o (fdOf n) ∧ Fresh S o (fdOf n + 1) then
      (some ⟨fdOf n, fdOf n + 1⟩,
        (o.openFd (fdOf n) ⟨k, n, .fdRead⟩).openFd (fdOf n + 1) ⟨k, n, .fdWrite⟩)
    else (none, o)
  | .openNull n =>
    if Fresh S o (fdOf n) then (some (fdOf n), o.openFd (fdOf n) ⟨k, n, .fdWrite⟩) else (none, o)
  | .read _ _ => (.eagain, o)
  | .write fd data =>
    match o.fds fd with
    | some ⟨j, .nodeIn, .fdWrite⟩ => writeAnswer S o j data
    | _ => (.error, o)
  | .close fd => ((), o.closeFd fd)
  | .vfork => (some 100, o)
  | .waitpid _ => (.unchanged, o)
  | .transRead _ _ => (none, o)
  | .vecConstCharToCharList | .fcntl _ | .sendReady _ => (true, o)
  | .memcpy _ _ _ | .append _ _ | .transSend _ _ | .doneSet _ => ((), o)

theorem sys_answer (S : Setup) (k : Nat) (o : Os) (c : Call) :
    sys S k o c (sysAnswer S k o c).1 (sysAnswer S k o c).2 := by
  cases c with
  | pipe n =>
    simp only [sysAnswer]
    split
    · next hf => exact ⟨hf.1, hf.2, by cases n <;> decide, rfl⟩
    · rfl
  | openNull n =>
    simp only [sysAnswer]
    split
    · next hf => exact ⟨hf, rfl⟩
    · rfl
  | read fd len =>
    simp only [sysAnswer, sys]
    split
    · next h => cases h
    · trivial
  | write fd data =>
    cases hs : o.fds fd with
    | none => simp only [sysAnswer, sys, hs]
    | some s =>
      obtain ⟨j, n, e⟩ := s
      cases n <;> cases e <;> simp only [sysAnswer, sys, hs]
      exact writePipe_answer ..
  | close _ => rfl
  | vfork => rfl
  | waitpid _ => rfl
  | transRead _ _ => rfl
  | vecConstCharToCharList => rfl
  | fcntl _ => rfl
  | sendReady _ => rfl
  | memcpy _ _ _ => rfl
  | append _ _ => rfl
  | transSend _ _ => rfl
  | doneSet _ => rfl

def osAnswer (S : Setup) (drain : Bool) (k : Nat) (o : Os) (c : Call) : Answer c × Os :=
  sysAnswer S k (before drain o) c

theorem osCall_answer {ok : Os → Call → Prop} {drain : Bool}
    (hok : ∀ o c, ok (before drain o) c) (k : Nat) (o : Os) (c : Call) :
    osCall S ok k o c (osAnswer S drain k o c).1 (osAnswer S drain k o c).2 := by
  refine ⟨before drain o, ?_, hok o c, sys_answer S k _ c⟩
  cases drain with
  | true => exact ⟨fun _ => [], rfl, fun j => List.nil_suffix⟩
  | false => exact ⟨o.unread, rfl, fun j => List.suffix_refl _⟩

def answer (S : Setup) (drain : Bool) (k : Nat) (w : Chain) : (c : Call) → Answer c × Chain
  | .transSend (.exec j) d =>
    let (_, fe, o) := Program.run (osAnswer S drain j) (send d) (w.cmds j) w.os
    ((), ⟨Function.update w.cmds j fe, o⟩)
  | .doneSet (.exec j) => ((), w.setCmd j { w.cmds j with mDone := true })
  | .sendReady (.exec j) => ((w.cmds j).mSendReady, w)
  | c => ((osAnswer S drain k w.os c).1, { w with os := (osAnswer S drain k w.os c).2 })

theorem env_answer {ok : Os → Call → Prop} {drain : Bool} (hok : ∀ o c, ok (before drain o) c)
    (k : Nat) (w : Chain) (c : Call) :
    env S ok k w c (answer S drain k w c).1 (answer S drain k w c).2 := by
  have hos : ∀ c, ∃ o, osCall S ok k w.os c (osAnswer S drain k w.os c).1 o ∧
      ({ w with os := (osAnswer S drain k w.os c).2 } : Chain) = { w with os := o } :=
    fun c => ⟨_, osCall_answer hok k w.os c, rfl⟩
  cases c with
  | transSend t d =>
    cases t with
    | user id => exact hos _
    | exec j => exact ⟨_, _, _, Program.exec_run (osCall_answer hok j) (send d) _ _, rfl⟩
  | doneSet t =>
    cases t with
    | user id => exact hos _
    | exec j => rfl
  | sendReady t =>
    cases t with
    | user id => exact hos _
    | exec j => exact ⟨rfl, rfl⟩
  | pipe _ => exact hos _
  | openNull _ => exact hos _
  | read _ _ => exact hos _
  | write _ _ => exact hos _
  | close _ => exact hos _
  | vfork => exact hos _
  | waitpid _ => exact hos _
  | transRead _ _ => exact hos _
  | vecConstCharToCharList => exact hos _
  | fcntl _ => exact hos _
  | memcpy _ _ _ => exact hos _
  | append _ _ => exact hos _

/-- A tick of the first command in this system. -/
def tick (S : Setup) (drain : Bool) (w : Chain) : Chain :=
  let (_, fe, w') := Program.run (answer S drain 0) process (w.cmds 0) w
  w'.setCmd 0 fe

/-- The chain after so many ticks of the first command. -/
def ticks (S : Setup) (drain : Bool) : Nat → Chain
  | 0 =>
    { cmds := S.cmds
      os := { fds := fun _ => none, accepted := fun _ => [], unread := fun _ => []
              closed := fun _ => false, outRead := fun _ => [] } }
  | n + 1 => tick S drain (ticks S drain n)

theorem reachable_ticks {ok : Os → Call → Prop} {drain : Bool} (hcount : 0 < S.count)
    (hok : ∀ o c, ok (before drain o) c) (n : Nat) :
    Transition.Reachable (Start S) (Step S ok) (ticks S drain n) := by
  induction n with
  | zero => exact .start ⟨rfl, fun _ => rfl, fun _ => rfl, fun _ => rfl, fun _ => rfl⟩
  | succ n ih =>
    exact .next ih ⟨hcount, _, _, _, Program.exec_run (env_answer hok 0) process _ _, rfl⟩

/-- `ab` for one command, through a pipe that holds one byte. -/
def catSetup : Setup where
  container := Container.configure [.sourceSetBuffer [97, 98], .intCmdAdd "cat"]
  user := []
  size _ := 0
  cap := 1

theorem stdin_delivered_ab : ∃ w : Chain,
    Transition.Reachable (Start catSetup) (Step catSetup (Fits catSetup)) w ∧
    w.os.closed 0 = true ∧ w.os.accepted 0 = [97, 98] := by
  have hfits : ∀ o c, Fits catSetup (before true o) c := by
    intro o c
    cases c with
    | write fd data => exact fun _ _ _ => Nat.zero_lt_one
    | memcpy d offs data =>
      rintro ⟨j, hj, -⟩
      exact absurd hj (Nat.not_lt.mpr (Nat.le_add_left 1 j))
    | _ => trivial
  have hcs : ∀ i ∈ ([.sourceSetBuffer [97, 98], .intCmdAdd "cat"] : List Config),
      Container.Allowed [] (fun _ => 0) i :=
    List.forall_mem_cons.mpr ⟨trivial, List.forall_mem_cons.mpr ⟨trivial, fun _ hi => nomatch hi⟩⟩
  have hcount : 0 < catSetup.count := by decide
  have h := reachable_ticks hcount hfits 7
  refine ⟨_, h, rfl, ?_⟩
  exact stdin_delivered hcs rfl h hcount rfl rfl

/-- Without room for the second byte, and with nobody who reads in between, it is lost. -/
theorem stdin_delivered_fails : ∃ w : Chain,
    Transition.Reachable (Start catSetup) (Step catSetup fun _ _ => True) w ∧
    0 < catSetup.count ∧ w.os.closed 0 = true ∧ catSetup.due w.os 0 = some [97, 98] ∧
    w.os.accepted 0 = [97] := by
  have h : Transition.Reachable (Start catSetup) (Step catSetup fun _ _ => True)
      (ticks catSetup false 7) :=
    reachable_ticks (by decide) (fun _ _ => trivial) 7
  exact ⟨_, h, by decide, rfl, rfl, rfl⟩

end Chains

end FileExecuting

end ProcessingCommon

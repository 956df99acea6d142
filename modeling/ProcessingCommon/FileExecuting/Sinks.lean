import Mathlib.Logic.Relation
import ProcessingCommon.FileExecuting.Frame
import ProcessingCommon.Lib.Transition

/-!
# What a command has written at its end

A command in `StChildSupervise` whose stdout and stderr each have one string sink.
The child writes, closes its ends and terminates at any time, also between two calls
of a tick; it alone holds the write ends. `read()` on a pipe gives what is there, the
end of the file if nothing is there and nobody can write any more, or else would block.

What was written is what the string has, what a tick has in its hands and what is
still in the pipe (`Inv.text`). The read end is given up only at the end of the file:
would block after the child's termination cannot be, as its ends are closed with it.
-/

namespace ProcessingCommon

namespace FileExecuting

namespace Sinks

open Program (wp Exec rounds each)

/-- The parent's ends of the two pipes and the two strings. -/
structure Setup where
  fdRead : Output → Int
  str : Output → Nat
  fdRead_nonneg : ∀ o, 0 ≤ fdRead o
  fdRead_inj : Function.Injective fdRead
  str_inj : Function.Injective str

structure Stream where
  written : Bytes := []
  unread : Bytes := []
  /-- The child holds the write end. -/
  isOpen : Bool := true
  /-- The parent holds the read end. -/
  readable : Bool := true

structure Os where
  stream : Output → Stream
  strs : Nat → Bytes
  alive : Bool

def Os.setStream (w : Os) (o : Output) (v : Stream) : Os :=
  { w with stream := Function.update w.stream o v }

/-- What the child does by itself. -/
inductive Child : Os → Os → Prop
  | write {w : Os} (o : Output) (d : Bytes) : (w.stream o).isOpen = true →
      Child w (w.setStream o { w.stream o with
        written := (w.stream o).written ++ d, unread := (w.stream o).unread ++ d })
  | close {w : Os} (o : Output) : Child w (w.setStream o { w.stream o with isOpen := false })
  | exit {w : Os} :
      Child w { w with alive := false, stream := fun o => { w.stream o with isOpen := false } }

/-- `read()` on the pipe of an output. -/
def readPipe (w : Os) (o : Output) (len : Nat) (r : ReadResult) (w' : Os) : Prop :=
  if (w.stream o).readable = false then r = .error ∧ w' = w
  else match r with
    | .data [] =>
      (len = 0 ∨ (w.stream o).unread = [] ∧ (w.stream o).isOpen = false) ∧ w' = w
    | .data d => d.length ≤ len ∧ ∃ rest, (w.stream o).unread = d ++ rest ∧
        w' = w.setStream o { w.stream o with unread := rest }
    | .eagain => (w.stream o).unread = [] ∧ (w.stream o).isOpen = true ∧ w' = w
    | .error => False

/-- The answer of a call. Termination is reported only after it happened. -/
def sys (c : Setup) (w : Os) : (k : Call) → Answer k → Os → Prop
  | .read fd len, r, w' =>
    (∀ o, fd = c.fdRead o → readPipe w o len r w') ∧ ((∀ o, fd ≠ c.fdRead o) → w' = w)
  | .close fd, _, w' =>
    w' = { w with stream := fun o =>
      { w.stream o with readable := (w.stream o).readable && decide (fd ≠ c.fdRead o) } }
  | .waitpid _, r, w' => (match r with
    | .exited _ | .signaled _ => w.alive = false
    | _ => True) ∧ w' = w
  | .append str d, _, w' => w' = { w with strs := Function.update w.strs str (w.strs str ++ d) }
  | _, _, w' => w' = w

/-- The child acts before every call. -/
def env (c : Setup) (w : Os) (k : Call) (r : Answer k) (w' : Os) : Prop :=
  ∃ w₁, Relation.ReflTransGen Child w w₁ ∧ sys c w₁ k r w'

/-- A node whose only sink is the string. -/
structure StringSink (v : FeNode) (str : Nat) : Prop where
  autoEnabled : v.autoEnabled = true
  lstBuffers : v.lstBuffers = []
  lstStrings : v.lstStrings = [str]
  lstFds : v.lstFds = []
  lstTransfers : v.lstTransfers = []

/-- `buf` is what has been read and not yet appended. -/
structure Inv (c : Setup) (buf : Output → Bytes) (fe : FileExecuting) (w : Os) : Prop where
  state : fe.mState = .stChildSupervise
  ready : fe.mReadReady = true
  sink : ∀ o : Output, StringSink (fe.node o.node) (c.str o)
  text : ∀ o, w.strs (c.str o) ++ buf o ++ (w.stream o).unread = (w.stream o).written
  fd : ∀ o : Output, fe.fd o.node .fdRead = c.fdRead o ∧ (w.stream o).readable = true ∨
    fe.fd o.node .fdRead = -1 ∧ (w.stream o).unread = [] ∧ (w.stream o).isOpen = false
  done : ∀ o : Output, (fe.node o.node).autoDone = true → fe.fd o.node .fdRead = -1
  dead : fe.mResult.childTerminated = true → w.alive = false
  exited : w.alive = false → ∀ o, (w.stream o).isOpen = false
  stdin : ∀ o, fe.fd .nodeIn .fdWrite ≠ c.fdRead o
  files : ∀ f ∈ fe.mNodeIn.lstFds, ∀ o, f.fd ≠ c.fdRead o

/-- Nothing in hand. -/
def noBuf : Output → Bytes := fun _ => []

variable {c : Setup} {buf : Output → Bytes} {fe fe' : FileExecuting} {w w' : Os} {o : Output}

/-! ## The child -/

@[simp] theorem stream_setStream (v : Stream) (o' : Output) :
    (w.setStream o v).stream o' = if o' = o then v else w.stream o' :=
  Function.update_apply ..

theorem Inv.childStep (h : Inv c buf fe w) (hc : Child w w') : Inv c buf fe w' := by
  cases hc with
  | write o d hopen =>
    refine { h with
      text := fun o' => ?_
      fd := fun o' => ?_
      exited := fun ha o' => ?_ }
    · rw [stream_setStream]
      split
      · next ho =>
        subst ho
        rw [← h.text o', List.append_assoc _ _ d]
        rfl
      · exact h.text o'
    · rw [stream_setStream]
      split
      · next ho =>
        subst ho
        rcases h.fd o' with hr | ⟨-, -, hcl⟩
        · exact .inl hr
        · rw [hcl] at hopen
          cases hopen
      · exact h.fd o'
    · rw [h.exited ha o] at hopen
      cases hopen
  | close o =>
    refine { h with
      text := fun o' => ?_
      fd := fun o' => ?_
      exited := fun ha o' => ?_ }
    · rw [stream_setStream]
      split
      · next ho => subst ho; exact h.text o'
      · exact h.text o'
    · rw [stream_setStream]
      split
      · next ho => subst ho; exact (h.fd o').imp_right fun ⟨hf, hu, _⟩ => ⟨hf, hu, rfl⟩
      · exact h.fd o'
    · rw [stream_setStream]
      split
      · rfl
      · exact h.exited ha o'
  | exit =>
    exact { h with
      text := h.text
      fd := fun o => (h.fd o).imp_right fun ⟨hf, hu, _⟩ => ⟨hf, hu, rfl⟩
      dead := fun _ => rfl
      exited := fun _ _ => rfl }

theorem Inv.child (h : Inv c buf fe w) (hc : Relation.ReflTransGen Child w w') :
    Inv c buf fe w' := by
  induction hc with
  | refl => exact h
  | tail _ hs ih => exact ih.childStep hs

/-- A call that does not concern the two pipes. -/
theorem Inv.call (h : Inv c buf fe w) {k : Call} {r : Answer k} (he : env c w k r w')
    (hk : ∀ w₁, sys c w₁ k r w' → w' = w₁) : Inv c buf fe w' := by
  obtain ⟨w₁, hc, hs⟩ := he
  obtain rfl := hk w₁ hs
  exact h.child hc

/-- A descriptor that is no end of the two pipes is closed. -/
theorem Inv.closeOther (h : Inv c buf fe w) {fd : Int} (hfd : ∀ o, fd ≠ c.fdRead o)
    {r : Answer (.close fd)} (he : env c w (.close fd) r w') : Inv c buf fe w' := by
  refine h.call he fun w₁ hs => hs.trans ?_
  have hstream : (fun o => { w₁.stream o with
      readable := (w₁.stream o).readable && decide (fd ≠ c.fdRead o) }) = w₁.stream := by
    funext o
    simp [hfd o]
  rw [hstream]

theorem Inv.readOther (h : Inv c buf fe w) {fd : Int} (hfd : ∀ o, fd ≠ c.fdRead o) {len : Nat}
    {r : Answer (.read fd len)} (he : env c w (.read fd len) r w') : Inv c buf fe w' :=
  h.call he fun _ hs => hs.2 hfd

/-! ## The source -/

/-- Only the node of stdin and the done flag change. -/
theorem Inv.source (h : Inv c buf fe w) {v : FeNode} {d : Bool}
    (hp : ∀ o, v.pipe.fdWrite ≠ c.fdRead o) (hl : ∀ f ∈ v.lstFds, ∀ o, f.fd ≠ c.fdRead o) :
    Inv c buf { fe with mNodeIn := v, mDone := d } w where
  state := h.state
  ready := h.ready
  sink
    | .out => h.sink .out
    | .err => h.sink .err
  text := h.text
  fd
    | .out => h.fd .out
    | .err => h.fd .err
  done
    | .out => h.done .out
    | .err => h.done .err
  dead := h.dead
  exited := h.exited
  stdin := hp
  files := hl

theorem neg_one_ne (o : Output) : (-1 : Int) ≠ c.fdRead o := by
  have := c.fdRead_nonneg o
  omega

/-- The files in the list are no ends of the pipes, also after one has been closed. -/
theorem files_modifyHead {l : List FeFileDescSetting} (h : ∀ f ∈ l, ∀ o, f.fd ≠ c.fdRead o)
    {fd : Int} (hfd : ∀ o, fd ≠ c.fdRead o) :
    ∀ f ∈ l.modifyHead (fun f => { f with fd := fd }), ∀ o, f.fd ≠ c.fdRead o := by
  cases l with
  | nil => exact h
  | cons f fs =>
    rintro g hg
    rcases List.mem_cons.mp hg with rfl | hg
    · exact hfd
    · exact h g (List.mem_cons_of_mem _ hg)

theorem stdinKept : StdinKept (env c) (Inv c buf) where
  write h _ he := h.call he fun _ hs => hs
  close {fe _ _ _} h _ he := (h.closeOther h.stdin he).source (d := fe.mDone) neg_one_ne h.files

theorem autoSourceDone_inv (h : Inv c buf fe w) :
    wp (env c) autoSourceDone (fun _ => Inv c buf) fe w := by
  simp only [autoSourceDone, Program.wp_ite, Program.wp_bind, Program.wp_get, Program.wp_pure]
  split
  · exact h
  · exact Program.wp_mono (stdinKept.stdinClose h) fun _ _ _ h => h.source h.stdin h.files

theorem autoSourceFdDone_inv (h : Inv c buf fe w) {pFd : FeFileDescSetting}
    (hfd : ∀ o, pFd.fd ≠ c.fdRead o) :
    wp (env c) (autoSourceFdDone pFd) (fun _ => Inv c buf) fe w := by
  simp only [autoSourceFdDone, fdClose, Program.wp_ite, Program.wp_bind, Program.wp_pure,
    Program.wp_perform]
  split
  · have hset : ∀ {fd w}, (∀ o, fd ≠ c.fdRead o) → Inv c buf fe w →
        wp (env c) autoSourceDone (fun _ => Inv c buf) (fe.setNode .nodeIn { fe.mNodeIn with
          lstFds := fe.mNodeIn.lstFds.modifyHead fun f => { f with fd := fd } }) w :=
      fun hne h => autoSourceDone_inv (h.source (d := fe.mDone) h.stdin (files_modifyHead h.files hne))
    split
    · exact hset hfd h
    · exact fun r w' he => hset neg_one_ne (h.closeOther hfd he)
  · exact autoSourceDone_inv h

theorem sourceKept : SourceKept (env c) (Inv c buf) (fun fd => ∀ o, fd ≠ c.fdRead o) where
  toStdinKept := stdinKept
  done h := h.source h.stdin h.files
  progress {fe _} _ h := h.source (d := fe.mDone) h.stdin h.files
  files h _ := h.files
  read h hF he := h.readOther hF he
  fdDone h hF := autoSourceFdDone_inv h hF
  transRead h he := h.call he fun _ hs => hs

/-! ## The sinks -/

/-- An output whose pipe stays. -/
theorem Inv.setOutput (h : Inv c buf fe w) {v : FeNode} (hs : StringSink v (c.str o))
    (hp : v.pipe = (fe.node o.node).pipe)
    (hd : v.autoDone = true → fe.fd o.node .fdRead = -1) :
    Inv c buf (fe.setNode o.node v) w where
  state := (setNode_mState ..).trans h.state
  ready := (setNode_mReadReady ..).trans h.ready
  sink o' := by
    rw [node_setNode]
    split
    · next ho => exact Output.node_inj ho ▸ hs
    · exact h.sink o'
  text := h.text
  fd o' := by
    rw [fd_setNode _ _ _ _ _ hp]
    exact h.fd o'
  done o' := by
    rw [fd_setNode _ _ _ _ _ hp, node_setNode]
    split
    · next ho => exact Output.node_inj ho ▸ hd
    · exact h.done o'
  dead := by
    rw [setNode_mResult]
    exact h.dead
  exited := h.exited
  stdin o' := by
    rw [fd_setNode _ _ _ _ _ hp]
    exact h.stdin o'
  files := by cases o <;> exact h.files

/-- Nothing is left in a pipe, and nobody writes to it. -/
def Ended (w : Os) (o : Output) : Prop :=
  (w.stream o).unread = [] ∧ (w.stream o).isOpen = false

theorem Ended.childStep (h : Ended w o) (hc : Child w w') : Ended w' o := by
  cases hc with
  | write o' d hopen =>
    have hne : o ≠ o' := by
      rintro rfl
      rw [h.2] at hopen
      cases hopen
    rwa [Ended, stream_setStream, if_neg hne]
  | close o' =>
    rw [Ended, stream_setStream]
    split
    · next ho => exact ⟨ho ▸ h.1, rfl⟩
    · exact h
  | exit => exact ⟨h.1, rfl⟩

theorem Ended.child (h : Ended w o) (hc : Relation.ReflTransGen Child w w') : Ended w' o := by
  induction hc with
  | refl => exact h
  | tail _ hs ih => exact ih.childStep hs

/-- The read end is given up after the end of the file. -/
theorem sinkClose_inv (h : Inv c buf fe w) (hfd : fe.fd o.node .fdRead = c.fdRead o)
    (he : Ended w o) :
    wp (env c) (fdCloseAt o.node .fdRead) (fun _ fe' w' => Inv c buf fe' w' ∧
      fe'.fd o.node .fdRead = -1) fe w := by
  refine wp_fdCloseAt (fun hneg => ?_) fun _ r w' henv => ?_
  · rw [hfd] at hneg
    exact absurd (c.fdRead_nonneg o) (Int.not_le.mpr hneg)
  obtain ⟨w₁, hc, rfl⟩ := henv
  have h₁ := h.child hc
  have he₁ := he.child hc
  refine ⟨?_, by simp⟩
  have hnode : ∀ n, ∃ p, (fe.setFd o.node .fdRead (-1)).node n = { fe.node n with pipe := p } :=
    Reset.node (.inr rfl)
  refine { state := (setNode_mState ..).trans h₁.state
           ready := (setNode_mReadReady ..).trans h₁.ready
           sink := fun o' => ?_
           text := h₁.text
           fd := fun o' => ?_
           done := fun o' => ?_
           dead := by rw [setFd, setPipe, setNode_mResult]; exact h₁.dead
           exited := h₁.exited
           stdin := fun o' => ?_
           files := by cases o <;> exact h₁.files }
  · obtain ⟨p, hp⟩ := hnode o'.node
    rw [hp]
    exact { h₁.sink o' with }
  · rw [fd_setFd]
    by_cases ho : o' = o
    · subst ho
      rw [if_pos ⟨rfl, rfl⟩]
      exact .inr ⟨rfl, he₁⟩
    · rw [if_neg fun hn => ho (Output.node_inj hn.1)]
      refine (h₁.fd o').imp_left fun ⟨hf, hr⟩ => ⟨hf, ?_⟩
      have hne : fe.fd o.node .fdRead ≠ c.fdRead o' := fun heq =>
        ho (c.fdRead_inj (heq.symm.trans hfd))
      simp [hr, hne]
  · obtain ⟨p, hp⟩ := hnode o'.node
    rw [hp, fd_setFd]
    split
    · exact fun _ => rfl
    · exact h₁.done o'
  · rw [fd_setFd, if_neg (by simp)]
    exact h₁.stdin o'

/-- What `intSinkRead` gives to a round. -/
def SinkRead (c : Setup) (o : Output) (r : Int × Bytes) (fe : FileExecuting) (w : Os) : Prop :=
  if r.1 = 0 then Inv c noBuf fe w
  else if r.1 < 0 then Inv c noBuf fe w ∧ fe.fd o.node .fdRead = -1
  else Inv c (Function.update noBuf o r.2) fe w

/-- A chunk goes from the pipe to the hand. -/
theorem Inv.taken (h : Inv c noBuf fe w) {b : UInt8} {d rest : Bytes}
    (hu : (w.stream o).unread = b :: d ++ rest) :
    SinkRead c o ((b :: d).length, b :: d) fe
      (w.setStream o { w.stream o with unread := rest }) := by
  rw [SinkRead, if_neg (by simp only [List.length_cons]; omega), if_neg (by omega)]
  refine { h with text := fun o' => ?_, fd := fun o' => ?_, exited := fun ha o' => ?_ }
  · rw [stream_setStream]
    by_cases ho : o' = o
    · subst ho
      rw [if_pos rfl, Function.update_self, List.append_assoc, ← hu, ← h.text o']
      simp [noBuf, Os.setStream]
    · rw [if_neg ho, Function.update_of_ne ho]
      exact h.text o'
  · rw [stream_setStream]
    by_cases ho : o' = o
    · subst ho
      rw [if_pos rfl]
      refine (h.fd o').imp_right fun ⟨hf, hn, _⟩ => ?_
      rw [hu] at hn
      cases hn
    · rw [if_neg ho]
      exact h.fd o'
  · rw [stream_setStream]
    split
    · next ho => exact ho ▸ h.exited ha o'
    · exact h.exited ha o'

theorem intSinkRead_inv (h : Inv c noBuf fe w) (o : Output) :
    wp (env c) (intSinkRead o.node 22) (SinkRead c o) fe w := by
  simp only [intSinkRead, Program.wp_ite, Program.wp_bind, Program.wp_get, Program.wp_pure,
    Program.wp_perform, h.ready]
  rw [if_neg (by decide), if_neg (by decide)]
  split
  · next hneg =>
    rcases h.fd o with ⟨hf, -⟩ | ⟨hf, -⟩
    · rw [hf] at hneg
      exact absurd (c.fdRead_nonneg o) (Int.not_le.mpr hneg)
    · exact ⟨h, hf⟩
  next hpos =>
  have hopen : ∀ {w}, Inv c noBuf fe w →
      fe.fd o.node .fdRead = c.fdRead o ∧ (w.stream o).readable = true := fun h =>
    (h.fd o).resolve_right fun hf => hpos (hf.1 ▸ by decide)
  rintro r w' ⟨w₁, hc, hs⟩
  have h₁ := h.child hc
  obtain ⟨hfd, hr⟩ := hopen h₁
  have hp := hs.1 o hfd
  unfold readPipe at hp
  rw [if_neg (by rw [hr]; decide)] at hp
  cases r with
  | data d =>
    cases d with
    | nil =>
      obtain ⟨hend, rfl⟩ := hp
      exact Program.wp_seq (sinkClose_inv h₁ hfd (hend.resolve_left (by decide))) fun _ _ _ hk => hk
    | cons b d =>
      obtain ⟨-, rest, hu, rfl⟩ := hp
      exact h₁.taken hu
  | eagain =>
    obtain ⟨hu, hop, rfl⟩ := hp
    simp only [Program.wp_ite, Program.wp_bind, Program.wp_get, Program.wp_pure]
    split
    · exact h₁
    · next hterm =>
      -- a terminated child has left no write end open
      have hdead := h₁.dead (by simpa using hterm)
      rw [h₁.exited hdead o] at hop
      cases hop
  | error => exact hp.elim

theorem autoSinkFinish_inv (h : Inv c noBuf fe w) (hfd : fe.fd o.node .fdRead = -1) :
    wp (env c) (autoSinkFinish o.node) (fun _ => Inv c noBuf) fe w := by
  have hs := h.sink o
  rw [autoSinkFinish, Program.wp_bind, Program.wp_get, hs.lstFds]
  simp only [autoSinkFdsClose, Program.wp_bind, Program.wp_pure, Program.wp_get, hs.lstTransfers,
    each, Program.wp_modify]
  exact h.setOutput { hs with lstFds := rfl, lstTransfers := rfl } rfl fun _ => hfd

/-- The chunk in hand goes to the string. -/
theorem autoSinkOthers_inv {d : Bytes} (h : Inv c (Function.update noBuf o d) fe w) :
    wp (env c) (autoSinkOthers o.node d) (fun _ => Inv c noBuf) fe w := by
  have hs := h.sink o
  rw [autoSinkOthers, Program.wp_bind, Program.wp_get]
  simp only [hs.lstStrings, hs.lstFds, hs.lstTransfers, each, Program.wp_bind, Program.wp_pure,
    Program.wp_perform]
  rintro _ w' ⟨w₁, hc, rfl⟩
  have h₁ := h.child hc
  refine { h₁ with text := fun o' => ?_ }
  by_cases ho : o' = o
  · subst ho
    have ht := h₁.text o'
    rw [Function.update_self] at ht
    simpa [noBuf] using ht
  · have ht := h₁.text o'
    rw [Function.update_of_ne ho] at ht
    have hne : c.str o' ≠ c.str o := fun he => ho (c.str_inj he)
    simpa only [Function.update_of_ne hne] using ht

theorem autoSinkRound_inv (h : Inv c noBuf fe w) (o : Output) :
    wp (env c) (autoSinkRound o.node) (fun _ => Inv c noBuf) fe w := by
  refine Program.wp_seq (intSinkRead_inv h o) ?_
  rintro ⟨lenDone, d⟩ fe w hr
  unfold SinkRead at hr
  simp only [Program.wp_ite, Program.wp_bind, Program.wp_get, Program.wp_pure]
  split
  · next h0 => rwa [if_pos h0] at hr
  next h0 =>
  rw [if_neg h0] at hr
  split
  · next hneg =>
    rw [if_pos hneg] at hr
    exact autoSinkFinish_inv hr.1 hr.2
  next hpos =>
  rw [if_neg hpos] at hr
  have hs := hr.sink o
  simp only [hs.lstBuffers, autoSinkBuffers, Program.wp_pure, Program.wp_bind, Program.wp_modify,
    Program.wp_ite]
  rw [if_neg (by decide)]
  have hset := hr.setOutput (v := { fe.node o.node with lstBuffers := [] })
    { hs with lstBuffers := rfl } rfl (hr.done o)
  exact autoSinkOthers_inv hset

theorem autoSink_inv (h : Inv c noBuf fe w) (o : Output) :
    wp (env c) (autoSink o.node) (fun _ => Inv c noBuf) fe w := by
  simp only [autoSink, Program.wp_ite, Program.wp_bind, Program.wp_get, Program.wp_pure]
  split
  · exact h
  split
  · exact h
  exact Program.wp_rounds_inv (fun _ _ _ h => autoSinkRound_inv h o) _ _ h

/-! ## The tick -/

theorem childStateRecord_inv (h : Inv c buf fe w) :
    wp (env c) childStateRecord (fun _ => Inv c buf) fe w := by
  refine Program.wp_mono childStateRecord_spec fun _ fe' w' hspec => ?_
  rcases hspec with ⟨-, rfl, rfl⟩ | ⟨-, r, ⟨w₁, hc, hr, rfl⟩, rfl⟩
  · exact h
  have h₁ := h.child hc
  have hrec : ∀ {res : FeResult}, (res.childTerminated = true → w'.alive = false) →
      Inv c buf { fe with mResult := res } w' := fun hd =>
    { h₁ with
      sink := fun o => by cases o; exacts [h₁.sink .out, h₁.sink .err]
      fd := fun o => by cases o; exacts [h₁.fd .out, h₁.fd .err]
      done := fun o => by cases o; exacts [h₁.done .out, h₁.done .err]
      dead := hd }
  cases r with
  | unchanged | eagain | error | unknown => exact h₁
  | exited | signaled => exact hrec fun _ => hr
  | stopped | continued => exact hrec h₁.dead

theorem childSupervise_inv (h : Inv c noBuf fe w) :
    wp (env c) childSupervise (fun res fe' w' => Inv c noBuf fe' w' ∧ (res = .positive →
      fe'.mResult.childTerminated = true ∧ ∀ o : Output, fe'.fd o.node .fdRead = -1)) fe w := by
  have hack : ∀ {fe w}, Inv c noBuf fe w → Inv c noBuf { fe with mDoneAck := true } w := fun h =>
    { h with
      sink := fun o => by cases o; exacts [h.sink .out, h.sink .err]
      fd := fun o => by cases o; exacts [h.fd .out, h.fd .err]
      done := fun o => by cases o; exacts [h.done .out, h.done .err] }
  refine Program.wp_seq (sourceKept.doneCheck hack h) fun _ fe w h => ?_
  refine Program.wp_seq (sourceKept.autoSource h) fun _ fe w h => ?_
  refine Program.wp_seq (autoSink_inv h .out) fun _ fe w h => ?_
  refine Program.wp_seq (autoSink_inv h .err) fun _ fe w h => ?_
  refine Program.wp_seq (childStateRecord_inv h) fun _ fe w h => ?_
  simp only [Program.wp_ite, Program.wp_bind, Program.wp_get, Program.wp_pure]
  have hpending : ∀ {res : Success}, res ≠ .positive → Inv c noBuf fe w ∧ (res = .positive →
      fe.mResult.childTerminated = true ∧ ∀ o : Output, fe.fd o.node .fdRead = -1) :=
    fun hne => ⟨h, fun heq => absurd heq hne⟩
  split
  · exact hpending (by decide)
  split
  · exact hpending (by decide)
  split
  · exact hpending (by decide)
  split
  · exact hpending (by decide)
  next hterm hout herr =>
  refine ⟨h, fun _ => ⟨by simpa using hterm, fun o => ?_⟩⟩
  cases o
  · exact Decidable.not_not.mp hout
  · exact Decidable.not_not.mp herr

/-! ## Runs -/

/-- A command as it gets into `StChildSupervise`: nothing has been read yet. The child
may be anywhere. -/
structure Start (c : Setup) (fe : FileExecuting) (w : Os) : Prop where
  state : fe.mState = .stChildSupervise
  ready : fe.mReadReady = true
  sink : ∀ o : Output, StringSink (fe.node o.node) (c.str o)
  active : ∀ o : Output, (fe.node o.node).autoDone = false
  fd : ∀ o : Output, fe.fd o.node .fdRead = c.fdRead o
  running : fe.mResult.childTerminated = false
  stdin : ∀ o, fe.fd .nodeIn .fdWrite ≠ c.fdRead o
  files : ∀ f ∈ fe.mNodeIn.lstFds, ∀ o, f.fd ≠ c.fdRead o
  empty : ∀ o, w.strs (c.str o) = []
  unread : ∀ o, (w.stream o).unread = (w.stream o).written
  readable : ∀ o, (w.stream o).readable = true
  exited : w.alive = false → ∀ o, (w.stream o).isOpen = false

inductive Move
  | child
  | tick (res : Success)

/-- The child acts, or `process()` is called. -/
inductive Step (c : Setup) : FileExecuting × Os → Move → FileExecuting × Os → Prop
  | child {fe : FileExecuting} {w w' : Os} : Child w w' → Step c (fe, w) .child (fe, w')
  | tick {fe fe' : FileExecuting} {w w' : Os} {res : Success} :
      Exec (env c) process fe w res fe' w' → Step c (fe, w) (.tick res) (fe', w')

theorem Start.inv (h : Start c fe w) : Inv c noBuf fe w where
  state := h.state
  ready := h.ready
  sink := h.sink
  text o := by
    rw [h.empty, h.unread]
    rfl
  fd o := .inl ⟨h.fd o, h.readable o⟩
  done o hd := by
    rw [h.active o] at hd
    cases hd
  dead hd := by
    rw [h.running] at hd
    cases hd
  exited := h.exited
  stdin := h.stdin
  files := h.files

theorem process_inv (h : Inv c noBuf fe w) :
    wp (env c) process (fun res fe' w' => Inv c noBuf fe' w' ∧ (res = .positive →
      fe'.mResult.childTerminated = true ∧ ∀ o : Output, fe'.fd o.node .fdRead = -1)) fe w := by
  rw [process, Program.wp_bind, Program.wp_get, h.state]
  exact childSupervise_inv h

theorem reachable_inv {s : FileExecuting × Os}
    (h : Transition.Reachable (fun s => Start c s.1 s.2) (Step c) s) : Inv c noBuf s.1 s.2 := by
  refine h.invariant (P := fun s => Inv c noBuf s.1 s.2) (fun _ hs => hs.inv) ?_
  intro s i t hi hs
  cases hs with
  | child hc => exact hi.childStep hc
  | tick he => exact (Program.wp_iff.mp (process_inv hi) _ _ _ he).1

/-- When `process()` reports its end, the termination has been recorded, the child can
write no more, and the strings are what it wrote. -/
theorem output_complete {s t : FileExecuting × Os}
    (h : Transition.Reachable (fun s => Start c s.1 s.2) (Step c) s)
    (ht : Step c s (.tick .positive) t) :
    t.1.mResult.childTerminated = true ∧ t.2.alive = false ∧
      ∀ o, (t.2.stream o).isOpen = false ∧ t.2.strs (c.str o) = (t.2.stream o).written := by
  obtain ⟨fe, w⟩ := s
  cases ht with
  | tick he =>
    obtain ⟨hi, hp⟩ := Program.wp_iff.mp (process_inv (reachable_inv h)) _ _ _ he
    obtain ⟨hterm, hfd⟩ := hp rfl
    refine ⟨hterm, hi.dead hterm, fun o => ?_⟩
    rcases hi.fd o with ⟨hf, -⟩ | ⟨-, hu, ho⟩
    · exact absurd ((hfd o).symm.trans hf) (neg_one_ne o)
    · have htext := hi.text o
      rw [hu, noBuf, List.append_nil, List.append_nil] at htext
      exact ⟨ho, htext⟩

/-! ## A run -/

/-- A system that never fails and in which the child does nothing during a call. -/
def readAnswer (w : Os) (o : Output) (len : Nat) : ReadResult × Os :=
  if (w.stream o).readable = false then (.error, w)
  else match (w.stream o).unread.take len with
    | b :: d => (.data (b :: d), w.setStream o { w.stream o with
        unread := (w.stream o).unread.drop len })
    | [] =>
      if len = 0 then (.data [], w)
      else if (w.stream o).isOpen then (.eagain, w) else (.data [], w)

theorem readAnswer_ok (w : Os) (o : Output) (len : Nat) :
    readPipe w o len (readAnswer w o len).1 (readAnswer w o len).2 := by
  unfold readPipe readAnswer
  by_cases hr : (w.stream o).readable = false
  · rw [if_pos hr, if_pos hr]
    exact ⟨rfl, rfl⟩
  rw [if_neg hr, if_neg hr]
  cases htake : (w.stream o).unread.take len with
  | cons b d =>
    refine ⟨htake ▸ List.length_take_le .., _, ?_, rfl⟩
    rw [← htake, List.take_append_drop]
  | nil =>
    by_cases hlen : len = 0
    · simp [hlen]
    have hu : (w.stream o).unread = [] := (List.take_eq_nil_iff.mp htake).resolve_left hlen
    cases ho : (w.stream o).isOpen <;> simp [hlen, hu]

def answer (c : Setup) (w : Os) : (k : Call) → Answer k × Os
  | .read fd len =>
    if fd = c.fdRead .out then readAnswer w .out len
    else if fd = c.fdRead .err then readAnswer w .err len
    else (.eagain, w)
  | .close fd => ((), { w with stream := fun o =>
      { w.stream o with readable := (w.stream o).readable && decide (fd ≠ c.fdRead o) } })
  | .waitpid _ => (if w.alive then .unchanged else .exited 0, w)
  | .append str d => ((), { w with strs := Function.update w.strs str (w.strs str ++ d) })
  | .pipe _ | .openNull _ | .vfork | .transRead _ _ => (none, w)
  | .vecConstCharToCharList | .fcntl _ | .sendReady _ => (true, w)
  | .write _ _ => (.eagain, w)
  | .memcpy _ _ _ | .transSend _ _ | .doneSet _ => ((), w)

theorem env_answer (c : Setup) (w : Os) (k : Call) :
    env c w k (answer c w k).1 (answer c w k).2 := by
  refine ⟨w, .refl, ?_⟩
  cases k with
  | read fd len =>
    by_cases ho : fd = c.fdRead .out
    · subst ho
      refine ⟨fun o h => ?_, fun h => absurd rfl (h .out)⟩
      rw [answer, if_pos rfl]
      exact c.fdRead_inj h ▸ readAnswer_ok w .out len
    by_cases he : fd = c.fdRead .err
    · subst he
      refine ⟨fun o h => ?_, fun h => absurd rfl (h .err)⟩
      rw [answer, if_neg ho, if_pos rfl]
      exact c.fdRead_inj h ▸ readAnswer_ok w .err len
    · rw [answer, if_neg ho, if_neg he]
      refine ⟨fun o h => ?_, fun _ => rfl⟩
      cases o
      · exact absurd h ho
      · exact absurd h he
  | waitpid id =>
    refine ⟨?_, rfl⟩
    cases ha : w.alive <;> simp [answer, ha]
  | _ => rfl

def setup : Setup where
  fdRead := fun | .out => 3 | .err => 4
  str := fun | .out => 0 | .err => 1
  fdRead_nonneg o := by cases o <;> decide
  fdRead_inj o o' h := by cases o <;> cases o' <;> first | rfl | cases h
  str_inj o o' h := by cases o <;> cases o' <;> first | rfl | cases h

def command : FileExecuting where
  mState := .stChildSupervise
  mNodeOut := { pipe := ⟨3, -1⟩, lstStrings := [0], autoEnabled := true }
  mNodeErr := { pipe := ⟨4, -1⟩, lstStrings := [1], autoEnabled := true }
  mReadReady := true

/-- The child has written two bytes and exited. -/
def exited : Os where
  stream
    | .out => ⟨[104, 105], [104, 105], false, true⟩
    | .err => ⟨[], [], false, true⟩
  strs _ := []
  alive := false

theorem output_complete_hi : ∃ s t : FileExecuting × Os,
    Transition.Reachable (fun s => Start setup s.1 s.2) (Step setup) s ∧
    Step setup s (.tick .positive) t ∧ (t.2.stream .out).written = [104, 105] ∧
    t.2.strs 0 = (t.2.stream .out).written := by
  have h₀ : Transition.Reachable (fun s => Start setup s.1 s.2) (Step setup) (command, exited) :=
    .start { state := rfl, ready := rfl, sink := fun o => by cases o <;> constructor <;> rfl
             active := fun o => by cases o <;> rfl
             fd := fun o => by cases o <;> rfl
             running := rfl
             stdin := fun o => by cases o <;> decide
             files := fun f hf => nomatch hf
             empty := fun _ => rfl
             unread := fun o => by cases o <;> rfl
             readable := fun o => by cases o <;> rfl
             exited := fun _ o => by cases o <;> rfl }
  have ht : Step setup (command, exited) (.tick .positive) _ :=
    .tick (Program.exec_run (env_answer setup) process command exited)
  exact ⟨_, _, h₀, ht, rfl, ((output_complete h₀ ht).2.2 .out).2⟩

end Sinks

end FileExecuting

end ProcessingCommon

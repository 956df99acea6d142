import ProcessingCommon.FileExecuting.Chain

/-!
# The invariant of a chain of commands

`Own` is about one command and its descriptors, `Pair` about a command and the one it
feeds. During a tick of command `k` its members work on an object that is put back
at the end, so the invariant is kept of the chain with that object (`Tick`), and a
chunk that has been read and not been sent yet is in hand.
-/

namespace ProcessingCommon

namespace FileExecuting

namespace Chains

open Program (wp Exec rounds each)

/-- The first command's node with the automatic source `src`. -/
structure SourceOk (src : Bytes) (node : FeNode) (mDone : Bool) (accepted : Bytes) : Prop where
  auto : node.autoEnabled = true
  buffer : ∃ b, node.lstBuffers = [b] ∧ b.pSrc = src ∧ b.len = src.length ∧
    accepted = if node.autoDone then src else src.take b.processed
  done : mDone = true → node.autoDone = true

structure Own (S : Setup) (j : Nat) (fe : FileExecuting) (o : Os) : Prop where
  owner : ∀ n e, ¬fe.fd n e < 0 → o.fds (fe.fd n e) = some ⟨j, n, e⟩
  files : ∀ n, ∀ f ∈ (fe.node n).lstFds, f.fd ∈ S.user ∨ f.fd < 0
  errTransfers : ∃ ids : List Nat, fe.mNodeErr.lstTransfers = ids.map .user
  outTransfers : ∃ ids : List Nat, fe.mNodeOut.lstTransfers =
    ids.map .user ++ if j + 1 < S.count then [.exec (j + 1)] else []
  outBuffers : j + 1 < S.count → ∀ b ∈ fe.mNodeOut.lstBuffers, ∀ d, b.pDest = some d →
    S.Feeds d ∧ b.len = S.size d
  manual : 1 ≤ j → fe.mNodeIn.manualEnabled = true ∧ fe.mNodeIn.autoEnabled = false
  ready : fe.mState = .stSinksReadyWait ∨ fe.mState = .stChildSupervise → fe.mSendReady = true
  piped : S.Claimed j → fe.mState = .stFork ∨ fe.mState = .stParentStart →
    ¬fe.fd .nodeIn .fdWrite < 0
  stdin : S.Claimed j → fe.mSendReady = true → fe.mNodeIn.autoDone = false →
    ¬fe.fd .nodeIn .fdWrite < 0
  closed : S.Claimed j → o.closed j = true → fe.mNodeIn.autoDone = true
  acked : 1 ≤ j → fe.mNodeIn.autoDone = true → fe.mDone = true
  source : j = 0 → ∀ src, S.source = some src →
    SourceOk src fe.mNodeIn fe.mDone (o.accepted 0)

/-- Command `p` and the next one, with the chunk `hand` on its way. -/
structure Pair (p : Nat) (fe fe' : FileExecuting) (hand : Bytes) (o : Os) : Prop where
  supervised : fe.mState = .stChildSupervise → fe'.mSendReady = true
  done : fe'.mDone = true → fe.mState = .stChildSupervise ∧ fe.fd .nodeOut .fdRead < 0
  flow : o.accepted (p + 1) ++ hand = o.outRead p

structure Inv (S : Setup) (k : Nat) (hand : Bytes) (w : Chain) : Prop where
  table : ∀ fd s, w.os.fds fd = some s → 0 ≤ fd ∧ fd ∉ S.user
  own : ∀ j, j < S.count → Own S j (w.cmds j) w.os
  pair : ∀ p, p + 1 < S.count →
    Pair p (w.cmds p) (w.cmds (p + 1)) (if p = k then hand else []) w.os

/-- The invariant in a tick of command `k`, whose object is `fe`. -/
def Tick (S : Setup) (k : Nat) (hand : Bytes) (fe : FileExecuting) (w : Chain) : Prop :=
  k < S.count ∧ Inv S k hand (w.setCmd k fe)

variable {S : Setup} {k j p : Nat} {hand hand' : Bytes} {fe fe' : FileExecuting} {w w' : Chain}
  {o o' : Os}

/-! ## Changes -/

/-- What a call of command `k` leaves alone. -/
structure Apart (k : Nat) (o o' : Os) : Prop where
  fds : ∀ fd s, s.cmd ≠ k → o.fds fd = some s → o'.fds fd = some s
  closed : ∀ j, j ≠ k → o'.closed j = o.closed j
  accepted : ∀ j, j ≠ k → o'.accepted j = o.accepted j
  outRead : ∀ j, j ≠ k → o'.outRead j = o.outRead j

theorem Own.apart (h : Own S j fe o) (hj : j ≠ k) (ha : Apart k o o') : Own S j fe o' :=
  { h with
    owner := fun n e hfd => ha.fds _ _ hj (h.owner n e hfd)
    closed := fun hc hcl => h.closed hc (ha.closed j hj ▸ hcl)
    source := fun h0 src hsrc => by
      subst h0
      rw [ha.accepted 0 hj]
      exact h.source rfl src hsrc }

/-- A step of command `k`: what has to be shown is about it and its neighbours. -/
theorem Tick.update (h : Tick S k hand fe w) (ha : Apart k w.os o')
    (htable : ∀ fd s, o'.fds fd = some s → 0 ≤ fd ∧ fd ∉ S.user)
    (hown : Own S k fe w.os → Own S k fe' o')
    (hnext : k + 1 < S.count → Pair k fe (w.cmds (k + 1)) hand w.os →
      Pair k fe' (w.cmds (k + 1)) hand' o')
    (hprev : ∀ p, p + 1 = k → Pair p (w.cmds p) fe [] w.os → Pair p (w.cmds p) fe' [] o') :
    Tick S k hand' fe' { w with os := o' } := by
  obtain ⟨hk, -, ho, hp⟩ := h
  refine ⟨hk, htable, fun j hj => ?_, fun p hlt => ?_⟩
  · have hj' := ho j hj
    by_cases hjk : j = k
    · subst hjk
      simp only [Chain.setCmd, Function.update_self] at hj' ⊢
      exact hown hj'
    · simp only [Chain.setCmd, Function.update_of_ne hjk] at hj' ⊢
      exact hj'.apart hjk ha
  · have hp' := hp p hlt
    by_cases hpk : p = k
    · subst hpk
      have hne : p + 1 ≠ p := by omega
      simp only [Chain.setCmd, Function.update_self, Function.update_of_ne hne, if_pos] at hp' ⊢
      exact hnext hlt hp'
    by_cases hpk' : p + 1 = k
    · subst hpk'
      simp only [Chain.setCmd, Function.update_self, Function.update_of_ne hpk,
        if_neg hpk] at hp' ⊢
      exact hprev p rfl hp'
    · simp only [Chain.setCmd, Function.update_of_ne hpk, Function.update_of_ne hpk',
        if_neg hpk] at hp' ⊢
      exact { hp' with
        flow := by
          rw [ha.accepted _ hpk', ha.outRead _ hpk]
          exact hp'.flow }

theorem Tick.own (h : Tick S k hand fe w) : Own S k fe w.os := by
  have ho := h.2.own k h.1
  simpa only [Chain.setCmd, Function.update_self] using ho

theorem Tick.ownOther (h : Tick S k hand fe w) (hj : j < S.count) (hne : j ≠ k) :
    Own S j (w.cmds j) w.os := by
  have ho := h.2.own j hj
  simpa only [Chain.setCmd, Function.update_of_ne hne] using ho

theorem Tick.next (h : Tick S k hand fe w) (hk : k + 1 < S.count) :
    Pair k fe (w.cmds (k + 1)) hand w.os := by
  have hp := h.2.pair k hk
  have hne : k + 1 ≠ k := by omega
  simpa only [Chain.setCmd, Function.update_self, Function.update_of_ne hne, if_pos] using hp

theorem Tick.table (h : Tick S k hand fe w) {fd : Int} {s : Slot} (hs : w.os.fds fd = some s) :
    0 ≤ fd ∧ fd ∉ S.user := h.2.table fd s hs

theorem Apart.refl (k : Nat) (o : Os) : Apart k o o :=
  ⟨fun _ _ _ h => h, fun _ _ => rfl, fun _ _ => rfl, fun _ _ => rfl⟩

/-- The children drain. -/
theorem Tick.drain (h : Tick S k hand fe w) (hd : Drained w.os o') :
    Tick S k hand fe { w with os := o' } := by
  obtain ⟨u, rfl, -⟩ := hd
  exact h.update ⟨fun _ _ _ h => h, fun _ _ => rfl, fun _ _ => rfl, fun _ _ => rfl⟩ h.2.table
    (fun ho => { ho with })
    (fun _ hp => ⟨hp.supervised, hp.done, hp.flow⟩)
    fun _ _ hp => ⟨hp.supervised, hp.done, hp.flow⟩

/-- A change of the object alone. -/
theorem Tick.change (h : Tick S k hand fe w) (hown : Own S k fe w.os → Own S k fe' w.os)
    (hnext : k + 1 < S.count → Pair k fe (w.cmds (k + 1)) hand w.os →
      Pair k fe' (w.cmds (k + 1)) hand w.os)
    (hprev : ∀ p, p + 1 = k → Pair p (w.cmds p) fe [] w.os → Pair p (w.cmds p) fe' [] w.os) :
    Tick S k hand fe' w :=
  h.update (Apart.refl k w.os) h.2.table hown hnext hprev

/-- The members that the invariant does not speak of. -/
theorem Tick.congr (h : Tick S k hand fe w) (hs : fe'.mState = fe.mState)
    (hr : fe'.mSendReady = fe.mSendReady) (hd : fe'.mDone = fe.mDone)
    (hn : ∀ n, fe'.node n = fe.node n) : Tick S k hand fe' w := by
  have hin : fe'.mNodeIn = fe.mNodeIn := hn .nodeIn
  have hout : fe'.mNodeOut = fe.mNodeOut := hn .nodeOut
  have herr : fe'.mNodeErr = fe.mNodeErr := hn .nodeErr
  have hfd : ∀ n e, fe'.fd n e = fe.fd n e := fun n e => by rw [fd, fd, hn]
  refine h.change (fun ho => ?_) (fun _ hp => ?_) fun p _ hp => ?_
  · exact {
      owner := fun n e => by rw [hfd]; exact ho.owner n e
      files := fun n => by rw [hn]; exact ho.files n
      errTransfers := by rw [herr]; exact ho.errTransfers
      outTransfers := by rw [hout]; exact ho.outTransfers
      outBuffers := by rw [hout]; exact ho.outBuffers
      manual := by rw [hin]; exact ho.manual
      ready := by rw [hs, hr]; exact ho.ready
      piped := by rw [hs, hfd]; exact ho.piped
      stdin := by rw [hr, hfd, hin]; exact ho.stdin
      closed := by rw [hin]; exact ho.closed
      acked := by rw [hin, hd]; exact ho.acked
      source := by rw [hin, hd]; exact ho.source }
  · exact ⟨by rw [hs]; exact hp.supervised, by rw [hs, hfd]; exact hp.done, hp.flow⟩
  · exact ⟨by rw [hr]; exact hp.supervised, by rw [hd]; exact hp.done, hp.flow⟩

/-- The node of an output, whose pipe and transfers stay. -/
theorem Tick.setOutput (h : Tick S k hand fe w) (sel : Output) {v : FeNode}
    (hp : v.pipe = (fe.node sel.node).pipe)
    (ht : v.lstTransfers = (fe.node sel.node).lstTransfers)
    (hf : ∀ f ∈ v.lstFds, f.fd ∈ S.user ∨ f.fd < 0)
    (hb : ∀ b ∈ v.lstBuffers, ∃ b' ∈ (fe.node sel.node).lstBuffers,
      b.pDest = b'.pDest ∧ b.len = b'.len) :
    Tick S k hand (fe.setNode sel.node v) w := by
  have hfd : ∀ n e, (fe.setNode sel.node v).fd n e = fe.fd n e := fun n e =>
    fd_setNode _ _ _ _ _ hp
  refine h.change (fun ho => ?_) (fun _ hpair => ?_) fun p _ hpair => ?_
  · refine { owner := fun n e => by rw [hfd]; exact ho.owner n e
             files := fun n => ?_
             errTransfers := ?_
             outTransfers := ?_
             outBuffers := fun hk => ?_
             manual := by cases sel <;> exact ho.manual
             ready := by cases sel <;> exact ho.ready
             piped := by rw [hfd, setNode_mState]; exact ho.piped
             stdin := by rw [hfd]; cases sel <;> exact ho.stdin
             closed := by cases sel <;> exact ho.closed
             acked := by cases sel <;> exact ho.acked
             source := by cases sel <;> exact ho.source }
    · rw [node_setNode]
      split
      · exact hf
      · exact ho.files n
    · cases sel
      · exact ho.errTransfers
      · exact ht ▸ ho.errTransfers
    · cases sel
      · exact ht ▸ ho.outTransfers
      · exact ho.outTransfers
    · cases sel
      · intro b hbm d hd
        obtain ⟨b', hbm', hpd, hl⟩ := hb b hbm
        rw [hl]
        exact ho.outBuffers hk b' hbm' d (hpd ▸ hd)
      · exact ho.outBuffers hk
  · refine ⟨by rw [setNode_mState]; exact hpair.supervised, ?_, hpair.flow⟩
    rw [hfd, setNode_mState]
    exact hpair.done
  · exact ⟨by rw [setNode_mSendReady]; exact hpair.supervised,
      by rw [setNode_mDone]; exact hpair.done, hpair.flow⟩

/-! ## Calls -/

variable {ok : Os → Call → Prop}

/-- A call to the system, with the state in which it is answered. -/
theorem Tick.call (h : Tick S k hand fe w) {c : Call} {r : Answer c}
    (he : ∃ o, osCall S ok k w.os c r o ∧ w' = { w with os := o }) :
    ∃ o₁, Tick S k hand fe { w with os := o₁ } ∧ Drained w.os o₁ ∧ ok o₁ c ∧
      ∃ o, sys S k o₁ c r o ∧ w' = { w with os := o } := by
  obtain ⟨o, ⟨o₁, hd, hok, hs⟩, rfl⟩ := he
  exact ⟨o₁, h.drain hd, hd, hok, o, hs, rfl⟩

/-- A call that leaves the pipes. -/
theorem Tick.quiet (h : Tick S k hand fe w) {c : Call} {r : Answer c}
    (he : ∃ o, osCall S ok k w.os c r o ∧ w' = { w with os := o })
    (hc : ∀ o o', sys S k o c r o' → o' = o) : Tick S k hand fe w' ∧ w'.cmds = w.cmds := by
  obtain ⟨o₁, h₁, -, -, o, hs, rfl⟩ := h.call he
  obtain rfl := hc _ _ hs
  exact ⟨h₁, rfl⟩

/-- The descriptors of the user are no pipes of the commands. -/
theorem Tick.notOpen (h : Tick S k hand fe w) {fd : Int} (hfd : fd ∈ S.user ∨ fd < 0) :
    w.os.fds fd = none := by
  cases hs : w.os.fds fd with
  | none => rfl
  | some s =>
    obtain ⟨hpos, hu⟩ := h.table hs
    rcases hfd with hfd | hfd
    · exact absurd hfd hu
    · exact absurd hpos (Int.not_le.mpr hfd)

theorem closeFd_notOpen {fd : Int} (h : o.fds fd = none) : o.closeFd fd = o := by
  have hu : Function.update o.fds fd none = o.fds := by
    rw [← h, Function.update_eq_self]
  simp only [Os.closeFd, hu, h]

theorem closeFd_table {fd : Int} (h : ∀ fd s, o.fds fd = some s → 0 ≤ fd ∧ fd ∉ S.user) :
    ∀ fd' s, (o.closeFd fd).fds fd' = some s → 0 ≤ fd' ∧ fd' ∉ S.user := by
  intro fd' s hs
  by_cases hf : fd' = fd
  · subst hf
    simp [Os.closeFd] at hs
  · simp only [Os.closeFd, Function.update_of_ne hf] at hs
    exact h fd' s hs

/-- A descriptor of command `k` is closed. -/
theorem apart_closeFd {n : NodeSel} {e : PipeEnd} {fd : Int} (hs : o.fds fd = some ⟨k, n, e⟩) :
    Apart k o (o.closeFd fd) where
  fds fd' s hne hs' := by
    have hf : fd' ≠ fd := by
      rintro rfl
      rw [hs] at hs'
      exact hne (Option.some.inj hs' ▸ rfl)
    simp only [Os.closeFd, Function.update_of_ne hf, hs']
  closed j hj := by
    simp only [Os.closeFd, hs]
    cases n <;> cases e <;> first | rfl | exact Function.update_of_ne hj ..
  accepted _ _ := rfl
  outRead _ _ := rfl

/-- The other descriptors of the command stay open. -/
theorem Own.closeFd (h : Own S k fe o) {n : NodeSel} {e : PipeEnd} (hfd : ¬fe.fd n e < 0)
    (n' : NodeSel) (e' : PipeEnd) (hne : ¬(n' = n ∧ e' = e)) (hfd' : ¬fe.fd n' e' < 0) :
    (o.closeFd (fe.fd n e)).fds (fe.fd n' e') = some ⟨k, n', e'⟩ := by
  have hs := h.owner n e hfd
  have hs' := h.owner n' e' hfd'
  have hf : fe.fd n' e' ≠ fe.fd n e := by
    intro heq
    rw [heq, hs] at hs'
    injection hs' with hs'
    injection hs' with _ hn he
    exact hne ⟨hn.symm, he.symm⟩
  simp only [Os.closeFd, Function.update_of_ne hf, hs']

/-- The object with other pipes. -/
theorem Own.pipes (h : Own S j fe o) (hn : ∀ n, ∃ p, fe'.node n = { fe.node n with pipe := p })
    (hs : fe'.mState = fe.mState) (hr : fe'.mSendReady = fe.mSendReady)
    (hd : fe'.mDone = fe.mDone)
    (howner : ∀ n e, ¬fe'.fd n e < 0 → o'.fds (fe'.fd n e) = some ⟨j, n, e⟩)
    (hw : S.Claimed j → fe'.fd .nodeIn .fdWrite < 0 → fe.fd .nodeIn .fdWrite < 0)
    (hcl : S.Claimed j → o'.closed j = true → o.closed j = true)
    (hacc : o'.accepted = o.accepted) : Own S j fe' o' := by
  obtain ⟨pin, hin⟩ := hn .nodeIn
  obtain ⟨pout, hout⟩ := hn .nodeOut
  obtain ⟨perr, herr⟩ := hn .nodeErr
  change fe'.mNodeIn = _ at hin
  change fe'.mNodeOut = _ at hout
  change fe'.mNodeErr = _ at herr
  exact {
    owner := howner
    files := fun n => by
      obtain ⟨p, hp⟩ := hn n
      rw [hp]
      exact h.files n
    errTransfers := by rw [herr]; exact h.errTransfers
    outTransfers := by rw [hout]; exact h.outTransfers
    outBuffers := by rw [hout]; exact h.outBuffers
    manual := by rw [hin]; exact h.manual
    ready := by rw [hs, hr]; exact h.ready
    piped := fun hc hst hneg => h.piped hc (hs ▸ hst) (hw hc hneg)
    stdin := fun hc hsend hdone hneg => by
      rw [hin] at hdone
      exact h.stdin hc (hr ▸ hsend) hdone (hw hc hneg)
    closed := fun hc hclosed => by rw [hin]; exact h.closed hc (hcl hc hclosed)
    acked := by rw [hin, hd]; exact h.acked
    source := fun h0 src hsrc => by
      rw [hin, hd, hacc]
      obtain ⟨hauto, hbuff, hdone⟩ := h.source h0 src hsrc
      exact ⟨hauto, hbuff, hdone⟩ }

/-- One of the other ends is closed. -/
theorem Tick.closeOther (h : Tick S k hand fe w) {n : NodeSel} {e : PipeEnd}
    (hfd : ¬fe.fd n e < 0) (hne : S.Claimed k → ¬(n = .nodeIn ∧ e = .fdWrite)) :
    Tick S k hand (fe.setFd n e (-1)) { w with os := w.os.closeFd (fe.fd n e) } := by
  have hs := h.own.owner n e hfd
  have hstate : (fe.setFd n e (-1)).mState = fe.mState := setNode_mState ..
  have hready : (fe.setFd n e (-1)).mSendReady = fe.mSendReady := setNode_mSendReady ..
  have hdone : (fe.setFd n e (-1)).mDone = fe.mDone := setNode_mDone ..
  refine h.update (apart_closeFd hs) (closeFd_table h.2.table) (fun ho => ?_)
    (fun _ hp => ?_) fun p _ hp => ?_
  · refine ho.pipes (Reset.node (.inr rfl)) hstate hready hdone (fun n' e' hfd' => ?_)
      (fun hc hneg => ?_) (fun hc hcl => ?_) rfl
    · by_cases heq : n' = n ∧ e' = e
      · rw [fd_setFd, if_pos heq] at hfd'
        exact absurd (by decide) hfd'
      · rw [fd_setFd, if_neg heq] at hfd' ⊢
        exact ho.closeFd hfd n' e' heq hfd'
    · rwa [fd_setFd, if_neg fun heq => hne hc ⟨heq.1.symm, heq.2.symm⟩] at hneg
    · have hsame : (w.os.closeFd (fe.fd n e)).closed = w.os.closed := by
        have hne' := hne hc
        simp only [Os.closeFd, hs]
        cases n <;> cases e <;> first | rfl | exact absurd ⟨rfl, rfl⟩ hne'
      rwa [hsame] at hcl
  · refine ⟨hstate.symm ▸ hp.supervised, fun hd => ?_, hp.flow⟩
    obtain ⟨hst, hneg⟩ := hp.done hd
    refine ⟨hstate.trans hst, ?_⟩
    rw [fd_setFd]
    split
    · decide
    · exact hneg
  · exact ⟨hready.symm ▸ hp.supervised, hdone.symm ▸ hp.done, hp.flow⟩

/-! ## The start of a command -/

/-- A node gets its pipe. -/
theorem Tick.setPipe (h : Tick S k hand fe w) (hst : fe.mState ≠ .stChildSupervise)
    {n : NodeSel} {p : FePairFd} {fds : Int → Option Slot}
    (hkeep : ∀ fd s, w.os.fds fd = some s → fds fd = some s)
    (hnew : ∀ fd s, fds fd = some s → w.os.fds fd = some s ∨ 0 ≤ fd ∧ fd ∉ S.user)
    (howner : ∀ e, ¬p.fd e < 0 → fds (p.fd e) = some ⟨k, n, e⟩)
    (hin : n = .nodeIn → ¬p.fdWrite < 0) :
    Tick S k hand (fe.setPipe n p) { w with os := { w.os with fds := fds } } := by
  have hfd : ∀ n' e', (fe.setPipe n p).fd n' e' = if n' = n then p.fd e' else fe.fd n' e' := by
    intro n' e'
    rw [fd, node_setPipe]
    split <;> rfl
  have hstate : (fe.setPipe n p).mState = fe.mState := setNode_mState ..
  have hready : (fe.setPipe n p).mSendReady = fe.mSendReady := setNode_mSendReady ..
  have hdone : (fe.setPipe n p).mDone = fe.mDone := setNode_mDone ..
  refine h.update ⟨fun fd s _ => hkeep fd s, fun _ _ => rfl, fun _ _ => rfl, fun _ _ => rfl⟩
    (fun fd s hs => (hnew fd s hs).elim (h.2.table fd s) id) (fun ho => ?_) (fun _ hp => ?_)
    fun p _ hp => ⟨hready.symm ▸ hp.supervised, hdone.symm ▸ hp.done, hp.flow⟩
  · refine ho.pipes (fun n' => ?_) hstate hready hdone (fun n' e' hneg => ?_)
      (fun _ hneg => ?_) (fun _ => id) rfl
    · cases n <;> cases n' <;> exact ⟨_, rfl⟩
    · rw [hfd] at hneg ⊢
      split at hneg
      · next hn =>
        rw [if_pos hn, hn]
        exact howner e' hneg
      · next hn =>
        rw [if_neg hn]
        exact hkeep _ _ (ho.owner n' e' hneg)
    · rw [hfd] at hneg
      split at hneg
      · next hn => exact absurd hneg (hin hn.symm)
      · exact hneg
  · exact ⟨hstate.symm ▸ hp.supervised, fun hd => absurd (hp.done hd).1 hst, hp.flow⟩

/-- Another state of a command that is not supervised yet. -/
theorem Tick.goto (h : Tick S k hand fe w) {st : ProcState} (hst : fe.mState ≠ .stChildSupervise)
    (hready : st = .stSinksReadyWait ∨ st = .stChildSupervise → fe.mSendReady = true)
    (hpiped : S.Claimed k → st = .stFork ∨ st = .stParentStart → ¬fe.fd .nodeIn .fdWrite < 0)
    (hnext : st = .stChildSupervise → k + 1 < S.count → (w.cmds (k + 1)).mSendReady = true) :
    Tick S k hand { fe with mState := st } w :=
  h.change (fun ho => { ho with ready := hready, piped := hpiped })
    (fun hk hp => ⟨fun hs => hnext hs hk, fun hd => absurd (hp.done hd).1 hst, hp.flow⟩)
    fun _ _ hp => ⟨hp.supervised, hp.done, hp.flow⟩

/-- The command is ready for data. -/
theorem Tick.setReady (h : Tick S k hand fe w) (hst : fe.mState = .stParentStart) :
    Tick S k hand { fe with mSendReady := true, mReadReady := true } w :=
  h.change
    (fun ho => { ho with
      ready := fun _ => rfl
      stdin := fun hc _ _ => ho.piped hc (.inr hst) })
    (fun _ hp => ⟨hp.supervised, hp.done, hp.flow⟩)
    fun _ _ hp => ⟨fun _ => rfl, hp.done, hp.flow⟩

/-! ## The source -/

/-- The stdin of command `j` has accepted `data`. -/
structure Sent (j : Nat) (data : Bytes) (o o' : Os) : Prop where
  fds : o'.fds = o.fds
  closed : o'.closed = o.closed
  outRead : o'.outRead = o.outRead
  accepted : o'.accepted j = o.accepted j ++ data
  others : ∀ j', j' ≠ j → o'.accepted j' = o.accepted j'

theorem Sent.nil (j : Nat) (o : Os) : Sent j [] o o :=
  ⟨rfl, rfl, rfl, (List.append_nil _).symm, fun _ _ => rfl⟩

theorem Sent.trans {d d' : Bytes} {o'' : Os} (h : Sent j d o o') (h' : Sent j d' o' o'') :
    Sent j (d ++ d') o o'' where
  fds := h'.fds.trans h.fds
  closed := h'.closed.trans h.closed
  outRead := h'.outRead.trans h.outRead
  accepted := by rw [h'.accepted, h.accepted, List.append_assoc]
  others j' hj := (h'.others j' hj).trans (h.others j' hj)

/-- The stdin of the first command has accepted something. -/
theorem Tick.accepted (h : Tick S 0 hand fe w) {data : Bytes} (hs : Sent 0 data w.os o')
    {l : List FeNodeBuffer}
    (hsrc : ∀ src, S.source = some src → SourceOk src fe.mNodeIn fe.mDone (w.os.accepted 0) →
      SourceOk src { fe.mNodeIn with lstBuffers := l } fe.mDone (w.os.accepted 0 ++ data)) :
    Tick S 0 hand (fe.setNode .nodeIn { fe.mNodeIn with lstBuffers := l })
      { w with os := o' } := by
  have hapart : Apart 0 w.os o' :=
    ⟨fun _ _ _ h => hs.fds ▸ h, fun _ _ => by rw [hs.closed], hs.others,
      fun _ _ => by rw [hs.outRead]⟩
  refine h.update hapart (hs.fds ▸ h.2.table) (fun ho => ?_) (fun _ hp => ?_)
    fun p hp => absurd hp (Nat.succ_ne_zero p)
  · exact { ho with
      owner := fun n e => by
        have := ho.owner n e
        rw [← hs.fds] at this
        cases n <;> exact this
      files := fun n => by
        have := ho.files n
        cases n <;> exact this
      closed := hs.closed ▸ ho.closed
      source := fun _ src hb => by
        rw [hs.accepted]
        exact hsrc src hb (ho.source rfl src hb) }
  · refine ⟨hp.supervised, hp.done, ?_⟩
    rw [hs.others _ (Nat.succ_ne_zero 0), hs.outRead]
    exact hp.flow

/-- The buffer goes on. -/
theorem SourceOk.progress {src acc : Bytes} {node : FeNode} {d : Bool}
    (h : SourceOk src node d acc) (hdone : node.autoDone = false) {b : FeNodeBuffer}
    (hb : node.lstBuffers = [b]) (n : Nat) :
    SourceOk src { node with lstBuffers := [{ b with processed := b.processed + n }] } d
      (acc ++ (b.pSrc.drop b.processed).take n) := by
  obtain ⟨hauto, ⟨b', hb', hp, hl, hacc⟩, hd⟩ := h
  obtain rfl : b = b' := List.head_eq_of_cons_eq (hb.symm.trans hb')
  rw [hdone, if_neg (by decide)] at hacc
  refine ⟨hauto, ⟨_, rfl, hp, hl, ?_⟩, hd⟩
  dsimp only
  rw [hdone, if_neg (by decide), hacc, hp, List.take_add]

/-- The buffer has been sent. -/
theorem SourceOk.complete {src acc : Bytes} {node : FeNode} {d : Bool}
    (h : SourceOk src node d acc) (hdone : node.autoDone = false) {b : FeNodeBuffer}
    (hb : node.lstBuffers = [b]) (hlen : b.len ≤ b.processed) : acc = src := by
  obtain ⟨-, ⟨b', hb', -, hl, hacc⟩, -⟩ := h
  obtain rfl : b = b' := List.head_eq_of_cons_eq (hb.symm.trans hb')
  rw [hacc, hdone, if_neg (by decide), List.take_of_length_le (hl ▸ hlen)]

/-- The files of a source. -/
theorem Tick.setFiles (h : Tick S k hand fe w) {l : List FeFileDescSetting}
    (hl : ∀ f ∈ l, f.fd ∈ S.user ∨ f.fd < 0) :
    Tick S k hand (fe.setNode .nodeIn { fe.mNodeIn with lstFds := l }) w :=
  h.change
    (fun ho => { ho with
      owner := fun n e => by
        have := ho.owner n e
        cases n <;> exact this
      files := fun n => by
        have := ho.files n
        cases n
        · exact hl
        · exact this
        · exact this
      source := fun h0 src hs =>
        let ⟨hauto, hb, hd⟩ := ho.source h0 src hs
        ⟨hauto, hb, hd⟩ })
    (fun _ hp => ⟨hp.supervised, hp.done, hp.flow⟩)
    fun _ _ hp => ⟨hp.supervised, hp.done, hp.flow⟩

/-- `autoSourceDone` on a source that has been accepted. -/
theorem Tick.finish (h : Tick S k hand fe w) (hst : fe.mState = .stChildSupervise)
    (hmore : 1 ≤ k → fe.mDone = true)
    (hsrc : k = 0 → ∀ src, S.source = some src → w.os.accepted 0 = src)
    (hclose : fe' = fe ∧ o' = w.os ∨
      ¬fe.fd .nodeIn .fdWrite < 0 ∧ fe' = fe.setFd .nodeIn .fdWrite (-1) ∧
        o' = w.os.closeFd (fe.fd .nodeIn .fdWrite)) :
    Tick S k hand { fe' with mNodeIn := { fe'.mNodeIn with autoDone := true }, mDone := true }
      { w with os := o' } := by
  have hacc : o'.accepted = w.os.accepted ∧ o'.outRead = w.os.outRead := by
    rcases hclose with ⟨-, rfl⟩ | ⟨-, -, rfl⟩ <;> exact ⟨rfl, rfl⟩
  have hapart : Apart k w.os o' := by
    rcases hclose with ⟨-, rfl⟩ | ⟨hfd, -, rfl⟩
    · exact Apart.refl k _
    · exact apart_closeFd (h.own.owner _ _ hfd)
  have htable : ∀ fd s, o'.fds fd = some s → 0 ≤ fd ∧ fd ∉ S.user := by
    rcases hclose with ⟨-, rfl⟩ | ⟨-, -, rfl⟩
    · exact h.2.table
    · exact closeFd_table h.2.table
  have howner : ∀ n e, ¬fe'.fd n e < 0 → o'.fds (fe'.fd n e) = some ⟨k, n, e⟩ := by
    rcases hclose with ⟨rfl, rfl⟩ | ⟨hfd, rfl, rfl⟩
    · exact h.own.owner
    · intro n e hneg
      rw [fd_setFd] at hneg ⊢
      split at hneg
      · exact absurd (by decide) hneg
      · next hne =>
        rw [if_neg hne]
        exact h.own.closeFd hfd n e hne hneg
  -- apart from the pipe, the two cases are the same object
  obtain ⟨p, rfl⟩ : ∃ p, fe' = fe.setPipe .nodeIn p := by
    rcases hclose with ⟨rfl, -⟩ | ⟨-, rfl, -⟩
    · exact ⟨fe'.mNodeIn.pipe, rfl⟩
    · exact ⟨_, rfl⟩
  refine h.update hapart htable (fun ho => ?_) (fun _ hp => ?_) fun q hq hp => ?_
  · exact {
      owner := fun n e => by
        have := howner n e
        cases n <;> exact this
      files := fun n => by
        have := ho.files n
        cases n <;> exact this
      errTransfers := ho.errTransfers
      outTransfers := ho.outTransfers
      outBuffers := ho.outBuffers
      manual := ho.manual
      ready := ho.ready
      piped := fun _ hs => by
        change fe.mState = _ ∨ fe.mState = _ at hs
        rw [hst] at hs
        rcases hs with hs | hs <;> cases hs
      stdin := fun _ _ hd => nomatch hd
      closed := fun _ _ => rfl
      acked := fun _ _ => rfl
      source := fun h0 src hs => by
        obtain ⟨hauto, ⟨b, hb, hp, hl, -⟩, -⟩ := ho.source h0 src hs
        exact ⟨hauto, ⟨b, hb, hp, hl, by rw [hacc.1]; exact hsrc h0 src hs⟩, fun _ => rfl⟩ }
  · exact ⟨hp.supervised, hp.done, by rw [hacc.1, hacc.2]; exact hp.flow⟩
  · exact ⟨hp.supervised, fun _ => hp.done (hmore (by omega)), by
      rw [hacc.1, hacc.2]
      exact hp.flow⟩

/-! ## The outputs -/

/-- Nobody is fed. -/
theorem Tick.last (h : Tick S k hand fe w) (hk : ¬k + 1 < S.count) : Tick S k hand' fe w :=
  h.update (Apart.refl k w.os) h.2.table id (fun hlt => absurd hlt hk) fun _ _ hp => hp

/-- `data` has been read from the stdout of command `j`. -/
structure Received (j : Nat) (data : Bytes) (o o' : Os) : Prop where
  fds : o'.fds = o.fds
  closed : o'.closed = o.closed
  accepted : o'.accepted = o.accepted
  outRead : o'.outRead j = o.outRead j ++ data
  others : ∀ j', j' ≠ j → o'.outRead j' = o.outRead j'

theorem Tick.received (h : Tick S k [] fe w) (hr : Received k hand w.os o') :
    Tick S k hand fe { w with os := o' } := by
  have hapart : Apart k w.os o' :=
    ⟨fun _ _ _ h => hr.fds ▸ h, fun _ _ => by rw [hr.closed], fun _ _ => by rw [hr.accepted],
      hr.others⟩
  refine h.update hapart (hr.fds ▸ h.2.table) (fun ho => ?_) (fun _ hp => ?_) fun p hpk hp => ?_
  · exact { ho with
      owner := hr.fds ▸ ho.owner
      closed := hr.closed ▸ ho.closed
      source := hr.accepted ▸ ho.source }
  · refine ⟨hp.supervised, hp.done, ?_⟩
    rw [hr.accepted, hr.outRead, ← hp.flow, List.append_nil]
  · refine ⟨hp.supervised, hp.done, ?_⟩
    rw [hr.accepted, hr.others p (by omega)]
    exact hp.flow

/-- The next command has accepted the chunk. -/
theorem Tick.sent (h : Tick S k hand fe w) (hs : Sent (k + 1) hand w.os o') :
    Tick S k [] fe { w with os := o' } := by
  obtain ⟨hk, htable, ho, hp⟩ := h
  refine ⟨hk, fun fd s hfd => htable fd s (hs.fds ▸ hfd), fun j hj => ?_, fun p hlt => ?_⟩
  · have hown : Own S j ((w.setCmd k fe).cmds j) w.os := ho j hj
    exact { hown with
      owner := fun n e hneg => (congrFun hs.fds _).trans (hown.owner n e hneg)
      closed := fun hc hcl => hown.closed hc ((congrFun hs.closed j).symm.trans hcl)
      source := fun h0 src hsrc =>
        (hs.others 0 (Nat.zero_ne_add_one k)).symm ▸ hown.source h0 src hsrc }
  · have hpair : Pair p ((w.setCmd k fe).cmds p) ((w.setCmd k fe).cmds (p + 1))
        (if p = k then hand else []) w.os := hp p hlt
    refine ⟨hpair.supervised, hpair.done, ?_⟩
    show o'.accepted (p + 1) ++ _ = o'.outRead p
    rw [hs.outRead, ← hpair.flow]
    by_cases hpk : p = k
    · subst hpk
      rw [if_pos rfl, if_pos rfl, hs.accepted, List.append_nil]
    · rw [if_neg hpk, if_neg hpk, hs.others _ fun heq => hpk (Nat.succ.inj heq)]

/-- `doneSet` on the next command, at the end of the output. -/
theorem Tick.doneNext (h : Tick S k hand fe w) (hst : fe.mState = .stChildSupervise)
    (hfd : fe.fd .nodeOut .fdRead < 0) :
    Tick S k hand fe (w.setCmd (k + 1) { w.cmds (k + 1) with mDone := true }) := by
  obtain ⟨hk, htable, ho, hp⟩ := h
  have hne : k + 1 ≠ k := by omega
  have hcmd : ∀ j, ((w.setCmd (k + 1) { w.cmds (k + 1) with mDone := true }).setCmd k fe).cmds j =
      if j = k + 1 then { (w.setCmd k fe).cmds j with mDone := true }
      else (w.setCmd k fe).cmds j := by
    intro j
    simp only [Chain.setCmd, Function.update_apply]
    split
    · next hj => rw [if_neg (by omega)]
    · split
      · next hj => rw [hj]
      · rfl
  refine ⟨hk, htable, fun j hj => ?_, fun p hlt => ?_⟩
  · rw [hcmd]
    split
    · next hjk =>
      exact { ho j hj with
        acked := fun _ _ => rfl
        source := fun h0 => absurd (hjk.symm.trans h0) (Nat.succ_ne_zero k) }
    · exact ho j hj
  · have hpair := hp p hlt
    rw [hcmd, hcmd]
    refine ⟨?_, ?_, hpair.flow⟩
    · have := hpair.supervised
      split <;> split <;> exact this
    · by_cases hpk : p = k
      · subst hpk
        intro _
        rw [if_neg hne.symm]
        simp only [Chain.setCmd, Function.update_self]
        exact ⟨hst, hfd⟩
      · rw [if_neg (show ¬p + 1 = k + 1 by omega)]
        have := hpair.done
        split <;> exact this

/-! ## The start of the chain -/

/-- A command of the container before its first tick. -/
theorem linkedCmd_cmds (hl : Container.Linked S.user S.size S.container) (hj : j < S.count) :
    ∃ fe₀, Container.LinkedCmd S.user S.size S.count j fe₀ ∧
      S.cmds j = if j = 0 then { fe₀ with mNodeIn := S.container.mNodeIn } else fe₀ := by
  obtain ⟨fe₀, hget⟩ : ∃ fe₀, S.container.mLstExec[j]? = some fe₀ :=
    ⟨_, List.getElem?_eq_getElem hj⟩
  refine ⟨fe₀, hl.cmds j fe₀ hget, ?_⟩
  simp only [Setup.cmds, Container.start, List.getElem?_modify, hget, Option.map_eq_map,
    Option.map_some, Option.getD_some, eq_comm]

/-- What holds of the nodes of a command and of the source of the container holds after `start`. -/
theorem cmds_node {q : FeNode → Prop} {fe₀ : FileExecuting} {n : NodeSel}
    (hcmd : S.cmds j = if j = 0 then { fe₀ with mNodeIn := S.container.mNodeIn } else fe₀)
    (hsrc : q S.container.mNodeIn) (hq : q (fe₀.node n)) : q ((S.cmds j).node n) := by
  rw [hcmd]
  split
  · cases n with
    | nodeIn => exact hsrc
    | nodeOut | nodeErr => exact hq
  · exact hq

theorem own_start (hl : Container.Linked S.user S.size S.container) (hj : j < S.count)
    (hclosed : o.closed j = false) (hacc : o.accepted 0 = []) : Own S j (S.cmds j) o := by
  obtain ⟨fe₀, hfe, hcmd⟩ := linkedCmd_cmds hl hj
  have hout : (S.cmds j).mNodeOut = fe₀.mNodeOut := by rw [hcmd]; split <;> rfl
  have herr : (S.cmds j).mNodeErr = fe₀.mNodeErr := by rw [hcmd]; split <;> rfl
  have hin : (S.cmds j).mNodeIn = if j = 0 then S.container.mNodeIn else fe₀.mNodeIn := by
    rw [hcmd]
    split <;> rfl
  obtain ⟨hst, hready, hdone⟩ :
      (S.cmds j).mState = .stStart ∧ (S.cmds j).mSendReady = false ∧ (S.cmds j).mDone = false := by
    rw [hcmd]
    split <;> exact hfe.new
  have hfd : ∀ n e, (S.cmds j).fd n e = -1 := fun n e =>
    cmds_node (q := fun v => v.pipe.fd e = -1) hcmd (by rw [hl.source.pipe]; cases e <;> rfl)
      (hfe.fds n e)
  have hauto : (S.cmds j).mNodeIn.autoDone = false :=
    cmds_node (q := fun v => v.autoDone = false) (n := .nodeIn) hcmd hl.source.active
      (hfe.active .nodeIn)
  exact {
    owner := fun n e hneg => absurd (by rw [hfd]; decide) hneg
    files := fun n f hf =>
      .inl (cmds_node (q := fun v => ∀ f ∈ v.lstFds, f.fd ∈ S.user) hcmd hl.source.files
        (hfe.files n) f hf)
    errTransfers := herr ▸ hfe.errTransfers
    outTransfers := hout ▸ hfe.outTransfers
    outBuffers := fun hlt b hb d hd => ⟨⟨j, hlt, b, hb, hd⟩, hfe.buffers b (hout ▸ hb) d hd⟩
    manual := fun hpos => by
      rw [hin, if_neg (by omega), hfe.nodeIn hpos]
      exact ⟨rfl, rfl⟩
    ready := fun h => by rcases h with h | h <;> cases hst.symm.trans h
    piped := fun _ h => by rcases h with h | h <;> cases hst.symm.trans h
    stdin := fun _ h => nomatch hready.symm.trans h
    closed := fun _ h => nomatch hclosed.symm.trans h
    acked := fun _ h => nomatch hauto.symm.trans h
    source := fun h0 src hsrc => by
      rw [hin, if_pos h0] at hauto ⊢
      rw [Setup.source] at hsrc
      rcases hl.source.buffers with hb | ⟨henabled, src', hb⟩
      · rw [hb] at hsrc
        cases hsrc
      · rw [hb] at hsrc
        obtain rfl := Option.some.inj hsrc
        exact ⟨henabled, ⟨_, hb, rfl, rfl, by rw [hauto, hacc]; rfl⟩,
          fun h => nomatch hdone.symm.trans h⟩ }

theorem inv_start (hl : Container.Linked S.user S.size S.container) (h : Start S w) :
    Inv S k [] w := by
  obtain ⟨hcmds, hfds, hacc, hclosed, hread⟩ := h
  have hnew : ∀ j, j < S.count → (w.cmds j).mState = .stStart ∧ (w.cmds j).mDone = false := by
    intro j hj
    obtain ⟨fe₀, hfe, hcmd⟩ := linkedCmd_cmds hl hj
    rw [hcmds, hcmd]
    split <;> exact ⟨hfe.new.1, hfe.new.2.2⟩
  refine ⟨fun fd s hs => (nomatch (hfds fd).symm.trans hs), fun j hj => ?_, fun p hp => ?_⟩
  · rw [hcmds]
    exact own_start hl hj (hclosed j) (hacc 0)
  · refine ⟨fun hst => (nomatch (hnew p (by omega)).1.symm.trans hst),
      fun hd => (nomatch (hnew (p + 1) hp).2.symm.trans hd), ?_⟩
    rw [hacc, hread]
    split <;> rfl

end Chains

end FileExecuting

end ProcessingCommon

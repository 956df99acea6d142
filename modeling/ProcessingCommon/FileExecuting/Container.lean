import ProcessingCommon.FileExecuting.Frame

/-!
# Configuring a chain of commands

The container side of `FileExecuting.cpp`: sources and sinks are set and commands
added before the container is started, and `intCmdAdd` links a command to the one
before it. `Linked` is what every sequence of these calls leads to.
-/

namespace ProcessingCommon

open FileExecuting (Output)

structure Container where
  mNodeIn : FeNode := {}
  mLstExec : List FileExecuting := []

/-- The calls of the user before the start. A user's `Transfering` has a number; `fdSel`
selects the output of the last command. -/
inductive Config
  | sourceEnable
  | sourceSetBuffer (src : Bytes)
  | sourceSetFd (fd : Int) (autoClose : Bool)
  | sourceSetTransfer (id : Nat)
  | intCmdAdd (cmd : String)
  | sinkEnable (fdSel : Output)
  | sinkAddBuffer (pDest : Nat) (len : Nat) (fdSel : Output)
  | sinkAddString (str : Nat) (fdSel : Output)
  | sinkAddFd (fd : Int) (autoClose : Bool) (fdSel : Output)
  | sinkAddTransfer (id : Nat) (fdSel : Output)

namespace Container

def sourceEnable (c : Container) : Container :=
  { c with mNodeIn := { c.mNodeIn with manualEnabled := true } }

def sourceSetBuffer (c : Container) (src : Bytes) : Container :=
  { c with mNodeIn := { c.mNodeIn with
    lstBuffers := [{ pSrc := src, len := src.length }], autoEnabled := true } }

def sourceSetFd (c : Container) (fd : Int) (autoClose : Bool) : Container :=
  if fd < 0 then c
  else { c with mNodeIn := { c.mNodeIn with lstFds := [⟨fd, autoClose⟩], autoEnabled := true } }

def sourceSetTransfer (c : Container) (id : Nat) : Container :=
  { c with mNodeIn := { c.mNodeIn with lstTransfers := [.user id], autoEnabled := true } }

/-- The command before gets the new one as a sink of its output. -/
def link (idx : Nat) (pPrev : FileExecuting) : FileExecuting :=
  { pPrev with mNodeOut := { pPrev.mNodeOut with
    lstTransfers := pPrev.mNodeOut.lstTransfers ++ [.exec idx], autoEnabled := true } }

def intCmdAdd (c : Container) (cmd : String) : Container :=
  if cmd = "" then c
  else
    let numCmd := c.mLstExec.length + 1
    if numCmd < 2 then { c with mLstExec := c.mLstExec ++ [{}] }
    else { c with
      mLstExec := c.mLstExec.modify (numCmd - 2) (link (numCmd - 1)) ++
        [{ mNodeIn := { manualEnabled := true } }] }

/-- A change of an output of the last command. -/
def sinkChange (c : Container) (fdSel : Output) (f : FeNode → FeNode) : Container :=
  { c with mLstExec := c.mLstExec.modify (c.mLstExec.length - 1) fun pExec =>
    pExec.setNode fdSel.node (f (pExec.node fdSel.node)) }

def sinkEnable (c : Container) (fdSel : Output) : Container :=
  c.sinkChange fdSel fun node => { node with manualEnabled := true }

def sinkAddBuffer (c : Container) (pDest len : Nat) (fdSel : Output) : Container :=
  c.sinkChange fdSel fun node => { node with
    lstBuffers := node.lstBuffers ++ [{ pDest := some pDest, len := len }], autoEnabled := true }

def sinkAddString (c : Container) (str : Nat) (fdSel : Output) : Container :=
  c.sinkChange fdSel fun node => { node with
    lstStrings := node.lstStrings ++ [str], autoEnabled := true }

def sinkAddFd (c : Container) (fd : Int) (autoClose : Bool) (fdSel : Output) : Container :=
  if fd < 0 then c
  else c.sinkChange fdSel fun node => { node with
    lstFds := node.lstFds ++ [⟨fd, autoClose⟩], autoEnabled := true }

def sinkAddTransfer (c : Container) (id : Nat) (fdSel : Output) : Container :=
  c.sinkChange fdSel fun node => { node with
    lstTransfers := node.lstTransfers ++ [.user id], autoEnabled := true }

def apply (c : Container) : Config → Container
  | .sourceEnable => c.sourceEnable
  | .sourceSetBuffer src => c.sourceSetBuffer src
  | .sourceSetFd fd autoClose => c.sourceSetFd fd autoClose
  | .sourceSetTransfer id => c.sourceSetTransfer id
  | .intCmdAdd cmd => c.intCmdAdd cmd
  | .sinkEnable fdSel => c.sinkEnable fdSel
  | .sinkAddBuffer pDest len fdSel => c.sinkAddBuffer pDest len fdSel
  | .sinkAddString str fdSel => c.sinkAddString str fdSel
  | .sinkAddFd fd autoClose fdSel => c.sinkAddFd fd autoClose fdSel
  | .sinkAddTransfer id fdSel => c.sinkAddTransfer id fdSel

def configure (cs : List Config) : Container := cs.foldl apply {}

/-- The commands as `process()` of the container starts them: the first one gets the
container's source. -/
def start (c : Container) : List FileExecuting :=
  c.mLstExec.modify 0 fun pExec => { pExec with mNodeIn := c.mNodeIn }

/-! ## Links -/

/-- What the user promises: descriptors of the user's own, and the size of the memory a
buffer names. -/
def Allowed (user : List Int) (size : Nat → Nat) : Config → Prop
  | .sourceSetFd fd _ => 0 ≤ fd → fd ∈ user
  | .sinkAddFd fd _ _ => 0 ≤ fd → fd ∈ user
  | .sinkAddBuffer pDest len _ => len = size pDest
  | _ => True

/-- A command of `m` that has not been started, at place `j`. -/
structure LinkedCmd (user : List Int) (size : Nat → Nat) (m j : Nat) (fe : FileExecuting) :
    Prop where
  new : fe.mState = .stStart ∧ fe.mSendReady = false ∧ fe.mDone = false
  fds : ∀ n e, fe.fd n e = -1
  active : ∀ n, (fe.node n).autoDone = false
  files : ∀ n, ∀ f ∈ (fe.node n).lstFds, f.fd ∈ user
  buffers : ∀ b ∈ fe.mNodeOut.lstBuffers, ∀ d, b.pDest = some d → b.len = size d
  nodeIn : 1 ≤ j → fe.mNodeIn = { manualEnabled := true }
  /-- The next command is the last sink of the output. -/
  outTransfers : ∃ ids : List Nat, fe.mNodeOut.lstTransfers =
    ids.map .user ++ if j + 1 < m then [.exec (j + 1)] else []
  outAuto : j + 1 < m → fe.mNodeOut.autoEnabled = true
  errTransfers : ∃ ids : List Nat, fe.mNodeErr.lstTransfers = ids.map .user

/-- The source of the container. -/
structure LinkedSource (user : List Int) (node : FeNode) : Prop where
  pipe : node.pipe = {}
  active : node.autoDone = false
  files : ∀ f ∈ node.lstFds, f.fd ∈ user
  buffers : node.lstBuffers = [] ∨ node.autoEnabled = true ∧
    ∃ src, node.lstBuffers = [{ pSrc := src, len := src.length }]

structure Linked (user : List Int) (size : Nat → Nat) (c : Container) : Prop where
  cmds : ∀ j fe, c.mLstExec[j]? = some fe → LinkedCmd user size c.mLstExec.length j fe
  source : LinkedSource user c.mNodeIn

variable {user : List Int} {size : Nat → Nat} {c : Container} {m j : Nat} {fe : FileExecuting}

/-- What a new sink may add to an output. -/
structure SinkAdded (user : List Int) (size : Nat → Nat) (v v' : FeNode) : Prop where
  pipe : v'.pipe = v.pipe
  active : v'.autoDone = v.autoDone
  files : ∀ f ∈ v'.lstFds, f ∈ v.lstFds ∨ f.fd ∈ user
  buffers : ∀ b ∈ v'.lstBuffers, b ∈ v.lstBuffers ∨ ∀ d, b.pDest = some d → b.len = size d
  transfers : v'.lstTransfers = v.lstTransfers ∨
    ∃ id, v'.lstTransfers = v.lstTransfers ++ [.user id]

theorem SinkAdded.users {v v' : FeNode} (h : SinkAdded user size v v')
    (hv : ∃ ids : List Nat, v.lstTransfers = ids.map .user) :
    ∃ ids : List Nat, v'.lstTransfers = ids.map .user := by
  obtain ⟨ids, hids⟩ := hv
  rcases h.transfers with ht | ⟨id, ht⟩
  · exact ⟨ids, ht.trans hids⟩
  · exact ⟨ids ++ [id], by rw [ht, hids, List.map_append]; rfl⟩

theorem LinkedCmd.sinkAdded (h : LinkedCmd user size m j fe) (hj : ¬j + 1 < m) {fdSel : Output}
    {v : FeNode} (hv : SinkAdded user size (fe.node fdSel.node) v) :
    LinkedCmd user size m j (fe.setNode fdSel.node v) := by
  have houters : ∃ ids : List Nat, fe.mNodeOut.lstTransfers = ids.map .user := by
    obtain ⟨ids, hids⟩ := h.outTransfers
    rw [if_neg hj, List.append_nil] at hids
    exact ⟨ids, hids⟩
  have hout : ∀ {fe' : FileExecuting}, (∃ ids : List Nat, fe'.mNodeOut.lstTransfers = ids.map .user) →
      ∃ ids : List Nat, fe'.mNodeOut.lstTransfers =
        ids.map .user ++ if j + 1 < m then [.exec (j + 1)] else [] := by
    rintro fe' ⟨ids, hids⟩
    exact ⟨ids, by rw [hids, if_neg hj, List.append_nil]⟩
  refine { new := ?_, fds := fun n e => ?_, active := fun n => ?_, files := fun n => ?_
           buffers := ?_, nodeIn := ?_, outTransfers := ?_, outAuto := fun hlt => absurd hlt hj
           errTransfers := ?_ }
  · cases fdSel <;> exact h.new
  · rw [FileExecuting.fd_setNode _ _ _ _ _ hv.pipe]
    exact h.fds n e
  · rw [FileExecuting.node_setNode]
    split
    · next hn => exact hv.active.trans (h.active _)
    · exact h.active n
  · rw [FileExecuting.node_setNode]
    split
    · exact fun f hf => (hv.files f hf).elim (h.files _ f) id
    · exact h.files n
  · cases fdSel
    · exact fun b hb => (hv.buffers b hb).elim (h.buffers b) id
    · exact h.buffers
  · cases fdSel <;> exact h.nodeIn
  · cases fdSel
    · exact hout (hv.users houters)
    · exact h.outTransfers
  · cases fdSel
    · exact h.errTransfers
    · exact hv.users h.errTransfers

/-- A new sink at the last command. -/
theorem Linked.sinkChange (h : Linked user size c) {fdSel : Output} {f : FeNode → FeNode}
    (hf : ∀ v, SinkAdded user size v (f v)) : Linked user size (c.sinkChange fdSel f) := by
  refine ⟨fun j fe hj => ?_, h.source⟩
  simp only [Container.sinkChange, List.getElem?_modify, List.length_modify] at hj ⊢
  obtain ⟨fe₀, h₀, rfl⟩ := Option.map_eq_some_iff.mp hj
  have hlt := (List.getElem?_eq_some_iff.mp h₀).1
  split
  · next heq => exact (h.cmds j fe₀ h₀).sinkAdded (by omega) (hf _)
  · exact h.cmds j fe₀ h₀

/-- The last command gets a successor. -/
theorem LinkedCmd.link (h : LinkedCmd user size m j fe) (hj : j + 1 = m) :
    LinkedCmd user size (m + 1) j (link m fe) where
  new := h.new
  fds n e := by
    have := h.fds n e
    cases n <;> exact this
  active n := by
    have := h.active n
    cases n <;> exact this
  files n := by
    have := h.files n
    cases n <;> exact this
  buffers := h.buffers
  nodeIn := h.nodeIn
  outTransfers := by
    obtain ⟨ids, hids⟩ := h.outTransfers
    rw [if_neg (by omega), List.append_nil] at hids
    refine ⟨ids, ?_⟩
    rw [if_pos (by omega), ← hids, hj]
    rfl
  outAuto _ := rfl
  errTransfers := h.errTransfers

/-- A command that has a successor keeps it. -/
theorem LinkedCmd.grow (h : LinkedCmd user size m j fe) (hj : j + 1 < m) :
    LinkedCmd user size (m + 1) j fe :=
  { h with
    outTransfers := by
      rw [if_pos (by omega)]
      rw [← if_pos (c := j + 1 < m) (t := [Transfering.exec (j + 1)]) (e := []) hj]
      exact h.outTransfers
    outAuto := fun _ => h.outAuto hj }

theorem linkedCmd_new (hj : j + 1 = m) {node : FeNode}
    (hn : node = { manualEnabled := true } ∨ j = 0 ∧ node = {}) :
    LinkedCmd user size m j { mNodeIn := node } where
  new := ⟨rfl, rfl, rfl⟩
  fds n e := by rcases hn with rfl | ⟨-, rfl⟩ <;> cases n <;> cases e <;> rfl
  active n := by rcases hn with rfl | ⟨-, rfl⟩ <;> cases n <;> rfl
  files n f hf := by rcases hn with rfl | ⟨-, rfl⟩ <;> cases n <;> cases hf
  buffers b hb := nomatch hb
  nodeIn hpos := hn.resolve_right fun h => absurd h.1 (by omega)
  outTransfers := ⟨[], by rw [if_neg (by omega)]; rfl⟩
  outAuto hlt := absurd hlt (by omega)
  errTransfers := ⟨[], rfl⟩

theorem Linked.intCmdAdd (h : Linked user size c) (cmd : String) :
    Linked user size (c.intCmdAdd cmd) := by
  rw [Container.intCmdAdd]
  split
  · exact h
  dsimp only
  split
  · next hlt =>
    have hnil : c.mLstExec = [] := List.length_eq_zero_iff.mp (by omega)
    refine ⟨fun j fe hj => ?_, h.source⟩
    rw [hnil] at hj ⊢
    cases j with
    | zero =>
      cases hj
      exact linkedCmd_new rfl (.inr ⟨rfl, rfl⟩)
    | succ j => simp at hj
  next hge =>
  refine ⟨fun j fe hj => ?_, h.source⟩
  simp only [List.length_append, List.length_modify, List.length_singleton] at hj ⊢
  rw [List.getElem?_append] at hj
  split at hj
  · next hlt =>
    rw [List.getElem?_modify] at hj
    obtain ⟨fe₀, h₀, rfl⟩ := Option.map_eq_some_iff.mp hj
    have hcmd := h.cmds j fe₀ h₀
    rw [List.length_modify] at hlt
    split
    · next heq => exact hcmd.link (by omega)
    · next hne => exact hcmd.grow (by omega)
  · next hlt =>
    rw [List.length_modify] at hj hlt
    obtain ⟨hidx, hnew⟩ := List.getElem?_eq_some_iff.mp hj
    have hj' : j = c.mLstExec.length := by
      rw [List.length_singleton] at hidx
      omega
    rw [← hnew, List.getElem_singleton]
    exact linkedCmd_new (by omega) (.inl rfl)

theorem Linked.apply (h : Linked user size c) {i : Config} (hi : Allowed user size i) :
    Linked user size (c.apply i) := by
  have hsame : ∀ {v v' : FeNode}, v'.pipe = v.pipe → v'.autoDone = v.autoDone →
      v'.lstFds = v.lstFds → v'.lstBuffers = v.lstBuffers → v'.lstTransfers = v.lstTransfers →
      SinkAdded user size v v' := fun hp ha hf hb ht =>
    ⟨hp, ha, fun _ h => .inl (hf ▸ h), fun _ h => .inl (hb ▸ h), .inl ht⟩
  cases i with
  | sourceEnable => exact { h with source := { h.source with } }
  | sourceSetBuffer src =>
    exact { h with source := { h.source with buffers := .inr ⟨rfl, src, rfl⟩ } }
  | sourceSetFd fd autoClose =>
    simp only [Container.apply, Container.sourceSetFd]
    split
    · exact h
    · next hfd =>
      refine { h with source := { h.source with files := fun f hf => ?_, buffers := ?_ } }
      · rw [List.mem_singleton.mp hf]
        exact hi (by omega)
      · exact h.source.buffers.imp_right fun hb => ⟨rfl, hb.2⟩
  | sourceSetTransfer id =>
    exact { h with source := { h.source with
      buffers := h.source.buffers.imp_right fun hb => ⟨rfl, hb.2⟩ } }
  | intCmdAdd cmd => exact h.intCmdAdd cmd
  | sinkEnable fdSel =>
    simp only [Container.apply, Container.sinkEnable]
    exact h.sinkChange fun v => hsame rfl rfl rfl rfl rfl
  | sinkAddBuffer pDest len fdSel =>
    simp only [Container.apply, Container.sinkAddBuffer]
    refine h.sinkChange fun v => ⟨rfl, rfl, fun _ hf => .inl hf, fun b hb => ?_, .inl rfl⟩
    rcases List.mem_append.mp hb with hb | hb
    · exact .inl hb
    · rw [List.mem_singleton.mp hb]
      exact .inr fun d hd => Option.some.inj hd ▸ hi
  | sinkAddString str fdSel =>
    simp only [Container.apply, Container.sinkAddString]
    exact h.sinkChange fun v => hsame rfl rfl rfl rfl rfl
  | sinkAddFd fd autoClose fdSel =>
    simp only [Container.apply, Container.sinkAddFd]
    split
    · exact h
    · next hfd =>
      refine h.sinkChange fun v => ⟨rfl, rfl, fun f hf => ?_, fun _ hb => .inl hb, .inl rfl⟩
      rcases List.mem_append.mp hf with hf | hf
      · exact .inl hf
      · rw [List.mem_singleton.mp hf]
        exact .inr (hi (by omega))
  | sinkAddTransfer id fdSel =>
    simp only [Container.apply, Container.sinkAddTransfer]
    exact h.sinkChange fun v =>
      ⟨rfl, rfl, fun _ hf => .inl hf, fun _ hb => .inl hb, .inr ⟨id, rfl⟩⟩

theorem linked_configure {cs : List Config} (hcs : ∀ i ∈ cs, Allowed user size i) :
    Linked user size (configure cs) := by
  have hmain : ∀ (cs : List Config) (c : Container), (∀ i ∈ cs, Allowed user size i) →
      Linked user size c → Linked user size (cs.foldl Container.apply c) := by
    intro cs
    induction cs with
    | nil => exact fun _ _ h => h
    | cons i cs ih =>
      exact fun c hcs h => ih _ (fun j hj => hcs j (List.mem_cons_of_mem _ hj))
        (h.apply (hcs i List.mem_cons_self))
  refine hmain cs {} hcs ⟨fun j fe hj => ?_, rfl, rfl, by simp, .inl rfl⟩
  rw [List.getElem?_nil] at hj
  cases hj

end Container

end ProcessingCommon

import ProcessingCommon.FileExecuting.ChainInvariant

/-!
# A tick keeps the invariant of the chain

The rules of the members of a command, while there is room in the pipes and the buffers of
a feeding output are filled (`Fits`): a chunk that has been read goes to the next command as a whole,
before the tick reads the next one.
-/

namespace ProcessingCommon

namespace FileExecuting

namespace Chains

open Program (wp each wp_mono wp_seq)

variable {S : Setup} {k j p : Nat} {hand : Bytes} {fe : FileExecuting} {w w' : Chain} {o o' : Os}

/-! ## Sending -/

theorem Drained.sent (h : Drained o o') (j : Nat) : Sent j [] o o' := by
  obtain ⟨u, rfl, -⟩ := h
  exact ⟨rfl, rfl, rfl, (List.append_nil _).symm, fun _ _ => rfl⟩

theorem sent_accept (o : Os) (j : Nat) (d : Bytes) : Sent j d o (o.accept j d) :=
  ⟨rfl, rfl, rfl, Function.update_self .., fun _ hj => Function.update_of_ne hj ..⟩

theorem sys_write {fd : Int} (hs : o.fds fd = some ⟨j, .nodeIn, .fdWrite⟩) {d : Bytes}
    {r : WriteResult} (h : sys S k o (.write fd d) r o') : ∃ d', Sent j d' o o' := by
  simp only [sys, hs, writePipe] at h
  split_ifs at h
  · exact ⟨[], h.2 ▸ Sent.nil j o⟩
  · obtain ⟨m, -, -, -, -, rfl⟩ := h
    exact ⟨_, sent_accept ..⟩
  · exact ⟨[], h.2 ▸ Sent.nil j o⟩

/-- With room in the pipe a `write()` is accepted in part. -/
theorem write_sent (hc : S.Claimed j) {fd : Int} (hs : o.fds fd = some ⟨j, .nodeIn, .fdWrite⟩)
    {data : Bytes} (hd : data ≠ []) {r : WriteResult}
    (he : osCall S (Fits S) k o (.write fd data) r o') :
    ∃ m, r = .done m ∧ 0 < m ∧ m ≤ data.length ∧ Sent j (data.take m) o o' := by
  obtain ⟨o₁, hdrain, hok, hsys⟩ := he
  have h₁ := hdrain.sent j
  rw [← h₁.fds] at hs
  have hroom := hok j hc hs
  simp only [sys, hs, writePipe, if_neg hd, if_pos hroom] at hsys
  obtain ⟨m, rfl, hpos, hle, -, rfl⟩ := hsys
  exact ⟨m, rfl, hpos, hle, h₁.trans (sent_accept o₁ j (data.take m))⟩

/-- What is sent to a claimed stdin is accepted as a whole. -/
theorem intSend_sent {ω : Type} {env : ω → (c : Call) → Answer c → ω → Prop} {f : Os → ω}
    (henv : ∀ o fd d r w', env (f o) (.write fd d) r w' →
      ∃ o', osCall S (Fits S) k o (.write fd d) r o' ∧ w' = f o')
    (hc : S.Claimed j) (hready : fe.mSendReady = true) (hfd : ¬fe.fd .nodeIn .fdWrite < 0)
    (hs : o.fds (fe.fd .nodeIn .fdWrite) = some ⟨j, .nodeIn, .fdWrite⟩) {data : Bytes}
    (hd : data ≠ []) :
    wp env (intSend data) (fun r fe' w' => r = data.length ∧ fe' = fe ∧
      ∃ o', w' = f o' ∧ Sent j data o o') fe (f o) := by
  simp only [intSend, Program.wp_ite, Program.wp_bind, Program.wp_get, Program.wp_pure]
  rw [if_neg hd, if_neg (by rw [hready]; decide), if_neg (show ¬fe.mNodeIn.pipe.fdWrite < 0 from hfd)]
  -- what has been sent and what is left are the data
  refine Program.wp_rounds (fun n left fe' w' => fe' = fe ∧ left.1.length ≤ n ∧
    ∃ sent o', data = sent ++ left.1 ∧ left.2 = sent.length ∧ w' = f o' ∧ Sent j sent o o')
    ?_ ?_ ⟨rfl, Nat.le_refl _, [], o, rfl, rfl, rfl, Sent.nil j o⟩
  case refine_2 =>
    rintro ⟨left, n⟩ fe' w' ⟨rfl, hle, sent, o', hdata, rfl, rfl, hsent⟩
    obtain rfl := List.length_eq_zero_iff.mp (Nat.le_zero.mp hle)
    rw [List.append_nil] at hdata
    subst hdata
    exact ⟨rfl, rfl, o', rfl, hsent⟩
  rintro n ⟨left, m⟩ fe' w' ⟨rfl, hle, sent, o', hdata, rfl, rfl, hsent⟩
  simp only [intSendRound, Program.wp_ite, Program.wp_bind, Program.wp_get, Program.wp_pure,
    Program.wp_perform]
  split
  · next hnil =>
    obtain rfl : left = [] := hnil
    rw [List.append_nil] at hdata
    subst hdata
    exact ⟨rfl, trivial, o', rfl, hsent⟩
  next hnil =>
  intro r w'' he
  obtain ⟨o'', hos, rfl⟩ := henv _ _ _ _ _ he
  have hs' : o'.fds (fe'.fd .nodeIn .fdWrite) = _ := (congrFun hsent.fds _).trans hs
  obtain ⟨m, rfl, hpos, hlen, hsent'⟩ := write_sent hc hs' hnil hos
  cases m with
  | zero => exact absurd hpos (Nat.lt_irrefl 0)
  | succ m =>
    refine ⟨rfl, ?_, sent ++ left.take (m + 1), o'', ?_, ?_, rfl, hsent.trans hsent'⟩
    · change left.length ≤ n + 1 at hle
      rw [List.length_drop]
      omega
    · rw [List.append_assoc, List.take_append_drop, hdata]
    · rw [List.length_append, List.length_take, Nat.min_eq_left hlen]

/-- `send` of the command before. -/
theorem send_sent (h : Own S j fe o) (hj : 1 ≤ j) (hready : fe.mSendReady = true)
    (hdone : fe.mNodeIn.autoDone = false) {data : Bytes} (hd : data ≠ []) :
    wp (osCall S (Fits S) j) (send data) (fun _ fe' o' => fe' = fe ∧ Sent j data o o') fe o := by
  obtain ⟨hmanual, hauto⟩ := h.manual hj
  simp only [send, Program.wp_ite, Program.wp_bind, Program.wp_get, Program.wp_pure]
  rw [if_neg (by rw [hauto]; decide), if_neg (by rw [hmanual]; decide)]
  have hfd := h.stdin (.inl hj) hready hdone
  refine wp_mono (intSend_sent (f := id) (fun _ _ _ _ _ he => ⟨_, he, rfl⟩) (.inl hj) hready hfd
    (h.owner _ _ hfd) hd) ?_
  rintro r fe' _ ⟨-, rfl, o', rfl, hsent⟩
  exact ⟨rfl, hsent⟩

/-! ## The source -/

/-- A supervised command. -/
def Supervised (S : Setup) (k : Nat) (hand : Bytes) (fe : FileExecuting) (w : Chain) : Prop :=
  Tick S k hand fe w ∧ fe.mState = .stChildSupervise

theorem Supervised.autoSourceDone (h : Supervised S k hand fe w) (hmore : 1 ≤ k → fe.mDone = true)
    (hsrc : k = 0 → ∀ src, S.source = some src → fe.mNodeIn.autoDone = false →
      w.os.accepted 0 = src) :
    wp (env S (Fits S) k) autoSourceDone (fun _ => Supervised S k hand) fe w := by
  simp only [FileExecuting.autoSourceDone, Program.wp_ite, Program.wp_bind, Program.wp_get,
    Program.wp_pure]
  split
  · exact h
  next hdone =>
  rw [Bool.not_eq_true] at hdone
  refine wp_fdCloseAt (fun _ => ?_) fun hfd r w' he => ?_
  · exact ⟨h.1.finish h.2 hmore (fun h0 src hs => hsrc h0 src hs hdone) (.inl ⟨rfl, rfl⟩), h.2⟩
  · obtain ⟨o₁, h₁, hdrain, -, o, rfl, rfl⟩ := h.1.call he
    refine ⟨h₁.finish h.2 hmore (fun h0 src hs => ?_) (.inr ⟨hfd, rfl, rfl⟩), h.2⟩
    obtain ⟨u, rfl, -⟩ := hdrain
    exact hsrc h0 src hs hdone

theorem Supervised.doneCheck (h : Supervised S k hand fe w) :
    wp (env S (Fits S) k) doneCheck (fun _ => Supervised S k hand) fe w := by
  simp only [FileExecuting.doneCheck, Program.wp_ite, Program.wp_bind, Program.wp_get,
    Program.wp_pure]
  split
  · next hcond =>
    have hd := (Bool.and_eq_true _ _ ▸ hcond).1
    refine wp_mono (h.autoSourceDone (fun _ => hd) fun h0 src hs hdone => ?_)
      fun _ _ _ h => ⟨h.1.congr rfl rfl rfl fun n => by cases n <;> rfl, h.2⟩
    cases hdone.symm.trans ((h.1.own.source h0 src hs).done hd)
  · exact h

/-- A buffer or string of the user. -/
theorem Supervised.autoSourceBuffer (h : Supervised S 0 hand fe w) {src : Bytes}
    (hs : S.source = some src) (hdone : fe.mNodeIn.autoDone = false) {buff : FeNodeBuffer}
    (hb : fe.mNodeIn.lstBuffers = [buff]) :
    wp (env S (Fits S) 0) (autoSourceBuffer buff) (fun _ => Supervised S 0 hand) fe w := by
  have hok := h.1.own.source rfl src hs
  have hc : S.Claimed 0 := .inr fun hnone => nomatch hnone.symm.trans hs
  have hready := h.1.own.ready (.inr h.2)
  have hfd := h.1.own.stdin hc hready hdone
  obtain ⟨hp, hl⟩ : buff.pSrc = src ∧ buff.len = src.length := by
    obtain ⟨-, ⟨b', hb', hp, hl, -⟩, -⟩ := hok
    obtain rfl : buff = b' := List.head_eq_of_cons_eq (hb.symm.trans hb')
    exact ⟨hp, hl⟩
  have hlen : ((buff.pSrc.drop buff.processed).take (min 512 (buff.len - buff.processed))).length =
      min 512 (buff.len - buff.processed) := by
    rw [List.length_take, List.length_drop, hp, hl]
    omega
  rw [FileExecuting.autoSourceBuffer]
  by_cases hnil : (buff.pSrc.drop buff.processed).take (min 512 (buff.len - buff.processed)) = []
  · -- nothing is left: `intSend` refuses it, and the source is done
    rw [hnil] at hlen ⊢
    have hle : buff.len ≤ buff.processed := by
      rw [List.length_nil] at hlen
      omega
    simp only [intSend, if_pos, Program.wp_bind, Program.wp_pure, Program.wp_ite]
    rw [if_pos (by decide)]
    refine h.autoSourceDone (fun h => absurd h (by decide)) fun _ src' hs' _ => ?_
    exact (h.1.own.source rfl src' hs').complete hdone hb hle
  · refine wp_seq (intSend_sent (f := fun o => { w with os := o })
      (fun _ _ _ _ _ he => he) hc hready hfd (h.1.own.owner _ _ hfd) hnil) ?_
    rintro _ _ _ ⟨rfl, rfl, o', rfl, hsent⟩
    rw [Program.wp_ite, if_neg (Int.not_lt.mpr (Int.natCast_nonneg _)), Program.wp_bind,
      Program.wp_modify, Program.wp_ite, Int.toNat_natCast, hlen, hb]
    have h' : Supervised S 0 hand _ _ := ⟨h.1.accepted hsent fun _ _ hok => hok.progress hdone hb
      (min 512 (buff.len - buff.processed)), h.2⟩
    split
    · exact h'
    · next hlt =>
      refine h'.autoSourceDone (fun h => absurd h (by decide)) fun _ src' hs' _ => ?_
      exact (h'.1.own.source rfl src' hs').complete hdone rfl (Nat.not_lt.mp hlt)

theorem Tick.fdClose_user (h : Tick S k hand fe w) {fd : Int} (hfd : fd ∈ S.user ∨ fd < 0) :
    wp (env S (Fits S) k) (fdClose fd) (fun r fe' w' =>
      fe' = fe ∧ Tick S k hand fe w' ∧ (r ∈ S.user ∨ r < 0)) fe w := by
  simp only [fdClose, Program.wp_ite, Program.wp_bind, Program.wp_pure, Program.wp_perform]
  split
  · exact ⟨trivial, h, hfd⟩
  intro r w' he
  obtain ⟨o₁, h₁, -, -, o, rfl, rfl⟩ := h.call he
  rw [closeFd_notOpen (h₁.notOpen hfd)]
  exact ⟨trivial, h₁, .inr (by decide)⟩

/-- The other sources of the user. -/
theorem sourceKept_free (hs : S.source = none) :
    SourceKept (env S (Fits S) 0) (Supervised S 0 hand) fun fd => fd ∈ S.user ∨ fd < 0 := by
  have hfree : ¬S.Claimed 0 := fun h => h.elim (by decide) fun h => h hs
  have hdone : ∀ {fe w}, Supervised S 0 hand fe w →
      wp (env S (Fits S) 0) autoSourceDone (fun _ => Supervised S 0 hand) fe w := fun h =>
    h.autoSourceDone (fun h => absurd h (by decide)) fun _ _ h => nomatch hs.symm.trans h
  have hfree' : ∀ {fe : FileExecuting} {l : List FeNodeBuffer} {a b : Bytes} (src : Bytes),
      S.source = some src → SourceOk src fe.mNodeIn fe.mDone a →
        SourceOk src { fe.mNodeIn with lstBuffers := l } fe.mDone b := fun src h =>
    nomatch hs.symm.trans h
  refine { write := fun h hfd he => ?_, close := fun h hfd he => ?_, done := fun h => ?_
           progress := fun l h => ?_, files := fun h _ => h.1.own.files .nodeIn
           read := fun h hf he => ?_, fdDone := fun h hf => ?_, transRead := fun h he => ?_ }
  · obtain ⟨o₁, h₁, -, -, o, hsys, rfl⟩ := h.1.call he
    obtain ⟨d, hsent⟩ := sys_write (h₁.own.owner _ _ hfd) hsys
    exact ⟨h₁.accepted hsent hfree', h.2⟩
  · obtain ⟨o₁, h₁, -, -, o, rfl, rfl⟩ := h.1.call he
    exact ⟨h₁.closeOther hfd fun hc => absurd hc hfree, h.2⟩
  · refine ⟨h.1.finish h.2 (fun h => absurd h (by decide)) (fun _ src hsrc => ?_) (.inl ⟨rfl, rfl⟩),
      h.2⟩
    exact nomatch hs.symm.trans hsrc
  · exact ⟨h.1.accepted (Sent.nil 0 _) hfree', h.2⟩
  · obtain ⟨o₁, h₁, -, -, o, hsys, rfl⟩ := h.1.call he
    have hslot : o₁.fds _ = none := h₁.notOpen hf
    simp only [sys, hslot] at hsys
    subst hsys
    exact ⟨h₁, h.2⟩
  · rw [autoSourceFdDone, Program.wp_ite]
    split
    · refine wp_seq (h.1.fdClose_user hf) ?_
      rintro fd fe' w' ⟨rfl, h', hf'⟩
      rw [Program.wp_bind, Program.wp_modify]
      refine hdone ⟨h'.setFiles ?_, h.2⟩
      have hfiles := h'.own.files .nodeIn
      change ∀ f ∈ fe'.mNodeIn.lstFds, _ at hfiles
      intro f hmem
      cases hl : fe'.mNodeIn.lstFds with
      | nil =>
        rw [hl] at hmem
        cases hmem
      | cons f' fs =>
        rw [hl] at hmem hfiles
        rcases List.mem_cons.mp hmem with rfl | hmem
        · exact hf'
        · exact hfiles f (List.mem_cons_of_mem _ hmem)
    · exact hdone h
  · exact ⟨(h.1.quiet he fun _ _ h => h).1, h.2⟩

theorem Supervised.autoSource (h : Supervised S k hand fe w) :
    wp (env S (Fits S) k) autoSource (fun _ => Supervised S k hand) fe w := by
  rcases Nat.eq_zero_or_pos k with rfl | hpos
  · cases hs : S.source with
    | none => exact (sourceKept_free hs).autoSource h
    | some src =>
      have hok := h.1.own.source rfl src hs
      obtain ⟨buff, hb, -⟩ := hok.buffer
      simp only [FileExecuting.autoSource, Program.wp_ite, Program.wp_bind, Program.wp_get,
        Program.wp_pure]
      split
      · exact h
      split
      · exact h
      next hdone =>
      rw [hb]
      exact h.autoSourceBuffer hs (Bool.eq_false_iff.mpr hdone) hb
  · simp only [FileExecuting.autoSource, Program.wp_ite, Program.wp_bind, Program.wp_get,
      Program.wp_pure]
    rw [if_pos (by rw [(h.1.own.manual hpos).2]; rfl)]
    exact h

/-! ## The sinks -/

/-- The chunk in hand after a read, for the next command if it comes from the stdout. -/
def chunk (n : NodeSel) (buf : Bytes) : Bytes :=
  if n = .nodeOut then buf else []

theorem chunk_nil (n : NodeSel) : chunk n [] = [] := by
  rw [chunk]
  split <;> rfl

theorem sys_read {sel : Output} {fd : Int} (hs : o.fds fd = some ⟨k, sel.node, .fdRead⟩) {len : Nat}
    {r : ReadResult} (h : sys S k o (.read fd len) r o') :
    match r with
    | .data d => Received k (chunk sel.node d) o o'
    | _ => o' = o := by
  have hnil : Received k [] o o := ⟨rfl, rfl, rfl, (List.append_nil _).symm, fun _ _ => rfl⟩
  cases sel <;> cases r <;> simp only [sys, hs, Output.node] at h
  · obtain ⟨-, rfl⟩ := h
    exact ⟨rfl, rfl, rfl, Function.update_self .., fun _ hj => Function.update_of_ne hj ..⟩
  · exact h
  · exact h
  · subst h
    exact hnil
  · exact h
  · exact h

theorem Supervised.closeOutput (h : Supervised S k hand fe w) {sel : Output} :
    wp (env S (Fits S) k) (fdCloseAt sel.node .fdRead) (fun _ fe' w' =>
      Supervised S k hand fe' w' ∧ fe'.fd sel.node .fdRead < 0) fe w := by
  refine wp_fdCloseAt (fun hneg => ⟨h, hneg⟩) fun hfd r w' he => ?_
  obtain ⟨o₁, h₁, -, -, o, rfl, rfl⟩ := h.1.call he
  have hne : sel.node ≠ .nodeIn := by cases sel <;> decide
  refine ⟨⟨h₁.closeOther hfd fun _ heq => hne heq.1, ?_⟩, ?_⟩
  · exact (setNode_mState ..).trans h.2
  · rw [fd_setFd, if_pos ⟨rfl, rfl⟩]
    decide

/-- What a read leaves: the data are in hand, and at their end the pipe is closed. -/
structure Read (S : Setup) (k : Nat) (sel : Output) (r : Int × Bytes) (fe : FileExecuting)
    (w : Chain) : Prop where
  inHand : Supervised S k (chunk sel.node r.2) fe w
  none : r.1 ≤ 0 → r.2 = []
  ended : r.1 < 0 → fe.fd sel.node .fdRead < 0
  more : 0 < r.1 → r.2 ≠ [] ∧ ¬fe.fd sel.node .fdRead < 0

theorem Supervised.read_nothing (h : Supervised S k [] fe w) {sel : Output} {code : Int}
    (hcode : code ≤ 0) (hend : code < 0 → fe.fd sel.node .fdRead < 0) :
    Read S k sel (code, []) fe w :=
  ⟨(chunk_nil _).symm ▸ h, fun _ => rfl, hend, fun hpos => absurd hpos (Int.not_lt.mpr hcode)⟩

theorem Supervised.intSinkRead (h : Supervised S k [] fe w) (sel : Output) :
    wp (env S (Fits S) k) (intSinkRead sel.node 22) (Read S k sel) fe w := by
  have hend : ∀ {fe w} (code : Int), code < 0 → Supervised S k [] fe w →
      wp (env S (Fits S) k) (fdCloseAt sel.node .fdRead) (fun _ => Read S k sel (code, [])) fe w :=
    fun code hcode h => wp_mono h.closeOutput fun _ _ _ ⟨h', hneg⟩ =>
      h'.read_nothing (Int.le_of_lt hcode) fun _ => hneg
  simp only [FileExecuting.intSinkRead, Program.wp_ite, Program.wp_bind, Program.wp_get,
    Program.wp_pure, Program.wp_perform]
  rw [if_neg (by decide)]
  split
  · exact h.read_nothing (Int.le_refl 0) fun h => absurd h (by decide)
  split
  · next hneg => exact h.read_nothing (by decide) fun _ => hneg
  next hfd =>
  intro r w' he
  obtain ⟨o₁, h₁, -, -, o, hsys, rfl⟩ := h.1.call he
  have hread := sys_read (h₁.own.owner _ _ hfd) hsys
  cases r with
  | data d =>
    cases d with
    | nil =>
      have h' := h₁.received hread
      rw [chunk_nil] at h'
      exact wp_seq (hend (-4) (by decide) ⟨h', h.2⟩) fun _ _ _ h => h
    | cons b d =>
      have hpos : 0 < ((b :: d).length : Int) := Int.natCast_pos.mpr (Nat.succ_pos _)
      exact ⟨⟨h₁.received hread, h.2⟩, fun hle => absurd hpos (Int.not_lt.mpr hle),
        fun hlt => absurd hpos (Int.not_lt.mpr (Int.le_of_lt hlt)),
        fun _ => ⟨List.cons_ne_nil b d, hfd⟩⟩
  | error =>
    obtain rfl := hread
    exact wp_seq (hend (-3) (by decide) ⟨h₁, h.2⟩) fun _ _ _ h => h
  | eagain =>
    obtain rfl := hread
    have h' : Supervised S k [] fe { w with os := o } := ⟨h₁, h.2⟩
    simp only [Program.wp_ite, Program.wp_bind, Program.wp_get, Program.wp_pure]
    split
    · exact h'.read_nothing (Int.le_refl 0) fun h => absurd h (by decide)
    · exact hend (-4) (by decide) h'

/-- The copies into the buffers. On an output that feeds a command they come to the end. -/
theorem Supervised.autoSinkBuffers (h : Supervised S k hand fe w) (buf : Bytes)
    (l : List FeNodeBuffer) :
    wp (env S (Fits S) k) (autoSinkBuffers buf l) (fun r fe' w' => fe' = fe ∧
      Supervised S k hand fe w' ∧
      (∀ b ∈ r.1, ∃ b' ∈ l, b.pDest = b'.pDest ∧ b.len = b'.len) ∧
      ((∀ b ∈ l, ∀ d, b.pDest = some d → S.Feeds d ∧ b.len = S.size d) → r.2 = true)) fe w := by
  induction l generalizing w with
  | nil => exact ⟨rfl, h, fun b hb => absurd hb List.not_mem_nil, fun _ => rfl⟩
  | cons b bs ih =>
    have hcons : ∀ {b' : FeNodeBuffer} {r : List FeNodeBuffer},
        b'.pDest = b.pDest ∧ b'.len = b.len →
        (∀ b ∈ r, ∃ b' ∈ bs, b.pDest = b'.pDest ∧ b.len = b'.len) →
        ∀ b'' ∈ b' :: r, ∃ b' ∈ b :: bs, b''.pDest = b'.pDest ∧ b''.len = b'.len := by
      intro b' r hb' hr b'' hm
      rcases List.mem_cons.mp hm with rfl | hm
      · exact ⟨b, List.mem_cons_self, hb'⟩
      · obtain ⟨b₀, hm₀, heq⟩ := hr b'' hm
        exact ⟨b₀, List.mem_cons_of_mem _ hm₀, heq⟩
    rw [FileExecuting.autoSinkBuffers]
    -- a buffer that is kept
    have hkeep : ∀ {w}, Supervised S k hand fe w → ∀ {b' : FeNodeBuffer},
        b'.pDest = b.pDest ∧ b'.len = b.len →
        wp (env S (Fits S) k) (do
          let r ← FileExecuting.autoSinkBuffers buf bs
          pure (b' :: r.1, r.2)) (fun r fe' w' => fe' = fe ∧ Supervised S k hand fe w' ∧
            (∀ b' ∈ r.1, ∃ b₀ ∈ b :: bs, b'.pDest = b₀.pDest ∧ b'.len = b₀.len) ∧
            ((∀ b' ∈ b :: bs, ∀ d, b'.pDest = some d → S.Feeds d ∧ b'.len = S.size d) →
              r.2 = true)) fe w := by
      intro w h b' hb'
      refine wp_seq (ih h) ?_
      rintro r fe' w' ⟨hfe, h', hr, hok⟩
      exact ⟨hfe, h', hcons hb' hr,
        fun hl => hok fun b hb => hl b (List.mem_cons_of_mem _ hb)⟩
    split
    · exact hkeep h ⟨rfl, rfl⟩
    next pDest hdest =>
    rw [Program.wp_ite]
    split
    · exact hkeep h ⟨rfl, rfl⟩
    rw [Program.wp_bind, Program.wp_perform]
    intro r w' he
    obtain ⟨o₁, h₁, -, hfits, o, rfl, rfl⟩ := h.1.call he
    rw [Program.wp_ite]
    split
    · next hlt =>
      refine ⟨rfl, ⟨h₁, h.2⟩, hcons ⟨rfl, rfl⟩ fun b hb => ⟨b, hb, rfl, rfl⟩, fun hl => ?_⟩
      obtain ⟨hfeeds, hlen⟩ := hl b List.mem_cons_self pDest hdest
      have hfull := hfits hfeeds
      rw [List.length_take] at hfull
      dsimp only at hlt
      omega
    · exact hkeep ⟨h₁, h.2⟩ ⟨rfl, rfl⟩

/-- A call to something of the user, whose memory and descriptors are no pipes. -/
theorem Supervised.quiet (h : Supervised S k hand fe w) {c : Call} {r : Answer c}
    (he : ∃ o, osCall S (Fits S) k w.os c r o ∧ w' = { w with os := o })
    (hc : ∀ o o', sys S k o c r o' → o' = o) : Supervised S k hand fe w' :=
  ⟨(h.1.quiet he hc).1, h.2⟩

/-- The next command accepts the chunk. -/
theorem Supervised.transSend (h : Supervised S k hand fe w) (hk : k + 1 < S.count)
    (hne : hand ≠ []) (hfd : ¬fe.fd .nodeOut .fdRead < 0) {r : Unit}
    (he : env S (Fits S) k w (.transSend (.exec (k + 1)) hand) r w') : Supervised S k [] fe w' := by
  obtain ⟨res, fe', o, hexec, rfl⟩ := he
  have hpair := h.1.next hk
  have hown := h.1.ownOther hk (Nat.succ_ne_self k)
  have hdone : (w.cmds (k + 1)).mNodeIn.autoDone = false := by
    rw [Bool.eq_false_iff]
    exact fun hd => hfd (hpair.done (hown.acked (Nat.succ_pos k) hd)).2
  have hsend := send_sent hown (Nat.succ_pos k) (hpair.supervised h.2) hdone hne
  obtain ⟨rfl, hsent⟩ := Program.wp_iff.mp hsend _ _ _ hexec
  rw [Function.update_eq_self]
  exact ⟨h.1.sent hsent, h.2⟩

theorem Supervised.users (h : Supervised S k hand fe w) (ids : List Nat)
    {body : Transfering → Fe Unit}
    (hbody : ∀ id w, Supervised S k hand fe w → wp (env S (Fits S) k) (body (.user id))
      (fun _ fe' w' => fe' = fe ∧ Supervised S k hand fe w') fe w) :
    wp (env S (Fits S) k) (each (ids.map .user) body)
      (fun _ fe' w' => fe' = fe ∧ Supervised S k hand fe w') fe w := by
  refine Program.wp_each (fun _ fe' w' => fe' = fe ∧ Supervised S k hand fe w') ?_ ⟨rfl, h⟩
  rintro t _ _ w hm ⟨rfl, h⟩
  obtain ⟨id, -, rfl⟩ := List.mem_map.mp hm
  exact hbody id w h

/-- The sinks of an output that are not the next command, and then this one. -/
theorem Supervised.transfers (h : Supervised S k hand fe w) {sel : Output}
    {body : Transfering → Fe Unit} {Q : Unit → FileExecuting → Chain → Prop}
    (hbody : ∀ id w, Supervised S k hand fe w → wp (env S (Fits S) k) (body (.user id))
      (fun _ fe' w' => fe' = fe ∧ Supervised S k hand fe w') fe w)
    (hlast : ∀ w, Supervised S k hand fe w → (sel = .out → ¬k + 1 < S.count) → Q () fe w)
    (hnext : ∀ w, Supervised S k hand fe w → sel = .out → k + 1 < S.count →
      wp (env S (Fits S) k) (body (.exec (k + 1))) Q fe w) :
    wp (env S (Fits S) k) (each (fe.node sel.node).lstTransfers body) Q fe w := by
  cases sel with
  | err =>
    obtain ⟨ids, hids⟩ := h.1.own.errTransfers
    change wp _ (each fe.mNodeErr.lstTransfers body) Q fe w
    rw [hids]
    refine wp_mono (h.users ids hbody) ?_
    rintro _ _ w ⟨rfl, h⟩
    exact hlast w h fun h => nomatch h
  | out =>
    obtain ⟨ids, hids⟩ := h.1.own.outTransfers
    change wp _ (each fe.mNodeOut.lstTransfers body) Q fe w
    rw [hids, Program.wp_each_append]
    refine wp_mono (h.users ids hbody) ?_
    rintro _ _ w ⟨rfl, h⟩
    split
    · next hk => exact wp_seq (hnext w h rfl hk) fun _ _ _ hq => hq
    · next hk => exact hlast w h fun _ => hk

theorem Supervised.autoSinkOthers {sel : Output} {buf : Bytes}
    (h : Supervised S k (chunk sel.node buf) fe w) (hne : buf ≠ [])
    (hfd : ¬fe.fd sel.node .fdRead < 0) :
    wp (env S (Fits S) k) (autoSinkOthers sel.node buf)
      (fun _ => Supervised S k []) fe w := by
  rw [FileExecuting.autoSinkOthers, Program.wp_bind, Program.wp_get]
  refine wp_seq (Program.wp_each
    (fun _ fe' w' => fe' = fe ∧ Supervised S k (chunk sel.node buf) fe w') ?_ ⟨rfl, h⟩) ?_
  · rintro _ _ _ w - ⟨rfl, h⟩ r w' he
    exact ⟨rfl, h.quiet he fun _ _ h => h⟩
  rintro _ fe w ⟨rfl, h⟩
  refine wp_seq (Program.wp_each
    (fun _ fe' w' => fe' = fe ∧ Supervised S k (chunk sel.node buf) fe w') ?_ ⟨rfl, h⟩) ?_
  · rintro f _ _ w hf ⟨rfl, h⟩ r w' he
    refine ⟨rfl, ?_⟩
    obtain ⟨o₁, h₁, -, -, o, hsys, rfl⟩ := h.1.call he
    have hslot : o₁.fds f.fd = none := h₁.notOpen (h.1.own.files _ f hf)
    simp only [sys, hslot] at hsys
    subst hsys
    exact ⟨h₁, h.2⟩
  rintro _ fe w ⟨rfl, h⟩
  refine h.transfers (fun id w h r w' he => ⟨rfl, h.quiet he fun _ _ h => h⟩) (fun w h hlast => ?_)
    fun w h hsel hk r w' he => ?_
  · cases sel with
    | err => exact h
    | out => exact ⟨h.1.last (hlast rfl), h.2⟩
  · subst hsel
    exact h.transSend hk hne hfd he

theorem Supervised.autoSinkFdsClose (h : Supervised S k hand fe w) {l : List FeFileDescSetting}
    (hl : ∀ f ∈ l, f.fd ∈ S.user ∨ f.fd < 0) :
    wp (env S (Fits S) k) (autoSinkFdsClose l) (fun l' fe' w' => fe' = fe ∧
      Supervised S k hand fe w' ∧ ∀ f ∈ l', f.fd ∈ S.user ∨ f.fd < 0) fe w := by
  induction l generalizing w with
  | nil => exact ⟨rfl, h, hl⟩
  | cons f fs ih =>
    have hf := hl f List.mem_cons_self
    have hfs : ∀ f ∈ fs, f.fd ∈ S.user ∨ f.fd < 0 := fun f hm => hl f (List.mem_cons_of_mem _ hm)
    have hrest : ∀ (fd : Int) w, fd ∈ S.user ∨ fd < 0 → Supervised S k hand fe w →
        wp (env S (Fits S) k) (do
          let fs' ← autoSinkFdsClose fs
          return { f with fd := fd } :: fs') (fun l' fe' w' => fe' = fe ∧
            Supervised S k hand fe w' ∧ ∀ f ∈ l', f.fd ∈ S.user ∨ f.fd < 0) fe w := by
      intro fd w hfd h
      refine wp_seq (ih h hfs) fun fs' fe' w' ⟨hfe, h', hfs'⟩ => ⟨hfe, h', fun f' hm => ?_⟩
      rcases List.mem_cons.mp hm with rfl | hm
      · exact hfd
      · exact hfs' f' hm
    rw [FileExecuting.autoSinkFdsClose]
    split
    · refine wp_seq (h.1.fdClose_user hf) ?_
      rintro fd fe' w' ⟨rfl, h', hfd⟩
      exact hrest fd w' hfd ⟨h', h.2⟩
    · exact hrest f.fd w hf h

/-- The end of the data is passed on. -/
theorem Supervised.autoSinkFinish (h : Supervised S k [] fe w) {sel : Output}
    (hneg : fe.fd sel.node .fdRead < 0) :
    wp (env S (Fits S) k) (autoSinkFinish sel.node) (fun _ => Supervised S k []) fe w := by
  rw [FileExecuting.autoSinkFinish, Program.wp_bind, Program.wp_get]
  refine wp_seq (h.autoSinkFdsClose (h.1.own.files sel.node)) ?_
  rintro lstFds fe w ⟨rfl, h, hfds⟩
  have hset : ∀ w, Supervised S k [] fe w →
      Supervised S k [] (fe.setNode sel.node
        { fe.node sel.node with lstFds := lstFds, autoDone := true }) w := fun w h =>
    ⟨h.1.setOutput sel rfl rfl hfds fun b hb => ⟨b, hb, rfl, rfl⟩,
      (setNode_mState ..).trans h.2⟩
  rw [Program.wp_bind, Program.wp_get, Program.wp_bind]
  refine h.transfers (fun id w h r w' he => ⟨rfl, h.quiet he fun _ _ h => h⟩)
    (fun w h _ => hset w h) fun w h hsel hk r w' he => ?_
  subst hsel
  obtain rfl := he
  exact hset _ ⟨h.1.doneNext h.2 hneg, h.2⟩

theorem Supervised.autoSinkRound (h : Supervised S k [] fe w) (sel : Output) :
    wp (env S (Fits S) k) (autoSinkRound sel.node) (fun _ => Supervised S k []) fe w := by
  rw [FileExecuting.autoSinkRound]
  refine wp_seq (h.intSinkRead sel) ?_
  rintro ⟨lenDone, buf⟩ fe w hread
  rw [Program.wp_ite]
  split
  · next hz =>
    have hnil : buf = [] := hread.none (Int.le_of_eq hz)
    have h := hread.inHand
    rwa [show ((lenDone, buf) : Int × Bytes).2 = [] from hnil, chunk_nil] at h
  rw [Program.wp_ite]
  split
  · next hlt =>
    have hnil : buf = [] := hread.none (Int.le_of_lt hlt)
    have h := hread.inHand
    rw [show ((lenDone, buf) : Int × Bytes).2 = [] from hnil, chunk_nil] at h
    exact Program.wp_result (h.autoSinkFinish (hread.ended hlt)) _
  next hz hge =>
  obtain ⟨hne, hfd⟩ := hread.more (by dsimp only; omega)
  rw [Program.wp_bind, Program.wp_get]
  refine wp_seq (hread.inHand.autoSinkBuffers buf _) ?_
  rintro ⟨lstBuffers, ok⟩ fe w ⟨rfl, h, hl, hok⟩
  rw [Program.wp_bind, Program.wp_modify, Program.wp_ite]
  have h' : Supervised S k (chunk sel.node buf)
      (fe.setNode sel.node { fe.node sel.node with lstBuffers := lstBuffers }) w :=
    ⟨h.1.setOutput sel rfl rfl (h.1.own.files sel.node) hl, (setNode_mState ..).trans h.2⟩
  split
  · next hstop =>
    -- the early return: this output feeds no command
    cases sel with
    | err => exact h'
    | out =>
      refine ⟨h'.1.last fun hk => ?_, h'.2⟩
      obtain rfl : ok = true := hok (h.1.own.outBuffers hk)
      exact nomatch hstop
  · refine Program.wp_result (h'.autoSinkOthers hne ?_) _
    rw [fd_setNode]
    · exact hfd
    · rfl

theorem Supervised.autoSink (h : Supervised S k [] fe w) (sel : Output) :
    wp (env S (Fits S) k) (autoSink sel.node) (fun _ => Supervised S k []) fe w := by
  simp only [FileExecuting.autoSink, Program.wp_ite, Program.wp_bind, Program.wp_get,
    Program.wp_pure]
  split
  · exact h
  split
  · exact h
  · exact Program.wp_rounds_inv (fun _ _ _ h => h.autoSinkRound sel) _ _ h

/-! ## A tick -/

theorem Supervised.childStateRecord (h : Supervised S k [] fe w) :
    wp (env S (Fits S) k) childStateRecord (fun _ => Supervised S k []) fe w := by
  refine wp_mono childStateRecord_spec fun _ fe' w' hspec => ?_
  rcases hspec with ⟨-, rfl, rfl⟩ | ⟨-, st, he, rfl⟩
  · exact h
  have h' := h.quiet he fun _ _ h => h
  exact ⟨h'.1.congr rfl rfl rfl fun n => by cases n <;> rfl, h'.2⟩

theorem Supervised.childSupervise (h : Supervised S k [] fe w) :
    wp (env S (Fits S) k) childSupervise (fun _ => Tick S k []) fe w := by
  rw [FileExecuting.childSupervise]
  refine wp_seq h.doneCheck fun _ fe w h => ?_
  refine wp_seq h.autoSource fun _ fe w h => ?_
  refine wp_seq (h.autoSink .out) fun _ fe w h => ?_
  refine wp_seq (h.autoSink .err) fun _ fe w h => ?_
  refine wp_seq h.childStateRecord fun _ fe w h => ?_
  simp only [Program.wp_ite, Program.wp_bind, Program.wp_get, Program.wp_pure]
  split_ifs <;> exact h.1

theorem openFd_kept {fd fd' : Int} {s t : Slot} (h : Fresh S o fd) (hs : o.fds fd' = some s) :
    (o.openFd fd t).fds fd' = some s := by
  have hne : fd' ≠ fd := by
    rintro rfl
    cases h.2.2.symm.trans hs
  exact (Function.update_of_ne hne ..).trans hs

theorem openFd_new {fd fd' : Int} {s t : Slot} (h : Fresh S o fd)
    (hs : (o.openFd fd t).fds fd' = some s) : o.fds fd' = some s ∨ 0 ≤ fd' ∧ fd' ∉ S.user := by
  by_cases hfd : fd' = fd
  · exact .inr (hfd ▸ ⟨h.1, h.2.1⟩)
  · exact .inl ((Function.update_of_ne hfd ..).symm.trans hs)

/-- The pipe of a node. -/
theorem Tick.pipe (h : Tick S k hand fe w) (hst : fe.mState ≠ .stChildSupervise) {n : NodeSel}
    {p : FePairFd} (he : env S (Fits S) k w (.pipe n) (some p) w') :
    Tick S k hand (fe.setPipe n p) w' := by
  obtain ⟨o₁, h₁, -, -, o, ⟨hr, hw, hne, rfl⟩, rfl⟩ := h.call he
  have hw' : Fresh S (o₁.openFd p.fdRead ⟨k, n, .fdRead⟩) p.fdWrite :=
    ⟨hw.1, hw.2.1, (Function.update_of_ne hne.symm ..).trans hw.2.2⟩
  refine h₁.setPipe hst (fun fd s hs => openFd_kept hw' (openFd_kept hr hs))
    (fun fd s hs => (openFd_new hw' hs).elim (openFd_new hr) .inr) (fun e _ => ?_)
    fun _ hneg => absurd hw.1 (Int.not_le.mpr hneg)
  cases e with
  | fdRead => exact openFd_kept hw' (Function.update_self ..)
  | fdWrite => exact Function.update_self ..

/-- The null device for an output, or no descriptor. -/
theorem Tick.null (h : Tick S k hand fe w) (hst : fe.mState ≠ .stChildSupervise) {sel : Output}
    {r : Option Int} (he : env S (Fits S) k w (.openNull sel.node) r w') :
    Tick S k hand (fe.setFd sel.node .fdWrite (r.getD (-1))) w' := by
  obtain ⟨o₁, h₁, -, -, o, hsys, rfl⟩ := h.call he
  have hin : sel.node = .nodeIn → ¬((fe.node sel.node).pipe.set .fdWrite (r.getD (-1))).fdWrite < 0 :=
    fun heq => by cases sel <;> cases heq
  have hread : ∀ fds : Int → Option Slot, (∀ fd s, o₁.fds fd = some s → fds fd = some s) →
      ¬fe.fd sel.node .fdRead < 0 → fds (fe.fd sel.node .fdRead) = some ⟨k, sel.node, .fdRead⟩ :=
    fun fds hkeep hneg => hkeep _ _ (h₁.own.owner _ _ hneg)
  match r with
  | none =>
    obtain rfl := hsys
    refine h₁.setPipe hst (fun _ _ h => h) (fun _ _ h => .inl h) (fun e hneg => ?_) hin
    cases e with
    | fdRead => exact hread _ (fun _ _ h => h) hneg
    | fdWrite => exact absurd (show (-1 : Int) < 0 by decide) hneg
  | some fd =>
    obtain ⟨hfresh, rfl⟩ := hsys
    refine h₁.setPipe hst (fun fd s hs => openFd_kept hfresh hs) (fun fd s hs => openFd_new hfresh hs)
      (fun e hneg => ?_) hin
    cases e with
    | fdRead => exact hread _ (fun _ _ hs => openFd_kept hfresh hs) hneg
    | fdWrite => exact Function.update_self ..

theorem Tick.outputCreate (h : Tick S k hand fe w) (hst : fe.mState ≠ .stChildSupervise)
    (sel : Output) :
    wp (env S (Fits S) k) (outputCreate sel.node) (fun _ fe' w' => Tick S k hand fe' w' ∧
      fe'.mState = fe.mState ∧ fe'.mNodeIn = fe.mNodeIn) fe w := by
  have hset : ∀ v, (fe.setNode sel.node v).mState = fe.mState ∧
      (fe.setNode sel.node v).mNodeIn = fe.mNodeIn := by
    cases sel <;> exact fun _ => ⟨rfl, rfl⟩
  simp only [FileExecuting.outputCreate, Program.wp_ite, Program.wp_bind, Program.wp_get,
    Program.wp_perform]
  split <;> intro r w' he
  · match r with
    | none => exact ⟨(h.quiet he fun _ _ h => h).1, rfl, rfl⟩
    | some p => exact ⟨h.pipe hst he, hset _⟩
  · match r with
    | none => exact ⟨h.null hst he, hset _⟩
    | some fd => exact ⟨h.null hst he, hset _⟩

theorem Tick.pipesCreate (h : Tick S k hand fe w) (hst : fe.mState = .stPipesCreate) :
    wp (env S (Fits S) k) pipesCreate (fun _ => Tick S k hand) fe w := by
  have hst' : fe.mState ≠ .stChildSupervise := by rw [hst]; decide
  rw [FileExecuting.pipesCreate, Program.wp_bind, Program.wp_perform]
  intro r w' he
  match r with
  | none => exact (h.quiet he fun _ _ h => h).1
  | some p =>
    have hpos : ¬p.fdWrite < 0 := by
      obtain ⟨_, _, _, _, _, ⟨_, hw, _⟩, _⟩ := h.call he
      exact Int.not_lt.mpr hw.1
    have h' := h.pipe hst' he
    dsimp only
    rw [Program.wp_bind, Program.wp_modify]
    refine wp_seq (h'.outputCreate hst' .out) fun _ fe₁ w₁ ⟨h₁, hst₁, hin₁⟩ => ?_
    rw [Program.wp_ite]
    split
    · exact h₁
    have hst₁' : fe₁.mState ≠ .stChildSupervise := hst₁ ▸ hst'
    refine wp_seq (h₁.outputCreate hst₁' .err) fun _ fe₂ w₂ ⟨h₂, hst₂, hin₂⟩ => ?_
    rw [Program.wp_ite]
    split
    · exact h₂
    refine h₂.goto (hst₂ ▸ hst₁') (fun h => by rcases h with h | h <;> cases h) (fun _ _ => ?_)
      fun h => nomatch h
    rwa [fd, node, hin₂, hin₁]

theorem Tick.forkStart (h : Tick S k hand fe w) (hst : fe.mState = .stFork) :
    wp (env S (Fits S) k) forkStart (fun _ => Tick S k hand) fe w := by
  simp only [FileExecuting.forkStart, Program.wp_ite, Program.wp_bind, Program.wp_perform,
    Program.wp_pure]
  intro r w₁ he
  have h₁ := (h.quiet he fun _ _ h => h).1
  split
  · exact h₁
  intro r w₂ he
  have h₂ := (h₁.quiet he fun _ _ h => h).1
  split
  · exact h₂
  intro r w₃ he
  have h₃ := (h₂.quiet he fun _ _ h => h).1
  match r with
  | none => exact h₃
  | some idProc =>
    have h₄ : Tick S k hand { fe with mResult := { fe.mResult with idChild := idProc } } w₃ :=
      h₃.congr rfl rfl rfl fun n => by cases n <;> rfl
    refine h₄.goto (by rw [hst]; decide) (fun h => by rcases h with h | h <;> cases h)
      (fun hc _ => ?_) fun h => nomatch h
    exact h₄.own.piped hc (.inl hst)

theorem Tick.nonBlockingSetAt (h : Tick S k hand fe w) (n : NodeSel) (e : PipeEnd) :
    wp (env S (Fits S) k) (nonBlockingSetAt n e) (fun _ fe' w' => fe' = fe ∧ Tick S k hand fe w')
      fe w := by
  simp only [FileExecuting.nonBlockingSetAt, fileNonBlockingSet, Program.wp_ite, Program.wp_bind,
    Program.wp_get, Program.wp_perform, Program.wp_pure]
  split
  · exact ⟨trivial, h⟩
  intro r w₁ he
  have h₁ := (h.quiet he fun _ _ h => h).1
  split
  · exact ⟨trivial, h₁⟩
  · exact fun r w₂ he => ⟨trivial, (h₁.quiet he fun _ _ h => h).1⟩

theorem Tick.parentClose (h : Tick S k hand fe w) (hst : fe.mState = .stParentStart)
    {n : NodeSel} (hne : S.Claimed k → n ≠ .nodeIn) :
    wp (env S (Fits S) k) (fdCloseAt n .fdWrite) (fun _ fe' w' => Tick S k hand fe' w' ∧
      fe'.mState = .stParentStart) fe w := by
  refine wp_fdCloseAt (fun _ => ⟨h, hst⟩) fun hfd r w' he => ?_
  obtain ⟨o₁, h₁, -, -, o, rfl, rfl⟩ := h.call he
  exact ⟨h₁.closeOther hfd fun hc heq => hne hc heq.1, (setNode_mState ..).trans hst⟩

/-- A claimed stdin is used. -/
theorem Own.used (h : Own S j fe o) (hc : S.Claimed j) :
    (fe.mNodeIn.manualEnabled || fe.mNodeIn.autoEnabled) = true := by
  rcases Nat.eq_zero_or_pos j with rfl | hpos
  · obtain ⟨src, hs⟩ := Option.ne_none_iff_exists'.mp (hc.resolve_left (by decide))
    rw [(h.source rfl src hs).auto, Bool.or_true]
  · rw [(h.manual hpos).1, Bool.true_or]

theorem Tick.parentStart (h : Tick S k hand fe w) (hst : fe.mState = .stParentStart) :
    wp (env S (Fits S) k) parentStart (fun _ => Tick S k hand) fe w := by
  rw [FileExecuting.parentStart]
  refine wp_seq (h.parentClose hst fun _ => by decide) fun _ fe w ⟨h, hst⟩ => ?_
  refine wp_seq (h.parentClose hst fun _ => by decide) fun _ fe w ⟨h, hst⟩ => ?_
  have hunused : wp (env S (Fits S) k) stdinUnusedClose (fun _ fe' w' => Tick S k hand fe' w' ∧
      fe'.mState = .stParentStart) fe w := by
    simp only [stdinUnusedClose, Program.wp_ite, Program.wp_bind, Program.wp_get, Program.wp_pure]
    split
    · next hcond =>
      refine h.parentClose hst fun hc _ => ?_
      rw [h.own.used hc] at hcond
      cases hcond
    · exact ⟨h, hst⟩
  refine wp_seq hunused fun _ fe w ⟨h, hst⟩ => ?_
  refine wp_seq (h.nonBlockingSetAt .nodeIn .fdWrite) ?_
  rintro _ fe w ⟨rfl, h⟩
  rw [Program.wp_ite]
  split
  · exact h
  refine wp_seq (h.nonBlockingSetAt .nodeOut .fdRead) ?_
  rintro _ fe w ⟨rfl, h⟩
  rw [Program.wp_ite]
  split
  · exact h
  refine wp_seq (h.nonBlockingSetAt .nodeErr .fdRead) ?_
  rintro _ fe w ⟨rfl, h⟩
  rw [Program.wp_ite]
  split
  · exact h
  rw [Program.wp_bind, Program.wp_modify]
  exact (h.setReady hst).goto (by rw [hst]; decide) (fun _ => rfl)
    (fun _ h => by rcases h with h | h <;> cases h) fun h => nomatch h

/-- The transfers of an output are ready: a next command among them too. -/
theorem Tick.sinksReady (h : Tick S k hand fe w) (l : List Transfering) :
    wp (env S (Fits S) k) (sinksReady l) (fun r fe' w' => fe' = fe ∧ Tick S k hand fe w' ∧
      w'.cmds = w.cmds ∧
      (r = true → ∀ j, .exec j ∈ l → (w.cmds j).mSendReady = true)) fe w := by
  induction l generalizing w with
  | nil => exact ⟨rfl, h, rfl, fun _ j hj => absurd hj List.not_mem_nil⟩
  | cons t ts ih =>
    simp only [FileExecuting.sinksReady, Program.wp_ite, Program.wp_bind, Program.wp_perform,
      Program.wp_pure]
    intro r w₁ he
    obtain ⟨h₁, hcmds, hr⟩ : Tick S k hand fe w₁ ∧ w₁.cmds = w.cmds ∧
        ∀ j, t = .exec j → r = (w.cmds j).mSendReady := by
      cases t with
      | user id =>
        obtain ⟨h₁, hcmds⟩ := h.quiet he fun _ _ h => h
        exact ⟨h₁, hcmds, fun j hj => nomatch hj⟩
      | exec j =>
        obtain ⟨rfl, rfl⟩ := he
        refine ⟨h, rfl, fun j' hj => ?_⟩
        cases hj
        rfl
    split
    · exact ⟨trivial, h₁, hcmds, fun h => nomatch h⟩
    next hready =>
    refine wp_mono (ih h₁) ?_
    rintro r' _ w₂ ⟨rfl, h₂, hcmds', hl⟩
    refine ⟨rfl, h₂, hcmds'.trans hcmds, fun hr' j hj => ?_⟩
    rcases List.mem_cons.mp hj with hj | hj
    · rw [← hr j hj.symm]
      simpa using hready
    · exact hcmds ▸ hl hr' j hj

theorem Tick.sinksReadyWait (h : Tick S k hand fe w) (hst : fe.mState = .stSinksReadyWait) :
    wp (env S (Fits S) k) sinksReadyWait (fun _ => Tick S k hand) fe w := by
  rw [FileExecuting.sinksReadyWait, Program.wp_bind, Program.wp_get]
  refine wp_seq (h.sinksReady _) ?_
  rintro r fe w₁ ⟨rfl, h₁, hcmds, hl⟩
  rw [Program.wp_ite]
  split
  · exact h₁
  next hr =>
  rw [Program.wp_bind, Program.wp_get]
  refine wp_seq (h₁.sinksReady _) ?_
  rintro r' fe w₂ ⟨rfl, h₂, hcmds', -⟩
  rw [Program.wp_ite]
  split
  · exact h₂
  refine h₂.goto (by rw [hst]; decide) (fun _ => h₂.own.ready (.inl hst))
    (fun _ h => by rcases h with h | h <;> cases h) fun _ hk => ?_
  obtain ⟨ids, hids⟩ := h₂.own.outTransfers
  rw [hcmds', hcmds]
  refine hl (by simpa using hr) (k + 1) ?_
  rw [hids, if_pos hk]
  exact List.mem_append_right _ List.mem_cons_self

/-- A tick of a command. -/
theorem Tick.process (h : Tick S k [] fe w) :
    wp (env S (Fits S) k) process (fun _ => Tick S k []) fe w := by
  rw [FileExecuting.process, Program.wp_bind, Program.wp_get]
  have hstart : ∀ st, st = .stInternalStart ∨ st = .stPipesCreate →
      fe.mState ≠ .stChildSupervise → Tick S k [] { fe with mState := st } w := by
    rintro st hst hne
    rcases hst with rfl | rfl <;>
      exact h.goto hne (fun h => by rcases h with h | h <;> cases h)
        (fun _ h => by rcases h with h | h <;> cases h) fun h => nomatch h
  split
  · next hst => exact hstart _ (.inl rfl) (by rw [hst]; decide)
  · next hst => exact hstart _ (.inr rfl) (by rw [hst]; decide)
  · next hst => exact h.pipesCreate hst
  · next hst => exact h.forkStart hst
  · next hst => exact h.parentStart hst
  · next hst => exact h.sinksReadyWait hst
  · next hst => exact Supervised.childSupervise ⟨h, hst⟩
  · exact h

end Chains

end FileExecuting

end ProcessingCommon

import Mathlib.Data.List.Infix
import ProcessingCommon.FileExecuting.FanOut

/-!
# Which streams all sinks get

`fannedOut_iff`: the lengths of the chunks say whether all sinks get a stream. That they do
follows from the invariant; that others are lost needs a run for every stream, which
`Fed` takes from call to call.
-/

namespace ProcessingCommon

namespace FileExecuting

namespace FanOut

open Program (wp Exec wp_mono wp_seq)
open Transition (Reachable)

variable {n : NodeSel} {S : SinkSet} {fe : FileExecuting} {w : Os} {len : Nat} {c : Bytes}
  {cs : List Bytes} {bs : List (Nat × Nat)}

/-! ## Who gets everything -/

theorem behind_suffix (len : Nat) (cs : List Bytes) : behind len cs <:+ cs := by
  induction cs generalizing len with
  | nil => exact List.suffix_rfl
  | cons c cs ih =>
    unfold behind
    split
    · exact List.suffix_rfl
    · exact (ih _).trans (List.suffix_cons c cs)

theorem arrived_suffix (bs : List (Nat × Nat)) (cs : List Bytes) : arrived bs cs <:+ cs := by
  induction bs generalizing cs with
  | nil => exact List.suffix_rfl
  | cons b bs ih =>
    have hrest := ih (behind b.2 cs)
    exact hrest.trans (behind_suffix b.2 cs)

theorem Copied.suffix {got : Sink → Bytes} (h : Copied got bs cs) {b : Nat × Nat} (hb : b ∈ bs) :
    ∃ es, es <:+ cs ∧ got (.buffer b.1) = es.flatten.take b.2 := by
  induction bs generalizing cs with
  | nil => cases hb
  | cons b' bs ih =>
    rcases List.mem_cons.mp hb with rfl | hb
    · exact ⟨cs, List.suffix_rfl, h.1⟩
    · obtain ⟨es, hes, hgot⟩ := ih h.2 hb
      exact ⟨es, hes.trans (behind_suffix b'.2 cs), hgot⟩

theorem behind_first (h : len ≤ c.length) : behind len (c :: cs) = c :: cs := if_pos h

section Streams

variable {got : Sink → Bytes} {more : Prop}

/-- Where the first chunk fills what has to be filled, all buffers have the beginning. -/
theorem Fills.buffers (hf : Fills c.length more bs) (h : Copied got bs (c :: cs)) :
    ∀ b ∈ bs, got (.buffer b.1) = (c :: cs).flatten.take b.2 := by
  induction bs with
  | nil => exact fun b hb => absurd hb List.not_mem_nil
  | cons b bs ih =>
    intro b' hb'
    rcases List.mem_cons.mp hb' with rfl | hb'
    · exact h.1
    by_cases hroom : 0 < b'.2
    · have hcopied := h.2
      rw [behind_first (hf.1 (.inr ⟨b', hb', hroom⟩))] at hcopied
      exact ih hf.2 hcopied b' hb'
    · obtain ⟨es, -, hgot⟩ := h.2.suffix hb'
      have hzero : b'.2 = 0 := by omega
      rw [hgot, hzero, List.take_zero, List.take_zero]

theorem Fills.arrived (hf : Fills c.length more bs) (hm : more) :
    FanOut.arrived bs (c :: cs) = c :: cs := by
  induction bs with
  | nil => rfl
  | cons b bs ih =>
    rw [FanOut.arrived, List.foldl_cons, behind_first (hf.1 (.inl hm))]
    exact ih hf.2

/-- Without a sink behind them nothing has to be filled. -/
theorem fills_last {first : Nat} (hm : ¬ more) (hz : ∀ b ∈ bs, ¬ 0 < b.2) :
    Fills first more bs := by
  induction bs with
  | nil => trivial
  | cons b bs ih =>
    have hz' := fun b' hb' => hz b' (List.mem_cons_of_mem b hb')
    refine ⟨?_, ih hz'⟩
    rintro (h | ⟨b', hb', hpos⟩)
    · exact absurd h hm
    · exact absurd hpos (hz' b' hb')

/-- In a stream whose first byte does not come again behind the first chunk, everything can only
have got to all sinks if that chunk has filled what has to be filled. -/
theorem fills_of_got {x : UInt8} {c : Bytes} (hx : x ∉ cs.flatten)
    (h : Copied got bs ((x :: c) :: cs))
    (hbuf : ∀ b ∈ bs, got (.buffer b.1) = ((x :: c) :: cs).flatten.take b.2)
    (hmore : more → (arrived bs ((x :: c) :: cs)).flatten = ((x :: c) :: cs).flatten) :
    Fills (x :: c).length more bs := by
  induction bs with
  | nil => trivial
  | cons b bs ih =>
    have hbuf' := fun b' hb' => hbuf b' (List.mem_cons_of_mem b hb')
    by_cases hlen : b.2 ≤ (x :: c).length
    · have hb : behind b.2 ((x :: c) :: cs) = (x :: c) :: cs := behind_first hlen
      have hcopied := h.2
      rw [hb] at hcopied
      refine ⟨fun _ => hlen, ih hcopied hbuf' fun hm => ?_⟩
      have harr := hmore hm
      rwa [arrived, List.foldl_cons, hb] at harr
    -- the first chunk is lost for everything behind this buffer
    have hlost : behind b.2 ((x :: c) :: cs) <:+ cs := by
      unfold behind
      rw [if_neg hlen]
      exact behind_suffix _ cs
    have hm : ¬ more := by
      intro hm
      have hle := (List.IsSuffix.flatten ((arrived_suffix bs _).trans hlost)).length_le
      have harr := congrArg List.length (hmore hm)
      rw [arrived, List.foldl_cons] at harr
      rw [arrived, harr, List.flatten_cons, List.length_append, List.length_cons] at hle
      omega
    have hz : ∀ b' ∈ bs, ¬ 0 < b'.2 := by
      intro b' hb' hpos
      obtain ⟨es, hes, hgot⟩ := h.2.suffix hb'
      have hhead := hgot.symm.trans (hbuf' b' hb')
      rw [List.flatten_cons, List.cons_append] at hhead
      obtain ⟨k, hk⟩ : ∃ k, b'.2 = k + 1 := ⟨b'.2 - 1, by omega⟩
      rw [hk, List.take_succ_cons] at hhead
      have hmem : x ∈ es.flatten := List.mem_of_mem_take (hhead ▸ List.mem_cons_self)
      exact hx ((List.IsSuffix.flatten (hes.trans hlost)).subset hmem)
    refine ⟨?_, fills_last hm hz⟩
    rintro (h | ⟨b', hb', hpos⟩)
    · exact absurd h hm
    · exact absurd hpos (hz b' hb')

end Streams

/-- All sinks get everything if the first chunk fills what has to be filled. -/
theorem Inv.fannedOut (h : Inv n S fe w) (hdone : (fe.node n).autoDone = true)
    (hf : S.FilledAtOnce (w.chunks.map List.length)) : FannedOut S w := by
  have htold : told (fe.node n) = 1 := if_pos hdone
  have hall : (∀ b ∈ S.buffers, w.got (.buffer b.1) = w.chunks.flatten.take b.2) ∧
      ∀ s ∈ S.others, w.got s = w.chunks.flatten := by
    have hcopied := h.copied
    have hothers := h.others
    cases hw : w.chunks with
    | nil =>
      rw [hw] at hcopied hothers
      refine ⟨fun b hb => ?_, fun s hs => ?_⟩
      · obtain ⟨es, hes, hgot⟩ := hcopied.suffix hb
        rw [hgot, List.suffix_nil.mp hes]
      · rw [hothers s hs, List.suffix_nil.mp (arrived_suffix _ _)]
    | cons c cs =>
      rw [hw] at hf hcopied hothers
      refine ⟨Fills.buffers hf hcopied, fun s hs => ?_⟩
      rw [hothers s hs, Fills.arrived hf (List.ne_nil_of_mem hs)]
  exact {
    buffers := hall.1
    strings := fun str hs => hall.2 _ (mem_others.mpr (.inl ⟨str, hs, rfl⟩))
    fds := fun f hf => hall.2 _ (mem_others.mpr (.inr (.inl ⟨f, hf, rfl⟩)))
    transfers := fun pTrans ht => hall.2 _ (mem_others.mpr (.inr (.inr ⟨pTrans, ht, rfl⟩)))
    closed := fun f hf ha => (h.closed f hf ha).trans htold
    dones := fun pTrans ht => (h.dones pTrans ht).trans htold }

theorem FannedOut.others (h : FannedOut S w) : ∀ s ∈ S.others, w.got s = w.chunks.flatten := by
  intro s hs
  rcases mem_others.mp hs with ⟨str, hstr, rfl⟩ | ⟨f, hf, rfl⟩ | ⟨pTrans, ht, rfl⟩
  · exact h.strings str hstr
  · exact h.fds f hf
  · exact h.transfers pTrans ht

/-- And only then, if the first byte shows what is lost. -/
theorem Inv.filledAtOnce {x : UInt8} (h : Inv n S fe w) (hw : w.chunks = (x :: c) :: cs)
    (hx : x ∉ cs.flatten) (hall : FannedOut S w) :
    S.FilledAtOnce (w.chunks.map List.length) := by
  have hcopied := h.copied
  have hbuffers := hall.buffers
  have hothers := h.others
  have hgot := hall.others
  rw [hw] at hcopied hbuffers hothers hgot ⊢
  refine fills_of_got hx hcopied hbuffers fun hmore => ?_
  obtain ⟨s, hs⟩ := List.exists_mem_of_ne_nil _ hmore
  exact (hothers s hs).symm.trans (hgot s hs)

/-! ## A run for every stream -/

/-- The system gives the chunks of a stream of which `w` has had the beginning, and then its
end. -/
def answer (stream : List Bytes) (w : Os) : (k : Call) → Answer k × Os
  | .read _ len =>
    match ((stream.drop w.chunks.length).headD []).take len with
    | [] => (.data [], w)
    | b :: d => (.data (b :: d), { w with chunks := w.chunks ++ [b :: d] })
  | .memcpy pDest offs d => ((), w.copy pDest offs d)
  | .append str d => ((), w.put (.string str) d)
  | .write fd d => (.done d.length, w.put (.fd fd) d)
  | .transSend pTrans d => ((), w.put (.transfer pTrans) d)
  | .close fd => ((), { w with closed := w.closed ++ [fd] })
  | .doneSet pTrans => ((), { w with dones := w.dones ++ [pTrans] })
  | .pipe _ => (none, w)
  | .openNull _ => (none, w)
  | .vecConstCharToCharList => (true, w)
  | .vfork => (none, w)
  | .fcntl _ => (true, w)
  | .waitpid _ => (.unchanged, w)
  | .sendReady _ => (true, w)
  | .transRead _ _ => (none, w)

variable {stream : List Bytes}

theorem sys_answer (stream : List Bytes) (w : Os) (k : Call) :
    sys w k (answer stream w k).1 (answer stream w k).2 := by
  cases k with
  | read fd len =>
    rw [answer]
    split
    · rfl
    · next b d hd =>
      refine ⟨?_, rfl⟩
      rw [← hd]
      exact List.length_take_le ..
  | _ => rfl

theorem sys_given (w : Os) (k : Call) (r : Answer k) (w' : Os)
    (h : Program.given (answer stream) w k r w') : sys w k r w' := by
  have hsys := sys_answer stream w k
  rw [show answer stream w k = (r, w') from h] at hsys
  exact hsys

/-- The sinks are being fed with the stream. -/
structure Fed (n : NodeSel) (S : SinkSet) (stream : List Bytes) (fe : FileExecuting) (w : Os) :
    Prop where
  inv : Inv n S fe w
  autoEnabled : (fe.node n).autoEnabled = true
  mReadReady : fe.mReadReady = true
  fdRead : ¬ fe.fd n .fdRead < 0
  autoDone : (fe.node n).autoDone = false
  chunks : w.chunks <+: stream

/-- The stream has come to its end. -/
def Ended (n : NodeSel) (stream : List Bytes) (fe : FileExecuting) (w : Os) : Prop :=
  (fe.node n).autoDone = true ∧ w.chunks = stream

/-- A read gives the next chunk, or all have been given. -/
theorem Fed.intSinkRead (h : Fed n S stream fe w)
    (hlen : ∀ c ∈ stream, 1 ≤ c.length ∧ c.length ≤ 22) :
    wp (Program.given (answer stream)) (intSinkRead n 22) (fun r _ w' =>
      if 0 < r.1 then w'.chunks <+: stream ∧ w.chunks.length < w'.chunks.length
      else r.1 < 0 ∧ w'.chunks = stream) fe w := by
  simp only [FileExecuting.intSinkRead, Program.wp_ite, Program.wp_bind, Program.wp_get,
    Program.wp_pure, Program.wp_perform, h.mReadReady, h.fdRead]
  obtain ⟨rest, hrest⟩ := h.chunks
  intro r w' he
  rw [Program.given, answer, ← hrest, List.drop_left] at he
  cases rest with
  | nil =>
    obtain ⟨rfl, rfl⟩ := Prod.mk.inj he
    refine wp_seq (P := fun _ _ w' => w'.chunks = stream) ?_ fun _ _ _ hw => ⟨by decide, hw⟩
    have hw : w.chunks = stream := by rw [← hrest, List.append_nil]
    refine wp_fdCloseAt (fun _ => hw) ?_
    rintro - _ _ hc
    obtain ⟨-, rfl⟩ := Prod.mk.inj hc
    exact hw
  | cons c rest =>
    have hc := hlen c (hrest ▸ List.mem_append_right _ List.mem_cons_self)
    rw [List.headD_cons, List.take_of_length_le hc.2] at he
    cases c with
    | nil => exact absurd hc.1 (by decide)
    | cons b d =>
      obtain ⟨rfl, rfl⟩ := Prod.mk.inj he
      rw [Program.wp_pure, if_pos (by simp)]
      refine ⟨⟨rest, ?_⟩, ?_⟩
      · rw [← hrest, List.append_assoc]
        rfl
      · rw [List.length_append]
        exact Nat.lt_succ_self _

/-- After a round there is more, or the end. -/
theorem Fed.autoSinkRound (h : Fed n S stream fe w)
    (hlen : ∀ c ∈ stream, 1 ≤ c.length ∧ c.length ≤ 22) :
    wp (Program.given (answer stream)) (autoSinkRound n) (fun r fe' w' =>
      Fed n S stream fe' w' ∧ w.chunks.length < w'.chunks.length ∨
        r = .inr () ∧ Inv n S fe' w' ∧ Ended n stream fe' w') fe w := by
  refine wp_mono (autoSinkRound_spec sys_given h.inv h.autoDone (h.intSinkRead hlen)) ?_
  rintro r fe' w' ⟨h', read, fe₁, w₁, hread, hchunks, hround⟩
  split at hread
  · next hpos =>
    rw [if_pos hpos] at hround
    rw [← hchunks] at hread
    obtain ⟨lstBuffers, rfl⟩ := hround
    refine .inl ⟨⟨h', ?_, ?_, ?_, ?_, hread.1⟩, hread.2⟩
    · rw [node_setNode_self]
      exact h.autoEnabled
    · rw [setNode_mReadReady]
      exact h.mReadReady
    · rw [FileExecuting.fd, node_setNode_self]
      exact h.fdRead
    · rw [node_setNode_self]
      exact h.autoDone
  · next hnpos =>
    rw [if_neg hnpos] at hround
    exact .inr ⟨hround.1, h', hround.2 hread.1, hchunks.trans hread.2⟩

/-- After a call there is more, or the end. -/
theorem Fed.autoSink (h : Fed n S stream fe w)
    (hlen : ∀ c ∈ stream, 1 ≤ c.length ∧ c.length ≤ 22) :
    wp (Program.given (answer stream)) (autoSink n) (fun _ fe' w' =>
      Fed n S stream fe' w' ∧ w.chunks.length < w'.chunks.length ∨
        Inv n S fe' w' ∧ Ended n stream fe' w') fe w := by
  simp only [FileExecuting.autoSink, Program.wp_ite, Program.wp_bind, Program.wp_get,
    Program.wp_pure, h.autoEnabled, h.autoDone]
  -- only before the first of the 23 rounds there is nothing more yet
  refine Program.wp_rounds (fun rounds _ fe' w' => Fed n S stream fe' w' ∧
    w.chunks.length ≤ w'.chunks.length ∧ (rounds = 23 ∨ w.chunks.length < w'.chunks.length))
    ?_ ?_ ⟨h, le_rfl, .inl rfl⟩
  · rintro rounds _ fe₁ w₁ ⟨h₁, hle, -⟩
    refine wp_mono (h₁.autoSinkRound hlen) ?_
    rintro r fe₂ w₂ (⟨h₂, hmore⟩ | ⟨rfl, hended⟩)
    · have hlt := Nat.lt_of_le_of_lt hle hmore
      cases r with
      | inl _ => exact ⟨h₂, Nat.le_of_lt hlt, .inr hlt⟩
      | inr _ => exact .inl ⟨h₂, hlt⟩
    · exact .inr hended
  · rintro _ fe₁ w₁ ⟨h₁, -, hnone | hmore⟩
    · cases hnone
    · exact .inl ⟨h₁, hmore⟩

/-- Calls of `autoSink` bring all of the stream. -/
theorem Fed.reach (h : Fed n S stream fe w) (hlen : ∀ c ∈ stream, 1 ≤ c.length ∧ c.length ≤ 22)
    (hr : Reachable (Start n S) (Step n) (fe, w)) :
    ∃ s, Reachable (Start n S) (Step n) s ∧ Ended n stream s.1 s.2 := by
  induction hleft : stream.length - w.chunks.length using Nat.strong_induction_on
    generalizing fe w with
  | _ left ih =>
    obtain ⟨_, fe', w', hexec, hw'⟩ := Program.exec_given (sys_answer stream) (h.autoSink hlen)
    have hr' := hr.next (.autoSink hexec)
    rcases hw' with ⟨h', hmore⟩ | ⟨-, hended⟩
    · have hle := h'.chunks.length_le
      exact ih _ (by omega) h' hr' rfl
    · exact ⟨(fe', w'), hr', hended⟩

/-- Some descriptor is none of these. -/
theorem exists_fresh (fds : List FeFileDescSetting) :
    ∃ fd : Int, 0 ≤ fd ∧ ∀ f ∈ fds, f.fd < fd := by
  induction fds with
  | nil => exact ⟨0, Int.le_refl 0, fun f hf => absurd hf List.not_mem_nil⟩
  | cons f fds ih =>
    obtain ⟨fd, hpos, hfd⟩ := ih
    refine ⟨max fd (f.fd + 1), by omega, fun f' hf' => ?_⟩
    rcases List.mem_cons.mp hf' with rfl | hf'
    · omega
    · have hlt := hfd f' hf'
      omega

/-- Every stream is read to its end in some run. -/
theorem exists_ended (n : NodeSel) (S : SinkSet)
    (hlen : ∀ c ∈ stream, 1 ≤ c.length ∧ c.length ≤ 22) :
    ∃ s, Reachable (Start n S) (Step n) s ∧ Ended n stream s.1 s.2 := by
  obtain ⟨fd, hpos, hfd⟩ := exists_fresh S.fds
  let v : FeNode := {
    pipe := { fdRead := fd }
    lstBuffers := S.buffers.map fun b => { pDest := some b.1, len := b.2 }
    lstStrings := S.strings
    lstFds := S.fds
    lstTransfers := S.transfers
    autoEnabled := true }
  let fe : FileExecuting := ({ mReadReady := true } : FileExecuting).setNode n v
  have hnode : fe.node n = v := node_setNode_self ..
  have hread : fe.fd n .fdRead = fd := by rw [FileExecuting.fd, hnode]; rfl
  have hstart : Start n S (fe, {}) := {
    world := rfl
    autoEnabled := by rw [hnode]
    autoDone := by rw [hnode]
    lstBuffers := by rw [hnode]
    lstStrings := by rw [hnode]
    lstFds := by rw [hnode]
    lstTransfers := by rw [hnode]
    pipe := fun f hf he => Int.ne_of_lt (hfd f hf) (he.trans hread) }
  have hfed : Fed n S stream fe {} := {
    inv := hstart.inv
    autoEnabled := hstart.autoEnabled
    mReadReady := setNode_mReadReady ..
    fdRead := by rw [hread]; exact Int.not_lt.mpr hpos
    autoDone := hstart.autoDone
    chunks := List.nil_prefix }
  exact hfed.reach hlen (.start hstart)

/-! ## The result -/

/-- A stream with these lengths whose first byte does not come again. -/
def marked : List Nat → List Bytes
  | [] => []
  | l :: ls => (1 :: List.replicate (l - 1) 0) :: ls.map (List.replicate · 0)

theorem marked_length {ls : List Nat} (h : ∀ l ∈ ls, 1 ≤ l) :
    (marked ls).map List.length = ls := by
  cases ls with
  | nil => rfl
  | cons l ls =>
    have hl := h l List.mem_cons_self
    rw [marked, List.map_cons, List.length_cons, List.length_replicate, Nat.sub_add_cancel hl,
      List.map_map]
    congr 1
    exact (List.map_congr_left fun l _ => List.length_replicate).trans (List.map_id ls)

/-- The sinks all get every stream with chunks of these lengths, in every run, if and only if
its first chunk fills what has to be filled. -/
theorem fannedOut_iff (n : NodeSel) (S : SinkSet) (ls : List Nat)
    (hls : ∀ l ∈ ls, 1 ≤ l ∧ l ≤ 22) :
    (∀ s, Reachable (Start n S) (Step n) s → (s.1.node n).autoDone = true →
      s.2.chunks.map List.length = ls → FannedOut S s.2) ↔ S.FilledAtOnce ls := by
  constructor
  · intro hall
    have hmap := marked_length fun l hl => (hls l hl).1
    have hlen : ∀ c ∈ marked ls, 1 ≤ c.length ∧ c.length ≤ 22 := fun c hc =>
      hls _ (hmap ▸ List.mem_map_of_mem hc)
    obtain ⟨s, hs, hdone, hchunks⟩ := exists_ended n S hlen
    rw [← hchunks] at hmap
    have hfan := hall s hs hdone hmap
    cases ls with
    | nil => trivial
    | cons l ls =>
      rw [← hmap]
      refine (reachable_inv hs).filledAtOnce hchunks ?_ hfan
      simp only [List.mem_flatten, List.mem_map]
      rintro ⟨_, ⟨l', -, rfl⟩, hmem⟩
      exact absurd (List.eq_of_mem_replicate hmem) (by decide)
  · rintro hf s hs hdone rfl
    exact (reachable_inv hs).fannedOut hdone hf

/-- One sink of each kind; two bytes fill the buffer. -/
def oneOfEach : SinkSet where
  buffers := [(0, 2)]
  strings := [0]
  fds := [⟨7, true⟩]
  transfers := [.user 0]
  buffers_nodup := by decide
  strings_nodup := by decide
  fds_nodup := by decide
  fds_nonneg := by decide
  transfers_nodup := by decide

/-- `"ab"` and `"c"` get to all of them. -/
theorem fannedOut_oneOfEach :
    ∃ s, Reachable (Start .nodeOut oneOfEach) (Step .nodeOut) s ∧
      Ended .nodeOut [[97, 98], [99]] s.1 s.2 ∧ FannedOut oneOfEach s.2 := by
  have hlen : ∀ c ∈ ([[97, 98], [99]] : List Bytes), 1 ≤ c.length ∧ c.length ≤ 22 := by decide
  obtain ⟨s, hs, hended⟩ := exists_ended .nodeOut oneOfEach hlen
  have hf : oneOfEach.FilledAtOnce [2, 1] := ⟨fun _ => le_rfl, trivial⟩
  have hmap : s.2.chunks.map List.length = [2, 1] := by rw [hended.2]; rfl
  have hall := (fannedOut_iff .nodeOut oneOfEach [2, 1] (by decide)).mpr hf
  exact ⟨s, hs, hended, hall s hs hended.1 hmap⟩

/-- A buffer of four bytes and a string. -/
def fourAndString : SinkSet where
  buffers := [(0, 4)]
  strings := [0]
  fds := []
  transfers := []
  buffers_nodup := by decide
  strings_nodup := by decide
  fds_nodup := by decide
  fds_nonneg := by decide
  transfers_nodup := by decide

/-- The string gets nothing of `"hi"`. -/
theorem fannedOut_fails :
    ∃ s, Reachable (Start .nodeOut fourAndString) (Step .nodeOut) s ∧
      Ended .nodeOut [[104, 105]] s.1 s.2 ∧ s.2.got (.buffer 0) = [104, 105] ∧
      s.2.got (.string 0) = [] ∧ ¬ FannedOut fourAndString s.2 := by
  have hlen : ∀ c ∈ ([[104, 105]] : List Bytes), 1 ≤ c.length ∧ c.length ≤ 22 := by decide
  obtain ⟨s, hs, hended⟩ := exists_ended .nodeOut fourAndString hlen
  have h := reachable_inv hs
  have hchunks := hended.2
  have hbuffer := h.copied.1
  have hstring := h.others (.string 0) (by decide)
  rw [hchunks] at hbuffer hstring
  refine ⟨s, hs, hended, hbuffer, hstring, fun hfan => ?_⟩
  have hgot := hfan.strings 0 (by decide)
  rw [hchunks, hstring] at hgot
  cases hgot

end FanOut

end FileExecuting

end ProcessingCommon

import Mathlib.Data.List.Nodup
import ProcessingCommon.FileExecuting.Container
import ProcessingCommon.Lib.Transition

/-!
# What each of many sinks gets

The ticks of `autoSink` on one output with any number of sinks. A buffer that a chunk does not
fill ends the tick before the sinks behind it have had that chunk: they get what comes from the
filling chunk on (`behind`). So all sinks get everything only if each buffer with a sink
behind it is full after the first chunk.
-/

namespace ProcessingCommon

namespace FileExecuting

namespace FanOut

open Program (wp Exec rounds each wp_mono wp_seq)
open Transition (Reachable)

/-- The sinks of an output, all different. A buffer is its memory and its size. -/
structure SinkSet where
  buffers : List (Nat × Nat)
  strings : List Nat
  fds : List FeFileDescSetting
  transfers : List Transfering
  buffers_nodup : (buffers.map Prod.fst).Nodup
  strings_nodup : strings.Nodup
  fds_nodup : (fds.map FeFileDescSetting.fd).Nodup
  fds_nonneg : ∀ f ∈ fds, 0 ≤ f.fd
  transfers_nodup : transfers.Nodup

inductive Sink
  | buffer (pDest : Nat)
  | string (str : Nat)
  | fd (fd : Int)
  | transfer (pTrans : Transfering)
deriving DecidableEq

/-- What was read from the pipe, what the sinks have been given, and what was closed and done. -/
structure Os where
  chunks : List Bytes := []
  got : Sink → Bytes := fun _ => []
  closed : List Int := []
  dones : List Transfering := []

namespace Os

def put (w : Os) (s : Sink) (d : Bytes) : Os :=
  { w with got := Function.update w.got s (w.got s ++ d) }

def putAll (w : Os) (l : List Sink) (d : Bytes) : Os :=
  { w with got := fun s => if s ∈ l then w.got s ++ d else w.got s }

/-- `memcpy` to a buffer. -/
def copy (w : Os) (pDest offs : Nat) (d : Bytes) : Os :=
  let old := w.got (.buffer pDest)
  let new := old.take offs ++ d ++ old.drop (offs + d.length)
  { w with got := Function.update w.got (.buffer pDest) new }

end Os

/-- A system that answers in any way: chunks of any data, would block, errors. -/
def sys (w : Os) : (k : Call) → Answer k → Os → Prop
  | .read _ len, r, w' =>
    match r with
    | .data (b :: d) => (b :: d).length ≤ len ∧ w' = { w with chunks := w.chunks ++ [b :: d] }
    | _ => w' = w
  | .memcpy pDest offs d, _, w' => w' = w.copy pDest offs d
  | .append str d, _, w' => w' = w.put (.string str) d
  | .write fd d, _, w' => w' = w.put (.fd fd) d
  | .transSend pTrans d, _, w' => w' = w.put (.transfer pTrans) d
  | .close fd, _, w' => w' = { w with closed := w.closed ++ [fd] }
  | .doneSet pTrans, _, w' => w' = { w with dones := w.dones ++ [pTrans] }
  | _, _, w' => w' = w

/-! ## Runs -/

/-- A node with these sinks that has not given anything to them. The descriptor of its pipe is no
descriptor of the user. -/
structure Start (n : NodeSel) (S : SinkSet) (s : FileExecuting × Os) : Prop where
  world : s.2 = {}
  autoEnabled : (s.1.node n).autoEnabled = true
  autoDone : (s.1.node n).autoDone = false
  lstBuffers : (s.1.node n).lstBuffers = S.buffers.map fun b => { pDest := some b.1, len := b.2 }
  lstStrings : (s.1.node n).lstStrings = S.strings
  lstFds : (s.1.node n).lstFds = S.fds
  lstTransfers : (s.1.node n).lstTransfers = S.transfers
  pipe : ∀ f ∈ S.fds, f.fd ≠ s.1.fd n .fdRead

inductive Move
  | autoSink
  | other

/-- A tick of `autoSink`; between them the command changes, but for this node. -/
inductive Step (n : NodeSel) : FileExecuting × Os → Move → FileExecuting × Os → Prop
  | autoSink {fe fe' : FileExecuting} {w w' : Os} :
      Exec sys (autoSink n) fe w () fe' w' → Step n (fe, w) .autoSink (fe', w')
  | other {fe fe' : FileExecuting} {w : Os} :
      fe'.node n = fe.node n → Step n (fe, w) .other (fe', w)

/-! ## What is wanted -/

/-- Every sink has got the stream, as far as it has room, and is told of its end once. -/
structure FannedOut (S : SinkSet) (w : Os) : Prop where
  buffers : ∀ b ∈ S.buffers, w.got (.buffer b.1) = w.chunks.flatten.take b.2
  strings : ∀ str ∈ S.strings, w.got (.string str) = w.chunks.flatten
  fds : ∀ f ∈ S.fds, w.got (.fd f.fd) = w.chunks.flatten
  transfers : ∀ pTrans ∈ S.transfers, w.got (.transfer pTrans) = w.chunks.flatten
  closed : ∀ f ∈ S.fds, f.autoClose = true → w.closed.count f.fd = 1
  dones : ∀ pTrans ∈ S.transfers, w.dones.count pTrans = 1

/-- The sinks behind the buffers. -/
def SinkSet.others (S : SinkSet) : List Sink :=
  S.strings.map .string ++ (S.fds.map (fun f => .fd f.fd) ++ S.transfers.map .transfer)

/-- The first chunk fills every buffer that has a sink with room behind it; `more` are the sinks
behind the buffers. -/
def Fills (first : Nat) (more : Prop) : List (Nat × Nat) → Prop
  | [] => True
  | b :: bs => ((more ∨ ∃ b' ∈ bs, 0 < b'.2) → b.2 ≤ first) ∧ Fills first more bs

/-- The lengths of the chunks are those of a stream that all sinks get. -/
def SinkSet.FilledAtOnce (S : SinkSet) : List Nat → Prop
  | [] => True
  | first :: _ => Fills first (S.others ≠ []) S.buffers

/-! ## Behind a buffer -/

/-- The chunks that get past a buffer with room for `len` bytes. -/
def behind : Nat → List Bytes → List Bytes
  | _, [] => []
  | len, c :: cs => if len ≤ c.length then c :: cs else behind (len - c.length) cs

/-- The chunks that get past all of these buffers. -/
def arrived (bs : List (Nat × Nat)) (cs : List Bytes) : List Bytes :=
  bs.foldl (fun cs b => behind b.2 cs) cs

/-- The buffers after these chunks. -/
def filled : List (Nat × Nat) → List Bytes → List FeNodeBuffer
  | [], _ => []
  | b :: bs, cs =>
    { pDest := some b.1, len := b.2, processed := min b.2 cs.flatten.length } ::
      filled bs (behind b.2 cs)

/-- The memory of the buffers after these chunks. -/
def Copied (got : Sink → Bytes) : List (Nat × Nat) → List Bytes → Prop
  | [], _ => True
  | b :: bs, cs => got (.buffer b.1) = cs.flatten.take b.2 ∧ Copied got bs (behind b.2 cs)

variable {n : NodeSel} {S : SinkSet} {fe fe' : FileExecuting} {w w' : Os} {len : Nat} {c : Bytes}
  {cs : List Bytes} {bs : List (Nat × Nat)}

theorem behind_short (h : cs.flatten.length < len) : behind len cs = [] := by
  induction cs generalizing len with
  | nil => rfl
  | cons c cs ih =>
    rw [List.flatten_cons, List.length_append] at h
    rw [behind, if_neg (by omega)]
    exact ih (by omega)

/-- A further chunk gets past the buffer if it fills it, or the buffer is full. -/
theorem behind_concat (h : len ≤ cs.flatten.length + c.length) :
    behind len (cs ++ [c]) = behind len cs ++ [c] := by
  induction cs generalizing len with
  | nil =>
    rw [List.flatten_nil, List.length_nil, Nat.zero_add] at h
    exact if_pos h
  | cons d cs ih =>
    rw [List.flatten_cons, List.length_append] at h
    rw [List.cons_append, behind, behind]
    split
    · rfl
    · exact ih (by omega)

/-! ## One chunk for the buffers -/

theorem Copied.congr {got got' : Sink → Bytes} (h : Copied got bs cs)
    (hgot : ∀ b ∈ bs, got' (.buffer b.1) = got (.buffer b.1)) : Copied got' bs cs := by
  induction bs generalizing cs with
  | nil => trivial
  | cons b bs ih =>
    refine ⟨(hgot b List.mem_cons_self).trans h.1, ih h.2 fun b' hb' => ?_⟩
    exact hgot b' (List.mem_cons_of_mem _ hb')

theorem flatten_concat (cs : List Bytes) (c : Bytes) : (cs ++ [c]).flatten = cs.flatten ++ c := by
  rw [List.flatten_append, List.flatten_singleton]

/-- What is copied to a buffer that was not full continues what it has. -/
theorem copy_got {pDest : Nat} (hlen : cs.flatten.length < len)
    (h : w.got (.buffer pDest) = cs.flatten.take len) :
    (w.copy pDest cs.flatten.length (c.take (min c.length (len - cs.flatten.length)))).got
      (.buffer pDest) = (cs ++ [c]).flatten.take len := by
  have hall : cs.flatten.take len = cs.flatten := List.take_of_length_le (Nat.le_of_lt hlen)
  rw [hall] at h
  refine (Function.update_self ..).trans ?_
  rw [h, List.take_length, List.drop_of_length_le (by omega),
    List.append_nil, flatten_concat, List.take_append, hall]
  congr 1
  rw [Nat.min_comm, ← List.take_take, List.take_length]

/-- A chunk has gone along the buffers: all the way, or to the first one that it has not filled. -/
structure Passed (bs : List (Nat × Nat)) (cs : List Bytes) (c : Bytes) (w : Os)
    (r : List FeNodeBuffer × Bool) (w' : Os) : Prop where
  buffers : r.1 = filled bs (cs ++ [c])
  arrived : FanOut.arrived bs (cs ++ [c]) =
    if r.2 then FanOut.arrived bs cs ++ [c] else FanOut.arrived bs cs
  copied : Copied w'.got bs (cs ++ [c])
  frame : ∀ s, (∀ b ∈ bs, s ≠ .buffer b.1) → w'.got s = w.got s
  rest : w' = { w with got := w'.got }

/-- The chunk goes on behind the first buffer, whose memory is as it should be. -/
theorem Passed.cons {b : Nat × Nat} {r : List FeNodeBuffer × Bool} {w₁ : Os}
    (hnd : (List.map Prod.fst (b :: bs)).Nodup) (hlen : b.2 ≤ cs.flatten.length + c.length)
    (hgot : w₁.got (.buffer b.1) = (cs ++ [c]).flatten.take b.2)
    (hframe : ∀ s, s ≠ .buffer b.1 → w₁.got s = w.got s) (hrest : w₁ = { w with got := w₁.got })
    (h : Passed bs (behind b.2 cs) c w₁ r w') :
    Passed (b :: bs) cs c w ({ pDest := some b.1, len := b.2, processed := b.2 } :: r.1, r.2)
      w' := by
  have hbehind := behind_concat hlen
  have hnot : ∀ b' ∈ bs, Sink.buffer b.1 ≠ .buffer b'.1 := by
    intro b' hb' he
    have hmem : b.1 ∈ bs.map Prod.fst := (Sink.buffer.inj he) ▸ List.mem_map_of_mem hb'
    exact (List.nodup_cons.mp hnd).1 hmem
  refine ⟨?_, ?_, ⟨?_, ?_⟩, fun s hs => ?_, ?_⟩
  · rw [filled, hbehind, h.buffers, flatten_concat, List.length_append, Nat.min_eq_left hlen]
  · rw [FanOut.arrived, List.foldl_cons, hbehind]
    exact h.arrived
  · rw [h.frame _ hnot, hgot]
  · rw [hbehind]
    exact h.copied
  · rw [h.frame s fun b' hb' => hs b' (List.mem_cons_of_mem _ hb')]
    exact hframe s (hs b List.mem_cons_self)
  · rw [h.rest, hrest]

theorem autoSinkBuffers_spec (hnd : (bs.map Prod.fst).Nodup) (h : Copied w.got bs cs) :
    wp sys (autoSinkBuffers c (filled bs cs)) (fun r fe' w' => fe' = fe ∧ Passed bs cs c w r w')
      fe w := by
  induction bs generalizing cs w with
  | nil => exact ⟨rfl, rfl, rfl, trivial, fun _ _ => rfl, rfl⟩
  | cons b bs ih =>
    have hnd' := (List.nodup_cons.mp hnd).2
    rw [filled, autoSinkBuffers]
    simp only [Program.wp_ite, Program.wp_bind, Program.wp_perform, Program.wp_pure]
    split
    · next hfull =>
      have hle : b.2 ≤ cs.flatten.length := by omega
      refine wp_mono (ih hnd' h.2) ?_
      rintro r fe' w' ⟨rfl, hr⟩
      have hgot : w.got (.buffer b.1) = (cs ++ [c]).flatten.take b.2 := by
        rw [h.1, flatten_concat, List.take_append_of_le_length hle]
      rw [Nat.min_eq_left hle]
      exact ⟨rfl, hr.cons hnd (by omega) hgot (fun _ _ => rfl) rfl⟩
    · next hfree =>
      have hlt : cs.flatten.length < b.2 := by omega
      have hmin : min b.2 cs.flatten.length = cs.flatten.length := by omega
      have hbehind := behind_short hlt
      rw [hmin]
      rintro _ w₁ rfl
      have hgot := copy_got (c := c) hlt h.1
      have hframe : ∀ s, s ≠ .buffer b.1 → (w.copy b.1 cs.flatten.length
          (c.take (min c.length (b.2 - cs.flatten.length)))).got s = w.got s := fun s hs =>
        Function.update_of_ne hs ..
      generalize hw₁ : w.copy b.1 cs.flatten.length
        (c.take (min c.length (b.2 - cs.flatten.length))) = w₁ at hgot hframe ⊢
      have hrest : w₁ = { w with got := w₁.got } := by rw [← hw₁, Os.copy]
      have hcopied : Copied w₁.got bs (behind b.2 cs) := by
        refine h.2.congr fun b' hb' => hframe _ fun he => ?_
        exact (List.nodup_cons.mp hnd).1 (Sink.buffer.inj he ▸ List.mem_map_of_mem hb')
      split
      · next hshort =>
        have hlt' : (cs ++ [c]).flatten.length < b.2 := by
          rw [flatten_concat, List.length_append]
          omega
        refine ⟨trivial, ?_, ?_, ⟨hgot, ?_⟩, fun s hs => hframe s (hs b List.mem_cons_self), hrest⟩
        · rw [filled, behind_short hlt', flatten_concat, List.length_append, hbehind]
          have hsum : cs.flatten.length + min c.length (b.2 - cs.flatten.length) =
            min b.2 (cs.flatten.length + c.length) := by omega
          rw [hsum]
        · rw [FanOut.arrived, List.foldl_cons, behind_short hlt', ← hbehind]
          rfl
        · rw [behind_short hlt', ← hbehind]
          exact hcopied
      · next hlong =>
        refine wp_mono (ih hnd' hcopied) ?_
        rintro r fe' w' ⟨rfl, hr⟩
        have hsum : cs.flatten.length + min c.length (b.2 - cs.flatten.length) = b.2 := by omega
        rw [hsum]
        exact ⟨rfl, hr.cons hnd (by omega) hgot hframe hrest⟩

/-! ## One chunk for the others -/

theorem put_putAll {s : Sink} {l : List Sink} (h : s ∉ l) :
    (w.put s c).putAll l c = w.putAll (s :: l) c := by
  rw [Os.put, Os.putAll, Os.putAll]
  congr 1
  funext s'
  dsimp only
  by_cases hs : s' = s
  · subst hs
    rw [if_neg h, if_pos List.mem_cons_self, Function.update_self]
  · rw [Function.update_of_ne hs]
    simp only [List.mem_cons, hs, false_or]

theorem putAll_append {l l' : List Sink} (h : ∀ s ∈ l, s ∉ l') :
    (w.putAll l c).putAll l' c = w.putAll (l ++ l') c := by
  rw [Os.putAll, Os.putAll, Os.putAll]
  congr 1
  funext s
  simp only [List.mem_append]
  by_cases hs : s ∈ l
  · rw [if_neg (h s hs), if_pos hs, if_pos (.inl hs)]
  · simp only [hs, false_or, if_false]

theorem each_put {ε : Type} {l : List ε} {sink : ε → Sink} {body : ε → Fe Unit}
    (hbody : ∀ e fe w, wp sys (body e) (fun _ fe' w' => fe' = fe ∧ w' = w.put (sink e) c) fe w)
    (hnd : (l.map sink).Nodup) :
    wp sys (each l body) (fun _ fe' w' => fe' = fe ∧ w' = w.putAll (l.map sink) c) fe w := by
  induction l generalizing w with
  | nil => exact ⟨rfl, rfl⟩
  | cons e l ih =>
    have hcons := List.nodup_cons.mp hnd
    refine wp_seq (hbody e fe w) ?_
    rintro _ _ _ ⟨rfl, rfl⟩
    refine wp_mono (ih hcons.2) ?_
    rintro _ _ _ ⟨rfl, rfl⟩
    exact ⟨rfl, put_putAll hcons.1⟩

theorem autoSinkOthers_spec (hstr : (fe.node n).lstStrings = S.strings)
    (hfds : (fe.node n).lstFds = S.fds) (htrans : (fe.node n).lstTransfers = S.transfers) :
    wp sys (autoSinkOthers n c) (fun _ fe' w' => fe' = fe ∧ w' = w.putAll S.others c) fe w := by
  have hnodup : (S.strings.map Sink.string).Nodup :=
    S.strings_nodup.map fun _ _ h => Sink.string.inj h
  have hnodup' : (S.fds.map fun f => Sink.fd f.fd).Nodup := by
    have h := S.fds_nodup.map (f := Sink.fd) fun _ _ h => Sink.fd.inj h
    rwa [List.map_map] at h
  have hnodup'' : (S.transfers.map Sink.transfer).Nodup :=
    S.transfers_nodup.map fun _ _ h => Sink.transfer.inj h
  rw [autoSinkOthers, Program.wp_bind, Program.wp_get]
  dsimp only
  rw [hstr, hfds, htrans]
  refine wp_seq (each_put (c := c) ?_ hnodup) ?_
  · rintro str fe w _ _ rfl
    exact ⟨rfl, rfl⟩
  rintro _ _ _ ⟨rfl, rfl⟩
  refine wp_seq (each_put (c := c) ?_ hnodup') ?_
  · rintro f fe w _ _ rfl
    exact ⟨rfl, rfl⟩
  rintro _ _ _ ⟨rfl, rfl⟩
  refine wp_mono (each_put (c := c) ?_ hnodup'') ?_
  · rintro pTrans fe w _ _ rfl
    exact ⟨rfl, rfl⟩
  rintro _ _ _ ⟨rfl, rfl⟩
  refine ⟨rfl, ?_⟩
  rw [putAll_append, putAll_append]
  · rfl
  · simp only [List.mem_append, List.mem_map]
    rintro _ ⟨str, -, rfl⟩ (⟨f, -, h⟩ | ⟨pTrans, -, h⟩) <;> cases h
  · simp only [List.mem_map]
    rintro _ ⟨f, -, rfl⟩ ⟨pTrans, -, h⟩
    cases h

/-! ## The invariant -/

/-- How often the end was reported. -/
def told (v : FeNode) : Nat := if v.autoDone then 1 else 0

structure Inv (n : NodeSel) (S : SinkSet) (fe : FileExecuting) (w : Os) : Prop where
  lstBuffers : (fe.node n).lstBuffers = filled S.buffers w.chunks
  lstStrings : (fe.node n).lstStrings = S.strings
  lstFds : (fe.node n).autoDone = false → (fe.node n).lstFds = S.fds
  lstTransfers : (fe.node n).lstTransfers = S.transfers
  pipe : ∀ f ∈ S.fds, f.fd ≠ fe.fd n .fdRead
  copied : Copied w.got S.buffers w.chunks
  others : ∀ s ∈ S.others, w.got s = (arrived S.buffers w.chunks).flatten
  closed : ∀ f ∈ S.fds, f.autoClose = true → w.closed.count f.fd = told (fe.node n)
  dones : ∀ pTrans ∈ S.transfers, w.dones.count pTrans = told (fe.node n)

theorem mem_others {s : Sink} : s ∈ S.others ↔ (∃ str ∈ S.strings, .string str = s) ∨
    (∃ f ∈ S.fds, .fd f.fd = s) ∨ ∃ pTrans ∈ S.transfers, .transfer pTrans = s := by
  simp only [SinkSet.others, List.mem_append, List.mem_map]

theorem buffer_not_mem_others (pDest : Nat) : Sink.buffer pDest ∉ S.others := by
  simp [SinkSet.others]

/-- The read end of the pipe is closed. -/
theorem Inv.readClosed (h : Inv n S fe w) :
    wp sys (fdCloseAt n .fdRead) (fun _ fe' w' => Inv n S fe' w' ∧
      (fe'.node n).autoDone = (fe.node n).autoDone) fe w := by
  refine wp_fdCloseAt (fun _ => ⟨h, rfl⟩) ?_
  rintro - _ _ rfl
  have hnode : (fe.setFd n .fdRead (-1)).node n =
      { fe.node n with pipe := (fe.node n).pipe.set .fdRead (-1) } := by
    cases n <;> rfl
  refine ⟨?_, by rw [hnode]⟩
  exact {
    lstBuffers := by rw [hnode]; exact h.lstBuffers
    lstStrings := by rw [hnode]; exact h.lstStrings
    lstFds := by rw [hnode]; exact h.lstFds
    lstTransfers := by rw [hnode]; exact h.lstTransfers
    pipe := fun f hf => by
      have hpos := S.fds_nonneg f hf
      rw [fd_setFd, if_pos ⟨rfl, rfl⟩]
      omega
    copied := h.copied
    others := h.others
    closed := fun f hf ha => by
      rw [List.count_append, h.closed f hf ha, List.count_singleton,
        if_neg (by simpa using (h.pipe f hf).symm), hnode]
      rfl
    dones := fun pTrans ht => by
      rw [hnode]
      exact h.dones pTrans ht }

/-- A round has nothing, or it has come to the end, or it has a chunk in hand. -/
theorem intSinkRead_spec (h : Inv n S fe w) :
    wp sys (intSinkRead n 22) (fun r fe' w' =>
      if 0 < r.1 then fe' = fe ∧ r.2 ≠ [] ∧ w' = { w with chunks := w.chunks ++ [r.2] }
      else Inv n S fe' w' ∧ (fe'.node n).autoDone = (fe.node n).autoDone) fe w := by
  have hclose : ∀ r : Int, r < 0 → wp sys (do
      fdCloseAt n .fdRead
      return ((r, []) : Int × Bytes)) (fun r fe' w' =>
      if 0 < r.1 then fe' = fe ∧ r.2 ≠ [] ∧ w' = { w with chunks := w.chunks ++ [r.2] }
      else Inv n S fe' w' ∧ (fe'.node n).autoDone = (fe.node n).autoDone) fe w := by
    intro r hr
    refine wp_seq h.readClosed fun _ fe' w' h' => ?_
    rw [Program.wp_pure, if_neg (by dsimp only; omega)]
    exact h'
  simp only [intSinkRead, Program.wp_ite, Program.wp_bind, Program.wp_get, Program.wp_pure,
    Program.wp_perform]
  rw [if_neg (by decide)]
  split
  · rw [if_neg (by decide)]
    exact ⟨h, trivial⟩
  split
  · rw [if_neg (by decide)]
    exact ⟨h, trivial⟩
  intro r w' he
  cases r with
  | data d =>
    cases d with
    | nil =>
      obtain rfl := he
      exact hclose _ (by decide)
    | cons b d =>
      obtain ⟨-, rfl⟩ := he
      rw [Program.wp_pure, if_pos (by simp)]
      exact ⟨rfl, List.cons_ne_nil b d, rfl⟩
  | eagain =>
    obtain rfl := he
    simp only [Program.wp_ite, Program.wp_bind, Program.wp_get]
    split
    · rw [Program.wp_pure, if_neg (by decide)]
      exact ⟨h, rfl⟩
    · rw [← Program.wp_bind]
      exact hclose _ (by decide)
  | error =>
    obtain rfl := he
    exact hclose _ (by decide)

/-! ## The end of the stream -/

theorem autoSinkFdsClose_spec {fds : List FeFileDescSetting} (hpos : ∀ f ∈ fds, 0 ≤ f.fd) :
    wp sys (autoSinkFdsClose fds) (fun _ fe' w' => fe' = fe ∧ w' = { w with
      closed := w.closed ++ (fds.filter (·.autoClose)).map FeFileDescSetting.fd }) fe w := by
  induction fds generalizing w with
  | nil =>
    refine ⟨rfl, ?_⟩
    rw [List.filter_nil, List.map_nil, List.append_nil]
  | cons f fds ih =>
    have hrest : ∀ f' ∈ fds, 0 ≤ f'.fd := fun f' hf' => hpos f' (List.mem_cons_of_mem _ hf')
    have hf := hpos f List.mem_cons_self
    simp only [autoSinkFdsClose, fdClose, Program.wp_bind, Program.wp_ite, Program.wp_pure,
      Program.wp_perform]
    split
    · next hauto =>
      rw [if_neg (by omega)]
      rintro _ _ rfl
      refine wp_mono (ih hrest) ?_
      rintro _ _ _ ⟨rfl, rfl⟩
      rw [List.filter_cons_of_pos hauto, List.map_cons, List.append_assoc]
      exact ⟨rfl, rfl⟩
    · next hauto =>
      refine wp_mono (ih hrest) ?_
      rintro _ _ _ ⟨rfl, rfl⟩
      rw [List.filter_cons_of_neg hauto]
      exact ⟨rfl, rfl⟩

theorem doneSet_spec (l : List Transfering) :
    wp sys (each l fun pTrans => perform (.doneSet pTrans)) (fun _ fe' w' => fe' = fe ∧
      w' = { w with dones := w.dones ++ l }) fe w := by
  induction l generalizing w with
  | nil =>
    refine ⟨rfl, ?_⟩
    rw [List.append_nil]
  | cons pTrans l ih =>
    rw [each, Program.wp_bind, Program.wp_perform]
    rintro _ _ rfl
    refine wp_mono ih ?_
    rintro _ _ _ ⟨rfl, rfl⟩
    rw [List.append_assoc]
    exact ⟨rfl, rfl⟩

theorem autoSinkFinish_inv (h : Inv n S fe w) (hdone : (fe.node n).autoDone = false) :
    wp sys (autoSinkFinish n) (fun _ fe' w' => Inv n S fe' w' ∧ (fe'.node n).autoDone = true ∧
      w'.chunks = w.chunks) fe w := by
  have hnone : told (fe.node n) = 0 := by rw [told, hdone]; rfl
  rw [autoSinkFinish, Program.wp_bind, Program.wp_get, h.lstFds hdone]
  refine wp_seq (autoSinkFdsClose_spec S.fds_nonneg) ?_
  rintro lstFds _ _ ⟨rfl, rfl⟩
  rw [Program.wp_bind, Program.wp_get, h.lstTransfers]
  refine wp_seq (doneSet_spec S.transfers) ?_
  rintro _ fe _ ⟨rfl, rfl⟩
  rw [Program.wp_modify]
  refine ⟨?_, by rw [node_setNode_self], rfl⟩
  exact {
    lstBuffers := by rw [node_setNode_self]; exact h.lstBuffers
    lstStrings := by rw [node_setNode_self]; exact h.lstStrings
    lstFds := fun hd => by rw [node_setNode_self] at hd; cases hd
    lstTransfers := by rw [node_setNode_self]; exact h.lstTransfers
    pipe := fun f hf he => h.pipe f hf (he.trans (fd_setNode _ _ _ _ _ rfl))
    copied := h.copied
    others := h.others
    closed := fun f hf ha => by
      have hnd : ((S.fds.filter (·.autoClose)).map FeFileDescSetting.fd).Nodup :=
        S.fds_nodup.sublist (List.filter_sublist.map _)
      have hmem : f.fd ∈ (S.fds.filter (·.autoClose)).map FeFileDescSetting.fd :=
        List.mem_map_of_mem (List.mem_filter.mpr ⟨hf, ha⟩)
      rw [node_setNode_self, List.count_append, h.closed f hf ha, hnone, hnd.count, if_pos hmem]
      rfl
    dones := fun pTrans ht => by
      rw [node_setNode_self, List.count_append, h.dones pTrans ht, hnone,
        S.transfers_nodup.count, if_pos ht]
      rfl }

/-! ## Rounds -/

/-- A chunk has gone to the sinks. -/
theorem Inv.chunk (h : Inv n S fe w) {r : List FeNodeBuffer × Bool} {w₂ : Os}
    (hp : Passed S.buffers w.chunks c { w with chunks := w.chunks ++ [c] } r w₂)
    (hw : w' = if r.2 then w₂.putAll S.others c else w₂) :
    Inv n S (fe.setNode n { fe.node n with lstBuffers := r.1 }) w' := by
  have hchunks : w'.chunks = w.chunks ++ [c] := by
    rw [hw, hp.rest]
    split <;> rfl
  have hbuffer : ∀ pDest, w'.got (.buffer pDest) = w₂.got (.buffer pDest) := by
    intro pDest
    rw [hw]
    split
    · exact if_neg (buffer_not_mem_others pDest)
    · rfl
  exact {
    lstBuffers := by rw [node_setNode_self, hchunks]; exact hp.buffers
    lstStrings := by rw [node_setNode_self]; exact h.lstStrings
    lstFds := by rw [node_setNode_self]; exact h.lstFds
    lstTransfers := by rw [node_setNode_self]; exact h.lstTransfers
    pipe := fun f hf he => h.pipe f hf (he.trans (fd_setNode _ _ _ _ _ rfl))
    copied := by
      rw [hchunks]
      exact hp.copied.congr fun b _ => hbuffer b.1
    others := fun s hs => by
      have hframe : w₂.got s = w.got s := hp.frame s fun b _ he =>
        buffer_not_mem_others b.1 (he ▸ hs)
      rw [hchunks, hp.arrived, hw]
      split
      · rw [flatten_concat, ← h.others s hs, ← hframe]
        exact if_pos hs
      · rw [← h.others s hs, hframe]
    closed := fun f hf ha => by
      rw [node_setNode_self, hw, hp.rest]
      split <;> exact h.closed f hf ha
    dones := fun pTrans ht => by
      rw [node_setNode_self, hw, hp.rest]
      split <;> exact h.dones pTrans ht }

/-- What a round makes of what it has read. -/
theorem autoSinkRound_spec {env : Os → (k : Call) → Answer k → Os → Prop}
    (henv : ∀ w k r w', env w k r w' → sys w k r w') (h : Inv n S fe w)
    (hdone : (fe.node n).autoDone = false) {R : Int × Bytes → FileExecuting → Os → Prop}
    (hread : wp env (intSinkRead n 22) R fe w) :
    wp env (autoSinkRound n) (fun r fe' w' => Inv n S fe' w' ∧ ∃ read fe₁ w₁, R read fe₁ w₁ ∧
      w'.chunks = w₁.chunks ∧ if 0 < read.1 then
        ∃ lstBuffers, fe' = fe.setNode n { fe.node n with lstBuffers }
      else r = .inr () ∧ (read.1 < 0 → (fe'.node n).autoDone = true)) fe w := by
  refine wp_seq (Program.wp_and (Program.wp_anti henv (intSinkRead_spec h)) hread) ?_
  rintro ⟨lenDone, d⟩ fe₁ w₁ ⟨hr, hR⟩
  simp only [Program.wp_ite, Program.wp_bind, Program.wp_get, Program.wp_pure]
  dsimp only at hr
  split
  · next hzero =>
    have hnpos : ¬ 0 < lenDone := by omega
    rw [if_neg hnpos] at hr
    refine ⟨hr.1, _, _, _, hR, rfl, ?_⟩
    rw [if_neg hnpos]
    refine ⟨trivial, fun hneg => absurd hzero ?_⟩
    exact Int.ne_of_lt hneg
  split
  · next hneg =>
    have hnpos : ¬ 0 < lenDone := by omega
    rw [if_neg hnpos] at hr
    refine wp_mono (Program.wp_anti henv (autoSinkFinish_inv hr.1 (hr.2.trans hdone))) ?_
    rintro _ fe₂ w₂ ⟨h₂, hdone₂, hchunks⟩
    refine ⟨h₂, _, _, _, hR, hchunks, ?_⟩
    rw [if_neg hnpos]
    exact ⟨rfl, fun _ => hdone₂⟩
  next hpos =>
  have hpos' : 0 < lenDone := by omega
  rw [if_pos hpos'] at hr
  obtain ⟨rfl, -, rfl⟩ := hr
  rw [h.lstBuffers]
  refine wp_mono (Program.wp_anti henv (autoSinkBuffers_spec S.buffers_nodup
    (w := { w with chunks := w.chunks ++ [d] }) h.copied)) ?_
  rintro ⟨lstBuffers, ok⟩ fe₂ w₂ ⟨rfl, hp⟩
  have hchunks : w₂.chunks = w.chunks ++ [d] := by rw [hp.rest]
  rw [Program.wp_bind, Program.wp_modify]
  cases ok with
  | false =>
    refine ⟨h.chunk hp rfl, _, _, _, hR, hchunks, ?_⟩
    rw [if_pos hpos']
    exact ⟨_, rfl⟩
  | true =>
    refine wp_seq (Program.wp_anti henv (autoSinkOthers_spec (S := S) ?_ ?_ ?_)) ?_
    · rw [node_setNode_self]
      exact h.lstStrings
    · rw [node_setNode_self]
      exact h.lstFds hdone
    · rw [node_setNode_self]
      exact h.lstTransfers
    rintro _ _ _ ⟨rfl, rfl⟩
    refine ⟨h.chunk hp rfl, _, _, _, hR, hchunks, ?_⟩
    rw [if_pos hpos']
    exact ⟨_, rfl⟩

/-- What holds while the loop goes on, and behind it. -/
theorem autoSinkRound_inv (h : Inv n S fe w) (hdone : (fe.node n).autoDone = false) :
    wp sys (autoSinkRound n) (fun r fe' w' => Inv n S fe' w' ∧
      (r = .inl () → (fe'.node n).autoDone = false)) fe w := by
  refine wp_mono (autoSinkRound_spec (fun _ _ _ _ hr => hr) h hdone (Program.wp_true _)) ?_
  rintro r fe' w' ⟨h', read, -, -, -, -, hround⟩
  refine ⟨h', fun he => ?_⟩
  split at hround
  · obtain ⟨lstBuffers, rfl⟩ := hround
    rw [node_setNode_self]
    exact hdone
  · cases he.symm.trans hround.1

theorem autoSink_inv (h : Inv n S fe w) :
    wp sys (autoSink n) (fun _ fe' w' => Inv n S fe' w') fe w := by
  simp only [autoSink, Program.wp_ite, Program.wp_bind, Program.wp_get, Program.wp_pure]
  split
  · exact h
  split
  · exact h
  next hdone =>
  refine Program.wp_rounds (fun _ _ fe w => Inv n S fe w ∧ (fe.node n).autoDone = false) ?_ ?_
    ⟨h, by simpa using hdone⟩
  · rintro _ _ fe w ⟨h, hdone⟩
    refine wp_mono (autoSinkRound_inv h hdone) ?_
    rintro (_ | _) fe' w' ⟨h', hd⟩
    · exact ⟨h', hd rfl⟩
    · exact h'
  · exact fun _ _ _ h => h.1

theorem Start.inv {s : FileExecuting × Os} (hs : Start n S s) : Inv n S s.1 s.2 := by
  obtain ⟨fe, w⟩ := s
  obtain ⟨rfl, hauto, hdone, hbuffers, hstr, hfds, htrans, hpipe⟩ := hs
  have hnone : told (fe.node n) = 0 := by rw [told, hdone]; rfl
  have hnil : ∀ bs, arrived bs [] = [] := by
    intro bs
    induction bs with
    | nil => rfl
    | cons b bs ih => exact ih
  have hfilled : ∀ bs : List (Nat × Nat),
      bs.map (fun b => ({ pDest := some b.1, len := b.2 } : FeNodeBuffer)) = filled bs [] := by
    intro bs
    induction bs with
    | nil => rfl
    | cons b bs ih =>
      rw [List.map_cons, ih, filled, List.flatten_nil, List.length_nil, Nat.min_zero]
      rfl
  have hcopied : ∀ bs, Copied (fun _ => []) bs [] := by
    intro bs
    induction bs with
    | nil => trivial
    | cons b bs ih => exact ⟨List.take_nil.symm, ih⟩
  exact {
    lstBuffers := hbuffers.trans (hfilled _)
    lstStrings := hstr
    lstFds := fun _ => hfds
    lstTransfers := htrans
    pipe := hpipe
    copied := hcopied _
    others := fun s _ => by rw [hnil]; rfl
    closed := fun _ _ _ => hnone.symm
    dones := fun _ _ => hnone.symm }

theorem reachable_inv {s : FileExecuting × Os} (hs : Reachable (Start n S) (Step n) s) :
    Inv n S s.1 s.2 := by
  refine hs.invariant (P := fun s => Inv n S s.1 s.2) (fun _ h => h.inv) fun s m t h hstep => ?_
  cases hstep with
  | autoSink he => exact Program.wp_iff.mp (autoSink_inv h) _ _ _ he
  | other hnode =>
    exact {
      lstBuffers := by rw [hnode]; exact h.lstBuffers
      lstStrings := by rw [hnode]; exact h.lstStrings
      lstFds := by rw [hnode]; exact h.lstFds
      lstTransfers := by rw [hnode]; exact h.lstTransfers
      pipe := by rw [FileExecuting.fd, hnode]; exact h.pipe
      copied := h.copied
      others := h.others
      closed := by rw [hnode]; exact h.closed
      dones := by rw [hnode]; exact h.dones }

/-! ## Configuration -/

/-- The calls of the user that add these sinks; `ids` are the user's `Transfering`s. -/
def SinkSet.calls (S : SinkSet) (ids : List Nat) (fdSel : Output) : List Config :=
  S.buffers.map (fun b => .sinkAddBuffer b.1 b.2 fdSel) ++
    (S.strings.map (fun str => .sinkAddString str fdSel) ++
      (S.fds.map (fun f => .sinkAddFd f.fd f.autoClose fdSel) ++
        ids.map (fun id => .sinkAddTransfer id fdSel)))

/-- The only command, whose output has been given these sinks. -/
structure Added (fdSel : Output) (buffers : List (Nat × Nat)) (strings : List Nat)
    (fds : List FeFileDescSetting) (ids : List Nat) (c : Container) (pExec : FileExecuting) :
    Prop where
  mLstExec : c.mLstExec = [pExec]
  lstBuffers : (pExec.node fdSel.node).lstBuffers =
    buffers.map fun b => { pDest := some b.1, len := b.2 }
  lstStrings : (pExec.node fdSel.node).lstStrings = strings
  lstFds : (pExec.node fdSel.node).lstFds = fds
  lstTransfers : (pExec.node fdSel.node).lstTransfers = ids.map .user
  autoEnabled : (pExec.node fdSel.node).autoEnabled = true ∨
    buffers = [] ∧ strings = [] ∧ fds = [] ∧ ids = []
  autoDone : (pExec.node fdSel.node).autoDone = false

/-- Calls of one kind, one after the other. -/
theorem foldl_apply {ε : Type} {P : List ε → Container → Prop} (call : ε → Config) {l : List ε}
    (hstep : ∀ pre, ∀ e ∈ l, ∀ c, P pre c → P (pre ++ [e]) (c.apply (call e))) {c : Container}
    (h : P [] c) : P l ((l.map call).foldl Container.apply c) := by
  have hall : ∀ (l' pre : List ε) (c : Container), (∀ e ∈ l', e ∈ l) → P pre c →
      P (pre ++ l') ((l'.map call).foldl Container.apply c) := by
    intro l'
    induction l' with
    | nil =>
      intro pre c _ h
      rw [List.append_nil]
      exact h
    | cons e l' ih =>
      intro pre c hmem h
      have hrest := ih (pre ++ [e]) (c.apply (call e)) (fun e' he' => hmem e' (.tail _ he'))
        (hstep pre e (hmem e (.head _)) c h)
      rwa [List.append_assoc] at hrest
  exact hall l [] c (fun _ he => he) h

variable {fdSel : Output} {buffers : List (Nat × Nat)} {strings : List Nat}
  {fds : List FeFileDescSetting} {ids : List Nat} {c : Container} {pExec : FileExecuting}

/-- A sink more. -/
theorem Added.sinkChange (h : Added fdSel buffers strings fds ids c pExec) (f : FeNode → FeNode) :
    (c.sinkChange fdSel f).mLstExec =
      [pExec.setNode fdSel.node (f (pExec.node fdSel.node))] := by
  rw [Container.sinkChange, h.mLstExec]
  rfl

/-- The calls on a new container make a command with these sinks. -/
theorem added_calls {cmd : String} (hcmd : cmd ≠ "") (S : SinkSet) (ids : List Nat)
    (fdSel : Output) : ∃ pExec, Added fdSel S.buffers S.strings S.fds ids
      (Container.configure (.intCmdAdd cmd :: S.calls ids fdSel)) pExec := by
  have hnew : ∃ pExec, Added fdSel [] [] [] []
      ((({} : Container)).apply (.intCmdAdd cmd)) pExec := by
    refine ⟨{}, ?_, ?_, ?_, ?_, ?_, .inr ⟨rfl, rfl, rfl, rfl⟩, ?_⟩
    · rw [Container.apply, Container.intCmdAdd, if_neg hcmd]
      rfl
    all_goals cases fdSel <;> rfl
  rw [Container.configure, List.foldl_cons, SinkSet.calls, List.foldl_append, List.foldl_append,
    List.foldl_append]
  refine foldl_apply (P := fun l c => ∃ pExec, Added fdSel S.buffers S.strings S.fds l c pExec)
    _ ?_ ?_
  · rintro pre id - c ⟨pExec, h⟩
    refine ⟨_, h.sinkChange _, ?_, ?_, ?_, ?_, ?_, ?_⟩ <;> rw [node_setNode_self]
    · exact h.lstBuffers
    · exact h.lstStrings
    · exact h.lstFds
    · rw [h.lstTransfers, List.map_append]
      rfl
    · exact .inl rfl
    · exact h.autoDone
  refine foldl_apply (P := fun l c => ∃ pExec, Added fdSel S.buffers S.strings l [] c pExec)
    _ ?_ ?_
  · rintro pre f hf c ⟨pExec, h⟩
    rw [Container.apply, Container.sinkAddFd, if_neg (Int.not_lt.mpr (S.fds_nonneg f hf))]
    refine ⟨_, h.sinkChange _, ?_, ?_, ?_, ?_, ?_, ?_⟩ <;> rw [node_setNode_self]
    · exact h.lstBuffers
    · exact h.lstStrings
    · rw [h.lstFds]
    · exact h.lstTransfers
    · exact .inl rfl
    · exact h.autoDone
  refine foldl_apply (P := fun l c => ∃ pExec, Added fdSel S.buffers l [] [] c pExec)
    _ ?_ ?_
  · rintro pre str - c ⟨pExec, h⟩
    refine ⟨_, h.sinkChange _, ?_, ?_, ?_, ?_, ?_, ?_⟩ <;> rw [node_setNode_self]
    · exact h.lstBuffers
    · rw [h.lstStrings]
    · exact h.lstFds
    · exact h.lstTransfers
    · exact .inl rfl
    · exact h.autoDone
  refine foldl_apply (P := fun l c => ∃ pExec, Added fdSel l [] [] [] c pExec)
    _ ?_ hnew
  rintro pre b - c ⟨pExec, h⟩
  refine ⟨_, h.sinkChange _, ?_, ?_, ?_, ?_, ?_, ?_⟩ <;> rw [node_setNode_self]
  · rw [h.lstBuffers, List.map_append]
    rfl
  · exact h.lstStrings
  · exact h.lstFds
  · exact h.lstTransfers
  · exact .inl rfl
  · exact h.autoDone

/-- Such a command is at the start once it has its pipe. -/
theorem Added.start (h : Added fdSel S.buffers S.strings S.fds ids c pExec)
    (hids : S.transfers = ids.map .user) (hsome : S.buffers ≠ [] ∨ S.others ≠ [])
    {fe : FileExecuting} {pipe : FePairFd}
    (hnode : fe.node fdSel.node = { pExec.node fdSel.node with pipe })
    (hpipe : ∀ f ∈ S.fds, f.fd ≠ pipe.fdRead) : Start fdSel.node S (fe, {}) where
  world := rfl
  autoEnabled := by
    rw [hnode]
    rcases h.autoEnabled with hauto | ⟨hbuffers, hstrings, hfds, rfl⟩
    · exact hauto
    · have hothers : S.others = [] := by rw [SinkSet.others, hstrings, hfds, hids]; rfl
      rcases hsome with hne | hne
      · exact absurd hbuffers hne
      · exact absurd hothers hne
  autoDone := by rw [hnode]; exact h.autoDone
  lstBuffers := by rw [hnode]; exact h.lstBuffers
  lstStrings := by rw [hnode]; exact h.lstStrings
  lstFds := by rw [hnode]; exact h.lstFds
  lstTransfers := by rw [hnode]; exact h.lstTransfers.trans hids.symm
  pipe := by rw [FileExecuting.fd, hnode]; exact hpipe

end FanOut

end FileExecuting

end ProcessingCommon

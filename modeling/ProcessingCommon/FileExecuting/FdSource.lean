import ProcessingCommon.FileExecuting.Frame
import ProcessingCommon.Lib.Transition

/-!
# A file descriptor as the source

The calls of `autoSource` with a descriptor of the user. A `read()` that would block is taken for
the end of the file there, as it is not in the branch of a `Transfering` and not in `intSinkRead`;
and the exit of a failed send has no `fdClose`, as the one of the end has.
-/

namespace ProcessingCommon

namespace FileExecuting

namespace FdSource

open Program (wp Exec rounds wp_mono wp_seq)
open Transition (Reachable)

/-- What the system has answered: the results of `read()` on the source, the data that the stdin of
the command has taken, and how often the source has been closed. -/
structure Os where
  reads : List ReadResult := []
  sent : Bytes := []
  closes : Nat := 0

/-- Any results of `read()`, `write()` and `close()`. -/
def sys (src : Int) (w : Os) : (k : Call) → Answer k → Os → Prop
  | .read fd len, r, w' =>
    (∀ d, r = .data d → d.length ≤ len) ∧
      w' = if fd = src then { w with reads := w.reads ++ [r] } else w
  | .write _ data, r, w' =>
    match r with
    | .done n => n ≤ data.length ∧ w' = { w with sent := w.sent ++ data.take n }
    | _ => w' = w
  | .close fd, _, w' => w' = if fd = src then { w with closes := w.closes + 1 } else w
  | _, _, w' => w' = w

/-- The descriptor is the source of a command whose own pipe is another one. -/
structure Start (src : Int) (autoClose : Bool) (s : FileExecuting × Os) : Prop where
  enabled : s.1.mNodeIn.autoEnabled = true
  active : s.1.mNodeIn.autoDone = false
  buffers : s.1.mNodeIn.lstBuffers = []
  files : ∃ fds, s.1.mNodeIn.lstFds = ⟨src, autoClose⟩ :: fds
  fd : 0 ≤ src
  pipe : s.1.fd .nodeIn .fdWrite ≠ src
  os : s.2 = {}

/-- A call of `autoSource`. -/
def Step (src : Int) (s : FileExecuting × Os) (_ : Unit) (t : FileExecuting × Os) : Prop :=
  Exec (sys src) autoSource s.1 s.2 () t.1 t.2

def bytes : ReadResult → Bytes
  | .data d => d
  | _ => []

/-- The data that was read. -/
def got (rs : List ReadResult) : Bytes := rs.flatMap bytes

/-- A source that is declared done has come to its end, or to an error, or some of its data was not
sent; and it has been closed once. -/
def Declared (autoClose : Bool) (s : FileExecuting × Os) : Prop :=
  s.1.mNodeIn.autoDone = true →
    (.data [] ∈ s.2.reads ∨ .error ∈ s.2.reads ∨ got s.2.reads ≠ s.2.sent) ∧
      (autoClose = true → s.2.closes = 1)

/-! ## The phases of a source -/

def Chunk (r : ReadResult) : Prop := ∃ b d, r = .data (b :: d)

theorem not_chunk_eof : ¬ Chunk (.data []) := by
  rintro ⟨_, _, hr⟩
  cases hr

theorem not_chunk_error : ¬ Chunk .error := by
  rintro ⟨_, _, hr⟩
  cases hr

theorem not_chunk_eagain : ¬ Chunk .eagain := by
  rintro ⟨_, _, hr⟩
  cases hr

/-- The source goes on. -/
structure Open (src : Int) (autoClose : Bool) (fe : FileExecuting) (w : Os) : Prop where
  active : fe.mNodeIn.autoDone = false
  buffers : fe.mNodeIn.lstBuffers = []
  files : ∃ fds, fe.mNodeIn.lstFds = ⟨src, autoClose⟩ :: fds
  fd : 0 ≤ src
  pipe : fe.fd .nodeIn .fdWrite ≠ src
  reads : ∀ r ∈ w.reads, Chunk r
  sent : got w.reads = w.sent
  closes : w.closes = 0

/-- What has ended the source: a result of `read()`, or a send. -/
inductive Ended (autoClose : Bool) : Os → Prop
  | read {rs : List ReadResult} {r : ReadResult} {sent : Bytes} : (∀ r ∈ rs, Chunk r) → ¬ Chunk r →
      got (rs ++ [r]) = sent → Ended autoClose ⟨rs ++ [r], sent, if autoClose then 1 else 0⟩
  | send {rs : List ReadResult} {sent : Bytes} : (∀ r ∈ rs, Chunk r) → got rs ≠ sent →
      Ended autoClose ⟨rs, sent, 0⟩

def Inv (src : Int) (autoClose : Bool) (fe : FileExecuting) (w : Os) : Prop :=
  Open src autoClose fe w ∨ fe.mNodeIn.autoDone = true ∧ Ended autoClose w

variable {src : Int} {autoClose : Bool} {fe fe' : FileExecuting} {w w' : Os}
  {rs : List ReadResult} {r : ReadResult} {s t : FileExecuting × Os}

/-- What is left after the descriptor of the pipe has been reset. -/
theorem Open.reset (h : Open src autoClose fe w) (hr : Reset .nodeIn .fdWrite fe fe') :
    Open src autoClose fe' w := by
  rcases hr with rfl | rfl
  · exact h
  · have hneg : (fe.setFd .nodeIn .fdWrite (-1)).fd .nodeIn .fdWrite = -1 := rfl
    have hpos := h.fd
    exact ⟨h.active, h.buffers, h.files, h.fd, by rw [hneg]; omega, h.reads, h.sent, h.closes⟩

theorem fdCloseAt_spec (hfd : fe.fd .nodeIn .fdWrite ≠ src) :
    wp (sys src) (fdCloseAt .nodeIn .fdWrite)
      (fun _ fe' w' => Reset .nodeIn .fdWrite fe fe' ∧ w' = w) fe w := by
  refine wp_fdCloseAt (fun _ => ⟨.inl rfl, rfl⟩) fun _ _ w' he => ⟨.inr rfl, ?_⟩
  rw [show w' = _ from he, if_neg hfd]

/-- A part of the data has been sent, and `intSend` has the length as its result exactly if it is
all of the data. -/
def Sent (fe : FileExecuting) (w : Os) (data : Bytes) (lenDone : Int) (fe' : FileExecuting)
    (w' : Os) : Prop :=
  Reset .nodeIn .fdWrite fe fe' ∧ ∃ m, m ≤ data.length ∧
    w' = { w with sent := w.sent ++ data.take m } ∧ (lenDone = data.length ↔ m = data.length)

theorem intSend_spec (hfd : fe.fd .nodeIn .fdWrite ≠ src) {data : Bytes} (hne : data ≠ []) :
    wp (sys src) (intSend data) (Sent fe w data) fe w := by
  have hlen := List.length_pos_iff.mpr hne
  -- an exit with an error, behind `k` bytes that were sent
  have hfail : ∀ {fe' w'} k, k < data.length → Reset .nodeIn .fdWrite fe fe' →
      w' = { w with sent := w.sent ++ data.take k } → Sent fe w data (-1) fe' w' :=
    fun k hk hr hw => ⟨hr, k, Nat.le_of_lt hk, hw, by omega⟩
  have hzero : w = { w with sent := w.sent ++ data.take 0 } := by
    rw [List.take_zero, List.append_nil]
  have hall : ∀ {fe' w'} k, k = data.length → Reset .nodeIn .fdWrite fe fe' →
      w' = { w with sent := w.sent ++ data.take k } → Sent fe w data k fe' w' :=
    fun k hk hr hw => ⟨hr, k, Nat.le_of_eq hk, hw, by omega⟩
  rw [intSend, Program.wp_ite, if_neg hne, Program.wp_bind, Program.wp_get, Program.wp_ite]
  split
  · exact hfail 0 hlen (.inl rfl) hzero
  rw [Program.wp_bind, Program.wp_get, Program.wp_ite]
  split
  · exact hfail 0 hlen (.inl rfl) hzero
  refine Program.wp_rounds (fun n left fe' w' => fe' = fe ∧ ∃ k, k ≤ data.length ∧
    left = (data.drop k, k) ∧ data.length - k ≤ n ∧
    w' = { w with sent := w.sent ++ data.take k }) ?_ ?_
    ⟨rfl, 0, Nat.zero_le _, rfl, Nat.le_refl _, hzero⟩
  · rintro n _ _ _ ⟨rfl, k, hk, rfl, hn, rfl⟩
    rw [intSendRound, Program.wp_ite]
    split
    · next hnil => exact hall k (Nat.le_antisymm hk (List.drop_eq_nil_iff.mp hnil)) (.inl rfl) rfl
    next hleft =>
    have hk' : k < data.length := Nat.lt_of_not_le fun hle => hleft (List.drop_eq_nil_iff.mpr hle)
    rw [Program.wp_bind, Program.wp_get, Program.wp_bind, Program.wp_perform]
    intro r w' he
    cases r with
    | done n =>
      obtain ⟨hm, rfl⟩ := he
      cases n with
      | zero => exact ⟨.inl rfl, k, hk, by rw [List.take_zero, List.append_nil], by omega⟩
      | succ m =>
        rw [List.length_drop] at hm
        have htake : data.take k ++ (data.drop k).take (m + 1) = data.take (k + (m + 1)) :=
          (List.take_add ..).symm
        refine ⟨rfl, k + (m + 1), by omega, ?_, by omega, ?_⟩
        · rw [List.drop_drop]
        · dsimp only
          rw [List.append_assoc, htake]
    | eagain =>
      obtain rfl : w' = _ := he
      refine wp_seq (fdCloseAt_spec hfd) fun _ fe' w' h => ?_
      exact hfail k hk' h.1 h.2
    | error =>
      obtain rfl : w' = _ := he
      refine wp_seq (fdCloseAt_spec hfd) fun _ fe' w' h => ?_
      exact hfail k hk' h.1 h.2
  · rintro _ _ _ ⟨rfl, k, hk, rfl, hn, rfl⟩
    exact hall k (by omega) (.inl rfl) rfl

theorem autoSourceDone_spec (hfd : fe.fd .nodeIn .fdWrite ≠ src) :
    wp (sys src) autoSourceDone (fun _ fe' w' => fe'.mNodeIn.autoDone = true ∧ w' = w) fe w := by
  rw [autoSourceDone, Program.wp_bind, Program.wp_get, Program.wp_ite]
  split
  · next hdone => exact ⟨hdone, rfl⟩
  rw [Program.wp_bind]
  exact wp_mono (fdCloseAt_spec hfd) fun _ _ _ h => ⟨rfl, h.2⟩

/-- The end of the source. -/
theorem autoSourceFdDone_spec (hsrc : 0 ≤ src) (hfd : fe.fd .nodeIn .fdWrite ≠ src) :
    wp (sys src) (autoSourceFdDone ⟨src, autoClose⟩) (fun _ fe' w' =>
      fe'.mNodeIn.autoDone = true ∧
        w' = { w with closes := w.closes + if autoClose then 1 else 0 }) fe w := by
  rw [autoSourceFdDone, Program.wp_ite]
  split
  · rw [Program.wp_bind, fdClose, Program.wp_ite, if_neg (Int.not_lt.mpr hsrc), Program.wp_bind,
      Program.wp_perform]
    intro _ w' he
    obtain rfl : w' = { w with closes := w.closes + 1 } := Eq.trans he (if_pos rfl)
    rw [Program.wp_pure, Program.wp_bind, Program.wp_modify]
    exact autoSourceDone_spec hfd
  · exact autoSourceDone_spec hfd

theorem got_append (rs : List ReadResult) (r : ReadResult) :
    got (rs ++ [r]) = got rs ++ bytes r := by
  rw [got, List.flatMap_append, List.flatMap_singleton]
  rfl

/-- A result that is no data ends the source. -/
theorem Open.ended (h : Open src autoClose fe w) (hr : ¬ Chunk r) (hbytes : bytes r = []) :
    Ended autoClose { w with
      reads := w.reads ++ [r], closes := w.closes + if autoClose then 1 else 0 } := by
  have hgot : got (w.reads ++ [r]) = w.sent := by
    rw [got_append, hbytes, List.append_nil, h.sent]
  rw [h.closes, Nat.zero_add]
  exact .read h.reads hr hgot

/-- A chunk is sent as a whole, or ends the source. -/
theorem Open.sends (h : Open src autoClose fe w) {b : UInt8} {d : Bytes} {lenDone : Int}
    (hsent : Sent fe { w with reads := w.reads ++ [.data (b :: d)] } (b :: d) lenDone fe' w') :
    fe'.fd .nodeIn .fdWrite ≠ src ∧
      (lenDone = (b :: d).length → Open src autoClose fe' w') ∧
      (lenDone ≠ (b :: d).length → Ended autoClose w') := by
  obtain ⟨hreset, m, hm, rfl, hlen⟩ := hsent
  have hreads : ∀ r ∈ w.reads ++ [.data (b :: d)], Chunk r := by
    intro r hr
    rcases List.mem_append.mp hr with hr | hr
    · exact h.reads r hr
    · exact ⟨b, d, List.mem_singleton.mp hr⟩
  have hgot : got (w.reads ++ [.data (b :: d)]) = w.sent ++ (b :: d) := by
    rw [got_append, h.sent]
    rfl
  have hopen := h.reset hreset
  refine ⟨hopen.pipe, fun hall => ?_, fun hpart => ?_⟩
  · have htake : (b :: d).take m = b :: d :=
      List.take_of_length_le (Nat.le_of_eq (hlen.mp hall).symm)
    exact { hopen with
      reads := hreads
      sent := by rw [hgot, htake]
      closes := h.closes }
  · have hne : got (w.reads ++ [.data (b :: d)]) ≠ w.sent ++ (b :: d).take m := by
      rw [hgot]
      intro heq
      have htake := congrArg List.length (List.append_cancel_left heq)
      rw [List.length_take] at htake
      exact hpart (hlen.mpr (by omega))
    dsimp only
    rw [h.closes]
    exact .send hreads hne

theorem autoSourceFdRound_inv (h : Open src autoClose fe w) (lenLeft : Nat) :
    wp (sys src) (autoSourceFdRound ⟨src, autoClose⟩ lenLeft) (fun
      | .inl _ => Open src autoClose
      | .inr _ => Inv src autoClose) fe w := by
  rw [autoSourceFdRound, Program.wp_ite]
  split
  · exact .inl h
  rw [Program.wp_bind, Program.wp_perform]
  rintro r w' ⟨-, hw⟩
  obtain rfl : w' = { w with reads := w.reads ++ [r] } := hw.trans (if_pos rfl)
  -- the end of the file, an error, and a read that would block
  have hend : ¬ Chunk r → bytes r = [] → wp (sys src) (autoSourceFdDone ⟨src, autoClose⟩)
      (fun _ => Inv src autoClose) fe { w with reads := w.reads ++ [r] } := by
    intro hr hbytes
    refine wp_mono (autoSourceFdDone_spec h.fd h.pipe) fun _ fe' w' hdone => ?_
    rw [hdone.2]
    exact .inr ⟨hdone.1, h.ended hr hbytes⟩
  cases r with
  | eagain => exact wp_seq (hend not_chunk_eagain rfl) fun _ _ _ hI => hI
  | error => exact wp_seq (hend not_chunk_error rfl) fun _ _ _ hI => hI
  | data d =>
    cases d with
    | nil => exact wp_seq (hend not_chunk_eof rfl) fun _ _ _ hI => hI
    | cons b d =>
      refine wp_seq (intSend_spec h.pipe (List.cons_ne_nil b d)) fun lenDone fe' w' hsent => ?_
      obtain ⟨hfd, hall, hpart⟩ := h.sends hsent
      rw [Program.wp_ite]
      split
      · next hlen =>
        refine wp_seq (autoSourceDone_spec hfd) fun _ fe'' w'' hdone => ?_
        rw [hdone.2]
        exact .inr ⟨hdone.1, hpart hlen⟩
      · next hlen => exact hall (not_not.mp hlen)

theorem autoSource_inv (h : Inv src autoClose fe w) :
    wp (sys src) autoSource (fun _ => Inv src autoClose) fe w := by
  rw [autoSource, Program.wp_bind, Program.wp_get, Program.wp_ite]
  split
  · exact h
  rw [Program.wp_bind, Program.wp_get, Program.wp_ite]
  rcases h with hopen | ⟨hdone, hended⟩
  · obtain ⟨fds, hfds⟩ := hopen.files
    rw [if_neg (by rw [hopen.active]; decide)]
    simp only [Program.wp_bind, Program.wp_get, hopen.buffers, hfds]
    refine Program.wp_rounds (fun _ _ => Open src autoClose) ?_ ?_ hopen
    · intro _ lenLeft fe w h
      refine wp_mono (autoSourceFdRound_inv h lenLeft) fun res _ _ h => ?_
      cases res <;> exact h
    · exact fun _ _ _ h => Or.inl h
  · rw [if_pos hdone]
    exact .inr ⟨hdone, hended⟩

theorem reachable_inv (hs : Reachable (Start src autoClose) (Step src) s) :
    Inv src autoClose s.1 s.2 := by
  refine hs.invariant (P := fun s => Inv src autoClose s.1 s.2) (fun s h0 => ?_)
    fun s _ t h hstep => ?_
  · have hos := h0.os
    refine .inl ⟨h0.active, h0.buffers, h0.files, h0.fd, h0.pipe, ?_, ?_, ?_⟩ <;> rw [hos]
    · exact fun _ hr => nomatch hr
    · rfl
  · exact Program.wp_iff.mp (autoSource_inv h) _ _ _ hstep

/-! ## When the source is declared done -/

theorem not_mem_of_chunks (h : ∀ r ∈ rs, Chunk r) (hr : ¬ Chunk r) : r ∉ rs :=
  fun hmem => hr (h r hmem)

theorem mem_last {r' : ReadResult} (h : ∀ r ∈ rs, Chunk r) (hr' : ¬ Chunk r') :
    r' ∈ rs ++ [r] ↔ r' = r := by
  rw [List.mem_append, or_iff_right (not_mem_of_chunks h hr'), List.mem_singleton]

/-- A source that has come to an end, by what has ended it. -/
theorem Ended.declared_iff (h : Ended autoClose w) (hdone : fe.mNodeIn.autoDone = true) :
    Declared autoClose (fe, w) ↔
      .eagain ∉ w.reads ∧ (autoClose = true → got w.reads = w.sent) := by
  cases h with
  | @read rs r sent hrs hr hgot =>
    have hclosed : autoClose = true → (if autoClose then 1 else 0) = 1 := fun hac => if_pos hac
    have heof := mem_last (r := r) hrs not_chunk_eof
    have herror := mem_last (r := r) hrs not_chunk_error
    have hblock := mem_last (r := r) hrs not_chunk_eagain
    unfold Declared
    dsimp only
    rw [heof, herror, hblock]
    cases r with
    | data d =>
      cases d with
      | cons b d => exact absurd ⟨b, d, rfl⟩ hr
      | nil => exact iff_of_true (fun _ => ⟨.inl rfl, hclosed⟩) ⟨nofun, fun _ => hgot⟩
    | error => exact iff_of_true (fun _ => ⟨.inr (.inl rfl), hclosed⟩) ⟨nofun, fun _ => hgot⟩
    | eagain =>
      -- there may be more data, but the source is done
      refine iff_of_false (fun hdecl => ?_) fun h => h.1 rfl
      rcases (hdecl hdone).1 with hmem | hmem | hne
      · cases hmem
      · cases hmem
      · exact hne hgot
  | @send rs sent hrs hne =>
    constructor
    · intro hdecl
      exact ⟨not_mem_of_chunks hrs not_chunk_eagain, fun hac => nomatch (hdecl hdone).2 hac⟩
    · rintro ⟨-, hall⟩ -
      exact ⟨.inr (.inr hne), fun hac => absurd (hall hac) hne⟩

/-- In every run, a source is declared done as it should be exactly if no `read()` of it would have
blocked and, where it is to be closed, everything was sent that was read from it. -/
theorem fdSource_declared_iff (hs : Reachable (Start src autoClose) (Step src) s) :
    Declared autoClose s ↔
      .eagain ∉ s.2.reads ∧ (autoClose = true → got s.2.reads = s.2.sent) := by
  rcases reachable_inv hs with hopen | ⟨hdone, hended⟩
  · refine iff_of_true (fun hdone => ?_)
      ⟨not_mem_of_chunks hopen.reads not_chunk_eagain, fun _ => hopen.sent⟩
    rw [hopen.active] at hdone
    cases hdone
  · exact hended.declared_iff hdone

/-! ## Three sources -/

def readAnswer (script : List ReadResult) (w : Os) (len : Nat) : ReadResult :=
  match script[w.reads.length]? with
  | some (.data d) => if d.length ≤ len then .data d else .eagain
  | some r => r
  | none => .eagain

/-- A system whose source 7 gives the results of a script, and whose pipes take all data or none. -/
def answer (script : List ReadResult) (takes : Bool) (w : Os) : (k : Call) → Answer k × Os
  | .read fd len => (readAnswer script w len,
      if fd = 7 then { w with reads := w.reads ++ [readAnswer script w len] } else w)
  | .write _ data =>
    if takes then (.done data.length, { w with sent := w.sent ++ data.take data.length })
    else (.eagain, w)
  | .close fd => ((), if fd = 7 then { w with closes := w.closes + 1 } else w)
  | .pipe _ | .openNull _ | .vfork => (none, w)
  | .waitpid _ => (.unchanged, w)
  | .transRead _ _ => (none, w)
  | .vecConstCharToCharList | .fcntl _ | .sendReady _ => (true, w)
  | .memcpy _ _ _ | .append _ _ | .transSend _ _ | .doneSet _ => ((), w)

theorem sys_answer (script : List ReadResult) (takes : Bool) (w : Os) (k : Call) :
    sys 7 w k (answer script takes w k).1 (answer script takes w k).2 := by
  cases k with
  | read fd len =>
    refine ⟨fun d hd => ?_, rfl⟩
    simp only [answer, readAnswer] at hd
    split at hd
    · split at hd
      · next hlen => exact ReadResult.data.inj hd ▸ hlen
      · cases hd
    · next hne _ => exact absurd hd (hne d)
    · cases hd
  | write fd data =>
    simp only [answer]
    split
    · exact ⟨Nat.le_refl _, rfl⟩
    · rfl
  | close _ => rfl
  | pipe _ => rfl
  | openNull _ => rfl
  | vecConstCharToCharList => rfl
  | vfork => rfl
  | fcntl _ => rfl
  | waitpid _ => rfl
  | memcpy _ _ _ => rfl
  | append _ _ => rfl
  | sendReady _ => rfl
  | transRead _ _ => rfl
  | transSend _ _ => rfl
  | doneSet _ => rfl

def command (autoClose : Bool) : FileExecuting where
  mState := .stChildSupervise
  mNodeIn := { pipe := ⟨4, 5⟩, lstFds := [⟨7, autoClose⟩], autoEnabled := true }
  mSendReady := true

/-- One call of `autoSource` in this system. -/
def call (script : List ReadResult) (takes autoClose : Bool) : FileExecuting × Os :=
  (autoSource.run (answer script takes) (command autoClose) {}).2

theorem reachable_call (script : List ReadResult) (takes autoClose : Bool) :
    Reachable (Start 7 autoClose) (Step 7) (call script takes autoClose) := by
  have hstart : Reachable (Start 7 autoClose) (Step 7) (command autoClose, {}) :=
    .start ⟨rfl, rfl, rfl, ⟨[], rfl⟩, by decide, show (5 : Int) ≠ 7 by decide, rfl⟩
  exact .next (i := ()) hstart (Program.exec_run (sys_answer script takes) autoSource _ _)

/-- One byte and the end of the file. -/
theorem fdSource_declared_eof : ∃ s, Reachable (Start 7 true) (Step 7) s ∧
    s.1.mNodeIn.autoDone = true ∧ Declared true s := by
  have h := reachable_call [.data [1], .data []] true true
  have hblock : .eagain ∉ (call [.data [1], .data []] true true).2.reads := by decide +kernel
  have hsent : got (call [.data [1], .data []] true true).2.reads =
      (call [.data [1], .data []] true true).2.sent := by decide +kernel
  exact ⟨_, h, by decide +kernel, (fdSource_declared_iff h).mpr ⟨hblock, fun _ => hsent⟩⟩

/-- A source that has nothing to read yet is declared done, and one whose data was not taken is
declared done and stays open. -/
theorem fdSource_declared_fails :
    (∃ s, Reachable (Start 7 false) (Step 7) s ∧ s.2.reads = [.eagain] ∧ ¬ Declared false s) ∧
      ∃ s, Reachable (Start 7 true) (Step 7) s ∧ s.1.mNodeIn.autoDone = true ∧ s.2.closes = 0 ∧
        ¬ Declared true s := by
  constructor
  · refine ⟨_, reachable_call [.eagain] true false, by decide +kernel, fun hdecl => ?_⟩
    rcases (hdecl (by decide +kernel)).1 with hmem | hmem | hne
    · exact absurd hmem (by decide +kernel)
    · exact absurd hmem (by decide +kernel)
    · exact hne (by decide +kernel)
  · have hdone : (call [.data [1]] false true).1.mNodeIn.autoDone = true := by decide +kernel
    have hclosed : (call [.data [1]] false true).2.closes = 0 := by decide +kernel
    refine ⟨_, reachable_call [.data [1]] false true, hdone, hclosed, fun hdecl => ?_⟩
    rw [(hdecl hdone).2 rfl] at hclosed
    cases hclosed

end FdSource

end FileExecuting

end ProcessingCommon

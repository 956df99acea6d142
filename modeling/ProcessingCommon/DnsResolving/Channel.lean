import ProcessingCommon.DnsResolving
import ProcessingCommon.Lib.Ledger

/-!
# The channel of c-ares

Whatever c-ares and `select` answer, and whenever the resolving is cancelled: the channel is
destroyed once, is not used after that, and the query in it has called back by then, so that no
callback comes to an object that is gone.
-/

namespace ProcessingCommon

namespace DnsResolving

open Program (Exec wp wp_mono wp_seq)
open Transition (Reachable)
open Ledger (Event Disciplined heldAfter)

/-- c-ares with the channels it has given, the one in `mChannelAres`, and how many queries have
begun and been answered. -/
structure Channels where
  trace : List (Event Nat) := []
  mChannelAres : Nat := 0
  begun : Nat := 0
  answered : Nat := 0

namespace Channels

def outstanding (w : Channels) : Prop := w.answered < w.begun

def record (w : Channels) (e : Nat → Event Nat) : Channels :=
  { w with trace := w.trace ++ [e w.mChannelAres] }

def calledBack (w : Channels) : Option RequestDone → Channels
  | none => w
  | some _ => { w with answered := w.answered + 1 }

/-- A call that fails gives no channel. c-ares calls back once for a query, before the end of its
channel at the latest, and nothing is said of the descriptors and `select`. -/
def env (w : Channels) : (c : Call) → Answer c → Channels → Prop
  | .aresInitOptions _, r, w' =>
    if r = ARES_SUCCESS then
      ∃ a, w' = { w with trace := w.trace ++ [.acquire a], mChannelAres := a }
    else w' = w
  | .aresGetaddrinfo _, r, w' =>
    w' = ({ w.record .use with begun := w.begun + 1 }).calledBack r
  | .aresFds, _, w' => w' = w.record .use
  | .aresTimeout _, _, w' => w' = w.record .use
  | .aresProcess, r, w' =>
    (r.isSome → w.outstanding) ∧ w' = (w.record .use).calledBack r
  | .aresDestroy, r, w' =>
    (r.isSome ↔ w.outstanding) ∧ w' = (w.record .release).calledBack r
  | _, _, w' => w' = w

end Channels

/-- The object and the channel agree. -/
structure Kept (d : DnsResolving) (w : Channels) : Prop where
  disciplined : Disciplined [] w.trace
  held : heldAfter [] w.trace = if d.mChannelAresInitDone then [w.mChannelAres] else []
  once : w.begun ≤ w.answered + 1 ∧ w.answered ≤ w.begun
  idle : d.mChannelAresInitDone = false → w.answered = w.begun
  first : d.mState ≠ .stAresDoneWait → d.mChannelAresInitDone = false ∧ w.begun = 0
  single : w.begun ≤ 1

variable {texts : Texts} {d : DnsResolving} {w : Channels}

theorem Kept.start (hostname : String) : Kept (hostnameSet {} hostname) {} :=
  ⟨trivial, rfl, ⟨Nat.zero_le _, Nat.le_refl _⟩, fun _ => rfl, fun _ => ⟨rfl, rfl⟩, Nat.zero_le _⟩

/-- What the channel is not concerned with. -/
theorem Kept.of_same {d' : DnsResolving} (h : Kept d w)
    (hinit : d'.mChannelAresInitDone = d.mChannelAresInitDone)
    (hstate : d'.mState ≠ .stAresDoneWait → d.mState ≠ .stAresDoneWait) : Kept d' w where
  disciplined := h.disciplined
  held := hinit ▸ h.held
  once := h.once
  idle hd := h.idle (hinit ▸ hd)
  first hs := hinit ▸ h.first (hstate hs)
  single := h.single

theorem aresRequestDone_same (d : DnsResolving) (done : RequestDone) :
    (d.aresRequestDone texts done).mChannelAresInitDone = d.mChannelAresInitDone ∧
      (d.aresRequestDone texts done).mState = d.mState := by
  rw [aresRequestDone]
  split
  · exact ⟨rfl, rfl⟩
  · rw [foldl_nodeAdd]
    exact ⟨rfl, rfl⟩

theorem calledBack_wp {Q : Unit → DnsResolving → Channels → Prop} (done : Option RequestDone)
    (h : ∀ d', d'.mChannelAresInitDone = d.mChannelAresInitDone → d'.mState = d.mState →
      Q () d' w) : wp Channels.env (calledBack texts done) Q d w := by
  cases done with
  | none => exact h d rfl rfl
  | some done => exact h _ (aresRequestDone_same d done).1 (aresRequestDone_same d done).2

/-! ## What is done with the channel -/

theorem Kept.use (h : Kept d w) (hinit : d.mChannelAresInitDone = true) :
    Kept d (w.record .use) where
  disciplined := by
    have hheld := h.held
    rw [if_pos hinit] at hheld
    exact Ledger.disciplined_append.mpr
      ⟨h.disciplined, hheld ▸ List.mem_singleton_self _, trivial⟩
  held := by
    show heldAfter [] (w.trace ++ [.use w.mChannelAres]) = _
    rw [Ledger.heldAfter_append]
    exact h.held
  once := h.once
  idle := h.idle
  first := h.first
  single := h.single

/-- A query that is under way is answered. -/
theorem Kept.answer (h : Kept d w) (hinit : d.mChannelAresInitDone = true)
    {done : Option RequestDone} (hout : done.isSome → w.outstanding) :
    Kept d (w.calledBack done) := by
  cases done with
  | none => exact h
  | some done =>
    refine ⟨h.disciplined, h.held, ⟨?_, hout rfl⟩, ?_, h.first, h.single⟩
    · exact Nat.le_succ_of_le h.once.1
    · rw [hinit]
      nofun

/-- The end of a channel: the query has been answered. -/
theorem Kept.destroy (h : Kept d w) (hinit : d.mChannelAresInitDone = true)
    {done : Option RequestDone} (hout : done.isSome ↔ w.outstanding) {d' : DnsResolving}
    (hinit' : d'.mChannelAresInitDone = false) (hstate : d'.mState = d.mState) :
    Kept d' ((w.record .release).calledBack done) := by
  have hheld := h.held
  rw [if_pos hinit] at hheld
  have hbegun : ((w.record .release).calledBack done).begun = w.begun := by cases done <;> rfl
  have hanswered : ((w.record .release).calledBack done).answered = w.begun := by
    have honce := h.once
    cases done with
    | none =>
      have hnot : ¬ w.outstanding := fun ho => nomatch hout.mpr ho
      exact Nat.le_antisymm honce.2 (Nat.le_of_not_lt hnot)
    | some done => exact Nat.le_antisymm (hout.mp rfl) honce.1
  have htrace : ((w.record .release).calledBack done).trace =
      w.trace ++ [.release w.mChannelAres] := by cases done <;> rfl
  refine ⟨?_, ?_, ?_, fun _ => ?_, fun hs => ⟨hinit', ?_⟩, ?_⟩
  · rw [htrace, Ledger.disciplined_append]
    exact ⟨h.disciplined, hheld ▸ List.mem_singleton_self _, trivial⟩
  · rw [htrace, Ledger.heldAfter_append, hheld, hinit']
    exact List.erase_cons_head ..
  · rw [hbegun, hanswered]
    exact ⟨Nat.le_succ _, Nat.le_refl _⟩
  · rw [hbegun, hanswered]
  · rw [hbegun]
    exact (h.first (hstate ▸ hs)).2
  · rw [hbegun]
    exact h.single

/-- The channel `a` with its query. -/
def Channels.start (w : Channels) (a : Nat) : Channels :=
  { w with
    trace := w.trace ++ [.acquire a] ++ [.use a]
    mChannelAres := a
    begun := w.begun + 1 }

theorem Kept.begin (h : Kept d w) (hstart : d.mState ≠ .stAresDoneWait) (a : Nat)
    (done : Option RequestDone) {d' : DnsResolving} (hinit' : d'.mChannelAresInitDone = true)
    (hstate : d'.mState = .stAresDoneWait) :
    Kept d' ((w.start a).calledBack done) := by
  obtain ⟨hinit, hzero⟩ := h.first hstart
  have hanswered := h.idle hinit
  rw [hzero] at hanswered
  have hheld := h.held
  rw [hinit, if_neg (by decide)] at hheld
  have hfields : ((w.start a).calledBack done).trace = w.trace ++ [.acquire a, .use a] ∧
      ((w.start a).calledBack done).begun = 1 ∧ ((w.start a).calledBack done).answered ≤ 1 ∧
      ((w.start a).calledBack done).mChannelAres = a := by
    cases done <;> simp [Channels.calledBack, Channels.start, hzero, hanswered]
  obtain ⟨htrace, hbegun, hle, hchannel⟩ := hfields
  refine ⟨?_, ?_, ?_, ?_, fun hs => absurd hstate hs, ?_⟩
  · rw [htrace, Ledger.disciplined_append, hheld]
    exact ⟨h.disciplined, List.not_mem_nil, List.mem_singleton_self a, trivial⟩
  · rw [htrace, Ledger.heldAfter_append, hheld, hinit', hchannel]
    rfl
  · rw [hbegun]
    exact ⟨Nat.le_add_left _ _, hle⟩
  · rw [hinit']
    nofun
  · exact Nat.le_of_eq hbegun

/-! ## Ticks and the end -/

theorem procErrLog_wp {Q : Success → DnsResolving → Channels → Prop} (msg : String)
    (h : Q .negative d w) : wp Channels.env (procErrLog msg) Q d w := by
  rw [procErrLog, Program.wp_bind, Program.wp_perform]
  rintro _ _ rfl
  exact h

/-- Without a channel there is an error. -/
theorem aresProcess_kept (h : Kept d w) :
    wp Channels.env (aresProcess texts) (fun _ d' w' => Kept d' w' ∧
      (d'.mChannelAresInitDone = true ∨ d'.mDoneAres = .negative)) d w := by
  have hset : ∀ {w : Channels} (done : Success), Kept d w →
      Kept { d with mDoneAres := done } w := fun _ h => h.of_same rfl id
  have herr : ∀ {w : Channels} (msg : String), Kept d w → wp Channels.env (do
      let done ← procErrLog msg
      modify fun d => { d with mDoneAres := done })
      (fun _ d' w' => Kept d' w' ∧
        (d'.mChannelAresInitDone = true ∨ d'.mDoneAres = .negative)) d w := by
    intro w msg hw
    rw [Program.wp_bind]
    exact procErrLog_wp msg ⟨hset .negative hw, .inr rfl⟩
  rw [aresProcess, Program.wp_bind, Program.wp_get, Program.wp_ite]
  split
  · exact ⟨hset .negative h, .inr rfl⟩
  next hinit =>
  replace hinit : d.mChannelAresInitDone = true := by simpa using hinit
  rw [Program.wp_bind, Program.wp_perform]
  rintro fdsMax _ rfl
  rw [Program.wp_ite]
  split
  · exact herr _ (h.use hinit)
  rw [Program.wp_ite]
  split
  · exact herr _ (h.use hinit)
  rw [Program.wp_bind, Program.wp_perform]
  rintro _ _ rfl
  rw [Program.wp_bind, Program.wp_perform]
  rintro res _ rfl
  cases res with
  | error e => exact herr _ ((h.use hinit).use hinit)
  | ok n =>
    rw [Program.wp_bind, Program.wp_perform]
    rintro done _ ⟨hout, rfl⟩
    refine calledBack_wp done fun d' hinit' hstate' => ⟨?_, .inl (hinit'.trans hinit)⟩
    exact ((((h.use hinit).use hinit).use hinit).answer hinit hout).of_same hinit' (hstate' ▸ ·)

theorem aresDestroy_kept (h : Kept d w) (hinit : d.mChannelAresInitDone = true) :
    wp Channels.env (aresDestroy texts) (fun _ d' w' =>
      Kept d' w' ∧ d'.mChannelAresInitDone = false) d w := by
  rw [aresDestroy, Program.wp_bind, Program.wp_perform]
  rintro done _ ⟨hout, rfl⟩
  rw [Program.wp_bind]
  exact calledBack_wp done fun d' _ hstate' => ⟨h.destroy hinit hout rfl hstate', rfl⟩

theorem process_kept (h : Kept d w) :
    wp Channels.env (process texts) (fun _ d' w' => Kept d' w') d w := by
  rw [process, Program.wp_bind, Program.wp_get]
  cases hstate : d.mState with
  | stStart =>
    have hnot : d.mState ≠ .stAresDoneWait := by rw [hstate]; decide
    rw [Program.wp_bind, Program.wp_get, Program.wp_ite]
    split
    · exact procErrLog_wp _ h
    · exact h.of_same rfl fun _ => hnot
  | stGlobalInit =>
    have hnot : d.mState ≠ .stAresDoneWait := by rw [hstate]; decide
    rw [Program.wp_bind, Program.wp_perform]
    rintro _ _ rfl
    exact h.of_same rfl fun _ => hnot
  | stAresStart =>
    have hnot : d.mState ≠ .stAresDoneWait := by rw [hstate]; decide
    simp only [aresStart, procErrLog, Program.wp_bind, Program.wp_get, Program.wp_ite,
      Program.wp_perform, Program.wp_modify, Program.wp_pure]
    rintro res w₁ hres
    split
    · next hne =>
      rw [Channels.env, if_neg hne] at hres
      subst hres
      rintro _ _ rfl
      rw [if_pos (by decide)]
      rintro _ _ rfl
      exact h
    · next heq =>
      rw [Channels.env, if_pos (not_not.mp heq)] at hres
      obtain ⟨a, rfl⟩ := hres
      rintro done _ rfl
      exact calledBack_wp done fun d' _ _ => h.begin hnot a done rfl rfl
  | stAresDoneWait =>
    rw [aresDoneWait]
    refine wp_seq (aresProcess_kept h) ?_
    rintro _ d' w' ⟨h', hdone⟩
    rw [Program.wp_bind, Program.wp_get, Program.wp_ite]
    split
    · exact h'
    rw [Program.wp_bind, Program.wp_get, Program.wp_ite]
    split
    · rw [Program.wp_bind, Program.wp_get]
      exact procErrLog_wp _ h'
    · next hpositive =>
      have hinit := hdone.resolve_right fun hneg => hpositive (by rw [hneg]; decide)
      exact wp_seq (aresDestroy_kept h' hinit) fun _ _ _ hend => hend.1

theorem shutdown_kept (h : Kept d w) : wp Channels.env (shutdown texts) (fun success d' w' =>
    success = .positive ∧ Kept d' w' ∧ d'.mChannelAresInitDone = false) d w := by
  rw [shutdown, Program.wp_bind, Program.wp_get]
  cases d.mStateSd with
  | stSdStart =>
    rw [Program.wp_bind, Program.wp_get, Program.wp_ite]
    split
    · next hinit =>
      refine wp_seq (aresDestroy_kept h hinit) ?_
      rintro _ d' w' ⟨h', hinit'⟩
      exact ⟨rfl, h', hinit'⟩
    · next hinit => exact ⟨rfl, h, Bool.eq_false_iff.mpr hinit⟩

/-! ## Every run -/

/-- A tick of `process()` or of `shutdown()`, whatever its result. -/
inductive Act
  | process
  | shutdown

def Act.body (texts : Texts) : Act → Dns Success
  | .process => DnsResolving.process texts
  | .shutdown => DnsResolving.shutdown texts

def ActStep (texts : Texts) (s : DnsResolving × Channels) (act : Act)
    (t : DnsResolving × Channels) : Prop :=
  ∃ success, Exec Channels.env (act.body texts) s.1 s.2 success t.1 t.2

def Created (hostname : String) (s : DnsResolving × Channels) : Prop :=
  s = (hostnameSet {} hostname, {})

theorem reachable_kept {hostname : String} {s : DnsResolving × Channels}
    (h : Reachable (Created hostname) (ActStep texts) s) : Kept s.1 s.2 := by
  refine h.invariant (P := fun s => Kept s.1 s.2) ?_ fun s act t hs ht => ?_
  · rintro _ rfl
    exact .start hostname
  · obtain ⟨success, he⟩ := ht
    cases act with
    | process => exact Program.wp_iff.mp (process_kept hs) _ _ _ he
    | shutdown => exact (Program.wp_iff.mp (shutdown_kept hs) _ _ _ he).2.1

/-- In every run the channel is used and destroyed only while it is there, and at most one query
is made. `shutdown()`, at whatever moment, ends at once: every channel is destroyed as often as it
was made, and the query has called back, which it does once. -/
theorem channel_released {hostname : String} {s : DnsResolving × Channels}
    (h : Reachable (Created hostname) (ActStep texts) s) :
    Disciplined [] s.2.trace ∧ s.2.begun ≤ 1 ∧ s.2.answered ≤ s.2.begun ∧
      ∀ success d w, Exec Channels.env (shutdown texts) s.1 s.2 success d w →
        success = .positive ∧ heldAfter [] w.trace = [] ∧ w.answered = w.begun ∧
          ∀ a, w.trace.count (.release a) = w.trace.count (.acquire a) := by
  have hkept := reachable_kept h
  refine ⟨hkept.disciplined, hkept.single, hkept.once.2, fun success d w he => ?_⟩
  obtain ⟨hpositive, hend, hinit⟩ := Program.wp_iff.mp (shutdown_kept hkept) _ _ _ he
  have hnone : heldAfter [] w.trace = [] := by rw [hend.held, hinit, if_neg (by decide)]
  exact ⟨hpositive, hnone, hend.idle hinit, hend.disciplined.released hnone⟩

/-- A c-ares that has to ask for the address. -/
def asking (w : Channels) : (c : Call) → Answer c × Channels
  | .aresInitOptions _ =>
    (ARES_SUCCESS, { w with trace := w.trace ++ [.acquire 7], mChannelAres := 7 })
  | .aresGetaddrinfo _ => (none, { w.record .use with begun := w.begun + 1 })
  | .aresFds => (6, w.record .use)
  | .aresTimeout _ => ((), w.record .use)
  | .select _ => (.ok 0, w)
  | .aresProcess => (none, w.record .use)
  | .aresDestroy =>
    let done := if w.answered < w.begun then some ⟨ARES_EDESTRUCTION, []⟩ else none
    (done, (w.record .release).calledBack done)
  | .caresGlobalInit => ((), w)
  | .errLog _ => ((), w)

theorem env_asking (w : Channels) (c : Call) :
    Channels.env w c (asking w c).1 (asking w c).2 := by
  cases c with
  | aresInitOptions options =>
    have hdone : (asking w (.aresInitOptions options)).1 = ARES_SUCCESS := rfl
    rw [Channels.env, if_pos hdone]
    exact ⟨7, rfl⟩
  | aresProcess => exact ⟨nofun, rfl⟩
  | aresDestroy =>
    refine ⟨?_, rfl⟩
    by_cases hout : w.answered < w.begun <;> simp [asking, Channels.outstanding, hout]
  | _ => rfl

def asked (act : Act) (s : DnsResolving × Channels) : Success × DnsResolving × Channels :=
  (act.body names).run asking s.1 s.2

theorem exec_asked (act : Act) (s : DnsResolving × Channels) :
    Exec Channels.env (act.body names) s.1 s.2 (asked act s).1 (asked act s).2.1
      (asked act s).2.2 :=
  Program.exec_run env_asking (act.body names) s.1 s.2

theorem reachable_asked {hostname : String} {s : DnsResolving × Channels}
    (hs : Reachable (Created hostname) (ActStep names) s) (act : Act) :
    Reachable (Created hostname) (ActStep names) (asked act s).2 :=
  hs.next (i := act) ⟨_, exec_asked act s⟩

/-- Cancelled in the tick after the query: the callback comes in `shutdown()`. -/
theorem channel_released_cancelled : ∃ s d w,
    Reachable (Created "localhost") (ActStep names) s ∧
      Exec Channels.env (shutdown names) s.1 s.2 .positive d w ∧
      w.trace = [.acquire 7, .use 7, .use 7, .use 7, .use 7, .release 7] ∧
      w.answered = w.begun ∧ heldAfter [] w.trace = [] := by
  have h₀ : Reachable (Created "localhost") (ActStep names) _ := .start rfl
  have h₄ := reachable_asked (reachable_asked (reachable_asked (reachable_asked h₀ .process)
    .process) .process) .process
  have hend := (channel_released h₄).2.2.2 _ _ _ (exec_asked .shutdown _)
  exact ⟨_, _, _, h₄, exec_asked .shutdown _, rfl, hend.2.2.1, hend.2.1⟩

end DnsResolving

end ProcessingCommon

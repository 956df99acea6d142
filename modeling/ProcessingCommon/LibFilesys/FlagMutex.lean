import ProcessingCommon.LibFilesys.FlagFiles

/-!
# The mutex of the flags

`globalLocksMtx` is the mutex of one process. `sysFlagsIntLock` takes it for the `flock` calls and
for the lists of step 5, `sysFlagsIntUnlock` for the list of the locks. The machine below adds it to
the one of the system flags: who wants to make a call of such a section needs the mutex first, and
has to give it back before the next call outside. Its runs are runs of the system flags with fewer
interleavings, and a call of `sysFlagsIntLock` waits for nothing but this mutex.
-/

namespace ProcessingCommon
namespace SysFlags

section

set_option linter.unusedSectionVars false

variable {P R : Type} [DecidableEq P] [DecidableEq R] {proc : R → P} {dirBase : String}
  {s t : State P R} {r : R}

/-! ## Calls of `sysFlagsIntLock` without the mutex -/

/-- The next call is made with the mutex. -/
def Pc.sectioned : Pc → Bool
  | .idle | .taken | .create _ [] | .record _ => true
  | _ => false

/-- The steps up to the end of the call, at most. -/
def Pc.callLeft : Pc → Nat
  | .check done todo => 2 * todo.length + done.length + 3
  | .create _ todo => todo.length + 2
  | .taken | .record _ => 1
  | .idle | .unlocking _ => 0

/-- Made with the mutex. -/
def Event.sectioned : Event R → Bool
  | .lock _ _ _ | .taken _ | .leave _ | .record _ | .unlock _ => true
  | _ => false

/-- The last call before the mutex is given back. -/
def Event.ends : Event R → Bool
  | .lock _ _ _ | .taken _ | .record _ | .unlock _ => true
  | _ => false

/-- Made behind step 1 of a call of `sysFlagsIntLock`. -/
def Event.ofCall : Event R → Bool
  | .check _ _ | .checked _ | .taken _ | .create _ _ | .leave _ | .record _ => true
  | _ => false

theorem Event.sectioned_of_ends {e : Event R} (h : e.ends = true) : e.sectioned = true := by
  cases e <;> first | rfl | cases h

/-- A step of somebody else. -/
theorem step_other {e : Event R} (he : e.requester ≠ r) (ht : step proc dirBase s e = some t) :
    t.pc r = s.pc r ∧ t.locks r = s.locks r ∧ t.result r = s.result r := by
  cases e <;> simp only [Event.requester] at he <;> simp only [step] at ht <;>
    (repeat' split at ht) <;> cases ht <;>
    simp [State.ret, State.setPc, State.lockUn, State.fileSet, Function.update_of_ne (Ne.symm he)]

/-- Only step 4 leads to step 5. -/
theorem step_record {e : Event R} {flags : List String} (ht : step proc dirBase s e = some t)
    (hpc : t.pc e.requester = .record flags) : e.sectioned = true ∧ e.ends = false := by
  cases e <;> simp only [Event.requester] at hpc <;> simp only [step] at ht <;>
    (repeat' split at ht) <;> cases ht <;>
    simp_all [State.ret, State.setPc, State.lockUn, State.fileSet, Event.sectioned, Event.ends]

/-- The section of step 4 goes on with step 5. -/
theorem step_goes_on {e : Event R} (hs : e.sectioned = true) (he : e.ends = false)
    (ht : step proc dirBase s e = some t) :
    (∃ done, s.pc e.requester = .create done []) ∧
      ∃ flags, t.pc e.requester = .record flags := by
  cases e with
  | leave r =>
    simp only [step] at ht
    split at ht
    · next done hpc =>
      cases ht
      exact ⟨⟨done, hpc⟩, done, Function.update_self ..⟩
    · cases ht
  | lock | taken | record | unlock => cases he
  | check | checked | create | remove | unlocked => cases hs

/-- In a call that is to lock `names`; `locks` are the locks before it. -/
structure InCall (s : State P R) (r : R) (names locks : List String) : Prop where
  left : 0 < (s.pc r).callLeft
  flags : s.pc r = .taken ∨ (s.pc r).flags = names
  locks : s.locks r = locks

/-- The call is over: it has locked all names, or none. -/
structure Over (s : State P R) (r : R) (names locks : List String) : Prop where
  pc : s.pc r = .idle
  outcome : s.result r = .positive ∧ s.locks r = locks ++ names ∨
    s.result r ≠ .positive ∧ s.locks r = locks

variable {names locks : List String}

/-- The call goes on from `pc` at `q`. -/
theorem InCall.goto (h : InCall s r names locks) {pc q : Pc} (hs : s.pc r = pc)
    (ht : t.pc r = q) (hlocks : t.locks r = s.locks r) (hpos : 0 < q.callLeft)
    (hlt : q.callLeft + 1 ≤ pc.callLeft) (hflags : q = .taken ∨ q.flags = names) :
    InCall t r names locks ∧ (t.pc r).callLeft + 1 ≤ (s.pc r).callLeft :=
  ⟨⟨ht ▸ hpos, ht ▸ hflags, hlocks.trans h.locks⟩, ht ▸ hs ▸ hlt⟩

theorem InCall.flags_eq (h : InCall s r names locks) {pc : Pc} (hs : s.pc r = pc)
    (hpc : pc ≠ .taken) : pc.flags = names :=
  (hs ▸ h.flags).resolve_left hpc

theorem InCall.not_at (h : InCall s r names locks) {pc : Pc} (hpc : pc.callLeft = 0) :
    s.pc r ≠ pc := by
  intro he
  have hleft := h.left
  rw [he, hpc] at hleft
  exact Nat.lt_irrefl 0 hleft

/-- The next flag is checked. -/
theorem InCall.check (h : InCall s r names locks) {opened : Bool}
    (ht : step proc dirBase s (.check r opened) = some t) :
    InCall t r names locks ∧ (t.pc r).callLeft + 1 ≤ (s.pc r).callLeft := by
  simp only [step] at ht
  split at ht
  · next done f todo hpc =>
    split at ht
    · cases ht
    · cases ht
      have hflags := h.flags_eq hpc Pc.noConfusion
      cases opened with
      | true =>
        exact h.goto (q := .taken) hpc (Function.update_self ..) rfl Nat.one_pos
          (by simp only [Pc.callLeft]; omega) (.inl rfl)
      | false =>
        refine h.goto (q := .check (done ++ [f]) todo) hpc (Function.update_self ..) rfl
          (by simp [Pc.callLeft]) ?_ (.inr ?_)
        · simp only [Pc.callLeft, List.length_append, List.length_cons, List.length_nil]
          omega
        · rwa [Pc.flags, List.append_assoc]
  · cases ht

/-- The next flag is created. -/
theorem InCall.create (h : InCall s r names locks) {created : Bool}
    (ht : step proc dirBase s (.create r created) = some t) :
    InCall t r names locks ∧ (t.pc r).callLeft + 1 ≤ (s.pc r).callLeft := by
  simp only [step] at ht
  split at ht
  · next done f todo hpc =>
    cases ht
    have hflags := h.flags_eq hpc Pc.noConfusion
    refine h.goto (q := .create (done ++ [f]) todo) hpc ?_ ?_ (by simp [Pc.callLeft])
      (by simp [Pc.callLeft]) (.inr ?_)
    · cases created <;> exact Function.update_self ..
    · cases created <;> rfl
    · rwa [Pc.flags, List.append_assoc]
  · cases ht

/-- Step 5 puts the flags behind the locks that there were. -/
theorem InCall.record (h : InCall s r names locks)
    (ht : step proc dirBase s (.record r) = some t) : Over t r names locks := by
  simp only [step] at ht
  split at ht
  · next flags hpc =>
    cases ht
    obtain rfl : flags = names := h.flags_eq hpc Pc.noConfusion
    refine ⟨Function.update_self .., .inl ⟨Function.update_self .., ?_⟩⟩
    rw [← h.locks]
    exact Function.update_self ..
  · cases ht

/-- A call that is under way neither begins again nor unlocks. -/
theorem InCall.made (h : InCall s r names locks) {e : Event R} (he : e.requester = r)
    (ht : step proc dirBase s e = some t) : e.ofCall = true := by
  subst he
  cases e with
  | check | checked | taken | create | leave | record => rfl
  | lock r flags error =>
    simp only [step] at ht
    split at ht
    · cases ht
    · next hc => exact absurd (Decidable.not_not.mp hc) (h.not_at rfl)
  | unlock r =>
    simp only [step] at ht
    split at ht
    · cases ht
    · next hc =>
      rw [not_or, ne_eq, Decidable.not_not] at hc
      exact absurd hc.1 (h.not_at rfl)
  | remove r removed next =>
    simp only [step] at ht
    split at ht
    · next idx hpc => exact absurd hpc (h.not_at rfl)
    · cases ht
  | unlocked r =>
    simp only [step] at ht
    split at ht
    · next idx hpc => exact absurd hpc (h.not_at rfl)
    · cases ht

/-- A step of the call itself. -/
theorem InCall.own (h : InCall s r names locks) {e : Event R} (he : e.requester = r)
    (ht : step proc dirBase s e = some t) :
    e.ends = true ∧ Over t r names locks ∨
      e.ends = false ∧ InCall t r names locks ∧ (t.pc r).callLeft + 1 ≤ (s.pc r).callLeft := by
  have hmade := h.made he ht
  subst he
  cases e with
  | lock | unlock | remove | unlocked => cases hmade
  | check r opened => exact .inr ⟨rfl, h.check ht⟩
  | create r created => exact .inr ⟨rfl, h.create ht⟩
  | record r => exact .inl ⟨rfl, h.record ht⟩
  | checked r =>
    simp only [step] at ht
    split at ht
    · next done hpc =>
      cases ht
      have hflags := h.flags_eq hpc Pc.noConfusion
      rw [Pc.flags, List.append_nil] at hflags
      exact .inr ⟨rfl, h.goto (q := .create [] done) hpc (Function.update_self ..) rfl
        (by simp [Pc.callLeft]) (by simp [Pc.callLeft]) (.inr hflags)⟩
    · cases ht
  | taken r =>
    simp only [step] at ht
    split at ht
    · cases ht
      refine .inl ⟨rfl, Function.update_self .., .inr ⟨?_, h.locks⟩⟩
      simp [State.lockUn, State.ret, Event.requester]
    · cases ht
  | leave r =>
    simp only [step] at ht
    split at ht
    · next done hpc =>
      cases ht
      have hflags := h.flags_eq hpc Pc.noConfusion
      rw [Pc.flags, List.append_nil] at hflags
      exact .inr ⟨rfl, h.goto (q := .record done) hpc (Function.update_self ..) rfl Nat.one_pos
        (by simp [Pc.callLeft]) (.inr hflags)⟩
    · cases ht

/-- Step 1 returns at once or begins the call. -/
theorem lock_begins {flags : {l : List String // l.Nodup}} {error : Bool}
    (ht : step proc dirBase s (.lock r flags error) = some t) :
    Over t r flags.val (s.locks r) ∨
      InCall t r flags.val (s.locks r) ∧ (t.pc r).callLeft = 2 * flags.val.length + 3 := by
  simp only [step] at ht
  split_ifs at ht <;> cases ht
  · refine .inl ⟨Function.update_self .., .inr ⟨?_, rfl⟩⟩
    simp [State.ret]
  · have hpc : (s.setPc r (.check [] flags.val)).pc r = .check [] flags.val :=
      Function.update_self ..
    refine .inr ⟨⟨?_, .inr ?_, rfl⟩, ?_⟩
    · simp [hpc, Pc.callLeft]
    · simp [hpc, Pc.flags]
    · simp [hpc, Pc.callLeft]
  · refine .inl ⟨Function.update_self .., .inr ⟨?_, rfl⟩⟩
    simp [State.ret]

/-- The next call, made where its section allows it. -/
theorem next_call (proc : R → P) (dirBase : String) (s : State P R) (r : R)
    (hpc : (s.pc r).sectioned = true ∨ 0 < (s.pc r).callLeft) :
    ∃ e : Event R, e.requester = r ∧ (step proc dirBase s e).isSome ∧
      e.sectioned = (s.pc r).sectioned := by
  cases h : s.pc r with
  | idle =>
    refine ⟨.lock r ⟨[], List.nodup_nil⟩ true, rfl, ?_, rfl⟩
    simp only [step, h, ne_eq, not_true_eq_false, if_false, if_true, Option.isSome_some]
  | unlocking idx =>
    rw [h] at hpc
    rcases hpc with hpc | hpc <;> cases hpc
  | taken => exact ⟨.taken r, rfl, by simp only [step, h, if_true, Option.isSome_some], rfl⟩
  | record flags => exact ⟨.record r, rfl, by simp only [step, h, Option.isSome_some], rfl⟩
  | check done todo =>
    cases todo with
    | nil => exact ⟨.checked r, rfl, by simp only [step, h, Option.isSome_some], rfl⟩
    | cons f todo =>
      refine ⟨.check r (s.files (pathFlag dirBase f)), rfl, ?_, rfl⟩
      simp only [step, h]
      rw [if_neg (by cases s.files (pathFlag dirBase f) <;> simp)]
      rfl
  | create done todo =>
    cases todo with
    | nil => exact ⟨.leave r, rfl, by simp only [step, h, Option.isSome_some], rfl⟩
    | cons f todo => exact ⟨.create r true, rfl, by simp only [step, h, Option.isSome_some], rfl⟩

end

end SysFlags

namespace FlagMutex

/-! ## The machine with the mutex -/

/-- `globalLocksMtx` of a process. -/
inductive Mtx (R : Type)
  | free
  /-- The calls of the section are to be made. -/
  | entered (r : R)
  /-- They are made, the guard is to be destroyed. -/
  | through (r : R)
deriving DecidableEq

structure State (P R : Type) where
  flags : SysFlags.State P R
  mtx : P → Mtx R

inductive Event (R : Type)
  | acquire (r : R)
  | call (e : SysFlags.Event R)
  | release (r : R)

section

set_option linter.unusedSectionVars false

variable {P R : Type} [DecidableEq P] [DecidableEq R] (proc : R → P) (dirBase : String)

def Event.requester : Event R → R
  | .acquire r | .release r => r
  | .call e => e.requester

def Mtx.owner : Mtx R → Option R
  | .free => none
  | .entered r | .through r => some r

def State.setMtx (s : State P R) (p : P) (m : Mtx R) : State P R :=
  { s with mtx := Function.update s.mtx p m }

/-- The mutex after a call that was made with it. -/
def mtxAfter (e : SysFlags.Event R) : Mtx R :=
  if e.ends then .through e.requester else .entered e.requester

/-- One step; `none` if it cannot be made now. -/
def step (s : State P R) : Event R → Option (State P R)
  | .acquire r =>
    if s.mtx (proc r) = .free ∧ (s.flags.pc r).sectioned then
      some (s.setMtx (proc r) (.entered r))
    else none
  | .call e =>
    let p := proc e.requester
    if e.sectioned then
      if s.mtx p = .entered e.requester then
        (SysFlags.step proc dirBase s.flags e).map fun flags =>
          { s.setMtx p (mtxAfter e) with flags }
      else none
    else if (s.mtx p).owner = some e.requester then none
    else (SysFlags.step proc dirBase s.flags e).map fun flags => { s with flags }
  | .release r =>
    if s.mtx (proc r) = .through r then some (s.setMtx (proc r) .free) else none

/-- Nothing is locked, neither a flag nor the mutex of a process. -/
structure Initial (s : State P R) : Prop where
  flags : SysFlags.Initial s.flags
  mtx : ∀ p, s.mtx p = .free

def Step (s : State P R) (e : Event R) (t : State P R) : Prop := step proc dirBase s e = some t

/-- The states of all runs. -/
def Reached : State P R → Prop := Transition.Reachable Initial (Step proc dirBase)

/-- The state after a list of events, if each of them can happen. -/
def exec : State P R → List (Event R) → Option (State P R) :=
  Transition.run (step proc dirBase)

/-- What a step has done. -/
inductive Made (s : State P R) : Event R → State P R → Prop
  | acquire {r : R} (hm : s.mtx (proc r) = .free) (hpc : (s.flags.pc r).sectioned = true) :
    Made s (.acquire r) (s.setMtx (proc r) (.entered r))
  | inside {e : SysFlags.Event R} {flags : SysFlags.State P R} (hs : e.sectioned = true)
      (hm : s.mtx (proc e.requester) = .entered e.requester)
      (ht : SysFlags.step proc dirBase s.flags e = some flags) :
    Made s (.call e) { s.setMtx (proc e.requester) (mtxAfter e) with flags }
  | outside {e : SysFlags.Event R} {flags : SysFlags.State P R} (hs : e.sectioned = false)
      (hm : (s.mtx (proc e.requester)).owner ≠ some e.requester)
      (ht : SysFlags.step proc dirBase s.flags e = some flags) :
    Made s (.call e) { s with flags }
  | release {r : R} (hm : s.mtx (proc r) = .through r) :
    Made s (.release r) (s.setMtx (proc r) .free)

variable {proc dirBase} {s t u : State P R} {r o : R} {p : P} {m : Mtx R}

@[simp] theorem setMtx_flags : (s.setMtx p m).flags = s.flags := rfl

@[simp] theorem setMtx_self : (s.setMtx p m).mtx p = m := Function.update_self ..

theorem setMtx_of_ne {q : P} (h : q ≠ p) : (s.setMtx p m).mtx q = s.mtx q :=
  Function.update_of_ne h ..

theorem step_made {e : Event R} (ht : step proc dirBase s e = some t) :
    Made proc dirBase s e t := by
  cases e with
  | acquire r =>
    simp only [step] at ht
    split at ht
    · next h =>
      cases ht
      exact .acquire h.1 h.2
    · cases ht
  | call e =>
    simp only [step] at ht
    split at ht
    · next hs =>
      split at ht
      · next hm =>
        obtain ⟨flags, hf, rfl⟩ := Option.map_eq_some_iff.mp ht
        exact .inside hs hm hf
      · cases ht
    · next hs =>
      split at ht
      · cases ht
      · next hm =>
        obtain ⟨flags, hf, rfl⟩ := Option.map_eq_some_iff.mp ht
        exact .outside (Bool.eq_false_iff.mpr hs) hm hf
  | release r =>
    simp only [step] at ht
    split at ht
    · next h =>
      cases ht
      exact .release h
    · cases ht

/-! ## The machine without it -/

/-- A step is one of the system flags, or leaves them as they are. -/
theorem Made.flags {e : Event R} (h : Made proc dirBase s e t) :
    t.flags = s.flags ∨
      ∃ e', e = .call e' ∧ SysFlags.step proc dirBase s.flags e' = some t.flags := by
  cases h with
  | acquire | release => exact .inl rfl
  | inside hs hm ht | outside hs hm ht => exact .inr ⟨_, rfl, ht⟩

/-- The runs whose calls are orderly are orderly runs of the system flags. -/
theorem orderly_reached
    (h : Transition.Reachable Initial (Transition.guarded
      (fun s e => ∀ e', e = .call e' → SysFlags.Orderly proc dirBase s.flags e')
      (Step proc dirBase)) s) : SysFlags.Reached proc dirBase s.flags := by
  refine h.invariant (P := fun s => SysFlags.Reached proc dirBase s.flags)
    (fun s h0 => .start h0.flags) fun s e t hs hst => ?_
  rcases (step_made hst.2).flags with heq | ⟨e', rfl, ht⟩
  · rw [heq]
    exact hs
  · exact hs.step (hst.1 e' rfl) ht

/-- There a flag has one holder, as without the mutex. -/
theorem one_holder
    (h : Transition.Reachable Initial (Transition.guarded
      (fun s e => ∀ e', e = .call e' → SysFlags.Orderly proc dirBase s.flags e')
      (Step proc dirBase)) s) {r r' : R} {f : String} (hr : SysFlags.Holds s.flags r f)
    (hr' : SysFlags.Holds s.flags r' f) : r = r' :=
  (orderly_reached h).inv.holder_unique hr hr'

/-! ## Who has the mutex -/

structure Ok (proc : R → P) (s : State P R) : Prop where
  owner : ∀ p o, (s.mtx p).owner = some o → proc o = p
  entered : ∀ r, s.mtx (proc r) = .entered r → (s.flags.pc r).sectioned = true
  record : ∀ r flags, s.flags.pc r = .record flags → s.mtx (proc r) = .entered r

theorem mtxAfter_of_ends {e : SysFlags.Event R} (h : e.ends = true) :
    mtxAfter e = .through e.requester := if_pos h

theorem mtxAfter_of_goes_on {e : SysFlags.Event R} (h : e.ends = false) :
    mtxAfter e = .entered e.requester :=
  if_neg (by rw [h]; exact Bool.false_ne_true)

theorem mtxAfter_owner (e : SysFlags.Event R) : (mtxAfter e).owner = some e.requester := by
  cases h : e.ends with
  | true => rw [mtxAfter_of_ends h, Mtx.owner]
  | false => rw [mtxAfter_of_goes_on h, Mtx.owner]

theorem Initial.ok (h : Initial s) : Ok proc s := by
  refine ⟨fun p o ho => ?_, fun r hr => ?_, fun r flags hr => ?_⟩
  · rw [h.mtx] at ho
    cases ho
  · rw [h.mtx] at hr
    cases hr
  · rw [h.flags.pc] at hr
    cases hr

/-- A step of somebody else: `r` is where it was, and has the mutex as before. -/
theorem Made.other {e : Event R} (h : Made proc dirBase s e t) (he : e.requester ≠ r) :
    (t.flags.pc r = s.flags.pc r ∧ t.flags.locks r = s.flags.locks r ∧
      t.flags.result r = s.flags.result r) ∧
      (t.mtx (proc r) = s.mtx (proc r) ∨
        (s.mtx (proc r)).owner ≠ some r ∧ (t.mtx (proc r)).owner ≠ some r) := by
  have hset {m : Mtx R} {q : R} (hs : (s.mtx (proc q)).owner ≠ some r) (hm : m.owner ≠ some r) :
      (s.setMtx (proc q) m).mtx (proc r) = s.mtx (proc r) ∨
        (s.mtx (proc r)).owner ≠ some r ∧ ((s.setMtx (proc q) m).mtx (proc r)).owner ≠ some r := by
    rcases eq_or_ne (proc r) (proc q) with hp | hp
    · rw [hp, setMtx_self]
      exact .inr ⟨hs, hm⟩
    · exact .inl (setMtx_of_ne hp)
  have hne {q : R} (hq : q ≠ r) : some q ≠ some r := fun h => hq (Option.some.inj h)
  cases h with
  | acquire hm hpc =>
    exact ⟨⟨rfl, rfl, rfl⟩, hset (by rw [hm]; exact (Option.some_ne_none r).symm) (hne he)⟩
  | release hm =>
    exact ⟨⟨rfl, rfl, rfl⟩, hset (by rw [hm]; exact hne he) (Option.some_ne_none r).symm⟩
  | inside hs hm ht =>
    exact ⟨SysFlags.step_other he ht,
      hset (by rw [hm]; exact hne he) (by rw [mtxAfter_owner]; exact hne he)⟩
  | outside hs hm ht => exact ⟨SysFlags.step_other he ht, .inl rfl⟩

/-- The requester of the step itself. -/
theorem Made.own {e : Event R} (h : Made proc dirBase s e t) (hok : Ok proc s) :
    (t.mtx (proc e.requester) = .entered e.requester →
        (t.flags.pc e.requester).sectioned = true) ∧
      ∀ flags, t.flags.pc e.requester = .record flags →
        t.mtx (proc e.requester) = .entered e.requester := by
  cases h with
  | acquire hm hpc => exact ⟨fun _ => hpc, fun _ _ => setMtx_self⟩
  | @release r hm =>
    refine ⟨fun ht => ?_, fun flags hpc => ?_⟩
    · cases setMtx_self.symm.trans ht
    · cases hm.symm.trans (hok.record r flags hpc)
  | @inside e' _ hs hm ht =>
    cases he : e'.ends with
    | true =>
      refine ⟨fun hin => ?_, fun flags hpc => ?_⟩
      · cases (mtxAfter_of_ends he).symm.trans (setMtx_self.symm.trans hin)
      · cases he.symm.trans (SysFlags.step_record ht hpc).2
    | false =>
      -- step 4: the section goes on with step 5
      refine ⟨fun _ => ?_, fun _ _ => setMtx_self.trans (mtxAfter_of_goes_on he)⟩
      obtain ⟨-, flags, hpc⟩ := SysFlags.step_goes_on hs he ht
      exact (congrArg SysFlags.Pc.sectioned hpc).trans rfl
  | outside hs hm ht =>
    refine ⟨fun hin => ?_, fun flags hpc => ?_⟩
    · exact absurd (congrArg Mtx.owner hin) hm
    · cases hs.symm.trans (SysFlags.step_record ht hpc).1

/-- The mutex changes hands between threads of its process. -/
theorem Made.owner {e : Event R} (h : Made proc dirBase s e t) (hok : Ok proc s) {p : P} {o : R}
    (ho : (t.mtx p).owner = some o) : proc o = p := by
  have hset {m : Mtx R} {q : R} (hm : m.owner = none ∨ m.owner = some q)
      (ho : ((s.setMtx (proc q) m).mtx p).owner = some o) : proc o = p := by
    rcases eq_or_ne p (proc q) with rfl | hp
    · rw [setMtx_self] at ho
      rcases hm with hm | hm
      · cases hm.symm.trans ho
      · rw [Option.some.inj (ho.symm.trans hm)]
    · rw [setMtx_of_ne hp] at ho
      exact hok.owner p o ho
  cases h with
  | acquire hm hpc => exact hset (.inr rfl) ho
  | release hm => exact hset (.inl rfl) ho
  | inside hs hm ht => exact hset (.inr (mtxAfter_owner _)) ho
  | outside hs hm ht => exact hok.owner p o ho

theorem Made.ok {e : Event R} (h : Made proc dirBase s e t) (hok : Ok proc s) : Ok proc t := by
  refine ⟨fun p o => h.owner hok, fun r hr => ?_, fun r flags hr => ?_⟩
  · rcases eq_or_ne e.requester r with rfl | he
    · exact (h.own hok).1 hr
    · obtain ⟨⟨hpc, -⟩, hm | ⟨-, hm⟩⟩ := h.other he
      · exact hpc ▸ hok.entered r (hm ▸ hr)
      · exact absurd (congrArg Mtx.owner hr) hm
  · rcases eq_or_ne e.requester r with rfl | he
    · exact (h.own hok).2 flags hr
    · obtain ⟨⟨hpc, -⟩, hm⟩ := h.other he
      have hs := hok.record r flags (hpc ▸ hr)
      rcases hm with hm | ⟨hm, -⟩
      · exact hm.trans hs
      · exact absurd (congrArg Mtx.owner hs) hm

theorem Reached.ok (h : Reached proc dirBase s) : Ok proc s :=
  h.invariant (fun _ => Initial.ok) fun _ _ _ hok ht => (step_made ht).ok hok

/-! ## The next step -/

def CanGoOn (proc : R → P) (dirBase : String) (s : State P R) (r : R) : Prop :=
  ∃ e : Event R, e.requester = r ∧ (step proc dirBase s e).isSome

/-- Who has the mutex can go on. -/
theorem Ok.owner_goes_on (h : Ok proc s) (dirBase : String)
    (ho : (s.mtx (proc r)).owner = some r) : CanGoOn proc dirBase s r := by
  cases hm : s.mtx (proc r) with
  | free =>
    rw [hm] at ho
    cases ho
  | through o =>
    rw [hm] at ho
    obtain rfl : o = r := Option.some.inj ho
    exact ⟨.release o, rfl, by simp only [step, hm, if_true, Option.isSome_some]⟩
  | entered o =>
    rw [hm] at ho
    obtain rfl : o = r := Option.some.inj ho
    have hpc := h.entered o hm
    obtain ⟨e, rfl, he, hs⟩ := SysFlags.next_call proc dirBase s.flags o (.inl hpc)
    refine ⟨.call e, rfl, ?_⟩
    simp only [step, hs, hpc, if_true, hm, Option.isSome_map]
    exact he

/-- The steps up to the end of the section, at most. -/
def Mtx.left : Mtx R → SysFlags.Pc → Nat
  | .free, _ => 0
  | .entered _, .create _ _ => 3
  | .entered _, _ => 2
  | .through _, _ => 1

theorem Mtx.left_entered_pos (o : R) (pc : SysFlags.Pc) : 2 ≤ (Mtx.entered o).left pc := by
  cases pc with
  | create => exact Nat.le_succ 2
  | idle | check | taken | record | unlocking => exact Nat.le_refl 2

theorem Mtx.left_le (m : Mtx R) (pc : SysFlags.Pc) : m.left pc ≤ 3 := by
  cases m with
  | free => exact Nat.zero_le 3
  | through o => exact Nat.le_add_left 1 2
  | entered o =>
    cases pc with
    | create => exact Nat.le_refl 3
    | idle | check | taken | record | unlocking => exact Nat.le_succ 2

theorem Mtx.left_pos {pc : SysFlags.Pc} (h : m.owner = some r) : 0 < m.left pc := by
  cases m with
  | free => cases h
  | entered o => exact Nat.lt_of_lt_of_le Nat.two_pos (Mtx.left_entered_pos o pc)
  | through o => exact Nat.one_pos

/-- The number of steps of `r`. -/
def ownSteps (r : R) (es : List (Event R)) : Nat := es.countP (·.requester = r)

/-- However the others go on, `r` gives the mutex of its process back within three steps of its
own, and can always make the next one. -/
def GivesBack (proc : R → P) (dirBase : String) (s : State P R) (r : R) : Prop :=
  ∀ es t, exec proc dirBase s es = some t →
    (∃ pre post u, es = pre ++ post ∧ exec proc dirBase s pre = some u ∧
      u.mtx (proc r) = .free ∧ ownSteps r pre ≤ 3) ∨
    ownSteps r es < 3 ∧ CanGoOn proc dirBase t r

/-- One of these steps. -/
theorem Made.held {e : Event R} (h : Made proc dirBase s e t)
    (ho : (s.mtx (proc e.requester)).owner = some e.requester) :
    t.mtx (proc e.requester) = .free ∨
      (t.mtx (proc e.requester)).owner = some e.requester ∧
        (t.mtx (proc e.requester)).left (t.flags.pc e.requester) + 1 ≤
          (s.mtx (proc e.requester)).left (s.flags.pc e.requester) := by
  cases h with
  | acquire hm hpc =>
    rw [Event.requester, hm] at ho
    cases ho
  | release hm => exact .inl setMtx_self
  | outside hs hm ht => exact absurd ho hm
  | @inside e' flags hs hm ht =>
    have hmtx : (s.setMtx (proc e'.requester) (mtxAfter e')).mtx (proc e'.requester) =
        mtxAfter e' := setMtx_self
    simp only [Event.requester, hm, hmtx]
    refine .inr ⟨mtxAfter_owner e', ?_⟩
    cases he : e'.ends with
    | true =>
      rw [mtxAfter_of_ends he]
      exact Mtx.left_entered_pos _ _
    | false =>
      rw [mtxAfter_of_goes_on he]
      obtain ⟨⟨done, hpc⟩, flags', hpc'⟩ := SysFlags.step_goes_on hs he ht
      rw [hpc, hpc']
      exact Nat.le_refl 3

theorem Ok.gives_back (h : Ok proc s) (dirBase : String)
    (ho : (s.mtx (proc r)).owner = some r) : GivesBack proc dirBase s r := by
  intro es t hrun
  have hleft := (s.mtx (proc r)).left_le (s.flags.pc r)
  have hall : (∃ pre post u, es = pre ++ post ∧ exec proc dirBase s pre = some u ∧
        u.mtx (proc r) = .free ∧ ownSteps r pre ≤ (s.mtx (proc r)).left (s.flags.pc r)) ∨
      (Ok proc t ∧ (t.mtx (proc r)).owner = some r) ∧
        ownSteps r es + (t.mtx (proc r)).left (t.flags.pc r) ≤
          (s.mtx (proc r)).left (s.flags.pc r) := by
    refine Transition.run_ranked (P := fun s => Ok proc s ∧ (s.mtx (proc r)).owner = some r)
      (Q := fun s => s.mtx (proc r) = .free) (m := fun s => (s.mtx (proc r)).left (s.flags.pc r))
      (fun s e t hs he ht => ?_) (fun s e t hs he ht => ?_) (fun s hs => Mtx.left_pos hs.2)
      ⟨h, ho⟩ hrun
    · obtain rfl := of_decide_eq_true he
      have hmade := step_made ht
      exact (hmade.held hs.2).imp_right fun hin => ⟨⟨hmade.ok hs.1, hin.1⟩, hin.2⟩
    · have hmade := step_made ht
      obtain ⟨⟨hpc, -⟩, hm⟩ := hmade.other (of_decide_eq_false he)
      have hmtx : t.mtx (proc r) = s.mtx (proc r) := hm.resolve_right fun hno => hno.1 hs.2
      exact ⟨⟨hmade.ok hs.1, hmtx ▸ hs.2⟩, Nat.le_of_eq (by rw [hmtx, hpc])⟩
  rcases hall with ⟨pre, post, u, hes, hpre, hfree, hle⟩ | ⟨⟨hok, hown⟩, hle⟩
  · exact .inl ⟨pre, post, u, hes, hpre, hfree, Nat.le_trans hle hleft⟩
  · have hpos : 0 < (t.mtx (proc r)).left (t.flags.pc r) := Mtx.left_pos hown
    refine .inr ⟨?_, hok.owner_goes_on dirBase hown⟩
    exact Nat.lt_of_lt_of_le (Nat.lt_of_lt_of_le (Nat.lt_add_of_pos_right hpos) hle) hleft

/-! ## Calls -/

/-- The call has returned, without the mutex. -/
structure Returned (proc : R → P) (s : State P R) (r : R) (names locks : List String) : Prop where
  ended : SysFlags.Over s.flags r names locks
  mtx : (s.mtx (proc r)).owner ≠ some r

/-- A call under way. -/
inductive Calling (proc : R → P) (s : State P R) (r : R) (names locks : List String) : Prop
  | inside (h : SysFlags.InCall s.flags r names locks)
  /-- All that is left is to give the mutex back. -/
  | closing (h : SysFlags.Over s.flags r names locks) (hm : s.mtx (proc r) = .through r)

/-- The steps with the mutex that the call is still to make, besides its calls. -/
def Mtx.callLeft (m : Mtx R) (r : R) (pc : SysFlags.Pc) : Nat :=
  if m = .entered r then 1 else if m = .through r then if pc = .idle then 1 else 3 else 2

def State.callLeft (proc : R → P) (s : State P R) (r : R) : Nat :=
  (s.flags.pc r).callLeft + (s.mtx (proc r)).callLeft r (s.flags.pc r)

variable {pc : SysFlags.Pc} {names locks : List String}

theorem Mtx.callLeft_entered : (Mtx.entered r).callLeft r pc = 1 := if_pos rfl

theorem Mtx.callLeft_idle : (Mtx.through r).callLeft r .idle = 1 := by simp [Mtx.callLeft]

theorem Mtx.callLeft_through (hpc : pc ≠ .idle) : (Mtx.through r).callLeft r pc = 3 := by
  simp [Mtx.callLeft, hpc]

theorem Mtx.callLeft_without (hm : m.owner ≠ some r) : m.callLeft r pc = 2 := by
  have hne {m' : Mtx R} (hown : m'.owner = some r) : m ≠ m' := fun he => hm (he ▸ hown)
  rw [Mtx.callLeft, if_neg (hne rfl), if_neg (hne rfl)]

theorem Mtx.callLeft_pos : 0 < m.callLeft r pc := by
  unfold Mtx.callLeft
  split_ifs <;> exact Nat.succ_pos _

/-- A step of somebody else. -/
theorem Calling.other (h : Calling proc s r names locks) {e : Event R} (he : e.requester ≠ r)
    (ht : step proc dirBase s e = some t) :
    Calling proc t r names locks ∧ t.callLeft proc r = s.callLeft proc r := by
  obtain ⟨⟨hpc, hlocks, hres⟩, hm⟩ := (step_made ht).other he
  constructor
  · cases h with
    | inside h => exact .inside ⟨hpc ▸ h.left, hpc ▸ h.flags, hlocks.trans h.locks⟩
    | closing h hthrough =>
      refine .closing ⟨hpc ▸ h.pc, ?_⟩ ?_
      · rw [hres, hlocks]
        exact h.outcome
      · rcases hm with hm | ⟨hm, -⟩
        · exact hm.trans hthrough
        · exact absurd (congrArg Mtx.owner hthrough) hm
  · rw [State.callLeft, State.callLeft, hpc]
    rcases hm with hm | ⟨hs, ht⟩
    · rw [hm]
    · rw [Mtx.callLeft_without hs, Mtx.callLeft_without ht]

/-- A step of the call itself: the mutex is taken and given back, or the call goes on. -/
theorem Calling.own (h : Calling proc s r names locks) {e : Event R} (he : e.requester = r)
    (ht : step proc dirBase s e = some t) :
    Returned proc t r names locks ∨
      Calling proc t r names locks ∧ t.callLeft proc r + 1 ≤ s.callLeft proc r := by
  simp only [State.callLeft]
  cases step_made ht with
  | @acquire q hm hpc =>
    obtain rfl : q = r := he
    cases h with
    | closing h hthrough => cases hm.symm.trans hthrough
    | inside h =>
      have hno : (s.mtx (proc q)).owner ≠ some q := by
        rw [hm]
        exact (Option.some_ne_none q).symm
      refine .inr ⟨.inside h, Nat.le_of_eq ?_⟩
      rw [setMtx_self, setMtx_flags, Mtx.callLeft_entered, Mtx.callLeft_without hno]
  | @release q hm =>
    obtain rfl : q = r := he
    have hno : ((s.setMtx (proc q) .free).mtx (proc q)).owner ≠ some q := by
      rw [setMtx_self]
      exact (Option.some_ne_none q).symm
    cases h with
    | closing h hthrough => exact .inl ⟨h, hno⟩
    | inside h =>
      refine .inr ⟨.inside h, Nat.le_of_eq ?_⟩
      rw [setMtx_flags, hm, Mtx.callLeft_through (h.not_at rfl), Mtx.callLeft_without hno]
  | @inside e flags hs hm hf =>
    obtain rfl : e.requester = r := he
    cases h with
    | closing h hthrough => cases hm.symm.trans hthrough
    | inside h =>
      have hmtx : (s.setMtx (proc e.requester) (mtxAfter e)).mtx (proc e.requester) = mtxAfter e :=
        setMtx_self
      have hpos := h.left
      simp only [hmtx, hm, Mtx.callLeft_entered]
      rcases h.own rfl hf with ⟨hends, hover⟩ | ⟨hends, hin, hle⟩
      · have hthrough := mtxAfter_of_ends hends
        refine .inr ⟨.closing hover (hmtx.trans hthrough), ?_⟩
        rw [hthrough, hover.pc, Mtx.callLeft_idle]
        exact Nat.succ_le_succ hpos
      · refine .inr ⟨.inside hin, ?_⟩
        rw [mtxAfter_of_goes_on hends, Mtx.callLeft_entered]
        exact Nat.succ_le_succ hle
  | @outside e flags hs hm hf =>
    obtain rfl : e.requester = r := he
    cases h with
    | closing h hthrough => exact absurd (congrArg Mtx.owner hthrough) hm
    | inside h =>
      -- the last call of a section is made with the mutex, so the call is not over
      rcases h.own rfl hf with ⟨hends, -⟩ | ⟨-, hin, hle⟩
      · cases hs.symm.trans (SysFlags.Event.sectioned_of_ends hends)
      · refine .inr ⟨.inside hin, ?_⟩
        rw [Mtx.callLeft_without hm, Mtx.callLeft_without hm, Nat.add_right_comm]
        exact Nat.add_le_add_right hle 2

/-- A call under way can go on, or waits for the mutex of its process. -/
theorem Calling.goes_on (h : Calling proc s r names locks) (hok : Ok proc s) (dirBase : String) :
    CanGoOn proc dirBase s r ∨ (s.flags.pc r).sectioned = true ∧
      ∃ o, o ≠ r ∧ proc o = proc r ∧ (s.mtx (proc r)).owner = some o := by
  by_cases hmine : (s.mtx (proc r)).owner = some r
  · exact .inl (hok.owner_goes_on dirBase hmine)
  · -- without the mutex the next call is made outside of the sections, or the mutex is needed first
    cases h with
    | closing h hthrough => exact absurd (congrArg Mtx.owner hthrough) hmine
    | inside h =>
      obtain ⟨e, rfl, he, hs⟩ := SysFlags.next_call proc dirBase s.flags r (.inr h.left)
      cases hsec : (s.flags.pc e.requester).sectioned with
      | false =>
        refine .inl ⟨.call e, rfl, ?_⟩
        simp only [step, hs, hsec, Bool.false_eq_true, if_false, if_neg hmine, Option.isSome_map]
        exact he
      | true =>
        cases hm : s.mtx (proc e.requester) with
        | free =>
          refine .inl ⟨.acquire e.requester, rfl, ?_⟩
          simp only [step, hm, hsec, and_self, if_true, Option.isSome_some]
        | entered o | through o =>
          have ho : (s.mtx (proc e.requester)).owner = some o := congrArg Mtx.owner hm
          refine .inr ⟨rfl, o, ?_, hok.owner _ o ho, rfl⟩
          rintro rfl
          exact hmine ho

/-- The mutex of step 1 is held when `flock` has answered. -/
theorem lock_calling {flags : {l : List String // l.Nodup}} {error : Bool}
    (ht : step proc dirBase s (.call (.lock r flags error)) = some t) :
    Calling proc t r flags.val (s.flags.locks r) ∧
      t.callLeft proc r ≤ 2 * flags.val.length + 6 := by
  simp only [State.callLeft]
  cases step_made ht with
  | outside hs hm hf => cases hs
  | @inside e t' hs hm hf =>
    have hmtx : (s.setMtx (proc r) (.through r)).mtx (proc r) = .through r := setMtx_self
    rcases SysFlags.lock_begins hf with hover | ⟨hin, hleft⟩
    · have hthrough : ((s.setMtx (proc r) (.through r)).mtx (proc r)).callLeft r (t'.pc r) = 1 := by
        rw [hmtx, hover.pc, Mtx.callLeft_idle]
      have hsum := congrArg₂ (· + ·) (congrArg SysFlags.Pc.callLeft hover.pc) hthrough
      exact ⟨.closing hover hmtx, Nat.le_trans (Nat.le_of_eq hsum) (Nat.le_add_left 1 _)⟩
    · have hthrough : ((s.setMtx (proc r) (.through r)).mtx (proc r)).callLeft r (t'.pc r) = 3 := by
        rw [hmtx, Mtx.callLeft_through (hin.not_at rfl)]
      have hsum := congrArg₂ (· + ·) hleft hthrough
      exact ⟨.inside hin, Nat.le_of_eq hsum⟩

/-- A call of `sysFlagsIntLock` that has the mutex for its `flock`, however the steps of other
threads and processes come in between and whatever the system calls answer. It returns within
`2 * n + 6` steps of its own, with all of its `n` flags locked or none of them. Or it has made fewer
and can make the next one, unless it waits for the mutex of its process; the thread that has it can
go on and gives it back within three steps of its own. -/
theorem lock_calls_return (h : Reached proc dirBase s) {flags : {l : List String // l.Nodup}}
    {error : Bool} {es : List (Event R)}
    (hlock : step proc dirBase s (.call (.lock r flags error)) = some t)
    (hrun : exec proc dirBase t es = some u) :
    (∃ pre post v, es = pre ++ post ∧ exec proc dirBase t pre = some v ∧
        Returned proc v r flags.val (s.flags.locks r) ∧
        ownSteps r pre ≤ 2 * flags.val.length + 6) ∨
      ownSteps r es < 2 * flags.val.length + 6 ∧
        (CanGoOn proc dirBase u r ∨ (u.flags.pc r).sectioned = true ∧
          ∃ o, o ≠ r ∧ proc o = proc r ∧ (u.mtx (proc r)).owner = some o ∧
            CanGoOn proc dirBase u o ∧ GivesBack proc dirBase u o) := by
  obtain ⟨hcall, hleft⟩ := lock_calling hlock
  have hall : (∃ pre post v, es = pre ++ post ∧ exec proc dirBase t pre = some v ∧
        Returned proc v r flags.val (s.flags.locks r) ∧ ownSteps r pre ≤ t.callLeft proc r) ∨
      (Ok proc u ∧ Calling proc u r flags.val (s.flags.locks r)) ∧
        ownSteps r es + u.callLeft proc r ≤ t.callLeft proc r := by
    refine Transition.run_ranked
      (P := fun t => Ok proc t ∧ Calling proc t r flags.val (s.flags.locks r))
      (Q := fun t => Returned proc t r flags.val (s.flags.locks r))
      (m := fun t => t.callLeft proc r) (fun t e t' ht he hst => ?_) (fun t e t' ht he hst => ?_)
      (fun t _ => Nat.add_pos_right _ Mtx.callLeft_pos) ⟨(step_made hlock).ok h.ok, hcall⟩ hrun
    · exact (ht.2.own (of_decide_eq_true he) hst).imp_right fun hin =>
        ⟨⟨(step_made hst).ok ht.1, hin.1⟩, hin.2⟩
    · obtain ⟨hcall', heq⟩ := ht.2.other (of_decide_eq_false he) hst
      exact ⟨⟨(step_made hst).ok ht.1, hcall'⟩, Nat.le_of_eq heq⟩
  rcases hall with ⟨pre, post, v, hes, hpre, hret, hle⟩ | ⟨⟨hok, hcall'⟩, hle⟩
  · exact .inl ⟨pre, post, v, hes, hpre, hret, Nat.le_trans hle hleft⟩
  · have hpos : 0 < u.callLeft proc r := Nat.add_pos_right _ Mtx.callLeft_pos
    refine .inr ⟨by omega, (hcall'.goes_on hok dirBase).imp_right ?_⟩
    rintro ⟨hpc, o, hne, hp, ho⟩
    have hmine : (u.mtx (proc o)).owner = some o := by rw [hp, ho]
    exact ⟨hpc, o, hne, hp, ho, hok.owner_goes_on dirBase hmine, hok.gives_back dirBase hmine⟩

end

/-- No files, nobody in the directory. -/
def start : State Bool Bool := ⟨SysFlags.start, fun _ => .free⟩

/-- Two threads of one process; the other one has the mutex when the first one is to release the
file lock. -/
def interrupted : List (Event Bool) :=
  [.release false, .call (.check false false), .call (.checked false), .call (.create false true),
    .acquire true]

theorem lock_calls_return_interrupted :
    ∃ s t u, step (fun _ : Bool => false) "/var/lock/" start (.acquire false) = some s ∧
      step (fun _ => false) "/var/lock/" s (.call (.lock false SysFlags.flagA false)) = some t ∧
      exec (fun _ => false) "/var/lock/" t interrupted = some u ∧
      ((∃ pre post v, interrupted = pre ++ post ∧
          exec (fun _ => false) "/var/lock/" t pre = some v ∧
          Returned (fun _ => false) v false SysFlags.flagA.val (s.flags.locks false) ∧
          ownSteps false pre ≤ 2 * SysFlags.flagA.val.length + 6) ∨
        ownSteps false interrupted < 2 * SysFlags.flagA.val.length + 6 ∧
          (CanGoOn (fun _ => false) "/var/lock/" u false ∨ (u.flags.pc false).sectioned = true ∧
            ∃ o, o ≠ false ∧ false = false ∧ (u.mtx false).owner = some o ∧
              CanGoOn (fun _ => false) "/var/lock/" u o ∧
              GivesBack (fun _ => false) "/var/lock/" u o)) := by
  have h0 : Reached (fun _ : Bool => false) "/var/lock/" start :=
    .start ⟨SysFlags.start_initial, fun _ => rfl⟩
  have h1 : Reached (fun _ : Bool => false) "/var/lock/" (start.setMtx false (.entered false)) :=
    .next h0 (i := .acquire false) rfl
  have hlock : step (fun _ : Bool => false) "/var/lock/" (start.setMtx false (.entered false))
      (.call (.lock false SysFlags.flagA false)) = some _ := rfl
  exact ⟨_, _, _, rfl, hlock, rfl, lock_calls_return h1 hlock rfl⟩

end FlagMutex
end ProcessingCommon

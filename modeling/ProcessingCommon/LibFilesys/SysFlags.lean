import Mathlib.Data.List.Nodup
import Mathlib.Logic.Function.Basic
import ProcessingCommon.Lib.Transition
import ProcessingCommon.Processing

/-!
# System flags (`LibFilesys.cpp`)

A system flag is a file in the lock directory. `sysFlagsIntLock` takes a set of
flags at once: under the file lock it checks that none of the files exists and then
creates them all. Two mechanisms guard that section. `flock` keeps other processes
out, since each has its own open file description of the lock file. The mutex of the
process is held around the `flock` call only, and the file lock is granted once more to
whoever asks through the same descriptor; so nothing keeps a second thread out.

The machine below makes one step for each system call, and no mutex makes anybody wait: it has all
the interleavings of the code and some more, in which steps 4 and 5 are not made at once.
`FlagMutex` adds the mutex. `mutual_exclusion` holds in the runs in which no thread enters the
section beside another one of its process and `fopen` tells the truth; `two_threads` is the run in
which a second thread does enter.
-/

namespace ProcessingCommon
namespace SysFlags

/-! ## State -/

/-- Where a requester is in `sysFlagsIntLock` or `sysFlagsIntUnlock`. -/
inductive Pc
  | idle
  /-- Step 2: `done` do not exist, `todo` is still to be checked. -/
  | check (done todo : List String)
  /-- Step 2: a flag exists, the file lock is to be released. -/
  | taken
  /-- Step 3: `done` are created, `todo` is to be created. -/
  | create (done todo : List String)
  /-- Step 5: the file lock is released, the flags are to be listed. -/
  | record (flags : List String)
  /-- The loop of the unlock; the iterator is at `idx`. -/
  | unlocking (idx : Nat)
deriving DecidableEq

structure State (P R : Type) where
  /-- The process whose descriptor has the file lock. -/
  holder : Option P
  files : String → Bool
  globalLocks : P → String → Option R
  /-- The list `pLocks` of each requester. -/
  locks : R → List String
  pc : R → Pc
  /-- What the last call of `sysFlagsIntLock` returned. -/
  result : R → Success

/-- The system calls, and what the environment decides about them. -/
inductive Event (R : Type)
  /-- Step 1: `flock(LOCK_EX | LOCK_NB)`. -/
  | lock (r : R) (flags : {l : List String // l.Nodup}) (error : Bool)
  /-- Step 2: `fileExists` of the next flag. -/
  | check (r : R) (opened : Bool)
  | checked (r : R)
  | taken (r : R)
  /-- Step 3: `fileCreate` of the next flag. -/
  | create (r : R) (created : Bool)
  /-- Step 4: `flock(LOCK_UN)`. -/
  | leave (r : R)
  | record (r : R)
  | unlock (r : R)
  /-- `remove` and `erase`; `next` is where `++` takes an iterator that is at the end. -/
  | remove (r : R) (removed : Bool) (next : Nat)
  | unlocked (r : R)

section

set_option linter.unusedSectionVars false

variable {P R : Type} [DecidableEq P] [DecidableEq R] (proc : R → P) (dirBase : String)

def pathFlag (dirBase name : String) : String := dirBase ++ name

def State.setPc (s : State P R) (r : R) (pc : Pc) : State P R :=
  { s with pc := Function.update s.pc r pc }

/-- `sysFlagsIntLock` returns. -/
def State.ret (s : State P R) (r : R) (res : Success) : State P R :=
  { s.setPc r .idle with result := Function.update s.result r res }

/-- `LOCK_UN` through the descriptor of process `p`. -/
def State.lockUn (s : State P R) (p : P) : State P R :=
  { s with holder := if s.holder = some p then none else s.holder }

def State.fileSet (s : State P R) (path : String) (val : Bool) : State P R :=
  { s with files := Function.update s.files path val }

/-- `++` of an iterator that `erase` has left at `idx` in a list of `n`. At the end it
is undefined where it goes. -/
def iterNext (idx n next : Nat) : Option Nat :=
  if idx < n then some (idx + 1) else if next ≤ n then some next else none

/-- One step; `none` if the requester is somewhere else. -/
def step (s : State P R) : Event R → Option (State P R)
  | .lock r flags error =>
    if s.pc r ≠ .idle then none
    else if error then some (s.ret r .negative)
    else if s.holder = none ∨ s.holder = some (proc r) then
      some { s.setPc r (.check [] flags.val) with holder := some (proc r) }
    else some (s.ret r .pending)
  | .check r opened =>
    match s.pc r with
    | .check done (f :: todo) =>
      if opened ∧ s.files (pathFlag dirBase f) = false then none
      else some (s.setPc r (if opened then .taken else .check (done ++ [f]) todo))
    | _ => none
  | .checked r =>
    match s.pc r with
    | .check done [] => some (s.setPc r (.create [] done))
    | _ => none
  | .taken r => if s.pc r = .taken then some ((s.ret r .pending).lockUn (proc r)) else none
  | .create r created =>
    match s.pc r with
    | .create done (f :: todo) =>
      let s := s.setPc r (.create (done ++ [f]) todo)
      some (if created then s.fileSet (pathFlag dirBase f) true else s)
    | _ => none
  | .leave r =>
    match s.pc r with
    | .create done [] => some ((s.setPc r (.record done)).lockUn (proc r))
    | _ => none
  | .record r =>
    match s.pc r with
    | .record flags =>
      some { s.ret r .positive with
        locks := Function.update s.locks r (s.locks r ++ flags)
        globalLocks := Function.update s.globalLocks (proc r)
          fun f => if f ∈ flags then some r else s.globalLocks (proc r) f }
    | _ => none
  | .unlock r =>
    if s.pc r ≠ .idle ∨ s.locks r = [] then none
    else
      some { s.setPc r (.unlocking 0) with
        globalLocks := Function.update s.globalLocks (proc r)
          fun f => if f ∈ s.locks r then none else s.globalLocks (proc r) f }
  | .remove r removed next =>
    match s.pc r with
    | .unlocking idx =>
      match (s.locks r)[idx]?, iterNext idx ((s.locks r).length - 1) next with
      | some f, some idx' =>
        let s := { s.setPc r (.unlocking idx') with
          locks := Function.update s.locks r ((s.locks r).eraseIdx idx) }
        some (if removed then s.fileSet (pathFlag dirBase f) false else s)
      | _, _ => none
    | _ => none
  | .unlocked r =>
    match s.pc r with
    | .unlocking idx => if idx = (s.locks r).length then some (s.setPc r .idle) else none
    | _ => none

/-- The requester got `Positive` for the flag and has not unlocked it. -/
def Holds (s : State P R) (r : R) (f : String) : Prop := f ∈ s.locks r

instance (s : State P R) (r : R) (f : String) : Decidable (Holds s r f) :=
  inferInstanceAs (Decidable (f ∈ s.locks r))

/-- Nothing is locked; the lock directory may have files of earlier runs. -/
structure Initial (s : State P R) : Prop where
  holder : s.holder = none
  locks : ∀ r, s.locks r = []
  pc : ∀ r, s.pc r = .idle

/-! ## The condition on a step -/

/-- Between `LOCK_EX` and `LOCK_UN`. -/
def Pc.inSection : Pc → Bool
  | .check _ _ | .taken | .create _ _ => true
  | _ => false

/-- No other thread of the process is between `LOCK_EX` and `LOCK_UN`, an existing flag
can be opened, and a flag can be created. -/
def Orderly (s : State P R) : Event R → Prop
  | .lock r _ error => error = false → ∀ r', r' ≠ r → proc r' = proc r → (s.pc r').inSection = false
  | .check r opened =>
    ∀ done f todo, s.pc r = .check done (f :: todo) →
      s.files (pathFlag dirBase f) = true → opened = true
  | .create _ created => created = true
  | _ => True

/-! ## Invariant -/

/-- The flags of the call. -/
def Pc.flags : Pc → List String
  | .check done todo | .create done todo => done ++ todo
  | .record flags => flags
  | _ => []

/-- The files of the call that exist and are not listed yet. -/
def Pc.created : Pc → List String
  | .create done _ => done
  | .record flags => flags
  | _ => []

/-- The files that the call relies on not to exist. -/
def Pc.absent : Pc → List String
  | .check done _ => done
  | .create _ todo => todo
  | _ => []

theorem Pc.absent_eq_nil {pc : Pc} (h : pc.inSection = false) : pc.absent = [] := by
  cases pc with
  | idle | taken | record | unlocking => rfl
  | check | create => cases h

/-- The flags that belong to a requester, listed or not. -/
def State.owned (s : State P R) (r : R) : List String := s.locks r ++ (s.pc r).created

structure Inv (s : State P R) : Prop where
  flags_nodup : ∀ r, (s.pc r).flags.Nodup
  owned_nodup : ∀ r, (s.owned r).Nodup
  exist : ∀ r, ∀ f ∈ s.owned r, s.files (pathFlag dirBase f) = true
  unique : ∀ r r', ∀ f ∈ s.owned r, f ∈ s.owned r' → r = r'
  absent : ∀ r, ∀ f ∈ (s.pc r).absent, s.files (pathFlag dirBase f) = false
  holder : ∀ r, (s.pc r).inSection = true → s.holder = some (proc r)
  alone : ∀ r r', (s.pc r).inSection = true → (s.pc r').inSection = true → r = r'

variable {proc dirBase} {s t : State P R}

theorem pathFlag_inj {f g : String} : pathFlag dirBase f = pathFlag dirBase g ↔ f = g :=
  String.append_right_inj dirBase

theorem Initial.inv (h : Initial s) : Inv proc dirBase s := by
  have ho : ∀ r, s.owned r = [] := fun r => by rw [State.owned, h.locks, h.pc]; rfl
  constructor
  · exact fun r => by rw [h.pc]; exact List.nodup_nil
  · exact fun r => by rw [ho]; exact List.nodup_nil
  · exact fun r f hf => by rw [ho] at hf; cases hf
  · exact fun r r' f hf => by rw [ho] at hf; cases hf
  · exact fun r f hf => by rw [h.pc] at hf; cases hf
  · exact fun r hr => by rw [h.pc] at hr; cases hr
  · exact fun r r' hr => by rw [h.pc] at hr; cases hr

/-- Only `r` is somewhere else now. -/
theorem update_pc {q : R → Pc → Prop} {r : R} {pc : Pc} (ht : t.pc = Function.update s.pc r pc)
    (hr : q r pc) (ho : ∀ r', r' ≠ r → q r' (s.pc r')) (r' : R) : q r' (t.pc r') := by
  rw [ht]
  by_cases he : r' = r
  · subst he
    rw [Function.update_self]
    exact hr
  · rw [Function.update_of_ne he]
    exact ho r' he

theorem owned_eq {r : R} {pc : Pc} (ht : t.pc = Function.update s.pc r pc)
    (hl : t.locks = s.locks) (hc : pc.created = (s.pc r).created) (r' : R) :
    t.owned r' = s.owned r' := by
  rw [State.owned, hl]
  exact update_pc (q := fun r' q => s.locks r' ++ q.created = s.owned r') ht (by rw [hc]; rfl)
    (fun _ _ => rfl) r'

/-- A requester goes on, and neither the files nor what anybody owns changes. -/
theorem Inv.goto (h : Inv proc dirBase s) {r : R} (pc : Pc) (ht : t.pc = Function.update s.pc r pc)
    (hf : t.files = s.files) (ho : ∀ r', t.owned r' = s.owned r') (hn : pc.flags.Nodup)
    (ha : ∀ f ∈ pc.absent, s.files (pathFlag dirBase f) = false)
    (hin : pc.inSection = true →
      t.holder = some (proc r) ∧ ∀ r', r' ≠ r → (s.pc r').inSection = false)
    (hout : ∀ r', r' ≠ r → (s.pc r').inSection = true → t.holder = s.holder) :
    Inv proc dirBase t where
  flags_nodup := update_pc (q := fun _ q => q.flags.Nodup) ht hn fun r' _ => h.flags_nodup r'
  owned_nodup r' := by rw [ho]; exact h.owned_nodup r'
  exist r' f hm := by rw [hf]; rw [ho] at hm; exact h.exist r' f hm
  unique r' r'' f hm hm' := by rw [ho] at hm hm'; exact h.unique r' r'' f hm hm'
  absent := update_pc (q := fun _ q => ∀ f ∈ q.absent, t.files (pathFlag dirBase f) = false) ht
    (by rw [hf]; exact ha) fun r' _ => by rw [hf]; exact h.absent r'
  holder := update_pc (q := fun r' q => q.inSection = true → t.holder = some (proc r')) ht
    (fun hs => (hin hs).1) fun r' he hs => (hout r' he hs).trans (h.holder r' hs)
  alone := by
    have hone : ∀ r', (t.pc r').inSection = true →
        r' = r ∧ pc.inSection = true ∨ r' ≠ r ∧ (s.pc r').inSection = true :=
      update_pc (q := fun r' q => q.inSection = true →
        r' = r ∧ pc.inSection = true ∨ r' ≠ r ∧ (s.pc r').inSection = true) ht
        (fun hs => .inl ⟨rfl, hs⟩) fun r' he hs => .inr ⟨he, hs⟩
    intro r' r'' hs hs'
    rcases hone r' hs with ⟨rfl, hp⟩ | ⟨hne, hp⟩ <;> rcases hone r'' hs' with ⟨rfl, hp'⟩ | ⟨hne', hp'⟩
    · rfl
    · rw [(hin hp).2 r'' hne'] at hp'
      cases hp'
    · rw [(hin hp').2 r' hne] at hp
      cases hp
    · exact h.alone r' r'' hp hp'

/-- The only requester in the section stays in it. -/
theorem Inv.stay (h : Inv proc dirBase s) {r : R} (hr : (s.pc r).inSection = true) :
    s.holder = some (proc r) ∧ ∀ r', r' ≠ r → (s.pc r').inSection = false :=
  ⟨h.holder r hr, fun r' he => by
    rw [Bool.eq_false_iff]
    exact fun hs => he (h.alone r' r hs hr)⟩

/-- Nobody else is in the section when one leaves it. -/
theorem Inv.leave (h : Inv proc dirBase s) {r : R} (hr : (s.pc r).inSection = true) {o : Option P}
    (r' : R) (he : r' ≠ r) (hs : (s.pc r').inSection = true) : o = s.holder :=
  absurd (h.alone r' r hs hr) he

/-- Nobody enters the section. -/
theorem Inv.alone_of (h : Inv proc dirBase s)
    (hsec : ∀ r', (t.pc r').inSection = true → (s.pc r').inSection = true) (r r' : R)
    (hr : (t.pc r).inSection = true) (hr' : (t.pc r').inSection = true) : r = r' :=
  h.alone r r' (hsec r hr) (hsec r' hr')

/-- In the section a requester creates the file of a flag that nobody owned. -/
theorem Inv.gain (h : Inv proc dirBase s) {r : R} {f : String} (pc : Pc)
    (hr : (s.pc r).inSection = true) (hf : s.files (pathFlag dirBase f) = false)
    (ht : t.pc = Function.update s.pc r pc) (hh : t.holder = s.holder)
    (hfile : ∀ g, t.files (pathFlag dirBase g) =
      if g = f then true else s.files (pathFlag dirBase g))
    (ho : ∀ r', t.owned r' = if r' = r then s.owned r ++ [f] else s.owned r')
    (hn : pc.flags.Nodup)
    (ha : ∀ g ∈ pc.absent, g ≠ f ∧ s.files (pathFlag dirBase g) = false) :
    Inv proc dirBase t := by
  have hfree (r' : R) : f ∉ s.owned r' := by
    intro hm
    rw [h.exist r' f hm] at hf
    cases hf
  have hmem {r' : R} {g : String} (hg : g ∈ t.owned r') : g ∈ s.owned r' ∨ r' = r ∧ g = f := by
    rw [ho] at hg
    split at hg
    · next he =>
      subst he
      rcases List.mem_append.mp hg with hg | hg
      · exact .inl hg
      · exact .inr ⟨rfl, List.mem_singleton.mp hg⟩
    · exact .inl hg
  constructor
  · exact update_pc (q := fun _ q => q.flags.Nodup) ht hn fun r' _ => h.flags_nodup r'
  · intro r'
    rw [ho]
    split
    · refine List.nodup_append.mpr ⟨h.owned_nodup r, List.nodup_singleton f, fun a hm b hb hab => ?_⟩
      rw [hab, List.mem_singleton.mp hb] at hm
      exact hfree r hm
    · exact h.owned_nodup r'
  · intro r' g hg
    rw [hfile]
    split
    · rfl
    · next hne => exact h.exist r' g ((hmem hg).resolve_right fun hgf => hne hgf.2)
  · intro r' r'' g hg hg'
    rcases hmem hg with hg | ⟨rfl, rfl⟩ <;> rcases hmem hg' with hg' | ⟨he, hgf⟩
    · exact h.unique r' r'' g hg hg'
    · exact absurd (hgf ▸ hg) (hfree r')
    · exact absurd hg' (hfree r'')
    · exact he.symm
  · -- what the others rely on is not `f`: they are not in the section
    refine update_pc (q := fun _ q => ∀ g ∈ q.absent, t.files (pathFlag dirBase g) = false) ht
      (fun g hg => ?_) fun r' he g hg => ?_
    · rw [hfile, if_neg (ha g hg).1]
      exact (ha g hg).2
    · rw [Pc.absent_eq_nil ((h.stay hr).2 r' he)] at hg
      cases hg
  · exact update_pc (q := fun r' q => q.inSection = true → t.holder = some (proc r')) ht
      (fun _ => hh.trans (h.holder r hr)) fun r' _ hs => hh.trans (h.holder r' hs)
  · exact h.alone_of (update_pc (q := fun r' q => q.inSection = true → (s.pc r').inSection = true)
      ht (fun _ => hr) fun _ _ => id)

/-- Outside the section a requester gives up a flag that it owned, with or without its file. -/
theorem Inv.lose (h : Inv proc dirBase s) {r : R} {f : String} (pc : Pc) (hm : f ∈ s.owned r)
    (ht : t.pc = Function.update s.pc r pc) (hh : t.holder = s.holder)
    (hfile : ∀ g, g ≠ f → t.files (pathFlag dirBase g) = s.files (pathFlag dirBase g))
    (hnd : ∀ r', (t.owned r').Nodup) (hsub : ∀ r', ∀ g ∈ t.owned r', g ∈ s.owned r')
    (hlost : f ∉ t.owned r) (hn : pc.flags = []) (hout : pc.inSection = false) :
    Inv proc dirBase t := by
  have hne {r' : R} {g : String} (hg : g ∈ t.owned r') : g ≠ f := by
    rintro rfl
    obtain rfl := h.unique r' r g (hsub r' g hg) hm
    exact hlost hg
  have hsec : ∀ r', (t.pc r').inSection = true → (s.pc r').inSection = true :=
    update_pc (q := fun r' q => q.inSection = true → (s.pc r').inSection = true) ht
      (by rw [hout]; exact nofun) fun _ _ => id
  constructor
  · exact update_pc (q := fun _ q => q.flags.Nodup) ht (by rw [hn]; exact List.nodup_nil)
      fun r' _ => h.flags_nodup r'
  · exact hnd
  · intro r' g hg
    rw [hfile g (hne hg)]
    exact h.exist r' g (hsub r' g hg)
  · exact fun r' r'' g hg hg' => h.unique r' r'' g (hsub r' g hg) (hsub r'' g hg')
  · refine update_pc (q := fun _ q => ∀ g ∈ q.absent, t.files (pathFlag dirBase g) = false) ht
      (by rw [Pc.absent_eq_nil hout]; exact nofun) fun r' _ g hg => ?_
    have ha := h.absent r' g hg
    have hgf : g ≠ f := by
      rintro rfl
      rw [h.exist r g hm] at ha
      cases ha
    rw [hfile g hgf]
    exact ha
  · exact fun r' hs => hh.trans (h.holder r' (hsec r' hs))
  · exact h.alone_of hsec

/-! ## Steps -/

variable {r : R}

theorem lock_inv (h : Inv proc dirBase s) {flags : {l : List String // l.Nodup}} {error : Bool}
    (hok : Orderly proc dirBase s (.lock r flags error))
    (ht : step proc dirBase s (.lock r flags error) = some t) : Inv proc dirBase t := by
  simp only [step] at ht
  split_ifs at ht with hidle herr hfree <;> cases ht
  all_goals rw [ne_eq, Decidable.not_not] at hidle
  · exact h.goto .idle rfl rfl (owned_eq rfl rfl (by rw [hidle])) List.nodup_nil
      (by simp [Pc.absent]) (by simp [Pc.inSection]) fun _ _ _ => rfl
  · -- whoever is in the section is of this process, and that is excluded
    have hnone : ∀ r', r' ≠ r → (s.pc r').inSection = false := by
      intro r' he
      rw [Bool.eq_false_iff]
      intro hs
      have hh := h.holder r' hs
      rcases hfree with h0 | h0
      · rw [h0] at hh
        cases hh
      · rw [h0] at hh
        have := hok (by simpa using herr) r' he (Option.some.inj hh).symm
        rw [this] at hs
        cases hs
    exact h.goto (.check [] flags.val) rfl rfl (owned_eq rfl rfl (by rw [hidle]; rfl)) flags.property
      (by simp [Pc.absent]) (fun _ => ⟨rfl, hnone⟩)
      fun r' he hs => absurd hs (by rw [hnone r' he]; decide)
  · exact h.goto .idle rfl rfl (owned_eq rfl rfl (by rw [hidle])) List.nodup_nil
      (by simp [Pc.absent]) (by simp [Pc.inSection]) fun _ _ _ => rfl

theorem check_inv (h : Inv proc dirBase s) {opened : Bool}
    (hok : Orderly proc dirBase s (.check r opened))
    (ht : step proc dirBase s (.check r opened) = some t) : Inv proc dirBase t := by
  simp only [step] at ht
  split at ht
  · next done f todo hpc =>
    have hr : (s.pc r).inSection = true := by rw [hpc]; rfl
    have hn := h.flags_nodup r
    have ha := h.absent r
    rw [hpc] at hn ha
    split at ht
    · cases ht
    · next hno =>
      cases ht
      cases opened with
      | true =>
        exact h.goto .taken rfl rfl (owned_eq rfl rfl (by rw [hpc]; rfl)) List.nodup_nil
          (by simp [Pc.absent]) (fun _ => h.stay hr) fun _ _ _ => rfl
      | false =>
        have hf : s.files (pathFlag dirBase f) = false := by
          rw [Bool.eq_false_iff]
          intro hf
          cases hok done f todo hpc hf
        refine h.goto (.check (done ++ [f]) todo) rfl rfl (owned_eq rfl rfl (by rw [hpc]; rfl))
          ?_ ?_ (fun _ => h.stay hr) fun _ _ _ => rfl
        · simpa [Pc.flags] using hn
        · intro g hg
          rcases List.mem_append.mp hg with hg | hg
          · exact ha g hg
          · rw [List.mem_singleton.mp hg]
            exact hf
  · cases ht

theorem checked_inv (h : Inv proc dirBase s) (ht : step proc dirBase s (.checked r) = some t) :
    Inv proc dirBase t := by
  simp only [step] at ht
  split at ht
  · next done hpc =>
    have hr : (s.pc r).inSection = true := by rw [hpc]; rfl
    have hn := h.flags_nodup r
    have ha := h.absent r
    rw [hpc] at hn ha
    cases ht
    refine h.goto (.create [] done) rfl rfl (owned_eq rfl rfl (by rw [hpc]; rfl)) ?_ ha
      (fun _ => h.stay hr) fun _ _ _ => rfl
    simpa [Pc.flags] using hn
  · cases ht

theorem taken_inv (h : Inv proc dirBase s) (ht : step proc dirBase s (.taken r) = some t) :
    Inv proc dirBase t := by
  simp only [step] at ht
  split at ht
  · next hpc =>
    cases ht
    exact h.goto .idle rfl rfl (owned_eq rfl rfl (by rw [hpc]; rfl)) List.nodup_nil
      (by simp [Pc.absent]) (by simp [Pc.inSection]) (h.leave (by rw [hpc]; rfl))
  · cases ht

theorem leave_inv (h : Inv proc dirBase s) (ht : step proc dirBase s (.leave r) = some t) :
    Inv proc dirBase t := by
  simp only [step] at ht
  split at ht
  · next done hpc =>
    have hn := h.flags_nodup r
    rw [hpc] at hn
    cases ht
    refine h.goto (.record done) rfl rfl (owned_eq rfl rfl (by rw [hpc]; rfl)) ?_
      (by simp [Pc.absent]) (by simp [Pc.inSection]) (h.leave (by rw [hpc]; rfl))
    simpa [Pc.flags] using hn
  · cases ht

/-- A file is created that nobody owned. -/
theorem create_inv (h : Inv proc dirBase s) {created : Bool}
    (hok : Orderly proc dirBase s (.create r created))
    (ht : step proc dirBase s (.create r created) = some t) : Inv proc dirBase t := by
  obtain rfl : created = true := hok
  simp only [step, if_true] at ht
  split at ht
  · next done f todo hpc =>
    cases ht
    have hn := h.flags_nodup r
    have ha := h.absent r
    rw [hpc] at hn ha
    have htodo : f ∉ todo := (List.nodup_cons.mp (List.nodup_append.mp hn).2.1).1
    refine h.gain (.create (done ++ [f]) todo) (by rw [hpc]; rfl) (ha f List.mem_cons_self) rfl rfl
      (fun g => ?_) (fun r' => ?_) (by simpa [Pc.flags] using hn) fun g hg => ⟨?_, ?_⟩
    · simp only [State.fileSet, Function.update_apply, pathFlag_inj]
      rfl
    · -- the created flags of `r` are one more, those of the others are the same
      refine update_pc (q := fun r' q => s.locks r' ++ q.created =
        if r' = r then s.owned r ++ [f] else s.owned r') (s := s) rfl ?_ (fun r' he => ?_) r'
      · rw [if_pos rfl, State.owned, hpc]
        exact (List.append_assoc _ _ _).symm
      · rw [if_neg he]
        rfl
    · rintro rfl
      exact htodo hg
    · exact ha g (List.mem_cons_of_mem _ hg)
  · cases ht

theorem record_inv (h : Inv proc dirBase s) (ht : step proc dirBase s (.record r) = some t) :
    Inv proc dirBase t := by
  simp only [step] at ht
  split at ht
  · next flags hpc =>
    cases ht
    refine h.goto .idle rfl rfl (fun r' => ?_) List.nodup_nil (by simp [Pc.absent])
      (by simp [Pc.inSection]) fun _ _ _ => rfl
    -- the created flags become listed ones
    by_cases he : r' = r
    · subst he
      simp [State.owned, State.ret, State.setPc, hpc, Pc.created]
    · simp [State.owned, State.ret, State.setPc, Function.update_of_ne he]
  · cases ht

theorem unlock_inv (h : Inv proc dirBase s) (ht : step proc dirBase s (.unlock r) = some t) :
    Inv proc dirBase t := by
  simp only [step] at ht
  split at ht
  · cases ht
  · next hc =>
    rw [not_or, ne_eq, Decidable.not_not] at hc
    cases ht
    exact h.goto (.unlocking 0) rfl rfl (owned_eq rfl rfl (by rw [hc.1]; rfl)) List.nodup_nil
      (by simp [Pc.absent]) (by simp [Pc.inSection]) fun _ _ _ => rfl

theorem unlocked_inv (h : Inv proc dirBase s) (ht : step proc dirBase s (.unlocked r) = some t) :
    Inv proc dirBase t := by
  simp only [step] at ht
  split at ht
  · next idx hpc =>
    split at ht
    · cases ht
      exact h.goto .idle rfl rfl (owned_eq rfl rfl (by rw [hpc]; rfl)) List.nodup_nil
        (by simp [Pc.absent]) (by simp [Pc.inSection]) fun _ _ _ => rfl
    · cases ht
  · cases ht

theorem not_mem_eraseIdx {l : List String} {idx : Nat} {f : String} (hn : l.Nodup)
    (hf : l[idx]? = some f) : f ∉ l.eraseIdx idx := by
  intro hm
  obtain ⟨i, hi, hne, hif⟩ := List.mem_eraseIdx_iff_getElem.mp hm
  obtain ⟨hidx, hidxf⟩ := List.getElem?_eq_some_iff.mp hf
  exact hne (hn.getElem_inj_iff.mp (hif.trans hidxf.symm))

/-- Only a file is removed that its owner gives up. -/
theorem remove_inv (h : Inv proc dirBase s) {removed : Bool} {next : Nat}
    (ht : step proc dirBase s (.remove r removed next) = some t) : Inv proc dirBase t := by
  simp only [step] at ht
  split at ht
  · next idx hpc =>
    split at ht
    · next f idx' hf hidx =>
      cases ht
      have hod := h.owned_nodup r
      have howned : s.owned r = s.locks r := by rw [State.owned, hpc]; exact List.append_nil _
      rw [howned] at hod
      generalize hu : (if removed = true then _ else _ : State P R) = u
      have hpcs : u.pc = Function.update s.pc r (.unlocking idx') := by
        rw [← hu]
        cases removed <;> rfl
      have hlocks : u.locks = Function.update s.locks r ((s.locks r).eraseIdx idx) := by
        rw [← hu]
        cases removed <;> rfl
      -- everybody else keeps what he owned
      have hself : u.owned r = (s.locks r).eraseIdx idx := by
        rw [State.owned, hpcs, hlocks, Function.update_self, Function.update_self]
        exact List.append_nil _
      have hother (r' : R) (he : r' ≠ r) : u.owned r' = s.owned r' := by
        rw [State.owned, hpcs, hlocks, Function.update_of_ne he, Function.update_of_ne he]
        rfl
      refine h.lose (.unlocking idx') (by rw [howned]; exact List.mem_of_getElem? hf) hpcs
        (by rw [← hu]; cases removed <;> rfl) (fun g hg => ?_) (fun r' => ?_) (fun r' g hg => ?_)
        (by rw [hself]; exact not_mem_eraseIdx hod hf) rfl rfl
      · rw [← hu]
        cases removed with
        | true => exact Function.update_of_ne (fun he => hg (pathFlag_inj.mp he)) ..
        | false => rfl
      · by_cases he : r' = r
        · rw [he, hself]
          exact hod.eraseIdx idx
        · rw [hother r' he]
          exact h.owned_nodup r'
      · by_cases he : r' = r
        · rw [he, hself] at hg
          rw [he, howned]
          exact List.mem_of_mem_eraseIdx hg
        · rwa [hother r' he] at hg
    · cases ht
  · cases ht

theorem step_inv (h : Inv proc dirBase s) {e : Event R} (hok : Orderly proc dirBase s e)
    (ht : step proc dirBase s e = some t) : Inv proc dirBase t := by
  cases e with
  | lock r flags error => exact lock_inv h hok ht
  | check r opened => exact check_inv h hok ht
  | checked r => exact checked_inv h ht
  | taken r => exact taken_inv h ht
  | create r created => exact create_inv h hok ht
  | leave r => exact leave_inv h ht
  | record r => exact record_inv h ht
  | unlock r => exact unlock_inv h ht
  | remove r removed next => exact remove_inv h ht
  | unlocked r => exact unlocked_inv h ht

/-! ## Runs -/

variable (proc dirBase)

/-- One step as a relation. -/
def Step (s : State P R) (e : Event R) (t : State P R) : Prop := step proc dirBase s e = some t

/-- The states of the runs whose steps are orderly. -/
def Reached : State P R → Prop :=
  Transition.Reachable Initial (Transition.guarded (Orderly proc dirBase) (Step proc dirBase))

variable {proc dirBase}

theorem Reached.inv (h : Reached proc dirBase s) : Inv proc dirBase s :=
  h.invariant (fun _ => Initial.inv) fun _ _ _ hi hs => step_inv hi hs.1 hs.2

theorem Inv.holder_unique (h : Inv proc dirBase s) {r r' : R} {f : String} (hr : Holds s r f)
    (hr' : Holds s r' f) : r = r' :=
  h.unique r r' f (List.mem_append_left _ hr) (List.mem_append_left _ hr')

/-- In every state of such a run, a flag has one holder. -/
theorem mutual_exclusion (h : Reached proc dirBase s) {r r' : R} {f : String} (hr : Holds s r f)
    (hr' : Holds s r' f) : r = r' :=
  h.inv.holder_unique hr hr'

/-- The state after a list of events, if each of them can happen. -/
def exec (proc : R → P) (dirBase : String) : State P R → List (Event R) → Option (State P R)
  | s, [] => some s
  | s, e :: es => (step proc dirBase s e).bind fun t => exec proc dirBase t es

theorem Reached.step {u : State P R} (h : Reached proc dirBase s) {e : Event R}
    (hok : Orderly proc dirBase s e) (ht : SysFlags.step proc dirBase s e = some u) :
    Reached proc dirBase u :=
  .next h ⟨hok, ht⟩

end

/-- No files, nobody in the directory. -/
def start : State Bool Bool where
  holder := none
  files := fun _ => false
  globalLocks := fun _ _ => none
  locks := fun _ => []
  pc := fun _ => .idle
  result := fun _ => .negative

/-- The flag `a`. -/
def flagA : {l : List String // l.Nodup} := ⟨["a"], by decide⟩

theorem start_initial : Initial start := ⟨rfl, fun _ => rfl, fun _ => rfl⟩

/-- Two processes want the flag. The second one asks while the first one is in the section, and
again when it has the flag. -/
theorem mutual_exclusion_alone :
    ∃ s, exec id "/var/lock/" start [.lock false flagA false, .lock true flagA false,
        .check false false, .checked false, .create false true, .leave false, .record false,
        .lock true flagA false, .check true true, .taken true] = some s ∧
      s.result true = .pending ∧ Holds s false "a" ∧ ∀ r, Holds s r "a" → false = r := by
  have hother (s : State Bool Bool) (r : Bool) (flags : {l : List String // l.Nodup}) :
      Orderly id "/var/lock/" s (.lock r flags false) := fun _ r' hne heq => absurd heq hne
  have h1 : Reached id "/var/lock/" _ := Reached.step (.start start_initial)
    (e := .lock false flagA false) (hother _ _ _) rfl
  have h2 := h1.step (e := .lock true flagA false) (hother _ _ _) rfl
  have h3 := h2.step (e := .check false false) (fun _ _ _ _ hf => by cases hf) rfl
  have h4 := (h3.step (e := .checked false) trivial rfl).step (e := .create false true) rfl rfl
  have h5 := (h4.step (e := .leave false) trivial rfl).step (e := .record false) trivial rfl
  have h6 := h5.step (e := .lock true flagA false) (hother _ _ _) rfl
  have h7 := h6.step (e := .check true true) (fun _ _ _ _ _ => rfl) rfl
  have h8 := h7.step (e := .taken true) trivial rfl
  exact ⟨_, rfl, by decide, by decide, fun r hr => mutual_exclusion h8 (r := false) (by decide) hr⟩

/-- Two threads of one process: both pass `flock`, both see no file, both get the flag. -/
theorem two_threads :
    Initial start ∧
    ∃ s, exec (fun _ : Bool => false) "/var/lock/" start
        [.lock false flagA false, .lock true flagA false, .check false false, .check true false,
          .checked false, .checked true, .create false true, .create true true, .leave false,
          .record false, .leave true, .record true] = some s ∧
      Holds s false "a" ∧ Holds s true "a" :=
  ⟨start_initial, _, rfl, by decide, by decide⟩

end SysFlags
end ProcessingCommon

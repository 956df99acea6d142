import Mathlib.Logic.Function.Basic
import ProcessingCommon.LibFilesys.LockDir
import ProcessingCommon.Processing

/-!
# Locking and unlocking system flags, one call at a time (`LibFilesys.cpp`)

`sysFlagsIntLock` and `sysFlagsIntUnlock` as functions of the flag files, the tables of the
process and the answers of the file system, without anybody else at work.

* A lock is all or nothing unless `fileCreate` fails: its result is not looked at, so the call
  returns `Positive` and lists a flag that has no file.
* An unlock erases from the list it goes through and advances the iterator as well. It takes
  every second lock only, and where their number is odd it advances the end of the list.
-/

namespace ProcessingCommon
namespace FlagCalls

/-! ## State -/

structure UserLock where
  /-- Not used at the moment. -/
  type : UInt32
  nameRes : String
deriving DecidableEq

structure GlobalLock (R : Type) where
  pOwner : R
  filename : String
  function : String
  line : Int
  nameRes : String
deriving DecidableEq

/-- What the macros pass besides the locks. -/
structure Caller (R : Type) where
  pRequester : R
  filename : String
  function : String
  line : Int

structure State (R : Type) where
  files : String → Bool
  /-- The file lock is held through `fdLockDefault`. -/
  flockHeld : Bool
  /-- The list of the caller; `none` is `NULL`. -/
  pLocks : Option (List UserLock)
  globalLocks : String → Option (GlobalLock R)

inductive FlockAnswer
  | granted
  | wouldBlock
  | error
deriving DecidableEq

/-- How the file system behaves in one call of `sysFlagsIntLock`. -/
structure Answers where
  lock : FlockAnswer
  /-- The file of the `n`-th check can be opened if it exists. -/
  opens : Nat → Bool
  /-- The file of the `n`-th creation can be opened for writing. -/
  creates : Nat → Bool

/-! ## Taking flags -/

def fileExists (files : String → Bool) (opens : Bool) (path : String) : Bool := opens && files path

/-- The new files, and what `fileCreate` returns. -/
def fileCreate (files : String → Bool) (creates : Bool) (path : String) : (String → Bool) × Bool :=
  if creates then (Function.update files path true, true) else (files, false)

/-- Step 2: the flag of a check exists. `n` counts the checks. -/
def anyExists (dirBase : String) (files : String → Bool) (opens : Nat → Bool) :
    Nat → List String → Bool
  | _, [] => false
  | n, name :: names =>
    fileExists files (opens n) (dirBase ++ name) || anyExists dirBase files opens (n + 1) names

/-- Step 3: the results of `fileCreate` are dropped. -/
def createAll (dirBase : String) (creates : Nat → Bool) :
    Nat → List String → (String → Bool) → (String → Bool)
  | _, [], files => files
  | n, name :: names, files =>
    createAll dirBase creates (n + 1) names (fileCreate files (creates n) (dirBase ++ name)).1

variable {R : Type}

def gLock (caller : Caller R) (name : String) : GlobalLock R :=
  { pOwner := caller.pRequester
    filename := caller.filename
    function := caller.function
    line := caller.line
    nameRes := name }

/-- Step 5. -/
def listAll (caller : Caller R) :
    List String → List UserLock × (String → Option (GlobalLock R)) →
      List UserLock × (String → Option (GlobalLock R))
  | [], tables => tables
  | name :: names, tables =>
    listAll caller names (tables.1 ++ [⟨0, name⟩],
      Function.update tables.2 name (some (gLock caller name)))

def sysFlagsIntLock (dir : LockDir) (caller : Caller R) (a : Answers) (names : List String)
    (s : State R) : State R × Success :=
  match s.pLocks with
  | none => (s, .negative)
  | some locks =>
    if dir.fdLockDefault < 0 then (s, .negative)
    else
      match a.lock with
      | .wouldBlock => (s, .pending)
      | .error => (s, .negative)
      | .granted =>
        let s := { s with flockHeld := true }
        if anyExists dir.lockDefaultDirBase s.files a.opens 0 names then
          ({ s with flockHeld := false }, .pending)
        else
          let s := { s with
            files := createAll dir.lockDefaultDirBase a.creates 0 names s.files }
          let s := { s with flockHeld := false }
          let tables := listAll caller names (locks, s.globalLocks)
          ({ s with pLocks := some tables.1, globalLocks := tables.2 }, .positive)

/-! ## Giving flags back -/

/-- The loop over the list, with the iterator between `passed` and the rest; `n` counts the
calls of `remove`. The last component tells that the end of the list was advanced, where the
behaviour is undefined and the model stops. -/
def unlockLoop (dirBase : String) (removes : Nat → Bool) :
    Nat → List UserLock → List UserLock → (String → Bool) → (String → Bool) × List UserLock × Bool
  | _, passed, [], files => (files, passed, false)
  | n, passed, [u], files =>
    (if removes n then Function.update files (dirBase ++ u.nameRes) false else files, passed, true)
  | n, passed, u :: v :: rest, files =>
    unlockLoop dirBase removes (n + 1) (passed ++ [v]) rest
      (if removes n then Function.update files (dirBase ++ u.nameRes) false else files)

/-- The state after the call, and whether it advanced the end of the list. -/
def sysFlagsIntUnlock (dir : LockDir) (removes : Nat → Bool) (s : State R) : State R × Bool :=
  match s.pLocks with
  | none => (s, false)
  | some locks =>
    if dir.fdLockDefault < 0 then (s, false)
    else if locks.length = 0 then (s, false)
    else
      let globalLocks := locks.foldl
        (fun (table : String → Option (GlobalLock R)) u => Function.update table u.nameRes none)
        s.globalLocks
      let r := unlockLoop dir.lockDefaultDirBase removes 0 [] locks s.files
      ({ s with files := r.1, pLocks := some r.2.1, globalLocks := globalLocks }, r.2.2)

/-! ## All or nothing -/

variable {dir : LockDir} {caller : Caller R} {a : Answers} {names : List String} {s : State R}

/-- The file lock is obtained. -/
def Obtains (dir : LockDir) (a : Answers) (s : State R) : Prop :=
  0 ≤ dir.fdLockDefault ∧ s.pLocks.isSome = true ∧ a.lock = .granted

/-- No check finds a file, so the call goes on to create the flags. -/
def Available (dir : LockDir) (a : Answers) (names : List String) (s : State R) : Prop :=
  ∀ n name, names[n]? = some name →
    ¬ (a.opens n = true ∧ s.files (dir.lockDefaultDirBase ++ name) = true)

/-- Every flag has its file already or gets it in one of its creations. -/
def Creatable (dir : LockDir) (a : Answers) (names : List String) (s : State R) : Prop :=
  ∀ name ∈ names, s.files (dir.lockDefaultDirBase ++ name) = true ∨
    ∃ n, names[n]? = some name ∧ a.creates n = true

/-- A call returns `Positive` with all flags taken and listed, or else changes nothing, and does
not keep the file lock. -/
structure AllOrNothing (dir : LockDir) (caller : Caller R) (a : Answers) (names : List String)
    (s : State R) (r : State R × Success) : Prop where
  files : r.2 = .positive → ∀ name ∈ names, r.1.files (dir.lockDefaultDirBase ++ name) = true
  user : r.2 = .positive →
    ∃ locks, s.pLocks = some locks ∧ r.1.pLocks = some (locks ++ names.map (UserLock.mk 0))
  global : r.2 = .positive → ∀ name, r.1.globalLocks name =
    if name ∈ names then some (gLock caller name) else s.globalLocks name
  unchanged : r.2 ≠ .positive →
    r.1.files = s.files ∧ r.1.pLocks = s.pLocks ∧ r.1.globalLocks = s.globalLocks
  released : Obtains dir a s → r.1.flockHeld = false

theorem anyExists_iff {dirBase : String} {files : String → Bool} {opens : Nat → Bool} (n : Nat)
    (names : List String) : anyExists dirBase files opens n names = true ↔
      ∃ k name, names[k]? = some name ∧ opens (n + k) = true ∧ files (dirBase ++ name) = true := by
  induction names generalizing n with
  | nil => simp [anyExists]
  | cons name names ih =>
    rw [anyExists, Bool.or_eq_true, fileExists, Bool.and_eq_true, ih]
    constructor
    · rintro (h | ⟨k, f, hk, hf⟩)
      · exact ⟨0, name, rfl, h⟩
      · exact ⟨k + 1, f, hk, by rwa [Nat.add_assoc, Nat.add_comm 1 k] at hf⟩
    · rintro ⟨k, f, hk, hf⟩
      cases k with
      | zero =>
        cases hk
        exact .inl hf
      | succ k => exact .inr ⟨k, f, hk, by rwa [Nat.add_assoc, Nat.add_comm 1 k]⟩

theorem not_anyExists_iff : anyExists dir.lockDefaultDirBase s.files a.opens 0 names = false ↔
    Available dir a names s := by
  rw [Bool.eq_false_iff, ne_eq, anyExists_iff, Available]
  simp only [Nat.zero_add, not_exists, not_and]

/-- A file exists after step 3 if it did before or one of its creations succeeded. -/
theorem createAll_iff {dirBase : String} {creates : Nat → Bool} (n : Nat) (names : List String)
    (files : String → Bool) (path : String) : createAll dirBase creates n names files path = true ↔
      files path = true ∨ ∃ k name, names[k]? = some name ∧ dirBase ++ name = path ∧
        creates (n + k) = true := by
  induction names generalizing n files with
  | nil => simp [createAll]
  | cons name names ih =>
    have hone : (fileCreate files (creates n) (dirBase ++ name)).1 path = true ↔
        files path = true ∨ dirBase ++ name = path ∧ creates n = true := by
      rw [fileCreate]
      split
      · next hc =>
        dsimp only
        rw [Function.update_apply]
        split
        · next he => simp [he, hc]
        · next hne => simp [Ne.symm hne]
      · next hc => simp [hc]
    rw [createAll, ih, hone, or_assoc]
    refine or_congr_right ?_
    constructor
    · rintro (h | ⟨k, f, hk, hp, hf⟩)
      · exact ⟨0, name, rfl, h⟩
      · exact ⟨k + 1, f, hk, hp, by rwa [Nat.add_assoc, Nat.add_comm 1 k] at hf⟩
    · rintro ⟨k, f, hk, hp, hf⟩
      cases k with
      | zero =>
        cases hk
        exact .inl ⟨hp, hf⟩
      | succ k => exact .inr ⟨k, f, hk, hp, by rwa [Nat.add_assoc, Nat.add_comm 1 k]⟩

theorem listAll_user (caller : Caller R) (names : List String)
    (tables : List UserLock × (String → Option (GlobalLock R))) :
    (listAll caller names tables).1 = tables.1 ++ names.map (UserLock.mk 0) := by
  induction names generalizing tables with
  | nil => exact (List.append_nil _).symm
  | cons name names ih =>
    rw [listAll, ih, List.map_cons, List.append_assoc]
    rfl

theorem listAll_global (caller : Caller R) (names : List String)
    (tables : List UserLock × (String → Option (GlobalLock R))) (name : String) :
    (listAll caller names tables).2 name =
      if name ∈ names then some (gLock caller name) else tables.2 name := by
  induction names generalizing tables with
  | nil => rfl
  | cons f names ih =>
    rw [listAll, ih]
    dsimp only
    by_cases hm : name ∈ names
    · rw [if_pos hm, if_pos (List.mem_cons_of_mem _ hm)]
    · rw [if_neg hm, Function.update_apply]
      simp only [List.mem_cons, hm, or_false]
      split
      · next he => rw [he]
      · rfl

/-- A call that has only asked: it changes nothing, and with the file lock it has found a flag. -/
structure OnlyAsked (dir : LockDir) (a : Answers) (names : List String) (s : State R)
    (r : State R × Success) : Prop where
  result : r.2 ≠ .positive
  taken : Obtains dir a s → ¬ Available dir a names s
  files : r.1.files = s.files
  pLocks : r.1.pLocks = s.pLocks
  globalLocks : r.1.globalLocks = s.globalLocks
  released : Obtains dir a s → r.1.flockHeld = false

/-- Without the file lock nothing changes at all. -/
theorem OnlyAsked.same {res : Success} (hres : res ≠ .positive) (hob : ¬ Obtains dir a s) :
    OnlyAsked dir a names s (s, res) where
  result := hres
  taken := fun h => absurd h hob
  files := rfl
  pLocks := rfl
  globalLocks := rfl
  released := fun h => absurd h hob

/-- Whatever a call returns besides `Positive`, it has only asked. -/
theorem sysFlagsIntLock_cases (dir : LockDir) (caller : Caller R) (a : Answers)
    (names : List String) (s : State R) :
    OnlyAsked dir a names s (sysFlagsIntLock dir caller a names s) ∨
      Obtains dir a s ∧ Available dir a names s ∧ ∃ locks, s.pLocks = some locks ∧
        sysFlagsIntLock dir caller a names s =
          ({ files := createAll dir.lockDefaultDirBase a.creates 0 names s.files
             flockHeld := false
             pLocks := some (listAll caller names (locks, s.globalLocks)).1
             globalLocks := (listAll caller names (locks, s.globalLocks)).2 }, .positive) := by
  unfold sysFlagsIntLock
  cases hl : s.pLocks with
  | none =>
    refine .inl (.same (by decide) ?_)
    rintro ⟨-, h, -⟩
    rw [hl] at h
    cases h
  | some locks =>
    dsimp only
    by_cases hfd : dir.fdLockDefault < 0
    · rw [if_pos hfd]
      exact .inl (.same (by decide) fun h => absurd h.1 (Int.not_le.mpr hfd))
    rw [if_neg hfd]
    cases hlock : a.lock with
    | wouldBlock =>
      refine .inl (.same (by decide) ?_)
      rintro ⟨-, -, h⟩
      rw [hlock] at h
      cases h
    | error =>
      refine .inl (.same (by decide) ?_)
      rintro ⟨-, -, h⟩
      rw [hlock] at h
      cases h
    | granted =>
      dsimp only
      cases hany : anyExists dir.lockDefaultDirBase s.files a.opens 0 names with
      | true =>
        have hav : ¬ Available dir a names s := by
          rw [← not_anyExists_iff, hany]
          decide
        rw [if_pos rfl]
        exact .inl {
          result := show Success.pending ≠ .positive by decide
          taken := fun _ => hav
          files := rfl
          pLocks := hl.symm
          globalLocks := rfl
          released := fun _ => rfl }
      | false =>
        have hob : Obtains dir a s := ⟨Int.not_lt.mp hfd, by rw [hl]; rfl, hlock⟩
        exact .inr ⟨hob, not_anyExists_iff.mp hany, locks, rfl, rfl⟩

/-- A call is all or nothing exactly when, in case it gets to create its flags, every flag gets
its file. -/
theorem lock_allOrNothing (dir : LockDir) (caller : Caller R) (a : Answers) (names : List String)
    (s : State R) : AllOrNothing dir caller a names s (sysFlagsIntLock dir caller a names s) ↔
      (Obtains dir a s → Available dir a names s → Creatable dir a names s) := by
  rcases sysFlagsIntLock_cases dir caller a names s with ho | ⟨hob, hav, locks, hl, heq⟩
  · constructor
    · intro _ hob h
      exact absurd h (ho.taken hob)
    · intro _
      exact ⟨fun h => absurd h ho.result, fun h => absurd h ho.result,
        fun h => absurd h ho.result, fun _ => ⟨ho.files, ho.pLocks, ho.globalLocks⟩, ho.released⟩
  · have hfile (name : String) :
        createAll dir.lockDefaultDirBase a.creates 0 names s.files
            (dir.lockDefaultDirBase ++ name) = true ↔
          s.files (dir.lockDefaultDirBase ++ name) = true ∨
            ∃ n, names[n]? = some name ∧ a.creates n = true := by
      rw [createAll_iff]
      refine or_congr_right ⟨?_, ?_⟩
      · rintro ⟨k, f, hk, hp, hc⟩
        rw [String.append_right_inj] at hp
        exact ⟨k, hp ▸ hk, by rwa [Nat.zero_add] at hc⟩
      · rintro ⟨k, hk, hc⟩
        exact ⟨k, name, hk, rfl, by rwa [Nat.zero_add]⟩
    rw [heq]
    constructor
    · intro h _ _ name hm
      exact (hfile name).mp (h.files rfl name hm)
    · intro hc
      refine ⟨fun _ name hm => (hfile name).mpr (hc hob hav name hm), fun _ => ⟨locks, hl, ?_⟩,
        fun _ name => listAll_global caller names _ name, fun h => absurd rfl h, fun _ => rfl⟩
      rw [listAll_user]

/-- The lock directory is open and the file of the only flag cannot be created. -/
theorem lock_allOrNothing_fails :
    ¬ ∀ (dir : LockDir) (caller : Caller Unit) (a : Answers) (names : List String)
      (s : State Unit), AllOrNothing dir caller a names s (sysFlagsIntLock dir caller a names s) := by
  intro h
  have hall := h ⟨3, "/var/lock/"⟩ ⟨(), "Supervising.cpp", "process", 71⟩
    ⟨.granted, fun _ => true, fun _ => false⟩ ["a"] ⟨fun _ => false, false, some [], fun _ => none⟩
  exact absurd (hall.files rfl "a" (List.mem_singleton.mpr rfl)) (by decide)

/-! ## The effect of an unlock -/

section Unlock

variable {α : Type}

/-- The items at the positions 0, 2, 4, … -/
def evens : List α → List α
  | [] => []
  | [x] => [x]
  | x :: _ :: rest => x :: evens rest

/-- The items at the positions 1, 3, 5, … -/
def odds : List α → List α
  | [] => []
  | [_] => []
  | _ :: y :: rest => y :: odds rest

theorem odds_sublist (l : List α) : (odds l).Sublist l := by
  induction l using odds.induct with
  | case1 => exact .slnil
  | case2 x => exact List.nil_sublist _
  | case3 x y rest ih => exact (ih.cons_cons y).cons x

theorem odds_eq_nil {l : List α} (h : odds l = []) : l = [] ∨ l.length % 2 = 1 := by
  cases l with
  | nil => exact .inl rfl
  | cons x l =>
    cases l with
    | nil => exact .inr rfl
    | cons y rest => cases h

end Unlock

/-- Every second lock stays in the list. -/
theorem unlockLoop_list (dirBase : String) (removes : Nat → Bool) (n : Nat)
    (passed l : List UserLock) (files : String → Bool) :
    (unlockLoop dirBase removes n passed l files).2.1 = passed ++ odds l := by
  induction l using odds.induct generalizing n passed files with
  | case1 => exact (List.append_nil _).symm
  | case2 u => exact (List.append_nil _).symm
  | case3 u v rest ih =>
    rw [unlockLoop, ih, odds, List.append_assoc]
    rfl

/-- The iterator that `erase` has left at the end is advanced where the length is odd. -/
theorem unlockLoop_pastEnd (dirBase : String) (removes : Nat → Bool) (n : Nat)
    (passed l : List UserLock) (files : String → Bool) :
    (unlockLoop dirBase removes n passed l files).2.2 = decide (l.length % 2 = 1) := by
  induction l using odds.induct generalizing n passed files with
  | case1 => rfl
  | case2 u => rfl
  | case3 u v rest ih =>
    rw [unlockLoop, ih, List.length_cons, List.length_cons, Nat.add_assoc, Nat.add_mod_right]

theorem remove_other (files : String → Bool) (removed : Bool) {path' path : String}
    (hne : path' ≠ path) :
    (if removed then Function.update files path' false else files) path = files path := by
  split
  · exact Function.update_of_ne (Ne.symm hne) ..
  · rfl

/-- Only files of the erased locks are removed. -/
theorem unlockLoop_files (dirBase : String) (removes : Nat → Bool) (n : Nat)
    (passed l : List UserLock) (files : String → Bool) {path : String}
    (hp : ∀ u ∈ evens l, dirBase ++ u.nameRes ≠ path) :
    (unlockLoop dirBase removes n passed l files).1 path = files path := by
  induction l using odds.induct generalizing n passed files with
  | case1 => rfl
  | case2 u => exact remove_other files _ (hp u List.mem_cons_self)
  | case3 u v rest ih =>
    rw [unlockLoop, ih _ _ _ fun w hw => hp w (List.mem_cons_of_mem _ hw)]
    exact remove_other files _ (hp u List.mem_cons_self)

/-- Everything that was locked is free again, and the loop stayed in the list. -/
structure Unlocked (dir : LockDir) (locks : List UserLock) (r : State R × Bool) : Prop where
  files : ∀ u ∈ locks, r.1.files (dir.lockDefaultDirBase ++ u.nameRes) = false
  user : r.1.pLocks = some []
  global : ∀ u ∈ locks, r.1.globalLocks u.nameRes = none
  inRange : r.2 = false

/-- An unlock with an open lock directory, in full. -/
theorem sysFlagsIntUnlock_eq {locks : List UserLock} (hl : s.pLocks = some locks)
    (hne : locks ≠ []) (hfd : 0 ≤ dir.fdLockDefault) (removes : Nat → Bool) :
    (sysFlagsIntUnlock dir removes s).1.pLocks = some (odds locks) ∧
      (sysFlagsIntUnlock dir removes s).2 = decide (locks.length % 2 = 1) ∧
      ∀ path, (∀ u ∈ evens locks, dir.lockDefaultDirBase ++ u.nameRes ≠ path) →
        (sysFlagsIntUnlock dir removes s).1.files path = s.files path := by
  have hlen : ¬ locks.length = 0 := fun h => hne (List.eq_nil_of_length_eq_zero h)
  simp only [sysFlagsIntUnlock, hl, if_neg (Int.not_lt.mpr hfd), if_neg hlen]
  refine ⟨?_, unlockLoop_pastEnd .., ?_⟩
  · rw [unlockLoop_list, List.nil_append]
  · intro path hp
    exact unlockLoop_files _ _ _ _ _ _ hp

/-- No unlock of held locks releases them all without leaving the list: half of an even number
stays, and an odd number takes the iterator past the end. -/
theorem unlock_incomplete (dir : LockDir) (removes : Nat → Bool) (s : State R) (u : UserLock)
    (us : List UserLock) :
    ¬ Unlocked dir (u :: us) (sysFlagsIntUnlock dir removes { s with pLocks := some (u :: us) }) := by
  rintro ⟨-, huser, -, hin⟩
  by_cases hfd : dir.fdLockDefault < 0
  · simp only [sysFlagsIntUnlock, if_pos hfd] at huser
    cases huser
  · obtain ⟨hlist, hend, -⟩ := sysFlagsIntUnlock_eq
      (s := { s with pLocks := some (u :: us) }) rfl (List.cons_ne_nil u us)
      (Int.not_lt.mp hfd) removes
    rw [hlist] at huser
    rw [hend] at hin
    rcases odds_eq_nil (Option.some.inj huser) with h | h
    · cases h
    · exact absurd h (of_decide_eq_false hin)

/-- Two locks `a` and `b`: `b` stays listed, and so does its file. -/
theorem unlock_incomplete_fails :
    ¬ ∀ (dir : LockDir) (s : State Unit) (u : UserLock) (us : List UserLock),
      Unlocked dir (u :: us)
        (sysFlagsIntUnlock dir (fun _ => true) { s with pLocks := some (u :: us) }) := by
  intro h
  have hu := h ⟨3, "/var/lock/"⟩ ⟨fun _ => true, false, none, fun _ => none⟩ ⟨0, "a"⟩ [⟨0, "b"⟩]
  exact absurd (hu.files ⟨0, "b"⟩ (by decide)) (by decide)

/-- A flag that an unlock has left behind is not to be had any more, by nobody: its file is
there, and each further lock that can open it is refused. -/
theorem left_flag_pending {locks : List UserLock} (hl : s.pLocks = some locks)
    (hfd : 0 ≤ dir.fdLockDefault) {u : UserLock} (hu : u ∈ odds locks)
    (hnot : ∀ w ∈ evens locks, w.nameRes ≠ u.nameRes)
    (hfile : s.files (dir.lockDefaultDirBase ++ u.nameRes) = true) (removes : Nat → Bool)
    (caller : Caller R) (ha : a.lock = .granted) (hopen : ∀ n, a.opens n = true)
    (hn : u.nameRes ∈ names) :
    (sysFlagsIntLock dir caller a names (sysFlagsIntUnlock dir removes s).1).2 = .pending := by
  have hne : locks ≠ [] := List.ne_nil_of_mem ((odds_sublist locks).subset hu)
  obtain ⟨hlist, -, hfiles⟩ := sysFlagsIntUnlock_eq hl hne hfd removes
  have hkept : (sysFlagsIntUnlock dir removes s).1.files (dir.lockDefaultDirBase ++ u.nameRes) =
      true := by
    rw [hfiles, hfile]
    intro w hw he
    exact hnot w hw (String.append_right_inj _ |>.mp he)
  obtain ⟨k, hk, hkn⟩ := List.getElem_of_mem hn
  have hany : anyExists dir.lockDefaultDirBase (sysFlagsIntUnlock dir removes s).1.files a.opens 0
      names = true :=
    (anyExists_iff 0 names).mpr ⟨k, u.nameRes, by rw [List.getElem?_eq_getElem hk, hkn], hopen _,
      hkept⟩
  simp only [sysFlagsIntLock, hlist, if_neg (Int.not_lt.mpr hfd), ha, hany, if_true]

end FlagCalls
end ProcessingCommon

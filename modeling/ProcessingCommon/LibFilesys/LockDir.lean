import ProcessingCommon.Lib.Ledger

/-!
# The default lock directory (`LibFilesys.cpp`)

`fdLockDefault` is one static integer for four situations: nothing was opened yet
(`0`, which is also a descriptor), the lock file is open, opening it failed (`-1`)
and it was closed (the old descriptor). `lockDirDefaultOpen` looks for non-zero,
the other functions for negative.

What the operating system sees is the trace of `open`, `close` and `flock` calls,
read as a ledger of descriptors. `conforms_iff` says for every sequence of calls
exactly when it is in order: when the callers open before they lock and close, close
once, and open no second time.
-/

namespace ProcessingCommon

/-- The static variables. -/
structure LockDir where
  fdLockDefault : Int := 0
  lockDefaultDirBase : String := ""
deriving DecidableEq

namespace LockDir

/-- The system calls on descriptors, with the result of `open`. -/
inductive OsCall
  | open (path : String) (fd : Int)
  | close (fd : Int)
  | flock (fd : Int)
deriving DecidableEq

/-- `dirBase` with a slash at its end. -/
def dirBaseLocal (dirBase : String) : String :=
  if dirBase.back ≠ '/' then dirBase.push '/' else dirBase

/-- `fd` is what `open` returns if it is called. -/
def lockDirDefaultOpen (s : LockDir) (dirBase : String) (fd : Int) :
    LockDir × List OsCall × Bool :=
  if s.fdLockDefault ≠ 0 then (s, [], false)
  else if dirBase = "" then (s, [], false)
  else
    let calls := [.open (dirBaseLocal dirBase ++ ".lock") fd]
    let s := { s with fdLockDefault := fd }
    if fd < 0 then (s, calls, false)
    else ({ s with lockDefaultDirBase := dirBaseLocal dirBase }, calls, true)

def lockDirDefaultClose (s : LockDir) : LockDir × List OsCall :=
  if s.fdLockDefault < 0 then (s, []) else (s, [.close s.fdLockDefault])

/-- The `flock` calls of `sysFlagsIntLock`: `LOCK_EX`, and if it was granted, `LOCK_UN`
at the end. `pLocks` is whether the list is given. -/
def sysFlagsIntLock (s : LockDir) (pLocks granted : Bool) : List OsCall :=
  if s.fdLockDefault < 0 ∨ !pLocks then []
  else if granted then [.flock s.fdLockDefault, .flock s.fdLockDefault]
  else [.flock s.fdLockDefault]

/-! ## Sequences of calls -/

inductive Call
  | open (dirBase : String) (fd : Int)
  | close
  | lock (pLocks granted : Bool)
  | unlock
deriving DecidableEq

/-- A call, and the system calls it makes. `sysFlagsIntUnlock` makes none on descriptors. -/
def call (s : LockDir) : Call → LockDir × List OsCall
  | .open dirBase fd => ((s.lockDirDefaultOpen dirBase fd).1, (s.lockDirDefaultOpen dirBase fd).2.1)
  | .close => s.lockDirDefaultClose
  | .lock pLocks granted => (s, s.sysFlagsIntLock pLocks granted)
  | .unlock => (s, [])

/-- A system call in the ledger: a failed `open` gives nothing. -/
def ledger : OsCall → List (Ledger.Event Int)
  | .open _ fd => if fd < 0 then [] else [.acquire fd]
  | .close fd => [.release fd]
  | .flock fd => [.use fd]

/-- What the system calls so far come to. -/
inductive Phase
  | never
  | opened (fd : Int)
  | failed
  | closed (fd : Int)
deriving DecidableEq

def Phase.after : Phase → OsCall → Phase
  | _, .open _ fd => if fd < 0 then .failed else .opened fd
  | _, .close fd => .closed fd
  | p, .flock _ => p

/-- The module, the descriptors that it holds, and the phase. -/
structure Run where
  dir : LockDir := {}
  held : List Int := []
  phase : Phase := .never

namespace Run

def events (r : Run) (c : Call) : List (Ledger.Event Int) := (r.dir.call c).2.flatMap ledger

def step (r : Run) (c : Call) : Run where
  dir := (r.dir.call c).1
  held := Ledger.heldAfter r.held (r.events c)
  phase := (r.dir.call c).2.foldl Phase.after r.phase

/-- A call as it should be: `flock` and `close` get a held descriptor, and while the
directory is not open it can be opened: `open` is tried, and its outcome returned. -/
def Conforms (r : Run) (c : Call) : Prop :=
  Ledger.Disciplined r.held (r.events c) ∧
    ∀ dirBase fd, c = .open dirBase fd → dirBase ≠ "" → (∀ f, r.phase ≠ .opened f) →
      OsCall.open (dirBaseLocal dirBase ++ ".lock") fd ∈ (r.dir.call c).2 ∧
        (r.dir.lockDirDefaultOpen dirBase fd).2.2 = decide (0 ≤ fd)

/-- `open` returns a descriptor that is not held. -/
def Fresh (r : Run) : Call → Prop
  | .open _ fd => 0 ≤ fd → fd ∉ r.held
  | _ => True

/-- The calls that are in order in a phase. -/
def CallOk : Phase → Call → Prop
  | p, .open dirBase _ => dirBase = "" ∨ p = .never ∨ (∃ f, p = .opened f) ∨ p = .closed 0
  | p, .close => (∃ f, p = .opened f) ∨ p = .failed
  | p, .lock pLocks _ => pLocks = false ∨ (∃ f, p = .opened f) ∨ p = .failed
  | _, .unlock => True

/-- How `fdLockDefault` and the held descriptors follow the phase. -/
def Synced (r : Run) : Prop :=
  r.held.Nodup ∧
    match r.phase with
    | .never => r.dir.fdLockDefault = 0 ∧ 0 ∉ r.held
    | .opened f => r.dir.fdLockDefault = f ∧ 0 ≤ f ∧ f ∈ r.held
    | .failed => r.dir.fdLockDefault < 0
    | .closed f => r.dir.fdLockDefault = f ∧ 0 ≤ f ∧ f ∉ r.held

variable {r : Run} {c : Call}

/-- A call that is in order leaves `fdLockDefault` where the phase says. -/
theorem Synced.step (h : r.Synced) (hf : r.Fresh c) (hc : CallOk r.phase c) : (r.step c).Synced := by
  obtain ⟨⟨fd, base⟩, held, phase⟩ := r
  obtain ⟨hn, hp⟩ := h
  cases c with
  | «open» dirBase fd' =>
    simp only [Run.step, Run.events, call, lockDirDefaultOpen]
    split
    · exact ⟨hn, hp⟩
    · split
      · exact ⟨hn, hp⟩
      · split
        · next hneg => simpa [Synced, ledger, Phase.after, hneg] using hn
        · next hpos =>
          have hnew := hf (by omega)
          have hn' : (fd' :: held).Nodup := List.nodup_cons.mpr ⟨hnew, hn⟩
          simp only [List.flatMap_cons, List.flatMap_nil, List.append_nil, ledger, if_neg hpos,
            List.foldl_cons, List.foldl_nil, Phase.after]
          exact ⟨hn', rfl, by omega, List.mem_cons_self⟩
  | close =>
    rcases hc with ⟨f, rfl⟩ | rfl
    · obtain ⟨hfd, hpos, hmem⟩ := hp
      dsimp only at hfd
      subst hfd
      simp only [Run.step, Run.events, call, lockDirDefaultClose]
      rw [if_neg (by omega)]
      exact ⟨hn.erase _, rfl, hpos, fun hm => (hn.mem_erase_iff.mp hm).1 rfl⟩
    · simp only [Run.step, Run.events, call, lockDirDefaultClose]
      rw [if_pos hp]
      exact ⟨hn, hp⟩
  | lock pLocks granted =>
    have hused : (Run.step ⟨⟨fd, base⟩, held, phase⟩ (.lock pLocks granted)) =
        ⟨⟨fd, base⟩, held, phase⟩ := by
      simp only [Run.step, Run.events, call, sysFlagsIntLock]
      split
      · rfl
      · split <;> rfl
    rw [hused]
    exact ⟨hn, hp⟩
  | unlock => exact ⟨hn, hp⟩

/-- `flock` and `close` on `fdLockDefault`, while it is not negative. -/
theorem Synced.held_iff (h : r.Synced) (hneg : ¬ r.dir.fdLockDefault < 0) :
    r.dir.fdLockDefault ∈ r.held ↔ ∃ f, r.phase = .opened f := by
  obtain ⟨⟨fd, base⟩, held, phase⟩ := r
  obtain ⟨-, hp⟩ := h
  dsimp only at hp hneg ⊢
  cases phase with
  | never =>
    obtain ⟨rfl, hm⟩ := hp
    exact ⟨fun h => absurd h hm, nofun⟩
  | opened f =>
    obtain ⟨rfl, -, hm⟩ := hp
    exact ⟨fun _ => ⟨fd, rfl⟩, fun _ => hm⟩
  | failed => exact absurd hp hneg
  | closed f =>
    obtain ⟨rfl, -, hm⟩ := hp
    exact ⟨fun h => absurd h hm, nofun⟩

/-- `fdLockDefault` is negative after a failed `open` only. -/
theorem Synced.neg_iff (h : r.Synced) : r.dir.fdLockDefault < 0 ↔ r.phase = .failed := by
  obtain ⟨⟨fd, base⟩, held, phase⟩ := r
  obtain ⟨-, hp⟩ := h
  dsimp only at hp ⊢
  cases phase with
  | never => exact ⟨fun h => by omega, nofun⟩
  | opened f | closed f => exact ⟨fun h => by omega, nofun⟩
  | failed => exact ⟨fun _ => rfl, fun _ => hp⟩

theorem lockDirDefaultOpen_calls (s : LockDir) (dirBase : String) (fd : Int) :
    (s.lockDirDefaultOpen dirBase fd).2.1 =
      if s.fdLockDefault = 0 ∧ dirBase ≠ "" then [.open (dirBaseLocal dirBase ++ ".lock") fd]
      else [] := by
  unfold lockDirDefaultOpen
  split
  · next h => rw [if_neg fun h' => h h'.1]
  · next h =>
    split
    · next he => rw [if_neg fun h' => h'.2 he]
    · next he =>
      rw [if_pos (show s.fdLockDefault = 0 ∧ dirBase ≠ "" from ⟨Decidable.not_not.mp h, he⟩)]
      split <;> rfl

/-- An `open` that is tried decides what is returned. -/
theorem lockDirDefaultOpen_result (s : LockDir) {dirBase : String} {fd : Int}
    (h : s.fdLockDefault = 0) (he : dirBase ≠ "") :
    (s.lockDirDefaultOpen dirBase fd).2.2 = decide (0 ≤ fd) := by
  unfold lockDirDefaultOpen
  rw [if_neg (by simpa using h), if_neg he]
  split
  · next hneg => simpa using hneg
  · next hneg => simpa using hneg

/-- A new `open` is tried while `fdLockDefault` is `0`. -/
theorem Synced.zero_iff (h : r.Synced) (hn : ∀ f, r.phase ≠ .opened f) :
    r.dir.fdLockDefault = 0 ↔ r.phase = .never ∨ r.phase = .closed 0 := by
  obtain ⟨⟨fd, base⟩, held, phase⟩ := r
  obtain ⟨-, hp⟩ := h
  dsimp only at hp hn ⊢
  cases phase with
  | never => exact ⟨fun _ => .inl rfl, fun _ => hp.1⟩
  | opened f => exact absurd rfl (hn f)
  | failed => exact ⟨fun h => by omega, by rintro (h | h) <;> cases h⟩
  | closed f =>
    obtain ⟨rfl, -⟩ := hp
    refine ⟨fun h => .inr (by rw [h]), ?_⟩
    rintro (h | h)
    · cases h
    · exact Phase.closed.inj h

theorem open_conforms_iff (h : r.Synced) {dirBase : String} {fd : Int}
    (hf : r.Fresh (.open dirBase fd)) :
    r.Conforms (.open dirBase fd) ↔ CallOk r.phase (.open dirBase fd) := by
  -- whatever is opened is new, so the ledger never objects
  have hd : Ledger.Disciplined r.held (r.events (.open dirBase fd)) := by
    simp only [Run.events, call, lockDirDefaultOpen_calls]
    split
    · simp only [List.flatMap_cons, List.flatMap_nil, ledger]
      split
      · trivial
      · exact ⟨hf (by omega), trivial⟩
    · trivial
  by_cases he : dirBase = ""
  · exact ⟨fun _ => .inl he, fun _ => ⟨hd, fun _ _ hc hne => absurd he (by cases hc; exact hne)⟩⟩
  · by_cases ho : ∃ f, r.phase = .opened f
    · obtain ⟨f, ho⟩ := ho
      exact ⟨fun _ => .inr (.inr (.inl ⟨f, ho⟩)), fun _ => ⟨hd, fun _ _ _ _ hn => absurd ho (hn f)⟩⟩
    · have hn : ∀ f, r.phase ≠ .opened f := fun f h => ho ⟨f, h⟩
      have hcalls : (OsCall.open (dirBaseLocal dirBase ++ ".lock") fd ∈
          (r.dir.call (.open dirBase fd)).2) ↔ r.dir.fdLockDefault = 0 := by
        simp only [call, lockDirDefaultOpen_calls]
        split
        · next h0 => simpa using h0.1
        · next h0 => simpa using fun h' => h0 ⟨h', he⟩
      refine ⟨fun hc => ?_, fun hc => ⟨hd, fun d f heq hne _ => ?_⟩⟩
      · rcases (h.zero_iff hn).mp (hcalls.mp (hc.2 dirBase fd rfl he hn).1) with h0 | h0
        · exact .inr (.inl h0)
        · exact .inr (.inr (.inr h0))
      · cases heq
        have h0 : r.dir.fdLockDefault = 0 := by
          refine (h.zero_iff hn).mpr ?_
          rcases hc with hc | hc | ⟨f, hc⟩ | hc
          · exact absurd hc he
          · exact .inl hc
          · exact absurd hc (hn f)
          · exact .inr hc
        exact ⟨hcalls.mpr h0, lockDirDefaultOpen_result r.dir h0 he⟩

theorem conforms_iff (h : r.Synced) (hf : r.Fresh c) : r.Conforms c ↔ CallOk r.phase c := by
  have hno : (∀ d f, c ≠ .open d f) → (r.Conforms c ↔ Ledger.Disciplined r.held (r.events c)) :=
    fun hc => ⟨And.left, fun hd => ⟨hd, fun d f heq => absurd heq (hc d f)⟩⟩
  cases c with
  | «open» dirBase fd => exact open_conforms_iff h hf
  | close =>
    rw [hno (by simp)]
    simp only [Run.events, call, lockDirDefaultClose, CallOk, ← h.neg_iff]
    split
    · next hneg => simp [hneg]
    · next hneg => simp [ledger, Ledger.Event.Ok, h.held_iff hneg, hneg]
  | lock pLocks granted =>
    rw [hno (by simp)]
    simp only [Run.events, call, sysFlagsIntLock, CallOk, ← h.neg_iff]
    by_cases hneg : r.dir.fdLockDefault < 0
    · simp [hneg]
    · cases pLocks with
      | false => simp
      | true =>
        cases granted <;> simp [hneg, ledger, Ledger.Event.Ok, Ledger.after, h.held_iff hneg]
  | unlock => simp [Conforms, CallOk, Run.events, call]

/-! ## Whole runs -/

/-- A condition on every call, in the run before it. -/
def Every (p : Run → Call → Prop) : Run → List Call → Prop
  | _, [] => True
  | r, c :: cs => p r c ∧ Every p (r.step c) cs

theorem every_conforms_iff (h : r.Synced) {cs : List Call} (hf : Every Fresh r cs) :
    Every Conforms r cs ↔ Every (fun r => CallOk r.phase) r cs := by
  induction cs generalizing r with
  | nil => rfl
  | cons c cs ih =>
    have hc := conforms_iff h hf.1
    refine ⟨fun hs => ?_, fun hs => ?_⟩
    · have hok := hc.mp hs.1
      exact ⟨hok, (ih (h.step hf.1 hok) hf.2).mp hs.2⟩
    · exact ⟨hc.mpr hs.1, (ih (h.step hf.1 hs.1) hf.2).mpr hs.2⟩

/-- From program start, the calls are all in order exactly if each of them is one that
its phase admits: locking and closing while the directory is open or after a failed
`open`, opening never again after a failure or a close of a descriptor other than `0`. -/
theorem lifecycle {cs : List Call} (hf : Every Fresh {} cs) :
    Every Conforms {} cs ↔ Every (fun r => CallOk r.phase) {} cs :=
  every_conforms_iff (show Synced {} from ⟨List.nodup_nil, rfl, List.not_mem_nil⟩) hf

section Runs

attribute [local simp] Every Fresh CallOk Run.step Run.events call lockDirDefaultOpen
  lockDirDefaultClose sysFlagsIntLock ledger Ledger.after Phase.after

/-- Opening, locking and closing once is in order. -/
theorem lifecycle_once :
    Every Conforms {} [.open "/var/lock" 3, .lock true true, .unlock, .close] :=
  (lifecycle (by simp)).mpr (by simp)

/-- A lock and a close at the start get descriptor `0`, a second close gets one that is
closed, and after a failed `open` and after a close no `open` is tried. -/
theorem lifecycle_fails :
    ¬ Every Conforms {} [.lock true true] ∧
    ¬ Every Conforms {} [.close] ∧
    ¬ Every Conforms {} [.open "/var/lock" 3, .close, .close] ∧
    ¬ Every Conforms {} [.open "/var/lock" (-1), .open "/var/lock" 3] ∧
    ¬ Every Conforms {} [.open "/var/lock" 3, .close, .open "/var/lock" 3] := by
  refine ⟨?_, ?_, ?_, ?_, ?_⟩ <;> rw [every_conforms_iff] <;> simp [Synced]

end Runs

end Run
end LockDir
end ProcessingCommon

import ProcessingCommon.LibFilesys.SysFlags

/-!
# The files of the flags

In orderly runs in which `remove()` works, the lock directory is exact: besides the files of earlier
runs there is one file for each flag that somebody has, and the file lock is held as long as its
process is in the section.
-/

namespace ProcessingCommon
namespace SysFlags

open Transition (Reachable guarded)

section

set_option linter.unusedSectionVars false

variable {P R : Type} [DecidableEq P] [DecidableEq R] {proc : R → P} {dirBase : String}
  {s t : State P R} {r : R} {f : String} {before : String → Bool}

/-- Orderly, and a file that is to be removed is removed. -/
def Careful (proc : R → P) (dirBase : String) (s : State P R) (e : Event R) : Prop :=
  Orderly proc dirBase s e ∧ ∀ r removed next, e = .remove r removed next → removed = true

/-- Nobody has a flag; `before` are the files in the directory. -/
def InitialWith (before : String → Bool) (s : State P R) : Prop := Initial s ∧ s.files = before

def Event.requester : Event R → R
  | .lock r _ _ | .check r _ | .checked r | .taken r | .create r _ | .leave r | .record r
  | .unlock r | .remove r _ _ | .unlocked r => r

/-! ## What a step can do -/

/-- What a step of requester `r` does to the flags, the files, the lock and the section. -/
inductive Effect (proc : R → P) (dirBase : String) (s : State P R) (r : R) (t : State P R) : Prop
  | quiet (owned : ∀ r', t.owned r' = s.owned r') (files : t.files = s.files)
      (holder : t.holder = s.holder)
      (inSection : ∀ r', (t.pc r').inSection = (s.pc r').inSection)
  | entered (owned : ∀ r', t.owned r' = s.owned r') (files : t.files = s.files)
      (holder : t.holder = some (proc r)) (inside : (t.pc r).inSection = true)
      (outside : ∀ r', r' ≠ r → (t.pc r').inSection = false)
  | left (owned : ∀ r', t.owned r' = s.owned r') (files : t.files = s.files)
      (holder : t.holder = none) (outside : ∀ r', (t.pc r').inSection = false)
  | gained (f : String) (absent : s.files (pathFlag dirBase f) = false)
      (owned : ∀ r', t.owned r' = if r' = r then s.owned r ++ [f] else s.owned r')
      (files : t.files = Function.update s.files (pathFlag dirBase f) true)
      (holder : t.holder = s.holder)
      (inSection : ∀ r', (t.pc r').inSection = (s.pc r').inSection)
  | lost (f : String) (had : f ∈ s.owned r) (gone : f ∉ t.owned r)
      (owned : ∀ r' g, g ≠ f → (g ∈ t.owned r' ↔ g ∈ s.owned r'))
      (sub : ∀ r', ∀ g ∈ t.owned r', g ∈ s.owned r')
      (files : t.files = Function.update s.files (pathFlag dirBase f) false)
      (holder : t.holder = s.holder)
      (inSection : ∀ r', (t.pc r').inSection = (s.pc r').inSection)

theorem inSection_eq {pc : Pc} (ht : t.pc = Function.update s.pc r pc)
    (hpc : pc.inSection = (s.pc r).inSection) (r' : R) :
    (t.pc r').inSection = (s.pc r').inSection :=
  update_pc (q := fun r' q => q.inSection = (s.pc r').inSection) ht hpc (fun _ _ => rfl) r'

/-- The one in the section leaves it. -/
theorem Inv.outside (h : Inv proc dirBase s) {pc : Pc} (hr : (s.pc r).inSection = true)
    (ht : t.pc = Function.update s.pc r pc) (hpc : pc.inSection = false) (r' : R) :
    (t.pc r').inSection = false :=
  update_pc (q := fun _ q => q.inSection = false) ht hpc (h.stay hr).2 r'

theorem Inv.lockUn_holder (h : Inv proc dirBase s) (hr : (s.pc r).inSection = true) :
    (if s.holder = some (proc r) then none else s.holder) = (none : Option P) :=
  if_pos (h.holder r hr)

theorem mem_eraseIdx_of_ne {l : List String} {idx : Nat} {g : String} (hf : l[idx]? = some f)
    (hg : g ≠ f) : g ∈ l.eraseIdx idx ↔ g ∈ l := by
  refine ⟨List.mem_of_mem_eraseIdx, fun hm => ?_⟩
  obtain ⟨i, hi, rfl⟩ := List.mem_iff_getElem.mp hm
  obtain ⟨hidx, hidxf⟩ := List.getElem?_eq_some_iff.mp hf
  refine List.mem_eraseIdx_iff_getElem.mpr ⟨i, hi, ?_, rfl⟩
  rintro rfl
  exact hg hidxf

theorem step_effect (h : Inv proc dirBase s) {e : Event R} (hok : Careful proc dirBase s e)
    (ht : step proc dirBase s e = some t) : Effect proc dirBase s e.requester t := by
  have hinv := step_inv h hok.1 ht
  cases e with
  | lock r flags error =>
    simp only [step] at ht
    split_ifs at ht with hidle herr hfree <;> cases ht
    all_goals rw [ne_eq, Decidable.not_not] at hidle
    · exact .quiet (owned_eq rfl rfl (by rw [hidle])) rfl rfl (inSection_eq rfl (by rw [hidle]))
    · have hin : (((s.setPc r (.check [] flags.val)).pc) r).inSection = true := by
        simp [State.setPc, Pc.inSection]
      exact .entered (owned_eq rfl rfl (by rw [hidle]; rfl)) rfl rfl hin
        (hinv.stay (r := r) hin).2
    · exact .quiet (owned_eq rfl rfl (by rw [hidle])) rfl rfl (inSection_eq rfl (by rw [hidle]))
  | check r opened =>
    simp only [step] at ht
    split at ht
    · next done f todo hpc =>
      split at ht
      · cases ht
      · cases ht
        cases opened <;>
          exact .quiet (owned_eq rfl rfl (by rw [hpc]; rfl)) rfl rfl
            (inSection_eq rfl (by rw [hpc]; rfl))
    · cases ht
  | checked r =>
    simp only [step] at ht
    split at ht
    · next done hpc =>
      cases ht
      exact .quiet (owned_eq rfl rfl (by rw [hpc]; rfl)) rfl rfl
        (inSection_eq rfl (by rw [hpc]; rfl))
    · cases ht
  | taken r =>
    simp only [step] at ht
    split at ht
    · next hpc =>
      cases ht
      have hr : (s.pc r).inSection = true := by rw [hpc]; rfl
      exact .left (owned_eq rfl rfl (by rw [hpc]; rfl)) rfl (h.lockUn_holder hr)
        (h.outside hr rfl rfl)
    · cases ht
  | create r created =>
    obtain rfl : created = true := hok.1
    simp only [step, if_true] at ht
    split at ht
    · next done f todo hpc =>
      cases ht
      have habsent := h.absent r
      rw [hpc] at habsent
      refine .gained f (habsent f List.mem_cons_self) (fun r' => ?_) rfl rfl
        (inSection_eq rfl (by rw [hpc]; rfl))
      refine update_pc (q := fun r' q => s.locks r' ++ q.created =
        if r' = r then s.owned r ++ [f] else s.owned r') (s := s) rfl ?_ (fun r' he => ?_) r'
      · rw [if_pos rfl, State.owned, hpc]
        exact (List.append_assoc _ _ _).symm
      · rw [if_neg he]
        rfl
    · cases ht
  | leave r =>
    simp only [step] at ht
    split at ht
    · next done hpc =>
      cases ht
      have hr : (s.pc r).inSection = true := by rw [hpc]; rfl
      exact .left (owned_eq rfl rfl (by rw [hpc]; rfl)) rfl (h.lockUn_holder hr)
        (h.outside hr rfl rfl)
    · cases ht
  | record r =>
    simp only [step] at ht
    split at ht
    · next flags hpc =>
      cases ht
      refine .quiet (fun r' => ?_) rfl rfl (inSection_eq rfl (by rw [hpc]; rfl))
      rcases eq_or_ne r' r with rfl | he
      · simp [State.owned, State.ret, State.setPc, hpc, Pc.created]
      · simp [State.owned, State.ret, State.setPc, Function.update_of_ne he]
    · cases ht
  | unlock r =>
    simp only [step] at ht
    split at ht
    · cases ht
    · next hc =>
      rw [not_or, ne_eq, Decidable.not_not] at hc
      cases ht
      exact .quiet (owned_eq rfl rfl (by rw [hc.1]; rfl)) rfl rfl
        (inSection_eq rfl (by rw [hc.1]; rfl))
  | unlocked r =>
    simp only [step] at ht
    split at ht
    · next idx hpc =>
      split at ht
      · cases ht
        exact .quiet (owned_eq rfl rfl (by rw [hpc]; rfl)) rfl rfl
          (inSection_eq rfl (by rw [hpc]; rfl))
      · cases ht
    · cases ht
  | remove r removed next =>
    obtain rfl := hok.2 r removed next rfl
    simp only [step, if_true] at ht
    split at ht
    · next idx hpc =>
      split at ht
      · next f idx' hf hidx =>
        cases ht
        have howned : s.owned r = s.locks r := by
          rw [State.owned, hpc]
          exact List.append_nil _
        have hnodup : (s.locks r).Nodup := howned ▸ h.owned_nodup r
        generalize hu : (State.fileSet _ _ _ : State P R) = u
        have hself : u.owned r = (s.locks r).eraseIdx idx := by
          rw [← hu, State.owned]
          simp [State.fileSet, State.setPc, Pc.created]
        have hother : ∀ r', r' ≠ r → u.owned r' = s.owned r' := fun r' he => by
          rw [← hu, State.owned, State.owned]
          simp [State.fileSet, State.setPc, Function.update_of_ne he]
        have hfiles : u.files = Function.update s.files (pathFlag dirBase f) false := by
          rw [← hu]; rfl
        have hpcs : u.pc = Function.update s.pc r (.unlocking idx') := by rw [← hu]; rfl
        -- no flag is had twice, so erasing the place of `f` takes exactly `f` away
        refine .lost f (howned ▸ List.mem_of_getElem? hf) ?_ (fun r' g hg => ?_) (fun r' g hg => ?_)
          hfiles (by rw [← hu]; rfl) (inSection_eq hpcs (by rw [hpc]; rfl))
        · rw [Event.requester, hself]
          exact not_mem_eraseIdx hnodup hf
        · rcases eq_or_ne r' r with rfl | he
          · rw [hself, howned]
            exact mem_eraseIdx_of_ne hf hg
          · rw [hother r' he]
        · rcases eq_or_ne r' r with rfl | he
          · rw [hself] at hg
            rw [howned]
            exact List.mem_of_mem_eraseIdx hg
          · rwa [hother r' he] at hg
      · cases ht
    · cases ht

/-! ## The directory -/

structure Exact (proc : R → P) (dirBase : String) (before : String → Bool) (s : State P R) :
    Prop where
  files : ∀ path, s.files path = true ↔
    before path = true ∨ ∃ r, ∃ f ∈ s.owned r, path = pathFlag dirBase f
  fresh : ∀ r, ∀ f ∈ s.owned r, before (pathFlag dirBase f) = false
  holder : ∀ p, s.holder = some p ↔ ∃ r, proc r = p ∧ (s.pc r).inSection = true

theorem exact_initial (h : InitialWith before s) : Exact proc dirBase before s := by
  have howned : ∀ r, s.owned r = [] := fun r => by
    rw [State.owned, h.1.locks, h.1.pc]
    rfl
  refine ⟨fun path => ?_, fun r f hf => ?_, fun p => ?_⟩
  · rw [h.2]
    refine ⟨.inl, fun hor => hor.resolve_right ?_⟩
    rintro ⟨r, f, hf, -⟩
    rw [howned] at hf
    cases hf
  · rw [howned] at hf
    cases hf
  · rw [h.1.holder]
    refine iff_of_false (Option.some_ne_none p).symm ?_
    rintro ⟨r, -, hr⟩
    rw [h.1.pc] at hr
    cases hr

/-- The holder of a state in which nobody has entered or left the section. -/
theorem Exact.holder_congr (h : Exact proc dirBase before s) (hholder : t.holder = s.holder)
    (hsec : ∀ r', (t.pc r').inSection = (s.pc r').inSection) (p : P) :
    t.holder = some p ↔ ∃ r, proc r = p ∧ (t.pc r).inSection = true := by
  simp only [hholder, hsec]
  exact h.holder p

theorem Exact.files_congr (h : Exact proc dirBase before s) (hfiles : t.files = s.files)
    (howned : ∀ r', t.owned r' = s.owned r') (path : String) : t.files path = true ↔
      before path = true ∨ ∃ r, ∃ f ∈ t.owned r, path = pathFlag dirBase f := by
  simp only [hfiles, howned]
  exact h.files path

theorem Exact.fresh_congr (h : Exact proc dirBase before s)
    (hsub : ∀ r', ∀ g ∈ t.owned r', g ∈ s.owned r') :
    ∀ r, ∀ f ∈ t.owned r, before (pathFlag dirBase f) = false :=
  fun r f hf => h.fresh r f (hsub r f hf)

theorem Exact.effect (h : Exact proc dirBase before s) (hinv : Inv proc dirBase s)
    (ht : Effect proc dirBase s r t) : Exact proc dirBase before t := by
  cases ht with
  | quiet owned files holder inSection =>
    exact ⟨h.files_congr files owned, h.fresh_congr fun r' g hg => owned r' ▸ hg,
      h.holder_congr holder inSection⟩
  | entered owned files holder inside outside =>
    refine ⟨h.files_congr files owned, h.fresh_congr fun r' g hg => owned r' ▸ hg, fun p => ?_⟩
    rw [holder]
    constructor
    · intro hp
      exact ⟨r, Option.some.inj hp, inside⟩
    · rintro ⟨r', rfl, hr'⟩
      rcases eq_or_ne r' r with rfl | hne
      · rfl
      · rw [outside r' hne] at hr'
        cases hr'
  | left owned files holder outside =>
    refine ⟨h.files_congr files owned, h.fresh_congr fun r' g hg => owned r' ▸ hg, fun p => ?_⟩
    rw [holder]
    refine iff_of_false (Option.some_ne_none p).symm ?_
    rintro ⟨r', -, hr'⟩
    rw [outside r'] at hr'
    cases hr'
  | gained f absent owned files holder inSection =>
    -- the file was absent, so it is none of those that were there before
    have hnew : before (pathFlag dirBase f) = false := by
      rw [Bool.eq_false_iff]
      intro hb
      rw [(h.files _).mpr (.inl hb)] at absent
      cases absent
    have hmem : ∀ r' g, g ∈ t.owned r' ↔ g ∈ s.owned r' ∨ r' = r ∧ g = f := by
      intro r' g
      rw [owned]
      split
      · next he => rw [he, List.mem_append, List.mem_singleton, eq_self, true_and]
      · next he => exact (or_iff_left fun hno => he hno.1).symm
    refine ⟨fun path => ?_, fun r' g hg => ?_, h.holder_congr holder inSection⟩
    · rw [files]
      rcases eq_or_ne path (pathFlag dirBase f) with rfl | hne
      · rw [Function.update_self]
        exact iff_of_true rfl (.inr ⟨r, f, (hmem r f).mpr (.inr ⟨rfl, rfl⟩), rfl⟩)
      · rw [Function.update_of_ne hne, h.files]
        refine or_congr_right (exists_congr fun r' => exists_congr fun g => ?_)
        rw [hmem]
        constructor
        · exact fun hg => ⟨.inl hg.1, hg.2⟩
        · rintro ⟨hg | ⟨-, rfl⟩, hpath⟩
          · exact ⟨hg, hpath⟩
          · exact absurd hpath hne
    · rcases (hmem r' g).mp hg with hg | ⟨-, rfl⟩
      · exact h.fresh r' g hg
      · exact hnew
  | lost f had gone owned sub files holder inSection =>
    refine ⟨fun path => ?_, h.fresh_congr sub, h.holder_congr holder inSection⟩
    rw [files]
    rcases eq_or_ne path (pathFlag dirBase f) with rfl | hne
    · rw [Function.update_self]
      refine iff_of_false Bool.false_ne_true ?_
      rintro (hb | ⟨r', g, hg, hpath⟩)
      · rw [h.fresh r f had] at hb
        cases hb
      -- whoever else has a flag of this file has `f` itself, and only one can have it
      · obtain rfl := pathFlag_inj.mp hpath
        obtain rfl := hinv.unique r' r f (sub r' f hg) had
        exact gone hg
    · rw [Function.update_of_ne hne, h.files]
      refine or_congr_right (exists_congr fun r' => exists_congr fun g => ?_)
      refine and_congr_left fun hpath => ?_
      exact (owned r' g fun he => hne (he ▸ hpath)).symm

/-- The states of the runs whose steps are careful, over the files `before`. -/
def ReachedFrom (proc : R → P) (dirBase : String) (before : String → Bool) : State P R → Prop :=
  Reachable (InitialWith before) (guarded (Careful proc dirBase) (Step proc dirBase))

/-- In every orderly run in which `remove()` works: the directory has the files that were there
before the run, no flag of which is ever had, and one file for each flag that somebody has or is
just taking, and the file lock is held by a process exactly as long as one of its threads is in the
section. -/
theorem directory_exact (h : ReachedFrom proc dirBase before s) :
    (∀ path, s.files path = true ↔
      before path = true ∨ ∃ r, ∃ f ∈ s.owned r, path = pathFlag dirBase f) ∧
      (∀ r, ∀ f ∈ s.owned r, before (pathFlag dirBase f) = false) ∧
      (∀ r r', ∀ f ∈ s.owned r, f ∈ s.owned r' → r = r') ∧
      ∀ p, s.holder = some p ↔ ∃ r, proc r = p ∧ (s.pc r).inSection = true := by
  have hall : Inv proc dirBase s ∧ Exact proc dirBase before s :=
    Reachable.invariant (P := fun s => Inv proc dirBase s ∧ Exact proc dirBase before s)
      (fun _ h0 => ⟨h0.1.inv, exact_initial h0⟩)
      (fun s e t hs hst => ⟨step_inv hs.1 hst.1.1 hst.2,
        hs.2.effect hs.1 (step_effect hs.1 hst.1 hst.2)⟩) h
  exact ⟨hall.2.files, hall.2.fresh, hall.1.unique, hall.2.holder⟩

end

/-- The file of the flag `old` is left from an earlier run; the flag `a` is taken. -/
def startOld : State Bool Bool := { start with files := fun path => path = "/var/lock/old" }

theorem directory_exact_taken :
    ∃ s, exec id "/var/lock/" startOld [.lock false flagA false, .check false false, .checked false,
        .create false true] = some s ∧
      (∀ path, s.files path = true ↔ startOld.files path = true ∨
        ∃ r, ∃ f ∈ s.owned r, path = pathFlag "/var/lock/" f) ∧
      (∀ r, ∀ f ∈ s.owned r, startOld.files (pathFlag "/var/lock/" f) = false) ∧
      (∀ r r', ∀ f ∈ s.owned r, f ∈ s.owned r' → r = r') ∧
      (∀ p, s.holder = some p ↔ ∃ r, id r = p ∧ (s.pc r).inSection = true) ∧
      s.owned false = ["a"] := by
  have h0 : ReachedFrom id "/var/lock/" startOld.files startOld :=
    .start ⟨⟨rfl, fun _ => rfl, fun _ => rfl⟩, rfl⟩
  have h1 : ReachedFrom id "/var/lock/" startOld.files _ := .next h0
    (i := .lock false flagA false)
    ⟨⟨fun _ r' hne heq => absurd heq hne, fun _ _ _ he => by cases he⟩, rfl⟩
  have h2 : ReachedFrom id "/var/lock/" startOld.files _ := .next h1 (i := .check false false)
    ⟨⟨fun done f todo hpc hf => (by cases hpc; cases hf), fun _ _ _ he => by cases he⟩, rfl⟩
  have h3 : ReachedFrom id "/var/lock/" startOld.files _ := .next h2 (i := .checked false)
    ⟨⟨trivial, fun _ _ _ he => by cases he⟩, rfl⟩
  have h4 : ReachedFrom id "/var/lock/" startOld.files _ := .next h3 (i := .create false true)
    ⟨⟨rfl, fun _ _ _ he => by cases he⟩, rfl⟩
  obtain ⟨hfiles, hfresh, hunique, hholder⟩ := directory_exact h4
  exact ⟨_, rfl, hfiles, hfresh, hunique, hholder, rfl⟩

end SysFlags
end ProcessingCommon

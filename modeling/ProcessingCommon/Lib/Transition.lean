import Mathlib.Tactic.Common

/-!
# Transition systems

Runs of a labelled transition relation, guards on its steps, and the two rules
the developments use: an invariant is proved from one step, and two
deterministic machines agree on every run if a relation is kept by each input.
-/

namespace Transition

universe u v w

section Relations

variable {σ : Type u} {ι : Type v} {init : σ → Prop} {step : σ → ι → σ → Prop}

/-- The states of the runs that start in `init`. -/
inductive Reachable (init : σ → Prop) (step : σ → ι → σ → Prop) : σ → Prop
  | start {s : σ} : init s → Reachable init step s
  | next {s t : σ} {i : ι} : Reachable init step s → step s i t → Reachable init step t

/-- The steps that meet the condition `ok` on the state before and the label. -/
def guarded (ok : σ → ι → Prop) (step : σ → ι → σ → Prop) (s : σ) (i : ι) (t : σ) : Prop :=
  ok s i ∧ step s i t

/-- The relation of a step function. -/
def ofFun (f : σ → ι → σ) (s : σ) (i : ι) (t : σ) : Prop := t = f s i

theorem Reachable.invariant {P : σ → Prop} (h0 : ∀ s, init s → P s)
    (hstep : ∀ s i t, P s → step s i t → P t) {s : σ} (h : Reachable init step s) : P s := by
  induction h with
  | start hi => exact h0 _ hi
  | next _ hs ih => exact hstep _ _ _ ih hs

/-- One step of a guarded step function. -/
theorem Reachable.apply {ok : σ → ι → Prop} {f : σ → ι → σ} {s : σ} (i : ι)
    (h : Reachable init (guarded ok (ofFun f)) s) (hok : ok s i) :
    Reachable init (guarded ok (ofFun f)) (f s i) :=
  .next h ⟨hok, rfl⟩

/-- The runs of a step function. -/
theorem Reachable.foldl {f : σ → ι → σ} {s : σ} (h : Reachable init (ofFun f) s) (is : List ι) :
    Reachable init (ofFun f) (is.foldl f s) := by
  induction is generalizing s with
  | nil => exact h
  | cons i is ih => exact ih (.next h rfl)

end Relations

section Ranked

variable {σ : Type u} {step : σ → σ → Prop} {P : σ → Prop} {m : σ → Nat}

/-- A number of steps. -/
inductive Steps (step : σ → σ → Prop) : Nat → σ → σ → Prop
  | refl {s : σ} : Steps step 0 s s
  | tail {n : Nat} {s t u : σ} : Steps step n s t → step t u → Steps step (n + 1) s u

/-- What every step lowers bounds the number of steps. -/
theorem Steps.ranked (hstep : ∀ s t, P s → step s t → P t ∧ m t + 1 ≤ m s) {n : Nat} {s t : σ}
    (h : Steps step n s t) (hs : P s) : P t ∧ m t + n ≤ m s := by
  induction h with
  | refl => exact ⟨hs, Nat.le_refl _⟩
  | tail _ ht ih =>
    obtain ⟨hP, hle⟩ := ih hs
    obtain ⟨hP', hlt⟩ := hstep _ _ hP ht
    exact ⟨hP', by omega⟩

end Ranked

section Machines

variable {σ : Type u} {τ : Type u} {ι : Type v} {ο : Type w}

/-- The outputs of a machine, input by input. -/
def outputs (f : σ → ι → σ × ο) : σ → List ι → List ο
  | _, [] => []
  | s, i :: is => (f s i).2 :: outputs f (f s i).1 is

/-- The final state of a machine. -/
def final (f : σ → ι → σ × ο) : σ → List ι → σ
  | s, [] => s
  | s, i :: is => final f (f s i).1 is

/-- Every input meets the condition `ok` in the state in which it arrives. -/
def Admissible (ok : σ → ι → Prop) (f : σ → ι → σ × ο) : σ → List ι → Prop
  | _, [] => True
  | s, i :: is => ok s i ∧ Admissible ok f (f s i).1 is

/-- A condition on the inputs alone joins the one on the states. -/
theorem Admissible.and {ok : σ → ι → Prop} {f : σ → ι → σ × ο} {p : ι → Prop} {s : σ}
    {is : List ι} (hp : ∀ i ∈ is, p i) (h : Admissible ok f s is) :
    Admissible (fun s i => p i ∧ ok s i) f s is := by
  induction is generalizing s with
  | nil => trivial
  | cons i is ih =>
    exact ⟨⟨hp i List.mem_cons_self, h.1⟩, ih (fun j hj => hp j (List.mem_cons_of_mem _ hj)) h.2⟩

/-- A condition that an invariant implies holds all along. -/
theorem Admissible.of_invariant {ok : σ → ι → Prop} {f : σ → ι → σ × ο} {P : σ → Prop}
    (hstep : ∀ s i, P s → ok s i ∧ P (f s i).1) {s : σ} (h : P s) (is : List ι) :
    Admissible ok f s is := by
  induction is generalizing s with
  | nil => trivial
  | cons i is ih => exact ⟨(hstep s i h).1, ih (hstep s i h).2⟩

/-- Two machines that keep a relation and give equal outputs under it agree on
every sequence of inputs that is admissible for both. -/
theorem outputs_eq {f : σ → ι → σ × ο} {g : τ → ι → τ × ο} {okf : σ → ι → Prop}
    {okg : τ → ι → Prop} {R : σ → τ → Prop}
    (hstep : ∀ s t i, R s t → okf s i → okg t i →
      R (f s i).1 (g t i).1 ∧ (f s i).2 = (g t i).2)
    {s : σ} {t : τ} (is : List ι) (h : R s t) (hf : Admissible okf f s is)
    (hg : Admissible okg g t is) : outputs f s is = outputs g t is := by
  induction is generalizing s t with
  | nil => rfl
  | cons i is ih =>
    obtain ⟨hR, ho⟩ := hstep s t i h hf.1 hg.1
    simp only [outputs, ho, ih hR hf.2 hg.2]

/-- Two machines that keep a relation end in related states. -/
theorem final_related {f : σ → ι → σ × ο} {g : τ → ι → τ × ο} {ok : σ → ι → Prop}
    {R : σ → τ → Prop} (hstep : ∀ s t i, R s t → ok s i → R (f s i).1 (g t i).1) {s : σ} {t : τ}
    (is : List ι) (h : R s t) (hok : Admissible ok f s is) : R (final f s is) (final g t is) := by
  induction is generalizing s t with
  | nil => exact h
  | cons i is ih => exact ih (hstep s t i h hok.1) hok.2

end Machines

/-! ## Partial machines

A step that has no result ends the run without one. -/

section Partial

variable {σ : Type u} {ι : Type v}

def run (f : σ → ι → Option σ) : σ → List ι → Option σ
  | s, [] => some s
  | s, i :: is => (f s i).bind fun t => run f t is

/-- Every step of the run that is made meets the condition `ok` on the state before it. -/
def AllOk (ok : σ → ι → Prop) (f : σ → ι → Option σ) : σ → List ι → Prop
  | _, [] => True
  | s, i :: is => ok s i ∧ ∀ t, f s i = some t → AllOk ok f t is

/-- If a step from the invariant has a result exactly under `ok`, a run has one exactly when
all its steps are `ok`. -/
theorem run_isSome_iff {P : σ → Prop} {ok : σ → ι → Prop} {f : σ → ι → Option σ}
    (hok : ∀ s i, P s → ((f s i).isSome ↔ ok s i))
    (hstep : ∀ s i t, P s → f s i = some t → P t) {s : σ} (h : P s) (is : List ι) :
    (run f s is).isSome ↔ AllOk ok f s is := by
  induction is generalizing s with
  | nil => exact ⟨fun _ => trivial, fun _ => rfl⟩
  | cons i is ih =>
    rw [run, AllOk, ← hok s i h]
    cases hf : f s i with
    | none => simp
    | some t => simp [ih (hstep s i t h hf)]

/-- Bounded waiting: if every own step lowers a measure or leads to `Q`, and the steps of the
others do not raise it, then a run gets to `Q` within as many own steps, or has not made them. -/
theorem run_ranked {P Q : σ → Prop} {m : σ → Nat} {own : ι → Bool} {f : σ → ι → Option σ}
    (hown : ∀ s i t, P s → own i = true → f s i = some t → Q t ∨ P t ∧ m t + 1 ≤ m s)
    (hother : ∀ s i t, P s → own i = false → f s i = some t → P t ∧ m t ≤ m s)
    (hpos : ∀ s, P s → 0 < m s) {s t : σ} (h : P s) {is : List ι} (hrun : run f s is = some t) :
    (∃ pre post u, is = pre ++ post ∧ run f s pre = some u ∧ Q u ∧ pre.countP own ≤ m s) ∨
      P t ∧ is.countP own + m t ≤ m s := by
  induction is generalizing s with
  | nil =>
    cases hrun
    exact .inr ⟨h, Nat.le_of_eq (Nat.zero_add _)⟩
  | cons i is ih =>
    obtain ⟨u, hu, hrun⟩ := Option.bind_eq_some_iff.mp hrun
    have hcons (pre : List ι) : run f s (i :: pre) = run f u pre := congrArg (Option.bind · _) hu
    -- the step either ends the waiting or leaves a shorter run of the same kind
    have hstep : Q u ∨ P u ∧ m u + (if own i = true then 1 else 0) ≤ m s := by
      cases hi : own i with
      | true => exact hown s i u h hi hu
      | false => exact .inr (hother s i u h hi hu)
    rcases hstep with hq | ⟨hp, hm⟩
    · refine .inl ⟨[i], is, u, rfl, hcons [], hq, ?_⟩
      exact Nat.le_trans List.countP_le_length (hpos s h)
    · rcases ih hp hrun with ⟨pre, post, v, rfl, hv, hq, hle⟩ | ⟨hpt, hle⟩
      · refine .inl ⟨i :: pre, post, v, rfl, (hcons pre).trans hv, hq, ?_⟩
        rw [List.countP_cons]
        omega
      · refine .inr ⟨hpt, ?_⟩
        rw [List.countP_cons]
        omega

end Partial

end Transition

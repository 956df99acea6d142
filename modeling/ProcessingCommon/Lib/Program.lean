import Mathlib.Tactic.Common

/-!
# Programs over an environment

A program works on a state of its own and makes calls that its environment
answers. Nothing is said about the answers: what they may be is a relation on the
states of the environment, so one program is run in as many environments as there
are things to prove about it. `wp` is its weakest precondition over all answers and
`Exec` its runs; the rules of `wp` follow the way programs are put together.
-/

/-- A program with calls `k : κ` that are answered by a `ρ k`. -/
inductive Program (κ : Type) (ρ : κ → Type) (σ α : Type) : Type
  | ret (a : α)
  | get (next : σ → Program κ ρ σ α)
  | set (s : σ) (next : Program κ ρ σ α)
  | call (k : κ) (next : ρ k → Program κ ρ σ α)

namespace Program

variable {κ : Type} {ρ : κ → Type} {σ α β ε : Type}

protected def bind : Program κ ρ σ α → (α → Program κ ρ σ β) → Program κ ρ σ β
  | .ret a, f => f a
  | .get next, f => .get fun s => (next s).bind f
  | .set s next, f => .set s (next.bind f)
  | .call k next, f => .call k fun r => (next r).bind f

instance : Monad (Program κ ρ σ) where
  pure := .ret
  bind := .bind

/-- Makes a call and gives its answer. -/
def perform (k : κ) : Program κ ρ σ (ρ k) := .call k .ret

instance : MonadStateOf σ (Program κ ρ σ) where
  get := .get .ret
  set s := .set s (.ret ())
  modifyGet f := .get fun s => .set (f s).2 (.ret (f s).1)

/-- A loop of at most `n` rounds: the body goes on with `inl` and leaves with `inr`. -/
def rounds (body : ε → Program κ ρ σ (ε ⊕ α)) (spent : ε → Program κ ρ σ α) :
    Nat → ε → Program κ ρ σ α
  | 0, e => spent e
  | n + 1, e => do
    match ← body e with
    | .inl e => rounds body spent n e
    | .inr a => pure a

/-- One round after the other over a list. -/
def each (l : List ε) (body : ε → Program κ ρ σ Unit) : Program κ ρ σ Unit :=
  match l with
  | [] => pure ()
  | e :: es => do
    body e
    each es body

/-! ## Weakest preconditions -/

variable {ω : Type} {env : ω → (k : κ) → ρ k → ω → Prop}

/-- Every run of the program ends with `Q`, whatever the environment answers. -/
def wp (env : ω → (k : κ) → ρ k → ω → Prop) :
    Program κ ρ σ α → (α → σ → ω → Prop) → σ → ω → Prop
  | .ret a, Q, s, w => Q a s w
  | .get next, Q, s, w => wp env (next s) Q s w
  | .set s next, Q, _, w => wp env next Q s w
  | .call k next, Q, s, w => ∀ r w', env w k r w' → wp env (next r) Q s w'

variable {Q R : α → σ → ω → Prop} {s : σ} {w : ω}

@[simp] theorem wp_pure (a : α) : wp env (pure a : Program κ ρ σ α) Q s w = Q a s w := rfl

@[simp] theorem wp_bind (p : Program κ ρ σ β) (f : β → Program κ ρ σ α) :
    wp env (p >>= f) Q s w = wp env p (fun b => wp env (f b) Q) s w := by
  change wp env (p.bind f) Q s w = _
  induction p generalizing s w with
  | ret a => rfl
  | get next ih => exact ih s
  | set s next ih => exact ih
  | call k next ih =>
    simp only [Program.bind, wp]
    exact propext (forall_congr' fun r => forall_congr' fun w' => by rw [ih])

@[simp] theorem wp_get {Q : σ → σ → ω → Prop} :
    wp env (MonadState.get : Program κ ρ σ σ) Q s w = Q s s w := rfl

@[simp] theorem wp_modify {Q : PUnit → σ → ω → Prop} (f : σ → σ) :
    wp env (modify f : Program κ ρ σ PUnit) Q s w = Q () (f s) w := rfl

@[simp] theorem wp_perform (k : κ) {Q : ρ k → σ → ω → Prop} :
    wp env (perform k : Program κ ρ σ (ρ k)) Q s w = ∀ r w', env w k r w' → Q r s w' := rfl

@[simp] theorem wp_ite (c : Prop) [Decidable c] (p q : Program κ ρ σ α) :
    wp env (if c then p else q) Q s w = if c then wp env p Q s w else wp env q Q s w := by
  split <;> rfl

theorem wp_mono {p : Program κ ρ σ α} (h : wp env p Q s w) (hQ : ∀ a s w, Q a s w → R a s w) :
    wp env p R s w := by
  induction p generalizing s w with
  | ret a => exact hQ a s w h
  | get next ih => exact ih s h
  | set s next ih => exact ih h
  | call k next ih => exact fun r w' he => ih r (h r w' he)

theorem wp_congr {p : Program κ ρ σ α} (h : ∀ a s w, Q a s w = R a s w) :
    wp env p Q s w = wp env p R s w := by
  have hQR : Q = R := funext fun a => funext fun s => funext fun w => h a s w
  rw [hQR]

theorem wp_true (p : Program κ ρ σ α) : wp env p (fun _ _ _ => True) s w := by
  induction p generalizing s w with
  | ret a => trivial
  | get next ih => exact ih s
  | set s next ih => exact ih
  | call k next ih => exact fun r w' _ => ih r

/-- What holds of all answers holds of some. -/
theorem wp_anti {env' : ω → (k : κ) → ρ k → ω → Prop} (henv : ∀ w k r w', env' w k r w' →
    env w k r w') {p : Program κ ρ σ α} (h : wp env p Q s w) : wp env' p Q s w := by
  induction p generalizing s w with
  | ret a => exact h
  | get next ih => exact ih s h
  | set s next ih => exact ih h
  | call k next ih =>
    intro r w' hr
    exact ih r (h r w' (henv w k r w' hr))

/-- The rule of a call of another program, whose specification is `h`. -/
theorem wp_seq {p : Program κ ρ σ β} {f : β → Program κ ρ σ α} {P : β → σ → ω → Prop}
    (h : wp env p P s w) (hf : ∀ b s w, P b s w → wp env (f b) Q s w) :
    wp env (p >>= f) Q s w := by
  rw [wp_bind]
  exact wp_mono h hf

/-- The rule of loops: the body keeps `I`, and `I` is enough where the loop ends. -/
theorem wp_rounds {body : ε → Program κ ρ σ (ε ⊕ α)} {spent : ε → Program κ ρ σ α}
    (I : Nat → ε → σ → ω → Prop)
    (hbody : ∀ n e s w, I (n + 1) e s w →
      wp env (body e) (fun
        | .inl e' => I n e'
        | .inr a => Q a) s w)
    (hspent : ∀ e s w, I 0 e s w → wp env (spent e) Q s w)
    {n : Nat} {e : ε} (h : I n e s w) : wp env (rounds body spent n e) Q s w := by
  induction n generalizing e s w with
  | zero => exact hspent e s w h
  | succ n ih =>
    refine wp_seq (hbody n e s w h) fun b s w hb => ?_
    cases b with
    | inl e' => exact ih hb
    | inr a => exact hb

/-- A result after the program does not matter to what it keeps. -/
theorem wp_result {I : σ → ω → Prop} {p : Program κ ρ σ β} (h : wp env p (fun _ => I) s w)
    (f : β → α) : wp env (do let b ← p; pure (f b)) (fun _ => I) s w :=
  wp_seq h fun _ _ _ hI => hI

/-- A loop keeps what its body keeps. -/
theorem wp_rounds_inv {I : σ → ω → Prop} {body : ε → Program κ ρ σ (ε ⊕ α)} {out : ε → α}
    (hbody : ∀ e s w, I s w → wp env (body e) (fun _ => I) s w) (n : Nat) (e : ε) (h : I s w) :
    wp env (rounds body (fun e => pure (out e)) n e) (fun _ => I) s w := by
  refine wp_rounds (fun _ _ => I) (fun _ e s w hI => ?_) ?_ h
  · refine wp_mono (hbody e s w hI) fun b s w hI => ?_
    cases b <;> exact hI
  · exact fun _ _ _ hI => hI

/-- The rule of a round over a list. -/
theorem wp_each {body : ε → Program κ ρ σ Unit} {l : List ε} (I : List ε → σ → ω → Prop)
    (hbody : ∀ e es s w, e ∈ l → I (e :: es) s w → wp env (body e) (fun _ => I es) s w)
    (h : I l s w) : wp env (each l body) (fun _ => I []) s w := by
  have hmain : ∀ (l' : List ε) (s : σ) (w : ω), (∀ e ∈ l', e ∈ l) → I l' s w →
      wp env (each l' body) (fun _ => I []) s w := by
    intro l'
    induction l' with
    | nil => exact fun s w _ h => h
    | cons e es ih =>
      intro s w hm h
      exact wp_seq (hbody e es s w (hm e List.mem_cons_self) h) fun _ s w h' =>
        ih s w (fun e' he' => hm e' (List.mem_cons_of_mem _ he')) h'
  exact hmain l s w (fun _ he => he) h

theorem wp_each_append (l l' : List ε) (body : ε → Program κ ρ σ Unit) {Q : Unit → σ → ω → Prop} :
    wp env (each (l ++ l') body) Q s w =
      wp env (each l body) (fun _ => wp env (each l' body) Q) s w := by
  induction l generalizing s w with
  | nil => rfl
  | cons e es ih =>
    simp only [List.cons_append, each, wp_bind]
    exact congrFun (congrFun (congrArg _ (funext fun _ => funext fun _ => funext fun _ => ih)) _) _

/-- Two postconditions together. -/
theorem wp_and {p : Program κ ρ σ α} (h : wp env p Q s w) (h' : wp env p R s w) :
    wp env p (fun a s w => Q a s w ∧ R a s w) s w := by
  induction p generalizing s w with
  | ret a => exact ⟨h, h'⟩
  | get next ih => exact ih s h h'
  | set s next ih => exact ih h h'
  | call k next ih => exact fun r w' he => ih r (h r w' he) (h' r w' he)

/-! ## Runs -/

/-- A run of the program: its result and the two states after it. -/
inductive Exec (env : ω → (k : κ) → ρ k → ω → Prop) :
    Program κ ρ σ α → σ → ω → α → σ → ω → Prop
  | ret {a : α} {s : σ} {w : ω} : Exec env (.ret a) s w a s w
  | get {next : σ → Program κ ρ σ α} {s s' : σ} {w w' : ω} {a : α} :
      Exec env (next s) s w a s' w' → Exec env (.get next) s w a s' w'
  | set {next : Program κ ρ σ α} {s t s' : σ} {w w' : ω} {a : α} :
      Exec env next t w a s' w' → Exec env (.set t next) s w a s' w'
  | call {k : κ} {next : ρ k → Program κ ρ σ α} {s s' : σ} {w v w' : ω} {a : α} (r : ρ k) :
      env w k r v → Exec env (next r) s v a s' w' → Exec env (.call k next) s w a s' w'

/-- `wp` speaks of exactly the runs. -/
theorem wp_iff {p : Program κ ρ σ α} :
    wp env p Q s w ↔ ∀ a s' w', Exec env p s w a s' w' → Q a s' w' := by
  constructor
  · intro h a s' w' he
    induction he with
    | ret => exact h
    | get _ ih => exact ih h
    | set _ ih => exact ih h
    | call r hr _ ih => exact ih (h r _ hr)
  · intro h
    induction p generalizing s w with
    | ret a => exact h a s w .ret
    | get next ih => exact ih s fun a s' w' he => h a s' w' (.get he)
    | set s next ih => exact ih fun a s' w' he => h a s' w' (.set he)
    | call k next ih => exact fun r w' hr => ih r fun a s' w'' he => h a s' w'' (.call r hr he)

/-- Where every call is answered, there is a run, and it ends as `wp` says. -/
theorem exists_exec (henv : ∀ w k, ∃ r w', env w k r w') {p : Program κ ρ σ α}
    (h : wp env p Q s w) : ∃ a s' w', Exec env p s w a s' w' ∧ Q a s' w' := by
  induction p generalizing s w with
  | ret a => exact ⟨a, s, w, .ret, h⟩
  | get next ih =>
    obtain ⟨a, s', w', he, hQ⟩ := ih s h
    exact ⟨a, s', w', .get he, hQ⟩
  | set t next ih =>
    obtain ⟨a, s', w', he, hQ⟩ := ih h
    exact ⟨a, s', w', .set he, hQ⟩
  | call k next ih =>
    obtain ⟨r, v, hr⟩ := henv w k
    obtain ⟨a, s', w', he, hQ⟩ := ih r (h r v hr)
    exact ⟨a, s', w', .call r hr he, hQ⟩

/-- What every call keeps, every run keeps. -/
theorem Exec.keeps {I : ω → Prop} (hI : ∀ w k r w', env w k r w' → I w → I w')
    {p : Program κ ρ σ α} {s s' : σ} {w w' : ω} {a : α} (h : Exec env p s w a s' w') (hw : I w) :
    I w' := by
  induction h with
  | ret => exact hw
  | get _ ih => exact ih hw
  | set _ ih => exact ih hw
  | call r hr _ ih => exact ih (hI _ _ _ _ hr hw)

/-- Runs the program on given answers. -/
def run (answer : ω → (k : κ) → ρ k × ω) : Program κ ρ σ α → σ → ω → α × σ × ω
  | .ret a, s, w => (a, s, w)
  | .get next, s, w => run answer (next s) s w
  | .set s next, _, w => run answer next s w
  | .call k next, s, w => run answer (next (answer w k).1) s (answer w k).2

/-- Answers that the environment may give while it keeps `I` make a run. -/
theorem exec_run_on {answer : ω → (k : κ) → ρ k × ω} {I : ω → Prop}
    (h : ∀ w k, I w → env w k (answer w k).1 (answer w k).2 ∧ I (answer w k).2)
    (p : Program κ ρ σ α) (s : σ) {w : ω} (hw : I w) :
    Exec env p s w (run answer p s w).1 (run answer p s w).2.1 (run answer p s w).2.2 ∧
      I (run answer p s w).2.2 := by
  induction p generalizing s w with
  | ret a => exact ⟨.ret, hw⟩
  | get next ih => exact (ih s s hw).imp .get id
  | set s' next ih => exact (ih s' hw).imp .set id
  | call k next ih =>
    obtain ⟨he, hw'⟩ := h w k hw
    exact (ih _ s hw').imp (.call _ he) id

/-- Answers that the environment may give make a run. -/
theorem exec_run {answer : ω → (k : κ) → ρ k × ω}
    (h : ∀ w k, env w k (answer w k).1 (answer w k).2) (p : Program κ ρ σ α) (s : σ) (w : ω) :
    Exec env p s w (run answer p s w).1 (run answer p s w).2.1 (run answer p s w).2.2 :=
  (exec_run_on (I := fun _ => True) (fun w k _ => ⟨h w k, trivial⟩) p s trivial).1

/-- The environment of given answers. -/
def given (answer : ω → (k : κ) → ρ k × ω) (w : ω) (k : κ) (r : ρ k) (w' : ω) : Prop :=
  answer w k = (r, w')

/-- Answers that the environment may give make a run with what they make of the program. -/
theorem exec_given {answer : ω → (k : κ) → ρ k × ω}
    (h : ∀ w k, env w k (answer w k).1 (answer w k).2) {p : Program κ ρ σ α}
    (hp : wp (given answer) p Q s w) : ∃ a s' w', Exec env p s w a s' w' ∧ Q a s' w' :=
  ⟨_, _, _, exec_run h p s w, wp_iff.mp hp _ _ _ (exec_run (fun _ _ => rfl) p s w)⟩

end Program

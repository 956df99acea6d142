import Mathlib.Tactic.Common
import Mathlib.Data.List.Count
import Mathlib.Logic.Function.Basic

/-!
# Ledgers of resources

A program acquires resources, uses them and gives them back. Its trace is read
as a ledger: every event is judged against the resources held at that moment, and
at the end the ledger tells how often each of them was released.
-/

namespace Ledger

universe u

variable {α : Type u}

/-- What a program does with a resource. -/
inductive Event (α : Type u)
  | acquire (a : α)
  | use (a : α)
  | release (a : α)
deriving DecidableEq

/-- The event is in order while `held` are the resources held: none is acquired
twice, and only held ones are used and released. -/
def Event.Ok (held : List α) : Event α → Prop
  | .acquire a => a ∉ held
  | .use a => a ∈ held
  | .release a => a ∈ held

variable [DecidableEq α] {held : List α} {es es' : List (Event α)}

instance (held : List α) : (e : Event α) → Decidable (e.Ok held)
  | .acquire a => inferInstanceAs (Decidable (a ∉ held))
  | .use a => inferInstanceAs (Decidable (a ∈ held))
  | .release a => inferInstanceAs (Decidable (a ∈ held))

/-- The resources held after an event. -/
def after (held : List α) : Event α → List α
  | .acquire a => a :: held
  | .use _ => held
  | .release a => held.erase a

/-- The resources held after a trace. -/
def heldAfter (held : List α) (es : List (Event α)) : List α := es.foldl after held

/-- Every event of the trace is in order. -/
def Disciplined : List α → List (Event α) → Prop
  | _, [] => True
  | held, e :: es => e.Ok held ∧ Disciplined (after held e) es

@[simp] theorem heldAfter_nil : heldAfter held [] = held := rfl

@[simp] theorem heldAfter_cons (e : Event α) :
    heldAfter held (e :: es) = heldAfter (after held e) es := rfl

@[simp] theorem heldAfter_append :
    heldAfter held (es ++ es') = heldAfter (heldAfter held es) es' := List.foldl_append

@[simp] theorem disciplined_nil : Disciplined held [] := trivial

@[simp] theorem disciplined_cons (e : Event α) :
    Disciplined held (e :: es) ↔ e.Ok held ∧ Disciplined (after held e) es := .rfl

@[simp] theorem disciplined_append :
    Disciplined held (es ++ es') ↔
      Disciplined held es ∧ Disciplined (heldAfter held es) es' := by
  induction es generalizing held with
  | nil => simp
  | cons e es ih => simp only [List.cons_append, disciplined_cons, heldAfter_cons, ih, and_assoc]

theorem Event.Ok.nodup {e : Event α} (h : e.Ok held) (hn : held.Nodup) :
    (after held e).Nodup := by
  cases e with
  | acquire a => exact List.nodup_cons.mpr ⟨h, hn⟩
  | use a => exact hn
  | release a => exact hn.erase a

theorem Disciplined.nodup (h : Disciplined held es) (hn : held.Nodup) :
    (heldAfter held es).Nodup := by
  induction es generalizing held with
  | nil => exact hn
  | cons e es ih => exact ih h.2 (h.1.nodup hn)

/-- What is held was acquired at some time. -/
theorem mem_heldAfter {a : α} (h : a ∈ heldAfter held es) : a ∈ held ∨ .acquire a ∈ es := by
  induction es generalizing held with
  | nil => exact .inl h
  | cons e es ih =>
    rcases ih h with h | h
    · cases e with
      | acquire b =>
        rcases List.mem_cons.mp h with rfl | h
        · exact .inr List.mem_cons_self
        · exact .inl h
      | use b => exact .inl h
      | release b => exact .inl (List.mem_of_mem_erase h)
    · exact .inr (List.mem_cons_of_mem _ h)

/-- What was acquired has been released or is still held. -/
theorem Disciplined.count (h : Disciplined held es) (a : α) :
    held.count a + es.count (.acquire a) = (heldAfter held es).count a + es.count (.release a) := by
  induction es generalizing held with
  | nil => simp
  | cons e es ih =>
    have ihe := ih h.2
    have hok := h.1
    rw [heldAfter_cons]
    -- only an event of the same resource changes one of the four counts
    cases e with
    | acquire b =>
      by_cases hb : b = a
      · subst hb
        simp only [after, List.count_cons_self] at ihe
        simp only [after, List.count_cons_self,
          List.count_cons_of_ne (show Event.acquire b ≠ .release b by simp)]
        omega
      · simp only [after, List.count_cons_of_ne hb] at ihe
        simp only [List.count_cons_of_ne (show Event.acquire b ≠ .acquire a by simpa using hb),
          List.count_cons_of_ne (show Event.acquire b ≠ .release a by simp)]
        exact ihe
    | use b =>
      simp only [List.count_cons_of_ne (show Event.use b ≠ .acquire a by simp),
        List.count_cons_of_ne (show Event.use b ≠ .release a by simp)]
      exact ihe
    | release b =>
      by_cases hb : b = a
      · subst hb
        have hpos := List.count_pos_iff.mpr hok
        simp only [after, List.count_erase_self] at ihe
        simp only [after, List.count_cons_self,
          List.count_cons_of_ne (show Event.release b ≠ .acquire b by simp)]
        omega
      · simp only [after, List.count_erase_of_ne (Ne.symm hb)] at ihe
        simp only [List.count_cons_of_ne (show Event.release b ≠ .release a by simpa using hb),
          List.count_cons_of_ne (show Event.release b ≠ .acquire a by simp)]
        exact ihe

/-- With nothing held before and after, everything was released as often as acquired. -/
theorem Disciplined.released (h : Disciplined [] es) (he : heldAfter [] es = []) (a : α) :
    es.count (.release a) = es.count (.acquire a) := by
  have := h.count a
  rw [he] at this
  simpa using this.symm

/-! ## Things owned

A program that knows what it holds as a list. -/

section Owned

variable {a : α} {bs bs' : List α}

structure Owns (es : List (Event α)) (bs : List α) : Prop where
  disciplined : Disciplined [] es
  held : (heldAfter [] es).Perm bs

namespace Owns

theorem start : Owns ([] : List (Event α)) [] := ⟨trivial, .refl _⟩

theorem perm (h : Owns es bs) (hp : bs.Perm bs') : Owns es bs' := ⟨h.disciplined, h.held.trans hp⟩

theorem append (h : Owns es bs) {e : Event α} (he : e.Ok (heldAfter [] es))
    (hp : (after (heldAfter [] es) e).Perm bs') : Owns (es ++ [e]) bs' := by
  refine ⟨disciplined_append.mpr ⟨h.disciplined, he, trivial⟩, ?_⟩
  rw [heldAfter_append]
  exact hp

theorem acquire (h : Owns es bs) (ha : a ∉ heldAfter [] es) : Owns (es ++ [.acquire a]) (a :: bs) :=
  h.append ha (h.held.cons a)

theorem use (h : Owns es bs) (ha : a ∈ bs) : Owns (es ++ [.use a]) bs :=
  h.append (h.held.mem_iff.mpr ha) h.held

theorem release (h : Owns es (a :: bs)) : Owns (es ++ [.release a]) bs := by
  refine h.append (h.held.mem_iff.mpr List.mem_cons_self) ?_
  have herase := h.held.erase a
  rwa [List.erase_cons_head] at herase

theorem uses (h : Owns es bs) {as : List α} (has : ∀ a ∈ as, a ∈ bs) :
    Owns (es ++ as.map .use) bs := by
  induction as generalizing es with
  | nil => simpa using h
  | cons a as ih =>
    have hfirst := h.use (has a List.mem_cons_self)
    have hrest := ih hfirst fun b hb => has b (List.mem_cons_of_mem _ hb)
    rwa [List.append_assoc] at hrest

/-- What is not held is not owned. -/
theorem notMem (h : Owns es bs) (ha : a ∉ heldAfter [] es) : a ∉ bs := mt h.held.mem_iff.mpr ha

end Owns

end Owned

/-! ## Slots

A program that keeps its resources in variables of its own: the books are in order if
the variables and the ledger name the same resources, each in one variable. -/

section Slots

variable {κ : Type u} {slot : κ → Option α} {k : κ} {a : α}

structure Books (slot : κ → Option α) (es : List (Event α)) : Prop where
  disciplined : Disciplined [] es
  held : ∀ a, a ∈ heldAfter [] es ↔ ∃ k, slot k = some a
  inj : ∀ {k k' a}, slot k = some a → slot k' = some a → k' = k

theorem Books.nodup (h : Books slot es) : (heldAfter [] es).Nodup :=
  h.disciplined.nodup List.nodup_nil

theorem Books.mem (h : Books slot es) (hk : slot k = some a) : a ∈ heldAfter [] es :=
  (h.held a).mpr ⟨k, hk⟩

theorem Books.start (h : ∀ k, slot k = none) : Books slot [] where
  disciplined := trivial
  held a := by simp [h]
  inj {k} := by simp [h k]

theorem Books.use (h : Books slot es) (hk : slot k = some a) : Books slot (es ++ [.use a]) where
  disciplined := by
    rw [disciplined_append]
    exact ⟨h.disciplined, h.mem hk, trivial⟩
  held b := by
    rw [heldAfter_append]
    exact h.held b
  inj := h.inj

theorem Books.heldAfter_eq_nil (h : Books slot es) (hk : ∀ k, slot k = none) :
    heldAfter [] es = [] := by
  rw [List.eq_nil_iff_forall_not_mem]
  intro a ha
  obtain ⟨k, hs⟩ := (h.held a).mp ha
  rw [hk k] at hs
  cases hs

variable [DecidableEq κ]

/-- The variable is cleared when its resource is given back. -/
theorem Books.release (h : Books slot es) (hk : slot k = some a) :
    Books (Function.update slot k none) (es ++ [.release a]) where
  disciplined := by
    rw [disciplined_append]
    exact ⟨h.disciplined, h.mem hk, trivial⟩
  held b := by
    rw [heldAfter_append]
    change b ∈ (heldAfter [] es).erase a ↔ _
    rw [h.nodup.mem_erase_iff, h.held]
    constructor
    · rintro ⟨hne, k', hk'⟩
      have hkk : k' ≠ k := fun he => hne (Option.some.inj (hk'.symm.trans (he ▸ hk)))
      exact ⟨k', by rw [Function.update_of_ne hkk, hk']⟩
    · rintro ⟨k', hk'⟩
      by_cases hkk : k' = k
      · subst hkk
        simp at hk'
      · rw [Function.update_of_ne hkk] at hk'
        exact ⟨fun he => hkk (h.inj hk (he ▸ hk')), k', hk'⟩
  inj {k₁ k₂ b} h₁ h₂ := by
    have hne : ∀ {k'}, Function.update slot k none k' = some b → k' ≠ k := by
      rintro _ hk' rfl
      simp at hk'
    rw [Function.update_of_ne (hne h₁)] at h₁
    rw [Function.update_of_ne (hne h₂)] at h₂
    exact h.inj h₁ h₂

/-- A new resource goes to a variable that holds none. -/
theorem Books.acquire (h : Books slot es) (hk : slot k = none) (ha : a ∉ heldAfter [] es) :
    Books (Function.update slot k (some a)) (es ++ [.acquire a]) where
  disciplined := by
    rw [disciplined_append]
    exact ⟨h.disciplined, ha, trivial⟩
  held b := by
    rw [heldAfter_append]
    change b ∈ a :: heldAfter [] es ↔ _
    rw [List.mem_cons, h.held]
    constructor
    · rintro (rfl | ⟨k', hk'⟩)
      · exact ⟨k, Function.update_self ..⟩
      · have hkk : k' ≠ k := by
          rintro rfl
          rw [hk] at hk'
          cases hk'
        exact ⟨k', by rw [Function.update_of_ne hkk, hk']⟩
    · rintro ⟨k', hk'⟩
      by_cases hkk : k' = k
      · subst hkk
        rw [Function.update_self] at hk'
        exact .inl (Option.some.inj hk').symm
      · rw [Function.update_of_ne hkk] at hk'
        exact .inr ⟨k', hk'⟩
  inj {k₁ k₂ b} h₁ h₂ := by
    -- `a` is in no other variable
    have hout : ∀ {k'}, k' ≠ k → slot k' ≠ some a := fun _ hk' => ha (h.mem hk')
    by_cases he₁ : k₁ = k <;> by_cases he₂ : k₂ = k
    · rw [he₁, he₂]
    · rw [he₁, Function.update_self] at h₁
      rw [Function.update_of_ne he₂, ← h₁] at h₂
      exact absurd h₂ (hout he₂)
    · rw [he₂, Function.update_self] at h₂
      rw [Function.update_of_ne he₁, ← h₂] at h₁
      exact absurd h₁ (hout he₁)
    · rw [Function.update_of_ne he₁] at h₁
      rw [Function.update_of_ne he₂] at h₂
      exact h.inj h₁ h₂

end Slots

end Ledger

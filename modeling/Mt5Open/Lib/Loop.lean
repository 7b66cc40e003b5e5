import Mathlib.Data.Nat.Init

/-!
# Loops with a measure

`Loop σ α` is a loop over a state `σ`: its body either goes on with a new state
or stops with a result.  The measure that shows that it stops is a part of the
structure, so `Loop.run` is a total function.  `runAux` is the recursion behind
it, structural in a number that the measure stays below, and closed runs can
therefore be evaluated.

`run_of_next` and `run_of_stop` are the two unfolding equations.  `run_rule` is
the rule for what holds of the state at the start and of the result.
-/

namespace Mt5Open.Lib

/-- A loop whose measure goes down in every round that is not the last. -/
structure Loop (σ α : Type*) where
  body : σ → σ ⊕ α
  measure : σ → Nat
  decreases : ∀ {s t : σ}, body s = .inl t → measure t < measure s

namespace Loop

variable {σ α : Type*}

/-- The rounds of the loop, with a number above the measure. -/
def runAux (l : Loop σ α) : (n : Nat) → (s : σ) → l.measure s < n → α
  | 0, _, h => absurd h (Nat.not_lt_zero _)
  | n + 1, s, h =>
    match hbody : l.body s with
    | .inr a => a
    | .inl t => l.runAux n t (Nat.lt_of_lt_of_le (l.decreases hbody) (Nat.le_of_lt_succ h))

/-- The result of the loop. -/
def run (l : Loop σ α) (s : σ) : α := l.runAux (l.measure s + 1) s (Nat.lt_succ_self _)

theorem runAux_of_stop (l : Loop σ α) {n : Nat} {s : σ} {a : α} (hs : l.measure s < n)
    (h : l.body s = .inr a) : l.runAux n s hs = a := by
  cases n with
  | zero => exact absurd hs (Nat.not_lt_zero _)
  | succ n =>
    rw [runAux]
    split
    · rename_i b hbody
      rw [h] at hbody
      exact (Sum.inr.inj hbody).symm
    · rename_i t hbody
      rw [h] at hbody
      cases hbody

theorem runAux_of_next (l : Loop σ α) {n : Nat} {s t : σ} (hs : l.measure s < n + 1)
    (h : l.body s = .inl t) :
    l.runAux (n + 1) s hs =
      l.runAux n t (Nat.lt_of_lt_of_le (l.decreases h) (Nat.le_of_lt_succ hs)) := by
  rw [runAux]
  split
  · rename_i b hbody
    rw [h] at hbody
    cases hbody
  · rename_i u hbody
    cases Sum.inl.inj (h.symm.trans hbody)
    rfl

/-- The bound on the number of rounds does not matter. -/
theorem runAux_eq (l : Loop σ α) :
    ∀ (n m : Nat) (s : σ) (hn : l.measure s < n) (hm : l.measure s < m),
      l.runAux n s hn = l.runAux m s hm := by
  intro n
  induction n with
  | zero =>
    intro m s hn
    exact absurd hn (Nat.not_lt_zero _)
  | succ n ih =>
    intro m s hn hm
    cases m with
    | zero => exact absurd hm (Nat.not_lt_zero _)
    | succ m =>
      cases h : l.body s with
      | inr a => rw [runAux_of_stop l hn h, runAux_of_stop l hm h]
      | inl t =>
        rw [runAux_of_next l hn h, runAux_of_next l hm h]
        exact ih m t _ _

/-- A round that stops gives the result. -/
theorem run_of_stop (l : Loop σ α) {s : σ} {a : α} (h : l.body s = .inr a) : l.run s = a :=
  runAux_of_stop l _ h

/-- A round that goes on leaves the rest of the loop to the new state. -/
theorem run_of_next (l : Loop σ α) {s t : σ} (h : l.body s = .inl t) : l.run s = l.run t := by
  rw [run, runAux_of_next l _ h]
  exact runAux_eq l _ _ t _ _

/-- What the last round gives, and what a round takes over from the rest of the
loop, holds of the whole loop. -/
theorem run_rule (l : Loop σ α) {P : σ → α → Prop}
    (stop : ∀ s a, l.body s = .inr a → P s a)
    (next : ∀ s t a, l.body s = .inl t → P t a → P s a) (s : σ) : P s (l.run s) := by
  induction hn : l.measure s using Nat.strong_induction_on generalizing s with
  | _ n ih =>
    subst hn
    cases h : l.body s with
    | inr a =>
      rw [run_of_stop l h]
      exact stop s a h
    | inl t =>
      rw [run_of_next l h]
      exact next s t _ h (ih (l.measure t) (l.decreases h) t rfl)

/-- Two loops whose rounds correspond have results that correspond. -/
theorem run_sim {τ β : Type*} (l : Loop σ α) (k : Loop τ β) {R : σ → τ → Prop} {S : α → β → Prop}
    (h : ∀ s t, R s t →
      (∃ a b, l.body s = .inr a ∧ k.body t = .inr b ∧ S a b) ∨
        ∃ s' t', l.body s = .inl s' ∧ k.body t = .inl t' ∧ R s' t')
    {s : σ} {t : τ} (hst : R s t) : S (l.run s) (k.run t) := by
  induction hn : l.measure s using Nat.strong_induction_on generalizing s t with
  | _ n ih =>
    subst hn
    rcases h s t hst with ⟨a, b, ha, hb, hab⟩ | ⟨s', t', hs, ht, hnext⟩
    · rw [run_of_stop l ha, run_of_stop k hb]
      exact hab
    · rw [run_of_next l hs, run_of_next k ht]
      exact ih (l.measure s') (l.decreases hs) hnext rfl

end Loop

end Mt5Open.Lib

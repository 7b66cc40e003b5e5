import Mathlib.Data.Nat.Init

/-!
# Loops without a measure

A loop whose body goes on with a new state or stops with a result, and that need not stop.
`run` makes a number of rounds, so it can be evaluated, and `Returns` and `Diverges` are
what all numbers of rounds say together.

* `Returns.unique`: a loop has at most one result.
* `diverges_of_invariant` is the rule for divergence and `Returns.rule` the one for results.
-/

namespace Mt5Open.Lib.Unbounded

variable {σ α : Type*} (body : σ → σ ⊕ α)

/-- The state behind this many rounds, or the result before them. -/
def run : Nat → σ → σ ⊕ α
  | 0, s => .inl s
  | n + 1, s =>
    match body s with
    | .inl t => run n t
    | .inr a => .inr a

/-- The loop stops with this result. -/
def Returns (s : σ) (a : α) : Prop := ∃ n, run body n s = .inr a

/-- The loop does not stop. -/
def Diverges (s : σ) : Prop := ∀ n, ∃ t, run body n s = .inl t

variable {body}

theorem run_of_next {s t : σ} (h : body s = .inl t) (n : Nat) :
    run body (n + 1) s = run body n t := by
  rw [run, h]

theorem run_of_stop {s : σ} {a : α} (h : body s = .inr a) (n : Nat) :
    run body (n + 1) s = .inr a := by
  rw [run, h]

/-- A result stays, whatever rounds are left. -/
theorem run_add {n : Nat} {s : σ} {a : α} (h : run body n s = .inr a) (more : Nat) :
    run body (n + more) s = .inr a := by
  induction n generalizing s with
  | zero => cases h
  | succ n ih =>
    rw [Nat.add_right_comm]
    cases hbody : body s with
    | inl t =>
      rw [run_of_next hbody] at h ⊢
      exact ih h
    | inr b =>
      rw [run_of_stop hbody] at h ⊢
      exact h

namespace Returns

variable {s t : σ} {a b : α}

theorem of_stop (h : body s = .inr a) : Returns body s a := ⟨1, run_of_stop h 0⟩

theorem of_next (h : body s = .inl t) (ht : Returns body t a) : Returns body s a := by
  obtain ⟨n, hrun⟩ := ht
  exact ⟨n + 1, (run_of_next h n).trans hrun⟩

theorem unique (ha : Returns body s a) (hb : Returns body s b) : a = b := by
  obtain ⟨n, hn⟩ := ha
  obtain ⟨m, hm⟩ := hb
  have hboth := run_add hm n
  rw [Nat.add_comm, run_add hn m] at hboth
  exact Sum.inr.inj hboth

/-- What the last round gives from a state of the invariant, every result has. -/
theorem rule {P : σ → Prop} {Q : α → Prop} (next : ∀ s t, P s → body s = .inl t → P t)
    (stop : ∀ s a, P s → body s = .inr a → Q a) (hs : P s) (h : Returns body s a) : Q a := by
  obtain ⟨n, hrun⟩ := h
  induction n generalizing s with
  | zero => cases hrun
  | succ n ih =>
    cases hbody : body s with
    | inl t =>
      rw [run_of_next hbody] at hrun
      exact ih (next s t hs hbody) hrun
    | inr b =>
      rw [run_of_stop hbody] at hrun
      cases Sum.inr.inj hrun
      exact stop s a hs hbody

end Returns

/-- A loop that goes on from every state of an invariant diverges. -/
theorem diverges_of_invariant {P : σ → Prop} (next : ∀ s, P s → ∃ t, body s = .inl t ∧ P t)
    {s : σ} (hs : P s) : Diverges body s := by
  intro n
  induction n generalizing s with
  | zero => exact ⟨s, rfl⟩
  | succ n ih =>
    obtain ⟨t, hbody, ht⟩ := next s hs
    rw [run_of_next hbody]
    exact ih ht

end Mt5Open.Lib.Unbounded

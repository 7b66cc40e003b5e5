import Mathlib.Data.List.Basic

/-!
# Straight-line programs with halts

A program is a list of instructions, and an instruction takes the state to the next one or
stops with an answer.  There are no jumps.

* `run_append` composes programs: the second one runs on from where the first one ends, and
  not at all when the first one halts.
* `run_filter` leaves out the instructions that never do anything.
-/

namespace Mt5Open.Lib.Halting

variable {ι σ α : Type*} (step : ι → σ → σ ⊕ α)

/-- The state behind a program, or the answer that it halts with. -/
def run : σ → List ι → σ ⊕ α
  | s, [] => .inl s
  | s, instruction :: rest =>
    match step instruction s with
    | .inl t => run t rest
    | .inr answer => .inr answer

/-- The instruction stops in every state. -/
def Stops (instruction : ι) : Prop := ∀ s, ∃ answer, step instruction s = .inr answer

/-- The instruction stops in no state. -/
def Continues (instruction : ι) : Prop := ∀ s, ∃ t, step instruction s = .inl t

variable {step}

theorem run_of_next {instruction : ι} {s t : σ} (h : step instruction s = .inl t)
    (rest : List ι) : run step s (instruction :: rest) = run step t rest := by
  rw [run, h]

theorem run_of_stop {instruction : ι} {s : σ} {answer : α}
    (h : step instruction s = .inr answer) (rest : List ι) :
    run step s (instruction :: rest) = .inr answer := by
  rw [run, h]

/-- The second program runs on from where the first one ends. -/
theorem run_append (s : σ) (p q : List ι) :
    run step s (p ++ q) =
      match run step s p with
      | .inl t => run step t q
      | .inr answer => .inr answer := by
  induction p generalizing s with
  | nil => rfl
  | cons instruction p ih =>
    rw [List.cons_append]
    cases h : step instruction s with
    | inl t => rw [run_of_next h, run_of_next h, ih]
    | inr answer => rw [run_of_stop h, run_of_stop h]

/-- A program with an instruction that stops has an answer. -/
theorem exists_answer {p : List ι} {instruction : ι} (hmem : instruction ∈ p)
    (hstops : Stops step instruction) (s : σ) : ∃ answer, run step s p = .inr answer := by
  obtain ⟨front, rest, rfl⟩ := List.append_of_mem hmem
  rw [run_append]
  cases run step s front with
  | inr answer => exact ⟨answer, rfl⟩
  | inl t =>
    obtain ⟨answer, hanswer⟩ := hstops t
    exact ⟨answer, run_of_stop hanswer rest⟩

/-- A program whose instructions all go on comes to its end. -/
theorem exists_end {p : List ι} (h : ∀ instruction ∈ p, Continues step instruction) (s : σ) :
    ∃ t, run step s p = .inl t := by
  induction p generalizing s with
  | nil => exact ⟨s, rfl⟩
  | cons instruction p ih =>
    obtain ⟨t, ht⟩ := h instruction List.mem_cons_self s
    rw [run_of_next ht]
    exact ih (fun other hother => h other (List.mem_cons_of_mem _ hother)) t

/-- Instructions that leave every state as it is can be left out. -/
theorem run_filter {keep : ι → Bool}
    (h : ∀ instruction, keep instruction = false → ∀ s, step instruction s = .inl s)
    (s : σ) (p : List ι) : run step s (p.filter keep) = run step s p := by
  induction p generalizing s with
  | nil => rfl
  | cons instruction p ih =>
    cases hkeep : keep instruction with
    | false =>
      rw [List.filter_cons_of_neg (by rw [hkeep]; decide), run_of_next (h _ hkeep s)]
      exact ih s
    | true =>
      rw [List.filter_cons_of_pos hkeep]
      cases hstep : step instruction s with
      | inl t => rw [run_of_next hstep, run_of_next hstep, ih]
      | inr answer => rw [run_of_stop hstep, run_of_stop hstep]

end Mt5Open.Lib.Halting

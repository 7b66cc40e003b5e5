import Mathlib.Data.List.Basic

/-!
# Machines that answer each symbol with a symbol

A Mealy machine takes a state and a symbol to an answer and the next state.  `run` feeds it
a list, and `calls` feeds it several lists, one call for each.

* `run_append` and `calls_eq` say that the cuts between calls do not matter.
* `run_eq_of_related` and `run_invariant` lift what each step does to a list.
* `Undoes` is one machine that takes the answers of another one back, symbol by symbol, in
  the same states.  `Undoes.run` lifts it to lists, and `Undoes.calls` to two sequences of
  calls that are cut in different ways.
-/

namespace Mt5Open.Lib.Mealy

variable {σ α β : Type*}

/-- The answers to a list, and the state behind it. -/
def run (step : σ → α → β × σ) : σ → List α → List β × σ
  | s, [] => ([], s)
  | s, a :: rest =>
    let (b, t) := step s a
    let (out, last) := run step t rest
    (b :: out, last)

/-- One call for each of several lists: the answers of each call, and the state behind the
last one. -/
def calls (call : σ → List α → List β × σ) : σ → List (List α) → List (List β) × σ
  | s, [] => ([], s)
  | s, chunk :: rest =>
    let (out, t) := call s chunk
    let (outs, last) := calls call t rest
    (out :: outs, last)

section Run

variable {step : σ → α → β × σ}

theorem length_run (s : σ) (l : List α) : (run step s l).1.length = l.length := by
  induction l generalizing s with
  | nil => rfl
  | cons a l ih =>
    show (run step (step s a).2 l).1.length + 1 = l.length + 1
    rw [ih]

theorem run_append (s : σ) (xs ys : List α) :
    run step s (xs ++ ys) =
      ((run step s xs).1 ++ (run step (run step s xs).2 ys).1,
        (run step (run step s xs).2 ys).2) := by
  induction xs generalizing s with
  | nil => rfl
  | cons a xs ih => simp only [List.cons_append, run, ih]

/-- Each call answers a list of the length of its own. -/
theorem length_calls (s : σ) (chunks : List (List α)) :
    (calls (run step) s chunks).1.map List.length = chunks.map List.length := by
  induction chunks generalizing s with
  | nil => rfl
  | cons chunk chunks ih =>
    show (run step s chunk).1.length :: _ = chunk.length :: _
    rw [length_run, ih]

/-- Calls, put together, are one call. -/
theorem calls_eq (s : σ) (chunks : List (List α)) :
    (calls (run step) s chunks).1.flatten = (run step s chunks.flatten).1 ∧
      (calls (run step) s chunks).2 = (run step s chunks.flatten).2 := by
  induction chunks generalizing s with
  | nil => exact ⟨rfl, rfl⟩
  | cons chunk chunks ih =>
    obtain ⟨hout, hlast⟩ := ih (run step s chunk).2
    rw [List.flatten_cons, run_append]
    constructor
    · show (run step s chunk).1 ++ (calls (run step) (run step s chunk).2 chunks).1.flatten = _
      rw [hout]
    · exact hlast

/-- Two machines whose states correspond, and go on corresponding, answer alike. -/
theorem run_eq_of_related {τ : Type*} {other : τ → α → β × τ} {R : σ → τ → Prop}
    (h : ∀ s t a, R s t → (step s a).1 = (other t a).1 ∧ R (step s a).2 (other t a).2)
    {s : σ} {t : τ} (hR : R s t) (l : List α) :
    (run step s l).1 = (run other t l).1 ∧ R (run step s l).2 (run other t l).2 := by
  induction l generalizing s t with
  | nil => exact ⟨rfl, hR⟩
  | cons a l ih =>
    obtain ⟨hanswer, hnext⟩ := h s t a hR
    obtain ⟨hrest, hlast⟩ := ih hnext
    refine ⟨?_, hlast⟩
    show (step s a).1 :: (run step (step s a).2 l).1 = (other t a).1 :: _
    rw [hanswer, hrest]

/-- What every step keeps holds behind a list. -/
theorem run_invariant {P : σ → Prop} (h : ∀ s a, P s → P (step s a).2) {s : σ} (hs : P s)
    (l : List α) : P (run step s l).2 := by
  induction l generalizing s with
  | nil => exact hs
  | cons a l ih => exact ih (h s a hs)

end Run

/-! ## Machines that take each other back -/

/-- `back` takes the answers of `step` back and goes through the same states. -/
def Undoes (step : σ → α → β × σ) (back : σ → β → α × σ) : Prop :=
  ∀ s a, back s (step s a).1 = (a, (step s a).2)

namespace Undoes

variable {step : σ → α → β × σ} {back : σ → β → α × σ}

theorem run (h : Undoes step back) (s : σ) (l : List α) :
    Mealy.run back s (Mealy.run step s l).1 = (l, (Mealy.run step s l).2) := by
  induction l generalizing s with
  | nil => rfl
  | cons a l ih => simp only [Mealy.run, h s a, ih]

/-- However the answers are cut, calls of `back` give the symbols and end in the state that
the calls of `step` end in. -/
theorem calls (h : Undoes step back) {s : σ} {chunks : List (List α)} {cuts : List (List β)}
    (hcuts : cuts.flatten = (Mealy.calls (Mealy.run step) s chunks).1.flatten) :
    (Mealy.calls (Mealy.run back) s cuts).1.flatten = chunks.flatten ∧
      (Mealy.calls (Mealy.run back) s cuts).2 = (Mealy.calls (Mealy.run step) s chunks).2 := by
  obtain ⟨hsent, hend⟩ := calls_eq s chunks
  obtain ⟨hreceived, hlast⟩ := calls_eq s cuts
  rw [hreceived, hlast, hcuts, hsent, hend, h.run]
  exact ⟨rfl, rfl⟩

end Undoes

end Mt5Open.Lib.Mealy

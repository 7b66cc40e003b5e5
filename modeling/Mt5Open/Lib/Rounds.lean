import Mathlib.Data.List.Chain
import Mt5Open.Lib.Act

/-!
# Requests in rounds

A client asks a server in rounds.  Each round makes a request from what is known and sends
it, and the reply either ends the rounds or changes what is known.  `Rounds` is such a
client, and `run` lets it go on for a number of rounds.

`Calls` says which calls an action has been used for.  `Course` is what the rounds came
to, with one case for each way in which they end.  `run_course` connects the two.  The
rules below take a course apart: `length_le`, `history` for what holds of the replies so
far, `chain` for two requests in a row, and `last` for a result.
-/

namespace Mt5Open.Lib

variable {ε σ τ ρ α β : Type}

/-- The action was called with these requests and gave these replies, in turn. -/
inductive Calls (fetch : ρ → Act ε σ α) : σ → List (ρ × Except ε α) → σ → Prop
  | nil (s : σ) : Calls fetch s [] s
  | cons {r : ρ} {s t u : σ} {reply : Except ε α} {log : List (ρ × Except ε α)}
      (first : fetch r s = (reply, t)) (rest : Calls fetch t log u) :
      Calls fetch s ((r, reply) :: log) u

theorem Calls.append {fetch : ρ → Act ε σ α} {s t u : σ} {front back : List (ρ × Except ε α)}
    (hfront : Calls fetch s front t) (hback : Calls fetch t back u) :
    Calls fetch s (front ++ back) u := by
  induction hfront with
  | nil s => exact hback
  | cons first _ ih => exact .cons first (ih hback)

/-- A client of a server: the request that it makes from what it knows, what it makes of a
reply, and its error after too many rounds. -/
structure Rounds (ε τ ρ α β : Type) where
  request : τ → Except ε ρ
  next : τ → α → Except ε (τ ⊕ β)
  late : ε

/-- A request that has been sent, with what was known then and what came back. -/
structure Exchange (ε τ ρ α : Type) where
  known : τ
  request : ρ
  reply : Except ε α

/-- The call of an exchange. -/
def Exchange.call (e : Exchange ε τ ρ α) : ρ × Except ε α := (e.request, e.reply)

/-- The replies that came. -/
def replies (log : List (ρ × Except ε α)) : List α := log.filterMap fun e => e.2.toOption

theorem replies_concat (log : List (ρ × Except ε α)) (r : ρ) (a : α) :
    replies (log ++ [(r, .ok a)]) = replies log ++ [a] := by
  rw [replies, List.filterMap_append]
  rfl

namespace Rounds

/-- The rounds, with the number of those to come. -/
def run (R : Rounds ε τ ρ α β) (fetch : ρ → Act ε σ α) : Nat → τ → Act ε σ β
  | 0, _ => Act.fail R.late
  | n + 1, known => do
    let request ← Act.ofExcept (R.request known)
    let reply ← fetch request
    match ← Act.ofExcept (R.next known reply) with
    | .inl known => run R fetch n known
    | .inr b => return b

/-- What the rounds come to, with one case for each way in which they end. -/
inductive Course (R : Rounds ε τ ρ α β) :
    Nat → τ → List (Exchange ε τ ρ α) → Except ε β → Prop
  | late (u : τ) : Course R 0 u [] (.error R.late)
  | unasked {n : Nat} {u : τ} {e : ε} (request : R.request u = .error e) :
      Course R (n + 1) u [] (.error e)
  | lost {n : Nat} {u : τ} {r : ρ} (e : ε) (request : R.request u = .ok r) :
      Course R (n + 1) u [⟨u, r, .error e⟩] (.error e)
  | rejected {n : Nat} {u : τ} {r : ρ} {a : α} {e : ε} (request : R.request u = .ok r)
      (next : R.next u a = .error e) : Course R (n + 1) u [⟨u, r, .ok a⟩] (.error e)
  | done {n : Nat} {u : τ} {r : ρ} {a : α} {b : β} (request : R.request u = .ok r)
      (next : R.next u a = .ok (.inr b)) : Course R (n + 1) u [⟨u, r, .ok a⟩] (.ok b)
  | goOn {n : Nat} {u v : τ} {r : ρ} {a : α} {log : List (Exchange ε τ ρ α)}
      {result : Except ε β} (request : R.request u = .ok r) (next : R.next u a = .ok (.inl v))
      (rest : Course R n v log result) : Course R (n + 1) u (⟨u, r, .ok a⟩ :: log) result

/-- Every run has its course, and the calls of the course are those of the run. -/
theorem run_course (R : Rounds ε τ ρ α β) (fetch : ρ → Act ε σ α) (n : Nat) (u : τ) (s : σ) :
    ∃ log, Course R n u log (R.run fetch n u s).1 ∧
      Calls fetch s (log.map Exchange.call) (R.run fetch n u s).2 := by
  induction n generalizing u s with
  | zero => exact ⟨[], .late u, .nil s⟩
  | succ n ih =>
    rw [run]
    cases hrequest : R.request u with
    | error e =>
      rw [Act.ofExcept_bind_of_error rfl]
      exact ⟨[], .unasked hrequest, .nil s⟩
    | ok r =>
      rw [Act.ofExcept_bind_of_ok rfl]
      rcases hfetch : fetch r s with ⟨e | a, t⟩
      · rw [Act.bind_of_error hfetch]
        exact ⟨[⟨u, r, .error e⟩], .lost e hrequest, .cons hfetch (.nil t)⟩
      · rw [Act.bind_of_ok hfetch]
        cases hnext : R.next u a with
        | error e =>
          rw [Act.ofExcept_bind_of_error rfl]
          exact ⟨[⟨u, r, .ok a⟩], .rejected hrequest hnext, .cons hfetch (.nil t)⟩
        | ok outcome =>
          rw [Act.ofExcept_bind_of_ok rfl]
          cases outcome with
          | inr b => exact ⟨[⟨u, r, .ok a⟩], .done hrequest hnext, .cons hfetch (.nil t)⟩
          | inl v =>
            obtain ⟨log, hcourse, hcalls⟩ := ih v t
            exact ⟨⟨u, r, .ok a⟩ :: log, .goOn hrequest hnext hcourse, .cons hfetch hcalls⟩

namespace Course

variable {R : Rounds ε τ ρ α β} {n : Nat} {u : τ} {log : List (Exchange ε τ ρ α)}
  {result : Except ε β}

/-- There are no more requests than rounds. -/
theorem length_le (h : Course R n u log result) : log.length ≤ n := by
  induction h with
  | late | unasked => exact Nat.zero_le _
  | lost | rejected | done => exact Nat.succ_le_succ (Nat.zero_le _)
  | goOn _ _ _ ih => exact Nat.succ_le_succ ih

/-- What holds of the replies so far and of what is known. -/
theorem history_from {P : List α → τ → Prop}
    (keeps : ∀ as u a v, P as u → R.next u a = .ok (.inl v) → P (as ++ [a]) v)
    (h : Course R n u log result) {as : List α} (start : P as u)
    {front back : List (Exchange ε τ ρ α)} {e : Exchange ε τ ρ α}
    (hlog : log = front ++ e :: back) :
    P (as ++ replies (front.map Exchange.call)) e.known ∧ R.request e.known = .ok e.request := by
  induction h generalizing as front with
  | late | unasked => cases front <;> cases hlog
  | lost _ hrequest | rejected hrequest | done hrequest =>
    cases front with
    | nil =>
      cases hlog
      exact ⟨by simpa [replies] using start, hrequest⟩
    | cons f front =>
      cases front <;> cases (List.cons.inj hlog).2
  | goOn hrequest hnext _ ih =>
    cases front with
    | nil =>
      cases hlog
      exact ⟨by simpa [replies] using start, hrequest⟩
    | cons f front =>
      obtain ⟨rfl, hrest⟩ := List.cons.inj hlog
      have hlater := ih (keeps _ _ _ _ start hnext) hrest
      rw [List.append_assoc] at hlater
      exact hlater

theorem history {P : List α → τ → Prop}
    (keeps : ∀ as u a v, P as u → R.next u a = .ok (.inl v) → P (as ++ [a]) v)
    (h : Course R n u log result) (start : P [] u) {front back : List (Exchange ε τ ρ α)}
    {e : Exchange ε τ ρ α} (hlog : log = front ++ e :: back) :
    P (replies (front.map Exchange.call)) e.known ∧ R.request e.known = .ok e.request :=
  history_from keeps h start hlog

/-- The first request is made from what is known at the start. -/
theorem known_head {e : Exchange ε τ ρ α} {rest : List (Exchange ε τ ρ α)}
    (h : Course R n u (e :: rest) result) : e.known = u := by
  cases h <;> rfl

/-- Between two requests in a row there is a reply after which the rounds go on. -/
theorem chain (h : Course R n u log result) :
    log.IsChain fun e f => ∃ a, e.reply = .ok a ∧ R.next e.known a = .ok (.inl f.known) := by
  induction h with
  | late | unasked => exact .nil
  | lost | rejected | done => exact .singleton _
  | @goOn _ _ _ _ a _ _ _ hnext hrest ih =>
    refine List.isChain_cons.mpr ⟨fun f hf => ⟨a, rfl, ?_⟩, ih⟩
    obtain ⟨rest, rfl⟩ := List.head?_eq_some_iff.mp hf
    rw [hrest.known_head]
    exact hnext

/-- A result is what the last reply comes to. -/
theorem last {b : β} (h : Course R n u log (.ok b)) :
    ∃ front e a, log = front ++ [e] ∧ e.reply = .ok a ∧ R.next e.known a = .ok (.inr b) := by
  generalize hresult : (Except.ok b : Except ε β) = result at h
  induction h with
  | late | unasked | lost | rejected => cases hresult
  | done _ hnext =>
    cases hresult
    exact ⟨[], _, _, rfl, rfl, hnext⟩
  | goOn _ _ _ ih =>
    obtain ⟨front, e, a, rfl, hreply, hnext⟩ := ih hresult
    exact ⟨_ :: front, e, a, rfl, hreply, hnext⟩

/-- A call of the rounds, with what was known then.  The rounds go on with its reply when
there are other calls behind it. -/
theorem at_call {P : List α → τ → Prop}
    (keeps : ∀ as u a v, P as u → R.next u a = .ok (.inl v) → P (as ++ [a]) v)
    (h : Course R n u log result) (start : P [] u) {front back : List (ρ × Except ε α)} {r : ρ}
    {reply : Except ε α} (hlog : log.map Exchange.call = front ++ (r, reply) :: back) :
    ∃ known, P (replies front) known ∧ R.request known = .ok r ∧
      (back ≠ [] → ∃ a v, reply = .ok a ∧ R.next known a = .ok (.inl v)) := by
  obtain ⟨fronts, others, rfl, rfl, hothers⟩ := List.map_eq_append_iff.mp hlog
  obtain ⟨e, backs, rfl, he, rfl⟩ := List.map_eq_cons_iff.mp hothers
  cases he
  obtain ⟨hknown, hrequest⟩ := h.history keeps start rfl
  refine ⟨e.known, hknown, hrequest, fun hback => ?_⟩
  cases backs with
  | nil => exact absurd rfl hback
  | cons f backs =>
    obtain ⟨a, hreply, hnext⟩ :=
      List.isChain_iff_forall_rel_of_append_cons_cons.mp h.chain rfl
    exact ⟨a, f.known, hreply, hnext⟩

/-- The last call of rounds with a result. -/
theorem at_end {P : List α → τ → Prop} {b : β}
    (keeps : ∀ as u a v, P as u → R.next u a = .ok (.inl v) → P (as ++ [a]) v)
    (h : Course R n u log (.ok b)) (start : P [] u) :
    ∃ front r a known, log.map Exchange.call = front ++ [(r, .ok a)] ∧
      P (replies front) known ∧ R.next known a = .ok (.inr b) := by
  obtain ⟨front, e, a, rfl, hreply, hnext⟩ := h.last
  refine ⟨front.map Exchange.call, e.request, a, e.known, ?_, (h.history keeps start rfl).1, hnext⟩
  rw [List.map_append, List.map_singleton, Exchange.call, hreply]

end Course

end Rounds

end Mt5Open.Lib

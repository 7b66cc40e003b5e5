import Mt5Open.Lib.Decoder
import Mt5Open.Lib.Loop

/-!
# Refinement of decoders

A program with a cursor and with checked arithmetic is a decoder, and what it computes is
a simpler one.  `Refines lift view x y s Q` says that `x` answers from the state `s` as
`y` does from the view of it, with its errors lifted, and that what it gives has `Q`.

The rules follow the syntax.  `checked` is the one for a step that only `x` makes.
`rounds` is a loop whose rounds are decoders.
-/

namespace Mt5Open.Lib.Decoder

variable {ε ε' σ τ α β : Type}

/-- The first result is the second one: an error is lifted, and the state behind a value
is the view of the other.  The value has `Q`. -/
def Agrees (lift : ε → ε') (view : σ → τ) (x : Except ε' (α × σ)) (y : Except ε (α × τ))
    (Q : α → σ → Prop) : Prop :=
  match y with
  | .ok (a, u) => ∃ t, x = .ok (a, t) ∧ u = view t ∧ Q a t
  | .error e => x = .error (lift e)

theorem Agrees.mono {lift : ε → ε'} {view : σ → τ} {x : Except ε' (α × σ)} {y : Except ε (α × τ)}
    {P Q : α → σ → Prop} (hx : Agrees lift view x y P) (h : ∀ a t, P a t → Q a t) :
    Agrees lift view x y Q := by
  unfold Agrees at *
  split at hx
  · obtain ⟨t, hrun, hview, ha⟩ := hx
    exact ⟨t, hrun, hview, h _ _ ha⟩
  · exact hx

/-- The first decoder answers as the second one does from the view of its state. -/
def Refines (lift : ε → ε') (view : σ → τ) (x : Decoder ε' σ α) (y : Decoder ε τ α) (s : σ)
    (Q : α → σ → Prop) : Prop :=
  Agrees lift view (x s) (y (view s)) Q

namespace Refines

variable {lift : ε → ε'} {view : σ → τ} {x : Decoder ε' σ α} {y : Decoder ε τ α}
  {f : α → Decoder ε' σ β} {g : α → Decoder ε τ β} {s : σ} {P Q : α → σ → Prop}
  {R : β → σ → Prop}

theorem pure {a : α} (h : Q a s) :
    Refines lift view (Pure.pure a : Decoder ε' σ α) (Pure.pure a) s Q := ⟨s, rfl, rfl, h⟩

theorem raise (e : ε) : Refines lift view (raise (lift e) : Decoder ε' σ α) (raise e) s Q := rfl

theorem bind (hx : Refines lift view x y s P)
    (hf : ∀ a t, P a t → Refines lift view (f a) (g a) t R) :
    Refines lift view (x >>= f) (y >>= g) s R := by
  unfold Refines at hx
  cases hy : y (view s) with
  | error e =>
    rw [hy] at hx
    rw [Refines, bind_of_error hy]
    exact bind_of_error (show x s = .error (lift e) from hx)
  | ok p =>
    obtain ⟨a, u⟩ := p
    rw [hy] at hx
    obtain ⟨t, hrun, rfl, ha⟩ := hx
    rw [Refines, bind_of_ok hy, bind_of_ok hrun]
    exact hf a t ha

theorem ite {c : Prop} [Decidable c] {x' : Decoder ε' σ α} {y' : Decoder ε τ α}
    (hx : c → Refines lift view x y s Q) (hy : ¬c → Refines lift view x' y' s Q) :
    Refines lift view (if c then x else x') (if c then y else y') s Q := by
  by_cases h : c
  · rw [if_pos h, if_pos h]
    exact hx h
  · rw [if_neg h, if_neg h]
    exact hy h

/-- A step that only the first decoder makes, and that succeeds. -/
theorem checked {r : Except ε' α} {a : α} {z : Decoder ε τ β} (hr : r = .ok a)
    (h : Refines lift view (f a) z s R) : Refines lift view (ofResult r >>= f) z s R := by
  subst hr
  exact h

theorem ofResult {r : Except ε' α} {r' : Except ε α} (h : r = r'.mapError lift)
    (hok : ∀ a, r' = .ok a → Q a s) : Refines lift view (ofResult r) (ofResult r') s Q := by
  subst h
  cases r' with
  | ok a => exact ⟨s, rfl, rfl, hok a rfl⟩
  | error e => exact rfl

/-- The first decoder looks at its state. -/
theorem get {f : σ → Decoder ε' σ β} {z : Decoder ε τ β} (h : Refines lift view (f s) z s R) :
    Refines lift view (MonadState.get >>= f) z s R := h

/-- The second decoder looks at the view. -/
theorem get_view {z : Decoder ε' σ β} {k : τ → Decoder ε τ β}
    (h : Refines lift view z (k (view s)) s R) :
    Refines lift view z (MonadState.get >>= k) s R := h

/-- Rounds over a list, each of which keeps an invariant. -/
theorem each {I : σ → Prop} (hfg : ∀ a s, I s → Refines lift view (f a) (g a) s fun _ t => I t)
    (items : List α) {s : σ} (hs : I s) :
    Refines lift view (each f items) (each g items) s fun _ t => I t := by
  induction items generalizing s with
  | nil => exact pure hs
  | cons a items ih =>
    exact (hfg a s hs).bind fun b t ht => (ih ht).bind fun rest u hu => pure hu

/-- Counted rounds, each of which keeps an invariant. -/
theorem times {I : σ → Prop} (hxy : ∀ s, I s → Refines lift view x y s fun _ t => I t) (n : Nat)
    {s : σ} (hs : I s) : Refines lift view (times x n) (times y n) s fun _ t => I t := by
  induction n generalizing s with
  | zero => exact pure hs
  | succ n ih => exact (hxy s hs).bind fun a t ht => (ih ht).bind fun rest u hu => pure hu

theorem mono (hx : Refines lift view x y s P) (h : ∀ a t, P a t → Q a t) :
    Refines lift view x y s Q := Agrees.mono hx h

end Refines

/-- The run of the first decoder can be kept. -/
theorem Refines.self {lift : ε → ε'} {view : σ → τ} {x : Decoder ε' σ α} {y : Decoder ε τ α}
    {s : σ} {Q : α → σ → Prop} (hx : Refines lift view x y s Q) :
    Refines lift view x y s fun a t => x s = .ok (a, t) ∧ Q a t := by
  unfold Refines Agrees at *
  split at hx
  · obtain ⟨t, hrun, hrest, ha⟩ := hx
    exact ⟨t, hrun, hrest, hrun, ha⟩
  · exact hx

/-! ## Loops of rounds -/

section Rounds

variable {m : σ → Nat} {round : α → Decoder ε σ (α ⊕ β)}

/-- Rounds that go on with a new value or stop.  Those that go on make the measure of the
state smaller. -/
def rounds (m : σ → Nat) (round : α → Decoder ε σ (α ⊕ β))
    (reads : ∀ a b s t, round a s = .ok (.inl b, t) → m t < m s) :
    Loop (α × σ) (Except ε (β × σ)) where
  body
    | (a, s) =>
      match round a s with
      | .error e => .inr (.error e)
      | .ok (.inl b, t) => .inl (b, t)
      | .ok (.inr b, t) => .inr (.ok (b, t))
  measure s := m s.2
  decreases := by
    rintro ⟨a, s⟩ t h
    simp only at h
    split at h
    · cases h
    · rename_i b next hround
      cases Sum.inl.inj h
      exact reads a b s next hround
    · cases h

variable {reads : ∀ a b s t, round a s = .ok (.inl b, t) → m t < m s}

theorem rounds_of_error {a : α} {s : σ} {e : ε} (h : round a s = .error e) :
    (rounds m round reads).body (a, s) = .inr (.error e) := by
  simp only [rounds, h]

theorem rounds_of_next {a b : α} {s t : σ} (h : round a s = .ok (.inl b, t)) :
    (rounds m round reads).body (a, s) = .inl (b, t) := by
  simp only [rounds, h]

theorem rounds_of_stop {a : α} {b : β} {s t : σ} (h : round a s = .ok (.inr b, t)) :
    (rounds m round reads).body (a, s) = .inr (.ok (b, t)) := by
  simp only [rounds, h]

/-- A loop makes the measure smaller when every round does. -/
theorem rounds_lt (hround : ∀ a s b t, round a s = .ok (b, t) → m t < m s) {a : α} {s t : σ}
    {b : β} (h : (rounds m round reads).run (a, s) = .ok (b, t)) : m t < m s := by
  have hrule := (rounds m round reads).run_rule
    (P := fun p r => ∀ b t, r = .ok (b, t) → m t < m p.2) ?_ ?_ (a, s)
  · exact hrule b t h
  · rintro ⟨a, s⟩ r hbody b t rfl
    simp only [rounds] at hbody
    split at hbody
    · cases hbody
    · cases hbody
    · rename_i hstop
      cases Sum.inr.inj hbody
      exact hround a s _ t hstop
  · rintro p ⟨a, s⟩ r hbody hrest b t hr
    exact Nat.lt_trans (hrest b t hr) ((rounds m round reads).decreases hbody)

end Rounds

end Mt5Open.Lib.Decoder

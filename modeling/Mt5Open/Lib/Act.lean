import Mathlib.Data.Nat.Init

/-!
# Actions that can fail and keep their state

A method that borrows its object mutably and returns a `Result` leaves the
object as it is when it fails, half-done work included.  `Act ε σ α` is that
shape: an action takes a state and gives an answer or an error together with a
state.

`bind_of_ok` and `bind_of_error` run a sequence forwards.  `bind_eq_ok` takes a
run that succeeded apart.  `Ensures` is the pre- and postcondition of an
action, with one postcondition for its answer and one for its errors, and the
`Ensures` rules follow the syntax.  `Views` is an action that another one describes
through a view of the state.
-/

namespace Mt5Open.Lib

/-- An action over a state that a failure does not take back. -/
def Act (ε σ α : Type) : Type := σ → Except ε α × σ

namespace Act

variable {ε σ α β : Type}

instance : Monad (Act ε σ) where
  pure a := fun s => (.ok a, s)
  bind x f := fun s =>
    match x s with
    | (.ok a, t) => f a t
    | (.error e, t) => (.error e, t)

/-- Fail and keep the state. -/
def fail (e : ε) : Act ε σ α := fun s => (.error e, s)

/-- Read the state. -/
def get : Act ε σ σ := fun s => (.ok s, s)

/-- Change the state. -/
def modify (f : σ → σ) : Act ε σ Unit := fun s => (.ok (), f s)

/-- A step that always succeeds. -/
def step (f : σ → α × σ) : Act ε σ α := fun s => (.ok (f s).1, (f s).2)

/-- A computation that does not touch the state. -/
def ofExcept (x : Except ε α) : Act ε σ α := fun s => (x, s)

/-- An action on a part of the state. -/
def zoom {τ : Type} (part : σ → τ) (put : τ → σ → σ) (x : Act ε τ α) : Act ε σ α := fun s =>
  ((x (part s)).1, put (x (part s)).2 s)

/-- The answer of an action on a state of its own, together with that state.  A
failure drops it. -/
def within (x : Act ε σ α) (s : σ) : Except ε (α × σ) :=
  match x s with
  | (.ok a, t) => .ok (a, t)
  | (.error e, _) => .error e

@[simp] theorem pure_apply (a : α) (s : σ) : (pure a : Act ε σ α) s = (.ok a, s) := rfl

@[simp] theorem fail_apply (e : ε) (s : σ) : (fail e : Act ε σ α) s = (.error e, s) := rfl

@[simp] theorem get_apply (s : σ) : (get : Act ε σ σ) s = (.ok s, s) := rfl

@[simp] theorem modify_apply (f : σ → σ) (s : σ) :
    (modify f : Act ε σ Unit) s = (.ok (), f s) := rfl

@[simp] theorem step_apply (f : σ → α × σ) (s : σ) :
    (step f : Act ε σ α) s = (.ok (f s).1, (f s).2) := rfl

@[simp] theorem ofExcept_apply (x : Except ε α) (s : σ) : (ofExcept x : Act ε σ α) s = (x, s) := rfl

/-- The first action succeeds, and the second one goes on. -/
theorem bind_of_ok {x : Act ε σ α} {f : α → Act ε σ β} {s t : σ} {a : α} (h : x s = (.ok a, t)) :
    (x >>= f) s = f a t := by
  show (match x s with | (.ok a, t) => f a t | (.error e, t) => (.error e, t)) = f a t
  rw [h]

/-- The first action fails, and its error is the answer. -/
theorem bind_of_error {x : Act ε σ α} {f : α → Act ε σ β} {s t : σ} {e : ε}
    (h : x s = (.error e, t)) : (x >>= f) s = (.error e, t) := by
  show (match x s with | (.ok a, t) => f a t | (.error e, t) => (.error e, t)) = _
  rw [h]

theorem bind_assoc {γ : Type} (x : Act ε σ α) (f : α → Act ε σ β) (g : β → Act ε σ γ) :
    x >>= f >>= g = x >>= fun a => f a >>= g := by
  funext s
  rcases hrun : x s with ⟨e | a, t⟩
  · rw [bind_of_error (bind_of_error hrun), bind_of_error hrun]
  · rw [bind_of_ok hrun]
    show (match (x >>= f) s with | (.ok b, t) => g b t | (.error e, t) => (.error e, t)) = _
    rw [bind_of_ok hrun]
    rfl

theorem get_bind (f : σ → Act ε σ β) (s : σ) : (get >>= f) s = f s s := rfl

theorem ofExcept_bind_of_ok {x : Except ε α} {a : α} (h : x = .ok a) (f : α → Act ε σ β) (s : σ) :
    (ofExcept x >>= f) s = f a s := by
  rw [h]
  rfl

theorem ofExcept_bind_of_error {x : Except ε α} {e : ε} (h : x = .error e) (f : α → Act ε σ β)
    (s : σ) : (ofExcept x >>= f) s = (.error e, s) := by
  rw [h]
  rfl

/-- Nothing is left to do behind the last action. -/
theorem bind_pure_unit (x : Act ε σ Unit) : (x >>= fun _ => pure ()) = x := by
  funext s
  rcases hx : x s with ⟨e | a, t⟩
  · exact bind_of_error hx
  · exact bind_of_ok hx

/-- A sequence that succeeds is two actions that do. -/
theorem bind_eq_ok {x : Act ε σ α} {f : α → Act ε σ β} {s u : σ} {b : β} :
    (x >>= f) s = (.ok b, u) ↔ ∃ a t, x s = (.ok a, t) ∧ f a t = (.ok b, u) := by
  constructor
  · intro h
    rcases hx : x s with ⟨a | a, t⟩
    · rw [bind_of_error hx] at h
      cases h
    · rw [bind_of_ok hx] at h
      exact ⟨a, t, rfl, h⟩
  · rintro ⟨a, t, hx, hf⟩
    rw [bind_of_ok hx, hf]

section Bind

variable {f : α → Act ε σ β} {s u : σ} {b : β}

/-! The first actions of a sequence that succeeds, one equation for each kind. -/

theorem ofExcept_bind_eq_ok {x : Except ε α} :
    (ofExcept x >>= f) s = (.ok b, u) ↔ ∃ a, x = .ok a ∧ f a s = (.ok b, u) := by
  rw [bind_eq_ok]
  constructor
  · intro h
    obtain ⟨a, t, hx, hf⟩ := h
    cases hx
    exact ⟨a, rfl, hf⟩
  · intro h
    obtain ⟨a, rfl, hf⟩ := h
    exact ⟨a, s, rfl, hf⟩

theorem zoom_bind_eq_ok {τ : Type} {part : σ → τ} {put : τ → σ → σ} {x : Act ε τ α} :
    (zoom part put x >>= f) s = (.ok b, u) ↔
      ∃ a t, x (part s) = (.ok a, t) ∧ f a (put t s) = (.ok b, u) := by
  rw [bind_eq_ok]
  constructor
  · intro h
    obtain ⟨a, t, hx, hf⟩ := h
    cases hx' : x (part s) with
    | mk r v =>
      rw [zoom, hx'] at hx
      cases hx
      exact ⟨a, v, rfl, hf⟩
  · intro h
    obtain ⟨a, t, hx, hf⟩ := h
    exact ⟨a, put t s, by rw [zoom, hx], hf⟩

theorem within_eq_ok {x : Act ε σ α} {a : α} {t : σ} :
    x.within s = .ok (a, t) ↔ x s = (.ok a, t) := by
  unfold within
  rcases x s with ⟨e | a', t'⟩
  · exact ⟨(fun h => nomatch h), (fun h => nomatch h)⟩
  · constructor
    · intro h
      cases h
      rfl
    · intro h
      cases h
      rfl

end Bind

/-- `x` started in a state with `P` ends in one with `Q` for its answer, or with
`E` for its error. -/
def Ensures (P : σ → Prop) (x : Act ε σ α) (Q : α → σ → Prop) (E : ε → σ → Prop) : Prop :=
  ∀ s, P s →
    match x s with
    | (.ok a, t) => Q a t
    | (.error e, t) => E e t

namespace Ensures

variable {P : σ → Prop} {Q : α → σ → Prop} {R : β → σ → Prop} {E : ε → σ → Prop}

theorem error {x : Act ε σ α} (h : Ensures P x Q E) {s t : σ} {e : ε} (hs : P s)
    (hx : x s = (.error e, t)) : E e t := by
  have := h s hs
  rwa [hx] at this

theorem pure {a : α} (h : ∀ s, P s → Q a s) : Ensures P (pure a : Act ε σ α) Q E := h

theorem fail {e : ε} (h : ∀ s, P s → E e s) : Ensures P (fail e : Act ε σ α) Q E := h

theorem modify {f : σ → σ} {Q : Unit → σ → Prop} (h : ∀ s, P s → Q () (f s)) :
    Ensures P (modify f : Act ε σ Unit) Q E := h

theorem get {Q : σ → σ → Prop} (h : ∀ s, P s → Q s s) : Ensures P (get : Act ε σ σ) Q E := h

theorem ofExcept {x : Except ε α} (hok : ∀ a, x = .ok a → ∀ s, P s → Q a s)
    (herror : ∀ e, x = .error e → ∀ s, P s → E e s) :
    Ensures P (ofExcept x : Act ε σ α) Q E := by
  intro s hs
  cases x with
  | ok a => exact hok a rfl s hs
  | error e => exact herror e rfl s hs

/-- The postcondition of the first action is the precondition of the second. -/
theorem bind {x : Act ε σ α} {f : α → Act ε σ β} (hx : Ensures P x Q E)
    (hf : ∀ a, Ensures (Q a) (f a) R E) : Ensures P (x >>= f) R E := by
  intro s hs
  have hfirst := hx s hs
  rcases hxs : x s with ⟨e | a, t⟩
  · rw [bind_of_error hxs]
    rw [hxs] at hfirst
    exact hfirst
  · rw [bind_of_ok hxs]
    rw [hxs] at hfirst
    exact hf a t hfirst

/-- The consequence rule. -/
theorem weaken {x : Act ε σ α} {Q' : α → σ → Prop} {E' : ε → σ → Prop} (h : Ensures P x Q E)
    (hok : ∀ a s, Q a s → Q' a s) (herror : ∀ e s, E e s → E' e s) : Ensures P x Q' E' := by
  intro s hs
  have hrun := h s hs
  rcases hx : x s with ⟨e | a, t⟩
  · rw [hx] at hrun
    exact herror e t hrun
  · rw [hx] at hrun
    exact hok a t hrun

end Ensures

/-- `x` keeps the property, whether it fails or not. -/
def Preserves (P : σ → Prop) (x : Act ε σ α) : Prop := Ensures P x (fun _ => P) fun _ => P

namespace Preserves

variable {P : σ → Prop}

theorem pure (a : α) : Preserves P (pure a : Act ε σ α) := Ensures.pure fun _ h => h

theorem fail (e : ε) : Preserves P (fail e : Act ε σ α) := Ensures.fail fun _ h => h

theorem get : Preserves P (get : Act ε σ σ) := Ensures.get fun _ h => h

theorem ofExcept (x : Except ε α) : Preserves P (ofExcept x : Act ε σ α) :=
  Ensures.ofExcept (fun _ _ _ h => h) fun _ _ _ h => h

theorem modify {f : σ → σ} (h : ∀ s, P s → P (f s)) : Preserves P (modify f : Act ε σ Unit) :=
  Ensures.modify h

theorem of_snd {x : Act ε σ α} (h : ∀ s, P s → P (x s).2) : Preserves P x := by
  intro s hs
  have hx := h s hs
  rcases hrun : x s with ⟨e | a, t⟩
  · rw [hrun] at hx
    exact hx
  · rw [hrun] at hx
    exact hx

theorem zoom {τ : Type} {part : σ → τ} {put : τ → σ → σ} {x : Act ε τ α}
    (h : ∀ s, P s → P (put (x (part s)).2 s)) : Preserves P (zoom part put x) := of_snd h

theorem bind {x : Act ε σ α} {f : α → Act ε σ β} (hx : Preserves P x)
    (hf : ∀ a, Preserves P (f a)) : Preserves P (x >>= f) := Ensures.bind hx hf

theorem ite {c : Prop} [Decidable c] {x y : Act ε σ α} (hx : Preserves P x) (hy : Preserves P y) :
    Preserves P (if c then x else y) := by
  by_cases h : c
  · rw [if_pos h]
    exact hx
  · rw [if_neg h]
    exact hy

theorem forM {f : α → Act ε σ Unit} (h : ∀ a, Preserves P (f a)) (l : List α) :
    Preserves P (l.forM f) := by
  induction l with
  | nil => exact pure ()
  | cons a l ih => exact (h a).bind fun _ => ih

/-- The property holds behind the action. -/
theorem snd {x : Act ε σ α} (h : Preserves P x) {s : σ} (hs : P s) : P (x s).2 := by
  have := h s hs
  rcases hx : x s with ⟨e | a, t⟩
  · rw [hx] at this
    exact this
  · rw [hx] at this
    exact this

end Preserves

/-! ## Views of the state -/

/-- `x` answers as `y` does from the view of its state, and its state behind it has the view
that `y` leaves. -/
def Views {τ : Type} (view : σ → τ) (x : Act ε σ α) (y : Act ε τ α) : Prop :=
  ∀ s, y (view s) = ((x s).1, view (x s).2)

namespace Views

variable {τ : Type} {view : σ → τ}

theorem pure (a : α) : Views view (pure a : Act ε σ α) (pure a) := fun _ => rfl

theorem bind {x : Act ε σ α} {y : Act ε τ α} {f : α → Act ε σ β} {g : α → Act ε τ β}
    (hx : Views view x y) (hf : ∀ a, Views view (f a) (g a)) : Views view (x >>= f) (y >>= g) := by
  intro s
  have hy := hx s
  rcases hrun : x s with ⟨e | a, t⟩
  · rw [hrun] at hy
    rw [bind_of_error hrun, bind_of_error hy]
  · rw [hrun] at hy
    rw [bind_of_ok hrun, bind_of_ok hy]
    exact hf a t

theorem ite {c : Prop} [Decidable c] {x x' : Act ε σ α} {y y' : Act ε τ α} (hx : Views view x y)
    (hx' : Views view x' y') : Views view (if c then x else x') (if c then y else y') := by
  by_cases h : c
  · rw [if_pos h, if_pos h]
    exact hx
  · rw [if_neg h, if_neg h]
    exact hx'

end Views

end Act

end Mt5Open.Lib

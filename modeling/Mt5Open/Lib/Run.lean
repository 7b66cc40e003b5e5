import Mathlib.Data.List.Induction

/-!
# Runs of a partial step function

A system whose parties take atomic steps in any order is a function
`step : S → A → Option S`: the label says which party moves and what it is
given, and `none` means that the step is not enabled.  A schedule is a list of
labels, and `exec` takes its steps in order.

Five rules cover every use below.

* `exec_invariant` carries a property along a schedule whose steps all keep it.
* `exec_history` does it for a property of the schedule and of its last state.
* `exec_invariant_of_stepsMeet` does the same for a step that keeps the property
  only under a guard.  `StepsMeet` says that every step of a schedule meets the
  guard in the state it is taken from.
* `stepsMeet_iff` is the exact form.  If the guard decides whether a step keeps
  the property, under an invariant that every step keeps, then a schedule meets
  the guard at every step exactly when the property holds in every state that
  the schedule goes through.
* `image` is what a schedule is in another system, step by step, and `exec_image`
  carries the run over to it.
-/

namespace Mt5Open.Lib.Run

variable {S A : Type*}

/-- Take the steps of a schedule in order, and stop with `none` at the first one
that is not enabled. -/
def exec (step : S → A → Option S) : S → List A → Option S
  | s, [] => some s
  | s, a :: as => (step s a).bind fun t => exec step t as

@[simp] theorem exec_nil (step : S → A → Option S) (s : S) : exec step s [] = some s := rfl

theorem exec_cons (step : S → A → Option S) (s : S) (a : A) (as : List A) :
    exec step s (a :: as) = (step s a).bind fun t => exec step t as := rfl

/-- A schedule with a first step goes through the state after that step. -/
theorem exec_cons_eq_some {step : S → A → Option S} {s t : S} {a : A} {as : List A} :
    exec step s (a :: as) = some t ↔ ∃ u, step s a = some u ∧ exec step u as = some t := by
  rw [exec_cons, Option.bind_eq_some_iff]

/-- A property that every enabled step keeps holds at the end of every schedule. -/
theorem exec_invariant {step : S → A → Option S} {Inv : S → Prop}
    (hstep : ∀ s a t, Inv s → step s a = some t → Inv t) :
    ∀ {as : List A} {s t : S}, Inv s → exec step s as = some t → Inv t
  | [], _, _, hs, h => Option.some.inj h ▸ hs
  | a :: _, s, _, hs, h => by
    obtain ⟨u, hu, hrest⟩ := exec_cons_eq_some.mp h
    exact exec_invariant hstep (hstep s a u hs hu) hrest

theorem exec_append {step : S → A → Option S} {s : S} {front back : List A} :
    exec step s (front ++ back) = (exec step s front).bind fun t => exec step t back := by
  induction front generalizing s with
  | nil => rfl
  | cons a front ih =>
    rw [List.cons_append, exec_cons, exec_cons]
    cases step s a with
    | none => rfl
    | some t => exact ih

/-- What holds of the steps so far and of the state behind them. -/
theorem exec_history {step : S → A → Option S} {P : List A → S → Prop} {s : S}
    (start : P [] s) (next : ∀ as a t u, P as t → step t a = some u → P (as ++ [a]) u) :
    ∀ {as : List A} {t : S}, exec step s as = some t → P as t := by
  intro as
  induction as using List.reverseRecOn with
  | nil =>
    intro t h
    exact Option.some.inj h ▸ start
  | append_singleton as a ih =>
    intro u h
    rw [exec_append, Option.bind_eq_some_iff] at h
    obtain ⟨t, hfront, hlast⟩ := h
    obtain ⟨v, hv, hnil⟩ := exec_cons_eq_some.mp hlast
    obtain rfl := Option.some.inj hnil
    exact next as a t _ (ih hfront) hv

/-- The schedule of another system that the steps of this one stand for, each for a few labels of it
or for none. -/
def image {B : Type*} (step : S → A → Option S) (labels : S → A → List B) : S → List A → List B
  | _, [] => []
  | s, a :: as => labels s a ++ (step s a).elim [] fun t => image step labels t as

/-- A system whose steps are schedules of another one, in a view of the state: so are its runs. -/
theorem exec_image {T B : Type*} {step : S → A → Option S} {step' : T → B → Option T}
    {view : S → T} {labels : S → A → List B} {Inv : S → Prop}
    (hstep : ∀ s a t, Inv s → step s a = some t →
      Inv t ∧ exec step' (view s) (labels s a) = some (view t)) {as : List A} {s t : S}
    (hs : Inv s) (h : exec step s as = some t) :
    exec step' (view s) (image step labels s as) = some (view t) := by
  induction as generalizing s with
  | nil =>
    cases h
    rfl
  | cons a as ih =>
    obtain ⟨u, hu, hrest⟩ := exec_cons_eq_some.mp h
    obtain ⟨hinv, hfirst⟩ := hstep s a u hs hu
    rw [image, hu, Option.elim_some, exec_append, hfirst, Option.bind_some]
    exact ih hinv hrest

/-- Every step of the schedule meets `guard` in the state it is taken from. -/
def StepsMeet (step : S → A → Option S) (guard : S → A → Prop) : S → List A → Prop
  | _, [] => True
  | s, a :: as => guard s a ∧ ∀ t, step s a = some t → StepsMeet step guard t as

/-- A guard that can be evaluated can be evaluated along a schedule. -/
instance decidableStepsMeet {step : S → A → Option S} {guard : S → A → Prop}
    [∀ s a, Decidable (guard s a)] : ∀ s as, Decidable (StepsMeet step guard s as)
  | _, [] => isTrue trivial
  | s, a :: as =>
    have : Decidable (∀ t, step s a = some t → StepsMeet step guard t as) :=
      match step s a with
      | none => isTrue fun _ h => nomatch h
      | some t =>
        match decidableStepsMeet t as with
        | isTrue hmeet => isTrue fun _ h => Option.some.inj h ▸ hmeet
        | isFalse hmeet => isFalse fun hall => hmeet (hall t rfl)
    inferInstanceAs (Decidable (guard s a ∧ ∀ t, step s a = some t → StepsMeet step guard t as))

/-- A property that every enabled step keeps under the guard holds at the end of
every schedule whose steps meet the guard. -/
theorem exec_invariant_of_stepsMeet {step : S → A → Option S} {guard : S → A → Prop}
    {Inv : S → Prop}
    (hstep : ∀ s a t, Inv s → guard s a → step s a = some t → Inv t) :
    ∀ {as : List A} {s t : S}, Inv s → StepsMeet step guard s as →
      exec step s as = some t → Inv t
  | [], _, _, hs, _, h => Option.some.inj h ▸ hs
  | a :: _, s, _, hs, hmeet, h => by
    obtain ⟨u, hu, hrest⟩ := exec_cons_eq_some.mp h
    exact exec_invariant_of_stepsMeet hstep (hstep s a u hs hmeet.1 hu) (hmeet.2 u hu) hrest

/-- Every state that a schedule goes through, its first and its last included,
satisfies `P`. -/
def Throughout (step : S → A → Option S) (P : S → Prop) (s : S) (as : List A) : Prop :=
  ∀ front back t, as = front ++ back → exec step s front = some t → P t

theorem throughout_cons {step : S → A → Option S} {P : S → Prop} {s : S} {a : A} {as : List A} :
    Throughout step P s (a :: as) ↔
      P s ∧ ∀ t, step s a = some t → Throughout step P t as := by
  constructor
  · intro h
    refine ⟨h [] (a :: as) s rfl rfl, ?_⟩
    intro t ht front back u hsplit hu
    refine h (a :: front) back u (by rw [hsplit]; rfl) ?_
    exact exec_cons_eq_some.mpr ⟨t, ht, hu⟩
  · rintro ⟨hs, hrest⟩ front back t hsplit ht
    cases front with
    | nil => exact Option.some.inj ht ▸ hs
    | cons b front =>
      obtain ⟨rfl, rfl⟩ := List.cons.inj hsplit
      obtain ⟨u, hu, ht⟩ := exec_cons_eq_some.mp ht
      exact hrest u hu front back t rfl ht

/-- If the guard decides whether a step out of a good state leads to a good
state, then a schedule that can be run goes through good states only, exactly
when each of its steps meets the guard. -/
theorem stepsMeet_iff {step : S → A → Option S} {guard : S → A → Prop} {Inv P : S → Prop}
    (hinv : ∀ s a t, Inv s → step s a = some t → Inv t)
    (hstep : ∀ s a t, Inv s → P s → step s a = some t → (P t ↔ guard s a)) :
    ∀ {as : List A} {s t : S}, Inv s → P s → exec step s as = some t →
      (Throughout step P s as ↔ StepsMeet step guard s as)
  | [], s, _, _, hs, _ => by
    constructor
    · intro _
      trivial
    · intro _ front back t hsplit ht
      obtain ⟨rfl, -⟩ := List.append_eq_nil_iff.mp hsplit.symm
      exact Option.some.inj ht ▸ hs
  | a :: as, s, t, hkept, hs, h => by
    obtain ⟨u, hu, hrest⟩ := exec_cons_eq_some.mp h
    have hnext : Inv u := hinv s a u hkept hu
    rw [throughout_cons]
    constructor
    · rintro ⟨-, hthrough⟩
      have hgood : P u := hthrough u hu [] as u rfl rfl
      refine ⟨(hstep s a u hkept hs hu).mp hgood, ?_⟩
      intro v hv
      obtain rfl : u = v := Option.some.inj (hu.symm.trans hv)
      exact (stepsMeet_iff hinv hstep hnext hgood hrest).mp (hthrough u hu)
    · rintro ⟨hguard, hmeet⟩
      have hgood : P u := (hstep s a u hkept hs hu).mpr hguard
      refine ⟨hs, ?_⟩
      intro v hv
      obtain rfl : u = v := Option.some.inj (hu.symm.trans hv)
      exact (stepsMeet_iff hinv hstep hnext hgood hrest).mpr (hmeet u hu)

end Mt5Open.Lib.Run

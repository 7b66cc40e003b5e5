import Mathlib.Data.Nat.Init

/-!
# Decoders

A decoder reads from a state and answers, or fails for good.  `bind_of_ok` runs
a sequence of decoders forwards, and `bind_eq_ok` takes a run that succeeded
apart.  `times` is a counted loop, `iterate` one that carries a value, and `each`
is a loop over a list.

`Yields x s Q E` says what `x` gives from the state `s`, and how it can fail.
`Shrinks m x` says that `x` does not make the measure `m` of the state larger.
Loops over decoders count on it, and its rules follow the syntax.  `Carries P R x` says
that `x` does the same from states that stand in the relation `R`, when it ends within `P`.
-/

namespace Mt5Open.Lib

theorem except_ok_bind {ε α β : Type} (a : α) (f : α → Except ε β) : (Except.ok a >>= f) = f a :=
  rfl

/-- Two results in a row succeed when both of them do. -/
theorem except_bind_eq_ok {ε α β : Type} {x : Except ε α} {f : α → Except ε β} {b : β} :
    (x >>= f) = .ok b ↔ ∃ a, x = .ok a ∧ f a = .ok b := by
  constructor
  · intro h
    cases x with
    | error e => cases h
    | ok a => exact ⟨a, rfl, h⟩
  · intro h
    obtain ⟨a, rfl, hf⟩ := h
    exact hf

theorem mapM_ok {ε α β : Type} {f : α → Except ε β} {g : α → β} {items : List α}
    (h : ∀ item ∈ items, f item = .ok (g item)) : items.mapM f = .ok (items.map g) := by
  induction items with
  | nil => rfl
  | cons item items ih =>
    rw [List.mapM_cons, h item List.mem_cons_self,
      ih fun i hi => h i (List.mem_cons_of_mem _ hi)]
    rfl

theorem mapM_ok_of_forall {ε α β : Type} {f : α → Except ε β} {items : List α}
    (h : ∀ item ∈ items, ∃ b, f item = .ok b) : ∃ bs, items.mapM f = .ok bs := by
  induction items with
  | nil => exact ⟨[], rfl⟩
  | cons item items ih =>
    obtain ⟨b, hfirst⟩ := h item List.mem_cons_self
    obtain ⟨bs, hrest⟩ := ih fun i hi => h i (List.mem_cons_of_mem _ hi)
    refine ⟨b :: bs, ?_⟩
    rw [List.mapM_cons, hfirst, hrest]
    rfl

theorem foldlM_ok {ε α β : Type} {f : β → α → Except ε β} {g : β → α → β} {items : List α}
    (h : ∀ b, ∀ item ∈ items, f b item = .ok (g b item)) (b : β) :
    items.foldlM f b = .ok (items.foldl g b) := by
  induction items generalizing b with
  | nil => rfl
  | cons item items ih =>
    rw [List.foldlM_cons, h b item List.mem_cons_self, List.foldl_cons]
    exact ih (fun b i hi => h b i (List.mem_cons_of_mem _ hi)) _

/-- A computation that reads from a state and can fail. -/
abbrev Decoder (ε σ : Type) := StateT σ (Except ε)

namespace Decoder

variable {ε σ α β : Type}

/-- Fail, whatever the state is. -/
def raise (e : ε) : Decoder ε σ α := fun _ => .error e

/-- A result that reads nothing. -/
def ofResult (x : Except ε α) : Decoder ε σ α := fun s =>
  match x with
  | .error e => .error e
  | .ok a => .ok (a, s)

/-- `n` rounds, with what each of them reads. -/
def times (x : Decoder ε σ α) : Nat → Decoder ε σ (List α)
  | 0 => pure []
  | n + 1 => do
    let a ← x
    let rest ← times x n
    return a :: rest

/-- `n` rounds, each from the value of the one before it. -/
def iterate (f : α → Decoder ε σ α) : Nat → α → Decoder ε σ α
  | 0, a => pure a
  | n + 1, a => do
    let a ← f a
    iterate f n a

/-- One round for each item, with what each of them reads. -/
def each (f : α → Decoder ε σ β) : List α → Decoder ε σ (List β)
  | [] => pure []
  | a :: items => do
    let b ← f a
    let rest ← each f items
    return b :: rest

theorem bind_of_ok {x : Decoder ε σ α} {f : α → Decoder ε σ β} {s t : σ} {a : α}
    (h : x s = .ok (a, t)) : (x >>= f) s = f a t := by
  show (x s >>= fun p => f p.1 p.2) = f a t
  rw [h]
  rfl

theorem bind_of_error {x : Decoder ε σ α} {f : α → Decoder ε σ β} {s : σ} {e : ε}
    (h : x s = .error e) : (x >>= f) s = .error e := by
  show (x s >>= fun p => f p.1 p.2) = .error e
  rw [h]
  rfl

theorem bind_eq_ok {x : Decoder ε σ α} {f : α → Decoder ε σ β} {s u : σ} {b : β} :
    (x >>= f) s = .ok (b, u) ↔ ∃ a t, x s = .ok (a, t) ∧ f a t = .ok (b, u) := by
  constructor
  · intro h
    cases hx : x s with
    | error e =>
      rw [bind_of_error hx] at h
      cases h
    | ok p =>
      obtain ⟨a, t⟩ := p
      rw [bind_of_ok hx] at h
      exact ⟨a, t, rfl, h⟩
  · intro h
    obtain ⟨a, t, hx, hf⟩ := h
    rw [bind_of_ok hx, hf]

theorem pure_eq_ok {a b : α} {s t : σ} :
    (pure a : Decoder ε σ α) s = .ok (b, t) ↔ a = b ∧ s = t := by
  constructor
  · intro h
    cases Except.ok.inj h
    exact ⟨rfl, rfl⟩
  · intro h
    rw [h.1, h.2]
    rfl

theorem raise_ne_ok {e : ε} {s t : σ} {a : α} : (raise e : Decoder ε σ α) s ≠ .ok (a, t) := by
  intro h
  cases h

theorem ofResult_eq_ok {x : Except ε α} {s t : σ} {a : α} :
    ofResult x s = .ok (a, t) ↔ x = .ok a ∧ s = t := by
  cases x with
  | error e => exact ⟨nofun, nofun⟩
  | ok b =>
    constructor
    · intro h
      cases Except.ok.inj h
      exact ⟨rfl, rfl⟩
    · rintro ⟨h, rfl⟩
      cases h
      rfl

theorem times_succ_eq_ok {x : Decoder ε σ α} {n : Nat} {s u : σ} {as : List α} :
    times x (n + 1) s = .ok (as, u) ↔
      ∃ a rest t, as = a :: rest ∧ x s = .ok (a, t) ∧ times x n t = .ok (rest, u) := by
  constructor
  · intro h
    obtain ⟨a, t, ha, hothers⟩ := bind_eq_ok.mp h
    obtain ⟨rest, last, hrest, hpure⟩ := bind_eq_ok.mp hothers
    obtain ⟨rfl, rfl⟩ := pure_eq_ok.mp hpure
    exact ⟨a, rest, t, rfl, ha, hrest⟩
  · rintro ⟨a, rest, t, rfl, ha, hrest⟩
    exact bind_eq_ok.mpr ⟨a, t, ha, bind_eq_ok.mpr ⟨rest, u, hrest, rfl⟩⟩

theorem length_of_times {x : Decoder ε σ α} {n : Nat} {s t : σ} {as : List α}
    (h : times x n s = .ok (as, t)) : as.length = n := by
  induction n generalizing s t as with
  | zero =>
    cases h
    rfl
  | succ n ih =>
    obtain ⟨a, rest, middle, rfl, -, hrest⟩ := times_succ_eq_ok.mp h
    exact congrArg (· + 1) (ih hrest)

/-- What a loop reads is read in one of its rounds. -/
theorem mem_of_times {x : Decoder ε σ α} {n : Nat} {s u : σ} {as : List α}
    (h : times x n s = .ok (as, u)) {a : α} (ha : a ∈ as) : ∃ t v, x t = .ok (a, v) := by
  induction n generalizing s as with
  | zero =>
    obtain ⟨rfl, -⟩ := pure_eq_ok.mp h
    exact absurd ha List.not_mem_nil
  | succ n ih =>
    obtain ⟨b, rest, t, rfl, hb, hrest⟩ := times_succ_eq_ok.mp h
    rcases List.mem_cons.mp ha with rfl | hmem
    · exact ⟨s, t, hb⟩
    · exact ih hrest hmem

/-- The first rounds of a loop, and the others. -/
theorem times_append_eq_ok {x : Decoder ε σ α} {m n : Nat} {s u : σ} {as : List α} :
    times x (m + n) s = .ok (as, u) ↔
      ∃ first others t, as = first ++ others ∧ times x m s = .ok (first, t) ∧
        times x n t = .ok (others, u) := by
  induction m generalizing s as with
  | zero =>
    rw [Nat.zero_add]
    constructor
    · exact fun h => ⟨[], as, s, rfl, rfl, h⟩
    · rintro ⟨first, others, t, rfl, hfirst, hothers⟩
      obtain ⟨rfl, rfl⟩ := pure_eq_ok.mp hfirst
      exact hothers
  | succ m ih =>
    rw [Nat.succ_add]
    constructor
    · intro h
      obtain ⟨a, rest, t, rfl, ha, hrest⟩ := times_succ_eq_ok.mp h
      obtain ⟨first, others, v, rfl, hfirst, hothers⟩ := ih.mp hrest
      exact ⟨a :: first, others, v, rfl, times_succ_eq_ok.mpr ⟨a, first, t, rfl, ha, hfirst⟩,
        hothers⟩
    · rintro ⟨first, others, v, rfl, hfirst, hothers⟩
      obtain ⟨a, rest, t, rfl, ha, hrest⟩ := times_succ_eq_ok.mp hfirst
      exact times_succ_eq_ok.mpr
        ⟨a, rest ++ others, t, rfl, ha, ih.mpr ⟨rest, others, v, rfl, hrest, hothers⟩⟩

/-- Fewer rounds read the first items, and leave the others. -/
theorem times_take {x : Decoder ε σ α} {m n : Nat} {s t u : σ} {as bs : List α} (hle : m ≤ n)
    (hlong : times x n s = .ok (as, u)) (hshort : times x m s = .ok (bs, t)) :
    bs = as.take m ∧ times x (n - m) t = .ok (as.drop m, u) := by
  obtain ⟨k, rfl⟩ := Nat.exists_eq_add_of_le hle
  obtain ⟨first, others, v, rfl, hfirst, hothers⟩ := times_append_eq_ok.mp hlong
  rw [hshort] at hfirst
  cases Except.ok.inj hfirst
  have hlength := length_of_times hshort
  subst hlength
  rw [Nat.add_sub_cancel_left, List.take_left, List.drop_left]
  exact ⟨rfl, hothers⟩

/-! ## What a run gives -/

/-- From `s` the decoder succeeds with `Q`, or it fails with an error of `E`. -/
def Yields (x : Decoder ε σ α) (s : σ) (Q : α → σ → Prop) (E : ε → Prop) : Prop :=
  match x s with
  | .ok (a, t) => Q a t
  | .error e => E e

namespace Yields

variable {x : Decoder ε σ α} {f : α → Decoder ε σ β} {s : σ} {P Q : α → σ → Prop}
  {R : β → σ → Prop} {E : ε → Prop}

theorem pure {a : α} (h : Q a s) : Yields (pure a : Decoder ε σ α) s Q E := h

theorem raise {e : ε} (h : E e) : Yields (raise e : Decoder ε σ α) s Q E := h

theorem ofResult {r : Except ε α} (hok : ∀ a, r = .ok a → Q a s)
    (herror : ∀ e, r = .error e → E e) : Yields (ofResult r) s Q E := by
  cases r with
  | ok a => exact hok a rfl
  | error e => exact herror e rfl

theorem bind (hx : Yields x s P E) (hf : ∀ a t, P a t → Yields (f a) t R E) :
    Yields (x >>= f) s R E := by
  unfold Yields at hx
  cases hrun : x s with
  | error e =>
    rw [hrun] at hx
    rw [Yields, bind_of_error hrun]
    exact hx
  | ok p =>
    obtain ⟨a, t⟩ := p
    rw [hrun] at hx
    rw [Yields, bind_of_ok hrun]
    exact hf a t hx

theorem get {f : σ → Decoder ε σ β} (h : Yields (f s) s R E) :
    Yields (MonadState.get >>= f) s R E := h

theorem modify {g : σ → σ} {f : Unit → Decoder ε σ β} (h : Yields (f ()) (g s) R E) :
    Yields (MonadState.modifyGet (fun t => ((), g t)) >>= f) s R E := h

theorem mono (hx : Yields x s P E) (h : ∀ a t, P a t → Q a t) : Yields x s Q E := by
  unfold Yields at *
  split at hx
  · exact h _ _ hx
  · exact hx

/-- The run itself can be kept. -/
theorem self (hx : Yields x s Q E) : Yields x s (fun a t => x s = .ok (a, t) ∧ Q a t) E := by
  unfold Yields at *
  split at hx
  · rename_i hrun
    exact ⟨hrun, hx⟩
  · exact hx

theorem ok (hx : Yields x s Q E) {a : α} {t : σ} (h : x s = .ok (a, t)) : Q a t := by
  rw [Yields, h] at hx
  exact hx

theorem error (hx : Yields x s Q E) {e : ε} (h : x s = .error e) : E e := by
  rw [Yields, h] at hx
  exact hx

end Yields

/-! ## Decoders that do not make a measure larger -/

/-- The measure of the state does not go up. -/
def Shrinks (m : σ → Nat) (x : Decoder ε σ α) : Prop := ∀ s a t, x s = .ok (a, t) → m t ≤ m s

namespace Shrinks

variable {m : σ → Nat} {x y : Decoder ε σ α} {f : α → Decoder ε σ β}

theorem pure (a : α) : Shrinks m (pure a : Decoder ε σ α) := by
  intro s b t h
  exact Nat.le_of_eq (congrArg m (pure_eq_ok.mp h).2.symm)

theorem raise (e : ε) : Shrinks m (raise e : Decoder ε σ α) := by
  intro s a t h
  exact absurd h raise_ne_ok

theorem get : Shrinks m (get : Decoder ε σ σ) := by
  intro s a t h
  cases Except.ok.inj h
  exact Nat.le_refl _

theorem ofResult (r : Except ε α) : Shrinks m (ofResult r) := by
  intro s a t h
  cases r with
  | error e => cases h
  | ok b =>
    cases Except.ok.inj h
    exact Nat.le_refl _

theorem bind (hx : Shrinks m x) (hf : ∀ a, Shrinks m (f a)) : Shrinks m (x >>= f) := by
  intro s b u h
  obtain ⟨a, t, hxa, hfb⟩ := bind_eq_ok.mp h
  exact Nat.le_trans (hf a t b u hfb) (hx s a t hxa)

/-- What stands behind the first step of a run. -/
theorem le_of_bind {s u : σ} {b : β} (h : (x >>= f) s = .ok (b, u)) (hf : ∀ a, Shrinks m (f a)) :
    ∃ a t, x s = .ok (a, t) ∧ m u ≤ m t := by
  obtain ⟨a, t, hxa, hfb⟩ := bind_eq_ok.mp h
  exact ⟨a, t, hxa, hf a t b u hfb⟩

theorem ite {c : Prop} [Decidable c] (hx : Shrinks m x) (hy : Shrinks m y) :
    Shrinks m (if c then x else y) := by
  by_cases h : c
  · rw [if_pos h]
    exact hx
  · rw [if_neg h]
    exact hy

theorem times (hx : Shrinks m x) (n : Nat) : Shrinks m (times x n) := by
  induction n with
  | zero => exact pure []
  | succ n ih => exact hx.bind fun a => ih.bind fun rest => pure (a :: rest)

theorem each {g : α → Decoder ε σ β} (hg : ∀ a, Shrinks m (g a)) (items : List α) :
    Shrinks m (each g items) := by
  induction items with
  | nil => exact pure []
  | cons a items ih => exact (hg a).bind fun b => ih.bind fun rest => pure (b :: rest)

end Shrinks

/-! ## Decoders that do the same from another state -/

/-- What ends within `P` has begun there, and from a state that stands in the relation it
succeeds with the same value and ends in a state that stands in the relation. -/
def Carries (P : σ → Prop) (R : σ → σ → Prop) (x : Decoder ε σ α) : Prop :=
  ∀ s a t, x s = .ok (a, t) → P t →
    P s ∧ ∀ s', R s s' → ∃ t', x s' = .ok (a, t') ∧ R t t'

namespace Carries

variable {P : σ → Prop} {R : σ → σ → Prop} {x y : Decoder ε σ α} {f : α → Decoder ε σ β}

theorem pure (a : α) : Carries P R (pure a : Decoder ε σ α) := by
  intro s b t h hP
  obtain ⟨rfl, rfl⟩ := pure_eq_ok.mp h
  exact ⟨hP, fun s' hR => ⟨s', rfl, hR⟩⟩

theorem raise (e : ε) : Carries P R (raise e : Decoder ε σ α) := by
  intro s a t h _
  exact absurd h raise_ne_ok

theorem ofResult (r : Except ε α) : Carries P R (ofResult r) := by
  intro s a t h hP
  obtain ⟨rfl, rfl⟩ := ofResult_eq_ok.mp h
  exact ⟨hP, fun s' hR => ⟨s', rfl, hR⟩⟩

theorem bind (hx : Carries P R x) (hf : ∀ a, Carries P R (f a)) : Carries P R (x >>= f) := by
  intro s b u h hu
  obtain ⟨a, t, hxa, hfb⟩ := bind_eq_ok.mp h
  obtain ⟨ht, hrest⟩ := hf a t b u hfb hu
  obtain ⟨hs, hfirst⟩ := hx s a t hxa ht
  refine ⟨hs, fun s' hR => ?_⟩
  obtain ⟨t', hxa', hR'⟩ := hfirst s' hR
  obtain ⟨u', hfb', hR''⟩ := hrest t' hR'
  exact ⟨u', bind_eq_ok.mpr ⟨a, t', hxa', hfb'⟩, hR''⟩

/-- The next step looks at no more of the state than what the relation fixes. -/
theorem get {f : σ → Decoder ε σ β} (hsame : ∀ s s', R s s' → f s = f s')
    (hf : ∀ s, Carries P R (f s)) : Carries P R (MonadState.get >>= f) := by
  intro s b t h ht
  obtain ⟨hs, hrest⟩ := hf s s b t h ht
  refine ⟨hs, fun s' hR => ?_⟩
  obtain ⟨t', hrun, hR'⟩ := hrest s' hR
  rw [hsame s s' hR] at hrun
  exact ⟨t', hrun, hR'⟩

theorem modify {g : σ → σ} {f : Unit → Decoder ε σ β} (hP : ∀ s, P (g s) → P s)
    (hg : ∀ s s', R s s' → R (g s) (g s')) (hf : Carries P R (f ())) :
    Carries P R (MonadState.modifyGet (fun s => ((), g s)) >>= f) := by
  intro s b t h ht
  obtain ⟨hs, hrest⟩ := hf (g s) b t h ht
  exact ⟨hP s hs, fun s' hR => hrest (g s') (hg s s' hR)⟩

theorem ite {c : Prop} [Decidable c] (hx : Carries P R x) (hy : Carries P R y) :
    Carries P R (if c then x else y) := by
  by_cases h : c
  · rw [if_pos h]
    exact hx
  · rw [if_neg h]
    exact hy

theorem times (hx : Carries P R x) (n : Nat) : Carries P R (times x n) := by
  induction n with
  | zero => exact pure []
  | succ n ih => exact hx.bind fun a => ih.bind fun rest => pure (a :: rest)

end Carries

end Decoder

end Mt5Open.Lib

import Mt5Open.Lib.Decoder

/-!
# Grammars

A grammar says which words spell which values.  It is a relation, so a word can
spell several values and a value can have several spellings.  Grammars are
sequenced as decoders are.

`Parses x g` says that the decoder `x` reads exactly the grammar `g`: it succeeds
when some word of `g` stands at the front of its input, and takes that word.
The rules follow the syntax.
-/

namespace Mt5Open.Lib

/-- Which words spell which values. -/
def Grammar (ι α : Type) : Type := List ι → α → Prop

namespace Grammar

variable {ι α β ε : Type}

instance : Monad (Grammar ι) where
  pure a := fun word b => word = [] ∧ b = a
  bind g h := fun word b => ∃ first second a, word = first ++ second ∧ g first a ∧ h a second b

/-- Any word of this length, which spells itself. -/
def block (size : Nat) : Grammar ι (List ι) := fun word a => word.length = size ∧ a = word

/-- A value that a computation accepts, spelt by nothing. -/
def accepted (x : Except ε α) : Grammar ι α := fun word a => word = [] ∧ x = .ok a

/-- `n` words in a row. -/
def items (g : Grammar ι α) : Nat → Grammar ι (List α)
  | 0 => pure []
  | n + 1 => do
    let a ← g
    let rest ← items g n
    return a :: rest

theorem pure_bind (a : α) (h : α → Grammar ι β) : (pure a >>= h) = h a := by
  funext word b
  refine propext ⟨?_, fun hword => ⟨[], word, a, rfl, ⟨rfl, rfl⟩, hword⟩⟩
  rintro ⟨first, second, _, rfl, ⟨rfl, rfl⟩, hsecond⟩
  exact hsecond

theorem bind_assoc {γ : Type} (g : Grammar ι α) (h : α → Grammar ι β) (k : β → Grammar ι γ) :
    ((g >>= h) >>= k) = (g >>= fun a => h a >>= k) := by
  funext word c
  refine propext ⟨?_, ?_⟩
  · rintro ⟨first, third, b, rfl, ⟨first, second, a, rfl, hg, hh⟩, hk⟩
    exact ⟨first, second ++ third, a, List.append_assoc _ _ _, hg, second, third, b, rfl, hh, hk⟩
  · rintro ⟨first, rest, a, rfl, hg, second, third, b, rfl, hh, hk⟩
    exact ⟨first ++ second, third, b, (List.append_assoc _ _ _).symm,
      ⟨first, second, a, rfl, hg, hh⟩, hk⟩

theorem ite_bind {c : Prop} [Decidable c] (g g' : Grammar ι α) (h : α → Grammar ι β) :
    ((if c then g else g') >>= h) = if c then g >>= h else g' >>= h := by
  split <;> rfl

/-! ## Lengths -/

/-- No word of the grammar is shorter. -/
def AtLeast (g : Grammar ι α) (size : Nat) : Prop := ∀ word a, g word a → size ≤ word.length

namespace AtLeast

variable {g : Grammar ι α} {h : α → Grammar ι β} {m n : Nat}

theorem zero : AtLeast g 0 := fun _ _ _ => Nat.zero_le _

theorem mono (hg : AtLeast g m) (h : n ≤ m) : AtLeast g n :=
  fun word a hword => Nat.le_trans h (hg word a hword)

theorem block (size : Nat) : AtLeast (Grammar.block size : Grammar ι (List ι)) size :=
  fun _ _ hword => Nat.le_of_eq hword.1.symm

theorem bind (hg : AtLeast g m) (hh : ∀ a, AtLeast (h a) n) : AtLeast (g >>= h) (m + n) := by
  rintro word b ⟨first, second, a, rfl, hfirst, hsecond⟩
  rw [List.length_append]
  exact Nat.add_le_add (hg first a hfirst) (hh a second b hsecond)

/-- The first part is long enough. -/
theorem bind_left (hg : AtLeast g m) : AtLeast (g >>= h) m := hg.bind fun _ => zero

theorem items (hg : AtLeast g m) (n : Nat) : AtLeast (items g n) (n * m) := by
  induction n with
  | zero =>
    rw [Nat.zero_mul]
    exact zero
  | succ n ih =>
    rw [Nat.succ_mul, Nat.add_comm (n * m)]
    exact hg.bind fun a => ih.bind_left

end AtLeast

end Grammar

/-- No accepted word stands at the front of a longer one. -/
def PrefixFree {ι : Type} (accepted : List ι → Prop) : Prop :=
  ∀ word more, accepted word → accepted (word ++ more) → more = []

namespace Decoder

variable {ε ι α β : Type}

/-- The decoder takes a word of the grammar from the front of its input. -/
def Parses (x : Decoder ε (List ι) α) (g : Grammar ι α) : Prop :=
  ∀ input a rest, x input = .ok (a, rest) ↔ ∃ word, input = word ++ rest ∧ g word a

namespace Parses

variable {x : Decoder ε (List ι) α} {g : Grammar ι α} {f : α → Decoder ε (List ι) β}
  {h : α → Grammar ι β}

theorem pure (a : α) : Parses (pure a : Decoder ε (List ι) α) (pure a) := by
  intro input b rest
  rw [pure_eq_ok]
  constructor
  · rintro ⟨rfl, rfl⟩
    exact ⟨[], rfl, rfl, rfl⟩
  · rintro ⟨word, rfl, rfl, rfl⟩
    exact ⟨rfl, rfl⟩

theorem bind (hx : Parses x g) (hf : ∀ a, Parses (f a) (h a)) : Parses (x >>= f) (g >>= h) := by
  intro input b rest
  rw [bind_eq_ok]
  constructor
  · rintro ⟨a, middle, hrun, hrest⟩
    obtain ⟨first, rfl, hfirst⟩ := (hx _ _ _).mp hrun
    obtain ⟨second, rfl, hsecond⟩ := (hf a _ _ _).mp hrest
    exact ⟨first ++ second, (List.append_assoc _ _ _).symm, first, second, a, rfl, hfirst, hsecond⟩
  · rintro ⟨word, rfl, first, second, a, rfl, hfirst, hsecond⟩
    refine ⟨a, second ++ rest, (hx _ _ _).mpr ⟨first, List.append_assoc _ _ _, hfirst⟩, ?_⟩
    exact (hf a _ _ _).mpr ⟨second, rfl, hsecond⟩

theorem congr {g' : Grammar ι α} (hx : Parses x g) (h : ∀ word a, g word a ↔ g' word a) :
    Parses x g' := by
  intro input a rest
  rw [hx input a rest]
  exact exists_congr fun word => and_congr_right fun _ => h word a

/-- What always fails reads the empty grammar. -/
theorem raise (e : ε) (h : ∀ word a, ¬g word a) : Parses (raise e) g := by
  intro input a rest
  constructor
  · intro hrun
    cases hrun
  · rintro ⟨word, -, hword⟩
    exact absurd hword (h word a)

theorem ofResult (r : Except ε α) :
    Parses (ofResult r : Decoder ε (List ι) α) (Grammar.accepted r) := by
  intro input a rest
  cases r with
  | error e =>
    constructor
    · intro hrun
      cases hrun
    · rintro ⟨word, -, -, haccepted⟩
      cases haccepted
  | ok b =>
    constructor
    · intro hrun
      cases hrun
      exact ⟨[], rfl, rfl, rfl⟩
    · rintro ⟨word, rfl, rfl, haccepted⟩
      cases haccepted
      rfl

theorem times (hx : Parses x g) (n : Nat) : Parses (times x n) (Grammar.items g n) := by
  induction n with
  | zero => exact pure []
  | succ n ih => exact hx.bind fun a => ih.bind fun rest => pure (a :: rest)

/-- Rounds that fold what they read into a value. -/
theorem iterate {step : β → α → β} {f : β → Decoder ε (List ι) β}
    (hf : ∀ b, Parses (f b) (g >>= fun a => Pure.pure (step b a))) (n : Nat) (b : β) :
    Parses (iterate f n b) (Grammar.items g n >>= fun as => Pure.pure (as.foldl step b)) := by
  induction n generalizing b with
  | zero => exact (pure b).congr fun word c => by rw [Grammar.items, Grammar.pure_bind]; rfl
  | succ n ih =>
    refine ((hf b).bind fun c => ih c).congr fun word c => ?_
    simp only [Grammar.items, Grammar.bind_assoc, Grammar.pure_bind, List.foldl_cons]

/-- The whole input is read when it is a word. -/
theorem all (hx : Parses x g) {input : List ι} {a : α} : x input = .ok (a, []) ↔ g input a := by
  rw [hx]
  constructor
  · rintro ⟨word, rfl, hword⟩
    rwa [List.append_nil]
  · intro hword
    exact ⟨input, (List.append_nil input).symm, hword⟩

theorem prefixFree (hx : Parses x g) : PrefixFree fun word => ∃ a, g word a := by
  rintro word more ⟨a, h⟩ ⟨b, h'⟩
  have hfront : x (word ++ more) = .ok (a, more) := (hx _ _ _).mpr ⟨word, rfl, h⟩
  cases hfront.symm.trans (hx.all.mpr h')
  rfl

end Parses

end Decoder

end Mt5Open.Lib

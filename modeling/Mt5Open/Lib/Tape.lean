import Mt5Open.Lib.Decoder

/-!
# Reading and writing a tape

`stands s past rest` says that a state stands between these symbols.  For a reader
the tape is there already; a writer stands before any symbols that are not written
yet.

`Spells x past word a` says that, behind `past`, the decoder goes over `word` and
answers `a`.  A word can depend on the symbols before it, as an alignment does.
A format is two decoders, one that writes and one that reads, with the same words.
-/

namespace Mt5Open.Lib

namespace Tape

variable {ε σ ι α β γ : Type} (stands : σ → List ι → List ι → Prop)

/-- Behind `past` the decoder goes over `word`. -/
def Spells (x : Decoder ε σ α) (past word : List ι) (a : α) : Prop :=
  ∀ s rest, stands s past (word ++ rest) → ∃ t, x s = .ok (a, t) ∧ stands t (past ++ word) rest

/-- The items of a list, each with what stands before its word. -/
def behind (word : List ι → γ → List ι) (past : List ι) : List γ → List (List ι × γ)
  | [] => []
  | c :: items => (past, c) :: behind word (past ++ word past c) items

/-- The words of the items in a row. -/
def spelling (word : List ι → γ → List ι) (past : List ι) (items : List γ) : List ι :=
  (behind word past items).flatMap fun p => word p.1 p.2

theorem spelling_cons (word : List ι → γ → List ι) (past : List ι) (c : γ) (items : List γ) :
    spelling word past (c :: items) =
      word past c ++ spelling word (past ++ word past c) items := rfl

/-- Words that do not depend on the symbols before them. -/
theorem spelling_const (word : γ → List ι) (past : List ι) (items : List γ) :
    spelling (fun _ c => word c) past items = items.flatMap word := by
  induction items generalizing past with
  | nil => rfl
  | cons c items ih => rw [spelling_cons, ih, List.flatMap_cons]

theorem map_behind_const (word : List ι → γ → List ι) (f : γ → β) (past : List ι)
    (items : List γ) : (behind word past items).map (fun p => f p.2) = items.map f := by
  induction items generalizing past with
  | nil => rfl
  | cons c items ih => rw [behind, List.map_cons, ih, List.map_cons]

namespace Spells

variable {stands} {x : Decoder ε σ α} {f : α → Decoder ε σ β} {past first second : List ι}
  {a : α} {b : β}

theorem pure (past : List ι) (a : α) : Spells stands (pure a : Decoder ε σ α) past [] a := by
  intro s rest hs
  exact ⟨s, rfl, by rwa [List.append_nil]⟩

theorem pure_of_eq {b : α} (past : List ι) (h : a = b) :
    Spells stands (Pure.pure a : Decoder ε σ α) past [] b := h ▸ pure past a

theorem bind (hx : Spells stands x past first a)
    (hf : Spells stands (f a) (past ++ first) second b) :
    Spells stands (x >>= f) past (first ++ second) b := by
  intro s rest hs
  rw [List.append_assoc] at hs
  obtain ⟨t, hx, ht⟩ := hx s (second ++ rest) hs
  obtain ⟨u, hf, hu⟩ := hf t rest ht
  exact ⟨u, (Decoder.bind_of_ok hx).trans hf, by rwa [← List.append_assoc]⟩

/-- The last part of a sequence goes over nothing. -/
theorem bind_nil (hx : Spells stands x past first a)
    (hf : Spells stands (f a) (past ++ first) [] b) : Spells stands (x >>= f) past first b := by
  have hbind := hx.bind hf
  rwa [List.append_nil] at hbind

/-- The first part of a sequence goes over nothing. -/
theorem nil_bind (hx : Spells stands x past [] a) (hf : Spells stands (f a) past second b) :
    Spells stands (x >>= f) past second b :=
  hx.bind (by rwa [List.append_nil])

theorem ofResult {r : Except ε α} (past : List ι) (h : r = .ok a) :
    Spells stands (Decoder.ofResult r) past [] a := by
  intro s rest hs
  rw [h]
  exact ⟨s, rfl, by rwa [List.append_nil]⟩

theorem map (hx : Spells stands x past first a) (g : α → β) :
    Spells stands (x >>= fun a => Pure.pure (g a)) past first (g a) :=
  hx.bind_nil (.pure (past ++ first) (g a))

/-- A value that is there when a condition holds, and a default otherwise. -/
theorem optional {c : Prop} [Decidable c] {value : Option α} {word : α → List ι} {default : α}
    (hthere : value.isSome ↔ c) (hx : ∀ v, value = some v → Spells stands x past (word v) v) :
    Spells stands (if c then x else Pure.pure default) past (value.elim [] word)
      (value.getD default) := by
  cases value with
  | none =>
    rw [if_neg fun hc => Bool.false_ne_true (hthere.mpr hc)]
    exact pure past default
  | some v =>
    rw [if_pos (hthere.mp rfl)]
    exact hx v rfl

/-- A sequence that starts by looking at its state. -/
theorem get {k : σ → Decoder ε σ α} {word : List ι}
    (h : ∀ s rest, stands s past (word ++ rest) → Spells stands (k s) past word a) :
    Spells stands (MonadState.get >>= k) past word a :=
  fun s rest hs => h s rest hs s rest hs

/-- One round for each item, each behind the words of those before it. -/
theorem each {g : γ → Decoder ε σ β} {word : List ι → γ → List ι} {result : List ι → γ → β}
    {items : List γ} (past : List ι)
    (h : ∀ past, ∀ c ∈ items, Spells stands (g c) past (word past c) (result past c)) :
    Spells stands (Decoder.each g items) past (spelling word past items)
      ((behind word past items).map fun p => result p.1 p.2) := by
  induction items generalizing past with
  | nil => exact pure past []
  | cons c items ih =>
    rw [spelling_cons]
    refine (h past c List.mem_cons_self).bind ?_
    exact (ih _ fun past d hd => h past d (List.mem_cons_of_mem _ hd)).map _

/-- As many rounds as there are items. -/
theorem times {word : List ι → γ → List ι} {result : List ι → γ → α} {items : List γ}
    (past : List ι) (h : ∀ past, ∀ c ∈ items, Spells stands x past (word past c) (result past c)) :
    Spells stands (Decoder.times x items.length) past (spelling word past items)
      ((behind word past items).map fun p => result p.1 p.2) := by
  induction items generalizing past with
  | nil => exact pure past []
  | cons c items ih =>
    rw [spelling_cons]
    refine (h past c List.mem_cons_self).bind ?_
    exact (ih _ fun past d hd => h past d (List.mem_cons_of_mem _ hd)).map _

/-- Words and answers that do not depend on the symbols before them. -/
theorem each_const {g : γ → Decoder ε σ β} {word : γ → List ι} {result : γ → β}
    {items : List γ} (past : List ι)
    (h : ∀ past, ∀ c ∈ items, Spells stands (g c) past (word c) (result c)) :
    Spells stands (Decoder.each g items) past (items.flatMap word) (items.map result) := by
  have heach : Spells stands (Decoder.each g items) past (spelling (fun _ => word) past items)
      ((behind (fun _ => word) past items).map fun p => result p.2) := each past h
  rwa [spelling_const, map_behind_const] at heach

theorem times_const {word : γ → List ι} {result : γ → α} {items : List γ} (past : List ι)
    (h : ∀ past, ∀ c ∈ items, Spells stands x past (word c) (result c)) :
    Spells stands (Decoder.times x items.length) past (items.flatMap word)
      (items.map result) := by
  have htimes : Spells stands (Decoder.times x items.length) past
      (spelling (fun _ => word) past items)
      ((behind (fun _ => word) past items).map fun p => result p.2) := times past h
  rwa [spelling_const, map_behind_const] at htimes

end Spells

end Tape

end Mt5Open.Lib

import Mathlib.Data.List.Nodup
import Mathlib.Order.Lattice

/-!
# Items by key

`Keyed key` holds at most one item for each key, in the order of the keys.  An
item that is inserted replaces the one with its key.

`mem_insertAll` says which items are there after a list of insertions: the last
one of each key.  `get?` is the item of a key, with an equation for each operation.
-/

namespace Mt5Open.Lib

/-- Items in the strict order of their keys. -/
structure Keyed {α κ : Type*} [LinearOrder κ] (key : α → κ) where
  items : List α
  sorted : items.Pairwise fun a b => key a < key b

namespace Keyed

variable {α κ : Type*} [LinearOrder κ] {key : α → κ}

/-- Put an item in front of the first one with a greater key. -/
def place (key : α → κ) (a : α) : List α → List α
  | [] => [a]
  | b :: items =>
    if key a < key b then a :: b :: items
    else if key a = key b then a :: items
    else b :: place key a items

theorem mem_place {a b : α} {items : List α} (h : items.Pairwise fun a b => key a < key b) :
    b ∈ place key a items ↔ b = a ∨ b ∈ items ∧ key b ≠ key a := by
  induction items with
  | nil => simp [place]
  | cons c items ih =>
    obtain ⟨hfirst, hrest⟩ := List.pairwise_cons.mp h
    rw [place]
    split
    · rename_i hlt
      have hne : ∀ d ∈ c :: items, key d ≠ key a := by
        intro d hd
        rcases List.mem_cons.mp hd with rfl | hd
        · exact ne_of_gt hlt
        · exact ne_of_gt (lt_trans hlt (hfirst d hd))
      rw [List.mem_cons]
      exact or_congr Iff.rfl ⟨fun hb => ⟨hb, hne b hb⟩, And.left⟩
    · split
      · rename_i heq
        have hne : ∀ d ∈ items, key d ≠ key a := by
          intro d hd
          rw [heq]
          exact ne_of_gt (hfirst d hd)
        rw [List.mem_cons]
        refine or_congr Iff.rfl ⟨fun hb => ⟨List.mem_cons_of_mem _ hb, hne b hb⟩, ?_⟩
        intro ⟨hb, hkey⟩
        rcases List.mem_cons.mp hb with rfl | hb
        · exact absurd heq.symm hkey
        · exact hb
      · rename_i hne
        rw [List.mem_cons, ih hrest, List.mem_cons]
        have hself : b = c → key b ≠ key a := fun hb => hb ▸ Ne.symm hne
        constructor
        · rintro (hb | hb | ⟨hb, hkey⟩)
          · exact .inr ⟨.inl hb, hself hb⟩
          · exact .inl hb
          · exact .inr ⟨.inr hb, hkey⟩
        · rintro (hb | ⟨hb | hb, hkey⟩)
          · exact .inr (.inl hb)
          · exact .inl hb
          · exact .inr (.inr ⟨hb, hkey⟩)

theorem sorted_place (a : α) {items : List α} (h : items.Pairwise fun a b => key a < key b) :
    (place key a items).Pairwise fun a b => key a < key b := by
  induction items with
  | nil => exact List.pairwise_singleton _ _
  | cons c items ih =>
    obtain ⟨hfirst, hrest⟩ := List.pairwise_cons.mp h
    rw [place]
    split
    · rename_i hlt
      refine List.pairwise_cons.mpr ⟨fun d hd => ?_, h⟩
      rcases List.mem_cons.mp hd with rfl | hd
      · exact hlt
      · exact lt_trans hlt (hfirst d hd)
    · split
      · rename_i heq
        exact List.pairwise_cons.mpr ⟨fun d hd => heq ▸ hfirst d hd, hrest⟩
      · rename_i hnot hne
        refine List.pairwise_cons.mpr ⟨fun d hd => ?_, ih hrest⟩
        rcases (mem_place hrest).mp hd with rfl | ⟨hd, -⟩
        · exact lt_of_le_of_ne (le_of_not_gt hnot) (Ne.symm hne)
        · exact hfirst d hd

/-- No items. -/
def empty (key : α → κ) : Keyed key := ⟨[], .nil⟩

/-- Insert an item in the place of the one with its key. -/
def insert (m : Keyed key) (a : α) : Keyed key := ⟨place key a m.items, sorted_place a m.sorted⟩

/-- Take the item of a key away. -/
def remove (m : Keyed key) (k : κ) : Keyed key :=
  ⟨m.items.filter fun a => key a ≠ k, m.sorted.filter _⟩

/-- The item of a key. -/
def get? (m : Keyed key) (k : κ) : Option α := m.items.find? fun a => key a = k

/-- Insert items one after the other. -/
def insertAll (m : Keyed key) (items : List α) : Keyed key := items.foldl insert m

theorem mem_insert {m : Keyed key} {a b : α} :
    b ∈ (m.insert a).items ↔ b = a ∨ b ∈ m.items ∧ key b ≠ key a := mem_place m.sorted

/-- What was there stays unless its key comes again, and of the new items the last
one of each key is there. -/
theorem mem_insertAll {m : Keyed key} {items : List α} {b : α} :
    b ∈ (m.insertAll items).items ↔
      (b ∈ m.items ∧ ∀ c ∈ items, key c ≠ key b) ∨
        ∃ front back, items = front ++ b :: back ∧ ∀ c ∈ back, key c ≠ key b := by
  induction items generalizing m with
  | nil => simp [insertAll]
  | cons a items ih =>
    rw [insertAll, List.foldl_cons, ← insertAll, ih, mem_insert]
    constructor
    · rintro (⟨rfl | ⟨hmem, hkey⟩, hrest⟩ | ⟨front, back, rfl, hback⟩)
      · exact .inr ⟨[], items, rfl, hrest⟩
      · refine .inl ⟨hmem, fun c hc => ?_⟩
        rcases List.mem_cons.mp hc with rfl | hc
        · exact Ne.symm hkey
        · exact hrest c hc
      · exact .inr ⟨a :: front, back, rfl, hback⟩
    · rintro (⟨hmem, hrest⟩ | ⟨front, back, hitems, hback⟩)
      · exact .inl ⟨.inr ⟨hmem, Ne.symm (hrest a List.mem_cons_self)⟩,
          fun c hc => hrest c (List.mem_cons_of_mem _ hc)⟩
      · cases front with
        | nil =>
          obtain ⟨rfl, rfl⟩ := List.cons.inj hitems
          exact .inl ⟨.inl rfl, hback⟩
        | cons c front =>
          obtain ⟨-, rfl⟩ := List.cons.inj hitems
          exact .inr ⟨front, back, rfl, hback⟩

/-- Of items in a row, the last one of each key is there. -/
theorem mem_empty_insertAll {items : List α} {b : α} :
    b ∈ ((empty key).insertAll items).items ↔
      ∃ front back, items = front ++ b :: back ∧ ∀ c ∈ back, key c ≠ key b := by
  rw [mem_insertAll]
  exact or_iff_right fun h => List.not_mem_nil h.1

/-! ## The item of a key -/

/-- No two items have the same key. -/
theorem eq_of_key_eq {m : Keyed key} {a b : α} (ha : a ∈ m.items) (hb : b ∈ m.items)
    (h : key a = key b) : a = b := by
  have hnodup : (m.items.map key).Nodup := List.pairwise_map.mpr (m.sorted.imp ne_of_lt)
  exact List.inj_on_of_nodup_map hnodup ha hb h

theorem get?_eq_some {m : Keyed key} {k : κ} {a : α} :
    m.get? k = some a ↔ a ∈ m.items ∧ key a = k := by
  unfold get?
  constructor
  · intro h
    have hkey := List.find?_some h
    exact ⟨List.mem_of_find?_eq_some h, of_decide_eq_true hkey⟩
  · rintro ⟨hmem, rfl⟩
    cases hfind : m.items.find? fun b => key b = key a with
    | none =>
      have hnone := List.find?_eq_none.mp hfind a hmem
      simp at hnone
    | some b =>
      have hb : b ∈ m.items := List.mem_of_find?_eq_some hfind
      have hfound := List.find?_some hfind
      have hkey : key b = key a := of_decide_eq_true hfound
      rw [eq_of_key_eq hb hmem hkey]

theorem mem_items {m : Keyed key} {a : α} : a ∈ m.items ↔ m.get? (key a) = some a := by
  rw [get?_eq_some]
  exact (and_iff_left rfl).symm

@[simp] theorem get?_empty (k : κ) : (empty key).get? k = none := rfl

theorem get?_insert (m : Keyed key) (a : α) :
    (m.insert a).get? = Function.update m.get? (key a) (some a) := by
  refine funext fun k => Option.ext fun b => ?_
  rw [get?_eq_some, mem_insert, Function.update_apply]
  split
  · rename_i hkey
    rw [Option.some.injEq]
    constructor
    · rintro ⟨rfl | ⟨-, hne⟩, hb⟩
      · rfl
      · exact absurd (hb.trans hkey) hne
    · rintro rfl
      exact ⟨.inl rfl, hkey.symm⟩
  · rename_i hkey
    rw [get?_eq_some]
    constructor
    · rintro ⟨rfl | ⟨hmem, -⟩, hb⟩
      · exact absurd hb.symm hkey
      · exact ⟨hmem, hb⟩
    · rintro ⟨hmem, hb⟩
      exact ⟨.inr ⟨hmem, fun h => hkey (hb.symm.trans h)⟩, hb⟩

theorem get?_remove (m : Keyed key) (removed : κ) :
    (m.remove removed).get? = Function.update m.get? removed none := by
  refine funext fun k => Option.ext fun b => ?_
  rw [get?_eq_some, remove, List.mem_filter, Function.update_apply]
  split
  · rename_i hkey
    simp only [decide_eq_true_eq, reduceCtorEq, iff_false]
    rintro ⟨⟨-, hne⟩, hb⟩
    exact hne (hb.trans hkey)
  · rename_i hkey
    rw [get?_eq_some]
    constructor
    · rintro ⟨⟨hmem, -⟩, hb⟩
      exact ⟨hmem, hb⟩
    · rintro ⟨hmem, hb⟩
      exact ⟨⟨hmem, decide_eq_true fun h => hkey (hb.symm.trans h)⟩, hb⟩

/-- Maps whose items correspond list them in one order. -/
theorem forall₂_items {R : α → α → Prop} (hR : ∀ a b, R a b → key a = key b) {m n : Keyed key}
    (hm : ∀ a ∈ m.items, ∃ b ∈ n.items, R a b) (hn : ∀ b ∈ n.items, ∃ a ∈ m.items, R a b) :
    List.Forall₂ R m.items n.items := by
  obtain ⟨items, hitems⟩ := m
  obtain ⟨others, hothers⟩ := n
  simp only at hm hn ⊢
  induction items generalizing others with
  | nil =>
    cases others with
    | nil => exact .nil
    | cons b others =>
      obtain ⟨a, ha, -⟩ := hn b List.mem_cons_self
      cases ha
  | cons a items ih =>
    obtain ⟨hfirst, hrest⟩ := List.pairwise_cons.mp hitems
    cases others with
    | nil =>
      obtain ⟨b, hb, -⟩ := hm a List.mem_cons_self
      cases hb
    | cons b others =>
      obtain ⟨hfirst', hrest'⟩ := List.pairwise_cons.mp hothers
      -- The heads correspond: each has the least key of its list.
      have hhead : R a b := by
        obtain ⟨c, hc, hac⟩ := hm a List.mem_cons_self
        obtain ⟨d, hd, hdb⟩ := hn b List.mem_cons_self
        rcases List.mem_cons.mp hc with rfl | hc
        · exact hac
        · rcases List.mem_cons.mp hd with rfl | hd
          · exact hdb
          · have hlt := hfirst d hd
            rw [hR d b hdb, hR a c hac] at hlt
            exact absurd (hfirst' c hc) (lt_asymm hlt)
      have hkey := hR a b hhead
      refine .cons hhead (ih hrest others hrest' ?_ ?_)
      · intro c hc
        obtain ⟨d, hd, hcd⟩ := hm c (List.mem_cons_of_mem _ hc)
        rcases List.mem_cons.mp hd with rfl | hd
        · exact absurd (hkey.trans (hR c d hcd).symm) (ne_of_lt (hfirst c hc))
        · exact ⟨d, hd, hcd⟩
      · intro d hd
        obtain ⟨c, hc, hcd⟩ := hn d (List.mem_cons_of_mem _ hd)
        rcases List.mem_cons.mp hc with rfl | hc
        · exact absurd ((hR c d hcd).symm.trans hkey) (ne_of_gt (hfirst' d hd))
        · exact ⟨c, hc, hcd⟩

end Keyed

end Mt5Open.Lib

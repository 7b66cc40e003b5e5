import Mathlib.Data.List.Induction
import Mathlib.Data.List.Perm.Basic
import Mt5Open.Lib.Decoder
import Mt5Open.Lib.Keyed

/-!
# Items in groups

A loop over a list that fails at an item, skips it or reads something from it: `gather`
is what it reads.  Where the loop also puts what it reads into a map, it is a fold over
that: `foldlM_gather`.

A `Grouping` puts what was read into a map of groups, and makes a group when its key comes
for the first time.  The group of a key depends on what has that key only: `get?_group`.
-/

namespace Mt5Open.Lib

section Gather

variable {ε α β σ κ : Type}

/-- What is read from the items.  The first item that cannot be read fails, and `none` is
skipped. -/
def gather (f : α → Except ε (Option β)) : List α → Except ε (List β)
  | [] => .ok []
  | a :: items => do
    let b ← f a
    let rest ← gather f items
    return b.toList ++ rest

variable {f : α → Except ε (Option β)} {items others : List α} {read : List β}

theorem gather_cons_eq_ok {a : α} :
    gather f (a :: items) = .ok read ↔
      ∃ b rest, f a = .ok b ∧ gather f items = .ok rest ∧ read = b.toList ++ rest := by
  rw [gather, except_bind_eq_ok]
  constructor
  · rintro ⟨b, hb, hrest⟩
    obtain ⟨rest, hrest, hread⟩ := except_bind_eq_ok.mp hrest
    exact ⟨b, rest, hb, hrest, (Except.ok.inj hread).symm⟩
  · rintro ⟨b, rest, hb, hrest, rfl⟩
    exact ⟨b, hb, except_bind_eq_ok.mpr ⟨rest, hrest, rfl⟩⟩

/-- What is read comes from one of the items. -/
theorem mem_gather (hread : gather f items = .ok read) {b : β} (hb : b ∈ read) :
    ∃ a ∈ items, f a = .ok (some b) := by
  induction items generalizing read with
  | nil =>
    cases hread
    cases hb
  | cons a items ih =>
    obtain ⟨first, rest, hfirst, hrest, rfl⟩ := gather_cons_eq_ok.mp hread
    rcases List.mem_append.mp hb with hb | hb
    · rw [Option.mem_toList] at hb
      exact ⟨a, List.mem_cons_self, hb ▸ hfirst⟩
    · obtain ⟨c, hc, hread⟩ := ih hrest hb
      exact ⟨c, List.mem_cons_of_mem a hc, hread⟩

/-- A loop that puts what it reads somewhere. -/
theorem foldlM_gather {push : σ → β → σ} {step : σ → α → Except ε σ}
    (hstep : ∀ s a, step s a = (f a).map fun b => b.toList.foldl push s) (items : List α) (s : σ) :
    items.foldlM step s = (gather f items).map fun read => read.foldl push s := by
  induction items generalizing s with
  | nil => rfl
  | cons a items ih =>
    rw [List.foldlM_cons, hstep, gather]
    cases f a with
    | error e => rfl
    | ok b =>
      show items.foldlM step (b.toList.foldl push s) = _
      rw [ih]
      show _ = (gather f items >>= fun rest => pure (b.toList ++ rest)).map _
      cases gather f items with
      | error e => rfl
      | ok rest => exact congrArg Except.ok List.foldl_append.symm

/-- The order of the items is the order of what is read. -/
theorem gather_perm (h : items.Perm others) (hread : gather f items = .ok read) :
    ∃ read', gather f others = .ok read' ∧ read.Perm read' := by
  induction h generalizing read with
  | nil => exact ⟨read, hread, .refl read⟩
  | cons a _ ih =>
    obtain ⟨b, rest, hb, hrest, rfl⟩ := gather_cons_eq_ok.mp hread
    obtain ⟨rest', hrest', hperm⟩ := ih hrest
    exact ⟨_, gather_cons_eq_ok.mpr ⟨b, rest', hb, hrest', rfl⟩, hperm.append_left _⟩
  | swap a b items =>
    obtain ⟨x, rest, hx, hrest, rfl⟩ := gather_cons_eq_ok.mp hread
    obtain ⟨y, last, hy, hlast, rfl⟩ := gather_cons_eq_ok.mp hrest
    refine ⟨_, gather_cons_eq_ok.mpr ⟨y, _, hy, gather_cons_eq_ok.mpr ⟨x, last, hx, hlast, rfl⟩,
      rfl⟩, ?_⟩
    rw [← List.append_assoc, ← List.append_assoc]
    exact List.perm_append_comm.append_right last
  | trans _ _ ih ih' =>
    obtain ⟨read', hread', hperm⟩ := ih hread
    obtain ⟨read'', hread'', hperm'⟩ := ih' hread'
    exact ⟨read'', hread'', hperm.trans hperm'⟩

/-- Items that are skipped may as well not be there. -/
theorem gather_filter {p : α → Bool} (h : ∀ a, p a = false → f a = .ok none) :
    gather f (items.filter p) = gather f items := by
  induction items with
  | nil => rfl
  | cons a items ih =>
    cases hp : p a with
    | true => rw [List.filter_cons_of_pos hp, gather, gather, ih]
    | false =>
      rw [List.filter_cons_of_neg (by simp [hp]), ih, gather, h a hp]
      cases gather f items with
      | error e => rfl
      | ok rest => rfl

/-- Items of one key give what is read under that key. -/
theorem gather_filter_key [DecidableEq κ] {key : α → κ} {keyOf : β → κ}
    (h : ∀ a b, f a = .ok (some b) → keyOf b = key a) (k : κ) (hread : gather f items = .ok read) :
    gather f (items.filter fun a => key a = k) = .ok (read.filter fun b => keyOf b = k) := by
  induction items generalizing read with
  | nil =>
    cases hread
    rfl
  | cons a items ih =>
    obtain ⟨b, rest, hb, hrest, rfl⟩ := gather_cons_eq_ok.mp hread
    rw [List.filter_append]
    by_cases hkey : key a = k
    · rw [List.filter_cons_of_pos (by simp [hkey])]
      refine gather_cons_eq_ok.mpr ⟨b, _, hb, ih hrest, ?_⟩
      cases b with
      | none => rfl
      | some b =>
        rw [Option.toList_some,
          List.filter_cons_of_pos (by simp [h a b hb, hkey])]
        rfl
    · rw [List.filter_cons_of_neg (by simp [hkey]), ih hrest]
      cases b with
      | none => rfl
      | some b =>
        rw [Option.toList_some, List.filter_cons_of_neg (by simp [h a b hb, hkey])]
        rfl

end Gather

/-- How items are put into groups. -/
structure Grouping (β κ γ : Type) where
  keyOf : β → κ
  key : γ → κ
  fresh : κ → γ
  add : γ → β → γ
  key_fresh : ∀ k, key (fresh k) = k
  key_add : ∀ group b, key (add group b) = key group

namespace Grouping

variable {β κ γ : Type} (g : Grouping β κ γ)

/-- The items of a key in a group of their own. -/
def collect (k : κ) (items : List β) : γ := items.foldl g.add (g.fresh k)

theorem key_collect (k : κ) (items : List β) : g.key (g.collect k items) = k := by
  rw [collect]
  induction items using List.reverseRecOn with
  | nil => exact g.key_fresh k
  | append_singleton items b ih => rw [List.foldl_append, List.foldl_cons, List.foldl_nil,
      g.key_add, ih]

variable [LinearOrder κ]

/-- `map.entry(key).or_default()`. -/
def entry (m : Keyed g.key) (k : κ) : γ := (m.get? k).getD (g.fresh k)

/-- Put an item into its group. -/
def push (m : Keyed g.key) (b : β) : Keyed g.key := m.insert (g.add (g.entry m (g.keyOf b)) b)

/-- The groups of the items. -/
def group (items : List β) : Keyed g.key := items.foldl g.push (.empty g.key)

theorem group_append (front back : List β) :
    g.group (front ++ back) = back.foldl g.push (g.group front) := List.foldl_append

theorem key_entry (m : Keyed g.key) (k : κ) : g.key (g.entry m k) = k := by
  rw [entry]
  cases hget : m.get? k with
  | none => exact g.key_fresh k
  | some group => exact (Keyed.get?_eq_some.mp hget).2

theorem get?_push (m : Keyed g.key) (b : β) (k : κ) :
    (g.push m b).get? k =
      if g.keyOf b = k then some (g.add (g.entry m (g.keyOf b)) b) else m.get? k := by
  rw [push, Keyed.get?_insert, Function.update_apply, g.key_add, g.key_entry]
  exact if_congr eq_comm rfl rfl

/-- The group of a key holds the items of that key, in order. -/
theorem get?_group (items : List β) (k : κ) :
    (g.group items).get? k =
      if (items.filter fun b => g.keyOf b = k) = [] then none
      else some (g.collect k (items.filter fun b => g.keyOf b = k)) := by
  induction items using List.reverseRecOn with
  | nil => rfl
  | append_singleton items b ih =>
    rw [group_append, List.foldl_cons, List.foldl_nil, get?_push, List.filter_append]
    by_cases hkey : g.keyOf b = k
    · rw [if_pos hkey, List.filter_cons_of_pos (by simp [hkey]), List.filter_nil,
        if_neg (by simp), collect, List.foldl_append, entry, hkey, ih]
      split
      · rename_i hnone
        rw [hnone]
        rfl
      · rfl
    · rw [if_neg hkey, List.filter_cons_of_neg (by simp [hkey]), List.filter_nil, List.append_nil]
      exact ih

/-- The groups of the items, whatever their order is. -/
theorem mem_group {items : List β} {group : γ} :
    group ∈ (g.group items).items ↔
      ∃ k, (items.filter fun b => g.keyOf b = k) ≠ [] ∧
        group = g.collect k (items.filter fun b => g.keyOf b = k) := by
  constructor
  · intro h
    have hget := Keyed.mem_items.mp h
    rw [get?_group] at hget
    split at hget
    · cases hget
    · rename_i hsome
      exact ⟨g.key group, hsome, (Option.some.inj hget).symm⟩
  · rintro ⟨k, hsome, rfl⟩
    have hget := g.get?_group items k
    rw [if_neg hsome] at hget
    exact (Keyed.get?_eq_some.mp hget).1

/-- Items in another order are in groups that correspond, and the groups are in one order. -/
theorem forall₂_group {R : γ → γ → Prop} {items others : List β} (h : items.Perm others)
    (hR : ∀ k front back, front.Perm back → R (g.collect k front) (g.collect k back)) :
    List.Forall₂ R (g.group items).items (g.group others).items := by
  have hside : ∀ {xs ys : List β}, xs.Perm ys → ∀ x ∈ (g.group xs).items,
      ∃ k, x = g.collect k (xs.filter fun b => g.keyOf b = k) ∧
        g.collect k (ys.filter fun b => g.keyOf b = k) ∈ (g.group ys).items := by
    intro xs ys hperm x hx
    obtain ⟨k, hsome, rfl⟩ := g.mem_group.mp hx
    refine ⟨k, rfl, g.mem_group.mpr ⟨k, ?_, rfl⟩⟩
    intro hnone
    have hfilter := hperm.filter fun b => g.keyOf b = k
    rw [hnone] at hfilter
    exact hsome hfilter.eq_nil
  refine (Keyed.forall₂_items (R := fun a b => g.key a = g.key b ∧ R a b) (fun _ _ => And.left)
    ?_ ?_).imp fun _ _ => And.right
  · intro x hx
    obtain ⟨k, rfl, hy⟩ := hside h x hx
    exact ⟨_, hy, by rw [key_collect, key_collect], hR k _ _ (h.filter _)⟩
  · intro y hy
    obtain ⟨k, rfl, hx⟩ := hside h.symm y hy
    exact ⟨_, hx, by rw [key_collect, key_collect], hR k _ _ (h.filter _)⟩

/-- Items of one key are in one group. -/
theorem group_filter (items : List β) (k : κ) :
    (g.group (items.filter fun b => g.keyOf b = k)).items =
      ((g.group items).get? k).toList := by
  have hmem : ∀ group, group ∈ (g.group (items.filter fun b => g.keyOf b = k)).items ↔
      (g.group items).get? k = some group := by
    intro group
    rw [mem_group, get?_group]
    constructor
    · rintro ⟨j, hsome, rfl⟩
      obtain ⟨b, hb⟩ := List.exists_mem_of_ne_nil _ hsome
      simp only [List.mem_filter, decide_eq_true_eq] at hb
      obtain ⟨⟨hb, hk⟩, hj⟩ := hb
      obtain rfl : j = k := hj.symm.trans hk
      simp only [List.filter_filter, Bool.and_self] at hsome ⊢
      rw [if_neg hsome]
    · intro h
      split at h
      · cases h
      · rename_i hsome
        refine ⟨k, ?_, ?_⟩
        · simpa only [List.filter_filter, Bool.and_self] using hsome
        · simpa only [List.filter_filter, Bool.and_self] using (Option.some.inj h).symm
  have hsorted := (g.group (items.filter fun b => g.keyOf b = k)).sorted
  generalize (g.group (items.filter fun b => g.keyOf b = k)).items = groups at hmem hsorted
  cases groups with
  | nil =>
    cases hget : (g.group items).get? k with
    | none => rfl
    | some group => cases (hmem group).mpr hget
  | cons first rest =>
    have hget := (hmem first).mp List.mem_cons_self
    have hrest : rest = [] := by
      rw [List.eq_nil_iff_forall_not_mem]
      intro other hother
      have hsame := (hmem other).mp (List.mem_cons_of_mem _ hother)
      have hlt := (List.pairwise_cons.mp hsorted).1 other hother
      rw [Option.some.inj (hget.symm.trans hsame)] at hlt
      exact lt_irrefl _ hlt
    rw [hget, hrest]
    rfl

end Grouping

end Mt5Open.Lib

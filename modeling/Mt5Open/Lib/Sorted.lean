import Mathlib.Data.List.Find
import Mathlib.Data.List.Induction
import Mathlib.Data.List.Sort
import Mt5Open.Lib.Keyed

/-!
# Stable sorting and versions

`sortByKey` is a stable sort.  `StablySorted` says what that is: the same items, in the
order of their keys, and those with the same key as they were.

`supersede` puts an item in the place of the one with its key, or behind the others.
`foldl_supersede` says what a list holds after items in a row: the last one of each key,
and the keys as they first came.  Sorted by key, these are the items of `Keyed`.
-/

namespace Mt5Open.Lib

/-! ## Stable sorting -/

section SortByKey

variable {α κ : Type*} [LinearOrder κ]

/-- `sort_by_key`. -/
def sortByKey (key : α → κ) (items : List α) : List α :=
  items.insertionSort fun a b => key a ≤ key b

/-- The items in the order of their keys, those with the same key as they were. -/
structure StablySorted (key : α → κ) (items sorted : List α) : Prop where
  perm : sorted.Perm items
  ordered : sorted.Pairwise fun a b => key a ≤ key b
  stable : ∀ k, sorted.filter (key · = k) = items.filter (key · = k)

variable (key : α → κ) (items : List α)

theorem sortByKey_perm : (sortByKey key items).Perm items := List.perm_insertionSort _ items

theorem sortByKey_ordered : (sortByKey key items).Pairwise fun a b => key a ≤ key b := by
  have : Std.Total fun a b => key a ≤ key b := ⟨fun a b => le_total (key a) (key b)⟩
  have : IsTrans α fun a b => key a ≤ key b := ⟨fun _ _ _ => le_trans⟩
  exact List.pairwise_insertionSort _ items

/-- The items of a key are a sublist, and there are as many of them as before. -/
theorem sortByKey_stable (k : κ) :
    (sortByKey key items).filter (key · = k) = items.filter (key · = k) := by
  have : Std.Total fun a b => key a ≤ key b := ⟨fun a b => le_total (key a) (key b)⟩
  have : IsTrans α fun a b => key a ≤ key b := ⟨fun _ _ _ => le_trans⟩
  have hequal : (items.filter (key · = k)).Pairwise fun a b => key a ≤ key b := by
    refine List.pairwise_of_forall_mem_list fun a ha b hb => ?_
    have hkeyA := of_decide_eq_true (List.mem_filter.mp ha).2
    have hkeyB := of_decide_eq_true (List.mem_filter.mp hb).2
    rw [hkeyA, hkeyB]
  have hsub : (items.filter (key · = k)).Sublist (sortByKey key items) :=
    List.sublist_insertionSort hequal List.filter_sublist
  have hfilter := hsub.filter (key · = k)
  rw [List.filter_filter] at hfilter
  simp only [Bool.and_self] at hfilter
  exact (hfilter.eq_of_length ((sortByKey_perm key items).filter _).length_eq.symm).symm

theorem sortByKey_stablySorted : StablySorted key items (sortByKey key items) :=
  ⟨sortByKey_perm key items, sortByKey_ordered key items, sortByKey_stable key items⟩

variable {key items}

end SortByKey

/-! ## Versions -/

section Versions

variable {α κ : Type*} [DecidableEq κ] {key : α → κ}

/-- Put an item in the place of the first one with its key, or behind the others. -/
def supersede (key : α → κ) (a : α) : List α → List α
  | [] => [a]
  | b :: items => if key b = key a then a :: items else b :: supersede key a items

/-- The last item of a key. -/
def lastOf (key : α → κ) (items : List α) (k : κ) : Option α := items.reverse.find? (key · = k)

/-- The last item of each key, in the order in which the keys first come. -/
def lastVersions (key : α → κ) (items : List α) : List α :=
  (items.map key).eraseDups.filterMap (lastOf key items)

theorem eraseDups_concat (keys : List κ) (k : κ) :
    (keys ++ [k]).eraseDups = if k ∈ keys then keys.eraseDups else keys.eraseDups ++ [k] := by
  rw [List.eraseDups_append]
  by_cases h : k ∈ keys
  · simp [List.removeAll, h]
  · simp [List.removeAll, h, List.eraseDups_cons]

theorem eraseDups_nodup (keys : List κ) : keys.eraseDups.Nodup := by
  induction keys using List.reverseRecOn with
  | nil => exact List.nodup_nil
  | append_singleton keys k ih =>
    rw [eraseDups_concat]
    by_cases h : k ∈ keys
    · rw [if_pos h]
      exact ih
    · rw [if_neg h]
      refine ih.append (List.nodup_singleton k) (List.disjoint_singleton.mpr fun hmem => ?_)
      exact h (List.mem_eraseDups.mp hmem)

theorem eraseDups_sublist (keys : List κ) : keys.eraseDups.Sublist keys := by
  induction keys using List.reverseRecOn with
  | nil => exact .slnil
  | append_singleton keys k ih =>
    rw [eraseDups_concat]
    by_cases h : k ∈ keys
    · rw [if_pos h]
      exact ih.trans (List.sublist_append_left keys [k])
    · rw [if_neg h]
      exact ih.append (.refl [k])

theorem lastOf_concat (items : List α) (a : α) (k : κ) :
    lastOf key (items ++ [a]) k = if key a = k then some a else lastOf key items k := by
  rw [lastOf, List.reverse_append, List.reverse_singleton, List.singleton_append, List.find?_cons]
  by_cases h : key a = k
  · simp [h]
  · simp [h, lastOf]

/-- The last item of a key has the key, and no item behind it does. -/
theorem lastOf_eq_some {items : List α} {k : κ} {a : α} :
    lastOf key items k = some a ↔
      key a = k ∧ ∃ front back, items = front ++ a :: back ∧ ∀ b ∈ back, key b ≠ k := by
  rw [lastOf, List.find?_eq_some_iff_append, decide_eq_true_iff]
  refine and_congr_right fun _ => ?_
  constructor
  · intro ⟨back, front, hitems, hback⟩
    refine ⟨front.reverse, back.reverse, ?_, ?_⟩
    · simpa using congrArg List.reverse hitems
    · intro b hb
      simpa using hback b (List.mem_reverse.mp hb)
  · intro ⟨front, back, hitems, hback⟩
    refine ⟨back.reverse, front.reverse, by simp [hitems], ?_⟩
    intro b hb
    simpa using hback b (List.mem_reverse.mp hb)

theorem mem_of_lastOf {items : List α} {k : κ} {a : α} (h : lastOf key items k = some a) :
    a ∈ items := List.mem_reverse.mp (List.mem_of_find?_eq_some h)

/-- Other items do not matter. -/
theorem lastOf_filter {items : List α} {k : κ} {p : α → Bool}
    (h : ∀ a ∈ items, key a = k → p a = true) :
    lastOf key (items.filter p) k = lastOf key items k := by
  rw [lastOf, lastOf, ← List.filter_reverse, List.find?_filter]
  refine List.find?_congr fun a ha => ?_
  by_cases hkey : key a = k
  · simp [hkey, h a (List.mem_reverse.mp ha) hkey]
  · simp [hkey]

/-- Every item has a last one of its key. -/
theorem exists_lastOf {items : List α} {k : κ} (h : k ∈ items.map key) :
    ∃ a, lastOf key items k = some a ∧ key a = k := by
  obtain ⟨b, hb, hkey⟩ := List.mem_map.mp h
  cases hlast : lastOf key items k with
  | none =>
    have hnone := List.find?_eq_none.mp hlast b (List.mem_reverse.mpr hb)
    simp [hkey] at hnone
  | some a => exact ⟨a, rfl, (lastOf_eq_some.mp hlast).1⟩

theorem mem_lastVersions {items : List α} {a : α} :
    a ∈ lastVersions key items ↔
      ∃ front back, items = front ++ a :: back ∧ ∀ b ∈ back, key b ≠ key a := by
  rw [lastVersions, List.mem_filterMap]
  constructor
  · intro ⟨k, _, hlast⟩
    obtain ⟨rfl, h⟩ := lastOf_eq_some.mp hlast
    exact h
  · intro ⟨front, back, hitems, hback⟩
    refine ⟨key a, ?_, lastOf_eq_some.mpr ⟨rfl, front, back, hitems, hback⟩⟩
    rw [List.mem_eraseDups, hitems]
    simp

theorem lastVersions_nodup (items : List α) : (lastVersions key items).Nodup := by
  refine (eraseDups_nodup _).filterMap fun k l a hk hl => ?_
  rw [← (lastOf_eq_some.mp hk).1, ← (lastOf_eq_some.mp hl).1]

/-- A new version takes the place of the one before, which `find` gives for its key. -/
theorem supersede_filterMap {find : κ → Option α} {a : α} {keys : List κ}
    (hkeys : keys.Nodup) (hfind : ∀ k ∈ keys, ∃ b, find k = some b ∧ key b = k) :
    supersede key a (keys.filterMap find) =
      if key a ∈ keys then keys.filterMap fun k => if key a = k then some a else find k
      else keys.filterMap find ++ [a] := by
  induction keys with
  | nil => rfl
  | cons k keys ih =>
    obtain ⟨hnew, hrest⟩ := List.nodup_cons.mp hkeys
    obtain ⟨⟨b, hb, hkey⟩, hfound⟩ := List.forall_mem_cons.mp hfind
    rw [List.filterMap_cons_some hb, supersede, hkey, List.filterMap_cons, ih hrest hfound]
    by_cases h : k = key a
    · have hsame : keys.filterMap (fun l => if key a = l then some a else find l) =
          keys.filterMap find := by
        refine List.filterMap_congr fun l hl => if_neg ?_
        intro heq
        exact hnew (h.trans heq ▸ hl)
      simp [h, hsame]
    · by_cases hmem : key a ∈ keys
      · simp [h, Ne.symm h, hmem, hb]
      · simp [h, Ne.symm h, hmem]

/-- One more item takes the place of the one with its key, or stands behind the others. -/
theorem lastVersions_concat (items : List α) (a : α) :
    lastVersions key (items ++ [a]) = supersede key a (lastVersions key items) := by
  have hfind : ∀ k ∈ (items.map key).eraseDups, ∃ b, lastOf key items k = some b ∧ key b = k :=
    fun k hk => exists_lastOf (List.mem_eraseDups.mp hk)
  have hlast : lastOf key (items ++ [a]) =
      fun k => if key a = k then some a else lastOf key items k := funext (lastOf_concat items a)
  rw [lastVersions, lastVersions, supersede_filterMap (eraseDups_nodup _) hfind, hlast,
    List.map_append, List.map_singleton, eraseDups_concat]
  by_cases hmem : key a ∈ items.map key
  · rw [if_pos hmem, if_pos (List.mem_eraseDups.mpr hmem)]
  · have hold : (items.map key).eraseDups.filterMap
          (fun k => if key a = k then some a else lastOf key items k) =
        (items.map key).eraseDups.filterMap (lastOf key items) := by
      refine List.filterMap_congr fun k hk => if_neg ?_
      rintro rfl
      exact hmem (List.mem_eraseDups.mp hk)
    rw [if_neg hmem, if_neg (fun h => hmem (List.mem_eraseDups.mp h)), List.filterMap_append, hold]
    simp

/-- What a list holds after items in a row. -/
theorem foldl_supersede (items : List α) :
    items.foldl (fun held a => supersede key a held) [] = lastVersions key items := by
  induction items using List.reverseRecOn with
  | nil => rfl
  | append_singleton items a ih => rw [List.foldl_append, ih, lastVersions_concat]; rfl

/-- More items on top of those that are held. -/
theorem foldl_supersede_lastVersions (items more : List α) :
    more.foldl (fun held a => supersede key a held) (lastVersions key items) =
      lastVersions key (items ++ more) := by
  rw [← foldl_supersede, ← foldl_supersede, List.foldl_append]

end Versions

section Sorted

variable {α κ : Type*} [LinearOrder κ] {key : α → κ}

/-- What is kept by key is the last item of each key. -/
theorem mem_insertAll_iff_lastOf {items : List α} {a : α} :
    a ∈ ((Keyed.empty key).insertAll items).items ↔ lastOf key items (key a) = some a := by
  rw [Keyed.mem_empty_insertAll, lastOf_eq_some]
  exact (and_iff_right rfl).symm

/-- The last versions in the order of their keys. -/
theorem sortByKey_lastVersions (items : List α) :
    sortByKey key (lastVersions key items) = ((Keyed.empty key).insertAll items).items := by
  have hkeyed := ((Keyed.empty key).insertAll items).sorted
  have hperm : (sortByKey key (lastVersions key items)).Perm
      ((Keyed.empty key).insertAll items).items := by
    refine (sortByKey_perm key _).trans
      ((List.perm_ext_iff_of_nodup (lastVersions_nodup items) ?_).mpr fun a => ?_)
    · exact hkeyed.imp fun h heq => absurd (congrArg key heq) (ne_of_lt h)
    · rw [mem_lastVersions, Keyed.mem_empty_insertAll]
  refine List.Perm.eq_of_pairwise ?_ (sortByKey_ordered key _) (hkeyed.imp le_of_lt) hperm
  intro a b ha hb hab hba
  exact Keyed.eq_of_key_eq (hperm.mem_iff.mp ha) hb (le_antisymm hab hba)

end Sorted

end Mt5Open.Lib

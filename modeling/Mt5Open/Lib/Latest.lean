import Mathlib.Data.List.Induction

/-!
# Carried values

A stream of items, some of which have a value.  `latest` is the last value of a list, which
is what a variable holds that each value replaces: `latest_concat` is one more item.
-/

namespace Mt5Open.Lib

variable {α β : Type*}

/-- The value of the last item that has one. -/
def latest (value : α → Option β) (items : List α) : Option β := items.reverse.findSome? value

@[simp] theorem latest_nil (value : α → Option β) : latest value [] = none := rfl

theorem latest_concat (value : α → Option β) (items : List α) (a : α) :
    latest value (items ++ [a]) = (value a).or (latest value items) := by
  rw [latest, List.reverse_append, List.reverse_singleton, List.singleton_append,
    List.findSome?_cons]
  cases value a <;> rfl

theorem exists_of_latest {value : α → Option β} {items : List α} {b : β}
    (h : latest value items = some b) : ∃ a ∈ items, value a = some b := by
  obtain ⟨a, ha, hb⟩ := List.exists_of_findSome?_eq_some h
  exact ⟨a, List.mem_reverse.mp ha, hb⟩

end Mt5Open.Lib

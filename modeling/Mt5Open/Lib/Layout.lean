import Mathlib.Algebra.BigOperators.Group.List.Basic
import Mathlib.Algebra.GroupWithZero.Nat

/-!
# Contiguous layouts

A record of fixed size is its fields one behind another.  `cut` takes a list apart at the
sizes of the fields, and `spans` are where they stand, each a start with a size.

* `flatten_cut` and `cut_flatten`: cutting and putting together take each other back.
* `pairwise_spans` and `exists_span`: the spans are disjoint, and they cover the record.
* `getElem?_flatten_set` is the frame rule: another chunk of the same size changes its own
  span and nothing else.
-/

namespace Mt5Open.Lib.Layout

variable {α : Type*}

/-- The chunks of these sizes. -/
def cut : List Nat → List α → List (List α)
  | [], _ => []
  | size :: sizes, l => l.take size :: cut sizes (l.drop size)

/-- The spans of these sizes from a start on, each with its start and its size. -/
def spans (start : Nat) : List Nat → List (Nat × Nat)
  | [] => []
  | size :: sizes => (start, size) :: spans (start + size) sizes

theorem flatten_cut {sizes : List Nat} {l : List α} (h : l.length = sizes.sum) :
    (cut sizes l).flatten = l := by
  induction sizes generalizing l with
  | nil => exact (List.length_eq_zero_iff.mp h).symm
  | cons size sizes ih =>
    rw [List.sum_cons] at h
    rw [cut, List.flatten_cons, ih (by rw [List.length_drop]; omega), List.take_append_drop]

theorem cut_flatten {chunks : List (List α)} {sizes : List Nat}
    (h : chunks.map List.length = sizes) : cut sizes chunks.flatten = chunks := by
  subst h
  induction chunks with
  | nil => rfl
  | cons chunk chunks ih =>
    rw [List.map_cons, cut, List.flatten_cons, List.take_left, List.drop_left, ih]

/-! ## Spans -/

theorem le_of_mem_spans {start : Nat} {sizes : List Nat} {span : Nat × Nat}
    (h : span ∈ spans start sizes) : start ≤ span.1 := by
  induction sizes generalizing start with
  | nil => cases h
  | cons size sizes ih =>
    cases h with
    | head => exact Nat.le_refl _
    | tail _ h => exact Nat.le_of_add_right_le (ih h)

theorem length_spans (start : Nat) (sizes : List Nat) :
    (spans start sizes).length = sizes.length := by
  induction sizes generalizing start with
  | nil => rfl
  | cons size sizes ih => rw [spans, List.length_cons, List.length_cons, ih]

theorem end_le_of_mem_spans {start : Nat} {sizes : List Nat} {span : Nat × Nat}
    (h : span ∈ spans start sizes) : span.1 + span.2 ≤ start + sizes.sum := by
  induction sizes generalizing start with
  | nil => cases h
  | cons size sizes ih =>
    rw [List.sum_cons]
    cases h with
    | head =>
      show start + size ≤ _
      omega
    | tail _ h =>
      have hle := ih h
      omega

/-- A span ends before the next ones begin. -/
theorem pairwise_spans (start : Nat) (sizes : List Nat) :
    (spans start sizes).Pairwise fun a b => a.1 + a.2 ≤ b.1 := by
  induction sizes generalizing start with
  | nil => exact .nil
  | cons size sizes ih => exact .cons (fun span h => le_of_mem_spans h) (ih _)

/-- Every position of the record is in a span. -/
theorem exists_span {start p : Nat} {sizes : List Nat} (hstart : start ≤ p)
    (hp : p < start + sizes.sum) :
    ∃ span ∈ spans start sizes, span.1 ≤ p ∧ p < span.1 + span.2 := by
  induction sizes generalizing start with
  | nil =>
    rw [List.sum_nil] at hp
    omega
  | cons size sizes ih =>
    rw [List.sum_cons] at hp
    by_cases h : p < start + size
    · exact ⟨(start, size), .head _, hstart, h⟩
    · have hrest : p < start + size + sizes.sum := by omega
      obtain ⟨span, hmem, hspan⟩ := ih (Nat.le_of_not_lt h) hrest
      exact ⟨span, .tail _ hmem, hspan⟩

theorem getElem?_spans {start i : Nat} {sizes : List Nat} (h : i < sizes.length) :
    (spans start sizes)[i]? = some (start + (sizes.take i).sum, sizes[i]) := by
  induction sizes generalizing start i with
  | nil => cases h
  | cons size sizes ih =>
    cases i with
    | zero => rfl
    | succ i =>
      rw [spans, List.getElem?_cons_succ, ih (Nat.lt_of_succ_lt_succ h), List.take_succ_cons,
        List.sum_cons, Nat.add_assoc]
      rfl

/-! ## One chunk -/

theorem flatten_split {chunks : List (List α)} {i : Nat} (h : i < chunks.length) :
    chunks.flatten =
      (chunks.take i).flatten ++ (chunks[i] ++ (chunks.drop (i + 1)).flatten) := by
  conv_lhs => rw [← List.take_append_drop i chunks, List.drop_eq_getElem_cons h]
  rw [List.flatten_append, List.flatten_cons]

/-- Another chunk of the same size changes nothing outside of its span. -/
theorem getElem?_flatten_set {chunks : List (List α)} {i : Nat} {chunk : List α}
    (h : i < chunks.length) (hsize : chunk.length = chunks[i].length) {p : Nat}
    (hp : ¬((chunks.take i).flatten.length ≤ p ∧
      p < (chunks.take i).flatten.length + chunk.length)) :
    (chunks.set i chunk).flatten[p]? = chunks.flatten[p]? := by
  have hnew : (chunks.set i chunk).flatten =
      (chunks.take i).flatten ++ (chunk ++ (chunks.drop (i + 1)).flatten) := by
    rw [List.set_eq_take_append_cons_drop, if_pos h, List.flatten_append, List.flatten_cons]
  rw [flatten_split h, hnew]
  by_cases hbefore : p < (chunks.take i).flatten.length
  · rw [List.getElem?_append_left hbefore, List.getElem?_append_left hbefore]
  · rw [List.getElem?_append_right (by omega), List.getElem?_append_right (by omega),
      List.getElem?_append_right (by omega), List.getElem?_append_right (by omega), hsize]

end Mt5Open.Lib.Layout

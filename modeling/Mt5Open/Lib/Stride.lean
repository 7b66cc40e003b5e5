import Mathlib.Data.List.Basic

/-!
# Records of one size

A table of records of one size, one behind the other.  `walk` takes a number of records from
the front of a list, as many as there are whole ones, and `chunksExact` takes all of them.

`walk_take` is the law of a walk: on records, something behind them and a cut anywhere, it
gives the records that are wholly present.  `chunks_append` is the law of the chunks of a
list whose length is a multiple of their size.
-/

namespace Mt5Open.Lib.Stride

variable {α : Type*}

/-- At most so many records of a size. -/
def walk (size : Nat) : (count : Nat) → List α → List (List α)
  | 0, _ => []
  | count + 1, l => if l.length < size then [] else l.take size :: walk size count (l.drop size)

/-- All whole records of a size. -/
def chunksExact (size : Nat) (l : List α) : List (List α) := walk size l.length l

theorem walk_of_length_lt {size : Nat} {l : List α} (h : l.length < size) (count : Nat) :
    walk size count l = [] := by
  cases count with
  | zero => rfl
  | succ count => exact if_pos h

theorem length_of_mem_walk {size count : Nat} {l record : List α} (h : record ∈ walk size count l) :
    record.length = size := by
  induction count generalizing l with
  | zero => cases h
  | succ count ih =>
    rw [walk] at h
    split at h
    · cases h
    · rcases List.mem_cons.mp h with h | h
      · rw [h, List.length_take]
        omega
      · exact ih h

/-- A walk of more rounds than there are records. -/
theorem walk_eq_walk {size : Nat} (hsize : 0 < size) {l : List α} {count more : Nat}
    (hcount : l.length ≤ count) (hmore : l.length ≤ more) :
    walk size count l = walk size more l := by
  induction count generalizing l more with
  | zero =>
    rw [walk_of_length_lt (by omega), walk_of_length_lt (by omega)]
  | succ count ih =>
    by_cases hshort : l.length < size
    · rw [walk_of_length_lt hshort, walk_of_length_lt hshort]
    · obtain ⟨more, rfl⟩ : ∃ m, more = m + 1 := ⟨more - 1, by omega⟩
      rw [walk, walk, if_neg hshort, if_neg hshort]
      congr 1
      apply ih
      · rw [List.length_drop]
        omega
      · rw [List.length_drop]
        omega

/-- The first records of all. -/
theorem take_chunksExact {size : Nat} (hsize : 0 < size) (count : Nat) (l : List α) :
    (chunksExact size l).take count = walk size count l := by
  unfold chunksExact
  induction count generalizing l with
  | zero => rfl
  | succ count ih =>
    by_cases hshort : l.length < size
    · rw [walk_of_length_lt hshort, walk_of_length_lt hshort]
      rfl
    · obtain ⟨n, hn⟩ : ∃ n, l.length = n + 1 := ⟨l.length - 1, by omega⟩
      have hrest : walk size n (l.drop size) = walk size (l.drop size).length (l.drop size) := by
        apply walk_eq_walk hsize
        · rw [List.length_drop]
          omega
        · exact Nat.le_refl _
      rw [hn, walk, walk, if_neg hshort, if_neg hshort, List.take_succ_cons, hrest, ih]

/-- The records of a table that a cut leaves whole. -/
theorem walk_take {size : Nat} (hsize : 0 < size) {records : List (List α)}
    (hrecords : ∀ record ∈ records, record.length = size) (rest : List α) (n : Nat) :
    walk size records.length ((records.flatten ++ rest).take n) = records.take (n / size) := by
  induction records generalizing n with
  | nil => rw [List.take_nil, List.length_nil, walk]
  | cons record records ih =>
    have hlength := hrecords record List.mem_cons_self
    rw [List.flatten_cons, List.append_assoc, List.length_cons]
    by_cases hcut : n < size
    · rw [walk_of_length_lt, Nat.div_eq_of_lt hcut, List.take_zero]
      rw [List.length_take]
      omega
    · obtain ⟨m, rfl⟩ : ∃ m, n = size + m := ⟨n - size, by omega⟩
      have hfirst : ((record ++ (records.flatten ++ rest)).take (size + m)).take size = record := by
        rw [List.take_take, Nat.min_eq_left (by omega), List.take_left' hlength]
      have hnext : ((record ++ (records.flatten ++ rest)).take (size + m)).drop size =
          (records.flatten ++ rest).take m := by
        rw [List.drop_take, List.drop_left' hlength, Nat.add_sub_cancel_left]
      have hwhole : ¬((record ++ (records.flatten ++ rest)).take (size + m)).length < size := by
        rw [List.length_take, List.length_append]
        omega
      rw [walk, if_neg hwhole, hfirst, hnext, Nat.add_div_left _ hsize, List.take_succ_cons,
        ih fun other hother => hrecords other (List.mem_cons_of_mem _ hother)]

/-! ## Chunks by their number -/

/-- The whole chunks of a list, each from its place. -/
def chunks (size : Nat) (l : List α) : List (List α) :=
  (List.range (l.length / size)).map fun i => (l.drop (size * i)).take size

theorem length_chunks (size : Nat) (l : List α) : (chunks size l).length = l.length / size := by
  rw [chunks, List.length_map, List.length_range]

theorem length_of_mem_chunks {size : Nat} {l chunk : List α} (h : chunk ∈ chunks size l) :
    chunk.length = size := by
  obtain ⟨i, hi, rfl⟩ := List.mem_map.mp h
  have hlt := List.mem_range.mp hi
  have hmul : size * (i + 1) ≤ size * (l.length / size) := Nat.mul_le_mul_left size hlt
  have hle : size * (l.length / size) ≤ l.length := Nat.mul_div_le l.length size
  rw [Nat.mul_add, Nat.mul_one] at hmul
  rw [List.length_take, List.length_drop]
  omega

/-- The chunks of two lists in a row, when the first one is a whole number of chunks. -/
theorem chunks_append {size : Nat} (hsize : 0 < size) {xs : List α} (hxs : size ∣ xs.length)
    (ys : List α) : chunks size (xs ++ ys) = chunks size xs ++ chunks size ys := by
  obtain ⟨n, hn⟩ := hxs
  have hcount : (xs ++ ys).length / size = n + ys.length / size := by
    rw [List.length_append, hn, Nat.mul_add_div hsize]
  rw [chunks, hcount, List.range_add, List.map_append, chunks, hn, Nat.mul_div_cancel_left n hsize,
    List.map_map]
  congr 1
  · refine List.map_congr_left fun i hi => ?_
    have hmul : size * (i + 1) ≤ size * n := Nat.mul_le_mul_left size (List.mem_range.mp hi)
    rw [Nat.mul_add, Nat.mul_one] at hmul
    rw [List.drop_append_of_le_length (by omega), List.take_append_of_le_length]
    rw [List.length_drop]
    omega
  · refine List.map_congr_left fun i _ => ?_
    show ((xs ++ ys).drop (size * (n + i))).take size = _
    rw [Nat.mul_add, ← hn, ← List.drop_drop, List.drop_left]

theorem chunks_eq_nil_iff {size : Nat} (hsize : 0 < size) {l : List α} :
    chunks size l = [] ↔ l.length < size := by
  rw [← List.length_eq_zero_iff, length_chunks, Nat.div_eq_zero_iff]
  omega

/-- The chunks of a whole number of chunks are the list. -/
theorem flatten_chunks {size : Nat} (hsize : 0 < size) {l : List α} (hl : size ∣ l.length) :
    (chunks size l).flatten = l := by
  obtain ⟨n, hn⟩ := hl
  induction n generalizing l with
  | zero =>
    obtain rfl := List.length_eq_zero_iff.mp hn
    rw [(chunks_eq_nil_iff hsize).mpr (by simpa using hsize)]
    rfl
  | succ n ih =>
    have hfirst : (l.take size).length = size := by
      rw [List.length_take, hn, Nat.mul_add, Nat.mul_one]
      omega
    have hrest : (l.drop size).length = size * n := by
      rw [List.length_drop, hn, Nat.mul_add, Nat.mul_one]
      omega
    have hone : chunks size (l.take size) = [l.take size] := by
      rw [chunks, hfirst, Nat.div_self hsize]
      show [((l.take size).drop (size * 0)).take size] = _
      rw [Nat.mul_zero, List.drop_zero, List.take_take, Nat.min_self]
    have hdvd : size ∣ (l.take size).length := ⟨1, by rw [hfirst, Nat.mul_one]⟩
    have happend := chunks_append hsize hdvd (l.drop size)
    rw [List.take_append_drop] at happend
    rw [happend, List.flatten_append, ih hrest, hone, List.flatten_singleton, List.take_append_drop]

end Mt5Open.Lib.Stride

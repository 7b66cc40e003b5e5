import Mathlib.Data.List.Basic

/-!
# Records of a sequence

A record is an element whose key is above every key before it and above the
number that the sequence starts with.  `records` are the records in order, and
`top` is what a later element has to beat.
-/

namespace Mt5Open.Lib.Records

variable {α : Type*} (key : α → Int)

/-- The records of a list that starts at `best`. -/
def records : Int → List α → List α
  | _, [] => []
  | best, a :: rest =>
    if best < key a then a :: records (key a) rest else records best rest

/-- The highest key so far. -/
def top : Int → List α → Int
  | best, [] => best
  | best, a :: rest => if best < key a then top (key a) rest else top best rest

theorem top_append (best : Int) (front back : List α) :
    top key best (front ++ back) = top key (top key best front) back := by
  induction front generalizing best with
  | nil => rfl
  | cons a front ih =>
    simp only [List.cons_append, top]
    by_cases h : best < key a
    · rw [if_pos h, if_pos h, ih]
    · rw [if_neg h, if_neg h, ih]

theorem records_append (best : Int) (front back : List α) :
    records key best (front ++ back) =
      records key best front ++ records key (top key best front) back := by
  induction front generalizing best with
  | nil => rfl
  | cons a front ih =>
    simp only [List.cons_append, records, top]
    by_cases h : best < key a
    · rw [if_pos h, if_pos h, if_pos h, ih, List.cons_append]
    · rw [if_neg h, if_neg h, if_neg h, ih]

variable {key}

theorem lt_of_mem_records {best : Int} {l : List α} {a : α} (h : a ∈ records key best l) :
    best < key a := by
  induction l generalizing best with
  | nil => cases h
  | cons b l ih =>
    rw [records] at h
    by_cases hb : best < key b
    · rw [if_pos hb] at h
      rcases List.mem_cons.mp h with rfl | h
      · exact hb
      · have := ih h
        omega
    · rw [if_neg hb] at h
      exact ih h

theorem mem_of_mem_records {best : Int} {l : List α} {a : α} (h : a ∈ records key best l) :
    a ∈ l := by
  induction l generalizing best with
  | nil => cases h
  | cons b l ih =>
    rw [records] at h
    by_cases hb : best < key b
    · rw [if_pos hb] at h
      rcases List.mem_cons.mp h with rfl | h
      · exact List.mem_cons_self
      · exact List.mem_cons_of_mem _ (ih h)
    · rw [if_neg hb] at h
      exact List.mem_cons_of_mem _ (ih h)

/-- The keys of the records go up. -/
theorem pairwise_records (best : Int) (l : List α) :
    (records key best l).Pairwise fun a b => key a < key b := by
  induction l generalizing best with
  | nil => exact .nil
  | cons b l ih =>
    rw [records]
    by_cases hb : best < key b
    · rw [if_pos hb]
      exact .cons (fun a ha => lt_of_mem_records ha) (ih _)
    · rw [if_neg hb]
      exact ih _

end Mt5Open.Lib.Records

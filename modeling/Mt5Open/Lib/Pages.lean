import Mathlib.Data.List.Infix

/-!
# Pages of a sorted list

A list whose keys go up is read backwards: a page ends before a key, and the next
one before the first key of the page.  Each page holds the last items of a window,
so a page can be short, and it is empty when the window is.

`pages_suffix` says that the pages leave nothing out between the first one and the
last, and `pages_stop` says where they end.
-/

namespace Mt5Open.Lib.Pages

variable {α : Type*} (key : α → Int)

/-- The last items of a list. -/
def lastOf (count : Nat) (items : List α) : List α := items.drop (items.length - count)

/-- The items before a key. -/
def before (stop : Int) (items : List α) : List α := items.filter fun a => key a < stop

/-- The items before a key, no further from it than `span`. -/
def window (span stop : Int) (items : List α) : List α :=
  items.filter fun a => stop - span ≤ key a ∧ key a < stop

/-- Pages one behind the other, the oldest first: at most this many, until a page
is empty. -/
def pages (page : Int → List α) : Nat → Int → List (List α)
  | 0, _ => []
  | n + 1, stop =>
    match page stop with
    | [] => []
    | a :: rest => pages page n (key a) ++ [a :: rest]

/-- The first key of what has been read. -/
def oldest (stop : Int) (read : List α) : Int := (read.head?.map key).getD stop

theorem lastOf_suffix (count : Nat) (items : List α) : lastOf count items <:+ items :=
  List.drop_suffix _ _

theorem lastOf_eq_nil {count : Nat} (hcount : 0 < count) {items : List α} :
    lastOf count items = [] ↔ items = [] := by
  rw [lastOf, List.drop_eq_nil_iff]
  constructor
  · intro h
    apply List.length_eq_zero_iff.mp
    omega
  · intro h
    simp [h]

variable {key} {items : List α}

/-- A list whose keys go up is cut in two by a key. -/
theorem before_append (hkeys : items.Pairwise fun a b => key a < key b) (stop : Int) :
    before key stop items ++ items.filter (fun a => stop ≤ key a) = items := by
  induction items with
  | nil => rfl
  | cons a items ih =>
    obtain ⟨hfirst, hrest⟩ := List.pairwise_cons.mp hkeys
    by_cases h : key a < stop
    · have hnot : ¬stop ≤ key a := by omega
      simp only [before, List.filter_cons, h, hnot, decide_true, decide_false]
      exact congrArg (a :: ·) (ih hrest)
    · have hle : stop ≤ key a := by omega
      have hnone : before key stop items = [] := by
        apply List.filter_eq_nil_iff.mpr
        intro b hb hlt
        have hkey := hfirst b hb
        have hstop := of_decide_eq_true hlt
        omega
      have hall : items.filter (fun a => stop ≤ key a) = items := by
        apply List.filter_eq_self.mpr
        intro b hb
        have hkey := hfirst b hb
        exact decide_eq_true (by omega)
      simp only [before, List.filter_cons, h, hle, decide_true, decide_false] at hnone ⊢
      rw [hall]
      simp [hnone]

theorem window_suffix (hkeys : items.Pairwise fun a b => key a < key b) {span : Int}
    (stop : Int) : window key span stop items <:+ before key stop items := by
  have hsorted : (before key stop items).Pairwise fun a b => key a < key b := hkeys.filter _
  refine ⟨before key (stop - span) (before key stop items), ?_⟩
  rw [← before_append hsorted (stop - span)]
  congr 1
  · rw [before_append hsorted]
  · simp only [window, before, List.filter_filter, Bool.decide_and]

/-- The items before the key of an item stand in front of it. -/
theorem before_of_split {front rest : List α} {a : α}
    (hkeys : (front ++ a :: rest).Pairwise fun a b => key a < key b) :
    before key (key a) (front ++ a :: rest) = front := by
  obtain ⟨-, hback, hcross⟩ := List.pairwise_append.mp hkeys
  rw [before, List.filter_append]
  have hfront : front.filter (fun b => key b < key a) = front := by
    apply List.filter_eq_self.mpr
    intro b hb
    exact decide_eq_true (hcross b hb a List.mem_cons_self)
  have hnone : (a :: rest).filter (fun b => key b < key a) = [] := by
    apply List.filter_eq_nil_iff.mpr
    intro b hb hlt
    have hkey := of_decide_eq_true hlt
    rcases List.mem_cons.mp hb with rfl | hb
    · omega
    · have := (List.pairwise_cons.mp hback).1 b hb
      omega
  rw [hfront, hnone, List.append_nil]

/-- The items before a key are not more among those that go further. -/
theorem before_filter {p : α → Bool} {stop : Int} (hp : ∀ a ∈ items, key a < stop → p a) :
    before key stop (items.filter p) = before key stop items := by
  simp only [before, List.filter_filter]
  apply List.filter_congr
  intro a ha
  by_cases h : key a < stop
  · simp [h, hp a ha h]
  · simp [h]

/-- The items before the first key of a suffix stand in front of it. -/
theorem before_of_suffix (hkeys : items.Pairwise fun a b => key a < key b) {stop : Int}
    {front rest : List α} {a : α} (hsplit : front ++ a :: rest = before key stop items) :
    before key (key a) items = front := by
  have hlt : key a < stop := by
    have hmem : a ∈ before key stop items := hsplit ▸ by simp
    exact of_decide_eq_true (List.mem_filter.mp hmem).2
  have hnested : before key (key a) (before key stop items) = before key (key a) items := by
    apply before_filter
    intro b _ hb
    exact decide_eq_true (by omega)
  rw [← hnested, ← hsplit]
  exact before_of_split (hsplit ▸ hkeys.filter _)

section Pages

variable {page : Int → List α}

/-- The pages are the last items before the key that they start from.  A page is
only asked for before that key and before the keys of items. -/
theorem pages_suffix (hkeys : items.Pairwise fun a b => key a < key b) {asked : Int → Prop}
    (hitems : ∀ a ∈ items, asked (key a))
    (hpage : ∀ stop, asked stop → page stop <:+ before key stop items) (n : Nat) {stop : Int}
    (hstop : asked stop) : (pages key page n stop).flatten <:+ before key stop items := by
  induction n generalizing stop with
  | zero => exact List.nil_suffix
  | succ n ih =>
    rw [pages]
    cases hread : page stop with
    | nil => exact List.nil_suffix
    | cons a rest =>
      obtain ⟨front, hsplit⟩ := hpage stop hstop
      rw [hread] at hsplit
      have hmem : a ∈ before key stop items := hsplit ▸ by simp
      have holder := ih (hitems a (List.mem_of_mem_filter hmem))
      rw [before_of_suffix hkeys hsplit] at holder
      show (pages key page n (key a) ++ [a :: rest]).flatten <:+ _
      rw [List.flatten_append, List.flatten_singleton, ← hsplit]
      exact List.suffix_append_self_iff.mpr holder

/-- There are as many pages as were asked for, or the page behind them is empty. -/
theorem pages_stop (n : Nat) (stop : Int) :
    (pages key page n stop).length = n ∨
      page (oldest key stop (pages key page n stop).flatten) = [] := by
  induction n generalizing stop with
  | zero => exact .inl rfl
  | succ n ih =>
    rw [pages]
    cases hread : page stop with
    | nil => exact .inr hread
    | cons a rest =>
      have holdest : oldest key stop (pages key page n (key a) ++ [a :: rest]).flatten =
          oldest key (key a) (pages key page n (key a)).flatten := by
        rw [oldest, oldest, List.flatten_append, List.head?_append]
        cases (pages key page n (key a)).flatten.head? <;> rfl
      show (pages key page n (key a) ++ [a :: rest]).length = n + 1 ∨
        page (oldest key stop (pages key page n (key a) ++ [a :: rest]).flatten) = []
      rw [holdest, List.length_append]
      rcases ih (key a) with hall | hnone
      · exact .inl (by rw [hall]; rfl)
      · exact .inr hnone

end Pages

end Mt5Open.Lib.Pages

import Mathlib.Data.List.AList
import Mathlib.Data.List.Induction

/-!
# Replicas of keyed records

A replica is a list of records with at most one record for each key.  It follows
a stream of records: a record takes the place of the one with its key, and a
record that does not stay only takes that one away.

`mem_replay` is the law of a replica: a record is in it exactly when it is the
last one of its key and stays.  `Indexes` is about a list that is found through
an index of its keys, and `indexes_upsert` about the records that it follows.
-/

namespace Mt5Open.Lib

namespace Replica

variable {α κ : Type*} [DecidableEq κ] (key : α → κ)

/-- The replica behind a record, which stays or does not. -/
def put (replica : List α) (record : α × Bool) : List α :=
  let rest := replica.filter fun a => key a ≠ key record.1
  if record.2 then rest ++ [record.1] else rest

/-- The replica behind a stream of records. -/
def replay (records : List (α × Bool)) (replica : List α) : List α :=
  records.foldl (put key) replica

/-- The last record of a key. -/
def last (records : List (α × Bool)) (k : κ) : Option (α × Bool) :=
  records.reverse.find? fun record => key record.1 = k

/-- The record is the last one of its key and stays, or it was in the replica
before and no record has its key. -/
def Holds (records : List (α × Bool)) (replica : List α) (a : α) : Prop :=
  match last key records (key a) with
  | none => a ∈ replica
  | some record => record.2 = true ∧ a = record.1

@[simp] theorem replay_nil (replica : List α) : replay key [] replica = replica := rfl

@[simp] theorem replay_cons (record : α × Bool) (records : List (α × Bool)) (replica : List α) :
    replay key (record :: records) replica = replay key records (put key replica record) := rfl

theorem replay_append (front back : List (α × Bool)) (replica : List α) :
    replay key (front ++ back) replica = replay key back (replay key front replica) :=
  List.foldl_append

variable {key}

theorem mem_put {replica : List α} {record : α × Bool} {a : α} :
    a ∈ put key replica record ↔
      (a ∈ replica ∧ key a ≠ key record.1) ∨ (record.2 = true ∧ a = record.1) := by
  unfold put
  by_cases hstays : record.2
  · rw [if_pos hstays]
    simp [hstays]
  · rw [if_neg hstays]
    simp [hstays]

/-- A replica keeps one record for each key. -/
theorem nodup_put {replica : List α} (record : α × Bool) (h : (replica.map key).Nodup) :
    ((put key replica record).map key).Nodup := by
  have hrest : ((replica.filter fun a => key a ≠ key record.1).map key).Nodup :=
    h.sublist (List.filter_sublist.map key)
  unfold put
  by_cases hstays : record.2
  · rw [if_pos hstays, List.map_append, List.nodup_append]
    refine ⟨hrest, List.nodup_singleton _, ?_⟩
    intro k hk l hl
    obtain ⟨a, ha, rfl⟩ := List.mem_map.mp hk
    rw [List.map_singleton, List.mem_singleton] at hl
    rw [hl]
    simpa using (List.mem_filter.mp ha).2
  · rw [if_neg hstays]
    exact hrest

theorem nodup_replay {replica : List α} (records : List (α × Bool))
    (h : (replica.map key).Nodup) : ((replay key records replica).map key).Nodup := by
  induction records generalizing replica with
  | nil => exact h
  | cons record records ih => exact ih (nodup_put record h)

theorem last_cons (record : α × Bool) (records : List (α × Bool)) (k : κ) :
    last key (record :: records) k =
      (last key records k).or (if key record.1 = k then some record else none) := by
  unfold last
  rw [List.reverse_cons, List.find?_append]
  by_cases hkey : key record.1 = k
  · simp [hkey]
  · simp [hkey]

/-- The law of a replica. -/
theorem mem_replay {records : List (α × Bool)} {replica : List α} {a : α} :
    a ∈ replay key records replica ↔ Holds key records replica a := by
  induction records generalizing replica with
  | nil => exact Iff.rfl
  | cons record records ih =>
    rw [replay_cons, ih, Holds, Holds, last_cons]
    cases hlast : last key records (key a) with
    | some other => exact Iff.rfl
    | none =>
      show a ∈ put key replica record ↔ _
      rw [mem_put, Option.none_or]
      by_cases hkey : key record.1 = key a
      · rw [if_pos hkey]
        constructor
        · rintro (⟨-, hne⟩ | hstays)
          · exact absurd hkey.symm hne
          · exact hstays
        · exact Or.inr
      · rw [if_neg hkey]
        constructor
        · rintro (⟨ha, -⟩ | ⟨-, rfl⟩)
          · exact ha
          · exact absurd rfl hkey
        · exact fun ha => Or.inl ⟨ha, fun heq => hkey heq.symm⟩

end Replica

namespace Index

variable {α κ : Type*} [DecidableEq κ] (key : α → κ)

/-- The index leads to items with the key that was looked up, and it has the key
of every item. -/
structure Indexes (items : List α) (index : AList fun _ : κ => Nat) : Prop where
  found : ∀ k i, index.lookup k = some i → ∃ a, items[i]? = some a ∧ key a = k
  covers : ∀ a ∈ items, key a ∈ index

/-- Put an item in the place of the one with its key, or behind the others. -/
def upsert (table : List α × AList fun _ : κ => Nat) (a : α) : List α × AList fun _ : κ => Nat :=
  match table.2.lookup (key a) with
  | some i => (table.1.set i a, table.2)
  | none => (table.1 ++ [a], table.2.insert (key a) table.1.length)

/-- The index of a list: later items win. -/
def collect (items : List α) : AList fun _ : κ => Nat :=
  items.zipIdx.foldl (fun index item => index.insert (key item.1) item.2) ∅

variable {key} {items : List α} {index : AList fun _ : κ => Nat}

theorem indexes_concat (h : Indexes key items index) (a : α) :
    Indexes key (items ++ [a]) (index.insert (key a) items.length) where
  found k i hi := by
    by_cases hk : k = key a
    · rw [hk, AList.lookup_insert] at hi
      cases hi
      exact ⟨a, by simp, hk.symm⟩
    · rw [AList.lookup_insert_ne hk] at hi
      obtain ⟨b, hb, hkey⟩ := h.found k i hi
      obtain ⟨hlt, -⟩ := List.getElem?_eq_some_iff.mp hb
      exact ⟨b, by rw [List.getElem?_append_left hlt, hb], hkey⟩
  covers b hb := by
    rw [AList.mem_insert]
    rcases List.mem_append.mp hb with hb | hb
    · exact Or.inr (h.covers b hb)
    · exact Or.inl (by rw [List.mem_singleton.mp hb])

theorem indexes_collect (items : List α) : Indexes key items (collect key items) := by
  induction items using List.reverseRecOn with
  | nil =>
    exact ⟨fun k i hi => (nomatch hi), fun a ha => (nomatch ha)⟩
  | append_singleton items a ih =>
    have hcollect : collect key (items ++ [a]) =
        (collect key items).insert (key a) items.length := by
      simp [collect, List.zipIdx_append]
    rw [hcollect]
    exact indexes_concat ih a

theorem indexes_set (h : Indexes key items index) {a : α} {i : Nat}
    (hi : index.lookup (key a) = some i) : Indexes key (items.set i a) index where
  found k j hj := by
    obtain ⟨b, hb, hkey⟩ := h.found k j hj
    obtain ⟨hlt, -⟩ := List.getElem?_eq_some_iff.mp hb
    by_cases hij : i = j
    · obtain ⟨c, hc, hsame⟩ := h.found _ i hi
      rw [hij, hb] at hc
      cases hc
      exact ⟨a, by rw [hij]; exact List.getElem?_set_self hlt, hsame.symm.trans hkey⟩
    · exact ⟨b, by rw [List.getElem?_set_ne hij, hb], hkey⟩
  covers b hb := by
    rcases List.mem_or_eq_of_mem_set hb with hb | rfl
    · exact h.covers b hb
    · exact AList.lookup_isSome.mp (by rw [hi]; rfl)

theorem indexes_upsert (h : Indexes key items index) (a : α) :
    Indexes key (upsert key (items, index) a).1 (upsert key (items, index) a).2 := by
  unfold upsert
  cases hlookup : index.lookup (key a) with
  | some i => exact indexes_set h hlookup
  | none => exact indexes_concat h a

theorem length_le_upsert (key : α → κ) (table : List α × AList fun _ : κ => Nat) (a : α) :
    table.1.length ≤ (upsert key table a).1.length := by
  unfold upsert
  cases table.2.lookup (key a) with
  | some i => exact Nat.le_of_eq List.length_set.symm
  | none =>
    show table.1.length ≤ (table.1 ++ [a]).length
    rw [List.length_append]
    exact Nat.le_add_right _ _

end Index

end Mt5Open.Lib

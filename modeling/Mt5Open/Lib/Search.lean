import Mathlib.Data.List.Induction
import Mt5Open.Lib.Loop

/-!
# Breadth-first search

A search goes through a graph whose moves are labelled.  Its queue holds ways, each a
node with the labels that lead to it, and a node is marked as visited when it is put
into the queue.  Ways with as many labels as the limit do not go on.

`Inv` is the invariant: the ways of the queue are shortest ones and stand in the order of
their lengths, and a visited node that has left the queue has only visited neighbours.
`Inv.visited_of_chain` is what it is for: nothing that is nearer than the head of the
queue has been missed.  `run_answers` says that the search finds a shortest chain within
the limit, or that there is none.
-/

namespace Mt5Open.Lib.Search

variable {ν ℓ : Type}

/-- Steps from a node to another one, with their labels. -/
inductive Chain (step : ν → ℓ → ν → Prop) : ν → List ℓ → ν → Prop
  | nil (u : ν) : Chain step u [] u
  | cons {u v w : ν} {label : ℓ} {labels : List ℓ} (hstep : step u label v)
      (hrest : Chain step v labels w) : Chain step u (label :: labels) w

namespace Chain

variable {step : ν → ℓ → ν → Prop} {u v w : ν} {labels : List ℓ} {label : ℓ}

theorem concat (h : Chain step u labels v) (hstep : step v label w) :
    Chain step u (labels ++ [label]) w := by
  induction h with
  | nil u => exact .cons hstep (.nil w)
  | cons hfirst _ ih => exact .cons hfirst (ih hstep)

/-- A chain that is not empty ends with a step. -/
theorem concat_inv (h : Chain step u (labels ++ [label]) w) :
    ∃ v, Chain step u labels v ∧ step v label w := by
  induction labels generalizing u with
  | nil =>
    cases h with
    | cons hstep hrest =>
      cases hrest
      exact ⟨u, .nil u, hstep⟩
  | cons first labels ih =>
    cases h with
    | cons hstep hrest =>
      obtain ⟨v, hv, hlast⟩ := ih hrest
      exact ⟨v, .cons hstep hv, hlast⟩

/-- A chain over steps that can be taken with other labels. -/
theorem relabel {κ : Type} {other : ν → κ → ν → Prop}
    (hother : ∀ u label v, step u label v → ∃ k, other u k v) (h : Chain step u labels v) :
    ∃ ks, Chain other u ks v ∧ ks.length = labels.length := by
  induction h with
  | nil u => exact ⟨[], .nil u, rfl⟩
  | cons hstep _ ih =>
    obtain ⟨k, hk⟩ := hother _ _ _ hstep
    obtain ⟨ks, hks, hlength⟩ := ih
    exact ⟨k :: ks, .cons hk hks, congrArg (· + 1) hlength⟩

end Chain

/-! ## The invariant -/

/-- A step of the graph. -/
def Step (moves : ν → List (ν × ℓ)) (u : ν) (label : ℓ) (v : ν) : Prop := (v, label) ∈ moves u

/-- A node that has left the queue without being the target: its neighbours are visited,
or it is as far away as the limit. -/
def Left (moves : ν → List (ν × ℓ)) (limit : Nat) (source target : ν) (visited : List ν) (u : ν) :
    Prop :=
  u ≠ target ∧ ((∀ labels, Chain (Step moves) source labels u → limit ≤ labels.length) ∨
    ∀ move ∈ moves u, move.1 ∈ visited)

/-- A way of the queue is a shortest chain. -/
structure Shortest (moves : ν → List (ν × ℓ)) (limit : Nat) (source : ν) (way : ν × List ℓ) :
    Prop where
  chain : Chain (Step moves) source way.2 way.1
  limit : way.2.length ≤ limit
  least : ∀ labels, Chain (Step moves) source labels way.1 → way.2.length ≤ labels.length

structure Inv (moves : ν → List (ν × ℓ)) (limit : Nat) (source target : ν)
    (s : List (ν × List ℓ) × List ν) : Prop where
  source_visited : source ∈ s.2
  shortest : ∀ way ∈ s.1, Shortest moves limit source way
  seen : ∀ u ∈ s.2, u ∈ s.1.map Prod.fst ∨ Left moves limit source target s.2 u
  sorted : s.1.Pairwise fun a b => a.2.length ≤ b.2.length ∧ b.2.length ≤ a.2.length + 1

variable {moves : ν → List (ν × ℓ)} {limit : Nat} {source target : ν}

theorem inv_init : Inv moves limit source target ([(source, [])], [source]) where
  source_visited := List.mem_cons_self
  shortest way hway := by
    rw [List.mem_singleton.mp hway]
    exact ⟨.nil source, Nat.zero_le _, fun _ _ => Nat.zero_le _⟩
  seen u hu := .inl hu
  sorted := List.pairwise_singleton _ _

/-- A node is visited when its chain is no longer than the limit and than the ways of the
queue. -/
theorem Inv.visited_of_chain {queue : List (ν × List ℓ)} {visited : List ν}
    (hinv : Inv moves limit source target (queue, visited)) {labels : List ℓ} {v : ν}
    (hchain : Chain (Step moves) source labels v) (hlimit : labels.length ≤ limit)
    (hqueue : ∀ way ∈ queue, labels.length ≤ way.2.length) : v ∈ visited := by
  induction labels using List.reverseRecOn generalizing v with
  | nil =>
    cases hchain
    exact hinv.source_visited
  | append_singleton labels label ih =>
    rw [List.length_append, List.length_singleton] at hlimit hqueue
    obtain ⟨u, hu, hstep⟩ := hchain.concat_inv
    have hvisited : u ∈ visited :=
      ih hu (by omega) fun way hway => Nat.le_of_succ_le (hqueue way hway)
    rcases hinv.seen u hvisited with hmem | ⟨-, hfar | hmoves⟩
    · -- a way to `u` would be shorter than all of the queue
      obtain ⟨way, hway, rfl⟩ := List.mem_map.mp hmem
      have hshort := (hinv.shortest way hway).least labels hu
      have hlong := hqueue way hway
      omega
    · have hlong := hfar labels hu
      omega
    · exact hmoves (v, label) hstep

/-- A way that leaves the queue and does not go on. -/
theorem Inv.drop {way : ν × List ℓ} {queue : List (ν × List ℓ)} {visited : List ν}
    (hinv : Inv moves limit source target (way :: queue, visited)) (hne : way.1 ≠ target)
    (hlimit : limit ≤ way.2.length) : Inv moves limit source target (queue, visited) where
  source_visited := hinv.source_visited
  shortest other hother := hinv.shortest other (List.mem_cons_of_mem _ hother)
  seen u hu := by
    rcases hinv.seen u hu with hmem | hleft
    · rcases List.mem_cons.mp hmem with rfl | hmem
      · refine .inr ⟨hne, .inl fun labels hlabels => ?_⟩
        exact Nat.le_trans hlimit ((hinv.shortest way List.mem_cons_self).least labels hlabels)
      · exact .inl hmem
    · exact .inr hleft
  sorted := hinv.sorted.of_cons

/-! ## The search -/

variable [DecidableEq ν]

/-- A way takes a move to a node that has not been visited. -/
def extend (way : ν × List ℓ) (found : List (ν × List ℓ) × List ν) (move : ν × ℓ) :
    List (ν × List ℓ) × List ν :=
  if move.1 ∈ found.2 then found
  else (found.1 ++ [(move.1, way.2 ++ [move.2])], move.1 :: found.2)

section Rounds

variable (moves : ν → List (ν × ℓ)) (limit : Nat) (target : ν)

/-- The ways that go on from a way, and the nodes visited. -/
def expand (way : ν × List ℓ) (visited : List ν) : List (ν × List ℓ) × List ν :=
  (moves way.1).foldl (extend way) ([], visited)

/-- One round, over the queue and the visited nodes. -/
def round : List (ν × List ℓ) × List ν → (List (ν × List ℓ) × List ν) ⊕ Option (List ℓ)
  | ([], _) => .inr none
  | (way :: queue, visited) =>
    if way.1 = target then .inr (some way.2)
    else if limit ≤ way.2.length then .inl (queue, visited)
    else .inl (queue ++ (expand moves way visited).1, (expand moves way visited).2)

end Rounds

/-- What an expansion adds. -/
structure Expands (moves : List (ν × ℓ)) (way : ν × List ℓ) (visited : List ν)
    (found : List (ν × List ℓ) × List ν) : Prop where
  visited_subset : ∀ v ∈ visited, v ∈ found.2
  visited_of_move : ∀ move ∈ moves, move.1 ∈ found.2
  way_of_visited : ∀ v ∈ found.2, v ∈ visited ∨ v ∈ found.1.map Prod.fst
  move_of_way : ∀ next ∈ found.1, next.1 ∉ visited ∧ next.1 ∈ found.2 ∧
    ∃ label, (next.1, label) ∈ moves ∧ next.2 = way.2 ++ [label]

theorem expands_extend {front : List (ν × ℓ)} {way : ν × List ℓ} {visited : List ν}
    {found : List (ν × List ℓ) × List ν} (h : Expands front way visited found) (move : ν × ℓ) :
    Expands (front ++ [move]) way visited (extend way found move) := by
  obtain ⟨hsubset, hmoves, hways, hnext⟩ := h
  have hmono : ∀ next ∈ found.1, ∃ label, (next.1, label) ∈ front ++ [move] ∧
      next.2 = way.2 ++ [label] := by
    intro next hmem
    obtain ⟨-, -, label, hlabel, heq⟩ := hnext next hmem
    exact ⟨label, List.mem_append_left _ hlabel, heq⟩
  unfold extend
  by_cases hvisited : move.1 ∈ found.2
  · rw [if_pos hvisited]
    refine ⟨hsubset, ?_, hways, fun next hmem => ⟨(hnext next hmem).1, (hnext next hmem).2.1,
      hmono next hmem⟩⟩
    intro m hm
    rcases List.mem_append.mp hm with hm | hm
    · exact hmoves m hm
    · rwa [List.mem_singleton.mp hm]
  · rw [if_neg hvisited]
    constructor
    · exact fun v hv => List.mem_cons_of_mem _ (hsubset v hv)
    · intro m hm
      rcases List.mem_append.mp hm with hm | hm
      · exact List.mem_cons_of_mem _ (hmoves m hm)
      · rw [List.mem_singleton.mp hm]
        exact List.mem_cons_self
    · intro v hv
      rw [List.map_append, List.mem_append]
      rcases List.mem_cons.mp hv with rfl | hv
      · exact .inr (.inr List.mem_cons_self)
      · exact (hways v hv).imp_right .inl
    · intro next hmem
      rcases List.mem_append.mp hmem with hmem | hmem
      · exact ⟨(hnext next hmem).1, List.mem_cons_of_mem _ (hnext next hmem).2.1, hmono next hmem⟩
      · rw [List.mem_singleton.mp hmem]
        exact ⟨fun h => hvisited (hsubset _ h), List.mem_cons_self, move.2, by simp, rfl⟩

theorem expands_expand (way : ν × List ℓ) (visited : List ν) :
    Expands (moves way.1) way visited (expand moves way visited) := by
  have hfold : ∀ (back front : List (ν × ℓ)) (found : List (ν × List ℓ) × List ν),
      Expands front way visited found →
      Expands (front ++ back) way visited (back.foldl (extend way) found) := by
    intro back
    induction back with
    | nil =>
      intro front found h
      rwa [List.append_nil]
    | cons move back ih =>
      intro front found h
      have hrest := ih _ _ (expands_extend h move)
      rwa [List.append_assoc] at hrest
  exact hfold (moves way.1) [] ([], visited) ⟨fun _ h => h, nofun, fun _ h => .inl h, nofun⟩

/-- A way that leaves the queue and goes on. -/
theorem Inv.expand {way : ν × List ℓ} {queue : List (ν × List ℓ)} {visited : List ν}
    (hinv : Inv moves limit source target (way :: queue, visited)) (hne : way.1 ≠ target)
    (hlimit : way.2.length < limit) :
    Inv moves limit source target
      (queue ++ (Search.expand moves way visited).1, (Search.expand moves way visited).2) := by
  have hexpand : Expands (moves way.1) way visited (Search.expand moves way visited) :=
    expands_expand way visited
  obtain ⟨hsubset, hmoves, hways, hnext⟩ := hexpand
  obtain ⟨hhead, hqueue⟩ := List.pairwise_cons.mp hinv.sorted
  have hlength : ∀ next ∈ (Search.expand moves way visited).1,
      next.2.length = way.2.length + 1 := by
    intro next hmem
    obtain ⟨-, -, label, -, heq⟩ := hnext next hmem
    rw [heq, List.length_append, List.length_singleton]
  constructor
  · exact hsubset _ hinv.source_visited
  · intro next hmem
    rcases List.mem_append.mp hmem with hmem | hmem
    · exact hinv.shortest next (List.mem_cons_of_mem _ hmem)
    · obtain ⟨hfresh, -, label, hstep, heq⟩ := hnext next hmem
      refine ⟨?_, ?_, fun labels hlabels => ?_⟩
      · rw [heq]
        exact (hinv.shortest way List.mem_cons_self).chain.concat hstep
      · rw [hlength next hmem]
        exact hlimit
      · rw [hlength next hmem]
        -- a shorter chain would have marked the node before
        by_contra hshort
        refine hfresh (hinv.visited_of_chain hlabels (by omega) fun other hother => ?_)
        rcases List.mem_cons.mp hother with rfl | hother
        · omega
        · have hle := (hhead other hother).1
          omega
  · intro u hu
    rw [List.map_append, List.mem_append]
    rcases hways u hu with hold | hnew
    · rcases hinv.seen u hold with hmem | ⟨htarget, hfar | hall⟩
      · rcases List.mem_cons.mp hmem with rfl | hmem
        · exact .inr ⟨hne, .inr hmoves⟩
        · exact .inl (.inl hmem)
      · exact .inr ⟨htarget, .inl hfar⟩
      · exact .inr ⟨htarget, .inr fun move hmove => hsubset _ (hall move hmove)⟩
    · exact .inl (.inr hnew)
  · rw [List.pairwise_append]
    refine ⟨hqueue, ?_, ?_⟩
    · refine List.pairwise_of_forall_mem_list fun a ha b hb => ?_
      rw [hlength a ha, hlength b hb]
      omega
    · intro a ha b hb
      obtain ⟨hle, hge⟩ := hhead a ha
      rw [hlength b hb]
      omega

/-! ## The answer -/

/-- The answer of a search: a shortest chain within the limit, or there is none. -/
def Answers (moves : ν → List (ν × ℓ)) (limit : Nat) (source target : ν) :
    Option (List ℓ) → Prop
  | some labels => Shortest moves limit source (target, labels)
  | none => ∀ labels, Chain (Step moves) source labels target → limit < labels.length

/-- A loop of these rounds answers the search. -/
theorem run_answers (l : Loop (List (ν × List ℓ) × List ν) (Option (List ℓ)))
    (hbody : ∀ s, l.body s = round moves limit target s) (source : ν) :
    Answers moves limit source target (l.run ([(source, [])], [source])) := by
  refine l.run_rule (P := fun s answer => Inv moves limit source target s →
    Answers moves limit source target answer) ?_ ?_ _ inv_init
  · rintro ⟨queue, visited⟩ answer h hinv
    rw [hbody] at h
    cases queue with
    | nil =>
      cases h
      intro labels hlabels
      by_contra hshort
      have hvisited := hinv.visited_of_chain hlabels (by omega) nofun
      rcases hinv.seen target hvisited with hmem | hleft
      · cases hmem
      · exact hleft.1 rfl
    | cons way queue =>
      simp only [round] at h
      split at h
      · rename_i htarget
        cases h
        exact htarget ▸ hinv.shortest way List.mem_cons_self
      · split at h
        · cases h
        · cases h
  · rintro ⟨queue, visited⟩ t answer h hanswer hinv
    rw [hbody] at h
    cases queue with
    | nil => cases h
    | cons way queue =>
      simp only [round] at h
      split at h
      · cases h
      · rename_i hne
        split at h
        · rename_i hlong
          cases h
          exact hanswer (hinv.drop hne hlong)
        · rename_i hshort
          cases h
          exact hanswer (hinv.expand hne (Nat.lt_of_not_le hshort))

end Mt5Open.Lib.Search

import Mt5Open.Lib.Run
import Mathlib.Data.Finset.Basic

/-!
# The subscriptions of the live connection

`Session` keeps one live connection with the names subscribed on it, and shares
both with its tick streams.  The lock of `Live` is held for a whole redial, but
`ensure_subscribed` and the tick stream let it go while they wait for
`subscribe`: they choose the names to ask for under the lock, ask on a client
that they cloned before, and record the names under the lock again.

A task is one running call of `snapshot`, `resubscribe` or `ticks`, and its
phase says which section of the code comes next.  The names that a task asks
for and the answers of the network are data of the labels.  `Connection.heard`
is what a connection was asked for with success, which the code does not keep.

`Follows` is the meaning of the comment on `Live::subscribed`.  `Guard` speaks
about the sections that record names, and `follows_iff` shows that a run keeps
`Follows` exactly when each of those sections meets it.
-/

namespace Mt5Open.Webterm.Live

open Lib.Run

/-! ## The step relation -/

/-- One connection that was dialled. -/
structure Connection where
  closed : Bool
  heard : List String

/-- Where `ensure_subscribed` and the tick stream go on once they are done. -/
inductive Return
  | caller
  | stream (generation current : Nat)
  deriving DecidableEq

/-- The section of the code that a task takes next.  A connection is named by
the generation that began with it. -/
inductive Phase
  | client (again : Bool)
  | age (c : Nat)
  | clear
  | load (c : Nat)
  | fresh (c : Nat) (names : List String) (ret : Return)
  | subscribe (c : Nat) (fresh : List String) (ret : Return)
  | extend (c : Nat) (fresh : List String) (ret : Return)
  | start
  | poll (generation : Nat)
  | done
  deriving DecidableEq

/-- Which call of `Session` a task runs. -/
inductive Kind
  | snapshot
  | resubscribe (symbols : List String)
  | ticks (symbols : List String)
  deriving DecidableEq

structure Task where
  kind : Kind
  phase : Phase
  deriving DecidableEq

/-- What a task does with the client that `Session::client` returned. -/
def Phase.afterClient (kind : Kind) (again : Bool) (c : Nat) : Phase :=
  match kind with
  | .snapshot => if again then .load c else .age c
  | .resubscribe symbols => .fresh c symbols .caller
  | .ticks symbols => .fresh c symbols .caller

/-- How an attempt to dial ends. -/
inductive Dial
  | connected
  | unavailable
  deriving DecidableEq

/-- `Live`, the connections it went through and the tasks that share it. -/
structure State where
  client : Option Nat
  /-- Incremented on every dial, so a stream can tell it must subscribe again. -/
  generation : Nat
  /-- Symbols subscribed on the current client. -/
  subscribed : Finset String
  connections : Nat → Connection
  tasks : List Task

/-- `Session::new`. -/
def State.init : State where
  client := none
  generation := 0
  subscribed := ∅
  connections := fun _ => { closed := false, heard := [] }
  tasks := []

/-- The atomic steps.  A number names a task, in `closes` a connection. -/
inductive Label
  | spawn (kind : Kind)
  | client (i : Nat) (dial : Dial)
  | age (i : Nat) (stale : Bool)
  | clear (i : Nat)
  | load (i : Nat) (streamed : Option (List String))
  | fresh (i : Nat)
  | subscribe (i : Nat) (ok : Bool)
  | extend (i : Nat)
  | start (i : Nat)
  | poll (i : Nat)
  | closes (c : Nat)
  deriving DecidableEq

namespace State

/-- Change one connection. -/
def modifyConnection (s : State) (c : Nat) (f : Connection → Connection) : State :=
  { s with connections := Function.update s.connections c (f (s.connections c)) }

/-- Task `i` goes on with another section. -/
def goto (s : State) (i : Nat) (phase : Phase) : State :=
  { s with tasks := s.tasks.modify i fun task => { task with phase } }

/-- `live.client = None` and `live.subscribed.clear()`. -/
def drop (s : State) : State := { s with client := none, subscribed := ∅ }

/-- The head of `Session::client`: a dead connection is dropped. -/
def dropClosed (s : State) : State :=
  if s.client.any fun c => (s.connections c).closed then s.drop else s

/-- `Session::client`, which holds the lock while it dials. -/
def callClient (s : State) (i : Nat) (kind : Kind) (again : Bool) (dial : Dial) : State :=
  let s := s.dropClosed
  match s.client with
  | some c => s.goto i (Phase.afterClient kind again c)
  | none =>
    match dial with
    | .unavailable => s.goto i .done
    | .connected =>
      let c := s.generation + 1
      { s with client := some c, generation := c }.goto i (Phase.afterClient kind again c)

/-- The names that are not in `live.subscribed`. -/
def freshNames (s : State) (names : List String) : List String :=
  names.filter fun name => name ∉ s.subscribed

/-- What `ensure_subscribed` and the stream do with the fresh names.  The stream
records an empty list too, since that ends its round. -/
def chooseFresh (s : State) (i : Nat) (c : Nat) (names : List String) (ret : Return) : State :=
  let fresh := s.freshNames names
  if fresh.isEmpty then
    match ret with
    | .caller => s.goto i .start
    | .stream _ _ => s.goto i (.extend c [] ret)
  else s.goto i (.subscribe c fresh ret)

/-- `c.subscribe(&fresh).await`. -/
def askSubscribe (s : State) (i : Nat) (c : Nat) (fresh : List String) (ret : Return) (ok : Bool) :
    State :=
  if ok then
    (s.modifyConnection c fun connection =>
      { connection with heard := connection.heard ++ fresh }).goto i (.extend c fresh ret)
  else
    match ret with
    | .caller => s.goto i .start
    | .stream generation _ => s.goto i (.poll generation)

/-- `live.subscribed.extend(fresh)`. -/
def extend (s : State) (i : Nat) (fresh : List String) (ret : Return) : State :=
  let s := { s with subscribed := s.subscribed ∪ fresh.toFinset }
  match ret with
  | .caller => s.goto i .start
  | .stream _ current => s.goto i (.poll current)

/-- What comes after `ensure_subscribed`: a tick stream reads the generation. -/
def start (s : State) (i : Nat) (kind : Kind) : State :=
  match kind with
  | .ticks _ => s.goto i (.poll s.generation)
  | _ => s.goto i .done

/-- One round of a tick stream: the client and the generation, under the lock. -/
def poll (s : State) (i : Nat) (kind : Kind) (generation : Nat) : State :=
  match s.client, kind with
  | some c, .ticks symbols =>
    if (s.connections c).closed || s.generation == generation then s
    else s.goto i (.fresh c symbols (.stream generation s.generation))
  | _, _ => s

end State

/-- One atomic step, when it is enabled. -/
def step (s : State) : Label → Option State
  | .spawn kind => some { s with tasks := s.tasks ++ [⟨kind, .client false⟩] }
  | .client i dial =>
    match s.tasks[i]? with
    | some ⟨kind, .client again⟩ => some (s.callClient i kind again dial)
    | _ => none
  | .age i stale =>
    match s.tasks[i]? with
    | some ⟨_, .age c⟩ => some (s.goto i (if stale then .clear else .load c))
    | _ => none
  | .clear i =>
    match s.tasks[i]? with
    | some ⟨_, .clear⟩ => some (s.drop.goto i (.client true))
    | _ => none
  | .load i streamed =>
    match s.tasks[i]? with
    | some ⟨_, .load c⟩ =>
      some (s.goto i (match streamed with
        | some names => .fresh c names .caller
        | none => .done))
    | _ => none
  | .fresh i =>
    match s.tasks[i]? with
    | some ⟨_, .fresh c names ret⟩ => some (s.chooseFresh i c names ret)
    | _ => none
  | .subscribe i ok =>
    match s.tasks[i]? with
    | some ⟨_, .subscribe c fresh ret⟩ => some (s.askSubscribe i c fresh ret ok)
    | _ => none
  | .extend i =>
    match s.tasks[i]? with
    | some ⟨_, .extend _ fresh ret⟩ => some (s.extend i fresh ret)
    | _ => none
  | .start i =>
    match s.tasks[i]? with
    | some ⟨kind, .start⟩ => some (s.start i kind)
    | _ => none
  | .poll i =>
    match s.tasks[i]? with
    | some ⟨kind, .poll generation⟩ => some (s.poll i kind generation)
    | _ => none
  | .closes c =>
    some (s.modifyConnection c fun connection => { connection with closed := true })

/-! ## The property and the guard -/

/-- Every name in `subscribed` was passed to a successful `subscribe` on the
connection that is stored now. -/
def Follows (s : State) : Prop :=
  ∀ name ∈ s.subscribed, ∃ c, s.client = some c ∧ name ∈ (s.connections c).heard

/-- A task that records names finds the connection that it asked on, or one that
has heard the same names from another task. -/
def Guard (s : State) : Label → Prop
  | .extend i =>
    match s.tasks[i]? with
    | some ⟨_, .extend c fresh _⟩ =>
      fresh = [] ∨ ∃ live ∈ s.client, live = c ∨ ∀ name ∈ fresh, name ∈ (s.connections live).heard
    | _ => True
  | _ => True

instance (s : State) (label : Label) : Decidable (Guard s label) := by
  cases label <;> dsimp only [Guard] <;> (try split) <;> infer_instance

/-! ## The invariant -/

/-- A task that is about to record names has asked for them with success. -/
def Inv (s : State) : Prop :=
  ∀ task ∈ s.tasks, ∀ c fresh ret, task.phase = .extend c fresh ret →
    ∀ name ∈ fresh, name ∈ (s.connections c).heard

theorem inv_init : Inv .init := by
  simp [Inv, State.init]

@[simp] theorem follows_goto {s : State} {i : Nat} {phase : Phase} :
    Follows (s.goto i phase) ↔ Follows s := Iff.rfl

/-- Moving a task on keeps the invariant, unless it is about to record names
that its connection has not heard. -/
theorem Inv.goto {s : State} (hinv : Inv s) (i : Nat) {phase : Phase}
    (hphase : ∀ c fresh ret, phase = .extend c fresh ret →
      ∀ name ∈ fresh, name ∈ (s.connections c).heard) :
    Inv (s.goto i phase) := by
  intro task htask c fresh ret hextend
  obtain ⟨k, hk⟩ := List.mem_iff_getElem?.mp htask
  rw [State.goto, List.getElem?_modify] at hk
  obtain ⟨old, hold, hk⟩ := Option.map_eq_some_iff.mp hk
  split at hk
  · subst hk
    exact hphase c fresh ret hextend
  · subst hk
    exact hinv old (List.mem_of_getElem? hold) c fresh ret hextend

/-- A change of one connection that forgets no name makes no connection forget one. -/
theorem mem_heard_modifyConnection {s : State} {c k : Nat} {f : Connection → Connection}
    {name : String} (hf : ∀ connection, ∀ name ∈ connection.heard, name ∈ (f connection).heard)
    (h : name ∈ (s.connections k).heard) :
    name ∈ ((s.modifyConnection c f).connections k).heard := by
  show name ∈ (Function.update s.connections c (f (s.connections c)) k).heard
  by_cases hkc : k = c
  · subst hkc
    rw [Function.update_self]
    exact hf _ name h
  · rw [Function.update_of_ne hkc]
    exact h

theorem Inv.modifyConnection {s : State} (hinv : Inv s) (c : Nat) {f : Connection → Connection}
    (hf : ∀ connection, ∀ name ∈ connection.heard, name ∈ (f connection).heard) :
    Inv (s.modifyConnection c f) := by
  intro task htask k fresh ret hextend name hname
  exact mem_heard_modifyConnection hf (hinv task htask k fresh ret hextend name hname)

theorem follows_modifyConnection {s : State} (h : Follows s) (c : Nat)
    {f : Connection → Connection}
    (hf : ∀ connection, ∀ name ∈ connection.heard, name ∈ (f connection).heard) :
    Follows (s.modifyConnection c f) := by
  intro name hname
  obtain ⟨live, hlive, hheard⟩ := h name hname
  exact ⟨live, hlive, mem_heard_modifyConnection hf hheard⟩

/-! ## One lemma for each section -/

theorem follows_drop (s : State) : Follows s.drop := by
  intro name hname
  exact absurd hname (Finset.notMem_empty name)

theorem Inv.dropClosed {s : State} (hinv : Inv s) : Inv s.dropClosed := by
  unfold State.dropClosed
  split
  · exact hinv
  · exact hinv

theorem follows_dropClosed {s : State} (h : Follows s) : Follows s.dropClosed := by
  unfold State.dropClosed
  split
  · exact follows_drop s
  · exact h

/-- `Session::client` returns the connection that `Live` holds, or a new one. -/
theorem Inv.callClient {s : State} (hinv : Inv s) (i : Nat) (kind : Kind) (again : Bool)
    (dial : Dial) : Inv (s.callClient i kind again dial) := by
  have hafter : ∀ c c' fresh ret, Phase.afterClient kind again c ≠ .extend c' fresh ret := by
    intro c c' fresh ret
    cases kind <;> simp [Phase.afterClient]
    split <;> simp
  have hdropped : Inv s.dropClosed := hinv.dropClosed
  unfold State.callClient
  generalize s.dropClosed = u at hdropped ⊢
  dsimp only
  split
  · exact hdropped.goto i fun c' fresh ret h => absurd h (hafter _ c' fresh ret)
  · cases dial with
    | unavailable => exact hdropped.goto i fun _ _ _ h => nomatch h
    | connected =>
      have hdialled : Inv { u with
          client := some (u.generation + 1), generation := u.generation + 1 } := hdropped
      exact hdialled.goto i fun c' fresh ret h => absurd h (hafter _ c' fresh ret)

theorem follows_callClient {s : State} (h : Follows s) (i : Nat) (kind : Kind) (again : Bool)
    (dial : Dial) : Follows (s.callClient i kind again dial) := by
  have hdropped : Follows s.dropClosed := follows_dropClosed h
  unfold State.callClient
  generalize s.dropClosed = u at hdropped ⊢
  dsimp only
  split
  · exact hdropped
  · rename_i hclient
    cases dial with
    | unavailable => exact hdropped
    | connected =>
      -- There was no connection, so nothing was subscribed on one.
      intro name hname
      obtain ⟨c, hc, -⟩ := hdropped name hname
      rw [hclient] at hc
      cases hc

theorem Inv.chooseFresh {s : State} (hinv : Inv s) (i c : Nat) (names : List String)
    (ret : Return) : Inv (s.chooseFresh i c names ret) := by
  unfold State.chooseFresh
  dsimp only
  split
  · cases ret with
    | caller => exact hinv.goto i fun _ _ _ h => nomatch h
    | stream generation current =>
      refine hinv.goto i ?_
      intro c' fresh ret h name hname
      cases h
      exact absurd hname List.not_mem_nil
  · exact hinv.goto i fun _ _ _ h => nomatch h

theorem follows_chooseFresh {s : State} (h : Follows s) (i c : Nat) (names : List String)
    (ret : Return) : Follows (s.chooseFresh i c names ret) := by
  unfold State.chooseFresh
  dsimp only
  split
  · cases ret <;> exact h
  · exact h

/-- A task that was answered records what its connection has heard. -/
theorem Inv.askSubscribe {s : State} (hinv : Inv s) (i c : Nat) (fresh : List String)
    (ret : Return) (ok : Bool) : Inv (s.askSubscribe i c fresh ret ok) := by
  unfold State.askSubscribe
  split
  · refine (hinv.modifyConnection c ?_).goto i ?_
    · intro connection name hname
      exact List.mem_append_left _ hname
    · intro c' fresh' ret' h name hname
      cases h
      show name ∈ (Function.update s.connections c _ c).heard
      rw [Function.update_self]
      exact List.mem_append_right _ hname
  · cases ret <;> exact hinv.goto i fun _ _ _ h => nomatch h

theorem follows_askSubscribe {s : State} (h : Follows s) (i c : Nat) (fresh : List String)
    (ret : Return) (ok : Bool) : Follows (s.askSubscribe i c fresh ret ok) := by
  unfold State.askSubscribe
  split
  · rw [follows_goto]
    refine follows_modifyConnection h c ?_
    intro connection name hname
    exact List.mem_append_left _ hname
  · cases ret <;> exact h

theorem Inv.extend {s : State} (hinv : Inv s) (i : Nat) (fresh : List String) (ret : Return) :
    Inv (s.extend i fresh ret) := by
  unfold State.extend
  have hrecorded : Inv { s with subscribed := s.subscribed ∪ fresh.toFinset } := hinv
  cases ret <;> exact hrecorded.goto i fun _ _ _ h => nomatch h

/-- Recording names keeps `Follows` exactly when the stored connection has heard them. -/
theorem follows_extend {s : State} (h : Follows s) (i : Nat) (fresh : List String) (ret : Return) :
    Follows (s.extend i fresh ret) ↔
      ∀ name ∈ fresh, ∃ c, s.client = some c ∧ name ∈ (s.connections c).heard := by
  have hextend : Follows (s.extend i fresh ret) ↔ ∀ name ∈ s.subscribed ∪ fresh.toFinset,
      ∃ c, s.client = some c ∧ name ∈ (s.connections c).heard := by
    unfold State.extend
    cases ret <;> rfl
  rw [hextend]
  simp only [Finset.mem_union, List.mem_toFinset]
  constructor
  · intro hall name hname
    exact hall name (Or.inr hname)
  · rintro hfresh name (hname | hname)
    · exact h name hname
    · exact hfresh name hname

theorem Inv.start {s : State} (hinv : Inv s) (i : Nat) (kind : Kind) : Inv (s.start i kind) := by
  unfold State.start
  cases kind <;> exact hinv.goto i fun _ _ _ h => nomatch h

theorem follows_start {s : State} (h : Follows s) (i : Nat) (kind : Kind) :
    Follows (s.start i kind) := by
  unfold State.start
  cases kind <;> exact h

theorem Inv.poll {s : State} (hinv : Inv s) (i : Nat) (kind : Kind) (generation : Nat) :
    Inv (s.poll i kind generation) := by
  unfold State.poll
  split
  · split
    · exact hinv
    · exact hinv.goto i fun _ _ _ h => nomatch h
  · exact hinv

theorem follows_poll {s : State} (h : Follows s) (i : Nat) (kind : Kind) (generation : Nat) :
    Follows (s.poll i kind generation) := by
  unfold State.poll
  split
  · split <;> exact h
  · exact h

/-! ## Runs -/

/-- What the guard of a recording section says, once the task has been answered. -/
theorem guard_extend_iff {s : State} {i c : Nat} {kind : Kind} {fresh : List String} {ret : Return}
    (hinv : Inv s) (htask : s.tasks[i]? = some ⟨kind, .extend c fresh ret⟩) :
    Guard s (.extend i) ↔
      ∀ name ∈ fresh, ∃ live, s.client = some live ∧ name ∈ (s.connections live).heard := by
  have hasked : ∀ name ∈ fresh, name ∈ (s.connections c).heard :=
    hinv _ (List.mem_of_getElem? htask) c fresh ret rfl
  simp only [Guard, htask]
  constructor
  · rintro (rfl | ⟨live, hlive, rfl | hheard⟩) name hname
    · exact absurd hname List.not_mem_nil
    · exact ⟨live, hlive, hasked name hname⟩
    · exact ⟨live, hlive, hheard name hname⟩
  · intro hheard
    cases fresh with
    | nil => exact Or.inl rfl
    | cons first rest =>
      obtain ⟨live, hlive, -⟩ := hheard first List.mem_cons_self
      refine Or.inr ⟨live, hlive, Or.inr ?_⟩
      intro name hname
      obtain ⟨other, hother, hname⟩ := hheard name hname
      cases Option.some.inj (hlive.symm.trans hother)
      exact hname

/-- Every section keeps the invariant, and it keeps `Follows` exactly when it
meets the guard. -/
theorem step_spec {s t : State} {label : Label} (hinv : Inv s) (hstep : step s label = some t) :
    Inv t ∧ (Follows s → (Follows t ↔ Guard s label)) := by
  cases label with
  | spawn kind =>
    obtain rfl := Option.some.inj hstep
    refine ⟨?_, fun h => iff_of_true h trivial⟩
    intro task htask c fresh ret hextend
    rcases List.mem_append.mp htask with htask | htask
    · exact hinv task htask c fresh ret hextend
    · rw [List.mem_singleton.mp htask] at hextend
      cases hextend
  | closes c =>
    obtain rfl := Option.some.inj hstep
    exact ⟨hinv.modifyConnection c fun _ _ h => h,
      fun h => iff_of_true (follows_modifyConnection h c fun _ _ h => h) trivial⟩
  | client i dial =>
    simp only [step] at hstep
    split at hstep
    · obtain rfl := Option.some.inj hstep
      exact ⟨hinv.callClient i _ _ dial,
        fun h => iff_of_true (follows_callClient h i _ _ dial) trivial⟩
    · cases hstep
  | age i stale =>
    simp only [step] at hstep
    split at hstep
    · obtain rfl := Option.some.inj hstep
      refine ⟨hinv.goto i ?_, fun h => iff_of_true h trivial⟩
      cases stale <;> exact fun _ _ _ h => nomatch h
    · cases hstep
  | clear i =>
    simp only [step] at hstep
    split at hstep
    · obtain rfl := Option.some.inj hstep
      have hdropped : Inv s.drop := hinv
      refine ⟨hdropped.goto i ?_, fun _ => iff_of_true (follows_drop s) trivial⟩
      exact fun _ _ _ h => nomatch h
    · cases hstep
  | load i streamed =>
    simp only [step] at hstep
    split at hstep
    · obtain rfl := Option.some.inj hstep
      refine ⟨hinv.goto i ?_, fun h => iff_of_true h trivial⟩
      cases streamed <;> exact fun _ _ _ h => nomatch h
    · cases hstep
  | fresh i =>
    simp only [step] at hstep
    split at hstep
    · obtain rfl := Option.some.inj hstep
      exact ⟨hinv.chooseFresh i _ _ _,
        fun h => iff_of_true (follows_chooseFresh h i _ _ _) trivial⟩
    · cases hstep
  | subscribe i ok =>
    simp only [step] at hstep
    split at hstep
    · obtain rfl := Option.some.inj hstep
      exact ⟨hinv.askSubscribe i _ _ _ ok,
        fun h => iff_of_true (follows_askSubscribe h i _ _ _ ok) trivial⟩
    · cases hstep
  | extend i =>
    simp only [step] at hstep
    split at hstep
    · rename_i htask
      obtain rfl := Option.some.inj hstep
      refine ⟨hinv.extend i _ _, fun h => ?_⟩
      rw [follows_extend h, guard_extend_iff hinv htask]
    · cases hstep
  | start i =>
    simp only [step] at hstep
    split at hstep
    · obtain rfl := Option.some.inj hstep
      exact ⟨hinv.start i _, fun h => iff_of_true (follows_start h i _) trivial⟩
    · cases hstep
  | poll i =>
    simp only [step] at hstep
    split at hstep
    · obtain rfl := Option.some.inj hstep
      exact ⟨hinv.poll i _ _, fun h => iff_of_true (follows_poll h i _ _) trivial⟩
    · cases hstep

/-- The names in `subscribed` follow the stored connection throughout a run,
exactly when every section that records names still finds the connection that
it asked on, or one that has heard the same names. -/
theorem follows_iff {labels : List Label} {s : State} (hrun : exec step .init labels = some s) :
    Throughout step Follows .init labels ↔ StepsMeet step Guard .init labels := by
  have hinit : Follows .init := by
    intro name hname
    exact absurd hname (Finset.notMem_empty name)
  exact stepsMeet_iff (fun _ _ _ hinv hstep => (step_spec hinv hstep).1)
    (fun _ _ _ hinv h hstep => (step_spec hinv hstep).2 h) inv_init hinit hrun

/-- A tick stream that follows the session across a redial. -/
theorem follows_iff_run :
    Throughout step Follows .init
      [.spawn (.ticks ["EURUSD"]), .client 0 .connected, .fresh 0, .subscribe 0 true, .extend 0,
        .start 0, .closes 1, .spawn (.resubscribe ["XAUUSD"]), .client 1 .connected, .poll 0,
        .fresh 0, .subscribe 0 true, .extend 0] := by
  obtain ⟨s, hrun⟩ := Option.isSome_iff_exists.mp (by decide : Option.isSome (exec step .init
    [.spawn (.ticks ["EURUSD"]), .client 0 .connected, .fresh 0, .subscribe 0 true, .extend 0,
      .start 0, .closes 1, .spawn (.resubscribe ["XAUUSD"]), .client 1 .connected, .poll 0,
      .fresh 0, .subscribe 0 true, .extend 0]))
  exact (follows_iff hrun).mpr (by decide)

/-- A stale session is replaced while a host waits for its subscription on the
old connection, and the name is recorded on the new one. -/
theorem not_follows_run :
    ¬ ∀ labels s, exec step .init labels = some s → Follows s := by
  intro h
  have hrun : (exec step .init
      [.spawn (.resubscribe ["EURUSD"]), .client 0 .connected, .fresh 0, .subscribe 0 true,
        .spawn .snapshot, .client 1 .connected, .age 1 true, .clear 1, .client 1 .connected,
        .extend 0]).map (fun s => (s.client, s.subscribed, (s.connections 2).heard)) =
      some (some 2, {"EURUSD"}, []) := by decide
  obtain ⟨s, hrun, hstate⟩ := Option.map_eq_some_iff.mp hrun
  simp only [Prod.mk.injEq] at hstate
  obtain ⟨hclient, hsubscribed, hheard⟩ := hstate
  have hmem : "EURUSD" ∈ s.subscribed := by
    rw [hsubscribed]
    exact Finset.mem_singleton_self _
  obtain ⟨c, hc, hname⟩ := h _ s hrun "EURUSD" hmem
  rw [hclient] at hc
  cases hc
  rw [hheard] at hname
  exact absurd hname List.not_mem_nil

end Mt5Open.Webterm.Live

import Mathlib.Data.Finset.Basic
import Mt5Open.Lib.Records
import Mt5Open.Lib.Run
import Mt5Open.Webterm.Quotes

/-!
# The tick stream

`Session::ticks` returns a stream that polls the quote cache of the live
connection and emits a quote when its time is above every time of its symbol
before it.  The stream lets go of every lock between its sections, so readers
fill the caches, other calls dial, drop and subscribe, and connections close
between any two of them.

The stream keeps the connection that a round began with, even when the session
has dialled another one meanwhile.  `read` are the quotes that the stream has
looked at, which the code does not keep: `ticks_records` says that what it emits
of a symbol are the records of what it has looked at.
-/

namespace Mt5Open.Webterm.TickStream

open Lib Lib.Run Lib.Records Parse

/-! ## The step relation -/

/-- One connection that was dialled, with its quote cache. -/
structure Connection where
  closed : Bool
  cache : Quotes.Cache

/-- The section of the stream that comes next. -/
inductive Phase
  | loop
  | held (c current : Nat)
  | fresh (c current : Nat)
  | subscribe (c current : Nat) (fresh : List String)
  | extend (c current : Nat) (fresh : List String)
  | reading (c : Nat) (rest : List String)

/-- The session, and one of its tick streams. -/
structure State where
  client : Option Nat
  generation : Nat
  subscribed : Finset String
  connections : Nat → Connection
  /-- The generation that the stream has subscribed on. -/
  known : Nat
  wanted : List String
  seen : AList fun _ : String => Int
  queue : List Quote
  phase : Phase
  emitted : List Quote
  read : List Quote

/-- The atomic steps.  `next` is a section of the stream, with the answer of
`subscribe` where it asks for one. -/
inductive Label
  | next (ok : Bool)
  | item (c : Nat) (item : Quotes.Item)
  | closes (c : Nat)
  | drop
  | dial
  | others (names : List String)

namespace State

/-- `Session::ticks`, behind its own `ensure_subscribed`. -/
def start (client : Option Nat) (generation : Nat) (subscribed : Finset String)
    (connections : Nat → Connection) (wanted : List String) : State where
  client := client
  generation := generation
  subscribed := subscribed
  connections := connections
  known := generation
  wanted := wanted
  seen := ∅
  queue := []
  phase := .loop
  emitted := []
  read := []

def modifyConnection (s : State) (c : Nat) (f : Connection → Connection) : State :=
  { s with connections := Function.update s.connections c (f (s.connections c)) }

/-- `seen.get(s).copied().unwrap_or(0)`. -/
def seenTime (s : State) (name : String) : Int := (s.seen.lookup name).getD 0

/-- The quote of a symbol, in the order of `wanted`. -/
def look (s : State) (c : Nat) (name : String) : State :=
  match (s.connections c).cache.lookup name with
  | none => s
  | some q =>
    if IsMissing q.bid ∨ IsMissing q.ask then s
    else if s.seenTime name < q.timeMs then
      { s with
        read := s.read ++ [q]
        seen := s.seen.insert name q.timeMs
        queue := s.queue ++ [q] }
    else { s with read := s.read ++ [q] }

/-- One section of the stream. -/
def next (s : State) (ok : Bool) : State :=
  match s.phase with
  | .loop =>
    match s.queue.getLast? with
    | some q => { s with queue := s.queue.dropLast, emitted := s.emitted ++ [q] }
    | none =>
      match s.client with
      | none => s
      | some c => { s with phase := .held c s.generation }
  | .held c current =>
    if (s.connections c).closed then { s with phase := .loop }
    else if current ≠ s.known then { s with phase := .fresh c current }
    else { s with phase := .reading c s.wanted }
  | .fresh c current =>
    let fresh := s.wanted.filter fun name => name ∉ s.subscribed
    if fresh.isEmpty then { s with phase := .extend c current [] }
    else { s with phase := .subscribe c current fresh }
  | .subscribe c current fresh =>
    if ok then { s with phase := .extend c current fresh }
    else { s with phase := .reading c s.wanted }
  | .extend c current fresh =>
    { s with
      subscribed := s.subscribed ∪ fresh.toFinset
      known := current
      phase := .reading c s.wanted }
  | .reading _ [] => { s with phase := .loop }
  | .reading c (name :: rest) => { s.look c name with phase := .reading c rest }

end State

/-- One atomic step.  Every step is enabled. -/
def step (s : State) : Label → Option State
  | .next ok => some (s.next ok)
  | .item c item =>
    (Quotes.step (s.connections c).cache item).map fun cache =>
      s.modifyConnection c fun connection => { connection with cache }
  | .closes c => some (s.modifyConnection c fun connection => { connection with closed := true })
  | .drop => some { s with client := none, subscribed := ∅ }
  | .dial =>
    let c := s.generation + 1
    some { s.modifyConnection c fun _ => ⟨false, ∅⟩ with client := some c, generation := c }
  | .others names => some { s with subscribed := s.subscribed ∪ names.toFinset }

/-! ## What the stream keeps -/

/-- A cached quote is stored under its own symbol. -/
def Keyed (cache : Quotes.Cache) : Prop :=
  ∀ name q, cache.lookup name = some q → q.symbol = name

/-- The quotes of one symbol, in order. -/
def ofSymbol (name : String) (quotes : List Quote) : List Quote :=
  quotes.filter fun q => q.symbol = name

/-- The symbols that the stream has still to look at before it emits again. -/
def State.unread (s : State) : List String :=
  match s.phase with
  | .loop => []
  | .reading _ rest => rest
  | _ => s.wanted

/-- What holds between any two steps. -/
structure Sound (wanted : List String) (s : State) : Prop where
  wanted_eq : s.wanted = wanted
  keyed : ∀ c, Keyed (s.connections c).cache
  unread : s.unread ⊆ wanted
  seen : ∀ name, s.seenTime name = top Quote.timeMs 0 (ofSymbol name s.read)
  whole : ∀ q ∈ s.read, q.symbol ∈ wanted ∧ ¬IsMissing q.bid ∧ ¬IsMissing q.ask
  taken : ∀ name, (ofSymbol name (s.emitted ++ s.queue)).Perm
    (records Quote.timeMs 0 (ofSymbol name s.read))

/-- What holds besides when no symbol is asked for twice. -/
structure Ordered (s : State) : Prop where
  distinct : (s.queue.map Quote.symbol ++ s.unread).Nodup
  order : ∀ name, ofSymbol name (s.emitted ++ s.queue) =
    records Quote.timeMs 0 (ofSymbol name s.read)

@[simp] theorem ofSymbol_append (name : String) (front back : List Quote) :
    ofSymbol name (front ++ back) = ofSymbol name front ++ ofSymbol name back :=
  List.filter_append front back

theorem ofSymbol_singleton (name : String) (q : Quote) :
    ofSymbol name [q] = if q.symbol = name then [q] else [] := by
  by_cases h : q.symbol = name
  · simp [ofSymbol, h]
  · simp [ofSymbol, h]

theorem mem_ofSymbol {name : String} {quotes : List Quote} {q : Quote} :
    q ∈ ofSymbol name quotes ↔ q ∈ quotes ∧ q.symbol = name := by
  simp [ofSymbol]

theorem Keyed.insert {cache : Quotes.Cache} (h : Keyed cache) (q : Quote) :
    Keyed (cache.insert q.symbol q) := by
  intro name r hr
  by_cases hname : name = q.symbol
  · rw [hname, AList.lookup_insert] at hr
    rw [hname, ← Option.some.inj hr]
  · rw [AList.lookup_insert_ne hname] at hr
    exact h name r hr

/-- A reader stores what it completes under the symbol of the record. -/
theorem Keyed.step {cache next : Quotes.Cache} (h : Keyed cache) {item : Quotes.Item}
    (hstep : Quotes.step cache item = some next) : Keyed next := by
  cases item with
  | statistics item =>
    cases hstep
    show Keyed (Quotes.fillGap cache item.1)
    unfold Quotes.fillGap
    split
    · exact h
    · exact h.insert item.1
  | streamed item =>
    cases hstep
    show Keyed (Quotes.stream cache item)
    unfold Quotes.stream
    simp only []
    split
    · exact h
    · exact h.insert _

/-! ## One look -/

/-- The time that was seen last, behind a look that stores a new one. -/
theorem seenTime_insert (s : State) (name other : String) (time : Int) :
    ((s.seen.insert name time).lookup other).getD 0 =
      if name = other then time else s.seenTime other := by
  by_cases h : name = other
  · rw [if_pos h, h, AList.lookup_insert]
    rfl
  · rw [if_neg h, AList.lookup_insert_ne (Ne.symm h)]
    rfl

theorem top_ofSymbol_append (read : List Quote) (q : Quote) (other : String) :
    top Quote.timeMs 0 (ofSymbol other (read ++ [q])) =
      if q.symbol = other ∧ top Quote.timeMs 0 (ofSymbol other read) < q.timeMs then q.timeMs
      else top Quote.timeMs 0 (ofSymbol other read) := by
  rw [ofSymbol_append, ofSymbol_singleton, top_append]
  by_cases hother : q.symbol = other
  · simp [hother, top]
  · simp [hother, top]

theorem records_ofSymbol_append (read : List Quote) (q : Quote) (other : String) :
    records Quote.timeMs 0 (ofSymbol other (read ++ [q])) =
      records Quote.timeMs 0 (ofSymbol other read) ++
        if q.symbol = other ∧ top Quote.timeMs 0 (ofSymbol other read) < q.timeMs then [q]
        else [] := by
  rw [ofSymbol_append, ofSymbol_singleton, records_append]
  by_cases hother : q.symbol = other
  · simp [hother, records]
  · simp [hother, records]

/-- A look at a symbol puts the new records in the queue, of which there is at
most one. -/
def Looked (wanted : List String) (name : String) (s t : State) : Prop :=
  ∃ seen read new, t = { s with seen, read, queue := s.queue ++ new } ∧
    List.Sublist (new.map Quote.symbol) [name] ∧
    (∀ other, (seen.lookup other).getD 0 = top Quote.timeMs 0 (ofSymbol other read)) ∧
    (∀ q ∈ read, q.symbol ∈ wanted ∧ ¬IsMissing q.bid ∧ ¬IsMissing q.ask) ∧
    ∀ other, records Quote.timeMs 0 (ofSymbol other read) =
      records Quote.timeMs 0 (ofSymbol other s.read) ++ ofSymbol other new

theorem Sound.looked {wanted : List String} {s : State} (h : Sound wanted s) (c : Nat)
    {name : String} (hname : name ∈ wanted) : Looked wanted name s (s.look c name) := by
  have hsame : Looked wanted name s s := by
    refine ⟨s.seen, s.read, [], by simp, List.nil_sublist _, h.seen, h.whole, ?_⟩
    intro other
    simp [ofSymbol]
  unfold State.look
  cases hq : (s.connections c).cache.lookup name with
  | none => exact hsame
  | some q =>
    show Looked wanted name s (if IsMissing q.bid ∨ IsMissing q.ask then s else _)
    by_cases hmissing : IsMissing q.bid ∨ IsMissing q.ask
    · rw [if_pos hmissing]
      exact hsame
    have hsymbol : q.symbol = name := h.keyed c name q hq
    have hwhole : ∀ r ∈ s.read ++ [q],
        r.symbol ∈ wanted ∧ ¬IsMissing r.bid ∧ ¬IsMissing r.ask := by
      intro r hr
      rcases List.mem_append.mp hr with hr | hr
      · exact h.whole r hr
      · rw [List.mem_singleton.mp hr, hsymbol]
        exact ⟨hname, not_or.mp hmissing⟩
    rw [if_neg hmissing, h.seen]
    by_cases hnew : top Quote.timeMs 0 (ofSymbol name s.read) < q.timeMs
    · rw [if_pos hnew]
      have hiff : ∀ other, (q.symbol = other ∧
          top Quote.timeMs 0 (ofSymbol other s.read) < q.timeMs) ↔ name = other := by
        intro other
        rw [hsymbol]
        exact ⟨fun hboth => hboth.1, fun hother => ⟨hother, hother ▸ hnew⟩⟩
      refine ⟨s.seen.insert name q.timeMs, s.read ++ [q], [q], rfl, ?_, ?_, hwhole, ?_⟩
      · simp [hsymbol]
      · intro other
        rw [seenTime_insert, top_ofSymbol_append, h.seen]
        simp only [hiff]
      · intro other
        rw [records_ofSymbol_append, ofSymbol_singleton, hsymbol]
        simp only [← hsymbol, hiff]
    · rw [if_neg hnew]
      have hnone : ∀ other, ¬(q.symbol = other ∧
          top Quote.timeMs 0 (ofSymbol other s.read) < q.timeMs) := by
        intro other hboth
        rw [← hboth.1, hsymbol] at hboth
        exact hnew hboth.2
      refine ⟨s.seen, s.read ++ [q], [], by simp, List.nil_sublist _, ?_, hwhole, ?_⟩
      · intro other
        rw [top_ofSymbol_append, if_neg (hnone other)]
        exact h.seen other
      · intro other
        rw [records_ofSymbol_append, if_neg (hnone other)]
        simp [ofSymbol]

theorem Sound.look {wanted : List String} {s : State} (h : Sound wanted s) {c : Nat}
    {name : String} {rest : List String} (hphase : s.phase = .reading c (name :: rest)) :
    Sound wanted { s.look c name with phase := .reading c rest } ∧
      (Ordered s → Ordered { s.look c name with phase := .reading c rest }) := by
  have hunread : s.unread = name :: rest := by simp [State.unread, hphase]
  have hsub : name :: rest ⊆ wanted := hunread ▸ h.unread
  obtain ⟨seen, read, new, heq, hone, hseen, hwhole, hrecords⟩ :=
    h.looked c (hsub List.mem_cons_self)
  rw [heq]
  constructor
  · refine ⟨h.wanted_eq, h.keyed, ?_, hseen, hwhole, ?_⟩
    · exact fun x hx => hsub (List.mem_cons_of_mem _ hx)
    · intro other
      show (ofSymbol other (s.emitted ++ (s.queue ++ new))).Perm _
      rw [← List.append_assoc, ofSymbol_append, hrecords]
      exact (h.taken other).append_right _
  · intro hordered
    have hdistinct := hordered.distinct
    rw [hunread] at hdistinct
    constructor
    · show ((s.queue ++ new).map Quote.symbol ++ rest).Nodup
      rw [List.map_append, List.append_assoc]
      exact hdistinct.sublist
        ((List.Sublist.refl _).append (hone.append (List.Sublist.refl rest)))
    · intro other
      show ofSymbol other (s.emitted ++ (s.queue ++ new)) = _
      rw [← List.append_assoc, ofSymbol_append, hrecords, hordered.order]

/-! ## One step -/

/-- The stream emits the last quote of its queue. -/
theorem Sound.pop {wanted : List String} {s : State} (h : Sound wanted s)
    {front : List Quote} {q : Quote} (hqueue : s.queue = front ++ [q]) :
    Sound wanted { s with queue := front, emitted := s.emitted ++ [q] } ∧
      (Ordered s → Ordered { s with queue := front, emitted := s.emitted ++ [q] }) := by
  constructor
  · refine ⟨h.wanted_eq, h.keyed, h.unread, h.seen, h.whole, ?_⟩
    intro name
    refine List.Perm.trans ?_ (h.taken name)
    rw [hqueue]
    simp only [ofSymbol_append, List.append_assoc]
    exact List.perm_append_comm.append_left _
  · intro hordered
    have hdistinct := hordered.distinct
    rw [hqueue, List.map_append, List.append_assoc] at hdistinct
    constructor
    · refine hdistinct.sublist ?_
      exact (List.Sublist.refl _).append (List.sublist_append_right _ _)
    · intro name
      rw [← hordered.order name, hqueue]
      simp only [ofSymbol_append, List.append_assoc]
      congr 1
      -- The quotes before it in the queue are of other symbols.
      by_cases hname : q.symbol = name
      · have hnone : ofSymbol name front = [] := by
          apply List.filter_eq_nil_iff.mpr
          intro r hr hsymbol
          have hne := (List.nodup_append.mp hdistinct).2.2 r.symbol (List.mem_map_of_mem hr)
            q.symbol (by simp)
          exact hne ((of_decide_eq_true hsymbol).trans hname.symm)
        rw [hnone, List.append_nil, List.nil_append]
      · rw [ofSymbol_singleton, if_neg hname, List.append_nil, List.nil_append]

/-- The stream goes on to another section, with no more symbols to look at than
before, or with all of them behind an empty queue. -/
theorem Sound.moves {wanted : List String} {s : State} (h : Sound wanted s)
    (subscribed : Finset String) (known : Nat) (phase : Phase)
    (hphase : ({ s with subscribed, known, phase } : State).unread = [] ∨
      ({ s with subscribed, known, phase } : State).unread = s.wanted ∧
        (s.unread = s.wanted ∨ s.queue = [])) :
    Sound wanted { s with subscribed, known, phase } ∧
      (wanted.Nodup → Ordered s → Ordered { s with subscribed, known, phase }) := by
  constructor
  · refine ⟨h.wanted_eq, h.keyed, ?_, h.seen, h.whole, h.taken⟩
    rcases hphase with hnone | ⟨hall, -⟩
    · rw [hnone]
      exact List.nil_subset _
    · rw [hall, h.wanted_eq]
      exact List.Subset.refl _
  · intro hwanted hordered
    refine ⟨?_, hordered.order⟩
    rcases hphase with hnone | ⟨hall, hbefore | hempty⟩
    · rw [hnone, List.append_nil]
      exact (List.nodup_append.mp hordered.distinct).1
    · rw [hall, ← hbefore]
      exact hordered.distinct
    · show (s.queue.map Quote.symbol ++ _).Nodup
      rw [hall, hempty, h.wanted_eq]
      exact hwanted

theorem Sound.next {wanted : List String} {s : State} (h : Sound wanted s) (ok : Bool) :
    Sound wanted (s.next ok) ∧ (wanted.Nodup → Ordered s → Ordered (s.next ok)) := by
  cases hphase : s.phase with
  | loop =>
    cases hlast : s.queue.getLast? with
    | some q =>
      obtain ⟨front, hqueue⟩ := List.getLast?_eq_some_iff.mp hlast
      have hnext : s.next ok = { s with queue := front, emitted := s.emitted ++ [q] } := by
        simp [State.next, hphase, hqueue]
      rw [hnext]
      exact ⟨(h.pop hqueue).1, fun _ => (h.pop hqueue).2⟩
    | none =>
      have hempty : s.queue = [] := List.getLast?_eq_none_iff.mp hlast
      cases hclient : s.client with
      | none =>
        have hnext : s.next ok = s := by simp [State.next, hphase, hempty, hclient]
        rw [hnext]
        exact ⟨h, fun _ hordered => hordered⟩
      | some c =>
        have hnext : s.next ok = { s with phase := .held c s.generation } := by
          simp [State.next, hphase, hempty, hclient]
        rw [hnext]
        exact h.moves s.subscribed s.known (.held c s.generation) (.inr ⟨rfl, .inr hempty⟩)
  | held c current =>
    have hunread : s.unread = s.wanted := by simp [State.unread, hphase]
    simp only [State.next, hphase]
    by_cases hclosed : (s.connections c).closed
    · rw [if_pos hclosed]
      exact h.moves s.subscribed s.known _ (.inl rfl)
    · rw [if_neg hclosed]
      by_cases hnew : current ≠ s.known
      · rw [if_pos hnew]
        exact h.moves s.subscribed s.known _ (.inr ⟨rfl, .inl hunread⟩)
      · rw [if_neg hnew]
        exact h.moves s.subscribed s.known _ (.inr ⟨rfl, .inl hunread⟩)
  | fresh c current =>
    have hunread : s.unread = s.wanted := by simp [State.unread, hphase]
    simp only [State.next, hphase]
    split
    · exact h.moves s.subscribed s.known _ (.inr ⟨rfl, .inl hunread⟩)
    · exact h.moves s.subscribed s.known _ (.inr ⟨rfl, .inl hunread⟩)
  | subscribe c current fresh =>
    have hunread : s.unread = s.wanted := by simp [State.unread, hphase]
    simp only [State.next, hphase]
    split
    · exact h.moves s.subscribed s.known _ (.inr ⟨rfl, .inl hunread⟩)
    · exact h.moves s.subscribed s.known _ (.inr ⟨rfl, .inl hunread⟩)
  | extend c current fresh =>
    have hunread : s.unread = s.wanted := by simp [State.unread, hphase]
    simp only [State.next, hphase]
    exact h.moves _ current _ (.inr ⟨rfl, .inl hunread⟩)
  | reading c rest =>
    cases rest with
    | nil =>
      simp only [State.next, hphase]
      exact h.moves s.subscribed s.known _ (.inl rfl)
    | cons name rest =>
      have hlook := h.look hphase
      simp only [State.next, hphase]
      exact ⟨hlook.1, fun _ => hlook.2⟩

/-- The others touch neither the queue nor what the stream has seen. -/
theorem Sound.modifyConnection {wanted : List String} {s : State} (h : Sound wanted s) (c : Nat)
    {f : Connection → Connection} (hf : Keyed (f (s.connections c)).cache) :
    Sound wanted (s.modifyConnection c f) := by
  refine ⟨h.wanted_eq, ?_, h.unread, h.seen, h.whole, h.taken⟩
  intro d
  show Keyed (Function.update s.connections c (f (s.connections c)) d).cache
  by_cases hd : d = c
  · rw [hd, Function.update_self]
    exact hf
  · rw [Function.update_of_ne hd]
    exact h.keyed d

theorem Sound.step {wanted : List String} {s t : State} {a : Label} (h : Sound wanted s)
    (hstep : step s a = some t) :
    Sound wanted t ∧ (wanted.Nodup → Ordered s → Ordered t) := by
  cases a with
  | next ok =>
    cases hstep
    exact h.next ok
  | item c item =>
    obtain ⟨cache, hcache, rfl⟩ := Option.map_eq_some_iff.mp hstep
    refine ⟨h.modifyConnection c ((h.keyed c).step hcache), ?_⟩
    exact fun _ hordered => ⟨hordered.distinct, hordered.order⟩
  | closes c =>
    cases hstep
    refine ⟨h.modifyConnection c (h.keyed c), ?_⟩
    exact fun _ hordered => ⟨hordered.distinct, hordered.order⟩
  | drop =>
    cases hstep
    refine ⟨⟨h.wanted_eq, h.keyed, h.unread, h.seen, h.whole, h.taken⟩, ?_⟩
    exact fun _ hordered => ⟨hordered.distinct, hordered.order⟩
  | dial =>
    cases hstep
    have hempty : Keyed ∅ := fun _ _ hq => by cases hq
    refine ⟨⟨h.wanted_eq, ?_, h.unread, h.seen, h.whole, h.taken⟩, ?_⟩
    · exact (h.modifyConnection (s.generation + 1) (f := fun _ => ⟨false, ∅⟩) hempty).keyed
    · exact fun _ hordered => ⟨hordered.distinct, hordered.order⟩
  | others names =>
    cases hstep
    refine ⟨⟨h.wanted_eq, h.keyed, h.unread, h.seen, h.whole, h.taken⟩, ?_⟩
    exact fun _ hordered => ⟨hordered.distinct, hordered.order⟩

/-! ## Runs -/

theorem sound_start {client : Option Nat} {generation : Nat} {subscribed : Finset String}
    {connections : Nat → Connection} {wanted : List String}
    (hkeyed : ∀ c, Keyed (connections c).cache) :
    Sound wanted (State.start client generation subscribed connections wanted) where
  wanted_eq := rfl
  keyed := hkeyed
  unread := List.nil_subset _
  seen := fun _ => rfl
  whole := by simp [State.start]
  taken := fun _ => List.Perm.refl _

theorem Sound.emitted {wanted : List String} {s : State} (h : Sound wanted s) {q : Quote}
    (hq : q ∈ s.emitted) : q ∈ records Quote.timeMs 0 (ofSymbol q.symbol s.read) := by
  rw [← (h.taken q.symbol).mem_iff, mem_ofSymbol]
  exact ⟨List.mem_append_left _ hq, rfl⟩

/-- Quotes of one symbol stand in the order of their times when they do so
symbol by symbol. -/
theorem pairwise_of_ofSymbol {quotes : List Quote}
    (h : ∀ name, (ofSymbol name quotes).Pairwise fun a b => a.timeMs < b.timeMs) :
    quotes.Pairwise fun a b => a.symbol = b.symbol → a.timeMs < b.timeMs := by
  induction quotes with
  | nil => exact .nil
  | cons q quotes ih =>
    have hrest : ∀ name, (ofSymbol name quotes).Pairwise fun a b => a.timeMs < b.timeMs := by
      intro name
      refine (h name).sublist ?_
      exact (List.sublist_cons_self q quotes).filter _
    refine .cons ?_ (ih hrest)
    intro r hr hsymbol
    have hfirst := h q.symbol
    rw [show q :: quotes = [q] ++ quotes from rfl, ofSymbol_append, ofSymbol_singleton,
      if_pos rfl] at hfirst
    exact (List.pairwise_cons.mp hfirst).1 r (mem_ofSymbol.mpr ⟨hr, hsymbol.symm⟩)

/-- Whatever the readers, the other calls and the redials do between its
sections: every quote that the stream emits is of a symbol that was asked for,
with both sides and a time, and the emitted and queued quotes of a symbol are the
records of what the stream has read of it, each once.  If no symbol was asked for
twice, they are so in order, and the times of a symbol go up from one emitted
quote to the next, across redials too. -/
theorem ticks_records {client : Option Nat} {generation : Nat} {subscribed : Finset String}
    {connections : Nat → Connection} {wanted : List String} {schedule : List Label} {t : State}
    (hkeyed : ∀ c, Keyed (connections c).cache)
    (hrun : exec step (State.start client generation subscribed connections wanted) schedule =
      some t) :
    (∀ q ∈ t.emitted,
      q.symbol ∈ wanted ∧ ¬IsMissing q.bid ∧ ¬IsMissing q.ask ∧ 0 < q.timeMs) ∧
    (∀ name, (ofSymbol name (t.emitted ++ t.queue)).Perm
      (records Quote.timeMs 0 (ofSymbol name t.read))) ∧
    (wanted.Nodup →
      (∀ name, ofSymbol name (t.emitted ++ t.queue) =
        records Quote.timeMs 0 (ofSymbol name t.read)) ∧
      t.emitted.Pairwise fun a b => a.symbol = b.symbol → a.timeMs < b.timeMs) := by
  have hsound : Sound wanted t :=
    exec_invariant (fun _ _ _ h hstep => (h.step hstep).1) (sound_start hkeyed) hrun
  refine ⟨?_, hsound.taken, ?_⟩
  · intro q hq
    have hrecord := hsound.emitted hq
    have hread := (mem_ofSymbol.mp (mem_of_mem_records hrecord)).1
    obtain ⟨hwanted, hbid, hask⟩ := hsound.whole q hread
    exact ⟨hwanted, hbid, hask, lt_of_mem_records hrecord⟩
  · intro hwanted
    have hnext : ∀ s a u, (Sound wanted s ∧ Ordered s) → step s a = some u →
        Sound wanted u ∧ Ordered u := by
      intro s a u h hstep
      have hstepped := h.1.step hstep
      exact ⟨hstepped.1, hstepped.2 hwanted h.2⟩
    have hordered : Sound wanted t ∧ Ordered t :=
      exec_invariant hnext ⟨sound_start hkeyed, ⟨List.nodup_nil, fun _ => rfl⟩⟩ hrun
    refine ⟨hordered.2.order, ?_⟩
    apply pairwise_of_ofSymbol
    intro name
    have htimes : (records Quote.timeMs 0 (ofSymbol name t.read)).Pairwise
        fun a b => a.timeMs < b.timeMs := pairwise_records 0 _
    rw [← hordered.2.order name, ofSymbol_append] at htimes
    exact (List.pairwise_append.mp htimes).1

/-! A stream of one symbol across a redial: the cache of the new connection is
first behind what was emitted, and then ahead of it. -/

def sampleQuote (time : Int) : Quote :=
  { symbol := "EURUSD", symbolId := 1, bid := one, ask := one, timeMs := time }

def sampleStart : State :=
  .start (some 0) 0 {"EURUSD"} (fun _ => ⟨false, ∅⟩) ["EURUSD"]

/-- One round of the stream on a connection that it knows, and the quote that it
may emit. -/
def sampleRound : List Label := List.replicate 5 (.next true)

def sampleSchedule : List Label :=
  [.item 0 (.streamed (sampleQuote 5))] ++ sampleRound ++
  [.closes 0, .drop, .dial, .item 1 (.streamed (sampleQuote 4))] ++
  List.replicate 8 (.next true) ++
  [.item 1 (.streamed (sampleQuote 9))] ++ sampleRound

theorem sampleSchedule_emits :
    (exec step sampleStart sampleSchedule).map (fun t => t.emitted.map Quote.timeMs) =
      some [5, 9] := by
  decide +kernel

theorem ticks_records_sampleSchedule :
    ∃ t, exec step sampleStart sampleSchedule = some t ∧
      t.emitted.map Quote.timeMs = [5, 9] ∧
      t.emitted.Pairwise fun a b => a.symbol = b.symbol → a.timeMs < b.timeMs := by
  obtain ⟨t, hrun, htimes⟩ := Option.map_eq_some_iff.mp sampleSchedule_emits
  have hempty : ∀ c, Keyed ((fun _ => ⟨false, ∅⟩ : Nat → Connection) c).cache :=
    fun _ _ _ hq => by cases hq
  exact ⟨t, hrun, htimes, ((ticks_records hempty hrun).2.2 (by decide)).2⟩

end Mt5Open.Webterm.TickStream

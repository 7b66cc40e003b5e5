import Mt5Open.Webterm.Request

/-!
# Concurrent subscriptions on one web-terminal client

`Client::subscribe` adds ids to `subscriptions` and takes a snapshot of the set
while it holds the lock, and sends the snapshot after it has let the lock go.
Each frame replaces what the server streams, so the order in which the frames
are sent decides what stays subscribed.

`locked` lists the calls in the order in which they held the lock, with the ids
that each of them added.  The client keeps no such list.  The guard of a send
speaks about it: the call that sends last must have held the lock after every
id was there.  `subscribed_iff` shows that this is what separates the runs
after which the server streams all of `subscriptions` from the others.
-/

namespace Mt5Open.Webterm.Subscribe

open Lib Lib.Run

/-! ## The subscription frame -/

/-- `subscription_payload`: a count and that many ids. -/
def subscriptionPayload (ids : List UInt32) : Bytes :=
  LittleEndian.encode 4 ids.length ++ ids.flatMap fun id => LittleEndian.encode 4 id.toNat

/-- The four-byte words of a byte string. -/
def words : Bytes → List UInt32
  | a :: b :: c :: d :: rest => UInt32.ofNat (LittleEndian.decode [a, b, c, d]) :: words rest
  | _ => []

/-- The ids in a subscription command, behind its header and the count. -/
def frameIds (command : Bytes) : List UInt32 := words (command.drop 8)

theorem words_encode_append (id : UInt32) (rest : Bytes) :
    words (LittleEndian.encode 4 id.toNat ++ rest) = id :: words rest := by
  have hlt : id.toNat < 256 ^ 4 := id.toNat_lt
  have hdecode := LittleEndian.decode_encode_of_lt hlt
  simp only [LittleEndian.encode] at hdecode
  simp only [LittleEndian.encode, List.cons_append, List.nil_append, words, hdecode,
    UInt32.ofNat_toNat]

theorem words_flatMap_encode (ids : List UInt32) :
    words (ids.flatMap fun id => LittleEndian.encode 4 id.toNat) = ids := by
  induction ids with
  | nil => rfl
  | cons id ids ih => rw [List.flatMap_cons, words_encode_append, ih]

/-- The server reads the ids that the client named. -/
theorem frameIds_buildCommand (random cmdId : UInt16) (ids : List UInt32) :
    frameIds (buildCommand random cmdId (subscriptionPayload ids)) = ids := by
  have hdrop : (buildCommand random cmdId (subscriptionPayload ids)).drop 8 =
      ids.flatMap fun id => LittleEndian.encode 4 id.toNat := by
    simp [buildCommand, subscriptionPayload, LittleEndian.encode]
  rw [frameIds, hdrop, words_flatMap_encode]

/-! ## The step relation -/

/-- How far one call of `subscribe` has got. -/
inductive Phase
  | resolved
  | extended (all : List UInt32)
  | returned (result : Except Request.Error Unit)
  deriving DecidableEq

/-- One call of `subscribe`, with the ids that its names stand for. -/
structure Call where
  ids : List UInt32
  phase : Phase
  deriving DecidableEq

/-- The state that the clones of one client and the server share. -/
structure State where
  /-- The id of a symbol name. -/
  symbols : AList fun _ : String => UInt32
  calls : List Call
  /-- Every symbol id subscribed on this connection. -/
  subscriptions : Std.TreeSet UInt32
  locked : List (Nat × List UInt32)
  writerAlive : Bool
  outbound : List Bytes
  /-- The ids in the last frame that the server received. -/
  active : List UInt32

/-- A client that has just been dialled, with the symbols that it read. -/
def State.init (symbols : AList fun _ : String => UInt32) : State where
  symbols := symbols
  calls := []
  subscriptions := ∅
  locked := []
  writerAlive := true
  outbound := []
  active := []

/-- The atomic steps.  A number names a call of `subscribe`. -/
inductive Label
  | symbolInfo (name : String) (id : UInt32)
  | subscribe (names : List String)
  | extend (i : Nat)
  | send (i : Nat) (random : UInt16)
  | receive
  | writerEnd
  deriving DecidableEq

namespace State

/-- The names are looked up in a copy of the symbols.  A call with no known name
returns at once. -/
def subscribe (s : State) (names : List String) : State :=
  let ids := names.filterMap fun name => s.symbols.lookup name
  let phase := if ids.isEmpty then Phase.returned (.ok ()) else .resolved
  { s with calls := s.calls ++ [{ ids, phase }] }

/-- `set.extend(ids)` and the snapshot, under the lock of `subscriptions`. -/
def extend (s : State) (i : Nat) (call : Call) : State :=
  let set := s.subscriptions.insertMany call.ids
  { s with
    subscriptions := set
    locked := s.locked ++ [(i, call.ids)]
    calls := s.calls.modify i fun call => { call with phase := .extended set.toList } }

/-- `self.send_cmd(CMD_SUBSCRIBE, &subscription_payload(&all)).await`. -/
def send (s : State) (i : Nat) (all : List UInt32) (random : UInt16) : State :=
  let result := if s.writerAlive then .ok () else .error .channelClosed
  let sent := if s.writerAlive then
    [buildCommand random CMD_SUBSCRIBE (subscriptionPayload all)] else []
  { s with
    outbound := s.outbound ++ sent
    calls := s.calls.modify i fun call => { call with phase := .returned result } }

end State

/-- One atomic step, when it is enabled. -/
def step (s : State) : Label → Option State
  | .symbolInfo name id => some { s with symbols := s.symbols.insert name id }
  | .subscribe names => some (s.subscribe names)
  | .extend i =>
    match s.calls[i]? with
    | some call => if call.phase = .resolved then some (s.extend i call) else none
    | none => none
  | .send i random =>
    match s.calls[i]? with
    | some ⟨_, .extended all⟩ => some (s.send i all random)
    | _ => none
  | .receive =>
    match s.outbound with
    | command :: rest => some { s with outbound := rest, active := frameIds command }
    | [] => none
  | .writerEnd => some { s with writerAlive := false }

/-! ## What has to hold of the order of the calls -/

/-- Some call on the list asked for the id. -/
def Asked (locked : List (Nat × List UInt32)) (id : UInt32) : Prop :=
  ∃ entry ∈ locked, id ∈ entry.2

instance (locked : List (Nat × List UInt32)) (id : UInt32) : Decidable (Asked locked id) :=
  inferInstanceAs (Decidable (∃ entry ∈ locked, id ∈ entry.2))

namespace State

/-- The calls that held the lock up to call `i`, itself included. -/
def lockedUpTo (s : State) (i : Nat) : List (Nat × List UInt32) :=
  s.locked.take (s.locked.findIdx (·.1 == i) + 1)

/-- The calls that held the lock after call `i`. -/
def lockedAfter (s : State) (i : Nat) : List (Nat × List UInt32) :=
  s.locked.drop (s.locked.findIdx (·.1 == i) + 1)

/-- Every call has returned `Ok`. -/
def AllReturned (s : State) : Prop := ∀ call ∈ s.calls, call.phase = .returned (.ok ())

/-- Every call but call `i` has returned `Ok`. -/
def OthersReturned (s : State) (i : Nat) : Prop :=
  ∀ call ∈ s.calls.eraseIdx i, call.phase = .returned (.ok ())

/-- What the server streams once the frames on their way have reached it. -/
def settled (s : State) : List UInt32 :=
  s.outbound.foldl (fun _ command => frameIds command) s.active

end State

/-- Once all calls have returned `Ok`, the server streams what the client
believes to be subscribed. -/
def Subscribed (s : State) : Prop :=
  s.AllReturned → ∀ id, id ∈ s.settled ↔ id ∈ s.subscriptions

/-- When the last call sends, the calls that held the lock after it brought no
id that was not there before. -/
def Guard (s : State) : Label → Prop
  | .send i _ => s.writerAlive = true → s.OthersReturned i →
      ∀ entry ∈ s.lockedAfter i, ∀ id ∈ entry.2, Asked (s.lockedUpTo i) id
  | _ => True

instance (s : State) (i : Nat) : Decidable (s.OthersReturned i) :=
  inferInstanceAs (Decidable (∀ call ∈ s.calls.eraseIdx i, call.phase = .returned (.ok ())))

instance (s : State) (label : Label) : Decidable (Guard s label) :=
  match label with
  | .send i _ =>
    have : ∀ entry : Nat × List UInt32,
        Decidable (∀ id ∈ entry.2, Asked (s.lockedUpTo i) id) :=
      fun entry => List.decidableBAll (Asked (s.lockedUpTo i)) entry.2
    inferInstanceAs (Decidable (s.writerAlive = true → s.OthersReturned i →
      ∀ entry ∈ s.lockedAfter i, ∀ id ∈ entry.2, Asked (s.lockedUpTo i) id))
  | .symbolInfo _ _ | .subscribe _ | .extend _ | .receive | .writerEnd => isTrue trivial

/-! ## The invariant -/

/-- What every step keeps, whatever the order of the sends. -/
structure Inv (s : State) : Prop where
  entered : ∀ entry ∈ s.locked, ∃ call : Call,
    s.calls[entry.1]? = some call ∧ call.ids = entry.2 ∧ call.phase ≠ .resolved
  listed : ∀ (i : Nat) (call : Call), s.calls[i]? = some call → call.phase ≠ .resolved →
    call.ids ≠ [] → (i, call.ids) ∈ s.locked
  nonempty : ∀ (i : Nat) (call : Call), s.calls[i]? = some call → call.ids = [] →
    call.phase = .returned (.ok ())
  snapshot : ∀ (i : Nat) (call : Call) (all : List UInt32), s.calls[i]? = some call →
    call.phase = .extended all → ∀ id, id ∈ all ↔ Asked (s.lockedUpTo i) id
  held : ∀ id, id ∈ s.subscriptions ↔ Asked s.locked id

theorem inv_init (symbols : AList fun _ : String => UInt32) : Inv (.init symbols) where
  entered := by simp [State.init]
  listed := by simp [State.init]
  nonempty := by simp [State.init]
  snapshot := by simp [State.init]
  held := by simp [State.init, Asked]

theorem asked_append {front back : List (Nat × List UInt32)} {id : UInt32} :
    Asked (front ++ back) id ↔ Asked front id ∨ Asked back id := by
  simp only [Asked, List.mem_append, or_and_right, exists_or]

/-- The calls up to `i` and the calls after `i` are all the calls that held the lock. -/
theorem asked_locked_iff (s : State) (i : Nat) (id : UInt32) :
    Asked s.locked id ↔ Asked (s.lockedUpTo i) id ∨ Asked (s.lockedAfter i) id := by
  rw [← asked_append, State.lockedUpTo, State.lockedAfter, List.take_append_drop]

/-- What a list holds after one of its entries has changed. -/
theorem getElem?_modify_eq_some {α : Type*} {l : List α} {i k : Nat} {f : α → α} {a b : α}
    (h : l[i]? = some a) :
    (l.modify i f)[k]? = some b ↔ (i = k ∧ b = f a) ∨ (i ≠ k ∧ l[k]? = some b) := by
  rw [List.getElem?_modify]
  by_cases hik : i = k
  · subst hik
    simp [h, eq_comm]
  · simp [hik]

/-- A call that holds the lock later changes nothing before it. -/
theorem lockedUpTo_extend {s : State} {i j : Nat} {ids : List UInt32} (call : Call)
    (h : (j, ids) ∈ s.locked) : (s.extend i call).lockedUpTo j = s.lockedUpTo j := by
  have hfound : s.locked.findIdx (·.1 == j) < s.locked.length :=
    List.findIdx_lt_length_of_exists ⟨(j, ids), h, by simp⟩
  show (s.locked ++ [(i, call.ids)]).take ((s.locked ++ [(i, call.ids)]).findIdx _ + 1) = _
  rw [List.findIdx_append, if_pos hfound, List.take_append_of_le_length (by omega)]
  rfl

/-- The call that holds the lock is the last one up to now. -/
theorem lockedUpTo_extend_self {s : State} {i : Nat} (call : Call)
    (h : ∀ entry ∈ s.locked, entry.1 ≠ i) :
    (s.extend i call).lockedUpTo i = s.locked ++ [(i, call.ids)] := by
  have hlast : s.locked.findIdx (·.1 == i) = s.locked.length := by
    rw [List.findIdx_eq_length]
    intro entry hentry
    simpa using h entry hentry
  show (s.locked ++ [(i, call.ids)]).take ((s.locked ++ [(i, call.ids)]).findIdx _ + 1) = _
  rw [List.findIdx_append, hlast, if_neg (by omega), List.take_of_length_le]
  simp

theorem Inv.subscribe {s : State} (hinv : Inv s) (names : List String) :
    Inv (s.subscribe names) := by
  obtain ⟨hentered, hlisted, hnonempty, hsnapshot, hheld⟩ := hinv
  have hlt : ∀ entry ∈ s.locked, entry.1 < s.calls.length := by
    intro entry hentry
    obtain ⟨call, hcall, -⟩ := hentered entry hentry
    exact (List.getElem?_eq_some_iff.mp hcall).1
  have hget : ∀ (k : Nat) (call : Call), (s.subscribe names).calls[k]? = some call →
      s.calls[k]? = some call ∨ (call.phase = .resolved ∧ call.ids ≠ []) ∨
        (call.phase = .returned (.ok ()) ∧ call.ids = []) := by
    intro k call hcall
    simp only [State.subscribe, List.getElem?_append, List.getElem?_singleton] at hcall
    split at hcall
    · exact Or.inl hcall
    · right
      split at hcall
      · cases Option.some.inj hcall
        by_cases hids : (names.filterMap fun name => s.symbols.lookup name).isEmpty
        · exact Or.inr ⟨if_pos hids, by simpa using hids⟩
        · exact Or.inl ⟨if_neg hids, by simpa using hids⟩
      · cases hcall
  refine ⟨?_, ?_, ?_, ?_, hheld⟩
  · intro entry hentry
    obtain ⟨call, hcall, hids, hphase⟩ := hentered entry hentry
    refine ⟨call, ?_, hids, hphase⟩
    show (s.calls ++ _)[entry.1]? = some call
    rw [List.getElem?_append_left (hlt entry hentry)]
    exact hcall
  · intro i call hcall hphase hids
    rcases hget i call hcall with hold | ⟨hresolved, -⟩ | ⟨-, hempty⟩
    · exact hlisted i call hold hphase hids
    · exact absurd hresolved hphase
    · exact absurd hempty hids
  · intro i call hcall hids
    rcases hget i call hcall with hold | ⟨-, hne⟩ | ⟨hreturned, -⟩
    · exact hnonempty i call hold hids
    · exact absurd hids hne
    · exact hreturned
  · intro i call all hcall hphase
    rcases hget i call hcall with hold | ⟨hresolved, -⟩ | ⟨hreturned, -⟩
    · exact hsnapshot i call all hold hphase
    · rw [hresolved] at hphase
      cases hphase
    · rw [hreturned] at hphase
      cases hphase

theorem Inv.extend {s : State} {i : Nat} {call : Call} (hinv : Inv s)
    (hcall : s.calls[i]? = some call) (hphase : call.phase = .resolved) :
    Inv (s.extend i call) := by
  obtain ⟨hentered, hlisted, hnonempty, hsnapshot, hheld⟩ := hinv
  have hfirst : ∀ entry ∈ s.locked, entry.1 ≠ i := by
    rintro entry hentry rfl
    obtain ⟨other, hother, -, hpast⟩ := hentered entry hentry
    rw [hcall] at hother
    cases hother
    exact hpast hphase
  have hids : call.ids ≠ [] := by
    intro hids
    rw [hnonempty i call hcall hids] at hphase
    cases hphase
  have hheld' : ∀ id, id ∈ s.subscriptions.insertMany call.ids ↔
      Asked (s.locked ++ [(i, call.ids)]) id := by
    intro id
    rw [Std.TreeSet.mem_insertMany_list, asked_append, hheld id]
    simp [Asked]
  have hget : ∀ (k : Nat) (new : Call), (s.extend i call).calls[k]? = some new ↔
      (i = k ∧ new = ⟨call.ids, .extended (s.subscriptions.insertMany call.ids).toList⟩) ∨
        (i ≠ k ∧ s.calls[k]? = some new) := by
    intro k new
    rw [State.extend, getElem?_modify_eq_some hcall]
  refine ⟨?_, ?_, ?_, ?_, hheld'⟩
  · intro entry hentry
    rcases List.mem_append.mp hentry with hentry | hentry
    · obtain ⟨old, hold, holdIds, hpast⟩ := hentered entry hentry
      exact ⟨old, (hget _ _).mpr (Or.inr ⟨(hfirst entry hentry).symm, hold⟩), holdIds, hpast⟩
    · rw [List.mem_singleton.mp hentry]
      exact ⟨_, (hget _ _).mpr (Or.inl ⟨rfl, rfl⟩), rfl, by simp⟩
  · intro k new hnew hpast hnewIds
    rcases (hget k new).mp hnew with ⟨rfl, rfl⟩ | ⟨-, hold⟩
    · exact List.mem_append_right _ (List.mem_singleton_self _)
    · exact List.mem_append_left _ (hlisted k new hold hpast hnewIds)
  · intro k new hnew hnewIds
    rcases (hget k new).mp hnew with ⟨rfl, rfl⟩ | ⟨-, hold⟩
    · exact absurd hnewIds hids
    · exact hnonempty k new hold hnewIds
  · intro k new all hnew hextended id
    rcases (hget k new).mp hnew with ⟨rfl, rfl⟩ | ⟨-, hold⟩
    · cases hextended
      rw [lockedUpTo_extend_self call hfirst, Std.TreeSet.mem_toList]
      exact hheld' id
    · have hmem : (k, new.ids) ∈ s.locked := by
        refine hlisted k new hold (by rw [hextended]; simp) ?_
        intro hnone
        rw [hnonempty k new hold hnone] at hextended
        cases hextended
      rw [lockedUpTo_extend call hmem]
      exact hsnapshot k new all hold hextended id

theorem Inv.send {s : State} {i : Nat} {ids all : List UInt32} (hinv : Inv s)
    (hcall : s.calls[i]? = some ⟨ids, .extended all⟩) (random : UInt16) :
    Inv (s.send i all random) := by
  obtain ⟨hentered, hlisted, hnonempty, hsnapshot, hheld⟩ := hinv
  have hids : ids ≠ [] := by
    intro hids
    cases hnonempty i _ hcall hids
  have hget : ∀ (k : Nat) (new : Call), (s.send i all random).calls[k]? = some new ↔
      (i = k ∧ new = ⟨ids, .returned (if s.writerAlive then .ok () else .error .channelClosed)⟩) ∨
        (i ≠ k ∧ s.calls[k]? = some new) := by
    intro k new
    rw [State.send, getElem?_modify_eq_some hcall]
  refine ⟨?_, ?_, ?_, ?_, hheld⟩
  · intro entry hentry
    obtain ⟨old, hold, holdIds, hpast⟩ := hentered entry hentry
    by_cases hik : i = entry.1
    · subst hik
      obtain rfl := Option.some.inj (hcall.symm.trans hold)
      exact ⟨_, (hget _ _).mpr (Or.inl ⟨rfl, rfl⟩), holdIds, by simp⟩
    · exact ⟨old, (hget _ _).mpr (Or.inr ⟨hik, hold⟩), holdIds, hpast⟩
  · intro k new hnew hpast hnewIds
    rcases (hget k new).mp hnew with ⟨rfl, rfl⟩ | ⟨-, hold⟩
    · exact hlisted i ⟨ids, .extended all⟩ hcall (by simp) hids
    · exact hlisted k new hold hpast hnewIds
  · intro k new hnew hnewIds
    rcases (hget k new).mp hnew with ⟨rfl, rfl⟩ | ⟨-, hold⟩
    · exact absurd hnewIds hids
    · exact hnonempty k new hold hnewIds
  · intro k new snapshot hnew hextended
    rcases (hget k new).mp hnew with ⟨rfl, rfl⟩ | ⟨-, hold⟩
    · cases hextended
    · exact hsnapshot k new snapshot hold hextended

/-! ## Which runs keep every subscription -/

/-- While a call has not returned `Ok` there is nothing to show. -/
theorem subscribed_of_not_returned {s : State} {i : Nat} {call : Call}
    (hcall : s.calls[i]? = some call) (hphase : call.phase ≠ .returned (.ok ())) :
    Subscribed s := by
  intro hall
  exact absurd (hall call (List.mem_of_getElem? hcall)) hphase

theorem allReturned_send {s : State} {i : Nat} {ids all : List UInt32}
    (hcall : s.calls[i]? = some ⟨ids, .extended all⟩) (random : UInt16) :
    (s.send i all random).AllReturned ↔ s.writerAlive = true ∧ s.OthersReturned i := by
  have hget : ∀ (k : Nat) (new : Call), (s.send i all random).calls[k]? = some new ↔
      (i = k ∧ new = ⟨ids, .returned (if s.writerAlive then .ok () else .error .channelClosed)⟩) ∨
        (i ≠ k ∧ s.calls[k]? = some new) := by
    intro k new
    rw [State.send, getElem?_modify_eq_some hcall]
  constructor
  · intro hall
    have hself := hall _ (List.mem_of_getElem? ((hget i _).mpr (Or.inl ⟨rfl, rfl⟩)))
    refine ⟨?_, ?_⟩
    · cases halive : s.writerAlive
      · simp [halive] at hself
      · rfl
    · intro call hmem
      obtain ⟨k, hki, hk⟩ := List.mem_eraseIdx_iff_getElem?.mp hmem
      exact hall call (List.mem_of_getElem? ((hget k call).mpr (Or.inr ⟨hki.symm, hk⟩)))
  · rintro ⟨halive, hothers⟩ call hmem
    obtain ⟨k, hk⟩ := List.mem_iff_getElem?.mp hmem
    rcases (hget k call).mp hk with ⟨-, rfl⟩ | ⟨hik, hold⟩
    · simp [halive]
    · exact hothers call (List.mem_eraseIdx_iff_getElem?.mpr ⟨k, fun h => hik h.symm, hold⟩)

/-- The last call to send decides what the server streams from then on. -/
theorem subscribed_send {s : State} {i : Nat} {ids all : List UInt32} (hinv : Inv s)
    (hcall : s.calls[i]? = some ⟨ids, .extended all⟩) (random : UInt16) :
    Subscribed (s.send i all random) ↔ Guard s (.send i random) := by
  rw [Subscribed, allReturned_send hcall, and_imp]
  refine imp_congr_right fun halive => imp_congr_right fun _ => ?_
  have hsettled : (s.send i all random).settled = all := by
    simp only [State.settled, State.send, halive, if_true, List.foldl_append, List.foldl_cons,
      List.foldl_nil, frameIds_buildCommand]
  have hsnapshot : ∀ id, id ∈ all ↔ Asked (s.lockedUpTo i) id := hinv.snapshot i _ all hcall rfl
  have hheld : ∀ id, id ∈ s.subscriptions ↔
      Asked (s.lockedUpTo i) id ∨ Asked (s.lockedAfter i) id := by
    intro id
    rw [hinv.held id, asked_locked_iff s i id]
  show (∀ id, id ∈ (s.send i all random).settled ↔ id ∈ s.subscriptions) ↔ _
  simp only [hsettled, hsnapshot, hheld]
  constructor
  · intro h entry hentry id hid
    exact (h id).mpr (Or.inr ⟨entry, hentry, hid⟩)
  · intro h id
    refine ⟨Or.inl, ?_⟩
    rintro (hbefore | ⟨entry, hentry, hid⟩)
    · exact hbefore
    · exact h entry hentry id hid

/-- Every step keeps the invariant, and a step out of a state that streams
everything leads to one exactly when it meets the guard. -/
theorem step_spec {s t : State} {label : Label} (hinv : Inv s) (hstep : step s label = some t) :
    Inv t ∧ (Subscribed s → (Subscribed t ↔ Guard s label)) := by
  cases label with
  | symbolInfo name id =>
    obtain rfl := Option.some.inj hstep
    exact ⟨⟨hinv.entered, hinv.listed, hinv.nonempty, hinv.snapshot, hinv.held⟩,
      fun h => iff_of_true h trivial⟩
  | subscribe names =>
    obtain rfl := Option.some.inj hstep
    refine ⟨hinv.subscribe names, fun h => iff_of_true ?_ trivial⟩
    intro hall
    exact h fun call hcall => hall call (List.mem_append_left _ hcall)
  | extend i =>
    simp only [step] at hstep
    split at hstep
    · rename_i call hcall
      simp only [Option.ite_none_right_eq_some, Option.some.injEq] at hstep
      obtain ⟨hphase, rfl⟩ := hstep
      refine ⟨hinv.extend hcall hphase, fun _ => iff_of_true ?_ trivial⟩
      exact subscribed_of_not_returned
        ((getElem?_modify_eq_some hcall).mpr (Or.inl ⟨rfl, rfl⟩)) (by simp)
    · cases hstep
  | send i random =>
    simp only [step] at hstep
    split at hstep
    · rename_i ids all hcall
      obtain rfl := Option.some.inj hstep
      exact ⟨hinv.send hcall random, fun _ => subscribed_send hinv hcall random⟩
    · cases hstep
  | receive =>
    simp only [step] at hstep
    split at hstep
    · rename_i command rest houtbound
      obtain rfl := Option.some.inj hstep
      refine ⟨⟨hinv.entered, hinv.listed, hinv.nonempty, hinv.snapshot, hinv.held⟩,
        fun h => iff_of_true ?_ trivial⟩
      simpa [Subscribed, State.AllReturned, State.settled, houtbound] using h
    · cases hstep
  | writerEnd =>
    obtain rfl := Option.some.inj hstep
    exact ⟨⟨hinv.entered, hinv.listed, hinv.nonempty, hinv.snapshot, hinv.held⟩,
      fun h => iff_of_true h trivial⟩

/-- The set that the client keeps has every id that a call asked for. -/
theorem mem_subscriptions_iff {s : State} (hinv : Inv s) (hall : s.AllReturned) (id : UInt32) :
    id ∈ s.subscriptions ↔ ∃ call ∈ s.calls, id ∈ call.ids := by
  rw [hinv.held id]
  constructor
  · rintro ⟨entry, hentry, hid⟩
    obtain ⟨call, hcall, hids, -⟩ := hinv.entered entry hentry
    exact ⟨call, List.mem_of_getElem? hcall, hids ▸ hid⟩
  · rintro ⟨call, hmem, hid⟩
    obtain ⟨i, hcall⟩ := List.mem_iff_getElem?.mp hmem
    refine ⟨(i, call.ids), hinv.listed i call hcall ?_ (List.ne_nil_of_mem hid), hid⟩
    rw [hall call hmem]
    simp

/-- The server streams everything that the calls asked for, at every point of a
run where all of them have returned `Ok`, exactly when each send that is the
last one meets the guard. -/
theorem subscribed_iff {symbols : AList fun _ : String => UInt32} {labels : List Label} {s : State}
    (hrun : exec step (.init symbols) labels = some s) :
    (Throughout step Subscribed (.init symbols) labels ↔
      StepsMeet step Guard (.init symbols) labels) ∧
      (s.AllReturned → ∀ id, id ∈ s.subscriptions ↔ ∃ call ∈ s.calls, id ∈ call.ids) := by
  have hinit : Subscribed (.init symbols) := by
    simp [Subscribed, State.init, State.settled]
  have hkeep : ∀ s label t, Inv s → step s label = some t → Inv t :=
    fun _ _ _ hinv hstep => (step_spec hinv hstep).1
  refine ⟨?_, mem_subscriptions_iff (exec_invariant hkeep (inv_init symbols) hrun)⟩
  exact stepsMeet_iff hkeep (fun _ _ _ hinv h hstep => (step_spec hinv hstep).2 h)
    (inv_init symbols) hinit hrun

/-- Two calls that send in the order in which they held the lock. -/
theorem subscribed_iff_run :
    Throughout step Subscribed (.init (AList.insert "EURUSD" 1 (AList.insert "XAUUSD" 2 ∅)))
      [.subscribe ["EURUSD"], .subscribe ["XAUUSD", "none"], .extend 0, .extend 1, .send 0 7,
        .send 1 8, .receive, .receive] := by
  obtain ⟨s, hrun⟩ := Option.isSome_iff_exists.mp (by decide : Option.isSome (exec step
    (.init (AList.insert "EURUSD" 1 (AList.insert "XAUUSD" 2 ∅)))
    [.subscribe ["EURUSD"], .subscribe ["XAUUSD", "none"], .extend 0, .extend 1, .send 0 7,
      .send 1 8, .receive, .receive]))
  exact (subscribed_iff hrun).1.mpr (by decide)

/-- A tick stream and a snapshot subscribe at the same time.  The first to hold
the lock is the last to send, and the symbol of the other one is dropped. -/
theorem not_subscribed_run :
    ¬ ∀ symbols labels s, exec step (.init symbols) labels = some s → s.outbound = [] →
      s.AllReturned → ∀ id, id ∈ s.active ↔ id ∈ s.subscriptions := by
  intro h
  have hrun : (exec step (.init (AList.insert "EURUSD" 1 (AList.insert "XAUUSD" 2 ∅)))
      [.subscribe ["EURUSD"], .subscribe ["XAUUSD"], .extend 0, .extend 1, .send 1 8, .send 0 7,
        .receive, .receive]).map
          (fun s => (s.outbound, s.calls.map (·.phase), s.active, s.subscriptions.toList)) =
        some ([], [.returned (.ok ()), .returned (.ok ())], [1], [1, 2]) := by decide
  obtain ⟨s, hrun, hstate⟩ := Option.map_eq_some_iff.mp hrun
  simp only [Prod.mk.injEq] at hstate
  obtain ⟨hdrained, hphases, hactive, hset⟩ := hstate
  have hall : s.AllReturned := by
    intro call hcall
    have hmem : call.phase ∈ s.calls.map (·.phase) := List.mem_map_of_mem hcall
    rw [hphases] at hmem
    simpa using hmem
  have hmember : (2 : UInt32) ∈ s.subscriptions := by
    rw [← Std.TreeSet.mem_toList, hset]
    simp
  have hstreamed := (h _ _ s hrun hdrained hall 2).mpr hmember
  rw [hactive] at hstreamed
  exact absurd hstreamed (by decide)

end Mt5Open.Webterm.Subscribe

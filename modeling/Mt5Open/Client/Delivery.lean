import Mt5Open.Client.Account
import Mt5Open.Client.Trade

/-!
# What reaches the consumer

Requests and trades poll while they wait, and the messages that they pass over
are applied like those of any other poll.  `Delivers` is what a call does to the
depth queue and to the replica: the records of the messages that it has polled
are behind those that waited, and the orders and the positions have replayed the
updates.  `depth_delivered` is about whole runs of calls.

A poll that fails can have read a message that it did not apply, or only a part
of it.  The client is unhealthy then, and no later call reads or adds anything.
-/

namespace Mt5Open.Native

open Lib

namespace Client

variable {primitives : Primitives}

/-- The messages that polls have returned. -/
def messagesOf (polls : List (Result (Option Message))) : List Message :=
  polls.filterMap fun polled =>
    match polled with
    | .ok message => message
    | .error _ => none

/-- The depth records of the messages. -/
def depthRecords (messages : List Message) : List DepthRecord :=
  messages.flatMap fun m : Message =>
    if m.command = 52 then
      match decodeDepth m.payload with
      | .ok records => records
      | .error _ => []
    else []

theorem messagesOf_append (front back : List (Result (Option Message))) :
    messagesOf (front ++ back) = messagesOf front ++ messagesOf back :=
  List.filterMap_append

theorem depthRecords_append (front back : List Message) :
    depthRecords (front ++ back) = depthRecords front ++ depthRecords back :=
  List.flatMap_append

theorem updates_append (front back : List Message) :
    updates (front ++ back) = updates front ++ updates back :=
  List.flatMap_append

/-! ## What is read -/

/-- What a poll does before it applies a message. -/
def receive (tick : Tick) : Method (Option Message) := do
  keepalive tick
  onSession Session.pollMessage

theorem pollInner_eq (tick : Tick) :
    pollInner tick = receive tick >>= fun message => accept tick message >>= fun _ => pure message :=
  (Act.bind_assoc _ _ _).symm

/-- The messages that a poll reads from the session, whether or not it can apply them. -/
def pollReads (tick : Tick) (c : Client) : List Message :=
  if c.healthy then
    match (receive tick c).1 with
    | .ok message => message.toList
    | .error _ => []
  else []

/-- The messages that the polls of `await` read. -/
def awaitedReads {σ β : Type} (deadline : Nat) (handle : σ → Result (Option Message) → σ ⊕ β) :
    List Tick → σ → Client → List Message
  | [], _, _ => []
  | tick :: ticks, waiting, c =>
    if deadline < tick.now then []
    else
      pollReads tick c ++
        match handle waiting (poll tick c).1 with
        | .inr _ => []
        | .inl waiting => awaitedReads deadline handle ticks waiting (poll tick c).2

/-- The messages that the polls of a trade call read. -/
def tradeReads (primitives : Primitives) (now : Nat) (ticks : List Tick) (record : Bytes)
    (c : Client) : List Message :=
  match c.checkTrade record with
  | .error _ => []
  | .ok () =>
    match onSession (Session.sendTrade primitives record) c with
    | (.error _, _) => []
    | (.ok _, c) =>
      awaitedReads (now + 30 * 1000) (handleTrade (requestIdOf record)) ticks 0
        { c with lastSend := now }

/-- The messages that the polls of a request read. -/
def requestReads (now : Nat) (ticks : List Tick) (command : UInt8) (payload : Bytes) (c : Client) :
    List Message :=
  match onSession (Session.sendRequest command payload) c with
  | (.error _, _) => []
  | (.ok sequence, c) =>
    awaitedReads (now + 30 * 1000) (handleRequest command sequence) ticks ()
      { c with lastSend := now }

/-- The messages that the polls of a call read. -/
def Call.reads (primitives : Primitives) : Call → Client → List Message
  | poll tick, c => pollReads tick c
  | request now ticks command payload, c => requestReads now ticks command payload c
  | trade now ticks record, c => tradeReads primitives now ticks record c
  | _, _ => []

/-! ## Calls that apply nothing -/

/-- The depth queue and the health. -/
def queue (c : Client) : List DepthRecord × Bool := (c.changedDepth, c.healthy)

/-- The client has this queue and this account. -/
def Rests (q : List DepthRecord × Bool) (state : SynchronizedState) (c : Client) : Prop :=
  c.queue = q ∧ c.state = state

section Rests

variable {q : List DepthRecord × Bool} {state : SynchronizedState}

theorem rests_onSession {α : Type} (x : Session.Method α) :
    Act.Preserves (Rests q state) (onSession x) :=
  .zoom fun _ h => h

theorem rests_subscribe (now : Nat) (names : List String) :
    Act.Preserves (Rests q state) (subscribe now names) :=
  .bind .get fun _ => .bind (.ofExcept _) fun _ => .bind (.ofExcept _) fun _ =>
    .bind (.modify fun _ h => h) fun _ => .bind .get fun _ =>
    .bind (rests_onSession _) fun _ => .modify fun _ h => h

theorem rests_subscribeDepth (now : Nat) (names : List String) :
    Act.Preserves (Rests q state) (subscribeDepth now names) :=
  .bind .get fun _ => .bind (.ofExcept _) fun _ => .bind (.modify fun _ h => h) fun _ =>
    .bind .get fun _ => .bind (rests_onSession _) fun _ => .modify fun _ h => h

theorem rests_keepalive (tick : Tick) : Act.Preserves (Rests q state) (keepalive tick) :=
  .bind .get fun _ => .ite (.bind (rests_onSession _) fun _ => .modify fun _ h => h) (.pure _)

end Rests

/-! ## One message -/

/-- The client has this queue. -/
def Queued (q : List DepthRecord × Bool) (c : Client) : Prop := c.queue = q

theorem foldl_frame {α β : Type} {f : Client → β} {step : Client → α → Client}
    (hstep : ∀ c a, f (step c a) = f c) (l : List α) (c : Client) : f (l.foldl step c) = f c := by
  induction l generalizing c with
  | nil => rfl
  | cons a l ih => exact (ih (step c a)).trans (hstep c a)

/-- An update changes the account and the index of its symbols. -/
theorem absorb_frame {β : Type} {f : Client → β}
    (h : ∀ c state symbolIds, f { c with state, symbolIds } = f c) (c : Client) (update : Update) :
    f (c.absorb update) = f c := by
  have hposition : ∀ c position, f (applyPosition c position) = f c := fun c _ =>
    h c _ c.symbolIds
  cases update with
  | symbols symbols =>
    refine foldl_frame (fun c s => ?_) symbols c
    unfold applySymbol
    split
    · exact h c _ c.symbolIds
    · exact h c _ _
  | account accounts =>
    refine foldl_frame (fun c account => ?_) accounts c
    unfold applyAccount
    split
    · exact h c _ c.symbolIds
    · rfl
  | orders orders => exact foldl_frame (fun c _ => h c _ c.symbolIds) orders c
  | positions changes =>
    refine foldl_frame (fun c change => ?_) changes c
    have hpositions := foldl_frame hposition (change.position :: change.relatedPositions) c
    unfold applyPositionChange
    split
    · exact (h _ _ (Client.symbolIds _)).trans hpositions
    · exact hpositions
  | other => rfl

theorem queued_follow {q : List DepthRecord × Bool} (now : Nat) (update : Update) :
    Act.Preserves (Queued q) (follow now update) := by
  cases update with
  | positions changes =>
    exact .bind .get fun _ => .ite (.pure _) (.of_snd fun c h =>
      ((rests_subscribe now _).snd (s := c) ⟨h, rfl⟩).1)
  | symbols _ => exact .pure _
  | account _ => exact .pure _
  | orders _ => exact .pure _
  | other => exact .pure _

theorem queued_applyQuote {q : List DepthRecord × Bool} (command : UInt8) (row : QuoteRow) :
    Act.Preserves (Queued q) (applyQuote command row) :=
  .bind .get fun _ => .bind (.ofExcept _) fun _ => .bind (.ofExcept _) fun _ =>
    .bind (.modify fun _ h => h) fun _ => .bind .get fun _ =>
    .ite (.ite (.fail _) (.modify fun _ h => h)) (.pure _)

/-- The records go to the queue in order, up to the first one of an unknown symbol. -/
theorem applyDepth_queue (records : List DepthRecord) (c : Client) :
    ∃ taken, taken <+: records ∧
      (records.forM applyDepth c).2.queue = (c.changedDepth ++ taken, c.healthy) ∧
      ((records.forM applyDepth c).1 = .ok () → taken = records) := by
  induction records generalizing c with
  | nil => exact ⟨[], List.nil_prefix, by simp [queue], fun _ => rfl⟩
  | cons record records ih =>
    by_cases hknown : record.symbolId ∉ c.symbolIds
    · have hfail : applyDepth record c = (.error ⟨"unknown depth symbol ID"⟩, c) := by
        show (if record.symbolId ∉ c.symbolIds then _ else _ : Method Unit) c = _
        rw [if_pos hknown]
        rfl
      refine ⟨[], List.nil_prefix, ?_, ?_⟩
      · show ((applyDepth record >>= fun _ => records.forM applyDepth) c).2.queue = _
        rw [Act.bind_of_error hfail, List.append_nil]
        rfl
      · intro hok
        rw [show (record :: records).forM applyDepth c = _ from Act.bind_of_error hfail] at hok
        cases hok
    · have hpush : applyDepth record c =
          (.ok (), { c with changedDepth := c.changedDepth ++ [record] }) := by
        show (if record.symbolId ∉ c.symbolIds then _ else _ : Method Unit) c = _
        rw [if_neg hknown]
        rfl
      obtain ⟨taken, hprefix, hqueue, hall⟩ :=
        ih { c with changedDepth := c.changedDepth ++ [record] }
      have hrun : (record :: records).forM applyDepth c =
          records.forM applyDepth { c with changedDepth := c.changedDepth ++ [record] } :=
        Act.bind_of_ok hpush
      refine ⟨record :: taken, List.cons_prefix_cons.mpr ⟨rfl, hprefix⟩, ?_, ?_⟩
      · rw [hrun, hqueue, List.append_assoc]
        rfl
      · intro hok
        rw [hrun] at hok
        rw [hall hok]

/-- What a message adds to the queue: its depth records if it is applied, and some
of them at most if it is not.  The queue stays within its limit. -/
structure Adds (m : Message) (c : Client) (result : Result Unit × Client) : Prop where
  added : ∃ taken, result.2.queue = (c.changedDepth ++ taken, c.healthy) ∧
    taken <+: depthRecords [m] ∧ (result.1 = .ok () → taken = depthRecords [m])
  bounded : c.changedDepth.length ≤ 10000 → result.2.changedDepth.length ≤ 10000

theorem Adds.of_queued {m : Message} {c : Client} {x : Method Unit}
    (hx : Act.Preserves (Queued c.queue) x) (hnone : depthRecords [m] = []) : Adds m c (x c) := by
  have hqueue : (x c).2.queue = c.queue := hx.snd (s := c) rfl
  have hdepth : (x c).2.changedDepth = c.changedDepth := congrArg Prod.fst hqueue
  refine ⟨⟨[], ?_, List.nil_prefix, fun _ => hnone.symm⟩, ?_⟩
  · rw [hqueue, List.append_nil]
    rfl
  · intro hle
    rw [hdepth]
    exact hle

theorem apply_adds (now : Nat) (m : Message) (c : Client) : Adds m c (apply now m c) := by
  have hother : m.command ≠ 52 → depthRecords [m] = [] := by
    intro hne
    simp [depthRecords, hne]
  unfold apply
  by_cases hquotes : m.command = 50 ∨ m.command = 51
  · rw [if_pos hquotes]
    refine Adds.of_queued (.bind (.ofExcept _) fun rows =>
      .forM (queued_applyQuote m.command) rows) (hother ?_)
    rcases hquotes with hc | hc
    all_goals
      rw [hc]
      decide
  rw [if_neg hquotes]
  by_cases hdepth : m.command = 52
  · rw [if_pos hdepth]
    cases hdecode : decodeDepth m.payload with
    | error e =>
      exact ⟨⟨[], by rw [List.append_nil]; rfl, List.nil_prefix, fun hok => by cases hok⟩, id⟩
    | ok records =>
      have hrecords : depthRecords [m] = records := by simp [depthRecords, hdepth, hdecode]
      show Adds m c ((if 10000 < c.changedDepth.length + records.length then _ else _ :
        Method Unit) c)
      by_cases hfull : 10000 < c.changedDepth.length + records.length
      · rw [if_pos hfull]
        exact ⟨⟨[], by rw [List.append_nil]; rfl, List.nil_prefix, fun hok => by cases hok⟩, id⟩
      · rw [if_neg hfull]
        obtain ⟨taken, hprefix, hqueue, hall⟩ := applyDepth_queue records c
        refine ⟨⟨taken, hqueue, hrecords ▸ hprefix, hrecords ▸ hall⟩, ?_⟩
        intro _
        have hlength : (records.forM applyDepth c).2.changedDepth = c.changedDepth ++ taken :=
          congrArg Prod.fst hqueue
        have := hprefix.length_le
        rw [hlength, List.length_append]
        omega
  rw [if_neg hdepth]
  by_cases hupdate : m.command = 55
  · rw [if_pos hupdate]
    refine Adds.of_queued (.bind (.ofExcept _) fun update => ?_) (hother hdepth)
    refine .bind (.modify fun d h => ?_) fun _ => queued_follow now update
    rw [Queued, absorb_frame (f := queue) fun _ _ _ => rfl]
    exact h
  · rw [if_neg hupdate]
    exact Adds.of_queued (.pure _) (hother hdepth)

/-! ## One poll -/

/-- What calls do to a client that hand out these records, read these messages and whose polls have
these results.  What is read are the messages that the polls return, and at most one behind them
that could not be applied.  The queue gets the records of the former, and the first records of the
latter.  The orders and the positions replay the updates, and nothing is read or added by an
unhealthy client. -/
structure Delivers (handed : List DepthRecord) (read : List Message)
    (polls : List (Result (Option Message))) (c d : Client) : Prop where
  depth : ∃ torn more, read = messagesOf polls ++ torn ∧ torn.length ≤ 1 ∧
    more <+: depthRecords torn ∧ (d.healthy = true → torn = []) ∧
    handed ++ d.changedDepth = c.changedDepth ++ (depthRecords (messagesOf polls) ++ more)
  bounded : c.changedDepth.length ≤ 10000 → d.changedDepth.length ≤ 10000
  stopped : c.healthy = false → messagesOf polls = [] ∧ read = [] ∧
    handed ++ d.changedDepth = c.changedDepth ∧ d.healthy = false
  replays : d.healthy = true → Replays ((updates (messagesOf polls)).flatMap orderRecords)
    ((updates (messagesOf polls)).flatMap positionRecords) c d

/-- No message is torn as long as the client is healthy. -/
theorem Delivers.depth_healthy {handed : List DepthRecord} {read : List Message}
    {polls : List (Result (Option Message))} {c d : Client} (h : Delivers handed read polls c d)
    (hhealthy : d.healthy = true) :
    handed ++ d.changedDepth = c.changedDepth ++ depthRecords (messagesOf polls) := by
  obtain ⟨torn, more, -, -, hprefix, hwhole, hdepth⟩ := h.depth
  rw [hwhole hhealthy] at hprefix
  rw [hdepth, List.prefix_nil.mp hprefix, List.append_nil]

theorem Delivers.of_rests {c d : Client} (h : Rests c.queue c.state d) : Delivers [] [] [] c d := by
  have hdepth : d.changedDepth = c.changedDepth := congrArg Prod.fst h.1
  have hhealth : d.healthy = c.healthy := congrArg Prod.snd h.1
  refine ⟨⟨[], [], rfl, by decide, List.prefix_rfl, fun _ => rfl, ?_⟩, ?_, ?_, ?_⟩
  · rw [hdepth]
    exact (List.append_nil _).symm
  · intro hle
    rw [hdepth]
    exact hle
  · intro hunhealthy
    exact ⟨rfl, rfl, hdepth, hhealth.trans hunhealthy⟩
  · intro _
    exact ⟨congrArg SynchronizedState.orders h.2, congrArg SynchronizedState.positions h.2,
      congrArg (fun state => state.account.login) h.2⟩

theorem Delivers.trans {handed handed' : List DepthRecord} {read read' : List Message}
    {polls polls' : List (Result (Option Message))} {c d e : Client}
    (h : Delivers handed read polls c d) (k : Delivers handed' read' polls' d e) :
    Delivers (handed ++ handed') (read ++ read') (polls ++ polls') c e := by
  obtain ⟨torn, more, hread, hone, hprefix, hwhole, hdepth⟩ := h.depth
  refine ⟨?_, fun hle => k.bounded (h.bounded hle), ?_, ?_⟩
  · cases hd : d.healthy with
    | true =>
      obtain ⟨torn', more', hread', hone', hprefix', hwhole', hdepth'⟩ := k.depth
      have hnone : torn = [] := hwhole hd
      refine ⟨torn', more', ?_, hone', hprefix', hwhole', ?_⟩
      · rw [hread, hread', hnone, List.append_nil, messagesOf_append, List.append_assoc]
      · rw [List.append_assoc, hdepth', ← List.append_assoc, h.depth_healthy hd, messagesOf_append,
          depthRecords_append]
        simp only [List.append_assoc]
    | false =>
      obtain ⟨hnone, hunread, hsame, hstill⟩ := k.stopped hd
      refine ⟨torn, more, ?_, hone, hprefix, ?_, ?_⟩
      · rw [hunread, List.append_nil, hread, messagesOf_append, hnone, List.append_nil]
      · intro he
        rw [hstill] at he
        cases he
      · rw [List.append_assoc, hsame, hdepth, messagesOf_append, hnone, List.append_nil]
  · intro hc
    obtain ⟨hnone, hunread, hsame, hd⟩ := h.stopped hc
    obtain ⟨hnone', hunread', hsame', he⟩ := k.stopped hd
    refine ⟨by rw [messagesOf_append, hnone, hnone']; rfl, by rw [hunread, hunread']; rfl, ?_, he⟩
    rw [List.append_assoc, hsame', hsame]
  · intro he
    have hd : d.healthy = true := by
      cases hd : d.healthy with
      | true => rfl
      | false =>
        rw [(k.stopped hd).2.2.2] at he
        cases he
    have hall := (h.replays hd).trans (k.replays he)
    rw [← List.flatMap_append, ← List.flatMap_append, ← updates_append, ← messagesOf_append]
      at hall
    exact hall

/-- A poll that fails without a message. -/
theorem Delivers.failed {c d : Client} (h : Rests c.queue c.state d) (e : ProtocolError) :
    Delivers [] [] [.error e] c { d with healthy := false } := by
  have hdepth : d.changedDepth = c.changedDepth := congrArg Prod.fst h.1
  refine ⟨⟨[], [], rfl, by decide, List.prefix_rfl, fun _ => rfl, ?_⟩, ?_, ?_, ?_⟩
  · rw [← hdepth]
    exact (List.append_nil _).symm
  · intro hle
    rw [← hdepth] at hle
    exact hle
  · intro _
    exact ⟨rfl, rfl, hdepth, rfl⟩
  · intro hhealthy
    cases hhealthy

/-- A message that is applied, or that is not. -/
theorem Delivers.applied {c d : Client} (h : Rests c.queue c.state d) (hhealthy : c.healthy = true)
    (now : Nat) (m : Message) :
    (∀ e, apply now m d = (.ok (), e) → Delivers [] [m] [.ok (some m)] c e) ∧
      ∀ error e, apply now m d = (.error error, e) →
        Delivers [] [m] [.error error] c { e with healthy := false } := by
  have hdepth : d.changedDepth = c.changedDepth := congrArg Prod.fst h.1
  have hadds := apply_adds now m d
  obtain ⟨taken, hqueue, hprefix, hall⟩ := hadds.added
  have hbounded := hadds.bounded
  rw [hdepth] at hqueue hbounded
  constructor
  · intro e hrun
    rw [hrun] at hqueue hall hbounded
    have htaken : taken = depthRecords (messagesOf [.ok (some m)]) := hall rfl
    have hspec := (apply_spec hrun).1
    refine ⟨⟨[], [], rfl, by decide, List.prefix_rfl, fun _ => rfl, ?_⟩, hbounded, ?_, ?_⟩
    · rw [← htaken, List.append_nil]
      exact congrArg Prod.fst hqueue
    · intro hfalse
      rw [hhealthy] at hfalse
      cases hfalse
    · intro _
      have hstate := h.2
      refine ⟨?_, ?_, ?_⟩
      · rw [← hstate]
        exact hspec.orders
      · rw [← hstate]
        exact hspec.positions
      · rw [← hstate]
        exact hspec.login
  · intro error e hrun
    rw [hrun] at hqueue hbounded
    refine ⟨⟨[m], taken, rfl, Nat.le_refl 1, hprefix, ?_, congrArg Prod.fst hqueue⟩, hbounded,
      ?_, ?_⟩
    · intro hfalse
      cases hfalse
    · intro hfalse
      rw [hhealthy] at hfalse
      cases hfalse
    · intro hfalse
      cases hfalse

theorem accept_delivers {c : Client} (hhealthy : c.healthy = true) (tick : Tick)
    (message : Option Message) :
    Act.Ensures (Rests c.queue c.state) (accept tick message)
      (fun _ d => Delivers [] message.toList [.ok message] c d)
      fun e d => Delivers [] message.toList [.error e] c { d with healthy := false } := by
  intro d hd
  cases message with
  | none =>
    have hquiet : ∀ e : Client, Rests c.queue c.state e → Delivers [] [] [.ok none] c e := by
      intro e he
      have h := Delivers.of_rests he
      exact ⟨h.depth, h.bounded, h.stopped, h.replays⟩
    have hrun : accept tick none d = (if d.receiveDeadline ≤ tick.received - d.lastReceive then
        Act.fail ⟨s!"broker sent nothing for {d.receiveDeadline / 1000} s"⟩
      else pure () : Method Unit) d := rfl
    by_cases hlate : d.receiveDeadline ≤ tick.received - d.lastReceive
    · rw [hrun, if_pos hlate]
      exact Delivers.failed hd _
    · rw [hrun, if_neg hlate]
      exact hquiet d hd
  | some m =>
    have happlied := Delivers.applied (d := { d with lastReceive := tick.received }) hd hhealthy
      tick.applied m
    have hrun : accept tick (some m) d =
        apply tick.applied m { d with lastReceive := tick.received } := rfl
    rw [hrun]
    rcases happly : apply tick.applied m { d with lastReceive := tick.received } with ⟨e | u, t⟩
    · exact happlied.2 e t happly
    · exact happlied.1 t happly

theorem rests_receive {q : List DepthRecord × Bool} {state : SynchronizedState} (tick : Tick) :
    Act.Preserves (Rests q state) (receive tick) :=
  .bind (rests_keepalive tick) fun _ => rests_onSession Session.pollMessage

theorem pollInner_delivers {c : Client} (hhealthy : c.healthy = true) (tick : Tick) :
    (∀ message d, pollInner tick c = (.ok message, d) →
        Delivers [] (pollReads tick c) [.ok message] c d) ∧
      ∀ e d, pollInner tick c = (.error e, d) →
        Delivers [] (pollReads tick c) [.error e] c { d with healthy := false } := by
  have hrests : Rests c.queue c.state (receive tick c).2 := (rests_receive tick).snd ⟨rfl, rfl⟩
  rw [pollInner_eq, pollReads, if_pos hhealthy]
  rcases hreceive : receive tick c with ⟨error | message, d⟩
  · rw [hreceive] at hrests
    rw [Act.bind_of_error hreceive]
    refine ⟨fun message e h => (by cases h), ?_⟩
    intro error' d' h
    cases h
    exact Delivers.failed hrests error
  · rw [hreceive] at hrests
    rw [Act.bind_of_ok hreceive]
    have haccept := accept_delivers hhealthy tick message d hrests
    rcases hrun : accept tick message d with ⟨error | u, e⟩
    · rw [hrun] at haccept
      rw [Act.bind_of_error hrun]
      refine ⟨fun message e h => (by cases h), ?_⟩
      intro error' d' h
      cases h
      exact haccept
    · rw [hrun] at haccept
      rw [Act.bind_of_ok hrun]
      refine ⟨?_, fun e d h => by cases h⟩
      intro message' d' h
      cases h
      exact haccept

theorem poll_delivers (tick : Tick) (c : Client) :
    Delivers [] (pollReads tick c) [(poll tick c).1] c (poll tick c).2 := by
  cases hhealthy : c.healthy with
  | false =>
    have hrun : poll tick c =
        (.error ⟨"native state requires a fresh synchronization"⟩, c) := by simp [poll, hhealthy]
    have hreads : pollReads tick c = [] := by simp [pollReads, hhealthy]
    rw [hrun, hreads]
    have h := Delivers.failed (c := c) ⟨rfl, rfl⟩ ⟨"native state requires a fresh synchronization"⟩
    rwa [show ({ c with healthy := false } : Client) = c by rw [← hhealthy]] at h
  | true =>
    obtain ⟨hok, herror⟩ := pollInner_delivers hhealthy tick
    rcases hrun : pollInner tick c with ⟨e | message, d⟩
    · simp only [poll, hhealthy, hrun]
      exact herror e d hrun
    · simp only [poll, hhealthy, hrun]
      exact hok message d hrun

/-! ## Calls -/

/-- The loop of requests and trades is its polls. -/
theorem await_delivers {σ β : Type} {deadline : Nat} {late : β}
    {handle : σ → Result (Option Message) → σ ⊕ β} (ticks : List Tick) (waiting : σ) (c : Client) :
    Delivers [] (awaitedReads deadline handle ticks waiting c)
      (awaited deadline handle ticks waiting c) c
      (await deadline late handle ticks waiting c).2 := by
  induction ticks generalizing waiting c with
  | nil => exact .of_rests ⟨rfl, rfl⟩
  | cons tick ticks ih =>
    rw [await, awaited, awaitedReads]
    by_cases hlate : deadline < tick.now
    · rw [if_pos hlate, if_pos hlate, if_pos hlate]
      exact .of_rests ⟨rfl, rfl⟩
    · rw [if_neg hlate, if_neg hlate, if_neg hlate]
      have hpoll := poll_delivers tick c
      cases handle waiting (poll tick c).1 with
      | inr result =>
        rw [List.append_nil]
        exact hpoll
      | inl waiting => exact hpoll.trans (ih waiting (poll tick c).2)

/-- The depth records that a call hands out. -/
def Call.hands : Call → Client → List DepthRecord
  | takeDepthUpdates, c => (Client.takeDepthUpdates c).1
  | _, _ => []

theorem call_delivers (call : Call) (c : Client) :
    Delivers (call.hands c) (call.reads primitives c) (call.polls primitives c) c
      (call.run primitives c) := by
  cases call with
  | poll tick => exact poll_delivers tick c
  | request now ticks command payload =>
    have hsent := (rests_onSession (Session.sendRequest command payload)).snd (s := c) ⟨rfl, rfl⟩
    show Delivers [] (requestReads now ticks command payload c)
      (requestPolls now ticks command payload c) c (request now ticks command payload c).2
    rw [requestReads, requestPolls, request]
    rcases hsend : onSession (Session.sendRequest command payload) c with ⟨e | sequence, d⟩
    · rw [hsend] at hsent
      rw [Act.bind_of_error hsend]
      exact .of_rests hsent
    · rw [hsend] at hsent
      rw [Act.bind_of_ok hsend]
      exact (Delivers.of_rests (d := { d with lastSend := now }) hsent).trans
        (await_delivers ticks () _)
  | trade now ticks record =>
    have hsent := (rests_onSession (Session.sendTrade primitives record)).snd (s := c) ⟨rfl, rfl⟩
    show Delivers [] (tradeReads primitives now ticks record c)
      (tradePolls primitives now ticks record c) c (trade primitives now ticks record c).2
    rw [tradeReads, tradePolls, trade]
    cases c.checkTrade record with
    | error e => exact .of_rests ⟨rfl, rfl⟩
    | ok checked =>
      rcases hsend : onSession (Session.sendTrade primitives record) c with ⟨e | sequence, d⟩
      · rw [hsend] at hsent
        simp only
        exact .of_rests hsent
      · rw [hsend] at hsent
        simp only
        exact (Delivers.of_rests (d := { d with lastSend := now }) hsent).trans
          (await_delivers ticks 0 _)
  | subscribe now names => exact .of_rests ((rests_subscribe now names).snd (s := c) ⟨rfl, rfl⟩)
  | subscribeDepth now names =>
    exact .of_rests ((rests_subscribeDepth now names).snd (s := c) ⟨rfl, rfl⟩)
  | takeQuotes => exact .of_rests ⟨rfl, rfl⟩
  | setReceiveDeadline deadline => exact .of_rests ⟨rfl, rfl⟩
  | takeDepthUpdates =>
    show Delivers c.changedDepth [] [] c { c with changedDepth := [] }
    refine ⟨⟨[], [], rfl, by decide, List.prefix_rfl, fun _ => rfl, rfl⟩, fun _ => Nat.zero_le _,
      ?_, fun _ => ⟨rfl, rfl, rfl⟩⟩
    exact fun hc => ⟨rfl, rfl, List.append_nil _, hc⟩

/-! ## Runs -/

/-- The depth records that a run of calls hands out. -/
def handed (primitives : Primitives) : List Call → Client → List DepthRecord
  | [], _ => []
  | call :: calls, c => call.hands c ++ handed primitives calls (call.run primitives c)

/-- The messages that the polls of a run of calls read. -/
def messagesRead (primitives : Primitives) : List Call → Client → List Message
  | [], _ => []
  | call :: calls, c =>
    call.reads primitives c ++ messagesRead primitives calls (call.run primitives c)

/-- The results of the polls of a run of calls. -/
def polled (primitives : Primitives) : List Call → Client → List (Result (Option Message))
  | [], _ => []
  | call :: calls, c => call.polls primitives c ++ polled primitives calls (call.run primitives c)

theorem after_delivers (calls : List Call) (c : Client) :
    Delivers (handed primitives calls c) (messagesRead primitives calls c)
      (polled primitives calls c) c (after primitives calls c) := by
  induction calls generalizing c with
  | nil => exact .of_rests ⟨rfl, rfl⟩
  | cons call calls ih => exact (call_delivers call c).trans (ih (call.run primitives c))

/-- Whatever a client calls behind its login, and whatever happens to its session: the messages that
it has read are those that its polls return, and at most one behind them, which could not be
applied.  The depth records that it is handed and those that wait are the records of the messages
that its polls return, in order and each once, those of requests and trades included, and behind
them the first records of the message that could not be applied; the client is unhealthy then.  As
long as it is healthy there is no such message, and its orders and its positions are those of the
synchronization with the updates of these messages replayed over them. -/
theorem depth_delivered (primitives : Primitives) (session : Session) (state : SynchronizedState)
    (accountMode : String) (now : Nat) (calls : List Call) :
    let c := synchronized session state accountMode now
    let d := after primitives calls c
    let messages := messagesOf (polled primitives calls c)
    (∃ torn more, messagesRead primitives calls c = messages ++ torn ∧ torn.length ≤ 1 ∧
        more <+: depthRecords torn ∧ (d.healthy = true → torn = []) ∧
        handed primitives calls c ++ d.changedDepth = depthRecords messages ++ more) ∧
      d.changedDepth.length ≤ 10000 ∧
      (d.healthy = true →
        handed primitives calls c ++ d.changedDepth = depthRecords messages ∧
        d.state.orders =
          Replica.replay Order.ticket ((updates messages).flatMap orderRecords) state.orders ∧
        d.state.positions =
          Replica.replay Deal.ticket ((updates messages).flatMap positionRecords)
            state.positions) := by
  intro c d messages
  have hdelivers : Delivers (handed primitives calls c) (messagesRead primitives calls c)
      (polled primitives calls c) c d := after_delivers calls c
  refine ⟨hdelivers.depth, hdelivers.bounded (Nat.zero_le _), ?_⟩
  intro hhealthy
  have hreplays := hdelivers.replays hhealthy
  exact ⟨hdelivers.depth_healthy hhealthy, hreplays.orders, hreplays.positions⟩

end Client

end Mt5Open.Native

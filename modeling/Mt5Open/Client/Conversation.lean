import Mt5Open.Client.Delivery
import Mt5Open.Session.Conversation

/-!
# A client and its broker

The calls of a client are calls of its session.  `Drives` says which: they return
the messages that the polls of the client read, and the trades among them are
those that the client was called with.  So what holds of the conversation of a
session holds of a client, with its keepalives, its subscriptions and the polls
of its requests and trades.
-/

namespace Mt5Open.Native

open Lib

namespace Client

variable {primitives : Primitives} {α β : Type}

/-! ## Calls that do not poll -/

/-- The record of a trade of the session. -/
def tradeOf : Session.Call → Option Bytes
  | .sendTrade record => some record
  | _ => none

/-- The record of a trade of the client. -/
def Call.tradeOf : Call → Option Bytes
  | .trade _ _ record => some record
  | _ => none

theorem results_append (front back : List Session.Call) (s : Session) :
    Session.results primitives (front ++ back) s = Session.results primitives front s ++
      Session.results primitives back (Session.after primitives front s) := by
  induction front generalizing s with
  | nil => rfl
  | cons call front ih =>
    show (call.run primitives s).1 :: Session.results primitives (front ++ back) _ = _
    rw [ih]
    rfl

theorem accepted_sublist (calls : List Session.Call) (s : Session) :
    (Session.accepted primitives calls s).Sublist calls := by
  induction calls generalizing s with
  | nil => exact List.Sublist.refl []
  | cons call calls ih =>
    rw [Session.accepted]
    by_cases hsequence : Session.isSequence (call.run primitives s).1
    · rw [if_pos hsequence]
      exact (ih _).cons_cons call
    · rw [if_neg hsequence]
      exact (ih _).cons call

/-- From one client to the other, the session has made calls with so many polls, that returned these
messages and sent these trades. -/
def Talks (primitives : Primitives) (count : Nat) (read : List Message) (trades : List Bytes)
    (c d : Client) : Prop :=
  ∃ calls, d.session = Session.after primitives calls c.session ∧
    calls.countP Session.Call.polls = count ∧
    (Session.results primitives calls c.session).filterMap Session.returned = read ∧
    calls.filterMap tradeOf = trades

namespace Talks

theorem of_eq {c d : Client} (h : d.session = c.session) : Talks primitives 0 [] [] c d :=
  ⟨[], h, rfl, rfl, rfl⟩

theorem trans {count count' : Nat} {read read' : List Message} {trades trades' : List Bytes}
    {c d e : Client} (h : Talks primitives count read trades c d)
    (k : Talks primitives count' read' trades' d e) :
    Talks primitives (count + count') (read ++ read') (trades ++ trades') c e := by
  obtain ⟨calls, hsession, hcount, hread, htrades⟩ := h
  obtain ⟨calls', hsession', hcount', hread', htrades'⟩ := k
  refine ⟨calls ++ calls', ?_, ?_, ?_, ?_⟩
  · rw [hsession', hsession, Session.after_append]
  · rw [List.countP_append, hcount, hcount']
  · rw [results_append, List.filterMap_append, hread, ← hsession, hread']
  · rw [List.filterMap_append, htrades, htrades']

/-- One call of the session. -/
theorem single (call : Session.Call) {c d : Client}
    (h : d.session = (call.run primitives c.session).2) :
    Talks primitives (if call.polls then 1 else 0)
      (Session.returned (call.run primitives c.session).1).toList (tradeOf call).toList c d := by
  refine ⟨[call], h, ?_, ?_, ?_⟩
  · rw [List.countP_cons, List.countP_nil, Nat.zero_add]
  · show ((call.run primitives c.session).1 :: []).filterMap Session.returned = _
    cases hmessage : Session.returned (call.run primitives c.session).1 with
    | none => rw [List.filterMap_cons_none hmessage]; rfl
    | some m => rw [List.filterMap_cons_some hmessage]; rfl
  · cases htrade : tradeOf call with
    | none => rw [List.filterMap_cons_none htrade]; rfl
    | some record => rw [List.filterMap_cons_some htrade]; rfl

/-- One call of the session that neither polls nor trades. -/
theorem quiet (call : Session.Call) {c d : Client}
    (h : d.session = (call.run primitives c.session).2) (hpolls : call.polls = false)
    (htrade : tradeOf call = none) : Talks primitives 0 [] [] c d := by
  have hsingle := single call h
  rwa [Session.returned_of_not_polls hpolls, htrade, hpolls] at hsingle

theorem congr {count : Nat} {read : List Message} {trades : List Bytes} {c d e : Client}
    (h : Talks primitives count read trades c d) (he : e.session = d.session) :
    Talks primitives count read trades c e := by
  obtain ⟨calls, hsession, hread⟩ := h
  exact ⟨calls, he.trans hsession, hread⟩

end Talks

/-- The method neither polls nor trades, and it leaves the health alone. -/
def Quiet (primitives : Primitives) (x : Method α) : Prop :=
  ∀ c, (x c).2.healthy = c.healthy ∧ Talks primitives 0 [] [] c (x c).2

namespace Quiet

theorem of_session {x : Method α} (hhealth : ∀ c, (x c).2.healthy = c.healthy)
    (hsession : ∀ c, (x c).2.session = c.session) : Quiet primitives x :=
  fun c => ⟨hhealth c, .of_eq (hsession c)⟩

theorem pure (a : α) : Quiet primitives (pure a : Method α) :=
  of_session (fun _ => rfl) fun _ => rfl

theorem fail (e : ProtocolError) : Quiet primitives (Act.fail e : Method α) :=
  of_session (fun _ => rfl) fun _ => rfl

theorem get : Quiet primitives (Act.get : Method Client) := of_session (fun _ => rfl) fun _ => rfl

theorem ofExcept (x : Result α) : Quiet primitives (Act.ofExcept x : Method α) :=
  of_session (fun _ => rfl) fun _ => rfl

theorem modify {f : Client → Client} (hhealth : ∀ c, (f c).healthy = c.healthy)
    (hsession : ∀ c, (f c).session = c.session) :
    Quiet primitives (Act.modify f : Method Unit) :=
  of_session hhealth hsession

theorem bind {x : Method α} {f : α → Method β} (hx : Quiet primitives x)
    (hf : ∀ a, Quiet primitives (f a)) : Quiet primitives (x >>= f) := by
  intro c
  obtain ⟨hhealth, htalks⟩ := hx c
  rcases hrun : x c with ⟨e | a, d⟩
  · rw [hrun] at hhealth htalks
    rw [Act.bind_of_error hrun]
    exact ⟨hhealth, htalks⟩
  · rw [hrun] at hhealth htalks
    rw [Act.bind_of_ok hrun]
    exact ⟨(hf a d).1.trans hhealth, htalks.trans (hf a d).2⟩

theorem ite {p : Prop} [Decidable p] {x y : Method α} (hx : Quiet primitives x)
    (hy : Quiet primitives y) : Quiet primitives (if p then x else y) := by
  by_cases h : p
  · rw [if_pos h]
    exact hx
  · rw [if_neg h]
    exact hy

theorem forM {f : α → Method Unit} (h : ∀ a, Quiet primitives (f a)) (l : List α) :
    Quiet primitives (l.forM f) := by
  induction l with
  | nil => exact pure ()
  | cons a l ih => exact (h a).bind fun _ => ih

theorem sendRequest (command : UInt8) (payload : Bytes) :
    Quiet primitives (onSession (Session.sendRequest command payload)) :=
  fun _ => ⟨rfl, .quiet (.sendRequest command payload) rfl rfl rfl⟩

theorem subscribeSession (symbolIds : List Int) :
    Quiet primitives (onSession (Session.subscribe symbolIds)) :=
  fun _ => ⟨rfl, .quiet (.subscribe symbolIds) rfl rfl rfl⟩

theorem subscribe (now : Nat) (names : List String) : Quiet primitives (subscribe now names) :=
  .bind .get fun _ => .bind (.ofExcept _) fun _ => .bind (.ofExcept _) fun _ =>
    .bind (.modify (fun _ => rfl) fun _ => rfl) fun _ => .bind .get fun _ =>
    .bind (.subscribeSession _) fun _ => .modify (fun _ => rfl) fun _ => rfl

theorem subscribeDepth (now : Nat) (names : List String) :
    Quiet primitives (subscribeDepth now names) :=
  .bind .get fun _ => .bind (.ofExcept _) fun _ =>
    .bind (.modify (fun _ => rfl) fun _ => rfl) fun _ => .bind .get fun _ =>
    .bind (.sendRequest _ _) fun _ => .modify (fun _ => rfl) fun _ => rfl

theorem keepalive (tick : Tick) : Quiet primitives (keepalive tick) :=
  .bind .get fun _ => .ite
    (.bind (.sendRequest _ _) fun _ => .modify (fun _ => rfl) fun _ => rfl) (.pure _)

theorem follow (now : Nat) (update : Update) : Quiet primitives (follow now update) := by
  cases update with
  | positions changes => exact .bind .get fun _ => .ite (.pure _) (.subscribe now _)
  | symbols _ => exact .pure _
  | account _ => exact .pure _
  | orders _ => exact .pure _
  | other => exact .pure _

theorem applyQuote (command : UInt8) (row : QuoteRow) : Quiet primitives (applyQuote command row) :=
  .bind .get fun _ => .bind (.ofExcept _) fun _ => .bind (.ofExcept _) fun _ =>
    .bind (.modify (fun _ => rfl) fun _ => rfl) fun _ => .bind .get fun _ =>
    .ite (.ite (.fail _) (.modify (fun _ => rfl) fun _ => rfl)) (.pure _)

theorem applyDepth (record : DepthRecord) : Quiet primitives (applyDepth record) :=
  .bind .get fun _ => .ite (.fail _) (.modify (fun _ => rfl) fun _ => rfl)

theorem apply (now : Nat) (m : Message) : Quiet primitives (apply now m) :=
  .ite (.bind (.ofExcept _) fun rows => .forM (applyQuote m.command) rows)
    (.ite (.bind (.ofExcept _) fun records => .bind .get fun _ =>
        .ite (.fail _) (.forM applyDepth records))
      (.ite (.bind (.ofExcept _) fun update =>
          .bind (.modify (fun c => absorb_frame (f := healthy) (fun _ _ _ => rfl) c update)
            fun c => absorb_session c update) fun _ => follow now update)
        (.pure _)))

theorem accept (tick : Tick) (message : Option Message) :
    Quiet primitives (accept tick message) := by
  cases message with
  | none => exact .bind .get fun _ => .ite (.fail _) (.pure _)
  | some m => exact .bind (.modify (fun _ => rfl) fun _ => rfl) fun _ => apply tick.applied m

end Quiet

/-! ## Polls -/

/-- What a poll does before it applies a message polls the session at most once. -/
theorem receive_talks (primitives : Primitives) (tick : Tick) (c : Client) :
    ∃ count read, Talks primitives count read [] c (receive tick c).2 ∧
      (receive tick c).2.healthy = c.healthy ∧
      (∀ e, (receive tick c).1 = .error e → read = []) ∧
      ∀ message, (receive tick c).1 = .ok message → count = 1 ∧ read = message.toList := by
  have hkeepalive : Quiet primitives (keepalive tick) := .keepalive tick
  obtain ⟨hhealth, hkept⟩ := hkeepalive c
  rcases hkeep : keepalive tick c with ⟨e | u, d⟩
  · rw [hkeep] at hhealth hkept
    rw [receive, Act.bind_of_error hkeep]
    exact ⟨0, [], hkept, hhealth, fun _ _ => rfl, fun message h => by cases h⟩
  rw [hkeep] at hhealth hkept
  rw [receive, Act.bind_of_ok hkeep]
  have hread : Talks primitives 1 _ _ d (onSession Session.pollMessage d).2 :=
    .single .pollMessage rfl
  have hall := hkept.trans hread
  rcases hpoll : Session.pollMessage d.session with ⟨e | message, t⟩
  · have hreturned : Session.returned (Session.Call.run primitives .pollMessage d.session).1 =
        none := by
      show Session.returned ((Session.pollMessage d.session).1.map _) = _
      rw [hpoll]
      rfl
    have hresult : (onSession Session.pollMessage d).1 = .error e := congrArg Prod.fst hpoll
    rw [hreturned] at hall
    refine ⟨_, _, hall, hhealth, fun _ _ => rfl, ?_⟩
    intro message h
    rw [hresult] at h
    cases h
  · have hreturned : Session.returned (Session.Call.run primitives .pollMessage d.session).1 =
        message := by
      show Session.returned ((Session.pollMessage d.session).1.map _) = _
      rw [hpoll]
      rfl
    have hresult : (onSession Session.pollMessage d).1 = .ok message := congrArg Prod.fst hpoll
    rw [hreturned] at hall
    refine ⟨_, _, hall, hhealth, ?_, ?_⟩
    · intro e h
      rw [hresult] at h
      cases h
    · intro other h
      rw [hresult] at h
      cases h
      exact ⟨rfl, rfl⟩

/-- What `accept` does behind it asks nothing of the session. -/
theorem pollInner_talks (primitives : Primitives) (tick : Tick) {c : Client}
    (hhealthy : c.healthy = true) :
    ∃ count, Talks primitives count (pollReads tick c) [] c (pollInner tick c).2 ∧
      ∀ message, (pollInner tick c).1 = .ok message → count = 1 := by
  obtain ⟨count, read, htalks, hhealth, hfailed, hmessage⟩ := receive_talks primitives tick c
  rw [pollInner_eq, pollReads, if_pos hhealthy]
  rcases hreceive : receive tick c with ⟨e | message, d⟩
  · rw [hreceive] at htalks hfailed
    rw [hfailed e rfl] at htalks
    rw [Act.bind_of_error hreceive]
    exact ⟨count, htalks, fun message h => by cases h⟩
  · rw [hreceive] at htalks hmessage
    obtain ⟨hcount, hread⟩ := hmessage message rfl
    rw [hread] at htalks
    rw [Act.bind_of_ok hreceive]
    have hquiet : Quiet primitives (accept tick message >>= fun _ => pure message) :=
      (Quiet.accept tick message).bind fun _ => Quiet.pure message
    have hall := htalks.trans (hquiet d).2
    rw [List.append_nil] at hall
    exact ⟨count, hall, fun _ _ => hcount⟩

/-! ## Calls -/

/-- A client goes through so many polls, which read these messages, called with these trades: its
session has returned the messages, and been called with trades among these.  Every poll of a healthy
client polls the session, and an unhealthy client reads nothing. -/
structure Drives (primitives : Primitives) (polls : Nat) (read : List Message)
    (records : List Bytes) (c d : Client) : Prop where
  talks : ∃ count trades, Talks primitives count read trades c d ∧
    List.Sublist trades records ∧ (d.healthy = true → count = polls)
  stopped : c.healthy = false → read = [] ∧ d.healthy = false

namespace Drives

theorem of_talks {trades : List Bytes} {c d : Client} (h : Talks primitives 0 [] trades c d)
    (hhealth : d.healthy = c.healthy) : Drives primitives 0 [] trades c d where
  talks := ⟨0, trades, h, List.Sublist.refl _, fun _ => rfl⟩
  stopped hc := ⟨rfl, hhealth.trans hc⟩

theorem refl (c : Client) : Drives primitives 0 [] [] c c := of_talks (.of_eq rfl) rfl

theorem of_quiet {x : Method α} (h : Quiet primitives x) (c : Client) :
    Drives primitives 0 [] [] c (x c).2 :=
  of_talks (h c).2 (h c).1

theorem trans {polls polls' : Nat} {read read' : List Message} {records records' : List Bytes}
    {c d e : Client} (h : Drives primitives polls read records c d)
    (k : Drives primitives polls' read' records' d e) :
    Drives primitives (polls + polls') (read ++ read') (records ++ records') c e := by
  obtain ⟨count, trades, htalks, hsub, hcount⟩ := h.talks
  obtain ⟨count', trades', htalks', hsub', hcount'⟩ := k.talks
  refine ⟨⟨_, _, htalks.trans htalks', hsub.append hsub', ?_⟩, ?_⟩
  · intro he
    cases hd : d.healthy with
    | true => rw [hcount hd, hcount' he]
    | false =>
      rw [(k.stopped hd).2] at he
      cases he
  · intro hc
    obtain ⟨hnone, hd⟩ := h.stopped hc
    obtain ⟨hnone', he⟩ := k.stopped hd
    exact ⟨by rw [hnone, hnone']; rfl, he⟩

/-- Behind what does not poll. -/
theorem before {polls : Nat} {read : List Message} {records records' : List Bytes}
    {c d e : Client} (h : Drives primitives 0 [] records c d)
    (k : Drives primitives polls read records' d e) :
    Drives primitives polls read (records ++ records') c e := by
  have hall := h.trans k
  rwa [Nat.zero_add] at hall

theorem poll (tick : Tick) (c : Client) :
    Drives primitives 1 (pollReads tick c) [] c (Client.poll tick c).2 := by
  cases hhealthy : c.healthy with
  | false =>
    have hrun : Client.poll tick c =
        (.error ⟨"native state requires a fresh synchronization"⟩, c) := by
      simp [Client.poll, hhealthy]
    have hreads : pollReads tick c = [] := by simp [pollReads, hhealthy]
    rw [hrun, hreads]
    refine ⟨⟨0, [], .of_eq rfl, List.Sublist.refl _, ?_⟩, fun _ => ⟨rfl, hhealthy⟩⟩
    intro htrue
    rw [hhealthy] at htrue
    cases htrue
  | true =>
    obtain ⟨count, htalks, hcount⟩ := pollInner_talks primitives tick hhealthy
    refine ⟨?_, fun hc => by rw [hhealthy] at hc; cases hc⟩
    rcases hrun : pollInner tick c with ⟨e | message, d⟩
    · have hfailed : Client.poll tick c = (.error e, { d with healthy := false }) := by
        simp [Client.poll, hhealthy, hrun]
      rw [hrun] at htalks
      rw [hfailed]
      refine ⟨count, [], htalks.congr rfl, List.Sublist.refl _, ?_⟩
      intro hhealthy'
      cases hhealthy'
    · have hdone : Client.poll tick c = (.ok message, d) := by
        simp [Client.poll, hhealthy, hrun]
      rw [hrun] at htalks hcount
      rw [hdone]
      exact ⟨count, [], htalks, List.Sublist.refl _, fun _ => hcount message rfl⟩

theorem await {σ : Type} {deadline : Nat} {late : β}
    {handle : σ → Result (Option Message) → σ ⊕ β} (ticks : List Tick) (waiting : σ)
    (c : Client) :
    Drives primitives (awaited deadline handle ticks waiting c).length
      (awaitedReads deadline handle ticks waiting c) [] c
      (await deadline late handle ticks waiting c).2 := by
  induction ticks generalizing waiting c with
  | nil => exact refl c
  | cons tick ticks ih =>
    rw [Client.await, awaited, awaitedReads]
    by_cases hlate : deadline < tick.now
    · rw [if_pos hlate, if_pos hlate, if_pos hlate]
      exact refl c
    · rw [if_neg hlate, if_neg hlate, if_neg hlate, List.length_cons, Nat.add_comm]
      have hpoll : Drives primitives 1 (pollReads tick c) [] c (Client.poll tick c).2 :=
        poll tick c
      cases handle waiting (Client.poll tick c).1 with
      | inr result =>
        rw [List.append_nil]
        exact hpoll
      | inl waiting => exact hpoll.trans (ih waiting (Client.poll tick c).2)

/-- A trade that is not sent. -/
theorem unsent (record : Bytes) (c : Client) : Drives primitives 0 [] [record] c c where
  talks := ⟨0, [], .of_eq rfl, List.nil_sublist _, fun _ => rfl⟩
  stopped hc := ⟨rfl, hc⟩

/-- A trade that is handed to the session. -/
theorem sent {record : Bytes} {result : Result UInt16} {c d e : Client}
    (hsend : onSession (Session.sendTrade primitives record) c = (result, d))
    (hsession : e.session = d.session) (hhealth : e.healthy = d.healthy) :
    Drives primitives 0 [] [record] c e := by
  have hd : d = (onSession (Session.sendTrade primitives record) c).2 := by rw [hsend]
  have htalks : Talks primitives 0 _ [record] c e :=
    .single (.sendTrade record) (hsession.trans (congrArg Client.session hd))
  rw [Session.returned_of_not_polls rfl] at htalks
  exact .of_talks htalks (hhealth.trans ((congrArg Client.healthy hd).trans rfl))

end Drives

theorem call_drives (call : Call) (c : Client) :
    Drives primitives (call.polls primitives c).length (call.reads primitives c)
      (call.tradeOf).toList c (call.run primitives c) := by
  cases call with
  | poll tick => exact .poll tick c
  | request now ticks command payload =>
    have hsent : Drives primitives 0 [] [] c _ := .of_quiet (.sendRequest command payload) c
    show Drives primitives (requestPolls now ticks command payload c).length
      (requestReads now ticks command payload c) [] c (request now ticks command payload c).2
    rw [requestPolls, requestReads, request]
    rcases hsend : onSession (Session.sendRequest command payload) c with ⟨e | sequence, d⟩
    · rw [hsend] at hsent
      rw [Act.bind_of_error hsend]
      exact hsent
    · rw [hsend] at hsent
      rw [Act.bind_of_ok hsend]
      have hstamped : Drives primitives 0 [] [] d { d with lastSend := now } :=
        .of_talks (.of_eq rfl) rfl
      exact (hsent.before hstamped).before (.await ticks () _)
  | trade now ticks record =>
    show Drives primitives (tradePolls primitives now ticks record c).length
      (tradeReads primitives now ticks record c) [record] c
      (trade primitives now ticks record c).2
    rw [tradePolls, tradeReads, trade]
    cases c.checkTrade record with
    | error e => exact Drives.unsent record c
    | ok checked =>
      rcases hsend : onSession (Session.sendTrade primitives record) c with ⟨e | sequence, d⟩
      · exact Drives.sent hsend rfl rfl
      · have hsent : Drives primitives 0 [] [record] c { d with lastSend := now } :=
          Drives.sent hsend rfl rfl
        exact hsent.before (.await ticks 0 _)
  | subscribe now names => exact .of_quiet (.subscribe now names) c
  | subscribeDepth now names => exact .of_quiet (.subscribeDepth now names) c
  | takeQuotes => exact .of_talks (.of_eq rfl) rfl
  | takeDepthUpdates => exact .of_talks (.of_eq rfl) rfl
  | setReceiveDeadline deadline => exact .of_talks (.of_eq rfl) rfl

theorem after_drives (calls : List Call) (c : Client) :
    Drives primitives (polled primitives calls c).length (messagesRead primitives calls c)
      (calls.filterMap Call.tradeOf) c (after primitives calls c) := by
  induction calls generalizing c with
  | nil => exact .refl c
  | cons call calls ih =>
    have hall := (call_drives call c).trans (ih (call.run primitives c))
    rw [← List.length_append] at hall
    cases htrade : call.tradeOf with
    | none =>
      rw [htrade] at hall
      rw [List.filterMap_cons_none htrade]
      exact hall
    | some record =>
      rw [htrade] at hall
      rw [List.filterMap_cons_some htrade]
      exact hall

end Client

namespace Agreement

variable {primitives : Primitives} {broker : Broker} {profile : LoginProfile} {clientBuild : Nat}
  (a : Agreement primitives broker profile clientBuild)

/-- A client connects to an honest broker and is then called in any order, while the broker sends
the fragments of any messages.  The early reads bring the frames of the login and are not idle, and
those behind them are idle or not.  Its polls, those of requests and trades included, return the
messages of the broker in order, and all of them when it stays healthy and polls often enough.  As
long as it is healthy, its orders, its positions and the depth records that it has handed out are
those of these messages.  The trades that the broker deciphers are trades that the client was
called with, in order and each once at most. -/
theorem client_replica (seconds now : Nat) {mode : String} {early late : List SocketRead}
    {writes : List (Option String)} {entropy : Entropy} {nonceByte : UInt8} {randomWord : UInt32}
    {clientChallenge : Vector UInt8 16} {nonceWord : UInt16} {frames rest : List Frame}
    {behind : SessionCipher} {messages : List Posted} {fragments : List (Fragment messages)}
    (hmode : profile.accountMode broker.login = .ok mode)
    (hrandom : Random entropy nonceByte randomWord clientChallenge nonceWord)
    (hwrites : ∀ write ∈ writes, write = none)
    (hreads : ∀ read ∈ early ++ late, read.sound = true)
    (hbusy : ∀ read ∈ early, read ≠ .idle)
    (hframes : streamFrames 3 broker.last a.cipher broker.front = .ok (frames, behind))
    (hinterleaved : Interleaved fragments)
    (hnames : ∀ posted ∈ messages, Session.Names broker.login posted)
    (htransmit : transmit behind fragments = .ok rest)
    (hlimit : ∀ frame ∈ replies broker 1 ++ frames ++ rest,
      frame.payload.length ≤ Connection.MAX_PAYLOAD)
    (hearly : (replies broker 1 ++ frames).flatMap Frame.pack <+: early.flatMap SocketRead.bytes)
    (hbytes : (early ++ late).flatMap SocketRead.bytes =
      (replies broker 1 ++ frames ++ rest).flatMap Frame.pack) :
    ∃ c rx,
      Client.connect primitives entropy profile broker.login broker.password clientBuild
          (some seconds) now (Session.connect (early ++ late) writes) = .ok c ∧
        c.state = a.state ∧
        broker.run primitives c.session.connection.sent .listening =
          .ok (replies broker 1 ++ frames, .synchronized rx behind) ∧
        ∀ calls : List Client.Call,
          let d := Client.after primitives calls c
          let polls := Client.polled primitives calls c
          let received := Client.messagesOf polls
          received <+: (completed fragments).map (message fragments) ∧
            (d.healthy = true →
              d.state.orders = Replica.replay Order.ticket
                  ((Client.updates received).flatMap Client.orderRecords) a.state.orders ∧
                d.state.positions = Replica.replay Deal.ticket
                  ((Client.updates received).flatMap Client.positionRecords) a.state.positions ∧
                Client.handed primitives calls c ++ d.changedDepth =
                  Client.depthRecords received ∧
                (c.session.connection.reads.length + messages.length ≤ polls.length →
                  received = (completed fragments).map (message fragments))) ∧
            ∃ sent requests, d.session.connection.sent = c.session.connection.sent ++ sent ∧
              List.Forall₂ (Session.Carries primitives a.tradeKey) requests
                (Session.peer rx sent) ∧
              List.Sublist (requests.filterMap Client.tradeOf)
                (calls.filterMap Client.Call.tradeOf) := by
  obtain ⟨t, u, r, hauthenticate, hsynchronize, hready, hdelivered, -, hsound, hrx, haccount,
    -, hkey, hempty, hbroker⟩ :=
    a.login_completes seconds hrandom hwrites hreads hbusy hframes hlimit hearly hbytes
  have htalking : Session.Talking broker.login a.tradeKey [] fragments r.tx u :=
    { place := ⟨r, hready,
        { stream := ⟨rest, hrx ▸ htransmit, hdelivered⟩
          pending := hempty ▸ pending_default fragments
          login := by rw [haccount, a.login_eq] }⟩
      inStep := ⟨hsound, Or.inr ⟨r, hready, rfl, hkey⟩⟩ }
  refine ⟨Client.synchronized u a.state mode now, r.tx, ?_, rfl, hrx ▸ hbroker, ?_⟩
  · rw [Client.connect, hmode, Act.within, hauthenticate]
    show (Except.bind ((Session.synchronize primitives profile (some seconds)).within t) _) = _
    rw [Act.within, hsynchronize]
    rfl
  intro calls d polls received
  have hdrives : Client.Drives primitives polls.length _ _ _ d :=
    Client.after_drives calls (Client.synchronized u a.state mode now)
  obtain ⟨count, trades, ⟨made, hsession, hcount, hread, htrades⟩, hsub, hpolls⟩ := hdrives.talks
  obtain ⟨back, -, hreturned, henough⟩ := Session.results_talking htalking
    (List.nil_append fragments).symm hinterleaved
    (fun i => hnames _ (List.get_mem messages i)) made
  have hdelivers : Client.Delivers _ _ polls _ d :=
    Client.after_delivers calls (Client.synchronized u a.state mode now)
  obtain ⟨torn, more, htorn, -, -, hwhole, -⟩ := hdelivers.depth
  rw [show (Session.results primitives made u).filterMap Session.returned = received ++ torn
    from hread.trans htorn, List.append_assoc] at hreturned
  refine ⟨⟨_, hreturned.symm⟩, ?_, ?_⟩
  · intro hhealthy
    have hreplays := hdelivers.replays hhealthy
    refine ⟨hreplays.orders, hreplays.positions, hdelivers.depth_healthy hhealthy, ?_⟩
    intro hle
    have hlength := (completed_perm hinterleaved).length_eq
    rw [List.length_finRange] at hlength
    have hback : completed back = [] := henough (by
      rw [hcount, hpolls hhealthy, hlength]
      exact hle)
    rw [hback, hwhole hhealthy] at hreturned
    rw [hreturned]
    exact (List.append_nil _).symm
  · obtain ⟨sent, hsent, -, hcarries, -⟩ :=
      Session.after_inStep primitives htalking.inStep made
    refine ⟨sent, Session.accepted primitives made u, ?_, hcarries, ?_⟩
    · rw [hsession]
      exact hsent
    · have haccepted : (Session.accepted primitives made u).Sublist made :=
        Client.accepted_sublist made u
      exact (haccepted.filterMap Client.tradeOf).trans (htrades ▸ hsub)

end Agreement

/-- A client of the broker of the conformance vectors, whatever it is called with. -/
theorem client_replica_sampleBroker :
    ∃ c state rx,
      Client.connect Session.samplePrimitives Session.sampleEntropy (Session.sampleProfile false)
          12345678 "ExamplePassword" 6182 (some 1700000000) 0
          (Session.connect (sampleEarly ++ sampleLate) []) = .ok c ∧
        c.state = state ∧
        ∀ calls : List Client.Call,
          let d := Client.after Session.samplePrimitives calls c
          let polls := Client.polled Session.samplePrimitives calls c
          Client.messagesOf polls <+: [⟨10, 2, [], 1⟩, ⟨50, 1, [1, 2, 3], 2⟩] ∧
            (d.healthy = true → c.session.connection.reads.length + 2 ≤ polls.length →
              Client.messagesOf polls = [⟨10, 2, [], 1⟩, ⟨50, 1, [1, 2, 3], 2⟩]) ∧
            ∃ sent requests, d.session.connection.sent = c.session.connection.sent ++ sent ∧
              List.Forall₂ (Session.Carries Session.samplePrimitives
                (some (Session.samplePrimitives.sha256 []))) requests (Session.peer rx sent) := by
  obtain ⟨a, hcipher, -, hkey⟩ := exists_sampleAgreement
  have hrandom : Agreement.Random Session.sampleEntropy 90 305419896 (Vector.replicate 16 0) 4660 :=
    ⟨rfl, rfl, rfl, rfl⟩
  have hwrites : ∀ write ∈ ([] : List (Option String)), write = none := by decide
  have hreads : ∀ read ∈ sampleEarly ++ sampleLate, read.sound = true := by decide +kernel
  have hbusy : ∀ read ∈ sampleEarly, read ≠ .idle := by decide +kernel
  have hframes : streamFrames 3 sampleBroker.last a.cipher sampleBroker.front =
      .ok (sampleStreamed.1, sampleStreamed.2) := by
    rw [hcipher]
    decide +kernel
  have hcommands : ∀ posted ∈ Session.sampleMessages, posted.command ≠ 55 := by decide
  have htransmit : transmit sampleStreamed.2 Session.sampleFragments = .ok sampleRest := by
    decide +kernel
  have hmode : (Session.sampleProfile false).accountMode sampleBroker.login = .ok "demo" := rfl
  obtain ⟨c, rx, hconnect, hstate, -, hcalls⟩ := a.client_replica 1700000000 0 hmode hrandom
    hwrites hreads hbusy hframes Session.sampleFragments_interleaved
    (fun posted hposted haccount => absurd haccount.1 (hcommands posted hposted)) htransmit
    (by decide +kernel) (by decide +kernel) (by decide +kernel)
  refine ⟨c, a.state, rx, hconnect, hstate, ?_⟩
  intro calls d polls
  obtain ⟨hbegins, hhealthy, sent, requests, hsent, hcarries, -⟩ := hcalls calls
  have hcompleted : (completed Session.sampleFragments).map (message Session.sampleFragments) =
      [⟨10, 2, [], 1⟩, ⟨50, 1, [1, 2, 3], 2⟩] := by decide +kernel
  rw [hcompleted] at hbegins hhealthy
  rw [hkey] at hcarries
  exact ⟨hbegins, fun htrue => (hhealthy htrue).2.2.2, sent, requests, hsent, hcarries⟩

end Mt5Open.Native

import Mt5Open.Client.Client
import Mt5Open.Session.Calls

/-!
# Trades

A trade call sends its request once and then polls until a result of the request
arrives.  A result belongs to the request when it has its request id, or when it
has none and its ticket is known from an earlier result that does: `Matched`.

`trade_once` is about one call, from any client, and about the calls behind a
poll that has failed.
-/

namespace Mt5Open.Native

open Lib

namespace Client

variable {primitives : Primitives}

/-! ## The polls of a call -/

/-- What `handle` comes to over the results of polls. -/
def handleAll {σ β : Type} (handle : σ → Result (Option Message) → σ ⊕ β) :
    σ → List (Result (Option Message)) → σ ⊕ β
  | waiting, [] => .inl waiting
  | waiting, polled :: rest =>
    match handle waiting polled with
    | .inr result => .inr result
    | .inl waiting => handleAll handle waiting rest

/-- The results of the polls that `await` makes. -/
def awaited {σ β : Type} (deadline : Nat) (handle : σ → Result (Option Message) → σ ⊕ β) :
    List Tick → σ → Client → List (Result (Option Message))
  | [], _, _ => []
  | tick :: ticks, waiting, c =>
    if deadline < tick.now then []
    else
      (poll tick c).1 ::
        match handle waiting (poll tick c).1 with
        | .inr _ => []
        | .inl waiting => awaited deadline handle ticks waiting (poll tick c).2

section Await

variable {σ β : Type} {deadline : Nat} {late : β} {handle : σ → Result (Option Message) → σ ⊕ β}

/-- The result of the loop is what `handle` comes to, or the deadline has passed. -/
theorem await_fst (late : β) (ticks : List Tick) (waiting : σ) (c : Client) :
    handleAll handle waiting (awaited deadline handle ticks waiting c) =
        .inr (await deadline late handle ticks waiting c).1 ∨
      (await deadline late handle ticks waiting c).1 = late := by
  induction ticks generalizing waiting c with
  | nil => exact Or.inr rfl
  | cons tick ticks ih =>
    rw [await, awaited]
    by_cases hlate : deadline < tick.now
    · simp only [if_pos hlate]
      exact Or.inr trivial
    · simp only [if_neg hlate, handleAll]
      cases handle waiting (poll tick c).1 with
      | inr result => exact Or.inl rfl
      | inl waiting => exact ih waiting (poll tick c).2

/-- What every poll keeps holds behind the loop. -/
theorem await_preserves {P : Client → Prop} (hpoll : ∀ tick, Act.Preserves P (poll tick))
    (ticks : List Tick) (waiting : σ) {c : Client} (hc : P c) :
    P (await deadline late handle ticks waiting c).2 := by
  induction ticks generalizing waiting c with
  | nil => exact hc
  | cons tick ticks ih =>
    rw [await]
    by_cases hlate : deadline < tick.now
    · rw [if_pos hlate]
      exact hc
    · rw [if_neg hlate]
      cases handle waiting (poll tick c).1 with
      | inr result => exact (hpoll tick).snd hc
      | inl waiting => exact ih waiting ((hpoll tick).snd hc)

end Await

/-- The results of the polls of a trade call. -/
def tradePolls (primitives : Primitives) (now : Nat) (ticks : List Tick) (record : Bytes)
    (c : Client) : List (Result (Option Message)) :=
  match c.checkTrade record with
  | .error _ => []
  | .ok () =>
    match onSession (Session.sendTrade primitives record) c with
    | (.error _, _) => []
    | (.ok _, c) =>
      awaited (now + 30 * 1000) (handleTrade (requestIdOf record)) ticks 0
        { c with lastSend := now }

/-- The results of the polls of a request. -/
def requestPolls (now : Nat) (ticks : List Tick) (command : UInt8) (payload : Bytes) (c : Client) :
    List (Result (Option Message)) :=
  match onSession (Session.sendRequest command payload) c with
  | (.error _, _) => []
  | (.ok sequence, c) =>
    awaited (now + 30 * 1000) (handleRequest command sequence) ticks () { c with lastSend := now }

/-! ## Results of a request -/

/-- The results of the trade updates among the messages. -/
def resultsOf (messages : List Message) : List TradeResult :=
  messages.flatMap fun m : Message =>
    if m.command = 55 ∧ m.payload.head? = some 35 then
      match TradeResult.decodeUpdate m.payload with
      | .ok results => results
      | .error _ => []
    else []

/-- The result at this place belongs to the request: it has its id, or it has no
id and its ticket is that of an earlier result that belongs to the request. -/
inductive Matched (requestId : Int) (results : List TradeResult) : Nat → Prop
  | own (k : Nat) (r : TradeResult) (hr : results[k]? = some r)
      (hid : r.requestId = requestId) : Matched requestId results k
  | learned (j k : Nat) (earlier r : TradeResult) (hearlier : results[j]? = some earlier)
      (hmatched : Matched requestId results j) (hlt : j < k) (hr : results[k]? = some r)
      (hid : r.requestId = 0) (hticket : r.ticket ≠ 0) (hsame : earlier.ticket = r.ticket) :
      Matched requestId results k

/-- More results change nothing for those before them. -/
theorem Matched.append {requestId : Int} {results : List TradeResult} {k : Nat}
    (h : Matched requestId results k) (more : List TradeResult) :
    Matched requestId (results ++ more) k := by
  have hkeep : ∀ {k : Nat} {r : TradeResult}, results[k]? = some r →
      (results ++ more)[k]? = some r := by
    intro k r hr
    obtain ⟨hlt, -⟩ := List.getElem?_eq_some_iff.mp hr
    rw [List.getElem?_append_left hlt, hr]
  induction h with
  | own k r hr hid => exact .own k r (hkeep hr) hid
  | learned j k earlier r hearlier _ hlt hr hid hticket hsame ih =>
    exact .learned j k earlier r (hkeep hearlier) ih hlt (hkeep hr) hid hticket hsame

/-- The ticket that the loop has learned is that of a result of the request. -/
def Learned (requestId : Int) (results : List TradeResult) (ticket : Nat) : Prop :=
  ticket ≠ 0 → ∃ (j : Nat) (earlier : TradeResult), results[j]? = some earlier ∧
    Matched requestId results j ∧ earlier.ticket = ticket

theorem Learned.append {requestId : Int} {results : List TradeResult} {ticket : Nat}
    (h : Learned requestId results ticket) (more : List TradeResult) :
    Learned requestId (results ++ more) ticket := by
  intro hticket
  obtain ⟨j, earlier, hearlier, hmatched, hsame⟩ := h hticket
  obtain ⟨hlt, -⟩ := List.getElem?_eq_some_iff.mp hearlier
  exact ⟨j, earlier, by rw [List.getElem?_append_left hlt, hearlier], hmatched.append more, hsame⟩

/-- `r` is a final result that belongs to the request. -/
def Final (requestId : Int) (results : List TradeResult) (r : TradeResult) : Prop :=
  10004 ≤ r.status ∧ r.status ≠ 10012 ∧
    ∃ k : Nat, results[k]? = some r ∧ Matched requestId results k

theorem Final.append {requestId : Int} {results : List TradeResult} {r : TradeResult}
    (h : Final requestId results r) (more : List TradeResult) :
    Final requestId (results ++ more) r := by
  obtain ⟨hstatus, htimeout, k, hk, hmatched⟩ := h
  obtain ⟨hlt, -⟩ := List.getElem?_eq_some_iff.mp hk
  exact ⟨hstatus, htimeout, k, by rw [List.getElem?_append_left hlt, hk], hmatched.append more⟩

/-- What the loop comes to over results is right for all results so far. -/
def Attributed (requestId : Int) (results : List TradeResult) : Nat ⊕ TradeOutcome → Prop
  | .inl ticket => Learned requestId results ticket
  | .inr (.confirmed r) => Final requestId results r
  | .inr (.uncertain _) => True

theorem handleResults_attributed {requestId : Int} (results : List TradeResult)
    {seen : List TradeResult} {ticket : Nat} (h : Learned requestId seen ticket) :
    Attributed requestId (seen ++ results) (handleResults requestId ticket results) := by
  induction results generalizing seen ticket with
  | nil =>
    rw [List.append_nil]
    exact h
  | cons r results ih =>
    have hsplit : seen ++ r :: results = (seen ++ [r]) ++ results := by
      rw [List.append_assoc]
      rfl
    have hlast : (seen ++ [r])[seen.length]? = some r := by simp
    rw [handleResults, hsplit]
    by_cases hmatch : r.requestId = requestId ∨ (r.requestId = 0 ∧ ticket ≠ 0 ∧ ticket = r.ticket)
    · rw [if_pos hmatch]
      have hmatched : Matched requestId (seen ++ [r]) seen.length := by
        rcases hmatch with hid | ⟨hid, hticket, hsame⟩
        · exact .own seen.length r hlast hid
        · obtain ⟨j, earlier, hearlier, hj, hlearned⟩ := h hticket
          obtain ⟨hlt, -⟩ := List.getElem?_eq_some_iff.mp hearlier
          exact .learned j seen.length earlier r (by rw [List.getElem?_append_left hlt, hearlier])
            (hj.append [r]) hlt hlast hid (hsame ▸ hticket) (hlearned.trans hsame)
      simp only
      by_cases htimeout : r.status = 10012
      · rw [if_pos htimeout]
        trivial
      · rw [if_neg htimeout]
        by_cases hfinal : r.isFinal
        · rw [if_pos hfinal]
          have hstatus : 10004 ≤ r.status := of_decide_eq_true hfinal
          exact Final.append ⟨hstatus, htimeout, seen.length, hlast, hmatched⟩ results
        · rw [if_neg hfinal]
          apply ih
          by_cases hzero : r.ticket ≠ 0
          · rw [if_pos hzero]
            exact fun _ => ⟨seen.length, r, hlast, hmatched, rfl⟩
          · rw [if_neg hzero]
            exact h.append [r]
    · rw [if_neg hmatch]
      exact ih (h.append [r])

theorem handleTrade_attributed {requestId : Int} (polls : List (Result (Option Message)))
    {seen : List TradeResult} {ticket : Nat} (h : Learned requestId seen ticket) :
    Attributed requestId (seen ++ resultsOf (Session.delivered polls))
      (handleAll (handleTrade requestId) ticket polls) := by
  induction polls generalizing seen ticket with
  | nil =>
    rw [show resultsOf (Session.delivered []) = [] from rfl, List.append_nil]
    exact h
  | cons polled polls ih =>
    rw [handleAll]
    cases polled with
    | error e => trivial
    | ok message =>
      cases message with
      | none => exact ih h
      | some m =>
        have hdelivered : resultsOf (Session.delivered (.ok (some m) :: polls)) =
            resultsOf [m] ++ resultsOf (Session.delivered polls) := by
          rw [resultsOf, resultsOf, resultsOf, ← List.flatMap_append]
          rfl
        rw [hdelivered, handleTrade]
        by_cases htrade : m.command = 55 ∧ m.payload.head? = some 35
        · rw [if_pos htrade]
          cases hdecode : TradeResult.decodeUpdate m.payload with
          | error e => trivial
          | ok results =>
            have hresults : resultsOf [m] = results := by
              simp [resultsOf, htrade, hdecode]
            have hhandled := handleResults_attributed results h
            rw [hresults, ← List.append_assoc]
            simp only
            cases houtcome : handleResults requestId ticket results with
            | inl learned =>
              rw [houtcome] at hhandled
              exact ih hhandled
            | inr outcome =>
              rw [houtcome] at hhandled
              cases outcome with
              | confirmed r => exact Final.append hhandled _
              | uncertain reason => trivial
        · rw [if_neg htrade]
          have hnone : resultsOf [m] = [] := by
            simp [resultsOf, htrade]
          rw [hnone, List.nil_append]
          exact ih h

/-! ## What is sent -/

/-- The client has sent no trade request behind these frames. -/
def NoTrade (sent : List Frame) (c : Client) : Prop :=
  ∃ frames, c.session.connection.sent = sent ++ frames ∧
    ∀ frame ∈ frames, frame.command ≠ command.TRADE_REQUEST

theorem NoTrade.refl (c : Client) : NoTrade c.session.connection.sent c :=
  ⟨[], (List.append_nil _).symm, fun _ hframe => nomatch hframe⟩

section Sends

variable {sent : List Frame}

/-- A request is refused, or its frame is handed to the connection. -/
theorem sendEncoded_sent (command : UInt8) (payload : Bytes) (flags : UInt16) (s : Session) :
    (Session.sendEncoded command payload flags s).2.connection.sent = s.connection.sent ∨
      ∃ frame, frame.command = command ∧
        (Session.sendEncoded command payload flags s).2.connection.sent =
          s.connection.sent ++ [frame] := by
  have houtcome := Session.sendEncoded_outcome command payload flags s
  generalize (Session.sendEncoded command payload flags s).1 = result at houtcome
  generalize (Session.sendEncoded command payload flags s).2 = t at houtcome ⊢
  cases houtcome with
  | refused e => exact Or.inl rfl
  | lost r e hstate hallowed hwrite => exact Or.inr ⟨_, rfl, rfl⟩
  | accepted r hstate hlength hallowed => exact Or.inr ⟨_, rfl, rfl⟩

theorem noTrade_sendRequest {kind : UInt8} (hkind : kind ≠ command.TRADE_REQUEST)
    (payload : Bytes) :
    Act.Preserves (NoTrade sent) (onSession (Session.sendRequest kind payload)) :=
  .zoom fun c h => by
    obtain ⟨frames, hsent, hframes⟩ := h
    rcases sendEncoded_sent kind payload FINAL c.session with hsame | ⟨frame, hframe, hone⟩
    · exact ⟨frames, hsame.trans hsent, hframes⟩
    · refine ⟨frames ++ [frame], ?_, ?_⟩
      · rw [← List.append_assoc, ← hsent]
        exact hone
      · intro other hother
        rcases List.mem_append.mp hother with hother | hother
        · exact hframes other hother
        · rw [List.mem_singleton.mp hother, hframe]
          exact hkind

theorem noTrade_subscribe (now : Nat) (names : List String) :
    Act.Preserves (NoTrade sent) (subscribe now names) :=
  .bind .get fun _ => .bind (.ofExcept _) fun _ => .bind (.ofExcept _) fun _ =>
    .bind (.modify fun _ h => h) fun _ => .bind .get fun _ =>
    .bind (noTrade_sendRequest (by decide) _) fun _ => .modify fun _ h => h

theorem noTrade_follow (now : Nat) (update : Update) :
    Act.Preserves (NoTrade sent) (follow now update) := by
  cases update with
  | positions changes => exact .bind .get fun _ => .ite (.pure _) (noTrade_subscribe now _)
  | symbols _ => exact .pure _
  | account _ => exact .pure _
  | orders _ => exact .pure _
  | other => exact .pure _

theorem foldl_session {α : Type} (step : Client → α → Client)
    (hstep : ∀ c a, (step c a).session = c.session) (l : List α) (c : Client) :
    (l.foldl step c).session = c.session := by
  induction l generalizing c with
  | nil => rfl
  | cons a l ih => exact (ih (step c a)).trans (hstep c a)

theorem applyPositionChange_session (c : Client) (change : PositionChange) :
    (c.applyPositionChange change).session = c.session := by
  have hpositions := foldl_session applyPosition (fun _ _ => rfl)
    (change.position :: change.relatedPositions) c
  unfold applyPositionChange
  split
  · exact hpositions
  · exact hpositions

/-- The account is not a part of the session. -/
theorem absorb_session (c : Client) (update : Update) : (c.absorb update).session = c.session := by
  cases update with
  | symbols symbols =>
    refine foldl_session applySymbol (fun c s => ?_) symbols c
    unfold applySymbol
    split
    · rfl
    · rfl
  | account accounts =>
    refine foldl_session applyAccount (fun c account => ?_) accounts c
    unfold applyAccount
    split
    · rfl
    · rfl
  | orders orders => exact foldl_session applyOrder (fun _ _ => rfl) orders c
  | positions changes =>
    exact foldl_session applyPositionChange applyPositionChange_session changes c
  | other => rfl

theorem noTrade_applyQuote (command : UInt8) (row : QuoteRow) :
    Act.Preserves (NoTrade sent) (applyQuote command row) :=
  .bind .get fun _ => .bind (.ofExcept _) fun _ => .bind (.ofExcept _) fun _ =>
    .bind (.modify fun _ h => h) fun _ => .bind .get fun _ =>
    .ite (.ite (.fail _) (.modify fun _ h => h)) (.pure _)

theorem noTrade_applyDepth (record : DepthRecord) :
    Act.Preserves (NoTrade sent) (applyDepth record) :=
  .bind .get fun _ => .ite (.fail _) (.modify fun _ h => h)

theorem noTrade_apply (now : Nat) (m : Message) : Act.Preserves (NoTrade sent) (apply now m) :=
  .ite (.bind (.ofExcept _) fun rows => .forM (noTrade_applyQuote m.command) rows)
    (.ite (.bind (.ofExcept _) fun records => .bind .get fun _ =>
        .ite (.fail _) (.forM noTrade_applyDepth records))
      (.ite (.bind (.ofExcept _) fun update =>
          .bind (.modify fun c h => by
            unfold NoTrade
            rw [absorb_session]
            exact h) fun _ => noTrade_follow now update)
        (.pure _)))

theorem noTrade_pollMessage : Act.Preserves (NoTrade sent) (onSession Session.pollMessage) :=
  .zoom fun c h => by
    have houtcome := Session.pollMessage_outcome c.session
    generalize (Session.pollMessage c.session).1 = result at houtcome
    generalize (Session.pollMessage c.session).2 = t at houtcome ⊢
    cases houtcome with
    | refused e hstate => exact h
    | failed r e d hstate hquiet =>
      unfold NoTrade
      rw [hquiet.sent]
      exact h
    | idle r t d hstate hquiet hkept =>
      unfold NoTrade
      rw [hquiet.sent]
      exact h
    | message r t u m d hstate hquiet hkept haccept =>
      unfold NoTrade
      rw [hquiet.sent]
      exact h

theorem noTrade_pollInner (tick : Tick) : Act.Preserves (NoTrade sent) (pollInner tick) := by
  apply Act.Preserves.bind
  · exact .bind .get fun _ => .ite
      (.bind (noTrade_sendRequest (by decide) _) fun _ => .modify fun _ h => h) (.pure _)
  · intro _
    apply Act.Preserves.bind noTrade_pollMessage
    intro message
    apply Act.Preserves.bind _ fun _ => .pure _
    cases message with
    | none => exact .bind .get fun _ => .ite (.fail _) (.pure _)
    | some m => exact .bind (.modify fun _ h => h) fun _ => noTrade_apply tick.applied m

theorem noTrade_poll (tick : Tick) : Act.Preserves (NoTrade sent) (poll tick) := by
  apply Act.Preserves.of_snd
  intro c h
  have hinner := (noTrade_pollInner tick).snd h
  unfold poll
  by_cases hhealthy : c.healthy
  · simp only [hhealthy]
    rcases hrun : pollInner tick c with ⟨e | message, d⟩
    · rw [hrun] at hinner
      exact hinner
    · rw [hrun] at hinner
      exact hinner
  · simp only [hhealthy]
    exact h

end Sends

/-! ## Unhealthy clients -/

theorem poll_error {tick : Tick} {c d : Client} {e : ProtocolError}
    (h : poll tick c = (.error e, d)) : d.healthy = false := by
  unfold poll at h
  by_cases hhealthy : c.healthy
  · simp only [hhealthy] at h
    rcases hrun : pollInner tick c with ⟨e | message, t⟩
    · simp only [hrun] at h
      cases h
      rfl
    · simp only [hrun] at h
      cases h
  · simp only [hhealthy] at h
    cases h
    simpa using hhealthy

/-- An unhealthy client stays so. -/
def Unhealthy (c : Client) : Prop := c.healthy = false

theorem unhealthy_poll (tick : Tick) : Act.Preserves Unhealthy (poll tick) := by
  apply Act.Preserves.of_snd
  intro c h
  unfold poll
  rw [show c.healthy = false from h]
  exact h

theorem unhealthy_subscribe (now : Nat) (names : List String) :
    Act.Preserves Unhealthy (subscribe now names) :=
  .bind .get fun _ => .bind (.ofExcept _) fun _ => .bind (.ofExcept _) fun _ =>
    .bind (.modify fun _ h => h) fun _ => .bind .get fun _ =>
    .bind (.zoom fun _ h => h) fun _ => .modify fun _ h => h

theorem unhealthy_subscribeDepth (now : Nat) (names : List String) :
    Act.Preserves Unhealthy (subscribeDepth now names) :=
  .bind .get fun _ => .bind (.ofExcept _) fun _ => .bind (.modify fun _ h => h) fun _ =>
    .bind .get fun _ => .bind (.zoom fun _ h => h) fun _ => .modify fun _ h => h

theorem unhealthy_request (now : Nat) (ticks : List Tick) (command : UInt8) (payload : Bytes) :
    Act.Preserves Unhealthy (request now ticks command payload) :=
  .bind (.zoom fun _ h => h) fun _ => .bind (.modify fun _ h => h) fun _ =>
    .of_snd fun _ h => await_preserves unhealthy_poll ticks () h

/-- An unhealthy client refuses to trade and changes nothing. -/
theorem trade_unhealthy (primitives : Primitives) {c : Client} (h : Unhealthy c) (now : Nat)
    (ticks : List Tick) (record : Bytes) :
    ∃ e, trade primitives now ticks record c = (.error e, c) := by
  unfold trade checkTrade
  rw [show c.healthy = false from h]
  exact ⟨_, rfl⟩

/-- A loop with a poll that fails leaves the client unhealthy. -/
theorem await_unhealthy {σ β : Type} {deadline : Nat} {late : β}
    {handle : σ → Result (Option Message) → σ ⊕ β} {ticks : List Tick} {waiting : σ} {c : Client}
    {e : ProtocolError} (h : .error e ∈ awaited deadline handle ticks waiting c) :
    Unhealthy (await deadline late handle ticks waiting c).2 := by
  induction ticks generalizing waiting c with
  | nil => cases h
  | cons tick ticks ih =>
    rw [awaited] at h
    rw [await]
    by_cases hlate : deadline < tick.now
    · rw [if_pos hlate] at h
      cases h
    · rw [if_neg hlate] at h ⊢
      rcases List.mem_cons.mp h with hfailed | hrest
      · have hunhealthy : Unhealthy (poll tick c).2 := poll_error (Prod.ext hfailed.symm rfl)
        cases handle waiting (poll tick c).1 with
        | inr result => exact hunhealthy
        | inl waiting => exact await_preserves unhealthy_poll ticks waiting hunhealthy
      · cases hhandle : handle waiting (poll tick c).1 with
        | inr result =>
          rw [hhandle] at hrest
          cases hrest
        | inl waiting =>
          rw [hhandle] at hrest
          exact ih hrest

/-! ## Calls -/

/-- A public call of a client. -/
inductive Call where
  | poll (tick : Tick)
  | request (now : Nat) (ticks : List Tick) (command : UInt8) (payload : Bytes)
  | trade (now : Nat) (ticks : List Tick) (record : Bytes)
  | subscribe (now : Nat) (names : List String)
  | subscribeDepth (now : Nat) (names : List String)
  | takeQuotes
  | takeDepthUpdates
  | setReceiveDeadline (deadline : Nat)

namespace Call

/-- The client behind a call. -/
def run (primitives : Primitives) : Call → Client → Client
  | poll tick, c => (Client.poll tick c).2
  | request now ticks command payload, c => (Client.request now ticks command payload c).2
  | trade now ticks record, c => (Client.trade primitives now ticks record c).2
  | subscribe now names, c => (Client.subscribe now names c).2
  | subscribeDepth now names, c => (Client.subscribeDepth now names c).2
  | takeQuotes, c => (Client.takeQuotes c).2
  | takeDepthUpdates, c => (Client.takeDepthUpdates c).2
  | setReceiveDeadline deadline, c => Client.setReceiveDeadline deadline c

/-- The results of the polls of a call. -/
def polls (primitives : Primitives) : Call → Client → List (Result (Option Message))
  | poll tick, c => [(Client.poll tick c).1]
  | request now ticks command payload, c => requestPolls now ticks command payload c
  | trade now ticks record, c => tradePolls primitives now ticks record c
  | _, _ => []

end Call

/-- The client behind a list of calls. -/
def after (primitives : Primitives) (calls : List Call) (c : Client) : Client :=
  calls.foldl (fun c call => call.run primitives c) c

theorem unhealthy_run (call : Call) {c : Client} (h : Unhealthy c) :
    Unhealthy (call.run primitives c) := by
  cases call with
  | poll tick => exact (unhealthy_poll tick).snd h
  | request now ticks command payload => exact (unhealthy_request now ticks command payload).snd h
  | trade now ticks record =>
    obtain ⟨e, htrade⟩ := trade_unhealthy primitives h now ticks record
    rw [Call.run, htrade]
    exact h
  | subscribe now names => exact (unhealthy_subscribe now names).snd h
  | subscribeDepth now names => exact (unhealthy_subscribeDepth now names).snd h
  | takeQuotes => exact h
  | takeDepthUpdates => exact h
  | setReceiveDeadline deadline => exact h

theorem unhealthy_after (calls : List Call) {c : Client} (h : Unhealthy c) :
    Unhealthy (after primitives calls c) := by
  induction calls generalizing c with
  | nil => exact h
  | cons call calls ih => exact ih (unhealthy_run call h)

/-- A call with a poll that fails leaves the client unhealthy. -/
theorem unhealthy_of_polls {call : Call} {c : Client} {e : ProtocolError}
    (h : .error e ∈ call.polls primitives c) : Unhealthy (call.run primitives c) := by
  cases call with
  | poll tick =>
    have hfailed : (poll tick c).1 = .error e := (List.mem_singleton.mp h).symm
    exact poll_error (Prod.ext hfailed rfl)
  | request now ticks command payload =>
    rw [Call.polls, requestPolls] at h
    rcases hsend : onSession (Session.sendRequest command payload) c with ⟨e | sequence, d⟩
    · rw [hsend] at h
      cases h
    · rw [hsend] at h
      rw [Call.run, request, Act.bind_of_ok hsend]
      exact await_unhealthy h
  | trade now ticks record =>
    rw [Call.polls, tradePolls] at h
    rw [Call.run, trade]
    cases hcheck : c.checkTrade record with
    | error e =>
      rw [hcheck] at h
      cases h
    | ok checked =>
      rw [hcheck] at h
      simp only at h ⊢
      rcases hsend : onSession (Session.sendTrade primitives record) c with ⟨e | sequence, d⟩
      · rw [hsend] at h
        cases h
      · rw [hsend] at h
        simp only
        exact await_unhealthy h
  | subscribe now names => cases h
  | subscribeDepth now names => cases h
  | takeQuotes => cases h
  | takeDepthUpdates => cases h
  | setReceiveDeadline deadline => cases h

/-! ## One trade -/

/-- What the checks of a trade have found when they pass. -/
structure Checked (record : Bytes) (c : Client) : Prop where
  healthy : c.healthy = true
  length : record.length = 800
  ready : ∃ r, c.session.state = .ready r ∧ r.readOnly = false
  positive : 0 < requestIdOf record

theorem checkTrade_eq_ok {record : Bytes} {c : Client} (h : c.checkTrade record = .ok ()) :
    Checked record c := by
  unfold checkTrade at h
  by_cases hhealthy : c.healthy
  · simp only [hhealthy] at h
    obtain ⟨parsed, hparse, h⟩ := except_bind_eq_ok.mp h
    obtain ⟨readOnly, hreadOnly, h⟩ := except_bind_eq_ok.mp h
    refine ⟨hhealthy, ?_, ?_, ?_⟩
    · unfold parseTradeRecord at hparse
      split at hparse
      · cases hparse
      · rename_i hlength
        exact (not_ne_iff.mp hlength).trans tradeRecordSize_eq
    · unfold Session.isReadOnly at hreadOnly
      split at hreadOnly
      · rename_i r hstate
        refine ⟨r, hstate, ?_⟩
        rw [Except.ok.inj hreadOnly]
        cases readOnly with
        | false => rfl
        | true => cases h
      · cases hreadOnly
    · cases readOnly with
      | true => cases h
      | false =>
        by_contra hpositive
        have hle : requestIdOf record ≤ 0 := Int.not_lt.mp hpositive
        simp only [if_pos hle] at h
        cases h
  · simp only [hhealthy] at h
    cases h

/-- A trade request is refused, or its frame is handed to the connection. -/
theorem sendTrade_sent (record : Bytes) (s : Session) :
    (Session.sendTrade primitives record s).2.connection.sent = s.connection.sent ∨
      ∃ frame, frame.command = command.TRADE_REQUEST ∧
        (Session.sendTrade primitives record s).2.connection.sent =
          s.connection.sent ++ [frame] := by
  rcases Session.sendTrade_outcome primitives record s with
    ⟨e, hrefused⟩ | ⟨r, key, payload, -, -, -, -, hsend⟩
  · rw [hrefused]
    exact Or.inl rfl
  · rw [hsend]
    exact sendEncoded_sent command.TRADE_REQUEST payload (FINAL ||| COMPRESSED) s

/-- The trade requests among the frames. -/
def tradeRequests (frames : List Frame) : List Frame :=
  frames.filter (·.command = command.TRADE_REQUEST)

theorem tradeRequests_eq_nil {frames : List Frame}
    (h : ∀ frame ∈ frames, frame.command ≠ command.TRADE_REQUEST) : tradeRequests frames = [] := by
  rw [tradeRequests, List.filter_eq_nil_iff]
  intro frame hframe htrade
  exact h frame hframe (of_decide_eq_true htrade)

/-- The ways of a trade call. -/
inductive TradeRun (primitives : Primitives) (now : Nat) (ticks : List Tick) (record : Bytes)
    (c : Client) : Result TradeOutcome × Client → List (Result (Option Message)) → Prop
  | refused (e : ProtocolError) : TradeRun primitives now ticks record c (.error e, c) []
  | unsent (e : ProtocolError) (d : Client) (hchecked : Checked record c)
      (hsend : onSession (Session.sendTrade primitives record) c = (.error e, d)) :
      TradeRun primitives now ticks record c (.ok (.uncertain e.message), d) []
  | sent (sequence : UInt16) (d : Client) (hchecked : Checked record c)
      (hsend : onSession (Session.sendTrade primitives record) c = (.ok sequence, d)) :
      TradeRun primitives now ticks record c
        (.ok (tradeLoop now ticks record d).1, (tradeLoop now ticks record d).2)
        (awaited (now + 30 * 1000) (handleTrade (requestIdOf record)) ticks 0
          { d with lastSend := now })

theorem trade_run (primitives : Primitives) (now : Nat) (ticks : List Tick) (record : Bytes)
    (c : Client) :
    TradeRun primitives now ticks record c (trade primitives now ticks record c)
      (tradePolls primitives now ticks record c) := by
  unfold trade tradePolls
  cases hcheck : c.checkTrade record with
  | error e => exact .refused e
  | ok checked =>
    simp only
    rcases hsend : onSession (Session.sendTrade primitives record) c with ⟨e | sequence, d⟩
    · exact .unsent e d (checkTrade_eq_ok hcheck) hsend
    · exact .sent sequence d (checkTrade_eq_ok hcheck) hsend

/-- A trade hands at most one trade request to the connection. -/
theorem trade_sent (primitives : Primitives) (now : Nat) (ticks : List Tick) (record : Bytes)
    (c : Client) :
    ∃ frames, (trade primitives now ticks record c).2.session.connection.sent =
        c.session.connection.sent ++ frames ∧ (tradeRequests frames).length ≤ 1 ∧
      (¬Checked record c → tradeRequests frames = []) := by
  have hfirst : ∀ result d, onSession (Session.sendTrade primitives record) c = (result, d) →
      ∃ frames, d.session.connection.sent = c.session.connection.sent ++ frames ∧
        (tradeRequests frames).length ≤ 1 := by
    intro result d hsend
    have hd : (Session.sendTrade primitives record c.session).2 = d.session :=
      congrArg (fun run : Result UInt16 × Client => run.2.session) hsend
    rw [← hd]
    rcases sendTrade_sent record c.session with hsame | ⟨frame, -, hone⟩
    · exact ⟨[], hsame.trans (List.append_nil _).symm, Nat.zero_le _⟩
    · exact ⟨[frame], hone, List.length_filter_le _ _⟩
  have hrun := trade_run primitives now ticks record c
  generalize trade primitives now ticks record c = run at hrun ⊢
  generalize tradePolls primitives now ticks record c = polls at hrun
  cases hrun with
  | refused e => exact ⟨[], (List.append_nil _).symm, Nat.zero_le _, fun _ => rfl⟩
  | unsent e d hchecked hsend =>
    obtain ⟨frames, hframes, hcount⟩ := hfirst _ d hsend
    exact ⟨frames, hframes, hcount, fun hnot => absurd hchecked hnot⟩
  | sent sequence d hchecked hsend =>
    obtain ⟨frames, hframes, hcount⟩ := hfirst _ d hsend
    have hloop : NoTrade d.session.connection.sent (tradeLoop now ticks record d).2 :=
      await_preserves noTrade_poll ticks 0 (NoTrade.refl d)
    obtain ⟨rest, hrest, hnone⟩ := hloop
    refine ⟨frames ++ rest, ?_, ?_, fun hnot => absurd hchecked hnot⟩
    · rw [hrest, hframes, List.append_assoc]
    · rw [tradeRequests, List.filter_append, List.length_append, ← tradeRequests, ← tradeRequests,
        tradeRequests_eq_nil hnone]
      exact hcount

/-- A trade that is confirmed has a final result that belongs to its request. -/
theorem trade_confirmed {now : Nat} {ticks : List Tick} {record : Bytes} {c : Client}
    {r : TradeResult} (h : (trade primitives now ticks record c).1 = .ok (.confirmed r)) :
    Final (requestIdOf record)
      (resultsOf (Session.delivered (tradePolls primitives now ticks record c))) r := by
  have hrun := trade_run primitives now ticks record c
  generalize trade primitives now ticks record c = run at hrun h
  generalize tradePolls primitives now ticks record c = polls at hrun ⊢
  cases hrun with
  | refused e => cases h
  | unsent e d hchecked hsend => cases h
  | sent sequence d hchecked hsend =>
    have houtcome : (tradeLoop now ticks record d).1 = .confirmed r := Except.ok.inj h
    have hlearned : Learned (requestIdOf record) [] 0 := fun hzero => absurd rfl hzero
    have hattributed := handleTrade_attributed (awaited (now + 30 * 1000)
      (handleTrade (requestIdOf record)) ticks 0 { d with lastSend := now }) hlearned
    rcases await_fst (TradeOutcome.uncertain "trade result deadline exceeded") ticks 0
      { d with lastSend := now } with hhandled | hlate
    · rw [hhandled, ← tradeLoop, houtcome] at hattributed
      exact hattributed
    · rw [← tradeLoop, houtcome] at hlate
      cases hlate

/-- A trade request goes out at most once, and its outcome is that of the
request: the four parts are what is handed to the connection, what an error
means, what a confirmation means, and what follows a poll that has failed. -/
theorem trade_once (primitives : Primitives) (now : Nat) (ticks : List Tick) (record : Bytes)
    (c : Client) :
    (∃ frames, (trade primitives now ticks record c).2.session.connection.sent =
        c.session.connection.sent ++ frames ∧
      (frames.filter (·.command = command.TRADE_REQUEST)).length ≤ 1 ∧
      (c.healthy = false ∨ record.length ≠ 800 ∨ c.session.isReadOnly = .ok true ∨
          (∀ r, c.session.state ≠ .ready r) ∨ requestIdOf record ≤ 0 →
        frames.filter (·.command = command.TRADE_REQUEST) = [])) ∧
    (∀ e, (trade primitives now ticks record c).1 = .error e →
      (trade primitives now ticks record c).2.session.connection.sent =
        c.session.connection.sent) ∧
    (∀ r, (trade primitives now ticks record c).1 = .ok (.confirmed r) →
      10004 ≤ r.status ∧ r.status ≠ 10012 ∧
      ∃ k : Nat,
        (resultsOf (Session.delivered (tradePolls primitives now ticks record c)))[k]? = some r ∧
        Matched (requestIdOf record)
          (resultsOf (Session.delivered (tradePolls primitives now ticks record c))) k) ∧
    (∀ front call back e, .error e ∈ call.polls primitives (after primitives front c) →
      ∃ refusal, trade primitives now ticks record (after primitives (front ++ call :: back) c) =
        (.error refusal, after primitives (front ++ call :: back) c)) := by
  refine ⟨?_, ?_, fun r hr => trade_confirmed hr, ?_⟩
  · obtain ⟨frames, hframes, hcount, hnone⟩ := trade_sent primitives now ticks record c
    refine ⟨frames, hframes, hcount, fun hrefused => hnone fun hchecked => ?_⟩
    obtain ⟨r, hstate, hreadOnly⟩ := hchecked.ready
    rcases hrefused with hunhealthy | hlength | hlocked | hstates | hid
    · rw [hchecked.healthy] at hunhealthy
      cases hunhealthy
    · exact hlength hchecked.length
    · unfold Session.isReadOnly at hlocked
      rw [hstate] at hlocked
      rw [Except.ok.inj hlocked] at hreadOnly
      cases hreadOnly
    · exact hstates r hstate
    · have := hchecked.positive
      omega
  · intro e herror
    have hrun := trade_run primitives now ticks record c
    generalize trade primitives now ticks record c = run at hrun herror ⊢
    generalize tradePolls primitives now ticks record c = polls at hrun
    cases hrun with
    | refused e => rfl
    | unsent e d hchecked hsend => cases herror
    | sent sequence d hchecked hsend => cases herror
  · intro front call back e hfailed
    have hunhealthy : Unhealthy (after primitives (front ++ call :: back) c) := by
      rw [after, List.foldl_append, List.foldl_cons]
      exact unhealthy_after back (unhealthy_of_polls hfailed)
    exact trade_unhealthy primitives hunhealthy now ticks record

end Client

end Mt5Open.Native

import Mt5Open.Client.Delivery
import Mt5Open.Session.Receive

/-!
# How long a connection stays silent

A poll first sends a keepalive when nothing has been sent for a while, and a poll that
finds no message fails when nothing has been received for too long.  Requests, trades and
new subscriptions send frames too, and requests and trades poll while they wait.

`silence_bounded` is about any stretch of a run of calls, and with it about the time
between two frames, in either direction.  The stretch is measured from the stamps of the
client, and `call_stamps` says that the call that sends or receives sets them.
-/

namespace Mt5Open.Native.Client

open Lib

variable {primitives : Primitives}

/-! ## What the polls look at -/

/-- A poll, with the instants that it reads and the deadline of its client. -/
structure Look where
  tick : Tick
  deadline : Nat
  result : Result (Option Message)

/-- The instants of the polls that a call can make. -/
def Call.ticks : Call → List Tick
  | poll tick => [tick]
  | request _ ticks _ _ => ticks
  | trade _ ticks _ => ticks
  | _ => []

/-- Polls of one call, at the first instants of it. -/
def looksAt (deadline : Nat) (ticks : List Tick) (polls : List (Result (Option Message))) :
    List Look :=
  ticks.zipWith (fun tick result => ⟨tick, deadline, result⟩) polls

/-- The polls of a list of calls. -/
def looks (primitives : Primitives) : List Call → Client → List Look
  | [], _ => []
  | call :: calls, c =>
    looksAt c.receiveDeadline call.ticks (call.polls primitives c) ++
      looks primitives calls (call.run primitives c)

/-- The messages that the polls have read. -/
def heard (looks : List Look) : List Message := messagesOf (looks.map Look.result)

theorem heard_append (front back : List Look) :
    heard (front ++ back) = heard front ++ heard back := by
  rw [heard, List.map_append, messagesOf_append]
  rfl

/-- The instant at which the last message was received, when one was at `since` before. -/
def heardAt (since : Nat) : List Look → Nat
  | [] => since
  | ⟨tick, _, .ok (some _)⟩ :: looks => heardAt tick.received looks
  | _ :: looks => heardAt since looks

theorem heardAt_append (since : Nat) (front back : List Look) :
    heardAt since (front ++ back) = heardAt (heardAt since front) back := by
  induction front generalizing since with
  | nil => rfl
  | cons look front ih =>
    obtain ⟨tick, deadline, result⟩ := look
    rcases result with e | message
    · exact ih since
    · cases message with
      | none => exact ih since
      | some m => exact ih tick.received

theorem heardAt_of_heard {looks : List Look} (h : heard looks = []) (since : Nat) :
    heardAt since looks = since := by
  induction looks with
  | nil => rfl
  | cons look looks ih =>
    obtain ⟨tick, deadline, result⟩ := look
    rcases result with e | message
    · exact ih h
    · cases message with
      | none => exact ih h
      | some m => cases h

/-- The instants that a poll can stamp a frame with. -/
def stampsOf (tick : Tick) : List Nat := [tick.sent, tick.applied]

/-- The instants that a call can stamp a frame with. -/
def Call.stamps : Call → List Nat
  | poll tick => stampsOf tick
  | request now ticks _ _ => now :: ticks.flatMap stampsOf
  | trade now ticks _ => now :: ticks.flatMap stampsOf
  | subscribe now _ => [now]
  | subscribeDepth now _ => [now]
  | _ => []

/-- The frames that the client has handed to its socket. -/
def frames (c : Client) : List Frame := c.session.connection.sent

/-- The socket takes every frame to come. -/
def Takes (c : Client) : Prop := ∀ write ∈ c.session.connection.writes, write = none

/-- What decides how long the client waits for a message. -/
def clock (c : Client) : Nat × Nat := (c.lastReceive, c.receiveDeadline)

/-! ## Frames and stamps -/

/-- `d` is `c` but for what it has sent.  Without a frame it has the stamp of `c`, and with one it
has one of these stamps. -/
structure Since (stamps : List Nat) (c d : Client) : Prop where
  begins : c.frames <+: d.frames
  still : d.frames = c.frames → d.lastSend = c.lastSend
  stamp : c.Takes → d.Takes ∧ (d.frames ≠ c.frames → d.lastSend ∈ stamps)
  clock : d.clock = c.clock

/-- A frame has gone out and is not stamped yet. -/
structure Sent (c d : Client) : Prop where
  begins : c.frames <+: d.frames
  moved : d.frames ≠ c.frames
  takes : c.Takes → d.Takes
  clock : d.clock = c.clock

theorem Since.refl (stamps : List Nat) (c : Client) : Since stamps c c :=
  ⟨List.prefix_rfl, fun _ => rfl, fun h => ⟨h, fun hmoved => absurd rfl hmoved⟩, rfl⟩

/-- The stamp of a frame that has gone out. -/
theorem Sent.since {stamps : List Nat} {c d : Client} {now : Nat} (h : Sent c d)
    (hnow : now ∈ stamps) : Since stamps c { d with lastSend := now } where
  begins := h.begins
  still hsame := absurd hsame h.moved
  stamp hc := ⟨h.takes hc, fun _ => hnow⟩
  clock := h.clock

/-- Nothing has gone out on the way, when nothing has in the end. -/
theorem frames_eq {c d e : Client} (hcd : c.frames <+: d.frames) (hde : d.frames <+: e.frames)
    (h : e.frames = c.frames) : d.frames = c.frames := by
  have hback : d.frames <+: c.frames := h ▸ hde
  exact hback.eq_of_length_le hcd.length_le

theorem Since.trans {stamps : List Nat} {c d e : Client} (hcd : Since stamps c d)
    (hde : Since stamps d e) : Since stamps c e where
  begins := hcd.begins.trans hde.begins
  still := by
    intro hsame
    have hmiddle := frames_eq hcd.begins hde.begins hsame
    rw [hde.still (hsame.trans hmiddle.symm), hcd.still hmiddle]
  stamp := by
    intro hc
    obtain ⟨hd, hfirst⟩ := hcd.stamp hc
    obtain ⟨he, hsecond⟩ := hde.stamp hd
    refine ⟨he, fun hmoved => ?_⟩
    by_cases hsame : e.frames = d.frames
    · rw [hde.still hsame]
      exact hfirst (hsame ▸ hmoved)
    · exact hsecond hsame
  clock := hde.clock.trans hcd.clock

section Sends

variable {stamps : List Nat} {c : Client}

theorem since_sendEncoded (kind : UInt8) (payload : Bytes) (flags : UInt16) :
    Act.Ensures (Since stamps c) (onSession (Session.sendEncoded kind payload flags))
      (fun _ d => Sent c d) fun _ d => Since stamps c d := by
  intro d hd
  have hbegins : ∀ frame, c.frames <+: d.frames ++ [frame] := fun frame =>
    hd.begins.trans (List.prefix_append _ _)
  have hmoved : ∀ frame, d.frames ++ [frame] ≠ c.frames := by
    intro frame hsame
    have hlength := congrArg List.length hsame
    have hle := hd.begins.length_le
    rw [List.length_append, List.length_singleton] at hlength
    omega
  have houtcome := Session.sendEncoded_outcome kind payload flags d.session
  rw [onSession, Act.zoom]
  generalize Session.sendEncoded kind payload flags d.session = run at houtcome ⊢
  obtain ⟨result, t⟩ := run
  cases houtcome with
  | refused e => exact hd
  | lost r e hstate hallowed hwrite =>
    refine ⟨hbegins _, fun hsame => absurd hsame (hmoved _), ?_, hd.clock⟩
    intro hc
    exact absurd (Connection.writeError_of_forall (hd.stamp hc).1) hwrite
  | accepted r hstate hlength hallowed =>
    refine ⟨hbegins _, hmoved _, ?_, hd.clock⟩
    intro hc write hwrite
    exact (hd.stamp hc).1 write (List.mem_of_mem_tail hwrite)

theorem since_sendRequest (kind : UInt8) (payload : Bytes) :
    Act.Ensures (Since stamps c) (onSession (Session.sendRequest kind payload))
      (fun _ d => Sent c d) fun _ d => Since stamps c d :=
  since_sendEncoded kind payload FINAL

theorem since_sendTrade (primitives : Primitives) (record : Bytes) :
    Act.Ensures (Since stamps c) (onSession (Session.sendTrade primitives record))
      (fun _ d => Sent c d) fun _ d => Since stamps c d := by
  intro d hd
  rcases Session.sendTrade_outcome primitives record d.session with
    ⟨e, hrefused⟩ | ⟨r, key, payload, -, -, -, -, hsend⟩
  · rw [onSession, Act.zoom, hrefused]
    exact hd
  · rw [onSession, Act.zoom, hsend]
    exact since_sendEncoded command.TRADE_REQUEST payload (FINAL ||| COMPRESSED) d hd

/-- A frame that is stamped when it has gone out. -/
theorem since_stamped {now : Nat} (hnow : now ∈ stamps) (kind : UInt8) (payload : Bytes) :
    Act.Ensures (Since stamps c) (onSession (Session.sendRequest kind payload) >>= fun _ =>
        (Act.modify fun d => { d with lastSend := now } : Method Unit))
      (fun _ d => Since stamps c d ∧ d.frames ≠ c.frames) fun _ d => Since stamps c d :=
  .bind (since_sendRequest kind payload) fun _ => .modify fun _ h => ⟨h.since hnow, h.moved⟩

theorem since_modify {f : Client → Client} (hsession : ∀ d, (f d).session = d.session)
    (hstamp : ∀ d, (f d).lastSend = d.lastSend)
    (hclock : ∀ d, (f d).clock = d.clock) :
    Act.Preserves (Since stamps c) (Act.modify f : Method Unit) :=
  .modify fun d h => by
    have hframes : (f d).frames = d.frames := congrArg (fun s => s.connection.sent) (hsession d)
    refine h.trans ⟨hframes ▸ List.prefix_rfl, fun _ => hstamp d, fun hd => ⟨?_, ?_⟩, hclock d⟩
    · rw [Takes, hsession d]
      exact hd
    · exact fun hmoved => absurd hframes hmoved

theorem since_subscribe {now : Nat} (hnow : now ∈ stamps) (names : List String) :
    Act.Preserves (Since stamps c) (subscribe now names) :=
  .bind .get fun _ => .bind (.ofExcept _) fun _ => .bind (.ofExcept _) fun _ =>
    .bind (since_modify (fun _ => rfl) (fun _ => rfl) fun _ => rfl) fun _ => .bind .get fun _ =>
    (since_stamped hnow _ _).weaken (fun _ _ h => h.1) fun _ _ h => h

theorem since_subscribeDepth {now : Nat} (hnow : now ∈ stamps) (names : List String) :
    Act.Preserves (Since stamps c) (subscribeDepth now names) :=
  .bind .get fun _ => .bind (.ofExcept _) fun _ =>
    .bind (since_modify (fun _ => rfl) (fun _ => rfl) fun _ => rfl) fun _ => .bind .get fun _ =>
    (since_stamped hnow _ _).weaken (fun _ _ h => h.1) fun _ _ h => h

theorem since_follow {now : Nat} (hnow : now ∈ stamps) (update : Update) :
    Act.Preserves (Since stamps c) (follow now update) := by
  cases update with
  | positions changes => exact .bind .get fun _ => .ite (.pure _) (since_subscribe hnow _)
  | symbols _ => exact .pure _
  | account _ => exact .pure _
  | orders _ => exact .pure _
  | other => exact .pure _

theorem since_absorb (update : Update) :
    Act.Preserves (Since stamps c) (Act.modify fun d => d.absorb update : Method Unit) :=
  since_modify (fun d => absorb_frame (f := session) (fun _ _ _ => rfl) d update)
    (fun d => absorb_frame (f := lastSend) (fun _ _ _ => rfl) d update)
    fun d => absorb_frame (f := clock) (fun _ _ _ => rfl) d update

theorem since_applyQuote (kind : UInt8) (row : QuoteRow) :
    Act.Preserves (Since stamps c) (applyQuote kind row) :=
  have hquote : ∀ q, Act.Preserves (Since stamps c) (offerQuote q) := fun _ =>
    .bind .get fun _ => .ite
      (.ite (.fail _) (since_modify (fun _ => rfl) (fun _ => rfl) fun _ => rfl)) (.pure _)
  .bind .get fun _ => .bind (.ofExcept _) fun _ => .bind (.ofExcept _) fun _ =>
    .bind (since_modify (fun _ => rfl) (fun _ => rfl) fun _ => rfl) fun _ => hquote _

theorem since_applyDepth (record : DepthRecord) :
    Act.Preserves (Since stamps c) (applyDepth record) :=
  .bind .get fun _ => .ite (.fail _)
    (since_modify (fun _ => rfl) (fun _ => rfl) fun _ => rfl)

theorem since_apply {now : Nat} (hnow : now ∈ stamps) (m : Message) :
    Act.Preserves (Since stamps c) (apply now m) :=
  .ite (.bind (.ofExcept _) fun rows => .forM (since_applyQuote m.command) rows)
    (.ite (.bind (.ofExcept _) fun records => .bind .get fun _ =>
        .ite (.fail _) (.forM since_applyDepth records))
      (.ite (.bind (.ofExcept _) fun update =>
          .bind (since_absorb update) fun _ => since_follow hnow update)
        (.pure _)))

end Sends

/-! ## Polls -/

/-- No silence of the stretch is longer than the client allows, and what goes out and what comes in
is stamped. -/
structure Alert (stamps : List Nat) (looks : List Look) (c d : Client) : Prop where
  begins : c.frames <+: d.frames
  sends : d.frames = c.frames →
    d.lastSend = c.lastSend ∧ ∀ look ∈ looks, look.tick.start - c.lastSend < KEEPALIVE
  stamp : c.Takes → d.Takes ∧ (d.frames ≠ c.frames → d.lastSend ∈ stamps)
  received : d.lastReceive = heardAt c.lastReceive looks
  hears : heard looks = [] →
    ∀ look ∈ looks, look.tick.received - c.lastReceive < look.deadline

theorem Since.alert {stamps : List Nat} {c d : Client} (h : Since stamps c d) :
    Alert stamps [] c d where
  begins := h.begins
  sends hsame := ⟨h.still hsame, List.forall_mem_nil _⟩
  stamp := h.stamp
  received := congrArg Prod.fst h.clock
  hears _ := List.forall_mem_nil _

theorem Alert.trans {stamps : List Nat} {front back : List Look} {c d e : Client}
    (hcd : Alert stamps front c d) (hde : Alert stamps back d e) :
    Alert stamps (front ++ back) c e where
  begins := hcd.begins.trans hde.begins
  sends := by
    intro hsame
    have hmiddle := frames_eq hcd.begins hde.begins hsame
    have hfront := hcd.sends hmiddle
    have hback := hde.sends (hsame.trans hmiddle.symm)
    rw [hfront.1] at hback
    refine ⟨hback.1, ?_⟩
    intro look hlook
    rcases List.mem_append.mp hlook with hlook | hlook
    · exact hfront.2 look hlook
    · exact hback.2 look hlook
  stamp := by
    intro hc
    obtain ⟨hd, hfirst⟩ := hcd.stamp hc
    obtain ⟨he, hsecond⟩ := hde.stamp hd
    refine ⟨he, fun hmoved => ?_⟩
    by_cases hsame : e.frames = d.frames
    · rw [(hde.sends hsame).1]
      exact hfirst (hsame ▸ hmoved)
    · exact hsecond hsame
  received := by rw [heardAt_append, ← hcd.received, hde.received]
  hears := by
    intro hnone
    rw [heard_append, List.append_eq_nil_iff] at hnone
    have hback := hde.hears hnone.2
    rw [hcd.received, heardAt_of_heard hnone.1] at hback
    intro look hlook
    rcases List.mem_append.mp hlook with hlook | hlook
    · exact hcd.hears hnone.1 look hlook
    · exact hback look hlook

section Poll

variable {stamps : List Nat} {c : Client}

/-- Behind the keepalive of a poll. -/
structure Kept (stamps : List Nat) (tick : Tick) (c d : Client) : Prop where
  since : Since stamps c d
  fresh : d.frames = c.frames → tick.start - c.lastSend < KEEPALIVE

theorem keepalive_kept {tick : Tick} (hstamps : stampsOf tick ⊆ stamps) :
    Act.Ensures (· = c) (keepalive tick) (fun _ d => Kept stamps tick c d) fun _ _ => True := by
  intro d hd
  subst hd
  have hrun : keepalive tick d = (if KEEPALIVE ≤ tick.start - d.lastSend then
      onSession (Session.sendRequest command.PING []) >>= fun _ =>
        Act.modify fun d => { d with lastSend := tick.sent }
    else pure () : Method Unit) d := rfl
  rw [hrun]
  by_cases hlate : KEEPALIVE ≤ tick.start - d.lastSend
  · rw [if_pos hlate]
    have hsent : Act.Ensures (Since stamps d) _ (fun _ e => Kept stamps tick d e)
        fun _ _ => True :=
      (since_stamped (hstamps List.mem_cons_self) command.PING []).weaken
        (fun _ _ h => ⟨h.1, fun hsame => absurd hsame h.2⟩) fun _ _ _ => trivial
    exact hsent d (.refl stamps d)
  · rw [if_neg hlate]
    exact ⟨.refl stamps d, fun _ => Nat.lt_of_not_le hlate⟩

theorem pollMessage_kept (tick : Tick) :
    Act.Preserves (Kept stamps tick c) (onSession Session.pollMessage) :=
  .zoom fun d h => by
    have hquiet : Connection.Quiet d.session.connection
        (Session.pollMessage d.session).2.connection := by
      have houtcome := Session.pollMessage_outcome d.session
      generalize (Session.pollMessage d.session).1 = result at houtcome
      generalize (Session.pollMessage d.session).2 = t at houtcome ⊢
      cases houtcome with
      | refused e hstate => exact .refl _
      | failed r e c hstate hquiet => exact hquiet
      | idle r t c hstate hquiet hkept => exact hquiet
      | message r t u m c hstate hquiet hkept haccept => exact hquiet
    have hframes : (Session.pollMessage d.session).2.connection.sent = d.frames := hquiet.sent
    have hnext : Since stamps d { d with session := (Session.pollMessage d.session).2 } := by
      refine ⟨hframes ▸ List.prefix_rfl, fun _ => rfl, fun hd => ⟨?_, ?_⟩, rfl⟩
      · rw [Takes, hquiet.writes]
        exact hd
      · exact fun hmoved => absurd hframes hmoved
    exact ⟨h.since.trans hnext, fun hsame => h.fresh (hframes.symm.trans hsame)⟩

theorem accept_alert {tick : Tick} (hstamps : stampsOf tick ⊆ stamps) (message : Option Message) :
    Act.Ensures (Kept stamps tick c) (accept tick message)
      (fun _ d => Alert stamps [⟨tick, c.receiveDeadline, .ok message⟩] c d ∧
        d.receiveDeadline = c.receiveDeadline) fun _ _ => True := by
  intro d hd
  have hreceive : d.lastReceive = c.lastReceive := congrArg Prod.fst hd.since.clock
  have hdeadline : d.receiveDeadline = c.receiveDeadline := congrArg Prod.snd hd.since.clock
  cases message with
  | none =>
    have hrun : accept tick none d = (if d.receiveDeadline ≤ tick.received - d.lastReceive then
        Act.fail ⟨s!"broker sent nothing for {d.receiveDeadline / 1000} s"⟩
      else pure () : Method Unit) d := rfl
    rw [hrun]
    by_cases hlate : d.receiveDeadline ≤ tick.received - d.lastReceive
    · rw [if_pos hlate]
      trivial
    · rw [if_neg hlate]
      rw [hreceive, hdeadline] at hlate
      refine ⟨⟨hd.since.begins, ?_, hd.since.stamp, hreceive, ?_⟩, hdeadline⟩
      · intro hsame
        refine ⟨hd.since.still hsame, ?_⟩
        intro look hlook
        rw [List.mem_singleton.mp hlook]
        exact hd.fresh hsame
      · intro _ look hlook
        rw [List.mem_singleton.mp hlook]
        exact Nat.lt_of_not_le hlate
  | some m =>
    have hrun : accept tick (some m) d =
        apply tick.applied m { d with lastReceive := tick.received } := rfl
    rw [hrun]
    have hsince : Since stamps { d with lastReceive := tick.received }
        (apply tick.applied m { d with lastReceive := tick.received }).2 :=
      (since_apply (hstamps (List.mem_cons_of_mem _ List.mem_cons_self)) m).snd (.refl stamps _)
    rcases hresult : apply tick.applied m { d with lastReceive := tick.received } with ⟨e | u, t⟩
    · trivial
    · rw [hresult] at hsince
      have hbegins : d.frames <+: t.frames := hsince.begins
      refine ⟨⟨hd.since.begins.trans hbegins, ?_, ?_, congrArg Prod.fst hsince.clock, ?_⟩,
        (congrArg Prod.snd hsince.clock).trans hdeadline⟩
      · intro hsame
        have hmiddle := frames_eq hd.since.begins hbegins hsame
        refine ⟨(hsince.still (hsame.trans hmiddle.symm)).trans (hd.since.still hmiddle), ?_⟩
        intro look hlook
        rw [List.mem_singleton.mp hlook]
        exact hd.fresh hmiddle
      · intro hc
        obtain ⟨htakes, hfirst⟩ := hd.since.stamp hc
        obtain ⟨htakes', hsecond⟩ := hsince.stamp htakes
        refine ⟨htakes', fun hmoved => ?_⟩
        by_cases hsame : t.frames = d.frames
        · rw [hsince.still hsame]
          exact hfirst (hsame ▸ hmoved)
        · exact hsecond hsame
      · intro hnone
        cases hnone

theorem pollInner_alert {tick : Tick} (hstamps : stampsOf tick ⊆ stamps) :
    Act.Ensures (· = c) (pollInner tick)
      (fun message d => Alert stamps [⟨tick, c.receiveDeadline, .ok message⟩] c d ∧
        d.receiveDeadline = c.receiveDeadline) fun _ _ => True := by
  refine Act.Ensures.bind (keepalive_kept hstamps) fun _ => ?_
  refine Act.Ensures.bind ((pollMessage_kept tick).weaken (fun _ _ h => h) fun _ _ _ => trivial)
    fun message => ?_
  exact Act.Ensures.bind (accept_alert hstamps message) fun _ => Act.Ensures.pure fun _ h => h

theorem poll_alert {tick : Tick} (hstamps : stampsOf tick ⊆ stamps)
    (h : (poll tick c).2.healthy = true) :
    Alert stamps [⟨tick, c.receiveDeadline, (poll tick c).1⟩] c (poll tick c).2 ∧
      (poll tick c).2.receiveDeadline = c.receiveDeadline := by
  cases hhealthy : c.healthy with
  | false =>
    have hrun : poll tick c =
        (.error ⟨"native state requires a fresh synchronization"⟩, c) := by simp [poll, hhealthy]
    rw [hrun] at h
    exact absurd (hhealthy.symm.trans h) Bool.false_ne_true
  | true =>
    have hinner := pollInner_alert hstamps c rfl
    rcases hrun : pollInner tick c with ⟨e | message, d⟩
    · simp [poll, hhealthy, hrun] at h
    · rw [hrun] at hinner
      simp only [poll, hhealthy, hrun]
      exact hinner

end Poll

/-! ## Runs -/

section Runs

variable {stamps : List Nat} {c d : Client}

theorem await_alert {σ β : Type} {deadline : Nat} {late : β}
    {handle : σ → Result (Option Message) → σ ⊕ β} {ticks : List Tick}
    (hstamps : ∀ tick ∈ ticks, stampsOf tick ⊆ stamps) (waiting : σ)
    (h : (await deadline late handle ticks waiting c).2.healthy = true) :
    Alert stamps (looksAt c.receiveDeadline ticks (awaited deadline handle ticks waiting c)) c
      (await deadline late handle ticks waiting c).2 := by
  induction ticks generalizing waiting c with
  | nil => exact (Since.refl stamps c).alert
  | cons tick ticks ih =>
    rw [await] at h ⊢
    rw [awaited]
    by_cases hlate : deadline < tick.now
    · rw [if_pos hlate, if_pos hlate]
      exact (Since.refl stamps c).alert
    · rw [if_neg hlate] at h ⊢
      rw [if_neg hlate]
      have htick := hstamps tick List.mem_cons_self
      cases hhandle : handle waiting (poll tick c).1 with
      | inr result =>
        rw [hhandle] at h
        simp only [looksAt, List.zipWith_cons_cons, List.zipWith_nil_right]
        exact (poll_alert htick h).1
      | inl waiting =>
        rw [hhandle] at h
        have hpolled : (poll tick c).2.healthy = true := by
          by_contra hunhealthy
          have hlost : Unhealthy (await deadline late handle ticks waiting (poll tick c).2).2 :=
            await_preserves unhealthy_poll ticks waiting
              (Bool.eq_false_of_not_eq_true hunhealthy)
          exact absurd (hlost.symm.trans h) Bool.false_ne_true
        obtain ⟨hfirst, hdeadline⟩ := poll_alert htick hpolled
        have hrest := ih (fun other hother => hstamps other (List.mem_cons_of_mem _ hother))
          waiting h
        rw [hdeadline] at hrest
        exact hfirst.trans hrest

/-- The stretch of a request or of a trade whose frame has gone out. -/
theorem sent_await {σ β : Type} {deadline now : Nat} {late : β}
    {handle : σ → Result (Option Message) → σ ⊕ β} {ticks : List Tick} {waiting : σ}
    (hstamps : now :: ticks.flatMap stampsOf ⊆ stamps) (hsent : Sent c d)
    (h : (await deadline late handle ticks waiting { d with lastSend := now }).2.healthy = true) :
    Alert stamps (looksAt c.receiveDeadline ticks
        (awaited deadline handle ticks waiting { d with lastSend := now })) c
      (await deadline late handle ticks waiting { d with lastSend := now }).2 := by
  have hstamped : Since stamps c { d with lastSend := now } :=
    hsent.since (hstamps List.mem_cons_self)
  have hticks : ∀ tick ∈ ticks, stampsOf tick ⊆ stamps := fun tick htick stamp hstamp =>
    hstamps (List.mem_cons_of_mem _ (List.mem_flatMap_of_mem htick hstamp))
  have hrest := await_alert hticks waiting h
  have hdeadline : d.receiveDeadline = c.receiveDeadline := congrArg Prod.snd hsent.clock
  rw [← hdeadline]
  exact hstamped.alert.trans hrest

theorem call_alert {call : Call} (hstamps : call.stamps ⊆ stamps)
    (h : (call.run primitives c).healthy = true) :
    Alert stamps (looksAt c.receiveDeadline call.ticks (call.polls primitives c)) c
      (call.run primitives c) := by
  cases call with
  | poll tick => exact (poll_alert hstamps h).1
  | request now ticks command payload =>
    have hsent := since_sendRequest command payload c (.refl stamps c)
    simp only [Call.run, request] at h ⊢
    simp only [Call.ticks, Call.polls, requestPolls]
    rcases hsend : onSession (Session.sendRequest command payload) c with ⟨e | sequence, d⟩
    · rw [hsend] at hsent
      rw [Act.bind_of_error hsend]
      simp only [looksAt, List.zipWith_nil_right]
      exact hsent.alert
    · rw [hsend] at hsent
      rw [Act.bind_of_ok hsend] at h ⊢
      exact sent_await hstamps hsent h
  | trade now ticks record =>
    have hsent := since_sendTrade primitives record c (.refl stamps c)
    have hrun := trade_run primitives now ticks record c
    simp only [Call.run] at h ⊢
    simp only [Call.ticks, Call.polls]
    generalize trade primitives now ticks record c = run at hrun h ⊢
    generalize tradePolls primitives now ticks record c = polls at hrun ⊢
    cases hrun with
    | refused e =>
      rw [looksAt, List.zipWith_nil_right]
      exact (Since.refl stamps c).alert
    | unsent e d hchecked hsend =>
      rw [hsend] at hsent
      rw [looksAt, List.zipWith_nil_right]
      exact hsent.alert
    | sent sequence d hchecked hsend =>
      rw [hsend] at hsent
      exact sent_await hstamps hsent h
  | subscribe now names =>
    exact ((since_subscribe (hstamps List.mem_cons_self) names).snd (.refl stamps c)).alert
  | subscribeDepth now names =>
    exact ((since_subscribeDepth (hstamps List.mem_cons_self) names).snd (.refl stamps c)).alert
  | takeQuotes =>
    exact Since.alert ⟨List.prefix_rfl, fun _ => rfl, (Since.refl stamps c).stamp, rfl⟩
  | takeDepthUpdates =>
    exact Since.alert ⟨List.prefix_rfl, fun _ => rfl, (Since.refl stamps c).stamp, rfl⟩
  | setReceiveDeadline deadline =>
    exact ⟨List.prefix_rfl, fun _ => ⟨rfl, List.forall_mem_nil _⟩, (Since.refl stamps c).stamp,
      rfl, fun _ => List.forall_mem_nil _⟩

/-- A call that leaves a client healthy stamps what it sends with an instant of its own, over a
socket that takes the frames, and the last message that it receives with the instant of its poll. -/
theorem call_stamps {call : Call} (h : (call.run primitives c).healthy = true) :
    (c.Takes → (call.run primitives c).frames ≠ c.frames →
      (call.run primitives c).lastSend ∈ call.stamps) ∧
    (call.run primitives c).lastReceive = heardAt c.lastReceive
      (looksAt c.receiveDeadline call.ticks (call.polls primitives c)) := by
  have halert := call_alert (List.Subset.refl call.stamps) h
  exact ⟨fun hc => (halert.stamp hc).2, halert.received⟩

theorem after_alert {calls : List Call} (hstamps : calls.flatMap Call.stamps ⊆ stamps)
    (h : (after primitives calls c).healthy = true) :
    Alert stamps (looks primitives calls c) c (after primitives calls c) := by
  induction calls generalizing c with
  | nil => exact (Since.refl stamps c).alert
  | cons call calls ih =>
    have hstill : (call.run primitives c).healthy = true := by
      by_contra hunhealthy
      have hlost : Unhealthy (after primitives calls (call.run primitives c)) :=
        unhealthy_after calls (Bool.eq_false_of_not_eq_true hunhealthy)
      exact absurd (hlost.symm.trans h) Bool.false_ne_true
    obtain ⟨hfirst, hrest⟩ := List.append_subset.mp hstamps
    exact (call_alert hfirst hstill).trans (ih hrest h)

end Runs

/-- In any stretch of calls that leaves a client healthy: where no frame goes out, each poll starts
within the keepalive interval of the last frame before the stretch, and where no message comes
in, each poll ends within the deadline of the last message before the stretch.  Behind the stretch
the client has the stamps of its last frame and of its last message. -/
theorem silence_bounded (primitives : Primitives) (calls : List Call) {c : Client}
    (h : (after primitives calls c).healthy = true) :
    ((after primitives calls c).frames = c.frames →
      ∀ look ∈ looks primitives calls c, look.tick.start - c.lastSend < KEEPALIVE) ∧
    (heard (looks primitives calls c) = [] →
      ∀ look ∈ looks primitives calls c, look.tick.received - c.lastReceive < look.deadline) ∧
    (c.Takes → (after primitives calls c).frames ≠ c.frames →
      (after primitives calls c).lastSend ∈ calls.flatMap Call.stamps) ∧
    (after primitives calls c).lastReceive = heardAt c.lastReceive (looks primitives calls c) := by
  have halert := after_alert (List.Subset.refl _) h
  exact ⟨fun hsame => (halert.sends hsame).2, halert.hears, fun hc => (halert.stamp hc).2,
    halert.received⟩

/-- A client that has synchronized at 0, with a server that says nothing. -/
def sampleSilent : Client :=
  synchronized { Session.sampleReady with connection := .connect [.idle, .idle, .idle] [] }
    sampleState "demo" 0

/-- A poll that takes a second. -/
def pollAt (start : Nat) : Call := .poll ⟨start, start, start, start + 1000, start + 1000⟩

theorem silence_bounded_sampleSilent :
    let looks := looks Session.samplePrimitives [pollAt 4000, pollAt 9000] sampleSilent
    looks.length = 2 ∧ (∀ look ∈ looks, look.tick.start - 0 < KEEPALIVE) ∧
      ∀ look ∈ looks, look.tick.received - 0 < look.deadline := by
  have hhealthy : (after Session.samplePrimitives [pollAt 4000, pollAt 9000]
      sampleSilent).healthy = true := by decide +kernel
  have hbounded := silence_bounded Session.samplePrimitives _ hhealthy
  exact ⟨rfl, hbounded.1 (by decide +kernel), hbounded.2.1 (by decide +kernel)⟩

example : (after Session.samplePrimitives [pollAt 4000, pollAt 44000] sampleSilent).healthy =
    false := by decide +kernel

end Mt5Open.Native.Client

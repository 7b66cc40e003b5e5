import Mt5Open.Session.Broker

/-!
# A conversation with an honest broker

Behind a login the client calls its session in any order: requests, trades,
subscriptions and polls.  The two directions do not disturb each other.  A
request changes nothing that a poll looks at, and a poll changes nothing that a
request looks at, so one invariant over the calls carries both results.
-/

namespace Mt5Open.Native

open Lib

namespace Session

variable {primitives : Primitives}

/-- The results of a list of calls. -/
def results (primitives : Primitives) : List Call → Session → List (Result Answer)
  | [], _ => []
  | call :: calls, s =>
    (call.run primitives s).1 :: results primitives calls (call.run primitives s).2

/-- The message that a call has returned. -/
def returned : Result Answer → Option Message
  | .ok (.message message) => message
  | _ => none

/-- The call waits for a message. -/
def Call.polls : Call → Bool
  | .pollMessage | .nextMessage => true
  | _ => false

variable {messages : List Posted} {fragments front back : List (Fragment messages)} {login : Nat}
  {key : Option (Vector UInt8 32)} {cipher : SessionCipher} {s t : Session}

/-- A ready session in the middle of a conversation: it has read the fragments
in `front`, and it is in step with its peer. -/
structure Talking (login : Nat) (key : Option (Vector UInt8 32))
    (front back : List (Fragment messages)) (cipher : SessionCipher) (s : Session) : Prop where
  place : ∃ r, s.state = .ready r ∧ Between login front back r s.connection
  inStep : InStep key cipher s

/-! ## Requests -/

/-- What is sent does not matter to what is read. -/
theorem Between.transmitted {r : Ready} {c : Connection} (h : Between login front back r c)
    (frame : Frame) (tx : SessionCipher) :
    Between login front back { r with tx } (c.transmitted frame) := by
  obtain ⟨frames, htransmit, hdelivers⟩ := h.stream
  exact
    { stream := ⟨frames, htransmit,
        { reads := hdelivers.reads
          maxPayload := hdelivers.maxPayload
          limit := hdelivers.limit
          stream := hdelivers.stream }⟩
      pending := h.pending
      login := h.login }

/-- What a call has left of the reads that a poll looks at. -/
structure Unread (login : Nat) (front back : List (Fragment messages)) (s t : Session) : Prop where
  place : ∃ r, t.state = .ready r ∧ Between login front back r t.connection
  reads : t.connection.reads = s.connection.reads

theorem unread_sendEncoded (h : Talking login key front back cipher s) (command : UInt8)
    (payload : Bytes) (flags : UInt16) :
    Unread login front back s (sendEncoded command payload flags s).2 := by
  obtain ⟨r, hstate, hbetween⟩ := h.place
  have houtcome := sendEncoded_outcome command payload flags s
  rcases hrun : sendEncoded command payload flags s with ⟨result, t⟩
  rw [hrun] at houtcome
  cases houtcome with
  | refused e => exact ⟨⟨r, hstate, hbetween⟩, rfl⟩
  | lost r' e hready hallowed hwrite => exact absurd h.inStep.writeError hwrite
  | accepted r' hready hlength hallowed =>
    rw [hstate] at hready
    cases hready
    exact ⟨⟨_, rfl, hbetween.transmitted _ _⟩, rfl⟩

/-- A call that does not poll leaves the receiving half alone. -/
theorem unread_run (h : Talking login key front back cipher s) {call : Call}
    (hpolls : call.polls = false) : Unread login front back s (call.run primitives s).2 := by
  obtain ⟨r, hstate, hbetween⟩ := h.place
  have hsame : Unread login front back s s := ⟨⟨r, hstate, hbetween⟩, rfl⟩
  cases call with
  | authenticate entropy login password clientBuild =>
    show Unread _ _ _ s (authenticate primitives entropy login password clientBuild s).2
    unfold authenticate
    rw [hstate]
    exact hsame
  | synchronize profile unixSeconds =>
    show Unread _ _ _ s (synchronize primitives profile unixSeconds s).2
    unfold synchronize
    rw [hstate]
    exact hsame
  | sendRequest command payload => exact unread_sendEncoded h command payload FINAL
  | subscribe symbolIds => exact unread_sendEncoded h _ _ FINAL
  | sendTrade record =>
    show Unread _ _ _ s (sendTrade primitives record s).2
    rcases sendTrade_outcome primitives record s with
      ⟨e, hrefused⟩ | ⟨r, signingKey, payload, -, -, -, -, hsent⟩
    · rw [hrefused]
      exact hsame
    · rw [hsent]
      exact unread_sendEncoded h _ _ _
  | pollMessage => cases hpolls
  | nextMessage => cases hpolls

theorem returned_of_not_polls {call : Call} (hpolls : call.polls = false) :
    returned (call.run primitives s).1 = none := by
  have hnone : ∀ {α : Type} (answer : α → Answer) (x : Method α),
      (∀ a, returned (.ok (answer a)) = none) → returned (answered answer x s).1 = none := by
    intro α answer x hanswer
    show returned ((x s).1.map answer) = none
    cases (x s).1 with
    | error e => rfl
    | ok a => exact hanswer a
  cases call with
  | authenticate entropy login password clientBuild => exact hnone _ _ fun _ => rfl
  | synchronize profile unixSeconds => exact hnone _ _ fun _ => rfl
  | sendRequest command payload => exact hnone _ _ fun _ => rfl
  | sendTrade record => exact hnone _ _ fun _ => rfl
  | subscribe symbolIds => exact hnone _ _ fun _ => rfl
  | pollMessage => cases hpolls
  | nextMessage => cases hpolls

/-! ## Polls -/

/-- Both calls that wait for a message are a poll. -/
theorem run_polls {call : Call} (hpolls : call.polls = true) {message : Option Message}
    (hpoll : pollMessage s = (.ok message, t)) :
    (call.run primitives s).2 = t ∧ returned (call.run primitives s).1 = message := by
  cases call with
  | authenticate entropy login password clientBuild => cases hpolls
  | synchronize profile unixSeconds => cases hpolls
  | sendRequest command payload => cases hpolls
  | sendTrade record => cases hpolls
  | subscribe symbolIds => cases hpolls
  | pollMessage =>
    show (pollMessage s).2 = t ∧ returned ((pollMessage s).1.map Answer.message) = message
    rw [hpoll]
    exact ⟨rfl, rfl⟩
  | nextMessage =>
    show (nextMessage s).2 = t ∧
      returned ((nextMessage s).1.map fun message => Answer.message (some message)) = message
    rw [show nextMessage s = _ from Act.bind_of_ok hpoll]
    cases message with
    | none => exact ⟨rfl, rfl⟩
    | some m => exact ⟨rfl, rfl⟩

/-- What a call does to the place in the stream: it returns the next message or
none, and a poll that returns none has used up a read. -/
structure Advances (login : Nat) (fragments back : List (Fragment messages)) (call : Call)
    (s : Session) (result : Result Answer × Session) : Prop where
  reached : ∃ front' back' r, fragments = front' ++ back' ∧ result.2.state = .ready r ∧
    Between login front' back' r result.2.connection ∧
    (completed back).map (message fragments) =
      (returned result.1).toList ++ (completed back').map (message fragments) ∧
    (call.polls = false → result.2.connection.reads.length + (completed back').length =
      s.connection.reads.length + (completed back).length) ∧
    (call.polls = true → completed back' = [] ∨
      result.2.connection.reads.length + (completed back').length <
        s.connection.reads.length + (completed back).length)

theorem run_advances (h : Talking login key front back cipher s)
    (hfragments : fragments = front ++ back) (hinterleaved : Interleaved fragments)
    (hnames : ∀ i, Names login (messages.get i)) (call : Call) :
    Advances login fragments back call s (call.run primitives s) := by
  cases hpolls : call.polls with
  | false =>
    obtain ⟨⟨r, hstate, hbetween⟩, hreads⟩ := unread_run h hpolls
    refine ⟨front, back, r, hfragments, hstate, hbetween, ?_, ?_, ?_⟩
    · rw [returned_of_not_polls hpolls]
      rfl
    · intro _
      rw [hreads]
    · intro htrue
      rw [hpolls] at htrue
      cases htrue
  | true =>
    obtain ⟨r, hstate, hbetween⟩ := h.place
    have hloop := pollLoop_between hfragments hinterleaved hnames hbetween
    generalize hrun : pollLoop.run (r, s.connection) = result at hloop
    cases hloop with
    | idle front' back' t d hsplit hcompleted hplace hreads =>
      obtain ⟨hsession, hreturned⟩ := run_polls hpolls
        (pollMessage_ready hstate hrun)
      refine ⟨front', back', t, hsplit, ?_, ?_, ?_, ?_, ?_⟩
      · rw [hsession]
      · rw [hsession]
        exact hplace
      · rw [hreturned, hcompleted]
        rfl
      · intro hfalse
        rw [hpolls] at hfalse
        cases hfalse
      · intro _
        rw [hsession, hcompleted]
        show _ ∨ d.reads.length + _ < _
        rcases hreads with hless | rfl
        · omega
        · exact Or.inl rfl
    | message front' back' i t d hsplit hcompleted hplace hreads =>
      obtain ⟨hsession, hreturned⟩ := run_polls hpolls
        (pollMessage_ready hstate hrun)
      refine ⟨front', back', t, hsplit, ?_, ?_, ?_, ?_, ?_⟩
      · rw [hsession]
      · rw [hsession]
        exact hplace
      · rw [hreturned, hcompleted]
        rfl
      · intro hfalse
        rw [hpolls] at hfalse
        cases hfalse
      · intro _
        rw [hsession, hcompleted, List.length_cons]
        show _ ∨ d.reads.length + _ < _
        omega

/-! ## Runs of calls -/

theorem inStep_run (h : InStep key cipher s) (call : Call) :
    ∃ cipher, InStep key cipher (call.run primitives s).2 := by
  have houtcome := run_inStep primitives h call
  generalize call.run primitives s = next at houtcome
  cases houtcome with
  | refused e => exact ⟨cipher, h⟩
  | silent result t hsends hresult hsilent => exact ⟨cipher, hsilent.inStep⟩
  | accepted sequence t command payload frame hcarries hsends => exact ⟨_, hsends.inStep⟩

/-- The calls of a conversation return the messages in order, whatever is sent
between them, and all of them when there are enough polls. -/
theorem results_talking (h : Talking login key front back cipher s)
    (hfragments : fragments = front ++ back) (hinterleaved : Interleaved fragments)
    (hnames : ∀ i, Names login (messages.get i)) (calls : List Call) :
    ∃ back', (∃ r, (after primitives calls s).state = .ready r) ∧
      (completed back).map (message fragments) =
        (results primitives calls s).filterMap returned ++
          (completed back').map (message fragments) ∧
      (s.connection.reads.length + (completed back).length ≤ calls.countP Call.polls →
        completed back' = []) := by
  induction calls generalizing front back cipher s with
  | nil =>
    obtain ⟨r, hstate, -⟩ := h.place
    refine ⟨back, ⟨r, hstate⟩, rfl, ?_⟩
    intro hle
    rw [List.countP_nil] at hle
    exact List.eq_nil_of_length_eq_zero (by omega)
  | cons call calls ih =>
    obtain ⟨front', back', r, hsplit, hstate, hbetween, hmessage, hquiet, hpoll⟩ :=
      (run_advances h hfragments hinterleaved hnames call).reached
    obtain ⟨cipher', hinStep⟩ := inStep_run h.inStep call
    obtain ⟨back'', hready, hmessages, henough⟩ := ih ⟨⟨r, hstate, hbetween⟩, hinStep⟩ hsplit
    refine ⟨back'', hready, ?_, ?_⟩
    · rw [hmessage, hmessages, ← List.append_assoc]
      show _ = ((call.run primitives s).1 :: _).filterMap returned ++ _
      cases hreturned : returned (call.run primitives s).1 with
      | none => rw [List.filterMap_cons_none hreturned]; rfl
      | some m => rw [List.filterMap_cons_some hreturned]; rfl
    · intro hle
      rw [List.countP_cons] at hle
      cases hpolls : call.polls with
      | false =>
        rw [hpolls] at hle
        apply henough
        rw [hquiet hpolls]
        simpa using hle
      | true =>
        rw [hpolls] at hle
        rcases hpoll hpolls with hnil | hless
        · have hlength := congrArg List.length hmessages
          rw [hnil, List.length_append, List.length_map, List.length_map] at hlength
          exact List.eq_nil_of_length_eq_zero (by simp only [List.length_nil] at hlength; omega)
        · apply henough
          simp only [if_true] at hle
          omega

end Session

namespace Agreement

variable {primitives : Primitives} {broker : Broker} {profile : LoginProfile} {clientBuild : Nat}
  (a : Agreement primitives broker profile clientBuild)

/-- From the connection to the last message: a client logs in at an honest broker and then
calls its session in any order, while the broker sends the fragments of any messages.  The
early reads bring the frames of the login and are not idle, and those behind them are idle or
not.  The session stays ready.  Its calls return the messages of the broker in the order in
which they are completed, and all of them when it polls often enough.  The broker accepts every
frame of the login and recovers the accepted requests in order, under consecutive sequence
numbers. -/
theorem conversation (seconds : Nat) {early late : List SocketRead} {writes : List (Option String)}
    {entropy : Entropy} {nonceByte : UInt8} {randomWord : UInt32}
    {clientChallenge : Vector UInt8 16} {nonceWord : UInt16} {frames rest : List Frame}
    {behind : SessionCipher} {messages : List Posted} {fragments : List (Fragment messages)}
    (hrandom : Random entropy nonceByte randomWord clientChallenge nonceWord)
    (hwrites : ∀ write ∈ writes, write = none)
    (hreads : ∀ read ∈ early ++ late, read.sound = true)
    (hbusy : ∀ read ∈ early, read ≠ .idle)
    (hframes : streamFrames 3 broker.last a.cipher broker.front = .ok (frames, behind))
    (hinterleaved : Interleaved fragments)
    (hnames : ∀ posted ∈ messages, Session.Names broker.login posted)
    (htransmit : transmit behind fragments = .ok rest)
    (hlimit : ∀ frame ∈ replies broker 1 ++ frames ++ rest,
      frame.payload.length ≤ Connection.MAX_PAYLOAD)
    (hearly : (replies broker 1 ++ frames).flatMap Frame.pack <+: early.flatMap SocketRead.bytes)
    (hbytes : (early ++ late).flatMap SocketRead.bytes =
      (replies broker 1 ++ frames ++ rest).flatMap Frame.pack) :
    ∃ t u rx,
      Session.authenticate primitives entropy broker.login broker.password clientBuild
          (Session.connect (early ++ late) writes) = (.ok a.result.serverBuild, t) ∧
        Session.synchronize primitives profile (some seconds) t =
          (.ok { account := a.state.account, state := a.state, payload := broker.stream }, u) ∧
        broker.run primitives u.connection.sent .listening =
          .ok (replies broker 1 ++ frames, .synchronized rx behind) ∧
        ∀ calls : List Session.Call,
          (∃ r, (Session.after primitives calls u).state = .ready r) ∧
            (Session.results primitives calls u).filterMap Session.returned <+:
              (completed fragments).map (message fragments) ∧
            (u.connection.reads.length + messages.length ≤ calls.countP Session.Call.polls →
              (Session.results primitives calls u).filterMap Session.returned =
                (completed fragments).map (message fragments)) ∧
            ∃ sent, (Session.after primitives calls u).connection.sent =
                u.connection.sent ++ sent ∧
              List.Forall₂ (Session.Carries primitives a.tradeKey)
                (Session.accepted primitives calls u) (Session.peer rx sent) ∧
              (Session.peer rx sent).map Session.Received.sequence =
                Session.numbers 4 sent.length := by
  obtain ⟨t, u, r, hauthenticate, hsynchronize, hready, hdelivers, hsequence, hsound, hrx, haccount,
    -, hkey, hempty, hbroker⟩ :=
    a.login_completes seconds hrandom hwrites hreads hbusy hframes hlimit hearly hbytes
  have htalking : Session.Talking broker.login a.tradeKey [] fragments r.tx u :=
    { place := ⟨r, hready,
        { stream := ⟨rest, hrx ▸ htransmit, hdelivers⟩
          pending := hempty ▸ pending_default fragments
          login := by rw [haccount, a.login_eq] }⟩
      inStep := ⟨hsound, Or.inr ⟨r, hready, rfl, hkey⟩⟩ }
  have hperm := completed_perm hinterleaved
  refine ⟨t, u, r.tx, hauthenticate, hsynchronize, hrx ▸ hbroker, ?_⟩
  intro calls
  obtain ⟨back, hstate, hreturned, henough⟩ := Session.results_talking htalking
    (List.nil_append fragments).symm hinterleaved
    (fun i => hnames _ (List.get_mem messages i)) calls
  obtain ⟨sent, hsent, -, hcarries, hnumbers⟩ :=
    Session.after_inStep primitives htalking.inStep calls
  refine ⟨hstate, ⟨_, hreturned.symm⟩, ?_, sent, hsent, hcarries, ?_⟩
  · intro hle
    have hlength := hperm.length_eq
    rw [List.length_finRange] at hlength
    rw [hreturned, henough (by omega)]
    exact (List.append_nil _).symm
  · rw [hnumbers, hsequence]

end Agreement

/-! A broker that wraps the first portion of its stream and pings behind it, and
then sends the two messages of the receive path. -/

def sampleBroker : Broker where
  login := 12345678
  password := "ExamplePassword"
  helloReply := List.replicate 32 0
  authReply := Session.sampleResult
  front := [.portion ⟨Session.sampleStream.take 5, true⟩, .ping]
  last := ⟨Session.sampleStream.drop 5, false⟩

def sampleChallenge : Challenge where
  unknownI16At0 := 0
  status := 0
  unknownI16At6 := 0
  challenge := List.replicate 16 0
  unknownTailI16 := [0, 0, 0, 0]

def sampleAuthResult : AuthResult where
  unknownI32At0 := 0
  status := 0
  unknownI32At8 := 0
  unknownI64At12 := 0
  unknownI32At20 := 0
  serverBuild := 5830
  secondaryBuild := 5830
  opaque16Bytes := List.replicate 16 0
  tlvs :=
    [(0, utf16Bytes "Demo"), (7, [0]), (27, (List.range 32).map fun i => UInt8.ofNat (0x20 + i)),
      (28, List.replicate 24 0), (35, List.replicate 24 0)]

/-- What the broker says fits the profile of the conformance vectors. -/
theorem exists_sampleAgreement :
    ∃ a : Agreement Session.samplePrimitives sampleBroker (Session.sampleProfile false) 6182,
      a.cipher = Session.sampleCipher ∧ a.result.serverBuild = 5830 ∧
        a.tradeKey = some (Session.samplePrimitives.sha256 []) := by
  have hstate : (parseSynchronizedState sampleBroker.stream 5830).toOption.map
      (fun state => state.account.login) = some 12345678 := by decide +kernel
  rcases hparse : parseSynchronizedState sampleBroker.stream 5830 with e | state
  · rw [hparse] at hstate
    cases hstate
  · rw [hparse] at hstate
    have hlogin : state.account.login = 12345678 := Option.some.inj hstate
    exact ⟨
      { challenge := sampleChallenge
        result := sampleAuthResult
        sessionKey := Session.sampleCipher.key
        tradeKey := some (Session.samplePrimitives.sha256 [])
        answers := (6318242987667153, 29136126226937332)
        state
        challenge_eq := by decide +kernel
        challenged := rfl
        result_eq := by decide +kernel
        accepted := rfl
        build_pos := by decide
        keys_eq := by decide +kernel
        key_ne := Session.sampleCipher.key_ne
        account_eq := rfl
        answers_eq := by decide +kernel
        environment := by decide +kernel
        stream_length := by decide +kernel
        state_eq := hparse
        login_eq := hlogin }, rfl, rfl, rfl⟩

/-- The frames of the stream, with the cipher behind them. -/
def sampleStreamed : List Frame × SessionCipher :=
  (streamFrames 3 sampleBroker.last Session.sampleCipher sampleBroker.front).toOption.getD
    ([], Session.sampleCipher)

/-- The frames of the two messages. -/
def sampleRest : List Frame :=
  (transmit sampleStreamed.2 Session.sampleFragments).toOption.getD []

def sampleBytes : Bytes :=
  (Agreement.replies sampleBroker 1 ++ sampleStreamed.1 ++ sampleRest).flatMap Frame.pack

/-- Two chunks that cut frames apart, with the login and two bytes more. -/
def sampleEarly : List SocketRead :=
  [.data (sampleBytes.take 100), .data ((sampleBytes.drop 100).take 3150)]

/-- The rest of the bytes, with pauses before and between them. -/
def sampleLate : List SocketRead :=
  [.idle, .data ((sampleBytes.drop 3250).take 20), .idle, .data (sampleBytes.drop 3270)]

/-- Whatever the client calls behind the login, its calls return the two messages in order. -/
theorem conversation_sampleBroker :
    ∃ t u state rx,
      Session.authenticate Session.samplePrimitives Session.sampleEntropy 12345678
          "ExamplePassword" 6182 (Session.connect (sampleEarly ++ sampleLate) []) = (.ok 5830, t) ∧
        Session.synchronize Session.samplePrimitives (Session.sampleProfile false)
          (some 1700000000) t =
            (.ok { account := state.account, state, payload := Session.sampleStream }, u) ∧
        ∀ calls : List Session.Call,
          (Session.results Session.samplePrimitives calls u).filterMap Session.returned <+:
              [⟨10, 2, [], 1⟩, ⟨50, 1, [1, 2, 3], 2⟩] ∧
            ∃ sent, List.Forall₂ (Session.Carries Session.samplePrimitives
                (some (Session.samplePrimitives.sha256 [])))
              (Session.accepted Session.samplePrimitives calls u) (Session.peer rx sent) := by
  obtain ⟨a, hcipher, hbuild, hkey⟩ := exists_sampleAgreement
  have hrandom : Agreement.Random Session.sampleEntropy 90 305419896 (Vector.replicate 16 0) 4660 :=
    ⟨rfl, rfl, rfl, rfl⟩
  have hwrites : ∀ write ∈ ([] : List (Option String)), write = none := by decide
  have hreads : ∀ read ∈ sampleEarly ++ sampleLate, read.sound = true := by decide +kernel
  have hbusy : ∀ read ∈ sampleEarly, read ≠ .idle := by decide +kernel
  have hframes : streamFrames 3 sampleBroker.last a.cipher sampleBroker.front =
      .ok (sampleStreamed.1, sampleStreamed.2) := by
    rw [hcipher]
    decide +kernel
  have hcommands : ∀ posted ∈ Session.sampleMessages, posted.command ≠ 55 := by decide
  have htransmit : transmit sampleStreamed.2 Session.sampleFragments = .ok sampleRest := by
    decide +kernel
  obtain ⟨t, u, rx, hauthenticate, hsynchronize, -, hcalls⟩ := a.conversation 1700000000 hrandom
    hwrites hreads hbusy hframes Session.sampleFragments_interleaved
    (fun posted hposted haccount => absurd haccount.1 (hcommands posted hposted)) htransmit
    (by decide +kernel) (by decide +kernel) (by decide +kernel)
  rw [hbuild] at hauthenticate
  refine ⟨t, u, a.state, rx, hauthenticate, ?_, ?_⟩
  · rw [hsynchronize]
    rw [show sampleBroker.stream = Session.sampleStream by decide +kernel]
  · intro calls
    obtain ⟨-, hprefix, -, sent, -, hcarries, -⟩ := hcalls calls
    rw [hkey] at hcarries
    refine ⟨?_, sent, hcarries⟩
    rwa [show (completed Session.sampleFragments).map (message Session.sampleFragments) =
      [⟨10, 2, [], 1⟩, ⟨50, 1, [1, 2, 3], 2⟩] by decide +kernel] at hprefix

end Mt5Open.Native

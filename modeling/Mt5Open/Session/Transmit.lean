import Mt5Open.Session.Identity

/-!
# The transmit path

The client enciphers every frame behind the synchronization request with one
cipher.  `peer` is the other end: it deciphers the frames in the order in which
they arrive.  The two stay in step because a refused call hands nothing to the
socket and leaves the session as it is, and an accepted one hands over one frame.

`InStep` is the invariant, and `run_inStep` says what one call does under it.
-/

namespace Mt5Open.Native

open Lib

namespace Session

variable {primitives : Primitives}

/-! ## The other end -/

/-- A frame as the other end sees it: command, sequence number and plain bytes. -/
structure Received where
  command : UInt8
  sequence : UInt16
  plain : Bytes
  deriving DecidableEq, Repr

/-- The frames, deciphered in order. -/
def peer (cipher : SessionCipher) : List Frame → List Received
  | [] => []
  | frame :: frames =>
    let plain := cipher.decrypt frame.payload
    ⟨frame.command, frame.sequence, plain.1⟩ :: peer plain.2 frames

/-- What a call means to send, with this trade key. -/
def Carries (primitives : Primitives) (key : Option (Vector UInt8 32)) :
    Call → Received → Prop
  | .sendRequest command payload, received =>
    received.command = command ∧ received.plain = payload
  | .subscribe symbolIds, received =>
    received.command = command.SYMBOLS ∧ received.plain = makeSubscriptionPayload symbolIds
  | .sendTrade record, received =>
    received.command = command.TRADE_REQUEST ∧ record.length = 800 ∧
      ∃ signingKey tlvs, key = some signingKey ∧
        decompressPayload received.plain MAX_MESSAGE = .ok (0x00 :: (record ++ tlvs)) ∧
        parseTlvs tlvs = .ok [(85, (primitives.hmacSha256 signingKey record).toList)]
  | _, _ => False

/-- The call asks for a frame. -/
def Call.sends : Call → Bool
  | .sendRequest .. | .sendTrade _ | .subscribe _ => true
  | _ => false

/-- The call was accepted and has a sequence number. -/
def isSequence : Result Answer → Bool
  | .ok (.sequence _) => true
  | _ => false

/-- The calls of a run that were accepted. -/
def accepted (primitives : Primitives) : List Call → Session → List Call
  | [], _ => []
  | call :: calls, s =>
    if isSequence (call.run primitives s).1 then
      call :: accepted primitives calls (call.run primitives s).2
    else accepted primitives calls (call.run primitives s).2

/-! ## One call -/

/-- The session has a sound socket and sends with this cipher and this trade
key, or it has failed. -/
structure InStep (key : Option (Vector UInt8 32)) (cipher : SessionCipher) (s : Session) :
    Prop where
  writes : ∀ write ∈ s.connection.writes, write = none
  state : s.state = .failed ∨ ∃ r, s.state = .ready r ∧ r.tx = cipher ∧ r.tradeKey = key

variable {key : Option (Vector UInt8 32)} {cipher : SessionCipher} {s t : Session}

theorem InStep.writeError (h : InStep key cipher s) : s.connection.writeError = none := by
  unfold Connection.writeError
  cases hwrites : s.connection.writes with
  | nil => rfl
  | cons write writes =>
    have : write = none := h.writes write (by rw [hwrites]; exact List.mem_cons_self)
    rw [this]
    rfl

/-- A call that hands nothing to the socket. -/
structure Silent (key : Option (Vector UInt8 32)) (cipher : SessionCipher) (s t : Session) :
    Prop where
  sent : t.connection.sent = s.connection.sent
  sequence : t.connection.sequence = s.connection.sequence
  inStep : InStep key cipher t

/-- A call that hands over one frame with these plain bytes. -/
structure Sends (key : Option (Vector UInt8 32)) (cipher : SessionCipher) (s t : Session)
    (command : UInt8) (payload : Bytes) (frame : Frame) : Prop where
  command_eq : frame.command = command
  sequence_eq : frame.sequence = s.connection.sequence
  payload_eq : frame.payload = (cipher.encrypt payload).1
  sent : t.connection.sent = s.connection.sent ++ [frame]
  sequence : t.connection.sequence = Connection.successor s.connection.sequence
  inStep : InStep key (cipher.encrypt payload).2 t

/-- A request is refused and changes nothing, or it is accepted and sends its
payload with the cipher of the session. -/
theorem sendEncoded_inStep (h : InStep key cipher s) (command : UInt8) (payload : Bytes)
    (flags : UInt16) :
    (∃ e, sendEncoded command payload flags s = (.error e, s)) ∨
      ∃ sequence frame, (sendEncoded command payload flags s).1 = .ok sequence ∧
        Sends key cipher s (sendEncoded command payload flags s).2 command payload frame := by
  have houtcome := sendEncoded_outcome command payload flags s
  rcases hrun : sendEncoded command payload flags s with ⟨result, t⟩
  rw [hrun] at houtcome
  cases houtcome with
  | refused e => exact Or.inl ⟨e, rfl⟩
  | lost r e hstate hallowed hwrite => exact absurd h.writeError hwrite
  | accepted r hstate hlength hallowed =>
    rcases h.state with hfailed | ⟨r', hready, htx, hkey⟩
    · rw [hstate] at hfailed
      cases hfailed
    · rw [hstate] at hready
      cases hready
      refine Or.inr ⟨s.connection.sequence, requestFrame s r command payload flags, rfl, ?_⟩
      rw [← htx]
      exact
        { command_eq := rfl
          sequence_eq := rfl
          payload_eq := rfl
          sent := rfl
          sequence := rfl
          inStep :=
            ⟨fun write hwrite => h.writes write (List.mem_of_mem_tail hwrite),
              Or.inr ⟨_, rfl, rfl, hkey⟩⟩ }

/-- The payload of a trade, as the other end reads it. -/
theorem carries_trade {record payload : Bytes} {signingKey : Vector UInt8 32}
    (h : tradePayload primitives record signingKey = .ok payload) (sequence : UInt16) :
    Carries primitives (some signingKey) (.sendTrade record)
      ⟨command.TRADE_REQUEST, sequence, payload⟩ := by
  obtain ⟨body, hbody, hpayload⟩ := except_bind_eq_ok.mp h
  unfold makeSignedTradePayload at hbody
  split at hbody
  · cases hbody
  · rename_i hsize
    have hlength : record.length = 800 := not_ne_iff.mp hsize
    have hsignature : ∀ item ∈ [((85 : UInt8), (primitives.hmacSha256 signingKey record).toList)],
        item.2.length < 2 ^ 31 := by
      intro item hitem
      rw [List.mem_singleton.mp hitem]
      simp
    refine ⟨rfl, hlength, signingKey, _, rfl, ?_, parseTlvs_encodeTlvs hsignature⟩
    have hmax : body.length ≤ MAX_MESSAGE := by
      rw [← Except.ok.inj hbody]
      simp [encodeTlvs, encodeTlv, hlength, MAX_MESSAGE]
    rw [decompressPayload_makeCompressedPayload hpayload hmax, ← Except.ok.inj hbody]

theorem pollMessage_inStep (h : InStep key cipher s) : Silent key cipher s (pollMessage s).2 := by
  have houtcome := pollMessage_outcome s
  have hready : ∀ r t : Ready, s.state = .ready r → t.tx = r.tx → t.tradeKey = r.tradeKey →
      t.tx = cipher ∧ t.tradeKey = key := by
    intro r t hstate htx hkey
    rcases h.state with hfailed | ⟨r', hr', htx', hkey'⟩
    · rw [hstate] at hfailed
      cases hfailed
    · rw [hstate] at hr'
      cases hr'
      exact ⟨htx.trans htx', hkey.trans hkey'⟩
  rcases hrun : pollMessage s with ⟨result, t⟩
  rw [hrun] at houtcome
  cases houtcome with
  | refused e hstate => exact ⟨rfl, rfl, h⟩
  | failed r e c hstate hquiet =>
    exact ⟨hquiet.sent, hquiet.sequence, by rw [hquiet.writes]; exact h.writes, Or.inl rfl⟩
  | idle r t c hstate hquiet hkept =>
    obtain ⟨htx, hkey⟩ := hready r t hstate hkept.tx hkept.tradeKey
    exact ⟨hquiet.sent, hquiet.sequence, by rw [hquiet.writes]; exact h.writes,
      Or.inr ⟨t, rfl, htx, hkey⟩⟩
  | message r t u m c hstate hquiet hkept haccept =>
    obtain ⟨htxUpdate, hkeyUpdate, -, -⟩ := acceptMessage_spec haccept
    obtain ⟨htx, hkey⟩ := hready r u hstate (htxUpdate.trans hkept.tx)
      (hkeyUpdate.trans hkept.tradeKey)
    exact ⟨hquiet.sent, hquiet.sequence, by rw [hquiet.writes]; exact h.writes,
      Or.inr ⟨u, rfl, htx, hkey⟩⟩

/-- What one call does to a session that is in step with its peer. -/
inductive CallOutcome (primitives : Primitives) (key : Option (Vector UInt8 32))
    (cipher : SessionCipher) (s : Session) (call : Call) : Result Answer × Session → Prop
  | refused (e : ProtocolError) : CallOutcome primitives key cipher s call (.error e, s)
  | silent (result : Result Answer) (t : Session) (hsends : call.sends = false)
      (hresult : isSequence result = false) (hsilent : Silent key cipher s t) :
      CallOutcome primitives key cipher s call (result, t)
  | accepted (sequence : UInt16) (t : Session) (command : UInt8) (payload : Bytes) (frame : Frame)
      (hcarries : Carries primitives key call ⟨command, s.connection.sequence, payload⟩)
      (hsends : Sends key cipher s t command payload frame) :
      CallOutcome primitives key cipher s call (.ok (.sequence sequence), t)

theorem callOutcome_of_sendEncoded (h : InStep key cipher s) {x : Method UInt16} {call : Call}
    {command : UInt8} {payload : Bytes} {flags : UInt16}
    (hx : x s = sendEncoded command payload flags s)
    (hcarries : Carries primitives key call ⟨command, s.connection.sequence, payload⟩) :
    CallOutcome primitives key cipher s call (answered .sequence x s) := by
  unfold answered
  rw [hx]
  rcases sendEncoded_inStep h command payload flags with
    ⟨e, hrefused⟩ | ⟨sequence, frame, hresult, hsends⟩
  · rw [hrefused]
    exact .refused e
  · rw [hresult]
    exact .accepted sequence _ command payload frame hcarries hsends

theorem callOutcome_of_refused {α : Type} {answer : α → Answer} {x : Method α} {call : Call}
    (hx : ∃ e, x s = (.error e, s)) :
    CallOutcome primitives key cipher s call (answered answer x s) := by
  obtain ⟨e, hrefused⟩ := hx
  rw [answered, hrefused]
  exact .refused e

theorem run_inStep (primitives : Primitives) (h : InStep key cipher s) (call : Call) :
    CallOutcome primitives key cipher s call (call.run primitives s) := by
  cases call with
  | authenticate entropy login password clientBuild =>
    refine callOutcome_of_refused ?_
    unfold authenticate
    rcases h.state with hstate | ⟨r, hstate, -, -⟩
    all_goals
      rw [hstate]
      exact ⟨_, rfl⟩
  | synchronize profile unixSeconds =>
    refine callOutcome_of_refused ?_
    unfold synchronize
    rcases h.state with hstate | ⟨r, hstate, -, -⟩
    all_goals
      rw [hstate]
      exact ⟨_, rfl⟩
  | sendRequest command payload => exact callOutcome_of_sendEncoded h rfl ⟨rfl, rfl⟩
  | subscribe symbolIds => exact callOutcome_of_sendEncoded h rfl ⟨rfl, rfl⟩
  | sendTrade record =>
    rcases sendTrade_outcome primitives record s with
      hrefused | ⟨r, signingKey, payload, hstate, -, hkey, hpayload, hsent⟩
    · exact callOutcome_of_refused hrefused
    · rcases h.state with hfailed | ⟨r', hready, -, hkey'⟩
      · rw [hstate] at hfailed
        cases hfailed
      · rw [hstate] at hready
        cases hready
        rw [← hkey', hkey]
        exact callOutcome_of_sendEncoded (by rw [← hkey, hkey']; exact h) hsent
          (carries_trade hpayload _)
  | pollMessage =>
    refine .silent _ _ rfl ?_ (pollMessage_inStep h)
    cases (pollMessage s).1 with
    | error e => rfl
    | ok message => rfl
  | nextMessage =>
    refine .silent _ _ rfl ?_ (by rw [nextMessage_snd]; exact pollMessage_inStep h)
    cases (nextMessage s).1 with
    | error e => rfl
    | ok message => rfl

/-! ## Runs -/

/-- `n` sequence numbers in a row. -/
def numbers : UInt16 → Nat → List UInt16
  | _, 0 => []
  | sequence, n + 1 => sequence :: numbers (Connection.successor sequence) n

/-- The number behind 65535 is 1. -/
theorem toNat_successor (sequence : UInt16) :
    (Connection.successor sequence).toNat = sequence.toNat % 65535 + 1 := by
  have hlt := sequence.toNat_lt
  have hadd : (sequence + 1).toNat = (sequence.toNat + 1) % 65536 := UInt16.toNat_add sequence 1
  show (if sequence + 1 ≤ 1 then 1 else sequence + 1 : UInt16).toNat = _
  by_cases hle : sequence + 1 ≤ 1
  · rw [if_pos hle]
    have hnat : (sequence + 1).toNat ≤ 1 := UInt16.le_iff_toNat_le.mp hle
    show 1 = _
    omega
  · rw [if_neg hle]
    have hnat : ¬(sequence + 1).toNat ≤ 1 := fun h => hle (UInt16.le_iff_toNat_le.mpr h)
    omega

theorem numbers_getElem? {sequence q : UInt16} {n k : Nat}
    (h : (numbers (Connection.successor sequence) n)[k]? = some q) :
    q.toNat = (sequence.toNat + k) % 65535 + 1 := by
  induction n generalizing sequence k with
  | zero => cases h
  | succ n ih =>
    cases k with
    | zero =>
      cases h
      exact toNat_successor sequence
    | succ k =>
      have hrest := ih (k := k) h
      rw [hrest, toNat_successor]
      omega

/-- The run of any calls: the frames that it hands over are those of its accepted
calls, in order. -/
theorem after_inStep (primitives : Primitives) (h : InStep key cipher s) (calls : List Call) :
    ∃ frames, (after primitives calls s).connection.sent = s.connection.sent ++ frames ∧
      (∃ last, InStep key last (after primitives calls s)) ∧
      List.Forall₂ (Carries primitives key) (accepted primitives calls s) (peer cipher frames) ∧
      (peer cipher frames).map Received.sequence =
        numbers s.connection.sequence frames.length := by
  induction calls generalizing s cipher with
  | nil => exact ⟨[], (List.append_nil _).symm, ⟨cipher, h⟩, .nil, rfl⟩
  | cons call calls ih =>
    rw [after_cons, accepted]
    have houtcome := run_inStep primitives h call
    generalize hrun : call.run primitives s = next at houtcome
    cases houtcome with
    | refused e => exact ih h
    | silent result t hsends hresult hsilent =>
      obtain ⟨frames, hsent, hlast, hcarries, hnumbers⟩ := ih hsilent.inStep
      rw [hsilent.sent] at hsent
      rw [hsilent.sequence] at hnumbers
      simp only [hresult]
      exact ⟨frames, hsent, hlast, hcarries, hnumbers⟩
    | accepted sequence t command payload frame hcarries hsends =>
      obtain ⟨frames, hsent, hlast, hrest, hnumbers⟩ := ih hsends.inStep
      have hpeer : peer cipher (frame :: frames) =
          ⟨command, s.connection.sequence, payload⟩ :: peer (cipher.encrypt payload).2 frames := by
        rw [peer, hsends.payload_eq, SessionCipher.decrypt_encrypt, hsends.command_eq,
          hsends.sequence_eq]
      refine ⟨frame :: frames, ?_, hlast, ?_, ?_⟩
      · rw [hsent, hsends.sent, List.append_assoc]
        rfl
      · rw [hpeer]
        exact .cons hcarries hrest
      · rw [hpeer, List.map_cons, hnumbers, hsends.sequence]
        rfl

/-- A refused request of a session in step leaves it as it is. -/
theorem refused_eq (h : InStep key cipher s) {call : Call} {e : ProtocolError}
    (hsends : call.sends = true) (hrun : (call.run primitives s).1 = .error e) :
    (call.run primitives s).2 = s := by
  have houtcome := run_inStep primitives h call
  generalize call.run primitives s = next at houtcome hrun
  cases houtcome with
  | refused e => rfl
  | silent result t hnot =>
    rw [hsends] at hnot
    cases hnot
  | accepted sequence t command payload frame => cases hrun

/-- A session is in step with its peer behind its synchronization. -/
theorem inStep_of_synchronized {profile : LoginProfile} {handshake : Handshake} {login : Nat}
    {values : LoginValues} {sync : Synchronization}
    (h : Synchronized primitives profile handshake login values s sync t)
    (hwrites : ∀ write ∈ t.connection.writes, write = none) :
    ∃ seconds cipher, handshake.sessionCipher = some cipher ∧
      InStep handshake.tradeKey (syncCipher primitives profile seconds handshake values cipher) t ∧
      t.connection.sent = s.connection.sent ++
        [syncFrame primitives profile seconds handshake values cipher s.connection.sequence] ∧
      t.connection.sequence = Connection.successor s.connection.sequence := by
  obtain ⟨seconds, cipher, rx, hcipher, ht, hquiet⟩ := h.exchanged
  refine ⟨seconds, cipher, hcipher, ?_, ?_⟩
  · generalize syncCipher primitives profile seconds handshake values cipher = next at ht
    exact ⟨hwrites, Or.inr ⟨_, ht, rfl, rfl⟩⟩
  · generalize syncFrame primitives profile seconds handshake values cipher
      s.connection.sequence = frame at hquiet
    exact ⟨hquiet.sent, hquiet.sequence⟩

/-- The peer reads the synchronization request first. -/
theorem peer_syncFrame (primitives : Primitives) (profile : LoginProfile) (seconds : Nat)
    (handshake : Handshake) (values : LoginValues) (cipher : SessionCipher) (sequence : UInt16)
    (frames : List Frame) :
    peer cipher (syncFrame primitives profile seconds handshake values cipher sequence :: frames) =
      ⟨command.ACCOUNT_STATE, sequence,
          Handshake.syncBody primitives handshake seconds values (some profile.environment)⟩ ::
        peer (syncCipher primitives profile seconds handshake values cipher) frames := by
  simp only [peer, syncFrame, syncCipher, SessionCipher.decrypt_encrypt]

/-- Behind its synchronization a session changes nothing when it refuses a
request, and a peer with the same key recovers the requests that it accepts. -/
theorem transmit_decodable (primitives : Primitives) {reads : List SocketRead}
    {writes : List (Option String)} {before : List Call} {profile : LoginProfile}
    {unixSeconds : Option Nat} {sync : Synchronization} {s t : Session}
    (hs : s = after primitives before (connect reads writes))
    (hsync : synchronize primitives profile unixSeconds s = (.ok sync, t))
    (hwrites : ∀ write ∈ t.connection.writes, write = none) (calls : List Call) :
    (∀ front call back e, calls = front ++ call :: back → call.sends = true →
      (call.run primitives (after primitives front t)).1 = .error e →
      (call.run primitives (after primitives front t)).2 = after primitives front t) ∧
    ∃ handshake login clientBuild sessionKey cipher request first frames received,
      s.state = .authenticated handshake login clientBuild ∧
        handshake.sessionKey = some sessionKey ∧ SessionCipher.new sessionKey = .ok cipher ∧
        t.connection.sent = s.connection.sent ++ [request] ∧
        (after primitives calls t).connection.sent = s.connection.sent ++ request :: frames ∧
        peer cipher (request :: frames) = first :: received ∧
        first.command = command.ACCOUNT_STATE ∧
        (∃ seconds values, first.plain =
          Handshake.syncBody primitives handshake seconds values (some profile.environment)) ∧
        List.Forall₂ (Carries primitives handshake.tradeKey)
          (accepted primitives calls t) received ∧
        ∀ (k : Nat) (r : Received), received[k]? = some r →
          r.sequence ≠ 0 ∧ r.sequence.toNat = (first.sequence.toNat + k) % 65535 + 1 := by
  have houtcome := synchronize_outcome primitives profile unixSeconds s
  rw [hsync] at houtcome
  cases houtcome with
  | synchronized _ _ handshake login clientBuild values result hstate hmatched hsynchronized =>
    obtain ⟨seconds, cipher, hcipher, hstep, hsent, hsequence⟩ :=
      inStep_of_synchronized hsynchronized hwrites
    obtain ⟨sessionKey, cipher', hkey, hcipher', hnew⟩ :=
      (authentic_after (s := connect reads writes) rfl before (hs ▸ hstate)).keys
    rw [hcipher] at hcipher'
    cases hcipher'
    refine ⟨?_, ?_⟩
    · intro front call back e hcalls hsends hrefused
      obtain ⟨-, -, ⟨last, hlast⟩, -⟩ := after_inStep primitives hstep front
      exact refused_eq hlast hsends hrefused
    · obtain ⟨frames, hframes, -, hcarries, hnumbers⟩ :=
        after_inStep primitives hstep calls
      have hpeer := peer_syncFrame primitives profile seconds handshake values cipher
        s.connection.sequence frames
      refine ⟨handshake, login, clientBuild, sessionKey, cipher, _, _, frames, _, hstate, hkey,
        hnew, hsent, ?_, hpeer, rfl, ⟨seconds, values, rfl⟩, hcarries, ?_⟩
      · rw [hframes, hsent, List.append_assoc]
        rfl
      · intro k r hr
        rw [hsequence] at hnumbers
        have hk : (numbers (Connection.successor s.connection.sequence) frames.length)[k]? =
            some r.sequence := by
          rw [← hnumbers, List.getElem?_map]
          exact congrArg (Option.map Received.sequence) hr
        have hvalue := numbers_getElem? hk
        refine ⟨?_, hvalue⟩
        intro hzero
        rw [hzero] at hvalue
        cases hvalue

/-- A keep-alive, a trade record of the wrong size, a trade and a subscription. -/
def sampleRequests : List Call :=
  [.sendRequest command.PING [], .sendTrade [1], .sendTrade (List.replicate 800 0),
    .subscribe [1, 2]]

/-- Behind the login of the conformance vectors, the peer recovers the three
requests that are accepted. -/
theorem transmit_decodable_sampleLogin :
    ∃ sessionKey cipher request frames first received,
      SessionCipher.new sessionKey = .ok cipher ∧
        (after samplePrimitives (sampleLogin false ++ sampleRequests)
          (connect sampleReads [])).connection.sent =
            (after samplePrimitives [.authenticate sampleEntropy 12345678 "ExamplePassword" 6182]
              (connect sampleReads [])).connection.sent ++ request :: frames ∧
        peer cipher (request :: frames) = first :: received ∧ received.length = 3 := by
  have hok : (synchronize samplePrimitives (sampleProfile false) (some 1700000000)
      (after samplePrimitives [.authenticate sampleEntropy 12345678 "ExamplePassword" 6182]
        (connect sampleReads []))).1.isOk = true := by decide +kernel
  have hcount : (accepted samplePrimitives sampleRequests
      (synchronize samplePrimitives (sampleProfile false) (some 1700000000)
        (after samplePrimitives [.authenticate sampleEntropy 12345678 "ExamplePassword" 6182]
          (connect sampleReads []))).2).length = 3 := by decide +kernel
  have hwrites : (synchronize samplePrimitives (sampleProfile false) (some 1700000000)
      (after samplePrimitives [.authenticate sampleEntropy 12345678 "ExamplePassword" 6182]
        (connect sampleReads []))).2.connection.writes = [] := by decide +kernel
  have hafter : after samplePrimitives (sampleLogin false ++ sampleRequests)
      (connect sampleReads []) = after samplePrimitives sampleRequests
        (synchronize samplePrimitives (sampleProfile false) (some 1700000000)
          (after samplePrimitives [.authenticate sampleEntropy 12345678 "ExamplePassword" 6182]
            (connect sampleReads []))).2 := by
    have hcalls : sampleLogin false ++ sampleRequests =
        [.authenticate sampleEntropy 12345678 "ExamplePassword" 6182] ++
          .synchronize (sampleProfile false) (some 1700000000) :: sampleRequests := rfl
    rw [hcalls, after_append, after_cons, Call.run, answered]
  rw [hafter]
  rcases hsync : synchronize samplePrimitives (sampleProfile false) (some 1700000000)
    (after samplePrimitives [.authenticate sampleEntropy 12345678 "ExamplePassword" 6182]
      (connect sampleReads [])) with ⟨e | sync, t⟩
  · rw [hsync] at hok
    cases hok
  · rw [hsync] at hcount hwrites
    obtain ⟨-, handshake, login, clientBuild, sessionKey, cipher, request, first, frames, received,
      -, -, hnew, -, hsent, hpeer, -, -, hcarries, -⟩ :=
      transmit_decodable samplePrimitives rfl hsync
        (fun write hwrite => absurd (hwrites ▸ hwrite) List.not_mem_nil) sampleRequests
    exact ⟨sessionKey, cipher, request, frames, first, received, hnew, hsent, hpeer,
      hcarries.length_eq.symm.trans hcount⟩

end Session

end Mt5Open.Native

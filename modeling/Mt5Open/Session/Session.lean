import Mt5Open.Native.Account
import Mt5Open.Native.Handshake
import Mt5Open.Native.Market
import Mt5Open.Native.Reassembly
import Mt5Open.Native.Sync
import Mt5Open.Native.Trade
import Mt5Open.Session.Connection
import Mt5Open.Session.Profile

/-!
# The session

A session owns a connection and a state.  It authenticates, synchronizes and is
then ready to send requests and to receive messages.  A method that can leave
the wire in doubt sets the state to failed first and puts a good state back only
when it succeeds.

The random bytes and the clock of the machine are arguments, and what the
server sends is the script of the connection.
-/

namespace Mt5Open.Native

open Lib

/-- A session that is synchronized. -/
structure Ready where
  rx : SessionCipher
  tx : SessionCipher
  tradeKey : Option (Vector UInt8 32)
  account : AccountState
  readOnly : Bool
  messages : Reassembler
  deriving DecidableEq

inductive State where
  | connected
  | authenticated (handshake : Handshake) (login clientBuild : Nat)
  | ready (ready : Ready)
  | failed
  deriving DecidableEq

structure Session where
  connection : Connection
  state : State
  summary : Option AuthSummary
  deriving DecidableEq

/-- A verified account and the complete synchronization payload. -/
structure Synchronization where
  account : AccountState
  state : SynchronizedState
  payload : Bytes
  deriving DecidableEq

/-- What the machine answers to the random bytes that a login asks for. -/
structure Entropy where
  nonceByte : Option UInt8
  randomWord : Option UInt32
  clientChallenge : Option (Vector UInt8 16)
  nonceWord : Option UInt16
  deriving DecidableEq

namespace Session

/-- `Session::connect`, over a socket with this script. -/
def connect (reads : List SocketRead) (writes : List (Option String)) : Session where
  connection := .connect reads writes
  state := .connected
  summary := none

/-- A method of a session that can change it. -/
abbrev Method := Act ProtocolError Session

/-- A method of the connection. -/
def onConnection {α : Type} (x : Connection.Method α) : Method α :=
  Act.zoom connection (fun c s => { s with connection := c }) x

def setState (state : State) : Method Unit := Act.modify fun s => { s with state }

/-- `random_bytes`. -/
def draw {α : Type} (bytes : Option α) : Method α :=
  Act.ofExcept (Handshake.orError bytes "operating-system entropy unavailable")

/-! ## Authentication -/

/-- The first half of `Session::authenticate`: the hello and its reply. -/
def exchangeHello (entropy : Entropy) (handshake : Handshake) : Method Handshake := do
  let sequence ← onConnection (Act.step Connection.nextSequence)
  let nonceByte ← draw entropy.nonceByte
  let randomWord ← draw entropy.randomWord
  let (hello, handshake) ←
    Act.ofExcept ((Handshake.hello nonceByte randomWord.toNat sequence).within handshake)
  onConnection (Connection.send hello)
  let reply ← onConnection (Connection.startupReply command.HELLO sequence)
  let ((), handshake) ← Act.ofExcept ((Handshake.onChallenge reply).within handshake)
  return handshake

/-- The second half of `Session::authenticate`: the password and its reply. -/
def exchangeAuth (primitives : Primitives) (entropy : Entropy) (handshake : Handshake) :
    Method Handshake := do
  let sequence ← onConnection (Act.step Connection.nextSequence)
  let clientChallenge ← draw entropy.clientChallenge
  let nonceWord ← draw entropy.nonceWord
  let (auth, handshake) ←
    Act.ofExcept ((Handshake.auth clientChallenge.toList nonceWord.toNat none sequence).within
      handshake)
  onConnection (Connection.send auth)
  let reply ← onConnection (Connection.startupReply command.AUTH sequence)
  let ((), handshake) ← Act.ofExcept ((Handshake.onAuthResult primitives reply).within handshake)
  return handshake

/-- The part of `Session::authenticate` that runs in a failed session. -/
def runAuthenticate (primitives : Primitives) (entropy : Entropy) (login : Nat) (password : String)
    (clientBuild : Nat) : Method Int := do
  let handshake ← exchangeHello entropy (.new login password clientBuild)
  let handshake ← exchangeAuth primitives entropy handshake
  Act.modify fun s => { s with summary := handshake.authResult.map AuthResult.summary }
  if handshake.phase ≠ .sessionKeysReady then
    Act.fail
      ⟨"account requires certificate authentication; socket enrollment is not implemented"⟩
  else
    let build ← Act.ofExcept (Handshake.orError handshake.serverBuild "missing server build")
    setState (.authenticated handshake login clientBuild)
    return build

/-- `Session::authenticate`. -/
def authenticate (primitives : Primitives) (entropy : Entropy) (login : Nat) (password : String)
    (clientBuild : Nat) : Method Int := fun s =>
  match s.state with
  | .connected =>
    runAuthenticate primitives entropy login password clientBuild { s with state := .failed }
  | _ => (.error ⟨"authentication requires a new connection"⟩, s)

/-! ## Synchronization -/

/-- The plain bytes of a frame with these deciphered bytes. -/
def inflate (frame : Frame) (bytes : Bytes) (maxOutput : Nat) : Result Bytes :=
  if frame.isCompressed then decompressPayload bytes maxOutput else .ok bytes

/-- A round of the loop of `Session::synchronize`, over the cipher and the payload so far. -/
def syncRound (sequence : UInt16) :
    SessionCipher × Bytes × Connection →
      (SessionCipher × Bytes × Connection) ⊕ (Result (SessionCipher × Bytes) × Connection)
  | (rx, payload, c) =>
    match c.frameBefore with
    | (.error e, c) => .inr (.error e, c)
    | (.ok frame, c) =>
      if frame.command = command.PING ∧ frame.payload = [] then .inl (rx, payload, c)
      else if frame.command ≠ command.ACCOUNT_STATE ∨ frame.sequence ≠ sequence then
        .inr (reject "unexpected frame during account synchronization", c)
      else
        let (bytes, rx) := rx.decrypt frame.payload
        match inflate frame bytes (MAX_MESSAGE - payload.length) with
        | .error e => .inr (.error e, c)
        | .ok bytes =>
          if MAX_MESSAGE - payload.length < bytes.length then
            .inr (reject "synchronization exceeds message limit", c)
          else if frame.isFinal then .inr (.ok (rx, payload ++ bytes), c)
          else .inl (rx, payload ++ bytes, c)

/-- A round that goes on has taken a frame. -/
theorem syncRound_next {sequence : UInt16} {s t : SessionCipher × Bytes × Connection}
    (h : syncRound sequence s = .inl t) : ∃ frame, s.2.2.frameBefore = (.ok frame, t.2.2) := by
  obtain ⟨rx, payload, c⟩ := s
  simp only [syncRound] at h
  split at h
  · cases h
  · rename_i frame d hframe
    refine ⟨frame, ?_⟩
    rw [hframe]
    split at h
    · cases Sum.inl.inj h
      rfl
    · split at h
      · cases h
      · split at h
        · cases h
        · split at h
          · cases h
          · split at h
            · cases h
            · cases Sum.inl.inj h
              rfl

/-- The loop of `Session::synchronize` over the frames of the response. -/
def syncLoop (sequence : UInt16) :
    Loop (SessionCipher × Bytes × Connection) (Result (SessionCipher × Bytes) × Connection) where
  body := syncRound sequence
  measure s := s.2.2.fuel
  decreases h := by
    obtain ⟨frame, hframe⟩ := syncRound_next h
    exact Connection.frameBefore_fuel hframe

/-- What `Session::synchronize` computes before it sends. -/
def prepareSync (profile : LoginProfile) (handshake : Handshake) (login clientBuild : Nat) :
    Result (LoginValues × Int) := do
  let _ ← profile.accountMode login
  let result ← Handshake.orError handshake.authResult "missing authentication result"
  let (answer28, answer35) ← profile.answers clientBuild result
  let values ← handshake.loginValues answer28 answer35
  return (values, result.secondaryBuild)

/-- The exchange of `Session::synchronize`: the cipher for what comes next, the
cipher of the client and the payload. -/
def exchangeSync (primitives : Primitives) (profile : LoginProfile) (unixSeconds : Option Nat)
    (handshake : Handshake) (values : LoginValues) :
    Method (Handshake × SessionCipher × Bytes) := do
  let seconds ←
    Act.ofExcept (Handshake.orError unixSeconds "system clock is before the Unix epoch")
  let sequence ← onConnection (Act.step Connection.nextSequence)
  let (frame, handshake) ←
    Act.ofExcept ((Handshake.sync primitives seconds values (some profile.environment)
      sequence).within handshake)
  onConnection (Connection.send frame)
  let key ← Act.ofExcept (Handshake.orError handshake.sessionKey "missing session key")
  let rx ← Act.ofExcept (SessionCipher.new key)
  let (rx, payload) ← onConnection fun c => (syncLoop sequence).run (rx, [], c)
  return (handshake, rx, payload)

/-- The part of `Session::synchronize` that runs in a failed session. -/
def runSynchronize (primitives : Primitives) (profile : LoginProfile) (unixSeconds : Option Nat)
    (handshake : Handshake) (login : Nat) (values : LoginValues) (recordBuild : Int) :
    Method Synchronization := do
  let (handshake, rx, payload) ←
    exchangeSync primitives profile unixSeconds handshake values
  let state ← Act.ofExcept (parseSynchronizedState payload recordBuild)
  if state.account.login ≠ login then
    Act.fail ⟨"synchronized account does not match requested login"⟩
  else
    let (tx, handshake) ← Act.ofExcept (Handshake.takeSendCipher.within handshake)
    let readOnly ← Act.ofExcept (profile.readOnly login)
    setState (.ready
      { rx
        tx
        tradeKey := handshake.tradeKey
        account := state.account
        readOnly := state.account.isReadOnly || readOnly
        messages := .default })
    return { account := state.account, state, payload }

/-- `Session::synchronize`. -/
def synchronize (primitives : Primitives) (profile : LoginProfile) (unixSeconds : Option Nat) :
    Method Synchronization := fun s =>
  match s.state with
  | .authenticated handshake login clientBuild =>
    match prepareSync profile handshake login clientBuild with
    | .error e => (.error e, s)
    | .ok (values, recordBuild) =>
      runSynchronize primitives profile unixSeconds handshake login values recordBuild
        { s with state := .failed }
  | _ => (.error ⟨"synchronization requires password authentication"⟩, s)

/-- `Session::account`. -/
def account (s : Session) : Result AccountState :=
  match s.state with
  | .ready r => .ok r.account
  | _ => reject "account is unavailable before successful synchronization"

/-- `Session::is_read_only`. -/
def isReadOnly (s : Session) : Result Bool :=
  match s.state with
  | .ready r => .ok r.readOnly
  | _ => reject "synchronize before reading session permissions"

/-! ## Requests -/

/-- The commands that a read-only session may send. -/
def READ_ONLY_COMMANDS : List UInt8 :=
  [command.PING, command.TRADE_HISTORY, command.QUOTE_HISTORY, command.SYMBOLS, 106]

/-- `Session::send_encoded`. -/
def sendEncoded (command : UInt8) (payload : Bytes) (flags : UInt16) : Method UInt16 := fun s =>
  if MAX_PAYLOAD < payload.length then (.error ⟨"request exceeds frame limit"⟩, s)
  else
    match s.state with
    | .ready r =>
      if r.readOnly ∧ command ∉ READ_ONLY_COMMANDS then
        (.error ⟨"command is not allowed in a read-only session"⟩, s)
      else
        let (sequence, c) := s.connection.nextSequence
        let (ciphertext, tx) := r.tx.encrypt payload
        match Connection.send { command, sequence, flags, payload := ciphertext } c with
        | (.error e, c) => (.error e, { s with connection := c, state := .failed })
        | (.ok (), c) => (.ok sequence, { s with connection := c, state := .ready { r with tx } })
    | _ => (.error ⟨"synchronize before sending session requests"⟩, s)

/-- `Session::send_request`. -/
def sendRequest (command : UInt8) (payload : Bytes) : Method UInt16 :=
  sendEncoded command payload FINAL

/-- The signed and compressed payload of a trade. -/
def tradePayload (primitives : Primitives) (record : Bytes) (key : Vector UInt8 32) :
    Result Bytes := do
  let body ← makeSignedTradePayload primitives.hmacSha256 record key
  makeCompressedPayload body

/-- `Session::send_trade`. -/
def sendTrade (primitives : Primitives) (record : Bytes) : Method UInt16 := fun s =>
  match s.state with
  | .ready r =>
    if r.readOnly then (.error ⟨"account is read-only"⟩, s)
    else
      match r.tradeKey with
      | none => (.error ⟨"no trade signing key"⟩, s)
      | some key =>
        match tradePayload primitives record key with
        | .error e => (.error e, s)
        | .ok payload => sendEncoded command.TRADE_REQUEST payload (FINAL ||| COMPRESSED) s
  | _ => (.error ⟨"synchronize before trading"⟩, s)

/-- `Session::subscribe`. -/
def subscribe (symbolIds : List Int) : Method UInt16 :=
  sendRequest command.SYMBOLS (makeSubscriptionPayload symbolIds)

/-! ## Messages -/

/-- An account update that the session has received. -/
def Ready.update (r : Ready) (account : AccountState) : Ready :=
  { r with readOnly := r.readOnly || account.isReadOnly, account }

/-- The account branch of `Session::poll_message`. -/
def acceptMessage (r : Ready) (message : Message) : Result Ready :=
  if message.command = 55 ∧ message.payload.head? = some 19 then do
    let updates ← parseAccountUpdate19 message.payload
    if updates.any fun update => update.login != r.account.login then
      reject "account update does not match authenticated login"
    else return updates.foldl Ready.update r
  else return r

/-- A frame in `Session::poll_message`. -/
def receive (r : Ready) (frame : Frame) : Result (Option Message × Ready) := do
  let (bytes, rx) := r.rx.decrypt frame.payload
  let bytes ← inflate frame bytes MAX_MESSAGE
  let (message, messages) ← r.messages.push frame bytes
  let r := { r with rx, messages }
  match message with
  | none => return (none, r)
  | some message =>
    let r ← acceptMessage r message
    return (some message, r)

/-- The loop of `Session::poll_message`. -/
def pollLoop :
    Loop (Ready × Connection) (Result (Option Message × Ready) × Connection) where
  body
    | (r, c) =>
      match c.pollFrame with
      | (.error e, c) => .inr (.error e, c)
      | (.ok none, c) => .inr (.ok (none, r), c)
      | (.ok (some frame), c) =>
        match receive r frame with
        | .error e => .inr (.error e, c)
        | .ok (none, r) => .inl (r, c)
        | .ok (some message, r) => .inr (.ok (some message, r), c)
  measure s := s.2.fuel
  decreases := by
    rintro ⟨r, c⟩ t h
    simp only at h
    split at h
    · cases h
    · cases h
    · rename_i frame d hpoll
      split at h
      · cases h
      · cases Sum.inl.inj h
        exact Connection.pollFrame_fuel hpoll
      · cases h

/-- `Session::poll_message`. -/
def pollMessage : Method (Option Message) := fun s =>
  match s.state with
  | .ready r =>
    match pollLoop.run (r, s.connection) with
    | (.error e, c) => (.error e, { s with connection := c, state := .failed })
    | (.ok (message, r), c) => (.ok message, { s with connection := c, state := .ready r })
  | _ => (.error ⟨"synchronize before receiving session messages"⟩, s)

/-- `Session::next_message`. -/
def nextMessage : Method Message := do
  match ← pollMessage with
  | some message => return message
  | none => Act.fail ⟨"receive deadline exceeded"⟩

end Session

end Mt5Open.Native

import Mt5Open.Lib.Act
import Mt5Open.Native.Auth

/-!
# The handshake

One object makes the frames of a login and takes the plain replies.  It derives
the session key and the trade key and holds the cipher of the client, which
starts with the synchronization request.  Every method checks the phase first.
-/

namespace Mt5Open.Native

open Lib

inductive Phase where
  | init
  | helloSent
  | challengeReceived
  | authSent
  | certificateRequired
  | sessionKeysReady
  | syncSent
  | failed
  deriving DecidableEq, Repr

/-- The name that an error shows. -/
def Phase.name : Phase → String
  | .init => "Init"
  | .helloSent => "HelloSent"
  | .challengeReceived => "ChallengeReceived"
  | .authSent => "AuthSent"
  | .certificateRequired => "CertificateRequired"
  | .sessionKeysReady => "SessionKeysReady"
  | .syncSent => "SyncSent"
  | .failed => "Failed"

structure Handshake where
  login : Nat
  password : String
  clientBuild : Nat
  deviceId : Bytes
  phase : Phase
  serverChallenge : Option Bytes
  serverBuild : Option Int
  sessionKey : Option Bytes
  tradeKey : Option (Vector UInt8 32)
  sessionCipher : Option SessionCipher
  authResult : Option AuthResult
  deriving DecidableEq

/-- The low 32 bits of a signed build. -/
def buildAsU32 (build : Int) : Nat := (build % 2 ^ 32).toNat

namespace Handshake

/-- `Handshake::with_device_id`. -/
def withDeviceId (login : Nat) (password : String) (clientBuild : Nat) (deviceId : Bytes) :
    Handshake where
  login := login
  password := password
  clientBuild := clientBuild
  deviceId := deviceId
  phase := .init
  serverChallenge := none
  serverBuild := none
  sessionKey := none
  tradeKey := none
  sessionCipher := none
  authResult := none

/-- `Handshake::new`. -/
def new (login : Nat) (password : String) (clientBuild : Nat) : Handshake where
  login := login
  password := password
  clientBuild := clientBuild
  deviceId := hardwareId login
  phase := .init
  serverChallenge := none
  serverBuild := none
  sessionKey := none
  tradeKey := none
  sessionCipher := none
  authResult := none

/-- A method of a handshake that can change it. -/
abbrev Method := Act ProtocolError Handshake

/-- `Handshake::fail`. -/
def fail {α : Type} (message : String) : Method α := fun h =>
  (.error ⟨message⟩,
    { h with
      phase := .failed
      serverChallenge := none
      serverBuild := none
      sessionKey := none
      tradeKey := none
      sessionCipher := none
      authResult := none })

/-- `x.map_err(|e| self.fail(e))?`. -/
def orFail {α : Type} (x : Result α) : Method α :=
  match x with
  | .ok a => pure a
  | .error e => fail e.message

/-- `Handshake::expect`. -/
def expect (want : Phase) : Method Unit := fun h =>
  if h.phase ≠ want then
    (.error ⟨s!"handshake step out of order: in {h.phase.name}, expected {want.name}"⟩, h)
  else (.ok (), h)

/-- `x.ok_or_else(|| ProtocolError::new(message))`. -/
def orError {α : Type} (x : Option α) (message : String) : Result α :=
  match x with
  | some a => .ok a
  | none => reject message

/-- `Handshake::hello`. -/
def hello (nonceByte : UInt8) (randomWord : Nat) (sequence : UInt16) : Method Frame := do
  expect .init
  let h ← Act.get
  Act.modify fun h => { h with phase := .helloSent }
  return makeHello h.login sequence h.clientBuild (some h.deviceId) nonceByte randomWord

/-- `Handshake::on_challenge`. -/
def onChallenge (plaintext : Bytes) : Method Unit := do
  expect .helloSent
  let reply ← orFail (parseChallenge plaintext)
  if reply.status ≠ 0 then fail s!"challenge rejected with status {reply.status}"
  else Act.modify fun h =>
    { h with serverChallenge := some reply.challenge, phase := .challengeReceived }

/-- `Handshake::auth`. -/
def auth (clientChallenge : Bytes) (nonceWord : Nat) (otp : Option String) (sequence : UInt16) :
    Method Frame := do
  expect .challengeReceived
  let h ← Act.get
  let challenge ← Act.ofExcept (orError h.serverChallenge "no server challenge stored")
  Act.modify fun h => { h with phase := .authSent }
  return makeAuth h.login h.password challenge sequence clientChallenge nonceWord otp

/-- The keys of an authentication result.  Later recognized tags replace
earlier values, but an invalid earlier key cannot be silently ignored. -/
def deriveKeys (primitives : Primitives) (login : Nat) (password : String) :
    Option Bytes × Option (Vector UInt8 32) → List (UInt8 × Bytes) →
      Result (Option Bytes × Option (Vector UInt8 32))
  | keys, [] => .ok keys
  | keys, (tag, value) :: tlvs =>
    if tag = 7 then do
      let sessionKey ← deriveSessionKey primitives login password value
      deriveKeys primitives login password (some sessionKey, keys.2) tlvs
    else if tag = 27 then
      deriveKeys primitives login password
        (keys.1, some (deriveTradeKey primitives login password value)) tlvs
    else deriveKeys primitives login password keys tlvs

/-- The end of `Handshake::on_auth_result`, for a reply with an accepted status. -/
def acceptResult (primitives : Primitives) (result : AuthResult) : Method Unit := do
  let h ← Act.get
  let (sessionKey, tradeKey) ←
    orFail (deriveKeys primitives h.login h.password (none, none) result.tlvs)
  let sessionKey ← orFail (orError sessionKey "auth result missing session-key TLV 7")
  let cipher ← orFail (SessionCipher.new sessionKey)
  Act.modify fun h =>
    { h with
      sessionCipher := some cipher
      sessionKey := some sessionKey
      tradeKey
      serverBuild := some result.serverBuild
      phase := if result.status = 1003 then .certificateRequired else .sessionKeysReady
      authResult := some result }

/-- `Handshake::on_auth_result`. -/
def onAuthResult (primitives : Primitives) (plaintext : Bytes) : Method Unit := do
  expect .authSent
  let result ← orFail (parseAuthResult plaintext)
  if result.status ≠ 0 ∧ result.status ≠ 1003 then
    fail s!"authentication rejected with status {result.status}"
  else if result.serverBuild ≤ 0 then fail "unsupported nonpositive server build"
  else acceptResult primitives result

/-- `Handshake::certificate_continuation`. -/
def certificateContinuation (signature certificateDer : Bytes) (sequence : UInt16) :
    Method Frame := do
  expect .certificateRequired
  let body ← Act.ofExcept (certificateContinuationPayload signature certificateDer)
  let h ← Act.get
  let cipher ← Act.ofExcept (orError h.sessionCipher "session cipher not initialized")
  let encrypted := cipher.encrypt body
  Act.modify fun h => { h with sessionCipher := some encrypted.2, phase := .sessionKeysReady }
  return { command := command.CERT_CONTINUATION, sequence, flags := FINAL, payload := encrypted.1 }

/-- `Handshake::certificate_challenge`. -/
def certificateChallenge (h : Handshake) : Result Bytes := do
  (expect .certificateRequired h).1
  orError h.serverChallenge "no server challenge stored"

/-- `Handshake::login_values`. -/
def loginValues (h : Handshake) (answer28 answer35 : UInt64) : Result LoginValues := do
  (expect .sessionKeysReady h).1
  let serverBuild ← orError h.serverBuild "missing server build"
  let challenge ← orError h.serverChallenge "missing server challenge"
  return loginValueWrapper h.login h.clientBuild (buildAsU32 serverBuild) challenge
    answer28 answer35

/-- `environment_metadata`. -/
def environmentMetadata (primitives : Primitives) (clientBuild : Nat) : String :=
  s!"file=mt5-open\tversion={clientBuild}\tos_ver={primitives.os}\t"

/-- The plain body of the synchronization request. -/
def syncBody (primitives : Primitives) (h : Handshake) (unixSeconds : Int)
    (values : LoginValues) (environmentText : Option String) : Bytes :=
  makeSyncRequest h.login h.clientBuild (buildAsU32 (h.serverBuild.getD 0)) unixSeconds
    values.loginId values.extendedLoginId
    (some (environmentText.getD (environmentMetadata primitives h.clientBuild)))

/-- `Handshake::sync`. -/
def sync (primitives : Primitives) (unixSeconds : Int) (values : LoginValues)
    (environmentText : Option String) (sequence : UInt16) : Method Frame := do
  expect .sessionKeysReady
  let h ← Act.get
  let cipher ← Act.ofExcept (orError h.sessionCipher "session cipher not initialized")
  let encrypted := cipher.encrypt (syncBody primitives h unixSeconds values environmentText)
  Act.modify fun h => { h with sessionCipher := some encrypted.2, phase := .syncSent }
  return { command := command.ACCOUNT_STATE, sequence, flags := FINAL, payload := encrypted.1 }

/-- `Handshake::take_send_cipher`. -/
def takeSendCipher : Method SessionCipher := do
  expect .syncSent
  let h ← Act.get
  Act.modify fun h => { h with sessionCipher := none }
  Act.ofExcept (orError h.sessionCipher "send cipher already transferred")

/-! ## What the steps leave -/

section Steps

variable {primitives : Primitives} {α β : Type} {h t : Handshake}

theorem expect_bind_eq_ok {want : Phase} {f : Unit → Method β} {b : β} :
    (expect want >>= f) h = (.ok b, t) ↔ h.phase = want ∧ f () h = (.ok b, t) := by
  rw [Act.bind_eq_ok]
  constructor
  · intro hrun
    obtain ⟨_, u, hexpect, hf⟩ := hrun
    unfold expect at hexpect
    split at hexpect
    · cases hexpect
    · rename_i hphase
      cases hexpect
      exact ⟨not_ne_iff.mp hphase, hf⟩
  · intro hrun
    refine ⟨(), h, ?_, hrun.2⟩
    unfold expect
    rw [if_neg (not_ne_iff.mpr hrun.1)]

theorem orFail_bind_eq_ok {x : Result α} {f : α → Method β} {b : β} :
    (orFail x >>= f) h = (.ok b, t) ↔ ∃ a, x = .ok a ∧ f a h = (.ok b, t) := by
  rw [Act.bind_eq_ok]
  cases x with
  | error e =>
    constructor
    · intro hrun
      obtain ⟨a, u, hfail, -⟩ := hrun
      cases hfail
    · intro hrun
      obtain ⟨a, ha, -⟩ := hrun
      cases ha
  | ok a =>
    constructor
    · intro hrun
      obtain ⟨a', u, hpure, hf⟩ := hrun
      cases hpure
      exact ⟨a, rfl, hf⟩
    · intro hrun
      obtain ⟨a', ha, hf⟩ := hrun
      cases ha
      exact ⟨a, h, rfl, hf⟩

theorem orError_eq_ok {x : Option α} {message : String} {a : α} :
    orError x message = .ok a ↔ x = some a := by
  cases x with
  | none => exact ⟨(fun h => nomatch h), (fun h => nomatch h)⟩
  | some b =>
    constructor
    · intro hx
      cases hx
      rfl
    · intro hx
      cases hx
      rfl

theorem hello_eq_ok {nonceByte : UInt8} {randomWord : Nat} {sequence : UInt16} {frame : Frame}
    (hrun : hello nonceByte randomWord sequence h = (.ok frame, t)) :
    h.phase = .init ∧ t = { h with phase := .helloSent } ∧
      frame = makeHello h.login sequence h.clientBuild (some h.deviceId) nonceByte randomWord := by
  obtain ⟨hphase, hrest⟩ := expect_bind_eq_ok.mp hrun
  cases hrest
  exact ⟨hphase, rfl, rfl⟩

/-- The challenge was accepted. -/
theorem onChallenge_eq_ok {plaintext : Bytes} (hrun : onChallenge plaintext h = (.ok (), t)) :
    ∃ reply, parseChallenge plaintext = .ok reply ∧ reply.status = 0 ∧
      t = { h with serverChallenge := some reply.challenge, phase := .challengeReceived } := by
  obtain ⟨-, hrest⟩ := expect_bind_eq_ok.mp hrun
  obtain ⟨reply, hparse, hrest⟩ := orFail_bind_eq_ok.mp hrest
  by_cases hstatus : reply.status ≠ 0
  · rw [if_pos hstatus] at hrest
    cases hrest
  · rw [if_neg hstatus] at hrest
    cases hrest
    exact ⟨reply, hparse, not_ne_iff.mp hstatus, rfl⟩

theorem auth_eq_ok {clientChallenge : Bytes} {nonceWord : Nat} {otp : Option String}
    {sequence : UInt16} {frame : Frame}
    (hrun : auth clientChallenge nonceWord otp sequence h = (.ok frame, t)) :
    t = { h with phase := .authSent } ∧ ∃ challenge, h.serverChallenge = some challenge ∧
      frame = makeAuth h.login h.password challenge sequence clientChallenge nonceWord otp := by
  obtain ⟨-, hrest⟩ := expect_bind_eq_ok.mp hrun
  obtain ⟨challenge, hchallenge, hrest⟩ := Act.ofExcept_bind_eq_ok.mp hrest
  cases hrest
  exact ⟨rfl, challenge, orError_eq_ok.mp hchallenge, rfl⟩

/-- The reply was accepted, and the keys come from it. -/
theorem onAuthResult_eq_ok {plaintext : Bytes}
    (hrun : onAuthResult primitives plaintext h = (.ok (), t)) :
    ∃ result sessionKey tradeKey cipher, parseAuthResult plaintext = .ok result ∧
      (result.status = 0 ∨ result.status = 1003) ∧
      deriveKeys primitives h.login h.password (none, none) result.tlvs =
        .ok (some sessionKey, tradeKey) ∧
      SessionCipher.new sessionKey = .ok cipher ∧
      t = { h with
        sessionCipher := some cipher
        sessionKey := some sessionKey
        tradeKey
        serverBuild := some result.serverBuild
        phase := if result.status = 1003 then .certificateRequired else .sessionKeysReady
        authResult := some result } := by
  obtain ⟨-, hrest⟩ := expect_bind_eq_ok.mp hrun
  obtain ⟨result, hparse, hrest⟩ := orFail_bind_eq_ok.mp hrest
  by_cases hstatus : result.status ≠ 0 ∧ result.status ≠ 1003
  · rw [if_pos hstatus] at hrest
    cases hrest
  · rw [if_neg hstatus] at hrest
    by_cases hbuild : result.serverBuild ≤ 0
    · rw [if_pos hbuild] at hrest
      cases hrest
    · rw [if_neg hbuild] at hrest
      obtain ⟨⟨sessionKey?, tradeKey⟩, hkeys, hrest⟩ := orFail_bind_eq_ok.mp hrest
      obtain ⟨sessionKey, hsessionKey, hrest⟩ := orFail_bind_eq_ok.mp hrest
      obtain ⟨cipher, hcipher, hrest⟩ := orFail_bind_eq_ok.mp hrest
      cases hrest
      cases orError_eq_ok.mp hsessionKey
      refine ⟨result, sessionKey, tradeKey, cipher, hparse, ?_, hkeys, hcipher, rfl⟩
      omega

/-- The synchronization request is the first frame of the cipher. -/
theorem sync_eq_ok {unixSeconds : Int} {values : LoginValues} {environmentText : Option String}
    {sequence : UInt16} {frame : Frame}
    (hrun : sync primitives unixSeconds values environmentText sequence h = (.ok frame, t)) :
    ∃ cipher, h.sessionCipher = some cipher ∧
      frame =
        { command := command.ACCOUNT_STATE
          sequence
          flags := FINAL
          payload := (cipher.encrypt
            (syncBody primitives h unixSeconds values environmentText)).1 } ∧
      t =
        { h with
          sessionCipher := some (cipher.encrypt
            (syncBody primitives h unixSeconds values environmentText)).2
          phase := .syncSent } := by
  obtain ⟨-, hrest⟩ := expect_bind_eq_ok.mp hrun
  obtain ⟨cipher, hcipher, hrest⟩ := Act.ofExcept_bind_eq_ok.mp hrest
  cases hrest
  exact ⟨cipher, orError_eq_ok.mp hcipher, rfl, rfl⟩

theorem takeSendCipher_eq_ok {tx : SessionCipher} (hrun : takeSendCipher h = (.ok tx, t)) :
    h.sessionCipher = some tx ∧ t = { h with sessionCipher := none } := by
  obtain ⟨-, hrest⟩ := expect_bind_eq_ok.mp hrun
  obtain ⟨hcipher, ht⟩ := Prod.mk.inj hrest
  exact ⟨orError_eq_ok.mp hcipher, ht.symm⟩

end Steps

end Handshake

end Mt5Open.Native

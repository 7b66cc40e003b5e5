import Mt5Open.Native.Handshake

/-!
# The phases of a handshake

A handshake is called from outside, in any order and with any replies.
`handshake_phases` says what it holds in each of its phases, and which calls
leave it as it is or fail it for good.

The step lemmas say what one method can do.  `Consistent` is the invariant, and
it counts the ciphers that have been handed over.
-/

namespace Mt5Open.Native

open Lib

namespace Handshake

/-! ## Calls -/

/-- A call of a method, with its arguments. -/
inductive Call where
  | hello (nonceByte : UInt8) (randomWord : Nat) (sequence : UInt16)
  | onChallenge (plaintext : Bytes)
  | auth (clientChallenge : Bytes) (nonceWord : Nat) (otp : Option String) (sequence : UInt16)
  | onAuthResult (plaintext : Bytes)
  | certificateContinuation (signature certificateDer : Bytes) (sequence : UInt16)
  | certificateChallenge
  | loginValues (answer28 answer35 : UInt64)
  | takeSendCipher
  | sync (unixSeconds : Int) (values : LoginValues) (environmentText : Option String)
      (sequence : UInt16)

/-- What a call answers. -/
inductive Answer where
  | frame (frame : Frame)
  | done
  | challenge (challenge : Bytes)
  | values (values : LoginValues)
  | cipher (cipher : SessionCipher)

namespace Call

/-- The phase that a call belongs to. -/
def phase : Call → Phase
  | hello _ _ _ => .init
  | onChallenge _ => .helloSent
  | auth _ _ _ _ => .challengeReceived
  | onAuthResult _ => .authSent
  | certificateContinuation _ _ _ => .certificateRequired
  | certificateChallenge => .certificateRequired
  | loginValues _ _ => .sessionKeysReady
  | takeSendCipher => .syncSent
  | sync _ _ _ _ => .sessionKeysReady

def run (primitives : Primitives) : Call → Method Answer
  | hello nonceByte randomWord sequence => do
    return .frame (← Handshake.hello nonceByte randomWord sequence)
  | onChallenge plaintext => do
    Handshake.onChallenge plaintext
    return .done
  | auth clientChallenge nonceWord otp sequence => do
    return .frame (← Handshake.auth clientChallenge nonceWord otp sequence)
  | onAuthResult plaintext => do
    Handshake.onAuthResult primitives plaintext
    return .done
  | certificateContinuation signature certificateDer sequence => do
    return .frame (← Handshake.certificateContinuation signature certificateDer sequence)
  | certificateChallenge => do
    return .challenge (← Act.ofExcept (← Act.get).certificateChallenge)
  | loginValues answer28 answer35 => do
    return .values (← Act.ofExcept ((← Act.get).loginValues answer28 answer35))
  | takeSendCipher => do
    return .cipher (← Handshake.takeSendCipher)
  | sync unixSeconds values environmentText sequence => do
    return .frame (← Handshake.sync primitives unixSeconds values environmentText sequence)

end Call

/-- The handshake behind some calls. -/
def after (primitives : Primitives) (h : Handshake) (calls : List Call) : Handshake :=
  calls.foldl (fun h call => (call.run primitives h).2) h

/-- Whether a cipher was handed over. -/
def handedOver : Result Answer → Nat
  | .ok (.cipher _) => 1
  | _ => 0

/-- How many ciphers some calls hand over. -/
def transfers (primitives : Primitives) : Handshake → List Call → Nat
  | _, [] => 0
  | h, call :: calls =>
    handedOver (call.run primitives h).1 + transfers primitives (call.run primitives h).2 calls

/-! ## The state of each phase -/

/-- The last value with a tag. -/
def lastValue (tag : UInt8) (tlvs : List (UInt8 × Bytes)) : Option Bytes :=
  (tlvs.filter (·.1 = tag)).getLast?.map Prod.snd

/-- A handshake that failed holds nothing. -/
def failed (h : Handshake) : Handshake :=
  { h with
    phase := .failed
    serverChallenge := none
    serverBuild := none
    sessionKey := none
    tradeKey := none
    sessionCipher := none
    authResult := none }

/-- No keys, and nothing else of an authentication result. -/
structure Unkeyed (h : Handshake) : Prop where
  serverBuild : h.serverBuild = none
  sessionKey : h.sessionKey = none
  tradeKey : h.tradeKey = none
  sessionCipher : h.sessionCipher = none
  authResult : h.authResult = none

/-- The keys of the authentication result, and what they go with. -/
structure Keyed (primitives : Primitives) (h : Handshake) : Prop where
  challenge : h.serverChallenge.isSome
  keys : ∃ result sessionKey value, h.authResult = some result ∧
    h.serverBuild = some result.serverBuild ∧ 0 < result.serverBuild ∧
    (∀ value, (7, value) ∈ result.tlvs → value ≠ []) ∧
    lastValue 7 result.tlvs = some value ∧
    deriveSessionKey primitives h.login h.password value = .ok sessionKey ∧
    h.sessionKey = some sessionKey ∧
    h.tradeKey = (lastValue 27 result.tlvs).map (deriveTradeKey primitives h.login h.password)

/-- What a handshake holds when it has handed over so many ciphers. -/
def Consistent (primitives : Primitives) (given : Nat) (h : Handshake) : Prop :=
  match h.phase with
  | .init | .helloSent | .failed => h.serverChallenge = none ∧ Unkeyed h ∧ given = 0
  | .challengeReceived | .authSent => h.serverChallenge.isSome ∧ Unkeyed h ∧ given = 0
  | .certificateRequired | .sessionKeysReady =>
    Keyed primitives h ∧ h.sessionCipher.isSome ∧ given = 0
  | .syncSent =>
    Keyed primitives h ∧
      (h.sessionCipher.isSome ∧ given = 0 ∨ h.sessionCipher = none ∧ given = 1)

/-- A reply that is malformed or that rejects the client. -/
def Call.Rejected : Call → Prop
  | .onChallenge plaintext => ¬∃ reply, parseChallenge plaintext = .ok reply ∧ reply.status = 0
  | .onAuthResult plaintext =>
    ¬∃ result, parseAuthResult plaintext = .ok result ∧
      (result.status = 0 ∨ result.status = 1003) ∧ 0 < result.serverBuild ∧
      (∀ value, (7, value) ∈ result.tlvs → value ≠ []) ∧ ∃ value, (7, value) ∈ result.tlvs
  | _ => False

/-! ## One call -/

section OneCall

variable {primitives : Primitives} {α β : Type} {h : Handshake}

theorem expect_bind_of_ne {want : Phase} (hphase : want ≠ h.phase) (f : Unit → Method β) :
    ∃ e, (expect want >>= f) h = (.error e, h) := by
  have hexpect : expect want h = (.error _, h) := if_pos hphase.symm
  exact ⟨_, Act.bind_of_error hexpect⟩

theorem expect_bind_of_eq {want : Phase} (hphase : want = h.phase) (f : Unit → Method β) :
    (expect want >>= f) h = f () h := by
  have hexpect : expect want h = (.ok (), h) := if_neg (not_not_intro hphase.symm)
  exact Act.bind_of_ok hexpect

/-- A call out of its phase changes nothing. -/
theorem run_of_ne {call : Call} (hphase : call.phase ≠ h.phase) :
    ∃ e, call.run primitives h = (.error e, h) := by
  have hexpect {α : Type} (f : Unit → Result α) :
      ∃ e, ((expect call.phase h).1 >>= f) = .error e := by
    rw [expect, if_pos hphase.symm]
    exact ⟨_, rfl⟩
  cases call with
  | certificateChallenge =>
    obtain ⟨e, he⟩ := hexpect fun _ => orError h.serverChallenge "no server challenge stored"
    exact ⟨e, Act.ofExcept_bind_of_error he _ h⟩
  | loginValues answer28 answer35 =>
    obtain ⟨e, he⟩ := hexpect fun _ => do
      let serverBuild ← orError h.serverBuild "missing server build"
      let challenge ← orError h.serverChallenge "missing server challenge"
      return loginValueWrapper h.login h.clientBuild (buildAsU32 serverBuild) challenge answer28
        answer35
    exact ⟨e, Act.ofExcept_bind_of_error he _ h⟩
  | _ =>
    obtain ⟨e, he⟩ := expect_bind_of_ne hphase _
    exact ⟨e, Act.bind_of_error he⟩

theorem orFail_of_error {x : Result α} {e : ProtocolError} (hx : x = .error e)
    (f : α → Method β) : (orFail x >>= f) h = (.error e, failed h) := by
  rw [hx]
  exact Act.bind_of_error rfl

theorem orFail_of_ok {x : Result α} {a : α} (hx : x = .ok a) (f : α → Method β) :
    (orFail x >>= f) h = f a h := by
  rw [hx]
  exact Act.bind_of_ok rfl

/-- The challenge is accepted, or the handshake fails. -/
theorem onChallenge_cases (hphase : .helloSent = h.phase) (plaintext : Bytes) :
    (∃ reply, parseChallenge plaintext = .ok reply ∧ reply.status = 0 ∧
      onChallenge plaintext h =
        (.ok (), { h with
          serverChallenge := some reply.challenge
          phase := .challengeReceived })) ∨
      ∃ e, onChallenge plaintext h = (.error e, failed h) := by
  rw [onChallenge, expect_bind_of_eq hphase]
  cases hparse : parseChallenge plaintext with
  | error e => exact .inr ⟨e, orFail_of_error rfl _⟩
  | ok reply =>
    rw [orFail_of_ok rfl]
    by_cases hstatus : reply.status ≠ 0
    · rw [if_pos hstatus]
      exact .inr ⟨_, rfl⟩
    · rw [if_neg hstatus]
      exact .inl ⟨reply, rfl, not_ne_iff.mp hstatus, rfl⟩

theorem auth_cases (hphase : .challengeReceived = h.phase) (hchallenge : h.serverChallenge.isSome)
    (clientChallenge : Bytes) (nonceWord : Nat) (otp : Option String) (sequence : UInt16) :
    ∃ frame, auth clientChallenge nonceWord otp sequence h =
      (.ok frame, { h with phase := .authSent }) := by
  obtain ⟨challenge, hchallenge⟩ := Option.isSome_iff_exists.mp hchallenge
  rw [auth, expect_bind_of_eq hphase, Act.get_bind,
    Act.ofExcept_bind_of_ok (orError_eq_ok.mpr hchallenge)]
  exact ⟨_, rfl⟩

theorem lastValue_cons (tag : UInt8) (item : UInt8 × Bytes) (tlvs : List (UInt8 × Bytes)) :
    lastValue tag (item :: tlvs) =
      (lastValue tag tlvs).or (if item.1 = tag then some item.2 else none) := by
  unfold lastValue
  by_cases htag : item.1 = tag
  · rw [if_pos htag, List.filter_cons_of_pos (by simpa using htag), List.getLast?_cons]
    cases (tlvs.filter (·.1 = tag)).getLast? <;> rfl
  · rw [if_neg htag, List.filter_cons_of_neg (by simpa using htag), Option.or_none]

/-- What `deriveKeys` makes of a list of tags, behind the keys it has. -/
theorem deriveKeys_eq_ok {login : Nat} {password : String} {tlvs : List (UInt8 × Bytes)}
    {keys keys' : Option Bytes × Option (Vector UInt8 32)}
    (h : deriveKeys primitives login password keys tlvs = .ok keys') :
    (∀ value, (7, value) ∈ tlvs → value ≠ []) ∧
      (match lastValue 7 tlvs with
        | none => keys'.1 = keys.1
        | some value => ∃ key, deriveSessionKey primitives login password value = .ok key ∧
            keys'.1 = some key) ∧
      keys'.2 =
        ((lastValue 27 tlvs).map (deriveTradeKey primitives login password)).or keys.2 := by
  induction tlvs generalizing keys with
  | nil =>
    cases h
    exact ⟨fun _ hmem => absurd hmem List.not_mem_nil, rfl, rfl⟩
  | cons item tlvs ih =>
    obtain ⟨tag, value⟩ := item
    rw [deriveKeys] at h
    rw [lastValue_cons, lastValue_cons]
    by_cases hseven : tag = 7
    · subst hseven
      rw [if_pos rfl] at h
      obtain ⟨key, hkey, hrest⟩ := except_bind_eq_ok.mp h
      obtain ⟨hnonempty, hsession, htrade⟩ := ih hrest
      have hvalue : value ≠ [] := by
        rintro rfl
        cases hkey
      refine ⟨?_, ?_, by simpa using htrade⟩
      · intro other hother
        rcases List.mem_cons.mp hother with heq | hmem
        · cases heq
          exact hvalue
        · exact hnonempty other hmem
      · cases hlast : lastValue 7 tlvs with
        | none =>
          rw [hlast] at hsession
          exact ⟨key, hkey, hsession⟩
        | some last =>
          rw [hlast] at hsession
          exact hsession
    · rw [if_neg hseven] at h
      have hother : ∀ other, (7, other) ∈ (tag, value) :: tlvs → (7, other) ∈ tlvs := by
        intro other hother
        rcases List.mem_cons.mp hother with heq | hmem
        · cases heq
          exact absurd rfl hseven
        · exact hmem
      rw [if_neg hseven, Option.or_none]
      by_cases htrade : tag = 27
      · rw [if_pos htrade] at h
        obtain ⟨hnonempty, hsession, hlast⟩ := ih h
        refine ⟨fun other hmem => hnonempty other (hother other hmem), hsession, ?_⟩
        rw [hlast, if_pos htrade]
        cases lastValue 27 tlvs <;> rfl
      · rw [if_neg htrade] at h
        obtain ⟨hnonempty, hsession, hlast⟩ := ih h
        refine ⟨fun other hmem => hnonempty other (hother other hmem), hsession, ?_⟩
        rw [hlast, if_neg htrade, Option.or_none]

theorem mem_of_lastValue {tag : UInt8} {tlvs : List (UInt8 × Bytes)} {value : Bytes}
    (h : lastValue tag tlvs = some value) : (tag, value) ∈ tlvs := by
  obtain ⟨item, hitem, rfl⟩ := Option.map_eq_some_iff.mp h
  have hmem := List.mem_filter.mp (List.mem_of_getLast? hitem)
  obtain rfl : item.1 = tag := by simpa using hmem.2
  exact hmem.1

/-- The authentication result is accepted, or the handshake fails. -/
theorem onAuthResult_cases (hphase : .authSent = h.phase) (hchallenge : h.serverChallenge.isSome)
    (plaintext : Bytes) :
    (∃ t, onAuthResult primitives plaintext h = (.ok (), t) ∧ Keyed primitives t ∧
      t.sessionCipher.isSome ∧ (t.phase = .certificateRequired ∨ t.phase = .sessionKeysReady) ∧
      ¬(Call.onAuthResult plaintext).Rejected) ∨
      ∃ e, onAuthResult primitives plaintext h = (.error e, failed h) := by
  rw [onAuthResult, expect_bind_of_eq hphase]
  cases hparse : parseAuthResult plaintext with
  | error e => exact .inr ⟨e, orFail_of_error rfl _⟩
  | ok result =>
    rw [orFail_of_ok rfl]
    by_cases hstatus : result.status ≠ 0 ∧ result.status ≠ 1003
    · rw [if_pos hstatus]
      exact .inr ⟨_, rfl⟩
    rw [if_neg hstatus]
    by_cases hbuild : result.serverBuild ≤ 0
    · rw [if_pos hbuild]
      exact .inr ⟨_, rfl⟩
    rw [if_neg hbuild, acceptResult, Act.get_bind]
    cases hkeys : deriveKeys primitives h.login h.password (none, none) result.tlvs with
    | error e => exact .inr ⟨e, orFail_of_error rfl _⟩
    | ok keys =>
      obtain ⟨sessionKey?, tradeKey⟩ := keys
      obtain ⟨hnonempty, hsession, htrade⟩ := deriveKeys_eq_ok hkeys
      rw [orFail_of_ok rfl]
      dsimp only
      cases sessionKey? with
      | none => exact .inr ⟨_, orFail_of_error rfl _⟩
      | some sessionKey =>
        rw [orFail_of_ok (orError_eq_ok.mpr rfl)]
        cases hcipher : SessionCipher.new sessionKey with
        | error e => exact .inr ⟨e, orFail_of_error rfl _⟩
        | ok cipher =>
          rw [orFail_of_ok rfl]
          cases hlast : lastValue 7 result.tlvs with
          | none =>
            rw [hlast] at hsession
            cases hsession
          | some value =>
            rw [hlast] at hsession
            obtain ⟨key, hkey, hsome⟩ := hsession
            cases hsome
            have haccepted : result.status = 0 ∨ result.status = 1003 := by omega
            have hpositive : 0 < result.serverBuild := by omega
            refine .inl ⟨_, rfl, ⟨hchallenge, result, sessionKey, value, rfl, rfl, hpositive,
              hnonempty, hlast, hkey, rfl, ?_⟩, rfl, ?_, ?_⟩
            · rw [Option.or_none] at htrade
              exact htrade
            · by_cases hcertificate : result.status = 1003
              · exact .inl (if_pos hcertificate)
              · exact .inr (if_neg hcertificate)
            · exact not_not_intro ⟨result, hparse, haccepted, hpositive, hnonempty, value,
                mem_of_lastValue hlast⟩

/-- A certificate that is not empty is sent, and the cipher goes on. -/
theorem certificateContinuation_cases (hphase : .certificateRequired = h.phase)
    (signature certificateDer : Bytes) (sequence : UInt16) :
    (∃ frame cipher, certificateContinuation signature certificateDer sequence h =
      (.ok frame, { h with sessionCipher := some cipher, phase := .sessionKeysReady })) ∨
      ∃ e, certificateContinuation signature certificateDer sequence h = (.error e, h) := by
  rw [certificateContinuation, expect_bind_of_eq hphase]
  cases hbody : certificateContinuationPayload signature certificateDer with
  | error e => exact .inr ⟨e, Act.ofExcept_bind_of_error rfl _ h⟩
  | ok body =>
    rw [Act.ofExcept_bind_of_ok rfl, Act.get_bind]
    cases hcipher : orError h.sessionCipher "session cipher not initialized" with
    | error e => exact .inr ⟨e, Act.ofExcept_bind_of_error rfl _ h⟩
    | ok cipher =>
      rw [Act.ofExcept_bind_of_ok rfl]
      exact .inl ⟨_, _, rfl⟩

theorem certificateContinuation_of_empty {signature certificateDer : Bytes}
    (hempty : signature = [] ∨ certificateDer = []) (sequence : UInt16) :
    ∃ e, certificateContinuation signature certificateDer sequence h = (.error e, h) := by
  by_cases hphase : .certificateRequired = h.phase
  · rw [certificateContinuation, expect_bind_of_eq hphase]
    exact ⟨_, Act.ofExcept_bind_of_error (if_pos hempty) _ h⟩
  · exact expect_bind_of_ne hphase _

theorem sync_cases (hphase : .sessionKeysReady = h.phase) (unixSeconds : Int)
    (values : LoginValues) (environmentText : Option String) (sequence : UInt16) :
    (∃ frame cipher, sync primitives unixSeconds values environmentText sequence h =
      (.ok frame, { h with sessionCipher := some cipher, phase := .syncSent })) ∨
      ∃ e, sync primitives unixSeconds values environmentText sequence h = (.error e, h) := by
  rw [sync, expect_bind_of_eq hphase, Act.get_bind]
  cases hcipher : orError h.sessionCipher "session cipher not initialized" with
  | error e => exact .inr ⟨e, Act.ofExcept_bind_of_error rfl _ h⟩
  | ok cipher =>
    rw [Act.ofExcept_bind_of_ok rfl]
    exact .inl ⟨_, _, rfl⟩

theorem takeSendCipher_cases (hphase : .syncSent = h.phase) :
    (∃ cipher, h.sessionCipher = some cipher ∧
      takeSendCipher h = (.ok cipher, { h with sessionCipher := none })) ∨
      h.sessionCipher = none ∧ ∃ e, takeSendCipher h = (.error e, h) := by
  rw [takeSendCipher, expect_bind_of_eq hphase, Act.get_bind]
  cases hcipher : h.sessionCipher with
  | none =>
    have hsame : { h with sessionCipher := none } = h := by rw [← hcipher]
    exact .inr ⟨rfl, _, congrArg (Prod.mk _) hsame⟩
  | some cipher => exact .inl ⟨cipher, rfl, rfl⟩

/-- A call that only reads the handshake. -/
theorem ofExcept_map (x : Result α) (make : α → Answer) (h : Handshake) :
    (Act.ofExcept x >>= fun a => (pure (make a) : Method Answer)) h = (x.map make, h) := by
  cases x <;> rfl

theorem run_certificateChallenge (primitives : Primitives) (h : Handshake) :
    Call.certificateChallenge.run primitives h = (h.certificateChallenge.map .challenge, h) :=
  ofExcept_map _ _ _

theorem run_loginValues (primitives : Primitives) (h : Handshake) (answer28 answer35 : UInt64) :
    (Call.loginValues answer28 answer35).run primitives h =
      ((h.loginValues answer28 answer35).map .values, h) :=
  ofExcept_map _ _ _

theorem consistent_failed (h : Handshake) : Consistent primitives 0 (failed h) :=
  ⟨rfl, ⟨rfl, rfl, rfl, rfl, rfl⟩, rfl⟩

/-- What a call can do: it succeeds and keeps what the phases promise, it leaves the
handshake as it is, or it fails it for good. -/
theorem run_cases {given : Nat} (hstate : Consistent primitives given h) (call : Call) :
    (∃ answer t, call.run primitives h = (.ok answer, t) ∧
      Consistent primitives (given + handedOver (.ok answer)) t ∧ ¬call.Rejected) ∨
    (∃ e, call.run primitives h = (.error e, h) ∧ (call.phase = h.phase → ¬call.Rejected)) ∨
    ∃ e, call.run primitives h = (.error e, failed h) ∧ given = 0 := by
  by_cases hphase : call.phase = h.phase
  · have hsame := hstate
    unfold Consistent at hstate
    rw [← hphase] at hstate
    cases call with
    | hello nonceByte randomWord sequence =>
      obtain ⟨hchallenge, hunkeyed, rfl⟩ := hstate
      refine .inl ⟨.frame _, { h with phase := .helloSent },
        Act.bind_of_ok (expect_bind_of_eq hphase _), ?_, id⟩
      exact ⟨hchallenge, ⟨hunkeyed.1, hunkeyed.2, hunkeyed.3, hunkeyed.4, hunkeyed.5⟩, rfl⟩
    | onChallenge plaintext =>
      obtain ⟨hchallenge, hunkeyed, rfl⟩ := hstate
      rcases onChallenge_cases hphase plaintext with ⟨reply, hparse, hzero, hreply⟩ | ⟨e, he⟩
      · refine .inl ⟨.done, _, Act.bind_of_ok hreply, ?_, not_not_intro ⟨reply, hparse, hzero⟩⟩
        exact ⟨rfl, ⟨hunkeyed.1, hunkeyed.2, hunkeyed.3, hunkeyed.4, hunkeyed.5⟩, rfl⟩
      · exact .inr (.inr ⟨e, Act.bind_of_error he, rfl⟩)
    | auth clientChallenge nonceWord otp sequence =>
      obtain ⟨hchallenge, hunkeyed, rfl⟩ := hstate
      obtain ⟨frame, hframe⟩ := auth_cases hphase hchallenge clientChallenge nonceWord otp sequence
      refine .inl ⟨.frame frame, _, Act.bind_of_ok hframe, ?_, id⟩
      exact ⟨hchallenge, ⟨hunkeyed.1, hunkeyed.2, hunkeyed.3, hunkeyed.4, hunkeyed.5⟩, rfl⟩
    | onAuthResult plaintext =>
      obtain ⟨hchallenge, hunkeyed, rfl⟩ := hstate
      rcases onAuthResult_cases hphase hchallenge plaintext with
        ⟨t, hreply, hkeyed, hcipher, hnext, hnot⟩ | ⟨e, he⟩
      · refine .inl ⟨.done, t, Act.bind_of_ok hreply, ?_, hnot⟩
        unfold Consistent
        rcases hnext with hnext | hnext <;> rw [hnext] <;> exact ⟨hkeyed, hcipher, rfl⟩
      · exact .inr (.inr ⟨e, Act.bind_of_error he, rfl⟩)
    | certificateContinuation signature certificateDer sequence =>
      obtain ⟨hkeyed, -, rfl⟩ := hstate
      rcases certificateContinuation_cases hphase signature certificateDer sequence with
        ⟨frame, cipher, hframe⟩ | ⟨e, he⟩
      · refine .inl ⟨.frame frame, _, Act.bind_of_ok hframe, ?_, id⟩
        exact ⟨⟨hkeyed.challenge, hkeyed.keys⟩, rfl, rfl⟩
      · exact .inr (.inl ⟨e, Act.bind_of_error he, fun _ => id⟩)
    | certificateChallenge =>
      have hrun := run_certificateChallenge primitives h
      cases hresult : h.certificateChallenge with
      | error e => exact .inr (.inl ⟨e, hrun.trans (by rw [hresult]; rfl), fun _ => id⟩)
      | ok challenge =>
        exact .inl ⟨.challenge challenge, h, hrun.trans (by rw [hresult]; rfl), hsame, id⟩
    | loginValues answer28 answer35 =>
      have hrun := run_loginValues primitives h answer28 answer35
      cases hresult : h.loginValues answer28 answer35 with
      | error e => exact .inr (.inl ⟨e, hrun.trans (by rw [hresult]; rfl), fun _ => id⟩)
      | ok values => exact .inl ⟨.values values, h, hrun.trans (by rw [hresult]; rfl), hsame, id⟩
    | takeSendCipher =>
      obtain ⟨hkeyed, hcipher⟩ := hstate
      rcases takeSendCipher_cases hphase with ⟨cipher, hsome, htaken⟩ | ⟨-, e, he⟩
      · have hgiven : given = 0 := by
          rcases hcipher with ⟨-, hzero⟩ | ⟨hnone, -⟩
          · exact hzero
          · rw [hsome] at hnone
            cases hnone
        refine .inl ⟨.cipher cipher, _, Act.bind_of_ok htaken, ?_, id⟩
        rw [hgiven]
        unfold Consistent
        rw [← hphase]
        exact ⟨⟨hkeyed.challenge, hkeyed.keys⟩, .inr ⟨rfl, rfl⟩⟩
      · exact .inr (.inl ⟨e, Act.bind_of_error he, fun _ => id⟩)
    | sync unixSeconds values environmentText sequence =>
      obtain ⟨hkeyed, -, rfl⟩ := hstate
      rcases sync_cases hphase unixSeconds values environmentText
        sequence with ⟨frame, cipher, hframe⟩ | ⟨e, he⟩
      · refine .inl ⟨.frame frame, _, Act.bind_of_ok hframe, ?_, id⟩
        exact ⟨⟨hkeyed.challenge, hkeyed.keys⟩, .inl ⟨rfl, rfl⟩⟩
      · exact .inr (.inl ⟨e, Act.bind_of_error he, fun _ => id⟩)
  · obtain ⟨e, he⟩ := run_of_ne hphase
    exact .inr (.inl ⟨e, he, fun heq => absurd heq hphase⟩)

/-- Every call keeps what the phases promise. -/
theorem consistent_run {given : Nat} (hstate : Consistent primitives given h) (call : Call) :
    Consistent primitives (given + handedOver (call.run primitives h).1)
      (call.run primitives h).2 := by
  rcases run_cases hstate call with ⟨answer, t, hrun, hkept, -⟩ | ⟨e, hrun, -⟩ | ⟨e, hrun, hgiven⟩
  · rw [hrun]
    exact hkept
  · rw [hrun]
    exact hstate
  · rw [hrun, hgiven]
    exact consistent_failed h

/-- A rejected reply fails the handshake. -/
theorem run_of_rejected {given : Nat} (hstate : Consistent primitives given h) {call : Call}
    (hphase : call.phase = h.phase) (hrejected : call.Rejected) :
    ∃ e, call.run primitives h = (.error e, failed h) := by
  rcases run_cases hstate call with ⟨answer, t, -, -, hnot⟩ | ⟨e, -, hnot⟩ | ⟨e, hrun, -⟩
  · exact absurd hrejected hnot
  · exact absurd hrejected (hnot hphase)
  · exact ⟨e, hrun⟩

/-- A call that fails leaves the handshake as it is or fails it for good. -/
theorem run_of_error {given : Nat} (hstate : Consistent primitives given h) {call : Call}
    {e : ProtocolError} {t : Handshake} (herror : call.run primitives h = (.error e, t)) :
    t = h ∨ t = failed h := by
  rcases run_cases hstate call with ⟨answer, u, hrun, -⟩ | ⟨e', hrun, -⟩ | ⟨e', hrun, -⟩
  · rw [hrun] at herror
    cases herror
  · rw [hrun] at herror
    exact .inl (congrArg Prod.snd herror).symm
  · rw [hrun] at herror
    exact .inr (congrArg Prod.snd herror).symm

end OneCall

/-! ## Runs -/

section Runs

variable {primitives : Primitives}

theorem consistent_after {given : Nat} {h : Handshake} (hstate : Consistent primitives given h)
    (calls : List Call) :
    Consistent primitives (given + transfers primitives h calls) (after primitives h calls) := by
  induction calls generalizing given h with
  | nil => exact hstate
  | cons call calls ih =>
    have hrest := ih (consistent_run hstate call)
    rw [Nat.add_assoc] at hrest
    exact hrest

/-- A failed handshake stays as it is. -/
theorem after_of_failed {h : Handshake} (hfailed : h.phase = .failed) (calls : List Call) :
    after primitives h calls = h := by
  induction calls with
  | nil => rfl
  | cons call calls ih =>
    have hphase : call.phase ≠ h.phase := by
      rw [hfailed]
      cases call <;> nofun
    obtain ⟨e, he⟩ := run_of_ne hphase
    rw [after, List.foldl_cons, he]
    exact ih

end Runs

/-- What a handshake holds in each phase, behind any calls, and which calls leave
it as it is or fail it for good. -/
theorem handshake_phases (primitives : Primitives) (login : Nat) (password : String)
    (clientBuild : Nat) (deviceId : Bytes) (calls : List Call) :
    let start := withDeviceId login password clientBuild deviceId
    let h := after primitives start calls
    Consistent primitives (transfers primitives start calls) h ∧
      (∀ call : Call, call.phase ≠ h.phase → ∃ e, call.run primitives h = (.error e, h)) ∧
      (∀ signature certificateDer sequence, signature = [] ∨ certificateDer = [] →
        ∃ e, (Call.certificateContinuation signature certificateDer sequence).run primitives h =
          (.error e, h)) ∧
      (∀ call : Call, call.phase = h.phase → call.Rejected →
        ∃ e, call.run primitives h = (.error e, failed h)) ∧
      (∀ (call : Call) e t, call.run primitives h = (.error e, t) → t = h ∨ t = failed h) ∧
      (h.phase = .failed → ∀ more, after primitives h more = h) := by
  intro start h
  have hstart : Consistent primitives 0 start := ⟨rfl, ⟨rfl, rfl, rfl, rfl, rfl⟩, rfl⟩
  have hstate : Consistent primitives (transfers primitives start calls) h := by
    have hafter := consistent_after hstart calls
    rw [Nat.zero_add] at hafter
    exact hafter
  refine ⟨hstate, fun call => run_of_ne, ?_, fun call => run_of_rejected hstate,
    fun call e t => run_of_error hstate, after_of_failed⟩
  intro signature certificateDer sequence hempty
  obtain ⟨e, he⟩ := certificateContinuation_of_empty hempty sequence
  exact ⟨e, Act.bind_of_error he⟩

end Handshake

end Mt5Open.Native

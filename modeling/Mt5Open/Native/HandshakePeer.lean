import Mathlib.Data.List.Forall2
import Mt5Open.Native.Phases
import Mt5Open.Native.Tlv

/-!
# The other end of a handshake

A handshake enciphers two kinds of frames: the certificate that a broker may
ask for, and the synchronization request.  One cipher does both, and then it is
handed over.  A peer with the session key deciphers the frames in the order in
which they were made, in every order of calls and with any replies.
-/

namespace Mt5Open.Native

open Lib

namespace Handshake

/-! ## What a run enciphers -/

/-- The frames, deciphered in order, with their commands, and the cipher behind them. -/
def opened : SessionCipher → List Frame → List (UInt8 × Bytes) × SessionCipher
  | cipher, [] => ([], cipher)
  | cipher, frame :: frames =>
    let plain := cipher.decrypt frame.payload
    let rest := opened plain.2 frames
    ((frame.command, plain.1) :: rest.1, rest.2)

theorem opened_append (cipher : SessionCipher) (front back : List Frame) :
    opened cipher (front ++ back) =
      ((opened cipher front).1 ++ (opened (opened cipher front).2 back).1,
        (opened (opened cipher front).2 back).2) := by
  induction front generalizing cipher with
  | nil => rfl
  | cons frame front ih =>
    simp only [List.cons_append, opened, ih]

/-- The call sends in the session cipher when it succeeds. -/
def Call.enciphers : Call → Bool
  | .certificateContinuation .. | .sync .. => true
  | _ => false

/-- What a run has enciphered and handed over: the calls that succeeded in it, their frames,
and the ciphers. -/
structure Trace where
  calls : List Call
  frames : List Frame
  ciphers : List SessionCipher

namespace Trace

def empty : Trace := ⟨[], [], []⟩

/-- The trace behind a call with this answer. -/
def add (trace : Trace) (call : Call) : Result Answer → Trace
  | .ok (.frame frame) =>
    if call.enciphers then
      { trace with calls := trace.calls ++ [call], frames := trace.frames ++ [frame] }
    else trace
  | .ok (.cipher cipher) => { trace with ciphers := trace.ciphers ++ [cipher] }
  | _ => trace

end Trace

/-- The trace of a run, from the trace before it. -/
def trace (primitives : Primitives) : Handshake → Trace → List Call → Trace
  | _, seen, [] => seen
  | h, seen, call :: calls =>
    trace primitives (call.run primitives h).2 (seen.add call (call.run primitives h).1) calls

/-- What a call means to send, from a handshake with these credentials and builds. -/
def Carries (primitives : Primitives) (h : Handshake) : Call → UInt8 × Bytes → Prop
  | .certificateContinuation signature certificateDer _, sent =>
    sent.1 = command.CERT_CONTINUATION ∧ signature ≠ [] ∧ certificateDer ≠ [] ∧
      sent.2 = List.replicate 16 0 ++ encodeTlvs [(4, signature.reverse), (3, certificateDer)]
  | .sync unixSeconds values environmentText _, sent =>
    sent.1 = command.ACCOUNT_STATE ∧
      sent.2 = syncBody primitives h unixSeconds values environmentText
  | _, _ => False

/-! ## The invariant -/

/-- What has been enciphered with the session key, up to this handshake. -/
structure Opens (primitives : Primitives) (h : Handshake) (seen : Trace) (key : Bytes)
    (cipher : SessionCipher) : Prop where
  key_eq : h.sessionKey = some key
  new_eq : SessionCipher.new key = .ok cipher
  carries : List.Forall₂ (Carries primitives h) seen.calls (opened cipher seen.frames).1

/-- The place of the cipher, and which frames there can be, by phase. -/
def Peered (primitives : Primitives) (h : Handshake) (seen : Trace) : Prop :=
  match h.phase with
  | .certificateRequired => ∃ key cipher, Opens primitives h seen key cipher ∧
      seen.frames = [] ∧ seen.ciphers = [] ∧ h.sessionCipher = some cipher
  | .sessionKeysReady => ∃ key cipher, Opens primitives h seen key cipher ∧
      seen.frames.map Frame.command <+: [command.CERT_CONTINUATION] ∧ seen.ciphers = [] ∧
      h.sessionCipher = some (opened cipher seen.frames).2
  | .syncSent => ∃ key cipher, Opens primitives h seen key cipher ∧
      (∃ front, front <+: [command.CERT_CONTINUATION] ∧
        seen.frames.map Frame.command = front ++ [command.ACCOUNT_STATE]) ∧
      (h.sessionCipher = some (opened cipher seen.frames).2 ∧ seen.ciphers = [] ∨
        h.sessionCipher = none ∧ seen.ciphers = [(opened cipher seen.frames).2])
  | _ => h.sessionKey = none ∧ seen = .empty

section OneCall

variable {primitives : Primitives} {h t : Handshake} {seen : Trace} {call : Call}

/-- Only a rejected reply fails a handshake, and then there are no keys yet. -/
theorem run_of_error_phase {given : Nat} (hstate : Consistent primitives given h)
    {e : ProtocolError} (hrun : call.run primitives h = (.error e, t)) :
    t = h ∨ t = failed h ∧ (h.phase = .helloSent ∨ h.phase = .authSent) := by
  by_cases hphase : call.phase = h.phase
  · rcases run_of_error hstate hrun with hsame | hfailed
    · exact Or.inl hsame
    · cases call with
      | hello nonceByte randomWord sequence =>
        rw [show Call.run primitives (.hello nonceByte randomWord sequence) h = _ from
          Act.bind_of_ok (expect_bind_of_eq hphase _)] at hrun
        cases hrun
      | onChallenge plaintext => exact Or.inr ⟨hfailed, Or.inl hphase.symm⟩
      | auth clientChallenge nonceWord otp sequence =>
        unfold Consistent at hstate
        rw [← hphase] at hstate
        obtain ⟨frame, hframe⟩ := auth_cases hphase hstate.1 clientChallenge nonceWord otp sequence
        rw [show Call.run primitives (.auth clientChallenge nonceWord otp sequence) h = _ from
          Act.bind_of_ok hframe] at hrun
        cases hrun
      | onAuthResult plaintext => exact Or.inr ⟨hfailed, Or.inr hphase.symm⟩
      | certificateContinuation signature certificateDer sequence =>
        rcases certificateContinuation_cases hphase signature certificateDer sequence with
          ⟨frame, cipher, hframe⟩ | ⟨e', he⟩
        · rw [show Call.run primitives (.certificateContinuation signature certificateDer
            sequence) h = _ from Act.bind_of_ok hframe] at hrun
          cases hrun
        · rw [show Call.run primitives (.certificateContinuation signature certificateDer
            sequence) h = _ from Act.bind_of_error he] at hrun
          cases hrun
          exact Or.inl rfl
      | certificateChallenge =>
        rw [run_certificateChallenge] at hrun
        exact Or.inl (congrArg Prod.snd hrun).symm
      | loginValues answer28 answer35 =>
        rw [run_loginValues] at hrun
        exact Or.inl (congrArg Prod.snd hrun).symm
      | takeSendCipher =>
        rcases takeSendCipher_cases hphase with ⟨cipher, hsome, htaken⟩ | ⟨-, e', he⟩
        · rw [show Call.run primitives .takeSendCipher h = _ from Act.bind_of_ok htaken] at hrun
          cases hrun
        · rw [show Call.run primitives .takeSendCipher h = _ from Act.bind_of_error he] at hrun
          cases hrun
          exact Or.inl rfl
      | sync unixSeconds values environmentText sequence =>
        rcases sync_cases hphase unixSeconds values environmentText sequence with
          ⟨frame, cipher, hframe⟩ | ⟨e', he⟩
        · rw [show Call.run primitives (.sync unixSeconds values environmentText sequence) h = _
            from Act.bind_of_ok hframe] at hrun
          cases hrun
        · rw [show Call.run primitives (.sync unixSeconds values environmentText sequence) h = _
            from Act.bind_of_error he] at hrun
          cases hrun
          exact Or.inl rfl
  · obtain ⟨e', he⟩ := run_of_ne hphase
    rw [he] at hrun
    cases hrun
    exact Or.inl rfl

theorem certificateContinuation_eq_ok {signature certificateDer : Bytes} {sequence : UInt16}
    {frame : Frame}
    (hrun : certificateContinuation signature certificateDer sequence h = (.ok frame, t)) :
    ∃ body cipher, signature ≠ [] ∧ certificateDer ≠ [] ∧
      body = List.replicate 16 0 ++ encodeTlvs [(4, signature.reverse), (3, certificateDer)] ∧
      h.phase = .certificateRequired ∧ h.sessionCipher = some cipher ∧
      frame = ⟨command.CERT_CONTINUATION, sequence, FINAL, (cipher.encrypt body).1⟩ ∧
      t = { h with sessionCipher := some (cipher.encrypt body).2, phase := .sessionKeysReady } := by
  obtain ⟨hphase, hrest⟩ := expect_bind_eq_ok.mp hrun
  obtain ⟨body, hbody, hrest⟩ := Act.ofExcept_bind_eq_ok.mp hrest
  obtain ⟨cipher, hcipher, hrest⟩ := Act.ofExcept_bind_eq_ok.mp hrest
  cases hrest
  unfold certificateContinuationPayload at hbody
  split at hbody
  · cases hbody
  · rename_i hnonempty
    cases hbody
    refine ⟨_, cipher, ?_, ?_, rfl, hphase, orError_eq_ok.mp hcipher, rfl, rfl⟩
    · intro hnil
      exact hnonempty (Or.inl hnil)
    · intro hnil
      exact hnonempty (Or.inr hnil)

theorem sync_phase {unixSeconds : Int} {values : LoginValues} {environmentText : Option String}
    {sequence : UInt16} {frame : Frame}
    (hrun : sync primitives unixSeconds values environmentText sequence h = (.ok frame, t)) :
    h.phase = .sessionKeysReady :=
  (expect_bind_eq_ok.mp hrun).1

/-- One more frame of the cipher. -/
theorem Opens.add {key : Bytes} {cipher : SessionCipher} (h' : Opens primitives h seen key cipher)
    (hkey : t.sessionKey = h.sessionKey) (hlogin : t.login = h.login)
    (hclient : t.clientBuild = h.clientBuild) (hserver : t.serverBuild = h.serverBuild)
    {plain : Bytes} {frame : Frame}
    (hpayload : frame.payload = ((opened cipher seen.frames).2.encrypt plain).1)
    (hcarries : Carries primitives h call (frame.command, plain)) :
    Opens primitives t
        { seen with calls := seen.calls ++ [call], frames := seen.frames ++ [frame] } key cipher ∧
      (opened cipher (seen.frames ++ [frame])).2 =
        ((opened cipher seen.frames).2.encrypt plain).2 := by
  have hsame : Carries primitives t = Carries primitives h := by
    funext call sent
    cases call with
    | sync unixSeconds values environmentText sequence =>
      simp only [Carries, syncBody, hlogin, hclient, hserver]
    | _ => rfl
  have hlast : opened (opened cipher seen.frames).2 [frame] =
      ([(frame.command, plain)], ((opened cipher seen.frames).2.encrypt plain).2) := by
    simp only [opened, hpayload, SessionCipher.decrypt_encrypt]
  have hopened := opened_append cipher seen.frames [frame]
  rw [hlast] at hopened
  refine ⟨⟨hkey.trans h'.key_eq, h'.new_eq, ?_⟩, congrArg Prod.snd hopened⟩
  show List.Forall₂ _ (seen.calls ++ [call]) (opened cipher (seen.frames ++ [frame])).1
  rw [hsame, hopened]
  exact List.rel_append h'.carries (.cons hcarries .nil)

/-- One call keeps the peer in step. -/
theorem peered_run {given : Nat} (hstate : Consistent primitives given h)
    (hpeered : Peered primitives h seen) (call : Call) :
    Peered primitives (call.run primitives h).2 (seen.add call (call.run primitives h).1) := by
  rcases hrun : call.run primitives h with ⟨e | answer, t⟩
  · rcases run_of_error_phase hstate hrun with rfl | ⟨rfl, hphase⟩
    · exact hpeered
    · have hempty : h.sessionKey = none ∧ seen = .empty := by
        unfold Peered at hpeered
        rcases hphase with hphase | hphase
        · rw [hphase] at hpeered
          exact hpeered
        · rw [hphase] at hpeered
          exact hpeered
      exact ⟨rfl, hempty.2⟩
  · cases call with
    | hello nonceByte randomWord sequence =>
      obtain ⟨frame, t', hhello, hanswer⟩ := Act.bind_eq_ok.mp hrun
      cases hanswer
      obtain ⟨hphase, rfl, -⟩ := hello_eq_ok hhello
      unfold Peered at hpeered
      rw [hphase] at hpeered
      exact hpeered
    | onChallenge plaintext =>
      obtain ⟨_, t', hchallenge, hanswer⟩ := Act.bind_eq_ok.mp hrun
      cases hanswer
      have hphase : h.phase = .helloSent := (expect_bind_eq_ok.mp hchallenge).1
      obtain ⟨reply, -, -, rfl⟩ := onChallenge_eq_ok hchallenge
      unfold Peered at hpeered
      rw [hphase] at hpeered
      exact hpeered
    | auth clientChallenge nonceWord otp sequence =>
      obtain ⟨frame, t', hauth, hanswer⟩ := Act.bind_eq_ok.mp hrun
      cases hanswer
      have hphase : h.phase = .challengeReceived := (expect_bind_eq_ok.mp hauth).1
      obtain ⟨rfl, -⟩ := auth_eq_ok hauth
      unfold Peered at hpeered
      rw [hphase] at hpeered
      exact hpeered
    | onAuthResult plaintext =>
      obtain ⟨_, t', hresult, hanswer⟩ := Act.bind_eq_ok.mp hrun
      cases hanswer
      have hphase : h.phase = .authSent := (expect_bind_eq_ok.mp hresult).1
      obtain ⟨result, sessionKey, tradeKey, cipher, -, -, -, hcipher, rfl⟩ :=
        onAuthResult_eq_ok hresult
      unfold Peered at hpeered
      rw [hphase] at hpeered
      obtain ⟨-, rfl⟩ := hpeered
      by_cases hcertificate : result.status = 1003
      · simp only [if_pos hcertificate]
        exact ⟨sessionKey, cipher, ⟨rfl, hcipher, .nil⟩, rfl, rfl, rfl⟩
      · simp only [if_neg hcertificate]
        exact ⟨sessionKey, cipher, ⟨rfl, hcipher, .nil⟩, List.nil_prefix, rfl, rfl⟩
    | certificateContinuation signature certificateDer sequence =>
      obtain ⟨frame, t', hcertificate, hanswer⟩ := Act.bind_eq_ok.mp hrun
      cases hanswer
      obtain ⟨body, held, hsignature, hder, hbody, hphase, hheld, hframe, rfl⟩ :=
        certificateContinuation_eq_ok hcertificate
      unfold Peered at hpeered
      rw [hphase] at hpeered
      obtain ⟨key, cipher, hopens, hframes, hciphers, hcipher⟩ := hpeered
      rw [hheld] at hcipher
      cases hcipher
      have hpayload : frame.payload = ((opened held seen.frames).2.encrypt body).1 := by
        rw [hframes, hframe]
        rfl
      have hcarries : Carries primitives h
          (.certificateContinuation signature certificateDer sequence) (frame.command, body) := by
        rw [hframe]
        exact ⟨rfl, hsignature, hder, hbody⟩
      obtain ⟨hnext, hbehind⟩ := hopens.add (t :=
        { h with sessionCipher := some (held.encrypt body).2, phase := .sessionKeysReady })
        rfl rfl rfl rfl hpayload hcarries
      refine ⟨key, held, hnext, ?_, hciphers, ?_⟩
      · show (seen.frames ++ [frame]).map Frame.command <+: _
        rw [hframes, hframe]
        exact List.prefix_refl _
      · show some _ = some (opened held (seen.frames ++ [frame])).2
        rw [hbehind, hframes]
        rfl
    | certificateChallenge =>
      rw [run_certificateChallenge] at hrun
      cases hchallenge : h.certificateChallenge with
      | error e =>
        rw [hchallenge] at hrun
        cases hrun
      | ok challenge =>
        rw [hchallenge] at hrun
        cases hrun
        exact hpeered
    | loginValues answer28 answer35 =>
      rw [run_loginValues] at hrun
      cases hvalues : h.loginValues answer28 answer35 with
      | error e =>
        rw [hvalues] at hrun
        cases hrun
      | ok values =>
        rw [hvalues] at hrun
        cases hrun
        exact hpeered
    | takeSendCipher =>
      obtain ⟨tx, t', htake, hanswer⟩ := Act.bind_eq_ok.mp hrun
      cases hanswer
      have hphase : h.phase = .syncSent := (expect_bind_eq_ok.mp htake).1
      obtain ⟨hheld, rfl⟩ := takeSendCipher_eq_ok htake
      unfold Peered at hpeered
      rw [hphase] at hpeered
      obtain ⟨key, cipher, hopens, hframes, hcipher⟩ := hpeered
      have hplace : Peered primitives { h with sessionCipher := none }
          { seen with ciphers := seen.ciphers ++ [tx] } := by
        unfold Peered
        show match h.phase with | _ => _
        rw [hphase]
        refine ⟨key, cipher, ⟨hopens.key_eq, hopens.new_eq, hopens.carries⟩, hframes, ?_⟩
        rcases hcipher with ⟨hsome, hnil⟩ | ⟨hnone, -⟩
        · rw [hheld] at hsome
          cases hsome
          rw [hnil]
          exact Or.inr ⟨rfl, rfl⟩
        · rw [hheld] at hnone
          cases hnone
      exact hplace
    | sync unixSeconds values environmentText sequence =>
      obtain ⟨frame, t', hsync, hanswer⟩ := Act.bind_eq_ok.mp hrun
      cases hanswer
      have hphase := sync_phase hsync
      obtain ⟨held, hheld, hframe, rfl⟩ := sync_eq_ok hsync
      unfold Peered at hpeered
      rw [hphase] at hpeered
      obtain ⟨key, cipher, hopens, hframes, hciphers, hcipher⟩ := hpeered
      rw [hheld] at hcipher
      cases hcipher
      have hcarries : Carries primitives h (.sync unixSeconds values environmentText sequence)
          (frame.command, syncBody primitives h unixSeconds values environmentText) := by
        rw [hframe]
        exact ⟨rfl, rfl⟩
      obtain ⟨hnext, hbehind⟩ := hopens.add (t :=
        { h with
          sessionCipher := some ((opened cipher seen.frames).2.encrypt
            (syncBody primitives h unixSeconds values environmentText)).2
          phase := .syncSent }) rfl rfl rfl rfl (by rw [hframe]) hcarries
      refine ⟨key, cipher, hnext, ⟨_, hframes, ?_⟩, Or.inl ⟨?_, hciphers⟩⟩
      · show (seen.frames ++ [frame]).map Frame.command = _
        rw [List.map_append, hframe]
        rfl
      · show some _ = some (opened cipher (seen.frames ++ [frame])).2
        rw [hbehind]

end OneCall

theorem peered_trace {primitives : Primitives} {given : Nat} {h : Handshake} {seen : Trace}
    (hstate : Consistent primitives given h) (hpeered : Peered primitives h seen)
    (calls : List Call) :
    Peered primitives (after primitives h calls) (trace primitives h seen calls) := by
  induction calls generalizing given h seen with
  | nil => exact hpeered
  | cons call calls ih => exact ih (consistent_run hstate call) (peered_run hstate hpeered call)

/-- In every order of calls and with any replies: as long as there is no session key, nothing
has been enciphered or handed over.  With a session key, a peer that holds it deciphers every
frame into what its call meant to send, at most one certificate and then at most one
synchronization request.  At most one cipher has been handed over, and it is the one that the
peer is at. -/
theorem handshake_peer (primitives : Primitives) (login : Nat) (password : String)
    (clientBuild : Nat) (deviceId : Bytes) (calls : List Call) :
    let start := withDeviceId login password clientBuild deviceId
    let h := after primitives start calls
    let seen := trace primitives start .empty calls
    (h.sessionKey = none → seen = .empty) ∧
      ∀ key, h.sessionKey = some key →
        ∃ cipher, SessionCipher.new key = .ok cipher ∧
          List.Forall₂ (Carries primitives h) seen.calls (opened cipher seen.frames).1 ∧
          (seen.frames.map Frame.command <+: [command.CERT_CONTINUATION, command.ACCOUNT_STATE] ∨
            seen.frames.map Frame.command = [command.ACCOUNT_STATE]) ∧
          h.sessionCipher.toList ++ seen.ciphers = [(opened cipher seen.frames).2] := by
  intro start h seen
  have hstart : Consistent primitives 0 start := ⟨rfl, ⟨rfl, rfl, rfl, rfl, rfl⟩, rfl⟩
  have hpeered : Peered primitives h seen := peered_trace hstart ⟨rfl, rfl⟩ calls
  clear_value h seen
  cases hphase : h.phase with
  | certificateRequired =>
    rw [Peered, hphase] at hpeered
    obtain ⟨key, cipher, hopens, hframes, hciphers, hcipher⟩ := hpeered
    refine ⟨fun hnone => ?_, fun key' hkey => ?_⟩
    · rw [hopens.key_eq] at hnone
      cases hnone
    · rw [hopens.key_eq] at hkey
      cases hkey
      refine ⟨cipher, hopens.new_eq, hopens.carries, ?_, ?_⟩
      · rw [hframes]
        exact Or.inl List.nil_prefix
      · rw [hcipher, hciphers, hframes]
        rfl
  | sessionKeysReady =>
    rw [Peered, hphase] at hpeered
    obtain ⟨key, cipher, hopens, hframes, hciphers, hcipher⟩ := hpeered
    refine ⟨fun hnone => ?_, fun key' hkey => ?_⟩
    · rw [hopens.key_eq] at hnone
      cases hnone
    · rw [hopens.key_eq] at hkey
      cases hkey
      refine ⟨cipher, hopens.new_eq, hopens.carries, ?_, ?_⟩
      · exact Or.inl (hframes.trans (List.prefix_append _ [command.ACCOUNT_STATE]))
      · rw [hcipher, hciphers]
        rfl
  | syncSent =>
    rw [Peered, hphase] at hpeered
    obtain ⟨key, cipher, hopens, ⟨front, hfront, hframes⟩, hcipher⟩ := hpeered
    refine ⟨fun hnone => ?_, fun key' hkey => ?_⟩
    · rw [hopens.key_eq] at hnone
      cases hnone
    · rw [hopens.key_eq] at hkey
      cases hkey
      refine ⟨cipher, hopens.new_eq, hopens.carries, ?_, ?_⟩
      · rw [hframes]
        rcases List.prefix_cons_iff.mp hfront with rfl | ⟨rest, rfl, hrest⟩
        · exact Or.inr rfl
        · rw [List.prefix_nil.mp hrest]
          exact Or.inl (List.prefix_refl _)
      · rcases hcipher with ⟨hsome, hciphers⟩ | ⟨hnone, hciphers⟩
        · rw [hsome, hciphers]
          rfl
        · rw [hnone, hciphers]
          rfl
  | init | helloSent | challengeReceived | authSent | failed =>
    rw [Peered, hphase] at hpeered
    refine ⟨fun _ => hpeered.2, fun key hkey => ?_⟩
    rw [hpeered.1] at hkey
    cases hkey

end Handshake

end Mt5Open.Native

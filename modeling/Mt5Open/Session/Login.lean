import Mt5Open.Session.Calls

/-!
# What authentication and synchronization do

Both run in a failed session and put a good state in its place with their last
step, so an error on the way leaves the session failed.  The inversion lemmas
say what the server has answered when they succeed.
-/

namespace Mt5Open.Native

open Lib

namespace Session

variable {primitives : Primitives}

/-! ## Errors on the way leave the session failed -/

def Closed (s : Session) : Prop := s.state = .failed

section Closed

theorem closed_onConnection {α : Type} (x : Connection.Method α) :
    Act.Preserves Closed (onConnection x) :=
  Act.Preserves.zoom fun _ h => h

theorem closed_exchangeHello (entropy : Entropy) (handshake : Handshake) :
    Act.Preserves Closed (exchangeHello entropy handshake) :=
  (closed_onConnection _).bind fun _ => (Act.Preserves.ofExcept _).bind fun _ =>
    (Act.Preserves.ofExcept _).bind fun _ => (Act.Preserves.ofExcept _).bind fun _ =>
    (closed_onConnection _).bind fun _ => (closed_onConnection _).bind fun _ =>
    (Act.Preserves.ofExcept _).bind fun _ => Act.Preserves.pure _

theorem closed_exchangeAuth (entropy : Entropy) (handshake : Handshake) :
    Act.Preserves Closed (exchangeAuth primitives entropy handshake) :=
  (closed_onConnection _).bind fun _ => (Act.Preserves.ofExcept _).bind fun _ =>
    (Act.Preserves.ofExcept _).bind fun _ => (Act.Preserves.ofExcept _).bind fun _ =>
    (closed_onConnection _).bind fun _ => (closed_onConnection _).bind fun _ =>
    (Act.Preserves.ofExcept _).bind fun _ => Act.Preserves.pure _

theorem closed_exchangeSync (profile : LoginProfile) (unixSeconds : Option Nat)
    (handshake : Handshake) (values : LoginValues) :
    Act.Preserves Closed (exchangeSync primitives profile unixSeconds handshake values) :=
  (Act.Preserves.ofExcept _).bind fun _ => (closed_onConnection _).bind fun _ =>
    (Act.Preserves.ofExcept _).bind fun _ => (closed_onConnection _).bind fun _ =>
    (Act.Preserves.ofExcept _).bind fun _ => (Act.Preserves.ofExcept _).bind fun _ =>
    (closed_onConnection _).bind fun _ => Act.Preserves.pure _

/-- Only the last step of a login leaves a state that is not failed. -/
theorem runAuthenticate_closes (primitives : Primitives) (entropy : Entropy) (login : Nat)
    (password : String) (clientBuild : Nat) :
    Act.Ensures Closed (runAuthenticate primitives entropy login password clientBuild)
      (fun _ _ => True) fun _ => Closed := by
  apply Act.Ensures.bind (closed_exchangeHello entropy _)
  intro handshake
  apply Act.Ensures.bind (closed_exchangeAuth entropy handshake)
  intro handshake
  refine Act.Ensures.bind (Q := fun _ => Closed) (Act.Ensures.modify fun _ h => h) ?_
  intro _
  by_cases hphase : handshake.phase ≠ .sessionKeysReady
  · rw [if_pos hphase]
    exact Act.Ensures.fail fun _ h => h
  · rw [if_neg hphase]
    exact Act.Ensures.bind (Act.Preserves.ofExcept _) fun build =>
      Act.Ensures.bind (Q := fun _ _ => True) (Act.Ensures.modify fun _ _ => trivial) fun _ =>
        Act.Ensures.pure fun _ _ => trivial

theorem runSynchronize_closes (primitives : Primitives) (profile : LoginProfile)
    (unixSeconds : Option Nat) (handshake : Handshake) (login : Nat) (values : LoginValues)
    (recordBuild : Int) :
    Act.Ensures Closed
      (runSynchronize primitives profile unixSeconds handshake login values recordBuild)
      (fun _ _ => True) fun _ => Closed := by
  apply Act.Ensures.bind (closed_exchangeSync profile unixSeconds handshake values)
  intro exchanged
  apply Act.Ensures.bind (Act.Preserves.ofExcept _)
  intro state
  by_cases hlogin : state.account.login ≠ login
  · rw [if_pos hlogin]
    exact Act.Ensures.fail fun _ h => h
  · rw [if_neg hlogin]
    exact Act.Ensures.bind (Act.Preserves.ofExcept _) fun taken =>
      Act.Ensures.bind (Act.Preserves.ofExcept _) fun readOnly =>
      Act.Ensures.bind (Q := fun _ _ => True) (Act.Ensures.modify fun _ _ => trivial) fun _ =>
        Act.Ensures.pure fun _ _ => trivial

end Closed

/-! ## What the server has answered -/

/-- The replies that a login from `c` to `d` has read, and what they say: both
statuses are zero, and the handshake keeps the authentication result. -/
def Accepted (c d : Connection) (handshake : Handshake) (result : AuthResult) : Prop :=
  ∃ hello auth helloReply authReply challenge middle,
    Connection.startupReply command.HELLO c.sequence (c.transmitted hello) =
        (.ok helloReply, middle) ∧
      parseChallenge helloReply = .ok challenge ∧ challenge.status = 0 ∧
      Connection.startupReply command.AUTH middle.sequence (middle.transmitted auth) =
        (.ok authReply, d) ∧
      parseAuthResult authReply = .ok result ∧ result.status = 0 ∧
      handshake.authResult = some result

theorem onConnection_bind_eq_ok {α β : Type} {x : Connection.Method α} {f : α → Method β}
    {s t : Session} {b : β} :
    (onConnection x >>= f) s = (.ok b, t) ↔
      ∃ a c, x s.connection = (.ok a, c) ∧ f a { s with connection := c } = (.ok b, t) :=
  Act.zoom_bind_eq_ok

/-- A frame behind a new sequence number. -/
theorem send_transmitted {β : Type} {frame : Frame} {f : Unit → Method β} {s t : Session} {b : β}
    (h : (onConnection (Connection.send frame) >>= f)
      { s with connection := s.connection.nextSequence.2 } = (.ok b, t)) :
    f () { s with connection := s.connection.transmitted frame } = (.ok b, t) := by
  obtain ⟨_, c, hsend, hf⟩ := onConnection_bind_eq_ok.mp h
  obtain ⟨-, rfl⟩ := Connection.send_nextSequence_eq_ok hsend
  exact hf

theorem exchangeHello_eq_ok {entropy : Entropy} {h h' : Handshake} {s t : Session}
    (hrun : exchangeHello entropy h s = (.ok h', t)) :
    ∃ hello reply challenge d,
      Connection.startupReply command.HELLO s.connection.sequence
          (s.connection.transmitted hello) = (.ok reply, d) ∧
        parseChallenge reply = .ok challenge ∧ challenge.status = 0 ∧
        t = { s with connection := d } ∧ h'.login = h.login ∧ h'.clientBuild = h.clientBuild := by
  obtain ⟨sequence, c, hsequence, hrun⟩ := onConnection_bind_eq_ok.mp hrun
  cases hsequence
  obtain ⟨nonceByte, -, hrun⟩ := Act.ofExcept_bind_eq_ok.mp hrun
  obtain ⟨randomWord, -, hrun⟩ := Act.ofExcept_bind_eq_ok.mp hrun
  obtain ⟨⟨hello, h₁⟩, hhello, hrun⟩ := Act.ofExcept_bind_eq_ok.mp hrun
  obtain ⟨reply, d, hreply, hrun⟩ := onConnection_bind_eq_ok.mp (send_transmitted hrun)
  obtain ⟨⟨_, h₂⟩, hchallenge, hrun⟩ := Act.ofExcept_bind_eq_ok.mp hrun
  cases hrun
  obtain ⟨-, rfl, -⟩ := Handshake.hello_eq_ok (Act.within_eq_ok.mp hhello)
  obtain ⟨challenge, hparse, hstatus, rfl⟩ :=
    Handshake.onChallenge_eq_ok (Act.within_eq_ok.mp hchallenge)
  exact ⟨hello, reply, challenge, d, hreply, hparse, hstatus, rfl, rfl, rfl⟩

theorem exchangeAuth_eq_ok {entropy : Entropy} {h h' : Handshake} {s t : Session}
    (hrun : exchangeAuth primitives entropy h s = (.ok h', t)) :
    ∃ auth reply result d,
      Connection.startupReply command.AUTH s.connection.sequence
          (s.connection.transmitted auth) = (.ok reply, d) ∧
        parseAuthResult reply = .ok result ∧ h'.authResult = some result ∧
        (h'.phase = .sessionKeysReady → result.status = 0) ∧
        t = { s with connection := d } ∧ h'.login = h.login ∧ h'.clientBuild = h.clientBuild ∧
        ∃ key cipher, h'.sessionKey = some key ∧ h'.sessionCipher = some cipher ∧
          SessionCipher.new key = .ok cipher := by
  obtain ⟨sequence, c, hsequence, hrun⟩ := onConnection_bind_eq_ok.mp hrun
  cases hsequence
  obtain ⟨clientChallenge, -, hrun⟩ := Act.ofExcept_bind_eq_ok.mp hrun
  obtain ⟨nonceWord, -, hrun⟩ := Act.ofExcept_bind_eq_ok.mp hrun
  obtain ⟨⟨auth, h₁⟩, hauth, hrun⟩ := Act.ofExcept_bind_eq_ok.mp hrun
  obtain ⟨reply, d, hreply, hrun⟩ := onConnection_bind_eq_ok.mp (send_transmitted hrun)
  obtain ⟨⟨_, h₂⟩, hresult, hrun⟩ := Act.ofExcept_bind_eq_ok.mp hrun
  cases hrun
  obtain ⟨rfl, -⟩ := Handshake.auth_eq_ok (Act.within_eq_ok.mp hauth)
  obtain ⟨result, sessionKey, tradeKey, cipher, hparse, hstatus, -, hcipher, rfl⟩ :=
    Handshake.onAuthResult_eq_ok (Act.within_eq_ok.mp hresult)
  refine ⟨auth, reply, result, d, hreply, hparse, rfl, ?_, rfl, rfl, rfl, sessionKey, cipher, rfl,
    rfl, hcipher⟩
  intro hphase
  rcases hstatus with hzero | hcertificate
  · exact hzero
  · simp only [if_pos hcertificate] at hphase
    cases hphase

/-- What a session that has authenticated knows. -/
structure Authentic (handshake : Handshake) (login clientBuild : Nat) : Prop where
  login_eq : handshake.login = login
  build_eq : handshake.clientBuild = clientBuild
  phase : handshake.phase = .sessionKeysReady
  keys : ∃ key cipher, handshake.sessionKey = some key ∧ handshake.sessionCipher = some cipher ∧
    SessionCipher.new key = .ok cipher

theorem runAuthenticate_eq_ok {entropy : Entropy} {login clientBuild : Nat} {password : String}
    {s t : Session} {build : Int}
    (hrun : runAuthenticate primitives entropy login password clientBuild s = (.ok build, t)) :
    ∃ handshake result, t.state = .authenticated handshake login clientBuild ∧
      Authentic handshake login clientBuild ∧
      Accepted s.connection t.connection handshake result := by
  obtain ⟨h₁, s₁, hhello, hrun⟩ := Act.bind_eq_ok.mp hrun
  obtain ⟨h₂, s₂, hauth, hrun⟩ := Act.bind_eq_ok.mp hrun
  obtain ⟨hello, helloReply, challenge, d₁, hhelloReply, hchallenge, hzero, rfl, hlogin₁,
    hbuild₁⟩ :=
    exchangeHello_eq_ok hhello
  obtain ⟨auth, authReply, result, d₂, hauthReply, hresult, hkept, hstatus, rfl, hlogin₂, hbuild₂,
    hkeys⟩ := exchangeAuth_eq_ok hauth
  obtain ⟨_, s₃, hsummary, hrun⟩ := Act.bind_eq_ok.mp hrun
  cases hsummary
  by_cases hphase : h₂.phase ≠ .sessionKeysReady
  · rw [if_pos hphase] at hrun
    cases hrun
  · rw [if_neg hphase] at hrun
    have hready : h₂.phase = .sessionKeysReady := not_ne_iff.mp hphase
    obtain ⟨build', -, hrun⟩ := Act.ofExcept_bind_eq_ok.mp hrun
    cases hrun
    exact ⟨h₂, result, rfl, ⟨hlogin₂.trans hlogin₁, hbuild₂.trans hbuild₁, hready, hkeys⟩,
      hello, auth, helloReply, authReply, challenge, d₁, hhelloReply, hchallenge, hzero, hauthReply,
      hresult, hstatus hready, hkept⟩

/-- The outcomes of an authentication. -/
inductive AuthenticateOutcome (login clientBuild : Nat) (s : Session) :
    Result Int → Session → Prop
  | refused (e : ProtocolError) (hstate : s.state ≠ .connected) :
      AuthenticateOutcome login clientBuild s (.error e) s
  | failed (e : ProtocolError) (t : Session) (hstate : s.state = .connected)
      (hclosed : t.state = .failed) : AuthenticateOutcome login clientBuild s (.error e) t
  | authenticated (build : Int) (t : Session) (handshake : Handshake) (result : AuthResult)
      (hstate : s.state = .connected) (ht : t.state = .authenticated handshake login clientBuild)
      (hauthentic : Authentic handshake login clientBuild)
      (haccepted : Accepted s.connection t.connection handshake result) :
      AuthenticateOutcome login clientBuild s (.ok build) t

theorem authenticate_outcome (primitives : Primitives) (entropy : Entropy) (login : Nat)
    (password : String) (clientBuild : Nat) (s : Session) :
    AuthenticateOutcome login clientBuild s
      (authenticate primitives entropy login password clientBuild s).1
      (authenticate primitives entropy login password clientBuild s).2 := by
  unfold authenticate
  split
  · rename_i hstate
    have hcloses := runAuthenticate_closes primitives entropy login password clientBuild
    have hfailed : Closed { s with state := .failed } := rfl
    rcases hrun : runAuthenticate primitives entropy login password clientBuild
      { s with state := .failed } with ⟨e | build, t⟩
    · exact .failed e t hstate (hcloses.error hfailed hrun)
    · obtain ⟨handshake, result, ht, hauthentic, haccepted⟩ := runAuthenticate_eq_ok hrun
      exact .authenticated build t handshake result hstate ht hauthentic haccepted
  · rename_i hstate
    exact .refused _ hstate

/-! ## Synchronization -/

/-- The response of a synchronization is read, and nothing is sent. -/
theorem syncLoop_quiet (sequence : UInt16) (s : SessionCipher × Bytes × Connection) :
    Connection.Quiet s.2.2 ((syncLoop sequence).run s).2 := by
  apply Loop.run_rule (syncLoop sequence) (P := fun s r => Connection.Quiet s.2.2 r.2)
  · rintro ⟨rx, payload, c⟩ ⟨result, d⟩ hbody
    have hquiet := Connection.frameBefore_quiet c
    simp only [syncLoop, syncRound] at hbody
    split at hbody
    · rename_i e c' hframe
      rw [hframe] at hquiet
      cases Sum.inr.inj hbody
      exact hquiet
    · rename_i frame c' hframe
      rw [hframe] at hquiet
      split at hbody
      · cases hbody
      · split at hbody
        · cases Sum.inr.inj hbody
          exact hquiet
        · split at hbody
          · cases Sum.inr.inj hbody
            exact hquiet
          · split at hbody
            · cases Sum.inr.inj hbody
              exact hquiet
            · split at hbody
              · cases Sum.inr.inj hbody
                exact hquiet
              · cases hbody
  · intro s t r hbody hrest
    obtain ⟨frame, hframe⟩ := syncRound_next hbody
    have hquiet := Connection.frameBefore_quiet s.2.2
    rw [hframe] at hquiet
    exact hquiet.trans hrest

/-- What a profile has checked before a synchronization goes out. -/
structure Matched (profile : LoginProfile) (handshake : Handshake) (login clientBuild : Nat)
    (result : AuthResult) : Prop where
  login_eq : profile.account.login = login
  result_eq : handshake.authResult = some result
  server : (result.tlvs.filter (·.1 = 0)).map Prod.snd = [utf16Bytes profile.account.server]
  tag28 : (result.tlvs.filter (·.1 = 28)).length = 1
  tag35 : (result.tlvs.filter (·.1 = 35)).length = 1

theorem answer_eq_ok {result : AuthResult} {tag : UInt8} {version : Version} {answer : UInt64}
    (h : LoginProfile.answer result tag version = .ok answer) :
    (result.tlvs.filter (·.1 = tag)).length = 1 := by
  unfold LoginProfile.answer at h
  split at h
  · cases h
  · rename_i heq
    rw [heq]
    rfl
  · cases h

theorem accountMode_eq_ok {profile : LoginProfile} {login : Nat} {mode : String}
    (h : profile.accountMode login = .ok mode) : profile.account.login = login := by
  unfold LoginProfile.accountMode at h
  split at h
  · cases h
  · rename_i hlogin
    exact not_ne_iff.mp hlogin

theorem prepareSync_eq_ok {profile : LoginProfile} {handshake : Handshake}
    {login clientBuild : Nat} {prepared : LoginValues × Int}
    (h : prepareSync profile handshake login clientBuild = .ok prepared) :
    ∃ result, Matched profile handshake login clientBuild result := by
  obtain ⟨mode, hmode, h⟩ := except_bind_eq_ok.mp h
  obtain ⟨result, hresult, h⟩ := except_bind_eq_ok.mp h
  obtain ⟨answers, hanswers, -⟩ := except_bind_eq_ok.mp h
  unfold LoginProfile.answers at hanswers
  split at hanswers
  · cases hanswers
  · rename_i hserver
    split at hanswers
    · cases hanswers
    · obtain ⟨answer28, h28, hanswers⟩ := except_bind_eq_ok.mp hanswers
      obtain ⟨answer35, h35, -⟩ := except_bind_eq_ok.mp hanswers
      exact ⟨result, accountMode_eq_ok hmode, Handshake.orError_eq_ok.mp hresult,
        not_ne_iff.mp hserver, answer_eq_ok h28, answer_eq_ok h35⟩

/-- The synchronization request that the handshake makes over this connection. -/
def syncFrame (primitives : Primitives) (profile : LoginProfile) (seconds : Nat)
    (handshake : Handshake) (values : LoginValues) (cipher : SessionCipher) (sequence : UInt16) :
    Frame where
  command := command.ACCOUNT_STATE
  sequence := sequence
  flags := FINAL
  payload := (cipher.encrypt
    (Handshake.syncBody primitives handshake seconds values (some profile.environment))).1

/-- The cipher behind the synchronization request. -/
def syncCipher (primitives : Primitives) (profile : LoginProfile) (seconds : Nat)
    (handshake : Handshake) (values : LoginValues) (cipher : SessionCipher) : SessionCipher :=
  (cipher.encrypt
    (Handshake.syncBody primitives handshake seconds values (some profile.environment))).2

theorem exchangeSync_eq_ok {profile : LoginProfile} {unixSeconds : Option Nat}
    {h h' : Handshake} {values : LoginValues} {rx : SessionCipher} {payload : Bytes} {s t : Session}
    (hrun : exchangeSync primitives profile unixSeconds h values s = (.ok (h', rx, payload), t)) :
    ∃ seconds cipher c,
      h.sessionCipher = some cipher ∧
        h'.sessionCipher = some (syncCipher primitives profile seconds h values cipher) ∧
        h'.tradeKey = h.tradeKey ∧ t = { s with connection := c } ∧
        Connection.Quiet (s.connection.transmitted
          (syncFrame primitives profile seconds h values cipher s.connection.sequence)) c := by
  obtain ⟨seconds, -, hrun⟩ := Act.ofExcept_bind_eq_ok.mp hrun
  obtain ⟨sequence, c₀, hsequence, hrun⟩ := onConnection_bind_eq_ok.mp hrun
  cases hsequence
  obtain ⟨⟨frame, h₁⟩, hsync, hrun⟩ := Act.ofExcept_bind_eq_ok.mp hrun
  obtain ⟨key, -, hrun⟩ := Act.ofExcept_bind_eq_ok.mp (send_transmitted hrun)
  obtain ⟨rx₀, -, hrun⟩ := Act.ofExcept_bind_eq_ok.mp hrun
  obtain ⟨⟨rx₁, payload₁⟩, c, hloop, hrun⟩ := onConnection_bind_eq_ok.mp hrun
  have hresponse : (syncLoop s.connection.sequence).run
      (rx₀, [], s.connection.transmitted frame) = (.ok (rx₁, payload₁), c) := hloop
  have hquiet := syncLoop_quiet s.connection.sequence (rx₀, [], s.connection.transmitted frame)
  rw [hresponse] at hquiet
  obtain ⟨cipher, hcipher, rfl, rfl⟩ := Handshake.sync_eq_ok (Act.within_eq_ok.mp hsync)
  cases hrun
  exact ⟨seconds, cipher, c, hcipher, rfl, rfl, rfl, hquiet⟩

/-- What a synchronization that succeeds leaves. -/
structure Synchronized (primitives : Primitives) (profile : LoginProfile) (handshake : Handshake)
    (login : Nat) (values : LoginValues) (s : Session) (sync : Synchronization) (t : Session) :
    Prop where
  account_eq : sync.account = sync.state.account
  login_eq : sync.account.login = login
  exchanged : ∃ seconds cipher rx,
    handshake.sessionCipher = some cipher ∧
      t.state = .ready
        { rx
          tx := syncCipher primitives profile seconds handshake values cipher
          tradeKey := handshake.tradeKey
          account := sync.account
          readOnly := sync.account.isReadOnly || profile.account.readOnly
          messages := .default } ∧
      Connection.Quiet (s.connection.transmitted
        (syncFrame primitives profile seconds handshake values cipher s.connection.sequence))
        t.connection

theorem runSynchronize_eq_ok {profile : LoginProfile} {unixSeconds : Option Nat}
    {h : Handshake} {login : Nat} {values : LoginValues} {recordBuild : Int} {s t : Session}
    {sync : Synchronization}
    (hrun : runSynchronize primitives profile unixSeconds h login values recordBuild s =
      (.ok sync, t)) : Synchronized primitives profile h login values s sync t := by
  obtain ⟨⟨h₁, rx, payload⟩, s₁, hexchange, hrun⟩ := Act.bind_eq_ok.mp hrun
  obtain ⟨seconds, cipher, c, hcipher, hnext, hkey, rfl, hquiet⟩ := exchangeSync_eq_ok hexchange
  obtain ⟨state, -, hrun⟩ := Act.ofExcept_bind_eq_ok.mp hrun
  by_cases hlogin : state.account.login ≠ login
  · rw [if_pos hlogin] at hrun
    cases hrun
  · rw [if_neg hlogin] at hrun
    obtain ⟨⟨tx, h₂⟩, htake, hrun⟩ := Act.ofExcept_bind_eq_ok.mp hrun
    obtain ⟨readOnly, hreadOnly, hrun⟩ := Act.ofExcept_bind_eq_ok.mp hrun
    obtain ⟨mode, -, hreadOnly⟩ := except_bind_eq_ok.mp hreadOnly
    cases hreadOnly
    obtain ⟨htx, rfl⟩ := Handshake.takeSendCipher_eq_ok (Act.within_eq_ok.mp htake)
    rw [hnext] at htx
    cases htx
    cases hrun
    refine ⟨rfl, not_ne_iff.mp hlogin, seconds, cipher, rx, hcipher, ?_, hquiet⟩
    rw [← hkey]

/-- The outcomes of a synchronization. -/
inductive SynchronizeOutcome (primitives : Primitives) (profile : LoginProfile) (s : Session) :
    Result Synchronization → Session → Prop
  | refused (e : ProtocolError) : SynchronizeOutcome primitives profile s (.error e) s
  | failed (e : ProtocolError) (t : Session) (handshake : Handshake) (login clientBuild : Nat)
      (hstate : s.state = .authenticated handshake login clientBuild)
      (hclosed : t.state = .failed) : SynchronizeOutcome primitives profile s (.error e) t
  | synchronized (sync : Synchronization) (t : Session) (handshake : Handshake)
      (login clientBuild : Nat) (values : LoginValues) (result : AuthResult)
      (hstate : s.state = .authenticated handshake login clientBuild)
      (hmatched : Matched profile handshake login clientBuild result)
      (hsynchronized : Synchronized primitives profile handshake login values s sync t) :
      SynchronizeOutcome primitives profile s (.ok sync) t

theorem synchronize_outcome (primitives : Primitives) (profile : LoginProfile)
    (unixSeconds : Option Nat) (s : Session) :
    SynchronizeOutcome primitives profile s (synchronize primitives profile unixSeconds s).1
      (synchronize primitives profile unixSeconds s).2 := by
  unfold synchronize
  split
  · rename_i handshake login clientBuild hstate
    split
    · exact .refused _
    · rename_i values recordBuild hprepare
      have hcloses := runSynchronize_closes primitives profile unixSeconds handshake login
        values recordBuild
      have hfailed : Closed { s with state := .failed } := rfl
      obtain ⟨result, hmatched⟩ := prepareSync_eq_ok hprepare
      rcases hrun : runSynchronize primitives profile unixSeconds handshake login values recordBuild
        { s with state := .failed } with ⟨e | sync, t⟩
      · exact .failed e t handshake login clientBuild hstate (hcloses.error hfailed hrun)
      · obtain ⟨haccount, hlogin, hexchanged⟩ := runSynchronize_eq_ok hrun
        exact .synchronized sync t handshake login clientBuild values result hstate hmatched
          ⟨haccount, hlogin, hexchanged⟩
  · exact .refused _

/-! ## Runs -/

/-- A public call of a session. -/
inductive Call where
  | authenticate (entropy : Entropy) (login : Nat) (password : String) (clientBuild : Nat)
  | synchronize (profile : LoginProfile) (unixSeconds : Option Nat)
  | sendRequest (command : UInt8) (payload : Bytes)
  | sendTrade (record : Bytes)
  | subscribe (symbolIds : List Int)
  | pollMessage
  | nextMessage

/-- What a call returns when it succeeds. -/
inductive Answer where
  | build (build : Int)
  | synchronization (sync : Synchronization)
  | sequence (sequence : UInt16)
  | message (message : Option Message)

/-- The result of a call, and the session behind it. -/
def answered {α : Type} (answer : α → Answer) (x : Method α) (s : Session) :
    Result Answer × Session :=
  ((x s).1.map answer, (x s).2)

namespace Call

/-- The call itself. -/
def run (primitives : Primitives) : Call → Session → Result Answer × Session
  | authenticate entropy login password clientBuild =>
    answered .build (Session.authenticate primitives entropy login password clientBuild)
  | synchronize profile unixSeconds =>
    answered .synchronization (Session.synchronize primitives profile unixSeconds)
  | sendRequest command payload => answered .sequence (Session.sendRequest command payload)
  | sendTrade record => answered .sequence (Session.sendTrade primitives record)
  | subscribe symbolIds => answered .sequence (Session.subscribe symbolIds)
  | pollMessage => answered .message Session.pollMessage
  | nextMessage => answered (fun message => .message (some message)) Session.nextMessage

end Call

/-- The session behind a list of calls. -/
def after (primitives : Primitives) (calls : List Call) (s : Session) : Session :=
  calls.foldl (fun s call => (call.run primitives s).2) s

theorem after_cons (call : Call) (calls : List Call) (s : Session) :
    after primitives (call :: calls) s = after primitives calls (call.run primitives s).2 := rfl

theorem after_append (front back : List Call) (s : Session) :
    after primitives (front ++ back) s = after primitives back (after primitives front s) :=
  List.foldl_append

/-- `nextMessage` leaves the session as `pollMessage` does. -/
theorem nextMessage_snd (s : Session) : (nextMessage s).2 = (pollMessage s).2 := by
  rcases hpoll : pollMessage s with ⟨e | message, t⟩
  · rw [show nextMessage s = _ from Act.bind_of_error hpoll]
  · rw [show nextMessage s = _ from Act.bind_of_ok hpoll]
    cases message with
    | none => rfl
    | some m => rfl

/-- A message that `nextMessage` gives is one that `pollMessage` gives. -/
theorem nextMessage_eq_ok {s : Session} {m : Message} (h : (nextMessage s).1 = .ok m) :
    (pollMessage s).1 = .ok (some m) := by
  rcases hpoll : pollMessage s with ⟨e | message, t⟩
  · rw [show nextMessage s = _ from Act.bind_of_error hpoll] at h
    cases h
  · rw [show nextMessage s = _ from Act.bind_of_ok hpoll] at h
    cases message with
    | none => cases h
    | some m' =>
      cases h
      rfl

/-! ## A login

The library functions, the replies of a server and the calls of a login that
succeeds.  Both keys are those of the conformance vectors, and the signature is that of a
trade record of zeros under the second one.
-/

def samplePrimitives : Primitives where
  aes128CbcEncrypt _ _ _ :=
    [0x15, 0x64, 0x3c, 0xc7, 0x83, 0xab, 0x81, 0x3e, 0x27, 0xe8, 0xdd, 0x48, 0x6e, 0xa7, 0xdf, 0xc5]
  sha256 _ := #v[
    0xee, 0x47, 0xd3, 0xd1, 0xb0, 0x93, 0xeb, 0xb7, 0x8e, 0x80, 0x0f, 0xd4, 0xcf, 0x6b, 0x81,
    0x7f, 0x50, 0xd4, 0x98, 0xa2, 0xcb, 0x87, 0x4b, 0x3d, 0x7e, 0x74, 0x45, 0x1d, 0x18, 0x12,
    0x20, 0x50]
  -- of a trade record of zeros
  hmacSha256 _ _ := #v[
    0x30, 0x20, 0xa9, 0x89, 0xb4, 0xc3, 0xda, 0xa5, 0x8e, 0x43, 0x81, 0xb6, 0x21, 0x61, 0xd5,
    0xce, 0x2b, 0x16, 0x83, 0x0e, 0xa9, 0xce, 0x9f, 0x15, 0xd3, 0x60, 0x67, 0xe9, 0xee, 0x49,
    0x89, 0x4e]
  os := "linux"

def sampleEntropy : Entropy where
  nonceByte := some 90
  randomWord := some 305419896
  clientChallenge := some (Vector.replicate 16 0)
  nonceWord := some 4660

def sampleProfile (readOnly : Bool) : LoginProfile where
  clientBuild := 6182
  serverBuild := 5830
  environment := "synthetic"
  account := { login := 12345678, mode := "demo", server := "Demo", readOnly }

/-- An authentication result with the builds, the server, both keys and both programs. -/
def sampleResult : Bytes :=
  List.replicate 24 0 ++ [0xc6, 0x16, 0xc6, 0x16] ++ List.replicate 16 0 ++
    encodeTlvs
      [(0, utf16Bytes "Demo"), (7, [0]), (27, (List.range 32).map fun i => UInt8.ofNat (0x20 + i)),
        (28, List.replicate 24 0), (35, List.replicate 24 0)]

/-- The cipher of the server, before it has sent anything. -/
def sampleCipher : SessionCipher where
  key := samplePrimitives.aes128CbcEncrypt [] [] []
  previousPlain := 0
  position := 0
  key_ne := by decide

/-- A synchronization stream with an account record only. -/
def sampleStream : Bytes :=
  [0, 0, 0, 0, 37] ++ LittleEndian.encode 8 12345678 ++ List.replicate 2988 0

def sampleReads : List SocketRead :=
  [.data (Frame.pack ⟨0, 1, FINAL, startupEncryptDefault (List.replicate 32 0)⟩),
    .data (Frame.pack ⟨1, 2, FINAL, startupEncryptDefault sampleResult⟩),
    .data (Frame.pack ⟨12, 3, FINAL, (sampleCipher.encrypt sampleStream).1⟩)]

def sampleLogin (readOnly : Bool) : List Call :=
  [.authenticate sampleEntropy 12345678 "ExamplePassword" 6182,
    .synchronize (sampleProfile readOnly) (some 1700000000)]

end Session

end Mt5Open.Native

import Mt5Open.Session.Login

/-!
# Read-only sessions

A session is locked when it has failed or when its read-only flag is set.  A
locked session stays locked, whatever is called and whatever the server sends,
and sends read-only commands only.

The flag has three sources: the profile, the synchronized account and every
account update.  An update cannot take it back, because a poll only ever adds to
it.
-/

namespace Mt5Open.Native

open Lib

namespace Session

variable {primitives : Primitives}

/-- A session that cannot send anything that changes the account. -/
def Locked (s : Session) : Prop := s.state = .failed ∨ ∃ r, s.state = .ready r ∧ r.readOnly = true

theorem Locked.readOnly {s : Session} {r : Ready} (hlocked : Locked s)
    (hstate : s.state = .ready r) :
    r.readOnly = true := by
  rcases hlocked with hfailed | ⟨r', hready, hr⟩
  · rw [hstate] at hfailed
    cases hfailed
  · rw [hstate] at hready
    cases hready
    exact hr

/-- `t` has sent read-only commands at most since `s`. -/
def SendsReadOnly (s t : Session) : Prop :=
  ∃ frames, t.connection.sent = s.connection.sent ++ frames ∧
    ∀ frame ∈ frames, frame.command ∈ READ_ONLY_COMMANDS

namespace SendsReadOnly

theorem of_sent_eq {s t : Session} (h : t.connection.sent = s.connection.sent) :
    SendsReadOnly s t :=
  ⟨[], by rw [h, List.append_nil], fun _ hframe => absurd hframe List.not_mem_nil⟩

theorem refl (s : Session) : SendsReadOnly s s := of_sent_eq rfl

theorem trans {s t u : Session} (h : SendsReadOnly s t) (k : SendsReadOnly t u) :
    SendsReadOnly s u := by
  obtain ⟨front, hfront, hfrontCommands⟩ := h
  obtain ⟨back, hback, hbackCommands⟩ := k
  refine ⟨front ++ back, by rw [hback, hfront, List.append_assoc], ?_⟩
  intro frame hframe
  rcases List.mem_append.mp hframe with hleft | hright
  · exact hfrontCommands frame hleft
  · exact hbackCommands frame hright

theorem of_transmitted {s t : Session} {frame : Frame}
    (h : t.connection = s.connection.transmitted frame)
    (hcommand : frame.command ∈ READ_ONLY_COMMANDS) :
    SendsReadOnly s t := by
  refine ⟨[frame], by rw [h]; rfl, ?_⟩
  intro other hother
  rw [List.mem_singleton.mp hother]
  exact hcommand

end SendsReadOnly

/-! ## The calls -/

/-- A request of a locked session is a read-only command, or it is refused. -/
theorem sendEncoded_locked {s : Session} (hlocked : Locked s) (command : UInt8) (payload : Bytes)
    (flags : UInt16) :
    Locked (sendEncoded command payload flags s).2 ∧
      SendsReadOnly s (sendEncoded command payload flags s).2 := by
  have houtcome := sendEncoded_outcome command payload flags s
  rcases hrun : sendEncoded command payload flags s with ⟨result, t⟩
  rw [hrun] at houtcome
  cases houtcome with
  | refused e => exact ⟨hlocked, SendsReadOnly.refl _⟩
  | lost r e hstate hallowed =>
    exact ⟨Or.inl rfl, SendsReadOnly.of_transmitted rfl (hallowed (hlocked.readOnly hstate))⟩
  | accepted r hstate hlength hallowed =>
    have hflag : r.readOnly = true := hlocked.readOnly hstate
    exact ⟨Or.inr ⟨_, rfl, hflag⟩, SendsReadOnly.of_transmitted rfl (hallowed hflag)⟩

theorem sendTrade_locked {s : Session} (hlocked : Locked s) (record : Bytes) :
    Locked (sendTrade primitives record s).2 ∧
      SendsReadOnly s (sendTrade primitives record s).2 := by
  rcases sendTrade_outcome primitives record s with
    ⟨e, hrefused⟩ | ⟨r, key, payload, -, -, -, -, hsent⟩
  · rw [hrefused]
    exact ⟨hlocked, SendsReadOnly.refl _⟩
  · rw [hsent]
    exact sendEncoded_locked hlocked _ _ _

/-- A poll adds to the flag, and sends nothing. -/
theorem pollMessage_locked {s : Session} (hlocked : Locked s) :
    Locked (pollMessage s).2 ∧ SendsReadOnly s (pollMessage s).2 := by
  have houtcome := pollMessage_outcome s
  rcases hrun : pollMessage s with ⟨result, t⟩
  rw [hrun] at houtcome
  cases houtcome with
  | refused e hstate => exact ⟨hlocked, SendsReadOnly.refl _⟩
  | failed r e c hstate hquiet => exact ⟨Or.inl rfl, SendsReadOnly.of_sent_eq hquiet.sent⟩
  | idle r t c hstate hquiet hkept =>
    exact ⟨Or.inr ⟨t, rfl, hkept.readOnly.trans (hlocked.readOnly hstate)⟩,
      SendsReadOnly.of_sent_eq hquiet.sent⟩
  | message r t u m c hstate hquiet hkept haccept =>
    obtain ⟨-, -, -, hmono⟩ := acceptMessage_spec haccept
    exact ⟨Or.inr ⟨u, rfl, hmono (hkept.readOnly.trans (hlocked.readOnly hstate))⟩,
      SendsReadOnly.of_sent_eq hquiet.sent⟩

/-- A locked session is neither new nor waiting for its synchronization. -/
theorem Locked.not_logging_in {s : Session} (hlocked : Locked s) :
    s.state ≠ .connected ∧ ∀ h login build, s.state ≠ .authenticated h login build := by
  rcases hlocked with hstate | ⟨r, hstate, -⟩
  all_goals
    rw [hstate]
    exact ⟨(fun h => nomatch h), (fun _ _ _ h => nomatch h)⟩

theorem run_locked (primitives : Primitives) {s : Session} (hlocked : Locked s) (call : Call) :
    Locked (call.run primitives s).2 ∧ SendsReadOnly s (call.run primitives s).2 := by
  obtain ⟨hconnected, hauthenticated⟩ := hlocked.not_logging_in
  cases call with
  | authenticate entropy login password clientBuild =>
    have houtcome := authenticate_outcome primitives entropy login password clientBuild s
    show Locked (authenticate primitives entropy login password clientBuild s).2 ∧
      SendsReadOnly s (authenticate primitives entropy login password clientBuild s).2
    rcases hrun : authenticate primitives entropy login password clientBuild s with ⟨result, t⟩
    rw [hrun] at houtcome
    cases houtcome with
    | refused e hstate => exact ⟨hlocked, SendsReadOnly.refl _⟩
    | failed e t hstate hclosed => exact absurd hstate hconnected
    | authenticated build t handshake result hstate => exact absurd hstate hconnected
  | synchronize profile unixSeconds =>
    have houtcome := synchronize_outcome primitives profile unixSeconds s
    show Locked (synchronize primitives profile unixSeconds s).2 ∧
      SendsReadOnly s (synchronize primitives profile unixSeconds s).2
    rcases hrun : synchronize primitives profile unixSeconds s with ⟨result, t⟩
    rw [hrun] at houtcome
    cases houtcome with
    | refused e => exact ⟨hlocked, SendsReadOnly.refl _⟩
    | failed e t handshake login clientBuild hstate => exact absurd hstate (hauthenticated _ _ _)
    | synchronized sync t handshake login clientBuild values result hstate =>
      exact absurd hstate (hauthenticated _ _ _)
  | sendRequest command payload => exact sendEncoded_locked hlocked _ _ _
  | sendTrade record => exact sendTrade_locked hlocked record
  | subscribe symbolIds => exact sendEncoded_locked hlocked _ _ _
  | pollMessage => exact pollMessage_locked hlocked
  | nextMessage =>
    show Locked (nextMessage s).2 ∧ SendsReadOnly s (nextMessage s).2
    rw [nextMessage_snd]
    exact pollMessage_locked hlocked

/-- Whatever is called, a locked session stays locked. -/
theorem after_locked (primitives : Primitives) {s : Session} (hlocked : Locked s)
    (calls : List Call) :
    Locked (after primitives calls s) ∧ SendsReadOnly s (after primitives calls s) := by
  induction calls generalizing s with
  | nil => exact ⟨hlocked, SendsReadOnly.refl s⟩
  | cons call calls ih =>
    obtain ⟨hfirst, hsentFirst⟩ := run_locked primitives hlocked call
    obtain ⟨hrest, hsentRest⟩ := ih hfirst
    exact ⟨hrest, hsentFirst.trans hsentRest⟩

/-! ## The three sources of the flag -/

/-- The answers that lock a session: a synchronization with a read-only profile
or account, and an account update with the flag in one of its records. -/
inductive Locks : Call → Result Answer → Prop
  | profile {profile : LoginProfile} {unixSeconds : Option Nat} {sync : Synchronization}
      (h : profile.account.readOnly = true) :
      Locks (.synchronize profile unixSeconds) (.ok (.synchronization sync))
  | account {profile : LoginProfile} {unixSeconds : Option Nat} {sync : Synchronization}
      (h : sync.account.isReadOnly = true) :
      Locks (.synchronize profile unixSeconds) (.ok (.synchronization sync))
  | update {call : Call} {m : Message} {updates : List AccountState} {update : AccountState}
      (hcall : call = .pollMessage ∨ call = .nextMessage) (hcommand : m.command = 55)
      (hkind : m.payload.head? = some 19) (hparse : parseAccountUpdate19 m.payload = .ok updates)
      (hmem : update ∈ updates) (hreadOnly : update.isReadOnly = true) :
      Locks call (.ok (.message (some m)))

theorem answered_eq_ok {α : Type} {answer : α → Answer} {x : Method α} {s : Session} {b : Answer}
    (h : (answered answer x s).1 = .ok b) : ∃ a, (x s).1 = .ok a ∧ answer a = b := by
  unfold answered at h
  cases hx : (x s).1 with
  | error e =>
    rw [hx] at h
    cases h
  | ok a =>
    rw [hx] at h
    exact ⟨a, rfl, Except.ok.inj h⟩

/-- A read-only profile or account locks the session that it synchronizes. -/
theorem synchronize_locks {profile : LoginProfile} {unixSeconds : Option Nat} {s : Session}
    {sync : Synchronization} (hrun : (synchronize primitives profile unixSeconds s).1 = .ok sync)
    (h : sync.account.isReadOnly = true ∨ profile.account.readOnly = true) :
    Locked (synchronize primitives profile unixSeconds s).2 := by
  have houtcome := synchronize_outcome primitives profile unixSeconds s
  rcases hresult : synchronize primitives profile unixSeconds s with ⟨result, t⟩
  rw [hresult] at houtcome hrun
  cases houtcome with
  | refused e => cases hrun
  | failed e t handshake login clientBuild hstate hclosed => exact Or.inl hclosed
  | synchronized sync' t handshake login clientBuild values result hstate hmatched hsync =>
    cases hrun
    obtain ⟨seconds, cipher, rx, -, ht, -⟩ := hsync.exchanged
    refine Or.inr ⟨_, ht, ?_⟩
    show (sync.account.isReadOnly || profile.account.readOnly) = true
    rw [Bool.or_eq_true]
    exact h

/-- An account update with the flag in one of its records locks the session. -/
theorem pollMessage_locks {s : Session} {m : Message} {updates : List AccountState}
    {update : AccountState} (hrun : (pollMessage s).1 = .ok (some m)) (hcommand : m.command = 55)
    (hkind : m.payload.head? = some 19) (hparse : parseAccountUpdate19 m.payload = .ok updates)
    (hmem : update ∈ updates) (hreadOnly : update.isReadOnly = true) :
    Locked (pollMessage s).2 := by
  have houtcome := pollMessage_outcome s
  rcases hresult : pollMessage s with ⟨result, t⟩
  rw [hresult] at houtcome hrun
  cases houtcome with
  | refused e hstate => cases hrun
  | failed r e c hstate hquiet => cases hrun
  | idle r t c hstate hquiet hkept => cases hrun
  | message r t u m' c hstate hquiet hkept haccept =>
    cases hrun
    rcases acceptMessage_cases haccept with ⟨hother, -⟩ | ⟨updates', -, hparse', -, rfl⟩
    · exact absurd ⟨hcommand, hkind⟩ hother
    · rw [hparse] at hparse'
      cases hparse'
      refine Or.inr ⟨_, rfl, ?_⟩
      rw [(foldl_update updates t).2.2, Bool.or_eq_true]
      exact Or.inr (List.any_eq_true.mpr ⟨update, hmem, hreadOnly⟩)

theorem locked_of_locks {s : Session} {call : Call} (h : Locks call (call.run primitives s).1) :
    Locked (call.run primitives s).2 := by
  generalize hresult : (call.run primitives s).1 = result at h
  cases h with
  | profile hprofile =>
    obtain ⟨sync, hrun, -⟩ := answered_eq_ok hresult
    exact synchronize_locks hrun (Or.inr hprofile)
  | account haccount =>
    obtain ⟨sync, hrun, hsync⟩ := answered_eq_ok hresult
    cases hsync
    exact synchronize_locks hrun (Or.inl haccount)
  | update hcall hcommand hkind hparse hmem hreadOnly =>
    rcases hcall with rfl | rfl
    · obtain ⟨message, hrun, hmessage⟩ := answered_eq_ok hresult
      cases hmessage
      exact pollMessage_locks hrun hcommand hkind hparse hmem hreadOnly
    · obtain ⟨message, hrun, hmessage⟩ := answered_eq_ok hresult
      cases hmessage
      show Locked (nextMessage s).2
      rw [nextMessage_snd]
      exact pollMessage_locks (nextMessage_eq_ok hrun) hcommand hkind hparse hmem hreadOnly

/-- From the answer that locks it, or from its failure, a session is read-only in
every state in which it is ready, and every frame that it sends carries a
read-only command. -/
theorem readOnly_never_lifted {s : Session} {call : Call}
    (h : Locks call (call.run primitives s).1 ∨ (call.run primitives s).2.state = .failed)
    (calls : List Call) :
    (∀ readOnly, isReadOnly (after primitives calls (call.run primitives s).2) = .ok readOnly →
        readOnly = true) ∧
      ∃ frames, (after primitives calls (call.run primitives s).2).connection.sent =
          (call.run primitives s).2.connection.sent ++ frames ∧
        ∀ frame ∈ frames, frame.command ∈ READ_ONLY_COMMANDS ∧
          frame.command ≠ command.TRADE_REQUEST ∧ frame.command ≠ command.PASSWORD_CHANGE := by
  have hstart : Locked (call.run primitives s).2 := by
    rcases h with hlocks | hfailed
    · exact locked_of_locks hlocks
    · exact Or.inl hfailed
  obtain ⟨hlocked, frames, hsent, hcommands⟩ := after_locked primitives hstart calls
  refine ⟨?_, frames, hsent, ?_⟩
  · intro readOnly hresult
    unfold isReadOnly at hresult
    split at hresult
    · rename_i r hstate
      cases hresult
      exact hlocked.readOnly hstate
    · cases hresult
  · intro frame hframe
    have hcommand := hcommands frame hframe
    refine ⟨hcommand, ?_, ?_⟩
    · intro htrade
      rw [htrade] at hcommand
      exact absurd hcommand (by decide)
    · intro hpassword
      rw [hpassword] at hcommand
      exact absurd hcommand (by decide)

/-- With a read-only profile, the login of the conformance vectors cannot trade. -/
theorem readOnly_never_lifted_sampleLogin :
    isReadOnly (after samplePrimitives [.sendRequest command.PASSWORD_CHANGE [0]]
      (after samplePrimitives (sampleLogin true) (connect sampleReads []))) ≠ .ok false := by
  have hok : (synchronize samplePrimitives (sampleProfile true) (some 1700000000)
      (after samplePrimitives [.authenticate sampleEntropy 12345678 "ExamplePassword" 6182]
        (connect sampleReads []))).1.isOk = true := by decide +kernel
  have hlocks : Locks (.synchronize (sampleProfile true) (some 1700000000))
      (Call.run samplePrimitives (.synchronize (sampleProfile true) (some 1700000000))
        (after samplePrimitives [.authenticate sampleEntropy 12345678 "ExamplePassword" 6182]
          (connect sampleReads []))).1 := by
    rw [Call.run, answered]
    revert hok
    generalize (synchronize samplePrimitives (sampleProfile true) (some 1700000000) _).1 = result
    intro hok
    cases result with
    | error e => cases hok
    | ok sync => exact .profile rfl
  intro hfalse
  cases (readOnly_never_lifted (Or.inl hlocks) [.sendRequest command.PASSWORD_CHANGE [0]]).1 false
    hfalse

end Session

end Mt5Open.Native

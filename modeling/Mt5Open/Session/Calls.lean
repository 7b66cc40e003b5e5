import Mt5Open.Session.Session

/-!
# What the calls of a session do

`Call` is a public call of a session, and `after` is the session after a list of
calls.  Each kind of call has an outcome relation that lists what it can do:
what it answers, which state it leaves and what it has handed to the socket.
The properties of runs are derived from these relations.
-/

namespace Mt5Open.Native

open Lib

namespace Session

variable {primitives : Primitives}

/-! ## Sending -/

/-- The frame of a request. -/
def requestFrame (s : Session) (r : Ready) (command : UInt8) (payload : Bytes) (flags : UInt16) :
    Frame where
  command := command
  sequence := s.connection.sequence
  flags := flags
  payload := (r.tx.encrypt payload).1

/-- The outcomes of a request. -/
inductive SendOutcome (command : UInt8) (payload : Bytes) (flags : UInt16) (s : Session) :
    Result UInt16 → Session → Prop
  | refused (e : ProtocolError) : SendOutcome command payload flags s (.error e) s
  | lost (r : Ready) (e : ProtocolError) (hstate : s.state = .ready r)
      (hallowed : r.readOnly → command ∈ READ_ONLY_COMMANDS)
      (hwrite : s.connection.writeError ≠ none) :
      SendOutcome command payload flags s (.error e)
        { s with
          connection := s.connection.transmitted (requestFrame s r command payload flags)
          state := .failed }
  | accepted (r : Ready) (hstate : s.state = .ready r)
      (hlength : payload.length ≤ MAX_PAYLOAD)
      (hallowed : r.readOnly → command ∈ READ_ONLY_COMMANDS) :
      SendOutcome command payload flags s (.ok s.connection.sequence)
        { s with
          connection := s.connection.transmitted (requestFrame s r command payload flags)
          state := .ready { r with tx := (r.tx.encrypt payload).2 } }

theorem sendEncoded_outcome (command : UInt8) (payload : Bytes) (flags : UInt16) (s : Session) :
    SendOutcome command payload flags s (sendEncoded command payload flags s).1
      (sendEncoded command payload flags s).2 := by
  unfold sendEncoded
  by_cases hlength : MAX_PAYLOAD < payload.length
  · rw [if_pos hlength]
    exact .refused _
  · rw [if_neg hlength]
    split
    · rename_i r hstate
      by_cases hrefused : r.readOnly ∧ command ∉ READ_ONLY_COMMANDS
      · rw [if_pos hrefused]
        exact .refused _
      · rw [if_neg hrefused]
        have hallowed : r.readOnly → command ∈ READ_ONLY_COMMANDS := by
          intro hreadOnly
          by_contra hcommand
          exact hrefused ⟨hreadOnly, hcommand⟩
        have hsend := Connection.send_nextSequence (requestFrame s r command payload flags)
          s.connection
        cases hwrite : s.connection.writeError with
        | some e =>
          simp only [requestFrame, hwrite] at hsend
          simp only [Connection.nextSequence] at hsend ⊢
          rw [hsend]
          exact .lost r _ hstate hallowed (hwrite ▸ Option.some_ne_none e)
        | none =>
          simp only [requestFrame, hwrite] at hsend
          simp only [Connection.nextSequence] at hsend ⊢
          rw [hsend]
          exact .accepted r hstate (Nat.le_of_not_lt hlength) hallowed
    · exact .refused _

/-- A trade is a request, or it is refused. -/
theorem sendTrade_outcome (primitives : Primitives) (record : Bytes) (s : Session) :
    (∃ e, sendTrade primitives record s = (.error e, s)) ∨
      ∃ r key payload, s.state = .ready r ∧ r.readOnly = false ∧ r.tradeKey = some key ∧
        tradePayload primitives record key = .ok payload ∧
        sendTrade primitives record s =
          sendEncoded command.TRADE_REQUEST payload (FINAL ||| COMPRESSED) s := by
  unfold sendTrade
  split
  · rename_i r hstate
    by_cases hreadOnly : r.readOnly
    · rw [if_pos hreadOnly]
      exact Or.inl ⟨_, rfl⟩
    · rw [if_neg hreadOnly]
      split
      · exact Or.inl ⟨_, rfl⟩
      · rename_i key hkey
        split
        · exact Or.inl ⟨_, rfl⟩
        · rename_i payload hpayload
          exact Or.inr ⟨r, key, payload, hstate, by simpa using hreadOnly, hkey, hpayload, rfl⟩
  · exact Or.inl ⟨_, rfl⟩

/-! ## Receiving -/

/-- `t` is `r` but for the receiving half. -/
structure Ready.Kept (r t : Ready) : Prop where
  tx : t.tx = r.tx
  tradeKey : t.tradeKey = r.tradeKey
  account : t.account = r.account
  readOnly : t.readOnly = r.readOnly

namespace Ready.Kept

theorem refl (r : Ready) : Ready.Kept r r := ⟨rfl, rfl, rfl, rfl⟩

theorem trans {r t u : Ready} (h : Ready.Kept r t) (k : Ready.Kept t u) : Ready.Kept r u :=
  ⟨k.tx.trans h.tx, k.tradeKey.trans h.tradeKey, k.account.trans h.account,
    k.readOnly.trans h.readOnly⟩

end Ready.Kept

/-- A frame completes no message, or one that passes the account checks. -/
theorem receive_cases {r t : Ready} {frame : Frame} {message : Option Message}
    (h : receive r frame = .ok (message, t)) :
    (message = none ∧ Ready.Kept r t) ∨
      ∃ m u, message = some m ∧ Ready.Kept r u ∧ acceptMessage u m = .ok t := by
  obtain ⟨bytes, hplain, h⟩ := except_bind_eq_ok.mp h
  obtain ⟨⟨completed, messages⟩, hpush, h⟩ := except_bind_eq_ok.mp h
  cases completed with
  | none =>
    cases Except.ok.inj h
    exact Or.inl ⟨rfl, rfl, rfl, rfl, rfl⟩
  | some m =>
    obtain ⟨u, haccept, h⟩ := except_bind_eq_ok.mp h
    cases Except.ok.inj h
    exact Or.inr ⟨m, { r with rx := (r.rx.decrypt frame.payload).2, messages }, rfl,
      ⟨rfl, rfl, rfl, rfl⟩, haccept⟩

/-- The messages among the results of polls. -/
def delivered (results : List (Result (Option Message))) : List Message :=
  results.filterMap fun
    | .ok message => message
    | .error _ => none

/-- The outcomes of a poll. -/
inductive PollOutcome (s : Session) : Result (Option Message) → Session → Prop
  | refused (e : ProtocolError) (hstate : ∀ r, s.state ≠ .ready r) : PollOutcome s (.error e) s
  | failed (r : Ready) (e : ProtocolError) (c : Connection) (hstate : s.state = .ready r)
      (hquiet : Connection.Quiet s.connection c) :
      PollOutcome s (.error e) { s with connection := c, state := .failed }
  | idle (r t : Ready) (c : Connection) (hstate : s.state = .ready r)
      (hquiet : Connection.Quiet s.connection c) (hkept : Ready.Kept r t) :
      PollOutcome s (.ok none) { s with connection := c, state := .ready t }
  | message (r t u : Ready) (m : Message) (c : Connection) (hstate : s.state = .ready r)
      (hquiet : Connection.Quiet s.connection c) (hkept : Ready.Kept r t)
      (haccept : acceptMessage t m = .ok u) :
      PollOutcome s (.ok (some m)) { s with connection := c, state := .ready u }

/-- What the loop of a poll can come to, from a session and its connection. -/
def PollSpec (s : Ready × Connection) (result : Result (Option Message × Ready) × Connection) :
    Prop :=
  Connection.Quiet s.2 result.2 ∧
    ∀ message t, result.1 = .ok (message, t) →
      (message = none ∧ Ready.Kept s.1 t) ∨
        ∃ m u, message = some m ∧ Ready.Kept s.1 u ∧ acceptMessage u m = .ok t

theorem pollLoop_spec (s : Ready × Connection) : PollSpec s (pollLoop.run s) := by
  apply Loop.run_rule pollLoop
  · rintro ⟨r, c⟩ ⟨result, d⟩ hbody
    have hquiet := Connection.pollFrame_quiet c
    simp only [pollLoop] at hbody
    split at hbody
    · rename_i e c' hpoll
      rw [hpoll] at hquiet
      cases Sum.inr.inj hbody
      refine ⟨hquiet, fun message t hr => ?_⟩
      cases hr
    · rename_i c' hpoll
      rw [hpoll] at hquiet
      cases Sum.inr.inj hbody
      refine ⟨hquiet, fun message t hr => ?_⟩
      cases Except.ok.inj hr
      exact Or.inl ⟨rfl, Ready.Kept.refl r⟩
    · rename_i frame c' hpoll
      rw [hpoll] at hquiet
      split at hbody
      · cases Sum.inr.inj hbody
        refine ⟨hquiet, fun message t hr => ?_⟩
        cases hr
      · cases hbody
      · rename_i m t hreceive
        cases Sum.inr.inj hbody
        refine ⟨hquiet, fun message u hr => ?_⟩
        cases Except.ok.inj hr
        exact receive_cases hreceive
  · rintro ⟨r, c⟩ ⟨t, c'⟩ result hbody hrest
    have hquiet := Connection.pollFrame_quiet c
    simp only [pollLoop] at hbody
    split at hbody
    · cases hbody
    · cases hbody
    · rename_i frame d hpoll
      rw [hpoll] at hquiet
      split at hbody
      · cases hbody
      · rename_i u hreceive
        cases Sum.inl.inj hbody
        have hkept : Ready.Kept r t := by
          obtain ⟨-, hkept⟩ | ⟨m, u, hm, -⟩ := receive_cases hreceive
          · exact hkept
          · cases hm
        refine ⟨hquiet.trans hrest.1, fun message v hr => ?_⟩
        obtain ⟨hnone, hv⟩ | ⟨m, w, hm, hw, haccept⟩ := hrest.2 message v hr
        · exact Or.inl ⟨hnone, hkept.trans hv⟩
        · exact Or.inr ⟨m, w, hm, hkept.trans hw, haccept⟩
      · cases hbody

theorem pollMessage_outcome (s : Session) :
    PollOutcome s (pollMessage s).1 (pollMessage s).2 := by
  unfold pollMessage
  split
  · rename_i r hstate
    have hspec := pollLoop_spec (r, s.connection)
    split
    · rename_i e c hrun
      rw [hrun] at hspec
      exact .failed r e c hstate hspec.1
    · rename_i message t c hrun
      rw [hrun] at hspec
      obtain ⟨rfl, hkept⟩ | ⟨m, u, rfl, hkept, haccept⟩ := hspec.2 message t rfl
      · exact .idle r t c hstate hspec.1 hkept
      · exact .message r u t m c hstate hspec.1 hkept haccept
  · rename_i hstate
    exact .refused _ hstate

/-- A message is none of the account updates, or its records name the login of
the session and are taken over in order. -/
theorem acceptMessage_cases {r t : Ready} {m : Message} (h : acceptMessage r m = .ok t) :
    (¬(m.command = 55 ∧ m.payload.head? = some 19) ∧ t = r) ∨
      ∃ updates, (m.command = 55 ∧ m.payload.head? = some 19) ∧
        parseAccountUpdate19 m.payload = .ok updates ∧
        (∀ update ∈ updates, update.login = r.account.login) ∧
        t = updates.foldl Ready.update r := by
  unfold acceptMessage at h
  by_cases haccount : m.command = 55 ∧ m.payload.head? = some 19
  · rw [if_pos haccount] at h
    cases hparse : parseAccountUpdate19 m.payload with
    | error e =>
      rw [hparse] at h
      cases h
    | ok updates =>
      simp only [hparse, bind, Except.bind] at h
      split at h
      · cases h
      · rename_i hlogin
        cases Except.ok.inj h
        refine Or.inr ⟨updates, haccount, rfl, ?_, rfl⟩
        simpa using hlogin
  · rw [if_neg haccount] at h
    cases Except.ok.inj h
    exact Or.inl ⟨haccount, rfl⟩

/-- Account updates leave the keys of the session alone. -/
theorem foldl_update (updates : List AccountState) (r : Ready) :
    (updates.foldl Ready.update r).tx = r.tx ∧
      (updates.foldl Ready.update r).tradeKey = r.tradeKey ∧
      (updates.foldl Ready.update r).readOnly =
        (r.readOnly || updates.any AccountState.isReadOnly) := by
  induction updates generalizing r with
  | nil => simp
  | cons update updates ih =>
    obtain ⟨htx, hkey, hreadOnly⟩ := ih (Ready.update r update)
    rw [List.foldl_cons, htx, hkey, hreadOnly]
    exact ⟨rfl, rfl, by simp [Ready.update, Bool.or_assoc]⟩

theorem foldl_update_login (updates : List AccountState) (r : Ready)
    (h : ∀ update ∈ updates, update.login = r.account.login) :
    (updates.foldl Ready.update r).account.login = r.account.login := by
  induction updates generalizing r with
  | nil => rfl
  | cons update updates ih =>
    have hfirst : update.login = r.account.login := h update List.mem_cons_self
    rw [List.foldl_cons, ih (Ready.update r update)]
    · exact hfirst
    · intro other hother
      rw [h other (List.mem_cons_of_mem _ hother)]
      exact hfirst.symm

/-- What a message does to the session. -/
theorem acceptMessage_spec {r t : Ready} {m : Message} (h : acceptMessage r m = .ok t) :
    t.tx = r.tx ∧ t.tradeKey = r.tradeKey ∧ t.account.login = r.account.login ∧
      (r.readOnly → t.readOnly) := by
  obtain ⟨-, rfl⟩ | ⟨updates, -, -, hlogin, rfl⟩ := acceptMessage_cases h
  · exact ⟨rfl, rfl, rfl, id⟩
  · obtain ⟨htx, hkey, hreadOnly⟩ := foldl_update updates r
    refine ⟨htx, hkey, foldl_update_login updates r hlogin, fun hr => ?_⟩
    rw [hreadOnly, hr]
    rfl

end Session

end Mt5Open.Native

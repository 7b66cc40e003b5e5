import Mt5Open.Session.Login
import Mathlib.Data.List.Induction

/-!
# Identity and failure

A session becomes ready through one authentication and one synchronization, and
from then on it is bound to the login of both.  An error that leaves the wire in
doubt ends it for good.

`Moves` is what a call can do to the state.  The history of a ready session is
found by induction from the last call backwards, and a second login is excluded
by `rank`, which no call makes smaller.
-/

namespace Mt5Open.Native

open Lib

namespace Session

variable {primitives : Primitives}

/-! ## One call -/

/-- What a call can do to the state of a session. -/
inductive Moves (primitives : Primitives) (s : Session) : Call → Session → Prop
  | kept {call : Call} {t : Session} (h : t.state = s.state) : Moves primitives s call t
  | failed {call : Call} {t : Session} (h : t.state = .failed) : Moves primitives s call t
  | authenticated {t : Session} (entropy : Entropy) (login : Nat) (password : String)
      (clientBuild : Nat) (build : Int) (handshake : Handshake) (result : AuthResult)
      (hstate : s.state = .connected)
      (hrun : authenticate primitives entropy login password clientBuild s = (.ok build, t))
      (ht : t.state = .authenticated handshake login clientBuild)
      (hauthentic : Authentic handshake login clientBuild)
      (haccepted : Accepted s.connection t.connection handshake result) :
      Moves primitives s (.authenticate entropy login password clientBuild) t
  | synchronized {t : Session} (profile : LoginProfile) (unixSeconds : Option Nat)
      (handshake : Handshake) (login clientBuild : Nat) (result : AuthResult)
      (sync : Synchronization) (r : Ready)
      (hstate : s.state = .authenticated handshake login clientBuild)
      (hrun : synchronize primitives profile unixSeconds s = (.ok sync, t))
      (hmatched : Matched profile handshake login clientBuild result)
      (hlogin : sync.state.account.login = login) (ht : t.state = .ready r)
      (haccount : r.account.login = login) :
      Moves primitives s (.synchronize profile unixSeconds) t
  | goesOn {call : Call} {t : Session} (r u : Ready) (hstate : s.state = .ready r)
      (ht : t.state = .ready u) (hlogin : u.account.login = r.account.login) :
      Moves primitives s call t

theorem sendEncoded_moves (s : Session) (call : Call) (command : UInt8) (payload : Bytes)
    (flags : UInt16) : Moves primitives s call (sendEncoded command payload flags s).2 := by
  have houtcome := sendEncoded_outcome command payload flags s
  rcases hrun : sendEncoded command payload flags s with ⟨result, t⟩
  rw [hrun] at houtcome
  cases houtcome with
  | refused e => exact .kept rfl
  | lost r e hstate => exact .failed rfl
  | accepted r hstate => exact .goesOn r _ hstate rfl rfl

theorem pollMessage_moves (s : Session) (call : Call) :
    Moves primitives s call (pollMessage s).2 := by
  have houtcome := pollMessage_outcome s
  rcases hrun : pollMessage s with ⟨result, t⟩
  rw [hrun] at houtcome
  cases houtcome with
  | refused e hstate => exact .kept rfl
  | failed r e c hstate hquiet => exact .failed rfl
  | idle r t c hstate hquiet hkept =>
    exact .goesOn r t hstate rfl (congrArg AccountState.login hkept.account)
  | message r t u m c hstate hquiet hkept haccept =>
    obtain ⟨-, -, hlogin, -⟩ := acceptMessage_spec haccept
    exact .goesOn r u hstate rfl (hlogin.trans (congrArg AccountState.login hkept.account))

theorem run_moves (primitives : Primitives) (s : Session) (call : Call) :
    Moves primitives s call (call.run primitives s).2 := by
  cases call with
  | authenticate entropy login password clientBuild =>
    have houtcome := authenticate_outcome primitives entropy login password clientBuild s
    show Moves primitives s _ (authenticate primitives entropy login password clientBuild s).2
    rcases hrun : authenticate primitives entropy login password clientBuild s with ⟨result, t⟩
    rw [hrun] at houtcome
    cases houtcome with
    | refused e hstate => exact .kept rfl
    | failed e t hstate hclosed => exact .failed hclosed
    | authenticated build t handshake result hstate ht hauthentic haccepted =>
      exact .authenticated entropy login password clientBuild build handshake result hstate hrun ht
        hauthentic haccepted
  | synchronize profile unixSeconds =>
    have houtcome := synchronize_outcome primitives profile unixSeconds s
    show Moves primitives s _ (synchronize primitives profile unixSeconds s).2
    rcases hrun : synchronize primitives profile unixSeconds s with ⟨result, t⟩
    rw [hrun] at houtcome
    cases houtcome with
    | refused e => exact .kept rfl
    | failed e t handshake login clientBuild hstate hclosed => exact .failed hclosed
    | synchronized sync t handshake login clientBuild values result hstate hmatched hsync =>
      obtain ⟨seconds, cipher, rx, -, ht, -⟩ := hsync.exchanged
      have hlogin : sync.state.account.login = login := hsync.account_eq ▸ hsync.login_eq
      exact .synchronized profile unixSeconds handshake login clientBuild result sync _ hstate hrun
        hmatched hlogin ht hsync.login_eq
  | sendRequest command payload => exact sendEncoded_moves s _ _ _ _
  | sendTrade record =>
    show Moves primitives s _ (sendTrade primitives record s).2
    rcases sendTrade_outcome primitives record s with
      ⟨e, hrefused⟩ | ⟨r, key, payload, -, -, -, -, hsent⟩
    · rw [hrefused]
      exact .kept rfl
    · rw [hsent]
      exact sendEncoded_moves s _ _ _ _
  | subscribe symbolIds => exact sendEncoded_moves s _ _ _ _
  | pollMessage => exact pollMessage_moves s _
  | nextMessage =>
    show Moves primitives s _ (nextMessage s).2
    rw [nextMessage_snd]
    exact pollMessage_moves s _

/-- The handshake of a session that waits for its synchronization has its keys. -/
theorem authentic_after {s : Session} (hstate : s.state = .connected) (calls : List Call)
    {handshake : Handshake} {login clientBuild : Nat}
    (h : (after primitives calls s).state = .authenticated handshake login clientBuild) :
    Authentic handshake login clientBuild := by
  induction calls using List.reverseRecOn generalizing handshake login clientBuild with
  | nil =>
    rw [show after primitives [] s = s from rfl, hstate] at h
    cases h
  | append_singleton calls call ih =>
    rw [after_append] at h
    have hmoves := run_moves primitives (after primitives calls s) call
    change (call.run primitives (after primitives calls s)).2.state = _ at h
    generalize hnext : (call.run primitives (after primitives calls s)).2 = t at hmoves h
    cases hmoves with
    | kept hkept => exact ih (hkept ▸ h)
    | failed hfailed =>
      rw [hfailed] at h
      cases h
    | authenticated entropy login' password clientBuild' build handshake' result hstate' hrun ht
        hauthentic =>
      rw [ht] at h
      cases h
      exact hauthentic
    | synchronized profile unixSeconds handshake' login' clientBuild' result sync r hstate' hrun
        hmatched hlogin ht =>
      rw [ht] at h
      cases h
    | goesOn r u hstate' ht =>
      rw [ht] at h
      cases h

/-! ## A session does not go back -/

/-- How far a session has come. -/
def rank (s : Session) : Nat :=
  match s.state with
  | .connected => 0
  | .authenticated .. => 1
  | .ready _ => 2
  | .failed => 3

theorem rank_eq {s t : Session} (h : t.state = s.state) : rank t = rank s := by
  unfold rank
  rw [h]

theorem ready_of_rank {s : Session} (h : rank s = 2) : ∃ r, s.state = .ready r := by
  unfold rank at h
  split at h
  · omega
  · omega
  · rename_i r hstate
    exact ⟨r, hstate⟩
  · omega

theorem rank_le_three (s : Session) : rank s ≤ 3 := by
  unfold rank
  split <;> omega

theorem rank_le_run (s : Session) (call : Call) : rank s ≤ rank (call.run primitives s).2 := by
  cases run_moves primitives s call with
  | kept h => rw [rank_eq h]
  | failed h =>
    rw [rank, rank, h]
    exact rank_le_three s
  | authenticated _ _ _ _ _ _ _ hstate =>
    rw [rank, hstate]
    exact Nat.zero_le _
  | synchronized profile unixSeconds handshake login clientBuild result sync r hstate hrun hmatched
      hlogin ht =>
    rw [rank, rank, hstate, ht]
    exact Nat.le_succ 1
  | goesOn r u hstate ht =>
    rw [rank, rank, hstate, ht]

theorem rank_le_after (calls : List Call) (s : Session) :
    rank s ≤ rank (after primitives calls s) := by
  induction calls generalizing s with
  | nil => exact Nat.le_refl _
  | cons call calls ih => exact Nat.le_trans (rank_le_run s call) (ih _)

/-! ## The history of a ready session -/

section History

variable {s₀ : Session} {calls : List Call}

/-- One of the calls was the authentication that accepted this handshake, and it
was the only one that succeeded. -/
def AuthenticatedBy (primitives : Primitives) (s₀ : Session) (calls : List Call)
    (handshake : Handshake) (login clientBuild : Nat) (result : AuthResult) : Prop :=
  ∃ front entropy password back build t,
    calls = front ++ .authenticate entropy login password clientBuild :: back ∧
      (after primitives front s₀).state = .connected ∧
      authenticate primitives entropy login password clientBuild (after primitives front s₀) =
        (.ok build, t) ∧
      t.state = .authenticated handshake login clientBuild ∧
      Accepted (after primitives front s₀).connection t.connection handshake result ∧
      ∀ front' entropy' login' password' clientBuild' back' build',
        calls = front' ++ .authenticate entropy' login' password' clientBuild' :: back' →
        (authenticate primitives entropy' login' password' clientBuild'
          (after primitives front' s₀)).1 = .ok build' → front' = front

/-- One of the calls was the synchronization that made this session ready, with
the login of the authentication before it, and it was the only one that
succeeded. -/
def SynchronizedBy (primitives : Primitives) (s₀ : Session) (calls : List Call) (r : Ready) :
    Prop :=
  ∃ front profile unixSeconds back sync t handshake login clientBuild result,
    calls = front ++ .synchronize profile unixSeconds :: back ∧
      AuthenticatedBy primitives s₀ front handshake login clientBuild result ∧
      (after primitives front s₀).state = .authenticated handshake login clientBuild ∧
      synchronize primitives profile unixSeconds (after primitives front s₀) = (.ok sync, t) ∧
      Matched profile handshake login clientBuild result ∧
      sync.state.account.login = login ∧ r.account.login = login ∧
      ∀ front' profile' unixSeconds' back' sync',
        calls = front' ++ .synchronize profile' unixSeconds' :: back' →
        (synchronize primitives profile' unixSeconds' (after primitives front' s₀)).1 = .ok sync' →
        front' = front

/-- Of two calls in a run, the one that comes first has the shorter front. -/
theorem front_cases {front front' back back' : List Call} {call call' : Call}
    (h : front ++ call :: back = front' ++ call' :: back') :
    front' = front ∨ (∃ middle, front' = front ++ call :: middle) ∨
      ∃ middle, front = front' ++ call' :: middle := by
  rcases List.append_eq_append_iff.mp h with ⟨middle, hfront, hback⟩ | ⟨middle, hfront, hback⟩
  · cases middle with
    | nil =>
      rw [List.append_nil] at hfront
      exact Or.inl hfront
    | cons first middle =>
      obtain ⟨rfl, -⟩ := List.cons.inj hback
      exact Or.inr (Or.inl ⟨middle, hfront⟩)
  · cases middle with
    | nil =>
      rw [List.append_nil] at hfront
      exact Or.inl hfront.symm
    | cons first middle =>
      obtain ⟨rfl, -⟩ := List.cons.inj hback
      exact Or.inr (Or.inr ⟨middle, hfront⟩)

theorem rank_after_front {front : List Call} {c : Call} {n : Nat} (middle : List Call)
    (h : n ≤ rank (c.run primitives (after primitives front s₀)).2) :
    n ≤ rank (after primitives (front ++ c :: middle) s₀) := by
  rw [after_append, after_cons]
  exact Nat.le_trans h (rank_le_after middle _)

/-- An authentication that succeeds starts a new session and ends that. -/
theorem rank_authenticate {entropy : Entropy} {login clientBuild : Nat} {password : String}
    {s : Session} {build : Int}
    (h : (authenticate primitives entropy login password clientBuild s).1 = .ok build) :
    rank s = 0 ∧ 1 ≤ rank (authenticate primitives entropy login password clientBuild s).2 := by
  have houtcome := authenticate_outcome primitives entropy login password clientBuild s
  rcases hrun : authenticate primitives entropy login password clientBuild s with ⟨result, t⟩
  rw [hrun] at houtcome h
  cases houtcome with
  | refused e hstate => cases h
  | failed e t hstate hclosed => cases h
  | authenticated build t handshake result hstate ht =>
    rw [rank, rank, hstate, ht]
    exact ⟨rfl, Nat.le_refl 1⟩

theorem rank_synchronize {profile : LoginProfile} {unixSeconds : Option Nat} {s : Session}
    {sync : Synchronization} (h : (synchronize primitives profile unixSeconds s).1 = .ok sync) :
    rank s = 1 ∧ 2 ≤ rank (synchronize primitives profile unixSeconds s).2 := by
  have houtcome := synchronize_outcome primitives profile unixSeconds s
  rcases hrun : synchronize primitives profile unixSeconds s with ⟨result, t⟩
  rw [hrun] at houtcome h
  cases houtcome with
  | refused e => cases h
  | failed e t handshake login clientBuild hstate hclosed => cases h
  | synchronized sync t handshake login clientBuild values result hstate hmatched hsync =>
    obtain ⟨seconds, cipher, rx, -, ht, -⟩ := hsync.exchanged
    rw [rank, rank, hstate, ht]
    exact ⟨rfl, Nat.le_refl 2⟩

/-- Only one authentication of a run succeeds. -/
theorem authenticate_once {front back : List Call} {entropy : Entropy} {login clientBuild : Nat}
    {password : String} {build : Int}
    (hrun : (authenticate primitives entropy login password clientBuild
      (after primitives front s₀)).1 = .ok build)
    {front' back' : List Call} {entropy' : Entropy} {login' clientBuild' : Nat}
    {password' : String} {build' : Int}
    (hcalls : front ++ .authenticate entropy login password clientBuild :: back =
      front' ++ .authenticate entropy' login' password' clientBuild' :: back')
    (hrun' : (authenticate primitives entropy' login' password' clientBuild'
      (after primitives front' s₀)).1 = .ok build') : front' = front := by
  obtain ⟨hzero, hone⟩ := rank_authenticate hrun
  obtain ⟨hzero', hone'⟩ := rank_authenticate hrun'
  rcases front_cases hcalls with heq | ⟨middle, rfl⟩ | ⟨middle, rfl⟩
  · exact heq
  · have := rank_after_front
      (c := .authenticate entropy login password clientBuild) middle hone
    omega
  · have := rank_after_front
      (c := .authenticate entropy' login' password' clientBuild') middle hone'
    omega

/-- Only one synchronization of a run succeeds. -/
theorem synchronize_once {front back : List Call} {profile : LoginProfile}
    {unixSeconds : Option Nat} {sync : Synchronization}
    (hrun : (synchronize primitives profile unixSeconds (after primitives front s₀)).1 = .ok sync)
    {front' back' : List Call} {profile' : LoginProfile} {unixSeconds' : Option Nat}
    {sync' : Synchronization}
    (hcalls : front ++ .synchronize profile unixSeconds :: back =
      front' ++ .synchronize profile' unixSeconds' :: back')
    (hrun' : (synchronize primitives profile' unixSeconds' (after primitives front' s₀)).1 =
      .ok sync') : front' = front := by
  obtain ⟨hone, htwo⟩ := rank_synchronize hrun
  obtain ⟨hone', htwo'⟩ := rank_synchronize hrun'
  rcases front_cases hcalls with heq | ⟨middle, rfl⟩ | ⟨middle, rfl⟩
  · exact heq
  · have := rank_after_front (c := .synchronize profile unixSeconds) middle htwo
    omega
  · have := rank_after_front (c := .synchronize profile' unixSeconds') middle htwo'
    omega

/-- A further call that authenticates nobody belongs to the same login. -/
theorem AuthenticatedBy.extend {handshake : Handshake} {login clientBuild : Nat}
    {result : AuthResult}
    (h : AuthenticatedBy primitives s₀ calls handshake login clientBuild result)
    (more : List Call) :
    AuthenticatedBy primitives s₀ (calls ++ more) handshake login clientBuild result := by
  obtain ⟨front, entropy, password, back, build, t, rfl, hconnected, hrun, ht, haccepted, -⟩ := h
  refine ⟨front, entropy, password, back ++ more, build, t, by simp, hconnected, hrun, ht,
    haccepted, ?_⟩
  intro front' entropy' login' password' clientBuild' back' build' hcalls hrun'
  rw [List.append_assoc] at hcalls
  exact authenticate_once (by rw [hrun]) hcalls hrun'

theorem SynchronizedBy.extend {r u : Ready} (h : SynchronizedBy primitives s₀ calls r)
    (hlogin : u.account.login = r.account.login) (more : List Call) :
    SynchronizedBy primitives s₀ (calls ++ more) u := by
  obtain ⟨front, profile, unixSeconds, back, sync, t, handshake, login, clientBuild, result, rfl,
    hauthenticated, hstate, hrun, hmatched, hsync, haccount, -⟩ := h
  refine ⟨front, profile, unixSeconds, back ++ more, sync, t, handshake, login, clientBuild, result,
    by simp, hauthenticated, hstate, hrun, hmatched, hsync, hlogin.trans haccount, ?_⟩
  intro front' profile' unixSeconds' back' sync' hcalls hrun'
  rw [List.append_assoc] at hcalls
  exact synchronize_once (by rw [hrun]) hcalls hrun'

/-- What a session remembers of its calls. -/
def History (primitives : Primitives) (s₀ : Session) (calls : List Call) : Prop :=
  (∀ handshake login clientBuild,
      (after primitives calls s₀).state = .authenticated handshake login clientBuild →
        ∃ result, AuthenticatedBy primitives s₀ calls handshake login clientBuild result) ∧
    ∀ r, (after primitives calls s₀).state = .ready r → SynchronizedBy primitives s₀ calls r

theorem history_init (hstate : s₀.state = .connected) : History primitives s₀ [] := by
  refine ⟨?_, ?_⟩
  · intro handshake login clientBuild h
    rw [show after primitives [] s₀ = s₀ from rfl, hstate] at h
    cases h
  · intro r h
    rw [show after primitives [] s₀ = s₀ from rfl, hstate] at h
    cases h

/-- One more call. -/
theorem History.step (h : History primitives s₀ calls) (call : Call) :
    History primitives s₀ (calls ++ [call]) := by
  have hlast : after primitives (calls ++ [call]) s₀ =
      (call.run primitives (after primitives calls s₀)).2 := by
    rw [after_append]
    rfl
  unfold History
  rw [hlast]
  have hmoves := run_moves primitives (after primitives calls s₀) call
  generalize hnext : (call.run primitives (after primitives calls s₀)).2 = t at hmoves
  cases hmoves with
  | kept hkept =>
    rw [hkept]
    refine ⟨?_, ?_⟩
    · intro handshake login clientBuild hstate
      obtain ⟨result, hby⟩ := h.1 handshake login clientBuild hstate
      exact ⟨result, hby.extend [call]⟩
    · intro r hstate
      exact (h.2 r hstate).extend rfl [call]
  | failed hfailed =>
    rw [hfailed]
    exact ⟨(fun _ _ _ hstate => nomatch hstate), (fun _ hstate => nomatch hstate)⟩
  | authenticated entropy login password clientBuild build handshake result hstate hrun ht
      hauthentic haccepted =>
    rw [ht]
    refine ⟨?_, fun _ hready => nomatch hready⟩
    intro handshake' login' clientBuild' heq
    cases heq
    refine ⟨result, calls, entropy, password, [], build, t, rfl, hstate, hrun, ht, haccepted, ?_⟩
    intro front' entropy' login' password' clientBuild' back' build' hcalls hrun'
    exact authenticate_once (by rw [hrun]) hcalls hrun'
  | synchronized profile unixSeconds handshake login clientBuild result sync r hstate hrun hmatched
      hlogin ht haccount =>
    rw [ht]
    refine ⟨(fun _ _ _ hauthenticated => nomatch hauthenticated), ?_⟩
    intro r' heq
    cases heq
    obtain ⟨result', hby⟩ := h.1 handshake login clientBuild hstate
    have hresult : result' = result := by
      obtain ⟨front, entropy, password, back, build, u, -, -, -, -, haccepted, -⟩ := hby
      obtain ⟨hello, auth, helloReply, authReply, challenge, middle, -, -, -, -, -, -, hkeeps⟩ :=
        haccepted
      exact Option.some.inj (hkeeps.symm.trans hmatched.result_eq)
    rw [hresult] at hby
    refine ⟨calls, profile, unixSeconds, [], sync, t, handshake, login, clientBuild, result, rfl,
      hby, hstate, hrun, hmatched, hlogin, haccount, ?_⟩
    intro front' profile' unixSeconds' back' sync' hcalls hrun'
    exact synchronize_once (by rw [hrun]) hcalls hrun'
  | goesOn r u hstate ht hlogin =>
    rw [ht]
    refine ⟨(fun _ _ _ hauthenticated => nomatch hauthenticated), ?_⟩
    intro u' heq
    cases heq
    exact (h.2 r hstate).extend hlogin [call]

theorem history (hstate : s₀.state = .connected) (calls : List Call) :
    History primitives s₀ calls := by
  induction calls using List.reverseRecOn with
  | nil => exact history_init hstate
  | append_singleton calls call ih => exact ih.step call

end History

/-! ## Failure -/

/-- Every call is refused, and the session is as before. -/
def Dead (primitives : Primitives) (s : Session) : Prop :=
  (∃ e, account s = .error e) ∧ ∀ call : Call, ∃ e, call.run primitives s = (.error e, s)

theorem sendEncoded_failed {s : Session} (h : s.state = .failed) (command : UInt8) (payload : Bytes)
    (flags : UInt16) : ∃ e, sendEncoded command payload flags s = (.error e, s) := by
  unfold sendEncoded
  by_cases hlength : MAX_PAYLOAD < payload.length
  · rw [if_pos hlength]
    exact ⟨_, rfl⟩
  · rw [if_neg hlength, h]
    exact ⟨_, rfl⟩

/-- A failed session stays as it is. -/
theorem dead_of_failed {s : Session} (h : s.state = .failed) : Dead primitives s := by
  have hpoll : ∃ e, pollMessage s = (.error e, s) := by
    unfold pollMessage
    rw [h]
    exact ⟨_, rfl⟩
  have answer : ∀ {α : Type} {f : α → Answer} {x : Method α}, (∃ e, x s = (.error e, s)) →
      ∃ e, answered f x s = (.error e, s) := by
    intro α f x hx
    obtain ⟨e, hx⟩ := hx
    exact ⟨e, by rw [answered, hx]; rfl⟩
  refine ⟨?_, ?_⟩
  · unfold account
    rw [h]
    exact ⟨_, rfl⟩
  · intro call
    cases call with
    | authenticate entropy login password clientBuild =>
      apply answer
      unfold authenticate
      rw [h]
      exact ⟨_, rfl⟩
    | synchronize profile unixSeconds =>
      apply answer
      unfold synchronize
      rw [h]
      exact ⟨_, rfl⟩
    | sendRequest command payload => exact answer (sendEncoded_failed h _ _ _)
    | sendTrade record =>
      apply answer
      unfold sendTrade
      rw [h]
      exact ⟨_, rfl⟩
    | subscribe symbolIds => exact answer (sendEncoded_failed h _ _ _)
    | pollMessage => exact answer hpoll
    | nextMessage =>
      obtain ⟨e, hpoll⟩ := hpoll
      exact answer ⟨e, Act.bind_of_error hpoll⟩

/-- A poll of a ready session that answers an error has failed it. -/
theorem pollMessage_error {s : Session} {r : Ready} {e : ProtocolError}
    (hstate : s.state = .ready r) (h : (pollMessage s).1 = .error e) :
    (pollMessage s).2.state = .failed := by
  have houtcome := pollMessage_outcome s
  rcases hrun : pollMessage s with ⟨result, t⟩
  rw [hrun] at houtcome h
  cases houtcome with
  | refused e' hnot => exact absurd hstate (hnot r)
  | failed r' e' c hstate' hquiet => rfl
  | idle r' t c hstate' hquiet hkept => cases h
  | message r' t u m c hstate' hquiet hkept haccept => cases h

theorem authenticate_error {s : Session} {entropy : Entropy} {login clientBuild : Nat}
    {password : String} {e : ProtocolError} (hstate : s.state = .connected)
    (h : (authenticate primitives entropy login password clientBuild s).1 = .error e) :
    (authenticate primitives entropy login password clientBuild s).2.state = .failed := by
  have houtcome := authenticate_outcome primitives entropy login password clientBuild s
  rcases hrun : authenticate primitives entropy login password clientBuild s with ⟨result, t⟩
  rw [hrun] at houtcome h
  cases houtcome with
  | refused e' hnot => exact absurd hstate hnot
  | failed e' t hstate' hclosed => exact hclosed
  | authenticated build t handshake result hstate' ht => cases h

/-- The profile names another account, or it does not answer the authentication
result: another server, other builds, or programs without an answer. -/
def ProfileRefuses (profile : LoginProfile) (handshake : Handshake) (login clientBuild : Nat)
    (e : ProtocolError) : Prop :=
  profile.accountMode login = .error e ∨
    (∃ mode, profile.accountMode login = .ok mode) ∧
      ∃ result, handshake.authResult = some result ∧ profile.answers clientBuild result = .error e

/-- A synchronization that the profile refuses leaves the session as it is. -/
theorem synchronize_refused {s : Session} {handshake : Handshake} {login clientBuild : Nat}
    {profile : LoginProfile} {e : ProtocolError}
    (hstate : s.state = .authenticated handshake login clientBuild)
    (h : ProfileRefuses profile handshake login clientBuild e) (unixSeconds : Option Nat) :
    synchronize primitives profile unixSeconds s = (.error e, s) := by
  have hprepare : prepareSync profile handshake login clientBuild = .error e := by
    unfold prepareSync
    rcases h with hmode | ⟨⟨mode, hmode⟩, result, hresult, hanswers⟩
    · rw [hmode]
      rfl
    · rw [hmode, hresult]
      show (profile.answers clientBuild result >>= _) = _
      rw [hanswers]
      rfl
  unfold synchronize
  rw [hstate]
  simp only [hprepare]

/-- The identity of a session and its failures, after every list of calls and for
everything that the server sends. -/
theorem session_identity (primitives : Primitives) (reads : List SocketRead)
    (writes : List (Option String)) (calls : List Call) {s : Session}
    (hs : s = after primitives calls (connect reads writes)) :
    (∀ r, s.state = .ready r → SynchronizedBy primitives (connect reads writes) calls r) ∧
      (s.state = .failed → Dead primitives s) ∧
      (∀ r e, s.state = .ready r → (pollMessage s).1 = .error e →
        (pollMessage s).2.state = .failed) ∧
      (∀ entropy login password clientBuild e, s.state = .connected →
        (authenticate primitives entropy login password clientBuild s).1 = .error e →
        (authenticate primitives entropy login password clientBuild s).2.state = .failed) ∧
      ∀ handshake login clientBuild profile unixSeconds e,
        s.state = .authenticated handshake login clientBuild →
        ProfileRefuses profile handshake login clientBuild e →
        synchronize primitives profile unixSeconds s = (.error e, s) := by
  refine ⟨?_, dead_of_failed, fun _ _ => pollMessage_error, fun _ _ _ _ _ => authenticate_error,
    fun _ _ _ _ unixSeconds _ hstate h => synchronize_refused hstate h unixSeconds⟩
  intro r hstate
  rw [hs] at hstate
  exact (history rfl calls).2 r hstate

/-- The login of the conformance vectors becomes ready for its account. -/
theorem session_identity_sampleLogin :
    ∃ r, SynchronizedBy samplePrimitives (connect sampleReads []) (sampleLogin false) r := by
  have hrank : rank (after samplePrimitives (sampleLogin false) (connect sampleReads [])) = 2 := by
    decide +kernel
  obtain ⟨r, hstate⟩ := ready_of_rank hrank
  exact ⟨r, (session_identity samplePrimitives sampleReads [] (sampleLogin false) rfl).1 r hstate⟩

end Session

end Mt5Open.Native

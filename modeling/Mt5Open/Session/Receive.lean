import Mt5Open.Native.Fragments
import Mt5Open.Session.Login

/-!
# The receive path

Four layers stand between the server's messages and the client: the frames are
cut out of the chunks that the socket reads, one cipher deciphers them in order,
a wrapped fragment is inflated, and the reassembler joins the fragments.

`Delivers` is the invariant of the first layer: the frames to come, wherever the
chunks end.  `Between` joins it to the other three, and one poll takes it from a
place between two fragments to a later one.
-/

namespace Mt5Open.Native

open Lib

namespace SocketRead

/-- The bytes that a read gives. -/
def bytes : SocketRead → Bytes
  | data bytes => bytes
  | idle => []
  | failed _ => []

/-- The read gives some bytes or its deadline passes. -/
def sound : SocketRead → Bool
  | data bytes => !bytes.isEmpty
  | idle => true
  | failed _ => false

end SocketRead

namespace Connection

/-- The frames to come are these: some are at hand, and the others are in the
buffer and in the reads. -/
structure Delivers (c : Connection) (frames : List Frame) : Prop where
  reads : ∀ read ∈ c.reads, read.sound
  maxPayload : c.parser.maxPayload = MAX_PAYLOAD
  limit : ∀ frame ∈ frames, frame.payload.length ≤ MAX_PAYLOAD
  stream : ∃ later, frames = c.pending ++ later ∧
    c.parser.buffer ++ c.reads.flatMap SocketRead.bytes = later.flatMap Frame.pack ∧
    (c.reads.flatMap SocketRead.bytes = [] → later = [])

/-- The frames of a stream that is cut into any chunks. -/
theorem delivers_of_stream {c : Connection} {frames : List Frame}
    (hreads : ∀ read ∈ c.reads, read.sound) (hmaxPayload : c.parser.maxPayload = MAX_PAYLOAD)
    (hlimit : ∀ frame ∈ frames, frame.payload.length ≤ MAX_PAYLOAD)
    (hpending : c.pending = []) (hbuffer : c.parser.buffer = [])
    (hstream : c.reads.flatMap SocketRead.bytes = frames.flatMap Frame.pack) :
    c.Delivers frames where
  reads := hreads
  maxPayload := hmaxPayload
  limit := hlimit
  stream := by
    refine ⟨frames, by rw [hpending]; rfl, by rw [hbuffer, hstream]; rfl, fun hnil => ?_⟩
    rw [hstream] at hnil
    cases frames with
    | nil => rfl
    | cons frame frames => cases hnil

/-- What a poll of a connection with these frames to come can give. -/
inductive Polled (c : Connection) (frames : List Frame) :
    Result (Option Frame) × Connection → Prop
  | frame (first : Frame) (rest : List Frame) (d : Connection) (hframes : frames = first :: rest)
      (hdelivers : d.Delivers rest) (hreads : d.reads.length ≤ c.reads.length) :
      Polled c frames (.ok (some first), d)
  | idle (d : Connection) (hdelivers : d.Delivers frames)
      (hreads : d.reads.length < c.reads.length ∨ frames = [])
      (hle : d.reads.length ≤ c.reads.length) : Polled c frames (.ok none, d)

/-- A round goes on with the frames of a chunk at hand, or gives what a poll can give. -/
theorem pollRound_delivers {c : Connection} {frames : List Frame} (h : c.Delivers frames) :
    (∃ d, pollRound c = .inl d ∧ d.Delivers frames ∧ d.reads.length ≤ c.reads.length) ∨
      ∃ result, pollRound c = .inr result ∧ Polled c frames result := by
  obtain ⟨later, hframes, hstream, hlater⟩ := h.stream
  unfold pollRound
  cases hpending : c.pending with
  | cons frame pending =>
    rw [hpending] at hframes
    refine Or.inr ⟨_, rfl, .frame frame (pending ++ later) _ hframes ?_ (Nat.le_refl _)⟩
    exact
      { reads := h.reads
        maxPayload := h.maxPayload
        limit := fun f hf => h.limit f (hframes ▸ List.mem_cons_of_mem _ hf)
        stream := ⟨later, rfl, hstream, hlater⟩ }
  | nil =>
    rw [hpending, List.nil_append] at hframes
    cases hreads : c.reads with
    | nil =>
      have hnil : frames = [] := by
        rw [hframes]
        exact hlater (by rw [hreads]; rfl)
      exact Or.inr ⟨_, rfl, .idle c h (Or.inr hnil) (Nat.le_refl _)⟩
    | cons read reads =>
      rw [hreads, List.flatMap_cons] at hstream hlater
      have hsound := h.reads
      rw [hreads] at hsound
      have hrest : ∀ read ∈ reads, read.sound := fun r hr => hsound r (List.mem_cons_of_mem _ hr)
      cases read with
      | failed e => cases hsound _ List.mem_cons_self
      | idle =>
        have hlength : reads.length < c.reads.length := by
          rw [hreads]
          exact Nat.lt_succ_self _
        refine Or.inr ⟨_, rfl, .idle _ ?_ (Or.inl hlength) (Nat.le_of_lt hlength)⟩
        exact
          { reads := hrest
            maxPayload := h.maxPayload
            limit := h.limit
            stream := ⟨later, hframes, hstream, hlater⟩ }
      | data bytes =>
        cases bytes with
        | nil => cases hsound _ List.mem_cons_self
        | cons byte bytes =>
          have hsplit : (c.parser.buffer ++ byte :: bytes) ++ reads.flatMap SocketRead.bytes =
              frames.flatMap Frame.pack := by
            rw [List.append_assoc, hframes]
            exact hstream
          have hlimit : ∀ frame ∈ frames, frame.payload.length ≤ c.parser.maxPayload := by
            rw [h.maxPayload]
            exact h.limit
          obtain ⟨front, back, left, hfront, hparse, hleft, hback⟩ :=
            parse_prefix (by rw [h.maxPayload]; decide) hlimit hsplit
          have hfeed : c.parser.feed (byte :: bytes) =
              (.ok front, { c.parser with buffer := left }) := by
            unfold FrameParser.feed
            rw [hparse]
          refine Or.inl ⟨{ c with
            reads, parser := { c.parser with buffer := left }, pending := front }, ?_, ?_,
            Nat.le_succ _⟩
          · simp only [hfeed]
          · exact
              { reads := hrest
                maxPayload := h.maxPayload
                limit := h.limit
                stream := ⟨back, hfront, hleft, hback⟩ }

theorem pollFrame_delivers {c : Connection} {frames : List Frame} (h : c.Delivers frames) :
    Polled c frames (pollFrame c) := by
  refine Loop.run_rule pollLoop (P := fun c r => c.Delivers frames → Polled c frames r) ?_ ?_ c h
  · intro c r hbody hdelivers
    rcases pollRound_delivers hdelivers with ⟨d, hnext, -⟩ | ⟨result, hstop, hpolled⟩
    · cases hbody.symm.trans hnext
    · cases hbody.symm.trans hstop
      exact hpolled
  · intro c t r hbody hrest hdelivers
    rcases pollRound_delivers hdelivers with ⟨d, hnext, hd, hle⟩ | ⟨result, hstop, -⟩
    · cases hbody.symm.trans hnext
      cases hrest hd with
      | frame first rest e hframes he hreads =>
        exact .frame first rest e hframes he (Nat.le_trans hreads hle)
      | idle e he hreads hsmall =>
        exact .idle e he (hreads.imp_left fun hlt => Nat.lt_of_lt_of_le hlt hle)
          (Nat.le_trans hsmall hle)
    · cases hbody.symm.trans hstop

end Connection

namespace Session

/-! ## One frame -/

/-- The message is no account update, or a well-formed one that names this login. -/
def Names (login : Nat) (posted : Posted) : Prop :=
  posted.command = 55 ∧ posted.payload.head? = some 19 →
    ∃ updates, parseAccountUpdate19 posted.payload = .ok updates ∧
      ∀ update ∈ updates, update.login = login

variable {messages : List Posted} {fragments front back : List (Fragment messages)}
  {fragment : Fragment messages} {login : Nat} {r : Ready}

/-- `t` is at the same place of the receive path as `r`. -/
structure SamePlace (r t : Ready) : Prop where
  rx : t.rx = r.rx
  messages : t.messages = r.messages
  login : t.account.login = r.account.login

theorem foldl_update_samePlace (updates : List AccountState) (r : Ready)
    (h : ∀ update ∈ updates, update.login = r.account.login) :
    SamePlace r (updates.foldl Ready.update r) := by
  have hkept : ∀ r : Ready, (updates.foldl Ready.update r).rx = r.rx ∧
      (updates.foldl Ready.update r).messages = r.messages := by
    clear h
    induction updates with
    | nil => exact fun r => ⟨rfl, rfl⟩
    | cons update updates ih => exact fun r => ih (Ready.update r update)
  exact ⟨(hkept r).1, (hkept r).2, foldl_update_login updates r h⟩

/-- The account checks let the message pass. -/
theorem acceptMessage_message (fragments : List (Fragment messages)) (i : Fin messages.length)
    (hnames : Names r.account.login (messages.get i)) :
    ∃ t, acceptMessage r (message fragments i) = .ok t ∧ SamePlace r t := by
  unfold acceptMessage
  by_cases haccount : (messages.get i).command = 55 ∧ (messages.get i).payload.head? = some 19
  · have hmessage : (message fragments i).command = 55 ∧
        (message fragments i).payload.head? = some 19 := haccount
    obtain ⟨updates, hparse, hlogin⟩ := hnames haccount
    have hany : (updates.any fun update => update.login != r.account.login) = false := by
      rw [List.any_eq_false]
      intro update hupdate
      simp [hlogin update hupdate]
    refine ⟨updates.foldl Ready.update r, ?_, foldl_update_samePlace updates r hlogin⟩
    rw [if_pos hmessage]
    simp only [message, hparse, bind, Except.bind, hany]
    rfl
  · exact ⟨r, if_neg haccount, rfl, rfl, rfl⟩

/-- A fragment that the server has wrapped is unwrapped. -/
theorem inflate_plain {plain payload : Bytes} (h : fragment.plain = .ok plain)
    (hlength : fragment.bytes.length ≤ MAX_MESSAGE) :
    inflate (fragment.frame back payload) plain MAX_MESSAGE = .ok fragment.bytes := by
  unfold inflate
  rw [Fragment.isCompressed_frame]
  unfold Fragment.plain at h
  by_cases hcompressed : fragment.compressed
  · rw [if_pos hcompressed] at h ⊢
    exact decompressPayload_makeCompressedPayload h hlength
  · rw [if_neg hcompressed] at h ⊢
    exact congrArg _ (Except.ok.inj h).symm

/-- A ready session takes the frame of the next fragment. -/
theorem receive_fragment {plain : Bytes} (hplain : fragment.plain = .ok plain)
    (hfragments : Interleaved (front ++ fragment :: back))
    (hnames : ∀ i, Names r.account.login (messages.get i))
    (hpending : Pending front (fragment :: back) r.messages) :
    ∃ t, receive r (fragment.frame back (r.rx.encrypt plain).1) =
        .ok (if fragment.isLast back then
          some (message (front ++ fragment :: back) fragment.message) else none, t) ∧
      t.rx = (r.rx.encrypt plain).2 ∧ Pending (front ++ [fragment]) back t.messages ∧
      t.account.login = r.account.login := by
  have hlength : fragment.bytes.length ≤ MAX_MESSAGE := by
    have := hfragments.length_le
    omega
  obtain ⟨next, hpush, hnext⟩ := push_fragment hpending hfragments (r.rx.encrypt plain).1
  have hdecrypt : r.rx.decrypt (fragment.frame back (r.rx.encrypt plain).1).payload =
      (plain, (r.rx.encrypt plain).2) := SessionCipher.decrypt_encrypt r.rx plain
  unfold receive
  rw [hdecrypt]
  simp only [inflate_plain hplain hlength, hpush, bind, Except.bind]
  by_cases hlast : fragment.isLast back
  · rw [if_pos hlast]
    obtain ⟨t, haccept, hplace⟩ := acceptMessage_message (front ++ fragment :: back)
      (r := { r with rx := (r.rx.encrypt plain).2, messages := next }) fragment.message
      (hnames fragment.message)
    refine ⟨t, ?_, hplace.rx, hplace.messages ▸ hnext, hplace.login⟩
    simp only [haccept]
    rfl
  · rw [if_neg hlast]
    exact ⟨_, rfl, rfl, hnext, rfl⟩

/-! ## One poll -/

/-- The session and its connection stand between these fragments. -/
structure Between (login : Nat) (front back : List (Fragment messages)) (r : Ready)
    (c : Connection) : Prop where
  stream : ∃ frames, transmit r.rx back = .ok frames ∧ c.Delivers frames
  pending : Pending front back r.messages
  login : r.account.login = login

/-- What a poll can come to from a place with these fragments behind it. -/
inductive PollsTo (login : Nat) (fragments back : List (Fragment messages)) (c : Connection) :
    Result (Option Message × Ready) × Connection → Prop
  | idle (front' back' : List (Fragment messages)) (t : Ready) (d : Connection)
      (hfragments : fragments = front' ++ back') (hcompleted : completed back = completed back')
      (hbetween : Between login front' back' t d)
      (hreads : d.reads.length < c.reads.length ∨ back' = []) :
      PollsTo login fragments back c (.ok (none, t), d)
  | message (front' back' : List (Fragment messages)) (i : Fin messages.length) (t : Ready)
      (d : Connection) (hfragments : fragments = front' ++ back')
      (hcompleted : completed back = i :: completed back')
      (hbetween : Between login front' back' t d) (hreads : d.reads.length ≤ c.reads.length) :
      PollsTo login fragments back c (.ok (some (Native.message fragments i), t), d)

/-- By induction on the fragments behind the place: a frame that completes no
message leaves the rest of the poll to the place behind it. -/
theorem pollLoop_between {c : Connection} (hfragments : fragments = front ++ back)
    (hinterleaved : Interleaved fragments) (hnames : ∀ i, Names login (messages.get i))
    (h : Between login front back r c) : PollsTo login fragments back c (pollLoop.run (r, c)) := by
  induction back generalizing front r c with
  | nil =>
    obtain ⟨frames, htransmit, hdelivers⟩ := h.stream
    cases Except.ok.inj htransmit
    have hpolled := Connection.pollFrame_delivers hdelivers
    rcases hpoll : c.pollFrame with ⟨result, d⟩
    rw [hpoll] at hpolled
    cases hpolled with
    | frame first rest d hframes => cases hframes
    | idle d hd hreads hle =>
      have hbody : pollLoop.body (r, c) = .inr (.ok (none, r), d) := by
        simp only [pollLoop, hpoll]
      rw [Loop.run_of_stop pollLoop hbody]
      exact .idle front [] r d hfragments rfl ⟨⟨[], rfl, hd⟩, h.pending, h.login⟩ (Or.inr rfl)
  | cons fragment back ih =>
    obtain ⟨frames, htransmit, hdelivers⟩ := h.stream
    have hpolled := Connection.pollFrame_delivers hdelivers
    rcases hpoll : c.pollFrame with ⟨result, d⟩
    rw [hpoll] at hpolled
    obtain ⟨plain, hplain, hframes⟩ := except_bind_eq_ok.mp htransmit
    obtain ⟨behind, hbehind, hframes⟩ := except_bind_eq_ok.mp hframes
    cases Except.ok.inj hframes
    cases hpolled with
    | idle d hd hreads hle =>
      have hbody : pollLoop.body (r, c) = .inr (.ok (none, r), d) := by
        simp only [pollLoop, hpoll]
      have hless : d.reads.length < c.reads.length := hreads.resolve_right (List.cons_ne_nil _ _)
      rw [Loop.run_of_stop pollLoop hbody]
      exact .idle front (fragment :: back) r d hfragments rfl
        ⟨⟨_, htransmit, hd⟩, h.pending, h.login⟩ (Or.inl hless)
    | frame first rest d hfirst hd hreads =>
      cases hfirst
      rw [hfragments] at hinterleaved
      obtain ⟨t, hreceive, hrx, hnext, hlogin⟩ := receive_fragment hplain hinterleaved
        (h.login ▸ hnames) h.pending
      have hbetween : Between login (front ++ [fragment]) back t d :=
        ⟨⟨_, hrx ▸ hbehind, hd⟩, hnext, hlogin.trans h.login⟩
      have happend : fragments = (front ++ [fragment]) ++ back := by
        rw [hfragments, List.append_assoc]
        rfl
      by_cases hlast : fragment.isLast back
      · rw [if_pos hlast] at hreceive
        have hbody : pollLoop.body (r, c) =
            .inr (.ok (some (Native.message fragments fragment.message), t), d) := by
          simp only [pollLoop, hpoll, hreceive, hfragments]
        rw [Loop.run_of_stop pollLoop hbody]
        exact .message (front ++ [fragment]) back fragment.message t d happend
          (by rw [completed, if_pos hlast]) hbetween hreads
      · rw [if_neg hlast] at hreceive
        have hbody : pollLoop.body (r, c) = .inl (t, d) := by
          simp only [pollLoop, hpoll, hreceive]
        have hcompleted : completed (fragment :: back) = completed back := by
          rw [completed, if_neg hlast]
        rw [Loop.run_of_next pollLoop hbody]
        have hrest := ih happend hbetween
        generalize pollLoop.run (t, d) = result at hrest
        cases hrest with
        | idle front' back' u e hsplit hback hu hsmall =>
          exact .idle front' back' u e hsplit (hcompleted.trans hback) hu
            (hsmall.imp_left fun hlt => Nat.lt_of_lt_of_le hlt hreads)
        | message front' back' i u e hsplit hback hu hsmall =>
          exact .message front' back' i u e hsplit (hcompleted.trans hback) hu
            (Nat.le_trans hsmall hreads)

/-! ## Runs -/

/-- The results of this many polls, and the session behind them. -/
def polls : Nat → Session → List (Result (Option Message)) × Session
  | 0, s => ([], s)
  | n + 1, s =>
    let polled := pollMessage s
    let rest := polls n polled.2
    (polled.1 :: rest.1, rest.2)

/-- A poll of a ready session is a run of the loop. -/
theorem pollMessage_ready {s : Session} (hstate : s.state = .ready r) {message : Option Message}
    {t : Ready} {d : Connection} (hrun : pollLoop.run (r, s.connection) = (.ok (message, t), d)) :
    pollMessage s = (.ok message, { s with connection := d, state := .ready t }) := by
  unfold pollMessage
  rw [hstate]
  simp only [hrun]

theorem polls_succ {s t : Session} {message : Option Message}
    (hpoll : pollMessage s = (.ok message, t)) (n : Nat) :
    polls (n + 1) s = (.ok message :: (polls n t).1, (polls n t).2) := by
  rw [polls, hpoll]

/-- What polls give from a place: messages in order, and all of them when there
are enough polls. -/
theorem polls_between {s : Session} (hfragments : fragments = front ++ back)
    (hinterleaved : Interleaved fragments) (hnames : ∀ i, Names login (messages.get i))
    (hstate : s.state = .ready r) (h : Between login front back r s.connection) (n : Nat) :
    ∃ front' back' t, fragments = front' ++ back' ∧ (polls n s).2.state = .ready t ∧
      Between login front' back' t (polls n s).2.connection ∧
      (∀ result ∈ (polls n s).1, result.isOk) ∧
      (completed back).map (message fragments) =
        delivered (polls n s).1 ++ (completed back').map (message fragments) ∧
      (s.connection.reads.length + (completed back).length ≤ n → completed back' = []) := by
  induction n generalizing front back r s with
  | zero =>
    refine ⟨front, back, r, hfragments, hstate, h, fun _ hresult => (nomatch hresult), rfl, ?_⟩
    intro hle
    exact List.eq_nil_of_length_eq_zero (by omega)
  | succ n ih =>
    have hloop := pollLoop_between hfragments hinterleaved hnames h
    generalize hrun : pollLoop.run (r, s.connection) = result at hloop
    cases hloop with
    | idle front' back' t d hsplit hcompleted hbetween hreads =>
      have hpoll := pollMessage_ready hstate hrun
      obtain ⟨front'', back'', u, hsplit', hu, hbetween', hok, hmessages, henough⟩ :=
        ih (s := { s with connection := d, state := .ready t }) hsplit rfl hbetween
      rw [polls_succ hpoll]
      refine ⟨front'', back'', u, hsplit', hu, hbetween', ?_, ?_, ?_⟩
      · intro result hresult
        rcases List.mem_cons.mp hresult with rfl | hresult
        · rfl
        · exact hok result hresult
      · rw [hcompleted, hmessages]
        rfl
      · rw [hcompleted]
        intro hle
        rcases hreads with hless | rfl
        · apply henough
          show d.reads.length + _ ≤ n
          omega
        · have hlength := congrArg List.length hmessages
          simp only [completed, List.map_nil, List.length_nil, List.length_append,
            List.length_map] at hlength
          exact List.eq_nil_of_length_eq_zero (by omega)
    | message front' back' i t d hsplit hcompleted hbetween hreads =>
      have hpoll := pollMessage_ready hstate hrun
      obtain ⟨front'', back'', u, hsplit', hu, hbetween', hok, hmessages, henough⟩ :=
        ih (s := { s with connection := d, state := .ready t }) hsplit rfl hbetween
      rw [polls_succ hpoll]
      refine ⟨front'', back'', u, hsplit', hu, hbetween', ?_, ?_, ?_⟩
      · intro result hresult
        rcases List.mem_cons.mp hresult with rfl | hresult
        · rfl
        · exact hok result hresult
      · rw [hcompleted, List.map_cons, hmessages]
        rfl
      · rw [hcompleted, List.length_cons]
        intro hle
        apply henough
        show d.reads.length + _ ≤ n
        omega

/-- The receive path gives back what the server has sent: the polls of a ready
session return the messages in the order of their last fragments. -/
theorem polls_transmit {messages : List Posted} {fragments : List (Fragment messages)}
    {frames : List Frame} {r : Ready} {s : Session} (hstate : s.state = .ready r)
    (hempty : r.messages = .default) (hinterleaved : Interleaved fragments)
    (hnames : ∀ posted ∈ messages, Names r.account.login posted)
    (htransmit : transmit r.rx fragments = .ok frames) (hdelivers : s.connection.Delivers frames)
    (n : Nat) :
    (∃ t, (polls n s).2.state = .ready t) ∧ (∀ result ∈ (polls n s).1, result.isOk) ∧
      (completed fragments).Perm (List.finRange messages.length) ∧
      delivered (polls n s).1 <+: (completed fragments).map (message fragments) ∧
      (s.connection.reads.length + messages.length ≤ n →
        delivered (polls n s).1 = (completed fragments).map (message fragments)) := by
  have hbetween : Between r.account.login [] fragments r s.connection :=
    ⟨⟨frames, htransmit, hdelivers⟩, hempty ▸ pending_default fragments, rfl⟩
  obtain ⟨front, back, t, -, ht, -, hok, hmessages, henough⟩ :=
    polls_between (List.nil_append fragments).symm hinterleaved
      (fun i => hnames _ (List.get_mem messages i)) hstate hbetween n
  have hperm := completed_perm hinterleaved
  refine ⟨⟨t, ht⟩, hok, hperm, ⟨_, hmessages.symm⟩, ?_⟩
  intro hle
  have hlength := hperm.length_eq
  rw [List.length_finRange] at hlength
  rw [hmessages, henough (by omega)]
  exact (List.append_nil _).symm

/-! Two messages, the second within the first, whose first fragment is wrapped. -/

def sampleMessages : List Posted := [⟨50, 1, [1, 2, 3]⟩, ⟨10, 2, []⟩]

def sampleFragments : List (Fragment sampleMessages) :=
  [⟨⟨0, by decide⟩, [1, 2], true⟩, ⟨⟨1, by decide⟩, [], false⟩, ⟨⟨0, by decide⟩, [3], false⟩]

def sampleFrames : List Frame := (transmit sampleCipher sampleFragments).toOption.getD []

theorem sampleFragments_interleaved : Interleaved sampleFragments where
  payload := by decide
  present := by decide
  apart front fragment back h := by
    have hcheck : ∀ k < 3, ∀ i ∈ inFlight (sampleFragments.take k) (sampleFragments.drop (k + 1)),
        ∀ fragment ∈ sampleFragments[k]?, i ≠ fragment.message →
          (sampleMessages.get i).sequence ≠ fragment.posted.sequence := by decide
    have hlength : 3 = front.length + (back.length + 1) :=
      (congrArg List.length h).trans List.length_append
    have hk := hcheck front.length (by omega)
    rw [h, List.take_left, List.getElem?_append_right (Nat.le_refl _), Nat.sub_self] at hk
    have hdrop : (front ++ fragment :: back).drop (front.length + 1) = back := by simp
    rw [hdrop] at hk
    exact fun i hi => hk i hi fragment rfl
  pending front back h := by
    have hcheck : ∀ k < 4, (inFlight (sampleFragments.take k) (sampleFragments.drop k)).card ≤
        MAX_PENDING := by decide
    have hlength : 3 = front.length + back.length :=
      (congrArg List.length h).trans List.length_append
    have hk := hcheck front.length (by omega)
    rwa [h, List.take_left, List.drop_left] at hk
  size := by decide

/-- A ready session whose server is about to send the frames, over three chunks
and an idle read. -/
def sampleReady : Session where
  connection :=
    .connect
      [.data ((sampleFrames.flatMap Frame.pack).take 12), .idle,
        .data (((sampleFrames.flatMap Frame.pack).drop 12).take 20),
        .data ((sampleFrames.flatMap Frame.pack).drop 32)] []
  state := .ready
    { rx := sampleCipher
      tx := sampleCipher
      tradeKey := none
      account :=
        { login := 12345678
          balance := ⟨0⟩
          credit := ⟨0⟩
          blocked := ⟨0⟩
          leverage := 100
          tradeFlags := 0 }
      readOnly := false
      messages := .default }
  summary := none

/-- Six polls return both messages, the inner one first. -/
theorem polls_transmit_sample :
    delivered (polls 6 sampleReady).1 = [⟨10, 2, [], 1⟩, ⟨50, 1, [1, 2, 3], 2⟩] := by
  have hdelivers : sampleReady.connection.Delivers sampleFrames :=
    Connection.delivers_of_stream (by decide +kernel) rfl (by decide +kernel) rfl rfl
      (by decide +kernel)
  have hcommands : ∀ posted ∈ sampleMessages, posted.command ≠ 55 := by decide
  have hpolls := polls_transmit (s := sampleReady) rfl rfl sampleFragments_interleaved
    (fun posted hposted haccount => absurd haccount.1 (hcommands posted hposted))
    (by decide +kernel) hdelivers 6
  exact hpolls.2.2.2.2 (by decide)

end Session

end Mt5Open.Native

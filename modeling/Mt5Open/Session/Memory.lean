import Mt5Open.Native.FrameStream
import Mt5Open.Session.Calls
import Mt5Open.Session.Login

/-!
# What a session holds

The bytes that a session has received and still holds are in three places: the
buffer of the parser, the frames behind the one that was taken last, and the
unfinished messages of the reassembler.  Each of them has a limit, and a session
that meets one of them has failed and reads no more.  `memory_bounded` is about
every run of calls, whatever the server sends.

A read fills a buffer of a fixed size, so `Reads` is what a socket can give.
-/

namespace Mt5Open.Native

open Lib

/-! ## The connection -/

namespace Connection

/-- The size of the buffer of a read. -/
def READ_BUFFER : Nat := 16 * 1024

/-- A read gives what fits into the buffer. -/
def Reads (reads : List SocketRead) : Prop :=
  ∀ bytes, SocketRead.data bytes ∈ reads → bytes.length ≤ READ_BUFFER

/-- The bytes of the frames. -/
def packed (frames : List Frame) : Nat := (frames.flatMap Frame.pack).length

/-- The received bytes that the connection holds. -/
def held (c : Connection) : Nat := c.parser.buffer.length + packed c.pending

/-- A part of a frame, and a read behind it. -/
def LIMIT : Nat := HEADER_LEN + MAX_PAYLOAD + READ_BUFFER

/-- The parser has taken every whole frame out of its buffer. -/
structure Settled (c : Connection) : Prop where
  reads : Reads c.reads
  maxPayload : c.parser.maxPayload = MAX_PAYLOAD
  buffer : c.parser.buffer.length < HEADER_LEN + MAX_PAYLOAD
  held : c.held ≤ LIMIT

/-- What is left over when nothing more can be taken is a part of one frame. -/
theorem length_lt_of_parse {maxPayload : Nat} {rest : Bytes}
    (h : parse maxPayload rest = .ok ([], rest)) : rest.length < HEADER_LEN + maxPayload := by
  cases hround : parseRound maxPayload ([], rest) with
  | inl t =>
    obtain ⟨frame, hfits, hsplit, -⟩ := parseRound_eq_next hround
    rw [hsplit, parse_pack hfits] at h
    cases hparse : parse maxPayload t.2 with
    | ok found =>
      rw [hparse] at h
      cases h
    | error e =>
      rw [hparse] at h
      cases h
  | inr r =>
    have hrun : parse maxPayload rest = r := Loop.run_of_stop _ hround
    rw [h] at hrun
    subst hrun
    simp only [parseRound] at hround
    split at hround
    · omega
    · split at hround
      · cases hround
      · split at hround
        · omega
        · cases hround

theorem packed_cons (frame : Frame) (frames : List Frame) :
    packed (frame :: frames) = frame.pack.length + packed frames := by
  rw [packed, List.flatMap_cons, List.length_append]
  rfl

/-- What a round of a poll leaves: a settled connection, or one that has read once too often. -/
def RoundSettled : Connection ⊕ (Result (Option Frame) × Connection) → Prop
  | .inl d => Settled d
  | .inr (.ok _, d) => Settled d
  | .inr (.error _, d) => d.held ≤ LIMIT

theorem pollRound_settled {c : Connection} (h : Settled c) : RoundSettled (pollRound c) := by
  have hheld := h.held
  unfold pollRound
  split
  · rename_i frame pending hpending
    refine ⟨h.reads, h.maxPayload, h.buffer, ?_⟩
    simp only [held, hpending, packed_cons] at hheld ⊢
    omega
  · exact h
  · rename_i reads hpending hreads
    exact ⟨fun bytes hbytes => h.reads bytes (hreads ▸ List.mem_cons_of_mem _ hbytes),
      h.maxPayload, h.buffer, hheld⟩
  · exact hheld
  · exact hheld
  · rename_i byte bytes reads hpending hreads
    have hread : (byte :: bytes).length ≤ READ_BUFFER := h.reads _ (hreads ▸ List.mem_cons_self)
    have hbuffer := h.buffer
    cases hparse : parse c.parser.maxPayload (c.parser.buffer ++ byte :: bytes) with
    | error e =>
      rw [FrameParser.feed_of_error hparse]
      show (c.parser.buffer ++ byte :: bytes).length + packed c.pending ≤ LIMIT
      rw [hpending, packed, List.flatMap_nil, List.length_nil, List.length_append, LIMIT]
      omega
    | ok found =>
      obtain ⟨frames, rest⟩ := found
      obtain ⟨-, hsplit, hrest⟩ := parse_eq_ok hparse
      have hlength := congrArg List.length hsplit
      rw [List.length_append, List.length_append] at hlength
      rw [FrameParser.feed_of_ok hparse]
      refine ⟨fun bytes hbytes => h.reads bytes (hreads ▸ List.mem_cons_of_mem _ hbytes),
        h.maxPayload, ?_, ?_⟩
      · exact h.maxPayload ▸ length_lt_of_parse hrest
      · show rest.length + packed frames ≤ LIMIT
        rw [packed, LIMIT]
        omega

theorem pollFrame_settled : Act.Ensures Settled pollFrame (fun _ => Settled)
    fun _ d => d.held ≤ LIMIT := by
  intro c hc
  have hrun := Loop.run_rule pollLoop (P := fun c r => Settled c → RoundSettled (.inr r)) ?_ ?_ c hc
  · unfold pollFrame
    rcases hpoll : pollLoop.run c with ⟨e | frame, d⟩
    · rw [hpoll] at hrun
      exact hrun
    · rw [hpoll] at hrun
      exact hrun
  · intro c r hstop h
    exact hstop ▸ pollRound_settled h
  · intro c t r hnext hrest h
    have hround := pollRound_settled h
    rw [show pollRound c = .inl t from hnext] at hround
    exact hrest hround

theorem frameBefore_settled : Act.Ensures Settled frameBefore (fun _ => Settled)
    fun _ d => d.held ≤ LIMIT := by
  refine pollFrame_settled.bind fun frame => ?_
  cases frame with
  | none => exact .fail fun _ h => h.held
  | some frame => exact .pure fun _ h => h

theorem startupReply_settled (command : UInt8) (sequence : UInt16) :
    Act.Ensures Settled (startupReply command sequence) (fun _ => Settled)
      fun _ d => d.held ≤ LIMIT := by
  refine frameBefore_settled.bind fun frame => ?_
  intro c hc
  split_ifs
  · exact hc.held
  · exact hc

theorem send_settled (frame : Frame) :
    Act.Ensures Settled (send frame) (fun _ => Settled) fun _ d => d.held ≤ LIMIT := by
  intro c hc
  unfold send
  cases hwrite : c.writeError with
  | some e => exact hc.held
  | none => exact ⟨hc.reads, hc.maxPayload, hc.buffer, hc.held⟩

end Connection

/-! ## The reassembler -/

namespace Reassembler

/-- The bytes of the unfinished messages. -/
def held (messages : Reassembler) : Nat :=
  (messages.pending.entries.flatMap fun entry => entry.2.2.1).length

/-- The reassembler of a session, with its limits kept. -/
structure Bounded (messages : Reassembler) : Prop where
  maxMessage : messages.maxMessage = MAX_MESSAGE
  maxPending : messages.maxPending = MAX_PENDING
  count : messages.pending.entries.length ≤ MAX_PENDING
  size : ∀ entry ∈ messages.pending.entries, entry.2.2.1.length ≤ MAX_MESSAGE

theorem bounded_default : Bounded .default where
  maxMessage := rfl
  maxPending := rfl
  count := Nat.zero_le _
  size := fun _ hentry => by cases hentry

theorem length_flatMap_le {α : Type} {f : α → Bytes} {limit : Nat} {l : List α}
    (h : ∀ a ∈ l, (f a).length ≤ limit) : (l.flatMap f).length ≤ l.length * limit := by
  induction l with
  | nil => exact Nat.zero_le _
  | cons a l ih =>
    have hfirst := h a List.mem_cons_self
    have hrest := ih fun b hb => h b (List.mem_cons_of_mem _ hb)
    rw [List.flatMap_cons, List.length_append, List.length_cons, Nat.succ_mul]
    omega

theorem Bounded.held_le {messages : Reassembler} (h : Bounded messages) :
    messages.held ≤ MAX_PENDING * MAX_MESSAGE :=
  (length_flatMap_le h.size).trans (Nat.mul_le_mul_right _ h.count)

/-- A message goes on with what it has so far, or it has nothing so far. -/
theorem check_bounded {messages : Reassembler} {frame : Frame} {plain : Bytes}
    (h : Bounded messages) (hcheck : messages.check frame plain = .ok ()) :
    let (_, payload, _) := (messages.pending.lookup frame.sequence).getD (frame.command, [], 0)
    payload.length + plain.length ≤ MAX_MESSAGE := by
  unfold check at hcheck
  rw [h.maxMessage] at hcheck
  cases hlookup : messages.pending.lookup frame.sequence with
  | none =>
    rw [hlookup] at hcheck
    simp only at hcheck
    show 0 + plain.length ≤ MAX_MESSAGE
    split at hcheck
    · cases hcheck
    · omega
  | some entry =>
    obtain ⟨command, payload, count⟩ := entry
    rw [hlookup] at hcheck
    simp only at hcheck
    show payload.length + plain.length ≤ MAX_MESSAGE
    split at hcheck
    · cases hcheck
    · split at hcheck
      · cases hcheck
      · omega

/-- There is room for a fragment that does not end its message. -/
theorem check_room {messages : Reassembler} {frame : Frame} {plain : Bytes}
    (h : Bounded messages) (hcheck : messages.check frame plain = .ok ())
    (hfinal : frame.isFinal = false) :
    (messages.pending.erase frame.sequence).entries.length + 1 ≤ MAX_PENDING := by
  have hkeys : (messages.pending.erase frame.sequence).entries.length =
      (messages.pending.keys.erase frame.sequence).length := by
    rw [← AList.keys_erase, AList.keys, List.keys, List.length_map]
  have hlength : messages.pending.keys.length = messages.pending.entries.length := by
    rw [AList.keys, List.keys, List.length_map]
  have hcount := h.count
  rw [hkeys]
  by_cases hmem : frame.sequence ∈ messages.pending.keys
  · have hpos := List.length_pos_of_mem hmem
    rw [List.length_erase_of_mem hmem]
    omega
  · rw [List.erase_of_not_mem hmem]
    have hnone : messages.pending.lookup frame.sequence = none :=
      AList.lookup_eq_none.mpr hmem
    unfold check at hcheck
    simp only [hnone, h.maxMessage, h.maxPending, hfinal] at hcheck
    split at hcheck
    · cases hcheck
    · split at hcheck
      · cases hcheck
      · rename_i hroom
        simp only [Bool.not_false, true_and] at hroom
        omega

/-- A message that is pushed is within the limits, and so is what is kept. -/
theorem push_bounded {messages rest : Reassembler} {frame : Frame} {plain : Bytes}
    {message : Option Message} (h : Bounded messages)
    (hpush : messages.push frame plain = .ok (message, rest)) :
    Bounded rest ∧ ∀ m, message = some m → m.payload.length ≤ MAX_MESSAGE := by
  obtain ⟨u, hcheck, hpush⟩ := except_bind_eq_ok.mp hpush
  have hsize := check_bounded h hcheck
  have hsublist : (messages.pending.erase frame.sequence).entries.Sublist
      messages.pending.entries := List.kerase_sublist _ _
  rcases hentry : (messages.pending.lookup frame.sequence).getD (frame.command, [], 0) with
    ⟨command, payload, count⟩
  simp only [hentry] at hpush hsize
  cases hfinal : frame.isFinal with
  | true =>
    simp only [hfinal, if_true] at hpush
    cases Except.ok.inj hpush
    refine ⟨⟨h.maxMessage, h.maxPending, hsublist.length_le.trans h.count,
      fun entry hmem => h.size entry (hsublist.subset hmem)⟩, ?_⟩
    intro m hm
    cases hm
    rw [List.length_append]
    exact hsize
  | false =>
    have hroom := check_room h hcheck hfinal
    simp only [hfinal] at hpush
    cases Except.ok.inj hpush
    refine ⟨⟨h.maxMessage, h.maxPending, ?_, ?_⟩, fun m hm => by cases hm⟩
    · rw [AList.entries_insert, List.length_cons]
      exact hroom
    · intro entry hmem
      rw [AList.entries_insert] at hmem
      rcases List.mem_cons.mp hmem with rfl | hmem
      · rw [List.length_append]
        exact hsize
      · exact h.size entry (hsublist.subset hmem)

end Reassembler

/-! ## The session -/

namespace Session

variable {primitives : Primitives}

/-- The received bytes that the session holds. -/
def held (s : Session) : Nat :=
  s.connection.held + match s.state with
    | .ready r => r.messages.held
    | _ => 0

/-- The bytes of the message or of the stream that a call hands over. -/
def Answer.size : Answer → Nat
  | .message (some m) => m.payload.length
  | .synchronization sync => sync.payload.length
  | _ => 0

/-- The session keeps its limits.  Where it can still read, its connection is settled. -/
structure Bounded (s : Session) : Prop where
  held : s.connection.held ≤ Connection.LIMIT
  settled : s.state ≠ .failed → s.connection.Settled
  messages : ∀ r, s.state = .ready r → r.messages.Bounded

theorem Bounded.held_le {s : Session} (h : Bounded s) :
    s.held ≤ Connection.LIMIT + MAX_PENDING * MAX_MESSAGE := by
  have hconnection := h.held
  unfold Session.held
  cases hstate : s.state with
  | ready r =>
    have hmessages := (h.messages r hstate).held_le
    simp only
    omega
  | _ =>
    simp only
    omega

/-- The session is in a method that can fail. -/
def Underway (s : Session) : Prop := s.connection.Settled ∧ s.state = .failed

/-- The method has failed. -/
def Ended (s : Session) : Prop := s.connection.held ≤ Connection.LIMIT ∧ s.state = .failed

theorem Underway.ended {s : Session} (h : Underway s) : Ended s := ⟨h.1.held, h.2⟩

theorem Ended.bounded {s : Session} (h : Ended s) : Bounded s where
  held := h.1
  settled := fun hstate => absurd h.2 hstate
  messages := fun r hstate => by
    rw [h.2] at hstate
    cases hstate

theorem underway_onConnection {α : Type} {x : Connection.Method α}
    (h : Act.Ensures Connection.Settled x (fun _ => Connection.Settled)
      fun _ d => d.held ≤ Connection.LIMIT) :
    Act.Ensures Underway (onConnection x) (fun _ => Underway) fun _ => Ended := by
  intro s hs
  have hrun := h s.connection hs.1
  unfold onConnection Act.zoom
  rcases hx : x s.connection with ⟨e | a, d⟩
  · rw [hx] at hrun
    exact ⟨hrun, hs.2⟩
  · rw [hx] at hrun
    exact ⟨hrun, hs.2⟩

theorem underway_ofExcept {α : Type} (x : Result α) :
    Act.Ensures Underway (Act.ofExcept x) (fun _ => Underway) fun _ => Ended :=
  .ofExcept (fun _ _ _ h => h) fun _ _ _ h => h.ended

theorem underway_nextSequence :
    Act.Ensures Underway (onConnection (Act.step Connection.nextSequence)) (fun _ => Underway)
      fun _ => Ended :=
  underway_onConnection fun _ h => ⟨h.reads, h.maxPayload, h.buffer, h.held⟩

/-! ### Authentication -/

theorem exchangeHello_underway (entropy : Entropy) (handshake : Handshake) :
    Act.Ensures Underway (exchangeHello entropy handshake) (fun _ => Underway) fun _ => Ended :=
  underway_nextSequence.bind fun _ => (underway_ofExcept _).bind fun _ =>
    (underway_ofExcept _).bind fun _ => (underway_ofExcept _).bind fun _ =>
    (underway_onConnection (Connection.send_settled _)).bind fun _ =>
    (underway_onConnection (Connection.startupReply_settled _ _)).bind fun _ =>
    (underway_ofExcept _).bind fun _ => .pure fun _ h => h

theorem exchangeAuth_underway (entropy : Entropy) (handshake : Handshake) :
    Act.Ensures Underway (exchangeAuth primitives entropy handshake) (fun _ => Underway)
      fun _ => Ended :=
  underway_nextSequence.bind fun _ => (underway_ofExcept _).bind fun _ =>
    (underway_ofExcept _).bind fun _ => (underway_ofExcept _).bind fun _ =>
    (underway_onConnection (Connection.send_settled _)).bind fun _ =>
    (underway_onConnection (Connection.startupReply_settled _ _)).bind fun _ =>
    (underway_ofExcept _).bind fun _ => .pure fun _ h => h

theorem runAuthenticate_bounded (entropy : Entropy) (login : Nat) (password : String)
    (clientBuild : Nat) :
    Act.Ensures Underway (runAuthenticate primitives entropy login password clientBuild)
      (fun _ => Bounded) fun _ => Bounded := by
  refine Act.Ensures.weaken (E := fun _ => Ended) ?_ (fun _ _ h => h) fun _ _ h => h.bounded
  refine (exchangeHello_underway _ _).bind fun handshake => ?_
  refine (exchangeAuth_underway _ _).bind fun handshake => ?_
  refine Act.Ensures.bind (Q := fun _ => Underway) (.modify fun _ h => h) fun _ => ?_
  intro s hs
  split_ifs
  · exact hs.ended
  · refine Act.Ensures.bind (underway_ofExcept _) (fun build => ?_) s hs
    refine Act.Ensures.bind (Q := fun _ => Bounded) (.modify fun s h => ?_) fun _ =>
      .pure fun _ h => h
    exact
      { held := h.1.held
        settled := fun _ => h.1
        messages := fun r hstate => by cases hstate }

theorem authenticate_bounded (entropy : Entropy) (login : Nat) (password : String)
    (clientBuild : Nat) :
    Act.Preserves Bounded (authenticate primitives entropy login password clientBuild) := by
  intro s hs
  unfold authenticate
  cases hstate : s.state with
  | connected =>
    have hsettled : s.connection.Settled := hs.settled (by rw [hstate]; exact nofun)
    exact runAuthenticate_bounded entropy login password clientBuild { s with state := .failed }
      ⟨hsettled, rfl⟩
  | authenticated handshake login clientBuild => exact hs
  | ready r => exact hs
  | failed => exact hs

/-! ### Synchronization -/

/-- What the loop of a synchronization comes to within the limits. -/
def SyncBounded (result : Result (SessionCipher × Bytes) × Connection) : Prop :=
  match result with
  | (.ok synced, c) => c.Settled ∧ synced.2.length ≤ MAX_MESSAGE
  | (.error _, c) => c.held ≤ Connection.LIMIT

theorem syncLoop_bounded (sequence : UInt16) (rx : SessionCipher) {c : Connection}
    (hc : c.Settled) : SyncBounded ((syncLoop sequence).run (rx, [], c)) := by
  refine Loop.run_rule (syncLoop sequence) (P := fun s result =>
    s.2.2.Settled → s.2.1.length ≤ MAX_MESSAGE → SyncBounded result) ?_ ?_ (rx, [], c) hc
    (Nat.zero_le _)
  · rintro ⟨rx, payload, c⟩ result hstop h hlength
    have hframe := Connection.frameBefore_settled c h
    simp only [syncLoop, syncRound] at hstop
    split at hstop
    · rename_i e d hread
      rw [hread] at hframe
      cases Sum.inr.inj hstop
      exact hframe
    · rename_i frame d hread
      rw [hread] at hframe
      split at hstop
      · cases hstop
      · split at hstop
        · cases Sum.inr.inj hstop
          exact hframe.held
        · split at hstop
          · cases Sum.inr.inj hstop
            exact hframe.held
          · split at hstop
            · cases Sum.inr.inj hstop
              exact hframe.held
            · split at hstop
              · cases Sum.inr.inj hstop
                refine ⟨hframe, ?_⟩
                simp only at hlength ⊢
                rw [List.length_append]
                omega
              · cases hstop
  · rintro ⟨rx, payload, c⟩ ⟨rx', payload', d⟩ result hnext hrest h hlength
    have hframe := Connection.frameBefore_settled c h
    simp only [syncLoop, syncRound] at hnext
    split at hnext
    · cases hnext
    · rename_i frame d' hread
      rw [hread] at hframe
      split at hnext
      · cases Sum.inl.inj hnext
        exact hrest hframe hlength
      · split at hnext
        · cases hnext
        · split at hnext
          · cases hnext
          · split at hnext
            · cases hnext
            · split at hnext
              · cases hnext
              · cases Sum.inl.inj hnext
                refine hrest hframe ?_
                simp only at hlength ⊢
                rw [List.length_append]
                omega

theorem exchangeSync_underway (profile : LoginProfile) (unixSeconds : Option Nat)
    (handshake : Handshake) (values : LoginValues) :
    Act.Ensures Underway (exchangeSync primitives profile unixSeconds handshake values)
      (fun synced s => Underway s ∧ synced.2.2.length ≤ MAX_MESSAGE) fun _ => Ended := by
  refine (underway_ofExcept _).bind fun seconds => underway_nextSequence.bind fun sequence =>
    (underway_ofExcept _).bind fun sent => (underway_onConnection (Connection.send_settled _)).bind
    fun _ => (underway_ofExcept _).bind fun key => (underway_ofExcept _).bind fun rx => ?_
  refine Act.Ensures.bind
    (Q := fun synced s => Underway s ∧ synced.2.length ≤ MAX_MESSAGE) ?_ fun synced =>
    .pure fun _ h => h
  intro s hs
  have hrun := syncLoop_bounded sequence rx hs.1
  unfold onConnection Act.zoom
  simp only
  generalize (syncLoop sequence).run (rx, [], s.connection) = result at hrun
  obtain ⟨result, d⟩ := result
  cases result with
  | error e => exact ⟨hrun, hs.2⟩
  | ok synced => exact ⟨⟨hrun.1, hs.2⟩, hrun.2⟩

theorem runSynchronize_bounded (profile : LoginProfile) (unixSeconds : Option Nat)
    (handshake : Handshake) (login : Nat) (values : LoginValues) (recordBuild : Int) :
    Act.Ensures Underway
      (runSynchronize primitives profile unixSeconds handshake login values recordBuild)
      (fun sync s => Bounded s ∧ sync.payload.length ≤ MAX_MESSAGE) fun _ => Bounded := by
  refine Act.Ensures.weaken (E := fun _ => Ended) ?_ (fun _ _ h => h) fun _ _ h => h.bounded
  refine (exchangeSync_underway profile unixSeconds handshake values).bind fun synced => ?_
  refine Act.Ensures.bind (Q := fun _ s => Underway s ∧ synced.2.2.length ≤ MAX_MESSAGE)
    (.ofExcept (fun _ _ _ h => h) fun _ _ _ h => h.1.ended) fun state => ?_
  intro s hs
  split_ifs
  · exact hs.1.ended
  · refine Act.Ensures.bind (P := fun s => Underway s ∧ synced.2.2.length ≤ MAX_MESSAGE)
      (Q := fun _ s => Underway s ∧ synced.2.2.length ≤ MAX_MESSAGE)
      (.ofExcept (fun _ _ _ h => h) fun _ _ _ h => h.1.ended) (fun sent => ?_) s hs
    refine Act.Ensures.bind (Q := fun _ s => Underway s ∧ synced.2.2.length ≤ MAX_MESSAGE)
      (.ofExcept (fun _ _ _ h => h) fun _ _ _ h => h.1.ended) fun readOnly => ?_
    refine Act.Ensures.bind (Q := fun _ s => Bounded s ∧ synced.2.2.length ≤ MAX_MESSAGE)
      (.modify fun s h => ⟨?_, h.2⟩) fun _ => .pure fun _ h => h
    exact
      { held := h.1.1.held
        settled := fun _ => h.1.1
        messages := fun r hstate => by
          cases State.ready.inj hstate
          exact Reassembler.bounded_default }

theorem synchronize_bounded (profile : LoginProfile) (unixSeconds : Option Nat) :
    Act.Ensures Bounded (synchronize primitives profile unixSeconds)
      (fun sync s => Bounded s ∧ sync.payload.length ≤ MAX_MESSAGE) fun _ => Bounded := by
  intro s hs
  unfold synchronize
  cases hstate : s.state with
  | authenticated handshake login clientBuild =>
    have hsettled : s.connection.Settled := hs.settled (by rw [hstate]; exact nofun)
    simp only
    cases prepareSync profile handshake login clientBuild with
    | error e => exact hs
    | ok prepared =>
      exact runSynchronize_bounded profile unixSeconds handshake login prepared.1 prepared.2
        { s with state := .failed } ⟨hsettled, rfl⟩
  | connected => exact hs
  | ready r => exact hs
  | failed => exact hs

/-! ### Requests and messages -/

theorem sendEncoded_bounded (command : UInt8) (payload : Bytes) (flags : UInt16) :
    Act.Preserves Bounded (sendEncoded command payload flags) := by
  refine .of_snd fun s hs => ?_
  have houtcome := sendEncoded_outcome command payload flags s
  generalize (sendEncoded command payload flags s).1 = result at houtcome
  generalize (sendEncoded command payload flags s).2 = t at houtcome ⊢
  cases houtcome with
  | refused e => exact hs
  | lost r e hstate hallowed hwrite =>
    exact ⟨hs.held, fun h => absurd rfl h, fun r hr => by cases hr⟩
  | accepted r hstate hlength hallowed =>
    have hsettled := hs.settled (by rw [hstate]; exact nofun)
    refine ⟨hs.held,
      fun _ => ⟨hsettled.reads, hsettled.maxPayload, hsettled.buffer, hsettled.held⟩, ?_⟩
    intro t ht
    cases State.ready.inj ht
    exact hs.messages r hstate

theorem sendTrade_bounded (record : Bytes) :
    Act.Preserves Bounded (sendTrade primitives record) := by
  refine .of_snd fun s hs => ?_
  rcases sendTrade_outcome primitives record s with
    ⟨e, hrefused⟩ | ⟨r, key, payload, -, -, -, -, hsent⟩
  · rw [hrefused]
    exact hs
  · rw [hsent]
    exact (sendEncoded_bounded _ _ _).snd hs

theorem foldl_update_messages (updates : List AccountState) (r : Ready) :
    (updates.foldl Ready.update r).messages = r.messages := by
  induction updates generalizing r with
  | nil => rfl
  | cons update updates ih => exact ih (Ready.update r update)

/-- A frame that is received keeps the limits. -/
theorem receive_bounded {r t : Ready} {frame : Frame} {message : Option Message}
    (h : r.messages.Bounded) (hreceive : receive r frame = .ok (message, t)) :
    t.messages.Bounded ∧ ∀ m, message = some m → m.payload.length ≤ MAX_MESSAGE := by
  obtain ⟨bytes, -, hreceive⟩ := except_bind_eq_ok.mp hreceive
  obtain ⟨⟨completed, messages⟩, hpush, hreceive⟩ := except_bind_eq_ok.mp hreceive
  obtain ⟨hbounded, hsize⟩ := Reassembler.push_bounded h hpush
  cases completed with
  | none =>
    cases Except.ok.inj hreceive
    exact ⟨hbounded, fun m hm => by cases hm⟩
  | some m =>
    obtain ⟨u, haccept, hreceive⟩ := except_bind_eq_ok.mp hreceive
    cases Except.ok.inj hreceive
    refine ⟨?_, hsize⟩
    obtain ⟨-, rfl⟩ | ⟨updates, -, -, -, rfl⟩ := acceptMessage_cases haccept
    · exact hbounded
    · rw [foldl_update_messages]
      exact hbounded

/-- What a poll comes to within the limits. -/
def PollBounded (result : Result (Option Message × Ready) × Connection) : Prop :=
  match result with
  | (.ok (message, r), c) => c.Settled ∧ r.messages.Bounded ∧
      ∀ m, message = some m → m.payload.length ≤ MAX_MESSAGE
  | (.error _, c) => c.held ≤ Connection.LIMIT

theorem pollLoop_bounded {r : Ready} {c : Connection} (hc : c.Settled) (hr : r.messages.Bounded) :
    PollBounded (pollLoop.run (r, c)) := by
  refine Loop.run_rule pollLoop
    (P := fun s result => s.2.Settled → s.1.messages.Bounded → PollBounded result) ?_ ?_ (r, c)
    hc hr
  · rintro ⟨r, c⟩ result hstop hc hr
    have hpolled := Connection.pollFrame_settled c hc
    simp only [pollLoop] at hstop
    split at hstop
    · rename_i e d hpoll
      rw [hpoll] at hpolled
      cases Sum.inr.inj hstop
      exact hpolled
    · rename_i d hpoll
      rw [hpoll] at hpolled
      cases Sum.inr.inj hstop
      exact ⟨hpolled, hr, fun m hm => by cases hm⟩
    · rename_i frame d hpoll
      rw [hpoll] at hpolled
      split at hstop
      · cases Sum.inr.inj hstop
        exact hpolled.held
      · cases hstop
      · rename_i m t hreceive
        cases Sum.inr.inj hstop
        exact ⟨hpolled, receive_bounded hr hreceive⟩
  · rintro ⟨r, c⟩ ⟨t, d⟩ result hnext hrest hc hr
    have hpolled := Connection.pollFrame_settled c hc
    simp only [pollLoop] at hnext
    split at hnext
    · cases hnext
    · cases hnext
    · rename_i frame d' hpoll
      rw [hpoll] at hpolled
      split at hnext
      · cases hnext
      · rename_i u hreceive
        cases Sum.inl.inj hnext
        exact hrest hpolled (receive_bounded hr hreceive).1
      · cases hnext

theorem pollMessage_bounded :
    Act.Ensures Bounded pollMessage
      (fun message s => Bounded s ∧ ∀ m, message = some m → m.payload.length ≤ MAX_MESSAGE)
      fun _ => Bounded := by
  intro s hs
  unfold pollMessage
  cases hstate : s.state with
  | ready r =>
    have hrun := pollLoop_bounded (hs.settled (by rw [hstate]; exact nofun))
      (hs.messages r hstate)
    simp only
    generalize pollLoop.run (r, s.connection) = result at hrun
    obtain ⟨result, c⟩ := result
    cases result with
    | error e => exact ⟨hrun, fun h => absurd rfl h, fun r hr => by cases hr⟩
    | ok polled =>
      obtain ⟨hsettled, hmessages, hsize⟩ := hrun
      refine ⟨⟨hsettled.held, fun _ => hsettled, ?_⟩, hsize⟩
      intro t ht
      cases State.ready.inj ht
      exact hmessages
  | connected => exact hs
  | authenticated handshake login clientBuild => exact hs
  | failed => exact hs

/-! ### Runs -/

/-- A method that hands over what is within the limits. -/
theorem answered_bounded {α : Type} {answer : α → Answer} {x : Method α} {P : α → Prop}
    (hx : Act.Ensures Bounded x (fun a s => Bounded s ∧ P a) fun _ => Bounded) {s : Session}
    (h : Bounded s) (hsize : ∀ a, P a → (answer a).size ≤ MAX_MESSAGE) :
    Bounded (answered answer x s).2 ∧
      ∀ result, (answered answer x s).1 = .ok result → result.size ≤ MAX_MESSAGE := by
  have hbounded := hx s h
  unfold answered
  rcases hrun : x s with ⟨e | a, t⟩
  · rw [hrun] at hbounded
    exact ⟨hbounded, fun result hresult => by cases hresult⟩
  · rw [hrun] at hbounded
    refine ⟨hbounded.1, fun result hresult => ?_⟩
    cases hresult
    exact hsize a hbounded.2

/-- A method that hands over no bytes. -/
theorem answered_preserves {α : Type} {answer : α → Answer} {x : Method α}
    (hx : Act.Preserves Bounded x) {s : Session} (h : Bounded s)
    (hsize : ∀ a, (answer a).size = 0) :
    Bounded (answered answer x s).2 ∧
      ∀ result, (answered answer x s).1 = .ok result → result.size ≤ MAX_MESSAGE :=
  answered_bounded (P := fun _ => True) (hx.weaken (fun _ _ h => ⟨h, trivial⟩) fun _ _ h => h) h
    fun a _ => hsize a ▸ Nat.zero_le _

/-- One call keeps the limits, and what it hands over is within them. -/
theorem run_bounded {s : Session} (h : Bounded s) (call : Call) :
    Bounded (call.run primitives s).2 ∧
      ∀ answer, (call.run primitives s).1 = .ok answer → answer.size ≤ MAX_MESSAGE := by
  cases call with
  | authenticate entropy login password clientBuild =>
    exact answered_preserves (authenticate_bounded entropy login password clientBuild) h
      fun _ => rfl
  | synchronize profile unixSeconds =>
    exact answered_bounded (synchronize_bounded profile unixSeconds) h fun _ => id
  | sendRequest command payload =>
    exact answered_preserves (sendEncoded_bounded command payload FINAL) h fun _ => rfl
  | sendTrade record => exact answered_preserves (sendTrade_bounded record) h fun _ => rfl
  | subscribe symbolIds =>
    exact answered_preserves (sendEncoded_bounded command.SYMBOLS _ FINAL) h fun _ => rfl
  | pollMessage =>
    refine answered_bounded pollMessage_bounded h fun message hsize => ?_
    cases message with
    | none => exact Nat.zero_le _
    | some m => exact hsize m rfl
  | nextMessage =>
    have hnext : Act.Ensures Bounded nextMessage
        (fun m s => Bounded s ∧ m.payload.length ≤ MAX_MESSAGE) fun _ => Bounded := by
      refine pollMessage_bounded.bind fun message => ?_
      cases message with
      | none => exact .fail fun _ h => h.1
      | some m => exact .pure fun _ h => ⟨h.1, h.2 m rfl⟩
    exact answered_bounded hnext h fun _ => id

theorem after_bounded {s : Session} (h : Bounded s) (calls : List Call) :
    Bounded (after primitives calls s) := by
  induction calls generalizing s with
  | nil => exact h
  | cons call calls ih => exact ih (run_bounded h call).1

/-- Whatever a server sends, and however the calls of a session follow each other: the received
bytes that the session holds stay within the limits of its three buffers, and so does each stream
and each message that it hands over. -/
theorem memory_bounded {reads : List SocketRead} (hreads : Connection.Reads reads)
    (writes : List (Option String)) (calls : List Call) :
    let s := after primitives calls (connect reads writes)
    s.held ≤ Connection.LIMIT + MAX_PENDING * MAX_MESSAGE ∧
      ∀ (call : Call) (answer : Answer), (call.run primitives s).1 = .ok answer →
        answer.size ≤ MAX_MESSAGE := by
  intro s
  have hstart : Bounded (connect reads writes) :=
    { held := Nat.zero_le _
      settled := fun _ =>
        ⟨hreads, rfl, show 0 < HEADER_LEN + Connection.MAX_PAYLOAD by decide, Nat.zero_le _⟩
      messages := fun r hstate => by cases hstate }
  have hbounded : Bounded s := after_bounded hstart calls
  exact ⟨hbounded.held_le, fun call => (run_bounded hbounded call).2⟩

/-- A login, and behind it the beginning of a frame of the greatest size. -/
def stalledReads : List SocketRead :=
  sampleReads ++ [.data (50 :: LittleEndian.encode 4 Connection.MAX_PAYLOAD ++ [0, 0, 0, 0, 7])]

theorem memory_bounded_stalledReads :
    (after samplePrimitives (sampleLogin false ++ [.pollMessage]) (connect stalledReads [])).held ≤
      Connection.LIMIT + MAX_PENDING * MAX_MESSAGE := by
  have hcost : ∀ read ∈ stalledReads, read.cost ≤ Connection.READ_BUFFER + 1 := by decide +kernel
  exact (memory_bounded (fun bytes hbytes => Nat.le_of_succ_le_succ (hcost _ hbytes)) [] _).1

example : (after samplePrimitives (sampleLogin false ++ [.pollMessage])
    (connect stalledReads [])).held = 10 := by decide +kernel

end Session

end Mt5Open.Native

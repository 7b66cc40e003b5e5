import Mt5Open.Native.SyncRequest
import Mt5Open.Session.Receive
import Mt5Open.Session.Transmit

/-!
# A login with an honest broker

The broker is a machine of its own: it knows the account, waits for one frame
after the other, and answers each of them.  Nothing here is translated from the
client.  A login that talks to it completes, whatever chunks the answers arrive
in, and leaves the ciphers of the two ends in the same states.

There are three groups.

* What the client reads.  `Steady` says that frames are to come and that no read
  is idle before they are there, and each step of a login takes its frame and
  keeps the rest.
* The broker.  `Broker.answer` is one step, and `Broker.run` is what a list of
  frames makes it send.
* The login.  Each half of it is one lemma about the client and one about the
  broker.
-/

namespace Mt5Open.Native

open Lib

/-! ## What the client reads -/

namespace Connection

/-- These frames are to come, and others behind them.  No read is idle before the frames are there:
those behind the first idle read bring nothing but the others. -/
structure Steady (c : Connection) (frames later : List Frame) : Prop where
  delivers : c.Delivers (frames ++ later)
  drained : ∀ frame : Frame, frame.payload.length ≤ MAX_PAYLOAD →
    ∀ tail, c.parser.buffer ≠ frame.pack ++ tail
  busy : ∃ early late, c.reads = early ++ late ∧ (∀ read ∈ early, read ≠ .idle) ∧
    (late.flatMap SocketRead.bytes).length ≤ (later.flatMap Frame.pack).length

/-- A connection that has read nothing, whose first reads are not idle and bring the frames. -/
theorem steady_of_stream {c : Connection} {frames later : List Frame} {early late : List SocketRead}
    (hreads : c.reads = early ++ late) (hsound : ∀ read ∈ early ++ late, read.sound = true)
    (hbusy : ∀ read ∈ early, read ≠ .idle) (hmaxPayload : c.parser.maxPayload = MAX_PAYLOAD)
    (hlimit : ∀ frame ∈ frames ++ later, frame.payload.length ≤ MAX_PAYLOAD)
    (hpending : c.pending = []) (hbuffer : c.parser.buffer = [])
    (hearly : frames.flatMap Frame.pack <+: early.flatMap SocketRead.bytes)
    (hstream : (early ++ late).flatMap SocketRead.bytes = (frames ++ later).flatMap Frame.pack) :
    c.Steady frames later where
  delivers := delivers_of_stream (hreads ▸ hsound) hmaxPayload hlimit hpending hbuffer
    (hreads ▸ hstream)
  drained := by
    intro frame _ tail hwhole
    rw [hbuffer] at hwhole
    cases hwhole
  busy := by
    refine ⟨early, late, hreads, hbusy, ?_⟩
    have hlength := congrArg List.length hstream
    simp only [List.flatMap_append, List.length_append] at hlength
    have := hearly.length_le
    omega

/-- A round that goes on takes a chunk. -/
theorem pollRound_eq_inl {c d : Connection} (h : pollRound c = .inl d) :
    ∃ bytes reads frames parser, c.pending = [] ∧ c.reads = .data bytes :: reads ∧
      c.parser.feed bytes = (.ok frames, parser) ∧
      d = { c with reads, parser, pending := frames } := by
  unfold pollRound at h
  split at h
  all_goals try cases h
  rename_i byte bytes reads hpending hreads
  split at h
  · cases h
  · rename_i frames parser hfeed
    exact ⟨byte :: bytes, reads, frames, parser, hpending, hreads, hfeed, (Sum.inl.inj h).symm⟩

/-- A round gives a frame at hand. -/
theorem pollRound_eq_some {c d : Connection} {frame : Frame}
    (h : pollRound c = .inr (.ok (some frame), d)) : d.reads = c.reads ∧ d.parser = c.parser := by
  unfold pollRound at h
  split at h
  all_goals try cases h
  · exact ⟨rfl, rfl⟩
  · split at h
    · cases h
    · cases h

/-- A round gives no frame when an idle read is next, or when nothing is left. -/
theorem pollRound_eq_none {c d : Connection} (h : pollRound c = .inr (.ok none, d)) :
    c.pending = [] ∧ ∀ read reads, c.reads = read :: reads → read = .idle := by
  unfold pollRound at h
  split at h
  · cases h
  · rename_i hpending hreads
    exact ⟨hpending, fun read reads hcons => by rw [hreads] at hcons; cases hcons⟩
  · rename_i reads hpending hreads
    refine ⟨hpending, ?_⟩
    intro read others hcons
    rw [hreads] at hcons
    exact (List.cons.inj hcons).1.symm
  · cases h
  · cases h
  · split at h
    · cases h
    · cases h

namespace Steady

variable {c : Connection} {frame : Frame} {frames later : List Frame}

/-- Where nothing but the other frames is left to read, the next frame is whole in the buffer. -/
theorem pack_prefix_buffer (h : c.Delivers (frame :: frames ++ later)) (hpending : c.pending = [])
    (hlate : (c.reads.flatMap SocketRead.bytes).length ≤ (later.flatMap Frame.pack).length) :
    frame.pack <+: c.parser.buffer := by
  obtain ⟨others, hothers, hstream, -⟩ := h.stream
  rw [hpending, List.nil_append] at hothers
  rw [← hothers, List.cons_append, List.flatMap_cons, List.flatMap_append] at hstream
  have hlength := congrArg List.length hstream
  simp only [List.length_append] at hlength
  refine List.prefix_of_prefix_length_le (List.prefix_append _ _)
    (hstream ▸ List.prefix_append c.parser.buffer _) ?_
  omega

/-- The reads behind the first one are split as before. -/
theorem busy_of_cons {read : SocketRead} {reads : List SocketRead} {most : Nat}
    (h : ∃ early late, read :: reads = early ++ late ∧ (∀ read ∈ early, read ≠ .idle) ∧
      (late.flatMap SocketRead.bytes).length ≤ most) :
    ∃ early late, reads = early ++ late ∧ (∀ read ∈ early, read ≠ .idle) ∧
      (late.flatMap SocketRead.bytes).length ≤ most := by
  obtain ⟨early, late, hreads, hbusy, hlate⟩ := h
  cases early with
  | nil =>
    refine ⟨[], reads, rfl, fun read hread => absurd hread List.not_mem_nil, ?_⟩
    rw [List.nil_append] at hreads
    rw [← hreads, List.flatMap_cons, List.length_append] at hlate
    omega
  | cons read early =>
    exact ⟨early, late, (List.cons.inj hreads).2,
      fun other hother => hbusy other (List.mem_cons_of_mem _ hother), hlate⟩

/-- A round goes on, or gives the next frame. -/
theorem pollRound (h : c.Steady (frame :: frames) later) :
    (∃ d, pollRound c = .inl d ∧ d.Steady (frame :: frames) later) ∨
      ∃ d, Connection.pollRound c = .inr (.ok (some frame), d) ∧ d.Steady frames later := by
  rcases pollRound_delivers h.delivers with ⟨d, hnext, hdelivers, -⟩ | ⟨result, hstop, hpolled⟩
  · obtain ⟨bytes, reads, got, parser, -, hcons, hfeed, hd⟩ := pollRound_eq_inl hnext
    have hmax := h.delivers.maxPayload
    refine Or.inl ⟨d, hnext, hdelivers, ?_, ?_⟩
    · intro first hfirst tail
      rw [hd]
      exact FrameParser.feed_left (by rw [hmax]; decide) hfeed (by rw [hmax]; exact hfirst) tail
    · have hbusy := h.busy
      rw [hcons] at hbusy
      rw [hd]
      exact busy_of_cons hbusy
  · cases hpolled with
    | frame first rest d hframes hdelivers hle =>
      obtain ⟨rfl, rfl⟩ := List.cons.inj hframes
      obtain ⟨hreads, hparser⟩ := pollRound_eq_some hstop
      exact Or.inr ⟨d, hstop, hdelivers, hparser ▸ h.drained, hreads ▸ h.busy⟩
    | idle d hdelivers hless hle =>
      exfalso
      obtain ⟨hpending, hidle⟩ := pollRound_eq_none hstop
      obtain ⟨early, late, hreads, hbusy, hlate⟩ := h.busy
      have hnone : early = [] := by
        cases early with
        | nil => rfl
        | cons read early => exact absurd (hidle read _ hreads) (hbusy read List.mem_cons_self)
      rw [hnone, List.nil_append] at hreads
      obtain ⟨tail, htail⟩ := pack_prefix_buffer h.delivers hpending (hreads ▸ hlate)
      exact h.drained frame (h.delivers.limit frame List.mem_cons_self) tail htail.symm

/-- The next frame is there. -/
theorem pollFrame (h : c.Steady (frame :: frames) later) :
    ∃ d, pollFrame c = (.ok (some frame), d) ∧ d.Steady frames later := by
  refine Loop.run_rule pollLoop (P := fun c r => c.Steady (frame :: frames) later →
    ∃ d, r = (.ok (some frame), d) ∧ d.Steady frames later) ?_ ?_ c h
  · intro c r hbody hsteady
    rcases hsteady.pollRound with ⟨d, hnext, -⟩ | ⟨d, hstop, hd⟩
    · cases hbody.symm.trans hnext
    · exact ⟨d, Sum.inr.inj (hbody.symm.trans hstop), hd⟩
  · intro c t r hbody hrest hsteady
    rcases hsteady.pollRound with ⟨d, hnext, hd⟩ | ⟨d, hstop, -⟩
    · cases hbody.symm.trans hnext
      exact hrest hd
    · cases hbody.symm.trans hstop

theorem frameBefore (h : c.Steady (frame :: frames) later) :
    ∃ d, frameBefore c = (.ok frame, d) ∧ d.Steady frames later := by
  obtain ⟨d, hpoll, hd⟩ := h.pollFrame
  exact ⟨d, by rw [frameBefore_apply, hpoll], hd⟩

/-- A frame that the client sends does not change what it reads. -/
theorem transmitted (h : c.Steady frames later) (sent : Frame) :
    (c.transmitted sent).Steady frames later where
  delivers :=
    { reads := h.delivers.reads
      maxPayload := h.delivers.maxPayload
      limit := h.delivers.limit
      stream := h.delivers.stream }
  drained := h.drained
  busy := h.busy

end Steady

/-- The frame is the reply to a startup request, with this plain text. -/
structure Replies (frame : Frame) (command : UInt8) (sequence : UInt16) (plain : Bytes) :
    Prop where
  command_eq : frame.command = command
  sequence_eq : frame.sequence = sequence
  final : frame.isFinal = true
  uncompressed : frame.isCompressed = false
  payload_eq : frame.payload = startupEncryptDefault plain

theorem startupDecryptDefault_startupEncryptDefault (data : Bytes) :
    startupDecryptDefault (startupEncryptDefault data) = data := by
  have hback := (startupDecrypt_undoes STARTUP_KEY).run (0, 0) data
  unfold startupDecryptDefault startupEncryptDefault
  rw [startupDecryptFrom_eq_run, startupEncryptFrom_eq_run, hback]

theorem Steady.startupReply {c : Connection} {frame : Frame} {frames later : List Frame}
    {command : UInt8} {sequence : UInt16} {plain : Bytes} (h : c.Steady (frame :: frames) later)
    (hreply : Replies frame command sequence plain) :
    ∃ d, startupReply command sequence c = (.ok plain, d) ∧ d.Steady frames later ∧
      Quiet c d := by
  obtain ⟨d, hframe, hd⟩ := h.frameBefore
  have hquiet := frameBefore_quiet c
  rw [hframe] at hquiet
  refine ⟨d, ?_, hd, hquiet⟩
  have hrefused : ¬(frame.command ≠ command ∨ frame.sequence ≠ sequence ∨ !frame.isFinal ∨
      frame.isCompressed) := by
    simp [hreply.command_eq, hreply.sequence_eq, hreply.final, hreply.uncompressed]
  rw [show Connection.startupReply command sequence c = _ from Act.bind_of_ok hframe,
    if_neg hrefused, hreply.payload_eq, startupDecryptDefault_startupEncryptDefault]
  rfl

end Connection

/-! ## The broker -/

/-- A part of the synchronization stream.  `compressed` says that the broker wraps it. -/
structure Portion where
  bytes : Bytes
  compressed : Bool
  deriving DecidableEq, Repr

/-- What the broker sends while it synchronizes, but for the last portion. -/
inductive Streamed where
  | ping
  | portion (portion : Portion)
  deriving DecidableEq, Repr

namespace Portion

/-- The bytes as they are enciphered. -/
def plain (portion : Portion) : Result Bytes :=
  if portion.compressed then makeCompressedPayload portion.bytes else .ok portion.bytes

/-- The frame with the enciphered bytes. -/
def frame (portion : Portion) (sequence : UInt16) (last : Bool) (payload : Bytes) : Frame where
  command := command.ACCOUNT_STATE
  sequence := sequence
  flags := (if last then FINAL else 0) ||| (if portion.compressed then COMPRESSED else 0)
  payload := payload

theorem isFinal_frame (portion : Portion) (sequence : UInt16) (last : Bool) (payload : Bytes) :
    (portion.frame sequence last payload).isFinal = last := by
  have hflags : ∀ last compressed : Bool,
      (((if last then FINAL else 0) ||| (if compressed then COMPRESSED else 0)) &&& FINAL != 0) =
        last := by decide
  exact hflags _ _

theorem isCompressed_frame (portion : Portion) (sequence : UInt16) (last : Bool)
    (payload : Bytes) : (portion.frame sequence last payload).isCompressed =
      portion.compressed := by
  have hflags : ∀ last compressed : Bool,
      (((if last then FINAL else 0) ||| (if compressed then COMPRESSED else 0)) &&& COMPRESSED != 0)
        = compressed := by decide
  exact hflags _ _

/-- A portion that has room is unwrapped. -/
theorem inflate_plain {portion : Portion} {plain : Bytes} (h : portion.plain = .ok plain)
    {maxOutput : Nat} (hlength : portion.bytes.length ≤ maxOutput) (sequence : UInt16)
    (last : Bool) (payload : Bytes) :
    Session.inflate (portion.frame sequence last payload) plain maxOutput = .ok portion.bytes := by
  unfold Session.inflate
  rw [isCompressed_frame]
  unfold Portion.plain at h
  by_cases hcompressed : portion.compressed
  · rw [if_pos hcompressed] at h ⊢
    exact decompressPayload_makeCompressedPayload h hlength
  · rw [if_neg hcompressed] at h ⊢
    exact congrArg _ (Except.ok.inj h).symm

end Portion

/-- The bytes of the whole stream. -/
def streamBytes (last : Portion) : List Streamed → Bytes
  | [] => last.bytes
  | .ping :: rest => streamBytes last rest
  | .portion portion :: rest => portion.bytes ++ streamBytes last rest

/-- The frames of the stream, and the cipher behind them.  Pings are not enciphered. -/
def streamFrames (sequence : UInt16) (last : Portion) :
    SessionCipher → List Streamed → Result (List Frame × SessionCipher)
  | cipher, [] => do
    let plain ← last.plain
    return ([last.frame sequence true (cipher.encrypt plain).1], (cipher.encrypt plain).2)
  | cipher, .ping :: rest => do
    let (frames, cipher) ← streamFrames sequence last cipher rest
    return (⟨command.PING, 0, FINAL, []⟩ :: frames, cipher)
  | cipher, .portion portion :: rest => do
    let plain ← portion.plain
    let (frames, behind) ← streamFrames sequence last (cipher.encrypt plain).2 rest
    return (portion.frame sequence false (cipher.encrypt plain).1 :: frames, behind)

/-- A broker, what it knows of an account and what it answers. -/
structure Broker where
  login : Nat
  password : String
  helloReply : Bytes
  authReply : Bytes
  front : List Streamed
  last : Portion

/-- What a broker has seen of a login.  `rx` is its cipher for what the client
sends and `tx` the one for what it sends itself. -/
inductive Stage where
  | listening
  | challenged (clientBuild : Nat) (challenge : Bytes)
  | trusted (clientBuild : Nat) (challenge : Bytes) (rx tx : SessionCipher)
  | synchronized (rx tx : SessionCipher)

namespace Broker

/-- The synchronization stream. -/
def stream (broker : Broker) : Bytes := streamBytes broker.last broker.front

/-- A reply in the startup cipher. -/
def reply (request : Frame) (plain : Bytes) : Frame where
  command := request.command
  sequence := request.sequence
  flags := FINAL
  payload := startupEncryptDefault plain

theorem replies_reply (request : Frame) (plain : Bytes) :
    Connection.Replies (reply request plain) request.command request.sequence plain where
  command_eq := rfl
  sequence_eq := rfl
  final := by
    show (FINAL &&& FINAL != 0) = true
    decide
  uncompressed := by
    show (FINAL &&& COMPRESSED != 0) = false
    decide
  payload_eq := rfl

/-- The cipher of the session that the broker means to open. -/
def sessionCipher (primitives : Primitives) (broker : Broker) : Result SessionCipher := do
  let result ← parseAuthResult broker.authReply
  let (sessionKey, _) ←
    Handshake.deriveKeys primitives broker.login broker.password (none, none) result.tlvs
  let sessionKey ← Handshake.orError sessionKey "no session key"
  SessionCipher.new sessionKey

/-- The entries of a synchronization request carry the answers to the programs
of the authentication result. -/
def Answered (broker : Broker) (result : AuthResult) (clientBuild : Nat)
    (challenge : Bytes) (answer28 answer35 : UInt64) (items : List (UInt8 × Bytes)) : Prop :=
  (valueOf 88 items).map (unwrap28 broker.login clientBuild (buildAsU32 result.serverBuild)
      challenge) = some answer28 ∧
    (valueOf 134 items).map (unwrap35 broker.login clientBuild (buildAsU32 result.serverBuild)
      challenge) =
        if Modern clientBuild (buildAsU32 result.serverBuild) then some answer35 else none

instance (broker : Broker) (result : AuthResult) (clientBuild : Nat) (challenge : Bytes)
    (answer28 answer35 : UInt64) (items : List (UInt8 × Bytes)) :
    Decidable (broker.Answered result clientBuild challenge answer28 answer35 items) :=
  inferInstanceAs (Decidable (_ ∧ _))

/-- A frame of the client: it must name the login, respond to the challenge, and
bring the answers to both programs in the session cipher. -/
def answer (primitives : Primitives) (broker : Broker) (request : Frame) :
    Stage → Result (List Frame × Stage)
  | .listening => do
    let challenge ← parseChallenge broker.helloReply
    let plain := startupDecryptDefault request.payload
    if request.command = command.HELLO ∧ slice plain 6 8 = LittleEndian.encode 8 broker.login then
      return ([reply request broker.helloReply],
        .challenged (LittleEndian.decode (slice plain 2 2)) challenge.challenge)
    else reject "no hello of this login"
  | .challenged clientBuild challenge => do
    let cipher ← broker.sessionCipher primitives
    if request.command = command.AUTH ∧
        slice (startupDecryptDefault request.payload) 2 16 =
          challengeResponse broker.login broker.password challenge then
      return ([reply request broker.authReply], .trusted clientBuild challenge cipher cipher)
    else reject "no response to the challenge"
  | .trusted clientBuild challenge rx tx => do
    let result ← parseAuthResult broker.authReply
    let answer28 ← LoginProfile.answer result 28 .tag28
    let answer35 ← LoginProfile.answer result 35 .tag35
    let items ← parseTlvs (rx.decrypt request.payload).1
    let (frames, tx) ← streamFrames request.sequence broker.last tx broker.front
    if request.command = command.ACCOUNT_STATE ∧
        broker.Answered result clientBuild challenge answer28 answer35 items then
      return (frames, .synchronized (rx.decrypt request.payload).2 tx)
    else reject "no answers to the programs"
  | .synchronized .. => reject "nothing to wait for"

/-- What the broker sends while it takes these frames. -/
def run (primitives : Primitives) (broker : Broker) :
    List Frame → Stage → Result (List Frame × Stage)
  | [], stage => .ok ([], stage)
  | request :: requests, stage => do
    let (answers, stage) ← broker.answer primitives request stage
    let (others, stage) ← broker.run primitives requests stage
    return (answers ++ others, stage)

theorem run_nil (primitives : Primitives) (broker : Broker) (stage : Stage) :
    broker.run primitives [] stage = .ok ([], stage) := rfl

theorem run_cons {primitives : Primitives} {broker : Broker} {request : Frame}
    {requests answers others : List Frame} {stage next last : Stage}
    (hanswer : broker.answer primitives request stage = .ok (answers, next))
    (hothers : broker.run primitives requests next = .ok (others, last)) :
    broker.run primitives (request :: requests) stage = .ok (answers ++ others, last) := by
  apply except_bind_eq_ok.mpr
  refine ⟨(answers, next), hanswer, ?_⟩
  exact except_bind_eq_ok.mpr ⟨(others, last), hothers, rfl⟩

end Broker

/-! ## The synchronization stream -/

section Stream

variable {sequence : UInt16} {last : Portion}

/-- A portion of the stream is taken, wrapped or not. -/
theorem syncRound_portion {portion : Portion} {final : Bool} {rx : SessionCipher}
    {payload plain : Bytes} {c d : Connection} (hplain : portion.plain = .ok plain)
    (hlength : payload.length + portion.bytes.length ≤ MAX_MESSAGE)
    (hframe : c.frameBefore =
      (.ok (portion.frame sequence final (rx.encrypt plain).1), d)) :
    Session.syncRound sequence (rx, payload, c) =
      if final then .inr (.ok ((rx.encrypt plain).2, payload ++ portion.bytes), d)
      else .inl ((rx.encrypt plain).2, payload ++ portion.bytes, d) := by
  have hroom : portion.bytes.length ≤ MAX_MESSAGE - payload.length := by omega
  have hdecrypt : rx.decrypt (portion.frame sequence final (rx.encrypt plain).1).payload =
      (plain, (rx.encrypt plain).2) := SessionCipher.decrypt_encrypt rx plain
  have hping : ¬((portion.frame sequence final (rx.encrypt plain).1).command = command.PING ∧
      (portion.frame sequence final (rx.encrypt plain).1).payload = []) := by
    intro h
    exact absurd h.1 (show command.ACCOUNT_STATE ≠ command.PING by decide)
  have hthis : ¬((portion.frame sequence final (rx.encrypt plain).1).command ≠
      command.ACCOUNT_STATE ∨
      (portion.frame sequence final (rx.encrypt plain).1).sequence ≠ sequence) := by
    simp [Portion.frame]
  simp only [Session.syncRound, hframe]
  rw [if_neg hping, if_neg hthis, hdecrypt]
  simp only [Portion.inflate_plain hplain hroom, Portion.isFinal_frame]
  rw [if_neg (Nat.not_lt.mpr hroom)]

/-- The loop reads the whole stream, from any place in it. -/
theorem syncLoop_stream {front : List Streamed} {rx behind : SessionCipher} {payload : Bytes}
    {c : Connection} {frames rest later : List Frame}
    (hframes : streamFrames sequence last rx front = .ok (frames, behind))
    (hlength : payload.length + (streamBytes last front).length ≤ MAX_MESSAGE)
    (hsteady : c.Steady (frames ++ rest) later) :
    ∃ d, (Session.syncLoop sequence).run (rx, payload, c) =
        (.ok (behind, payload ++ streamBytes last front), d) ∧ d.Steady rest later := by
  induction front generalizing rx payload c frames with
  | nil =>
    obtain ⟨plain, hplain, hrest⟩ := except_bind_eq_ok.mp hframes
    cases hrest
    obtain ⟨d, hframe, hd⟩ := hsteady.frameBefore
    have hround := syncRound_portion hplain hlength hframe
    rw [if_pos rfl] at hround
    exact ⟨d, Loop.run_of_stop (Session.syncLoop sequence) hround, hd⟩
  | cons streamed front ih =>
    cases streamed with
    | ping =>
      obtain ⟨⟨others, cipher⟩, hothers, hrest⟩ := except_bind_eq_ok.mp hframes
      cases hrest
      obtain ⟨d, hframe, hd⟩ := hsteady.frameBefore
      have hround : (Session.syncLoop sequence).body (rx, payload, c) = .inl (rx, payload, d) := by
        show Session.syncRound sequence (rx, payload, c) = _
        simp [Session.syncRound, hframe]
      rw [Loop.run_of_next (Session.syncLoop sequence) hround]
      exact ih hothers hlength hd
    | portion portion =>
      obtain ⟨plain, hplain, hrest⟩ := except_bind_eq_ok.mp hframes
      obtain ⟨⟨others, cipher⟩, hothers, hrest⟩ := except_bind_eq_ok.mp hrest
      cases hrest
      rw [streamBytes, List.length_append] at hlength
      obtain ⟨d, hframe, hd⟩ := hsteady.frameBefore
      have hroom : payload.length + portion.bytes.length ≤ MAX_MESSAGE := by omega
      have hround := syncRound_portion hplain hroom hframe
      rw [if_neg Bool.false_ne_true] at hround
      have hbody : (Session.syncLoop sequence).body (rx, payload, c) = _ := hround
      rw [Loop.run_of_next (Session.syncLoop sequence) hbody, streamBytes, ← List.append_assoc]
      apply ih hothers _ hd
      rw [List.length_append]
      omega

/-- A stream within the message limit can be sent. -/
theorem streamFrames_total (sequence : UInt16) (rx : SessionCipher) (front : List Streamed)
    (hlength : (streamBytes last front).length ≤ MAX_MESSAGE) :
    ∃ sent, streamFrames sequence last rx front = .ok sent := by
  have hplain : ∀ portion : Portion, portion.bytes.length ≤ MAX_MESSAGE →
      ∃ plain, portion.plain = .ok plain := by
    intro portion hportion
    unfold Portion.plain makeCompressedPayload
    rw [if_neg (Nat.not_lt.mpr hportion)]
    split
    · exact ⟨_, rfl⟩
    · exact ⟨_, rfl⟩
  induction front generalizing rx with
  | nil =>
    obtain ⟨plain, hplain⟩ := hplain last hlength
    exact ⟨_, except_bind_eq_ok.mpr ⟨plain, hplain, rfl⟩⟩
  | cons streamed front ih =>
    cases streamed with
    | ping =>
      obtain ⟨sent, hsent⟩ := ih rx hlength
      exact ⟨_, except_bind_eq_ok.mpr ⟨sent, hsent, rfl⟩⟩
    | portion portion =>
      rw [streamBytes, List.length_append] at hlength
      obtain ⟨plain, hplain⟩ := hplain portion (by omega)
      obtain ⟨sent, hsent⟩ := ih (rx.encrypt plain).2 (by omega)
      exact ⟨_, except_bind_eq_ok.mpr ⟨plain, hplain, except_bind_eq_ok.mpr ⟨sent, hsent, rfl⟩⟩⟩

end Stream

/-! ## The login -/

/-- What the replies of a broker say, and that it fits the profile of the client. -/
structure Agreement (primitives : Primitives) (broker : Broker) (profile : LoginProfile)
    (clientBuild : Nat) where
  challenge : Challenge
  result : AuthResult
  sessionKey : Bytes
  tradeKey : Option (Vector UInt8 32)
  answers : UInt64 × UInt64
  state : SynchronizedState
  challenge_eq : parseChallenge broker.helloReply = .ok challenge
  challenged : challenge.status = 0
  result_eq : parseAuthResult broker.authReply = .ok result
  accepted : result.status = 0
  build_pos : 0 < result.serverBuild
  keys_eq : Handshake.deriveKeys primitives broker.login broker.password (none, none) result.tlvs =
    .ok (some sessionKey, tradeKey)
  key_ne : sessionKey ≠ []
  account_eq : profile.account.login = broker.login
  answers_eq : profile.answers clientBuild result = .ok answers
  environment : (utf16Bytes profile.environment).length + 2 < 2 ^ 31
  stream_length : broker.stream.length ≤ MAX_MESSAGE
  state_eq : parseSynchronizedState broker.stream result.secondaryBuild = .ok state
  login_eq : state.account.login = broker.login

namespace Agreement

variable {primitives : Primitives} {broker : Broker} {profile : LoginProfile} {clientBuild : Nat}
  (a : Agreement primitives broker profile clientBuild)

/-- The cipher that both ends start with. -/
def cipher : SessionCipher := .fresh a.sessionKey a.key_ne

theorem sessionCipher_eq : broker.sessionCipher primitives = .ok a.cipher :=
  except_bind_eq_ok.mpr ⟨a.result, a.result_eq, except_bind_eq_ok.mpr
    ⟨(some a.sessionKey, a.tradeKey), a.keys_eq, except_bind_eq_ok.mpr
      ⟨a.sessionKey, rfl, SessionCipher.new_of_ne a.key_ne⟩⟩⟩

/-- The handshake behind the challenge. -/
def challengedHandshake : Handshake :=
  { Handshake.new broker.login broker.password clientBuild with
    phase := .challengeReceived
    serverChallenge := some a.challenge.challenge }

/-- The handshake behind the authentication result. -/
def readyHandshake : Handshake :=
  { a.challengedHandshake with
    phase := .sessionKeysReady
    serverBuild := some a.result.serverBuild
    sessionKey := some a.sessionKey
    tradeKey := a.tradeKey
    sessionCipher := some a.cipher
    authResult := some a.result }

/-- The values that the client computes from the programs. -/
def values : LoginValues :=
  loginValueWrapper broker.login clientBuild (buildAsU32 a.result.serverBuild) a.challenge.challenge
    a.answers.1 a.answers.2

/-- The plain synchronization request. -/
def request (seconds : Int) : Bytes :=
  Handshake.syncBody primitives a.readyHandshake seconds a.values (some profile.environment)

/-- A frame that the socket takes. -/
theorem send_of_writeError {β : Type} {frame : Frame} {f : Unit → Session.Method β} {s t : Session}
    {b : β} (hwrite : s.connection.writeError = none)
    (h : f () { s with connection := s.connection.transmitted frame } = (.ok b, t)) :
    (Session.onConnection (Connection.send frame) >>= f)
      { s with connection := s.connection.nextSequence.2 } = (.ok b, t) := by
  apply Session.onConnection_bind_eq_ok.mpr
  refine ⟨(), s.connection.transmitted frame, ?_, h⟩
  show Connection.send frame s.connection.nextSequence.2 = _
  rw [Connection.send_nextSequence, hwrite]

section Exchanges

variable {entropy : Entropy} {s : Session} {reply : Frame} {rest later : List Frame}

theorem exchangeHello_steady {nonceByte : UInt8} {randomWord : UInt32}
    (hnonce : entropy.nonceByte = some nonceByte) (hword : entropy.randomWord = some randomWord)
    (hwrite : s.connection.writeError = none)
    (hreply : Connection.Replies reply command.HELLO s.connection.sequence broker.helloReply)
    (h : s.connection.Steady (reply :: rest) later) :
    ∃ d, Session.exchangeHello entropy (.new broker.login broker.password clientBuild) s =
        (.ok a.challengedHandshake, { s with connection := d }) ∧ d.Steady rest later ∧
      Connection.Quiet (s.connection.transmitted (makeHello broker.login s.connection.sequence
        clientBuild (some (hardwareId broker.login)) nonceByte randomWord.toNat)) d := by
  obtain ⟨d, hd, hsteady, hquiet⟩ := (h.transmitted (makeHello broker.login s.connection.sequence
    clientBuild (some (hardwareId broker.login)) nonceByte randomWord.toNat)).startupReply hreply
  refine ⟨d, ?_, hsteady, hquiet⟩
  apply Session.onConnection_bind_eq_ok.mpr
  refine ⟨_, _, rfl, ?_⟩
  apply Act.ofExcept_bind_eq_ok.mpr
  refine ⟨nonceByte, by rw [hnonce]; rfl, ?_⟩
  apply Act.ofExcept_bind_eq_ok.mpr
  refine ⟨randomWord, by rw [hword]; rfl, ?_⟩
  apply Act.ofExcept_bind_eq_ok.mpr
  refine ⟨_, rfl, ?_⟩
  apply send_of_writeError hwrite
  apply Session.onConnection_bind_eq_ok.mpr
  refine ⟨_, _, hd, ?_⟩
  apply Act.ofExcept_bind_eq_ok.mpr
  refine ⟨((), a.challengedHandshake), ?_, rfl⟩
  apply Act.within_eq_ok.mpr
  apply Handshake.expect_bind_eq_ok.mpr
  refine ⟨rfl, ?_⟩
  apply Handshake.orFail_bind_eq_ok.mpr
  refine ⟨a.challenge, a.challenge_eq, ?_⟩
  rw [if_neg (not_ne_iff.mpr a.challenged)]
  rfl

theorem exchangeAuth_steady {clientChallenge : Vector UInt8 16} {nonceWord : UInt16}
    (hchallenge : entropy.clientChallenge = some clientChallenge)
    (hword : entropy.nonceWord = some nonceWord) (hwrite : s.connection.writeError = none)
    (hreply : Connection.Replies reply command.AUTH s.connection.sequence broker.authReply)
    (h : s.connection.Steady (reply :: rest) later) :
    ∃ d, Session.exchangeAuth primitives entropy a.challengedHandshake s =
        (.ok a.readyHandshake, { s with connection := d }) ∧ d.Steady rest later ∧
      Connection.Quiet (s.connection.transmitted (makeAuth broker.login broker.password
        a.challenge.challenge s.connection.sequence clientChallenge.toList nonceWord.toNat none))
        d := by
  obtain ⟨d, hd, hsteady, hquiet⟩ := (h.transmitted (makeAuth broker.login broker.password
    a.challenge.challenge s.connection.sequence clientChallenge.toList nonceWord.toNat
    none)).startupReply hreply
  refine ⟨d, ?_, hsteady, hquiet⟩
  apply Session.onConnection_bind_eq_ok.mpr
  refine ⟨_, _, rfl, ?_⟩
  apply Act.ofExcept_bind_eq_ok.mpr
  refine ⟨clientChallenge, by rw [hchallenge]; rfl, ?_⟩
  apply Act.ofExcept_bind_eq_ok.mpr
  refine ⟨nonceWord, by rw [hword]; rfl, ?_⟩
  apply Act.ofExcept_bind_eq_ok.mpr
  refine ⟨_, rfl, ?_⟩
  apply send_of_writeError hwrite
  apply Session.onConnection_bind_eq_ok.mpr
  refine ⟨_, _, hd, ?_⟩
  apply Act.ofExcept_bind_eq_ok.mpr
  refine ⟨((), a.readyHandshake), ?_, rfl⟩
  apply Act.within_eq_ok.mpr
  apply Handshake.expect_bind_eq_ok.mpr
  refine ⟨rfl, ?_⟩
  apply Handshake.orFail_bind_eq_ok.mpr
  refine ⟨a.result, a.result_eq, ?_⟩
  have hzero := a.accepted
  have hpos := a.build_pos
  have hstatus : ¬(a.result.status ≠ 0 ∧ a.result.status ≠ 1003) := by omega
  rw [if_neg hstatus, if_neg (Int.not_le.mpr hpos)]
  apply Handshake.orFail_bind_eq_ok.mpr
  refine ⟨(some a.sessionKey, a.tradeKey), a.keys_eq, ?_⟩
  apply Handshake.orFail_bind_eq_ok.mpr
  refine ⟨a.sessionKey, rfl, ?_⟩
  apply Handshake.orFail_bind_eq_ok.mpr
  refine ⟨a.cipher, SessionCipher.new_of_ne a.key_ne, ?_⟩
  have hphase : (if a.result.status = 1003 then Phase.certificateRequired else .sessionKeysReady) =
      .sessionKeysReady := if_neg (by omega)
  show (Except.ok (), { a.challengedHandshake with
    sessionCipher := some a.cipher
    sessionKey := some a.sessionKey
    tradeKey := a.tradeKey
    serverBuild := some a.result.serverBuild
    phase := if a.result.status = 1003 then .certificateRequired else .sessionKeysReady
    authResult := some a.result }) = (Except.ok (), a.readyHandshake)
  rw [hphase]
  rfl

/-- The handshake behind the synchronization request. -/
def sentHandshake (seconds : Int) : Handshake :=
  { a.readyHandshake with
    sessionCipher := some (a.cipher.encrypt (a.request seconds)).2
    phase := .syncSent }

/-- The synchronization request over the connection. -/
def requestFrame (seconds : Int) (sequence : UInt16) : Frame where
  command := command.ACCOUNT_STATE
  sequence := sequence
  flags := FINAL
  payload := (a.cipher.encrypt (a.request seconds)).1

theorem exchangeSync_steady (seconds : Nat) {behind : SessionCipher} {frames : List Frame}
    (hwrite : s.connection.writeError = none)
    (hframes : streamFrames s.connection.sequence broker.last a.cipher broker.front =
      .ok (frames, behind))
    (h : s.connection.Steady (frames ++ rest) later) :
    ∃ d, Session.exchangeSync primitives profile (some seconds) a.readyHandshake a.values s =
        (.ok (a.sentHandshake seconds, behind, broker.stream), { s with connection := d }) ∧
      d.Steady rest later ∧
      Connection.Quiet (s.connection.transmitted (a.requestFrame seconds s.connection.sequence))
        d := by
  have hlength : ([] : Bytes).length + (streamBytes broker.last broker.front).length ≤
      MAX_MESSAGE := by
    have := a.stream_length
    show 0 + broker.stream.length ≤ MAX_MESSAGE
    omega
  obtain ⟨d, hd, hsteady⟩ := syncLoop_stream hframes hlength
    (h.transmitted (a.requestFrame seconds s.connection.sequence))
  have hquiet := Session.syncLoop_quiet s.connection.sequence
    (a.cipher, [], s.connection.transmitted (a.requestFrame seconds s.connection.sequence))
  rw [hd] at hquiet
  refine ⟨d, ?_, hsteady, hquiet⟩
  apply Act.ofExcept_bind_eq_ok.mpr
  refine ⟨seconds, rfl, ?_⟩
  apply Session.onConnection_bind_eq_ok.mpr
  refine ⟨_, _, rfl, ?_⟩
  apply Act.ofExcept_bind_eq_ok.mpr
  refine ⟨(a.requestFrame seconds s.connection.sequence, a.sentHandshake seconds), rfl, ?_⟩
  apply send_of_writeError hwrite
  apply Act.ofExcept_bind_eq_ok.mpr
  refine ⟨a.sessionKey, rfl, ?_⟩
  apply Act.ofExcept_bind_eq_ok.mpr
  refine ⟨a.cipher, SessionCipher.new_of_ne a.key_ne, ?_⟩
  apply Session.onConnection_bind_eq_ok.mpr
  exact ⟨_, _, hd, rfl⟩

end Exchanges

/-! ### The two halves of a login -/

section Login

variable {entropy : Entropy} {s : Session} {rest later : List Frame}

theorem writes_of_quiet {c d : Connection} {frame : Frame} (h : ∀ write ∈ c.writes, write = none)
    (hquiet : Connection.Quiet (c.transmitted frame) d) : ∀ write ∈ d.writes, write = none := by
  rw [hquiet.writes]
  intro write hwrite
  exact h write (List.mem_of_mem_tail hwrite)

/-- The client asks for its random bytes and gets them. -/
structure Random (entropy : Entropy) (nonceByte : UInt8) (randomWord : UInt32)
    (clientChallenge : Vector UInt8 16) (nonceWord : UInt16) : Prop where
  nonceByte_eq : entropy.nonceByte = some nonceByte
  randomWord_eq : entropy.randomWord = some randomWord
  clientChallenge_eq : entropy.clientChallenge = some clientChallenge
  nonceWord_eq : entropy.nonceWord = some nonceWord

variable {nonceByte : UInt8} {randomWord : UInt32} {clientChallenge : Vector UInt8 16}
  {nonceWord : UInt16}

/-- The two requests of an authentication from this sequence number on. -/
def requests (nonceByte : UInt8) (randomWord : UInt32) (clientChallenge : Vector UInt8 16)
    (nonceWord : UInt16) (sequence : UInt16) : List Frame :=
  [makeHello broker.login sequence clientBuild (some (hardwareId broker.login)) nonceByte
      randomWord.toNat,
    makeAuth broker.login broker.password a.challenge.challenge (Connection.successor sequence)
      clientChallenge.toList nonceWord.toNat none]

/-- The two replies. -/
def replies (broker : Broker) (sequence : UInt16) : List Frame :=
  [⟨command.HELLO, sequence, FINAL, startupEncryptDefault broker.helloReply⟩,
    ⟨command.AUTH, Connection.successor sequence, FINAL, startupEncryptDefault broker.authReply⟩]

theorem authenticate_steady (hstate : s.state = .connected)
    (hrandom : Random entropy nonceByte randomWord clientChallenge nonceWord)
    (hwrites : ∀ write ∈ s.connection.writes, write = none)
    (h : s.connection.Steady (replies broker s.connection.sequence ++ rest) later) :
    ∃ d, Session.authenticate primitives entropy broker.login broker.password clientBuild s =
        (.ok a.result.serverBuild,
          { connection := d
            state := .authenticated a.readyHandshake broker.login clientBuild
            summary := some a.result.summary }) ∧
      d.Steady rest later ∧ (∀ write ∈ d.writes, write = none) ∧
      d.sequence = Connection.successor (Connection.successor s.connection.sequence) ∧
      d.sent = s.connection.sent ++
        a.requests nonceByte randomWord clientChallenge nonceWord s.connection.sequence := by
  have hhello : Connection.Replies
      ⟨command.HELLO, s.connection.sequence, FINAL, startupEncryptDefault broker.helloReply⟩
      command.HELLO s.connection.sequence broker.helloReply :=
    Broker.replies_reply ⟨command.HELLO, s.connection.sequence, 0, []⟩ _
  obtain ⟨d, hd, hsteady, hquiet⟩ := a.exchangeHello_steady (s := { s with state := .failed })
    hrandom.nonceByte_eq hrandom.randomWord_eq (Connection.writeError_of_forall hwrites) hhello h
  have hsequence : d.sequence = Connection.successor s.connection.sequence := hquiet.sequence
  have hauth : Connection.Replies
      ⟨command.AUTH, Connection.successor s.connection.sequence, FINAL,
        startupEncryptDefault broker.authReply⟩ command.AUTH d.sequence broker.authReply :=
    hsequence ▸ Broker.replies_reply ⟨command.AUTH, d.sequence, 0, []⟩ _
  have hwrites' : ∀ write ∈ d.writes, write = none := writes_of_quiet hwrites hquiet
  obtain ⟨e, he, hsteady', hquiet'⟩ := a.exchangeAuth_steady
    (s := { s with connection := d, state := .failed }) hrandom.clientChallenge_eq
    hrandom.nonceWord_eq (Connection.writeError_of_forall hwrites') hauth hsteady
  refine ⟨e, ?_, hsteady', writes_of_quiet hwrites' hquiet', ?_, ?_⟩
  · unfold Session.authenticate
    rw [hstate]
    apply Act.bind_eq_ok.mpr
    refine ⟨_, _, hd, ?_⟩
    apply Act.bind_eq_ok.mpr
    refine ⟨_, _, he, rfl⟩
  · rw [hquiet'.sequence]
    show Connection.successor d.sequence = _
    rw [hsequence]
  · rw [hquiet'.sent]
    show d.sent ++ [_] = _
    rw [hquiet.sent]
    show (s.connection.sent ++ [_]) ++ [_] = _
    rw [List.append_assoc, hsequence]
    rfl

/-- The ready session of a login, with this cipher for what the broker sends. -/
def ready (seconds : Int) (behind : SessionCipher) : Ready where
  rx := behind
  tx := (a.cipher.encrypt (a.request seconds)).2
  tradeKey := a.tradeKey
  account := a.state.account
  readOnly := a.state.account.isReadOnly || profile.account.readOnly
  messages := .default

theorem prepareSync_eq :
    Session.prepareSync profile a.readyHandshake broker.login clientBuild =
      .ok (a.values, a.result.secondaryBuild) := by
  apply except_bind_eq_ok.mpr
  refine ⟨profile.account.mode, if_neg (not_ne_iff.mpr a.account_eq), ?_⟩
  apply except_bind_eq_ok.mpr
  refine ⟨a.result, rfl, ?_⟩
  apply except_bind_eq_ok.mpr
  exact ⟨a.answers, a.answers_eq, rfl⟩

theorem synchronize_steady {seconds : Nat} {behind : SessionCipher} {frames : List Frame}
    (hstate : s.state = .authenticated a.readyHandshake broker.login clientBuild)
    (hwrites : ∀ write ∈ s.connection.writes, write = none)
    (hframes : streamFrames s.connection.sequence broker.last a.cipher broker.front =
      .ok (frames, behind))
    (h : s.connection.Steady (frames ++ rest) later) :
    ∃ d, Session.synchronize primitives profile (some seconds) s =
        (.ok { account := a.state.account, state := a.state, payload := broker.stream },
          { s with connection := d, state := .ready (a.ready seconds behind) }) ∧
      d.Steady rest later ∧ (∀ write ∈ d.writes, write = none) ∧
      d.sequence = Connection.successor s.connection.sequence ∧
      d.sent = s.connection.sent ++ [a.requestFrame seconds s.connection.sequence] := by
  obtain ⟨d, hd, hsteady, hquiet⟩ := a.exchangeSync_steady (s := { s with state := .failed })
    seconds (Connection.writeError_of_forall hwrites) hframes h
  refine ⟨d, ?_, hsteady, writes_of_quiet hwrites hquiet, hquiet.sequence, hquiet.sent⟩
  unfold Session.synchronize
  rw [hstate]
  simp only [a.prepareSync_eq]
  apply Act.bind_eq_ok.mpr
  refine ⟨_, _, hd, ?_⟩
  apply Act.ofExcept_bind_eq_ok.mpr
  refine ⟨a.state, a.state_eq, ?_⟩
  rw [if_neg (not_ne_iff.mpr a.login_eq)]
  apply Act.ofExcept_bind_eq_ok.mpr
  refine ⟨((a.cipher.encrypt (a.request seconds)).2,
    { a.sentHandshake seconds with sessionCipher := none }), rfl, ?_⟩
  apply Act.ofExcept_bind_eq_ok.mpr
  refine ⟨profile.account.readOnly, ?_, rfl⟩
  apply except_bind_eq_ok.mpr
  exact ⟨profile.account.mode, if_neg (not_ne_iff.mpr a.account_eq), rfl⟩

end Login

/-! ### The broker takes the requests -/

section Requests

theorem answers_eq_ok {result : AuthResult} {answers : UInt64 × UInt64}
    (h : profile.answers clientBuild result = .ok answers) :
    clientBuild = CLIENT_BUILD ∧ LoginProfile.answer result 28 .tag28 = .ok answers.1 ∧
      LoginProfile.answer result 35 .tag35 = .ok answers.2 := by
  unfold LoginProfile.answers at h
  split at h
  · cases h
  · split at h
    · cases h
    · rename_i hbuilds
      obtain ⟨answer28, h28, h⟩ := except_bind_eq_ok.mp h
      obtain ⟨answer35, h35, h⟩ := except_bind_eq_ok.mp h
      cases h
      refine ⟨?_, h28, h35⟩
      by_contra hbuild
      exact hbuilds (Or.inl hbuild)

theorem length_challengeResponse (login : Nat) (password : String) (challenge : Bytes) :
    (challengeResponse login password challenge).length = 16 := by
  simp [challengeResponse, md5WithState]

theorem slices_makeHello (login build : Nat) (sequence : UInt16) (deviceId : Option Bytes)
    (nonceByte : UInt8) (randomWord : Nat) :
    let plain := startupDecryptDefault
      (makeHello login sequence build deviceId nonceByte randomWord).payload
    slice plain 2 2 = LittleEndian.encode 2 build ∧
      slice plain 6 8 = LittleEndian.encode 8 login := by
  intro plain
  have hplain : plain = nonceByte :: 0 :: (LittleEndian.encode 2 build ++
      LittleEndian.encode 2 0x514D ++ LittleEndian.encode 8 login ++
        deviceId.getD (hardwareId login) ++ LittleEndian.encode 4 randomWord) :=
    Connection.startupDecryptDefault_startupEncryptDefault _
  rw [hplain]
  constructor
  · simp [slice]
  · simp [slice, List.take_append, List.drop_append]

theorem slice_makeAuth (login : Nat) (password : String) (challenge : Bytes) (sequence : UInt16)
    (clientChallenge : Bytes) (nonceWord : Nat) :
    slice (startupDecryptDefault
      (makeAuth login password challenge sequence clientChallenge nonceWord none).payload) 2 16 =
      challengeResponse login password challenge := by
  have hplain : startupDecryptDefault
      (makeAuth login password challenge sequence clientChallenge nonceWord none).payload =
      LittleEndian.encode 2 nonceWord ++ challengeResponse login password challenge ++
        clientChallenge ++ [] :=
    Connection.startupDecryptDefault_startupEncryptDefault _
  have hlength := length_challengeResponse login password challenge
  rw [hplain]
  simp [slice, hlength]

theorem answer_hello (nonceByte : UInt8) (randomWord : UInt32) (sequence : UInt16) :
    broker.answer primitives (makeHello broker.login sequence clientBuild
        (some (hardwareId broker.login)) nonceByte randomWord.toNat) .listening =
      .ok ([⟨command.HELLO, sequence, FINAL, startupEncryptDefault broker.helloReply⟩],
        .challenged clientBuild a.challenge.challenge) := by
  obtain ⟨hbuild, hlogin⟩ := slices_makeHello broker.login clientBuild sequence
    (some (hardwareId broker.login)) nonceByte randomWord.toNat
  have hdecode : LittleEndian.decode (LittleEndian.encode 2 clientBuild) = clientBuild := by
    rw [(answers_eq_ok a.answers_eq).1]
    decide
  apply except_bind_eq_ok.mpr
  refine ⟨a.challenge, a.challenge_eq, ?_⟩
  rw [if_pos ⟨rfl, hlogin⟩, hbuild, hdecode]
  rfl

theorem answer_auth (clientChallenge : Vector UInt8 16) (nonceWord : UInt16) (sequence : UInt16) :
    broker.answer primitives (makeAuth broker.login broker.password a.challenge.challenge sequence
        clientChallenge.toList nonceWord.toNat none) (.challenged clientBuild
          a.challenge.challenge) =
      .ok ([⟨command.AUTH, sequence, FINAL, startupEncryptDefault broker.authReply⟩],
        .trusted clientBuild a.challenge.challenge a.cipher a.cipher) := by
  apply except_bind_eq_ok.mpr
  refine ⟨a.cipher, a.sessionCipher_eq, ?_⟩
  rw [if_pos ⟨rfl, slice_makeAuth ..⟩]
  rfl

theorem answer_request (seconds : Int) {sequence : UInt16} {behind : SessionCipher}
    {frames : List Frame}
    (hframes : streamFrames sequence broker.last a.cipher broker.front = .ok (frames, behind)) :
    broker.answer primitives (a.requestFrame seconds sequence)
        (.trusted clientBuild a.challenge.challenge a.cipher a.cipher) =
      .ok (frames, .synchronized (a.cipher.encrypt (a.request seconds)).2 behind) := by
  obtain ⟨-, h28, h35⟩ := answers_eq_ok a.answers_eq
  have hdecrypt : a.cipher.decrypt (a.requestFrame seconds sequence).payload =
      (a.request seconds, (a.cipher.encrypt (a.request seconds)).2) :=
    SessionCipher.decrypt_encrypt _ _
  have henvironment : (utf16Bytes ((some profile.environment).getD "")).length + 2 < 2 ^ 31 :=
    a.environment
  obtain ⟨items, hitems, hanswer28, hanswer35⟩ := syncRequest_answers (v := a.values) rfl
    henvironment
  apply except_bind_eq_ok.mpr
  refine ⟨a.result, a.result_eq, ?_⟩
  apply except_bind_eq_ok.mpr
  refine ⟨a.answers.1, h28, ?_⟩
  apply except_bind_eq_ok.mpr
  refine ⟨a.answers.2, h35, ?_⟩
  rw [hdecrypt]
  apply except_bind_eq_ok.mpr
  refine ⟨items, hitems, ?_⟩
  apply except_bind_eq_ok.mpr
  refine ⟨(frames, behind), hframes, ?_⟩
  exact if_pos ⟨rfl, hanswer28, hanswer35⟩

end Requests

/-! ### The whole login -/

/-- A login with an honest broker, over a socket that reads its replies in any chunks and
with any pings between the portions of the stream.  No read is idle until the replies and the
stream are there.  Both calls succeed, what is left to read is what the broker sends next, and
the broker, fed with what the client has sent, accepts every frame of it, sends just what the
client has read, and is in step with it. -/
theorem login_completes (seconds : Nat) {early late : List SocketRead}
    {writes : List (Option String)} {entropy : Entropy} {nonceByte : UInt8} {randomWord : UInt32}
    {clientChallenge : Vector UInt8 16} {nonceWord : UInt16} {frames rest : List Frame}
    {behind : SessionCipher}
    (hrandom : Random entropy nonceByte randomWord clientChallenge nonceWord)
    (hwrites : ∀ write ∈ writes, write = none)
    (hreads : ∀ read ∈ early ++ late, read.sound = true)
    (hbusy : ∀ read ∈ early, read ≠ .idle)
    (hframes : streamFrames 3 broker.last a.cipher broker.front = .ok (frames, behind))
    (hlimit : ∀ frame ∈ replies broker 1 ++ frames ++ rest,
      frame.payload.length ≤ Connection.MAX_PAYLOAD)
    (hearly : (replies broker 1 ++ frames).flatMap Frame.pack <+: early.flatMap SocketRead.bytes)
    (hbytes : (early ++ late).flatMap SocketRead.bytes =
      (replies broker 1 ++ frames ++ rest).flatMap Frame.pack) :
    ∃ t u r,
      Session.authenticate primitives entropy broker.login broker.password clientBuild
          (Session.connect (early ++ late) writes) = (.ok a.result.serverBuild, t) ∧
        Session.synchronize primitives profile (some seconds) t =
          (.ok { account := a.state.account, state := a.state, payload := broker.stream }, u) ∧
        u.state = .ready r ∧ u.connection.Delivers rest ∧ u.connection.sequence = 4 ∧
        (∀ write ∈ u.connection.writes, write = none) ∧
        r.rx = behind ∧ r.account = a.state.account ∧
        r.readOnly = (a.state.account.isReadOnly || profile.account.readOnly) ∧
        r.tradeKey = a.tradeKey ∧ r.messages = .default ∧
        broker.run primitives u.connection.sent .listening =
          .ok (replies broker 1 ++ frames, .synchronized r.tx r.rx) := by
  have hsteady : (Session.connect (early ++ late) writes).connection.Steady
      (replies broker 1 ++ frames) rest :=
    Connection.steady_of_stream rfl hreads hbusy rfl hlimit rfl rfl hearly hbytes
  obtain ⟨d, hauthenticate, hsteady, hwrites, hsequence, hsent⟩ :=
    a.authenticate_steady rfl hrandom hwrites hsteady
  rw [← List.append_nil frames] at hsteady
  obtain ⟨e, hsynchronize, hsteady, hwrites, hnext, hsent'⟩ := a.synchronize_steady
    (s := ⟨d, .authenticated a.readyHandshake broker.login clientBuild, some a.result.summary⟩)
    rfl hwrites (by rw [hsequence]; exact hframes) hsteady
  refine ⟨_, _, a.ready seconds behind, hauthenticate, hsynchronize, rfl, hsteady.delivers, ?_,
    hwrites, rfl, rfl, rfl, rfl, rfl, ?_⟩
  · show e.sequence = 4
    rw [hnext]
    show Connection.successor d.sequence = 4
    rw [hsequence]
    show Connection.successor (Connection.successor (Connection.successor 1)) = 4
    decide
  show broker.run primitives e.sent .listening = _
  rw [hsent', hsent, hsequence]
  have hlast := Broker.run_cons (a.answer_request seconds hframes) (Broker.run_nil ..)
  have hauth := Broker.run_cons (a.answer_auth clientChallenge nonceWord 2) hlast
  have hhello := Broker.run_cons (a.answer_hello nonceByte randomWord 1) hauth
  rw [List.append_nil] at hhello
  exact hhello

end Agreement

end Mt5Open.Native

import Mt5Open.Lib.Act
import Mt5Open.Lib.Loop
import Mt5Open.Native.Cipher
import Mt5Open.Native.Frame

/-!
# The connection

A connection sends frames over a socket and takes frames from what the socket
reads.  The socket is a script: what the coming reads give, and which of the
coming writes fail.  A read whose deadline passes is `idle`.

A read takes an item of the script and a frame takes bytes, so `fuel` goes down
with every frame, and a poll keeps what the connection has sent.
-/

namespace Mt5Open.Native

open Lib

/-- What a read from the socket gives. -/
inductive SocketRead where
  | data (bytes : Bytes)
  | idle
  | failed (error : String)
  deriving DecidableEq, Repr

namespace SocketRead

/-- One for the read, and one for each byte. -/
def cost : SocketRead → Nat
  | data bytes => bytes.length + 1
  | idle => 1
  | failed _ => 1

end SocketRead

/-- `sent` are the frames that the connection has handed to the socket.  An
item of `writes` is the error of a coming write, and `none` is a write that
succeeds.  Where `writes` ends, writes succeed, and where `reads` ends, reads
are idle. -/
structure Connection where
  reads : List SocketRead
  writes : List (Option String)
  sent : List Frame
  parser : FrameParser
  pending : List Frame
  sequence : UInt16
  deriving DecidableEq

namespace Connection

def MAX_PAYLOAD : Nat := 4 * 1024 * 1024

/-- `Connection::connect`, over a socket with this script. -/
def connect (reads : List SocketRead) (writes : List (Option String)) : Connection where
  reads := reads
  writes := writes
  sent := []
  parser := .new MAX_PAYLOAD
  pending := []
  sequence := 1

/-- A method of a connection. -/
abbrev Method := Act ProtocolError Connection

/-- The sequence number behind this one.  Zero is left out. -/
def successor (sequence : UInt16) : UInt16 := max (sequence + 1) 1

/-- `Connection::next_sequence`. -/
def nextSequence (c : Connection) : UInt16 × Connection :=
  (c.sequence, { c with sequence := successor c.sequence })

/-- The error of the next write, when it fails. -/
def writeError (c : Connection) : Option String := c.writes.head?.join

/-- `Connection::send`. -/
def send (frame : Frame) : Method Unit := fun c =>
  let d := { c with writes := c.writes.tail, sent := c.sent ++ [frame] }
  match c.writeError with
  | some e => (.error ⟨s!"write: {e}"⟩, d)
  | none => (.ok (), d)

/-- A round of `Connection::poll_frame`. -/
def pollRound (c : Connection) : Connection ⊕ (Result (Option Frame) × Connection) :=
  match c.pending, c.reads with
  | frame :: pending, _ => .inr (.ok (some frame), { c with pending })
  | [], [] => .inr (.ok none, c)
  | [], .idle :: reads => .inr (.ok none, { c with reads })
  | [], .failed e :: reads => .inr (reject s!"read: {e}", { c with reads })
  | [], .data [] :: reads => .inr (reject "server closed the connection", { c with reads })
  | [], .data (byte :: bytes) :: reads =>
    match c.parser.feed (byte :: bytes) with
    | (.error e, parser) => .inr (.error e, { c with reads, parser })
    | (.ok frames, parser) => .inl { c with reads, parser, pending := frames }

/-- The loop of `Connection::poll_frame`. -/
def pollLoop : Loop Connection (Result (Option Frame) × Connection) where
  body := pollRound
  measure c := c.reads.length
  decreases := by
    intro c t h
    unfold pollRound at h
    split at h
    all_goals try cases h
    rename_i byte bytes reads hpending hreads
    split at h
    · cases h
    · cases Sum.inl.inj h
      rw [hreads]
      exact Nat.lt_succ_self _

/-- `Connection::poll_frame`. -/
def pollFrame : Method (Option Frame) := fun c => pollLoop.run c

/-- `Connection::frame_before`. -/
def frameBefore : Method Frame := do
  match ← pollFrame with
  | some frame => pure frame
  | none => Act.fail ⟨"receive deadline exceeded"⟩

/-- `Connection::startup_reply`. -/
def startupReply (command : UInt8) (sequence : UInt16) : Method Bytes := do
  let frame ← frameBefore
  if frame.command ≠ command ∨ frame.sequence ≠ sequence ∨ !frame.isFinal ∨ frame.isCompressed then
    Act.fail ⟨"unexpected authentication reply frame"⟩
  else return startupDecryptDefault frame.payload

/-! ## Sending -/

/-- The connection behind a frame with its next sequence number. -/
def transmitted (c : Connection) (frame : Frame) : Connection :=
  { c with
    sequence := successor c.sequence
    writes := c.writes.tail
    sent := c.sent ++ [frame] }

/-- A socket that takes every frame takes the next one. -/
theorem writeError_of_forall {c : Connection} (h : ∀ write ∈ c.writes, write = none) :
    c.writeError = none := by
  unfold writeError
  cases hwrites : c.writes with
  | nil => rfl
  | cons write writes =>
    rw [h write (by rw [hwrites]; exact List.mem_cons_self)]
    rfl

theorem send_nextSequence (frame : Frame) (c : Connection) :
    send frame c.nextSequence.2 =
      match c.writeError with
      | some e => (.error ⟨s!"write: {e}"⟩, c.transmitted frame)
      | none => (.ok (), c.transmitted frame) := rfl

theorem send_nextSequence_eq_ok {frame : Frame} {c d : Connection}
    (h : send frame c.nextSequence.2 = (.ok (), d)) :
    c.writeError = none ∧ d = c.transmitted frame := by
  rw [send_nextSequence] at h
  split at h
  · cases h
  · rename_i hwrite
    cases h
    exact ⟨hwrite, rfl⟩

/-! ## What a poll leaves as it is -/

/-- `d` has sent what `c` has sent, and goes on sending as `c` does. -/
structure Quiet (c d : Connection) : Prop where
  sent : d.sent = c.sent
  writes : d.writes = c.writes
  sequence : d.sequence = c.sequence

namespace Quiet

theorem refl (c : Connection) : Quiet c c := ⟨rfl, rfl, rfl⟩

theorem trans {c d e : Connection} (h : Quiet c d) (k : Quiet d e) : Quiet c e :=
  ⟨k.sent.trans h.sent, k.writes.trans h.writes, k.sequence.trans h.sequence⟩

end Quiet

/-- What the reads to come, the buffer and the frames at hand can still give. -/
def fuel (c : Connection) : Nat :=
  (c.reads.map SocketRead.cost).sum + c.parser.buffer.length + c.pending.length

/-- The rounds of the parser take more bytes than they give frames. -/
theorem parse_length {maxPayload : Nat} {bytes rest : Bytes} {frames : List Frame}
    (h : parse maxPayload bytes = .ok (frames, rest)) :
    rest.length + frames.length ≤ bytes.length := by
  have hrule := Loop.run_rule (parseLoop maxPayload)
    (P := fun s r => ∀ frames rest, r = .ok (frames, rest) →
      rest.length + frames.length ≤ s.2.length + s.1.length) ?_ ?_ ([], bytes)
  · have := hrule frames rest h
    simpa using this
  · rintro ⟨done, bytes⟩ a hbody frames rest rfl
    simp only [parseLoop, parseRound] at hbody
    split at hbody
    · cases Sum.inr.inj hbody
      exact Nat.le_refl _
    · split at hbody
      · cases Sum.inr.inj hbody
      · split at hbody
        · cases Sum.inr.inj hbody
          exact Nat.le_refl _
        · cases hbody
  · rintro ⟨done, bytes⟩ t a hbody hrest frames rest ha
    have hlast := hrest frames rest ha
    have hround : t.2.length + t.1.length ≤ bytes.length + done.length := by
      simp only [parseLoop, parseRound] at hbody
      split at hbody
      · cases hbody
      · split at hbody
        · cases hbody
        · split at hbody
          · cases hbody
          · cases Sum.inl.inj hbody
            simp only [List.length_drop, List.length_append, List.length_singleton, HEADER_LEN] at *
            omega
    show rest.length + frames.length ≤ bytes.length + done.length
    omega

theorem feed_length {parser next : FrameParser} {data : Bytes} {frames : List Frame}
    (h : parser.feed data = (.ok frames, next)) :
    next.buffer.length + frames.length ≤ parser.buffer.length + data.length := by
  unfold FrameParser.feed at h
  split at h
  · rename_i got rest hparse
    cases h
    have := parse_length hparse
    rwa [List.length_append] at this
  · cases h

/-- A round that goes on takes a read. -/
theorem pollRound_next {c t : Connection} (h : pollRound c = .inl t) :
    t.fuel < c.fuel ∧ Quiet c t := by
  unfold pollRound at h
  split at h
  all_goals try cases h
  rename_i byte bytes reads hpending hreads
  split at h
  · cases h
  · rename_i frames parser hfeed
    cases Sum.inl.inj h
    have hlength := feed_length hfeed
    refine ⟨?_, ⟨rfl, rfl, rfl⟩⟩
    simp only [fuel, hreads, hpending, List.map_cons, List.sum_cons, SocketRead.cost,
      List.length_nil]
    omega

/-- A round that stops gives a frame at hand, or none. -/
theorem pollRound_stop {c t : Connection} {r : Result (Option Frame)}
    (h : pollRound c = .inr (r, t)) :
    Quiet c t ∧ ∀ frame, r = .ok (some frame) → t.fuel < c.fuel := by
  unfold pollRound at h
  split at h
  · rename_i frame pending hpending
    cases h
    refine ⟨⟨rfl, rfl, rfl⟩, fun _ _ => ?_⟩
    simp only [fuel, hpending, List.length_cons]
    omega
  · cases h
    exact ⟨Quiet.refl _, fun _ hr => nomatch hr⟩
  · cases h
    exact ⟨⟨rfl, rfl, rfl⟩, fun _ hr => nomatch hr⟩
  · cases h
    exact ⟨⟨rfl, rfl, rfl⟩, fun _ hr => nomatch hr⟩
  · cases h
    exact ⟨⟨rfl, rfl, rfl⟩, fun _ hr => nomatch hr⟩
  · split at h
    · cases h
      exact ⟨⟨rfl, rfl, rfl⟩, fun _ hr => nomatch hr⟩
    · cases h

/-- A poll sends nothing, and a frame costs fuel. -/
theorem pollFrame_spec (c : Connection) :
    Quiet c (pollFrame c).2 ∧
      ∀ frame, (pollFrame c).1 = .ok (some frame) → (pollFrame c).2.fuel < c.fuel := by
  refine Loop.run_rule pollLoop
    (P := fun c r => Quiet c r.2 ∧ ∀ frame, r.1 = .ok (some frame) → r.2.fuel < c.fuel) ?_ ?_ c
  · intro c r hbody
    exact pollRound_stop hbody
  · intro c t r hbody hrest
    obtain ⟨hfuel, hquiet⟩ := pollRound_next hbody
    exact ⟨hquiet.trans hrest.1, fun frame hr => Nat.lt_trans (hrest.2 frame hr) hfuel⟩

theorem pollFrame_quiet (c : Connection) : Quiet c (pollFrame c).2 := (pollFrame_spec c).1

theorem pollFrame_fuel {c d : Connection} {frame : Frame}
    (h : pollFrame c = (.ok (some frame), d)) : d.fuel < c.fuel := by
  have := (pollFrame_spec c).2 frame (by rw [h])
  rwa [h] at this

theorem frameBefore_apply (c : Connection) :
    frameBefore c =
      match pollFrame c with
      | (.ok (some frame), d) => (.ok frame, d)
      | (.ok none, d) => (.error ⟨"receive deadline exceeded"⟩, d)
      | (.error e, d) => (.error e, d) := by
  rcases h : pollFrame c with ⟨e | frame, d⟩
  · exact Act.bind_of_error h
  · rw [show frameBefore c = _ from Act.bind_of_ok h]
    cases frame with
    | none => rfl
    | some frame => rfl

theorem frameBefore_quiet (c : Connection) : Quiet c (frameBefore c).2 := by
  have h := pollFrame_quiet c
  rw [frameBefore_apply]
  split
  all_goals
    rename_i hpoll
    rw [hpoll] at h
    exact h

theorem frameBefore_fuel {c d : Connection} {frame : Frame} (h : frameBefore c = (.ok frame, d)) :
    d.fuel < c.fuel := by
  rw [frameBefore_apply] at h
  split at h
  · rename_i got e hpoll
    cases h
    exact pollFrame_fuel hpoll
  · cases h
  · cases h

end Connection

end Mt5Open.Native

import Mt5Open.Native.Frame

/-!
# Streams of frames

The bytes of a stream reach the parser in chunks.  `feeds` is a run of the parser
over chunks, and it keeps the outcome of every one of them.

What a run gives is what the loop gives on the whole stream: a round that took a
frame or met an error does the same with more bytes behind it, and only a round
that ran out of bytes can go on.  `parse_append` says this of the loop, and
`feeds_parse` of the runs.
-/

namespace Mt5Open.Native

open Lib

namespace FrameParser

/-- Assert the stream ended on a frame boundary (no dangling partial frame). -/
def finish (parser : FrameParser) : Result Unit :=
  if parser.buffer ≠ [] then
    reject s!"stream ends with {parser.buffer.length} incomplete frame bytes"
  else .ok ()

/-- The outcomes of the chunks, and the parser behind the last one. -/
def feeds (parser : FrameParser) : List Bytes → List (Result (List Frame)) × FrameParser
  | [] => ([], parser)
  | chunk :: chunks =>
    ((parser.feed chunk).1 :: ((parser.feed chunk).2.feeds chunks).1,
      ((parser.feed chunk).2.feeds chunks).2)

end FrameParser

/-- Some outcome is an error. -/
def MeetsError (outcomes : List (Result (List Frame))) : Prop := ∃ e, .error e ∈ outcomes

/-- The frames of the outcomes, in order. -/
def framesOf (outcomes : List (Result (List Frame))) : List Frame :=
  outcomes.flatMap fun outcome =>
    match outcome with
    | .ok frames => frames
    | .error _ => []

/-- A frame that a parser with this limit accepts: its length fits the header. -/
def Fits (maxPayload : Nat) (frame : Frame) : Prop :=
  frame.payload.length ≤ maxPayload ∧ frame.payload.length < 2 ^ 31

/-! ## One round -/

section Round

variable {maxPayload : Nat} {frames : List Frame} {bytes : Bytes}

/-- A round that takes a frame. -/
theorem parseRound_eq_next {t : List Frame × Bytes}
    (h : parseRound maxPayload (frames, bytes) = .inl t) :
    ∃ frame, Fits maxPayload frame ∧ bytes = frame.pack ++ t.2 ∧ t.1 = frames ++ [frame] := by
  simp only [parseRound] at h
  split at h
  · cases h
  rename_i hheader
  split at h
  · cases h
  rename_i hsize
  split at h
  · cases h
  rename_i hend
  cases Sum.inl.inj h
  simp only [HEADER_LEN] at hheader hend
  obtain ⟨hnonneg, hmax⟩ := not_or.mp hsize
  have hlength : (slice bytes 1 4).length = 4 := length_slice (by omega)
  obtain ⟨size, hsize⟩ := Int.eq_ofNat_of_zero_le (Int.not_lt.mp hnonneg)
  rw [hsize] at hmax hend ⊢
  rw [Int.toNat_natCast] at hmax hend ⊢
  have hpayload : (slice bytes HEADER_LEN size).length = size := length_slice (by
    simp only [HEADER_LEN]; omega)
  have hword : ∀ start, start + 2 ≤ bytes.length → LittleEndian.encode 2
      (UInt16.ofNat (LittleEndian.decode (slice bytes start 2))).toNat = slice bytes start 2 := by
    intro start hstart
    have hlength : (slice bytes start 2).length = 2 := length_slice hstart
    have hlt := LittleEndian.decode_lt (slice bytes start 2)
    rw [hlength] at hlt
    rw [UInt16.toNat_ofNat_of_lt' hlt]
    have hencode := LittleEndian.encode_decode (slice bytes start 2)
    rwa [hlength] at hencode
  have hdeclared : LittleEndian.encode 4 size = slice bytes 1 4 := by
    have hencode := LittleEndian.encode_decode (slice bytes 1 4)
    rwa [hlength, LittleEndian.decode_of_decodeInt hsize] at hencode
  refine ⟨_, ⟨?_, ?_⟩, ?_, rfl⟩
  · rw [hpayload]
    omega
  · rw [LittleEndian.decodeInt, hlength] at hsize
    have hlt := Int.bmod_lt (x := (LittleEndian.decode (slice bytes 1 4) : Int)) (m := 256 ^ 4)
      (by decide)
    rw [hpayload]
    omega
  · -- The header, the payload and the rest, one behind the other.
    have hcommand : bytes = bytes.headD 0 :: bytes.drop 1 := by
      cases bytes with
      | nil => exact absurd (by decide) hheader
      | cons first rest => rfl
    simp only [Frame.pack, hpayload, hdeclared, hword 5 (by omega), hword 7 (by omega),
      List.cons_append, List.append_assoc]
    rw [HEADER_LEN, slice_append_drop bytes 9 size, slice_append_drop bytes 7 2,
      slice_append_drop bytes 5 2, slice_append_drop bytes 1 4]
    exact hcommand

theorem parseRound_append_next {t : List Frame × Bytes} (more : Bytes)
    (h : parseRound maxPayload (frames, bytes) = .inl t) :
    parseRound maxPayload (frames, bytes ++ more) = .inl (t.1, t.2 ++ more) := by
  obtain ⟨frame, hfits, rfl, hframes⟩ := parseRound_eq_next h
  rw [List.append_assoc, parseRound_pack frames _ hfits.1 hfits.2, hframes]

theorem parseRound_append_error {e : ProtocolError} (more : Bytes)
    (h : parseRound maxPayload (frames, bytes) = .inr (.error e)) :
    parseRound maxPayload (frames, bytes ++ more) = .inr (.error e) := by
  simp only [parseRound] at *
  split at h
  · cases h
  · rename_i hheader
    have hlength : bytes.length ≤ (bytes ++ more).length := by
      rw [List.length_append]
      exact Nat.le_add_right _ _
    rw [if_neg (by omega), slice_append more (by simp only [HEADER_LEN] at hheader; omega)]
    split at h
    · rename_i hsize
      rw [if_pos hsize]
      exact h
    · split at h <;> cases h

theorem parseRound_eq_stop {p : List Frame × Bytes}
    (h : parseRound maxPayload (frames, bytes) = .inr (.ok p)) : p = (frames, bytes) := by
  simp only [parseRound] at h
  split at h
  · cases h
    rfl
  · split at h
    · cases h
    · split at h
      · cases h
        rfl
      · cases h

/-- Where the loop stops does not depend on the frames so far. -/
theorem parseRound_stop_frames {r : Result (List Frame × Bytes)} (others : List Frame)
    (h : parseRound maxPayload (frames, bytes) = .inr r) :
    parseRound maxPayload (others, bytes) = .inr (r.map fun _ => (others, bytes)) := by
  simp only [parseRound] at *
  split at h
  · rename_i hheader
    cases h
    rw [if_pos hheader]
    rfl
  rename_i hheader
  rw [if_neg hheader]
  split at h
  · rename_i hsize
    cases h
    rw [if_pos hsize]
    rfl
  rename_i hsize
  rw [if_neg hsize]
  split at h
  · rename_i hend
    cases h
    rw [if_pos hend]
    rfl
  · cases h

end Round

/-! ## The loop -/

section Loop

variable {maxPayload : Nat}

/-- The loop on more bytes goes on where it stopped, unless it met an error. -/
theorem parseLoop_append (more : Bytes) (s : List Frame × Bytes) :
    match (parseLoop maxPayload).run s with
    | .ok t => (parseLoop maxPayload).run (s.1, s.2 ++ more) =
        (parseLoop maxPayload).run (t.1, t.2 ++ more)
    | .error e => (parseLoop maxPayload).run (s.1, s.2 ++ more) = .error e := by
  refine (parseLoop maxPayload).run_rule (P := fun s r => match r with
    | .ok t => (parseLoop maxPayload).run (s.1, s.2 ++ more) =
        (parseLoop maxPayload).run (t.1, t.2 ++ more)
    | .error e => (parseLoop maxPayload).run (s.1, s.2 ++ more) = .error e) ?_ ?_ s
  · rintro ⟨frames, bytes⟩ r hstop
    cases r with
    | ok t =>
      rw [parseRound_eq_stop hstop]
    | error e => exact Loop.run_of_stop _ (parseRound_append_error more hstop)
  · rintro ⟨frames, bytes⟩ t r hnext hrest
    have hround : (parseLoop maxPayload).run (frames, bytes ++ more) =
        (parseLoop maxPayload).run (t.1, t.2 ++ more) :=
      Loop.run_of_next _ (parseRound_append_next more hnext)
    cases r with
    | ok u => exact hround.trans hrest
    | error e => exact hround.trans hrest

/-- The frames so far stand in front of those that the loop finds. -/
theorem parseLoop_frames (done : List Frame) (bytes : Bytes) :
    (parseLoop maxPayload).run (done, bytes) =
      (parse maxPayload bytes).map fun t => (done ++ t.1, t.2) := by
  have hrule := (parseLoop maxPayload).run_rule (P := fun s r => ∀ done,
    (parseLoop maxPayload).run (done ++ s.1, s.2) = r.map fun t => (done ++ t.1, t.2)) ?_ ?_
    ([], bytes)
  · have hdone := hrule done
    rwa [List.append_nil] at hdone
  · rintro ⟨frames, bytes⟩ r hstop done
    refine Loop.run_of_stop _ ((parseRound_stop_frames (done ++ frames) hstop).trans ?_)
    cases r with
    | ok t =>
      cases parseRound_eq_stop hstop
      rfl
    | error e => rfl
  · rintro ⟨frames, bytes⟩ t r hnext hrest done
    obtain ⟨frame, hfits, rfl, hframes⟩ := parseRound_eq_next hnext
    have hround : (parseLoop maxPayload).run (done ++ frames, frame.pack ++ t.2) =
        (parseLoop maxPayload).run (done ++ t.1, t.2) := by
      refine Loop.run_of_next _ ?_
      rw [hframes, ← List.append_assoc]
      exact parseRound_pack (done ++ frames) t.2 hfits.1 hfits.2
    exact hround.trans (hrest done)

/-- More bytes go behind those that were left over. -/
theorem parse_append (bytes more : Bytes) :
    parse maxPayload (bytes ++ more) = (do
      let (frames, rest) ← parse maxPayload bytes
      let (others, rest) ← parse maxPayload (rest ++ more)
      return (frames ++ others, rest)) := by
  have happend := @parseLoop_append maxPayload more ([], bytes)
  rw [← parse] at happend
  cases hparse : parse maxPayload bytes with
  | error e =>
    rw [hparse] at happend
    exact happend
  | ok t =>
    rw [hparse] at happend
    refine happend.trans ?_
    rw [parseLoop_frames]
    show _ = (parse maxPayload (t.2 ++ more)).bind _
    cases parse maxPayload (t.2 ++ more) <;> rfl

theorem parse_pack {frame : Frame} (h : Fits maxPayload frame) (rest : Bytes) :
    parse maxPayload (frame.pack ++ rest) =
      (parse maxPayload rest).map fun t => (frame :: t.1, t.2) :=
  (Loop.run_of_next _ (parseRound_pack [] rest h.1 h.2)).trans (parseLoop_frames [frame] rest)

theorem parse_nil : parse maxPayload [] = .ok ([], []) := Loop.run_of_stop _ rfl

theorem parse_frames {frames : List Frame} (h : ∀ frame ∈ frames, Fits maxPayload frame) :
    parse maxPayload (frames.flatMap Frame.pack) = .ok (frames, []) := by
  induction frames with
  | nil => exact parse_nil
  | cons frame frames ih =>
    rw [List.flatMap_cons, parse_pack (h frame List.mem_cons_self),
      ih fun f hf => h f (List.mem_cons_of_mem _ hf)]
    rfl

/-- What is parsed are the frames in front of the bytes that are left over, and in
those no round takes a frame. -/
theorem parse_eq_ok {bytes rest : Bytes} {frames : List Frame}
    (h : parse maxPayload bytes = .ok (frames, rest)) :
    (∀ frame ∈ frames, Fits maxPayload frame) ∧ bytes = frames.flatMap Frame.pack ++ rest ∧
      parse maxPayload rest = .ok ([], rest) := by
  have hrule := (parseLoop maxPayload).run_rule (P := fun s r => ∀ t, r = .ok t →
    ∃ found, t.1 = s.1 ++ found ∧ (∀ frame ∈ found, Fits maxPayload frame) ∧
      s.2 = found.flatMap Frame.pack ++ t.2 ∧ parse maxPayload t.2 = .ok ([], t.2)) ?_ ?_
    ([], bytes)
  · obtain ⟨found, hfound, hfits, hsplit, hrest⟩ := hrule _ h
    cases hfound
    exact ⟨hfits, hsplit, hrest⟩
  · rintro ⟨done, bytes⟩ r hstop t rfl
    cases parseRound_eq_stop hstop
    exact ⟨[], (List.append_nil done).symm, fun f hf => absurd hf List.not_mem_nil, rfl,
      Loop.run_of_stop _ (parseRound_stop_frames [] hstop)⟩
  · rintro ⟨done, bytes⟩ s r hnext hrest t ht
    obtain ⟨frame, hfits, rfl, hdone⟩ := parseRound_eq_next hnext
    obtain ⟨found, hfound, hall, hsplit, hleft⟩ := hrest t ht
    refine ⟨frame :: found, ?_, ?_, ?_, hleft⟩
    · rw [hfound, hdone, List.append_assoc]
      rfl
    · intro f hf
      rcases List.mem_cons.mp hf with rfl | hf
      · exact hfits
      · exact hall f hf
    · rw [List.flatMap_cons, List.append_assoc, ← hsplit]

end Loop

/-! ## Runs of the parser -/

namespace FrameParser

variable {parser : FrameParser}

theorem feed_of_ok {data rest : Bytes} {frames : List Frame}
    (h : parse parser.maxPayload (parser.buffer ++ data) = .ok (frames, rest)) :
    parser.feed data = (.ok frames, { parser with buffer := rest }) := by
  unfold feed
  rw [h]

theorem feed_of_error {data : Bytes} {e : ProtocolError}
    (h : parse parser.maxPayload (parser.buffer ++ data) = .error e) :
    parser.feed data = (.error e, { parser with buffer := parser.buffer ++ data }) := by
  unfold feed
  rw [h]

/-- A parser that has met an error. -/
def Failed (parser : FrameParser) : Prop :=
  ∃ e, parse parser.maxPayload parser.buffer = .error e

/-- Every later feed of such a parser gives an error. -/
theorem Failed.feeds (h : parser.Failed) (chunks : List Bytes) :
    ∀ outcome ∈ (parser.feeds chunks).1, ∃ e, outcome = .error e := by
  induction chunks generalizing parser with
  | nil => exact fun outcome houtcome => absurd houtcome List.not_mem_nil
  | cons chunk chunks ih =>
    obtain ⟨e, he⟩ := h
    have hparse : parse parser.maxPayload (parser.buffer ++ chunk) = .error e := by
      rw [parse_append, he]
      rfl
    intro outcome houtcome
    rw [FrameParser.feeds, feed_of_error hparse] at houtcome
    rcases List.mem_cons.mp houtcome with rfl | hrest
    · exact ⟨e, rfl⟩
    · exact ih ⟨e, hparse⟩ outcome hrest

theorem failed_of_feed {data : Bytes} {e : ProtocolError}
    (h : (parser.feed data).1 = .error e) : (parser.feed data).2.Failed := by
  cases hparse : parse parser.maxPayload (parser.buffer ++ data) with
  | ok t =>
    rw [feed_of_ok hparse] at h
    cases h
  | error e' =>
    rw [feed_of_error hparse]
    exact ⟨e', hparse⟩

/-- What a run over chunks gives is what the loop gives on the bytes in the buffer
and those of the chunks. -/
theorem feeds_parse (hbuffer : parse parser.maxPayload parser.buffer = .ok ([], parser.buffer))
    (chunks : List Bytes) :
    match parse parser.maxPayload (parser.buffer ++ chunks.flatten) with
    | .ok (frames, rest) => ¬MeetsError (parser.feeds chunks).1 ∧
        framesOf (parser.feeds chunks).1 = frames ∧
          (parser.feeds chunks).2 = { parser with buffer := rest }
    | .error _ => MeetsError (parser.feeds chunks).1 := by
  induction chunks generalizing parser with
  | nil =>
    rw [List.flatten_nil, List.append_nil, hbuffer]
    exact ⟨fun ⟨e, he⟩ => List.not_mem_nil he, rfl, rfl⟩
  | cons chunk chunks ih =>
    rw [List.flatten_cons, ← List.append_assoc, parse_append]
    cases hparse : parse parser.maxPayload (parser.buffer ++ chunk) with
    | error e =>
      refine ⟨e, ?_⟩
      rw [feeds, feed_of_error hparse]
      exact List.mem_cons_self
    | ok t =>
      obtain ⟨frames, rest⟩ := t
      have hrest := @ih { parser with buffer := rest } (parse_eq_ok hparse).2.2
      dsimp only at hrest
      simp only [bind, Except.bind]
      cases hlater : parse parser.maxPayload (rest ++ chunks.flatten) with
      | error e =>
        rw [hlater] at hrest
        obtain ⟨e', he'⟩ := hrest
        refine ⟨e', ?_⟩
        rw [feeds, feed_of_ok hparse]
        exact List.mem_cons_of_mem _ he'
      | ok u =>
        obtain ⟨others, left⟩ := u
        rw [hlater] at hrest
        obtain ⟨hok, hframes, hparser⟩ := hrest
        rw [feeds, feed_of_ok hparse]
        refine ⟨?_, ?_, hparser⟩
        · rintro ⟨e, he⟩
          rcases List.mem_cons.mp he with heq | hmem
          · cases heq
          · exact hok ⟨e, hmem⟩
        · show frames ++ framesOf _ = frames ++ others
          rw [hframes]

/-- A run of a new parser. -/
theorem new_feeds_parse (maxPayload : Nat) (chunks : List Bytes) :
    match parse maxPayload chunks.flatten with
    | .ok (frames, rest) => ¬MeetsError ((new maxPayload).feeds chunks).1 ∧
        framesOf ((new maxPayload).feeds chunks).1 = frames ∧
          ((new maxPayload).feeds chunks).2 = ⟨maxPayload, rest⟩
    | .error _ => MeetsError ((new maxPayload).feeds chunks).1 :=
  @feeds_parse (new maxPayload) parse_nil chunks

theorem finish_iff : parser.finish = .ok () ↔ parser.buffer = [] := by
  unfold finish
  split
  · rename_i hbuffer
    exact ⟨nofun, fun h => absurd h hbuffer⟩
  · rename_i hbuffer
    exact ⟨fun _ => Decidable.not_not.mp hbuffer, fun _ => rfl⟩

end FrameParser

open FrameParser

/-- The chunks that a stream is cut into do not matter: a run over them meets an
error exactly when the loop does, and otherwise gives the same frames and leaves the
same bytes.  A stream of packed frames gives these frames, and only such a stream
ends on a frame boundary.  A parser that has met an error gives no frame any more. -/
theorem feeds_flatten (maxPayload : Nat) :
    (∀ chunks others : List Bytes, chunks.flatten = others.flatten →
      (MeetsError ((new maxPayload).feeds chunks).1 ↔
        MeetsError ((new maxPayload).feeds others).1) ∧
      (¬MeetsError ((new maxPayload).feeds chunks).1 →
        framesOf ((new maxPayload).feeds chunks).1 = framesOf ((new maxPayload).feeds others).1 ∧
        ((new maxPayload).feeds chunks).2.buffer = ((new maxPayload).feeds others).2.buffer)) ∧
    (∀ (frames : List Frame) (chunks : List Bytes), (∀ frame ∈ frames, Fits maxPayload frame) →
      chunks.flatten = frames.flatMap Frame.pack →
        ¬MeetsError ((new maxPayload).feeds chunks).1 ∧
        framesOf ((new maxPayload).feeds chunks).1 = frames ∧
        ((new maxPayload).feeds chunks).2.finish = .ok ()) ∧
    (∀ chunks : List Bytes, ¬MeetsError ((new maxPayload).feeds chunks).1 →
      ((new maxPayload).feeds chunks).2.finish = .ok () →
        ∃ frames : List Frame, (∀ frame ∈ frames, Fits maxPayload frame) ∧
          chunks.flatten = frames.flatMap Frame.pack) ∧
    ∀ (chunks : List Bytes) (data : Bytes) (later : List Bytes),
      (∃ e, (((new maxPayload).feeds chunks).2.feed data).1 = .error e) →
        ∀ outcome ∈ ((((new maxPayload).feeds chunks).2.feed data).2.feeds later).1,
          ∃ e, outcome = .error e := by
  refine ⟨fun chunks others hsame => ?_, fun frames chunks hfits hstream => ?_,
    fun chunks hok hfinish => ?_, fun chunks data later ⟨e, he⟩ => (failed_of_feed he).feeds later⟩
  · have hchunks := new_feeds_parse maxPayload chunks
    have hothers := new_feeds_parse maxPayload others
    rw [← hsame] at hothers
    cases hparse : parse maxPayload chunks.flatten with
    | error e =>
      rw [hparse] at hchunks hothers
      exact ⟨iff_of_true hchunks hothers, fun hok => absurd hchunks hok⟩
    | ok t =>
      rw [hparse] at hchunks hothers
      refine ⟨iff_of_false hchunks.1 hothers.1, fun _ => ⟨?_, ?_⟩⟩
      · rw [hchunks.2.1, hothers.2.1]
      · rw [hchunks.2.2, hothers.2.2]
  · have hchunks := new_feeds_parse maxPayload chunks
    rw [hstream, parse_frames hfits] at hchunks
    refine ⟨hchunks.1, hchunks.2.1, finish_iff.mpr ?_⟩
    rw [hchunks.2.2]
  · have hchunks := new_feeds_parse maxPayload chunks
    cases hparse : parse maxPayload chunks.flatten with
    | error e =>
      rw [hparse] at hchunks
      exact absurd hchunks hok
    | ok t =>
      obtain ⟨frames, rest⟩ := t
      rw [hparse] at hchunks
      rw [finish_iff, hchunks.2.2] at hfinish
      obtain ⟨hfits, hsplit, -⟩ := parse_eq_ok hparse
      cases hfinish
      rw [List.append_nil] at hsplit
      exact ⟨frames, hfits, hsplit⟩

end Mt5Open.Native

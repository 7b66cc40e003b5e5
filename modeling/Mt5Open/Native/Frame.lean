import Mt5Open.Lib.Loop
import Mt5Open.Native.Reader
import Mathlib.Data.List.Flatten

/-!
# Application framing

A frame has a header of nine bytes: the command, the payload length as a signed
integer, a sequence number and flags.  `FrameParser` takes bytes as they arrive
and gives every frame that is complete.

`parse` is the loop of `FrameParser::feed` over the buffered bytes.
`parse_prefix` is the result that the receive path uses: what is parsed from a
prefix of packed frames is a prefix of the frames, and the bytes that it leaves
are the beginning of the rest.
-/

namespace Mt5Open.Native

open Lib

def HEADER_LEN : Nat := 9

/-- Payload flags carried in the header's final 16-bit field. -/
def COMPRESSED : UInt16 := 0x0001
def FINAL : UInt16 := 0x0002

/-- Maximum single-frame payload the parser will accept. -/
def MAX_PAYLOAD : Nat := 16 * 1024 * 1024

namespace command

def HELLO : UInt8 := 0
def AUTH : UInt8 := 1
def CERT_CONTINUATION : UInt8 := 2
def PING : UInt8 := 10
def ACCOUNT_STATE : UInt8 := 12
def TRADE_HISTORY : UInt8 := 101
def QUOTE_HISTORY : UInt8 := 102
def SYMBOLS : UInt8 := 105
def PASSWORD_CHANGE : UInt8 := 107
def TRADE_REQUEST : UInt8 := 108

end command

structure Frame where
  command : UInt8
  sequence : UInt16
  flags : UInt16
  payload : Bytes
  deriving DecidableEq, Repr

namespace Frame

def isFinal (frame : Frame) : Bool := frame.flags &&& FINAL != 0

def isCompressed (frame : Frame) : Bool := frame.flags &&& COMPRESSED != 0

/-- Serialize header + payload exactly as the terminal transmits it. -/
def pack (frame : Frame) : Bytes :=
  frame.command :: (LittleEndian.encode 4 frame.payload.length ++
    LittleEndian.encode 2 frame.sequence.toNat ++ LittleEndian.encode 2 frame.flags.toNat ++
    frame.payload)

@[simp] theorem length_pack (frame : Frame) :
    frame.pack.length = HEADER_LEN + frame.payload.length := by
  simp [pack, HEADER_LEN]
  omega

end Frame

/-! ## The loop over the buffer -/

/-- One round of `FrameParser::feed`: the frames so far, and the bytes behind them. -/
def parseRound (maxPayload : Nat) :
    List Frame × Bytes → (List Frame × Bytes) ⊕ Result (List Frame × Bytes)
  | (frames, bytes) =>
    if bytes.length < HEADER_LEN then .inr (.ok (frames, bytes))
    else
      let size := LittleEndian.decodeInt (slice bytes 1 4)
      if size < 0 ∨ maxPayload < size.toNat then .inr (reject s!"invalid payload length {size}")
      else if bytes.length < HEADER_LEN + size.toNat then .inr (.ok (frames, bytes))
      else
        let frame : Frame :=
          { command := bytes.headD 0
            sequence := UInt16.ofNat (LittleEndian.decode (slice bytes 5 2))
            flags := UInt16.ofNat (LittleEndian.decode (slice bytes 7 2))
            payload := slice bytes HEADER_LEN size.toNat }
        .inl (frames ++ [frame], bytes.drop (HEADER_LEN + size.toNat))

/-- The loop of `FrameParser::feed`. -/
def parseLoop (maxPayload : Nat) : Loop (List Frame × Bytes) (Result (List Frame × Bytes)) where
  body := parseRound maxPayload
  measure s := s.2.length
  decreases := by
    rintro ⟨frames, bytes⟩ t h
    simp only [parseRound] at h
    split at h
    · cases h
    · split at h
      · cases h
      · split at h
        · cases h
        · cases Sum.inl.inj h
          simp only [List.length_drop, HEADER_LEN] at *
          omega

/-- The complete frames at the head of the bytes, and the bytes behind them. -/
def parse (maxPayload : Nat) (bytes : Bytes) : Result (List Frame × Bytes) :=
  (parseLoop maxPayload).run ([], bytes)

/-- Incremental frame parser. -/
structure FrameParser where
  maxPayload : Nat
  buffer : Bytes
  deriving DecidableEq

namespace FrameParser

def new (maxPayload : Nat) : FrameParser where
  maxPayload := maxPayload
  buffer := []

/-- Feed received bytes; return every complete frame now available. -/
def feed (parser : FrameParser) (data : Bytes) : Result (List Frame) × FrameParser :=
  match parse parser.maxPayload (parser.buffer ++ data) with
  | .ok (frames, rest) => (.ok frames, { parser with buffer := rest })
  | .error e => (.error e, { parser with buffer := parser.buffer ++ data })

end FrameParser

/-! ## Packed frames -/

section Header

variable (frame : Frame) (rest : Bytes)

/-! The fields of the header stand where the parser reads them. -/

theorem slice_size :
    slice (frame.pack ++ rest) 1 4 = LittleEndian.encode 4 frame.payload.length := by
  simp [slice, Frame.pack, LittleEndian.encode]

theorem slice_sequence :
    slice (frame.pack ++ rest) 5 2 = LittleEndian.encode 2 frame.sequence.toNat := by
  simp [slice, Frame.pack, LittleEndian.encode]

theorem slice_flags :
    slice (frame.pack ++ rest) 7 2 = LittleEndian.encode 2 frame.flags.toNat := by
  simp [slice, Frame.pack, LittleEndian.encode]

theorem drop_header : (frame.pack ++ rest).drop HEADER_LEN = frame.payload ++ rest := by
  simp [Frame.pack, HEADER_LEN, LittleEndian.encode]

end Header

/-- The declared length of a payload that fits is read back. -/
theorem decodeInt_size {n : Nat} (h : n < 2 ^ 31) :
    LittleEndian.decodeInt (LittleEndian.encode 4 n) = n :=
  LittleEndian.decodeInt_encode_of_lt (by omega)

/-- A packed frame at the head of the bytes is the frame of the round. -/
theorem parseRound_pack {maxPayload : Nat} {frame : Frame} (frames : List Frame) (rest : Bytes)
    (hmax : frame.payload.length ≤ maxPayload) (hsize : frame.payload.length < 2 ^ 31) :
    parseRound maxPayload (frames, frame.pack ++ rest) = .inl (frames ++ [frame], rest) := by
  have hlength : (frame.pack ++ rest).length = HEADER_LEN + frame.payload.length + rest.length := by
    simp
  have hsequence : UInt16.ofNat (LittleEndian.decode (slice (frame.pack ++ rest) 5 2)) =
      frame.sequence := by
    rw [slice_sequence, LittleEndian.decode_encode_of_lt frame.sequence.toNat_lt,
      UInt16.ofNat_toNat]
  have hflags : UInt16.ofNat (LittleEndian.decode (slice (frame.pack ++ rest) 7 2)) =
      frame.flags := by
    rw [slice_flags, LittleEndian.decode_encode_of_lt frame.flags.toNat_lt, UInt16.ofNat_toNat]
  have hpayload : slice (frame.pack ++ rest) HEADER_LEN frame.payload.length = frame.payload := by
    rw [slice, drop_header, List.take_left]
  have hrest : (frame.pack ++ rest).drop (HEADER_LEN + frame.payload.length) = rest := by
    rw [← List.drop_drop, drop_header, List.drop_left]
  simp only [parseRound, slice_size, decodeInt_size hsize, Int.toNat_natCast]
  rw [if_neg (by omega), if_neg (by omega), if_neg (by omega), hsequence, hflags, hpayload, hrest]
  rfl

/-- Bytes that are a proper beginning of a packed frame end the loop. -/
theorem parseRound_short {maxPayload : Nat} {frame : Frame} {bytes rest : Bytes}
    (frames : List Frame) (hmax : frame.payload.length ≤ maxPayload)
    (hsize : frame.payload.length < 2 ^ 31) (hsplit : bytes ++ rest = frame.pack)
    (hrest : rest ≠ []) : parseRound maxPayload (frames, bytes) = .inr (.ok (frames, bytes)) := by
  have hlength : bytes.length + rest.length = HEADER_LEN + frame.payload.length := by
    rw [← Frame.length_pack, ← hsplit, List.length_append]
  have hpos : 0 < rest.length := List.length_pos_iff.mpr hrest
  by_cases hshort : bytes.length < HEADER_LEN
  · simp only [parseRound, if_pos hshort]
  · have hslice : slice bytes 1 4 = LittleEndian.encode 4 frame.payload.length := by
      rw [← slice_size frame [], List.append_nil, ← hsplit]
      exact (slice_append rest (by simp only [HEADER_LEN] at hshort; omega)).symm
    simp only [parseRound, hslice, decodeInt_size hsize, Int.toNat_natCast]
    rw [if_neg hshort, if_neg (by omega), if_pos (by omega)]

theorem parseLoop_prefix {maxPayload : Nat} (hmaxPayload : maxPayload < 2 ^ 31)
    {frames : List Frame} (hframes : ∀ frame ∈ frames, frame.payload.length ≤ maxPayload)
    (done : List Frame) {bytes rest : Bytes}
    (hsplit : bytes ++ rest = frames.flatMap Frame.pack) :
    ∃ front back left, frames = front ++ back ∧
      (parseLoop maxPayload).run (done, bytes) = .ok (done ++ front, left) ∧
      left ++ rest = back.flatMap Frame.pack ∧ (rest = [] → back = []) := by
  induction frames generalizing done bytes with
  | nil =>
    obtain ⟨rfl, rfl⟩ := List.append_eq_nil_iff.mp hsplit
    refine ⟨[], [], [], rfl, ?_, rfl, fun _ => rfl⟩
    rw [List.append_nil]
    exact Loop.run_of_stop _ rfl
  | cons frame frames ih =>
    have hmax : frame.payload.length ≤ maxPayload := hframes frame List.mem_cons_self
    have hsize : frame.payload.length < 2 ^ 31 := by omega
    rw [List.flatMap_cons] at hsplit
    rcases List.append_eq_append_iff.mp hsplit with ⟨tail, hpack, hrest⟩ | ⟨tail, hbytes, hrest⟩
    · -- The bytes end within the first frame, or with it.
      cases tail with
      | nil =>
        rw [List.append_nil] at hpack
        rw [List.nil_append] at hrest
        have hnil : [] ++ rest = frames.flatMap Frame.pack := by rw [List.nil_append, hrest]
        obtain ⟨front, back, left, hfront, hrun, hleft, hback⟩ :=
          ih (fun f hf => hframes f (List.mem_cons_of_mem _ hf)) (done ++ [frame]) hnil
        refine ⟨frame :: front, back, left, by rw [hfront]; rfl, ?_, hleft, hback⟩
        have hround := parseRound_pack done [] hmax hsize
        rw [List.append_nil, hpack] at hround
        rw [Loop.run_of_next _ hround, hrun, List.append_assoc]
        rfl
      | cons byte tail =>
        refine ⟨[], frame :: frames, bytes, rfl, ?_, ?_, ?_⟩
        · rw [List.append_nil]
          exact Loop.run_of_stop _
            (parseRound_short done hmax hsize hpack.symm (List.cons_ne_nil _ _))
        · rw [List.flatMap_cons, hsplit]
        · intro hnil
          rw [hnil] at hrest
          cases hrest
    · obtain ⟨front, back, left, hfront, hrun, hleft, hback⟩ :=
        ih (fun f hf => hframes f (List.mem_cons_of_mem _ hf)) (done ++ [frame]) hrest.symm
      refine ⟨frame :: front, back, left, by rw [hfront]; rfl, ?_, hleft, hback⟩
      rw [hbytes, Loop.run_of_next _ (parseRound_pack done tail hmax hsize), hrun,
        List.append_assoc]
      rfl

/-- What is parsed from a prefix of packed frames is a prefix of the frames. -/
theorem parse_prefix {maxPayload : Nat} (hmaxPayload : maxPayload < 2 ^ 31) {frames : List Frame}
    (hframes : ∀ frame ∈ frames, frame.payload.length ≤ maxPayload) {bytes rest : Bytes}
    (hsplit : bytes ++ rest = frames.flatMap Frame.pack) :
    ∃ front back left, frames = front ++ back ∧ parse maxPayload bytes = .ok (front, left) ∧
      left ++ rest = back.flatMap Frame.pack ∧ (rest = [] → back = []) := by
  obtain ⟨front, back, left, hfront, hrun, hleft, hback⟩ :=
    parseLoop_prefix hmaxPayload hframes [] hsplit
  exact ⟨front, back, left, hfront, hrun, hleft, hback⟩

/-- The bytes that the loop leaves do not begin with a whole frame. -/
theorem parse_left {maxPayload : Nat} (hmaxPayload : maxPayload < 2 ^ 31) {bytes left : Bytes}
    {frames : List Frame} (h : parse maxPayload bytes = .ok (frames, left)) {frame : Frame}
    (hframe : frame.payload.length ≤ maxPayload) (tail : Bytes) : left ≠ frame.pack ++ tail := by
  have hstopped : parseRound maxPayload (frames, left) = .inr (.ok (frames, left)) := by
    refine Loop.run_rule (parseLoop maxPayload)
      (P := fun _ r => ∀ frames left, r = .ok (frames, left) →
        parseRound maxPayload (frames, left) = .inr (.ok (frames, left))) ?_ ?_ ([], bytes) frames
      left h
    · rintro ⟨done, bytes⟩ r hbody frames left rfl
      have hround : parseRound maxPayload (done, bytes) = .inr (.ok (frames, left)) := hbody
      have hsame : (done, bytes) = (frames, left) := by
        simp only [parseRound] at hround
        split at hround
        · exact Except.ok.inj (Sum.inr.inj hround)
        · split at hround
          · cases Sum.inr.inj hround
          · split at hround
            · exact Except.ok.inj (Sum.inr.inj hround)
            · cases hround
      rwa [hsame] at hround
    · exact fun _ _ _ _ hrest => hrest
  intro hwhole
  rw [hwhole, parseRound_pack frames tail hframe (by omega)] at hstopped
  cases hstopped

/-- A parser keeps no whole frame back. -/
theorem FrameParser.feed_left {parser next : FrameParser} {data : Bytes} {frames : List Frame}
    (hmaxPayload : parser.maxPayload < 2 ^ 31) (h : parser.feed data = (.ok frames, next))
    {frame : Frame} (hframe : frame.payload.length ≤ parser.maxPayload) (tail : Bytes) :
    next.buffer ≠ frame.pack ++ tail := by
  unfold feed at h
  split at h
  · rename_i cut left hparse
    cases h
    exact parse_left hmaxPayload hparse hframe tail
  · cases h

end Mt5Open.Native

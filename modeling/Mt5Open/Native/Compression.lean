import Mt5Open.Lib.Loop
import Mt5Open.Native.Reader

/-!
# Payload compression

The outer payload of a frame can be an LZO1X stream behind the sizes of the
plain and of the compressed bytes.  `lzo1xDecompress` reads any such stream.
`lzo1xStore` only writes literal runs, and `makeCompressedPayload` wraps them.

`decompressPayload_makeCompressedPayload` is the round trip.  It follows the
store: an initial run of up to 238 bytes names its length in the first byte,
a longer one continues its length over zero bytes, and both end in the marker.
-/

namespace Mt5Open.Native

open Lib

def MAX_MESSAGE : Nat := 64 * 1024 * 1024

/-- The bytes that end an LZO1X stream. -/
def endMarker : Bytes := [0x11, 0x00, 0x00]

namespace Lzo

/-- `read_byte!`. -/
def readByte : Reader Nat
  | [] => reject "truncated LZO instruction"
  | byte :: rest => .ok (byte.toNat, rest)

/-- `read_word!`. -/
def readWord : Reader Nat := do
  let lo ← readByte
  let hi ← readByte
  return lo ||| (hi <<< 8)

/-- The continuation bytes of a length. -/
def extensionLoop (maxOutput : Nat) : Loop (Nat × Bytes) (Result (Nat × Bytes)) where
  body
    | (_, []) => .inr (reject "truncated LZO instruction")
    | (acc, extra :: rest) =>
      if extra ≠ 0 then .inr (.ok (acc + extra.toNat, rest))
      else if maxOutput < acc + 255 then .inr (reject "excessive LZO length extension")
      else .inl (acc + 255, rest)
  measure s := s.2.length
  decreases := by
    rintro ⟨acc, bytes⟩ t h
    cases bytes with
    | nil => cases h
    | cons extra rest =>
      simp only at h
      split at h
      · cases h
      · split at h
        · cases h
        · cases Sum.inl.inj h
          simp

/-- `length_extension!`: a zero seed means "read continuation bytes". -/
def lengthExtension (maxOutput value mask : Nat) : Reader Nat := fun remaining =>
  if value ≠ 0 then .ok (value, remaining) else (extensionLoop maxOutput).run (mask, remaining)

/-- `literal!`. -/
def literal (expectedSize length : Nat) (out : Bytes) : Reader Bytes := fun remaining =>
  if remaining.length < length ∨ expectedSize < out.length + length then
    reject "LZO literal exceeds input or declared output"
  else .ok (out ++ remaining.take length, remaining.drop length)

/-- The bytes that a match repeats, one at a time. -/
def copyMatch (distance : Nat) : Nat → Bytes → Bytes
  | 0, out => out
  | length + 1, out => copyMatch distance length (out ++ [out.getD (out.length - distance) 0])

/-- `do_match!`. -/
def doMatch (expectedSize distance length : Nat) (out : Bytes) : Reader Bytes := fun remaining =>
  if distance < 1 ∨ out.length < distance ∨ expectedSize < out.length + length then
    reject "invalid LZO match"
  else .ok (copyMatch distance length out, remaining)

/-- The end of a round with a match: the match, then the literals that follow it. -/
def matchAndLiteral (expectedSize distance length following : Nat) (out : Bytes) :
    Reader ((Bytes × Nat) ⊕ Bytes) := do
  let out ← doMatch expectedSize distance length out
  let out ← literal expectedSize following out
  return .inl (out, following)

/-- One instruction, with the output and the state so far.  It goes on with a new
output and state, or stops with the whole output. -/
def instruction (expectedSize maxOutput : Nat) (out : Bytes) (state token : Nat) :
    Reader ((Bytes × Nat) ⊕ Bytes) := do
  if token < 16 then
    if state = 0 then
      let n ← lengthExtension maxOutput token 15
      let out ← literal expectedSize (n + 3) out
      return .inl (out, 4)
    else
      let operand ← readByte
      let distance := (token >>> 2) + (operand <<< 2) + if state = 4 then 2049 else 1
      matchAndLiteral expectedSize distance (if state = 4 then 3 else 2) (token &&& 3) out
  else if token < 32 then
    let length ← lengthExtension maxOutput (token &&& 7) 7
    let operand ← readWord
    let distance := 16384 + ((token &&& 8) <<< 11) + (operand >>> 2)
    if distance = 16384 then
      let remaining ← get
      if token ≠ 17 ∨ operand ≠ 0 ∨ remaining ≠ [] ∨ out.length ≠ expectedSize then
        Reader.fail "invalid LZO termination or output length"
      else return .inr out
    else matchAndLiteral expectedSize distance (length + 2) (operand &&& 3) out
  else if token < 64 then
    let length ← lengthExtension maxOutput (token &&& 31) 31
    let operand ← readWord
    matchAndLiteral expectedSize ((operand >>> 2) + 1) (length + 2) (operand &&& 3) out
  else
    let operand ← readByte
    matchAndLiteral expectedSize (((token >>> 2) &&& 7) + (operand <<< 3) + 1) ((token >>> 5) + 1)
      (token &&& 3) out

/-! ### Every round reads at least one byte -/

open Reader Decoder

theorem readByte_lt {bytes rest : Bytes} {value : Nat} (h : readByte bytes = .ok (value, rest)) :
    rest.length < bytes.length := by
  cases bytes with
  | nil => cases h
  | cons byte tail =>
    cases Except.ok.inj h
    simp

theorem shrinks_readByte : Shrinks List.length readByte := by
  intro bytes value rest h
  exact Nat.le_of_lt (readByte_lt h)

theorem shrinks_readWord : Shrinks List.length readWord :=
  shrinks_readByte.bind fun _ => shrinks_readByte.bind fun _ => Shrinks.pure _

theorem shrinks_lengthExtension (maxOutput value mask : Nat) :
    Shrinks List.length (lengthExtension maxOutput value mask) := by
  intro bytes n rest h
  unfold lengthExtension at h
  split at h
  · cases Except.ok.inj h
    exact Nat.le_refl _
  · have hrule := (extensionLoop maxOutput).run_rule
      (P := fun s r => ∀ n rest, r = .ok (n, rest) → rest.length ≤ s.2.length) ?_ ?_ (mask, bytes)
    · exact hrule n rest h
    · rintro ⟨acc, bytes⟩ r hbody n rest rfl
      cases bytes with
      | nil => cases hbody
      | cons extra tail =>
        simp only [extensionLoop] at hbody
        split at hbody
        · cases Except.ok.inj (Sum.inr.inj hbody)
          simp
        · split at hbody
          · cases Sum.inr.inj hbody
          · cases hbody
    · intro s t r hbody hrest n rest hr
      exact Nat.le_trans (hrest n rest hr)
        (Nat.le_of_lt ((extensionLoop maxOutput).decreases hbody))

theorem shrinks_literal (expectedSize length : Nat) (out : Bytes) :
    Shrinks List.length (literal expectedSize length out) := by
  intro bytes out' rest h
  unfold literal at h
  split at h
  · cases h
  · cases Except.ok.inj h
    rw [List.length_drop]
    omega

theorem shrinks_doMatch (expectedSize distance length : Nat) (out : Bytes) :
    Shrinks List.length (doMatch expectedSize distance length out) := by
  intro bytes out' rest h
  unfold doMatch at h
  split at h
  · cases h
  · cases Except.ok.inj h
    exact Nat.le_refl _

theorem shrinks_matchAndLiteral (expectedSize distance length following : Nat) (out : Bytes) :
    Shrinks List.length (matchAndLiteral expectedSize distance length following out) :=
  (shrinks_doMatch _ _ _ _).bind fun _ => (shrinks_literal _ _ _).bind fun _ => Shrinks.pure _

theorem shrinks_instruction (expectedSize maxOutput : Nat) (out : Bytes) (state token : Nat) :
    Shrinks List.length (instruction expectedSize maxOutput out state token) := by
  unfold instruction
  split
  · split
    · refine (shrinks_lengthExtension _ _ _).bind fun n => ?_
      exact (shrinks_literal _ _ _).bind fun _ => Shrinks.pure _
    · exact shrinks_readByte.bind fun _ => shrinks_matchAndLiteral _ _ _ _ _
  · split
    · refine (shrinks_lengthExtension _ _ _).bind fun length => ?_
      refine shrinks_readWord.bind fun operand => ?_
      dsimp only
      split
      · refine Shrinks.get.bind fun remaining => ?_
        split
        · exact Shrinks.raise _
        · exact Shrinks.pure _
      · exact shrinks_matchAndLiteral _ _ _ _ _
    · split
      · refine (shrinks_lengthExtension _ _ _).bind fun length => ?_
        exact shrinks_readWord.bind fun _ => shrinks_matchAndLiteral _ _ _ _ _
      · exact shrinks_readByte.bind fun _ => shrinks_matchAndLiteral _ _ _ _ _

/-- The main loop, over the bytes that remain, the output and the state. -/
def mainLoop (expectedSize maxOutput : Nat) : Loop (Bytes × Bytes × Nat) (Result Bytes) where
  body
    | (remaining, out, state) =>
      match (readByte >>= instruction expectedSize maxOutput out state) remaining with
      | .error e => .inr (.error e)
      | .ok (.inl (out, state), remaining) => .inl (remaining, out, state)
      | .ok (.inr out, _) => .inr (.ok out)
  measure s := s.1.length
  decreases := by
    rintro ⟨remaining, out, state⟩ t h
    simp only at h
    split at h
    · cases h
    · rename_i out' state' rest hround
      cases Sum.inl.inj h
      obtain ⟨token, middle, hread, hinstruction⟩ := bind_eq_ok.mp hround
      exact Nat.lt_of_le_of_lt (shrinks_instruction _ _ _ _ _ _ _ _ hinstruction)
        (readByte_lt hread)
    · cases h

end Lzo

/-- Decompress an LZO1X stream whose declared output length is `expectedSize`. -/
def lzo1xDecompress (data : Bytes) (expectedSize maxOutput : Nat) : Result Bytes :=
  if maxOutput < expectedSize then reject "invalid decompressed size"
  else if data.length < 3 ∨ data.drop (data.length - 3) ≠ endMarker then
    reject "missing LZO1X end marker"
  else if 17 < (data.headD 0).toNat then
    -- An initial run of literals names its length in the first byte.
    let count := (data.headD 0).toNat - 17
    match Lzo.literal expectedSize count [] data.tail with
    | .error e => .error e
    | .ok (out, remaining) =>
      (Lzo.mainLoop expectedSize maxOutput).run (remaining, out, min count 4)
  else (Lzo.mainLoop expectedSize maxOutput).run (data, [], 0)

/-- LZO1X literal-only encoding (a store, no matches). -/
def lzo1xStore (data : Bytes) : Bytes :=
  let size := data.length
  if size = 0 then endMarker
  else
    let head : Bytes :=
      if size ≤ 238 then [UInt8.ofNat (size + 17)]
      else
        let remaining := size - 18
        let zeros := (remaining - 1) / 255
        let finalByte := (remaining - 1) % 255
        0x00 :: (List.replicate zeros 0 ++ [UInt8.ofNat (finalByte + 1)])
    head ++ data ++ endMarker

/-- Parse the size envelope and LZO1X-decompress the remainder. -/
def decompressPayload (payload : Bytes) (maxOutput : Nat) : Result Bytes :=
  if payload.length < 8 then reject "compressed payload lacks its two size fields"
  else
    let expected := LittleEndian.decodeInt (slice payload 0 4)
    let compressed := LittleEndian.decodeInt (slice payload 4 4)
    if compressed < 0 ∨ compressed.toNat ≠ payload.length - 8 then
      reject "compressed payload length does not match its envelope"
    else if expected < 0 then reject "invalid decompressed size"
    else lzo1xDecompress (payload.drop 8) expected.toNat maxOutput

/-- Wrap `plainPayload` in the size envelope with a literal-only LZO1X body. -/
def makeCompressedPayload (plainPayload : Bytes) : Result Bytes :=
  if MAX_MESSAGE < plainPayload.length then reject "payload exceeds configured output limit"
  else
    let encoded := lzo1xStore plainPayload
    .ok (LittleEndian.encode 4 plainPayload.length ++ LittleEndian.encode 4 encoded.length ++
      encoded)

/-! ## The round trip of the store -/

namespace Lzo

open Reader Decoder

/-- A length that continues over `zeros` zero bytes. -/
theorem extensionLoop_run {maxOutput acc zeros : Nat} {last : UInt8} (rest : Bytes)
    (hlast : last ≠ 0) (hmax : acc + 255 * zeros ≤ maxOutput) :
    (extensionLoop maxOutput).run (acc, List.replicate zeros 0 ++ last :: rest) =
      .ok (acc + 255 * zeros + last.toNat, rest) := by
  induction zeros generalizing acc with
  | zero =>
    refine Loop.run_of_stop _ ?_
    show (if last ≠ 0 then _ else _) = _
    rw [if_pos hlast]
    rfl
  | succ zeros ih =>
    have hround : (extensionLoop maxOutput).body
        (acc, List.replicate (zeros + 1) 0 ++ last :: rest) =
          .inl (acc + 255, List.replicate zeros 0 ++ last :: rest) := by
      rw [List.replicate_succ, List.cons_append]
      simp only [extensionLoop]
      rw [if_neg (by simp), if_neg (by omega)]
    rw [Loop.run_of_next _ hround, ih (by omega)]
    congr 2
    omega

theorem literal_append {expectedSize : Nat} {data : Bytes} (out rest : Bytes)
    (h : out.length + data.length ≤ expectedSize) :
    literal expectedSize data.length out (data ++ rest) = .ok (out ++ data, rest) := by
  unfold literal
  rw [if_neg (by rw [List.length_append]; omega), List.take_left, List.drop_left]

/-- The end marker ends the loop, whatever the state. -/
theorem mainLoop_endMarker {expectedSize maxOutput state : Nat} {out : Bytes}
    (h : out.length = expectedSize) :
    (mainLoop expectedSize maxOutput).run (endMarker, out, state) = .ok out := by
  subst h
  have hinstruction :
      instruction out.length maxOutput out state 17 [0, 0] = .ok (.inr out, []) := by
    have hextension : lengthExtension maxOutput (17 &&& 7) 7 [0, 0] = .ok (1, [0, 0]) := rfl
    have hword : readWord [0, 0] = .ok (0, []) := rfl
    unfold instruction
    rw [if_neg (by decide), if_pos (by decide), bind_of_ok hextension, bind_of_ok hword]
    simp [get, getThe, MonadStateOf.get, StateT.get, bind, StateT.bind, Except.bind]
    rfl
  have hround : (readByte >>= instruction out.length maxOutput out state) endMarker =
      .ok (.inr out, []) := by
    have hbyte : readByte endMarker = .ok (17, [0, 0]) := rfl
    rw [bind_of_ok hbyte, hinstruction]
  refine Loop.run_of_stop _ ?_
  show (match (readByte >>= instruction out.length maxOutput out state) endMarker with
    | .error e => _ | .ok (.inl (out, state), remaining) => _ | .ok (.inr out, _) => _) = _
  rw [hround]

/-- A long run of literals: its length continues over zero bytes. -/
theorem mainLoop_longRun {expectedSize maxOutput zeros : Nat} {last : UInt8} {data : Bytes}
    (rest : Bytes) (hlast : last ≠ 0) (hlength : 18 + 255 * zeros + last.toNat = data.length)
    (hexpected : data.length ≤ expectedSize) (hmax : expectedSize ≤ maxOutput) :
    (mainLoop expectedSize maxOutput).run
        (0x00 :: (List.replicate zeros 0 ++ [last]) ++ data ++ rest, [], 0) =
      (mainLoop expectedSize maxOutput).run (rest, data, 4) := by
  have hshape : 0x00 :: (List.replicate zeros 0 ++ [last]) ++ data ++ rest =
      0x00 :: (List.replicate zeros 0 ++ last :: (data ++ rest)) := by
    simp
  rw [hshape]
  have hextension :
      lengthExtension maxOutput 0 15 (List.replicate zeros 0 ++ last :: (data ++ rest)) =
      .ok (15 + 255 * zeros + last.toNat, data ++ rest) := by
    unfold lengthExtension
    rw [if_neg (by simp), extensionLoop_run (data ++ rest) hlast (by omega)]
  have hliteral : literal expectedSize (15 + 255 * zeros + last.toNat + 3) [] (data ++ rest) =
      .ok (data, rest) := by
    have hsize : 15 + 255 * zeros + last.toNat + 3 = data.length := by omega
    rw [hsize, literal_append [] rest (by simpa using hexpected), List.nil_append]
  have hround : (readByte >>= instruction expectedSize maxOutput [] 0)
      (0x00 :: (List.replicate zeros 0 ++ last :: (data ++ rest))) =
        .ok (.inl (data, 4), rest) := by
    have hbyte : readByte (0x00 :: (List.replicate zeros 0 ++ last :: (data ++ rest))) =
        .ok (0, List.replicate zeros 0 ++ last :: (data ++ rest)) := rfl
    rw [bind_of_ok hbyte]
    unfold instruction
    rw [if_pos (by decide), if_pos rfl, bind_of_ok hextension, bind_of_ok hliteral]
    rfl
  refine Loop.run_of_next _ ?_
  simp only [mainLoop, hround]

end Lzo

/-- A stream with an end marker passes the checks of the decoder. -/
theorem endMarker_of_append (front : Bytes) :
    ¬ ((front ++ endMarker).length < 3 ∨
      (front ++ endMarker).drop ((front ++ endMarker).length - 3) ≠ endMarker) := by
  have hlength : (front ++ endMarker).length = front.length + 3 := List.length_append
  rw [hlength, Nat.add_sub_cancel, List.drop_left]
  simp

/-- The store is read back in full. -/
theorem lzo1xDecompress_lzo1xStore {data : Bytes} {maxOutput : Nat}
    (hmax : data.length ≤ maxOutput) :
    lzo1xDecompress (lzo1xStore data) data.length maxOutput = .ok data := by
  unfold lzo1xDecompress
  rw [if_neg (by omega)]
  by_cases hempty : data.length = 0
  · obtain rfl : data = [] := List.eq_nil_of_length_eq_zero hempty
    have hstore : lzo1xStore [] = endMarker := rfl
    rw [hstore, if_neg (by decide), if_neg (by decide)]
    exact Lzo.mainLoop_endMarker rfl
  · by_cases hshort : data.length ≤ 238
    · have hstore : lzo1xStore data = [UInt8.ofNat (data.length + 17)] ++ data ++ endMarker := by
        simp only [lzo1xStore, if_neg hempty, if_pos hshort]
      have hhead : ((lzo1xStore data).headD 0).toNat = data.length + 17 := by
        rw [hstore]
        simp
        omega
      have htail : (lzo1xStore data).tail = data ++ endMarker := by rw [hstore]; rfl
      have hmarker := endMarker_of_append ([UInt8.ofNat (data.length + 17)] ++ data)
      rw [← hstore] at hmarker
      have hliteral : Lzo.literal data.length data.length [] (data ++ endMarker) =
          .ok (data, endMarker) := by
        rw [Lzo.literal_append [] endMarker (by simp), List.nil_append]
      rw [if_neg hmarker, if_pos (by omega), hhead, htail, Nat.add_sub_cancel]
      simp only [hliteral]
      exact Lzo.mainLoop_endMarker rfl
    · have hlast : (data.length - 18 - 1) % 255 < 255 := Nat.mod_lt _ (by decide)
      have hdivision := Nat.div_add_mod (data.length - 18 - 1) 255
      have hstore : lzo1xStore data =
          0x00 :: (List.replicate ((data.length - 18 - 1) / 255) 0 ++
            [UInt8.ofNat ((data.length - 18 - 1) % 255 + 1)]) ++ data ++ endMarker := by
        simp only [lzo1xStore, if_neg hempty, if_neg hshort]
      have hmarker := endMarker_of_append
        (0x00 :: (List.replicate ((data.length - 18 - 1) / 255) 0 ++
        [UInt8.ofNat ((data.length - 18 - 1) % 255 + 1)]) ++ data)
      generalize (data.length - 18 - 1) / 255 = zeros at hdivision hstore hmarker
      generalize (data.length - 18 - 1) % 255 = final at hlast hdivision hstore hmarker
      have hfinal : (UInt8.ofNat (final + 1)).toNat = final + 1 := by
        simp
        omega
      have hne : UInt8.ofNat (final + 1) ≠ 0 := by
        intro h
        rw [h] at hfinal
        simp at hfinal
      rw [← hstore] at hmarker
      rw [if_neg hmarker, if_neg (by rw [hstore]; simp), hstore,
        Lzo.mainLoop_longRun endMarker hne (by omega) (Nat.le_refl _) hmax]
      exact Lzo.mainLoop_endMarker rfl

theorem length_lzo1xStore_le (data : Bytes) : (lzo1xStore data).length ≤ 2 * data.length + 4 := by
  have hdivision := Nat.div_le_self (data.length - 18 - 1) 255
  unfold lzo1xStore
  dsimp only
  split
  · simp [endMarker]
  · split
    · simp [endMarker]
      omega
    · simp [endMarker]
      omega

/-- Unwrapping a wrapped payload gives the payload. -/
theorem decompressPayload_makeCompressedPayload {plain payload : Bytes} {maxOutput : Nat}
    (h : makeCompressedPayload plain = .ok payload) (hmax : plain.length ≤ maxOutput) :
    decompressPayload payload maxOutput = .ok plain := by
  unfold makeCompressedPayload at h
  split at h
  · cases h
  · rename_i hlimit
    rw [MAX_MESSAGE] at hlimit
    have hstored := length_lzo1xStore_le plain
    have hpayload := (Except.ok.inj h).symm
    have hexpected : slice payload 0 4 = LittleEndian.encode 4 plain.length := by
      rw [hpayload]
      simp [slice, LittleEndian.encode]
    have hcompressed : slice payload 4 4 = LittleEndian.encode 4 (lzo1xStore plain).length := by
      rw [hpayload]
      simp [slice, LittleEndian.encode]
    have hdrop : payload.drop 8 = lzo1xStore plain := by
      rw [hpayload]
      simp [LittleEndian.encode]
    have hlength : payload.length = 8 + (lzo1xStore plain).length := by
      rw [hpayload]
      simp
      omega
    unfold decompressPayload
    simp only [hexpected, hcompressed, hdrop,
      LittleEndian.decodeInt_encode_of_lt (n := 4) (v := plain.length) (by omega),
      LittleEndian.decodeInt_encode_of_lt (n := 4) (v := (lzo1xStore plain).length) (by omega)]
    rw [if_neg (by omega), if_neg (by omega), if_neg (by omega), Int.toNat_natCast]
    exact lzo1xDecompress_lzo1xStore hmax

end Mt5Open.Native

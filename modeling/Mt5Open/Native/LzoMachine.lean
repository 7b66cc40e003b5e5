import Mt5Open.Native.Checked
import Mt5Open.Native.Lzo

/-!
# The LZO1X decoder with its cursor and its arithmetic

`Lzo.instruction` reads from the bytes that remain and counts in natural numbers.  The
decoder here has the input as a whole, a cursor into it, and `usize` arithmetic: a read
out of range and an operation that does not fit 64 bits are panics.  So is a write that
takes the output beyond its declared size, which the source does not check.

`Machine.decompress_eq` says that it panics nowhere and answers as `lzo1xDecompress`
does, for every input that a length can be summed up over.
-/

namespace Mt5Open.Native

open Lib

namespace Lzo.Machine

open Checked

/-! ## The machine -/

/-- More output, which has to stay within the declared size. -/
def extend (expectedSize : Nat) (out more : Bytes) : Except Fault Bytes :=
  if out.length + more.length ≤ expectedSize then .ok (out ++ more) else .error .panicked

/-- A computation with the cursor `pos`. -/
abbrev Step := Decoder Fault Nat

open Decoder (ofResult rounds)

def fail {α : Type} (message : String) : Step α := Decoder.raise (.rejected ⟨message⟩)

variable (data : Bytes) (expectedSize maxOutput : Nat)

/-- `read_byte!`. -/
def readByte : Step Nat := do
  let pos ← get
  if data.length ≤ pos then fail "truncated LZO instruction"
  else
    let v ← ofResult (index data pos)
    let next ← ofResult (add pos 1)
    set next
    return v.toNat

/-- `read_word!`. -/
def readWord : Step Nat := do
  let lo ← readByte data
  let hi ← readByte data
  return lo ||| (hi <<< 8)

/-- One round over the continuation bytes of a length. -/
def extensionRound (acc : Nat) : Step (Nat ⊕ Nat) := do
  let extra ← readByte data
  if extra ≠ 0 then
    let value ← ofResult (add acc extra)
    return .inr value
  else
    let acc ← ofResult (add acc 255)
    if maxOutput < acc then fail "excessive LZO length extension"
    else return .inl acc

/-- `literal!`. -/
def literal (length : Nat) (out : Bytes) : Step Bytes := do
  let pos ← get
  let remaining ← ofResult (sub data.length pos)
  if remaining < length then fail "LZO literal exceeds input or declared output"
  else
    let total ← ofResult (add out.length length)
    if expectedSize < total then fail "LZO literal exceeds input or declared output"
    else
      let stop ← ofResult (add pos length)
      let chunk ← ofResult (range data pos stop)
      let out ← ofResult (extend expectedSize out chunk)
      set stop
      return out

/-- The bytes that a match repeats, one at a time. -/
def copyMatch (distance : Nat) : Nat → Bytes → Except Fault Bytes
  | 0, out => .ok out
  | length + 1, out => do
    let start ← sub out.length distance
    let byte ← index out start
    let out ← extend expectedSize out [byte]
    copyMatch distance length out

/-- `do_match!`. -/
def doMatch (distance length : Nat) (out : Bytes) : Step Bytes := do
  if distance < 1 ∨ out.length < distance then fail "invalid LZO match"
  else
    let total ← ofResult (add out.length length)
    if expectedSize < total then fail "invalid LZO match"
    else ofResult (copyMatch expectedSize distance length out)

/-! ### The loops -/

/-- Fewer bytes remain. -/
abbrev left (pos : Nat) : Nat := data.length - pos

section Reads

variable {data expectedSize maxOutput}

open Decoder

theorem set_eq_ok {pos next stop : Nat} {u : Unit}
    (h : (set stop : Step Unit) pos = .ok (u, next)) : next = stop := by
  cases Except.ok.inj h
  rfl

theorem readByte_lt {pos next v : Nat} (h : readByte data pos = .ok (v, next)) :
    left data next < left data pos := by
  obtain ⟨_, _, hget, hrest⟩ := bind_eq_ok.mp h
  cases Except.ok.inj hget
  split at hrest
  · cases hrest
  obtain ⟨_, _, hindex, hrest⟩ := bind_eq_ok.mp hrest
  obtain ⟨stop, _, hadd, hrest⟩ := bind_eq_ok.mp hrest
  obtain ⟨_, _, hset, hrest⟩ := bind_eq_ok.mp hrest
  obtain ⟨-, rfl⟩ := pure_eq_ok.mp hrest
  rw [set_eq_ok hset, add_eq_ok (ofResult_eq_ok.mp hadd).1]
  unfold left
  omega

theorem shrinks_readByte : Shrinks (left data) (readByte data) :=
  fun _ _ _ h => (readByte_lt h).le

theorem shrinks_readWord : Shrinks (left data) (readWord data) :=
  shrinks_readByte.bind fun _ => shrinks_readByte.bind fun _ => Shrinks.pure _

theorem shrinks_literal (length : Nat) (out : Bytes) :
    Shrinks (left data) (literal data expectedSize length out) := by
  intro pos _ next h
  obtain ⟨_, _, hget, hrest⟩ := bind_eq_ok.mp h
  cases Except.ok.inj hget
  obtain ⟨_, _, hsub, hrest⟩ := bind_eq_ok.mp hrest
  split at hrest
  · cases hrest
  obtain ⟨_, _, htotal, hrest⟩ := bind_eq_ok.mp hrest
  split at hrest
  · cases hrest
  obtain ⟨stop, _, hstop, hrest⟩ := bind_eq_ok.mp hrest
  obtain ⟨_, _, hrange, hrest⟩ := bind_eq_ok.mp hrest
  obtain ⟨_, _, hextend, hrest⟩ := bind_eq_ok.mp hrest
  obtain ⟨_, _, hset, hrest⟩ := bind_eq_ok.mp hrest
  obtain ⟨-, rfl⟩ := pure_eq_ok.mp hrest
  rw [set_eq_ok hset, add_eq_ok (ofResult_eq_ok.mp hstop).1]
  unfold left
  omega

theorem shrinks_doMatch (distance length : Nat) (out : Bytes) :
    Shrinks (left data) (doMatch expectedSize distance length out) := by
  refine Shrinks.ite (Shrinks.raise _) ((Shrinks.ofResult _).bind fun total => ?_)
  exact Shrinks.ite (Shrinks.raise _) (Shrinks.ofResult _)

/-- A computation behind the byte that a round begins with. -/
theorem bind_readByte_lt {α : Type} {f : Nat → Step α} (hf : ∀ v, Shrinks (left data) (f v))
    {a : α} {pos next : Nat} (h : (readByte data >>= f) pos = .ok (a, next)) :
    left data next < left data pos := by
  obtain ⟨v, middle, hread, hrest⟩ := bind_eq_ok.mp h
  exact Nat.lt_of_le_of_lt (hf v middle a next hrest) (readByte_lt hread)

theorem extensionRound_lt {acc pos next : Nat} {r : Nat ⊕ Nat}
    (h : extensionRound data maxOutput acc pos = .ok (r, next)) :
    left data next < left data pos := by
  refine bind_readByte_lt (fun extra => ?_) h
  refine Shrinks.ite ((Shrinks.ofResult _).bind fun _ => Shrinks.pure _) ?_
  exact (Shrinks.ofResult _).bind fun _ => Shrinks.ite (Shrinks.raise _) (Shrinks.pure _)

end Reads

/-- The continuation bytes of a length. -/
def extensionLoop : Loop (Nat × Nat) (Except Fault (Nat × Nat)) :=
  rounds (left data) (extensionRound data maxOutput) fun _ _ _ _ h => extensionRound_lt h

/-- `length_extension!`. -/
def lengthExtension (value mask : Nat) : Step Nat := fun pos =>
  if value ≠ 0 then .ok (value, pos) else (extensionLoop data maxOutput).run (mask, pos)

/-- The end of a round with a match: the match, then the literals that follow it. -/
def matchAndLiteral (distance length following : Nat) (out : Bytes) :
    Step ((Bytes × Nat) ⊕ Bytes) := do
  let out ← doMatch expectedSize distance length out
  let out ← literal data expectedSize following out
  return .inl (out, following)

/-- One instruction, with the output and the state so far. -/
def instruction (out : Bytes) (state token : Nat) : Step ((Bytes × Nat) ⊕ Bytes) := do
  if token < 16 then
    if state = 0 then
      let n ← lengthExtension data maxOutput token 15
      let n ← ofResult (add n 3)
      let out ← literal data expectedSize n out
      return .inl (out, 4)
    else
      let operand ← readByte data
      let near ← ofResult (add (token >>> 2) (operand <<< 2))
      let distance ← ofResult (add near (if state = 4 then 2049 else 1))
      matchAndLiteral data expectedSize distance (if state = 4 then 3 else 2) (token &&& 3) out
  else if token < 32 then
    let length ← lengthExtension data maxOutput (token &&& 7) 7
    let length ← ofResult (add length 2)
    let operand ← readWord data
    let far ← ofResult (add 16384 ((token &&& 8) <<< 11))
    let distance ← ofResult (add far (operand >>> 2))
    if distance = 16384 then
      let pos ← get
      if token ≠ 17 ∨ operand ≠ 0 ∨ pos ≠ data.length ∨ out.length ≠ expectedSize then
        fail "invalid LZO termination or output length"
      else return .inr out
    else matchAndLiteral data expectedSize distance length (operand &&& 3) out
  else if token < 64 then
    let length ← lengthExtension data maxOutput (token &&& 31) 31
    let length ← ofResult (add length 2)
    let operand ← readWord data
    let distance ← ofResult (add (operand >>> 2) 1)
    matchAndLiteral data expectedSize distance length (operand &&& 3) out
  else
    let length ← ofResult (add (token >>> 5) 1)
    let operand ← readByte data
    let near ← ofResult (add ((token >>> 2) &&& 7) (operand <<< 3))
    let distance ← ofResult (add near 1)
    matchAndLiteral data expectedSize distance length (token &&& 3) out

/-- One round of the main loop. -/
def mainRound : Bytes × Nat → Step ((Bytes × Nat) ⊕ Bytes)
  | (out, state) => do
    let token ← readByte data
    instruction data expectedSize maxOutput out state token

section Reads

variable {data expectedSize maxOutput}

open Decoder

theorem shrinks_lengthExtension (value mask : Nat) :
    Shrinks (left data) (lengthExtension data maxOutput value mask) := by
  intro pos n next h
  unfold lengthExtension at h
  split at h
  · cases Except.ok.inj h
    exact Nat.le_refl _
  · exact (rounds_lt (fun _ _ _ _ hround => extensionRound_lt hround) h).le

theorem shrinks_matchAndLiteral (distance length following : Nat) (out : Bytes) :
    Shrinks (left data) (matchAndLiteral data expectedSize distance length following out) :=
  (shrinks_doMatch _ _ _).bind fun _ => (shrinks_literal _ _).bind fun _ => Shrinks.pure _

theorem shrinks_instruction (out : Bytes) (state token : Nat) :
    Shrinks (left data) (instruction data expectedSize maxOutput out state token) := by
  unfold instruction
  split
  · split
    · refine (shrinks_lengthExtension _ _).bind fun _ => (Shrinks.ofResult _).bind fun _ => ?_
      exact (shrinks_literal _ _).bind fun _ => Shrinks.pure _
    · refine shrinks_readByte.bind fun _ => (Shrinks.ofResult _).bind fun _ => ?_
      exact (Shrinks.ofResult _).bind fun _ => shrinks_matchAndLiteral _ _ _ _
  · split
    · refine (shrinks_lengthExtension _ _).bind fun _ => (Shrinks.ofResult _).bind fun _ => ?_
      refine shrinks_readWord.bind fun _ => (Shrinks.ofResult _).bind fun _ => ?_
      refine (Shrinks.ofResult _).bind fun distance => Shrinks.ite ?_ ?_
      · exact Shrinks.get.bind fun _ => Shrinks.ite (Shrinks.raise _) (Shrinks.pure _)
      · exact shrinks_matchAndLiteral _ _ _ _
    · split
      · refine (shrinks_lengthExtension _ _).bind fun _ => (Shrinks.ofResult _).bind fun _ => ?_
        refine shrinks_readWord.bind fun _ => (Shrinks.ofResult _).bind fun _ => ?_
        exact shrinks_matchAndLiteral _ _ _ _
      · refine (Shrinks.ofResult _).bind fun _ => shrinks_readByte.bind fun _ => ?_
        refine (Shrinks.ofResult _).bind fun _ => (Shrinks.ofResult _).bind fun _ => ?_
        exact shrinks_matchAndLiteral _ _ _ _

theorem mainRound_lt {s : Bytes × Nat} {pos next : Nat} {r : (Bytes × Nat) ⊕ Bytes}
    (h : mainRound data expectedSize maxOutput s pos = .ok (r, next)) :
    left data next < left data pos :=
  bind_readByte_lt (fun token => shrinks_instruction s.1 s.2 token) h

end Reads

/-- The main loop, over the output, the state and the cursor. -/
def mainLoop : Loop ((Bytes × Nat) × Nat) (Except Fault (Bytes × Nat)) :=
  rounds (left data) (mainRound data expectedSize maxOutput) fun _ _ _ _ h => mainRound_lt h

/-- `lzo1x_decompress`. -/
def decompress : Except Fault Bytes := do
  if maxOutput < expectedSize then refuse "invalid decompressed size"
  else if data.length < 3 then refuse "missing LZO1X end marker"
  else
    let start ← sub data.length 3
    let marker ← range data start data.length
    if marker ≠ endMarker then refuse "missing LZO1X end marker"
    else
      let first ← index data 0
      if 17 < first.toNat then
        -- An initial run of literals names its length in the first byte.
        let (v, pos) ← readByte data 0
        let count ← sub v 17
        let (out, pos) ← literal data expectedSize count [] pos
        ((mainLoop data expectedSize maxOutput).run ((out, min count 4), pos)).map Prod.fst
      else ((mainLoop data expectedSize maxOutput).run (([], 0), 0)).map Prod.fst

/-! ## The machine answers as the decoder does -/

/-- The inputs over which 64 bits are enough for a length: not too many bytes to sum up
255 for each, or a limit that a length does not exceed by much. -/
structure Fits (data : Bytes) (maxOutput : Nat) : Prop where
  maxOutput_lt : maxOutput < 2 ^ 64
  length_lt : data.length < 2 ^ 64
  bound : 255 * data.length < 2 ^ 64 ∨ 2 * maxOutput + 258 < 2 ^ 64

/-- The machine answers as the reader does, its cursor is where the bytes that remain
begin, and what it gives has `Q`. -/
abbrev Agrees {α : Type} (data : Bytes) (x : Except Fault (α × Nat)) (y : Result (α × Bytes))
    (Q : α → Nat → Prop) : Prop :=
  Decoder.Agrees Fault.rejected (fun pos => data.drop pos) x y Q

/-- The machine and the reader agree from this position on. -/
abbrev Refines {α : Type} (data : Bytes) (x : Step α) (y : Reader α) (pos : Nat)
    (Q : α → Nat → Prop) : Prop :=
  Decoder.Refines Fault.rejected (fun pos => data.drop pos) x y pos Q

open Decoder (rounds_of_error rounds_of_next rounds_of_stop)

section Refinement

variable {data : Bytes} {expectedSize maxOutput : Nat}

theorem readByte_of_lt (hdata : data.length < 2 ^ 64) {pos : Nat} (hlt : pos < data.length) :
    readByte data pos = .ok (data[pos].toNat, pos + 1) := by
  have hindex : index data pos = .ok data[pos] := index_of_lt hlt
  have hadd : add pos 1 = .ok (pos + 1) := add_of_lt (by omega)
  show (if data.length ≤ pos then fail "truncated LZO instruction"
    else ofResult (index data pos) >>= _) pos = _
  rw [if_neg (by omega), Decoder.bind_of_ok (Decoder.ofResult_eq_ok.mpr ⟨hindex, rfl⟩),
    Decoder.bind_of_ok (Decoder.ofResult_eq_ok.mpr ⟨hadd, rfl⟩)]
  rfl

theorem readByte_of_ge {pos : Nat} (hge : data.length ≤ pos) :
    readByte data pos = .error (.rejected ⟨"truncated LZO instruction"⟩) := by
  show (if data.length ≤ pos then fail "truncated LZO instruction"
    else ofResult (index data pos) >>= _) pos = _
  rw [if_pos hge]
  rfl

theorem readByte_refines (hdata : data.length < 2 ^ 64) (pos : Nat) :
    Refines data (readByte data) Lzo.readByte pos fun v next =>
      next = pos + 1 ∧ next ≤ data.length ∧ v < 256 := by
  rw [Refines, Decoder.Refines]
  rcases Nat.lt_or_ge pos data.length with hlt | hge
  · rw [readByte_of_lt hdata hlt, List.drop_eq_getElem_cons hlt]
    exact ⟨pos + 1, rfl, rfl, rfl, hlt, data[pos].toNat_lt⟩
  · rw [readByte_of_ge hge, List.drop_of_length_le hge]
    rfl

theorem readWord_refines (hdata : data.length < 2 ^ 64) (pos : Nat) :
    Refines data (readWord data) Lzo.readWord pos fun v next =>
      next = pos + 2 ∧ next ≤ data.length ∧ v < 2 ^ 16 := by
  refine (readByte_refines hdata pos).bind fun lo next hlo => ?_
  obtain ⟨rfl, -, hlo⟩ := hlo
  refine (readByte_refines hdata (pos + 1)).bind fun hi next hhi => ?_
  obtain ⟨rfl, hnext, hhi⟩ := hhi
  refine .pure ⟨rfl, hnext, Nat.or_lt_two_pow (by omega) ?_⟩
  rw [Nat.shiftLeft_eq]
  omega

theorem literal_refines (hdata : data.length < 2 ^ 64) {pos length : Nat} {out : Bytes}
    (hpos : pos ≤ data.length)
    (hfits : length ≤ data.length - pos → out.length + length < 2 ^ 64) :
    Refines data (literal data expectedSize length out) (Lzo.literal expectedSize length out) pos
      fun out' next => next = pos + length ∧ next ≤ data.length ∧
        out'.length = out.length + length ∧ out'.length ≤ expectedSize := by
  refine .get (.checked (sub_of_le hpos) ?_)
  rcases Nat.lt_or_ge (data.length - pos) length with hshort | hroom
  · rw [if_pos hshort, Decoder.Refines, Lzo.literal, List.length_drop, if_pos (.inl hshort)]
    rfl
  rw [if_neg (by omega)]
  refine .checked (add_of_lt (hfits hroom)) ?_
  rcases Nat.lt_or_ge expectedSize (out.length + length) with hlarge | hsize
  · rw [if_pos hlarge, Decoder.Refines, Lzo.literal, if_pos (.inr hlarge)]
    rfl
  rw [if_neg (by omega)]
  have hchunk : range data pos (pos + length) = .ok (slice data pos length) := by
    rw [range, if_pos (by omega), Nat.add_sub_cancel_left]
  have hlength : (slice data pos length).length = length := length_slice (by omega)
  have hextend : extend expectedSize out (slice data pos length) =
      .ok (out ++ slice data pos length) := by
    rw [extend, hlength, if_pos hsize]
  refine .checked (add_of_lt (by omega)) (.checked hchunk
    (.checked hextend ?_))
  have hboth : (out ++ slice data pos length).length = out.length + length := by
    rw [List.length_append, hlength]
  rw [Decoder.Refines, Lzo.literal, List.length_drop, if_neg (by omega)]
  exact ⟨pos + length, rfl, List.drop_drop, rfl, by omega, hboth, hboth.trans_le hsize⟩

theorem copyMatch_eq {distance length : Nat} {out : Bytes} (hdistance : 1 ≤ distance)
    (hout : distance ≤ out.length) (hsize : out.length + length ≤ expectedSize) :
    copyMatch expectedSize distance length out = .ok (Lzo.copyMatch distance length out) ∧
      (Lzo.copyMatch distance length out).length = out.length + length := by
  induction length generalizing out with
  | zero => exact ⟨rfl, rfl⟩
  | succ length ih =>
    have hlt : out.length - distance < out.length := by omega
    have hindex : index out (out.length - distance) = .ok (out.getD (out.length - distance) 0) := by
      rw [index, List.getD_eq_getElem?_getD, List.getElem?_eq_getElem hlt]
      rfl
    have hextend (byte : UInt8) : extend expectedSize out [byte] = .ok (out ++ [byte]) :=
      if_pos (by rw [List.length_singleton]; omega)
    have hlength (byte : UInt8) : (out ++ [byte]).length = out.length + 1 := List.length_append
    obtain ⟨hcopy, hcount⟩ := @ih (out ++ [out.getD (out.length - distance) 0])
      (by rw [hlength]; omega) (by rw [hlength]; omega)
    rw [hlength] at hcount
    rw [copyMatch, sub_of_le hout, Lzo.copyMatch]
    refine ⟨?_, by omega⟩
    show (index out (out.length - distance) >>= _) = _
    rw [hindex]
    show (extend expectedSize out _ >>= _) = _
    rw [hextend]
    exact hcopy

theorem doMatch_refines {pos distance length : Nat} {out : Bytes}
    (hfits : out.length + length < 2 ^ 64) :
    Refines data (doMatch expectedSize distance length out)
      (Lzo.doMatch expectedSize distance length out) pos fun out' next =>
        next = pos ∧ out'.length = out.length + length ∧ out'.length ≤ expectedSize := by
  unfold doMatch
  by_cases hdistance : distance < 1 ∨ out.length < distance
  · rw [if_pos hdistance, Refines, Decoder.Refines, Lzo.doMatch, if_pos (by omega)]
    rfl
  rw [if_neg hdistance]
  refine .checked (add_of_lt hfits) ?_
  rcases Nat.lt_or_ge expectedSize (out.length + length) with hlarge | hsize
  · rw [if_pos hlarge, Decoder.Refines, Lzo.doMatch, if_pos (by omega)]
    rfl
  obtain ⟨hcopy, hlength⟩ :=
    @copyMatch_eq expectedSize distance length out (by omega) (by omega) hsize
  rw [if_neg (by omega), hcopy, Decoder.Refines, Lzo.doMatch, if_neg (by omega)]
  exact ⟨pos, rfl, rfl, rfl, hlength, by omega⟩

/-- A length that continues, from the bytes at `start` on. -/
structure Extending (data : Bytes) (maxOutput start mask acc pos : Nat) : Prop where
  start_le : start ≤ pos
  pos_le : pos ≤ data.length
  acc_le : acc ≤ mask + 255 * (pos - start)
  acc_le_max : acc ≤ max 31 maxOutput

/-- A length with its continuation bytes: at most 255 for each of them. -/
structure Extended (data : Bytes) (maxOutput start mask n pos : Nat) : Prop where
  start_le : start ≤ pos
  pos_le : pos ≤ data.length
  le : n ≤ mask + 255 * (pos - start)
  le_max : n ≤ max 31 maxOutput + 255

theorem extensionRound_of_last (hdata : data.length < 2 ^ 64) {acc pos : Nat}
    (hlt : pos < data.length) (hlast : data[pos] ≠ 0) (hfits : acc + data[pos].toNat < 2 ^ 64) :
    extensionRound data maxOutput acc pos = .ok (.inr (acc + data[pos].toNat), pos + 1) := by
  have hne : data[pos].toNat ≠ 0 := fun h => hlast (UInt8.toNat_inj.mp h)
  rw [extensionRound, Decoder.bind_of_ok (readByte_of_lt hdata hlt), if_pos hne,
    Decoder.bind_of_ok (Decoder.ofResult_eq_ok.mpr ⟨add_of_lt hfits, rfl⟩)]
  rfl

theorem extensionRound_of_zero (hdata : data.length < 2 ^ 64) {acc pos : Nat}
    (hlt : pos < data.length) (hzero : data[pos] = 0) (hfits : acc + 255 < 2 ^ 64) :
    extensionRound data maxOutput acc pos =
      if maxOutput < acc + 255 then .error (.rejected ⟨"excessive LZO length extension"⟩)
      else .ok (.inl (acc + 255), pos + 1) := by
  have heq : ¬data[pos].toNat ≠ 0 := by rw [hzero]; decide
  rw [extensionRound, Decoder.bind_of_ok (readByte_of_lt hdata hlt), if_neg heq,
    Decoder.bind_of_ok (Decoder.ofResult_eq_ok.mpr ⟨add_of_lt hfits, rfl⟩)]
  split <;> rfl

theorem extensionLoop_agrees (hfits : Fits data maxOutput) {start mask : Nat} (hstart : 1 ≤ start)
    (hmask : mask ≤ 31) {acc pos : Nat} (h : Extending data maxOutput start mask acc pos) :
    Agrees data ((extensionLoop data maxOutput).run (acc, pos))
      ((Lzo.extensionLoop maxOutput).run (acc, data.drop pos))
      (Extended data maxOutput start mask) := by
  refine Loop.run_sim (extensionLoop data maxOutput) (Lzo.extensionLoop maxOutput)
    (R := fun s t => t = (s.1, data.drop s.2) ∧ Extending data maxOutput start mask s.1 s.2)
    (S := fun x y => Agrees data x y (Extended data maxOutput start mask)) ?_ ⟨rfl, h⟩
  rintro ⟨acc, pos⟩ t ⟨rfl, hstartle, hpos, hacc, haccmax⟩
  dsimp only at hstartle hpos hacc haccmax ⊢
  have hdata := hfits.length_lt
  have hbound := hfits.bound
  rcases Nat.lt_or_ge pos data.length with hlt | hge
  · rw [List.drop_eq_getElem_cons hlt]
    have hbyte := data[pos].toNat_lt
    by_cases hzero : data[pos] = 0
    · have hround := @extensionRound_of_zero data maxOutput hdata acc pos hlt hzero (by omega)
      by_cases hmax : maxOutput < acc + 255
      · rw [if_pos hmax] at hround
        refine .inl ⟨_, .error ⟨"excessive LZO length extension"⟩, rounds_of_error hround, ?_, rfl⟩
        simp only [Lzo.extensionLoop, if_neg (not_not_intro hzero), if_pos hmax]
        rfl
      · rw [if_neg hmax] at hround
        refine .inr ⟨_, (acc + 255, data.drop (pos + 1)), rounds_of_next hround, ?_, rfl, ?_⟩
        · simp only [Lzo.extensionLoop, if_neg (not_not_intro hzero), if_neg hmax]
        · exact ⟨by dsimp only; omega, hlt, by dsimp only; omega, by dsimp only; omega⟩
    · have hround := @extensionRound_of_last data maxOutput hdata acc pos hlt hzero (by omega)
      refine .inl ⟨_, .ok (acc + data[pos].toNat, data.drop (pos + 1)), rounds_of_stop hround, ?_,
        pos + 1, rfl, rfl, ?_⟩
      · simp only [Lzo.extensionLoop, if_pos hzero]
      · exact ⟨by omega, hlt, by omega, by omega⟩
  · have hround : extensionRound data maxOutput acc pos =
        .error (.rejected ⟨"truncated LZO instruction"⟩) :=
      Decoder.bind_of_error (readByte_of_ge hge)
    rw [List.drop_of_length_le hge]
    exact .inl ⟨_, .error ⟨"truncated LZO instruction"⟩, rounds_of_error hround, rfl, rfl⟩

/-- A length of a token, and its continuation. -/
theorem lengthExtension_refines (hfits : Fits data maxOutput) {value mask pos : Nat}
    (hpos : pos ≤ data.length) (hstart : 1 ≤ pos) (hmask : mask ≤ 31) (hvalue : value ≤ mask) :
    Refines data (lengthExtension data maxOutput value mask)
      (Lzo.lengthExtension maxOutput value mask) pos (Extended data maxOutput pos mask) := by
  unfold Refines Decoder.Refines lengthExtension Lzo.lengthExtension
  split
  · exact ⟨pos, rfl, rfl, Nat.le_refl _, hpos, by omega, by omega⟩
  · refine extensionLoop_agrees hfits hstart hmask ⟨Nat.le_refl _, hpos, by omega, by omega⟩

/-- The output is within its size, and at most 255 bytes for each one that was read. -/
structure Written (data : Bytes) (expectedSize : Nat) (out : Bytes) (pos : Nat) : Prop where
  pos_le : pos ≤ data.length
  size_le : out.length ≤ expectedSize
  le_read : out.length ≤ 255 * pos

/-- What a round gives. -/
def RoundGives (data : Bytes) (expectedSize : Nat) (r : (Bytes × Nat) ⊕ Bytes) (pos : Nat) : Prop :=
  ∀ out state, r = .inl (out, state) → Written data expectedSize out pos

theorem matchAndLiteral_refines (hfits : Fits data maxOutput) (hsize : expectedSize ≤ maxOutput)
    {pos distance length following : Nat} {out : Bytes} (hpos : pos ≤ data.length)
    (hread : out.length + length ≤ 255 * pos) (hsum : out.length + length < 2 ^ 64)
    (hfollowing : following ≤ 3) :
    Refines data (matchAndLiteral data expectedSize distance length following out)
      (Lzo.matchAndLiteral expectedSize distance length following out) pos
      (RoundGives data expectedSize) := by
  have hdata := hfits.length_lt
  have hbound := hfits.bound
  refine (doMatch_refines hsum).bind fun matched next hmatched => ?_
  obtain ⟨rfl, hlength, hmatched⟩ := hmatched
  refine (literal_refines hdata hpos fun hroom => by omega).bind fun out' last hout' => ?_
  obtain ⟨rfl, hlast, hlength', hout'⟩ := hout'
  refine .pure fun out'' state h => ?_
  cases h
  exact ⟨hlast, hout', by omega⟩

/-- One instruction behind its token. -/
theorem instruction_refines (hfits : Fits data maxOutput) (hsize : expectedSize ≤ maxOutput)
    {start state token : Nat} {out : Bytes} (hout : Written data expectedSize out start)
    (hpos : start + 1 ≤ data.length) (htoken : token < 256) :
    Refines data (instruction data expectedSize maxOutput out state token)
      (Lzo.instruction expectedSize maxOutput out state token) (start + 1)
      (RoundGives data expectedSize) := by
  have hdata := hfits.length_lt
  have hbound := hfits.bound
  have hmax := hfits.maxOutput_lt
  obtain ⟨-, houtsize, houtread⟩ := hout
  have hlow : token >>> 2 ≤ token := Nat.shiftRight_le _ _
  unfold instruction Lzo.instruction
  split
  · split
    · -- a run of literals
      refine (lengthExtension_refines hfits hpos (by omega) (by omega) (by omega)).bind
        fun n next hn => ?_
      obtain ⟨hstart, hnext, hle, hlemax⟩ := hn
      refine .checked (add_of_lt (by omega)) ?_
      refine (literal_refines hdata hnext fun hroom => by omega).bind fun out' last hout' => ?_
      obtain ⟨rfl, hlast, hlength, hout'⟩ := hout'
      refine .pure fun out'' state h => ?_
      cases h
      exact ⟨hlast, hout', by omega⟩
    · -- a match of two or three bytes
      refine (readByte_refines hdata _).bind fun operand next hoperand => ?_
      obtain ⟨rfl, hnext, hoperand⟩ := hoperand
      have hshift : operand <<< 2 = operand * 4 := Nat.shiftLeft_eq operand 2
      refine .checked (add_of_lt (by omega)) (.checked (add_of_lt ?_) ?_)
      · split <;> omega
      · have hlength : (if state = 4 then 3 else 2) ≤ 3 := by split <;> omega
        exact matchAndLiteral_refines hfits hsize hnext (by omega) (by omega) Nat.and_le_right
  · split
    · have hvalue : token &&& 7 ≤ 7 := Nat.and_le_right
      refine (lengthExtension_refines hfits hpos (by omega) (by omega) hvalue).bind
        fun length next hlength => ?_
      obtain ⟨hstart, hnext, hle, hlemax⟩ := hlength
      refine .checked (add_of_lt (by omega)) ?_
      refine (readWord_refines hdata _).bind fun operand last hoperand => ?_
      obtain ⟨rfl, hlast, hoperand⟩ := hoperand
      have hflag : (token &&& 8) <<< 11 ≤ 8 * 2048 := by
        rw [Nat.shiftLeft_eq]
        exact Nat.mul_le_mul_right _ Nat.and_le_right
      have hdistance : operand >>> 2 ≤ operand := Nat.shiftRight_le _ _
      refine .checked (add_of_lt (by omega)) (.checked (add_of_lt (by omega)) ?_)
      dsimp only
      split
      · -- the end marker
        refine .get (.get_view ?_)
        have hend : data.drop (next + 2) ≠ [] ↔ next + 2 ≠ data.length := by
          rw [ne_eq, List.drop_eq_nil_iff]
          omega
        by_cases hstop : token ≠ 17 ∨ operand ≠ 0 ∨ next + 2 ≠ data.length ∨
            out.length ≠ expectedSize
        · rw [if_pos hstop, if_pos (by rwa [hend])]
          exact .raise _
        · rw [if_neg hstop, if_neg (by rwa [hend])]
          exact .pure nofun
      · exact matchAndLiteral_refines hfits hsize hlast (by omega) (by omega) Nat.and_le_right
    · split
      · have hvalue : token &&& 31 ≤ 31 := Nat.and_le_right
        refine (lengthExtension_refines hfits hpos (by omega) (by omega) hvalue).bind
          fun length next hlength => ?_
        obtain ⟨hstart, hnext, hle, hlemax⟩ := hlength
        refine .checked (add_of_lt (by omega)) ?_
        refine (readWord_refines hdata _).bind fun operand last hoperand => ?_
        obtain ⟨rfl, hlast, hoperand⟩ := hoperand
        have hdistance : operand >>> 2 ≤ operand := Nat.shiftRight_le _ _
        refine .checked (add_of_lt (by omega)) ?_
        exact matchAndLiteral_refines hfits hsize hlast (by omega) (by omega) Nat.and_le_right
      · have hlength : token >>> 5 < 8 := by
          rw [Nat.shiftRight_eq_div_pow]
          omega
        refine .checked (add_of_lt (by omega)) ?_
        refine (readByte_refines hdata _).bind fun operand next hoperand => ?_
        obtain ⟨rfl, hnext, hoperand⟩ := hoperand
        have hvalue : token >>> 2 &&& 7 ≤ 7 := Nat.and_le_right
        have hshift : operand <<< 3 = operand * 8 := Nat.shiftLeft_eq operand 3
        refine .checked (add_of_lt (by omega)) (.checked (add_of_lt (by omega)) ?_)
        exact matchAndLiteral_refines hfits hsize hnext (by omega) (by omega) Nat.and_le_right

theorem mainRound_refines (hfits : Fits data maxOutput) (hsize : expectedSize ≤ maxOutput)
    {state pos : Nat} {out : Bytes} (hout : Written data expectedSize out pos) :
    Refines data (mainRound data expectedSize maxOutput (out, state))
      (Lzo.readByte >>= Lzo.instruction expectedSize maxOutput out state) pos
      (RoundGives data expectedSize) := by
  refine (readByte_refines hfits.length_lt pos).bind fun token next htoken => ?_
  obtain ⟨rfl, hnext, htoken⟩ := htoken
  exact instruction_refines hfits hsize hout hnext htoken

theorem mainLoop_agrees (hfits : Fits data maxOutput) (hsize : expectedSize ≤ maxOutput)
    {state pos : Nat} {out : Bytes} (hout : Written data expectedSize out pos) :
    (((mainLoop data expectedSize maxOutput).run ((out, state), pos)).map Prod.fst) =
      Fault.ofResult ((Lzo.mainLoop expectedSize maxOutput).run (data.drop pos, out, state)) := by
  refine Loop.run_sim (mainLoop data expectedSize maxOutput) (Lzo.mainLoop expectedSize maxOutput)
    (R := fun s t => t = (data.drop s.2, s.1.1, s.1.2) ∧ Written data expectedSize s.1.1 s.2)
    (S := fun x y => x.map Prod.fst = Fault.ofResult y) ?_ ⟨rfl, hout⟩
  rintro ⟨⟨out, state⟩, pos⟩ t ⟨rfl, hout⟩
  have hround := @mainRound_refines data expectedSize maxOutput hfits hsize state pos out hout
  unfold Refines Decoder.Refines Decoder.Agrees at hround
  dsimp only
  cases hreader : (Lzo.readByte >>= Lzo.instruction expectedSize maxOutput out state)
      (data.drop pos) with
  | error e =>
    rw [hreader] at hround
    refine .inl ⟨_, .error e, rounds_of_error hround, ?_, rfl⟩
    simp only [Lzo.mainLoop, hreader]
  | ok p =>
    obtain ⟨r, rest⟩ := p
    rw [hreader] at hround
    obtain ⟨next, hmachine, rfl, hgives⟩ := hround
    cases r with
    | inl s =>
      obtain ⟨out', state'⟩ := s
      refine .inr ⟨_, (data.drop next, out', state'), rounds_of_next hmachine, ?_, rfl,
        hgives out' state' rfl⟩
      simp only [Lzo.mainLoop, hreader]
    | inr out' =>
      refine .inl ⟨_, .ok out', rounds_of_stop hmachine, ?_, rfl⟩
      simp only [Lzo.mainLoop, hreader]

/-- The machine panics nowhere: it answers as the decoder does. -/
theorem decompress_agrees (hfits : Fits data maxOutput) :
    decompress data expectedSize maxOutput =
      Fault.ofResult (lzo1xDecompress data expectedSize maxOutput) := by
  unfold decompress lzo1xDecompress
  split
  · rfl
  rename_i hsize
  split
  · rename_i hshort
    rw [if_pos (.inl hshort)]
    rfl
  rename_i hlong
  have hmarker : range data (data.length - 3) data.length =
      .ok (data.drop (data.length - 3)) := by
    rw [range, if_pos (by omega), slice, List.take_of_length_le]
    rw [List.length_drop]
  rw [sub_of_le (by omega)]
  show (range data (data.length - 3) data.length >>= _) = _
  rw [hmarker]
  show (if data.drop (data.length - 3) ≠ endMarker then _ else _) = _
  by_cases hend : data.drop (data.length - 3) ≠ endMarker
  · rw [if_pos hend, if_pos (.inr hend)]
    rfl
  rw [if_neg hend, if_neg (not_or.mpr ⟨hlong, hend⟩)]
  obtain ⟨first, rest, rfl⟩ := List.exists_cons_of_ne_nil
    (List.length_pos_iff.mp (by omega : 0 < data.length))
  show (if 17 < first.toNat then _ else _) = Fault.ofResult (if 17 < first.toNat then _ else _)
  have hstart : Written (first :: rest) expectedSize [] 0 :=
    ⟨Nat.zero_le _, Nat.zero_le _, Nat.zero_le _⟩
  split
  · rename_i hfirst
    rw [readByte_of_lt hfits.length_lt (by omega)]
    show (sub first.toNat 17 >>= _) = _
    rw [sub_of_le (by omega)]
    show (literal (first :: rest) expectedSize (first.toNat - 17) [] 1 >>= _) = _
    have hfirst := first.toNat_lt
    have hliteral := @literal_refines (first :: rest) expectedSize hfits.length_lt 1
      (first.toNat - 17) [] (by rw [List.length_cons]; omega) fun _ => by
        rw [List.length_nil]
        omega
    unfold Refines Decoder.Refines Decoder.Agrees at hliteral
    have hdrop : (first :: rest).drop 1 = rest := rfl
    dsimp only at hliteral
    rw [hdrop] at hliteral
    simp only [List.headD_cons, List.tail_cons]
    cases hreader : Lzo.literal expectedSize (first.toNat - 17) [] rest with
    | error e =>
      rw [hreader] at hliteral
      rw [hliteral]
      rfl
    | ok p =>
      obtain ⟨out, remaining⟩ := p
      rw [hreader] at hliteral
      obtain ⟨next, hmachine, rfl, rfl, hnext, hlength, hout⟩ := hliteral
      rw [hmachine]
      rw [List.length_nil] at hlength
      have hwritten : Written (first :: rest) expectedSize out (1 + (first.toNat - 17)) :=
        ⟨hnext, hout, by omega⟩
      exact mainLoop_agrees hfits (Nat.le_of_not_lt hsize) hwritten
  · exact mainLoop_agrees hfits (Nat.le_of_not_lt hsize) hstart

/-- A round of either loop that does not fail has read at least one byte. -/
theorem mainRound_reads {s : Bytes × Nat} {pos next : Nat} {r : (Bytes × Nat) ⊕ Bytes}
    (h : mainRound data expectedSize maxOutput s pos = .ok (r, next)) : pos < next := by
  have hlt := mainRound_lt h
  unfold left at hlt
  omega

theorem extensionRound_reads {acc pos next : Nat} {r : Nat ⊕ Nat}
    (h : extensionRound data maxOutput acc pos = .ok (r, next)) : pos < next := by
  have hlt := extensionRound_lt h
  unfold left at hlt
  omega

/-- The decoder is safe.  No read, no copy and no arithmetic of it panics, and no write
takes the output beyond its declared size, which is at most the limit.  Every round of
its two loops reads. -/
theorem decompress_safe (hfits : Fits data maxOutput) (expectedSize : Nat) :
    decompress data expectedSize maxOutput =
        Fault.ofResult (lzo1xDecompress data expectedSize maxOutput) ∧
      decompress data expectedSize maxOutput ≠ .error .panicked ∧
      (∀ out, decompress data expectedSize maxOutput = .ok out →
        out.length = expectedSize ∧ expectedSize ≤ maxOutput) ∧
      (∀ s pos r next, mainRound data expectedSize maxOutput s pos = .ok (r, next) → pos < next) ∧
      ∀ acc pos r next, extensionRound data maxOutput acc pos = .ok (r, next) → pos < next := by
  have hagrees := @decompress_agrees data expectedSize maxOutput hfits
  refine ⟨hagrees, ?_, ?_, fun s pos r next => mainRound_reads, fun acc pos r next =>
    extensionRound_reads⟩
  · rw [hagrees]
    exact Fault.ofResult_ne_panicked _
  · intro out hout
    rw [hagrees, Fault.ofResult_eq_ok] at hout
    obtain ⟨hmax, -, hlength⟩ := lzo1xDecompress_sound hout
    exact ⟨hlength, hmax⟩

end Refinement

/-- The limit of the messages leaves room for every input. -/
theorem decompress_safe_store :
    Fits [0x12, 0x41, 0x11, 0, 0] MAX_MESSAGE ∧
      decompress [0x12, 0x41, 0x11, 0, 0] 1 MAX_MESSAGE = .ok [0x41] := by
  have hfits : Fits [0x12, 0x41, 0x11, 0, 0] MAX_MESSAGE :=
    ⟨by decide, by decide, .inr (by decide)⟩
  refine ⟨hfits, (decompress_safe hfits 1).1.trans ?_⟩
  decide

/-! ## Where 64 bits are not enough -/

/-- A length that continues over zero bytes for long enough is too large to be counted. -/
theorem extensionLoop_zeros {data : Bytes} (hdata : data.length < 2 ^ 64) {acc pos zeros : Nat}
    (hzeros : ∀ i < zeros, data[pos + i]? = some 0) (hacc : acc < 2 ^ 64)
    (hsum : 2 ^ 64 ≤ acc + 255 * zeros) :
    (extensionLoop data (2 ^ 64 - 1)).run (acc, pos) = .error .panicked := by
  induction zeros generalizing acc pos with
  | zero => omega
  | succ zeros ih =>
    obtain ⟨hlt, hzero⟩ : ∃ h : pos < data.length, data[pos] = 0 :=
      List.getElem?_eq_some_iff.mp (hzeros 0 (Nat.succ_pos _))
    rcases Nat.lt_or_ge (acc + 255) (2 ^ 64) with hfits | hlarge
    · have hround := @extensionRound_of_zero data (2 ^ 64 - 1) hdata acc pos hlt hzero hfits
      rw [if_neg (by omega)] at hround
      refine (Loop.run_of_next _ (rounds_of_next hround)).trans
        (ih (fun i hi => ?_) hfits (by omega))
      rw [Nat.add_assoc, Nat.add_comm 1]
      exact hzeros (i + 1) (by omega)
    · have hadd : add acc 255 = .error .panicked := if_neg (by omega)
      refine Loop.run_of_stop _ (rounds_of_error ?_)
      have heq : ¬data[pos].toNat ≠ 0 := by
        rw [hzero]
        decide
      rw [extensionRound, Decoder.bind_of_ok (readByte_of_lt hdata hlt), if_neg heq, hadd]
      rfl

/-- A first token with a length of zero, zero bytes behind it, and the end marker. -/
def zeroStream (zeros : Nat) : Bytes := 0 :: (List.replicate zeros 0 ++ endMarker)

theorem length_zeroStream (zeros : Nat) : (zeroStream zeros).length = zeros + 4 := by
  rw [zeroStream, List.length_cons, List.length_append, List.length_replicate]
  rfl

theorem decompress_zeroStream {zeros : Nat} (hlength : zeros + 4 < 2 ^ 64)
    (hsum : 2 ^ 64 ≤ 15 + 255 * zeros) :
    decompress (zeroStream zeros) 0 (2 ^ 64 - 1) = .error .panicked := by
  have hdata := length_zeroStream zeros
  have hmarker : range (zeroStream zeros) (zeros + 1) (zeros + 4) = .ok endMarker := by
    rw [range, if_pos (by omega), slice, zeroStream, List.drop_succ_cons,
      List.drop_left' List.length_replicate]
    exact congrArg Except.ok (List.take_of_length_le (by show 3 ≤ _; omega))
  have hextension : (extensionLoop (zeroStream zeros) (2 ^ 64 - 1)).run (15, 1) =
      .error .panicked := by
    refine extensionLoop_zeros (by omega) (fun i hi => ?_) (by omega) hsum
    rw [zeroStream, Nat.add_comm 1, List.getElem?_cons_succ,
      List.getElem?_append_left (by rw [List.length_replicate]; exact hi),
      List.getElem?_replicate_of_lt hi]
  have hround : mainRound (zeroStream zeros) 0 (2 ^ 64 - 1) ([], 0) 0 = .error .panicked := by
    rw [mainRound, Decoder.bind_of_ok (readByte_of_lt (by omega) (by omega))]
    exact Decoder.bind_of_error hextension
  have hrun :=
    Loop.run_of_stop (mainLoop (zeroStream zeros) 0 (2 ^ 64 - 1)) (rounds_of_error hround)
  rw [decompress, if_neg (by omega), hdata, if_neg (by omega), sub_of_le (by omega)]
  show (range (zeroStream zeros) (zeros + 1) (zeros + 4) >>= _) = _
  rw [hmarker]
  show ((mainLoop (zeroStream zeros) 0 (2 ^ 64 - 1)).run (([], 0), 0)).map Prod.fst = _
  rw [hrun]
  rfl

/-- A length over so many zero bytes does not fit 64 bits. -/
theorem decompress_overflow :
    ¬∀ (data : Bytes) (expectedSize maxOutput : Nat), data.length < 2 ^ 63 →
      expectedSize < 2 ^ 64 → maxOutput < 2 ^ 64 →
        decompress data expectedSize maxOutput ≠ .error .panicked := by
  intro hclaim
  refine hclaim (zeroStream 72340172838076673) 0 (2 ^ 64 - 1) ?_ (by omega) (by omega)
    (decompress_zeroStream (by omega) (by omega))
  rw [length_zeroStream]
  omega

end Lzo.Machine

end Mt5Open.Native

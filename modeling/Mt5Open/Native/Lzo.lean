import Mt5Open.Native.Compression
import Mathlib.Tactic.Ring

/-!
# The LZO1X format

A stream is an optional initial run of literals, a sequence of instructions and
the end marker.  An instruction is a run of at least four literals, or a match
with up to three literals behind it.  What the first byte of an instruction
means depends on the literals before it: `Match.Legal` and `Instruction.Legal`
say which instructions a state allows.

`Unpacks` is what a sequence writes, with matches that can overlap the bytes
they write.  `lzo1xDecompress_iff` says that the decoder accepts exactly these
streams.
-/

namespace Mt5Open.Native

open Lib

namespace Lzo

/-! ## Instructions and their bytes -/

/-- A match, by its form. -/
inductive Match where
  /-- Two bytes, behind one to three literals. -/
  | near (distance : Nat)
  /-- Three bytes, behind a run of literals. -/
  | far (distance : Nat)
  | m2 (distance length : Nat)
  | m3 (distance length : Nat)
  | m4 (distance length : Nat)
  deriving DecidableEq, Repr

inductive Instruction where
  | run (literals : Bytes)
  | copy (m : Match) (trailing : Bytes)
  deriving DecidableEq, Repr

/-- What stands for a length above the largest that a token holds: a zero byte for
each 255, and what is left. -/
def extension (excess : Nat) : Bytes :=
  List.replicate ((excess - 1) / 255) 0 ++ [UInt8.ofNat ((excess - 1) % 255 + 1)]

/-- The part of a length in the token, and the bytes behind the token. -/
def lengthField (largest length : Nat) : Nat × Bytes :=
  if length ≤ largest then (length, []) else (0, extension (length - largest))

namespace Match

def distance : Match → Nat
  | near distance | far distance | m2 distance _ | m3 distance _ | m4 distance _ => distance

def length : Match → Nat
  | near _ => 2
  | far _ => 3
  | m2 _ length | m3 _ length | m4 _ length => length

/-- The matches that can stand in a state, which is the number of literals before
them: 4 behind a run, and 0 at the start and directly behind a match. -/
def Legal (state : Nat) : Match → Prop
  | near distance => (1 ≤ state ∧ state ≤ 3) ∧ 1 ≤ distance ∧ distance ≤ 1024
  | far distance => state = 4 ∧ 2049 ≤ distance ∧ distance ≤ 3072
  | m2 distance length => (3 ≤ length ∧ length ≤ 8) ∧ 1 ≤ distance ∧ distance ≤ 2048
  | m3 distance length => 3 ≤ length ∧ 1 ≤ distance ∧ distance ≤ 16384
  | m4 distance length => 3 ≤ length ∧ 16385 ≤ distance ∧ distance ≤ 49151

/-- The bytes of a match with this number of literals behind it. -/
def bytes (following : Nat) : Match → Bytes
  | near distance =>
    [UInt8.ofNat ((distance - 1) % 4 * 4 + following), UInt8.ofNat ((distance - 1) / 4)]
  | far distance =>
    [UInt8.ofNat ((distance - 2049) % 4 * 4 + following), UInt8.ofNat ((distance - 2049) / 4)]
  | m2 distance length =>
    [UInt8.ofNat ((length - 1) * 32 + (distance - 1) % 8 * 4 + following),
      UInt8.ofNat ((distance - 1) / 8)]
  | m3 distance length =>
    UInt8.ofNat (32 + (lengthField 31 (length - 2)).1) :: ((lengthField 31 (length - 2)).2 ++
      LittleEndian.encode 2 ((distance - 1) * 4 + following))
  | m4 distance length =>
    UInt8.ofNat (16 + (distance - 16384) / 16384 * 8 + (lengthField 7 (length - 2)).1) ::
      ((lengthField 7 (length - 2)).2 ++
        LittleEndian.encode 2 ((distance - 16384) % 16384 * 4 + following))

end Match

/-- The bytes that a match writes behind the output: each one is the byte at the
distance before it, which can be one that the match itself has written. -/
def Copies (m : Match) (out copied : Bytes) : Prop :=
  copied.length = m.length ∧ ∀ i < m.length,
    (out ++ copied)[out.length + i]? = (out ++ copied)[out.length + i - m.distance]?

namespace Instruction

/-- The instructions that can stand in a state. -/
def Legal (state : Nat) : Instruction → Prop
  | run literals => state = 0 ∧ 4 ≤ literals.length
  | copy m trailing => m.Legal state ∧ trailing.length ≤ 3

/-- The state behind an instruction. -/
def state : Instruction → Nat
  | run _ => 4
  | copy _ trailing => trailing.length

def bytes : Instruction → Bytes
  | run literals =>
    UInt8.ofNat (lengthField 15 (literals.length - 3)).1 ::
      ((lengthField 15 (literals.length - 3)).2 ++ literals)
  | copy m trailing => m.bytes trailing.length ++ trailing

/-- What an instruction writes behind the output. -/
def Writes (out : Bytes) : Instruction → Bytes → Prop
  | run literals, added => added = literals
  | copy m trailing, added =>
    m.distance ≤ out.length ∧ ∃ copied, Copies m out copied ∧ added = copied ++ trailing

end Instruction

/-- What a sequence of instructions makes of a state and an output. -/
inductive Unpacks : Nat → Bytes → List Instruction → Bytes → Prop
  | done (state : Nat) (out : Bytes) : Unpacks state out [] out
  | next (state : Nat) (out added final : Bytes) (i : Instruction) (rest : List Instruction)
      (hlegal : i.Legal state) (hwrites : i.Writes out added)
      (hrest : Unpacks i.state (out ++ added) rest final) : Unpacks state out (i :: rest) final

/-- The initial run of literals, when there is one. -/
def initialRun (literals : Bytes) : Bytes :=
  if literals = [] then [] else UInt8.ofNat (literals.length + 17) :: literals

/-- The bytes are a stream whose output is `out`. -/
def Stream (bytes out : Bytes) : Prop :=
  ∃ initial instructions, initial.length ≤ 238 ∧
    bytes = initialRun initial ++ instructions.flatMap Instruction.bytes ++ endMarker ∧
    Unpacks (min initial.length 4) initial instructions out

/-! ## The readers of the decoder -/

section Readers

open Reader Decoder

variable {maxOutput expectedSize : Nat} {out input rest : Bytes}

theorem readByte_eq_ok {v : Nat} :
    readByte input = .ok (v, rest) ↔ ∃ byte : UInt8, input = byte :: rest ∧ byte.toNat = v := by
  cases input with
  | nil =>
    constructor
    · intro h
      cases h
    · rintro ⟨byte, h, -⟩
      cases h
  | cons byte tail =>
    constructor
    · intro h
      cases h
      exact ⟨byte, rfl, rfl⟩
    · rintro ⟨byte', h, rfl⟩
      cases h
      rfl

theorem readWord_eq_ok {w : Nat} :
    readWord input = .ok (w, rest) ↔ w < 65536 ∧ input = LittleEndian.encode 2 w ++ rest := by
  have hword : ∀ lo hi : UInt8, lo.toNat ||| hi.toNat <<< 8 = lo.toNat + 256 * hi.toNat := by
    intro lo hi
    have hlo : lo.toNat < 2 ^ 8 := lo.toNat_lt
    rw [Nat.or_comm, ← Nat.shiftLeft_add_eq_or_of_lt hlo, Nat.shiftLeft_eq]
    omega
  constructor
  · intro h
    obtain ⟨lo, middle, hlo, h⟩ := bind_eq_ok.mp h
    obtain ⟨hi, last, hhi, h⟩ := bind_eq_ok.mp h
    obtain ⟨rfl, rfl⟩ := pure_eq_ok.mp h
    obtain ⟨lo, rfl, rfl⟩ := readByte_eq_ok.mp hlo
    obtain ⟨hi, rfl, rfl⟩ := readByte_eq_ok.mp hhi
    have hbounds := lo.toNat_lt
    have := hi.toNat_lt
    rw [hword]
    refine ⟨by omega, ?_⟩
    have hencode := LittleEndian.encode_decode [lo, hi]
    simp only [LittleEndian.decode, List.length_cons, List.length_nil, Nat.mul_zero,
      Nat.add_zero, Nat.zero_add, Nat.reduceAdd] at hencode
    rw [hencode]
    rfl
  · rintro ⟨hw, rfl⟩
    refine bind_eq_ok.mpr ⟨w % 256, UInt8.ofNat (w / 256) :: rest, ?_, ?_⟩
    · exact readByte_eq_ok.mpr ⟨UInt8.ofNat w, rfl, by simp⟩
    · refine bind_eq_ok.mpr ⟨w / 256, rest, ?_, ?_⟩
      · refine readByte_eq_ok.mpr ⟨UInt8.ofNat (w / 256), rfl, ?_⟩
        simp
        omega
      · have hlo : (UInt8.ofNat w).toNat = w % 256 := by simp
        have hhi : (UInt8.ofNat (w / 256)).toNat = w / 256 := by
          simp
          omega
        have hvalue := hword (UInt8.ofNat w) (UInt8.ofNat (w / 256))
        rw [hlo, hhi] at hvalue
        exact pure_eq_ok.mpr ⟨by omega, rfl⟩

/-- The bytes of a length that continues, whatever the decoder does with them. -/
theorem extensionLoop_eq_ok {acc n : Nat}
    (h : (extensionLoop maxOutput).run (acc, input) = .ok (n, rest)) :
    acc < n ∧ input = extension (n - acc) ++ rest := by
  have hrule := (extensionLoop maxOutput).run_rule
    (P := fun s r => r = .ok (n, rest) → s.1 < n ∧ s.2 = extension (n - s.1) ++ rest)
    ?_ ?_ (acc, input)
  · exact hrule h
  · rintro ⟨acc, bytes⟩ r hbody rfl
    cases bytes with
    | nil => cases hbody
    | cons extra tail =>
      simp only [extensionLoop] at hbody
      split at hbody
      · rename_i hextra
        cases Sum.inr.inj hbody
        have hpos : 0 < extra.toNat := by
          rw [Nat.pos_iff_ne_zero]
          exact fun hzero => hextra (UInt8.toNat_inj.mp hzero)
        have hlt := extra.toNat_lt
        refine ⟨by omega, ?_⟩
        show extra :: rest = _
        have hzeros : (acc + extra.toNat - acc - 1) / 255 = 0 := by omega
        have hlast : (acc + extra.toNat - acc - 1) % 255 + 1 = extra.toNat := by omega
        rw [extension, hzeros, hlast, UInt8.ofNat_toNat]
        rfl
      · split at hbody
        · cases Sum.inr.inj hbody
        · cases hbody
  · rintro ⟨acc, bytes⟩ t r hbody hrest hr
    cases bytes with
    | nil => cases hbody
    | cons extra tail =>
      simp only [extensionLoop] at hbody
      split at hbody
      · cases hbody
      · rename_i hextra
        split at hbody
        · cases hbody
        · cases Sum.inl.inj hbody
          obtain ⟨hlt, hbytes⟩ := hrest hr
          simp only at hlt hbytes ⊢
          refine ⟨by omega, ?_⟩
          have hzeros : (n - acc - 1) / 255 = (n - (acc + 255) - 1) / 255 + 1 := by omega
          have hlast : (n - acc - 1) % 255 = (n - (acc + 255) - 1) % 255 := by omega
          rw [not_ne_iff.mp hextra, hbytes, extension, extension, hzeros, hlast,
            List.replicate_succ]
          rfl

/-- A length that the decoder reads has its bytes in front of it. -/
theorem lengthExtension_eq_ok {value largest n : Nat} (hvalue : value ≤ largest)
    (h : lengthExtension maxOutput value largest input = .ok (n, rest)) :
    1 ≤ n ∧ value = (lengthField largest n).1 ∧ input = (lengthField largest n).2 ++ rest := by
  unfold lengthExtension at h
  unfold lengthField
  split at h
  · rename_i hne
    cases h
    rw [if_pos hvalue]
    exact ⟨Nat.pos_of_ne_zero hne, rfl, rfl⟩
  · rename_i hzero
    obtain ⟨hlt, hinput⟩ := extensionLoop_eq_ok h
    rw [if_neg (by omega)]
    exact ⟨by omega, not_ne_iff.mp hzero, hinput⟩

/-- The decoder reads a length that it allows. -/
theorem lengthExtension_lengthField {largest n : Nat} (hpos : 1 ≤ n) (hmax : n ≤ maxOutput)
    (rest : Bytes) :
    lengthExtension maxOutput (lengthField largest n).1 largest
      ((lengthField largest n).2 ++ rest) = .ok (n, rest) := by
  unfold lengthExtension lengthField
  by_cases hshort : n ≤ largest
  · rw [if_pos hshort, if_pos (by simp; omega)]
    rfl
  · rw [if_neg hshort, if_neg (by simp)]
    have hdivision := Nat.div_add_mod (n - largest - 1) 255
    have hlast : (n - largest - 1) % 255 < 255 := Nat.mod_lt _ (by decide)
    have hfinal : (UInt8.ofNat ((n - largest - 1) % 255 + 1)).toNat =
        (n - largest - 1) % 255 + 1 := by
      rw [UInt8.toNat_ofNat']
      omega
    have hne : UInt8.ofNat ((n - largest - 1) % 255 + 1) ≠ 0 := by
      intro hzero
      rw [hzero] at hfinal
      simp at hfinal
    show (extensionLoop maxOutput).run (largest, extension (n - largest) ++ rest) = _
    rw [extension, List.append_assoc, List.singleton_append, extensionLoop_run rest hne (by omega),
      hfinal]
    congr 2
    omega

theorem literal_eq_ok {length : Nat} {out' : Bytes} :
    literal expectedSize length out input = .ok (out', rest) ↔
      ∃ literals, literals.length = length ∧ out.length + length ≤ expectedSize ∧
        input = literals ++ rest ∧ out' = out ++ literals := by
  constructor
  · intro h
    unfold literal at h
    split at h
    · cases h
    · cases h
      exact ⟨input.take length, by rw [List.length_take]; omega, by omega,
        (List.take_append_drop _ _).symm, rfl⟩
  · rintro ⟨literals, rfl, hsize, rfl, rfl⟩
    exact literal_append out rest hsize

end Readers

/-! ## Copies that overlap -/

theorem prefix_copyMatch (distance length : Nat) (out : Bytes) :
    out <+: copyMatch distance length out := by
  induction length generalizing out with
  | zero => exact List.prefix_refl out
  | succ length ih => exact (List.prefix_append out _).trans (ih _)

/-- The decoder writes one byte after the other what a match copies. -/
theorem copyMatch_eq_append_iff {distance length : Nat} {out copied : Bytes}
    (hpos : 1 ≤ distance) (hle : distance ≤ out.length) :
    copyMatch distance length out = out ++ copied ↔
      copied.length = length ∧ ∀ i < length,
        (out ++ copied)[out.length + i]? = (out ++ copied)[out.length + i - distance]? := by
  induction length generalizing out copied with
  | zero => simp [copyMatch]
  | succ length ih =>
    rw [copyMatch]
    cases copied with
    | nil =>
      have hlonger := (prefix_copyMatch distance length
        (out ++ [out.getD (out.length - distance) 0])).length_le
      constructor
      · intro h
        rw [h] at hlonger
        simp at hlonger
      · intro h
        simp at h
    | cons byte copied =>
      have hfirst : (out ++ byte :: copied)[out.length + 0]? =
          (out ++ byte :: copied)[out.length + 0 - distance]? ↔
            byte = out.getD (out.length - distance) 0 := by
        have hlt : out.length - distance < out.length := by omega
        rw [Nat.add_zero, List.getElem?_append_left hlt, List.getElem?_append_right (by omega)]
        simp [List.getElem?_eq_getElem hlt, List.getD_eq_getElem?_getD]
      have hshift : out ++ byte :: copied = (out ++ [byte]) ++ copied := by simp
      constructor
      · intro h
        -- What is written first stays in front.
        have hbyte : byte = out.getD (out.length - distance) 0 := by
          have hprefix := prefix_copyMatch distance length
            (out ++ [out.getD (out.length - distance) 0])
          rw [h, List.prefix_append_right_inj] at hprefix
          obtain ⟨tail, htail⟩ := hprefix
          exact (List.cons.inj htail).1.symm
        rw [← hbyte, hshift, ih (by simp; omega)] at h
        refine ⟨by simp [h.1], ?_⟩
        intro i hi
        cases i with
        | zero => exact hfirst.mpr hbyte
        | succ i =>
          have hnext := h.2 i (by omega)
          rw [List.length_append, List.length_singleton, Nat.add_assoc, Nat.add_comm 1 i,
            ← hshift] at hnext
          exact hnext
      · rintro ⟨hlength, hcopies⟩
        have hbyte := hfirst.mp (hcopies 0 (Nat.succ_pos _))
        rw [← hbyte, hshift, ih (by simp; omega)]
        refine ⟨by simpa using hlength, ?_⟩
        intro i hi
        have hnext := hcopies (i + 1) (by omega)
        rw [List.length_append, List.length_singleton, Nat.add_assoc, Nat.add_comm 1 i, ← hshift]
        exact hnext

/-- A match that reaches back into the output writes what it copies. -/
theorem copyMatch_eq_iff {m : Match} {out out' : Bytes} (hpos : 1 ≤ m.distance)
    (hle : m.distance ≤ out.length) :
    copyMatch m.distance m.length out = out' ↔ ∃ copied, Copies m out copied ∧
      out' = out ++ copied := by
  constructor
  · rintro rfl
    obtain ⟨copied, hcopied⟩ := prefix_copyMatch m.distance m.length out
    exact ⟨copied, (copyMatch_eq_append_iff hpos hle).mp hcopied.symm, hcopied.symm⟩
  · rintro ⟨copied, hcopies, rfl⟩
    exact (copyMatch_eq_append_iff hpos hle).mpr hcopies

/-! ## One round of the decoder -/

section Round

open Reader Decoder

variable {maxOutput expectedSize state : Nat} {out out' input rest : Bytes}

theorem matchAndLiteral_eq_ok {m : Match} {following : Nat} {result : (Bytes × Nat) ⊕ Bytes}
    (hpos : 1 ≤ m.distance) :
    matchAndLiteral expectedSize m.distance m.length following out input = .ok (result, rest) ↔
      ∃ trailing added, trailing.length = following ∧ input = trailing ++ rest ∧
        (Instruction.copy m trailing).Writes out added ∧ (out ++ added).length ≤ expectedSize ∧
        result = .inl (out ++ added, following) := by
  constructor
  · intro h
    obtain ⟨middle, input', hmatch, h⟩ := bind_eq_ok.mp h
    obtain ⟨last, input'', hliteral, h⟩ := bind_eq_ok.mp h
    obtain ⟨rfl, rfl⟩ := pure_eq_ok.mp h
    obtain ⟨trailing, hlength, hsize, rfl, rfl⟩ := literal_eq_ok.mp hliteral
    unfold doMatch at hmatch
    split at hmatch
    · cases hmatch
    · rename_i hcheck
      obtain ⟨hcopy, rfl⟩ := Prod.mk.inj (Except.ok.inj hmatch)
      obtain ⟨copied, hcopies, rfl⟩ := (copyMatch_eq_iff hpos (by omega)).mp hcopy
      refine ⟨trailing, copied ++ trailing, hlength, rfl, ⟨by omega, copied, hcopies, rfl⟩, ?_, ?_⟩
      · rw [← List.append_assoc, List.length_append, hlength]
        exact hsize
      · rw [List.append_assoc]
  · rintro ⟨trailing, added, rfl, rfl, ⟨hback, copied, hcopies, rfl⟩, hsize, rfl⟩
    have hlength := hcopies.1
    simp only [List.length_append] at hsize
    refine bind_eq_ok.mpr ⟨out ++ copied, trailing ++ rest, ?_, ?_⟩
    · unfold doMatch
      rw [if_neg (by omega), (copyMatch_eq_iff hpos hback).mpr ⟨copied, hcopies, rfl⟩]
    · refine bind_eq_ok.mpr ⟨out ++ copied ++ trailing, rest, ?_, ?_⟩
      · exact literal_eq_ok.mpr ⟨trailing, rfl, by rw [List.length_append]; omega, rfl, rfl⟩
      · exact pure_eq_ok.mpr ⟨by rw [List.append_assoc], rfl⟩

/-! The instruction of a token, with its bit fields as quotients and remainders. -/

theorem and_three (n : Nat) : n &&& 3 = n % 4 := Nat.and_two_pow_sub_one_eq_mod n 2

theorem and_seven (n : Nat) : n &&& 7 = n % 8 := Nat.and_two_pow_sub_one_eq_mod n 3

theorem and_thirtyOne (n : Nat) : n &&& 31 = n % 32 := Nat.and_two_pow_sub_one_eq_mod n 5

theorem instruction_run {token : Nat} (htoken : token < 16) :
    instruction expectedSize maxOutput out 0 token =
      (lengthExtension maxOutput token 15 >>= fun n =>
        literal expectedSize (n + 3) out >>= fun out => pure (.inl (out, 4))) := by
  unfold instruction
  rw [if_pos htoken, if_pos rfl]

/-- The short match of a token and its operand. -/
def shortMatch (state token operand : Nat) : Match :=
  if state = 4 then .far (token / 4 + operand * 4 + 2049) else .near (token / 4 + operand * 4 + 1)

theorem instruction_short {token : Nat} (htoken : token < 16) (hstate : state ≠ 0) :
    instruction expectedSize maxOutput out state token =
      (readByte >>= fun operand =>
        matchAndLiteral expectedSize (shortMatch state token operand).distance
          (shortMatch state token operand).length (token % 4) out) := by
  unfold instruction shortMatch
  rw [if_pos htoken, if_neg hstate]
  simp only [and_three, Nat.shiftRight_eq_div_pow, Nat.shiftLeft_eq]
  by_cases hfar : state = 4
  · simp only [if_pos hfar]
    rfl
  · simp only [if_neg hfar]
    rfl

theorem instruction_m4 {token : Nat} (htoken : 16 ≤ token) (hlt : token < 32) :
    instruction expectedSize maxOutput out state token =
      (lengthExtension maxOutput (token % 8) 7 >>= fun length => readWord >>= fun operand =>
        if token / 8 % 2 * 16384 + operand / 4 = 0 then
          get >>= fun remaining =>
            if token ≠ 17 ∨ operand ≠ 0 ∨ remaining ≠ [] ∨ out.length ≠ expectedSize then
              Reader.fail "invalid LZO termination or output length"
            else pure (.inr out)
        else
          matchAndLiteral expectedSize
            (Match.m4 (16384 + (token / 8 % 2 * 16384 + operand / 4)) (length + 2)).distance
            (length + 2) (operand % 4) out) := by
  have hbit : ∀ token < 32, (token &&& 8) <<< 11 = token / 8 % 2 * 16384 := by decide
  unfold instruction
  rw [if_neg (by omega), if_pos hlt]
  simp only [and_three, and_seven, Nat.shiftRight_eq_div_pow, hbit token hlt, Match.distance,
    Nat.add_assoc, Nat.add_eq_left]

theorem instruction_m3 {token : Nat} (htoken : 32 ≤ token) (hlt : token < 64) :
    instruction expectedSize maxOutput out state token =
      (lengthExtension maxOutput (token % 32) 31 >>= fun length => readWord >>= fun operand =>
        matchAndLiteral expectedSize (Match.m3 (operand / 4 + 1) (length + 2)).distance
          (length + 2) (operand % 4) out) := by
  unfold instruction
  rw [if_neg (by omega), if_neg (by omega), if_pos hlt]
  simp only [and_three, and_thirtyOne, Nat.shiftRight_eq_div_pow]
  rfl

theorem instruction_m2 {token : Nat} (htoken : 64 ≤ token) :
    instruction expectedSize maxOutput out state token =
      (readByte >>= fun operand =>
        matchAndLiteral expectedSize
          (Match.m2 (token / 4 % 8 + operand * 8 + 1) (token / 32 + 1)).distance
          (token / 32 + 1) (token % 4) out) := by
  unfold instruction
  rw [if_neg (by omega), if_neg (by omega), if_neg (by omega)]
  simp only [and_three, and_seven, Nat.shiftRight_eq_div_pow, Nat.shiftLeft_eq]
  rfl

/-- The bytes in front of the rest are an instruction that the state allows, with its
output and its state. -/
def Executes (expectedSize state : Nat) (out bytes out' : Bytes) (state' : Nat) (rest : Bytes) :
    Prop :=
  ∃ (i : Instruction) (added : Bytes), i.Legal state ∧ i.Writes out added ∧
    (out ++ added).length ≤ expectedSize ∧ bytes = i.bytes ++ rest ∧ out' = out ++ added ∧
      state' = i.state

section Sound

variable {byte : UInt8} {state' : Nat}

/-- All the matches end in the same way, behind the bytes of their own form. -/
theorem executes_copy (m : Match) (field : Bytes) {input' : Bytes} {following : Nat}
    (hpos : 1 ≤ m.distance) (hfollowing : following ≤ 3) (hlegal : m.Legal state)
    (hinput : input = field ++ input')
    (hbytes : m.bytes following = byte :: field)
    (hrun : matchAndLiteral expectedSize m.distance m.length following out input' =
      .ok (.inl (out', state'), rest)) :
    Executes expectedSize state out (byte :: input) out' state' rest := by
  obtain ⟨trailing, added, rfl, rfl, hwrites, hsize, hresult⟩ :=
    (matchAndLiteral_eq_ok hpos).mp hrun
  cases hresult
  refine ⟨.copy m trailing, added, ⟨hlegal, hfollowing⟩, hwrites, hsize, ?_, rfl, rfl⟩
  rw [hinput, Instruction.bytes, hbytes, List.cons_append, List.cons_append, List.append_assoc]

theorem executes_run (hshort : byte.toNat < 16)
    (h : instruction expectedSize maxOutput out 0 byte.toNat input =
      .ok (.inl (out', state'), rest)) :
    Executes expectedSize 0 out (byte :: input) out' state' rest := by
  rw [instruction_run hshort] at h
  obtain ⟨n, middle, hlength, hbehind⟩ := bind_eq_ok.mp h
  obtain ⟨last, input', hliteral, hlast⟩ := bind_eq_ok.mp hbehind
  obtain ⟨hresult, rfl⟩ := pure_eq_ok.mp hlast
  cases hresult
  obtain ⟨hpos, htoken, rfl⟩ := lengthExtension_eq_ok (by omega) hlength
  obtain ⟨literals, hcount, hsize, rfl, rfl⟩ := literal_eq_ok.mp hliteral
  refine ⟨.run literals, literals, ⟨rfl, by omega⟩, rfl, ?_, ?_, rfl, rfl⟩
  · rw [List.length_append, hcount]
    exact hsize
  · rw [Instruction.bytes, hcount, Nat.add_sub_cancel, ← htoken, UInt8.ofNat_toNat,
      List.cons_append, List.append_assoc]

theorem executes_short (hstate : state ≤ 4) (hzero : state ≠ 0) (hshort : byte.toNat < 16)
    (h : instruction expectedSize maxOutput out state byte.toNat input =
      .ok (.inl (out', state'), rest)) :
    Executes expectedSize state out (byte :: input) out' state' rest := by
  rw [instruction_short hshort hzero] at h
  obtain ⟨operand, middle, hoperand, hbehind⟩ := bind_eq_ok.mp h
  obtain ⟨operand, rfl, rfl⟩ := readByte_eq_ok.mp hoperand
  have hlt := operand.toNat_lt
  unfold shortMatch at hbehind
  by_cases hfar : state = 4
  · rw [if_pos hfar] at hbehind
    have htoken : (byte.toNat / 4 + operand.toNat * 4 + 2049 - 2049) % 4 * 4 +
        byte.toNat % 4 = byte.toNat := by omega
    have hhigh : (byte.toNat / 4 + operand.toNat * 4 + 2049 - 2049) / 4 =
        operand.toNat := by omega
    refine executes_copy (.far _) [operand] (Nat.le_add_left 1 _) (by omega)
      ⟨hfar, by omega, by omega⟩ rfl ?_ hbehind
    rw [Match.bytes, htoken, hhigh, UInt8.ofNat_toNat, UInt8.ofNat_toNat]
  · rw [if_neg hfar] at hbehind
    have htoken : (byte.toNat / 4 + operand.toNat * 4 + 1 - 1) % 4 * 4 +
        byte.toNat % 4 = byte.toNat := by omega
    have hhigh : (byte.toNat / 4 + operand.toNat * 4 + 1 - 1) / 4 =
        operand.toNat := by omega
    refine executes_copy (.near _) [operand] (Nat.le_add_left 1 _) (by omega)
      ⟨by omega, by omega, by omega⟩ rfl ?_ hbehind
    rw [Match.bytes, htoken, hhigh, UInt8.ofNat_toNat, UInt8.ofNat_toNat]

theorem executes_m4 (hmin : 16 ≤ byte.toNat) (hm4 : byte.toNat < 32)
    (h : instruction expectedSize maxOutput out state byte.toNat input =
      .ok (.inl (out', state'), rest)) :
    Executes expectedSize state out (byte :: input) out' state' rest := by
  rw [instruction_m4 hmin hm4] at h
  obtain ⟨length, middle, hlength, hbehind⟩ := bind_eq_ok.mp h
  obtain ⟨operand, input', hoperand, hlast⟩ := bind_eq_ok.mp hbehind
  obtain ⟨hpos, htoken, rfl⟩ := lengthExtension_eq_ok (by omega) hlength
  obtain ⟨hlt, rfl⟩ := readWord_eq_ok.mp hoperand
  by_cases hend : byte.toNat / 8 % 2 * 16384 + operand / 4 = 0
  · rw [if_pos hend] at hlast
    obtain ⟨remaining, input'', -, hcheck⟩ := bind_eq_ok.mp hlast
    split at hcheck
    · cases hcheck
    · obtain ⟨hresult, -⟩ := pure_eq_ok.mp hcheck
      cases hresult
  · rw [if_neg hend] at hlast
    have hdistance : 1 ≤ 16384 + (byte.toNat / 8 % 2 * 16384 + operand / 4) := by omega
    have hfirst : 16 + (16384 + (byte.toNat / 8 % 2 * 16384 + operand / 4) - 16384) / 16384
        * 8 + byte.toNat % 8 = byte.toNat := by omega
    have hword : (16384 + (byte.toNat / 8 % 2 * 16384 + operand / 4) - 16384) % 16384 * 4 +
        operand % 4 = operand := by omega
    refine executes_copy (.m4 _ (length + 2)) _ hdistance (by omega) ⟨by omega, by omega, by omega⟩
      (List.append_assoc _ _ _).symm ?_ hlast
    rw [Match.bytes, Nat.add_sub_cancel, ← htoken, hfirst, hword, UInt8.ofNat_toNat]

theorem executes_m3 (hmin : 32 ≤ byte.toNat) (hm3 : byte.toNat < 64)
    (h : instruction expectedSize maxOutput out state byte.toNat input =
      .ok (.inl (out', state'), rest)) :
    Executes expectedSize state out (byte :: input) out' state' rest := by
  rw [instruction_m3 hmin hm3] at h
  obtain ⟨length, middle, hlength, hbehind⟩ := bind_eq_ok.mp h
  obtain ⟨operand, input', hoperand, hlast⟩ := bind_eq_ok.mp hbehind
  obtain ⟨hpos, htoken, rfl⟩ := lengthExtension_eq_ok (by omega) hlength
  obtain ⟨hlt, rfl⟩ := readWord_eq_ok.mp hoperand
  have hfirst : 32 + byte.toNat % 32 = byte.toNat := by omega
  have hword : (operand / 4 + 1 - 1) * 4 + operand % 4 = operand := by omega
  refine executes_copy (.m3 _ (length + 2)) _ (Nat.le_add_left 1 _) (by omega)
    ⟨by omega, by omega, by omega⟩ (List.append_assoc _ _ _).symm ?_ hlast
  rw [Match.bytes, Nat.add_sub_cancel, ← htoken, hfirst, hword, UInt8.ofNat_toNat]

theorem executes_m2 (hmin : 64 ≤ byte.toNat)
    (h : instruction expectedSize maxOutput out state byte.toNat input =
      .ok (.inl (out', state'), rest)) :
    Executes expectedSize state out (byte :: input) out' state' rest := by
  have hbyte := byte.toNat_lt
  rw [instruction_m2 hmin] at h
  obtain ⟨operand, middle, hoperand, hbehind⟩ := bind_eq_ok.mp h
  obtain ⟨operand, rfl, rfl⟩ := readByte_eq_ok.mp hoperand
  have hlt := operand.toNat_lt
  have hfirst : (byte.toNat / 32 + 1 - 1) * 32 +
      (byte.toNat / 4 % 8 + operand.toNat * 8 + 1 - 1) % 8 * 4 + byte.toNat % 4 =
        byte.toNat := by omega
  have hhigh : (byte.toNat / 4 % 8 + operand.toNat * 8 + 1 - 1) / 8 =
      operand.toNat := by omega
  refine executes_copy (.m2 _ (byte.toNat / 32 + 1)) [operand] (Nat.le_add_left 1 _) (by omega)
    ⟨by omega, by omega, by omega⟩ rfl ?_ hbehind
  rw [Match.bytes, hfirst, hhigh, UInt8.ofNat_toNat, UInt8.ofNat_toNat]

/-- An instruction that the decoder goes on from is one that the state allows. -/
theorem instruction_sound (hstate : state ≤ 4)
    (h : instruction expectedSize maxOutput out state byte.toNat input =
      .ok (.inl (out', state'), rest)) :
    Executes expectedSize state out (byte :: input) out' state' rest := by
  by_cases hshort : byte.toNat < 16
  · by_cases hzero : state = 0
    · subst hzero
      exact executes_run hshort h
    · exact executes_short hstate hzero hshort h
  · by_cases hm4 : byte.toNat < 32
    · exact executes_m4 (by omega) hm4 h
    · by_cases hm3 : byte.toNat < 64
      · exact executes_m3 (by omega) hm3 h
      · exact executes_m2 (by omega) h

end Sound

theorem lengthField_le (largest length : Nat) : (lengthField largest length).1 ≤ largest := by
  unfold lengthField
  split
  · assumption
  · exact Nat.zero_le _

theorem readByte_cons {α : Type} (f : Nat → Reader α) (byte : UInt8) (input : Bytes) :
    (readByte >>= f) (byte :: input) = f byte.toNat input := rfl

theorem Match.Legal.one_le_distance {m : Match} (h : m.Legal state) : 1 ≤ m.distance := by
  cases m <;> simp only [Match.Legal] at h <;> simp only [Match.distance] <;> omega

/-- The bytes of a match lead the decoder to that match. -/
theorem instruction_match {m : Match} {following : Nat} (hlegal : m.Legal state)
    (hfollowing : following ≤ 3) (hlength : m.length ≤ maxOutput) (input : Bytes) :
    (readByte >>= instruction expectedSize maxOutput out state) (m.bytes following ++ input) =
      matchAndLiteral expectedSize m.distance m.length following out input := by
  have hbyte : ∀ {n : Nat}, n < 256 → (UInt8.ofNat n).toNat = n := UInt8.toNat_ofNat_of_lt'
  cases m with
  | near distance =>
    obtain ⟨hstate, hpos, hmax⟩ := hlegal
    rw [Match.bytes, List.cons_append, readByte_cons, hbyte (by omega),
      instruction_short (by omega) (by omega), List.cons_append, readByte_cons, hbyte (by omega)]
    have hdistance : ((distance - 1) % 4 * 4 + following) / 4 + (distance - 1) / 4 * 4 + 1 =
        distance := by omega
    have htrailing : ((distance - 1) % 4 * 4 + following) % 4 = following := by omega
    rw [shortMatch, if_neg (by omega), hdistance, htrailing]
    rfl
  | far distance =>
    obtain ⟨rfl, hpos, hmax⟩ := hlegal
    rw [Match.bytes, List.cons_append, readByte_cons, hbyte (by omega),
      instruction_short (by omega) (by omega), List.cons_append, readByte_cons, hbyte (by omega)]
    have hdistance : ((distance - 2049) % 4 * 4 + following) / 4 + (distance - 2049) / 4 * 4 +
        2049 = distance := by omega
    have htrailing : ((distance - 2049) % 4 * 4 + following) % 4 = following := by omega
    rw [shortMatch, if_pos rfl, hdistance, htrailing]
    rfl
  | m2 distance length =>
    obtain ⟨⟨hmin, hmax⟩, hpos, hdistance⟩ := hlegal
    rw [Match.bytes, List.cons_append, readByte_cons, hbyte (by omega), instruction_m2 (by omega),
      List.cons_append, readByte_cons, hbyte (by omega)]
    generalize htoken : (length - 1) * 32 + (distance - 1) % 8 * 4 + following = token
    have hlow : token / 4 % 8 + (distance - 1) / 8 * 8 + 1 = distance := by omega
    have hhigh : token / 32 + 1 = length := by omega
    have htrailing : token % 4 = following := by omega
    rw [hlow, hhigh, htrailing]
    rfl
  | m3 distance length =>
    obtain ⟨hmin, hpos, hmax⟩ := hlegal
    have hcount : length - 2 ≤ maxOutput := Nat.le_trans (Nat.sub_le _ _) hlength
    have hfield := lengthField_le 31 (length - 2)
    have htoken :
        (32 + (lengthField 31 (length - 2)).1) % 32 = (lengthField 31 (length - 2)).1 := by
      omega
    have hword : (distance - 1) * 4 + following < 65536 := by omega
    rw [Match.bytes, List.cons_append, readByte_cons, hbyte (by omega),
      instruction_m3 (by omega) (by omega), htoken, List.append_assoc,
      bind_of_ok (lengthExtension_lengthField (by omega) hcount _),
      bind_of_ok (readWord_eq_ok.mpr ⟨hword, rfl⟩)]
    have hhigh : ((distance - 1) * 4 + following) / 4 + 1 = distance := by omega
    have htrailing : ((distance - 1) * 4 + following) % 4 = following := by omega
    rw [hhigh, htrailing, Nat.sub_add_cancel (by omega)]
    rfl
  | m4 distance length =>
    obtain ⟨hmin, hpos, hmax⟩ := hlegal
    have hcount : length - 2 ≤ maxOutput := Nat.le_trans (Nat.sub_le _ _) hlength
    have hfield := lengthField_le 7 (length - 2)
    rw [Match.bytes, List.cons_append, readByte_cons]
    generalize htoken : 16 + (distance - 16384) / 16384 * 8 + (lengthField 7 (length - 2)).1 = token
    have hlow : token % 8 = (lengthField 7 (length - 2)).1 := by omega
    have hword : (distance - 16384) % 16384 * 4 + following < 65536 := by omega
    rw [hbyte (by omega), instruction_m4 (by omega) (by omega), hlow, List.append_assoc,
      bind_of_ok (lengthExtension_lengthField (by omega) hcount _),
      bind_of_ok (readWord_eq_ok.mpr ⟨hword, rfl⟩)]
    have hdistance : token / 8 % 2 * 16384 +
        ((distance - 16384) % 16384 * 4 + following) / 4 = distance - 16384 := by omega
    have htrailing : ((distance - 16384) % 16384 * 4 + following) % 4 = following := by omega
    have hsum : 16384 + (distance - 16384) = distance := Nat.add_sub_cancel' (by omega)
    rw [hdistance, if_neg (by omega), htrailing, hsum, Nat.sub_add_cancel (by omega)]
    rfl

/-- The decoder goes on from an instruction that the state allows. -/
theorem instruction_complete {i : Instruction} {added : Bytes} (hlegal : i.Legal state)
    (hwrites : i.Writes out added) (hsize : (out ++ added).length ≤ expectedSize)
    (hmax : expectedSize ≤ maxOutput) (rest : Bytes) :
    (readByte >>= instruction expectedSize maxOutput out state) (i.bytes ++ rest) =
      .ok (.inl (out ++ added, i.state), rest) := by
  rw [List.length_append] at hsize
  cases i with
  | run literals =>
    obtain ⟨rfl, hfour⟩ := hlegal
    obtain rfl : literals = added := Eq.symm hwrites
    have hfield := lengthField_le 15 (literals.length - 3)
    rw [Instruction.bytes, List.cons_append, readByte_cons,
      UInt8.toNat_ofNat_of_lt' (Nat.lt_of_le_of_lt hfield (by decide)),
      instruction_run (by omega), List.append_assoc,
      bind_of_ok (lengthExtension_lengthField (by omega) (by omega) _),
      Nat.sub_add_cancel (by omega), bind_of_ok (literal_append out rest hsize)]
    rfl
  | copy m trailing =>
    obtain ⟨hmatch, htrailing⟩ := hlegal
    obtain ⟨hback, copied, hcopies, rfl⟩ := hwrites
    have hlength := hcopies.1
    rw [List.length_append] at hsize
    rw [Instruction.bytes, List.append_assoc, instruction_match hmatch htrailing (by omega)]
    refine (matchAndLiteral_eq_ok hmatch.one_le_distance).mpr
      ⟨trailing, copied ++ trailing, rfl, rfl, ?_, ?_, rfl⟩
    · exact ⟨hback, copied, hcopies, rfl⟩
    · simp only [List.length_append]
      omega

/-- The decoder stops at the end marker only, and there only with all of its output. -/
theorem instruction_stop {byte : UInt8} {final : Bytes}
    (h : instruction expectedSize maxOutput out state byte.toNat input = .ok (.inr final, rest)) :
    final = out ∧ out.length = expectedSize ∧ byte :: input = endMarker := by
  have hcopy : ∀ (m : Match) {input' : Bytes} {following : Nat}, 1 ≤ m.distance →
      matchAndLiteral expectedSize m.distance m.length following out input' ≠
        .ok (.inr final, rest) := by
    intro m input' following hpos hrun
    obtain ⟨trailing, added, -, -, -, -, hresult⟩ := (matchAndLiteral_eq_ok hpos).mp hrun
    cases hresult
  by_cases hshort : byte.toNat < 16
  · by_cases hzero : state = 0
    · subst hzero
      rw [instruction_run hshort] at h
      obtain ⟨n, middle, -, hbehind⟩ := bind_eq_ok.mp h
      obtain ⟨last, input', -, hlast⟩ := bind_eq_ok.mp hbehind
      cases (pure_eq_ok.mp hlast).1
    · rw [instruction_short hshort hzero] at h
      obtain ⟨operand, middle, -, hlast⟩ := bind_eq_ok.mp h
      refine absurd hlast (hcopy _ ?_)
      unfold shortMatch
      split <;> exact Nat.le_add_left 1 _
  · by_cases hm4 : byte.toNat < 32
    · rw [instruction_m4 (by omega) hm4] at h
      obtain ⟨length, middle, hlength, hbehind⟩ := bind_eq_ok.mp h
      obtain ⟨operand, input', hoperand, hlast⟩ := bind_eq_ok.mp hbehind
      by_cases hend : byte.toNat / 8 % 2 * 16384 + operand / 4 = 0
      · rw [if_pos hend] at hlast
        obtain ⟨remaining, input'', hget, hcheck⟩ := bind_eq_ok.mp hlast
        cases hget
        split at hcheck
        · cases hcheck
        · rename_i hnot
          obtain ⟨htoken, hword, hnothing, hcomplete⟩ :
              byte.toNat = 17 ∧ operand = 0 ∧ input' = [] ∧ out.length = expectedSize := by
            simpa only [not_or, not_ne_iff] using hnot
          cases (pure_eq_ok.mp hcheck).1
          rw [htoken] at hlength
          cases hlength
          obtain ⟨-, rfl⟩ := readWord_eq_ok.mp hoperand
          have hbyte : byte = 0x11 := UInt8.toNat_inj.mp htoken
          rw [hbyte, hword, hnothing]
          exact ⟨rfl, hcomplete, rfl⟩
      · rw [if_neg hend] at hlast
        refine absurd hlast (hcopy (.m4 _ (length + 2)) ?_)
        show 1 ≤ 16384 + _
        omega
    · by_cases hm3 : byte.toNat < 64
      · rw [instruction_m3 (by omega) hm3] at h
        obtain ⟨length, middle, -, hbehind⟩ := bind_eq_ok.mp h
        obtain ⟨operand, input', -, hlast⟩ := bind_eq_ok.mp hbehind
        exact absurd hlast (hcopy (.m3 _ (length + 2)) (Nat.le_add_left 1 _))
      · rw [instruction_m2 (by omega)] at h
        obtain ⟨operand, middle, -, hlast⟩ := bind_eq_ok.mp h
        exact absurd hlast (hcopy (.m2 _ (byte.toNat / 32 + 1)) (Nat.le_add_left 1 _))

end Round

/-! ## Whole streams -/

section Streams

open Reader Decoder

variable {maxOutput expectedSize state : Nat} {out final input bytes : Bytes}

theorem Unpacks.isPrefix {instructions : List Instruction}
    (h : Unpacks state out instructions final) : out <+: final := by
  induction h with
  | done state out => exact List.prefix_refl out
  | next state out added final i rest hlegal hwrites hrest ih =>
    exact (List.prefix_append out added).trans ih

theorem Instruction.state_le {i : Instruction} (h : i.Legal state) : i.state ≤ 4 := by
  cases i with
  | run literals => exact Nat.le_refl 4
  | copy m trailing => exact Nat.le_trans h.2 (by decide)

/-- A run of the loop that succeeds has read a sequence of instructions. -/
theorem mainLoop_sound (hstate : state ≤ 4)
    (h : (mainLoop expectedSize maxOutput).run (input, out, state) = .ok final) :
    final.length = expectedSize ∧ ∃ instructions, Unpacks state out instructions final ∧
      input = instructions.flatMap Instruction.bytes ++ endMarker := by
  have hrule := (mainLoop expectedSize maxOutput).run_rule
    (P := fun s r => s.2.2 ≤ 4 → r = .ok final → final.length = expectedSize ∧
      ∃ instructions, Unpacks s.2.2 s.2.1 instructions final ∧
        s.1 = instructions.flatMap Instruction.bytes ++ endMarker)
    ?_ ?_ (input, out, state)
  · exact hrule hstate h
  · rintro ⟨input, out, state⟩ r hbody - rfl
    simp only [mainLoop] at hbody
    split at hbody
    · cases hbody
    · cases hbody
    · rename_i last rest hround
      cases Sum.inr.inj hbody
      obtain ⟨token, middle, hread, hinstruction⟩ := bind_eq_ok.mp hround
      obtain ⟨byte, rfl, rfl⟩ := readByte_eq_ok.mp hread
      obtain ⟨rfl, hsize, hmarker⟩ := instruction_stop hinstruction
      exact ⟨hsize, [], .done _ _, hmarker⟩
  · rintro ⟨input, out, state⟩ t r hbody hrest hstate hr
    simp only [mainLoop] at hbody
    split at hbody
    · cases hbody
    · rename_i out' state' rest hround
      cases Sum.inl.inj hbody
      obtain ⟨token, middle, hread, hinstruction⟩ := bind_eq_ok.mp hround
      obtain ⟨byte, rfl, rfl⟩ := readByte_eq_ok.mp hread
      obtain ⟨i, added, hlegal, hwrites, -, hbytes, rfl, rfl⟩ :=
        instruction_sound hstate hinstruction
      obtain ⟨hsize, instructions, hunpacks, hmarker⟩ := hrest (Instruction.state_le hlegal) hr
      refine ⟨hsize, i :: instructions, .next _ _ added _ _ _ hlegal hwrites hunpacks, ?_⟩
      rw [List.flatMap_cons, List.append_assoc, ← hmarker]
      exact hbytes
    · cases hbody

/-- The loop reads every sequence of instructions whose output has the declared size. -/
theorem mainLoop_complete {instructions : List Instruction} (hmax : expectedSize ≤ maxOutput)
    (hsize : final.length = expectedSize) (h : Unpacks state out instructions final) :
    (mainLoop expectedSize maxOutput).run
      (instructions.flatMap Instruction.bytes ++ endMarker, out, state) = .ok final := by
  induction h with
  | done state out => exact mainLoop_endMarker hsize
  | next state out added final i rest hlegal hwrites hrest ih =>
    have hfits : (out ++ added).length ≤ expectedSize := hsize ▸ hrest.isPrefix.length_le
    have hround : (readByte >>= instruction expectedSize maxOutput out state)
        (i.bytes ++ (rest.flatMap Instruction.bytes ++ endMarker)) =
          .ok (.inl (out ++ added, i.state), rest.flatMap Instruction.bytes ++ endMarker) :=
      instruction_complete hlegal hwrites hfits hmax _
    rw [List.flatMap_cons, List.append_assoc]
    refine ((mainLoop expectedSize maxOutput).run_of_next ?_).trans (ih hsize)
    simp only [mainLoop, hround]

/-- Without an initial run the first byte is at most that of the end marker: a match
has nothing to reach back to. -/
theorem head_le {instructions : List Instruction} (h : Unpacks 0 [] instructions final) :
    ((instructions.flatMap Instruction.bytes ++ endMarker).headD 0).toNat ≤ 17 := by
  cases h with
  | done => decide
  | next _ _ added _ i rest hlegal hwrites hrest =>
    cases i with
    | run literals =>
      have hfield := lengthField_le 15 (literals.length - 3)
      show (UInt8.ofNat (lengthField 15 (literals.length - 3)).1).toNat ≤ 17
      rw [UInt8.toNat_ofNat_of_lt' (Nat.lt_of_le_of_lt hfield (by decide))]
      omega
    | copy m trailing =>
      have hback : m.distance ≤ 0 := hwrites.1
      have hpos := hlegal.1.one_le_distance
      omega

/-- What the decoder accepts is a stream of its result. -/
theorem lzo1xDecompress_sound
    (h : lzo1xDecompress bytes expectedSize maxOutput = .ok out) :
    expectedSize ≤ maxOutput ∧ Stream bytes out ∧ out.length = expectedSize := by
  unfold lzo1xDecompress at h
  split at h
  · cases h
  · rename_i hmax
    refine ⟨Nat.le_of_not_lt hmax, ?_⟩
    split at h
    · cases h
    · split at h
      · rename_i hinitial
        dsimp only at h
        split at h
        · cases h
        · rename_i initial rest hliteral
          obtain ⟨literals, hcount, -, htail, rfl⟩ := literal_eq_ok.mp hliteral
          obtain ⟨hsize, instructions, hunpacks, rfl⟩ :=
            mainLoop_sound (Nat.min_le_right _ _) h
          cases bytes with
          | nil => simp at hinitial
          | cons byte tail =>
            have hbyte := byte.toNat_lt
            simp only [List.headD_cons, List.tail_cons] at hinitial hcount htail hunpacks
            have hne : initial ≠ [] := by
              rintro rfl
              simp at hcount
              omega
            refine ⟨⟨initial, instructions, by omega, ?_, ?_⟩, hsize⟩
            · rw [initialRun, if_neg hne, hcount, Nat.sub_add_cancel (by omega),
                UInt8.ofNat_toNat, htail]
              simp
            · rw [hcount]
              exact hunpacks
      · obtain ⟨hsize, instructions, hunpacks, hbytes⟩ := mainLoop_sound (Nat.zero_le _) h
        exact ⟨⟨[], instructions, Nat.zero_le _, hbytes, hunpacks⟩, hsize⟩

/-- The decoder accepts every stream whose output has the declared size. -/
theorem lzo1xDecompress_complete (hmax : expectedSize ≤ maxOutput) (hstream : Stream bytes out)
    (hsize : out.length = expectedSize) :
    lzo1xDecompress bytes expectedSize maxOutput = .ok out := by
  obtain ⟨initial, instructions, hinitial, rfl, hunpacks⟩ := hstream
  have hmarker := endMarker_of_append (initialRun initial ++ instructions.flatMap Instruction.bytes)
  unfold lzo1xDecompress
  rw [if_neg (by omega), if_neg hmarker]
  by_cases hempty : initial = []
  · subst hempty
    rw [initialRun, if_pos rfl, List.nil_append, if_neg (Nat.not_lt.mpr (head_le hunpacks))]
    exact mainLoop_complete hmax hsize hunpacks
  · have hpos : 0 < initial.length := List.length_pos_iff.mpr hempty
    have hhead : (UInt8.ofNat (initial.length + 17)).toNat = initial.length + 17 :=
      UInt8.toNat_ofNat_of_lt' (by simp only [UInt8.size]; omega)
    have hfits : ([] : Bytes).length + initial.length ≤ expectedSize := by
      have := hunpacks.isPrefix.length_le
      simp only [List.length_nil]
      omega
    rw [initialRun, if_neg hempty, List.append_assoc, List.cons_append]
    simp only [List.headD_cons, List.tail_cons, hhead, Nat.add_sub_cancel]
    rw [if_pos (by omega), literal_append [] _ hfits]
    exact mainLoop_complete hmax hsize hunpacks

end Streams

end Lzo

open Lzo in
/-- The decoder reads exactly the LZO1X streams whose output has the declared size,
and gives their output. -/
theorem lzo1xDecompress_iff (bytes : Bytes) (expectedSize maxOutput : Nat) (out : Bytes) :
    lzo1xDecompress bytes expectedSize maxOutput = .ok out ↔
      expectedSize ≤ maxOutput ∧ Stream bytes out ∧ out.length = expectedSize :=
  ⟨lzo1xDecompress_sound, fun h => lzo1xDecompress_complete h.1 h.2.1 h.2.2⟩

-- A match of five bytes at distance one repeats the byte before it.
example : lzo1xDecompress [0x12, 0x61, 0x80, 0x00, 0x11, 0x00, 0x00] 6 6 =
    .ok (List.replicate 6 0x61) := by decide +kernel

/-! ## The store is one run -/

namespace Lzo

/-- A length and what stands behind it are settled by their bytes. -/
theorem lengthField_inj {largest m n : Nat} {r s : Bytes} (hm : 1 ≤ m) (hn : 1 ≤ n)
    (htoken : (lengthField largest m).1 = (lengthField largest n).1)
    (hbytes : (lengthField largest m).2 ++ r = (lengthField largest n).2 ++ s) : m = n ∧ r = s := by
  have hfirst : lengthExtension (max m n) (lengthField largest m).1 largest
      ((lengthField largest m).2 ++ r) = .ok (m, r) :=
    lengthExtension_lengthField hm (Nat.le_max_left m n) r
  have hsecond : lengthExtension (max m n) (lengthField largest n).1 largest
      ((lengthField largest n).2 ++ s) = .ok (n, s) :=
    lengthExtension_lengthField hn (Nat.le_max_right m n) s
  rw [htoken, hbytes, hsecond] at hfirst
  obtain ⟨rfl, rfl⟩ := Prod.mk.inj (Except.ok.inj hfirst)
  exact ⟨rfl, rfl⟩

theorem lzo1xStore_short {data : Bytes} (h : data.length ≤ 238) :
    lzo1xStore data = initialRun data ++ endMarker := by
  unfold lzo1xStore initialRun
  by_cases hempty : data = []
  · rw [if_pos hempty, if_pos (by rw [hempty]; rfl)]
    rfl
  · rw [if_neg hempty, if_neg (by simpa using hempty), if_pos h]
    rfl

theorem lzo1xStore_long {data : Bytes} (h : 238 < data.length) :
    lzo1xStore data = (Instruction.run data).bytes ++ endMarker := by
  have hlong : ¬ data.length - 3 ≤ 15 := by omega
  rw [lzo1xStore, Instruction.bytes, lengthField, if_neg hlong, extension]
  simp only [if_neg (show data.length ≠ 0 by omega), if_neg (show ¬ data.length ≤ 238 by omega),
    Nat.sub_sub, Nat.reduceAdd]
  rfl

theorem Instruction.bytes_ne_nil (i : Instruction) : i.bytes ≠ [] := by
  cases i with
  | run literals => exact List.cons_ne_nil _ _
  | copy m trailing => cases m <;> exact List.cons_ne_nil _ _

theorem no_instructions {instructions : List Instruction}
    (h : endMarker = instructions.flatMap Instruction.bytes ++ endMarker) : instructions = [] := by
  rw [List.self_eq_append_left, List.flatMap_eq_nil_iff] at h
  exact List.eq_nil_iff_forall_not_mem.mpr fun i hi => i.bytes_ne_nil (h i hi)

theorem headD_initialRun {initial : Bytes} (hne : initial ≠ []) (hle : initial.length ≤ 238)
    (rest : Bytes) : ((initialRun initial ++ rest).headD 0).toNat = initial.length + 17 := by
  rw [initialRun, if_neg hne]
  exact UInt8.toNat_ofNat_of_lt' (by simp only [UInt8.size]; omega)

/-- The first byte tells an initial run from its absence. -/
theorem initialRun_inj {a b r s : Bytes} (ha : a.length ≤ 238) (hb : b.length ≤ 238)
    (hr : a = [] → (r.headD 0).toNat ≤ 17) (hs : b = [] → (s.headD 0).toNat ≤ 17)
    (h : initialRun a ++ r = initialRun b ++ s) : a = b ∧ r = s := by
  have hhead := congrArg (fun bytes => (bytes.headD 0).toNat) h
  have hpos : ∀ {c : Bytes}, c ≠ [] → 0 < c.length := List.length_pos_iff.mpr
  by_cases hna : a = []
  · by_cases hnb : b = []
    · subst hna hnb
      exact ⟨rfl, h⟩
    · have := hr hna
      have := hpos hnb
      rw [headD_initialRun hnb hb, initialRun, if_pos hna, List.nil_append] at hhead
      omega
  · by_cases hnb : b = []
    · have := hs hnb
      have := hpos hna
      rw [headD_initialRun hna ha, initialRun, if_pos hnb, List.nil_append] at hhead
      omega
    · rw [headD_initialRun hna ha, headD_initialRun hnb hb] at hhead
      rw [initialRun, initialRun, if_neg hna, if_neg hnb] at h
      exact List.append_inj (List.cons.inj h).2 (by omega)

/-- A stream that starts with a run is that run, and more. -/
theorem run_inj {data final tail : Bytes} {instructions : List Instruction}
    (hdata : 4 ≤ data.length) (h : Unpacks 0 [] instructions final)
    (hbytes : (Instruction.run data).bytes ++ tail =
      instructions.flatMap Instruction.bytes ++ endMarker) :
    ∃ rest, Unpacks 4 data rest final ∧ tail = rest.flatMap Instruction.bytes ++ endMarker := by
  have hfield := lengthField_le 15 (data.length - 3)
  have htoken : ∀ {n : Nat}, n ≤ 15 → (UInt8.ofNat n).toNat = n := fun hn =>
    UInt8.toNat_ofNat_of_lt' (Nat.lt_of_le_of_lt hn (by decide))
  cases h with
  | done =>
    have hhead := congrArg UInt8.toNat (List.cons.inj hbytes).1
    rw [htoken hfield] at hhead
    exact absurd (hhead ▸ hfield) (by decide)
  | next _ _ added _ i rest hlegal hwrites hrest =>
    cases i with
    | run literals =>
      obtain ⟨-, hfour⟩ := hlegal
      obtain rfl : literals = added := Eq.symm hwrites
      have hother := lengthField_le 15 (literals.length - 3)
      simp only [List.flatMap_cons, Instruction.bytes, List.cons_append, List.append_assoc,
        List.cons.injEq] at hbytes
      obtain ⟨hhead, hbehind⟩ := hbytes
      have hhead := congrArg UInt8.toNat hhead
      rw [htoken hfield, htoken hother] at hhead
      obtain ⟨hcount, hbehind⟩ := lengthField_inj (by omega) (by omega) hhead hbehind
      obtain ⟨rfl, rfl⟩ := List.append_inj hbehind (by omega)
      exact ⟨rest, hrest, rfl⟩
    | copy m trailing =>
      have hback : m.distance ≤ 0 := hwrites.1
      have hpos := hlegal.1.one_le_distance
      omega

/-- A store is a stream of its data, and of nothing else. -/
theorem stream_lzo1xStore_iff {data out : Bytes} : Stream (lzo1xStore data) out ↔ out = data := by
  constructor
  · rintro ⟨initial, instructions, hinitial, hbytes, hunpacks⟩
    by_cases hshort : data.length ≤ 238
    · rw [lzo1xStore_short hshort, List.append_assoc] at hbytes
      have hhead : initial = [] →
          ((instructions.flatMap Instruction.bytes ++ endMarker).headD 0).toNat ≤ 17 := by
        rintro rfl
        exact head_le hunpacks
      obtain ⟨rfl, hmarker⟩ := initialRun_inj hshort hinitial (fun _ => by decide) hhead hbytes
      obtain rfl := no_instructions hmarker
      cases hunpacks
      rfl
    · rw [lzo1xStore_long (by omega)] at hbytes
      by_cases hempty : initial = []
      · subst hempty
        obtain ⟨rest, hrest, hmarker⟩ := run_inj (by omega) hunpacks hbytes
        obtain rfl := no_instructions hmarker
        cases hrest
        rfl
      · have hhead := congrArg (fun bytes => (bytes.headD 0).toNat) hbytes
        have hfield := lengthField_le 15 (data.length - 3)
        have hfirst : (((Instruction.run data).bytes ++ endMarker).headD 0).toNat =
            (lengthField 15 (data.length - 3)).1 :=
          UInt8.toNat_ofNat_of_lt' (Nat.lt_of_le_of_lt hfield (by decide))
        simp only [hfirst, List.append_assoc, headD_initialRun hempty hinitial] at hhead
        omega
  · rintro rfl
    by_cases hshort : out.length ≤ 238
    · refine ⟨out, [], hshort, ?_, .done _ _⟩
      rw [lzo1xStore_short hshort]
      simp
    · refine ⟨[], [.run out], Nat.zero_le _, ?_, ?_⟩
      · rw [lzo1xStore_long (by omega)]
        simp [initialRun]
      · exact .next _ _ out _ _ _ ⟨rfl, by omega⟩ rfl (.done _ _)

end Lzo

open Lzo in
/-- The store is decoded with its own size and within its own limit only, and to its data. -/
theorem lzo1xDecompress_store {data out : Bytes} {expectedSize maxOutput : Nat} :
    lzo1xDecompress (lzo1xStore data) expectedSize maxOutput = .ok out ↔
      out = data ∧ data.length = expectedSize ∧ expectedSize ≤ maxOutput := by
  constructor
  · intro h
    obtain ⟨hmax, hstream, hsize⟩ := lzo1xDecompress_sound h
    obtain rfl := stream_lzo1xStore_iff.mp hstream
    exact ⟨rfl, hsize, hmax⟩
  · rintro ⟨rfl, hsize, hmax⟩
    exact lzo1xDecompress_complete hmax (stream_lzo1xStore_iff.mpr rfl) hsize

theorem lzo1xDecompress_store_error {data : Bytes} {maxOutput : Nat}
    (h : maxOutput < data.length) (expectedSize : Nat) :
    ∃ e, lzo1xDecompress (lzo1xStore data) expectedSize maxOutput = .error e := by
  cases hrun : lzo1xDecompress (lzo1xStore data) expectedSize maxOutput with
  | error e => exact ⟨e, rfl⟩
  | ok out =>
    have := lzo1xDecompress_store.mp hrun
    omega

/-- The envelope of a store hands the store to the decoder, or is rejected. -/
theorem decompressPayload_error {plain payload : Bytes} {maxOutput : Nat}
    (h : makeCompressedPayload plain = .ok payload) (hlong : maxOutput < plain.length) :
    ∃ e, decompressPayload payload maxOutput = .error e := by
  have hdrop : payload.drop 8 = lzo1xStore plain := by
    unfold makeCompressedPayload at h
    split at h
    · cases h
    · cases Except.ok.inj h
      simp [LittleEndian.encode]
  unfold decompressPayload
  split
  · exact ⟨_, rfl⟩
  · dsimp only
    split
    · exact ⟨_, rfl⟩
    · split
      · exact ⟨_, rfl⟩
      · rw [hdrop]
        exact lzo1xDecompress_store_error hlong _

/-- The store and its envelope are read back in full when they fit, and not at all
otherwise: the declared size is rejected before any instruction, and no other size
is accepted. -/
theorem compression_round_trip (data : Bytes) (maxOutput : Nat) :
    (data.length ≤ MAX_MESSAGE → data.length ≤ maxOutput →
      lzo1xDecompress (lzo1xStore data) data.length maxOutput = .ok data ∧
      ∃ payload, makeCompressedPayload data = .ok payload ∧
        decompressPayload payload maxOutput = .ok data) ∧
    (maxOutput < data.length →
      lzo1xDecompress (lzo1xStore data) data.length maxOutput =
        reject "invalid decompressed size" ∧
      (∀ expectedSize, ∃ e, lzo1xDecompress (lzo1xStore data) expectedSize maxOutput = .error e) ∧
      ∀ payload, makeCompressedPayload data = .ok payload →
        ∃ e, decompressPayload payload maxOutput = .error e) := by
  refine ⟨fun hsize hmax => ⟨lzo1xDecompress_lzo1xStore hmax, ?_⟩, fun hlong => ⟨?_, ?_, ?_⟩⟩
  · have hpayload : ∃ payload, makeCompressedPayload data = .ok payload := by
      unfold makeCompressedPayload
      rw [if_neg (by omega)]
      exact ⟨_, rfl⟩
    obtain ⟨payload, hpayload⟩ := hpayload
    exact ⟨payload, hpayload, decompressPayload_makeCompressedPayload hpayload hmax⟩
  · rw [lzo1xDecompress, if_pos hlong]
  · exact lzo1xDecompress_store_error hlong
  · exact fun payload hpayload => decompressPayload_error hpayload hlong

/-- Three bytes, with room for three and with room for two. -/
theorem compression_round_trip_three :
    (lzo1xDecompress (lzo1xStore [1, 2, 3]) 3 3 = .ok [1, 2, 3] ∧
      ∃ payload, makeCompressedPayload [1, 2, 3] = .ok payload ∧
        decompressPayload payload 3 = .ok [1, 2, 3]) ∧
    lzo1xDecompress (lzo1xStore [1, 2, 3]) 3 2 = reject "invalid decompressed size" :=
  ⟨(compression_round_trip [1, 2, 3] 3).1 (by decide) (by decide),
    ((compression_round_trip [1, 2, 3] 2).2 (by decide)).1⟩

end Mt5Open.Native

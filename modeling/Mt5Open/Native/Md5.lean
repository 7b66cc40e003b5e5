import Mt5Open.Lib.Md5
import Mt5Open.Native.Crypto

/-!
# The hash of the program is MD5

The program goes over 64 operations in one loop, which rotates the registers and computes
the index of the message word, and it computes the padding by a wrapping subtraction.

`md5Padding_isPadding` and `md5Padding_injective` are about the padding.  `md5Round_eq_turn`
is one operation of the loop, and `md5_standard` is the hash by its definition, from any
initial state.
-/

namespace Mt5Open.Native

open Lib

/-! ## The padding -/

/-- `55usize.wrapping_sub(length).rem_euclid(64)`. -/
def padZeros (length : Nat) : Nat := (55 + (2 ^ 64 - length)) % 2 ^ 64 % 64

theorem md5Padding_eq {data : Bytes} (h : data.length < 2 ^ 64) :
    md5Padding data = data ++ 0x80 :: (List.replicate (padZeros data.length) 0 ++
      LittleEndian.encode 8 (data.length * 8 % 2 ^ 64)) := by
  have hzeros : ((55 - (data.length : Int)) % 64).toNat = padZeros data.length := by
    unfold padZeros
    omega
  rw [md5Padding, hzeros, ← LittleEndian.encode_mod 8 (data.length * 8),
    show (256 : Nat) ^ 8 = 2 ^ 64 from by norm_num]

theorem padZeros_isPadding {length : Nat} (h : length < 2 ^ 64) :
    Md5.IsPadding length (padZeros length) := by
  unfold padZeros
  constructor
  · omega
  · intro fewer hfewer
    omega

theorem length_md5Padding (data : Bytes) :
    (md5Padding data).length =
      data.length + 1 + ((55 - (data.length : Int)) % 64).toNat + 8 := by
  simp only [md5Padding, List.length_append, List.length_cons, List.length_replicate,
    LittleEndian.length_encode]
  omega

theorem dvd_length_md5Padding (data : Bytes) : 64 ∣ (md5Padding data).length := by
  rw [length_md5Padding]
  omega

/-- The last eight bytes are the length in bits. -/
theorem decode_md5Padding {data : Bytes} (h : data.length < 2 ^ 61) :
    LittleEndian.decode ((md5Padding data).drop ((md5Padding data).length - 8)) =
      data.length * 8 := by
  have hsplit : md5Padding data = (data ++ 0x80 ::
      List.replicate ((55 - (data.length : Int)) % 64).toNat 0) ++
        LittleEndian.encode 8 (data.length * 8) := by
    rw [md5Padding, List.append_assoc, List.cons_append]
  rw [hsplit, List.length_append, LittleEndian.length_encode, Nat.add_sub_cancel, List.drop_left]
  exact LittleEndian.decode_encode_of_lt (by omega)

/-- Two messages with one padded form are one. -/
theorem md5Padding_injective {data other : Bytes} (hdata : data.length < 2 ^ 61)
    (hother : other.length < 2 ^ 61) (h : md5Padding data = md5Padding other) : data = other := by
  have hbits := decode_md5Padding hdata
  rw [h, decode_md5Padding hother] at hbits
  have htake := congrArg (List.take data.length) h
  rw [md5Padding, List.take_left, md5Padding, List.take_left' (by omega)] at htake
  exact htake

/-! ## The operations -/

/-- The rotations of the source's table, one for each operation. -/
def SHIFTS : List UInt32 :=
  [7, 12, 17, 22, 7, 12, 17, 22, 7, 12, 17, 22, 7, 12, 17, 22, 5, 9, 14, 20, 5, 9, 14, 20, 5, 9,
    14, 20, 5, 9, 14, 20, 4, 11, 16, 23, 4, 11, 16, 23, 4, 11, 16, 23, 4, 11, 16, 23, 6, 10, 15,
    21, 6, 10, 15, 21, 6, 10, 15, 21, 6, 10, 15, 21]

theorem shifts_eq : ∀ i < 64, (MD5_SHIFTS.getD (i / 16) []).getD (i % 4) 0 = SHIFTS.getD i 0 := by
  decide

/-- Operation `i` of the loop, by its tables and its computed index. -/
def loopOp (i : Nat) : Md5.Op where
  aux := if i < 16 then Md5.auxF else if i < 32 then Md5.auxG else if i < 48 then Md5.auxH
    else Md5.auxI
  s := SHIFTS.getD i 0
  entry := {
    k := if i < 16 then i else if i < 32 then (5 * i + 1) % 16
      else if i < 48 then (3 * i + 5) % 16 else (7 * i) % 16
    t := MD5_K.getD i 0 }

/-- The tables and the indices of the loop are those of the rounds. -/
theorem map_loopOp : (List.range 64).map loopOp = Md5.rounds.flatMap Md5.Round.ops := rfl

def Md5State.registers (s : Md5State) : Md5.Registers where
  a := s.a
  b := s.b
  c := s.c
  d := s.d

/-- What the loop mixes in, and the index of the word. -/
theorem md5Round_eq (chunk : Bytes) (s : Md5State) (i : Nat) (mixed : UInt32) (word : Nat)
    (h : (if i < 16 then ((s.b &&& s.c) ||| (~~~s.b &&& s.d), i)
      else if i < 32 then ((s.d &&& s.b) ||| (~~~s.d &&& s.c), (5 * i + 1) % 16)
      else if i < 48 then (s.b ^^^ s.c ^^^ s.d, (3 * i + 5) % 16)
      else (s.c ^^^ (s.b ||| ~~~s.d), (7 * i) % 16)) = (mixed, word)) :
    md5Round chunk s i =
      { a := s.d
        b := s.b + Md5.rotateLeft (s.a + mixed + MD5_K.getD i 0 + leWord chunk word)
          ((MD5_SHIFTS.getD (i / 16) []).getD (i % 4) 0)
        c := s.b
        d := s.c } := by
  unfold md5Round
  rw [h]
  rfl

/-- An operation of the loop is an operation of the rounds. -/
theorem md5Round_eq_turn (chunk : Bytes) (s : Md5State) {i : Nat} (h : i < 64) :
    (md5Round chunk s i).registers = Md5.turn (Md5.blockWord chunk) s.registers (loopOp i) := by
  have hpair : ∃ mixed word, (if i < 16 then ((s.b &&& s.c) ||| (~~~s.b &&& s.d), i)
      else if i < 32 then ((s.d &&& s.b) ||| (~~~s.d &&& s.c), (5 * i + 1) % 16)
      else if i < 48 then (s.b ^^^ s.c ^^^ s.d, (3 * i + 5) % 16)
      else (s.c ^^^ (s.b ||| ~~~s.d), (7 * i) % 16)) = (mixed, word) ∧
      mixed = (loopOp i).aux s.b s.c s.d ∧ word = (loopOp i).entry.k := by
    unfold loopOp
    by_cases h₁ : i < 16
    · simp only [if_pos h₁]
      exact ⟨_, _, rfl, rfl, rfl⟩
    · by_cases h₂ : i < 32
      · simp only [if_neg h₁, if_pos h₂]
        refine ⟨_, _, rfl, ?_, rfl⟩
        rw [Md5.auxG, UInt32.and_comm s.d, UInt32.and_comm _ s.c]
      · by_cases h₃ : i < 48
        · simp only [if_neg h₁, if_neg h₂, if_pos h₃]
          exact ⟨_, _, rfl, rfl, rfl⟩
        · simp only [if_neg h₁, if_neg h₂, if_neg h₃]
          exact ⟨_, _, rfl, rfl, rfl⟩
  obtain ⟨mixed, word, hif, rfl, rfl⟩ := hpair
  rw [md5Round_eq chunk s i _ _ hif, shifts_eq i h]
  have hsum : ∀ a b k w : UInt32, a + b + k + w = a + b + w + k := fun a b k w => by
    rw [UInt32.add_assoc, UInt32.add_comm k, ← UInt32.add_assoc]
  rw [hsum]
  rfl

theorem foldl_md5Round (chunk : Bytes) (s : Md5State) :
    ((List.range 64).foldl (md5Round chunk) s).registers =
      Md5.rounds.foldl (Md5.Round.run (Md5.blockWord chunk)) s.registers := by
  rw [← Md5.foldl_turn, ← map_loopOp, List.foldl_map]
  have hrange : ∀ i ∈ List.range 64, i < 64 := fun i hi => List.mem_range.mp hi
  generalize List.range 64 = indices at hrange ⊢
  induction indices generalizing s with
  | nil => rfl
  | cons i indices ih =>
    rw [List.foldl_cons, List.foldl_cons, ← md5Round_eq_turn chunk s (hrange i List.mem_cons_self)]
    exact ih _ fun j hj => hrange j (List.mem_cons_of_mem _ hj)

/-! ## The hash -/

theorem md5Chunk_eq_compress (s : Md5State) (chunk : Bytes) :
    (md5Chunk s chunk).registers = Md5.compress s.registers chunk := by
  rw [Md5.compress, ← foldl_md5Round]
  rfl

theorem foldl_md5Chunk (s : Md5State) (chunks : List Bytes) :
    (chunks.foldl md5Chunk s).registers = chunks.foldl Md5.compress s.registers := by
  induction chunks generalizing s with
  | nil => rfl
  | cons chunk chunks ih =>
    rw [List.foldl_cons, List.foldl_cons, ih, md5Chunk_eq_compress]

theorem md5WithState_eq (data initialDigest : Bytes) :
    md5WithState data initialDigest =
      Md5.digest (Md5.load initialDigest) (md5Padding data) := by
  rw [Md5.digest, Md5.load]
  exact congrArg Md5.store (foldl_md5Chunk
    { a := leWord initialDigest 0
      b := leWord initialDigest 1
      c := leWord initialDigest 2
      d := leWord initialDigest 3 } (Stride.chunks 64 (md5Padding data)))

/-- The padding is the one of the standard, and no two messages share it; the blocks are all
of the padded message; and the hash is the compression of the blocks, from any initial state.
The hash without one is the case of the standard state. -/
theorem md5_standard :
    (∀ data : Bytes, data.length < 2 ^ 61 →
      (∃ zeros, Md5.IsPadding data.length zeros ∧
        md5Padding data = data ++ 0x80 :: (List.replicate zeros 0 ++
          LittleEndian.encode 8 (8 * data.length))) ∧
      LittleEndian.decode ((md5Padding data).drop ((md5Padding data).length - 8)) =
        8 * data.length ∧
      (∀ other : Bytes, other.length < 2 ^ 61 → md5Padding data = md5Padding other →
        data = other) ∧
      (Stride.chunks 64 (md5Padding data)).flatten = md5Padding data ∧
      (∀ block ∈ Stride.chunks 64 (md5Padding data), block.length = 64) ∧
      (∀ initialDigest : Bytes, initialDigest.length = 16 →
        md5WithState data initialDigest =
          Md5.store ((Stride.chunks 64 (md5Padding data)).foldl Md5.compress
            (Md5.load initialDigest))) ∧
      md5 data =
        Md5.store ((Stride.chunks 64 (md5Padding data)).foldl Md5.compress Md5.initial)) := by
  intro data hdata
  have hinitial : Md5.load MD5_INITIAL = Md5.initial := by decide
  refine ⟨⟨padZeros data.length, padZeros_isPadding (by omega), ?_⟩, ?_, fun other hother h =>
    md5Padding_injective hdata hother h, Stride.flatten_chunks (by decide)
      (dvd_length_md5Padding data), fun block => Stride.length_of_mem_chunks,
    fun initialDigest _ => md5WithState_eq data initialDigest, ?_⟩
  · rw [md5Padding_eq (by omega), Nat.mod_eq_of_lt (by omega), Nat.mul_comm]
  · rw [decode_md5Padding hdata, Nat.mul_comm]
  · rw [md5, md5WithState_eq, hinitial]
    rfl

/-- Three bytes, from the standard state. -/
theorem md5_standard_abc :
    (∃ zeros, Md5.IsPadding 3 zeros ∧ md5Padding [0x61, 0x62, 0x63] =
      [0x61, 0x62, 0x63] ++ 0x80 :: (List.replicate zeros 0 ++ LittleEndian.encode 8 24)) ∧
    (md5Padding [0x61, 0x62, 0x63] = md5Padding [] → ([0x61, 0x62, 0x63] : Bytes) = []) ∧
    md5WithState [0x61, 0x62, 0x63] MD5_INITIAL =
      Md5.store ((Stride.chunks 64 (md5Padding [0x61, 0x62, 0x63])).foldl Md5.compress
        (Md5.load MD5_INITIAL)) := by
  obtain ⟨hpadding, _, hinjective, _, _, hstate, _⟩ :=
    md5_standard [0x61, 0x62, 0x63] (by decide)
  exact ⟨hpadding, hinjective [] (by decide), hstate MD5_INITIAL (by decide)⟩

/-- The digest of these three bytes. -/
example : md5 ([0x61, 0x62, 0x63] : Bytes) =
    [0x90, 0x01, 0x50, 0x98, 0x3c, 0xd2, 0x4f, 0xb0, 0xd6, 0x96, 0x3f, 0x7d, 0x28, 0xe1, 0x7f,
      0x72] := by decide +kernel

end Mt5Open.Native

import Mathlib.Data.Nat.Init
import Mt5Open.Lib.LittleEndian
import Mt5Open.Lib.Stride

/-!
# MD5

The hash by its definition: four auxiliary functions, four rounds of sixteen operations on
the registers A, B, C and D, and a message that is padded to whole blocks of 64 bytes.

An operation `[abcd k s t]` sets `a` to `b + ((a + F(b, c, d) + X[k] + T[t]) <<< s)`.  A line
of a round is four operations, on ABCD, DABC, CDAB and BCDA in this order, and a round is four
lines.  The tables say for each operation the word of the block and the constant.

`foldl_turn` is the rule for a program that goes over the operations in one loop and rotates
the registers instead: it is enough to look at one operation at a time.
-/

namespace Mt5Open.Lib.Md5

structure Registers where
  a : UInt32
  b : UInt32
  c : UInt32
  d : UInt32
  deriving DecidableEq, Repr

/-! ## The auxiliary functions -/

def auxF (x y z : UInt32) : UInt32 := (x &&& y) ||| (~~~x &&& z)

def auxG (x y z : UInt32) : UInt32 := (x &&& z) ||| (y &&& ~~~z)

def auxH (x y z : UInt32) : UInt32 := x ^^^ y ^^^ z

def auxI (x y z : UInt32) : UInt32 := y ^^^ (x ||| ~~~z)

/-- The rotation to the left by `s` bits. -/
def rotateLeft (x s : UInt32) : UInt32 := (x <<< s) ||| (x >>> (32 - s))

/-! ## The rounds -/

/-- The new first register of an operation. -/
def operation (aux : UInt32 → UInt32 → UInt32 → UInt32) (a b c d x s t : UInt32) : UInt32 :=
  b + rotateLeft (a + aux b c d + x + t) s

/-- The word of the block and the constant of an operation. -/
structure Entry where
  k : Nat
  t : UInt32
  deriving DecidableEq, Repr

/-- A line of a round, one entry for each of its operations. -/
structure Line where
  abcd : Entry
  dabc : Entry
  cdab : Entry
  bcda : Entry
  deriving DecidableEq, Repr

/-- A round: its function, the rotations of the operations of a line, and its lines. -/
structure Round where
  aux : UInt32 → UInt32 → UInt32 → UInt32
  s₁ : UInt32
  s₂ : UInt32
  s₃ : UInt32
  s₄ : UInt32
  lines : List Line

/-- The four operations of a line, with the words of the block. -/
def Round.line (round : Round) (x : Nat → UInt32) (r : Registers) (l : Line) : Registers :=
  let a := operation round.aux r.a r.b r.c r.d (x l.abcd.k) round.s₁ l.abcd.t
  let d := operation round.aux r.d a r.b r.c (x l.dabc.k) round.s₂ l.dabc.t
  let c := operation round.aux r.c d a r.b (x l.cdab.k) round.s₃ l.cdab.t
  let b := operation round.aux r.b c d a (x l.bcda.k) round.s₄ l.bcda.t
  { a, b, c, d }

def Round.run (x : Nat → UInt32) (r : Registers) (round : Round) : Registers :=
  round.lines.foldl (round.line x) r

def round1 : Round where
  aux := auxF
  s₁ := 7
  s₂ := 12
  s₃ := 17
  s₄ := 22
  lines := [
    ⟨⟨0, 0xd76aa478⟩, ⟨1, 0xe8c7b756⟩, ⟨2, 0x242070db⟩, ⟨3, 0xc1bdceee⟩⟩,
    ⟨⟨4, 0xf57c0faf⟩, ⟨5, 0x4787c62a⟩, ⟨6, 0xa8304613⟩, ⟨7, 0xfd469501⟩⟩,
    ⟨⟨8, 0x698098d8⟩, ⟨9, 0x8b44f7af⟩, ⟨10, 0xffff5bb1⟩, ⟨11, 0x895cd7be⟩⟩,
    ⟨⟨12, 0x6b901122⟩, ⟨13, 0xfd987193⟩, ⟨14, 0xa679438e⟩, ⟨15, 0x49b40821⟩⟩]

def round2 : Round where
  aux := auxG
  s₁ := 5
  s₂ := 9
  s₃ := 14
  s₄ := 20
  lines := [
    ⟨⟨1, 0xf61e2562⟩, ⟨6, 0xc040b340⟩, ⟨11, 0x265e5a51⟩, ⟨0, 0xe9b6c7aa⟩⟩,
    ⟨⟨5, 0xd62f105d⟩, ⟨10, 0x02441453⟩, ⟨15, 0xd8a1e681⟩, ⟨4, 0xe7d3fbc8⟩⟩,
    ⟨⟨9, 0x21e1cde6⟩, ⟨14, 0xc33707d6⟩, ⟨3, 0xf4d50d87⟩, ⟨8, 0x455a14ed⟩⟩,
    ⟨⟨13, 0xa9e3e905⟩, ⟨2, 0xfcefa3f8⟩, ⟨7, 0x676f02d9⟩, ⟨12, 0x8d2a4c8a⟩⟩]

def round3 : Round where
  aux := auxH
  s₁ := 4
  s₂ := 11
  s₃ := 16
  s₄ := 23
  lines := [
    ⟨⟨5, 0xfffa3942⟩, ⟨8, 0x8771f681⟩, ⟨11, 0x6d9d6122⟩, ⟨14, 0xfde5380c⟩⟩,
    ⟨⟨1, 0xa4beea44⟩, ⟨4, 0x4bdecfa9⟩, ⟨7, 0xf6bb4b60⟩, ⟨10, 0xbebfbc70⟩⟩,
    ⟨⟨13, 0x289b7ec6⟩, ⟨0, 0xeaa127fa⟩, ⟨3, 0xd4ef3085⟩, ⟨6, 0x04881d05⟩⟩,
    ⟨⟨9, 0xd9d4d039⟩, ⟨12, 0xe6db99e5⟩, ⟨15, 0x1fa27cf8⟩, ⟨2, 0xc4ac5665⟩⟩]

def round4 : Round where
  aux := auxI
  s₁ := 6
  s₂ := 10
  s₃ := 15
  s₄ := 21
  lines := [
    ⟨⟨0, 0xf4292244⟩, ⟨7, 0x432aff97⟩, ⟨14, 0xab9423a7⟩, ⟨5, 0xfc93a039⟩⟩,
    ⟨⟨12, 0x655b59c3⟩, ⟨3, 0x8f0ccc92⟩, ⟨10, 0xffeff47d⟩, ⟨1, 0x85845dd1⟩⟩,
    ⟨⟨8, 0x6fa87e4f⟩, ⟨15, 0xfe2ce6e0⟩, ⟨6, 0xa3014314⟩, ⟨13, 0x4e0811a1⟩⟩,
    ⟨⟨4, 0xf7537e82⟩, ⟨11, 0xbd3af235⟩, ⟨2, 0x2ad7d2bb⟩, ⟨9, 0xeb86d391⟩⟩]

/-- The rounds in their order. -/
def rounds : List Round := [round1, round2, round3, round4]

/-! ## One operation at a time -/

/-- An operation by itself. -/
structure Op where
  aux : UInt32 → UInt32 → UInt32 → UInt32
  s : UInt32
  entry : Entry

/-- An operation on ABCD whose result stands in B, with the registers rotated. -/
def turn (x : Nat → UInt32) (r : Registers) (op : Op) : Registers where
  a := r.d
  b := operation op.aux r.a r.b r.c r.d (x op.entry.k) op.s op.entry.t
  c := r.b
  d := r.c

/-- The operations of a round. -/
def Round.ops (round : Round) : List Op :=
  round.lines.flatMap fun l =>
    [⟨round.aux, round.s₁, l.abcd⟩, ⟨round.aux, round.s₂, l.dabc⟩, ⟨round.aux, round.s₃, l.cdab⟩,
      ⟨round.aux, round.s₄, l.bcda⟩]

/-- After four operations the registers stand where they stood. -/
theorem Round.foldl_turn (round : Round) (x : Nat → UInt32) (r : Registers) :
    round.ops.foldl (turn x) r = round.run x r := by
  unfold ops run
  induction round.lines generalizing r with
  | nil => rfl
  | cons l lines ih =>
    rw [List.flatMap_cons, List.foldl_append, ih]
    rfl

/-- The operations one by one, with rotated registers, are the rounds. -/
theorem foldl_turn (all : List Round) (x : Nat → UInt32) (r : Registers) :
    (all.flatMap Round.ops).foldl (turn x) r = all.foldl (Round.run x) r := by
  induction all generalizing r with
  | nil => rfl
  | cons round all ih =>
    rw [List.flatMap_cons, List.foldl_append, Round.foldl_turn, ih]
    rfl

/-! ## Blocks and messages -/

/-- The `i`-th little-endian word of a block. -/
def blockWord (block : List UInt8) (i : Nat) : UInt32 :=
  UInt32.ofNat (LittleEndian.decode ((block.drop (4 * i)).take 4))

/-- The compression of a block. -/
def compress (r : Registers) (block : List UInt8) : Registers :=
  let t := rounds.foldl (Round.run (blockWord block)) r
  { a := r.a + t.a, b := r.b + t.b, c := r.c + t.c, d := r.d + t.d }

/-- The registers that sixteen bytes are loaded into. -/
def load (bytes : List UInt8) : Registers where
  a := blockWord bytes 0
  b := blockWord bytes 1
  c := blockWord bytes 2
  d := blockWord bytes 3

/-- The bytes of the registers. -/
def store (r : Registers) : List UInt8 :=
  [r.a, r.b, r.c, r.d].flatMap fun word => LittleEndian.encode 4 word.toNat

/-- The standard initial state. -/
def initial : Registers where
  a := 0x67452301
  b := 0xefcdab89
  c := 0x98badcfe
  d := 0x10325476

/-- `zeros` is the least number of zero bytes that a message of this length needs, with the
byte 0x80 in front and the length of eight bytes behind. -/
def IsPadding (length zeros : Nat) : Prop :=
  64 ∣ length + 1 + zeros + 8 ∧ ∀ fewer < zeros, ¬64 ∣ length + 1 + fewer + 8

/-- The blocks of a padded message, compressed one behind the other from a state. -/
def digest (r : Registers) (padded : List UInt8) : List UInt8 :=
  store ((Stride.chunks 64 padded).foldl compress r)

/-- The blocks of the empty message and of "abc". -/
example :
    digest initial (0x80 :: List.replicate 63 0) =
      [0xd4, 0x1d, 0x8c, 0xd9, 0x8f, 0x00, 0xb2, 0x04, 0xe9, 0x80, 0x09, 0x98, 0xec, 0xf8, 0x42,
        0x7e] ∧
    digest initial ([0x61, 0x62, 0x63, 0x80] ++ List.replicate 52 0 ++ 24 :: List.replicate 7 0) =
      [0x90, 0x01, 0x50, 0x98, 0x3c, 0xd2, 0x4f, 0xb0, 0xd6, 0x96, 0x3f, 0x7d, 0x28, 0xe1, 0x7f,
        0x72] := by decide +kernel

end Mt5Open.Lib.Md5

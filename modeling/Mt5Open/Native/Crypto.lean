import Mt5Open.Native.Cipher
import Mt5Open.Native.Records

/-!
# Credentials and keys

The credential digests and the device identity are MD5 hashes.  The session key
and the trade key come from the tags 7 and 27 of the authentication result.

The block cipher and the SHA-2 hashes come from libraries, and `Primitives`
stands for them.
-/

namespace Mt5Open.Native

open Lib

/-- The library functions that the keys and signatures rest on, and the name of
the operating system. -/
structure Primitives where
  /-- AES-128-CBC of whole blocks without padding, from a key and an initial vector. -/
  aes128CbcEncrypt : Bytes → Bytes → Bytes → Bytes
  sha256 : Bytes → Vector UInt8 32
  hmacSha256 : Vector UInt8 32 → Bytes → Vector UInt8 32
  os : String

/-! ## MD5 -/

/-- Canonical MD5 per-round additive constants. -/
def MD5_K : List UInt32 :=
  [0xd76aa478, 0xe8c7b756, 0x242070db, 0xc1bdceee, 0xf57c0faf, 0x4787c62a, 0xa8304613, 0xfd469501,
    0x698098d8, 0x8b44f7af, 0xffff5bb1, 0x895cd7be, 0x6b901122, 0xfd987193, 0xa679438e, 0x49b40821,
    0xf61e2562, 0xc040b340, 0x265e5a51, 0xe9b6c7aa, 0xd62f105d, 0x02441453, 0xd8a1e681, 0xe7d3fbc8,
    0x21e1cde6, 0xc33707d6, 0xf4d50d87, 0x455a14ed, 0xa9e3e905, 0xfcefa3f8, 0x676f02d9, 0x8d2a4c8a,
    0xfffa3942, 0x8771f681, 0x6d9d6122, 0xfde5380c, 0xa4beea44, 0x4bdecfa9, 0xf6bb4b60, 0xbebfbc70,
    0x289b7ec6, 0xeaa127fa, 0xd4ef3085, 0x04881d05, 0xd9d4d039, 0xe6db99e5, 0x1fa27cf8, 0xc4ac5665,
    0xf4292244, 0x432aff97, 0xab9423a7, 0xfc93a039, 0x655b59c3, 0x8f0ccc92, 0xffeff47d, 0x85845dd1,
    0x6fa87e4f, 0xfe2ce6e0, 0xa3014314, 0x4e0811a1, 0xf7537e82, 0xbd3af235, 0x2ad7d2bb, 0xeb86d391]

/-- The rotations of a round, by its quarter and its place in the quarter. -/
def MD5_SHIFTS : List (List UInt32) :=
  [[7, 12, 17, 22], [5, 9, 14, 20], [4, 11, 16, 23], [6, 10, 15, 21]]

/-- Standard MD5 initial state. -/
def MD5_INITIAL : Bytes :=
  [0x01, 0x23, 0x45, 0x67, 0x89, 0xab, 0xcd, 0xef, 0xfe, 0xdc, 0xba, 0x98, 0x76, 0x54, 0x32, 0x10]

/-- The `i`-th little-endian word. -/
def leWord (bytes : Bytes) (i : Nat) : UInt32 :=
  UInt32.ofNat (LittleEndian.decode (slice bytes (4 * i) 4))

/-- `md5_padding`. -/
def md5Padding (data : Bytes) : Bytes :=
  data ++ 0x80 :: (List.replicate ((55 - (data.length : Int)) % 64).toNat 0 ++
    LittleEndian.encode 8 (data.length * 8))

structure Md5State where
  a : UInt32
  b : UInt32
  c : UInt32
  d : UInt32
  deriving DecidableEq, Repr

/-- Round `i` of the compression of a chunk. -/
def md5Round (chunk : Bytes) (s : Md5State) (i : Nat) : Md5State :=
  let (mixed, word) :=
    if i < 16 then ((s.b &&& s.c) ||| (~~~s.b &&& s.d), i)
    else if i < 32 then ((s.d &&& s.b) ||| (~~~s.d &&& s.c), (5 * i + 1) % 16)
    else if i < 48 then (s.b ^^^ s.c ^^^ s.d, (3 * i + 5) % 16)
    else (s.c ^^^ (s.b ||| ~~~s.d), (7 * i) % 16)
  let value := s.a + mixed + MD5_K.getD i 0 + leWord chunk word
  let shift := (MD5_SHIFTS.getD (i / 16) []).getD (i % 4) 0
  { a := s.d, d := s.c, c := s.b, b := s.b + ((value <<< shift) ||| (value >>> (32 - shift))) }

def md5Chunk (s : Md5State) (chunk : Bytes) : Md5State :=
  let t := (List.range 64).foldl (md5Round chunk) s
  { a := s.a + t.a, b := s.b + t.b, c := s.c + t.c, d := s.d + t.d }

/-- `md5_with_state`. -/
def md5WithState (data initialDigest : Bytes) : Bytes :=
  let padded := md5Padding data
  let chunks := (List.range (padded.length / 64)).map fun i => slice padded (64 * i) 64
  let s := chunks.foldl md5Chunk
    { a := leWord initialDigest 0
      b := leWord initialDigest 1
      c := leWord initialDigest 2
      d := leWord initialDigest 3 }
  [s.a, s.b, s.c, s.d].flatMap fun word => LittleEndian.encode 4 word.toNat

/-- `md5`. -/
def md5 (data : Bytes) : Bytes := md5WithState data MD5_INITIAL

/-! ## Credentials -/

/-- Unpaired surrogates become U+FFFD. -/
def sanitizeUnits : List Nat → List Nat
  | [] => []
  | [unit] => if 0xD800 ≤ unit ∧ unit < 0xE000 then [0xFFFD] else [unit]
  | unit :: next :: rest =>
    if 0xD800 ≤ unit ∧ unit < 0xDC00 then
      if 0xDC00 ≤ next ∧ next < 0xE000 then unit :: next :: sanitizeUnits rest
      else 0xFFFD :: sanitizeUnits (next :: rest)
    else if 0xDC00 ≤ unit ∧ unit < 0xE000 then 0xFFFD :: sanitizeUnits (next :: rest)
    else unit :: sanitizeUnits (next :: rest)

/-- `dotnet_utf16`. -/
def dotnetUtf16 (text : String) (maxCodeUnits : Option Nat) : Bytes :=
  let units := text.toList.flatMap utf16Units
  let kept := match maxCodeUnits with
    | some n => units.take n
    | none => units
  (sanitizeUnits kept).flatMap (LittleEndian.encode 2)

/-- `password_hash`. -/
def passwordHash (login : Nat) (password : String) : Bytes :=
  md5 (LittleEndian.encode 8 login ++ dotnetUtf16 password (some 16) ++ [0x4d, 0x00, 0x51, 0x00])

/-- `challenge_response`. -/
def challengeResponse (login : Nat) (password : String) (challenge : Bytes) : Bytes :=
  md5WithState challenge (passwordHash login password)

/-- The bytes that the linear congruential generator gives. -/
def hardwareMaterial : Nat → UInt32 → Bytes
  | 0, _ => []
  | n + 1, state =>
    let next := state * 214013 + 2531011
    UInt8.ofNat ((next >>> 16).toNat % 256) :: hardwareMaterial n next

/-- `hardware_id`. -/
def hardwareId (login : Nat) : Bytes :=
  let digest := md5 (hardwareMaterial 256 (UInt32.ofNat login))
  UInt8.ofNat ((digest.tail.map UInt8.toNat).sum % 256) :: digest.tail

/-! ## Keys -/

/-- `derive_session_key_from_digest`. -/
def deriveSessionKeyFromDigest (primitives : Primitives) (digest tag7Value : Bytes) :
    Result Bytes :=
  if tag7Value = [] then reject "session key TLV 7 is empty"
  else
    let pad := (16 - tag7Value.length % 16) % 16
    .ok (primitives.aes128CbcEncrypt digest (List.replicate 16 0)
      (tag7Value ++ List.replicate pad 0))

/-- `derive_session_key`. -/
def deriveSessionKey (primitives : Primitives) (login : Nat) (password : String)
    (tag7Value : Bytes) : Result Bytes :=
  deriveSessionKeyFromDigest primitives (passwordHash login password) tag7Value

/-- `derive_trade_key_from_digest`. -/
def deriveTradeKeyFromDigest (primitives : Primitives) (digest tag27Value : Bytes) :
    Vector UInt8 32 :=
  primitives.sha256 (startupDecryptFrom digest 0 0 tag27Value ++ digest)

/-- `derive_trade_key`. -/
def deriveTradeKey (primitives : Primitives) (login : Nat) (password : String)
    (tag27Value : Bytes) : Vector UInt8 32 :=
  deriveTradeKeyFromDigest primitives (passwordHash login password) tag27Value

end Mt5Open.Native

import Mathlib.Algebra.Group.Nat.Defs
import Mathlib.Data.Nat.Init

/-!
# Internet addresses

Addresses of both families, their classes, and the textual form of a socket
address, as the standard library of Rust has them.  A parser takes characters from
the front of a text, or it takes none.
-/

namespace Mt5Open.Lib.Net

/-! ## Addresses -/

/-- An IPv4 address, by its octets. -/
structure Ipv4Addr where
  a : UInt8
  b : UInt8
  c : UInt8
  d : UInt8
  deriving DecidableEq, Repr

namespace Ipv4Addr

def isPrivate (ip : Ipv4Addr) : Bool :=
  ip.a == 10 || ip.a == 172 && 16 ≤ ip.b && ip.b ≤ 31 || ip.a == 192 && ip.b == 168

def localhost : Ipv4Addr := ⟨127, 0, 0, 1⟩

def isLoopback (ip : Ipv4Addr) : Bool := ip.a == 127

def isLinkLocal (ip : Ipv4Addr) : Bool := ip.a == 169 && ip.b == 254

def isUnspecified (ip : Ipv4Addr) : Bool := ip == ⟨0, 0, 0, 0⟩

def isBroadcast (ip : Ipv4Addr) : Bool := ip == ⟨255, 255, 255, 255⟩

def isMulticast (ip : Ipv4Addr) : Bool := 224 ≤ ip.a && ip.a ≤ 239

end Ipv4Addr

/-- An IPv6 address, by its eight segments. -/
structure Ipv6Addr where
  segments : Vector UInt16 8
  deriving DecidableEq, Repr

namespace Ipv6Addr

def localhost : Ipv6Addr := ⟨#v[0, 0, 0, 0, 0, 0, 0, 1]⟩

/-- The address `::ffff:127.0.0.1`. -/
def mappedLocalhost : Ipv6Addr := ⟨#v[0, 0, 0, 0, 0, 0xffff, 0x7f00, 1]⟩

def isLoopback (ip : Ipv6Addr) : Bool := ip.segments == #v[0, 0, 0, 0, 0, 0, 0, 1]

def isUnspecified (ip : Ipv6Addr) : Bool := ip.segments == #v[0, 0, 0, 0, 0, 0, 0, 0]

def isMulticast (ip : Ipv6Addr) : Bool := ip.segments[0] &&& 0xff00 == 0xff00

def isUniqueLocal (ip : Ipv6Addr) : Bool := ip.segments[0] &&& 0xfe00 == 0xfc00

def isUnicastLinkLocal (ip : Ipv6Addr) : Bool := ip.segments[0] &&& 0xffc0 == 0xfe80

/-- The IPv4 address of `::ffff:a.b.c.d`. -/
def toIpv4Mapped (ip : Ipv6Addr) : Option Ipv4Addr :=
  if ip.segments.take 6 == #v[0, 0, 0, 0, 0, 0xffff] then
    let high := ip.segments[6]
    let low := ip.segments[7]
    some ⟨(high >>> 8).toUInt8, high.toUInt8, (low >>> 8).toUInt8, low.toUInt8⟩
  else none

end Ipv6Addr

inductive SocketAddr where
  | v4 (ip : Ipv4Addr) (port : UInt16)
  | v6 (ip : Ipv6Addr) (port : UInt16) (flowinfo scopeId : UInt32)
  deriving DecidableEq, Repr

def SocketAddr.port : SocketAddr → UInt16
  | v4 _ port => port
  | v6 _ port _ _ => port

/-! ## Texts -/

/-- The characters that a text begins with are taken, or nothing is. -/
abbrev Parser (α : Type) := StateT (List Char) Option α

namespace Parser

/-- This character and no other one. -/
def givenChar (c : Char) : Parser Unit := fun text =>
  match text with
  | d :: rest => if d = c then some ((), rest) else none
  | [] => none

/-- `char::to_digit`. -/
def toDigit (radix : Nat) (c : Char) : Option Nat :=
  let digit :=
    if '0' ≤ c ∧ c ≤ '9' then c.toNat - '0'.toNat
    else if 'a' ≤ c ∧ c ≤ 'z' then c.toNat - 'a'.toNat + 10
    else if 'A' ≤ c ∧ c ≤ 'Z' then c.toNat - 'A'.toNat + 10
    else radix
  if digit < radix then some digit else none

/-- The digits at the front of a text, and what stands behind them. -/
def digits (radix : Nat) : List Char → List Nat × List Char
  | [] => ([], [])
  | c :: rest =>
    match toDigit radix c with
    | some digit => (digit :: (digits radix rest).1, (digits radix rest).2)
    | none => ([], c :: rest)

/-- A number below `bound`, of at most so many digits. -/
def number (radix : Nat) (maxDigits : Option Nat) (allowZeroPrefix : Bool) (bound : Nat) :
    Parser Nat := fun text =>
  let (ds, rest) := digits radix text
  let value := ds.foldl (fun n d => radix * n + d) 0
  if ds = [] ∨ maxDigits.any (· < ds.length) ∨ bound ≤ value then none
  else if !allowZeroPrefix ∧ ds.head? = some 0 ∧ 1 < ds.length then none
  else some (value, rest)

/-- An item of a list, behind the separator unless it is the first one. -/
def separated {α : Type} (separator : Char) (index : Nat) (inner : Parser α) : Parser α :=
  if 0 < index then do
    givenChar separator
    inner
  else inner

def ipv4Addr : Parser Ipv4Addr := do
  let octet := number 10 (some 3) false 256
  let a ← separated '.' 0 octet
  let b ← separated '.' 1 octet
  let c ← separated '.' 2 octet
  let d ← separated '.' 3 octet
  return ⟨UInt8.ofNat a, UInt8.ofNat b, UInt8.ofNat c, UInt8.ofNat d⟩

/-- Groups of an IPv6 address, at most `n` of them from the one with this index on.
The last two can be an IPv4 address, and the flag says that they are. -/
def groups : (n index : Nat) → List Char → List UInt16 × Bool × List Char
  | 0, _, text => ([], false, text)
  | n + 1, index, text =>
    match if 1 ≤ n then separated ':' index ipv4Addr text else none with
    | some (ip, rest) =>
      ([ip.a.toUInt16 <<< 8 ||| ip.b.toUInt16, ip.c.toUInt16 <<< 8 ||| ip.d.toUInt16], true, rest)
    | none =>
      match separated ':' index (number 16 (some 4) true (2 ^ 16)) text with
      | some (group, rest) =>
        let (others, mapped, rest) := groups n (index + 1) rest
        (UInt16.ofNat group :: others, mapped, rest)
      | none => ([], false, text)

/-- The address of its first and its last groups, with zeros between them. -/
def ipv6OfGroups (head tail : List UInt16) : Ipv6Addr :=
  let zeros := List.replicate (8 - head.length - tail.length) 0
  ⟨Vector.ofFn fun i : Fin 8 => (head ++ zeros ++ tail).getD i 0⟩

def ipv6Addr : Parser Ipv6Addr := fun text => do
  let (head, mapped, rest) := groups 8 0 text
  if head.length = 8 then return (ipv6OfGroups head [], rest)
  else if mapped then none
  else
    let (_, rest) ← givenChar ':' rest
    let (_, rest) ← givenChar ':' rest
    let (tail, _, rest) := groups (8 - (head.length + 1)) 0 rest
    return (ipv6OfGroups head tail, rest)

def port : Parser UInt16 := do
  givenChar ':'
  let port ← number 10 none true (2 ^ 16)
  return UInt16.ofNat port

def scopeId : Parser UInt32 := do
  givenChar '%'
  let scope ← number 10 none true (2 ^ 32)
  return UInt32.ofNat scope

def socketAddrV4 : Parser SocketAddr := do
  let ip ← ipv4Addr
  let port ← port
  return .v4 ip port

def socketAddrV6 : Parser SocketAddr := do
  givenChar '['
  let ip ← ipv6Addr
  let scope ← scopeId <|> pure 0
  givenChar ']'
  let port ← port
  return .v6 ip port 0 scope

end Parser

/-- `str::parse::<SocketAddr>`. -/
def parseSocketAddr (text : String) : Option SocketAddr :=
  match (Parser.socketAddrV4 <|> Parser.socketAddrV6) text.toList with
  | some (address, []) => some address
  | _ => none

/-- `str::parse::<u16>`, which allows a plus sign. -/
def parseU16 (text : List Char) : Option UInt16 :=
  let unsigned := if text.head? = some '+' then text.tail else text
  match Parser.number 10 none true (2 ^ 16) unsigned with
  | some (value, []) => some (UInt16.ofNat value)
  | _ => none

/-- `str::rsplit_once`: the texts around the last occurrence of a character. -/
def rsplitOnce (separator : Char) (text : List Char) : Option (List Char × List Char) :=
  match text.reverse.span (· ≠ separator) with
  | (_, []) => none
  | (back, _ :: front) => some (front.reverse, back.reverse)

/-- `char::is_whitespace`. -/
def isWhitespace (c : Char) : Bool :=
  0x9 ≤ c.toNat && c.toNat ≤ 0xD || 0x2000 ≤ c.toNat && c.toNat ≤ 0x200A ||
    [0x20, 0x85, 0xA0, 0x1680, 0x2028, 0x2029, 0x202F, 0x205F, 0x3000].contains c.toNat

/-- `str::trim`. -/
def trim (text : List Char) : List Char :=
  ((text.dropWhile isWhitespace).reverse.dropWhile isWhitespace).reverse

end Mt5Open.Lib.Net

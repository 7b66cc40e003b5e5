import Mt5Open.Native.Crypto
import Mt5Open.Native.Frame
import Mt5Open.Native.Tlv

/-!
# Authentication messages

The hello and authentication requests, the plain challenge and authentication
replies, the programs that the server sends in the tags 28 and 35, and the
synchronization request with the login values that come from their answers.
-/

namespace Mt5Open.Native

open Lib

/-! ## Requests and replies -/

def OTP_SALT : Bytes :=
  [0xf0, 0x11, 0xd6, 0x96, 0x50, 0xf6, 0x14, 0x1d, 0xd7, 0xd2, 0x1f, 0x01, 0x5a, 0x1b, 0xad, 0xf9]

/-- `make_hello`. -/
def makeHello (login : Nat) (sequence : UInt16) (build : Nat) (deviceId : Option Bytes)
    (nonceByte : UInt8) (randomWord : Nat) : Frame where
  command := 0
  sequence := sequence
  flags := FINAL
  payload := startupEncryptDefault (nonceByte :: 0 ::
    (LittleEndian.encode 2 build ++ LittleEndian.encode 2 0x514D ++ LittleEndian.encode 8 login ++
      deviceId.getD (hardwareId login) ++ LittleEndian.encode 4 randomWord))

/-- The one-time password, enciphered as the entry with tag 18. -/
def otpTlv (login : Nat) (password : String) (challenge : Bytes) (otp : String) : Bytes :=
  let otpKey := md5 (passwordHash login password ++ challenge ++ OTP_SALT ++ [0])
  encodeTlvs [(18, startupEncryptFrom otpKey 0 0 (dotnetUtf16 otp none ++ [0, 0]))]

/-- `make_auth`. -/
def makeAuth (login : Nat) (password : String) (challenge : Bytes) (sequence : UInt16)
    (clientChallenge : Bytes) (nonceWord : Nat) (otp : Option String) : Frame where
  command := 1
  sequence := sequence
  flags := FINAL
  payload := startupEncryptDefault
    (LittleEndian.encode 2 nonceWord ++ challengeResponse login password challenge ++
      clientChallenge ++ (otp.map (otpTlv login password challenge)).getD [])

/-- `certificate_continuation_payload`, whose signature goes out in reverse. -/
def certificateContinuationPayload (signature certificateDer : Bytes) : Result Bytes :=
  if signature = [] ∨ certificateDer = [] then
    reject "certificate and signature must be nonempty"
  else
    .ok (List.replicate 16 0 ++ encodeTlvs [(4, signature.reverse), (3, certificateDer)])

structure Challenge where
  unknownI16At0 : Int
  status : Int
  unknownI16At6 : Int
  challenge : Bytes
  unknownTailI16 : List Int
  deriving DecidableEq, Repr

/-- The signed integer of `size` bytes at `offset`. -/
def intAt (payload : Bytes) (offset size : Nat) : Int :=
  LittleEndian.decodeInt (slice payload offset size)

/-- `parse_challenge`. -/
def parseChallenge (payload : Bytes) : Result Challenge :=
  if payload.length ≠ 32 then reject "plaintext challenge reply must be exactly 32 bytes"
  else .ok {
    unknownI16At0 := intAt payload 0 2
    status := intAt payload 2 4
    unknownI16At6 := intAt payload 6 2
    challenge := slice payload 8 16
    unknownTailI16 := (List.range 4).map fun i => intAt payload (24 + i * 2) 2 }

structure AuthResult where
  unknownI32At0 : Int
  status : Int
  unknownI32At8 : Int
  unknownI64At12 : Int
  unknownI32At20 : Int
  serverBuild : Int
  secondaryBuild : Int
  opaque16Bytes : Bytes
  tlvs : List (UInt8 × Bytes)
  deriving DecidableEq, Repr

/-- Structural diagnostics without values. -/
structure AuthSummary where
  status : Int
  serverBuild : Int
  recordBuild : Int
  certificateRequired : Bool
  tags : List (UInt8 × Nat)
  deriving DecidableEq, Repr

/-- `AuthResult::summary`. -/
def AuthResult.summary (result : AuthResult) : AuthSummary where
  status := result.status
  serverBuild := result.serverBuild
  recordBuild := result.secondaryBuild
  certificateRequired := result.status == 1003
  tags := result.tlvs.map fun (tag, value) => (tag, value.length)

/-- `parse_auth_result`. -/
def parseAuthResult (payload : Bytes) : Result AuthResult :=
  if payload.length < 44 then reject "plaintext authentication result is shorter than 44 bytes"
  else do
    let tlvs ← parseTlvs (payload.drop 44)
    return {
      unknownI32At0 := intAt payload 0 4
      status := intAt payload 4 4
      unknownI32At8 := intAt payload 8 4
      unknownI64At12 := intAt payload 12 8
      unknownI32At20 := intAt payload 20 4
      serverBuild := intAt payload 24 2
      secondaryBuild := intAt payload 26 2
      opaque16Bytes := slice payload 28 16
      tlvs }

/-! ## Challenge programs -/

def CLIENT_BUILD : Nat := 6182
def LOGIN_SEED : UInt64 := 0xc9d1c26516d7
def MAX_PROGRAM_BYTES : Nat := 64 * 1024
def FINAL_XOR : UInt64 := 0xc9d140050011

inductive Version where
  | tag28
  | tag35
  deriving DecidableEq, Repr

namespace Version

def shift : Version → UInt64
  | .tag28 => 11
  | .tag35 => 17

def accumulatorOperand : Version → UInt64
  | .tag28 => 252
  | .tag35 => 242

def seedMask : Version → UInt64
  | .tag28 => 0x16bbb956877806
  | .tag35 => 0x674af6c7862323

end Version

/-- An instruction gives the next accumulator, or halts with the answer. -/
inductive Executed where
  | next (value : UInt64)
  | halt (answer : UInt64)
  deriving DecidableEq, Repr

/-- The instructions of tag 28. -/
def execute28 (opcode : Nat) (a right value seed : UInt64) : Executed :=
  match opcode with
  | 39 => .next ((a &&& right) ^^^ 5)
  | 98 => .next (a ||| right)
  | 214 => .next (a ^^^ right ^^^ 5)
  | 113 => .next (a + right)
  | 63 => .next ((a - right) ^^^ 5)
  | 51 => .next (a <<< (right % 16))
  | 205 => .next ((a >>> (right % 16)) ^^^ 5)
  | 88 => .next (a ^^^ right)
  | 25 => .next (((a ||| 200) &&& right) ^^^ 5)
  | 80 => .next (a ||| right ||| 0x28000000)
  | 118 => .next (((a ^^^ 0x760000000000) + (right ^^^ 0x3b0)) ^^^ 5)
  | 74 => .next ((a ^^^ 0x12800) - right)
  | 220 => .next ((a &&& 0xf732673211279323) ^^^ right ^^^ 5)
  | 237 => .next ((a / 237) ^^^ right)
  | 7 => .next (a ^^^ (right / 7) ^^^ 5)
  | 106 => .halt (value ^^^ seed ^^^ FINAL_XOR)
  | _ => .next value

/-- The instructions of tag 35.  The operands of a halt have a selector of their own. -/
def execute35 (opcode : Nat) (a left right value seed : UInt64) : Executed :=
  match opcode with
  | 34 => .next (a &&& right)
  | 147 => .next (a ||| right)
  | 194 => .next (a ^^^ right)
  | 127 => .next (a + right)
  | 78 => .next (a - right)
  | 56 => .next (a <<< (right % 24))
  | 171 => .next (a >>> (right % 24))
  | 50 => .next ((a ||| ((50 : UInt64) <<< 37)) ^^^ (right ||| 50))
  | 17 => .next ((a ||| ((17 : UInt64) <<< 43)) &&& (right ||| ((17 : UInt64) <<< 12)))
  | 95 => .next (a ||| right ||| ((95 : UInt64) <<< 52) ||| ((95 : UInt64) <<< 18))
  | 154 => .next ((a ^^^ ((154 : UInt64) <<< 35)) + (right ^^^ ((154 : UInt64) <<< 7)))
  | 39 => .next ((a ^^^ ((39 : UInt64) <<< 40)) - (right ^^^ ((39 : UInt64) <<< 21)))
  | 226 => .next (((a ^^^ ((226 : UInt64) <<< 40)) % 226) ^^^ right)
  | 206 => .next ((a / 206) ^^^ right)
  | 134 => .next (a ^^^ (right / 134))
  | 114 =>
    let low := if (left >>> 14) &&& 255 = 83 then 0 else left &&& 0xffffffff
    .halt (value ^^^ seed ^^^ FINAL_XOR ^^^ low ^^^ (right &&& 0xffffffff00000000))
  | _ => .next value

/-- One instruction of 24 bytes. -/
def execute (version : Version) (seed value : UInt64) (instruction : Bytes) : Executed :=
  let word (offset : Nat) : UInt64 :=
    UInt64.ofNat (LittleEndian.decode (slice instruction offset 8))
  let opcode := ((word 0 >>> version.shift) &&& 255).toNat
  let left := word 8
  let right := word 16
  let a := if (left >>> version.shift) &&& 255 = version.accumulatorOperand then value else left
  match version with
  | .tag28 => execute28 opcode a right value seed
  | .tag35 => execute35 opcode a left right value seed

/-- The loop of `solve` over the instructions. -/
def runProgram (version : Version) (seed : UInt64) : UInt64 → List Bytes → UInt64
  | value, [] => value
  | value, instruction :: rest =>
    match execute version seed value instruction with
    | .next next => runProgram version seed next rest
    | .halt answer => answer

/-- `challenge::solve`. -/
def solve (version : Version) (program : Bytes) (seed : UInt64) : Result UInt64 :=
  if program = [] ∨ MAX_PROGRAM_BYTES < program.length ∨ program.length % 24 ≠ 0 then
    reject "invalid native challenge program length"
  else
    let instructions :=
      (List.range (program.length / 24)).map fun i => slice program (24 * i) 24
    .ok (runProgram version seed (seed ^^^ version.seedMask) instructions)

/-! ## Login values and the synchronization request -/

/-- Wrapper constants from the specification. -/
def LOGIN_K : UInt64 := 371664536245528874
def LOGIN_J : UInt64 := 1185773498152003

structure LoginValues where
  loginId : UInt64
  extendedLoginId : UInt64
  tag88Value : Bytes
  tag134Value : Bytes
  deriving DecidableEq, Repr

def leBytes (v : UInt64) : Bytes := LittleEndian.encode 8 v.toNat

/-- `login_value_wrapper`. -/
def loginValueWrapper (login clientBuild serverBuild : Nat) (challenge : Bytes)
    (f28Result f35Result : UInt64) : LoginValues :=
  let l := UInt64.ofNat login
  let c64 := UInt64.ofNat clientBuild
  let q := UInt64.ofNat (LittleEndian.decode (slice challenge 0 8))
  let low := UInt64.ofNat (serverBuild % 8)
  let x := if 5409 ≤ serverBuild then f28Result + low else f28Result
  let loginId := x ^^^ l ^^^ c64 ^^^ q ^^^ LOGIN_K
  let y := f35Result ^^^ (l ^^^ c64 ^^^ q)
  let y :=
    if 4852 ≤ serverBuild then
      let y := y ^^^ LOGIN_J
      if 5409 ≤ serverBuild then y + low else y
    else y
  let extendedLoginId := y ^^^ LOGIN_K
  { loginId
    extendedLoginId
    tag88Value := leBytes (loginId ^^^ LOGIN_K)
    tag134Value := leBytes (extendedLoginId ^^^ LOGIN_K) }

/-- `make_sync_request`. -/
def makeSyncRequest (login clientBuild serverBuild : Nat) (unixSeconds : Int)
    (loginId extendedLoginId : UInt64) (environmentText : Option String) : Bytes :=
  let e := md5 []
  let modern := 4200 < clientBuild ∧ 4200 ≤ serverBuild
  let zero64 := LittleEndian.encodeInt 8 0
  let zero32 := LittleEndian.encode 4 0
  encodeTlvs (
    [(34, LittleEndian.encodeInt 8 (-1)),
      (39, zero32),
      (108, (md5 (LittleEndian.encode 8 login)).take 8),
      (139, LittleEndian.encode 8 login ++ LittleEndian.encode 8 0),
      (22, 0 :: zero64),
      (24, LittleEndian.encodeInt 8 unixSeconds)] ++
    (if modern then [(132, []), (127, utf16Bytes (environmentText.getD "") ++ [0, 0])] else []) ++
    [(7, zero64 ++ zero32 ++ e ++ e),
      (40, zero64 ++ zero32 ++ e),
      (103, zero64 ++ zero32),
      (17, [0xf6, 0xeb, 0x06, 0x45, 0xcd, 0x12, 0x74, 0xf1,
        0x52, 0xd9, 0x97, 0x93, 0xcb, 0xd8, 0xda, 0xd8]),
      (88, leBytes (loginId ^^^ LOGIN_K))] ++
    (if modern then [(134, leBytes (extendedLoginId ^^^ LOGIN_K))] else []))

end Mt5Open.Native

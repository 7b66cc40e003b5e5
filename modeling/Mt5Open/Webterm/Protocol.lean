import Mt5Open.Bytes

/-!
# Web-terminal wire format

A command is two random bytes, the command id and a payload (`buildCommand`).
An answer is two tag bytes, the id of the command that it answers, a result
code and a body (`parseResponse`).  The tag of an answer is parsed and then
never looked at: the reader finds the waiting request by the command id alone.

The field readers of `parse.rs` answer zero when the slice is too short.
`parseTradeEvent` reads the answer to a trade command with them.
-/

namespace Mt5Open.Webterm

open Lib

def CMD_SUBSCRIBE : UInt16 := 7
def CMD_RATES : UInt16 := 11
def CMD_TRADE : UInt16 := 12

/-- Bytes in one trade operation. -/
def OP_SIZE : Nat := 248

/-- The id in bytes 2 and 3, where commands and answers both carry it. -/
def cmdIdOf (bytes : Bytes) : UInt16 := UInt16.ofNat (LittleEndian.decode (slice bytes 2 2))

/-- `build_command`.  The two leading bytes come from the random generator. -/
def buildCommand (random : UInt16) (cmdId : UInt16) (payload : Bytes) : Bytes :=
  LittleEndian.encode 2 random.toNat ++ LittleEndian.encode 2 cmdId.toNat ++ payload

/-- One answer or push of the server. -/
structure Frame where
  tag : UInt16
  cmdId : UInt16
  resCode : UInt8
  body : Bytes
  deriving DecidableEq, Repr

def parseResponse (data : Bytes) : Option Frame :=
  if data.length < 5 then none
  else
    some
      { tag := UInt16.ofNat (LittleEndian.decode (slice data 0 2))
        cmdId := cmdIdOf data
        resCode := data.getD 4 0
        body := data.drop 5 }

/-- The id that `buildCommand` writes is the one that `cmdIdOf` reads. -/
@[simp] theorem cmdIdOf_buildCommand (random cmdId : UInt16) (payload : Bytes) :
    cmdIdOf (buildCommand random cmdId payload) = cmdId := by
  have hslice : slice (buildCommand random cmdId payload) 2 2 =
      LittleEndian.encode 2 cmdId.toNat := by
    simp [slice, buildCommand, LittleEndian.encode]
  have hlt : cmdId.toNat < 256 ^ 2 := cmdId.toNat_lt
  rw [cmdIdOf, hslice, LittleEndian.decode_encode_of_lt hlt]
  exact UInt16.ofNat_toNat

theorem four_le_length_buildCommand (random cmdId : UInt16) (payload : Bytes) :
    4 ≤ (buildCommand random cmdId payload).length := by
  simp [buildCommand]
  omega

/-- An answer of five bytes or more parses, with the id in its bytes 2 and 3. -/
theorem parseResponse_cmdId {data : Bytes} (h : 5 ≤ data.length) :
    ∃ frame, parseResponse data = some frame ∧ frame.cmdId = cmdIdOf data := by
  rw [parseResponse, if_neg (by omega)]
  exact ⟨_, rfl, rfl⟩

/-! ## The field readers -/

/-- `u32_at`. -/
def u32At (bytes : Bytes) : Nat :=
  if bytes.length < 4 then 0 else LittleEndian.decode (bytes.take 4)

/-- `i64_at`. -/
def i64At (bytes : Bytes) : Int :=
  if bytes.length < 8 then 0 else LittleEndian.decodeInt (bytes.take 8)

/-- `f64_at`. -/
def f64At (bytes : Bytes) : F64 :=
  if bytes.length < 8 then .zero else F64.fromLe (bytes.take 8)

/-- The part of a trade answer that `send_op` keeps. -/
structure TradeEvent where
  retcode : Nat
  deal : Int
  order : Int
  volume : Int
  price : F64
  deriving DecidableEq, Repr

/-- `parse_trade_event`.  The echoed operation stands before the result. -/
def parseTradeEvent (body : Bytes) : Option TradeEvent :=
  let ap := 4 + OP_SIZE
  if body.length < ap + 36 then none
  else
    some
      { retcode := u32At (body.drop ap)
        deal := i64At (body.drop (ap + 4))
        order := i64At (body.drop (ap + 12))
        volume := i64At (body.drop (ap + 20))
        price := f64At (body.drop (ap + 28)) }

end Mt5Open.Webterm

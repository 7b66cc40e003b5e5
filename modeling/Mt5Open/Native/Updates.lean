import Mt5Open.Native.Account
import Mt5Open.Native.Records

/-!
# Account, order and position changes

The broker pushes changes as messages of command 55.  The first byte of the
payload says what they are about.
-/

namespace Mt5Open.Native

open Lib

inductive Change where
  | add
  | update
  | delete
  deriving DecidableEq, Repr

/-- `transaction`. -/
def transaction : Reader Change := do
  let bytes ← Reader.take 152
  let action := LittleEndian.decodeInt (slice bytes 4 4)
  if action = 0 then return .add
  else if action = 1 then return .update
  else if action = 2 then return .delete
  else Reader.fail s!"unknown transaction action {action}"

structure PositionChange where
  deal : Deal
  position : Deal
  balance : Option (F64 × F64)
  relatedDeals : List Deal
  relatedPositions : List Deal
  deriving DecidableEq, Repr

inductive Update where
  | symbols (symbols : List Symbol)
  | account (accounts : List AccountState)
  | orders (orders : List (Change × Order))
  | positions (changes : List PositionChange)
  | other
  deriving DecidableEq, Repr

/-- One round of the symbols branch of `decode_update`. -/
def symbolUpdate : Reader Symbol := do
  let _ ← Reader.take 32
  let info ← Reader.take 1952
  let group ← Reader.take 1228
  let symbol ← Decoder.ofResult (Symbol.parse info group)
  let _ ← Decoder.times (do
    let count ← Reader.count 40
    Reader.take (count * 40)) 14
  let _ ← Reader.take 80
  return symbol

/-- One round of the orders branch of `decode_update`. -/
def orderUpdate : Reader (Change × Order) := do
  let action ← transaction
  let order ← Decoder.ofResult (Order.parse (← Reader.take 636))
  return (action, order)

/-- A deal record of a positions update. -/
def dealRecord : Reader Deal := do
  Decoder.ofResult (Deal.parse (← Reader.take 672))

/-- One round of the positions branch of `decode_update`. -/
def positionUpdate : Reader PositionChange := do
  let action ← transaction
  let deal ← dealRecord
  let position ← dealRecord
  let account ← Decoder.ofResult (Record.new (← Reader.take 192) 192)
  let balance :=
    if action = .add ∧ deal.ticket ≠ 0 then some (account.f64 8, account.f64 16) else none
  let _ ← Reader.take 64
  let relatedDeals ← Decoder.times dealRecord (← Reader.count 672)
  let relatedPositions ← Decoder.times dealRecord (← Reader.count 672)
  return { deal, position, balance, relatedDeals, relatedPositions }

/-- The end of `decode_update`, which accepts no bytes behind the records. -/
def exhausted (update : Update) : Reader Update := fun remaining =>
  if remaining = [] then .ok (update, []) else reject "trailing trade update bytes"

/-- The records of an update, behind the byte that says what they are about. -/
def updateRecords (bytes : Bytes) : Reader Update := do
  let kind ← Reader.byte
  if kind = 7 then exhausted (.symbols (← Decoder.times symbolUpdate (← Reader.count 3348)))
  else if kind = 19 then
    return .account (← Decoder.ofResult (parseAccountUpdate19 bytes))
  else if kind = 31 then exhausted (.orders (← Decoder.times orderUpdate (← Reader.count 788)))
  else if kind = 33 then
    exhausted (.positions (← Decoder.times positionUpdate (← Reader.count 1760)))
  else return .other

/-- `decode_update`. -/
def decodeUpdate (bytes : Bytes) : Result Update := (updateRecords bytes).run' bytes

end Mt5Open.Native

import Mt5Open.Native.Reader

/-!
# The account record

A client receives account records in the synchronization response and as
updates, messages of command 55 whose payload begins with 19.
-/

namespace Mt5Open.Native

open Lib

/-- The size of one account record. -/
def ACCOUNT_REC_SIZE : Nat := 2996

/-- The prefix of each record inside an update. -/
def UPDATE_PREFIX : Nat := 216

/-- The identified numbers from an account record. -/
structure AccountState where
  login : Nat
  balance : F64
  credit : F64
  blocked : F64
  leverage : Int
  tradeFlags : Int32
  deriving DecidableEq, Repr

/-- Trade flag bit 8 marks an investor login. -/
def AccountState.isReadOnly (account : AccountState) : Bool := account.tradeFlags &&& 8 != 0

def f64At (record : Bytes) (offset : Nat) (h : offset + 8 ≤ record.length) : F64 :=
  F64.fromLe (part record offset 8 h)

def i32At (record : Bytes) (offset : Nat) (h : offset + 4 ≤ record.length) : Int :=
  LittleEndian.decodeInt (part record offset 4 h)

def u64At (record : Bytes) (offset : Nat) (h : offset + 8 ≤ record.length) : Nat :=
  LittleEndian.decode (part record offset 8 h)

/-- `parse_account_rec`. -/
def parseAccountRec (record : Bytes) : Result AccountState :=
  if h : record.length < ACCOUNT_REC_SIZE then
    reject s!"account record is {record.length} bytes, need {ACCOUNT_REC_SIZE}"
  else
    have hsize : 2996 ≤ record.length := Nat.le_of_not_lt h
    .ok {
      login := u64At record 0 (by omega)
      balance := f64At record 1836 (by omega)
      credit := f64At record 1844 (by omega)
      blocked := f64At record 1928 (by omega)
      leverage := i32At record 2020 (by omega)
      tradeFlags := Int32.ofInt (i32At record 456 (by omega)) }

/-- `parse_account_update_19`. -/
def parseAccountUpdate19 (body : Bytes) : Result (List AccountState) :=
  if body.length < 5 then reject "account update too short for subtype + count"
  else if body.headD 0 ≠ 19 then reject "not a subtype-19 account update"
  else
    let count := LittleEndian.decodeInt (slice body 1 4)
    if count < 0 then reject "account update count is negative"
    else
      let stride := UPDATE_PREFIX + ACCOUNT_REC_SIZE
      let need := 5 + count.toNat * stride
      if body.length < need then
        reject s!"account update is {body.length} bytes, need {need} for {count} records"
      else (List.range count.toNat).mapM fun i =>
        parseAccountRec (slice body (5 + i * stride + UPDATE_PREFIX) ACCOUNT_REC_SIZE)

end Mt5Open.Native

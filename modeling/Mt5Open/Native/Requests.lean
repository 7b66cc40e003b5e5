import Mt5Open.Native.Records
import Mt5Open.Native.TickHistory

/-!
# History requests

The bodies of the requests for ticks and for bars.  A day is a token of 16 bits, and a
request for ticks carries the cache tokens of the containers that are held.
-/

namespace Mt5Open.Native

open Lib
open Ticks (TickCache)

/-! ## Dates -/

def isValidCalendarDate (year month day : Int) : Bool :=
  let leap := (year % 4 = 0 ∧ year % 100 ≠ 0) ∨ year % 400 = 0
  if month ∈ [1, 3, 5, 7, 8, 10, 12] then 1 ≤ day ∧ day ≤ 31
  else if month ∈ [4, 6, 9, 11] then 1 ≤ day ∧ day ≤ 30
  else if month = 2 then 1 ≤ day ∧ day ≤ if leap then 29 else 28
  else false

/-- A calendar date as `((year-1970)<<9)|(month<<5)|day`. -/
def dateToken (year month day : Int) : Result Nat :=
  if ¬(1970 ≤ year ∧ year ≤ 2097) ∨ ¬(1 ≤ month ∧ month ≤ 12) ∨ ¬(1 ≤ day ∧ day ≤ 31) then
    reject "date outside representable fields"
  else if !isValidCalendarDate year month day then reject "invalid calendar date"
  else .ok (((year - 1970).toNat <<< 9 ||| month.toNat <<< 5 ||| day.toNat) % 2 ^ 16)

/-! ## Bars -/

/-- Dated bar-history request: a `0x09` selector, the symbol in 64 bytes, then the first
parameter and the date token. -/
def barMonthRequest (symbol : String) (year month day : Int) : Result Bytes :=
  let field := utf16Bytes symbol
  if 64 < field.length then reject "symbol exceeds 64 bytes"
  else do
    let token ← dateToken year month day
    return 0x09 :: (field ++ List.replicate (64 - field.length) 0 ++
      LittleEndian.encode 2 548 ++ LittleEndian.encode 2 token)

/-! ## Ticks -/

/-- UTF-16LE, null-padded or truncated to `size` bytes. -/
def utf16Field (s : String) (size : Nat) : Bytes :=
  let v := utf16Bytes s
  v.take size ++ List.replicate (size - v.length) 0

/-- The request descriptor at the end of a tick-history request. -/
def requestDescriptor499 (symbol : String) (token : Nat) : Bytes :=
  LittleEndian.encode 2 499 ++ utf16Field symbol 64 ++ LittleEndian.encode 2 token ++
    LittleEndian.encode 2 token ++ LittleEndian.encodeInt 4 0 ++ LittleEndian.encodeInt 4 0 ++
    LittleEndian.encodeInt 4 0 ++ LittleEndian.encodeInt 4 0 ++ [2] ++
    LittleEndian.encodeInt 4 0 ++ LittleEndian.encode 2 5 ++ LittleEndian.encode 2 6 ++
    LittleEndian.encode 4 1 ++ List.replicate 400 0

/-- A cache token in a tick-history request. -/
def cacheToken (c : TickCache) : Bytes :=
  LittleEndian.encode 2 c.date ++ [0, 0] ++ LittleEndian.encodeInt 4 c.time ++
    LittleEndian.encodeInt 4 c.size ++ [0, 0, 0, 0] ++ LittleEndian.encode 2 c.flags ++ [0, 0] ++
    LittleEndian.encode 4 c.crc

def makeCachedTickHistoryRequest (symbol : String) (year month day : Int)
    (requestParameter : Nat) (cache : List TickCache) : Result Bytes :=
  if symbol = "" ∨ 31 < (symbol.toList.flatMap utf16Units).length ∨ '\x00' ∈ symbol.toList ∨
      4096 < cache.length then
    reject "invalid tick history symbol/cache size"
  else do
    let token ← dateToken year month day
    return 14 :: (utf16Field symbol 64 ++ LittleEndian.encode 2 token ++
      LittleEndian.encode 4 requestParameter ++ LittleEndian.encode 4 cache.length ++
      cache.flatMap cacheToken ++ requestDescriptor499 symbol token)

/-! ## What a request carries -/

theorem length_utf16Field (s : String) (size : Nat) : (utf16Field s size).length = size := by
  rw [utf16Field, List.length_append, List.length_take, List.length_replicate]
  omega

theorem length_requestDescriptor499 (symbol : String) (token : Nat) :
    (requestDescriptor499 symbol token).length = 499 := by
  simp only [requestDescriptor499, List.length_append, length_utf16Field,
    LittleEndian.length_encode, LittleEndian.length_encodeInt, List.length_replicate,
    List.length_singleton]

theorem length_cacheToken (c : TickCache) : (cacheToken c).length = 24 := by simp [cacheToken]

theorem length_cacheTokens (cache : List TickCache) :
    (cache.flatMap cacheToken).length = 24 * cache.length := by
  induction cache with
  | nil => rfl
  | cons c cache ih =>
    rw [List.flatMap_cons, List.length_append, length_cacheToken, ih, List.length_cons]
    omega

/-- The tokens stand behind their number, in the order of the cache, and in front of the
descriptor. -/
theorem makeCachedTickHistoryRequest_layout {symbol : String} {year month day : Int}
    {requestParameter : Nat} {cache : List TickCache} {body : Bytes}
    (h : makeCachedTickHistoryRequest symbol year month day requestParameter cache = .ok body) :
    ∃ token front, dateToken year month day = .ok token ∧ front.length = 71 ∧
      body = front ++ LittleEndian.encode 4 cache.length ++ cache.flatMap cacheToken ++
        requestDescriptor499 symbol token ∧
      body.length = 574 + 24 * cache.length := by
  unfold makeCachedTickHistoryRequest at h
  split at h
  · cases h
  · obtain ⟨token, htoken, h⟩ := except_bind_eq_ok.mp h
    cases h
    refine ⟨token, 14 :: (utf16Field symbol 64 ++ LittleEndian.encode 2 token ++
      LittleEndian.encode 4 requestParameter), htoken, ?_, ?_, ?_⟩
    · simp [length_utf16Field]
    · simp
    · simp only [List.length_cons, List.length_append, length_utf16Field, length_cacheTokens,
        length_requestDescriptor499, LittleEndian.length_encode]
      omega

example : (makeCachedTickHistoryRequest "EURUSD" 2023 11 14 0
    [{ date := 27502, time := 42, size := 128, flags := 6, crc := 0xdeadbeef }]).map
      (fun body => (body.drop 71).take 28) =
    .ok [1, 0, 0, 0, 110, 107, 0, 0, 42, 0, 0, 0, 128, 0, 0, 0, 0, 0, 0, 0, 6, 0, 0, 0, 239, 190,
      173, 222] := by decide +kernel

end Mt5Open.Native

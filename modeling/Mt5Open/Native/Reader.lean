import Mt5Open.Bytes
import Mt5Open.Lib.Decoder

/-!
# Errors and the byte reader

Every decoder of the wire codec answers with a `Result`, whose error is a
message.  `Reader` is the cursor that the record decoders share: it takes bytes
from the front of what remains and fails when too few remain.
-/

namespace Mt5Open.Native

open Lib

/-- A rejected decode carries a message. -/
structure ProtocolError where
  message : String
  deriving DecidableEq, Repr

abbrev Result := Except ProtocolError

/-- `Err(ProtocolError::new(message))`. -/
def reject {α : Type} (message : String) : Result α := .error ⟨message⟩

/-- A decoder that consumes a prefix of the remaining bytes. -/
abbrev Reader := Decoder ProtocolError Bytes

namespace Reader

/-- Fail, whatever remains. -/
def fail {α : Type} (message : String) : Reader α := Decoder.raise ⟨message⟩

/-- `Reader::take`. -/
def take (size : Nat) : Reader Bytes := fun remaining =>
  if remaining.length < size then reject "truncated message"
  else .ok (remaining.take size, remaining.drop size)

/-- `Reader::byte`. -/
def byte : Reader UInt8 := do
  let bytes ← take 1
  return bytes.headD 0

/-- `Reader::u16`. -/
def u16 : Reader UInt16 := do
  let bytes ← take 2
  return UInt16.ofNat (LittleEndian.decode bytes)

/-- `Reader::i32`. -/
def i32 : Reader Int := do
  let bytes ← take 4
  return LittleEndian.decodeInt bytes

/-- `Reader::u64`. -/
def u64 : Reader Nat := do
  let bytes ← take 8
  return LittleEndian.decode bytes

/-- `Reader::count`. -/
def count (minimumStride : Nat) : Reader Nat := fun remaining =>
  match i32 remaining with
  | .error e => .error e
  | .ok (count, rest) =>
    if count < 0 ∨ rest.length / max minimumStride 1 < count.toNat then
      reject "invalid record count"
    else .ok (count.toNat, rest)

/-- A successful `take` splits what remains. -/
theorem take_eq_ok {size : Nat} {remaining bytes rest : Bytes} :
    take size remaining = .ok (bytes, rest) ↔ remaining = bytes ++ rest ∧ bytes.length = size := by
  unfold take
  constructor
  · intro h
    split at h
    · cases h
    · rename_i hlength
      cases Except.ok.inj h
      exact ⟨(List.take_append_drop size remaining).symm, by rw [List.length_take]; omega⟩
  · rintro ⟨rfl, rfl⟩
    rw [if_neg (by simp), List.take_left, List.drop_left]

theorem take_append {bytes rest : Bytes} {size : Nat} (h : bytes.length = size) :
    take size (bytes ++ rest) = .ok (bytes, rest) := take_eq_ok.mpr ⟨rfl, h⟩

theorem byte_cons (b : UInt8) (rest : Bytes) : byte (b :: rest) = .ok (b, rest) := by
  have htake : take 1 (b :: rest) = .ok ([b], rest) := take_eq_ok.mpr ⟨rfl, rfl⟩
  exact Decoder.bind_of_ok htake

theorem u16_cons (a b : UInt8) (rest : Bytes) :
    u16 (a :: b :: rest) = .ok (UInt16.ofNat (LittleEndian.decode [a, b]), rest) := by
  have htake : take 2 (a :: b :: rest) = .ok ([a, b], rest) :=
    take_eq_ok.mpr ⟨rfl, rfl⟩
  exact Decoder.bind_of_ok htake

theorem i32_cons (a b c d : UInt8) (rest : Bytes) :
    i32 (a :: b :: c :: d :: rest) = .ok (LittleEndian.decodeInt [a, b, c, d], rest) := by
  have htake : take 4 (a :: b :: c :: d :: rest) = .ok ([a, b, c, d], rest) :=
    take_eq_ok.mpr ⟨rfl, rfl⟩
  exact Decoder.bind_of_ok htake

theorem shrinks_take (size : Nat) : Decoder.Shrinks List.length (take size) := by
  intro remaining bytes rest h
  obtain ⟨rfl, -⟩ := take_eq_ok.mp h
  rw [List.length_append]
  omega

theorem byte_shorter {b : UInt8} {remaining rest : Bytes} (h : byte remaining = .ok (b, rest)) :
    rest.length < remaining.length := by
  obtain ⟨first, last, hfirst, hlast⟩ := Decoder.bind_eq_ok.mp h
  obtain ⟨-, rfl⟩ := Decoder.pure_eq_ok.mp hlast
  obtain ⟨rfl, hlength⟩ := take_eq_ok.mp hfirst
  rw [List.length_append]
  omega

end Reader

end Mt5Open.Native

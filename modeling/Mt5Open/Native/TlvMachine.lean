import Mt5Open.Native.Checked
import Mt5Open.Native.Tlv

/-!
# The parser of tag/length/value lists with its offset

`parseTlvs` reads from the bytes that remain.  The parser here has the payload as a whole and
an offset into it, and an index or a sum out of range is a panic.  `Machine.parseTlvs_eq` says
that it never panics and answers as `parseTlvs` does.

`tlvs_round_trip` is the format: the payloads that are accepted are the encodings, each
with one list.
-/

namespace Mt5Open.Native

open Lib

namespace Tlv.Machine

open Checked

/-- One round of the loop of `parse_tlvs`. -/
def tlvRound (payload : Bytes) (out : List (UInt8 × Bytes)) (off : Nat) :
    Except Fault (List (UInt8 × Bytes) × Nat) := do
  let left ← sub payload.length off
  if left < 5 then .error (.rejected ⟨"truncated TLV header"⟩)
  else
    let tag ← index payload off
    let header ← [1, 2, 3, 4].mapM fun i => do index payload (← add off i)
    let size := LittleEndian.decodeInt header
    let off ← add off 5
    let left ← sub payload.length off
    if size < 0 ∨ left < size.toNat then
      .error (.rejected ⟨s!"invalid size {size} for TLV {tag}"⟩)
    else
      let stop ← add off size.toNat
      let value ← range payload off stop
      return (out ++ [(tag, value)], stop)

/-- The offset goes forward. -/
theorem tlvRound_lt {payload : Bytes} {out out' : List (UInt8 × Bytes)} {off next : Nat}
    (h : tlvRound payload out off = .ok (out', next)) : off + 5 ≤ next ∧ next ≤ payload.length := by
  obtain ⟨left, -, h⟩ := except_bind_eq_ok.mp h
  split at h
  · cases h
  · obtain ⟨tag, -, h⟩ := except_bind_eq_ok.mp h
    obtain ⟨header, -, h⟩ := except_bind_eq_ok.mp h
    obtain ⟨start, hstart, h⟩ := except_bind_eq_ok.mp h
    obtain ⟨rest, -, h⟩ := except_bind_eq_ok.mp h
    split at h
    · cases h
    · obtain ⟨stop, hstop, h⟩ := except_bind_eq_ok.mp h
      obtain ⟨value, hvalue, h⟩ := except_bind_eq_ok.mp h
      cases h
      have hfirst := add_eq_ok hstart
      have hlast := add_eq_ok hstop
      unfold range at hvalue
      split at hvalue
      · omega
      · cases hvalue

/-- The loop of `parse_tlvs`, over the entries so far and the offset. -/
def tlvLoop (payload : Bytes) :
    Loop (List (UInt8 × Bytes) × Nat) (Except Fault (List (UInt8 × Bytes))) where
  body
    | (out, off) =>
      if off < payload.length then
        match tlvRound payload out off with
        | .error e => .inr (.error e)
        | .ok next => .inl next
      else .inr (.ok out)
  measure s := payload.length - s.2
  decreases := by
    rintro ⟨out, off⟩ ⟨out', next⟩ h
    simp only at h
    split at h
    · split at h
      · cases h
      · rename_i hround
        cases Sum.inl.inj h
        have := tlvRound_lt hround
        show payload.length - next < payload.length - off
        omega
    · cases h

/-- `parse_tlvs`. -/
def parseTlvs (payload : Bytes) : Except Fault (List (UInt8 × Bytes)) :=
  (tlvLoop payload).run ([], 0)

/-! ## The offset and what remains behind it -/

theorem index_append {front rest : Bytes} {i : Nat} (h : i < rest.length) :
    index (front ++ rest) (front.length + i) = .ok rest[i] := by
  rw [index_of_lt (by rw [List.length_append]; omega)]
  congr 1
  rw [List.getElem_append_right (Nat.le_add_right _ _)]
  simp only [Nat.add_sub_cancel_left]

theorem exists_header {rest : Bytes} (h : 4 ≤ rest.length) :
    ∃ a b c d value, rest = a :: b :: c :: d :: value := by
  rcases rest with _ | ⟨a, rest⟩
  · simp at h
  rcases rest with _ | ⟨b, rest⟩
  · simp at h
  rcases rest with _ | ⟨c, rest⟩
  · simp at h
  rcases rest with _ | ⟨d, value⟩
  · simp at h
  exact ⟨a, b, c, d, value, rfl⟩

section Round

variable {front : Bytes} {tag a b c d : UInt8} {value : Bytes} (out : List (UInt8 × Bytes))

theorem tlvRound_short {rest : Bytes} (h : rest.length < 4) :
    tlvRound (front ++ tag :: rest) out front.length =
      .error (.rejected ⟨"truncated TLV header"⟩) := by
  have hleft : sub (front ++ tag :: rest).length front.length = .ok (rest.length + 1) := by
    rw [sub_of_le (by rw [List.length_append]; omega), List.length_append, List.length_cons,
      Nat.add_sub_cancel_left]
  rw [tlvRound, hleft, except_ok_bind, if_pos (by omega)]

/-- A round with a whole header, up to the check of the size. -/
theorem tlvRound_header (hlength : (front ++ tag :: a :: b :: c :: d :: value).length < 2 ^ 64) :
    tlvRound (front ++ tag :: a :: b :: c :: d :: value) out front.length =
      (let size := LittleEndian.decodeInt [a, b, c, d]
      if size < 0 ∨ value.length < size.toNat then
        .error (.rejected ⟨s!"invalid size {size} for TLV {tag}"⟩)
      else do
        let stop ← add (front.length + 5) size.toNat
        let value ← range (front ++ tag :: a :: b :: c :: d :: value) (front.length + 5) stop
        return (out ++ [(tag, value)], stop)) := by
  have htotal : (front ++ tag :: a :: b :: c :: d :: value).length =
      front.length + 5 + value.length := by
    simp only [List.length_append, List.length_cons]
    omega
  have hindex : ∀ i (hi : i < (tag :: a :: b :: c :: d :: value).length),
      (do index (front ++ tag :: a :: b :: c :: d :: value) (← add front.length i)) =
        .ok (tag :: a :: b :: c :: d :: value)[i] := by
    intro i hi
    rw [add_of_lt (by rw [List.length_append] at hlength; omega), except_ok_bind, index_append hi]
  have hheader : ([1, 2, 3, 4].mapM fun i => do
      index (front ++ tag :: a :: b :: c :: d :: value) (← add front.length i)) =
        .ok [a, b, c, d] := by
    simp only [List.mapM_cons, List.mapM_nil]
    rw [hindex 1 (by simp), hindex 2 (by simp), hindex 3 (by simp), hindex 4 (by simp)]
    rfl
  have htag : index (front ++ tag :: a :: b :: c :: d :: value) front.length = .ok tag :=
    index_append (i := 0) (by simp)
  rw [tlvRound, htotal, sub_of_le (by omega), except_ok_bind, if_neg (by omega), htag,
    except_ok_bind, hheader, except_ok_bind, add_of_lt (by omega), except_ok_bind,
    sub_of_le (by omega), except_ok_bind, Nat.add_sub_cancel_left]

theorem tlvRound_invalid (hlength : (front ++ tag :: a :: b :: c :: d :: value).length < 2 ^ 64)
    (h : LittleEndian.decodeInt [a, b, c, d] < 0 ∨
      value.length < (LittleEndian.decodeInt [a, b, c, d]).toNat) :
    tlvRound (front ++ tag :: a :: b :: c :: d :: value) out front.length =
      .error (.rejected
        ⟨s!"invalid size {LittleEndian.decodeInt [a, b, c, d]} for TLV {tag}"⟩) := by
  rw [tlvRound_header out hlength]
  exact if_pos h

theorem tlvRound_value (hlength : (front ++ tag :: a :: b :: c :: d :: value).length < 2 ^ 64)
    (h : ¬(LittleEndian.decodeInt [a, b, c, d] < 0 ∨
      value.length < (LittleEndian.decodeInt [a, b, c, d]).toNat)) :
    tlvRound (front ++ tag :: a :: b :: c :: d :: value) out front.length =
      .ok (out ++ [(tag, value.take (LittleEndian.decodeInt [a, b, c, d]).toNat)],
        front.length + 5 + (LittleEndian.decodeInt [a, b, c, d]).toNat) := by
  rw [tlvRound_header out hlength]
  simp only [if_neg h]
  rw [not_or, Nat.not_lt] at h
  generalize (LittleEndian.decodeInt [a, b, c, d]).toNat = size at h ⊢
  have htotal : (front ++ tag :: a :: b :: c :: d :: value).length =
      front.length + 5 + value.length := by
    simp only [List.length_append, List.length_cons]
    omega
  have hslice : slice (front ++ tag :: a :: b :: c :: d :: value) (front.length + 5) size =
      value.take size := by
    rw [slice, ← List.drop_drop, List.drop_left]
    rfl
  rw [add_of_lt (by omega), except_ok_bind, range, if_pos ⟨Nat.le_add_right _ _, by omega⟩,
    Nat.add_sub_cancel_left, hslice]
  rfl

end Round

/-- The parser answers as the one over the bytes that remain, and panics nowhere. -/
theorem parseTlvs_eq {payload : Bytes} (hlength : payload.length < 2 ^ 64) :
    parseTlvs payload = Fault.ofResult (Native.parseTlvs payload) := by
  refine Loop.run_sim (tlvLoop payload) Native.tlvLoop (S := fun x y => x = Fault.ofResult y)
    (R := fun s t => s.1 = t.1 ∧ ∃ front, payload = front ++ t.2 ∧ s.2 = front.length) ?_
    ⟨rfl, [], rfl, rfl⟩
  rintro ⟨out, off⟩ ⟨_, bytes⟩ ⟨rfl, front, rfl, rfl⟩
  cases bytes with
  | nil =>
    refine .inl ⟨.ok out, .ok out, ?_, rfl, rfl⟩
    simp only [tlvLoop, List.append_nil, Nat.lt_irrefl, if_false]
  | cons tag rest =>
    have hmore : front.length < (front ++ tag :: rest).length := by
      rw [List.length_append, List.length_cons]
      omega
    by_cases hshort : rest.length < 4
    · refine .inl ⟨_, reject "truncated TLV header", ?_, ?_, rfl⟩
      · simp only [tlvLoop, if_pos hmore, tlvRound_short out hshort]
        rfl
      · simp only [Native.tlvLoop, if_pos hshort]
    · obtain ⟨a, b, c, d, value, rfl⟩ := exists_header (Nat.le_of_not_lt hshort)
      by_cases hsize : LittleEndian.decodeInt [a, b, c, d] < 0 ∨
          value.length < (LittleEndian.decodeInt [a, b, c, d]).toNat
      · refine .inl ⟨_, reject s!"invalid size {LittleEndian.decodeInt [a, b, c, d]} for TLV {tag}",
          ?_, ?_, rfl⟩
        · simp only [tlvLoop, if_pos hmore, tlvRound_invalid out hlength hsize]
          rfl
        · simp only [Native.tlvLoop, if_neg hshort]
          exact if_pos hsize
      · have hround := tlvRound_value out hlength hsize
        obtain ⟨size, hn⟩ : ∃ n, n = (LittleEndian.decodeInt [a, b, c, d]).toNat := ⟨_, rfl⟩
        rw [← hn] at hround
        refine .inr ⟨(out ++ [(tag, value.take size)], front.length + 5 + size),
          (out ++ [(tag, value.take size)], value.drop size), ?_, ?_, rfl,
          front ++ tag :: a :: b :: c :: d :: value.take size, ?_, ?_⟩
        · simp only [tlvLoop, if_pos hmore, hround]
        · rw [hn]
          simp only [Native.tlvLoop, if_neg hshort]
          exact if_neg hsize
        · simp only [List.append_assoc, List.cons_append, List.take_append_drop]
        · rw [not_or, Nat.not_lt, ← hn] at hsize
          simp only [List.length_append, List.length_cons, List.length_take,
            Nat.min_eq_left hsize.2]
          omega

end Tlv.Machine

/-! ## The format -/

theorem encodeTlvs_injective {items others : List (UInt8 × Bytes)} (hitems : TlvsFit items)
    (hothers : TlvsFit others) (h : encodeTlvs items = encodeTlvs others) : items = others := by
  have hback := parseTlvs_encodeTlvs hitems
  rw [h, parseTlvs_encodeTlvs hothers] at hback
  exact (Except.ok.inj hback).symm

/-- Lists whose values fit are read back with their order and their duplicates, and what is
accepted is the encoding of what it gives.  So the payloads that are accepted are the
encodings, each of one list, and every other payload is rejected without a panic. -/
theorem tlvs_round_trip :
    (∀ items, TlvsFit items → parseTlvs (encodeTlvs items) = .ok items) ∧
    (∀ bytes items, parseTlvs bytes = .ok items → encodeTlvs items = bytes) ∧
    (∀ bytes, (∃ items, parseTlvs bytes = .ok items) ↔
      ∃ items, TlvsFit items ∧ encodeTlvs items = bytes) ∧
    (∀ items others, TlvsFit items → TlvsFit others → encodeTlvs items = encodeTlvs others →
      items = others) ∧
    (∀ bytes, bytes.length < 2 ^ 64 →
      Tlv.Machine.parseTlvs bytes = Fault.ofResult (parseTlvs bytes) ∧
        Tlv.Machine.parseTlvs bytes ≠ .error .panicked) := by
  refine ⟨fun items h => parseTlvs_encodeTlvs h, fun bytes items h => (encodeTlvs_of_parse h).2,
    fun bytes => ⟨?_, ?_⟩, fun items others => encodeTlvs_injective, fun bytes hlength => ?_⟩
  · intro h
    obtain ⟨items, hitems⟩ := h
    exact ⟨items, encodeTlvs_of_parse hitems⟩
  · intro h
    obtain ⟨items, hitems, rfl⟩ := h
    exact ⟨items, parseTlvs_encodeTlvs hitems⟩
  · rw [Tlv.Machine.parseTlvs_eq hlength]
    exact ⟨rfl, Fault.ofResult_ne_panicked _⟩

/-- Two entries with one tag, and three payloads that are rejected. -/
example : Tlv.Machine.parseTlvs (encodeTlvs [(7, [97]), (7, [98])]) = .ok [(7, [97]), (7, [98])] ∧
    Tlv.Machine.parseTlvs [7] = .error (.rejected ⟨"truncated TLV header"⟩) ∧
    Tlv.Machine.parseTlvs [7, 255, 255, 255, 255] =
      .error (.rejected ⟨"invalid size -1 for TLV 7"⟩) ∧
    Tlv.Machine.parseTlvs [7, 2, 0, 0, 0, 97] =
      .error (.rejected ⟨"invalid size 2 for TLV 7"⟩) := by decide +kernel

end Mt5Open.Native

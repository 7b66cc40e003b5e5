import Mt5Open.Native.Requests

/-!
# Texts in fields of fixed size

A text field is UTF-16 with zeros behind it, and it is read up to its first zero.
`text_utf16Field` is the round trip, for texts that fit and have no NUL in them.
-/

namespace Mt5Open.Native

open Lib

/-- A character is no surrogate. -/
theorem char_range (c : Char) : c.toNat < 0xD800 ∨ 0xE000 ≤ c.toNat ∧ c.toNat < 0x110000 := by
  have hvalid := c.valid
  rcases hvalid with h | ⟨hlow, hhigh⟩
  · exact .inl h
  · exact .inr ⟨hlow, hhigh⟩

/-- The units of a character are decoded to it, whatever follows. -/
theorem fromUtf16Lossy_utf16Units (c : Char) (rest : List Nat) :
    fromUtf16Lossy (utf16Units c ++ rest) = c :: fromUtf16Lossy rest := by
  have hrange := char_range c
  unfold utf16Units
  by_cases hbmp : c.toNat < 0x10000
  · rw [if_pos hbmp]
    cases rest with
    | nil =>
      show fromUtf16Lossy [c.toNat] = [c]
      rw [fromUtf16Lossy, if_neg (by omega), Char.ofNat_toNat]
    | cons next rest =>
      rw [List.singleton_append, fromUtf16Lossy, if_neg (by omega), if_neg (by omega),
        Char.ofNat_toNat]
  · have hpair : 0x10000 + (0xD800 + (c.toNat - 0x10000) / 0x400 - 0xD800) * 0x400 +
        (0xDC00 + (c.toNat - 0x10000) % 0x400 - 0xDC00) = c.toNat := by
      omega
    rw [if_neg hbmp, List.cons_append, List.singleton_append, fromUtf16Lossy,
      if_pos (by omega), if_pos (by omega), hpair, Char.ofNat_toNat]

theorem fromUtf16Lossy_flatMap (cs : List Char) :
    fromUtf16Lossy (cs.flatMap utf16Units) = cs := by
  induction cs with
  | nil => rfl
  | cons c cs ih => rw [List.flatMap_cons, fromUtf16Lossy_utf16Units, ih]

/-- The units of a character other than NUL. -/
theorem mem_utf16Units {c : Char} (hc : c ≠ '\x00') {unit : Nat} (h : unit ∈ utf16Units c) :
    unit ≠ 0 ∧ unit < 0x10000 := by
  have hrange := char_range c
  unfold utf16Units at h
  split at h
  · rename_i hbmp
    obtain rfl := List.mem_singleton.mp h
    refine ⟨?_, hbmp⟩
    intro hzero
    apply hc
    rw [← Char.ofNat_toNat c, hzero]
  · simp only [List.mem_cons, List.not_mem_nil, or_false] at h
    omega

theorem mem_units {s : String} (hs : '\x00' ∉ s.toList) {unit : Nat}
    (h : unit ∈ s.toList.flatMap utf16Units) : unit ≠ 0 ∧ unit < 0x10000 := by
  obtain ⟨c, hc, hunit⟩ := List.mem_flatMap.mp h
  exact mem_utf16Units (fun h => hs (h ▸ hc)) hunit

/-- Units that are written are read. -/
theorem utf16Chunks_append {units : List Nat} (h : ∀ unit ∈ units, unit < 0x10000)
    (rest : Bytes) :
    utf16Chunks (units.flatMap (LittleEndian.encode 2) ++ rest) = units ++ utf16Chunks rest := by
  induction units with
  | nil => rfl
  | cons unit units ih =>
    have hunit := h unit (.head _)
    rw [List.flatMap_cons, List.append_assoc]
    show utf16Chunks (UInt8.ofNat unit :: UInt8.ofNat (unit / 256) ::
      (units.flatMap (LittleEndian.encode 2) ++ rest)) = _
    rw [utf16Chunks, ih fun unit hmem => h unit (.tail _ hmem), List.cons_append]
    congr 1
    exact LittleEndian.decode_encode_of_lt (n := 2) hunit

theorem utf16Chunks_replicate (n : Nat) :
    ∀ unit ∈ utf16Chunks (List.replicate n 0), unit = 0 := by
  induction n using Nat.strong_induction_on with
  | _ n ih =>
    intro unit h
    cases n with
    | zero => cases h
    | succ n =>
      cases n with
      | zero => cases h
      | succ n =>
        cases h with
        | head => rfl
        | tail _ h => exact ih n (by omega) unit h

/-- The units up to the first zero. -/
theorem takeWhile_units {units zeros : List Nat} (hunits : ∀ unit ∈ units, unit ≠ 0)
    (hzeros : ∀ unit ∈ zeros, unit = 0) : (units ++ zeros).takeWhile (· ≠ 0) = units := by
  rw [List.takeWhile_append_of_pos fun unit hmem => decide_eq_true (hunits unit hmem)]
  cases zeros with
  | nil => exact List.append_nil units
  | cons first zeros =>
    rw [List.takeWhile_cons_of_neg, List.append_nil]
    simp [hzeros first (.head _)]

/-- A text comes back from a field that it fits in. -/
theorem text_utf16Field {s : String} {size : Nat} (hs : '\x00' ∉ s.toList)
    (hfits : 2 * (s.toList.flatMap utf16Units).length ≤ size) {r : Record size}
    (hr : r.bytes = utf16Field s size) : r.text 0 size (by omega) = s := by
  have hlength : (utf16Bytes s).length = 2 * (s.toList.flatMap utf16Units).length := by
    rw [utf16Bytes, List.length_flatMap]
    simp [Nat.mul_comm]
  have hfield : r.field 0 size (by omega) =
      (s.toList.flatMap utf16Units).flatMap (LittleEndian.encode 2) ++
        List.replicate (size - (utf16Bytes s).length) 0 := by
    show (r.bytes.drop 0).take size = _
    rw [List.drop_zero, List.take_of_length_le (Nat.le_of_eq r.length_bytes), hr, utf16Field,
      List.take_of_length_le (by omega)]
    rfl
  rw [Record.text, hfield, utf16Chunks_append fun unit h => (mem_units hs h).2,
    takeWhile_units (fun unit h => (mem_units hs h).1) (utf16Chunks_replicate _),
    fromUtf16Lossy_flatMap, String.ofList_toList]

end Mt5Open.Native

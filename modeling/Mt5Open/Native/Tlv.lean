import Mt5Open.Lib.Loop
import Mt5Open.Native.Reader

/-!
# Tag/length/value lists

An entry is a tag, a signed 32-bit length and that many bytes.  `parseTlvs`
reads a whole payload as such a list, and `parseTlvs_encodeTlvs` is the round
trip for values whose length fits.  `encodeTlvs_of_parse` is the way back: a payload
that is accepted is the encoding of what it gives.
-/

namespace Mt5Open.Native

open Lib

/-- One entry of a list. -/
def encodeTlv (item : UInt8 × Bytes) : Bytes :=
  item.1 :: (LittleEndian.encode 4 item.2.length ++ item.2)

/-- `encode_tlvs`. -/
def encodeTlvs (items : List (UInt8 × Bytes)) : Bytes := items.flatMap encodeTlv

/-- The loop of `parse_tlvs`, over the entries so far and the bytes behind them. -/
def tlvLoop : Loop (List (UInt8 × Bytes) × Bytes) (Result (List (UInt8 × Bytes))) where
  body
    | (out, []) => .inr (.ok out)
    | (out, tag :: rest) =>
      if rest.length < 4 then .inr (reject "truncated TLV header")
      else
        let size := LittleEndian.decodeInt (rest.take 4)
        let value := rest.drop 4
        if size < 0 ∨ value.length < size.toNat then
          .inr (reject s!"invalid size {size} for TLV {tag}")
        else .inl (out ++ [(tag, value.take size.toNat)], value.drop size.toNat)
  measure s := s.2.length
  decreases := by
    rintro ⟨out, bytes⟩ t h
    cases bytes with
    | nil => cases h
    | cons tag rest =>
      simp only at h
      split at h
      · cases h
      · split at h
        · cases h
        · cases Sum.inl.inj h
          simp only [List.length_drop, List.length_cons]
          omega

/-- `parse_tlvs`. -/
def parseTlvs (payload : Bytes) : Result (List (UInt8 × Bytes)) := tlvLoop.run ([], payload)

theorem tlvLoop_encodeTlv {item : UInt8 × Bytes} (out : List (UInt8 × Bytes)) (rest : Bytes)
    (h : item.2.length < 2 ^ 31) :
    tlvLoop.body (out, encodeTlv item ++ rest) = .inl (out ++ [item], rest) := by
  have htake : (LittleEndian.encode 4 item.2.length ++ item.2 ++ rest).take 4 =
      LittleEndian.encode 4 item.2.length := by
    rw [List.append_assoc, List.take_left' (LittleEndian.length_encode 4 _)]
  have hdrop : (LittleEndian.encode 4 item.2.length ++ item.2 ++ rest).drop 4 = item.2 ++ rest := by
    rw [List.append_assoc, List.drop_left' (LittleEndian.length_encode 4 _)]
  have hsize : LittleEndian.decodeInt (LittleEndian.encode 4 item.2.length) = item.2.length :=
    LittleEndian.decodeInt_encode_of_lt (by omega)
  simp only [tlvLoop, encodeTlv, List.cons_append, htake, hdrop, hsize, Int.toNat_natCast]
  rw [if_neg (by simp), if_neg (by simp), List.take_left, List.drop_left]

theorem tlvLoop_encodeTlvs {items : List (UInt8 × Bytes)} (out : List (UInt8 × Bytes))
    (h : ∀ item ∈ items, item.2.length < 2 ^ 31) :
    tlvLoop.run (out, encodeTlvs items) = .ok (out ++ items) := by
  induction items generalizing out with
  | nil =>
    rw [List.append_nil]
    exact Loop.run_of_stop _ rfl
  | cons item items ih =>
    have hround := tlvLoop_encodeTlv out (encodeTlvs items) (h item List.mem_cons_self)
    rw [encodeTlvs, List.flatMap_cons, ← encodeTlvs, Loop.run_of_next _ hround,
      ih _ fun other hother => h other (List.mem_cons_of_mem _ hother), List.append_assoc]
    rfl

/-- A list whose values fit their length field is read back. -/
theorem parseTlvs_encodeTlvs {items : List (UInt8 × Bytes)}
    (h : ∀ item ∈ items, item.2.length < 2 ^ 31) : parseTlvs (encodeTlvs items) = .ok items :=
  tlvLoop_encodeTlvs [] h

/-! ## What is accepted -/

/-- The values of a list fit their length field. -/
def TlvsFit (items : List (UInt8 × Bytes)) : Prop := ∀ item ∈ items, item.2.length < 2 ^ 31

/-- A round that goes on has read the encoding of one entry. -/
theorem tlvLoop_next {out out' : List (UInt8 × Bytes)} {bytes rest : Bytes}
    (h : tlvLoop.body (out, bytes) = .inl (out', rest)) :
    ∃ item : UInt8 × Bytes, item.2.length < 2 ^ 31 ∧ out' = out ++ [item] ∧
      bytes = encodeTlv item ++ rest := by
  cases bytes with
  | nil => cases h
  | cons tag bytes =>
    simp only [tlvLoop] at h
    split at h
    · cases h
    · rename_i hheader
      split at h
      · cases h
      · rename_i hsize
        cases Sum.inl.inj h
        rw [not_or, Int.not_lt, Nat.not_lt] at hsize
        obtain ⟨hnonneg, hlong⟩ := hsize
        have hfour : (bytes.take 4).length = 4 := by
          rw [List.length_take]
          omega
        obtain ⟨size, hsize⟩ := Int.eq_ofNat_of_zero_le hnonneg
        have hhigh := LittleEndian.decodeInt_lt (bytes.take 4)
        have hdecode := LittleEndian.decode_of_decodeInt hsize
        have hencode := LittleEndian.encode_decode (bytes.take 4)
        rw [hfour] at hhigh hencode
        rw [hsize, Int.toNat_natCast] at hlong ⊢
        have hvalue : ((bytes.drop 4).take size).length = size := by
          rw [List.length_take]
          omega
        refine ⟨(tag, (bytes.drop 4).take size), ?_, rfl, ?_⟩
        · rw [hvalue]
          omega
        · show tag :: bytes = tag :: (LittleEndian.encode 4 _ ++ _) ++ _
          rw [hvalue, ← hdecode, hencode, List.cons_append, List.append_assoc,
            List.take_append_drop, List.take_append_drop]

theorem tlvLoop_eq_ok (out : List (UInt8 × Bytes)) (bytes : Bytes) (all : List (UInt8 × Bytes)) :
    tlvLoop.run (out, bytes) = .ok all →
      ∃ items, all = out ++ items ∧ TlvsFit items ∧ encodeTlvs items = bytes := by
  refine Loop.run_rule tlvLoop (P := fun s result => result = .ok all →
    ∃ items, all = s.1 ++ items ∧ TlvsFit items ∧ encodeTlvs items = s.2) ?_ ?_ (out, bytes)
  · rintro ⟨out, bytes⟩ result hstop rfl
    cases bytes with
    | nil =>
      cases hstop
      exact ⟨[], (List.append_nil _).symm, fun item hitem => (List.not_mem_nil hitem).elim, rfl⟩
    | cons tag bytes =>
      simp only [tlvLoop] at hstop
      split at hstop
      · cases hstop
      · split at hstop
        · cases hstop
        · cases hstop
  · rintro ⟨out, bytes⟩ ⟨out', rest⟩ result hnext hrest hresult
    obtain ⟨item, hitem, rfl, rfl⟩ := tlvLoop_next hnext
    obtain ⟨items, rfl, hitems, rfl⟩ := hrest hresult
    refine ⟨item :: items, ?_, ?_, ?_⟩
    · rw [List.append_assoc]
      rfl
    · intro other hother
      rcases List.mem_cons.mp hother with rfl | hother
      · exact hitem
      · exact hitems other hother
    · rfl

/-- A payload that is accepted is the encoding of what it gives. -/
theorem encodeTlvs_of_parse {bytes : Bytes} {items : List (UInt8 × Bytes)}
    (h : parseTlvs bytes = .ok items) : TlvsFit items ∧ encodeTlvs items = bytes := by
  obtain ⟨others, rfl, hitems⟩ := tlvLoop_eq_ok [] bytes items h
  exact hitems

end Mt5Open.Native

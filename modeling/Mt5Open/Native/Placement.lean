import Mt5Open.Native.History

/-!
# Reading from other bytes

A reader looks only at the bytes that it takes.  What it reads from a string it also reads
where something else stands behind the bytes that it takes, and a reader that keeps its
position also where the string stands between other bytes, as long as a position in all of
them fits 64 bits.
-/

namespace Mt5Open.Native

open Lib

/-- A slice of a string that stands behind another one. -/
theorem slice_front (front bytes : Bytes) (start size : Nat) :
    slice (front ++ bytes) (front.length + start) size = slice bytes start size := by
  rw [slice, List.drop_length_add_append, slice]

/-- Bytes that begin alike, with something else behind. -/
def Reader.Shares (back back' : Bytes) (bytes bytes' : Bytes) : Prop :=
  ∃ shared, bytes = shared ++ back ∧ bytes' = shared ++ back'

/-- What leaves the bytes behind does not depend on them. -/
theorem Reader.Shares.carries_take {back back' : Bytes} (size : Nat) :
    Decoder.Carries (fun bytes => back.length ≤ bytes.length) (Shares back back')
      (Reader.take size) := by
  intro bytes a rest h hback
  obtain ⟨rfl, hsize⟩ := take_eq_ok.mp h
  refine ⟨Nat.le_trans hback (by rw [List.length_append]; exact Nat.le_add_left _ _), ?_⟩
  rintro bytes' ⟨shared, hshared, rfl⟩
  obtain ⟨left, rfl⟩ : back <:+ rest :=
    List.suffix_of_suffix_length_le ⟨shared, hshared.symm⟩ (List.suffix_append _ _) hback
  rw [← List.append_assoc] at hshared
  rw [← List.append_cancel_right hshared, List.append_assoc]
  exact ⟨left ++ back', take_append hsize, left, rfl, rfl⟩

namespace History

open Decoder ByteReader

section Groups

variable {P : ByteReader → Prop} {R : ByteReader → ByteReader → Prop}

theorem carries_readBlocks (htake : ∀ size, Carries P R (take size)) (flate2 : Flate2)
    (limit maxBytes compressed inflated : Nat) (ds : List Descriptor) :
    Carries P R (readBlocks flate2 limit maxBytes compressed inflated ds) := by
  induction ds generalizing compressed inflated with
  | nil => exact Carries.pure _
  | cons d ds ih =>
    rw [readBlocks]
    refine Carries.ite (Carries.raise _) ((htake _).bind fun block => Carries.ite ?_ ?_)
    · exact (ih _ _).bind fun p => Carries.pure _
    · exact (Carries.ofResult _).bind fun p => (ih _ _).bind fun q => Carries.pure _

/-- A group is read from the bytes that it takes. -/
theorem carries_readColumnGroupLimited (htake : ∀ size, Carries P R (take size))
    (flate2 : Flate2) (maxTicks maxBytes : Nat) :
    Carries P R (readColumnGroupLimited flate2 maxTicks maxBytes) := by
  refine (htake 52).bind fun rawHeader => Carries.ite (Carries.raise _) ?_
  have hdescriptor : Carries P R (do return descriptor (← take 36)) :=
    (htake 36).bind fun _ => Carries.pure _
  refine (hdescriptor.times _).bind fun ds =>
    (carries_readBlocks htake _ _ _ _ _ _).bind fun p => ?_
  exact (Carries.ofResult _).bind fun q => Carries.pure _

end Groups

/-- The second reader stands in the bytes of the first one, between `front` and `back`. -/
structure ByteReader.Placed (front back : Bytes) (r r' : ByteReader) : Prop where
  data_eq : r'.data = front ++ r.data ++ back
  position_eq : r'.position = front.length + r.position
  length_lt : r'.data.length < 2 ^ 64

theorem ByteReader.Placed.carries_take {front back : Bytes} (size : Nat) :
    Carries (fun _ => True) (Placed front back) (take size) := by
  intro r a t h _
  refine ⟨trivial, fun r' hplaced => ?_⟩
  obtain ⟨hdata, hposition, hlength⟩ := hplaced
  obtain ⟨hbytes, rfl, hend⟩ := (take_yields size r).ok h
  rw [hdata, List.length_append, List.length_append] at hlength
  have hend' : r'.position + size ≤ r'.data.length := by
    rw [hdata, hposition, List.length_append, List.length_append]
    omega
  have hlt : ¬2 ^ 64 ≤ r'.position + size := by
    rw [hposition]
    omega
  refine ⟨{ r' with position := r'.position + size }, ?_, hdata, ?_, ?_⟩
  · rw [take, if_neg hlt, dif_pos hend']
    have hsame : slice r'.data r'.position size = a.bytes := by
      rw [hbytes, hdata, hposition, List.append_assoc, slice_front]
      exact slice_append back hend
    obtain ⟨bytes, hbytes⟩ := a
    cases hsame
    rfl
  · rw [hposition]
    exact Nat.add_assoc _ _ _
  · rw [hdata, List.length_append, List.length_append]
    exact hlength

/-- The readers stand at one place in strings that begin with `shared`. -/
structure ByteReader.Shares (shared back back' : Bytes) (r r' : ByteReader) : Prop where
  data_eq : r.data = shared ++ back
  data_eq' : r'.data = shared ++ back'
  position_eq : r'.position = r.position

/-- What ends in the shared bytes does not depend on those behind them. -/
theorem ByteReader.Shares.carries_take {shared back back' : Bytes} (size : Nat) :
    Carries (fun r => r.position ≤ shared.length) (Shares shared back back') (take size) := by
  intro r a t h hwithin
  have hlt : ¬2 ^ 64 ≤ r.position + size := fun hover => by
    rw [take, if_pos hover] at h
    cases h
  obtain ⟨hbytes, rfl, -⟩ := (take_yields size r).ok h
  have hend : r.position + size ≤ shared.length := hwithin
  refine ⟨Nat.le_trans (Nat.le_add_right _ _) hend, fun r' hshares => ?_⟩
  obtain ⟨hdata, hdata', hposition⟩ := hshares
  have hend' : r'.position + size ≤ r'.data.length := by
    rw [hdata', hposition, List.length_append]
    exact Nat.le_add_right_of_le hend
  refine ⟨{ r' with position := r'.position + size }, ?_, hdata, hdata', ?_⟩
  · rw [take, if_neg (hposition ▸ hlt), dif_pos hend']
    have hsame : slice r'.data r'.position size = a.bytes := by
      rw [hbytes, hdata, hdata', hposition, slice_append back' hend, slice_append back hend]
    obtain ⟨bytes, hbytes⟩ := a
    cases hsame
    rfl
  · exact congrArg (· + size) hposition

end History

end Mt5Open.Native

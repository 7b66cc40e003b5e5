import Mt5Open.Native.SyncGrammar

/-!
# The formats of the byte reader

Each reader of `Reader` reads a format.  A count is checked against the bytes
that are left before its records are read; that check rejects nothing when every
record is as long as the stride of the count.
-/

namespace Mt5Open.Native

open Lib SyncGrammar

/-- Eight bytes as one unsigned number. -/
def longWord : Format Nat := fun bytes n => bytes.length = 8 ∧ n = LittleEndian.decode bytes

/-- Records in a row behind their count. -/
def counted {α : Type} (g : Format α) : Format (List α) := do
  let n ← countWord
  Grammar.items g n

/-- A record of this size, with what is made of it. -/
def parsed {α : Type} (size : Nat) (parse : Bytes → Result α) : Format α := do
  let bytes ← Grammar.block size
  Grammar.accepted (parse bytes)

theorem atLeast_parsed {α : Type} (size : Nat) (parse : Bytes → Result α) :
    (parsed size parse).AtLeast size := (Grammar.AtLeast.block size).bind_left

namespace Reader

open Decoder Grammar

variable {α β : Type}

/-- The end of a decoder that accepts no bytes behind what it has read. -/
def ended (message : String) (a : α) : Reader α := fun remaining =>
  if remaining = [] then .ok (a, []) else reject message

theorem parses_take (size : Nat) : Parses (take size) (block size) := by
  intro input bytes rest
  rw [take_eq_ok]
  constructor
  · rintro ⟨rfl, hlength⟩
    exact ⟨bytes, rfl, hlength, rfl⟩
  · rintro ⟨word, rfl, hlength, rfl⟩
    exact ⟨rfl, hlength⟩

/-- A value that is computed from a block of bytes. -/
theorem parses_block_pure (size : Nat) (f : Bytes → α) :
    Parses (take size >>= fun bytes => pure (f bytes))
      (fun bytes a => bytes.length = size ∧ a = f bytes) := by
  refine ((parses_take size).bind fun bytes => .pure (f bytes)).congr fun word a => ?_
  constructor
  · rintro ⟨first, second, bytes, rfl, ⟨hlength, rfl⟩, rfl, rfl⟩
    rw [List.append_nil]
    exact ⟨hlength, rfl⟩
  · rintro ⟨hlength, rfl⟩
    exact ⟨word, [], word, (List.append_nil word).symm, ⟨hlength, rfl⟩, rfl, rfl⟩

theorem parses_i32 : Parses i32 word := parses_block_pure 4 LittleEndian.decodeInt

theorem parses_u64 : Parses u64 longWord := parses_block_pure 8 LittleEndian.decode

theorem parses_parsed (size : Nat) (parse : Bytes → Result α) :
    Parses (take size >>= fun bytes => ofResult (parse bytes)) (parsed size parse) :=
  (parses_take size).bind fun bytes => .ofResult (parse bytes)

/-- A count and what follows it, which has so many times the bytes of the stride. -/
theorem parses_count_bind {stride : Nat} {f : Nat → Reader α} {h : Nat → Format α}
    (hf : ∀ n, Parses (f n) (h n)) (hlength : ∀ n, AtLeast (h n) (n * stride))
    (hpos : 1 ≤ stride) : Parses (count stride >>= f) (countWord >>= h) := by
  have hmax : max stride 1 = stride := Nat.max_eq_left hpos
  intro input a rest
  rw [bind_eq_ok]
  constructor
  · rintro ⟨n, middle, hcount, hrest⟩
    unfold count at hcount
    split at hcount
    · cases hcount
    · rename_i v tail hword
      split at hcount
      · cases hcount
      · rename_i hcheck
        cases hcount
        obtain ⟨first, rfl, hfirst⟩ := (parses_i32 _ _ _).mp hword
        have hn : countWord first v.toNat := by
          refine ⟨hfirst.1, ?_⟩
          rw [← hfirst.2]
          omega
        obtain ⟨second, rfl, hsecond⟩ := (hf _ _ _ _).mp hrest
        exact ⟨first ++ second, (List.append_assoc _ _ _).symm, first, second, _, rfl, hn, hsecond⟩
  · rintro ⟨bytes, rfl, first, second, n, rfl, hn, hsecond⟩
    have hlong := hlength n second a hsecond
    have hword : i32 (first ++ (second ++ rest)) = .ok ((n : Int), second ++ rest) :=
      (parses_i32 _ _ _).mpr ⟨first, rfl, hn⟩
    have hfits : n ≤ (second ++ rest).length / stride := by
      rw [Nat.le_div_iff_mul_le hpos, List.length_append]
      omega
    refine ⟨n, second ++ rest, ?_, (hf n _ _ _).mpr ⟨second, rfl, hsecond⟩⟩
    unfold count
    rw [List.append_assoc, hword]
    simp only [Int.toNat_natCast, hmax]
    rw [if_neg (by omega)]

/-- Counted rounds of what reads the records. -/
theorem parses_counted {stride : Nat} {x : Reader α} {g : Format α} (hx : Parses x g)
    (hg : AtLeast g stride) (hpos : 1 ≤ stride) :
    Parses (count stride >>= fun n => times x n) (counted g) :=
  parses_count_bind (fun n => hx.times n) (fun n => hg.items n) hpos

/-- Counted rounds that fold the records into a value. -/
theorem parses_counted_iterate {stride : Nat} {g : Format α} {step : β → α → β}
    {f : β → Reader β} (hf : ∀ b, Parses (f b) (g >>= fun a => pure (step b a)))
    (hg : AtLeast g stride) (hpos : 1 ≤ stride) (b : β) :
    Parses (count stride >>= fun n => iterate f n b)
      (counted g >>= fun as => pure (as.foldl step b)) := by
  rw [counted, Grammar.bind_assoc]
  exact parses_count_bind (fun n => Parses.iterate hf n b) (fun n => (hg.items n).bind_left) hpos

/-- What reads a format and accepts no bytes behind it. -/
theorem run_ended {x : Reader α} {g : Format α} (hx : Parses x g) (message : String) (f : α → β)
    {input : Bytes} {b : β} :
    (x >>= fun a => ended message (f a)).run' input = .ok b ↔ ∃ a, g input a ∧ b = f a := by
  have hrun : (x >>= fun a => ended message (f a)).run' input = .ok b ↔
      ∃ rest, (x >>= fun a => ended message (f a)) input = .ok (b, rest) := by
    rw [StateT.run']
    cases (x >>= fun a => ended message (f a)) input with
    | error e => exact ⟨nofun, nofun⟩
    | ok p =>
      obtain ⟨c, rest⟩ := p
      constructor
      · intro h
        cases h
        exact ⟨rest, rfl⟩
      · rintro ⟨_, h⟩
        cases h
        rfl
  rw [hrun]
  constructor
  · rintro ⟨rest, h⟩
    obtain ⟨a, remaining, hread, hend⟩ := bind_eq_ok.mp h
    unfold ended at hend
    split at hend
    · rename_i hnil
      cases hend
      subst hnil
      exact ⟨a, hx.all.mp hread, rfl⟩
    · cases hend
  · rintro ⟨a, hword, rfl⟩
    exact ⟨[], bind_eq_ok.mpr ⟨a, [], hx.all.mpr hword, rfl⟩⟩

end Reader

end Mt5Open.Native

import Mt5Open.Lib.Loop
import Mt5Open.Native.Reader

/-!
# Inflation

Compressed columns go through a library.  `Flate2` stands for it: a
decompressor is a state, and one call takes an input and a capacity, consumes a
part of the input and writes some bytes.

`tryInflate` calls it until the stream ends, and `inflateInner` tries both
framings.  The loop ends because a call without progress is an error and the
output is bounded.  A slice out of range would be a panic, and there is none
when a call writes at most the buffer that it is given.
-/

namespace Mt5Open.Native

open Lib

/-- How a decoder stops: it rejects its input, or the program panics (a slice out
of range, a subtraction below zero). -/
inductive Fault where
  | rejected (e : ProtocolError)
  | panicked
  deriving DecidableEq, Repr

/-- An error that is not a panic. -/
def Fault.Orderly (fault : Fault) : Prop := fault ≠ .panicked

/-- The error of a result is a rejection. -/
def Fault.ofResult {α : Type} (x : Result α) : Except Fault α := x.mapError .rejected

theorem Fault.ofResult_eq_ok {α : Type} {x : Result α} {a : α} :
    ofResult x = .ok a ↔ x = .ok a := by
  cases x with
  | error e => exact ⟨nofun, nofun⟩
  | ok b => exact ⟨fun h => congrArg _ (Except.ok.inj h), fun h => congrArg _ (Except.ok.inj h)⟩

theorem Fault.ofResult_ne_panicked {α : Type} (x : Result α) : ofResult x ≠ .error .panicked := by
  cases x <;> exact nofun

/-- `Err(ProtocolError::new(message))`, where a panic is possible as well. -/
def refuse {α : Type} (message : String) : Except Fault α := .error (.rejected ⟨message⟩)

/-- The computation does not panic, and what it gives has `Q`. -/
def Sound {α : Type} (x : Except Fault α) (Q : α → Prop) : Prop :=
  match x with
  | .ok a => Q a
  | .error fault => fault.Orderly

namespace Sound

variable {α β : Type} {x : Except Fault α} {f : α → Except Fault β} {Q : α → Prop} {R : β → Prop}

theorem ok {a : α} (h : Q a) : Sound (.ok a) Q := h

theorem refuse (message : String) : Sound (refuse message : Except Fault α) Q := nofun

theorem ofResult {r : Result α} (h : ∀ a, r = .ok a → Q a) : Sound (Fault.ofResult r) Q := by
  cases r with
  | ok a => exact h a rfl
  | error e => exact refuse e.message

theorem bind (hx : Sound x Q) (hf : ∀ a, Q a → Sound (f a) R) : Sound (x >>= f) R := by
  cases x with
  | ok a => exact hf a hx
  | error fault => exact hx

theorem of_ok (hx : Sound x Q) {a : α} (h : x = .ok a) : Q a := by
  rw [h] at hx
  exact hx

theorem of_error (hx : Sound x Q) {fault : Fault} (h : x = .error fault) : fault.Orderly := by
  rw [h] at hx
  exact hx

end Sound

/-- What one call of the decompressor did with its input. -/
structure Decompressed (input : Bytes) where
  consumed : Nat
  written : Bytes
  streamEnd : Bool
  consumed_le : consumed ≤ input.length

/-- The decompressor of the compression library. -/
structure Flate2 where
  Decompress : Type
  /-- A new decompressor, with a zlib header or without one. -/
  new : Bool → Decompress
  decompress : Decompress → (input : Bytes) → (capacity : Nat) →
    Except String (Decompress × Decompressed input)

/-- A call writes at most the buffer that it is given. -/
def Flate2.WritesWithin (flate2 : Flate2) : Prop :=
  ∀ decoder input capacity next step,
    flate2.decompress decoder input capacity = .ok (next, step) → step.written.length ≤ capacity

/-- The variables of the loop in `try_inflate`. -/
structure Inflating (flate2 : Flate2) where
  decoder : flate2.Decompress
  totalIn : Nat
  out : Bytes

/-- The length of the buffer. -/
def INFLATE_BUFFER : Nat := 8192

/-- The loop of `try_inflate`. -/
def inflateLoop (flate2 : Flate2) (data : Bytes) (limit : Nat) :
    Loop (Inflating flate2) (Except Fault Bytes) where
  body s :=
    if data.length < s.totalIn then .inr (.error .panicked)
    else
      let capacity := min INFLATE_BUFFER (limit - s.out.length + 1)
      match flate2.decompress s.decoder (data.drop s.totalIn) capacity with
      | .error e => .inr (refuse e)
      | .ok (decoder, step) =>
        let totalIn := s.totalIn + step.consumed
        let out := s.out ++ step.written
        if INFLATE_BUFFER < step.written.length then .inr (.error .panicked)
        else if limit < out.length then .inr (refuse "inflation budget exceeded")
        else if step.streamEnd then
          if totalIn = data.length then .inr (.ok out)
          else .inr (refuse "trailing compressed bytes")
        else if step.consumed = 0 ∧ step.written.length = 0 then
          .inr (refuse "incomplete compressed stream")
        else .inl { decoder, totalIn, out }
  measure s := (data.length - s.totalIn) + (limit + 1 - s.out.length)
  decreases := by
    intro s t h
    simp only at h
    split at h
    · cases h
    · split at h
      · cases h
      · rename_i decoder step _
        have hconsumed := step.consumed_le
        rw [List.length_drop] at hconsumed
        rw [List.length_append] at h
        split at h
        · cases h
        · split at h
          · cases h
          · split at h
            · split at h <;> cases h
            · split at h
              · cases h
              · cases h
                simp only [List.length_append]
                omega

/-- `try_inflate`. -/
def tryInflate (flate2 : Flate2) (data : Bytes) (limit : Nat) (header : Bool) :
    Except Fault Bytes :=
  (inflateLoop flate2 data limit).run { decoder := flate2.new header, totalIn := 0, out := [] }

/-- `inflate_inner`. -/
def inflateInner (flate2 : Flate2) (data : Bytes) (limit : Nat) :
    Except Fault (Bytes × String) :=
  match tryInflate flate2 data limit true with
  | .ok out => .ok (out, "zlib")
  | .error .panicked => .error .panicked
  | .error (.rejected zlib) =>
    match tryInflate flate2 data limit false with
    | .ok out => .ok (out, "raw_deflate")
    | .error .panicked => .error .panicked
    | .error (.rejected raw) =>
      refuse ("invalid zlib and raw-DEFLATE stream: " ++ zlib.message ++ "; " ++ raw.message)

section Limits

variable {flate2 : Flate2} {data : Bytes} {limit : Nat}

/-- The output stays in its limit, and the slices stay in range. -/
theorem inflateLoop_run (hwrites : flate2.WritesWithin) (s : Inflating flate2)
    (hposition : s.totalIn ≤ data.length) :
    Sound ((inflateLoop flate2 data limit).run s) fun out => out.length ≤ limit := by
  revert hposition
  refine (inflateLoop flate2 data limit).run_rule (P := fun s result =>
    s.totalIn ≤ data.length → Sound result fun out => out.length ≤ limit) ?_ ?_ s
  · intro s result hstop hposition
    simp only [inflateLoop] at hstop
    rw [if_neg (by omega)] at hstop
    split at hstop
    · cases hstop
      exact .refuse _
    · rename_i decoder step hcall
      have hwritten := hwrites _ _ _ _ _ hcall
      rw [if_neg (by omega)] at hstop
      split at hstop
      · cases hstop
        exact .refuse _
      · rename_i hlimit
        split at hstop
        · split at hstop
          · cases hstop
            exact .ok (Nat.le_of_not_lt hlimit)
          · cases hstop
            exact .refuse _
        · split at hstop
          · cases hstop
            exact .refuse _
          · cases hstop
  · intro s t result hnext ih hposition
    simp only [inflateLoop] at hnext
    rw [if_neg (by omega)] at hnext
    split at hnext
    · cases hnext
    · rename_i decoder step hcall
      have hwritten := hwrites _ _ _ _ _ hcall
      have hconsumed := step.consumed_le
      rw [List.length_drop] at hconsumed
      rw [if_neg (by omega)] at hnext
      split at hnext
      · cases hnext
      · split at hnext
        · split at hnext <;> cases hnext
        · split at hnext
          · cases hnext
          · cases hnext
            exact ih (by simp only; omega)

theorem tryInflate_within (hwrites : flate2.WritesWithin) (data : Bytes) (limit : Nat)
    (header : Bool) :
    Sound (tryInflate flate2 data limit header) fun out => out.length ≤ limit :=
  inflateLoop_run hwrites _ (Nat.zero_le _)

theorem inflateInner_within (hwrites : flate2.WritesWithin) (data : Bytes) (limit : Nat) :
    Sound (inflateInner flate2 data limit) fun p => p.1.length ≤ limit := by
  have hzlib := tryInflate_within hwrites data limit true
  have hraw := tryInflate_within hwrites data limit false
  unfold inflateInner
  cases hfirst : tryInflate flate2 data limit true with
  | ok out => exact hzlib.of_ok hfirst
  | error fault =>
    cases fault with
    | panicked => exact absurd rfl (hzlib.of_error hfirst)
    | rejected zlib =>
      cases hsecond : tryInflate flate2 data limit false with
      | ok out => exact hraw.of_ok hsecond
      | error fault =>
        cases fault with
        | panicked => exact absurd rfl (hraw.of_error hsecond)
        | rejected raw => exact .refuse _

end Limits

end Mt5Open.Native

import Mathlib.Data.List.GetD
import Mt5Open.Lib.Act
import Mt5Open.Lib.Mealy
import Mt5Open.Native.Sync

/-!
# Reading across fragments

`SegmentedReader` reads a stream that comes in fragments.  Its cursor has two levels, a
fragment and an offset in it, and it leaves a fragment that is read to its end only when
the next byte is asked for.

`Contiguous` is the reader of one piece.  Each call of the cursor answers as it does from
the bytes that remain, so the cuts between fragments do not matter.
-/

namespace Mt5Open.Native

open Lib

/-! ## The cursor -/

structure SegmentedReader where
  chunks : List Bytes
  chunkIndex : Nat
  offset : Nat
  consumed : Nat
  offset_le : offset ≤ (chunks.getD chunkIndex []).length

namespace SegmentedReader

/-- `SegmentedReader::new`. -/
def new (chunks : List Bytes) : SegmentedReader := ⟨chunks, 0, 0, 0, Nat.zero_le _⟩

/-- The fragment that the cursor is in, which is empty behind the last one. -/
def current (r : SegmentedReader) : Bytes := r.chunks.getD r.chunkIndex []

/-- The bytes that have not been read. -/
def remaining (r : SegmentedReader) : Bytes :=
  r.current.drop r.offset ++ (r.chunks.drop (r.chunkIndex + 1)).flatten

def nextChunk (r : SegmentedReader) : SegmentedReader :=
  { r with chunkIndex := r.chunkIndex + 1, offset := 0, offset_le := Nat.zero_le _ }

def advance (r : SegmentedReader) (h : r.offset < r.current.length) : SegmentedReader :=
  { r with offset := r.offset + 1, consumed := r.consumed + 1, offset_le := h }

/-- The loop of `byte` over the fragments that are read to their ends. -/
def exhausted : Loop SegmentedReader SegmentedReader where
  body r :=
    if r.chunkIndex < r.chunks.length ∧ r.offset = r.current.length then .inl r.nextChunk
    else .inr r
  measure r := r.chunks.length - r.chunkIndex
  decreases := by
    intro r s h
    split at h
    · rename_i hend
      cases Sum.inl.inj h
      have := hend.1
      show r.chunks.length - (r.chunkIndex + 1) < r.chunks.length - r.chunkIndex
      omega
    · cases h

/-- The loop stops behind the last fragment or before a byte. -/
theorem offset_lt {s : SegmentedReader}
    (h : ¬(exhausted.run s).chunks.length ≤ (exhausted.run s).chunkIndex) :
    (exhausted.run s).offset < (exhausted.run s).current.length := by
  revert h
  apply exhausted.run_rule (P := fun _ r => ¬r.chunks.length ≤ r.chunkIndex →
    r.offset < r.current.length)
  · intro s r hstop hindex
    simp only [exhausted] at hstop
    split at hstop
    · cases hstop
    · rename_i hend
      cases Sum.inr.inj hstop
      have hle : s.offset ≤ s.current.length := s.offset_le
      omega
  · intro s t r _ hr
    exact hr

/-- `SegmentedReader::byte`. -/
def byte : Act ProtocolError SegmentedReader UInt8 := fun s =>
  let r := exhausted.run s
  if h : r.chunks.length ≤ r.chunkIndex then (reject "truncated segmented read", r)
  else (.ok (r.current.get ⟨r.offset, offset_lt h⟩), r.advance (offset_lt h))

/-- `SegmentedReader::take`. -/
def take : Nat → Act ProtocolError SegmentedReader Bytes
  | 0 => pure []
  | size + 1 => do
    let first ← byte
    let rest ← take size
    return first :: rest

end SegmentedReader

/-! ## The reader of one piece -/

/-- Bytes to be read, and how many have been read. -/
structure Contiguous where
  remaining : Bytes
  consumed : Nat
  deriving DecidableEq, Repr

namespace Contiguous

def byte : Act ProtocolError Contiguous UInt8 := fun s =>
  match s.remaining with
  | [] => (reject "truncated segmented read", s)
  | first :: rest => (.ok first, ⟨rest, s.consumed + 1⟩)

def take (size : Nat) : Act ProtocolError Contiguous Bytes := fun s =>
  if s.remaining.length < size then
    (reject "truncated segmented read", ⟨[], s.consumed + s.remaining.length⟩)
  else (.ok (s.remaining.take size), ⟨s.remaining.drop size, s.consumed + size⟩)

/-- The sentinel, behind the bytes that were skipped and the gap before it. -/
def sentinel (skipped : Bytes) : Act ProtocolError Contiguous (UInt8 × Bytes) := fun s =>
  match s.remaining.dropWhile (· ≠ 23) with
  | [] => (reject "truncated segmented read", ⟨[], s.consumed + s.remaining.length⟩)
  | tag :: rest =>
    (.ok (tag, skipped ++ s.remaining.takeWhile (· ≠ 23)),
      ⟨rest, s.consumed + (s.remaining.takeWhile (· ≠ 23)).length + 1⟩)

def syncTag : Act ProtocolError Contiguous (UInt8 × Bytes) := do
  let tag ← byte
  if tag = 0 then sentinel [] else return (tag, [])

section

variable {rest skipped : Bytes} {consumed size : Nat} {first : UInt8}

theorem byte_eq_ok {s t : Contiguous} (h : byte s = (.ok first, t)) :
    s.remaining = first :: t.remaining ∧ t.consumed = s.consumed + 1 := by
  obtain ⟨remaining, consumed⟩ := s
  cases remaining with
  | nil => cases h
  | cons head tail =>
    cases h
    exact ⟨rfl, rfl⟩

theorem byte_eq_error {s t : Contiguous} {e : ProtocolError} (h : byte s = (.error e, t)) :
    s.remaining = [] ∧ t = s ∧ e = ⟨"truncated segmented read"⟩ := by
  obtain ⟨remaining, consumed⟩ := s
  cases remaining with
  | nil =>
    cases h
    exact ⟨rfl, rfl, rfl⟩
  | cons head tail => cases h

theorem take_of_lt (h : rest.length < size) :
    take size ⟨rest, consumed⟩ =
      (reject "truncated segmented read", ⟨[], consumed + rest.length⟩) := if_pos h

theorem take_of_le (h : size ≤ rest.length) :
    take size ⟨rest, consumed⟩ = (.ok (rest.take size), ⟨rest.drop size, consumed + size⟩) :=
  if_neg (Nat.not_lt.mpr h)

/-- A piece is its first byte and a piece behind it. -/
theorem take_succ (size : Nat) :
    take (size + 1) = (do
      let first ← byte
      let rest ← take size
      return first :: rest) := by
  funext s
  obtain ⟨remaining, consumed⟩ := s
  cases remaining with
  | nil => rfl
  | cons first rest =>
    have hbyte : byte ⟨first :: rest, consumed⟩ = (.ok first, ⟨rest, consumed + 1⟩) := rfl
    rw [Act.bind_of_ok hbyte]
    by_cases h : rest.length < size
    · rw [take_of_lt (by rw [List.length_cons]; omega), Act.bind_of_error (take_of_lt h),
        List.length_cons, Nat.add_assoc, Nat.add_comm rest.length]
      rfl
    · rw [take_of_le (by rw [List.length_cons]; omega), Act.bind_of_ok (take_of_le (by omega)),
        Nat.add_assoc, Nat.add_comm 1]
      rfl

theorem syncTag_of_ne (h : first ≠ 0) :
    syncTag ⟨first :: rest, consumed⟩ = (.ok (first, []), ⟨rest, consumed + 1⟩) := by
  have hbyte : byte ⟨first :: rest, consumed⟩ = (.ok first, ⟨rest, consumed + 1⟩) := rfl
  rw [syncTag, Act.bind_of_ok hbyte, if_neg h]
  rfl

theorem syncTag_zero : syncTag ⟨0 :: rest, consumed⟩ = sentinel [] ⟨rest, consumed + 1⟩ := by
  have hbyte : byte ⟨0 :: rest, consumed⟩ = (.ok 0, ⟨rest, consumed + 1⟩) := rfl
  rw [syncTag, Act.bind_of_ok hbyte, if_pos rfl]

theorem sentinel_of_none (h : rest.dropWhile (· ≠ 23) = []) :
    sentinel skipped ⟨rest, consumed⟩ =
      (reject "truncated segmented read", ⟨[], consumed + rest.length⟩) := by
  simp only [sentinel, h]

theorem sentinel_of_cons {tag : UInt8} {behind : Bytes}
    (h : rest.dropWhile (· ≠ 23) = tag :: behind) :
    sentinel skipped ⟨rest, consumed⟩ = (.ok (tag, skipped ++ rest.takeWhile (· ≠ 23)),
      ⟨behind, consumed + (rest.takeWhile (· ≠ 23)).length + 1⟩) := by
  simp only [sentinel, h]

theorem sentinel_nil :
    sentinel skipped ⟨[], consumed⟩ = (reject "truncated segmented read", ⟨[], consumed⟩) := rfl

theorem sentinel_found :
    sentinel skipped ⟨23 :: rest, consumed⟩ = (.ok (23, skipped), ⟨rest, consumed + 1⟩) := by
  show (Except.ok (23, skipped ++ []), _) = _
  rw [List.append_nil]
  rfl

theorem sentinel_skip (h : first ≠ 23) :
    sentinel skipped ⟨first :: rest, consumed⟩ =
      sentinel (skipped ++ [first]) ⟨rest, consumed + 1⟩ := by
  unfold sentinel
  simp only [List.dropWhile_cons_of_pos (p := (· ≠ (23 : UInt8))) (decide_eq_true h),
    List.takeWhile_cons_of_pos (p := (· ≠ (23 : UInt8))) (decide_eq_true h)]
  cases rest.dropWhile (· ≠ 23) with
  | nil =>
    simp only [List.length_cons, Nat.add_assoc, Nat.add_comm 1]
  | cons tag behind =>
    simp only [List.length_cons, List.append_assoc, List.singleton_append, Nat.add_assoc,
      Nat.add_comm 1]

end

end Contiguous

namespace SegmentedReader

/-- What the cursor stands before. -/
def view (r : SegmentedReader) : Contiguous := ⟨r.remaining, r.consumed⟩

theorem flatten_drop (chunks : List Bytes) (i : Nat) :
    (chunks.drop i).flatten = chunks.getD i [] ++ (chunks.drop (i + 1)).flatten := by
  by_cases h : i < chunks.length
  · rw [List.drop_eq_getElem_cons h, List.flatten_cons, List.getD_eq_getElem _ _ h]
  · rw [List.drop_eq_nil_of_le (by omega), List.drop_eq_nil_of_le (by omega),
      List.getD_eq_default _ _ (by omega)]
    rfl

theorem view_new (chunks : List Bytes) : (new chunks).view = ⟨chunks.flatten, 0⟩ := by
  have h := flatten_drop chunks 0
  rw [List.drop_zero] at h
  rw [h]
  rfl

/-- A fragment that is read to its end is left without reading. -/
theorem view_nextChunk {r : SegmentedReader} (h : r.offset = r.current.length) :
    r.nextChunk.view = r.view := by
  have hremaining : r.nextChunk.remaining = r.remaining := by
    show r.chunks.getD (r.chunkIndex + 1) [] ++ (r.chunks.drop (r.chunkIndex + 1 + 1)).flatten =
      r.current.drop r.offset ++ (r.chunks.drop (r.chunkIndex + 1)).flatten
    rw [← flatten_drop, h, List.drop_length, List.nil_append]
  rw [view, view, hremaining]
  rfl

theorem view_exhausted (s : SegmentedReader) : (exhausted.run s).view = s.view := by
  apply exhausted.run_rule (P := fun s r => r.view = s.view)
  · intro s r hstop
    simp only [exhausted] at hstop
    split at hstop
    · cases hstop
    · cases Sum.inr.inj hstop
      rfl
  · intro s t r hnext hr
    simp only [exhausted] at hnext
    split at hnext
    · rename_i hend
      cases Sum.inl.inj hnext
      rw [hr, view_nextChunk hend.2]
    · cases hnext

theorem remaining_of_end {r : SegmentedReader} (h : r.chunks.length ≤ r.chunkIndex) :
    r.remaining = [] := by
  rw [remaining, current, List.getD_eq_default _ _ h, List.drop_nil, List.nil_append,
    List.drop_eq_nil_of_le (by omega)]
  rfl

theorem remaining_eq_cons {r : SegmentedReader} (h : r.offset < r.current.length) :
    r.remaining = r.current.get ⟨r.offset, h⟩ :: (r.advance h).remaining := by
  rw [remaining, List.drop_eq_getElem_cons h]
  rfl

theorem views_byte : Act.Views view byte Contiguous.byte := by
  intro s
  rw [← view_exhausted s]
  by_cases h : (exhausted.run s).chunks.length ≤ (exhausted.run s).chunkIndex
  · have hbyte : byte s = (reject "truncated segmented read", exhausted.run s) := dif_pos h
    rw [hbyte, Contiguous.byte, view, remaining_of_end h]
  · have hbyte : byte s = (.ok ((exhausted.run s).current.get ⟨_, offset_lt h⟩),
        (exhausted.run s).advance (offset_lt h)) := dif_neg h
    rw [hbyte, Contiguous.byte, view, remaining_eq_cons (offset_lt h)]
    rfl

theorem views_take (size : Nat) : Act.Views view (take size) (Contiguous.take size) := by
  induction size with
  | zero =>
    intro s
    rfl
  | succ size ih =>
    rw [Contiguous.take_succ]
    exact views_byte.bind fun first => ih.bind fun rest => .pure _

/-- The bytes before and behind a byte. -/
theorem byte_eq_ok {r s : SegmentedReader} {b : UInt8} (h : byte r = (.ok b, s)) :
    r.remaining = b :: s.remaining ∧ s.consumed = r.consumed + 1 := by
  have hview := views_byte r
  rw [h] at hview
  exact Contiguous.byte_eq_ok hview

/-! ## Tags -/

/-- The loop of `sync_tag` behind a tag of zero. -/
def sentinelLoop :
    Loop (Bytes × SegmentedReader) (Except ProtocolError (UInt8 × Bytes) × SegmentedReader) where
  body s :=
    match byte s.2 with
    | (.error e, r) => .inr (.error e, r)
    | (.ok tag, r) => if tag = 23 then .inr (.ok (tag, s.1), r) else .inl (s.1 ++ [tag], r)
  measure s := s.2.remaining.length
  decreases := by
    intro s t h
    split at h
    · cases h
    · rename_i tag r hbyte
      split at h
      · cases h
      · cases Sum.inl.inj h
        show r.remaining.length < s.2.remaining.length
        rw [(byte_eq_ok hbyte).1]
        exact Nat.lt_succ_self _

/-- `SegmentedReader::sync_tag`. -/
def syncTag : Act ProtocolError SegmentedReader (UInt8 × Bytes) := do
  let tag ← byte
  if tag = 0 then fun r => sentinelLoop.run ([], r) else return (tag, [])

theorem views_sentinelLoop (skipped : Bytes) :
    Act.Views view (fun r => sentinelLoop.run (skipped, r)) (Contiguous.sentinel skipped) := by
  intro r
  refine sentinelLoop.run_rule
    (P := fun s out => Contiguous.sentinel s.1 s.2.view = (out.1, out.2.view))
    ?_ ?_ (skipped, r)
  · intro s out hstop
    have hview := views_byte s.2
    simp only [sentinelLoop] at hstop
    split at hstop
    · rename_i e r hbyte
      cases Sum.inr.inj hstop
      rw [hbyte] at hview
      obtain ⟨hend, hstay, rfl⟩ := Contiguous.byte_eq_error hview
      show Contiguous.sentinel s.1 ⟨s.2.view.remaining, s.2.view.consumed⟩ = (_, r.view)
      rw [hend, Contiguous.sentinel_nil, hstay, ← hend]
      rfl
    · rename_i tag r hbyte
      split at hstop
      · rename_i htag
        cases Sum.inr.inj hstop
        obtain ⟨hremaining, hconsumed⟩ := byte_eq_ok hbyte
        rw [view, hremaining, htag, Contiguous.sentinel_found, view, hconsumed]
      · cases hstop
  · intro s t out hnext hout
    simp only [sentinelLoop] at hnext
    split at hnext
    · cases hnext
    · rename_i tag r hbyte
      split at hnext
      · cases hnext
      · rename_i htag
        cases Sum.inl.inj hnext
        obtain ⟨hremaining, hconsumed⟩ := byte_eq_ok hbyte
        rw [view, hremaining, Contiguous.sentinel_skip htag, ← hconsumed]
        exact hout

theorem views_syncTag : Act.Views view syncTag Contiguous.syncTag :=
  views_byte.bind fun _ => (views_sentinelLoop []).ite (.pure _)

end SegmentedReader

/-! ## Sequences of calls -/

inductive ReadCall where
  | byte
  | take (size : Nat)
  | syncTag
  deriving DecidableEq, Repr

inductive ReadAnswer where
  | byte (value : UInt8)
  | bytes (out : Bytes)
  | tag (tag : UInt8) (skipped : Bytes)
  deriving DecidableEq, Repr

namespace ReadCall

def perform : ReadCall → Act ProtocolError SegmentedReader ReadAnswer
  | .byte => do
    let value ← SegmentedReader.byte
    return .byte value
  | .take size => do
    let out ← SegmentedReader.take size
    return .bytes out
  | .syncTag => do
    let (tag, skipped) ← SegmentedReader.syncTag
    return .tag tag skipped

/-- The call on one piece. -/
def onPiece : ReadCall → Act ProtocolError Contiguous ReadAnswer
  | .byte => do
    let value ← Contiguous.byte
    return .byte value
  | .take size => do
    let out ← Contiguous.take size
    return .bytes out
  | .syncTag => do
    let (tag, skipped) ← Contiguous.syncTag
    return .tag tag skipped

theorem views_perform (call : ReadCall) :
    Act.Views SegmentedReader.view call.perform call.onPiece := by
  cases call with
  | byte => exact SegmentedReader.views_byte.bind fun value => .pure _
  | take size => exact (SegmentedReader.views_take size).bind fun out => .pure _
  | syncTag => exact SegmentedReader.views_syncTag.bind fun found => .pure _

/-- A call with its result and the count of bytes behind it. -/
def answer (r : SegmentedReader) (call : ReadCall) :
    (Except ProtocolError ReadAnswer × Nat) × SegmentedReader :=
  (((call.perform r).1, (call.perform r).2.consumed), (call.perform r).2)

/-- Two cursors before the same bytes answer alike. -/
theorem answer_of_view {r s : SegmentedReader} (h : r.view = s.view) (call : ReadCall) :
    (answer r call).1 = (answer s call).1 ∧ (answer r call).2.view = (answer s call).2.view := by
  have hsame : ((call.perform r).1, (call.perform r).2.view) =
      ((call.perform s).1, (call.perform s).2.view) := by
    rw [← call.views_perform r, ← call.views_perform s, h]
  obtain ⟨hresult, hview⟩ := Prod.mk.inj hsame
  refine ⟨?_, hview⟩
  show ((call.perform r).1, (call.perform r).2.view.consumed) =
    ((call.perform s).1, (call.perform s).2.view.consumed)
  rw [hresult, hview]

end ReadCall

/-! ## The contiguous parser -/

open Sync

/-- The tag step of `parse_synchronized_state`. -/
def Sync.tagStep : Reader UInt8 := do
  let first ← take 1
  sectionTag (first.bytes.headD 0)

theorem Sync.tagStep_cons (first : UInt8) (rest : Bytes) :
    tagStep (first :: rest) = sectionTag first rest := by
  have htake : take 1 (first :: rest) = .ok (⟨[first], rfl⟩, rest) := rfl
  exact Decoder.bind_of_ok htake

/-- The loop over the sections makes this step. -/
theorem Sync.restOfSection_eq (sections : Sections) (first : UInt8) (rest : Bytes) :
    restOfSection sections first rest =
      (do let tag ← tagStep; sectionBody sections tag) (first :: rest) := by
  have htag := tagStep_cons first rest
  cases hsection : sectionTag first rest with
  | error e => rw [restOfSection, Decoder.bind_of_error hsection,
      Decoder.bind_of_error (htag.trans hsection)]
  | ok next =>
    obtain ⟨tag, behind⟩ := next
    rw [restOfSection, Decoder.bind_of_ok hsection, Decoder.bind_of_ok (htag.trans hsection)]

theorem Sync.skipToRouting_eq (rest : Bytes) :
    skipToRouting rest =
      match rest.dropWhile (· ≠ 23) with
      | [] => reject "truncated synchronization record"
      | tag :: behind => .ok (tag, behind) := by
  induction rest with
  | nil => rfl
  | cons tag rest ih =>
    rw [skipToRouting]
    by_cases h : tag = 23
    · rw [if_pos h, h]
      rfl
    · rw [if_neg h, ih, List.dropWhile_cons_of_pos (p := (· ≠ (23 : UInt8))) (decide_eq_true h)]

theorem Contiguous.syncTag_of_ok {s : Contiguous} {tag : UInt8} {rest : Bytes}
    (h : tagStep s.remaining = .ok (tag, rest)) :
    ∃ skipped t, s.syncTag = (.ok (tag, skipped), t) ∧ t.remaining = rest ∧
      t.consumed + rest.length = s.consumed + s.remaining.length := by
  obtain ⟨remaining, consumed⟩ := s
  cases remaining with
  | nil => cases h
  | cons first behind =>
    rw [tagStep_cons, sectionTag] at h
    by_cases hfirst : first = 0
    · rw [if_pos hfirst, skipToRouting_eq] at h
      have hgap := List.takeWhile_append_dropWhile (p := (· ≠ 23)) (l := behind)
      cases hbehind : behind.dropWhile (· ≠ 23) with
      | nil =>
        rw [hbehind] at h
        cases h
      | cons found last =>
        rw [hbehind] at h hgap
        cases h
        have hlength := congrArg List.length hgap
        rw [List.length_append, List.length_cons] at hlength
        rw [hfirst, syncTag_zero, sentinel_of_cons hbehind]
        refine ⟨_, _, rfl, rfl, ?_⟩
        show consumed + 1 + _ + 1 + rest.length = consumed + (behind.length + 1)
        omega
    · rw [if_neg hfirst] at h
      cases h
      refine ⟨[], _, syncTag_of_ne hfirst, rfl, ?_⟩
      show consumed + 1 + rest.length = consumed + (rest.length + 1)
      omega

theorem Contiguous.syncTag_of_error {s : Contiguous} {e : ProtocolError}
    (h : tagStep s.remaining = .error e) : ∃ e' t, s.syncTag = (.error e', t) := by
  obtain ⟨remaining, consumed⟩ := s
  cases remaining with
  | nil => exact ⟨_, _, rfl⟩
  | cons first behind =>
    rw [tagStep_cons, sectionTag] at h
    by_cases hfirst : first = 0
    · rw [if_pos hfirst, skipToRouting_eq] at h
      cases hbehind : behind.dropWhile (· ≠ 23) with
      | nil =>
        rw [hfirst, syncTag_zero, sentinel_of_none hbehind]
        exact ⟨_, _, rfl⟩
      | cons found last =>
        rw [hbehind] at h
        cases h
    · rw [if_neg hfirst] at h
      cases h

/-! ## Positions -/

/-- The bytes that were read and the bytes that remain are the stream. -/
def Contiguous.Stands (bytes : Bytes) (s : Contiguous) : Prop :=
  ∃ past : Bytes, past ++ s.remaining = bytes ∧ past.length = s.consumed

namespace Contiguous

variable {bytes : Bytes}

theorem Stands.drop {s : Contiguous} (h : s.Stands bytes) :
    s.remaining = bytes.drop s.consumed := by
  obtain ⟨past, rfl, hlength⟩ := h
  rw [← hlength, List.drop_left]

/-- Bytes that are read are behind the cursor. -/
theorem Stands.read {s : Contiguous} (h : s.Stands bytes) {front rest : Bytes}
    (hs : s.remaining = front ++ rest) : Stands bytes ⟨rest, s.consumed + front.length⟩ := by
  obtain ⟨past, rfl, hlength⟩ := h
  refine ⟨past ++ front, ?_, ?_⟩
  · rw [hs, List.append_assoc]
  · rw [List.length_append, hlength]

theorem stands_byte : Act.Preserves (Stands bytes) byte := by
  apply Act.Preserves.of_snd
  intro s hs
  rw [byte]
  split
  · exact hs
  · rename_i first rest hremaining
    have hfront : s.remaining = [first] ++ rest := hremaining
    exact hs.read hfront

theorem stands_take (size : Nat) : Act.Preserves (Stands bytes) (take size) := by
  apply Act.Preserves.of_snd
  intro s hs
  rw [take]
  split
  · exact hs.read (List.append_nil _).symm
  · have hread := hs.read (List.take_append_drop size s.remaining).symm
    rw [List.length_take, Nat.min_eq_left (by omega)] at hread
    exact hread

theorem stands_sentinel (skipped : Bytes) :
    Act.Preserves (Stands bytes) (sentinel skipped) := by
  apply Act.Preserves.of_snd
  intro s hs
  have hgap := List.takeWhile_append_dropWhile (p := (· ≠ 23)) (l := s.remaining)
  rw [sentinel]
  split
  · exact hs.read (List.append_nil _).symm
  · rename_i tag rest hdrop
    rw [hdrop, ← List.singleton_append, ← List.append_assoc] at hgap
    have hread := hs.read hgap.symm
    rw [List.length_append] at hread
    exact hread

theorem stands_syncTag : Act.Preserves (Stands bytes) syncTag :=
  stands_byte.bind fun _ => (stands_sentinel []).ite (.pure _)

theorem stands_onPiece (call : ReadCall) : Act.Preserves (Stands bytes) call.onPiece := by
  cases call with
  | byte => exact stands_byte.bind fun value => .pure _
  | take size => exact (stands_take size).bind fun out => .pure _
  | syncTag => exact stands_syncTag.bind fun found => .pure _

end Contiguous

theorem stands_answer {bytes : Bytes} {r : SegmentedReader} (call : ReadCall)
    (h : r.view.Stands bytes) : (ReadCall.answer r call).2.view.Stands bytes := by
  have hkeeps : Act.Preserves (Contiguous.Stands bytes) call.onPiece :=
    Contiguous.stands_onPiece call
  have hnext := hkeeps.snd h
  rw [call.views_perform r] at hnext
  exact hnext

/-- `sync_tag` gives the tag of this step and stops where it stops, and it fails when this
step fails. -/
def TagsAgree (r : SegmentedReader) : Prop :=
  match tagStep r.remaining with
  | .ok (tag, rest) => ∃ skipped s, r.syncTag = (.ok (tag, skipped), s) ∧ s.remaining = rest ∧
      s.consumed + rest.length = r.consumed + r.remaining.length
  | .error _ => ∃ e s, r.syncTag = (.error e, s)

theorem tagsAgree (r : SegmentedReader) : TagsAgree r := by
  have hview := SegmentedReader.views_syncTag r
  rw [TagsAgree]
  split
  · rename_i tag rest htag
    obtain ⟨skipped, t, hrun, hrest, hconsumed⟩ := Contiguous.syncTag_of_ok (s := r.view) htag
    obtain ⟨hresult, rfl⟩ := Prod.mk.inj (hrun.symm.trans hview)
    exact ⟨skipped, _, Prod.ext hresult.symm rfl, hrest, hconsumed⟩
  · rename_i e htag
    obtain ⟨e', t, hrun⟩ := Contiguous.syncTag_of_error (s := r.view) htag
    obtain ⟨hresult, -⟩ := Prod.mk.inj (hrun.symm.trans hview)
    exact ⟨e', _, Prod.ext hresult.symm rfl⟩

/-- The cuts of a stream do not matter to the calls of a `SegmentedReader`, which stands
behind as many bytes as it counts, and its tags are those of the contiguous parser. -/
theorem segmented_reading {bytes : Bytes} {chunks others : List Bytes}
    (hchunks : chunks.flatten = bytes) (hothers : others.flatten = bytes)
    (calls : List ReadCall) :
    (Mealy.run ReadCall.answer (.new chunks) calls).1 =
        (Mealy.run ReadCall.answer (.new others) calls).1 ∧
      (Mealy.run ReadCall.answer (.new chunks) calls).2.remaining =
        bytes.drop (Mealy.run ReadCall.answer (.new chunks) calls).2.consumed ∧
      TagsAgree (Mealy.run ReadCall.answer (.new chunks) calls).2 := by
  have hview : (SegmentedReader.new chunks).view = (SegmentedReader.new others).view := by
    rw [SegmentedReader.view_new, SegmentedReader.view_new, hchunks, hothers]
  have hstart : (SegmentedReader.new chunks).view.Stands bytes := by
    rw [SegmentedReader.view_new, hchunks]
    exact ⟨[], rfl, rfl⟩
  refine ⟨?_, ?_, tagsAgree _⟩
  · exact (Mealy.run_eq_of_related (R := fun r s => r.view = s.view)
      (fun r s call h => ReadCall.answer_of_view h call) hview calls).1
  · exact (Mealy.run_invariant (P := fun r : SegmentedReader => r.view.Stands bytes)
      (fun r call h => stands_answer call h) hstart calls).drop

/-- One payload in two cuts. -/
theorem segmented_reading_routing :
    (Mealy.run ReadCall.answer (.new [[0x00, 0x11], [], [0x17, 0x05]]) [.syncTag, .byte]).1 =
        (Mealy.run ReadCall.answer (.new [[0x00], [0x11, 0x17, 0x05]]) [.syncTag, .byte]).1 ∧
      (Mealy.run ReadCall.answer (.new [[0x00, 0x11], [], [0x17, 0x05]])
          [.syncTag, .byte]).2.remaining =
        List.drop (Mealy.run ReadCall.answer (.new [[0x00, 0x11], [], [0x17, 0x05]])
          [.syncTag, .byte]).2.consumed [0x00, 0x11, 0x17, 0x05] ∧
      TagsAgree (Mealy.run ReadCall.answer (.new [[0x00, 0x11], [], [0x17, 0x05]])
        [.syncTag, .byte]).2 :=
  segmented_reading rfl rfl [.syncTag, .byte]

end Mt5Open.Native

import Mt5Open.Native.Cipher
import Mt5Open.Native.Reassembly
import Mathlib.Data.Finset.Card
import Mathlib.Data.Fintype.Basic

/-!
# Fragmented messages

This is the server's side of the receive path.  A list of messages is cut into
fragments, the fragments of several messages are interleaved, and every fragment
travels in a frame of its own: `transmit` enciphers them in order.

`Pending` says what the reassembler holds between two fragments, and
`push_fragment` is the step: the last fragment of a message gives the message
back, and any other fragment gives nothing.
-/

namespace Mt5Open.Native

/-- A message of the server. -/
structure Posted where
  command : UInt8
  sequence : UInt16
  payload : Bytes
  deriving DecidableEq, Repr

/-- A fragment of one of the messages.  `compressed` says that the server wraps
its bytes. -/
structure Fragment (messages : List Posted) where
  message : Fin messages.length
  bytes : Bytes
  compressed : Bool
  deriving DecidableEq

variable {messages : List Posted}

namespace Fragment

/-- The message that the fragment is a part of. -/
def posted (fragment : Fragment messages) : Posted := messages.get fragment.message

/-- The bytes of the fragment as they are enciphered. -/
def plain (fragment : Fragment messages) : Result Bytes :=
  if fragment.compressed then makeCompressedPayload fragment.bytes else .ok fragment.bytes

/-- No later fragment is of the same message. -/
def isLast (fragment : Fragment messages) (back : List (Fragment messages)) : Bool :=
  decide (fragment.message ∉ back.map message)

def flags (fragment : Fragment messages) (back : List (Fragment messages)) : UInt16 :=
  (if fragment.isLast back then FINAL else 0) ||| (if fragment.compressed then COMPRESSED else 0)

/-- The frame of the fragment, with these fragments behind it. -/
def frame (fragment : Fragment messages) (back : List (Fragment messages)) (payload : Bytes) :
    Frame where
  command := fragment.posted.command
  sequence := fragment.posted.sequence
  flags := fragment.flags back
  payload := payload

theorem isFinal_frame (fragment : Fragment messages) (back : List (Fragment messages))
    (payload : Bytes) : (fragment.frame back payload).isFinal = fragment.isLast back := by
  have hflags : ∀ last compressed : Bool,
      (((if last then FINAL else 0) ||| (if compressed then COMPRESSED else 0)) &&& FINAL != 0) =
        last := by decide
  exact hflags _ _

theorem isCompressed_frame (fragment : Fragment messages) (back : List (Fragment messages))
    (payload : Bytes) : (fragment.frame back payload).isCompressed = fragment.compressed := by
  have hflags : ∀ last compressed : Bool,
      (((if last then FINAL else 0) ||| (if compressed then COMPRESSED else 0)) &&& COMPRESSED != 0)
        = compressed := by decide
  exact hflags _ _

end Fragment

/-- The frames of the fragments, enciphered in order. -/
def transmit (cipher : SessionCipher) : List (Fragment messages) → Result (List Frame)
  | [] => .ok []
  | fragment :: back => do
    let plain ← fragment.plain
    let frames ← transmit (cipher.encrypt plain).2 back
    return fragment.frame back (cipher.encrypt plain).1 :: frames

/-- The messages in the order of their last fragments. -/
def completed : List (Fragment messages) → List (Fin messages.length)
  | [] => []
  | fragment :: back =>
    if fragment.isLast back then fragment.message :: completed back else completed back

/-- The fragments of one message. -/
def pieces (i : Fin messages.length) (fragments : List (Fragment messages)) :
    List (Fragment messages) :=
  fragments.filter (·.message = i)

/-- Message `i` as the reassembler gives it. -/
def message (fragments : List (Fragment messages)) (i : Fin messages.length) : Message where
  command := (messages.get i).command
  sequence := (messages.get i).sequence
  payload := (messages.get i).payload
  fragments := (pieces i fragments).length

/-- The messages with a fragment on both sides of this place. -/
def inFlight (front back : List (Fragment messages)) : Finset (Fin messages.length) :=
  (front.map Fragment.message).toFinset ∩ (back.map Fragment.message).toFinset

theorem mem_inFlight {front back : List (Fragment messages)} {i : Fin messages.length} :
    i ∈ inFlight front back ↔ i ∈ front.map Fragment.message ∧ i ∈ back.map Fragment.message := by
  rw [inFlight, Finset.mem_inter, List.mem_toFinset, List.mem_toFinset]

/-- The fragments are those of the messages, in any interleaving of messages
whose sequence numbers differ while they are in flight. -/
structure Interleaved (fragments : List (Fragment messages)) : Prop where
  payload : ∀ i, (pieces i fragments).flatMap Fragment.bytes = (messages.get i).payload
  present : ∀ i, i ∈ fragments.map Fragment.message
  apart : ∀ front fragment back, fragments = front ++ fragment :: back →
    ∀ i ∈ inFlight front back, i ≠ fragment.message →
      (messages.get i).sequence ≠ fragment.posted.sequence
  pending : ∀ front back, fragments = front ++ back → (inFlight front back).card ≤ MAX_PENDING
  size : ∀ i, (messages.get i).payload.length ≤ MAX_MESSAGE

theorem mem_completed {fragments : List (Fragment messages)} {i : Fin messages.length} :
    i ∈ completed fragments ↔ i ∈ fragments.map Fragment.message := by
  induction fragments generalizing i with
  | nil => exact Iff.rfl
  | cons fragment back ih =>
    rw [completed, List.map_cons, List.mem_cons, ← ih]
    by_cases hlast : fragment.isLast back
    · rw [if_pos hlast, List.mem_cons]
    · rw [if_neg hlast]
      have hback : fragment.message ∈ completed back := by
        rw [ih]
        simpa [Fragment.isLast] using hlast
      constructor
      · exact Or.inr
      · rintro (rfl | hi)
        · exact hback
        · exact hi

theorem nodup_completed (fragments : List (Fragment messages)) : (completed fragments).Nodup := by
  induction fragments with
  | nil => exact List.nodup_nil
  | cons fragment back ih =>
    rw [completed]
    by_cases hlast : fragment.isLast back
    · rw [if_pos hlast, List.nodup_cons]
      refine ⟨?_, ih⟩
      rw [mem_completed]
      exact of_decide_eq_true hlast
    · rw [if_neg hlast]
      exact ih

/-- Every message is completed once. -/
theorem completed_perm {fragments : List (Fragment messages)} (h : Interleaved fragments) :
    (completed fragments).Perm (List.finRange messages.length) := by
  rw [List.perm_ext_iff_of_nodup (nodup_completed fragments) (List.nodup_finRange _)]
  intro i
  have hpresent : i ∈ completed fragments := mem_completed.mpr (h.present i)
  exact ⟨fun _ => List.mem_finRange i, fun _ => hpresent⟩

/-! ## What the reassembler holds -/

/-- What the reassembler has of message `i`. -/
def soFar (front : List (Fragment messages)) (i : Fin messages.length) : UInt8 × Bytes × Nat :=
  ((messages.get i).command, (pieces i front).flatMap Fragment.bytes, (pieces i front).length)

/-- The reassembler holds the messages in flight at this place and no others. -/
structure Pending (front back : List (Fragment messages)) (reassembler : Reassembler) : Prop where
  maxMessage : reassembler.maxMessage = MAX_MESSAGE
  maxPending : reassembler.maxPending = MAX_PENDING
  gathered : ∀ i ∈ inFlight front back,
    reassembler.pending.lookup (messages.get i).sequence = some (soFar front i)
  only : ∀ sequence ∈ reassembler.pending, ∃ i ∈ inFlight front back,
    (messages.get i).sequence = sequence

theorem pending_default (back : List (Fragment messages)) : Pending [] back .default where
  maxMessage := rfl
  maxPending := rfl
  gathered i hi := by
    rw [mem_inFlight] at hi
    cases hi.1
  only sequence hsequence := absurd hsequence (AList.notMem_empty sequence)

theorem pieces_concat_of_eq {fragment : Fragment messages} (front : List (Fragment messages)) :
    pieces fragment.message (front ++ [fragment]) =
      pieces fragment.message front ++ [fragment] := by
  simp [pieces, List.filter_append]

theorem pieces_concat_of_ne {fragment : Fragment messages} {i : Fin messages.length}
    (h : i ≠ fragment.message) (front : List (Fragment messages)) :
    pieces i (front ++ [fragment]) = pieces i front := by
  simp [pieces, List.filter_append, h.symm]

theorem soFar_concat_of_ne {fragment : Fragment messages} {i : Fin messages.length}
    (h : i ≠ fragment.message) (front : List (Fragment messages)) :
    soFar (front ++ [fragment]) i = soFar front i := by
  rw [soFar, soFar, pieces_concat_of_ne h]

/-- No more is pending than is in flight. -/
theorem Pending.length_le {front back : List (Fragment messages)} {reassembler : Reassembler}
    (h : Pending front back reassembler) :
    reassembler.pending.entries.length ≤ (inFlight front back).card := by
  have hnodup : reassembler.pending.keys.Nodup := reassembler.pending.keys_nodup
  have hkeys : reassembler.pending.keys.toFinset ⊆
      (inFlight front back).image fun i => (messages.get i).sequence := by
    intro sequence hsequence
    rw [List.mem_toFinset, ← AList.mem_keys] at hsequence
    obtain ⟨i, hi, rfl⟩ := h.only sequence hsequence
    exact Finset.mem_image_of_mem _ hi
  calc reassembler.pending.entries.length
      = reassembler.pending.keys.length := by rw [AList.keys, List.keys, List.length_map]
    _ = reassembler.pending.keys.toFinset.card := (List.toFinset_card_of_nodup hnodup).symm
    _ ≤ ((inFlight front back).image fun i => (messages.get i).sequence).card :=
        Finset.card_le_card hkeys
    _ ≤ (inFlight front back).card := Finset.card_image_le

/-- The bytes up to a fragment are the beginning of its message. -/
theorem Interleaved.bytes_eq {front back : List (Fragment messages)} {fragment : Fragment messages}
    (h : Interleaved (front ++ fragment :: back)) :
    (pieces fragment.message front).flatMap Fragment.bytes ++ fragment.bytes ++
      (pieces fragment.message back).flatMap Fragment.bytes = fragment.posted.payload := by
  have hpayload := h.payload fragment.message
  rw [Fragment.posted, ← hpayload]
  simp [pieces, List.filter_append]

/-- The last fragment completes the payload. -/
theorem Interleaved.bytes_last {front back : List (Fragment messages)}
    {fragment : Fragment messages} (h : Interleaved (front ++ fragment :: back))
    (hlast : fragment.isLast back = true) :
    (pieces fragment.message front).flatMap Fragment.bytes ++ fragment.bytes =
      fragment.posted.payload ∧
      (pieces fragment.message (front ++ fragment :: back)).length =
        (pieces fragment.message front).length + 1 := by
  have hnone : pieces fragment.message back = [] := by
    rw [pieces, List.filter_eq_nil_iff]
    intro other hother heq
    exact of_decide_eq_true hlast (List.mem_map.mpr ⟨other, hother, of_decide_eq_true heq⟩)
  constructor
  · rw [← h.bytes_eq, hnone]
    simp
  · rw [← List.singleton_append, ← List.append_assoc, pieces, List.filter_append, ← pieces,
      ← pieces, hnone, pieces_concat_of_eq]
    simp

section Push

variable {front back : List (Fragment messages)} {fragment : Fragment messages}
  {reassembler : Reassembler}

theorem Interleaved.length_le (h : Interleaved (front ++ fragment :: back)) :
    ((pieces fragment.message front).flatMap Fragment.bytes).length + fragment.bytes.length ≤
      MAX_MESSAGE := by
  have hsize := h.size fragment.message
  have hbytes := congrArg List.length h.bytes_eq
  simp only [List.length_append, Fragment.posted] at hbytes
  omega

/-- A message that goes on behind the fragment and is another one has another
sequence number. -/
theorem Interleaved.sequence_ne (h : Interleaved (front ++ fragment :: back))
    {i : Fin messages.length} (hi : i ∈ inFlight front (fragment :: back))
    (hne : i ≠ fragment.message) :
    i ∈ inFlight front back ∧ (messages.get i).sequence ≠ fragment.posted.sequence := by
  rw [mem_inFlight, List.map_cons, List.mem_cons] at hi
  have hback : i ∈ inFlight front back :=
    mem_inFlight.mpr ⟨hi.1, hi.2.resolve_left hne⟩
  exact ⟨hback, h.apart front fragment back rfl i hback hne⟩

/-- What the reassembler has of the message of the fragment. -/
theorem Pending.lookup_eq (hp : Pending front (fragment :: back) reassembler)
    (h : Interleaved (front ++ fragment :: back)) :
    (reassembler.pending.lookup fragment.posted.sequence).getD (fragment.posted.command, [], 0) =
        soFar front fragment.message ∧
      (fragment.message ∉ front.map Fragment.message →
        reassembler.pending.lookup fragment.posted.sequence = none) := by
  have hback : fragment.message ∈ (fragment :: back).map Fragment.message := by
    rw [List.map_cons]
    exact List.mem_cons_self
  by_cases hfront : fragment.message ∈ front.map Fragment.message
  · have hlookup : reassembler.pending.lookup fragment.posted.sequence = _ :=
      hp.gathered fragment.message (mem_inFlight.mpr ⟨hfront, hback⟩)
    refine ⟨?_, fun hnot => absurd hfront hnot⟩
    rw [hlookup]
    rfl
  · have hnone : reassembler.pending.lookup fragment.posted.sequence = none := by
      rw [AList.lookup_eq_none]
      intro hmem
      obtain ⟨i, hi, hsequence⟩ := hp.only _ hmem
      have hne : i ≠ fragment.message := by
        intro heq
        exact hfront (heq ▸ (mem_inFlight.mp hi).1)
      exact (h.sequence_ne hi hne).2 hsequence
    refine ⟨?_, fun _ => hnone⟩
    have hpieces : pieces fragment.message front = [] := by
      rw [pieces, List.filter_eq_nil_iff]
      intro other hother heq
      exact hfront (List.mem_map.mpr ⟨other, hother, of_decide_eq_true heq⟩)
    rw [hnone, soFar, hpieces]
    rfl

/-- Behind the last fragment of a message the message is no longer pending. -/
theorem Pending.erase (hp : Pending front (fragment :: back) reassembler)
    (h : Interleaved (front ++ fragment :: back)) (hlast : fragment.isLast back = true) :
    Pending (front ++ [fragment]) back
      { reassembler with pending := reassembler.pending.erase fragment.posted.sequence } where
  maxMessage := hp.maxMessage
  maxPending := hp.maxPending
  gathered i hi := by
    rw [mem_inFlight] at hi
    have hne : i ≠ fragment.message := by
      intro heq
      exact of_decide_eq_true hlast (heq ▸ hi.2)
    have hfront : i ∈ front.map Fragment.message := by
      have hmem := hi.1
      rw [List.map_append, List.mem_append] at hmem
      exact hmem.resolve_right fun hsingle => hne (List.mem_singleton.mp hsingle)
    have hflight : i ∈ inFlight front (fragment :: back) :=
      mem_inFlight.mpr ⟨hfront, List.mem_cons_of_mem _ hi.2⟩
    rw [AList.lookup_erase_ne (h.sequence_ne hflight hne).2, hp.gathered i hflight,
      soFar_concat_of_ne hne]
  only sequence hsequence := by
    rw [AList.mem_erase] at hsequence
    obtain ⟨i, hi, rfl⟩ := hp.only sequence hsequence.2
    have hne : i ≠ fragment.message := fun heq => hsequence.1 (by rw [heq]; rfl)
    have hback := mem_inFlight.mp (h.sequence_ne hi hne).1
    refine ⟨i, mem_inFlight.mpr ⟨?_, hback.2⟩, rfl⟩
    rw [List.map_append]
    exact List.mem_append_left _ hback.1

/-- Behind any other fragment its message has one more. -/
theorem Pending.insert (hp : Pending front (fragment :: back) reassembler)
    (h : Interleaved (front ++ fragment :: back)) (hlast : fragment.isLast back = false) :
    Pending (front ++ [fragment]) back
      { reassembler with
        pending := reassembler.pending.insert fragment.posted.sequence
          (soFar (front ++ [fragment]) fragment.message) } where
  maxMessage := hp.maxMessage
  maxPending := hp.maxPending
  gathered i hi := by
    rw [mem_inFlight] at hi
    by_cases hne : i = fragment.message
    · rw [hne]
      exact AList.lookup_insert _
    · have hfront : i ∈ front.map Fragment.message := by
        have hmem := hi.1
        rw [List.map_append, List.mem_append] at hmem
        exact hmem.resolve_right fun hsingle => hne (List.mem_singleton.mp hsingle)
      have hflight : i ∈ inFlight front (fragment :: back) :=
        mem_inFlight.mpr ⟨hfront, List.mem_cons_of_mem _ hi.2⟩
      rw [AList.lookup_insert_ne (h.sequence_ne hflight hne).2, hp.gathered i hflight,
        soFar_concat_of_ne hne]
  only sequence hsequence := by
    have hback : fragment.message ∈ back.map Fragment.message := by
      simpa [Fragment.isLast] using hlast
    have hfragment : fragment.message ∈ (front ++ [fragment]).map Fragment.message := by
      rw [List.map_append]
      exact List.mem_append_right _ List.mem_cons_self
    rw [AList.mem_insert] at hsequence
    by_cases hown : sequence = fragment.posted.sequence
    · exact ⟨fragment.message, mem_inFlight.mpr ⟨hfragment, hback⟩, hown.symm⟩
    · obtain ⟨i, hi, rfl⟩ := hp.only sequence (hsequence.resolve_left hown)
      have hne : i ≠ fragment.message := fun heq => hown (by rw [heq]; rfl)
      have hflight := mem_inFlight.mp (h.sequence_ne hi hne).1
      refine ⟨i, mem_inFlight.mpr ⟨?_, hflight.2⟩, rfl⟩
      rw [List.map_append]
      exact List.mem_append_left _ hflight.1

/-- The reassembler takes every fragment. -/
theorem Pending.check_eq_ok (hp : Pending front (fragment :: back) reassembler)
    (h : Interleaved (front ++ fragment :: back)) (payload : Bytes) :
    reassembler.check (fragment.frame back payload) fragment.bytes = .ok () := by
  have hlength := h.length_le
  obtain ⟨hgathered, hnone⟩ := hp.lookup_eq h
  unfold Reassembler.check
  rw [show (fragment.frame back payload).sequence = fragment.posted.sequence from rfl,
    hp.maxMessage]
  cases hlookup : reassembler.pending.lookup fragment.posted.sequence with
  | some held =>
    rw [hlookup] at hgathered
    obtain ⟨command, bytes, count⟩ := held
    cases hgathered
    show (if fragment.posted.command ≠ fragment.posted.command then _
      else if MAX_MESSAGE < _ then _ else _) = _
    rw [if_neg (fun hne => hne rfl), if_neg (Nat.not_lt.mpr hlength)]
  | none =>
    show (if MAX_MESSAGE < fragment.bytes.length then _ else _) = _
    rw [if_neg (by omega), Fragment.isFinal_frame, hp.maxPending]
    by_cases hlast : fragment.isLast back
    · rw [hlast]
      exact if_neg (fun hcond => Bool.noConfusion hcond.1)
    · have hlast : fragment.isLast back = false := by simpa using hlast
      have hinsert := hp.insert h hlast
      have hcount := hinsert.length_le
      have hbound := h.pending (front ++ [fragment]) back (by simp)
      have hnew : (reassembler.pending.insert fragment.posted.sequence
          (soFar (front ++ [fragment]) fragment.message)).entries.length =
          reassembler.pending.entries.length + 1 := by
        rw [AList.entries_insert_of_notMem (AList.lookup_eq_none.mp hlookup), List.length_cons]
      refine if_neg fun hcond => ?_
      have hfull := hcond.2
      rw [hnew] at hcount
      omega

/-- The last fragment of a message gives the message, and any other gives none. -/
theorem push_fragment (hp : Pending front (fragment :: back) reassembler)
    (h : Interleaved (front ++ fragment :: back)) (payload : Bytes) :
    ∃ next, reassembler.push (fragment.frame back payload) fragment.bytes =
        .ok (if fragment.isLast back then
          some (message (front ++ fragment :: back) fragment.message) else none, next) ∧
      Pending (front ++ [fragment]) back next := by
  obtain ⟨hgathered, -⟩ := hp.lookup_eq h
  unfold Reassembler.push
  rw [hp.check_eq_ok h payload]
  simp only [bind, Except.bind, Fragment.isFinal_frame]
  rw [show (fragment.frame back payload).sequence = fragment.posted.sequence from rfl,
    show (fragment.frame back payload).command = fragment.posted.command from rfl, hgathered]
  by_cases hlast : fragment.isLast back
  · obtain ⟨hbytes, hcount⟩ := h.bytes_last hlast
    refine ⟨_, ?_, hp.erase h hlast⟩
    simp only [if_pos hlast, message, hcount]
    rw [show (messages.get fragment.message).payload = _ from hbytes.symm]
    rfl
  · have hnot : fragment.isLast back = false := by simpa using hlast
    refine ⟨_, ?_, hp.insert h hnot⟩
    simp only [if_neg hlast, soFar, pieces_concat_of_eq, List.flatMap_append, List.length_append]
    simp
    rfl

end Push

end Mt5Open.Native

import Mt5Open.Lib.Act
import Mt5Open.Native.Reassembly
import Mathlib.Data.List.Induction

/-!
# Runs of the reassembler

`pushInPlace` is `Reassembler::push` with its checks, the removal of the entry and
its reinsertion in the order of the source.  A run pushes fragments one after the
other and keeps a log of their outcomes, those of rejected fragments among them.

The abstract reassembler has a buffer for each sequence number: the fragments that
were accepted since the last message of this number was completed.  `waiting` reads
them off the log, and `Refines` says what the reassembler does in their terms.
-/

namespace Mt5Open.Native

open Lib

/-- A frame with its deciphered payload. -/
structure Push where
  frame : Frame
  plain : Bytes
  deriving DecidableEq, Repr

namespace Reassembler

/-- The end of `Reassembler::push`: the entry is removed and extended, and it is put
back when the message is not complete. -/
def extendEntry (p : Push) : Act ProtocolError Reassembler (Option Message) := do
  let (command, payload, count) ← Act.step fun messages =>
    ((messages.pending.lookup p.frame.sequence).getD (p.frame.command, [], 0),
      { messages with pending := messages.pending.erase p.frame.sequence })
  let payload := payload ++ p.plain
  let count := count + 1
  if p.frame.isFinal then
    return some { command, sequence := p.frame.sequence, payload, fragments := count }
  else
    Act.modify fun messages =>
      { messages with pending :=
        messages.pending.insert p.frame.sequence (command, payload, count) }
    return none

/-- `Reassembler::push` on its object: the checks, and then the changes. -/
def pushInPlace (p : Push) : Act ProtocolError Reassembler (Option Message) := do
  let messages ← Act.get
  Act.ofExcept (messages.check p.frame p.plain)
  extendEntry p

/-- What a push answers. -/
abbrev Outcome := Except ProtocolError (Option Message)

/-- Push one fragment, and log its outcome. -/
def logPush (s : List (Push × Outcome) × Reassembler) (p : Push) :
    List (Push × Outcome) × Reassembler :=
  (s.1 ++ [(p, (pushInPlace p s.2).1)], (pushInPlace p s.2).2)

/-- The log of a run, and the reassembler behind the last push. -/
def run (messages : Reassembler) (ps : List Push) : List (Push × Outcome) × Reassembler :=
  ps.foldl logPush ([], messages)

end Reassembler

/-! ## The buffers -/

namespace Buffer

open Reassembler (Outcome)

/-- What a push does to the fragments that wait: an accepted one joins them, and the
last one of a message takes them away. -/
def next (sequence : UInt16) (fragments : List Push) (entry : Push × Outcome) : List Push :=
  if entry.1.frame.sequence = sequence then
    match entry.2 with
    | .ok none => fragments ++ [entry.1]
    | .ok (some _) => []
    | .error _ => fragments
  else fragments

/-- The fragments of a sequence that were accepted since its last completed message. -/
def waiting (log : List (Push × Outcome)) (sequence : UInt16) : List Push :=
  log.foldl (next sequence) []

/-- The entry that the reassembler keeps for fragments that wait. -/
def entry : List Push → Option (UInt8 × Bytes × Nat)
  | [] => none
  | p :: ps => some (p.frame.command, (p :: ps).flatMap Push.plain, ps.length + 1)

/-- The message of fragments, the last of which is the final one. -/
def assembled (fragments : List Push) (last : Push) : Message where
  command := last.frame.command
  sequence := last.frame.sequence
  payload := (fragments ++ [last]).flatMap Push.plain
  fragments := fragments.length + 1

/-- When a fragment is accepted behind those that wait, with so many messages pending. -/
structure Accepts (maxMessage maxPending pending : Nat) (fragments : List Push) (p : Push) :
    Prop where
  command : ∀ q ∈ fragments, q.frame.command = p.frame.command
  size : (fragments.flatMap Push.plain).length + p.plain.length ≤ maxMessage
  room : fragments ≠ [] ∨ p.frame.isFinal ∨ pending < maxPending

end Buffer

namespace Reassembler

open Buffer

variable {messages : Reassembler} {p : Push} {fragments : List Push}

/-! ## One push -/

theorem insert_erase (pending : AList fun _ : UInt16 => UInt8 × Bytes × Nat) (sequence : UInt16)
    (v : UInt8 × Bytes × Nat) :
    (pending.erase sequence).insert sequence v = pending.insert sequence v := by
  apply AList.ext
  rw [AList.entries_insert, AList.entries_insert]
  have hgone : sequence ∉ (pending.erase sequence).entries.keys :=
    fun h => (AList.mem_erase.mp h).1 rfl
  rw [List.kerase_of_notMem_keys hgone]
  rfl

theorem extendEntry_apply (messages : Reassembler) (p : Push) :
    extendEntry p messages =
      let (command, payload, count) := (messages.pending.lookup p.frame.sequence).getD
        (p.frame.command, [], 0)
      if p.frame.isFinal then
        (.ok (some
          { command, sequence := p.frame.sequence, payload := payload ++ p.plain,
            fragments := count + 1 }),
          { messages with pending := messages.pending.erase p.frame.sequence })
      else
        (.ok none,
          { messages with
            pending := messages.pending.insert p.frame.sequence
              (command, payload ++ p.plain, count + 1) }) := by
  unfold extendEntry
  rw [Act.bind_of_ok (Act.step_apply _ _)]
  dsimp only
  split
  · rfl
  · rw [← insert_erase]
    rfl

/-- In place or not, a push does the same. -/
theorem pushInPlace_eq (messages : Reassembler) (p : Push) :
    pushInPlace p messages = match messages.push p.frame p.plain with
      | .ok (answer, next) => (.ok answer, next)
      | .error e => (.error e, messages) := by
  unfold pushInPlace push
  rw [Act.get_bind]
  cases hcheck : messages.check p.frame p.plain with
  | error e => exact Act.ofExcept_bind_of_error rfl _ _
  | ok u =>
    rw [Act.ofExcept_bind_of_ok rfl, extendEntry_apply]
    simp only [bind, Except.bind]
    split <;> rfl

/-- The checks in terms of the fragments that wait. -/
theorem check_iff (hentry : messages.pending.lookup p.frame.sequence = entry fragments)
    (hsame : ∀ q ∈ fragments, ∀ r ∈ fragments, q.frame.command = r.frame.command) :
    messages.check p.frame p.plain = .ok () ↔
      Accepts messages.maxMessage messages.maxPending messages.pending.entries.length
        fragments p := by
  unfold check
  rw [hentry]
  cases fragments with
  | nil =>
    dsimp only [entry]
    by_cases hsize : messages.maxMessage < p.plain.length
    · rw [if_pos hsize]
      refine ⟨nofun, fun h => absurd h.size ?_⟩
      rw [List.flatMap_nil, List.length_nil, Nat.zero_add]
      exact Nat.not_le.mpr hsize
    rw [if_neg hsize]
    by_cases hroom : (!p.frame.isFinal) ∧ messages.maxPending ≤ messages.pending.entries.length
    · rw [if_pos hroom]
      refine ⟨nofun, fun h => ?_⟩
      rcases h.room with hne | hfinal | hfew
      · exact absurd rfl hne
      · rw [hfinal] at hroom
        exact absurd hroom.1 (by decide)
      · exact absurd hroom.2 (Nat.not_le.mpr hfew)
    · rw [if_neg hroom]
      refine iff_of_true rfl ⟨fun q hq => absurd hq List.not_mem_nil, ?_, ?_⟩
      · rw [List.flatMap_nil, List.length_nil, Nat.zero_add]
        exact Nat.le_of_not_lt hsize
      · rcases Bool.eq_false_or_eq_true p.frame.isFinal with hfinal | hfinal
        · exact .inr (.inl hfinal)
        · rw [hfinal] at hroom
          exact .inr (.inr (Nat.lt_of_not_le fun hfull => hroom ⟨rfl, hfull⟩))
  | cons q fragments =>
    dsimp only [entry]
    by_cases hcommand : q.frame.command ≠ p.frame.command
    · rw [if_pos hcommand]
      exact ⟨nofun, fun h => absurd (h.command q List.mem_cons_self) hcommand⟩
    rw [if_neg hcommand]
    by_cases hsize : messages.maxMessage <
        ((q :: fragments).flatMap Push.plain).length + p.plain.length
    · rw [if_pos hsize]
      exact ⟨nofun, fun h => absurd h.size (Nat.not_le.mpr hsize)⟩
    · rw [if_neg hsize]
      refine iff_of_true rfl ⟨fun r hr => ?_, Nat.le_of_not_lt hsize, .inl (List.cons_ne_nil _ _)⟩
      rw [hsame r hr q List.mem_cons_self]
      exact Decidable.not_not.mp hcommand

/-- The answer to an accepted fragment, and the reassembler behind it. -/
theorem pushInPlace_accepted (hentry : messages.pending.lookup p.frame.sequence = entry fragments)
    (hsame : ∀ q ∈ fragments, ∀ r ∈ fragments, q.frame.command = r.frame.command)
    (h : Accepts messages.maxMessage messages.maxPending messages.pending.entries.length
      fragments p) :
    pushInPlace p messages =
      if p.frame.isFinal then
        (.ok (some (assembled fragments p)),
          { messages with pending := messages.pending.erase p.frame.sequence })
      else
        (.ok none,
          { messages with
            pending := messages.pending.insert p.frame.sequence
              (p.frame.command, (fragments ++ [p]).flatMap Push.plain,
                fragments.length + 1) }) := by
  have hcheck := (check_iff hentry hsame).mpr h
  unfold pushInPlace
  rw [Act.get_bind, Act.ofExcept_bind_of_ok hcheck, extendEntry_apply, hentry]
  cases fragments with
  | nil => simp [entry, assembled]
  | cons q fragments =>
    rw [← h.command q List.mem_cons_self]
    simp [entry, assembled, h.command q List.mem_cons_self]

theorem pushInPlace_rejected (hentry : messages.pending.lookup p.frame.sequence = entry fragments)
    (hsame : ∀ q ∈ fragments, ∀ r ∈ fragments, q.frame.command = r.frame.command)
    (h : ¬Accepts messages.maxMessage messages.maxPending messages.pending.entries.length
      fragments p) : ∃ e, pushInPlace p messages = (.error e, messages) := by
  cases hcheck : messages.check p.frame p.plain with
  | ok u => exact absurd ((check_iff hentry hsame).mp hcheck) h
  | error e =>
    refine ⟨e, ?_⟩
    unfold pushInPlace
    rw [Act.get_bind]
    exact Act.ofExcept_bind_of_error hcheck _ _

/-! ## Runs -/

theorem run_append (messages : Reassembler) (ps : List Push) (p : Push) :
    messages.run (ps ++ [p]) = logPush (messages.run ps) p := List.foldl_concat ..

theorem waiting_append (log : List (Push × Outcome)) (e : Push × Outcome) (sequence : UInt16) :
    waiting (log ++ [e]) sequence = next sequence (waiting log sequence) e := List.foldl_concat ..

/-- A push for another sequence, and one that is rejected, change no buffer. -/
theorem waiting_append_of_ne {log : List (Push × Outcome)} {outcome : Outcome} {sequence : UInt16}
    (h : p.frame.sequence ≠ sequence) :
    waiting (log ++ [(p, outcome)]) sequence = waiting log sequence := by
  rw [waiting_append, next, if_neg h]

theorem waiting_append_error (log : List (Push × Outcome)) (e : ProtocolError)
    (sequence : UInt16) : waiting (log ++ [(p, .error e)]) sequence = waiting log sequence := by
  rw [waiting_append, next]
  split <;> rfl

theorem entry_append (h : ∀ q ∈ fragments, q.frame.command = p.frame.command) :
    entry (fragments ++ [p]) = some (p.frame.command, (fragments ++ [p]).flatMap Push.plain,
      fragments.length + 1) := by
  cases fragments with
  | nil => rfl
  | cons q fragments =>
    rw [← h q List.mem_cons_self]
    simp [entry]

/-- What holds between the log of a run and the reassembler behind it. -/
structure Buffered (maxMessage maxPending : Nat) (log : List (Push × Outcome))
    (messages : Reassembler) : Prop where
  maxMessage_eq : messages.maxMessage = maxMessage
  maxPending_eq : messages.maxPending = maxPending
  entries : ∀ s, messages.pending.lookup s = entry (waiting log s)
  commands : ∀ s, ∀ q ∈ waiting log s, ∀ r ∈ waiting log s, q.frame.command = r.frame.command
  sizes : ∀ s, ((waiting log s).flatMap Push.plain).length ≤ maxMessage
  count : messages.pending.entries.length ≤ maxPending

variable {maxMessage maxPending : Nat} {log : List (Push × Outcome)}

theorem Buffered.new (maxMessage maxPending : Nat) :
    Buffered maxMessage maxPending [] (new maxMessage maxPending) where
  maxMessage_eq := rfl
  maxPending_eq := rfl
  entries _ := rfl
  commands _ _ hq := absurd hq List.not_mem_nil
  sizes _ := Nat.zero_le _
  count := Nat.zero_le _

/-- The next fragment is accepted in this state. -/
abbrev Buffered.Accepts (_ : Buffered maxMessage maxPending log messages) (p : Push) : Prop :=
  Buffer.Accepts maxMessage maxPending messages.pending.entries.length
    (waiting log p.frame.sequence) p

namespace Buffered

theorem accepted (h : Buffered maxMessage maxPending log messages) (haccepts : h.Accepts p) :
    pushInPlace p messages =
      if p.frame.isFinal then
        (.ok (some (assembled (waiting log p.frame.sequence) p)),
          { messages with pending := messages.pending.erase p.frame.sequence })
      else
        (.ok none,
          { messages with
            pending := messages.pending.insert p.frame.sequence
              (p.frame.command, (waiting log p.frame.sequence ++ [p]).flatMap Push.plain,
                (waiting log p.frame.sequence).length + 1) }) := by
  refine pushInPlace_accepted (h.entries _) (h.commands _) ?_
  rw [h.maxMessage_eq, h.maxPending_eq]
  exact haccepts

theorem rejected (h : Buffered maxMessage maxPending log messages) (haccepts : ¬h.Accepts p) :
    ∃ e, pushInPlace p messages = (.error e, messages) := by
  refine pushInPlace_rejected (h.entries _) (h.commands _) ?_
  rw [h.maxMessage_eq, h.maxPending_eq]
  exact haccepts

theorem mem_pending (h : Buffered maxMessage maxPending log messages) (s : UInt16) :
    s ∈ messages.pending ↔ waiting log s ≠ [] := by
  rw [← AList.lookup_isSome, h.entries s]
  cases waiting log s <;> simp [entry]

/-- The last fragment of a message takes the buffer of its sequence away. -/
theorem completes (h : Buffered maxMessage maxPending log messages) (p : Push) (m : Message) :
    Buffered maxMessage maxPending (log ++ [(p, .ok (some m))])
      { messages with pending := messages.pending.erase p.frame.sequence } := by
  have hnext : ∀ s, waiting (log ++ [(p, .ok (some m))]) s =
      if p.frame.sequence = s then [] else waiting log s := fun s => waiting_append ..
  refine ⟨h.maxMessage_eq, h.maxPending_eq, fun s => ?_, fun s => ?_, fun s => ?_, ?_⟩
  · rw [hnext s]
    split
    · rename_i hs
      rw [← hs, AList.lookup_erase]
      rfl
    · rename_i hs
      rw [AList.lookup_erase_ne (Ne.symm hs), h.entries s]
  · rw [hnext s]
    split
    · exact fun q hq => absurd hq List.not_mem_nil
    · exact h.commands s
  · rw [hnext s]
    split
    · exact Nat.zero_le _
    · exact h.sizes s
  · have hlength : (messages.pending.erase p.frame.sequence).entries.length ≤
        messages.pending.entries.length := (List.kerase_sublist _ _).length_le
    exact Nat.le_trans hlength h.count

/-- Any other fragment joins the buffer of its sequence. -/
theorem joins (h : Buffered maxMessage maxPending log messages) (haccepts : h.Accepts p)
    (hfinal : p.frame.isFinal = false) :
    Buffered maxMessage maxPending (log ++ [(p, .ok none)])
      { messages with
        pending := messages.pending.insert p.frame.sequence
          (p.frame.command, (waiting log p.frame.sequence ++ [p]).flatMap Push.plain,
            (waiting log p.frame.sequence).length + 1) } := by
  have hnext : ∀ s, waiting (log ++ [(p, .ok none)]) s =
      if p.frame.sequence = s then waiting log s ++ [p] else waiting log s :=
    fun s => waiting_append ..
  refine ⟨h.maxMessage_eq, h.maxPending_eq, fun s => ?_, fun s => ?_, fun s => ?_, ?_⟩
  · rw [hnext s]
    split
    · rename_i hs
      rw [← hs, AList.lookup_insert, entry_append haccepts.command]
    · rename_i hs
      rw [AList.lookup_insert_ne (Ne.symm hs), h.entries s]
  · rw [hnext s]
    split
    · rename_i hs
      have hcommand : ∀ q ∈ waiting log s ++ [p], q.frame.command = p.frame.command := by
        intro q hq
        rcases List.mem_append.mp hq with hq | hq
        · exact haccepts.command q (hs ▸ hq)
        · rw [List.mem_singleton.mp hq]
      exact fun q hq r hr => (hcommand q hq).trans (hcommand r hr).symm
    · exact h.commands s
  · rw [hnext s]
    split
    · rename_i hs
      rw [List.flatMap_append, List.flatMap_singleton, List.length_append, ← hs]
      exact haccepts.size
    · exact h.sizes s
  · have hkeys : ∀ l : AList fun _ : UInt16 => UInt8 × Bytes × Nat,
        l.entries.length = l.keys.length := fun l => (List.length_map _).symm
    rw [hkeys, AList.keys_insert, List.length_cons, List.length_erase]
    have hcount := h.count
    rw [hkeys] at hcount
    split
    · rename_i hmem
      have hpos := List.length_pos_of_mem hmem
      omega
    · rename_i hmem
      have hroom : messages.pending.entries.length < maxPending := by
        rcases haccepts.room with hne | htrue | hroom
        · exact absurd (AList.mem_keys.mp ((h.mem_pending _).mpr hne)) hmem
        · rw [hfinal] at htrue
          cases htrue
        · exact hroom
      rw [hkeys] at hroom
      exact hroom

/-- A push keeps the reassembler and its log together. -/
theorem push (h : Buffered maxMessage maxPending log messages) (p : Push) :
    Buffered maxMessage maxPending (log ++ [(p, (pushInPlace p messages).1)])
      (pushInPlace p messages).2 := by
  by_cases haccepts : h.Accepts p
  · rw [h.accepted haccepts]
    cases hfinal : p.frame.isFinal with
    | true => exact h.completes p _
    | false => exact h.joins haccepts hfinal
  · obtain ⟨e, hrejected⟩ := h.rejected haccepts
    rw [hrejected]
    refine ⟨h.maxMessage_eq, h.maxPending_eq, ?_, ?_, ?_, h.count⟩
    all_goals simp only [waiting_append_error]
    · exact h.entries
    · exact h.commands
    · exact h.sizes

theorem run (maxMessage maxPending : Nat) (ps : List Push) :
    Buffered maxMessage maxPending ((Reassembler.new maxMessage maxPending).run ps).1
      ((Reassembler.new maxMessage maxPending).run ps).2 := by
  induction ps using List.reverseRecOn with
  | nil => exact Buffered.new maxMessage maxPending
  | append_singleton ps p ih =>
    rw [run_append]
    exact ih.push p

end Buffered

/-! ## The refinement -/

/-- What the reassembler behind a run does with the next fragment, in terms of the
buffers of its sequences. -/
structure Refines (maxMessage maxPending : Nat) (log : List (Push × Outcome))
    (messages : Reassembler) : Prop where
  pending : ∀ s, s ∈ messages.pending ↔ waiting log s ≠ []
  accepted_iff : ∀ p, (∃ answer, (pushInPlace p messages).1 = .ok answer) ↔
    Accepts maxMessage maxPending messages.pending.entries.length
      (waiting log p.frame.sequence) p
  answer : ∀ p answer, (pushInPlace p messages).1 = .ok answer →
    answer = if p.frame.isFinal then some (assembled (waiting log p.frame.sequence) p) else none
  removed : ∀ p answer, (pushInPlace p messages).1 = .ok answer → p.frame.isFinal →
    p.frame.sequence ∉ (pushInPlace p messages).2.pending
  rejected : ∀ p e, (pushInPlace p messages).1 = .error e → (pushInPlace p messages).2 = messages
  others : ∀ p s, s ≠ p.frame.sequence →
    (pushInPlace p messages).2.pending.lookup s = messages.pending.lookup s
  count : messages.pending.entries.length ≤ maxPending
  sizes : ∀ s command payload n, messages.pending.lookup s = some (command, payload, n) →
    payload.length ≤ maxMessage

theorem Buffered.refines (h : Buffered maxMessage maxPending log messages) :
    Refines maxMessage maxPending log messages where
  pending := h.mem_pending
  accepted_iff p := by
    constructor
    · rintro ⟨answer, hanswer⟩
      by_contra hno
      obtain ⟨e, hrejected⟩ := h.rejected hno
      rw [hrejected] at hanswer
      cases hanswer
    · intro haccepts
      rw [h.accepted haccepts]
      split <;> exact ⟨_, rfl⟩
  answer p answer hanswer := by
    by_cases haccepts : h.Accepts p
    · rw [h.accepted haccepts] at hanswer
      split at hanswer <;> rename_i hfinal <;> cases hanswer
      · rw [if_pos hfinal]
      · rw [if_neg hfinal]
    · obtain ⟨e, hrejected⟩ := h.rejected haccepts
      rw [hrejected] at hanswer
      cases hanswer
  removed p answer hanswer hfinal := by
    have hkept := h.push p
    have hnone : waiting (log ++ [(p, (pushInPlace p messages).1)]) p.frame.sequence = [] := by
      by_cases haccepts : h.Accepts p
      · rw [h.accepted haccepts, if_pos hfinal, waiting_append, next, if_pos rfl]
      · obtain ⟨e, hrejected⟩ := h.rejected haccepts
        rw [hrejected] at hanswer
        cases hanswer
    rw [hkept.mem_pending, hnone]
    exact not_not_intro rfl
  rejected p e herror := by
    by_cases haccepts : h.Accepts p
    · rw [h.accepted haccepts] at herror
      split at herror <;> cases herror
    · obtain ⟨e', hrejected⟩ := h.rejected haccepts
      rw [hrejected]
  others p s hs := by
    rw [(h.push p).entries s, waiting_append_of_ne (Ne.symm hs), h.entries s]
  count := h.count
  sizes s command payload n hlookup := by
    rw [h.entries s] at hlookup
    have hsize := h.sizes s
    cases hfragments : waiting log s with
    | nil =>
      rw [hfragments] at hlookup
      cases hlookup
    | cons q fragments =>
      rw [hfragments] at hlookup hsize
      cases hlookup
      exact hsize

/-- The accepted pushes of a sequence, with their outcomes. -/
def ofSequence (log : List (Push × Outcome)) (sequence : UInt16) : List (Push × Outcome) :=
  log.filter fun e => e.1.frame.sequence = sequence ∧ e.2.isOk

theorem ofSequence_append (log : List (Push × Outcome)) (e : Push × Outcome)
    (sequence : UInt16) : ofSequence (log ++ [e]) sequence = ofSequence log sequence ++
      if e.1.frame.sequence = sequence ∧ e.2.isOk then [e] else [] := by
  rw [ofSequence, List.filter_append, ← ofSequence, List.filter_singleton]
  simp

/-- The accepted pushes of a sequence fill its buffer, and no other one. -/
theorem waiting_ofSequence (log : List (Push × Outcome)) (sequence s : UInt16) :
    waiting (ofSequence log sequence) s = if s = sequence then waiting log sequence else [] := by
  induction log using List.reverseRecOn with
  | nil => split <;> rfl
  | append_singleton log e ih =>
    obtain ⟨p, outcome⟩ := e
    rw [ofSequence_append]
    by_cases hkept : p.frame.sequence = sequence ∧ outcome.isOk
    · rw [if_pos hkept, waiting_append, ih, waiting_append]
      split
      · rename_i hs
        rw [hs]
      · rename_i hs
        rw [next, if_neg fun h => hs (h.symm.trans hkept.1)]
    · rw [if_neg hkept, List.append_nil, ih]
      have hsame : waiting (log ++ [(p, outcome)]) sequence = waiting log sequence := by
        by_cases hsequence : p.frame.sequence = sequence
        · cases outcome with
          | ok answer => exact absurd ⟨hsequence, rfl⟩ hkept
          | error e => exact waiting_append_error log e sequence
        · exact waiting_append_of_ne hsequence
      rw [hsame]

/-- An accepted push is accepted when its sequence is alone, with the same answer. -/
theorem Buffered.alone {sequence : UInt16} {alone : Reassembler}
    (h : Buffered maxMessage maxPending log messages)
    (halone : Buffered maxMessage maxPending (ofSequence log sequence) alone)
    (hsequence : p.frame.sequence = sequence) (haccepts : h.Accepts p) :
    (pushInPlace p alone).1 = (pushInPlace p messages).1 := by
  have hwaiting : waiting (ofSequence log sequence) p.frame.sequence =
      waiting log p.frame.sequence := by
    rw [waiting_ofSequence, if_pos hsequence, hsequence]
  have haccepts' : halone.Accepts p := by
    refine ⟨?_, ?_, ?_⟩
    · rw [hwaiting]
      exact haccepts.command
    · rw [hwaiting]
      exact haccepts.size
    · rw [hwaiting]
      by_cases hnil : waiting log p.frame.sequence = []
      · -- No other message is pending.
        have hkeys : alone.pending.keys = [] := by
          refine List.eq_nil_iff_forall_not_mem.mpr fun s hs => ?_
          have hne := (halone.mem_pending s).mp (AList.mem_keys.mpr hs)
          rw [waiting_ofSequence] at hne
          split at hne
          · exact hne (hsequence ▸ hnil)
          · exact hne rfl
        have hempty : alone.pending.entries.length = 0 :=
          (List.length_map _).symm.trans (congrArg List.length hkeys)
        refine haccepts.room.imp_right fun hroom => hroom.imp_right fun hroom => ?_
        omega
      · exact .inl hnil
  rw [halone.accepted haccepts', h.accepted haccepts, hwaiting]
  split <;> rfl

/-- A sequence alone gives what it gives among the others. -/
theorem run_ofSequence (maxMessage maxPending : Nat) (ps : List Push) (sequence : UInt16) :
    ((new maxMessage maxPending).run
      ((ofSequence ((new maxMessage maxPending).run ps).1 sequence).map Prod.fst)).1 =
        ofSequence ((new maxMessage maxPending).run ps).1 sequence := by
  induction ps using List.reverseRecOn with
  | nil => rfl
  | append_singleton ps p ih =>
    have h := Buffered.run maxMessage maxPending ps
    rw [run_append, logPush, ofSequence_append]
    by_cases hkept : p.frame.sequence = sequence ∧
        (pushInPlace p ((new maxMessage maxPending).run ps).2).1.isOk
    · rw [if_pos hkept, List.map_append, List.map_singleton, run_append, logPush]
      have halone := Buffered.run maxMessage maxPending
        ((ofSequence ((new maxMessage maxPending).run ps).1 sequence).map Prod.fst)
      have haccepts : h.Accepts p := by
        by_contra hno
        obtain ⟨e, hrejected⟩ := h.rejected hno
        rw [hrejected] at hkept
        cases hkept.2
      rw [ih] at halone ⊢
      rw [h.alone halone hkept.1 haccepts]
    · rw [if_neg hkept, List.append_nil]
      exact ih

/-- In every run the reassembler does what the buffers of its sequences do, whatever
was rejected before.  And what a sequence yields does not depend on the others: its
accepted pushes give the same outcomes when nothing else is pushed. -/
theorem run_refines (maxMessage maxPending : Nat) (ps : List Push) :
    Refines maxMessage maxPending ((new maxMessage maxPending).run ps).1
      ((new maxMessage maxPending).run ps).2 ∧
    ∀ sequence, ((new maxMessage maxPending).run
      ((ofSequence ((new maxMessage maxPending).run ps).1 sequence).map Prod.fst)).1 =
        ofSequence ((new maxMessage maxPending).run ps).1 sequence :=
  ⟨(Buffered.run maxMessage maxPending ps).refines, run_ofSequence maxMessage maxPending ps⟩

end Reassembler

end Mt5Open.Native

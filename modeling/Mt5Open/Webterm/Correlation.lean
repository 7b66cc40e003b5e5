import Mt5Open.Webterm.Request

/-!
# When an answer reaches the request it was produced for

The reader finds a waiter by the command id of the answer, so a waiter that is
inserted while an earlier command of the same id is still on its way takes the
answer of that command.  `Quiet` says that an insertion finds no such command,
and `correlated_of_quiet` shows that the runs whose insertions are all quiet
deliver every answer to the request it was produced for.

The invariant ties each command on its way to the waiter that its answer will
find.  `Flight` is the part of it that holds while the reader is running, and
`Inv` adds what stays true after the socket has closed.
-/

namespace Mt5Open.Webterm.Request

open Lib Lib.Run

/-- The commands and the answers that the reader has still to see. -/
def State.inFlight (s : State) : List Packet := s.inbound ++ s.outbound

/-- A command with this id is on its way, or its answer is. -/
def State.Expects (s : State) (cmd : UInt16) : Prop :=
  ∃ packet ∈ s.inFlight, cmdIdOf packet.bytes = cmd

/-- A call has inserted its waiter for this id and has yet to send the command. -/
def State.Announced (s : State) (cmd : UInt16) : Prop :=
  ∃ call ∈ s.calls, call.phase = .inserted ∧ call.cmd = cmd

/-- Nothing that an answer of this id could still be produced for. -/
def State.Quiet (s : State) (cmd : UInt16) : Prop :=
  ¬ s.Expects cmd ∧ (s.writerAlive = true → ¬ s.Announced cmd)

/-- A waiter is only inserted when the reader has stopped or the id is quiet. -/
def Guard (s : State) : Label → Prop
  | .insert i => ∀ call ∈ s.calls[i]?, s.closed = false → s.Quiet call.cmd
  | _ => True

instance (s : State) (cmd : UInt16) : Decidable (s.Quiet cmd) :=
  inferInstanceAs (Decidable (¬ (∃ packet ∈ s.inFlight, _) ∧ (_ → ¬ ∃ call ∈ s.calls, _)))

instance (s : State) (label : Label) : Decidable (Guard s label) := by
  cases label <;> dsimp only [Guard] <;> infer_instance

/-- What every caller sees: an `Ok` carries the answer to this very call, and
the reader throws away answers to calls that have timed out only. -/
structure Correlated (s : State) : Prop where
  answered : ∀ (i : Nat) (call : Call) (answer : Delivered), s.calls[i]? = some call →
    call.phase = .finished (.ok answer) → answer.request = i
  kept : ∀ answer ∈ s.discarded, ∃ call : Call,
    s.calls[answer.request]? = some call ∧ call.phase = .finished (.error .timeout)

/-! ## The invariant -/

/-- The call that a packet was sent for, seen from the packet. -/
structure Awaited (s : State) (packet : Packet) (call : Call) : Prop where
  call_eq : s.calls[packet.request]? = some call
  cmd_eq : cmdIdOf packet.bytes = call.cmd
  waiter : s.pending.lookup call.cmd = some packet.request
  phase : (call.phase = .waiting ∧ call.rx = .empty) ∨ call.phase = .finished (.error .timeout)

/-- What holds while the reader is running. -/
structure Flight (s : State) : Prop where
  awaited : ∀ packet ∈ s.inFlight, ∃ call, Awaited s packet call
  distinct : (s.inFlight.map fun packet => cmdIdOf packet.bytes).Nodup
  announced : s.writerAlive = true → ∀ (i : Nat) (call : Call), s.calls[i]? = some call →
    call.phase = .inserted →
      call.rx = .empty ∧ s.pending.lookup call.cmd = some i ∧ ¬ s.Expects call.cmd
  commands : ∀ packet ∈ s.outbound, 4 ≤ packet.bytes.length
  frames : ∀ packet ∈ s.inbound, 5 ≤ packet.bytes.length

/-- The invariant of the runs whose insertions are quiet. -/
structure Inv (s : State) : Prop extends Correlated s where
  slot : ∀ (i : Nat) (call : Call) (answer : Delivered), s.calls[i]? = some call →
    call.rx = .sent answer → answer.request = i
  owner : ∀ (cmd : UInt16) (j : Nat), s.pending.lookup cmd = some j →
    ∃ call : Call, s.calls[j]? = some call ∧ call.cmd = cmd
  flight : s.closed = false → Flight s

theorem inv_init : Inv .init where
  answered := by simp [State.init]
  kept := by simp [State.init]
  slot := by simp [State.init]
  owner := by simp [State.init]
  flight := by
    intro _
    constructor <;> simp [State.init, State.inFlight]

/-! ## Steps that change one call -/

theorem modifyCall_getElem? (s : State) (i k : Nat) (f : Call → Call) :
    (s.modifyCall i f).calls[k]? = if i = k then s.calls[k]?.map f else s.calls[k]? := by
  rw [State.modifyCall, List.getElem?_modify]
  split <;> simp

theorem modifyCall_getElem?_eq_some {s : State} {i k : Nat} {f : Call → Call} {new : Call} :
    (s.modifyCall i f).calls[k]? = some new ↔
      ∃ old, s.calls[k]? = some old ∧ new = if i = k then f old else old := by
  rw [modifyCall_getElem?]
  grind

@[simp] theorem modifyCall_inFlight (s : State) (i : Nat) (f : Call → Call) :
    (s.modifyCall i f).inFlight = s.inFlight := rfl

/-- A change of call `i` that no other call and no packet can tell. -/
structure Settles (i : Nat) (call call' : Call) : Prop where
  cmd_eq : call'.cmd = call.cmd
  slot : ∀ answer, call'.rx = .sent answer → answer.request = i
  answered : ∀ answer, call'.phase = .finished (.ok answer) → answer.request = i
  timedOut : call.phase = .finished (.error .timeout) → call'.phase = .finished (.error .timeout)
  waiting : call.phase = .waiting → call.rx = .empty → call'.phase = .finished (.error .timeout)
  announced : call'.phase ≠ .inserted

theorem Inv.modifyCall {s : State} {i : Nat} {f : Call → Call} (hinv : Inv s)
    (hf : ∀ call, s.calls[i]? = some call → Settles i call (f call)) :
    Inv (s.modifyCall i f) where
  answered := by
    intro k call answer hcall hphase
    rw [modifyCall_getElem?] at hcall
    split at hcall
    · rename_i hik
      obtain ⟨old, hold, rfl⟩ := Option.map_eq_some_iff.mp hcall
      subst hik
      exact (hf old hold).answered answer hphase
    · exact hinv.answered k call answer hcall hphase
  kept := by
    intro answer hanswer
    obtain ⟨call, hcall, hphase⟩ := hinv.kept answer hanswer
    rw [modifyCall_getElem?]
    split
    · rename_i hik
      subst hik
      exact ⟨f call, by rw [hcall]; rfl, (hf call hcall).timedOut hphase⟩
    · exact ⟨call, hcall, hphase⟩
  slot := by
    intro k call answer hcall hrx
    rw [modifyCall_getElem?] at hcall
    split at hcall
    · rename_i hik
      obtain ⟨old, hold, rfl⟩ := Option.map_eq_some_iff.mp hcall
      subst hik
      exact (hf old hold).slot answer hrx
    · exact hinv.slot k call answer hcall hrx
  owner := by
    intro cmd j hlookup
    obtain ⟨call, hcall, hcmd⟩ := hinv.owner cmd j hlookup
    rw [modifyCall_getElem?]
    split
    · rename_i hij
      subst hij
      exact ⟨f call, by rw [hcall]; rfl, (hf call hcall).cmd_eq.trans hcmd⟩
    · exact ⟨call, hcall, hcmd⟩
  flight := by
    intro hopen
    obtain ⟨hawaited, hdistinct, hannounced, hcommands, hframes⟩ := hinv.flight hopen
    refine ⟨?_, hdistinct, ?_, hcommands, hframes⟩
    · intro packet hpacket
      obtain ⟨call, hcall, hcmd, hwaiter, hphase⟩ := hawaited packet hpacket
      by_cases hi : i = packet.request
      · subst hi
        have hsettles := hf call hcall
        refine ⟨f call, ?_, ?_, ?_, Or.inr ?_⟩
        · rw [modifyCall_getElem?, if_pos rfl, hcall]
          rfl
        · rw [hcmd, hsettles.cmd_eq]
        · rw [hsettles.cmd_eq]
          exact hwaiter
        · rcases hphase with ⟨hwaiting, hrx⟩ | htimeout
          · exact hsettles.waiting hwaiting hrx
          · exact hsettles.timedOut htimeout
      · refine ⟨call, ?_, hcmd, hwaiter, hphase⟩
        rw [modifyCall_getElem?, if_neg hi]
        exact hcall
    · intro halive k call hcall hphase
      rw [modifyCall_getElem?] at hcall
      split at hcall
      · rename_i hik
        obtain ⟨old, hold, rfl⟩ := Option.map_eq_some_iff.mp hcall
        subst hik
        exact absurd hphase (hf old hold).announced
      · exact hannounced halive k call hcall hphase

/-! ## The caller's steps -/

theorem Inv.request {s : State} (hinv : Inv s) (cmd : UInt16) (payload : Bytes) :
    Inv (s.request cmd payload) := by
  obtain ⟨⟨hanswered, hkept⟩, hslot, howner, hflight⟩ := hinv
  refine ⟨⟨?_, ?_⟩, ?_, ?_, ?_⟩
  · grind [State.request]
  · grind [State.request]
  · grind [State.request]
  · grind [State.request]
  · intro hopen
    obtain ⟨hawaited, hdistinct, hannounced, hcommands, hframes⟩ := hflight hopen
    refine ⟨?_, hdistinct, ?_, hcommands, hframes⟩
    · intro packet hpacket
      obtain ⟨call, hcall, hcmd, hwaiter, hphase⟩ := hawaited packet hpacket
      exact ⟨call, by grind [State.request], hcmd, hwaiter, hphase⟩
    · grind [State.request, State.Expects, State.inFlight]

/-- The calls after an insertion: call `i` has a new waiter, and a waiter that
it replaces is dropped. -/
theorem insert_getElem?_eq_some {s : State} {i k : Nat} {call new : Call} :
    (s.insert i call).calls[k]? = some new ↔ ∃ old, s.calls[k]? = some old ∧
      new = if i = k then { old with phase := .inserted, rx := .empty }
        else if s.pending.lookup call.cmd = some k then { old with rx := .dropped } else old := by
  rw [State.insert]
  cases hlookup : s.pending.lookup call.cmd with
  | none =>
    simp only [modifyCall_getElem?]
    grind
  | some j =>
    simp only [State.dropWaiter, modifyCall_getElem?]
    grind

@[simp] theorem insert_pending (s : State) (i : Nat) (call : Call) :
    (s.insert i call).pending = s.pending.insert call.cmd i := by
  rw [State.insert]
  split <;> rfl

/-- Insertion changes the calls and `pending` only. -/
theorem insert_frame (s : State) (i : Nat) (call : Call) :
    (s.insert i call).inFlight = s.inFlight ∧ (s.insert i call).outbound = s.outbound ∧
      (s.insert i call).inbound = s.inbound ∧
      (s.insert i call).discarded = s.discarded ∧ (s.insert i call).closed = s.closed ∧
      (s.insert i call).writerAlive = s.writerAlive := by
  rw [State.insert]
  split <;> exact ⟨rfl, rfl, rfl, rfl, rfl, rfl⟩

theorem Inv.insert {s : State} {i : Nat} {call : Call} (hinv : Inv s)
    (hcall : s.calls[i]? = some call) (hquiet : s.closed = false → s.Quiet call.cmd)
    (hphase : call.phase = .checked) :
    Inv (s.insert i call) := by
  obtain ⟨⟨hanswered, hkept⟩, hslot, howner, hflight⟩ := hinv
  obtain ⟨hinFlight, houtbound, hinbound, hdiscarded, hclosed, halive⟩ := insert_frame s i call
  refine ⟨⟨?_, ?_⟩, ?_, ?_, ?_⟩
  · intro k new answer hnew
    obtain ⟨old, hold, rfl⟩ := insert_getElem?_eq_some.mp hnew
    grind
  · intro answer hanswer
    rw [hdiscarded] at hanswer
    obtain ⟨old, hold, htimeout⟩ := hkept answer hanswer
    refine ⟨_, insert_getElem?_eq_some.mpr ⟨old, hold, rfl⟩, ?_⟩
    grind
  · intro k new answer hnew
    obtain ⟨old, hold, rfl⟩ := insert_getElem?_eq_some.mp hnew
    grind
  · intro cmd j hlookup
    rw [insert_pending] at hlookup
    have hold : ∃ old : Call, s.calls[j]? = some old ∧ old.cmd = cmd := by
      by_cases hcmd : cmd = call.cmd
      · subst hcmd
        rw [AList.lookup_insert] at hlookup
        exact ⟨call, Option.some.inj hlookup ▸ hcall, rfl⟩
      · rw [AList.lookup_insert_ne hcmd] at hlookup
        exact howner cmd j hlookup
    obtain ⟨old, hold, hcmd⟩ := hold
    refine ⟨_, insert_getElem?_eq_some.mpr ⟨old, hold, rfl⟩, ?_⟩
    grind
  · intro hopen
    rw [hclosed] at hopen
    obtain ⟨hawaited, hdistinct, hannounced, hcommands, hframes⟩ := hflight hopen
    obtain ⟨hexpects, hnone⟩ := hquiet hopen
    refine ⟨?_, by rwa [hinFlight], ?_, by rwa [houtbound], by rwa [hinbound]⟩
    · intro packet hpacket
      rw [hinFlight] at hpacket
      obtain ⟨old, hold, hcmd, hwaiter, hphase⟩ := hawaited packet hpacket
      -- The id of the packet is not the one inserted, so its waiter stays.
      have hne : old.cmd ≠ call.cmd := fun h => hexpects ⟨packet, hpacket, hcmd.trans h⟩
      refine ⟨old, insert_getElem?_eq_some.mpr ⟨old, hold, ?_⟩, hcmd, ?_, hphase⟩
      · grind
      · rw [insert_pending, AList.lookup_insert_ne hne]
        exact hwaiter
    · intro hwriter k new hnew hinserted
      rw [halive] at hwriter
      obtain ⟨old, hold, rfl⟩ := insert_getElem?_eq_some.mp hnew
      rw [insert_pending]
      by_cases hik : i = k
      · subst hik
        obtain rfl : call = old := by grind
        rw [if_pos rfl]
        refine ⟨rfl, AList.lookup_insert _, ?_⟩
        simpa only [State.Expects, hinFlight] using hexpects
      · -- Another call that has announced a command has announced another id.
        have hne : old.cmd ≠ call.cmd := by
          intro h
          exact hnone hwriter ⟨old, List.mem_of_getElem? hold, by grind, h⟩
        have hkeep : s.pending.lookup call.cmd ≠ some k := by grind
        rw [if_neg hik, if_neg hkeep] at hinserted ⊢
        obtain ⟨hrx, hlookup, hfree⟩ := hannounced hwriter k old hold hinserted
        refine ⟨hrx, ?_, by simpa only [State.Expects, hinFlight] using hfree⟩
        rw [AList.lookup_insert_ne hne]
        exact hlookup

/-- A command is handed to the writer: it is on its way, and its call waits. -/
theorem Inv.send {s : State} {i : Nat} {call : Call} {bytes : Bytes} (hinv : Inv s)
    (hcall : s.calls[i]? = some call) (hphase : call.phase = .inserted)
    (halive : s.writerAlive = true) (hcmdId : cmdIdOf bytes = call.cmd)
    (hlength : 4 ≤ bytes.length) :
    Inv (s.send i bytes) := by
  obtain ⟨⟨hanswered, hkept⟩, hslot, howner, hflight⟩ := hinv
  have hget : ∀ k, (s.send i bytes).calls[k]? =
      if i = k then s.calls[k]?.map fun call => { call with phase := .waiting }
      else s.calls[k]? := by
    intro k
    exact modifyCall_getElem? s i k _
  have hinFlight : (s.send i bytes).inFlight = s.inFlight ++ [⟨i, bytes⟩] :=
    (List.append_assoc _ _ _).symm
  refine ⟨⟨?_, ?_⟩, ?_, ?_, ?_⟩
  · simp only [hget]
    grind
  · intro answer hanswer
    obtain ⟨old, hold, htimeout⟩ := hkept answer hanswer
    refine ⟨old, ?_, htimeout⟩
    simp only [hget]
    grind
  · simp only [hget]
    grind
  · simp only [hget]
    intro cmd j hlookup
    obtain ⟨old, hold, hcmd⟩ := howner cmd j hlookup
    grind
  · intro hopen
    obtain ⟨hawaited, hdistinct, hannounced, hcommands, hframes⟩ := hflight hopen
    obtain ⟨hrx, hlookup, hfree⟩ := hannounced halive i call hcall hphase
    refine ⟨?_, ?_, ?_, ?_, hframes⟩
    · intro packet hpacket
      rw [hinFlight, List.mem_append, List.mem_singleton] at hpacket
      rcases hpacket with hpacket | rfl
      · obtain ⟨old, hold, hcmd, hwaiter, hstate⟩ := hawaited packet hpacket
        refine ⟨old, ⟨?_, hcmd, hwaiter, hstate⟩⟩
        rw [hget]
        grind
      · refine ⟨{ call with phase := .waiting }, ⟨?_, hcmdId, hlookup, Or.inl ⟨rfl, hrx⟩⟩⟩
        rw [hget]
        grind
    · have hnew : ∀ packet ∈ s.inFlight, cmdIdOf packet.bytes ≠ call.cmd :=
        fun packet hpacket hcmd => hfree ⟨packet, hpacket, hcmd⟩
      rw [hinFlight, List.map_append, List.nodup_append]
      refine ⟨hdistinct, by simp, ?_⟩
      simpa [hcmdId] using hnew
    · intro _ k old hold hinserted
      rw [hget] at hold
      have hik : i ≠ k := by grind
      rw [if_neg hik] at hold
      obtain ⟨hkrx, hklookup, hkfree⟩ := hannounced halive k old hold hinserted
      refine ⟨hkrx, hklookup, ?_⟩
      rintro ⟨packet, hpacket, hcmd⟩
      rw [hinFlight, List.mem_append, List.mem_singleton] at hpacket
      rcases hpacket with hpacket | rfl
      · exact hkfree ⟨packet, hpacket, hcmd⟩
      · -- Two calls that have announced the same id would share one waiter.
        have hsame : old.cmd = call.cmd := hcmd.symm.trans hcmdId
        rw [hsame] at hklookup
        exact hik (Option.some.inj (hlookup.symm.trans hklookup))
    · intro packet hpacket
      rcases List.mem_append.mp hpacket with hpacket | hpacket
      · exact hcommands packet hpacket
      · rw [List.mem_singleton.mp hpacket]
        exact hlength

/-! ## The server and the reader -/

/-- An answer carries the id of the command that it answers. -/
theorem cmdIdOf_answer {bytes : Bytes} (h : 4 ≤ bytes.length) (tag : UInt16) (rest : Bytes) :
    cmdIdOf (LittleEndian.encode 2 tag.toNat ++ slice bytes 2 2 ++ rest) = cmdIdOf bytes := by
  have hlength : (slice bytes 2 2).length = 2 := length_slice (by omega)
  have hslice : slice (LittleEndian.encode 2 tag.toNat ++ slice bytes 2 2 ++ rest) 2 2 =
      slice bytes 2 2 := by
    rw [List.append_assoc, slice, List.drop_left' (LittleEndian.length_encode 2 _),
      List.take_left' hlength]
  rw [cmdIdOf, hslice, cmdIdOf]

theorem Inv.answer {s : State} {packet : Packet} {rest : List Packet} (hinv : Inv s)
    (houtbound : s.outbound = packet :: rest) (tag : UInt16) (resCode : UInt8) (body : Bytes) :
    Inv (s.answer packet rest tag resCode body) := by
  obtain ⟨⟨hanswered, hkept⟩, hslot, howner, hflight⟩ := hinv
  refine ⟨⟨hanswered, hkept⟩, hslot, howner, ?_⟩
  intro hopen
  obtain ⟨hawaited, hdistinct, hannounced, hcommands, hframes⟩ := hflight hopen
  have hold : s.inFlight = s.inbound ++ packet :: rest := by rw [State.inFlight, houtbound]
  have hlength : 4 ≤ packet.bytes.length := hcommands packet (by simp [houtbound])
  -- The answer stands where the command stood, under the same id.
  obtain ⟨reply, hnew, hrequest, hid, hreply⟩ : ∃ reply : Packet,
      (s.answer packet rest tag resCode body).inFlight = s.inbound ++ reply :: rest ∧
        reply.request = packet.request ∧ cmdIdOf reply.bytes = cmdIdOf packet.bytes ∧
        (s.answer packet rest tag resCode body).inbound = s.inbound ++ [reply] ∧
        5 ≤ reply.bytes.length := by
    refine ⟨_, List.append_assoc _ _ _, rfl, cmdIdOf_answer hlength tag _, rfl, ?_⟩
    simp [@length_slice packet.bytes 2 2 (by omega)]
    omega
  have hids : (s.answer packet rest tag resCode body).inFlight.map
      (fun packet => cmdIdOf packet.bytes) =
        s.inFlight.map fun packet => cmdIdOf packet.bytes := by
    rw [hnew, hold]
    simp [hid]
  refine ⟨?_, by rwa [hids], ?_, ?_, ?_⟩
  · intro other hother
    rw [hnew, List.mem_append, List.mem_cons] at hother
    by_cases hreplied : other = reply
    · subst hreplied
      obtain ⟨call, hcall, hcmd, hwaiter, hphase⟩ := hawaited packet (by simp [hold])
      rw [← hrequest] at hcall hwaiter
      exact ⟨call, hcall, hid.trans hcmd, hwaiter, hphase⟩
    · obtain ⟨call, hcall, hcmd, hwaiter, hphase⟩ := hawaited other (by grind)
      exact ⟨call, hcall, hcmd, hwaiter, hphase⟩
  · intro halive i call hcall hphase
    obtain ⟨hrx, hlookup, hfree⟩ := hannounced halive i call hcall hphase
    refine ⟨hrx, hlookup, ?_⟩
    have hmem : ∀ t : State, t.Expects call.cmd ↔
        call.cmd ∈ t.inFlight.map fun packet => cmdIdOf packet.bytes := by
      simp [State.Expects]
    rwa [hmem, hids, ← hmem]
  · intro other hother
    exact hcommands other (by rw [houtbound]; exact List.mem_cons_of_mem _ hother)
  · intro other hother
    rw [hreply.1, List.mem_append, List.mem_singleton] at hother
    rcases hother with hother | rfl
    · exact hframes other hother
    · exact hreply.2

/-- The reader takes one answer and removes its waiter.  The calls of other ids
are as they were, and no call has announced the id of the answer. -/
theorem Flight.next {s t : State} {packet : Packet} {rest : List Packet} (hflight : Flight s)
    (hinbound : s.inbound = packet :: rest) (hrest : t.inbound = rest)
    (houtbound : t.outbound = s.outbound) (halive : t.writerAlive = s.writerAlive)
    (hpending : t.pending = s.pending.erase (cmdIdOf packet.bytes))
    (hothers : ∀ (k : Nat) (call : Call), s.calls[k]? = some call →
      call.cmd ≠ cmdIdOf packet.bytes → t.calls[k]? = some call)
    (hinserted : ∀ (k : Nat) (call : Call), t.calls[k]? = some call → call.phase = .inserted →
      s.calls[k]? = some call) :
    Flight t := by
  obtain ⟨hawaited, hdistinct, hannounced, hcommands, hframes⟩ := hflight
  have hold : s.inFlight = packet :: t.inFlight := by
    rw [State.inFlight, hinbound, State.inFlight, hrest, houtbound, List.cons_append]
  rw [hold, List.map_cons, List.nodup_cons] at hdistinct
  have hlookup : ∀ cmd, cmd ≠ cmdIdOf packet.bytes →
      t.pending.lookup cmd = s.pending.lookup cmd := by
    intro cmd hne
    rw [hpending, AList.lookup_erase_ne hne]
  refine ⟨?_, hdistinct.2, ?_, by rwa [houtbound], ?_⟩
  · intro other hother
    obtain ⟨call, hcall, hcmd, hwaiter, hphase⟩ :=
      hawaited other (by rw [hold]; exact List.mem_cons_of_mem _ hother)
    have hne : call.cmd ≠ cmdIdOf packet.bytes := by
      intro heq
      exact hdistinct.1 (List.mem_map.mpr ⟨other, hother, hcmd.trans heq⟩)
    refine ⟨call, hothers _ call hcall hne, hcmd, ?_, hphase⟩
    rw [hlookup call.cmd hne]
    exact hwaiter
  · intro hwriter k call hcall hphase
    rw [halive] at hwriter
    obtain ⟨hrx, hwaiter, hfree⟩ := hannounced hwriter k call (hinserted k call hcall hphase) hphase
    have hne : call.cmd ≠ cmdIdOf packet.bytes := by
      intro heq
      exact hfree ⟨packet, by rw [hold]; exact List.mem_cons_self, heq.symm⟩
    refine ⟨hrx, ?_, ?_⟩
    · rw [hlookup call.cmd hne]
      exact hwaiter
    · rintro ⟨other, hother, hcmd⟩
      exact hfree ⟨other, by rw [hold]; exact List.mem_cons_of_mem _ hother, hcmd⟩
  · intro other hother
    rw [hrest] at hother
    exact hframes other (by rw [hinbound]; exact List.mem_cons_of_mem _ hother)

/-- The reader finds the waiter of the call that the answer was produced for,
and the answer is thrown away only when that call has timed out. -/
theorem Inv.deliver {s : State} {packet : Packet} {rest : List Packet} {frame : Frame}
    (hinv : Inv s) (hopen : s.closed = false) (hinbound : s.inbound = packet :: rest)
    (hframe : frame.cmdId = cmdIdOf packet.bytes) :
    Inv ({ s with inbound := rest }.deliver packet.request frame) := by
  obtain ⟨⟨hanswered, hkept⟩, hslot, howner, hflight⟩ := hinv
  have hmem : packet ∈ s.inFlight := by
    rw [State.inFlight, hinbound]
    exact List.mem_cons_self
  obtain ⟨call, hcall, hcmd, hwaiter, hphase⟩ := (hflight hopen).awaited packet hmem
  have hlookup : s.pending.lookup frame.cmdId = some packet.request := by
    rw [hframe, hcmd]
    exact hwaiter
  have howner' : ∀ cmd j, (s.pending.erase frame.cmdId).lookup cmd = some j →
      ∃ call : Call, s.calls[j]? = some call ∧ call.cmd = cmd := by
    intro cmd j hj
    have hne : cmd ≠ frame.cmdId := by
      rintro rfl
      rw [AList.lookup_erase] at hj
      cases hj
    rw [AList.lookup_erase_ne hne] at hj
    exact howner cmd j hj
  rw [State.deliver, hlookup]
  simp only [hcall, Option.any_some]
  rcases hphase with ⟨hwaiting, -⟩ | htimeout
  · rw [if_pos (by simp [Call.isFinished, hwaiting])]
    refine ⟨⟨?_, ?_⟩, ?_, ?_, ?_⟩
    · intro k new answer hnew
      obtain ⟨old, hold, rfl⟩ := modifyCall_getElem?_eq_some.mp hnew
      have := hanswered k old answer hold
      grind
    · intro answer hanswer
      obtain ⟨old, hold, hdone⟩ := hkept answer hanswer
      exact ⟨_, modifyCall_getElem?_eq_some.mpr ⟨old, hold, rfl⟩, by split <;> exact hdone⟩
    · intro k new answer hnew
      obtain ⟨old, hold, rfl⟩ := modifyCall_getElem?_eq_some.mp hnew
      have := hslot k old answer hold
      grind
    · intro cmd j hj
      obtain ⟨old, hold, hcmd⟩ := howner' cmd j hj
      exact ⟨_, modifyCall_getElem?_eq_some.mpr ⟨old, hold, rfl⟩, by split <;> exact hcmd⟩
    · intro _
      refine (hflight hopen).next hinbound rfl rfl rfl (by rw [hframe]; rfl) ?_ ?_
      · intro k old hold hne
        have hk : packet.request ≠ k := by grind
        exact modifyCall_getElem?_eq_some.mpr ⟨old, hold, by rw [if_neg hk]⟩
      · intro k new hnew hinserted
        obtain ⟨old, hold, rfl⟩ := modifyCall_getElem?_eq_some.mp hnew
        have hk : packet.request ≠ k := by grind
        rw [if_neg hk]
        exact hold
  · rw [if_neg (by simp [Call.isFinished, htimeout])]
    refine ⟨⟨hanswered, ?_⟩, hslot, howner', ?_⟩
    · intro answer hanswer
      rcases List.mem_append.mp hanswer with hanswer | hanswer
      · exact hkept answer hanswer
      · rw [List.mem_singleton.mp hanswer]
        exact ⟨call, hcall, htimeout⟩
    · intro _
      exact (hflight hopen).next hinbound rfl rfl rfl (by rw [hframe]) (fun _ _ h _ => h)
        (fun _ _ h _ => h)

/-- The reader has stopped, and every waiter it still had is dropped. -/
theorem Inv.readerClear {s : State} (hinv : Inv s) (hclosed : s.closed = true) :
    Inv s.readerClear := by
  obtain ⟨⟨hanswered, hkept⟩, hslot, howner, hflight⟩ := hinv
  have hget : ∀ (k : Nat) (new : Call), s.readerClear.calls[k]? = some new ↔
      ∃ old, s.calls[k]? = some old ∧
        new = if ⟨old.cmd, k⟩ ∈ s.pending.entries then { old with rx := .dropped } else old := by
    intro k new
    rw [State.readerClear, List.getElem?_mapIdx]
    grind
  refine ⟨⟨?_, ?_⟩, ?_, ?_, ?_⟩
  · intro k new answer hnew
    obtain ⟨old, hold, rfl⟩ := (hget k new).mp hnew
    have := hanswered k old answer hold
    grind
  · intro answer hanswer
    obtain ⟨old, hold, hdone⟩ := hkept answer hanswer
    exact ⟨_, (hget _ _).mpr ⟨old, hold, rfl⟩, by split <;> exact hdone⟩
  · intro k new answer hnew
    obtain ⟨old, hold, rfl⟩ := (hget k new).mp hnew
    have := hslot k old answer hold
    grind
  · intro cmd j hj
    simp [State.readerClear] at hj
  · intro hopen
    exact absurd (hclosed.symm.trans hopen) (by decide)

/-! ## Runs -/

/-- Every step keeps the invariant, when the insertions are quiet. -/
theorem inv_step (s : State) (label : Label) (t : State) (hinv : Inv s) (hguard : Guard s label)
    (hstep : step s label = some t) : Inv t := by
  cases label with
  | request cmd payload =>
    obtain rfl := Option.some.inj hstep
    exact hinv.request cmd payload
  | insert i =>
    simp only [step] at hstep
    split at hstep
    · rename_i call hcall
      simp only [Option.ite_none_right_eq_some, Option.some.injEq] at hstep
      obtain ⟨hphase, rfl⟩ := hstep
      exact hinv.insert hcall (hguard call hcall) hphase
    · cases hstep
  | enqueue i random =>
    simp only [step] at hstep
    split at hstep
    · rename_i call hcall
      simp only [Option.ite_none_right_eq_some, Option.some.injEq] at hstep
      obtain ⟨hphase, rfl⟩ := hstep
      rw [State.enqueue]
      split
      · rename_i halive
        exact hinv.send hcall hphase halive (cmdIdOf_buildCommand _ _ _)
          (four_le_length_buildCommand _ _ _)
      · refine hinv.modifyCall fun old hold => ?_
        obtain rfl : call = old := Option.some.inj (hcall.symm.trans hold)
        refine ⟨rfl, fun d => hinv.slot i call d hcall, ?_, ?_, ?_, ?_⟩ <;> simp [hphase]
    · cases hstep
  | finish i =>
    simp only [step] at hstep
    split at hstep
    · rename_i cmd payload answer hcall
      obtain rfl := Option.some.inj hstep
      refine hinv.modifyCall fun old hold => ?_
      obtain rfl : _ = old := Option.some.inj (hcall.symm.trans hold)
      have hrequest : answer.request = i := hinv.slot i _ answer hcall rfl
      refine ⟨rfl, ?_, ?_, ?_, ?_, ?_⟩ <;> simp [hrequest]
    · rename_i cmd payload hcall
      obtain rfl := Option.some.inj hstep
      refine hinv.modifyCall fun old hold => ?_
      obtain rfl : _ = old := Option.some.inj (hcall.symm.trans hold)
      refine ⟨rfl, ?_, ?_, ?_, ?_, ?_⟩ <;> simp
    · cases hstep
  | timeout i =>
    simp only [step] at hstep
    split at hstep
    · rename_i call hcall
      simp only [Option.ite_none_right_eq_some, Option.some.injEq] at hstep
      obtain ⟨hphase, rfl⟩ := hstep
      refine hinv.modifyCall fun old hold => ?_
      obtain rfl : call = old := Option.some.inj (hcall.symm.trans hold)
      refine ⟨rfl, fun d => hinv.slot i call d hcall, ?_, ?_, ?_, ?_⟩ <;> simp
    · cases hstep
  | answer tag resCode body =>
    simp only [step] at hstep
    split at hstep
    · rename_i packet rest houtbound
      obtain rfl := Option.some.inj hstep
      exact hinv.answer houtbound tag resCode body
    · cases hstep
  | deliver =>
    simp only [step] at hstep
    split at hstep
    · rename_i packet rest hinbound
      split at hstep
      · cases hstep
      · rename_i hopen
        have hopen : s.closed = false := Bool.eq_false_iff.mpr hopen
        have hlength : 5 ≤ packet.bytes.length :=
          (hinv.flight hopen).frames packet (by rw [hinbound]; exact List.mem_cons_self)
        obtain ⟨frame, hparse, hframe⟩ := parseResponse_cmdId hlength
        simp only [hparse, Option.some.injEq] at hstep
        rw [← hstep]
        exact hinv.deliver hopen hinbound hframe
    · cases hstep
  | writerEnd =>
    obtain rfl := Option.some.inj hstep
    refine ⟨⟨hinv.answered, hinv.kept⟩, hinv.slot, hinv.owner, ?_⟩
    intro hopen
    obtain ⟨hawaited, hdistinct, -, hcommands, hframes⟩ := hinv.flight hopen
    refine ⟨?_, hdistinct, fun halive => absurd halive Bool.false_ne_true, hcommands, hframes⟩
    intro packet hpacket
    obtain ⟨call, hcall, hcmd, hwaiter, hphase⟩ := hawaited packet hpacket
    exact ⟨call, hcall, hcmd, hwaiter, hphase⟩
  | readerEnd =>
    obtain rfl := Option.some.inj hstep
    exact ⟨⟨hinv.answered, hinv.kept⟩, hinv.slot, hinv.owner,
      fun hopen => absurd hopen (by simp)⟩
  | readerClear =>
    simp only [step, Option.ite_none_right_eq_some, Option.some.injEq] at hstep
    obtain ⟨hclosed, rfl⟩ := hstep
    exact hinv.readerClear hclosed

/-- In every run whose insertions are quiet, each request that returns `Ok`
carries its own answer, and no answer to a request that has not timed out is
thrown away. -/
theorem correlated_of_quiet {labels : List Label} {s : State}
    (hquiet : StepsMeet step Guard .init labels) (hrun : exec step .init labels = some s) :
    Correlated s :=
  (exec_invariant_of_stepsMeet inv_step inv_init hquiet hrun).toCorrelated

/-- A request that times out, and a second one under the same id once the late
answer has been read. -/
theorem correlated_of_quiet_run :
    ∃ s, exec step .init [.request CMD_RATES [1], .insert 0, .enqueue 0 7, .timeout 0,
        .answer 9 0 [1], .deliver, .request CMD_RATES [2], .insert 1, .enqueue 1 8,
        .answer 9 0 [2], .deliver, .finish 1] = some s ∧ Correlated s := by
  obtain ⟨s, hrun⟩ := Option.isSome_iff_exists.mp (by decide : Option.isSome (exec step .init
    [.request CMD_RATES [1], .insert 0, .enqueue 0 7, .timeout 0, .answer 9 0 [1], .deliver,
      .request CMD_RATES [2], .insert 1, .enqueue 1 8, .answer 9 0 [2], .deliver, .finish 1]))
  exact ⟨s, hrun, correlated_of_quiet (by decide) hrun⟩

/-- Two calls ask for rates at the same time.  The second insertion cancels the
first call, and the answer to the first call is handed to the second. -/
theorem not_correlated_run :
    ¬ ∀ labels s, exec step .init labels = some s → Correlated s := by
  intro h
  have hphase : ((exec step .init [.request CMD_RATES [1], .request CMD_RATES [2], .insert 0,
      .insert 1, .enqueue 0 7, .enqueue 1 8, .answer 9 0 [1], .deliver, .finish 1]).bind
        fun s => s.calls[1]?).map Call.phase =
          some (.finished (.ok ⟨0, ⟨9, CMD_RATES, 0, [1]⟩⟩)) := by decide
  obtain ⟨call, hcall, hphase⟩ := Option.map_eq_some_iff.mp hphase
  obtain ⟨s, hrun, hcall⟩ := Option.bind_eq_some_iff.mp hcall
  have hrequest := (h _ s hrun).answered 1 call _ hcall hphase
  exact absurd hrequest (by decide)

end Mt5Open.Webterm.Request

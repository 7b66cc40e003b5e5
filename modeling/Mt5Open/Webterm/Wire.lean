import Mt5Open.Lib.Run
import Mt5Open.Webterm.Correlation
import Mt5Open.Webterm.Login

/-!
# Requests over the wire

`Webterm.Request` has the commands and the answers of a client as bytes that go from
one end to the other.  Here they take the way of the code: the channel of the client,
the writer task that enciphers them, the socket, a server that deciphers them, and
back to the reader task.

The client also posts commands that no call waits for, and the server pushes frames
on its own.  Both carry ids that no call asks with: `UNASKED`.

`wire_refines` says that this changes nothing.  A run is a run of `Webterm.Request`,
in the view that takes the ciphers away, and `Label.calls` says which: the steps of the
calls in their order, with the answers and the deliveries that are theirs.
-/

namespace Mt5Open.Webterm.Wire

open Lib Lib.Run Login
open Request (Call)

def CMD_QUOTES : UInt16 := 8
def CMD_TICK_STATS : UInt16 := 17
def CMD_TRADE_EVENT : UInt16 := 19
def CMD_HEARTBEAT : UInt16 := 51

/-- The commands of `subscribe` and of the heartbeat. -/
def POSTED : List UInt16 := [CMD_SUBSCRIBE, CMD_HEARTBEAT]

/-- The ids that no call of `Client::request` asks with. -/
def UNASKED : List UInt16 := POSTED ++ [CMD_QUOTES, CMD_TICK_STATS, CMD_TRADE_EVENT]

/-- A command, with the call that waits for its answer. -/
structure Command where
  request : Option Nat
  bytes : Bytes
  deriving DecidableEq

/-- A message under way to the server. -/
structure Envelope where
  request : Option Nat
  raw : Bytes
  deriving DecidableEq

/-- A message of the web socket. -/
inductive Message where
  | binary (raw : Bytes)
  | other
  deriving DecidableEq

/-- A message under way to the client, with the call that it answers. -/
structure Reply where
  request : Option Nat
  message : Message
  deriving DecidableEq

/-- The shared state of the clones, the two tasks, the socket and the server.  The queues of
`client` are not used.  `enqueued` and `deciphered` are all the commands that were put into the
channel and that the server has read. -/
structure State where
  client : Request.State
  channel : List Command
  socket : List Envelope
  commands : List Command
  replies : List Reply
  enqueued : List Bytes
  deciphered : List Bytes

/-- A client that has just been dialled. -/
def State.init : State where
  client := .init
  channel := []
  socket := []
  commands := []
  replies := []
  enqueued := []
  deciphered := []

/-- The atomic steps.  A number names a call of `request`. -/
inductive Label where
  | request (cmd : UInt16) (payload : Bytes)
  | insert (i : Nat)
  | enqueue (i : Nat) (random : UInt16)
  | finish (i : Nat)
  | timeout (i : Nat)
  | post (random cmd : UInt16) (payload : Bytes)
  | write
  | receive
  | answer (tag : UInt16) (resCode : UInt8) (body : Bytes)
  | ignore
  | push (message : Message)
  | deliver
  | writerEnd
  | readerEnd
  | readerClear
  deriving DecidableEq

section Step

variable (encrypt : Bytes → Bytes → Bytes) (decrypt : Bytes → Bytes → Except String Bytes)
  (key : Bytes)

/-- The plain bytes of a message, where the reader does not pass over it. -/
def plain : Message → Option Bytes
  | .binary raw =>
    if raw.length < 8 then none
    else
      match Panics.aesDecrypt decrypt key (raw.drop 8) with
      | .ok plaintext => some plaintext
      | .error _ => none
  | .other => none

/-- The reader finds no waiter for the message, whatever the calls have asked for. -/
def isUnasked (message : Message) : Bool :=
  match (plain decrypt key message).bind parseResponse with
  | some frame => frame.cmdId ∈ UNASKED
  | none => true

namespace State

variable (s : State)

/-- A step that does not look at the wire. -/
def onClient (label : Request.Label) : Option State :=
  (Request.step s.client label).map fun client => { s with client }

/-- `send_cmd`: the channel takes the command. -/
def send (command : Command) : State :=
  { s with channel := s.channel ++ [command], enqueued := s.enqueued ++ [command.bytes] }

/-- `send_cmd` of a call, which fails once the writer task is gone. -/
def enqueue (i : Nat) (call : Call) (random : UInt16) : State :=
  if s.client.writerAlive then
    { s with
      client := s.client.modifyCall i fun call => { call with phase := .waiting } }.send
        ⟨some i, buildCommand random call.cmd call.payload⟩
  else
    { s with
      client := s.client.modifyCall i fun call =>
        { call with phase := .finished (.error .channelClosed) } }

/-- A round of the writer task.  It breaks off where the cipher fails. -/
def write (command : Command) (rest : List Command) : State :=
  match aesEncrypt encrypt key command.bytes with
  | .ok encrypted =>
    { s with
      channel := rest
      socket := s.socket ++ [⟨command.request, packWire encrypted⟩] }
  | .error _ =>
    { s with
      channel := rest
      client := { s.client with writerAlive := false } }

/-- The server opens a message. -/
def receive (envelope : Envelope) (rest : List Envelope) : State :=
  match openCommand decrypt key envelope.raw with
  | some bytes =>
    { s with
      socket := rest
      commands := s.commands ++ [⟨envelope.request, bytes⟩]
      deciphered := s.deciphered ++ [bytes] }
  | none => { s with socket := rest }

/-- The server answers its oldest command with the id it carries. -/
def answer (command : Command) (rest : List Command) (tag : UInt16) (resCode : UInt8)
    (body : Bytes) : State :=
  let bytes := LittleEndian.encode 2 tag.toNat ++ slice command.bytes 2 2 ++ resCode :: body
  { s with
    commands := rest
    replies := s.replies ++ [⟨command.request, .binary (packWire (encrypt key bytes))⟩] }

/-- A round of the reader task. -/
def deliver (reply : Reply) (rest : List Reply) : State :=
  let s := { s with replies := rest }
  match (plain decrypt key reply.message).bind parseResponse with
  | none => s
  | some frame =>
    match reply.request with
    | some i => { s with client := s.client.deliver i frame }
    | none =>
      match s.client.pending.lookup frame.cmdId with
      | some j => { s with client := s.client.deliver j frame }
      | none => s

end State

/-- One atomic step, when it is enabled. -/
def step (s : State) : Label → Option State
  | .request cmd payload =>
    if cmd ∈ UNASKED then none else s.onClient (.request cmd payload)
  | .insert i => s.onClient (.insert i)
  | .enqueue i random =>
    match s.client.calls[i]? with
    | some call => if call.phase = .inserted then some (s.enqueue i call random) else none
    | none => none
  | .finish i => s.onClient (.finish i)
  | .timeout i => s.onClient (.timeout i)
  | .post random cmd payload =>
    if cmd ∈ POSTED ∧ s.client.writerAlive then
      some (s.send ⟨none, buildCommand random cmd payload⟩)
    else none
  | .write =>
    match s.channel with
    | command :: rest =>
      if s.client.writerAlive then some (s.write encrypt key command rest) else none
    | [] => none
  | .receive =>
    match s.socket with
    | envelope :: rest => some (s.receive decrypt key envelope rest)
    | [] => none
  | .answer tag resCode body =>
    match s.commands with
    | command :: rest => some (s.answer encrypt key command rest tag resCode body)
    | [] => none
  | .ignore =>
    match s.commands with
    | ⟨none, _⟩ :: rest => some { s with commands := rest }
    | _ => none
  | .push message =>
    if isUnasked decrypt key message then
      some { s with replies := s.replies ++ [⟨none, message⟩] }
    else none
  | .deliver =>
    match s.replies with
    | reply :: rest => if s.client.closed then none else some (s.deliver decrypt key reply rest)
    | [] => none
  | .writerEnd => s.onClient .writerEnd
  | .readerEnd => s.onClient .readerEnd
  | .readerClear => s.onClient .readerClear

/-! ## The view -/

/-- The packet of a command that a call waits for. -/
def Command.packet (command : Command) : Option Request.Packet :=
  command.request.map fun i => ⟨i, command.bytes⟩

/-- What the server will read of a message. -/
def Envelope.command (envelope : Envelope) : Option Command :=
  (openCommand decrypt key envelope.raw).map fun bytes => ⟨envelope.request, bytes⟩

/-- The packet of a reply that answers a call. -/
def Reply.packet (reply : Reply) : Option Request.Packet :=
  match reply.request, plain decrypt key reply.message with
  | some i, some bytes => some ⟨i, bytes⟩
  | _, _ => none

/-- The commands that are not answered yet, from the server back to the client. -/
def State.unanswered (s : State) : List Command :=
  s.commands ++ (s.socket.filterMap (Envelope.command decrypt key) ++ s.channel)

/-- The state without the wire. -/
def State.view (s : State) : Request.State :=
  { s.client with
    outbound := (s.unanswered decrypt key).filterMap Command.packet
    inbound := s.replies.filterMap (Reply.packet decrypt key) }

end Step

/-- What a step is in the view.  The two tasks, the socket, and what no call waits for do not show
in it. -/
def Label.calls (s : State) : Label → List Request.Label
  | .request cmd payload => [.request cmd payload]
  | .insert i => [.insert i]
  | .enqueue i random => [.enqueue i random]
  | .finish i => [.finish i]
  | .timeout i => [.timeout i]
  | .answer tag resCode body =>
    if (s.commands.head?.bind Command.request).isSome then [.answer tag resCode body] else []
  | .deliver => if (s.replies.head?.bind Reply.request).isSome then [.deliver] else []
  | .writerEnd => [.writerEnd]
  | .readerEnd => [.readerEnd]
  | .readerClear => [.readerClear]
  | .post .. | .write | .receive | .ignore | .push _ => []

/-! ## Steps of the calls -/

/-- The same calls with other queues. -/
def rewire (outbound inbound : List Request.Packet) (c : Request.State) : Request.State :=
  { c with outbound, inbound }

/-- The calls and the reader task take this step without the wire. -/
def IsLocal : Request.Label → Prop
  | .request .. | .insert _ | .finish _ | .timeout _ => True
  | .writerEnd | .readerEnd | .readerClear => True
  | _ => False

section Local

variable {outbound inbound : List Request.Packet} {c : Request.State}

@[simp] theorem rewire_calls : (rewire outbound inbound c).calls = c.calls := rfl

@[simp] theorem rewire_pending : (rewire outbound inbound c).pending = c.pending := rfl

@[simp] theorem rewire_closed : (rewire outbound inbound c).closed = c.closed := rfl

theorem insert_rewire (i : Nat) (call : Call) :
    (rewire outbound inbound c).insert i call = rewire outbound inbound (c.insert i call) := by
  unfold Request.State.insert
  rw [rewire_pending]
  cases c.pending.lookup call.cmd with
  | none => rfl
  | some j => rfl

theorem deliver_rewire (i : Nat) (frame : Frame) :
    (rewire outbound inbound c).deliver i frame = rewire outbound inbound (c.deliver i frame) := by
  unfold Request.State.deliver
  rw [rewire_pending]
  cases c.pending.lookup frame.cmdId with
  | none => rfl
  | some j =>
    show _ = rewire outbound inbound (if c.calls[j]?.any (!·.isFinished) then _ else _)
    rw [apply_ite (rewire outbound inbound)]
    rfl

theorem step_rewire {label : Request.Label} (h : IsLocal label) :
    Request.step (rewire outbound inbound c) label =
      (Request.step c label).map (rewire outbound inbound) := by
  cases label with
  | request cmd payload => rfl
  | insert i =>
    simp only [Request.step, rewire_calls, insert_rewire]
    cases c.calls[i]? with
    | none => rfl
    | some call =>
      by_cases hphase : call.phase = .checked
      · simp only [if_pos hphase, Option.map_some]
      · simp only [if_neg hphase, Option.map_none]
  | finish i =>
    simp only [Request.step, rewire_calls]
    rcases c.calls[i]? with _ | ⟨cmd, payload, phase, rx⟩
    · rfl
    · cases phase <;> cases rx <;> rfl
  | timeout i =>
    simp only [Request.step, rewire_calls]
    cases c.calls[i]? with
    | none => rfl
    | some call =>
      by_cases hphase : call.phase = .waiting
      · simp only [if_pos hphase, Option.map_some]
        rfl
      · simp only [if_neg hphase, Option.map_none]
  | writerEnd => rfl
  | readerEnd => rfl
  | readerClear =>
    show _ = Option.map (rewire outbound inbound) (if c.closed then some c.readerClear else none)
    rw [apply_ite (Option.map (rewire outbound inbound))]
    rfl
  | enqueue i random => exact absurd h id
  | answer tag resCode body => exact absurd h id
  | deliver => exact absurd h id

theorem step_enqueue {i : Nat} {call : Call} (hcall : c.calls[i]? = some call)
    (hphase : call.phase = .inserted) (random : UInt16) :
    Request.step c (.enqueue i random) = some (c.enqueue i call random) := by
  simp only [Request.step, hcall, if_pos hphase]

variable {packet : Request.Packet} {rest : List Request.Packet}

theorem step_answer (h : c.outbound = packet :: rest) (tag : UInt16) (resCode : UInt8)
    (body : Bytes) :
    Request.step c (.answer tag resCode body) = some (c.answer packet rest tag resCode body) := by
  simp only [Request.step, h]

theorem step_deliver (h : c.inbound = packet :: rest) (hopen : c.closed = false) {frame : Frame}
    (hframe : parseResponse packet.bytes = some frame) :
    Request.step c .deliver = some (rewire c.outbound rest (c.deliver packet.request frame)) := by
  rw [← deliver_rewire]
  simp [Request.step, h, hopen, hframe, rewire]

theorem step_deliver_of_none (h : c.inbound = packet :: rest) (hopen : c.closed = false)
    (hframe : parseResponse packet.bytes = none) :
    Request.step c .deliver = some (rewire c.outbound rest c) := by
  simp [Request.step, h, hopen, hframe, rewire]

end Local

/-! ## What the calls ask for -/

/-- No call has an id of the heartbeat, of a subscription or of a push. -/
structure Asks (c : Request.State) : Prop where
  calls : ∀ (k : Nat) (call : Call), c.calls[k]? = some call → call.cmd ∉ UNASKED
  pending : ∀ cmd ∈ c.pending, cmd ∉ UNASKED

section Asks

variable {c : Request.State}

theorem asks_init : Asks .init where
  calls := by
    intro k call hcall
    cases hcall
  pending := by
    intro cmd hcmd
    exact absurd hcmd (AList.notMem_empty cmd)

theorem Asks.lookup (h : Asks c) {cmd : UInt16} (hcmd : cmd ∈ UNASKED) :
    c.pending.lookup cmd = none :=
  AList.lookup_eq_none.mpr fun hmem => h.pending cmd hmem hcmd

theorem Asks.modifyCall (h : Asks c) (i : Nat) {f : Call → Call}
    (hf : ∀ call, (f call).cmd = call.cmd) : Asks (c.modifyCall i f) where
  calls := by
    intro k call hcall
    obtain ⟨old, hold, rfl⟩ := Request.modifyCall_getElem?_eq_some.mp hcall
    have hcmd := h.calls k old hold
    split
    · rw [hf old]
      exact hcmd
    · exact hcmd
  pending := h.pending

theorem Asks.request (h : Asks c) {cmd : UInt16} (hcmd : cmd ∉ UNASKED) (payload : Bytes) :
    Asks (c.request cmd payload) where
  calls := by
    intro k call hcall
    have hmem : call ∈ (c.request cmd payload).calls := List.mem_of_getElem? hcall
    rcases List.mem_append.mp hmem with hold | hnew
    · obtain ⟨j, hj⟩ := List.mem_iff_getElem?.mp hold
      exact h.calls j call hj
    · rw [List.mem_singleton.mp hnew]
      exact hcmd
  pending := h.pending

theorem Asks.insert (h : Asks c) {i : Nat} {call : Call} (hcall : c.calls[i]? = some call) :
    Asks (c.insert i call) where
  calls := by
    intro k new hnew
    obtain ⟨old, hold, rfl⟩ := Request.insert_getElem?_eq_some.mp hnew
    have hcmd := h.calls k old hold
    grind
  pending := by
    intro cmd hcmd
    rw [Request.insert_pending, AList.mem_insert] at hcmd
    rcases hcmd with rfl | hold
    · exact h.calls i call hcall
    · exact h.pending cmd hold

theorem Asks.deliver (h : Asks c) (i : Nat) (frame : Frame) : Asks (c.deliver i frame) := by
  have herase : ∀ cmd ∈ c.pending.erase frame.cmdId, cmd ∉ UNASKED := by
    intro cmd hcmd
    exact h.pending cmd (AList.mem_erase.mp hcmd).2
  rw [Request.State.deliver]
  cases c.pending.lookup frame.cmdId with
  | none => exact ⟨h.calls, h.pending⟩
  | some j =>
    have herased : Asks { c with pending := c.pending.erase frame.cmdId } := ⟨h.calls, herase⟩
    simp only
    split
    · exact herased.modifyCall j fun _ => rfl
    · exact ⟨herased.calls, herased.pending⟩

theorem Asks.readerClear (h : Asks c) : Asks c.readerClear where
  calls := by
    intro k call hcall
    rw [Request.State.readerClear, List.getElem?_mapIdx] at hcall
    obtain ⟨old, hold, rfl⟩ := Option.map_eq_some_iff.mp hcall
    have hcmd := h.calls k old hold
    split <;> exact hcmd
  pending := by
    intro cmd hcmd
    exact absurd hcmd (AList.notMem_empty cmd)

/-- A step of the calls asks for nothing that its label does not ask for. -/
theorem Asks.step {d : Request.State} {label : Request.Label} (h : Asks c) (hlocal : IsLocal label)
    (hasked : ∀ cmd payload, label = .request cmd payload → cmd ∉ UNASKED)
    (hstep : Request.step c label = some d) : Asks d := by
  cases label with
  | request cmd payload =>
    rw [← Option.some.inj hstep]
    exact h.request (hasked cmd payload rfl) payload
  | insert i =>
    simp only [Request.step] at hstep
    split at hstep
    · split at hstep
      · rw [← Option.some.inj hstep]
        exact h.insert (by assumption)
      · cases hstep
    · cases hstep
  | finish i =>
    simp only [Request.step] at hstep
    split at hstep
    · rw [← Option.some.inj hstep]
      exact h.modifyCall i fun _ => rfl
    · rw [← Option.some.inj hstep]
      exact h.modifyCall i fun _ => rfl
    · cases hstep
  | timeout i =>
    simp only [Request.step] at hstep
    split at hstep
    · split at hstep
      · rw [← Option.some.inj hstep]
        exact h.modifyCall i fun _ => rfl
      · cases hstep
    · cases hstep
  | writerEnd =>
    rw [← Option.some.inj hstep]
    exact ⟨h.calls, h.pending⟩
  | readerEnd =>
    rw [← Option.some.inj hstep]
    exact ⟨h.calls, h.pending⟩
  | readerClear =>
    simp only [Request.step] at hstep
    split at hstep
    · rw [← Option.some.inj hstep]
      exact h.readerClear
    · cases hstep
  | enqueue i random => exact absurd hlocal id
  | answer tag resCode body => exact absurd hlocal id
  | deliver => exact absurd hlocal id

end Asks

/-! ## The invariant -/

section Invariant

variable (decrypt : Bytes → Bytes → Except String Bytes) (key : Bytes)

/-- The command has an id, and where no call waits for it, it is one that no call asks with. -/
def Command.Fits (command : Command) : Prop :=
  4 ≤ command.bytes.length ∧ (command.request = none → cmdIdOf command.bytes ∈ UNASKED)

/-- The reader can decipher an answer, and finds no waiter for anything else. -/
def Reply.Fits (reply : Reply) : Prop :=
  match reply.request with
  | some _ => ∃ bytes, plain decrypt key reply.message = some bytes
  | none => isUnasked decrypt key reply.message = true

/-- The commands that the server has not read. -/
def State.unread (s : State) : List Command :=
  s.socket.filterMap (Envelope.command decrypt key) ++ s.channel

structure Inv (s : State) : Prop where
  asks : Asks s.client
  commands : ∀ command ∈ s.unanswered decrypt key, command.Fits
  replies : ∀ reply ∈ s.replies, reply.Fits decrypt key
  order : s.enqueued = s.deciphered ++ (s.unread decrypt key).map Command.bytes

/-- The next state keeps the invariant, and the view goes there with these steps. -/
structure Simulates (labels : List Request.Label) (s t : State) : Prop where
  inv : Inv decrypt key t
  view : exec Request.step (s.view decrypt key) labels = some (t.view decrypt key)

variable {decrypt key} {s t : State}

theorem inv_init : Inv decrypt key .init where
  asks := asks_init
  commands := by
    intro command hcommand
    cases hcommand
  replies := by
    intro reply hreply
    cases hreply
  order := rfl

/-- A step that does not show in the view. -/
theorem Simulates.silent (hinv : Inv decrypt key t)
    (hview : t.view decrypt key = s.view decrypt key) : Simulates decrypt key [] s t :=
  ⟨hinv, by rw [hview, exec_nil]⟩

/-- A step that is one step in the view. -/
theorem Simulates.single {label : Request.Label} (hinv : Inv decrypt key t)
    (hview : Request.step (s.view decrypt key) label = some (t.view decrypt key)) :
    Simulates decrypt key [label] s t :=
  ⟨hinv, by rw [exec_cons, hview, Option.bind_some, exec_nil]⟩

theorem simulates_onClient (hs : Inv decrypt key s) (label : Request.Label) (hlocal : IsLocal label)
    (hasked : ∀ cmd payload, label = .request cmd payload → cmd ∉ UNASKED)
    (h : s.onClient label = some t) : Simulates decrypt key [label] s t := by
  obtain ⟨client, hclient, rfl⟩ := Option.map_eq_some_iff.mp h
  refine .single ⟨?_, hs.commands, hs.replies, hs.order⟩ ?_
  · exact hs.asks.step hlocal hasked hclient
  · show Request.step (rewire _ _ s.client) label = _
    rw [step_rewire hlocal, hclient]
    rfl

/-! ## The channel -/

theorem unanswered_send (command : Command) :
    (s.send command).unanswered decrypt key = s.unanswered decrypt key ++ [command] := by
  simp only [State.unanswered, State.send, List.append_assoc]

/-- A command goes into the channel. -/
theorem Inv.send (hs : Inv decrypt key s) {command : Command} (hfits : command.Fits) :
    Inv decrypt key (s.send command) where
  asks := hs.asks
  commands := by
    intro other hother
    rw [unanswered_send] at hother
    rcases List.mem_append.mp hother with hold | hnew
    · exact hs.commands other hold
    · rw [List.mem_singleton.mp hnew]
      exact hfits
  replies := hs.replies
  order := by
    show s.enqueued ++ [command.bytes] = s.deciphered ++
      (s.socket.filterMap (Envelope.command decrypt key) ++ (s.channel ++ [command])).map _
    rw [hs.order, State.unread]
    simp only [List.map_append, List.map_cons, List.map_nil, List.append_assoc]

theorem simulates_enqueue (hs : Inv decrypt key s) {i : Nat} {call : Call} (random : UInt16)
    (hcall : s.client.calls[i]? = some call) (hphase : call.phase = .inserted) :
    Simulates decrypt key [.enqueue i random] s (s.enqueue i call random) := by
  have hview : Request.step (s.view decrypt key) (.enqueue i random) =
      some ((s.view decrypt key).enqueue i call random) :=
    step_enqueue (c := s.view decrypt key) hcall hphase random
  rw [State.enqueue]
  by_cases halive : s.client.writerAlive
  · rw [if_pos halive]
    have hmoved : Inv decrypt key { s with
        client := s.client.modifyCall i fun call => { call with phase := .waiting } } :=
      ⟨hs.asks.modifyCall i fun _ => rfl, hs.commands, hs.replies, hs.order⟩
    refine .single (hmoved.send ⟨?_, ?_⟩) ?_
    · exact four_le_length_buildCommand _ _ _
    · intro hnone
      cases hnone
    · rw [hview, Request.State.enqueue, if_pos (show (s.view decrypt key).writerAlive from halive)]
      have hpacket : ((s.send ⟨some i, buildCommand random call.cmd call.payload⟩).unanswered
          decrypt key).filterMap Command.packet = (s.view decrypt key).outbound ++
            [⟨i, buildCommand random call.cmd call.payload⟩] := by
        rw [unanswered_send, List.filterMap_append]
        rfl
      exact congrArg (fun outbound => some (rewire outbound (s.view decrypt key).inbound
        (s.client.modifyCall i fun call => { call with phase := .waiting }))) hpacket.symm
  · rw [if_neg halive]
    refine .single
      ⟨hs.asks.modifyCall i fun _ => rfl, hs.commands, hs.replies, hs.order⟩ ?_
    rw [hview, Request.State.enqueue,
      if_neg (show ¬(s.view decrypt key).writerAlive = true from halive)]
    rfl

theorem simulates_post (hs : Inv decrypt key s) (random : UInt16) {cmd : UInt16} (payload : Bytes)
    (hcmd : cmd ∈ POSTED) :
    Simulates decrypt key [] s (s.send ⟨none, buildCommand random cmd payload⟩) := by
  refine .silent (hs.send ⟨?_, ?_⟩) ?_
  · exact four_le_length_buildCommand _ _ _
  · intro _
    show cmdIdOf (buildCommand random cmd payload) ∈ UNASKED
    rw [cmdIdOf_buildCommand]
    exact List.mem_append_left _ hcmd
  · have hpacket : ((s.send ⟨none, buildCommand random cmd payload⟩).unanswered
        decrypt key).filterMap Command.packet = (s.view decrypt key).outbound := by
      rw [unanswered_send, List.filterMap_append]
      exact List.append_nil _
    exact congrArg (fun outbound => rewire outbound (s.view decrypt key).inbound s.client) hpacket

/-! ## The two ends of the socket -/

variable {encrypt : Bytes → Bytes → Bytes}

theorem simulates_write (hinverts : Inverts encrypt decrypt) (hkey : key.length = 32)
    (hs : Inv decrypt key s) {command : Command} {rest : List Command}
    (hchannel : s.channel = command :: rest) :
    Simulates decrypt key [] s (s.write encrypt key command rest) := by
  have hfits : command.Fits := hs.commands command (by simp [State.unanswered, hchannel])
  have hopen : Envelope.command decrypt key
      ⟨command.request, packWire (encrypt key command.bytes)⟩ = some command := by
    rw [Envelope.command, openCommand_packWire hinverts hkey hfits.1]
    rfl
  have hunread : (s.write encrypt key command rest).unread decrypt key = s.unread decrypt key := by
    rw [State.write, aesEncrypt_of_length hkey]
    simp only [State.unread, hchannel, List.filterMap_append, List.filterMap_cons, hopen,
      List.filterMap_nil, List.append_assoc, List.singleton_append]
  have hrest : s.write encrypt key command rest =
      { s with
        channel := rest
        socket := s.socket ++ [⟨command.request, packWire (encrypt key command.bytes)⟩] } := by
    rw [State.write, aesEncrypt_of_length hkey]
  rw [hrest] at hunread ⊢
  refine .silent ⟨hs.asks, ?_, hs.replies, ?_⟩ ?_
  · intro other hother
    refine hs.commands other ?_
    rw [State.unanswered, ← State.unread, ← hunread]
    exact hother
  · rw [hunread]
    exact hs.order
  · show rewire ((s.commands ++ State.unread decrypt key _).filterMap _) _ _ = _
    rw [hunread]
    rfl

theorem simulates_receive (hs : Inv decrypt key s) {envelope : Envelope} {rest : List Envelope}
    (hsocket : s.socket = envelope :: rest) :
    Simulates decrypt key [] s (s.receive decrypt key envelope rest) := by
  have hold : s.unread decrypt key = (Envelope.command decrypt key envelope).toList ++
      (rest.filterMap (Envelope.command decrypt key) ++ s.channel) := by
    rw [State.unread, hsocket, List.filterMap_cons]
    cases Envelope.command decrypt key envelope with
    | none => rfl
    | some command => rfl
  have hunanswered : (s.receive decrypt key envelope rest).unanswered decrypt key =
      s.unanswered decrypt key := by
    rw [State.unanswered, State.unanswered, ← State.unread, ← State.unread, hold, State.receive,
      Envelope.command]
    cases openCommand decrypt key envelope.raw with
    | none => rfl
    | some bytes => exact List.append_assoc _ _ _
  refine .silent ⟨?_, ?_, ?_, ?_⟩ ?_
  · rw [State.receive]
    split <;> exact hs.asks
  · rw [hunanswered]
    exact hs.commands
  · rw [State.receive]
    split <;> exact hs.replies
  · have horder := hs.order
    rw [hold, Envelope.command] at horder
    rw [State.receive]
    cases hopened : openCommand decrypt key envelope.raw with
    | none =>
      rw [hopened] at horder
      exact horder
    | some bytes =>
      rw [hopened] at horder
      exact horder.trans (List.append_cons _ _ _)
  · have hclient : (s.receive decrypt key envelope rest).client = s.client ∧
        (s.receive decrypt key envelope rest).replies = s.replies := by
      rw [State.receive]
      split <;> exact ⟨rfl, rfl⟩
    rw [State.view, hunanswered, hclient.1, hclient.2]
    rfl

/-! ## Answers and pushes -/

/-- The reader deciphers what the server has enciphered. -/
theorem plain_packWire (hinverts : Inverts encrypt decrypt) (hkey : key.length = 32)
    (bytes : Bytes) :
    plain decrypt key (.binary (packWire (encrypt key bytes))) = some bytes := by
  have hlong : ¬(packWire (encrypt key bytes)).length < 8 := by
    rw [length_packWire]
    omega
  simp only [plain, if_neg hlong, drop_packWire, aesDecrypt_encrypt hinverts hkey]

/-- An answer has the id of its command. -/
theorem parseResponse_answer {command : Bytes} (hlong : 4 ≤ command.length) (tag : UInt16)
    (resCode : UInt8) (body : Bytes) :
    ∃ frame, parseResponse (LittleEndian.encode 2 tag.toNat ++ slice command 2 2 ++
      resCode :: body) = some frame ∧ frame.cmdId = cmdIdOf command := by
  have hlength : (slice command 2 2).length = 2 := length_slice (by omega)
  obtain ⟨frame, hframe, hid⟩ : ∃ frame, parseResponse (LittleEndian.encode 2 tag.toNat ++
      slice command 2 2 ++ resCode :: body) = some frame ∧ frame.cmdId = cmdIdOf _ :=
    parseResponse_cmdId (by
      simp [hlength]
      omega)
  exact ⟨frame, hframe, hid.trans (Request.cmdIdOf_answer hlong tag _)⟩

theorem simulates_answer (hinverts : Inverts encrypt decrypt) (hkey : key.length = 32)
    (hs : Inv decrypt key s) {command : Command} {rest : List Command}
    (hcommands : s.commands = command :: rest) (tag : UInt16) (resCode : UInt8) (body : Bytes) :
    Simulates decrypt key (if command.request.isSome then [.answer tag resCode body] else []) s
      (s.answer encrypt key command rest tag resCode body) := by
  have hunanswered : s.unanswered decrypt key = command :: (rest ++ s.unread decrypt key) := by
    rw [State.unanswered, hcommands]
    rfl
  have hfits : command.Fits := hs.commands command (by rw [hunanswered]; exact List.mem_cons_self)
  obtain ⟨frame, hframe, hid⟩ := parseResponse_answer hfits.1 tag resCode body
  have hplain := plain_packWire hinverts hkey
    (LittleEndian.encode 2 tag.toNat ++ slice command.bytes 2 2 ++ resCode :: body)
  have hinv : Inv decrypt key (s.answer encrypt key command rest tag resCode body) := by
    refine ⟨hs.asks, ?_, ?_, hs.order⟩
    · intro other hother
      refine hs.commands other ?_
      rw [hunanswered]
      exact List.mem_cons_of_mem _ hother
    · intro reply hreply
      rcases List.mem_append.mp hreply with hold | hnew
      · exact hs.replies reply hold
      · rw [List.mem_singleton.mp hnew, Reply.Fits]
        cases hrequest : command.request with
        | some i => exact ⟨_, hplain⟩
        | none =>
          show isUnasked decrypt key _ = true
          rw [isUnasked, hplain, Option.bind_some, hframe]
          exact decide_eq_true (hid ▸ hfits.2 hrequest)
  cases hrequest : command.request with
  | some i =>
    refine .single hinv ?_
    have houtbound : (s.view decrypt key).outbound =
        ⟨i, command.bytes⟩ :: (rest ++ s.unread decrypt key).filterMap Command.packet := by
      show (s.unanswered decrypt key).filterMap Command.packet = _
      rw [hunanswered, List.filterMap_cons, Command.packet, hrequest]
      rfl
    have hinbound : (s.answer encrypt key command rest tag resCode body).replies.filterMap
        (Reply.packet decrypt key) = (s.view decrypt key).inbound ++ [⟨i,
          LittleEndian.encode 2 tag.toNat ++ slice command.bytes 2 2 ++ resCode :: body⟩] := by
      show (s.replies ++ [_]).filterMap _ = _
      rw [List.filterMap_append, List.filterMap_cons, Reply.packet, hrequest, hplain]
      rfl
    rw [step_answer houtbound]
    exact congrArg (fun inbound => some (rewire
      ((rest ++ s.unread decrypt key).filterMap Command.packet) inbound s.client)) hinbound.symm
  | none =>
    refine .silent hinv ?_
    have houtbound : (s.view decrypt key).outbound =
        (rest ++ s.unread decrypt key).filterMap Command.packet := by
      show (s.unanswered decrypt key).filterMap Command.packet = _
      rw [hunanswered, List.filterMap_cons, Command.packet, hrequest]
      rfl
    have hinbound : (s.answer encrypt key command rest tag resCode body).replies.filterMap
        (Reply.packet decrypt key) = (s.view decrypt key).inbound := by
      show (s.replies ++ [_]).filterMap _ = _
      rw [List.filterMap_append, List.filterMap_cons, Reply.packet, hrequest]
      exact List.append_nil _
    show rewire _ ((s.answer encrypt key command rest tag resCode body).replies.filterMap _) _ = _
    rw [hinbound]
    exact congrArg (fun outbound => rewire outbound _ s.client) houtbound.symm

theorem simulates_ignore (hs : Inv decrypt key s) {bytes : Bytes} {rest : List Command}
    (hcommands : s.commands = ⟨none, bytes⟩ :: rest) :
    Simulates decrypt key [] s { s with commands := rest } := by
  have hunanswered : s.unanswered decrypt key =
      ⟨none, bytes⟩ :: (rest ++ s.unread decrypt key) := by
    rw [State.unanswered, hcommands]
    rfl
  refine .silent ⟨hs.asks, ?_, hs.replies, hs.order⟩ ?_
  · intro other hother
    refine hs.commands other ?_
    rw [hunanswered]
    exact List.mem_cons_of_mem _ hother
  · show _ = rewire ((s.unanswered decrypt key).filterMap Command.packet) _ _
    rw [hunanswered]
    rfl

theorem simulates_push (hs : Inv decrypt key s) {message : Message}
    (hmessage : isUnasked decrypt key message = true) :
    Simulates decrypt key [] s { s with replies := s.replies ++ [⟨none, message⟩] } := by
  refine .silent ⟨hs.asks, hs.commands, ?_, hs.order⟩ ?_
  · intro reply hreply
    rcases List.mem_append.mp hreply with hold | hnew
    · exact hs.replies reply hold
    · rw [List.mem_singleton.mp hnew]
      exact hmessage
  · show rewire _ ((s.replies ++ [_]).filterMap _) _ = _
    rw [List.filterMap_append]
    exact congrArg (fun inbound => rewire _ inbound s.client) (List.append_nil _)

theorem simulates_deliver (hs : Inv decrypt key s) {reply : Reply} {rest : List Reply}
    (hreplies : s.replies = reply :: rest) (hopen : s.client.closed = false) :
    Simulates decrypt key (if reply.request.isSome then [.deliver] else []) s
      (s.deliver decrypt key reply rest) := by
  have hfits : reply.Fits decrypt key := hs.replies reply (by simp [hreplies])
  have hrest : ∀ other ∈ rest, other.Fits decrypt key := by
    intro other hother
    exact hs.replies other (by simp [hreplies, hother])
  have hpassed : Inv decrypt key { s with replies := rest } :=
    ⟨hs.asks, hs.commands, hrest, hs.order⟩
  cases hrequest : reply.request with
  | none =>
    have hview : State.view decrypt key { s with replies := rest } = s.view decrypt key := by
      show _ = rewire _ (s.replies.filterMap (Reply.packet decrypt key)) s.client
      rw [hreplies, List.filterMap_cons, Reply.packet, hrequest]
      rfl
    have hsame : s.deliver decrypt key reply rest = { s with replies := rest } := by
      rw [Reply.Fits, hrequest] at hfits
      simp only [isUnasked] at hfits
      simp only [State.deliver, hrequest]
      cases hframe : (plain decrypt key reply.message).bind parseResponse with
      | none => rfl
      | some frame =>
        rw [hframe] at hfits
        simp only [hs.asks.lookup (of_decide_eq_true hfits)]
    rw [hsame]
    exact .silent hpassed hview
  | some i =>
    rw [Reply.Fits, hrequest] at hfits
    obtain ⟨bytes, hplain⟩ := hfits
    have hinbound : (s.view decrypt key).inbound =
        ⟨i, bytes⟩ :: rest.filterMap (Reply.packet decrypt key) := by
      show s.replies.filterMap _ = _
      rw [hreplies, List.filterMap_cons, Reply.packet, hrequest, hplain]
    simp only [State.deliver, hplain, Option.bind_some, hrequest]
    cases hframe : parseResponse bytes with
    | none => exact .single hpassed (step_deliver_of_none hinbound hopen hframe)
    | some frame =>
      refine .single ⟨hs.asks.deliver i frame, hs.commands, hrest, hs.order⟩ ?_
      rw [step_deliver hinbound hopen hframe]
      show some (rewire _ _ ((rewire _ _ s.client).deliver i frame)) = _
      rw [deliver_rewire]
      rfl

/-! ## Runs -/

/-- Every step of the wire is what it is in the view. -/
theorem step_simulates (hinverts : Inverts encrypt decrypt) (hkey : key.length = 32)
    (hs : Inv decrypt key s) {label : Label} (hstep : step encrypt decrypt key s label = some t) :
    Simulates decrypt key (label.calls s) s t := by
  cases label with
  | request cmd payload =>
    simp only [step] at hstep
    split at hstep
    · cases hstep
    · rename_i hcmd
      refine simulates_onClient hs (.request cmd payload) trivial ?_ hstep
      intro cmd' payload' hlabel
      cases hlabel
      exact hcmd
  | insert i => exact simulates_onClient hs (.insert i) trivial (by intros; contradiction) hstep
  | finish i => exact simulates_onClient hs (.finish i) trivial (by intros; contradiction) hstep
  | timeout i => exact simulates_onClient hs (.timeout i) trivial (by intros; contradiction) hstep
  | writerEnd => exact simulates_onClient hs .writerEnd trivial (by intros; contradiction) hstep
  | readerEnd => exact simulates_onClient hs .readerEnd trivial (by intros; contradiction) hstep
  | readerClear => exact simulates_onClient hs .readerClear trivial (by intros; contradiction) hstep
  | enqueue i random =>
    simp only [step] at hstep
    split at hstep
    · rename_i call hcall
      split at hstep
      · rename_i hphase
        rw [← Option.some.inj hstep]
        exact simulates_enqueue hs random hcall hphase
      · cases hstep
    · cases hstep
  | post random cmd payload =>
    simp only [step] at hstep
    split at hstep
    · rename_i hposted
      rw [← Option.some.inj hstep]
      exact simulates_post hs random payload hposted.1
    · cases hstep
  | write =>
    simp only [step] at hstep
    split at hstep
    · rename_i command rest hchannel
      split at hstep
      · rw [← Option.some.inj hstep]
        exact simulates_write hinverts hkey hs hchannel
      · cases hstep
    · cases hstep
  | receive =>
    simp only [step] at hstep
    split at hstep
    · rename_i envelope rest hsocket
      rw [← Option.some.inj hstep]
      exact simulates_receive hs hsocket
    · cases hstep
  | answer tag resCode body =>
    simp only [step] at hstep
    split at hstep
    · rename_i command rest hcommands
      rw [← Option.some.inj hstep, Label.calls, hcommands]
      exact simulates_answer hinverts hkey hs hcommands tag resCode body
    · cases hstep
  | ignore =>
    simp only [step] at hstep
    split at hstep
    · rename_i bytes rest hcommands
      rw [← Option.some.inj hstep]
      exact simulates_ignore hs hcommands
    · cases hstep
  | push message =>
    simp only [step] at hstep
    split at hstep
    · rename_i hmessage
      rw [← Option.some.inj hstep]
      exact simulates_push hs hmessage
    · cases hstep
  | deliver =>
    simp only [step] at hstep
    split at hstep
    · rename_i reply rest hreplies
      split at hstep
      · cases hstep
      · rename_i hopen
        rw [← Option.some.inj hstep, Label.calls, hreplies]
        exact simulates_deliver hs hreplies (Bool.eq_false_of_not_eq_true hopen)
    · cases hstep

theorem inv_run (hinverts : Inverts encrypt decrypt) (hkey : key.length = 32)
    {schedule : List Label} (hrun : exec (step encrypt decrypt key) .init schedule = some s) :
    Inv decrypt key s :=
  exec_invariant (fun _ _ _ hs hstep => (step_simulates hinverts hkey hs hstep).inv) inv_init hrun

end Invariant

/-- Whatever the order of the steps, a run over the wire is a run of the calls, in the view that
takes the ciphers and the commands that no call waits for away: the run of what its steps are in the
view, one after the other.  The server reads the commands in the order in which the channel took
them, without a loss and without a copy. -/
theorem wire_refines {encrypt : Bytes → Bytes → Bytes}
    {decrypt : Bytes → Bytes → Except String Bytes} (hinverts : Inverts encrypt decrypt)
    {key : Bytes} (hkey : key.length = 32) {schedule : List Label} {s : State}
    (hrun : exec (step encrypt decrypt key) .init schedule = some s) :
    exec Request.step .init
        (image (step encrypt decrypt key) (fun s label => label.calls s) .init schedule) =
          some (s.view decrypt key) ∧
      s.deciphered <+: s.enqueued := by
  constructor
  · have hstep : ∀ a label b, Inv decrypt key a → step encrypt decrypt key a label = some b →
        Inv decrypt key b ∧ exec Request.step (a.view decrypt key) (Label.calls a label) =
          some (b.view decrypt key) := by
      intro a label b ha hlabel
      have hnext := step_simulates hinverts hkey ha hlabel
      exact ⟨hnext.inv, hnext.view⟩
    exact exec_image hstep inv_init hrun
  · rw [(inv_run hinverts hkey hrun).order]
    exact List.prefix_append _ _

/-- A command, its answer and a heartbeat, under AES-256-CBC. -/
def sampleTable : List Known :=
  [⟨sampleServer.key, buildCommand 0x9abc CMD_RATES [], blocks [
    0xa982464b0ce525e6e887ee1a6c21fe97]⟩,
  ⟨sampleServer.key, packResponse 3 CMD_RATES 0 [7], blocks [
    0xa24bb90d1931bfa71bc844beef486cb1]⟩,
  ⟨sampleServer.key, buildCommand 0xdef1 CMD_HEARTBEAT [], blocks [
    0x72bec0af71430bf2e9c4da4ca3929cfb]⟩]

/-- A heartbeat goes out between a command and its answer. -/
def sampleSchedule : List Label :=
  [.request CMD_RATES [], .insert 0, .enqueue 0 0x9abc, .post 0xdef1 CMD_HEARTBEAT [], .write,
    .write, .receive, .receive, .answer 3 0 [7], .ignore, .push .other, .deliver, .deliver,
    .finish 0]

/-- In the view there are a call, its answer and nothing else. -/
theorem wire_refines_sampleSchedule :
    ∃ s, exec (step (tableEncrypt sampleTable) (tableDecrypt sampleTable) sampleServer.key) .init
        sampleSchedule = some s ∧
      exec Request.step .init [.request CMD_RATES [], .insert 0, .enqueue 0 0x9abc,
          .answer 3 0 [7], .deliver, .finish 0] =
        some (s.view (tableDecrypt sampleTable) sampleServer.key) ∧
      s.deciphered <+: s.enqueued := by
  obtain ⟨s, hrun⟩ : ∃ s, exec (step (tableEncrypt sampleTable) (tableDecrypt sampleTable)
      sampleServer.key) .init sampleSchedule = some s := ⟨_, rfl⟩
  have himage : image (step (tableEncrypt sampleTable) (tableDecrypt sampleTable) sampleServer.key)
      (fun s label => label.calls s) .init sampleSchedule =
        [.request CMD_RATES [], .insert 0, .enqueue 0 0x9abc, .answer 3 0 [7], .deliver,
          .finish 0] := by decide +kernel
  have hrefines := wire_refines (inverts_table sampleTable (by decide)) sampleServer.key_length hrun
  rw [himage] at hrefines
  exact ⟨s, hrun, hrefines⟩

end Mt5Open.Webterm.Wire

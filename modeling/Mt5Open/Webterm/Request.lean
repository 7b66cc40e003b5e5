import Mt5Open.Lib.Run
import Mt5Open.Webterm.Protocol
import Mathlib.Data.List.AList

/-!
# Concurrent requests on one web-terminal client

`Client` is cloned freely, and every clone shares the sender of the outbound
channel, the `pending` map and the `closed` flag.  This module is the step
relation of `Client::request`, of the reader task and of the server.

The caller of `request` takes four steps: it checks `closed`, it inserts a
fresh waiter under the command id, it enqueues the command, and it waits for
the waiter or for its timeout.  Insertion replaces a waiter that is already
there, and the dropped sender cancels the request that holds the receiver.
The reader task removes the waiter of the id that an answer carries and hands
the answer to it.  When the socket ends, the reader sets `closed` and then
clears `pending`.

The identity of a call is its position in `calls`.  The client does not know
it: an answer carries the id of a command, and `request` fields in the model
are there to say which call an answer was produced for.

The outbound channel is bounded and its sender waits for room.  The model lets
the sender go ahead, so it has all schedules of the bounded channel and more.
-/

namespace Mt5Open.Webterm.Request

open Lib

/-- The errors of `Client::request`. -/
inductive Error
  | closed
  | channelClosed
  | timeout
  | cancelled
  deriving DecidableEq, Repr

/-- The message of `Error::Msg`. -/
def Error.text : Error → String
  | .closed => "web-terminal session closed"
  | .channelClosed => "channel closed"
  | .timeout => "timeout"
  | .cancelled => "cancelled"

/-- A frame as it reaches a caller, with the call that the server answered by it. -/
structure Delivered where
  request : Nat
  frame : Frame
  deriving DecidableEq, Repr

/-- The receiver half of the oneshot channel that a call waits on. -/
inductive Oneshot
  | empty
  | sent (answer : Delivered)
  | dropped
  deriving DecidableEq, Repr

/-- How far one call of `request` has got. -/
inductive Phase
  | checked
  | inserted
  | waiting
  | finished (result : Except Error Delivered)
  deriving DecidableEq

/-- One call of `Client::request`. -/
structure Call where
  cmd : UInt16
  payload : Bytes
  phase : Phase
  rx : Oneshot
  deriving DecidableEq

/-- The caller has returned, and its receiver is gone. -/
def Call.isFinished (call : Call) : Bool :=
  match call.phase with
  | .finished _ => true
  | _ => false

/-- A command that the server has not answered yet, or an answer that the
reader has not read yet. -/
structure Packet where
  request : Nat
  bytes : Bytes
  deriving DecidableEq, Repr

/-- The state that the clones of one client, the reader task and the server
share. -/
structure State where
  calls : List Call
  closed : Bool
  writerAlive : Bool
  /-- The waiter of a command id, by the call that holds the receiver. -/
  pending : AList fun _ : UInt16 => Nat
  outbound : List Packet
  inbound : List Packet
  /-- The answers that the reader read and that no caller was waiting for. -/
  discarded : List Delivered

/-- A client that has just been dialled. -/
def State.init : State where
  calls := []
  closed := false
  writerAlive := true
  pending := ∅
  outbound := []
  inbound := []
  discarded := []

/-- The atomic steps.  A number names a call of `request`. -/
inductive Label
  | request (cmd : UInt16) (payload : Bytes)
  | insert (i : Nat)
  | enqueue (i : Nat) (random : UInt16)
  | finish (i : Nat)
  | timeout (i : Nat)
  | answer (tag : UInt16) (resCode : UInt8) (body : Bytes)
  | deliver
  | writerEnd
  | readerEnd
  | readerClear
  deriving DecidableEq

namespace State

/-- Change one call. -/
def modifyCall (s : State) (i : Nat) (f : Call → Call) : State :=
  { s with calls := s.calls.modify i f }

/-- The waiter of call `i` is dropped without a value. -/
def dropWaiter (s : State) (i : Nat) : State :=
  s.modifyCall i fun call => { call with rx := .dropped }

/-- `is_closed()` at the head of `request`. -/
def request (s : State) (cmd : UInt16) (payload : Bytes) : State :=
  let phase := if s.closed then Phase.finished (.error .closed) else .checked
  { s with calls := s.calls ++ [{ cmd, payload, phase, rx := .empty }] }

/-- A new oneshot channel, and `self.pending.lock().await.insert(cmd, tx)`. -/
def insert (s : State) (i : Nat) (call : Call) : State :=
  let s := match s.pending.lookup call.cmd with
    | some j => s.dropWaiter j
    | none => s
  { s.modifyCall i fun call => { call with phase := .inserted, rx := .empty } with
    pending := s.pending.insert call.cmd i }

/-- The channel takes the command, and the caller waits. -/
def send (s : State) (i : Nat) (bytes : Bytes) : State :=
  { s.modifyCall i fun call => { call with phase := .waiting } with
    outbound := s.outbound ++ [⟨i, bytes⟩] }

/-- `self.send_cmd(cmd, payload).await?`, which fails once the writer task is gone. -/
def enqueue (s : State) (i : Nat) (call : Call) (random : UInt16) : State :=
  if s.writerAlive then s.send i (buildCommand random call.cmd call.payload)
  else
    s.modifyCall i fun call => { call with phase := .finished (.error .channelClosed) }

/-- The server answers the oldest unanswered command with the id it carries. -/
def answer (s : State) (packet : Packet) (rest : List Packet) (tag : UInt16) (resCode : UInt8)
    (body : Bytes) : State :=
  let bytes := LittleEndian.encode 2 tag.toNat ++ slice packet.bytes 2 2 ++ resCode :: body
  { s with outbound := rest, inbound := s.inbound ++ [⟨packet.request, bytes⟩] }

/-- `pending_r.lock().await.remove(&frame.cmd_id)`, then `wait.send(frame)`. -/
def deliver (s : State) (request : Nat) (frame : Frame) : State :=
  let answer : Delivered := ⟨request, frame⟩
  match s.pending.lookup frame.cmdId with
  | none => { s with discarded := s.discarded ++ [answer] }
  | some j =>
    let s := { s with pending := s.pending.erase frame.cmdId }
    -- The send fails when the caller is gone, and the answer goes with it.
    if s.calls[j]?.any (!·.isFinished) then
      s.modifyCall j fun call => { call with rx := .sent answer }
    else { s with discarded := s.discarded ++ [answer] }

/-- `pending_r.lock().await.clear()`. -/
def readerClear (s : State) : State :=
  { s with
    calls := s.calls.mapIdx fun i call =>
      if ⟨call.cmd, i⟩ ∈ s.pending.entries then { call with rx := .dropped } else call
    pending := ∅ }

end State

/-- One atomic step, when it is enabled. -/
def step (s : State) : Label → Option State
  | .request cmd payload => some (s.request cmd payload)
  | .insert i =>
    match s.calls[i]? with
    | some call => if call.phase = .checked then some (s.insert i call) else none
    | none => none
  | .enqueue i random =>
    match s.calls[i]? with
    | some call => if call.phase = .inserted then some (s.enqueue i call random) else none
    | none => none
  | .finish i =>
    match s.calls[i]? with
    | some ⟨_, _, .waiting, .sent answer⟩ =>
      some (s.modifyCall i fun call => { call with phase := .finished (.ok answer) })
    | some ⟨_, _, .waiting, .dropped⟩ =>
      some (s.modifyCall i fun call => { call with phase := .finished (.error .cancelled) })
    | _ => none
  | .timeout i =>
    match s.calls[i]? with
    | some call =>
      if call.phase = .waiting then
        some (s.modifyCall i fun call => { call with phase := .finished (.error .timeout) })
      else none
    | none => none
  | .answer tag resCode body =>
    match s.outbound with
    | packet :: rest => some (s.answer packet rest tag resCode body)
    | [] => none
  | .deliver =>
    match s.inbound with
    | packet :: rest =>
      if s.closed then none
      else
        let s := { s with inbound := rest }
        match parseResponse packet.bytes with
        | some frame => some (s.deliver packet.request frame)
        | none => some s
    | [] => none
  | .writerEnd => some { s with writerAlive := false }
  | .readerEnd => some { s with closed := true }
  | .readerClear => if s.closed then some s.readerClear else none

end Mt5Open.Webterm.Request

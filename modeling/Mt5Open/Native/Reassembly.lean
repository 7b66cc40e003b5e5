import Mt5Open.Native.Compression
import Mt5Open.Native.Frame
import Mathlib.Data.List.AList

/-!
# Message reassembly

Fragments of one message share a sequence number, and the message is complete
on the frame that carries the FINAL flag.  The reassembler keeps one unfinished
message for each sequence number, with its command and the number of fragments.
-/

namespace Mt5Open.Native

def MAX_PENDING : Nat := 256

structure Message where
  command : UInt8
  sequence : UInt16
  payload : Bytes
  fragments : Nat
  deriving DecidableEq, Repr

/-- The unfinished messages, by sequence number. -/
structure Reassembler where
  maxMessage : Nat
  maxPending : Nat
  pending : AList fun _ : UInt16 => UInt8 × Bytes × Nat
  deriving DecidableEq

namespace Reassembler

/-- `Reassembler::new`. -/
def new (maxMessage maxPending : Nat) : Reassembler where
  maxMessage := maxMessage
  maxPending := maxPending
  pending := ∅

/-- `Reassembler::default`. -/
def default : Reassembler := new MAX_MESSAGE MAX_PENDING

/-- The checks of `Reassembler::push` before anything changes. -/
def check (messages : Reassembler) (frame : Frame) (plainPayload : Bytes) : Result Unit :=
  match messages.pending.lookup frame.sequence with
  | some (command, payload, _) =>
    if command ≠ frame.command then reject "command changed within a fragmented message"
    else if messages.maxMessage < payload.length + plainPayload.length then
      reject "reassembled message exceeds configured size limit"
    else .ok ()
  | none =>
    if messages.maxMessage < plainPayload.length then
      reject "reassembled message exceeds configured size limit"
    else if !frame.isFinal ∧ messages.maxPending ≤ messages.pending.entries.length then
      reject "too many pending fragmented messages"
    else .ok ()

/-- Push a frame together with its already-deciphered payload. Returns the
complete message when the FINAL frame arrives. -/
def push (messages : Reassembler) (frame : Frame) (plainPayload : Bytes) :
    Result (Option Message × Reassembler) := do
  messages.check frame plainPayload
  let (command, payload, count) :=
    (messages.pending.lookup frame.sequence).getD (frame.command, [], 0)
  if frame.isFinal then
    return (some
      { command
        sequence := frame.sequence
        payload := payload ++ plainPayload
        fragments := count + 1 },
      { messages with pending := messages.pending.erase frame.sequence })
  else
    return (none,
      { messages with
        pending := messages.pending.insert frame.sequence
          (command, payload ++ plainPayload, count + 1) })

end Reassembler

end Mt5Open.Native

import Noissh.Reassembler

/-! The frames packed into datagrams (`wire/src/lib.rs`). Machine integers are natural
numbers here; the codec narrows them to the widths of the source's fields. -/
namespace Noissh

inductive StreamKind where
  | session
  | forward
  | fileTransfer
  | agent
  | exec
  deriving DecidableEq, Repr

inductive Frame where
  | ack (seq : Nat)
  | input (offset : Nat) (data : Bytes)
  | stateDiff (seq base : Nat) (data : Bytes)
  | resize (cols rows : Nat)
  | ping (stamp : Nat)
  | pong (stamp : Nat)
  | streamOpen (id : Nat) (kind : StreamKind) (metadata : Bytes)
  | streamData (id offset : Nat) (data : Bytes) (fin : Bool)
  | streamAck (id ack window : Nat)
  | streamClose (id : Nat) (status : Int)
  | streamReset (id : Nat)
  | control (data : Bytes)
  deriving DecidableEq, Repr

namespace Frame

/-- The stream a frame belongs to; datagram-class and control frames have none. -/
def streamId : Frame → Option Nat
  | streamOpen id _ _ => some id
  | streamData id _ _ _ => some id
  | streamAck id _ _ => some id
  | streamClose id _ => some id
  | streamReset id => some id
  | _ => none

/-- A `StreamOpen` for the given stream. -/
def opens (id : Nat) : Frame → Bool
  | streamOpen other _ _ => other == id
  | _ => false

end Frame
end Noissh

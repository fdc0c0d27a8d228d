import Noissh.Machine
import Noissh.Shell

/-! One server shell and one client shell that attached to it, over a link that loses,
duplicates and reorders frames. -/
namespace Noissh

/-- What stands behind an emitted `StateDiff`: the screen it was computed from, if it needs
one, and the screen it leads to. -/
structure Emission where
  seq : Nat
  base : Nat
  data : Bytes
  origin : Option Grid
  target : Grid

def Emission.frame (e : Emission) : Frame := .stateDiff e.seq e.base e.data

structure Sync (em : Emulator) where
  server : ServerShell em
  client : ClientShell
  /-- Frames in flight to the client. -/
  down : List Frame := []
  /-- Frames in flight to the server. -/
  up : List Frame := []
  /-- Every `StateDiff` emitted to this client. -/
  sent : List Emission := []

namespace Sync

variable {em : Emulator}

inductive Action where
  | feedOutput (bytes : Bytes)
  | resize (rows cols : Nat)
  | takeResponses
  | pollDiff
  | typeInput (bytes : Bytes)
  | pollFrames
  /-- The link hands over the `n`-th frame in flight, loses it, or doubles it. -/
  | deliverDown (n : Nat)
  | loseDown (n : Nat)
  | copyDown (n : Nat)
  | deliverUp (n : Nat)
  | loseUp (n : Nat)
  | copyUp (n : Nat)
  deriving DecidableEq, Repr

/-- A frame reaches the client. -/
def clientReceives (c : ClientShell) : Frame → ClientShell
  | .stateDiff seq base data => (c.applyStateDiff seq base data).elim c Prod.snd
  | .ack seq => c.onInputAck seq
  | _ => c

/-- A frame reaches the server; it answers input with an acknowledgement. -/
def serverReceives (s : ServerShell em) : Frame → List Frame × ServerShell em
  | .ack seq => ([],s.onStateAck seq)
  | .input offset data => ([(s.ingestInput offset data).1.2],(s.ingestInput offset data).2)
  | _ => ([],s)

/-- The diff a poll emits now. -/
def emission (s : ServerShell em) : Emission :=
  let s := s.capture
  { seq := s.seq
    base := if s.forceFull then 0 else s.ackedSeq
    data := Diff.encodeDiff s.diffBase s.lastSent
    origin := s.diffBase
    target := s.lastSent }

def poll (s : Sync em) : Sync em :=
  match s.server.pollDiff with
  | (some frame,server) => { s with server, down := s.down ++ [frame], sent := s.sent ++ [emission s.server] }
  | (none,server) => { s with server }

/-- A server that does not survive an operation leaves everything as it was. -/
def step (s : Sync em) : Action → Sync em
  | .feedOutput bytes => (s.server.feedOutput bytes).elim s (fun server => { s with server })
  | .resize rows cols => (s.server.resize rows cols).elim s (fun server => { s with server })
  | .takeResponses => { s with server := s.server.takeResponses.2 }
  | .pollDiff => s.poll
  | .typeInput bytes => { s with client := s.client.typeInput bytes }
  | .pollFrames => { s with up := s.up ++ s.client.pollFrames }
  | .deliverDown n =>
    match s.down[n]? with
    | none => s
    | some frame => { s with client := clientReceives s.client frame, down := s.down.eraseIdx n }
  | .loseDown n => { s with down := s.down.eraseIdx n }
  | .copyDown n => { s with down := s.down ++ (s.down[n]?).toList }
  | .deliverUp n =>
    match s.up[n]? with
    | none => s
    | some frame =>
      { s with
        server := (serverReceives s.server frame).2
        up := s.up.eraseIdx n
        down := s.down ++ (serverReceives s.server frame).1 }
  | .loseUp n => { s with up := s.up.eraseIdx n }
  | .copyUp n => { s with up := s.up ++ (s.up[n]?).toList }

def run (schedule : List Action) (s : Sync em) : Sync em := Machine.run step schedule s

end Sync

/-- The states of a shell that any history of its calls leads to. -/
inductive ServerShell.Reachable {em : Emulator} : ServerShell em → Prop
  | new (rows cols : Nat) : Reachable (.new em rows cols)
  | feedOutput {s t : ServerShell em} {bytes : Bytes} : s.Reachable → s.feedOutput bytes = some t → Reachable t
  | resize {s t : ServerShell em} {rows cols : Nat} : s.Reachable → s.resize rows cols = some t → Reachable t
  | takeResponses {s : ServerShell em} : s.Reachable → Reachable s.takeResponses.2
  | onStateAck {s : ServerShell em} (seq : Nat) : s.Reachable → Reachable (s.onStateAck seq)
  | ingestInput {s : ServerShell em} (offset : Nat) (data : Bytes) : s.Reachable → Reachable (s.ingestInput offset data).2
  | pollDiff {s : ServerShell em} : s.Reachable → Reachable s.pollDiff.2
  | rebind {s : ServerShell em} : s.Reachable → Reachable s.rebindToNewClient

namespace Sync

variable {em : Emulator}

/-- A new shell, and a client of the given size. -/
def opened (em : Emulator) (rows cols rows' cols' : Nat) : Sync em :=
  { server := .new em rows cols, client := .new rows' cols' }

/-- A running shell passed to a new client. -/
def rebound (server : ServerShell em) (rows cols : Nat) : Sync em :=
  { server := server.rebindToNewClient, client := .new rows cols }

/-- A lossless round: the server's diff, if there is one, and the client's acknowledgement.
What is in flight stays there. -/
def round (s : Sync em) : Sync em :=
  let client := s.server.pollDiff.1.elim s.client (clientReceives s.client)
  { s.poll with server := s.poll.server.onStateAck client.currentSeq, client, down := s.down }

end Sync
end Noissh

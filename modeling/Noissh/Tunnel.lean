import Noissh.LinkSafety
import Noissh.Packing
import Noissh.Simulation

/-! Two ends of a session, each a Noise session under a stream multiplexer, and a network that
may hand either of them any bytes. What it makes of the frames is a link: a datagram that opens
was sealed by the other end, it opens once, and its frames are taken together. -/
namespace Noissh

/-- One end. Beside the session and the streams it records what has gone through them: no
operation looks at these records. -/
structure Peer (snow : Snow) where
  session : Session snow
  mux : StreamMux
  /-- All datagrams handed out. -/
  sent : List Bytes := []
  /-- All frames given to the session to seal, or dropped for want of an address. -/
  emitted : List Frame := []
  /-- The frames of all datagrams that opened. -/
  opened : List Frame := []
  /-- Bytes written to each stream while it was held. -/
  wrote : Nat → Bytes := fun _ => []
  /-- Bytes given by `read`. -/
  got : Nat → Bytes := fun _ => []
  /-- How many bytes had been written when the stream was first closed. -/
  closedAt : Nat → Option Nat := fun _ => none

namespace Peer

variable {snow : Snow}

inductive Action where
  /-- The peer's address is learnt from the handshake. -/
  | learn (addr : SocketAddr)
  | openStream (kind : StreamKind) (metadata : Bytes)
  | write (id : Nat) (data : Bytes)
  | read (id : Nat)
  | close (id : Nat) (status : Int)
  | reset (id : Nat)
  | takeEvents
  /-- Collect the streams' frames; seal them behind others that are due, or drop them while the
  peer's address is unknown. -/
  | poll (due : List Frame) (heard : Bool)
  /-- Seal frames that are of no stream. -/
  | send (frames : List Frame)
  /-- Bytes from the network. -/
  | receive (src : SocketAddr) (buf : Bytes)
  deriving DecidableEq, Repr

/-- A new end of a session. -/
def new (isClient : Bool) (sessionId : SessionId) (keys : NoiseSession snow) : Peer snow where
  session := .new sessionId keys none
  mux := .new isClient

/-- Seal frames into datagrams; what was sealed before one fails is not handed out either. -/
def seals (e : Peer snow) (frames : List Frame) : Peer snow :=
  { e with
    session := (e.session.sealMany frames maxDatagramPlaintext).2
    sent := e.sent ++ (e.session.sealMany frames maxDatagramPlaintext).1.toOption.getD []
    emitted := e.emitted ++ frames }

/-- The frames a datagram opens to. -/
def frames (e : Peer snow) (src : SocketAddr) (buf : Bytes) : List Frame :=
  (e.session.openPacket src buf).1.toOption.getD []

def step (e : Peer snow) : Action → Peer snow
  | .learn addr => { e with session := { e.session with peerAddr := some addr } }
  | .openStream kind metadata => { e with mux := (e.mux.openStream kind metadata).1 }
  | .write id data =>
    { e with
      mux := e.mux.write id data
      wrote := if e.mux.streams[id]?.isSome then Function.update e.wrote id (e.wrote id ++ data) else e.wrote }
  | .read id =>
    { e with mux := (e.mux.read id).2, got := Function.update e.got id (e.got id ++ (e.mux.read id).1) }
  | .close id status =>
    { e with
      mux := e.mux.close id status
      closedAt :=
        if e.mux.streams[id]?.isSome then Function.update e.closedAt id ((e.closedAt id).or (some (e.wrote id).length))
        else e.closedAt }
  | .reset id => { e with mux := e.mux.reset id }
  | .takeEvents => { e with mux := e.mux.takeEvents.2 }
  | .poll due heard =>
    let polled := { e with mux := e.mux.pollTransmit.1 }
    if heard then polled.seals (due ++ e.mux.pollTransmit.2)
    else { polled with emitted := e.emitted ++ e.mux.pollTransmit.2 }
  | .send frames => e.seals frames
  | .receive src buf =>
    { e with
      session := (e.session.openPacket src buf).2
      mux := (e.frames src buf).foldl StreamMux.onFrame e.mux
      opened := e.opened ++ e.frames src buf }

def run (e : Peer snow) (actions : List Action) : Peer snow := Machine.run step actions e

/-- Frames of no stream are due, all frames are values of their type, and the counter of nonces
stays a word. -/
structure Sealable (e : Peer snow) (due streams : List Frame) : Prop where
  unnamed : ∀ frame ∈ due, frame.streamId = none
  typed : ∀ frame ∈ due ++ streams, frame.Typed
  word : (e.session.sealMany (due ++ streams) maxDatagramPlaintext).2.sendNonce ≤ 2 ^ 64

/-- No counter of the source overflows. -/
def Sound (e : Peer snow) : Action → Prop
  | .write id data => ∀ s, e.mux.streams[id]? = some s → s.sendNext + data.length ≤ u64Max
  | .poll due heard => heard = true → e.Sealable due e.mux.pollTransmit.2
  | .send frames => e.Sealable frames []
  | _ => True

end Peer

abbrev Tunnel (snow : Snow) := Side → Peer snow

namespace Tunnel

variable {snow : Snow}

/-- Two new ends of one session. -/
def start (sessionId : SessionId) (keys : Side → NoiseSession snow) : Tunnel snow := fun x =>
  .new x.isClient sessionId (keys x)

def step (t : Tunnel snow) (a : Side × Peer.Action) : Tunnel snow := Function.update t a.1 ((t a.1).step a.2)

/-- What decrypts with a side's keys was handed out by the other side. -/
def Genuine (t : Tunnel snow) (x : Side) (buf : Bytes) : Prop :=
  ∀ nonce body plaintext, parsePacket buf = .ok (.transport (t x).session.sessionId nonce body) →
    snow.decrypt (t x).session.noise.transport nonce body = .ok plaintext → buf ∈ (t x.other).sent

/-- Nothing is forged, and no counter of the source overflows. -/
def Ideal (t : Tunnel snow) (a : Side × Peer.Action) : Prop :=
  (t a.1).Sound a.2 ∧ ∀ src buf, a.2 = .receive src buf → t.Genuine a.1 buf

end Tunnel
end Noissh

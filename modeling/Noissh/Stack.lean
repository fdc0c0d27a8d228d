import Noissh.Admission
import Noissh.ServerInput
import Noissh.ServerRuns
import Noissh.Tunnel

/-! A client and a server with all its sessions, and a network that may hand either of them any
bytes, those of other clients among them. What the records say is of the client's session. -/
namespace Noissh

variable {snow : Snow} {em : Emulator} {login : Login}

namespace ClientCore

/-- What there is to send besides the streams. -/
def due (c : ClientCore snow) : List Frame :=
  c.openShellFrames.1 ++ c.openShellFrames.2.remoteForwardFrames.1 ++ c.pendingControl ++ c.shell.pollFrames

/-- The handshake has given the client its session: it asks for a shell if it wants one. -/
def asking (c : ClientCore snow) : ClientCore snow := { c with openShellPending := c.wantShell }

/-- A call makes the session. -/
def connects (c : ClientCore snow) (x : Call) : Bool := c.session.isNone && (c.call x).2.session.isSome

/-- The frames a call gives to the session to seal. -/
def emits (c : ClientCore snow) : Call → List Frame
  | .handlePacket buf => if c.connects (.handlePacket buf) then c.asking.gather.1 else []
  | .tick => if c.session.isSome then c.gather.1 else []
  | .keepalive => if c.session.isSome then [.ping 0] else []
  | _ => []

end ClientCore

namespace ServerSession

/-- The frames that go to the client, whose address is needed for it. -/
def addressed (s : ServerSession snow em login) (frames : List Frame) : List Frame :=
  if s.session.peerAddr.isSome then frames else []

def versionFrames (s : ServerSession snow em login) : List Frame :=
  if s.versionSent then [] else s.addressed [.control (ControlMsg.serverVersion pkgVersion).encode]

/-- The diff of the screen after the terminal's output was read. -/
def diffFrames (s : ServerSession snow em login) : List Frame :=
  s.addressed (s.drainPty.shell.elim [] (fun shell => shell.pollDiff.1.toList))

/-- The exit status as the tick finds it after the terminal's output was read. -/
def foundStatus (s : ServerSession snow em login) : Option Int := s.drainPty.detectExit.exitStatus

def exitFrames (s : ServerSession snow em login) : List Frame :=
  s.addressed (s.foundStatus.elim [] (fun status => [.control (ControlMsg.exit status).encode]))

/-- The frames a tick gives to the session to seal. -/
def tickFrames (s : ServerSession snow em login) : List Frame :=
  if s.reaped then []
  else s.versionFrames ++ s.diffFrames ++ s.mux.pollTransmit.2 ++ s.exitFrames

end ServerSession

namespace ServerCore

/-- The datagrams a call gives to send. -/
def sends (c : ServerCore snow em login) : Call → List (SocketAddr × Bytes)
  | .handlePacket order src buf => if order.isPerm c.sessions.keys then (c.handlePacket order src buf).1 else []
  | .tick order => if order.isPerm c.sessions.keys then (c.tick order).elim [] Prod.fst else []
  | _ => []

/-- The frames a call gives to a session to seal. -/
def emits (c : ServerCore snow em login) (sid : SessionId) : Call → List Frame
  | .handlePacket order src buf =>
    if order.isPerm c.sessions.keys then
      match parsePacket buf with
      | .ok (.transport k _ _) => if k = sid then c.replies src sid buf else []
      | _ => []
    else []
  | .tick order =>
    if order.isPerm c.sessions.keys ∧ c.calm order then (c.sessions[sid]?).elim [] (·.tickFrames) else []
  | _ => []

end ServerCore

structure Stack (snow : Snow) (em : Emulator) (login : Login) where
  client : ClientCore snow
  server : ServerCore snow em login
  /-- The server has had the client's session. -/
  met : Bool := false
  /-- All datagrams each has handed out, the server's to all its clients. -/
  sent : Side → List Bytes
  /-- Bytes each has written to each stream it held. -/
  wrote : Side → Nat → Bytes := fun _ _ => []
  /-- Bytes each has read from each stream. -/
  got : Side → Nat → Bytes := fun _ _ => []
  /-- How many bytes had been written when the stream was first closed. -/
  closedAt : Side → Nat → Option Nat := fun _ _ => none
  /-- All bytes typed at the client. -/
  typed : Bytes := []

namespace Stack

inductive Action where
  | client (x : ClientCore.Call)
  | server (x : ServerCore.Call)

/-- The client has sent its first message to the server. -/
def start (client : ClientCore snow) (first : Bytes) (server : ServerCore snow em login) : Stack snow em login where
  client
  server
  sent
    | .client => [first]
    | .server => []

/-- The streams of the client's session, at either side. -/
def mux (sid : SessionId) (s : Stack snow em login) : Side → Option StreamMux
  | .client => some s.client.mux
  | .server => (s.server.sessions[sid]?).map (·.mux)

/-- A stream that a side holds. -/
def stream (sid : SessionId) (s : Stack snow em login) (x : Side) (id : Nat) : Option StreamState :=
  (s.mux sid x).bind (fun m => m.streams[id]?)

/-- The bytes written, with those of this action. -/
def wroteBy (sid : SessionId) (s : Stack snow em login) : Action → Side → Nat → Bytes
  | .client (.streamWrite id data) =>
    if (s.stream sid .client id).isSome then Link.put s.wrote .client id (s.wrote .client id ++ data) else s.wrote
  | .server (.streamWrite k id data) =>
    if k = sid ∧ (s.stream sid .server id).isSome then Link.put s.wrote .server id (s.wrote .server id ++ data) else s.wrote
  | _ => s.wrote

def gotBy (sid : SessionId) (s : Stack snow em login) : Action → Side → Nat → Bytes
  | .client (.streamRead id) => Link.put s.got .client id (s.got .client id ++ (s.client.streamRead id).1)
  | .server (.streamRead k id) =>
    if k = sid then Link.put s.got .server id (s.got .server id ++ (s.server.streamRead k id).1) else s.got
  | _ => s.got

def closedBy (sid : SessionId) (s : Stack snow em login) : Action → Side → Nat → Option Nat
  | .client (.streamClose id) =>
    if (s.stream sid .client id).isSome then
      Link.put s.closedAt .client id ((s.closedAt .client id).or (some (s.wrote .client id).length))
    else s.closedAt
  | .server (.streamCloseStatus k id _) =>
    if k = sid ∧ (s.stream sid .server id).isSome then
      Link.put s.closedAt .server id ((s.closedAt .server id).or (some (s.wrote .server id).length))
    else s.closedAt
  | _ => s.closedAt

def typedBy (s : Stack snow em login) : Action → Bytes
  | .client (.typeInput bytes) => s.typed ++ bytes
  | _ => s.typed

/-- The datagrams an action hands to the network. -/
def handed (s : Stack snow em login) : Action → List Bytes
  | .client x => (s.client.call x).1
  | .server x => (s.server.sends x).map Prod.snd

/-- Whose step an action is. -/
def side : Action → Side
  | .client _ => .client
  | .server _ => .server

def clientBy (s : Stack snow em login) : Action → ClientCore snow
  | .client x => (s.client.call x).2
  | .server _ => s.client

def serverBy (s : Stack snow em login) : Action → ServerCore snow em login
  | .client _ => s.server
  | .server x => s.server.call x

def step (sid : SessionId) (s : Stack snow em login) (a : Action) : Stack snow em login where
  client := s.clientBy a
  server := s.serverBy a
  met := s.met || (s.serverBy a).sessions.contains sid
  sent := Function.update s.sent (side a) (s.sent (side a) ++ s.handed a)
  wrote := s.wroteBy sid a
  got := s.gotBy sid a
  closedAt := s.closedBy sid a
  typed := s.typedBy a

def run (sid : SessionId) (s : Stack snow em login) (schedule : List Action) : Stack snow em login :=
  Machine.run (step sid) schedule s

/-- The Noise session of each side, if it has one. -/
def session (sid : SessionId) (s : Stack snow em login) : Side → Option (Session snow)
  | .client => s.client.session
  | .server => (s.server.sessions[sid]?).map (·.session)

/-- The frames that an action gives to the client's session to seal, at either side. -/
def emits (sid : SessionId) (s : Stack snow em login) : Action → List Frame
  | .client x => s.client.emits x
  | .server x => s.server.emits sid x

/-- What decrypts with a side's keys was handed out by the other side. -/
def Genuine (sid : SessionId) (keys : Side → NoiseSession snow) (s : Stack snow em login) (x : Side) (buf : Bytes) : Prop :=
  ∀ nonce body plaintext, parsePacket buf = .ok (.transport sid nonce body) →
    snow.decrypt (keys x).transport nonce body = .ok plaintext → buf ∈ s.sent x.other

/-- Nothing is forged. -/
def Unforged (sid : SessionId) (keys : Side → NoiseSession snow) (s : Stack snow em login) : Action → Prop
  | .client (.handlePacket buf) => s.Genuine sid keys .client buf
  | .server (.handlePacket _ _ buf) => s.Genuine sid keys .server buf
  | _ => True

/-- No stream is written more bytes than its counter counts. -/
def Counted (sid : SessionId) (s : Stack snow em login) : Action → Prop
  | .client (.streamWrite id data) => ∀ st, s.stream sid .client id = some st → st.sendNext + data.length ≤ u64Max
  | .server (.streamWrite k id data) =>
    k = sid → ∀ st, s.stream sid .server id = some st → st.sendNext + data.length ≤ u64Max
  | _ => True

/-- What a run is asked: nothing is forged; the handshake gives the sides these keys, and no
second one is made for the same session; the numbers in frames are words, and so are the nonces,
of which a frame takes one at most. -/
structure Ideal (sid : SessionId) (keys : Side → NoiseSession snow) (s : Stack snow em login) (a : Action) : Prop where
  unforged : s.Unforged sid keys a
  agreed : ∀ x session, (s.step sid a).session sid x = some session → session.noise = keys x
  once : s.met = true → s.server.sessions[sid]? = none → (s.step sid a).server.sessions[sid]? = none
  typed : ∀ frame ∈ s.emits sid a, frame.Typed
  word : (s.session sid (side a)).elim 0 (·.sendNonce) + (s.emits sid a).length ≤ 2 ^ 64
  counted : s.Counted sid a

end Stack
end Noissh

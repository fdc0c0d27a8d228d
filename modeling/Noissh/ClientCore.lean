import Noissh.Control
import Noissh.Handshake
import Noissh.Shell
import Noissh.StreamMux

/-! The client without its socket (`src/client.rs`): datagrams in, datagrams out. A call that
fails may have changed the client by then, so it returns the client next to its outcome. -/
namespace Noissh

structure ClientCore (snow : Snow) where
  hs : Option (Handshaker snow)
  session : Option (Session snow)
  shell : ClientShell
  known : KnownHosts
  hostLabel : String
  serverAddr : SocketAddr
  rows : UInt16
  cols : UInt16
  term : String
  established : Bool
  serverStatic : Option Bytes
  exited : Option Int
  pendingControl : List Frame
  openShellPending : Bool
  openShellTicks : Nat
  needAck : Bool
  mux : StreamMux
  streamEvents : List StreamEvent
  wantShell : Bool
  wantAgent : Bool
  remoteForwards : List (UInt16 × String)
  remoteForwardTicks : Nat
  knownHostsDirty : Bool
  serverVersion : Option String

namespace ClientCore

variable {snow : Snow}

def openShellMaxTicks : Nat := 300
def remoteForwardMaxTicks : Nat := 300

/-- A short token that starts with a digit. -/
def saneVersion (v : String) : Bool :=
  v.utf8ByteSize ≤ 32 && v.toList.head?.any Char.isDigit &&
    v.toList.all (fun c => c.isAlphanum || c == '.' || c == '-' || c == '+')

/-- A client whose handshake has begun; `termVar` is the terminal type of the environment. -/
def start (hs : Handshaker snow) (termVar : Option String) (known : KnownHosts) (hostLabel : String)
    (serverAddr : SocketAddr) (rows cols : UInt16) (prediction : DisplayMode) : ClientCore snow where
  hs := some hs
  session := none
  shell := (ClientShell.new rows.toNat cols.toNat).withPrediction prediction
  known
  hostLabel
  serverAddr
  rows
  cols
  term := (termVar.filter (fun t => !t.isEmpty)).getD "xterm-256color"
  established := false
  serverStatic := none
  exited := none
  pendingControl := []
  openShellPending := false
  openShellTicks := 0
  needAck := false
  mux := .new true
  streamEvents := []
  wantShell := true
  wantAgent := false
  remoteForwards := []
  remoteForwardTicks := 0
  knownHostsDirty := false
  serverVersion := none

/-- Begin a connection; the session id is drawn at random. -/
def new (snow : Snow) (privateKey : Bytes) (sid : SessionId) (termVar : Option String) (known : KnownHosts)
    (hostLabel : String) (serverAddr : SocketAddr) (rows cols : UInt16) (prediction : DisplayMode) :
    Except RuntimeError (ClientCore snow × Bytes) :=
  match Handshaker.client snow privateKey sid with
  | .error e => .error (.handshakeDriver e)
  | .ok (hs,first) => .ok (start hs termVar known hostLabel serverAddr rows cols prediction,first)

def setWantShell (c : ClientCore snow) (want : Bool) : ClientCore snow := { c with wantShell := want }

def setWantAgent (c : ClientCore snow) (want : Bool) : ClientCore snow := { c with wantAgent := want }

def typeInput (c : ClientCore snow) (bytes : Bytes) : ClientCore snow := { c with shell := c.shell.typeInput bytes }

def pushControl (c : ClientCore snow) (msg : ControlMsg) : ClientCore snow :=
  { c with pendingControl := c.pendingControl ++ [.control msg.encode] }

def resize (c : ClientCore snow) (cols rows : UInt16) : ClientCore snow :=
  pushControl { c with rows, cols } (.resize cols rows)

def sendBye (c : ClientCore snow) : ClientCore snow := c.pushControl .bye

/-- The shell request, repeated a bounded number of times. -/
def openShellFrames (c : ClientCore snow) : List Frame × ClientCore snow :=
  if c.openShellPending then
    ([.control (ControlMsg.openShell c.cols c.rows c.term c.wantAgent).encode],
      { c with
        openShellTicks := c.openShellTicks + 1
        openShellPending := c.openShellTicks + 1 < openShellMaxTicks })
  else ([],c)

/-- The remote-forward requests, repeated a bounded number of times. -/
def remoteForwardFrames (c : ClientCore snow) : List Frame × ClientCore snow :=
  if ¬c.remoteForwards.isEmpty ∧ c.remoteForwardTicks < remoteForwardMaxTicks then
    (c.remoteForwards.map (fun (port,target) => .control (ControlMsg.remoteForward port target).encode),
      { c with remoteForwardTicks := c.remoteForwardTicks + 1 })
  else ([],c)

/-- Everything there is to send, taken out of the queues. -/
def gather (c : ClientCore snow) : List Frame × ClientCore snow :=
  let (shell,c) := c.openShellFrames
  let (forwards,c) := c.remoteForwardFrames
  let control := c.pendingControl
  let (mux,streams) := c.mux.pollTransmit
  let (events,mux) := mux.takeEvents
  (shell ++ forwards ++ control ++ c.shell.pollFrames ++ streams,
    { c with pendingControl := [], mux, streamEvents := c.streamEvents ++ events })

def outgoing (c : ClientCore snow) : Except RuntimeError (List Bytes) × ClientCore snow :=
  match c.session with
  | none => (.ok [],c)
  | some session =>
    let (frames,c) := c.gather
    if frames.isEmpty then (.ok [],c)
    else
      match session.sealMany frames maxDatagramPlaintext with
      | (.error e,session) => (.error (.transport e),{ c with session := some session })
      | (.ok packets,session) => (.ok packets,{ c with session := some session, needAck := false })

def tick (c : ClientCore snow) : List Bytes × ClientCore snow :=
  match c.outgoing with
  | (.ok packets,c) => (packets,c)
  | (.error _,c) => ([],c)

/-- The server's version as its handshake message gave it. -/
def learnVersion (c : ClientCore snow) (hs : Handshaker snow) : Option String :=
  match c.serverVersion with
  | some version => some version
  | none => (hs.peerPayload.bind ControlMsg.fromUtf8).filter saneVersion

/-- The server's key is trusted: the handshake becomes a session. -/
def establish (c : ClientCore snow) (hs : Handshaker snow) (out : List Bytes) :
    Except RuntimeError (List Bytes) × ClientCore snow :=
  match hs.intoSession (some c.serverAddr) with
  | .error e => (.error (.handshakeDriver e),{ c with hs := none })
  | .ok session =>
    let c := { c with hs := none, session := some session, established := true, openShellPending := c.wantShell }
    match c.outgoing with
    | (.error e,c) => (.error e,c)
    | (.ok packets,c) => (.ok (out ++ packets),c)

/-- The handshake is over: check the server's key. -/
def finishHandshake (c : ClientCore snow) (hs : Handshaker snow) (out : List Bytes) :
    Except RuntimeError (List Bytes) × ClientCore snow :=
  match hs.remoteStatic with
  | none => (.error .handshake,c)
  | some serverStatic =>
    match verifyServer c.known c.hostLabel serverStatic with
    | (.mismatch,known) => (.error (.hostKeyMismatch c.hostLabel),{ c with known })
    | (tofu,known) =>
      establish { c with
        known
        knownHostsDirty := c.knownHostsDirty || tofu == .new
        serverStatic := some serverStatic
        serverVersion := c.learnVersion hs } hs out

def handleHandshake (c : ClientCore snow) (body : Bytes) : Except RuntimeError (List Bytes) × ClientCore snow :=
  match c.hs with
  | none => (.error .handshake,c)
  | some hs =>
    match hs.read body with
    | (.error e,hs) => (.error (.handshakeDriver e),{ c with hs := some hs })
    | (.ok outcome,hs) =>
      let c := { c with hs := some hs }
      if outcome.finished then c.finishHandshake hs outcome.reply.toList else (.ok outcome.reply.toList,c)

def onControl (c : ClientCore snow) (data : Bytes) : ClientCore snow :=
  match ControlMsg.decode data with
  | .ok (.exit status) => { c with exited := some status }
  | .ok (.serverVersion v) => if c.serverVersion.isNone ∧ saneVersion v then { c with serverVersion := some v } else c
  | _ => c

/-- One frame of an authenticated packet. The client's grid is well formed, on which a diff
always returns. -/
def onFrame (c : ClientCore snow) (frame : Frame) : ClientCore snow :=
  match frame with
  | .stateDiff seq base data =>
    { c with shell := (c.shell.applyStateDiff seq base data).elim c.shell Prod.snd, needAck := true }
  | .ack seq => { c with shell := c.shell.onInputAck seq }
  | .control data => c.onControl data
  | .streamOpen _ _ _ | .streamData _ _ _ _ | .streamAck _ _ _ | .streamClose _ _ | .streamReset _ =>
    { c with mux := c.mux.onFrame frame }
  | _ => c

/-- The frames of an authenticated packet, and what follows from them. -/
def onFrames (c : ClientCore snow) (frames : List Frame) : ClientCore snow :=
  let c := frames.foldl onFrame c
  { c with
    mux := c.mux.takeEvents.2
    streamEvents := c.streamEvents ++ c.mux.takeEvents.1
    openShellPending := if 0 < c.shell.currentSeq then false else c.openShellPending }

/-- A packet that does not open is dropped. -/
def handleTransport (c : ClientCore snow) (buf : Bytes) : ClientCore snow :=
  match c.session with
  | none => c
  | some session =>
    match session.openPacket c.serverAddr buf with
    | (.error _,session) => { c with session := some session }
    | (.ok frames,session) => onFrames { c with session := some session } frames

def handlePacket (c : ClientCore snow) (buf : Bytes) : Except RuntimeError (List Bytes) × ClientCore snow :=
  match parsePacket buf with
  | .error e => (.error (.transport e),c)
  | .ok (.handshake _ body) => c.handleHandshake body
  | .ok (.transport _ _ _) => (.ok [],c.handleTransport buf)

def openForward (c : ClientCore snow) (target : String) : ClientCore snow × Nat :=
  let (mux,id) := c.mux.openStream .forward (ControlMsg.utf8 target)
  ({ c with mux },id)

def openXfer (c : ClientCore snow) (request : Bytes) : ClientCore snow × Nat :=
  let (mux,id) := c.mux.openStream .fileTransfer request
  ({ c with mux },id)

def openExec (c : ClientCore snow) (cmd : String) : ClientCore snow × Nat :=
  let (mux,id) := c.mux.openStream .exec (ControlMsg.utf8 cmd)
  ({ c with mux },id)

def streamWrite (c : ClientCore snow) (id : Nat) (data : Bytes) : ClientCore snow :=
  { c with mux := c.mux.write id data }

def streamRead (c : ClientCore snow) (id : Nat) : Bytes × ClientCore snow :=
  let (data,mux) := c.mux.read id
  (data,{ c with mux })

def streamClose (c : ClientCore snow) (id : Nat) : ClientCore snow := { c with mux := c.mux.close id 0 }

def requestRemoteForward (c : ClientCore snow) (bindPort : UInt16) (target : String) : ClientCore snow :=
  { c with remoteForwards := c.remoteForwards ++ [(bindPort,target)], remoteForwardTicks := 0 }

def takeStreamEvents (c : ClientCore snow) : List StreamEvent × ClientCore snow :=
  (c.streamEvents,{ c with streamEvents := [] })

/-- A ping, to keep the path open. -/
def keepalive (c : ClientCore snow) : Option Bytes × ClientCore snow :=
  match c.session with
  | none => (none,c)
  | some session =>
    let (packet,session) := session.sealFrames [.ping 0]
    (packet.toOption,{ c with session := some session })

end ClientCore
end Noissh

import Noissh.Control
import Noissh.Handshake
import Noissh.Shell
import Noissh.StreamMux

/-! The server without its socket (`src/server.rs`): datagrams in, datagrams out, for many
sessions at once. The order in which a hash map is walked is an argument of the calls that
walk one. -/
namespace Noissh

structure SpawnRequest where
  user : Option String
  command : Option (List String)
  env : List (String × String)
  term : String
  rows : UInt16
  cols : UInt16
  deriving DecidableEq, Repr

/-- The login backend and the terminals it hands out (`pty/src/lib.rs`). What the operating
system answers is in their state. -/
structure Login where
  State : Type
  Handle : Type
  spawn : State → SpawnRequest → Option Handle × State
  /-- The number of bytes taken from the front, or an error. -/
  write : Handle → Bytes → Option Nat × Handle
  /-- The output read until none is ready. -/
  read : Handle → List Bytes × Handle
  /-- The status of a child that has exited. -/
  tryWait : Handle → Option Int × Handle
  kill : Handle → Handle
  setWinsize : Handle → UInt16 → UInt16 → Handle
  setNonblocking : Handle → Handle

structure ServerSession (snow : Snow) (em : Emulator) (login : Login) where
  session : Session snow
  shell : Option (ServerShell em)
  pty : Option login.Handle
  rows : UInt16
  cols : UInt16
  clientKey : Bytes
  idleTicks : Nat
  exitStatus : Option Int
  exitTicks : Nat
  mux : StreamMux
  versionSent : Bool
  /-- The typed bytes its terminal has accepted; nothing reads this. -/
  typed : Bytes

structure ServerCore (snow : Snow) (em : Emulator) (login : Login) where
  privateKey : Bytes
  authorized : AuthorizedKeys
  backend : login.State
  command : Option (List String)
  user : Option String
  pending : Std.TreeMap SessionId (Handshaker snow)
  sessions : Std.TreeMap SessionId (ServerSession snow em login)
  everActive : Bool
  streamEvents : List (SessionId × StreamEvent)
  remoteForwardRequests : List (SessionId × UInt16 × String)
  agentSocketRequests : List (SessionId × String)
  /-- The private directory of agent sockets, and the process id. -/
  agentDir : String
  pid : Nat
  /-- Every call of `spawn`, with the session and the key it was for; nothing reads this. -/
  spawned : List (SessionId × Bytes)

def exitRetransmitTicks : Nat := 50
def idleReapTicks : Nat := 20000
def maxPendingHandshakes : Nat := 512

/-- `CARGO_PKG_VERSION`. -/
def pkgVersion : String := "0.6.1"

def hexDigit (n : Nat) : Char := if n < 10 then Char.ofNat (48 + n) else Char.ofNat (87 + n)

def agentSocketPath (agentDir : String) (pid : Nat) (sid : SessionId) : String :=
  let hex := String.ofList (sid.flatMap (fun byte => [hexDigit (byte.toNat / 16),hexDigit (byte.toNat % 16)]))
  agentDir ++ "/agent-" ++ toString pid ++ "-" ++ hex ++ ".sock"

namespace ServerSession

variable {snow : Snow} {em : Emulator} {login : Login}

/-- A session of a client that has just been admitted. -/
def fresh (session : Session snow) (clientKey : Bytes) : ServerSession snow em login where
  session
  shell := none
  pty := none
  rows := 24
  cols := 80
  clientKey
  idleTicks := 0
  exitStatus := none
  exitTicks := 0
  mux := .new false
  versionSent := false
  typed := []

/-- It has a shell or a terminal that has not exited. -/
def running (s : ServerSession snow em login) : Bool := s.exitStatus.isNone && (s.shell.isSome || s.pty.isSome)

/-- The shell and terminal of a client's previous session move to its new one. -/
def inherit (s old : ServerSession snow em login) : ServerSession snow em login :=
  { s with
    shell := old.shell.map ServerShell.rebindToNewClient
    pty := old.pty
    rows := old.rows
    cols := old.cols }

/-- Typed bytes go to the terminal, whose answer is not looked at. -/
def onInput (s : ServerSession snow em login) (offset : Nat) (data : Bytes) : List Frame × ServerSession snow em login :=
  match s.shell with
  | none => ([],s)
  | some shell =>
    let ((bytes,ack),shell) := shell.ingestInput offset data
    match s.pty with
    | none => ([ack],{ s with shell := some shell })
    | some pty =>
      let (taken,pty) := login.write pty bytes
      ([ack],{ s with shell := some shell, pty := some pty, typed := s.typed ++ bytes.take (taken.getD 0) })

def onStateAck (s : ServerSession snow em login) (seq : Nat) : ServerSession snow em login :=
  { s with shell := s.shell.map (fun shell => shell.onStateAck seq) }

/-- No shell of a server panics on a size, so none is left as it was. -/
def resize (s : ServerSession snow em login) (cols rows : UInt16) : ServerSession snow em login :=
  { s with
    rows
    cols
    pty := s.pty.map (fun pty => login.setWinsize pty rows cols)
    shell := s.shell.map (fun shell => (shell.resize rows.toNat cols.toNat).getD shell) }

/-- The client is done. -/
def bye (s : ServerSession snow em login) : ServerSession snow em login :=
  { s with exitStatus := some (s.exitStatus.getD 0), exitTicks := 0 }

/-- Seal frames for the peer, if its address is known. -/
def sealTo (s : ServerSession snow em login) (frames : List Frame) :
    Option (SocketAddr × Bytes) × ServerSession snow em login :=
  match s.session.peerAddr with
  | none => (none,s)
  | some addr =>
    let (packet,session) := s.session.sealFrames frames
    (packet.toOption.map (fun packet => (addr,packet)),{ s with session })

def announceVersion (s : ServerSession snow em login) : List (SocketAddr × Bytes) × ServerSession snow em login :=
  if s.versionSent then ([],s)
  else
    let (packet,s) := s.sealTo [.control (ControlMsg.serverVersion pkgVersion).encode]
    (packet.toList,{ s with versionSent := packet.isSome })

/-- One read of output, unless the emulator panics on it. Answers to the terminal's queries are
written back. -/
def feed (sp : Option (ServerShell em) × login.Handle) (bytes : Bytes) : Option (Option (ServerShell em) × login.Handle) :=
  match sp.1 with
  | none => some sp
  | some shell =>
    (shell.feedOutput bytes).map (fun shell =>
      let (reply,shell) := shell.takeResponses
      (some shell,if reply.isEmpty then sp.2 else (login.write sp.2 reply).2))

/-- All reads of a tick. -/
def readPty (s : ServerSession snow em login) : Option (ServerSession snow em login) :=
  match s.pty with
  | none => some s
  | some pty =>
    ((login.read pty).1.foldlM feed (s.shell,(login.read pty).2)).map (fun (shell,pty) => { s with shell, pty := some pty })

/-- Where the emulator panics the tick does not go on, whatever is said of it here. -/
def drainPty (s : ServerSession snow em login) : ServerSession snow em login := s.readPty.getD s

def emitDiff (s : ServerSession snow em login) : List (SocketAddr × Bytes) × ServerSession snow em login :=
  match s.shell, s.session.peerAddr with
  | some shell, some _ =>
    let (diff,shell) := shell.pollDiff
    let s := { s with shell := some shell }
    match diff with
    | none => ([],s)
    | some frame =>
      let (packet,s) := s.sealTo [frame]
      (packet.toList,s)
  | _, _ => ([],s)

def emitStreams (s : ServerSession snow em login) :
    List (SocketAddr × Bytes) × List StreamEvent × ServerSession snow em login :=
  let (mux,frames) := s.mux.pollTransmit
  let (events,mux) := mux.takeEvents
  let s := { s with mux }
  match s.session.peerAddr with
  | none => ([],events,s)
  | some addr =>
    if frames.isEmpty then ([],events,s)
    else
      match s.session.sealMany frames maxDatagramPlaintext with
      | (.error _,session) => ([],events,{ s with session })
      | (.ok packets,session) => (packets.map (fun packet => (addr,packet)),events,{ s with session })

/-- The child has exited: keep its status and let the terminal go. -/
def detectExit (s : ServerSession snow em login) : ServerSession snow em login :=
  match s.exitStatus, s.pty with
  | none, some pty =>
    match login.tryWait pty with
    | (some status,_) => { s with exitStatus := some status, pty := none }
    | (none,pty) => { s with pty := some pty }
  | _, _ => s

/-- The exit notice, and whether it has been sent often enough. -/
def noticeExit (s : ServerSession snow em login) :
    List (SocketAddr × Bytes) × Bool × ServerSession snow em login :=
  match s.exitStatus with
  | none => ([],false,s)
  | some status =>
    let (packet,s) := s.sealTo [.control (ControlMsg.exit status).encode]
    let s := { s with exitTicks := s.exitTicks + 1 }
    (packet.toList,decide (exitRetransmitTicks ≤ s.exitTicks),s)

/-- The tick ends the silence of the client by killing its terminal. -/
def reaped (s : ServerSession snow em login) : Bool :=
  decide (idleReapTicks ≤ s.idleTicks + 1) && s.exitStatus.isNone

/-- The emulator panics on what the terminal's child has written. Nothing catches it. -/
def panics (s : ServerSession snow em login) : Bool := !s.reaped && s.readPty.isNone

/-- One session's tick, unless the emulator panics: its datagrams and events, and whether it is
over. A session that was silent for too long is killed. -/
def tick (s : ServerSession snow em login) :
    List (SocketAddr × Bytes) × List StreamEvent × Bool × ServerSession snow em login :=
  let s := { s with idleTicks := min (s.idleTicks + 1) u32Max }
  if idleReapTicks ≤ s.idleTicks ∧ s.exitStatus.isNone then ([],[],true,{ s with pty := s.pty.map login.kill })
  else
    let (version,s) := s.announceVersion
    let (diff,s) := s.drainPty.emitDiff
    let (streams,events,s) := s.emitStreams
    let (exit,finished,s) := s.detectExit.noticeExit
    (version ++ diff ++ streams ++ exit,events,finished,s)

end ServerSession

namespace ServerCore

variable {snow : Snow} {em : Emulator} {login : Login}

def new (privateKey : Bytes) (authorized : AuthorizedKeys) (backend : login.State) (command : Option (List String))
    (user : Option String) (agentDir : String) (pid : Nat) : ServerCore snow em login where
  privateKey
  authorized
  backend
  command
  user
  pending := {}
  sessions := {}
  everActive := false
  streamEvents := []
  remoteForwardRequests := []
  agentSocketRequests := []
  agentDir
  pid
  spawned := []

/-- Change a session, if there is one. -/
def update (c : ServerCore snow em login) (sid : SessionId)
    (f : ServerSession snow em login → ServerSession snow em login) : ServerCore snow em login :=
  match c.sessions[sid]? with
  | none => c
  | some s => { c with sessions := c.sessions.insert sid (f s) }

/-- A client was admitted. If it left a running shell behind, it gets it back. -/
def attach (c : ServerCore snow em login) (order : List SessionId) (sid : SessionId) (session : Session snow)
    (clientKey : Bytes) : ServerCore snow em login :=
  let existing := order.findSome? (fun k =>
    (c.sessions[k]?).bind (fun s => if s.clientKey = clientKey ∧ s.running then some (k,s) else none))
  let sessions :=
    match existing with
    | none => c.sessions.insert sid (.fresh session clientKey)
    | some (k,old) => (c.sessions.erase k).insert sid ((ServerSession.fresh session clientKey).inherit old)
  { c with sessions, everActive := true }

/-- The handshake is over: the client's key must be authorized. -/
def admitClient (c : ServerCore snow em login) (order : List SessionId) (src : SocketAddr) (sid : SessionId)
    (hs : Handshaker snow) (out : List (SocketAddr × Bytes)) :
    Except RuntimeError (List (SocketAddr × Bytes)) × ServerCore snow em login :=
  match hs.remoteStatic with
  | none => (.error .handshake,c)
  | some clientStatic =>
    if authorizeClient c.authorized clientStatic then
      match hs.intoSession (some src) with
      | .error e => (.error (.handshakeDriver e),c)
      | .ok session => (.ok out,c.attach order sid session clientStatic)
    else (.ok out,c)

/-- A handshake message for a handshake that was pending, or is new. A failed read keeps a
pending handshake. -/
def readHandshake (c : ServerCore snow em login) (order : List SessionId) (src : SocketAddr) (sid : SessionId)
    (hs : Handshaker snow) (wasPending : Bool) (body : Bytes) :
    Except RuntimeError (List (SocketAddr × Bytes)) × ServerCore snow em login :=
  match hs.read body with
  | (.error _,hs) => (.ok [],if wasPending then { c with pending := c.pending.insert sid hs } else c)
  | (.ok outcome,hs) =>
    let out := outcome.reply.toList.map (fun reply => (src,reply))
    if outcome.finished then c.admitClient order src sid hs out
    else (.ok out,{ c with pending := c.pending.insert sid hs })

def handleHandshake (c : ServerCore snow em login) (order : List SessionId) (src : SocketAddr) (sid : SessionId)
    (body : Bytes) : Except RuntimeError (List (SocketAddr × Bytes)) × ServerCore snow em login :=
  if c.sessions.contains sid then (.ok [],c)
  else
    match c.pending[sid]? with
    | some hs => readHandshake { c with pending := c.pending.erase sid } order src sid hs true body
    | none =>
      if body.length + 9 < minHandshakeInit then (.ok [],c)
      else if maxPendingHandshakes ≤ c.pending.size then (.ok [],c)
      else
        match Handshaker.server snow c.privateKey sid (ControlMsg.utf8 pkgVersion) with
        | .error e => (.error (.handshakeDriver e),c)
        | .ok hs => c.readHandshake order src sid hs false body

/-- Start a shell, unless there is a terminal already. -/
def openShell (c : ServerCore snow em login) (sid : SessionId) (cols rows : UInt16) (term : String) (agent : Bool) :
    ServerCore snow em login :=
  match c.sessions[sid]? with
  | none => c
  | some s =>
    if s.pty.isSome then c
    else
      let agentPath := if agent ∧ c.user.isNone then some (agentSocketPath c.agentDir c.pid sid) else none
      let request : SpawnRequest := {
        user := c.user
        command := c.command
        env := (agentPath.map (fun path => ("SSH_AUTH_SOCK",path))).toList
        term
        rows
        cols }
      let (handle,backend) := login.spawn c.backend request
      let c := { c with backend, spawned := c.spawned ++ [(sid,s.clientKey)] }
      match handle with
      | none => c
      | some handle =>
        let s := { s with
          rows
          cols
          shell := some (.new em rows.toNat cols.toNat)
          pty := some (login.setNonblocking handle)
          typed := [] }
        { c with
          sessions := c.sessions.insert sid s
          agentSocketRequests := c.agentSocketRequests ++ (agentPath.map (fun path => (sid,path))).toList }

def handleControl (c : ServerCore snow em login) (sid : SessionId) : ControlMsg → ServerCore snow em login
  | .openShell cols rows term agent => c.openShell sid cols rows term agent
  | .resize cols rows => c.update sid (fun s => s.resize cols rows)
  | .remoteForward bindPort target =>
    { c with remoteForwardRequests := c.remoteForwardRequests ++ [(sid,bindPort,target)] }
  | .bye => c.update sid .bye
  | _ => c

/-- One frame of an authenticated packet, with the frames that answer it. -/
def onFrame (sid : SessionId) (rc : List Frame × ServerCore snow em login) (frame : Frame) :
    List Frame × ServerCore snow em login :=
  let (replies,c) := rc
  match frame with
  | .input offset data =>
    match c.sessions[sid]? with
    | none => (replies,c)
    | some s =>
      let (acks,s) := s.onInput offset data
      (replies ++ acks,{ c with sessions := c.sessions.insert sid s })
  | .ack seq => (replies,c.update sid (fun s => s.onStateAck seq))
  | .control data =>
    match ControlMsg.decode data with
    | .ok msg => (replies,c.handleControl sid msg)
    | .error _ => (replies,c)
  | .ping stamp => (replies ++ [.pong stamp],c)
  | .streamOpen _ _ _ | .streamData _ _ _ _ | .streamAck _ _ _ | .streamClose _ _ | .streamReset _ =>
    (replies,c.update sid (fun s => { s with mux := s.mux.onFrame frame }))
  | _ => (replies,c)

/-- The events of a session's streams are handed to the driver. -/
def surfaceEvents (c : ServerCore snow em login) (sid : SessionId) : ServerCore snow em login :=
  match c.sessions[sid]? with
  | none => c
  | some s =>
    let (events,mux) := s.mux.takeEvents
    { c with
      sessions := c.sessions.insert sid { s with mux }
      streamEvents := c.streamEvents ++ events.map (fun event => (sid,event)) }

def sendReplies (c : ServerCore snow em login) (sid : SessionId) (replies : List Frame) :
    Except RuntimeError (List (SocketAddr × Bytes)) × ServerCore snow em login :=
  match c.sessions[sid]? with
  | none => (.ok [],c)
  | some s =>
    match s.session.peerAddr with
    | none => (.ok [],c)
    | some addr =>
      if replies.isEmpty then (.ok [],c)
      else
        match s.session.sealMany replies maxDatagramPlaintext with
        | (.error e,session) => (.error (.transport e),{ c with sessions := c.sessions.insert sid { s with session } })
        | (.ok packets,session) =>
          (.ok (packets.map (fun packet => (addr,packet))),{ c with sessions := c.sessions.insert sid { s with session } })

/-- An authenticated packet of a session ends its silence. -/
def receive (c : ServerCore snow em login) (sid : SessionId) (s : ServerSession snow em login) (session : Session snow)
    (frames : List Frame) : List Frame × ServerCore snow em login :=
  frames.foldl (onFrame sid) ([],{ c with sessions := c.sessions.insert sid { s with session, idleTicks := 0 } })

def handleTransport (c : ServerCore snow em login) (src : SocketAddr) (sid : SessionId) (buf : Bytes) :
    Except RuntimeError (List (SocketAddr × Bytes)) × ServerCore snow em login :=
  match c.sessions[sid]? with
  | none => (.ok [],c)
  | some s =>
    match s.session.openPacket src buf with
    | (.error e,session) => (.error (.transport e),{ c with sessions := c.sessions.insert sid { s with session } })
    | (.ok frames,session) =>
      let (replies,c) := c.receive sid s session frames
      (c.surfaceEvents sid).sendReplies sid replies

def tryHandlePacket (c : ServerCore snow em login) (order : List SessionId) (src : SocketAddr) (buf : Bytes) :
    Except RuntimeError (List (SocketAddr × Bytes)) × ServerCore snow em login :=
  match parsePacket buf with
  | .error e => (.error (.transport e),c)
  | .ok (.handshake sid body) => c.handleHandshake order src sid body
  | .ok (.transport sid _ _) => c.handleTransport src sid buf

/-- Malformed and unauthorized packets are dropped. -/
def handlePacket (c : ServerCore snow em login) (order : List SessionId) (src : SocketAddr) (buf : Bytes) :
    List (SocketAddr × Bytes) × ServerCore snow em login :=
  ((c.tryHandlePacket order src buf).1.toOption.getD [],(c.tryHandlePacket order src buf).2)

/-- What a tick has sent so far, the sessions it found to be over, the events, and the core. -/
structure Ticking (snow : Snow) (em : Emulator) (login : Login) where
  out : List (SocketAddr × Bytes)
  finished : List SessionId
  events : List (SessionId × StreamEvent)
  core : ServerCore snow em login

def tickSession (t : Ticking snow em login) (sid : SessionId) : Ticking snow em login :=
  match t.core.sessions[sid]? with
  | none => t
  | some s =>
    let (out,events,done,s) := s.tick
    { out := t.out ++ out
      finished := if done then t.finished ++ [sid] else t.finished
      events := t.events ++ events.map (fun event => (sid,event))
      core := { t.core with sessions := t.core.sessions.insert sid s } }

/-- The tick of a server on which no emulator panics. -/
def tickAll (c : ServerCore snow em login) (order : List SessionId) : List (SocketAddr × Bytes) × ServerCore snow em login :=
  let t := order.foldl tickSession { out := [], finished := [], events := [], core := c }
  (t.out,{ t.core with
    sessions := t.finished.foldl (fun sessions sid => sessions.erase sid) t.core.sessions
    streamEvents := t.core.streamEvents ++ t.events })

/-- No emulator panics in a tick of these sessions. -/
def calm (c : ServerCore snow em login) (order : List SessionId) : Bool :=
  order.all (fun sid => (c.sessions[sid]?).all (fun s => !s.panics))

/-- A panic of one session's emulator takes down the server, with the terminals of all. -/
def tick (c : ServerCore snow em login) (order : List SessionId) :
    Option (List (SocketAddr × Bytes) × ServerCore snow em login) :=
  if c.calm order then some (c.tickAll order) else none

def takeStreamEvents (c : ServerCore snow em login) : List (SessionId × StreamEvent) × ServerCore snow em login :=
  (c.streamEvents,{ c with streamEvents := [] })

def takeRemoteForwardRequests (c : ServerCore snow em login) :
    List (SessionId × UInt16 × String) × ServerCore snow em login :=
  (c.remoteForwardRequests,{ c with remoteForwardRequests := [] })

def takeAgentSocketRequests (c : ServerCore snow em login) : List (SessionId × String) × ServerCore snow em login :=
  (c.agentSocketRequests,{ c with agentSocketRequests := [] })

/-- Open a stream from the server's side: an agent's, a command's stderr or a forward's. -/
def openStream (c : ServerCore snow em login) (sid : SessionId) (kind : StreamKind) (metadata : Bytes) :
    Option Nat × ServerCore snow em login :=
  ((c.sessions[sid]?).map (fun s => (s.mux.openStream kind metadata).2),
    c.update sid (fun s => { s with mux := (s.mux.openStream kind metadata).1 }))

def streamRead (c : ServerCore snow em login) (sid : SessionId) (id : Nat) : Bytes × ServerCore snow em login :=
  (((c.sessions[sid]?).map (fun s => (s.mux.read id).1)).getD [],
    c.update sid (fun s => { s with mux := (s.mux.read id).2 }))

def streamWrite (c : ServerCore snow em login) (sid : SessionId) (id : Nat) (data : Bytes) : ServerCore snow em login :=
  c.update sid (fun s => { s with mux := s.mux.write id data })

def streamCloseStatus (c : ServerCore snow em login) (sid : SessionId) (id : Nat) (status : Int) :
    ServerCore snow em login := c.update sid (fun s => { s with mux := s.mux.close id status })

def streamReset (c : ServerCore snow em login) (sid : SessionId) (id : Nat) : ServerCore snow em login :=
  c.update sid (fun s => { s with mux := s.mux.reset id })

end ServerCore

/-- Terminals that take no more than so many bytes at a time. -/
def limitedLogin : Login where
  State := Nat
  Handle := Nat
  spawn capacity _ := (some capacity,capacity)
  write capacity bytes := (if capacity = 0 then none else some (min capacity bytes.length),capacity)
  read capacity := ([],capacity)
  tryWait capacity := (none,capacity)
  kill := id
  setWinsize capacity _ _ := capacity
  setNonblocking := id

def silentEmulator : Emulator where
  Parser := Unit
  init := ()
  advance _ _ := ((),[])
  width _ := 1

namespace ServerCore

def clientKey : PublicKey := ⟨List.replicate 32 9,rfl⟩

def sampleId : SessionId := List.replicate 8 5

/-- What the client seals under a nonce. -/
def samplePacket (nonce : Nat) (frames : List Frame) : SocketAddr × Bytes :=
  (.v4 1 5,pktTransport :: (sampleId ++ toBeBytes nonce ++ (encodeFrames frames ++ Clear.tag nonce)))

/-- The two messages of an authorized client's handshake. -/
def firstMessage : SocketAddr × Bytes := (.v4 1 5,buildHandshakePacket sampleId (Clear.pad (32 + minHandshakeInit)))
def thirdMessage : SocketAddr × Bytes := (.v4 1 5,buildHandshakePacket sampleId (clientKey.bytes ++ Clear.pad 32))

/-- The handshake, and the client's request for a shell. -/
def greeting : List (SocketAddr × Bytes) :=
  [firstMessage,thirdMessage,samplePacket 0 [.control (ControlMsg.openShell 80 24 "xterm" false).encode]]

def sampleServer (capacity : Nat) : ServerCore Clear.noise silentEmulator limitedLogin :=
  .new (List.replicate 32 7) ⟨[(clientKey,"client")]⟩ capacity none none "/tmp" 1

def greeted (capacity : Nat) : ServerCore Clear.noise silentEmulator limitedLogin :=
  greeting.foldl (fun c datagram => (c.handlePacket [] datagram.1 datagram.2).2) (sampleServer capacity)

end ServerCore
end Noissh

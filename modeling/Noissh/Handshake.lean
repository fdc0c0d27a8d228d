import Noissh.Session

/-! The handshake (`proto/src/handshake.rs` over `noise-core/src/lib.rs`) and the trust in the
other side's key (`auth/src/lib.rs` and `proto/src/lib.rs`). -/
namespace Noissh

inductive HandshakeError where
  | noise (e : NoiseError)
  | alreadyFinished
  | notFinished
  deriving DecidableEq, Repr

structure HsOutcome where
  reply : Option Bytes
  finished : Bool
  deriving DecidableEq, Repr

structure Handshaker (snow : Snow) where
  hs : Option snow.Handshake
  sessionId : SessionId
  finished : Bool
  sendPayload : Bytes
  peerPayload : Option Bytes

/-- The transport session of a finished handshake. -/
def Snow.session (snow : Snow) (hs : snow.Handshake) : Except NoiseError (NoiseSession snow) :=
  if snow.isFinished hs then
    match snow.remoteStatic hs with
    | none => .error .noRemoteStatic
    | some remoteStatic => ((snow.intoTransport hs).mapError .snow).map (fun transport => { transport, remoteStatic })
  else .error .handshakeNotFinished

namespace Handshaker

variable {snow : Snow}

/-- Begin as the client; the first message is padded with zeros. -/
def client (snow : Snow) (localPrivate : Bytes) (sessionId : SessionId) :
    Except HandshakeError (Handshaker snow × Bytes) :=
  match snow.initiator localPrivate with
  | .error e => .error (.noise (.snow e))
  | .ok hs =>
    match snow.writeMessage hs (List.replicate minHandshakeInit 0) with
    | (.error e,_) => .error (.noise (.snow e))
    | (.ok message,hs) =>
      .ok ({ hs := some hs, sessionId, finished := false, sendPayload := [], peerPayload := none },
        buildHandshakePacket sessionId message)

/-- Begin as the server, which waits for the first message. -/
def server (snow : Snow) (localPrivate : Bytes) (sessionId : SessionId) (sendPayload : Bytes) :
    Except HandshakeError (Handshaker snow) :=
  match snow.responder localPrivate with
  | .error e => .error (.noise (.snow e))
  | .ok hs => .ok { hs := some hs, sessionId, finished := false, sendPayload, peerPayload := none }

/-- The next message is owed to the peer, and carries the payload once. -/
def reply (h : Handshaker snow) (hs : snow.Handshake) : Except HandshakeError HsOutcome × Handshaker snow :=
  match snow.writeMessage hs h.sendPayload with
  | (.error e,hs) => (.error (.noise (.snow e)),{ h with hs := some hs, sendPayload := [] })
  | (.ok message,hs) =>
    (.ok { reply := some (buildHandshakePacket h.sessionId message), finished := snow.isFinished hs },
      { h with hs := some hs, sendPayload := [], finished := snow.isFinished hs })

def read (h : Handshaker snow) (body : Bytes) : Except HandshakeError HsOutcome × Handshaker snow :=
  match h.hs with
  | none => (.error .alreadyFinished,h)
  | some hs =>
    match snow.readMessage hs body with
    | (.error e,hs) => (.error (.noise (.snow e)),{ h with hs := some hs })
    | (.ok payload,hs) =>
      -- An all-zero payload is padding.
      let h := { h with hs := some hs, peerPayload := if payload.any (· != 0) then some payload else h.peerPayload }
      if snow.isFinished hs then (.ok { reply := none, finished := true },{ h with finished := true })
      else h.reply hs

def remoteStatic (h : Handshaker snow) : Option Bytes := h.hs.bind snow.remoteStatic

def intoSession (h : Handshaker snow) (peerAddr : Option SocketAddr) : Except HandshakeError (Session snow) :=
  if h.finished then
    match h.hs with
    | none => .error .alreadyFinished
    | some hs => ((snow.session hs).mapError .noise).map (fun noise => .new h.sessionId noise peerAddr)
  else .error .notFinished

end Handshaker

def keyLen : Nat := 32

/-- An X25519 public key. -/
structure PublicKey where
  bytes : Bytes
  length : bytes.length = keyLen
  deriving DecidableEq, Repr

inductive AuthError where
  | badKeyLen (n : Nat)
  deriving DecidableEq, Repr

def PublicKey.fromBytes (bytes : Bytes) : Except AuthError PublicKey :=
  if length : bytes.length = keyLen then .ok { bytes, length } else .error (.badKeyLen bytes.length)

/-- The keys that may log in, with their comments. -/
structure AuthorizedKeys where
  keys : List (PublicKey × String) := []
  deriving DecidableEq, Repr

def AuthorizedKeys.contains (a : AuthorizedKeys) (key : PublicKey) : Bool := a.keys.any (fun entry => entry.1 = key)

def authorizeClient (authorized : AuthorizedKeys) (clientStatic : Bytes) : Bool :=
  match PublicKey.fromBytes clientStatic with
  | .ok key => authorized.contains key
  | .error _ => false

inductive Tofu where
  | new
  | matches
  | mismatch
  deriving DecidableEq, Repr

structure KnownHosts where
  hosts : Std.TreeMap String PublicKey := {}

namespace KnownHosts

/-- Pin the key of a host that is new. -/
def checkOrAdd (k : KnownHosts) (host : String) (key : PublicKey) : Tofu × KnownHosts :=
  match k.hosts[host]? with
  | none => (.new,{ hosts := k.hosts.insert host key })
  | some pinned => (if pinned = key then .matches else .mismatch,k)

end KnownHosts

def verifyServer (known : KnownHosts) (host : String) (serverStatic : Bytes) : Tofu × KnownHosts :=
  match PublicKey.fromBytes serverStatic with
  | .error _ => (.mismatch,known)
  | .ok key => known.checkOrAdd host key

/-- What goes wrong in either core (`src/lib.rs`). -/
inductive RuntimeError where
  | transport (e : TransportError)
  | handshakeDriver (e : HandshakeError)
  | handshake
  | hostKeyMismatch (label : String)
  deriving DecidableEq, Repr

end Noissh

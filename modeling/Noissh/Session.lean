import Noissh.Wire

/-! Datagrams and sessions (`transport/src/lib.rs`, `transport/src/replay.rs` and
`noise-core/src/lib.rs`). An operation that fails may have changed its session by then, so it
returns the session next to its outcome. -/
namespace Noissh

/-- The Noise library: handshake states, and transport states with an explicit nonce. -/
structure Snow where
  Handshake : Type
  Transport : Type
  initiator : Bytes → Except String Handshake
  responder : Bytes → Except String Handshake
  writeMessage : Handshake → Bytes → Except String Bytes × Handshake
  readMessage : Handshake → Bytes → Except String Bytes × Handshake
  isFinished : Handshake → Bool
  remoteStatic : Handshake → Option Bytes
  intoTransport : Handshake → Except String Transport
  encrypt : Transport → Nat → Bytes → Except String Bytes
  decrypt : Transport → Nat → Bytes → Except String Bytes

inductive NoiseError where
  | snow (text : String)
  | handshakeNotFinished
  | noRemoteStatic
  deriving DecidableEq, Repr

inductive TransportError where
  | short
  | unknownType (ty : UInt8)
  | sessionMismatch
  | replay
  | noise (e : NoiseError)
  | wire (e : WireError)
  deriving DecidableEq, Repr

inductive SocketAddr where
  | v4 (ip : UInt32) (port : UInt16)
  | v6 (ip : BitVec 128) (port : UInt16)
  deriving DecidableEq, Repr

/-- Eight bytes chosen by the client. -/
abbrev SessionId := Bytes

def pktHandshake : UInt8 := 0
def pktTransport : UInt8 := 1

def maxDatagramPlaintext : Nat := 1200
def minHandshakeInit : Nat := 1200

inductive Packet where
  | handshake (sessionId : SessionId) (body : Bytes)
  | transport (sessionId : SessionId) (nonce : Nat) (body : Bytes)
  deriving DecidableEq, Repr

/-- Eight bytes, the highest first. -/
def toBeBytes (n : Nat) : Bytes := (List.range 8).map (fun i => UInt8.ofNat (n / 256 ^ (7 - i)))

def fromBeBytes (bytes : Bytes) : Nat := bytes.foldl (fun n byte => n * 256 + byte.toNat) 0

def parsePacket (buf : Bytes) : Except TransportError Packet :=
  match buf with
  | [] => .error .short
  | ty :: rest =>
    if buf.length < 9 then .error .short
    else if ty = pktHandshake then .ok (.handshake (rest.take 8) (buf.drop 9))
    else if ty = pktTransport then
      if buf.length < 17 then .error .short
      else .ok (.transport (rest.take 8) (fromBeBytes ((buf.drop 9).take 8)) (buf.drop 17))
    else .error (.unknownType ty)

def buildHandshakePacket (sessionId : SessionId) (noiseMsg : Bytes) : Bytes := pktHandshake :: (sessionId ++ noiseMsg)

/-- Nonces accepted: the highest, and of the 64 up to it those whose bit is set. -/
structure WindowFilter where
  max : Option Nat := none
  bitmap : BitVec 64 := 0
  deriving DecidableEq, Repr

namespace WindowFilter

def window : Nat := 64

def new : WindowFilter := {}

def checkAndSet (w : WindowFilter) (nonce : Nat) : Bool × WindowFilter :=
  match w.max with
  | none => (true,{ max := some nonce, bitmap := 1 })
  | some top =>
    if top < nonce then
      let diff := nonce - top
      (true,{ max := some nonce, bitmap := if window ≤ diff then 1 else w.bitmap <<< diff ||| 1 })
    else
      let diff := top - nonce
      if window ≤ diff then (false,w)
      else if w.bitmap &&& (1 <<< diff) ≠ 0 then (false,w)
      else (true,{ w with bitmap := w.bitmap ||| (1 <<< diff) })

end WindowFilter

/-- A transport-mode session of the Noise core. -/
structure NoiseSession (snow : Snow) where
  transport : snow.Transport
  remoteStatic : Bytes

namespace NoiseSession

variable {snow : Snow}

def encrypt (s : NoiseSession snow) (nonce : Nat) (plaintext : Bytes) : Except NoiseError Bytes :=
  (snow.encrypt s.transport nonce plaintext).mapError .snow

def decrypt (s : NoiseSession snow) (nonce : Nat) (ciphertext : Bytes) : Except NoiseError Bytes :=
  (snow.decrypt s.transport nonce ciphertext).mapError .snow

end NoiseSession

structure Session (snow : Snow) where
  sessionId : SessionId
  noise : NoiseSession snow
  /-- Packets sealed so far. The source counts them in a `u64`, which begins again after 2^64. -/
  sendNonce : Nat
  replay : WindowFilter
  peerAddr : Option SocketAddr

namespace Session

variable {snow : Snow}

def new (sessionId : SessionId) (noise : NoiseSession snow) (peerAddr : Option SocketAddr) : Session snow :=
  { sessionId, noise, sendNonce := 0, replay := .new, peerAddr }

/-- The source's counter: the nonce of the next packet. -/
def nonce (s : Session snow) : Nat := s.sendNonce % 2 ^ 64

/-- The nonce is spent whether or not the encryption succeeds. -/
def sealFrames (s : Session snow) (frames : List Frame) : Except TransportError Bytes × Session snow :=
  let next := { s with sendNonce := s.sendNonce + 1 }
  match s.noise.encrypt s.nonce (encodeFrames frames) with
  | .error e => (.error (.noise e),next)
  | .ok ct => (.ok (pktTransport :: (s.sessionId ++ toBeBytes s.nonce ++ ct)),next)

/-- The datagrams sealed so far, and the frames gathered for the next with their size. -/
def sealLoop (maxPlaintext : Nat) (s : Session snow) (packets : List Bytes) (group : List Frame) (groupLen : Nat) :
    List Frame → Except TransportError (List Bytes) × Session snow
  | [] =>
    if group.isEmpty then (.ok packets,s)
    else
      match s.sealFrames group with
      | (.error e,s) => (.error e,s)
      | (.ok packet,s) => (.ok (packets ++ [packet]),s)
  | frame :: rest =>
    let frameLen := (encodeFrames [frame]).length
    if ¬group.isEmpty ∧ maxPlaintext < groupLen + frameLen then
      match s.sealFrames group with
      | (.error e,s) => (.error e,s)
      | (.ok packet,s) => sealLoop maxPlaintext s (packets ++ [packet]) [frame] frameLen rest
    else sealLoop maxPlaintext s packets (group ++ [frame]) (groupLen + frameLen) rest

def sealMany (s : Session snow) (frames : List Frame) (maxPlaintext : Nat) :
    Except TransportError (List Bytes) × Session snow := sealLoop maxPlaintext s [] [] 0 frames

/-- Authenticate first: only then may a packet move the replay window and the peer address. -/
def openPacket (s : Session snow) (src : SocketAddr) (packet : Bytes) :
    Except TransportError (List Frame) × Session snow :=
  match parsePacket packet with
  | .error e => (.error e,s)
  | .ok (.handshake _ _) => (.error (.unknownType pktHandshake),s)
  | .ok (.transport sessionId nonce body) =>
    if sessionId ≠ s.sessionId then (.error .sessionMismatch,s)
    else
      match s.noise.decrypt nonce body with
      | .error e => (.error (.noise e),s)
      | .ok plaintext =>
        match s.replay.checkAndSet nonce with
        | (false,replay) => (.error .replay,{ s with replay })
        | (true,replay) => ((decodeFrames plaintext).mapError .wire,{ s with replay, peerAddr := some src })

end Session

namespace Clear

/-- A Noise handshake without secrecy: messages have the sizes of the XX pattern, keys are their
own public halves, and a tag repeats the nonce. -/
structure Handshake where
  initiator : Bool
  /-- Messages written or read so far. -/
  turn : Nat
  own : Bytes
  peer : Option Bytes
  deriving DecidableEq, Repr

def tag (nonce : Nat) : Bytes := toBeBytes nonce ++ toBeBytes nonce

def pad (n : Nat) : Bytes := List.replicate n 0

def maxMessage : Nat := 65535

/-- A key's public half is the key itself, of 32 bytes. -/
def publicHalf (own : Bytes) : Bytes := own.take 32 ++ pad (32 - own.length)

theorem publicHalf_length (own : Bytes) : (publicHalf own).length = 32 := by
  simp only [publicHalf,pad,List.length_append,List.length_take,List.length_replicate]
  omega

def writeMessage (h : Handshake) (payload : Bytes) : Except String Bytes × Handshake :=
  let next := { h with turn := h.turn + 1 }
  if h.initiator ∧ h.turn = 0 then (.ok (pad 32 ++ payload),next)
  else if ¬h.initiator ∧ h.turn = 1 then (.ok (pad 32 ++ publicHalf h.own ++ pad 16 ++ payload ++ pad 16),next)
  else if h.initiator ∧ h.turn = 2 then (.ok (publicHalf h.own ++ pad 16 ++ payload ++ pad 16),next)
  else (.error "State",h)

def readMessage (h : Handshake) (message : Bytes) : Except String Bytes × Handshake :=
  let next := { h with turn := h.turn + 1 }
  if ¬h.initiator ∧ h.turn = 0 then
    if message.length < 32 then (.error "Input",h) else (.ok (message.drop 32),next)
  else if h.initiator ∧ h.turn = 1 then
    if message.length < 96 then (.error "Decrypt",h)
    else (.ok ((message.drop 80).take (message.length - 96)),{ next with peer := some ((message.drop 32).take 32) })
  else if ¬h.initiator ∧ h.turn = 2 then
    if message.length < 64 then (.error "Decrypt",h)
    else (.ok ((message.drop 48).take (message.length - 64)),{ next with peer := some (message.take 32) })
  else (.error "State",h)

def decrypt (nonce : Nat) (ciphertext : Bytes) : Except String Bytes :=
  if 16 ≤ ciphertext.length ∧ ciphertext.length ≤ maxMessage ∧ ciphertext.drop (ciphertext.length - 16) = tag nonce then
    .ok (ciphertext.take (ciphertext.length - 16))
  else .error "Decrypt"

def encrypt (nonce : Nat) (plaintext : Bytes) : Except String Bytes :=
  if plaintext.length + 16 ≤ maxMessage then .ok (plaintext ++ tag nonce) else .error "Input"

def noise : Snow where
  Handshake := Handshake
  Transport := Unit
  initiator key := .ok { initiator := true, turn := 0, own := key, peer := none }
  responder key := .ok { initiator := false, turn := 0, own := key, peer := none }
  writeMessage := writeMessage
  readMessage := readMessage
  isFinished h := h.turn = 3
  remoteStatic h := h.peer
  intoTransport h := if h.turn = 3 then .ok () else .error "State"
  encrypt _ := encrypt
  decrypt _ := decrypt

/-- What is accepted under a nonce was produced for it. -/
def Produced (_ : Unit) (nonce : Nat) (ciphertext : Bytes) : Prop :=
  ∃ plaintext, encrypt nonce plaintext = .ok ciphertext

theorem decrypt_produced (t : Unit) (nonce : Nat) (ciphertext plaintext : Bytes)
    (opened : decrypt nonce ciphertext = .ok plaintext) : Produced t nonce ciphertext := by
  unfold decrypt at opened
  split at opened
  · rename_i fits
    refine ⟨ciphertext.take (ciphertext.length - 16),?_⟩
    have length : (ciphertext.take (ciphertext.length - 16)).length + 16 ≤ maxMessage := by
      rw [List.length_take]
      omega
    rw [encrypt,if_pos length,← fits.2.2,List.take_append_drop]
  · cases opened

theorem tag_length (nonce : Nat) : (tag nonce).length = 16 := rfl

theorem decrypt_encrypt {nonce : Nat} {plaintext ciphertext : Bytes} (sent : encrypt nonce plaintext = .ok ciphertext) :
    decrypt nonce ciphertext = .ok plaintext := by
  unfold encrypt at sent
  split at sent
  · rename_i fits
    cases sent
    have length : (plaintext ++ tag nonce).length = plaintext.length + 16 := by rw [List.length_append,tag_length]
    have accepted : 16 ≤ (plaintext ++ tag nonce).length ∧ (plaintext ++ tag nonce).length ≤ maxMessage ∧
        (plaintext ++ tag nonce).drop ((plaintext ++ tag nonce).length - 16) = tag nonce := by
      refine ⟨by omega,by omega,?_⟩
      rw [length,Nat.add_sub_cancel,List.drop_left]
    rw [decrypt,if_pos accepted,length,Nat.add_sub_cancel,List.take_left]
  · cases sent

end Clear
end Noissh

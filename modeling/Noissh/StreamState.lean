import Noissh.Frame

/-! One endpoint of one reliable stream (`transport/src/stream.rs`): the send buffer with
its retransmit timer and congestion window, and the receive side. Ticks are
`poll_transmit` rounds. -/
namespace Noissh

/-- Default per-stream receive window (bytes the peer may have in flight). -/
def defaultWindow : Nat := 256 * 1024
def maxStreams : Nat := 1024
def maxStreamChunk : Nat := 1024
def mss : Nat := maxStreamChunk
def initCwnd : Nat := 10 * mss
def maxCwnd : Nat := defaultWindow
def initRto : Nat := 8
def minRto : Nat := 2
def maxRto : Nat := 240
/-- Rounds to wait for the FIN-bearing data after a graceful close. -/
def closeGraceTicks : Nat := 100

def u32Max : Nat := 2^32 - 1
def u64Max : Nat := 2^64 - 1

inductive HalfState where
  | opened
  | finished (offset : Nat)
  deriving DecidableEq, Repr

structure StreamState where
  id : Nat
  kind : StreamKind
  metadata : Bytes
  /-- Whether we still owe the peer a StreamOpen frame. -/
  needsOpen : Bool
  sendBuf : Bytes := []
  sendBase : Nat := 0
  sendHigh : Nat := 0
  sendNext : Nat := 0
  peerWindow : Nat := defaultWindow
  sendFin : Bool := false
  finSent : Bool := false
  finAcked : Bool := false
  closeStatus : Option Int := none
  rtoStart : Option Nat := none
  rto : Nat := initRto
  srtt : Nat := 0
  rttvar : Nat := 0
  timed : Option (Nat × Nat) := none
  cwnd : Nat := initCwnd
  ssthresh : Nat := maxCwnd
  recv : Reassembler := {}
  recvWindow : Nat := defaultWindow
  peerFin : HalfState := .opened
  closeReceived : Bool := false
  closeTicks : Nat := 0
  reset : Bool := false

namespace StreamState

def new (id : Nat) (kind : StreamKind) (metadata : Bytes) (needsOpen : Bool) : StreamState :=
  { id, kind, metadata, needsOpen }

/-- The peer's FIN arrived and everything before it has been read. -/
def recvFinished (s : StreamState) : Bool :=
  match s.peerFin with
  | .finished offset => decide (offset ≤ s.recv.delivered) && s.recv.unread == 0
  | .opened => false

/-- The grace window after the peer's StreamClose has run out. -/
def graceOver (s : StreamState) : Bool :=
  s.closeReceived && decide (closeGraceTicks ≤ s.closeTicks)

/-- Both directions are closed and all received data has been read, or the grace
window for a silent peer is over. -/
def fullyDone (s : StreamState) : Bool :=
  if !s.sendFin then false
  else if s.finAcked && s.recvFinished then true
  else s.graceOver

def write (s : StreamState) (data : Bytes) : StreamState :=
  { s with sendBuf := s.sendBuf ++ data, sendNext := s.sendNext + data.length }

/-- Derive the RTO from the smoothed RTT, or the initial value if unsampled. -/
def recomputeRto (s : StreamState) : StreamState :=
  { s with rto :=
      if 0 < s.srtt then max minRto (min maxRto ((s.srtt + max (4 * s.rttvar % 2^32) 1) % 2^32))
      else initRto }

/-- Fold a new RTT sample (in ticks) into the smoothed estimate (Jacobson/Karels). -/
def updateRtt (s : StreamState) (r : Nat) : StreamState :=
  if s.srtt = 0 then recomputeRto { s with srtt := r, rttvar := r / 2 }
  else
    let delta := max s.srtt r - min s.srtt r
    recomputeRto { s with
      rttvar := (3 * s.rttvar + delta) % 2^32 / 4
      srtt := (7 * s.srtt + r) % 2^32 / 8 }

/-- Slow start below ssthresh, congestion avoidance above it. -/
def growCwnd (s : StreamState) (acked : Nat) : StreamState :=
  let inc := if s.cwnd < s.ssthresh then min (acked % 2^32) mss else max (mss * mss / max s.cwnd 1) 1
  { s with cwnd := min (min (s.cwnd + inc) u32Max) maxCwnd }

def onRto (s : StreamState) : StreamState :=
  { s with
    ssthresh := max (s.cwnd / 2) (2 * mss)
    cwnd := mss
    rto := min (min (s.rto * 2) u32Max) maxRto
    timed := none }

/-- The part of an ack that moves the send base. -/
def ackData (s : StreamState) (ack now : Nat) : StreamState :=
  if s.sendBase < ack then
    let advance := min (ack - s.sendBase) s.sendBuf.length
    let base := s.sendBase + advance
    let high := max s.sendHigh base
    let s := { s with sendBuf := s.sendBuf.drop advance, sendBase := base, sendHigh := high }
    let s := s.growCwnd advance
    recomputeRto { s with rtoStart := if base < high then some now else none }
  else s

/-- RTT sample (Karn): only if the probed range is now acked. -/
def ackTimed (s : StreamState) (ack now : Nat) : StreamState :=
  match s.timed with
  | some (seq,sent) =>
    if seq ≤ ack then { s.updateRtt (max (now - sent) 1 % 2^32) with timed := none } else s
  | none => s

/-- Any ack of all our bytes counts for the FIN once some frame has carried it. -/
def ackFin (s : StreamState) (ack : Nat) : StreamState :=
  if s.sendFin && s.finSent && decide (s.sendNext ≤ ack) then { s with finAcked := true } else s

def onAck (s : StreamState) (ack window now : Nat) : StreamState :=
  if s.sendNext < ack then s
  else ((({ s with peerWindow := window }).ackData ack now).ackTimed ack now).ackFin ack

/-- The half-open chunks of `[off, stop)`, each of at most one MTU-sized payload. The
first argument bounds the number of chunks; the number of bytes always suffices. -/
def chunks : Nat → Nat → Nat → List (Nat × Nat)
  | 0, _, _ => []
  | fuel + 1, off, stop =>
    if off < stop then
      let chunkEnd := min (off + maxStreamChunk) stop
      (off,chunkEnd) :: chunks fuel chunkEnd stop
    else []

/-- Whether a chunk ending here is flagged FIN. -/
def finAt (s : StreamState) (chunkEnd : Nat) : Bool :=
  s.sendFin && chunkEnd == s.sendNext && !s.finAcked

def chunkFrame (s : StreamState) (chunk : Nat × Nat) : Frame :=
  .streamData s.id chunk.1 ((s.sendBuf.drop (chunk.1 - s.sendBase)).take (chunk.2 - chunk.1))
    (s.finAt chunk.2)

/-- Emit `[off, stop)` as MTU-sized StreamData chunks, flagging FIN on the chunk that
reaches `sendNext` while our FIN is still unacked. -/
def emitRange (s : StreamState) (off stop : Nat) : StreamState × List Frame :=
  let parts := chunks (stop - off) off stop
  ({ s with finSent := s.finSent || parts.any (fun c => s.finAt c.2) },parts.map s.chunkFrame)

def rtoDue (s : StreamState) (now : Nat) : Bool :=
  match s.rtoStart with
  | some t => decide (s.rto ≤ now - t)
  | none => true

/-- The end of the data both windows allow. -/
def sendEnd (s : StreamState) : Nat := min s.sendNext (s.sendBase + min s.peerWindow s.cwnd)

def transmitOpen (s : StreamState) : StreamState × List Frame :=
  if s.needsOpen then ({ s with needsOpen := false },[.streamOpen s.id s.kind s.metadata]) else (s,[])

/-- New data goes out at once up to both windows; outstanding data is retransmitted once
the RTO has elapsed; a fully acked stream sends an empty FIN promptly, then on RTO. -/
def transmitData (s : StreamState) (now : Nat) : StreamState × List Frame :=
  if s.sendHigh < s.sendEnd then
    let (t,out) := s.emitRange (max s.sendHigh s.sendBase) s.sendEnd
    ({ t with
      timed := t.timed.or (some (s.sendEnd,now))
      sendHigh := s.sendEnd
      rtoStart := t.rtoStart.or (some now) },out)
  else if s.sendBase < s.sendHigh then
    if s.rtoDue now then
      let (t,out) := s.emitRange s.sendBase s.sendHigh
      (({ t with rtoStart := some now }).onRto,out)
    else (s,[])
  else if s.sendFin && !s.finAcked && s.sendNext == s.sendBase then
    if !s.finSent || s.rtoDue now then
      ({ s with finSent := true, rtoStart := some now },[.streamData s.id s.sendNext [] true])
    else (s,[])
  else (s,[])

/-- Always advertise our current receive window via an ack. -/
def transmitAck (s : StreamState) : StreamState × List Frame :=
  let window := defaultWindow - min s.recv.unread defaultWindow
  ({ s with recvWindow := window },[.streamAck s.id s.recv.ackPoint window])

/-- Retransmit the graceful close until the FIN is acked. -/
def transmitClose (s : StreamState) : List Frame :=
  match s.closeStatus with
  | some status => if s.finAcked then [] else [.streamClose s.id status]
  | none => []

/-- The peer has closed, we have closed, and its FIN-bearing data is still missing. -/
def awaitsFin (s : StreamState) : Bool :=
  s.closeReceived && s.sendFin && s.peerFin == .opened

def countClose (s : StreamState) : StreamState :=
  if s.awaitsFin then { s with closeTicks := min (s.closeTicks + 1) u32Max } else s

/-- Frames to (re)transmit at tick `now`. -/
def transmit (s : StreamState) (now : Nat) : StreamState × List Frame :=
  if s.reset then (s,[])
  else
    let (s,opening) := s.transmitOpen
    let (s,data) := s.transmitData now
    let (s,acks) := s.transmitAck
    (s.countClose,opening ++ data ++ acks ++ s.transmitClose)

/-- An incoming segment is inside the advertised window and does not overflow. -/
def accepts (s : StreamState) (offset : Nat) (data : Bytes) : Bool :=
  decide (offset + data.length ≤ u64Max) && decide (offset ≤ min (s.recv.delivered + defaultWindow) u64Max)

/-- The FIN offset is recorded only once. -/
def recordFin (s : StreamState) (stop : Nat) (fin : Bool) : StreamState :=
  if fin && s.peerFin == .opened then { s with peerFin := .finished stop } else s

/-- Process one StreamData frame; the flag says that more contiguous bytes are readable. -/
def onData (s : StreamState) (offset : Nat) (data : Bytes) (fin : Bool) : StreamState × Bool :=
  if s.accepts offset data then
    let t := s.recordFin (offset + data.length) fin
    let t := { t with recv := t.recv.insert offset data }
    (t,decide (s.recv.ackPoint < t.recv.ackPoint))
  else (s,false)

end StreamState
end Noissh

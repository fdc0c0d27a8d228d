import Noissh.StreamState

/-! The stream multiplexer of one session end (`transport/src/stream.rs`). It consumes and
produces frames; the driver owns all I/O. -/
namespace Noissh

inductive StreamEvent where
  | opened (id : Nat) (kind : StreamKind) (metadata : Bytes)
  | readable (id : Nat)
  | closed (id : Nat) (status : Int)
  | reset (id : Nat)
  deriving DecidableEq, Repr

structure StreamMux where
  nextLocalId : Nat
  idStep : Nat := 2
  /-- Parity of locally-initiated ids; peer-opened streams use the opposite one. -/
  localParity : Nat
  streams : Std.TreeMap Nat StreamState := {}
  events : List StreamEvent := []
  /-- Tick counter, incremented per `pollTransmit`. -/
  now : Nat := 0

namespace StreamMux

def new (isClient : Bool) : StreamMux :=
  { nextLocalId := if isClient then 0 else 1, localParity := if isClient then 0 else 1 }

/-- Update a stream in place if it is held (`get_mut`). -/
def modifyStream (m : StreamMux) (id : Nat) (f : StreamState → StreamState) : StreamMux :=
  match m.streams[id]? with
  | some s => { m with streams := m.streams.insert id (f s) }
  | none => m

/-- Open a new locally-initiated stream. -/
def openStream (m : StreamMux) (kind : StreamKind) (metadata : Bytes) : StreamMux × Nat :=
  let id := m.nextLocalId
  ({ m with
    nextLocalId := m.nextLocalId + m.idStep
    streams := m.streams.insert id (StreamState.new id kind metadata true) },id)

def write (m : StreamMux) (id : Nat) (data : Bytes) : StreamMux :=
  m.modifyStream id (fun s => s.write data)

def close (m : StreamMux) (id : Nat) (status : Int) : StreamMux :=
  m.modifyStream id (fun s => { s with sendFin := true, closeStatus := some status })

def reset (m : StreamMux) (id : Nat) : StreamMux :=
  m.modifyStream id (fun s => { s with reset := true })

/-- Read contiguous received bytes from a stream. -/
def read (m : StreamMux) (id : Nat) : Bytes × StreamMux :=
  match m.streams[id]? with
  | some s => (s.recv.read.1,{ m with streams := m.streams.insert id { s with recv := s.recv.read.2 } })
  | none => ([],m)

def isRecvFinished (m : StreamMux) (id : Nat) : Bool :=
  match m.streams[id]? with
  | some s => s.recvFinished
  | none => true

def takeEvents (m : StreamMux) : List StreamEvent × StreamMux := (m.events,{ m with events := [] })

def push (m : StreamMux) (event : StreamEvent) : StreamMux := { m with events := m.events ++ [event] }

def onOpen (m : StreamMux) (id : Nat) (kind : StreamKind) (metadata : Bytes) : StreamMux :=
  if id % 2 = m.localParity ∨ maxStreams ≤ m.streams.size then m
  else match m.streams[id]? with
    | some _ => m
    | none =>
      ({ m with streams := m.streams.insert id (StreamState.new id kind metadata false) }).push
        (.opened id kind metadata)

def onData (m : StreamMux) (id offset : Nat) (data : Bytes) (fin : Bool) : StreamMux :=
  match m.streams[id]? with
  | some s =>
    let (t,readable) := s.onData offset data fin
    let m := { m with streams := m.streams.insert id t }
    if readable then m.push (.readable id) else m
  | none => m

def onClose (m : StreamMux) (id : Nat) (status : Int) : StreamMux :=
  match m.streams[id]? with
  | some s =>
    if s.closeReceived then m
    else ({ m with streams := m.streams.insert id { s with closeReceived := true } }).push (.closed id status)
  | none => m

def onReset (m : StreamMux) (id : Nat) : StreamMux :=
  match m.streams[id]? with
  | some s => ({ m with streams := m.streams.insert id { s with reset := true } }).push (.reset id)
  | none => m

/-- Process one incoming stream-class frame. Non-stream frames are ignored. -/
def onFrame (m : StreamMux) : Frame → StreamMux
  | .streamOpen id kind metadata => m.onOpen id kind metadata
  | .streamData id offset data fin => m.onData id offset data fin
  | .streamAck id ack window => m.modifyStream id (fun s => s.onAck ack window m.now)
  | .streamClose id status => m.onClose id status
  | .streamReset id => m.onReset id
  | _ => m

/-- One stream's share of a poll: what is left of it, and its frames. A reset stream
says so and goes; a stream that is done after transmitting is reclaimed. -/
def pollStream (now id : Nat) (s : StreamState) : Option StreamState × List Frame :=
  if s.reset then (none,[.streamReset id])
  else
    let (t,out) := s.transmit now
    (if t.fullyDone then none else some t,out)

/-- A stream that a poll drops without a reset is done. -/
theorem fullyDone_of_retired {now id : Nat} {s : StreamState} (live : s.reset = false)
    (retired : (pollStream now id s).1 = none) : (s.transmit now).1.fullyDone = true := by
  simp only [pollStream,live,Bool.false_eq_true,if_false] at retired
  split at retired
  · assumption
  · cases retired

/-- Collect all frames that should be sent now, stream by stream in id order. -/
def pollTransmit (m : StreamMux) : StreamMux × List Frame :=
  let now := m.now + 1
  ({ m with now, streams := m.streams.filterMap (fun id s => (pollStream now id s).1) },
    m.streams.toList.flatMap (fun p => (pollStream now p.1 p.2).2))

def hasTraffic (m : StreamMux) : Bool := !m.streams.isEmpty

/-- Bytes written but not yet acked by the peer. -/
def inFlight (m : StreamMux) (id : Nat) : Nat :=
  match m.streams[id]? with
  | some s => s.sendBuf.length
  | none => 0

/-- Bytes received contiguously but not yet read by the app. -/
def recvBuffered (m : StreamMux) (id : Nat) : Nat :=
  match m.streams[id]? with
  | some s => s.recv.unread
  | none => 0

theorem getElem?_modifyStream (m : StreamMux) (id k : Nat) (f : StreamState → StreamState) :
    (m.modifyStream id f).streams[k]? = if k = id then m.streams[id]?.map f else m.streams[k]? := by
  unfold modifyStream
  split
  · rename_i s held
    simp only [Std.TreeMap.getElem?_insert,held]
    grind
  · grind

theorem getElem?_openStream (m : StreamMux) (kind : StreamKind) (metadata : Bytes) (k : Nat) :
    (m.openStream kind metadata).1.streams[k]? =
      if k = m.nextLocalId then some (StreamState.new k kind metadata true) else m.streams[k]? := by
  simp only [openStream,Std.TreeMap.getElem?_insert]
  grind

theorem getElem?_read (m : StreamMux) (id k : Nat) :
    (m.read id).2.streams[k]? =
      if k = id then m.streams[id]?.map (fun s => { s with recv := s.recv.read.2 }) else m.streams[k]? := by
  unfold read
  split
  · rename_i s held
    simp only [Std.TreeMap.getElem?_insert,held]
    grind
  · grind

theorem getElem?_onOpen (m : StreamMux) (id : Nat) (kind : StreamKind) (metadata : Bytes) (k : Nat) :
    (m.onOpen id kind metadata).streams[k]? =
      if k = id ∧ m.streams[id]? = none ∧ id % 2 ≠ m.localParity ∧ m.streams.size < maxStreams then
        some (StreamState.new id kind metadata false)
      else m.streams[k]? := by
  unfold onOpen
  split
  · rw [if_neg (by omega)]
  · split
    · rename_i s held
      rw [if_neg (by simp [held])]
    · simp only [push,Std.TreeMap.getElem?_insert]
      grind

theorem getElem?_onData (m : StreamMux) (id offset : Nat) (data : Bytes) (fin : Bool) (k : Nat) :
    (m.onData id offset data fin).streams[k]? =
      if k = id then m.streams[id]?.map (fun s => (s.onData offset data fin).1) else m.streams[k]? := by
  unfold onData
  split
  · rename_i s held
    simp only [held]
    split <;> simp only [push,Std.TreeMap.getElem?_insert] <;> grind
  · grind

theorem getElem?_onClose (m : StreamMux) (id : Nat) (status : Int) (k : Nat) :
    (m.onClose id status).streams[k]? =
      if k = id then m.streams[id]?.map (fun s => { s with closeReceived := true }) else m.streams[k]? := by
  unfold onClose
  split
  · rename_i s held
    split
    · rename_i already
      have same : { s with closeReceived := true } = s := by cases s; simp_all
      grind
    · simp only [push,Std.TreeMap.getElem?_insert,held]
      grind
  · grind

theorem getElem?_onReset (m : StreamMux) (id : Nat) (k : Nat) :
    (m.onReset id).streams[k]? =
      if k = id then m.streams[id]?.map (fun s => { s with reset := true }) else m.streams[k]? := by
  unfold onReset
  split
  · rename_i s held
    simp only [push,Std.TreeMap.getElem?_insert,held]
    grind
  · grind

theorem getElem?_pollTransmit (m : StreamMux) (k : Nat) :
    m.pollTransmit.1.streams[k]? = m.streams[k]?.bind (fun s => (pollStream (m.now + 1) k s).1) := by
  simp [pollTransmit]

/-- A frame touches only the stream it names. -/
theorem getElem?_onFrame_other (m : StreamMux) (frame : Frame) (k : Nat) (other : frame.streamId ≠ some k) :
    (m.onFrame frame).streams[k]? = m.streams[k]? := by
  cases frame <;> simp only [Frame.streamId,ne_eq,Option.some.injEq] at other
  case streamOpen id kind metadata => rw [onFrame,getElem?_onOpen,if_neg (by omega)]
  case streamData id offset data fin => rw [onFrame,getElem?_onData,if_neg (by omega)]
  case streamAck id ack window => rw [onFrame,getElem?_modifyStream,if_neg (by omega)]
  case streamClose id status => rw [onFrame,getElem?_onClose,if_neg (by omega)]
  case streamReset id => rw [onFrame,getElem?_onReset,if_neg (by omega)]
  all_goals rfl

end StreamMux
end Noissh

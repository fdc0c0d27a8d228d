import Noissh.Driver
import Noissh.Xfer
import Noissh.XferRequest

/-! One file transfer: `Client::run_transfer` at one end, the transfers of
`Server::pump_forwards` at the other, and the session between them, which carries the
transfer's stream alone. The schedule interleaves the passes of the client's loop, the server's
pumps, the polls and the link's choices. -/
namespace Noissh

open Files

/-- The id of the first stream a client opens. -/
def xferId : Nat := 0

/-- The most a source hands over at once. -/
def chunk : Nat := 64 * 1024

/-- Why `run_transfer` fails. -/
inductive TransferError where
  | io
  | transfer (message : String)
  deriving DecidableEq, Repr

def rejected : TransferError := .transfer "remote rejected the transfer (no such file or permission denied)"

inductive XferState where
  | put (sink : FileSink)
  | get (src : FileSource)
  deriving DecidableEq, Repr

/-- How far `run_transfer` has come. It leaves its loop when the transfer is done, and returns
after a last flush. -/
inductive Phase where
  | running
  | leaving
  | returned (result : Except TransferError Unit)

/-- What the transfer is asked to do, and the two processes it runs in. -/
structure XferSetup where
  request : XferRequest
  localPath : String
  pid : Side → Nat
  privsep : Bool

/-- A disk on which every file has one name. -/
structure Disk where
  files : FileSystem Path
  unshared : files.Unshared

/-- `xfer` is the server's entry for the stream. `read` records what the reads of the source
returned, `eof` that one of them reached its end, and `landed` that the server has moved an
upload into place; no operation looks at these three. -/
structure Transfer where
  link : Link
  disk : Side → FileSystem Path
  phase : Phase
  source : Option FileSource
  sink : Option FileSink
  sentFin : Bool
  session : Bool
  xfer : Option XferState
  read : Bytes
  eof : Bool
  landed : Bool

/-- What the disk answers during one pass or pump: whether a file can be opened, the bytes a
read stops short after, the bytes there is room for, and how a finalize goes. -/
structure DiskIo where
  opens : Bool := true
  short : Option Nat := some chunk
  room : Nat := u64Max
  syncs : Bool := true
  renames : Bool := true

/-- Stream to file, until the stream is empty or a write fails. -/
def FileSink.drain (x : Side) : Nat → Nat → Link → FileSystem Path → FileSink → Bool × Link × FileSystem Path × FileSink
  | 0, _, l, fs, k => (true,l,fs,k)
  | fuel + 1, room, l, fs, k =>
    let data := (Driver.streamRead x xferId l).1
    let l := (Driver.streamRead x xferId l).2
    if data.isEmpty then (true,l,fs,k)
    else
      let wrote := k.write fs data room
      if wrote.1 then drain x fuel (room - data.length) l wrote.2.2 wrote.2.1
      else (false,l,wrote.2.2,wrote.2.1)

namespace Transfer

inductive Action where
  /-- One pass of the client's loop. -/
  | turn (io : DiskIo)
  /-- The client returns after its last flush. -/
  | leave (io : DiskIo)
  /-- The client's socket fails. -/
  | fail
  | pump (io : DiskIo)
  /-- The server gives the session up. -/
  | vanish
  | poll (x : Side)
  | deliver (x : Side) (n : Nat)
  | lose (x : Side) (n : Nat)
  /-- Another program writes a file. -/
  | elsewhere (x : Side) (path : Path) (bytes : Bytes)

def setDisk (t : Transfer) (x : Side) (fs : FileSystem Path) : Transfer := { t with disk := Function.update t.disk x fs }

/-- An error return drops the sink. -/
def giveUp (t : Transfer) (e : TransferError) : Transfer :=
  let t := { t with phase := .returned (.error e), source := none }
  match t.sink with
  | some k => { t.setDisk .client (k.drop (t.disk .client)) with sink := none }
  | none => t

/-- The head of `run_transfer`: the stream is opened before the local file. -/
def start (cfg : XferSetup) (disks : Side → Disk) (io : DiskIo) : Transfer :=
  let t : Transfer := {
    link := Link.start.step (.openStream .client .fileTransfer cfg.request.encode)
    disk := fun x => (disks x).files
    phase := .running
    source := none
    sink := none
    sentFin := false
    session := true
    xfer := none
    read := []
    eof := false
    landed := false }
  match cfg.request with
  | .put _ _ =>
    match FileSource.openFile (t.disk .client) (Path.ofString cfg.localPath) io.opens with
    | some src => { t with source := some src }
    | none => t.giveUp .io
  | .get _ =>
    let created := FileSink.create (cfg.pid .client) (t.disk .client) (Path.ofString cfg.localPath) io.opens
    match created.1 with
    | some k => { t.setDisk .client created.2 with sink := some k }
    | none => t.giveUp .io

/-- The next chunk of the local file, or the close at its end. -/
def sendChunk (t : Transfer) (src : FileSource) (io : DiskIo) : Transfer :=
  match src.readChunk (t.disk .client) chunk io.short with
  | none => t.giveUp .io
  | some (data,src) =>
    if data.isEmpty then
      { t with link := t.link.step (.close .client xferId 0), source := some src, sentFin := true, eof := true }
    else { t with link := t.link.step (.write .client xferId data), source := some src, read := t.read ++ data }

/-- The upload is done once the server closes its half back. -/
def finishUpload (t : Transfer) : Transfer :=
  match t.phase with
  | .running => if t.sentFin ∧ (t.link.mux .client).isRecvFinished xferId then { t with phase := .leaving } else t
  | _ => t

def upload (t : Transfer) (io : DiskIo) : Transfer :=
  match t.source with
  | some src =>
    if !t.sentFin ∧ (t.link.mux .client).inFlight xferId < sendCap then (t.sendChunk src io).finishUpload
    else t.finishUpload
  | none => t

def download (t : Transfer) (io : DiskIo) : Transfer :=
  match t.sink with
  | some k =>
    let drained := k.drain .client ((t.link.mux .client).recvBuffered xferId + 1) io.room t.link (t.disk .client)
    let t := { t.setDisk .client drained.2.2.1 with link := drained.2.1, sink := some drained.2.2.2 }
    if !drained.1 then t.giveUp .io
    else if (t.link.mux .client).isRecvFinished xferId then
      { t with link := t.link.step (.close .client xferId 0), phase := .leaving }
    else t
  | none => t

/-- One pass of the loop, up to the flush. The server resets the stream on a path error. -/
def turn (t : Transfer) (io : DiskIo) : Transfer :=
  match t.phase with
  | .running =>
    let events := (t.link.mux .client).events
    let t := { t with link := t.link.step (.takeEvents .client) }
    if .reset xferId ∈ events then t.giveUp rejected
    else (t.upload io).download io
  | _ => t

/-- The end of `run_transfer`, after the flush. A download is moved into place here. -/
def leave (t : Transfer) (io : DiskIo) : Transfer :=
  match t.phase with
  | .leaving =>
    match t.sink with
    | some k =>
      let finalized := k.finalize (t.disk .client) io.syncs io.renames
      { t.setDisk .client finalized.2 with
        sink := none
        phase := .returned (if finalized.1 then .ok () else .error .io) }
    | none => { t with phase := .returned (.ok ()) }
  | _ => t

def fail (t : Transfer) : Transfer :=
  match t.phase with
  | .returned _ => t
  | _ => t.giveUp .io

/-- The server's calls reach the stream while it has the session. -/
def serve (t : Transfer) (a : Link.Action) : Transfer := if t.session then { t with link := t.link.step a } else t

/-- A sink that is dropped cleans up. -/
def dropXfer (t : Transfer) : Transfer :=
  match t.xfer with
  | some (.put k) => { t.setDisk .server (k.drop (t.disk .server)) with xfer := none }
  | _ => { t with xfer := none }

def insertXfer (t : Transfer) (x : XferState) : Transfer := { t.dropXfer with xfer := some x }

def onOpened (cfg : XferSetup) (t : Transfer) (io : DiskIo) (metadata : Bytes) : Transfer :=
  if cfg.privsep then t.serve (.reset .server xferId)
  else
    match XferRequest.parse metadata with
    | some (.put path _) =>
      let created := FileSink.create (cfg.pid .server) (t.disk .server) (Path.ofString path) io.opens
      match created.1 with
      | some k => (t.setDisk .server created.2).insertXfer (.put k)
      | none => t.serve (.reset .server xferId)
    | some (.get path) =>
      match FileSource.openFile (t.disk .server) (Path.ofString path) io.opens with
      | some src => t.insertXfer (.get src)
      | none => t.serve (.reset .server xferId)
    | none => t.serve (.reset .server xferId)

def handleEvent (cfg : XferSetup) (io : DiskIo) (t : Transfer) : StreamEvent → Transfer
  | .opened k .fileTransfer metadata => if k = xferId then t.onOpened cfg io metadata else t
  | .reset k => if k = xferId then t.dropXfer else t
  | _ => t

/-- The upload is moved into place; if that fails, the client is told after all. -/
def land (t : Transfer) (k : FileSink) (io : DiskIo) : Transfer :=
  let t := { t.serve (.close .server xferId 0) with xfer := none }
  let finalized := k.finalize (t.disk .server) io.syncs io.renames
  let t := t.setDisk .server finalized.2
  if finalized.1 then { t with landed := true } else t.serve (.reset .server xferId)

def pumpPut (t : Transfer) (k : FileSink) (io : DiskIo) : Transfer :=
  let drained := k.drain .server ((t.link.mux .server).recvBuffered xferId + 1) io.room t.link (t.disk .server)
  let t := { t.setDisk .server drained.2.2.1 with link := drained.2.1, xfer := some (.put drained.2.2.2) }
  if !drained.1 then (t.serve (.reset .server xferId)).dropXfer
  else if (t.link.mux .server).isRecvFinished xferId then t.land drained.2.2.2 io
  else t

def pumpGet (t : Transfer) (src : FileSource) (io : DiskIo) : Transfer :=
  if (t.link.mux .server).inFlight xferId < sendCap then
    match src.readChunk (t.disk .server) chunk io.short with
    | none => { t.serve (.reset .server xferId) with xfer := none }
    | some (data,src) =>
      if data.isEmpty then { t.serve (.close .server xferId 0) with xfer := none, eof := true }
      else { t.serve (.write .server xferId data) with xfer := some (.get src), read := t.read ++ data }
  else t

def pumpXfer (t : Transfer) (io : DiskIo) : Transfer :=
  match t.xfer with
  | some (.put k) => t.pumpPut k io
  | some (.get src) => t.pumpGet src io
  | none => t

/-- Handle the pending events, drop a transfer whose session is gone, and pump what is left. -/
def pump (cfg : XferSetup) (t : Transfer) (io : DiskIo) : Transfer :=
  let events := (t.link.mux .server).events
  let t := events.foldl (handleEvent cfg io) { t with link := t.link.step (.takeEvents .server) }
  if t.session then t.pumpXfer io else t.dropXfer

end Transfer

namespace XferSetup

/-- The side whose disk gets the file. -/
def receiver (cfg : XferSetup) : Side :=
  match cfg.request with
  | .put _ _ => .server
  | .get _ => .client

/-- Where the file goes. -/
def dest (cfg : XferSetup) : Path :=
  match cfg.request with
  | .put path _ => Path.ofString path
  | .get _ => Path.ofString cfg.localPath

def temp (cfg : XferSetup) : Path := tempPath (cfg.pid cfg.receiver) cfg.dest

end XferSetup

namespace Transfer

/-- Frames for a session that is gone are dropped, and nobody else writes to the destination or
beside it. -/
def step (cfg : XferSetup) (t : Transfer) : Action → Transfer
  | .turn io => t.turn io
  | .leave io => t.leave io
  | .fail => t.fail
  | .pump io => t.pump cfg io
  | .vanish => { t with session := false }
  | .poll .client => { t with link := t.link.step (.poll .client) }
  | .poll .server => t.serve (.poll .server)
  | .deliver .client n => { t with link := t.link.step (if t.session then .deliver .client n else .lose .client n) }
  | .deliver .server n => { t with link := t.link.step (.deliver .server n) }
  | .lose x n => { t with link := t.link.step (.lose x n) }
  | .elsewhere x path bytes =>
    if x = cfg.receiver ∧ (path = cfg.dest ∨ path = cfg.temp) then t
    else t.setDisk x ((t.disk x).writeFile path bytes)

end Transfer
end Noissh

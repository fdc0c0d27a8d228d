import Noissh.Exec
import Noissh.Link

/-! The driver of one session end over a link: it carries bytes between the session's streams
and local sockets and commands (`Server::pump_forwards`, and `Forwarder` on the client, which
runs the same pump without commands). Port forwards and agent connections are pumped by the
same code and stand in one map here. The other end's application calls the multiplexer as it
likes. -/
namespace Noissh

/-- Bytes buffered in one direction before the driver stops filling it. -/
def sendCap : Nat := 512 * 1024

structure ExecState where
  proc : ExecProc
  errId : Nat
  deriving DecidableEq, Repr

/-- What the outside answers about one stream during one pump. -/
structure StreamIo where
  /-- The target could be dialed, or the command be spawned. -/
  started : Bool := true
  /-- Writes to a command's stdin while its close is handled. -/
  closing : List WriteResult := []
  /-- Writes to the socket, or to the command's stdin. -/
  writes : List WriteResult := []
  /-- Reads of the socket, or of the command's stdout. -/
  reads : List ReadResult := []
  errors : List ReadResult := []
  exited : Option Int := none

abbrev Io := Nat → StreamIo

/-- `reaped` records each connection the pump has removed and `shut` each command whose stdin
has been closed; no operation looks at these two. -/
structure Driver where
  link : Link
  privsep : Bool
  forwards : Std.TreeMap Nat ForwardConn
  execs : Std.TreeMap Nat ExecState
  reaped : Nat → Option ForwardConn
  shut : Nat → Option ExecProc

namespace Driver

def start (privsep : Bool) : Driver := ⟨.start,privsep,{},{},fun _ => none,fun _ => none⟩

/-- An application call at the other end. -/
inductive Call where
  | openStream (kind : StreamKind) (metadata : Bytes)
  | write (id : Nat) (data : Bytes)
  | read (id : Nat)
  | close (id : Nat) (status : Int)
  | reset (id : Nat)
  | takeEvents
  deriving DecidableEq, Repr

def Call.action (y : Side) : Call → Link.Action
  | openStream kind metadata => .openStream y kind metadata
  | write id data => .write y id data
  | read id => .read y id
  | close id status => .close y id status
  | reset id => .reset y id
  | takeEvents => .takeEvents y

inductive Action where
  | peer (call : Call)
  | poll (y : Side)
  | deliver (y : Side) (n : Nat)
  | lose (y : Side) (n : Nat)
  /-- A local connection is accepted: a stream is opened toward the other end, and what a
  SOCKS client sent early goes first. -/
  | accept (kind : StreamKind) (metadata leftover : Bytes)
  | pump (io : Io)

/-- Bytes the stream hands over, and the link after reading them. -/
def streamRead (x : Side) (k : Nat) (l : Link) : Bytes × Link := (((l.mux x).read k).1,l.step (.read x k))

/-- Session to socket, until the socket's buffer is full or the stream is empty. -/
def feedSocket (x : Side) (k : Nat) : Nat → Link → ForwardConn → List WriteResult → Link × ForwardConn
  | 0, l, c, _ => (l,c)
  | fuel + 1, l, c, results =>
    if c.out.length < sendCap then
      let d := (streamRead x k l).1
      let l := (streamRead x k l).2
      if d.isEmpty then (l,c)
      else
        let queued := c.queueToTcp d results
        feedSocket x k fuel l queued.1 queued.2
    else (l,c)

/-- Socket to session, unless too much is unacknowledged. -/
def drainSocket (x : Side) (k : Nat) (reads : List ReadResult) (l : Link) (c : ForwardConn) : Link × ForwardConn :=
  if (l.mux x).inFlight k < sendCap then
    let got := c.readTcp reads
    (if got.1.isEmpty then l else l.step (.write x k got.1),got.2)
  else (l,c)

def passFin (x : Side) (k : Nat) (l : Link) (c : ForwardConn) : Link × ForwardConn :=
  (if c.needsFin.1 then l.step (.close x k 0) else l,c.needsFin.2)

/-- One connection's share of a pump. Each read empties what has arrived, so that one more
attempt than there are bytes is enough. -/
def pumpConn (x : Side) (k : Nat) (io : StreamIo) (l : Link) (c : ForwardConn) : Link × ForwardConn :=
  let flushed := c.flush io.writes
  let fed := feedSocket x k ((l.mux x).recvBuffered k + 1) l flushed.1 flushed.2
  let drained := drainSocket x k io.reads fed.1 fed.2
  passFin x k drained.1 drained.2

def pumpForward (x : Side) (io : Io) (d : Driver) (k : Nat) : Driver :=
  match d.forwards[k]? with
  | some c =>
    let (l,c) := pumpConn x k (io k) d.link c
    if c.isFinished then
      { d with link := l, forwards := d.forwards.erase k, reaped := Function.update d.reaped k (some c) }
    else { d with link := l, forwards := d.forwards.insert k c }
  | none => d

/-- Session to the command's stdin, until too much is staged or the stream is empty. -/
def feedStdin (x : Side) (k : Nat) : Nat → Link → ExecProc → List WriteResult → Link × ExecProc × List WriteResult
  | 0, l, p, results => (l,p,results)
  | fuel + 1, l, p, results =>
    if p.stdinBuf.length < sendCap then
      let d := (streamRead x k l).1
      let l := (streamRead x k l).2
      if d.isEmpty then (l,p,results)
      else
        let staged := p.writeStdin d results
        feedStdin x k fuel l staged.1 staged.2
    else (l,p,results)

/-- One output of the command to its stream, unless too much is unacknowledged. -/
def drainOutput (x : Side) (id : Nat) (read : ExecProc → Bytes × ExecProc) (l : Link) (p : ExecProc) : Link × ExecProc :=
  if (l.mux x).inFlight id < sendCap then
    (if (read p).1.isEmpty then l else l.step (.write x id (read p).1),(read p).2)
  else (l,p)

def pumpProc (x : Side) (k errId : Nat) (io : StreamIo) (l : Link) (p : ExecProc) : Link × ExecProc :=
  let fed := feedStdin x k ((l.mux x).recvBuffered k + 1) l p io.writes
  let flushed := fed.2.1.flushStdin fed.2.2
  let out := drainOutput x k (·.readStdout io.reads) fed.1 flushed.1
  let err := drainOutput x errId (·.readStderr io.errors) out.1 out.2
  (err.1,err.2.pollExit io.exited)

def pumpExec (x : Side) (io : Io) (d : Driver) (k : Nat) : Driver :=
  match d.execs[k]? with
  | some e =>
    let (l,p) := pumpProc x k e.errId (io k) d.link e.proc
    if p.finished then
      { d with
        link := (l.step (.close x k p.exitCode)).step (.close x e.errId 0)
        execs := d.execs.erase k }
    else { d with link := l, execs := d.execs.insert k { e with proc := p } }
  | none => d

/-- The other end's close of a stream, as the driver takes it. -/
def onClosed (io : StreamIo) (d : Driver) (k : Nat) : Driver :=
  let forwards := match d.forwards[k]? with
    | some c => d.forwards.insert k { c with peerClosed := true }
    | none => d.forwards
  match d.execs[k]? with
  | some e =>
    let proc := e.proc.closeStdin io.closing
    { d with
      forwards
      execs := d.execs.insert k { e with proc }
      shut := if e.proc.stdin then Function.update d.shut k (some proc) else d.shut }
  | none => { d with forwards }

/-- Only the server runs commands; under privilege separation it refuses to. -/
def onOpened (x : Side) (io : StreamIo) (d : Driver) (k : Nat) : StreamKind → Driver
  | .forward =>
    if io.started then { d with forwards := d.forwards.insert k {} }
    else { d with link := d.link.step (.close x k 0) }
  | .exec =>
    match x with
    | .client => d
    | .server =>
      if d.privsep then { d with link := d.link.step (.reset x k) }
      else if io.started then
        { d with
          link := d.link.step (.openStream x .exec [])
          execs := d.execs.insert k ⟨{},(d.link.mux x).nextLocalId⟩ }
      else { d with link := d.link.step (.reset x k) }
  | _ => d

def onReset (x : Side) (d : Driver) (k : Nat) : Driver :=
  let forwards := d.forwards.erase k
  match d.execs[k]? with
  | some e => { d with link := d.link.step (.reset x e.errId), forwards, execs := d.execs.erase k }
  | none => { d with forwards }

def handleEvent (x : Side) (io : Io) (d : Driver) : StreamEvent → Driver
  | .opened k kind _ => d.onOpened x (io k) k kind
  | .readable _ => d
  | .closed k _ => d.onClosed (io k) k
  | .reset k => d.onReset x k

/-- Handle the pending events, then pump every connection and every command. -/
def pump (x : Side) (io : Io) (d : Driver) : Driver :=
  let events := (d.link.mux x).events
  let d := events.foldl (handleEvent x io) { d with link := d.link.step (.takeEvents x) }
  let d := d.forwards.keys.foldl (pumpForward x io) d
  d.execs.keys.foldl (pumpExec x io) d

def accept (x : Side) (kind : StreamKind) (metadata leftover : Bytes) (d : Driver) : Driver :=
  let id := (d.link.mux x).nextLocalId
  let l := d.link.step (.openStream x kind metadata)
  { d with
    link := if leftover.isEmpty then l else l.step (.write x id leftover)
    forwards := d.forwards.insert id {} }

/-- The driver runs at side `x`. -/
def step (x : Side) (d : Driver) : Action → Driver
  | .peer call => { d with link := d.link.step (call.action x.other) }
  | .poll y => { d with link := d.link.step (.poll y) }
  | .deliver y n => { d with link := d.link.step (.deliver y n) }
  | .lose y n => { d with link := d.link.step (.lose y n) }
  | .accept kind metadata leftover => d.accept x kind metadata leftover
  | .pump io => d.pump x io

end Driver
end Noissh

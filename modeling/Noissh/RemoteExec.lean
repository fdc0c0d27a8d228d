import Noissh.Driver

/-! A remote command end to end: the client's loop (`Client::run_exec_with`) at one end of a
link, the server's driver at the other. Beside the command the client serves forwards, whose
calls concern streams of other kinds. -/
namespace Noissh

/-- The result that ends the reading of an output. -/
def ExecProc.lastRead : List ReadResult → ReadResult
  | .ok (_ :: _) :: rest => lastRead rest
  | .interrupted :: rest => lastRead rest
  | result :: _ => result
  | [] => .wouldBlock

namespace Driver

/-- A pump up to its commands. -/
def serveForwards (x : Side) (io : Io) (d : Driver) : Driver :=
  let d := (d.link.mux x).events.foldl (handleEvent x io) { d with link := d.link.step (.takeEvents x) }
  d.forwards.keys.foldl (pumpForward x io) d

theorem pump_eq (x : Side) (io : Io) (d : Driver) :
    d.pump x io = (d.serveForwards x io).execs.keys.foldl (pumpExec x io) (d.serveForwards x io) := rfl

/-- What `pumpProc` takes from the command's stdout and stderr. -/
def taken (x : Side) (k errId : Nat) (io : StreamIo) (l : Link) (p : ExecProc) : Bytes × Bytes :=
  let fed := feedStdin x k ((l.mux x).recvBuffered k + 1) l p io.writes
  let flushed := fed.2.1.flushStdin fed.2.2
  let out := drainOutput x k (·.readStdout io.reads) fed.1 flushed.1
  (if (fed.1.mux x).inFlight k < sendCap then (flushed.1.readStdout io.reads).1 else [],
    if (out.1.mux x).inFlight errId < sendCap then (out.2.readStderr io.errors).1 else [])

/-- Whether `pumpProc` comes to the end of the command's stdout, and of its stderr. -/
def ends (x : Side) (k errId : Nat) (io : StreamIo) (l : Link) (p : ExecProc) : Bool × Bool :=
  let fed := feedStdin x k ((l.mux x).recvBuffered k + 1) l p io.writes
  let flushed := fed.2.1.flushStdin fed.2.2
  let out := drainOutput x k (·.readStdout io.reads) fed.1 flushed.1
  (decide ((fed.1.mux x).inFlight k < sendCap) && flushed.1.stdout && decide (ExecProc.lastRead io.reads = .ok []),
    decide ((out.1.mux x).inFlight errId < sendCap) && out.2.stderr && decide (ExecProc.lastRead io.errors = .ok []))

end Driver

inductive ExecOutcome where
  | exited (code : Int)
  /-- The remote refused or could not start the command. -/
  | refused
  deriving DecidableEq, Repr

/-- The locals of the client's loop. `stdout` and `stderr` record what was written to the local
descriptors; no operation looks at these two. -/
structure ExecLoop where
  e : Nat
  errId : Option Nat := none
  exitCode : Option Int := none
  stdinEof : Bool
  stdout : Bytes := []
  stderr : Bytes := []
  outcome : Option ExecOutcome := none
  deriving DecidableEq, Repr

namespace ExecLoop

/-- Handle the events of one iteration that are not the forwarder's. -/
def handleEvents : List StreamEvent → ExecLoop → ExecLoop
  | [], c => c
  | .opened id .exec _ :: rest, c => handleEvents rest { c with errId := some id }
  | .reset id :: rest, c => if id = c.e then { c with outcome := some .refused } else handleEvents rest c
  | .closed id status :: rest, c => handleEvents rest (if id = c.e then { c with exitCode := some status } else c)
  | _ :: rest, c => handleEvents rest c

/-- The command's outputs to ours. -/
def readOutputs (l : Link) (c : ExecLoop) : Link × ExecLoop :=
  let out := ((l.mux .client).read c.e).1
  let l := l.step (.read .client c.e)
  match c.errId with
  | some s =>
    (l.step (.read .client s),{ c with stdout := c.stdout ++ out, stderr := c.stderr ++ ((l.mux .client).read s).1 })
  | none => (l,{ c with stdout := c.stdout ++ out })

/-- Our stdin to the command's, until its end; any error but a would-block ends it. -/
def feedStdin (stdin : ReadResult) (l : Link) (c : ExecLoop) : Link × ExecLoop :=
  if c.stdinEof then (l,c)
  else match stdin with
    | .ok (b :: data) => (l.step (.write .client c.e (b :: data)),c)
    | .wouldBlock => (l,c)
    | .ok [] | .interrupted | .failed => (l.step (.close .client c.e 0),{ c with stdinEof := true })

/-- The command exited and all of its outputs is drained, as far as the client knows. -/
def finish (l : Link) (c : ExecLoop) : ExecLoop :=
  let stdoutDone := (l.mux .client).isRecvFinished c.e
  let stderrDone := (c.errId.map (l.mux .client).isRecvFinished).getD true
  match c.exitCode with
  | some code => if stdoutDone && stderrDone then { c with outcome := some (.exited code) } else c
  | none => c

/-- One iteration, after the datagrams at hand were received. -/
def round (stdin : ReadResult) (l : Link) (c : ExecLoop) : Link × ExecLoop :=
  let c := c.handleEvents (l.mux .client).events
  let l := l.step (.takeEvents .client)
  if c.outcome.isSome then (l,c)
  else
    let (l,c) := c.readOutputs l
    let (l,c) := c.feedStdin stdin l
    let l := l.step (.poll .client)
    (l,c.finish l)

end ExecLoop

/-- `errId` records the stream the server has opened for the command's stderr, `printed` what it has
taken from the command's stdout and stderr, and `ended` whether a read of each has come to its end, which
is behind all that the command has written; no operation looks at these three. -/
structure ExecRun where
  server : Driver
  loop : ExecLoop
  errId : Option Nat := none
  printed : Bytes × Bytes := ([],[])
  ended : Bool × Bool := (false,false)

namespace ExecRun

inductive Action where
  /-- A call of the client's forwarder. Within an iteration it concerns other streams than the loop's
  own calls, so it stands before the iteration here. -/
  | forward (call : Driver.Call)
  /-- The server accepts a connection for the client to serve. -/
  | accept (kind : StreamKind) (metadata leftover : Bytes)
  /-- The server polls. -/
  | poll
  | deliver (y : Side) (n : Nat)
  | lose (y : Side) (n : Nat)
  /-- The server pumps. -/
  | pump (io : Io)
  /-- An iteration of the client's loop, unless it has returned. -/
  | round (stdin : ReadResult)

def start (privsep : Bool) (cmd : Bytes) (nullStdin : Bool) : ExecRun :=
  let d := Driver.start privsep
  let e := (d.link.mux .client).nextLocalId
  let l := d.link.step (.openStream .client .exec cmd)
  { server := { d with link := if nullStdin then l.step (.close .client e 0) else l }
    loop := { e, stdinEof := nullStdin } }

/-- The client holds the stream and it is not a command's. -/
def foreign (l : Link) (k : Nat) : Bool := (l.stream .client k).any (·.kind != .exec)

/-- The calls of the forwarder: it opens no commands, calls only streams of other kinds, and
leaves the events to the loop. -/
def forwards (l : Link) : Driver.Call → Bool
  | .openStream kind _ => kind != .exec
  | .write id _ => foreign l id
  | .read id => foreign l id
  | .close id _ => foreign l id
  | .reset id => foreign l id
  | .takeEvents => false

/-- The records after a pump. -/
def record (io : Io) (r : ExecRun) : Option Nat × (Bytes × Bytes) :=
  let d := r.server.serveForwards .server io
  match d.execs[r.loop.e]? with
  | some s =>
    let data := Driver.taken .server r.loop.e s.errId (io r.loop.e) d.link s.proc
    (some s.errId,(r.printed.1 ++ data.1,r.printed.2 ++ data.2))
  | none => (r.errId,r.printed)

def ending (io : Io) (r : ExecRun) : Bool × Bool :=
  let d := r.server.serveForwards .server io
  match d.execs[r.loop.e]? with
  | some s =>
    let ends := Driver.ends .server r.loop.e s.errId (io r.loop.e) d.link s.proc
    (r.ended.1 || ends.1,r.ended.2 || ends.2)
  | none => r.ended

def step (r : ExecRun) : Action → ExecRun
  | .forward call => if forwards r.server.link call then { r with server := r.server.step .server (.peer call) } else r
  | .accept kind metadata leftover =>
    if kind = .exec then r else { r with server := r.server.step .server (.accept kind metadata leftover) }
  | .poll => { r with server := r.server.step .server (.poll .server) }
  | .deliver y n => { r with server := r.server.step .server (.deliver y n) }
  | .lose y n => { r with server := r.server.step .server (.lose y n) }
  | .pump io =>
    { r with
      server := r.server.step .server (.pump io)
      errId := (r.record io).1
      printed := (r.record io).2
      ended := r.ending io }
  | .round stdin =>
    if r.loop.outcome.isSome then r
    else
      let next := r.loop.round stdin r.server.link
      { r with server := { r.server with link := next.1 }, loop := next.2 }

end ExecRun
end Noissh

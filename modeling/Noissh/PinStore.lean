import Noissh.Admission
import Noissh.Durable
import Noissh.KnownHosts

/-! The pins of a client across its processes: `load_known_hosts` and `save_known_hosts` of
`src/config.rs`, and `run` of `src/bin/noissh.rs` as far as it uses them. Every process takes its own steps,
in any order with those of the others, and may end before any of them. -/
namespace Noissh

open Files

/-- The pins in the file; none when it is not text. -/
def loadKnownHosts (engine : Engine) : Option Bytes → Option KnownHosts
  | none => some {}
  | some bytes => (ControlMsg.fromUtf8 bytes).map (fun text => KnownHosts.parse engine text.toList)

/-- What `save_known_hosts` writes. -/
def savedText (engine : Engine) (known : KnownHosts) : Bytes := ControlMsg.utf8 (.ofList (known.toText engine))

/-- The sibling that a process writes first. -/
def siblingName (path : String) (pid : Nat) : String := path ++ ".tmp-" ++ toString pid

/-- How a client process dials a server. -/
structure Dial where
  privateKey : Bytes
  sid : SessionId
  termVar : Option String
  hostLabel : String
  serverAddr : SocketAddr
  rows : UInt16
  cols : UInt16
  prediction : DisplayMode

namespace PinStore

inductive Phase where
  | idle
  /-- The file is there. -/
  | found
  | reading (file : Nat) (got : Bytes)
  | loaded (known : KnownHosts)
  /-- No standing server has answered. -/
  | unanswered
  | saving (known : KnownHosts)
  | writing (known : KnownHosts) (h : Handle) (rest : Bytes)
  | synced (known : KnownHosts)

inductive Action where
  | exists (pid : Nat)
  | openFile (pid : Nat)
  | read (pid n : Nat)
  | connect (pid : Nat) (dial : Dial) (calls : List ClientCore.Call)
  /-- The server's key came over ssh. -/
  | bootstrap (pid : Nat) (dial : Dial) (serverKey : Bytes) (calls : List ClientCore.Call)
  | forget (pid : Nat) (host : String)
  | create (pid : Nat)
  | write (pid n : Nat)
  | sync (pid : Nat)
  | rename (pid : Nat)
  /-- The process ends: it is done, or killed, or had an error. -/
  | exit (pid : Nat)
  | powerLoss (n : Nat) (lost : Nat → Bytes)

end PinStore

/-- The file and the processes. `seen` records what each process has read, `forgot` the labels that it
has removed, `met` the servers that were met for the first time and `saved` the stores that were renamed into place;
no step looks at these. -/
structure PinStore where
  disk : Disk String
  phase : Nat → PinStore.Phase
  seen : Nat → Option Bytes
  forgot : Nat → List String
  met : List (String × Bytes)
  saved : List KnownHosts

namespace PinStore

variable (snow : Snow) (engine : Engine) (path : String)

def start (fs : FileSystem String) : PinStore where
  disk := .settled fs
  phase _ := .idle
  seen _ := none
  forgot _ := []
  met := []
  saved := []

variable {snow} in
/-- Where a connection with these pins leaves a process. -/
def connected (c : ClientCore snow) (otherwise : Phase) : Phase :=
  if c.established then (if c.knownHostsDirty then .saving c.known else .idle) else otherwise

def turn (s : PinStore) (pid : Nat) (phase : Phase) : PinStore := { s with phase := Function.update s.phase pid phase }

/-- The client that dials with these pins, after these calls. -/
def dialled (known : KnownHosts) (dial : Dial) (calls : List ClientCore.Call) : Option (ClientCore snow) :=
  match ClientCore.new snow dial.privateKey dial.sid dial.termVar known dial.hostLabel dial.serverAddr
    dial.rows dial.cols dial.prediction with
  | .ok (c,_) => some (ClientCore.Dialog.run ⟨c,[]⟩ calls).core
  | .error _ => none

/-- A process dials with these pins. -/
def dials (s : PinStore) (pid : Nat) (known : KnownHosts) (otherwise : Phase) (dial : Dial)
    (calls : List ClientCore.Call) : PinStore :=
  match dialled snow known dial calls with
  | some c =>
    { s.turn pid (connected c otherwise) with
      met := if c.established && c.knownHostsDirty then s.met ++
        (c.serverKey.map (fun key => (dial.hostLabel,key))).toList else s.met }
  | none => s.turn pid .idle

/-- A process dials with the pin of a key that came over ssh. -/
def boots (s : PinStore) (pid : Nat) (dial : Dial) (serverKey : Bytes) (calls : List ClientCore.Call) : PinStore :=
  match PublicKey.fromBytes serverKey with
  | .ok key => s.dials snow pid (KnownHosts.checkOrAdd {} dial.hostLabel key).2 .idle dial calls
  | .error _ => s.turn pid .idle

def step (s : PinStore) : Action → PinStore
  | .exists pid =>
    match s.phase pid with
    | .idle =>
      if (s.disk.fs.entries path).isSome then s.turn pid .found
      else { s.turn pid (.loaded {}) with seen := Function.update s.seen pid none, forgot := Function.update s.forgot pid [] }
    | _ => s
  | .openFile pid =>
    match s.phase pid with
    | .found =>
      match s.disk.fs.entries path with
      | some file => s.turn pid (.reading file [])
      | none => s.turn pid .idle
    | _ => s
  | .read pid n =>
    match s.phase pid with
    | .reading file got =>
      let chunk := ((s.disk.fs.contents file).drop got.length).take (n + 1)
      if chunk.isEmpty then
        match loadKnownHosts engine (some got) with
        | some known =>
          { s.turn pid (.loaded known) with
            seen := Function.update s.seen pid (some got)
            forgot := Function.update s.forgot pid [] }
        | none => s.turn pid .idle
      else s.turn pid (.reading file (got ++ chunk))
    | _ => s
  | .connect pid dial calls =>
    match s.phase pid with
    | .loaded known => s.dials snow pid known .unanswered dial calls
    | _ => s
  | .bootstrap pid dial serverKey calls =>
    match s.phase pid with
    | .loaded _ | .unanswered => s.boots snow pid dial serverKey calls
    | _ => s
  | .forget pid host =>
    match s.phase pid with
    | .loaded known =>
      let (gone,left) := known.removeMatching host
      if gone.isEmpty then s.turn pid .idle
      else { s.turn pid (.saving left) with forgot := Function.update s.forgot pid (s.forgot pid ++ gone) }
    | _ => s
  | .create pid =>
    match s.phase pid with
    | .saving known =>
      let (h,disk) := s.disk.create (siblingName path pid)
      { s.turn pid (.writing known h (savedText engine known)) with disk }
    | _ => s
  | .write pid n =>
    match s.phase pid with
    | .writing known h rest =>
      let (h,disk) := s.disk.write h (rest.take (n + 1))
      { s.turn pid (.writing known h (rest.drop (n + 1))) with disk }
    | _ => s
  | .sync pid =>
    match s.phase pid with
    | .writing known h [] => { s.turn pid (.synced known) with disk := s.disk.sync h.file }
    | _ => s
  | .rename pid =>
    match s.phase pid with
    | .synced known =>
      match s.disk.rename (siblingName path pid) path with
      | some disk => { s.turn pid .idle with disk, saved := s.saved ++ [known] }
      | none => s.turn pid .idle
    | _ => s
  | .exit pid => s.turn pid .idle
  | .powerLoss n lost => { s with disk := s.disk.powerLoss n lost, phase := fun _ => .idle }

def run (schedule : List Action) (s : PinStore) : PinStore := Machine.run (step snow engine path) schedule s

/-- What a process finds pinned that loads the file now. -/
def pins (s : PinStore) : Option KnownHosts := loadKnownHosts engine (s.disk.fs.read path)

end PinStore
end Noissh

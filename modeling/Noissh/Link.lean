import Mathlib.Logic.Function.Basic
import Noissh.Machine
import Noissh.StreamMux
import Noissh.StreamStateSpec

/-! Two multiplexers over a link that delivers each emitted frame at most once, in any
order, or loses it. The schedule interleaves the applications' calls, the polls and the
link's choices. Beside the two multiplexers and the frames in flight, the state records
what the applications wrote, read and closed: no operation looks at these records. -/
namespace Noissh

inductive Side where
  | client
  | server
  deriving DecidableEq, Repr

namespace Side

def other : Side → Side
  | client => server
  | server => client

/-- Parity of the stream ids this side opens. -/
def parity : Side → Nat
  | client => 0
  | server => 1

def isClient : Side → Bool
  | client => true
  | server => false

@[simp] theorem other_other (x : Side) : x.other.other = x := by cases x <;> rfl
@[simp] theorem other_ne (x : Side) : x.other ≠ x := by cases x <;> decide
@[simp] theorem ne_other (x : Side) : x ≠ x.other := by cases x <;> decide
theorem eq_or_other (x y : Side) : y = x ∨ y = x.other := by cases x <;> cases y <;> decide
theorem parity_lt (x : Side) : x.parity < 2 := by cases x <;> decide
theorem parity_other (x : Side) : x.other.parity = 1 - x.parity := by cases x <;> rfl

end Side

structure Link where
  mux : Side → StreamMux
  /-- Frames each side has sent that are neither delivered nor lost. -/
  flight : Side → List Frame
  /-- Bytes each side has written to each stream it held. -/
  wrote : Side → Nat → Bytes
  /-- Bytes each side has been given by `read`. -/
  got : Side → Nat → Bytes
  /-- How many bytes had been written when the side first closed the stream. -/
  closedAt : Side → Nat → Option Nat
  /-- Whether the side has ever held the stream. -/
  born : Side → Nat → Bool
  /-- A FIN-bearing StreamData frame was processed by this side while it held the
  stream and the frame was in its window. -/
  finReached : Side → Nat → Bool

namespace Link

inductive Action where
  | openStream (x : Side) (kind : StreamKind) (metadata : Bytes)
  | write (x : Side) (id : Nat) (data : Bytes)
  | read (x : Side) (id : Nat)
  | close (x : Side) (id : Nat) (status : Int)
  | reset (x : Side) (id : Nat)
  | takeEvents (x : Side)
  | poll (x : Side)
  /-- The link hands the `n`-th frame in flight from `x` to the other side. -/
  | deliver (x : Side) (n : Nat)
  | lose (x : Side) (n : Nat)
  deriving DecidableEq, Repr

def start : Link where
  mux x := StreamMux.new x.isClient
  flight _ := []
  wrote _ _ := []
  got _ _ := []
  closedAt _ _ := none
  born _ _ := false
  finReached _ _ := false

/-- The stream a side holds under an id. -/
def stream (l : Link) (x : Side) (id : Nat) : Option StreamState := (l.mux x).streams[id]?

def setMux (l : Link) (x : Side) (m : StreamMux) : Link := { l with mux := Function.update l.mux x m }

def setFlight (l : Link) (x : Side) (frames : List Frame) : Link :=
  { l with flight := Function.update l.flight x frames }

/-- Replace one entry of a record kept per side and stream. -/
def put {α : Type} (record : Side → Nat → α) (x : Side) (id : Nat) (value : α) : Side → Nat → α :=
  Function.update record x (Function.update (record x) id value)

/-- A frame reaches side `y`. -/
def receive (l : Link) (y : Side) (frame : Frame) : Link :=
  let reached := match frame with
    | .streamData id offset data true =>
      match l.stream y id with
      | some s => if s.accepts offset data then put l.finReached y id true else l.finReached
      | none => l.finReached
    | _ => l.finReached
  { l.setMux y ((l.mux y).onFrame frame) with finReached := reached }

def act (l : Link) : Action → Link
  | .openStream x kind metadata => l.setMux x ((l.mux x).openStream kind metadata).1
  | .write x id data =>
    match l.stream x id with
    -- `send_next` is a u64: no run of the source writes more than that to one stream.
    | some s =>
      if s.sendNext + data.length ≤ u64Max then
        { l.setMux x ((l.mux x).write id data) with wrote := put l.wrote x id (l.wrote x id ++ data) }
      else l
    | none => l
  | .read x id =>
    { l.setMux x ((l.mux x).read id).2 with got := put l.got x id (l.got x id ++ ((l.mux x).read id).1) }
  | .close x id status =>
    match l.stream x id with
    | some _ =>
      { l.setMux x ((l.mux x).close id status) with
        closedAt := put l.closedAt x id ((l.closedAt x id).or (some (l.wrote x id).length)) }
    | none => l
  | .reset x id => l.setMux x ((l.mux x).reset id)
  | .takeEvents x => l.setMux x (l.mux x).takeEvents.2
  | .poll x =>
    (l.setMux x (l.mux x).pollTransmit.1).setFlight x (l.flight x ++ (l.mux x).pollTransmit.2)
  | .deliver x n =>
    match (l.flight x)[n]? with
    | some frame => (l.setFlight x ((l.flight x).eraseIdx n)).receive x.other frame
    | none => l
  | .lose x n => l.setFlight x ((l.flight x).eraseIdx n)

/-- Remember every stream a side holds. -/
def note (l : Link) : Link :=
  { l with born := fun x id => l.born x id || (l.stream x id).isSome }

def step (l : Link) (a : Action) : Link := (l.act a).note

end Link
end Noissh

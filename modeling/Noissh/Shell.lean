import Noissh.DiffSpec
import Noissh.Predict

/-! The interactive shell (`proto/src/shell.rs` and `transport/src/input.rs`): the server's
screen and the diffs of it, the client's copy, and the channel of typed bytes. -/
namespace Noissh

/-- The bytes typed and not acknowledged, from offset `base` on. -/
structure InputSender where
  buffer : Bytes := []
  base : Nat := 0
  deriving DecidableEq, Repr

namespace InputSender

def new : InputSender := {}

def push (s : InputSender) (data : Bytes) : InputSender := { s with buffer := s.buffer ++ data }

def pending (s : InputSender) : Option Frame :=
  if s.buffer.isEmpty then none else some (.input s.base s.buffer)

def total (s : InputSender) : Nat := s.base + s.buffer.length

def onAck (s : InputSender) (seq : Nat) : InputSender :=
  let newBase := min seq s.total
  if s.base < newBase then { buffer := s.buffer.drop (newBase - s.base), base := newBase } else s

end InputSender

structure InputReceiver where
  received : Nat := 0
  deriving DecidableEq, Repr

namespace InputReceiver

def new : InputReceiver := {}

/-- The bytes not seen before; none when they do not continue those received. -/
def ingest (r : InputReceiver) (offset : Nat) (data : Bytes) : Bytes × InputReceiver :=
  let last := offset + data.length
  if last ≤ r.received then ([],r)
  else if r.received < offset then ([],r)
  else (data.drop (r.received - offset),{ received := last })

def ack (r : InputReceiver) : Nat := r.received

end InputReceiver

structure ServerShell (em : Emulator) where
  term : Terminal em
  seq : Nat
  ackedSeq : Nat
  history : Std.TreeMap Nat Grid
  lastSent : Grid
  inputRx : InputReceiver
  forceFull : Bool

namespace ServerShell

variable {em : Emulator}

def new (em : Emulator) (rows cols : Nat) : ServerShell em where
  term := .new em rows cols
  seq := 0
  ackedSeq := 0
  history := (∅ : Std.TreeMap Nat Grid).insert 0 (Grid.new rows cols)
  lastSent := Grid.new rows cols
  inputRx := .new
  forceFull := false

def screen (s : ServerShell em) : Grid := s.term.grid

/-- Forget the previous client; the screen itself stays. -/
def rebindToNewClient (s : ServerShell em) : ServerShell em :=
  let blank := Grid.new s.screen.rows s.screen.cols
  { s with
    ackedSeq := 0
    history := (∅ : Std.TreeMap Nat Grid).insert 0 blank
    lastSent := blank
    inputRx := .new
    forceFull := true }

def feedOutput (s : ServerShell em) (bytes : Bytes) : Option (ServerShell em) :=
  (s.term.advance bytes).map (fun term => { s with term })

def takeResponses (s : ServerShell em) : Bytes × ServerShell em :=
  (s.term.takeResponses.1,{ s with term := s.term.takeResponses.2 })

def resize (s : ServerShell em) (rows cols : Nat) : Option (ServerShell em) :=
  (s.term.resize rows cols).map (fun term => { s with term })

def onStateAck (s : ServerShell em) (seq : Nat) : ServerShell em :=
  if s.ackedSeq < seq ∧ s.history.contains seq then
    { s with ackedSeq := seq, history := s.history.filter (fun k _ => seq ≤ k) }
  else s

def ingestInput (s : ServerShell em) (offset : Nat) (data : Bytes) : (Bytes × Frame) × ServerShell em :=
  let (fresh,inputRx) := s.inputRx.ingest offset data
  ((fresh,.ack inputRx.ack),{ s with inputRx })

/-- The screen as it is now, under a new number if it changed. -/
def capture (s : ServerShell em) : ServerShell em :=
  if s.screen.renderEq s.lastSent then s
  else { s with
    seq := s.seq + 1
    history := s.history.insert (s.seq + 1) s.screen
    lastSent := s.screen }

/-- The screen the next diff is computed from; none for a snapshot. -/
def diffBase (s : ServerShell em) : Option Grid := if s.forceFull then none else s.history[s.ackedSeq]?

def pollDiff (s : ServerShell em) : Option Frame × ServerShell em :=
  let s := s.capture
  if s.seq = s.ackedSeq then (none,s)
  else
    (some (.stateDiff s.seq (if s.forceFull then 0 else s.ackedSeq) (Diff.encodeDiff s.diffBase s.lastSent)),
      { s with forceFull := false })

end ServerShell

structure ClientShell where
  grid : Grid
  currentSeq : Nat
  inputTx : InputSender
  predictor : Predictor
  deriving DecidableEq, Repr

namespace ClientShell

def new (rows cols : Nat) : ClientShell where
  grid := Grid.new rows cols
  currentSeq := 0
  inputTx := .new
  predictor := .new (Grid.new rows cols)

def withPrediction (c : ClientShell) (mode : DisplayMode) : ClientShell :=
  { c with predictor := c.predictor.setMode mode }

def typeInput (c : ClientShell) (bytes : Bytes) : ClientShell :=
  { c with inputTx := c.inputTx.push bytes, predictor := c.predictor.predictInput bytes }

def pollFrames (c : ClientShell) : List Frame := c.inputTx.pending.toList ++ [.ack c.currentSeq]

/-- A snapshot applies to every state; a delta to its base, and when it is newer. -/
def applyStateDiff (c : ClientShell) (seq base : Nat) (data : Bytes) : Option (Bool × ClientShell) :=
  if Diff.isFull data || base == c.currentSeq && c.currentSeq < seq then
    match Diff.applyDiff c.grid data with
    | none => none
    | some (.error _,grid) => some (false,{ c with grid })
    | some (.ok (),grid) =>
      some (true,{ c with grid, currentSeq := seq, predictor := c.predictor.reconcile grid })
  else some (false,c)

def onInputAck (c : ClientShell) (seq : Nat) : ClientShell := { c with inputTx := c.inputTx.onAck seq }

def screen (c : ClientShell) : Grid := c.grid

def overlay (c : ClientShell) : Option Grid := c.predictor.overlay

end ClientShell
end Noissh

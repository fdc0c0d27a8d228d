import Noissh.Grid

/-! Predictive echo (`predict/src/lib.rs`): the latest authoritative screen, and the guesses at
what the keys typed since will do to it. -/
namespace Noissh

inductive DisplayMode where
  | always
  | never
  | adaptive
  deriving DecidableEq, Repr

structure Prediction where
  row : Nat
  col : Nat
  ch : Char
  deriving DecidableEq, Repr

structure Predictor where
  base : Grid
  preds : List Prediction := []
  cursor : Nat × Nat
  mode : DisplayMode := .adaptive
  confirmedEcho : Bool := false
  glitch : Bool := false
  deriving DecidableEq, Repr

namespace Predictor

def new (base : Grid) : Predictor := { base, cursor := (base.cursorRow,base.cursorCol) }

def setMode (p : Predictor) (mode : DisplayMode) : Predictor := { p with mode }

def outstanding (p : Predictor) : Nat := p.preds.length

def displaying (p : Predictor) : Bool :=
  match p.mode with
  | .always => true
  | .never => false
  | .adaptive => p.confirmedEcho && !p.glitch

/-- The cursor one cell on, if it can move. -/
def advanceCursor (p : Predictor) : Bool × Predictor :=
  let (r,c) := p.cursor
  if c + 1 < p.base.cols then (true,{ p with cursor := (r,c + 1) })
  else if r + 1 < p.base.rows then (true,{ p with cursor := (r + 1,0) })
  else (false,p)

/-- Give up every guess. -/
def abandon (p : Predictor) : Predictor := { p with preds := [], cursor := (p.base.cursorRow,p.base.cursorCol) }

/-- The cursor one cell back. -/
def retreatCursor (p : Predictor) : Nat × Nat :=
  let (r,c) := p.cursor
  if 0 < c then (r,c - 1) else if 0 < r then (r - 1,p.base.cols - 1) else (r,c)

def predictByte (p : Predictor) (byte : UInt8) : Predictor :=
  if 0x20 ≤ byte ∧ byte ≤ 0x7e then
    -- Not in the last cell, where guesses would pile up.
    let atEnd := p.base.cols ≤ p.cursor.2 + 1 ∧ p.base.rows ≤ p.cursor.1 + 1
    if atEnd then p
    else
      let guess : Prediction := ⟨p.cursor.1,p.cursor.2,Char.ofNat byte.toNat⟩
      (advanceCursor { p with preds := p.preds ++ [guess] }).2
  else if byte = 0x0d ∨ byte = 0x0a then p.abandon
  else if byte = 0x08 ∨ byte = 0x7f then
    if p.preds.isEmpty then p else { p with preds := p.preds.dropLast, cursor := p.retreatCursor }
  else p.abandon

def predictInput (p : Predictor) (bytes : Bytes) : Predictor := bytes.foldl predictByte p

def paint (cells : List Cell) (cols : Nat) (q : Prediction) : Option (List Cell) :=
  Grid.setCell cells (q.row * cols + q.col)
    { ch := q.ch, fg := .default, bg := .default, flags := CellFlags.predicted ||| CellFlags.underline }

/-- The authoritative screen with the guesses painted over it. -/
def overlay (p : Predictor) : Option Grid :=
  if p.displaying then do
    let g := p.base
    let cells ← p.preds.foldlM (fun cells q =>
      if q.row < g.rows ∧ q.col < g.cols then paint cells g.cols q else some cells) g.cells
    some { g with
      cells
      cursorRow := min p.cursor.1 (g.rows - 1)
      cursorCol := min p.cursor.2 (g.cols - 1) }
  else some p.base

/-- The authoritative cursor is past the guess. -/
def reached (g : Grid) (q : Prediction) : Bool :=
  q.row < g.cursorRow || g.cursorRow == q.row && q.col < g.cursorCol

/-- Adopt a new authoritative screen. -/
def reconcile (p : Predictor) (newBase : Grid) : Predictor :=
  let echoed := fun q : Prediction => (newBase.cell q.row q.col).ch == q.ch
  let settled := p.preds.filter (reached newBase)
  let abandoned := settled.any (fun q => !echoed q)
  let confirmedAny := settled.any echoed
  let kept := if abandoned then [] else p.preds.filter (fun q => !reached newBase q)
  let preds := kept.filter (fun q => q.row < newBase.rows && q.col < newBase.cols)
  { p with
    base := newBase
    preds
    cursor :=
      if preds.isEmpty then (newBase.cursorRow,newBase.cursorCol)
      else (min p.cursor.1 (newBase.rows - 1),min p.cursor.2 (newBase.cols - 1))
    confirmedEcho := if abandoned then p.confirmedEcho else confirmedAny || p.confirmedEcho
    glitch := if abandoned then true else if confirmedAny then false else p.glitch }

end Predictor
end Noissh

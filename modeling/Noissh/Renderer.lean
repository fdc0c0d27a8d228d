import Noissh.Grid

/-! The client's incremental renderer (`src/tty.rs`) and its connection-status banner
(`src/status.rs`). Text is a list of characters, written to the terminal as UTF-8; writes are
taken to succeed. -/
namespace Noissh

/-- `{n}` in a format string. -/
def decimal (n : Nat) : List Char := Nat.toDigits 10 n

/-- The parameters that select a colour for the foreground (38) or the background (48). -/
def colorCode (layer : Nat) : Color → List Char
  | .default => []
  | .indexed n => ';' :: decimal layer ++ [';','5',';'] ++ decimal n.toNat
  | .rgb r g b => ';' :: decimal layer ++ [';','2',';'] ++ decimal r.toNat ++ ';' :: decimal g.toNat ++ ';' :: decimal b.toNat

/-- Reset, then the attributes and colours of a cell. -/
def sgrFor (flags : UInt8) (fg bg : Color) : List Char :=
  ['\x1b','[','0'] ++
  (if flags &&& CellFlags.bold ≠ 0 then [';','1'] else []) ++
  (if flags &&& CellFlags.dim ≠ 0 then [';','2'] else []) ++
  (if flags &&& CellFlags.italic ≠ 0 then [';','3'] else []) ++
  (if flags &&& (CellFlags.underline ||| CellFlags.predicted) ≠ 0 then [';','4'] else []) ++
  (if flags &&& CellFlags.reverse ≠ 0 then [';','7'] else []) ++
  colorCode 38 fg ++ colorCode 48 bg ++ ['m']

def hideCursor : List Char := ['\x1b','[','?','2','5','l']
def showCursor : List Char := ['\x1b','[','?','2','5','h']

/-- Rows and columns of the screen count from one. -/
def moveTo (row col : Nat) : List Char := '\x1b' :: '[' :: decimal row ++ ';' :: decimal col ++ ['H']

def clearLine : List Char := ['\x1b','[','2','K']

def resetSgr : List Char := ['\x1b','[','0','m']

/-- What the renderer remembers of the last frame it wrote. -/
structure Renderer where
  last : Option Grid := none
  deriving DecidableEq, Repr

namespace Renderer

def new : Renderer := {}

/-- The listed cells of a row. Attributes are written for the first and wherever they change;
the last argument is what was written last. -/
def paintCells (g : Grid) (row : Nat) : List Nat → Option (UInt8 × Color × Color) → List Char
  | [], _ => []
  | col :: rest, cur =>
    let cell := g.cell row col
    let key := (cell.flags,cell.fg,cell.bg)
    (if cur = some key then [] else sgrFor cell.flags cell.fg cell.bg) ++ cell.ch :: paintCells g row rest (some key)

def paintRow (g : Grid) (row : Nat) : List Char :=
  moveTo (row + 1) 1 ++ clearLine ++ paintCells g row (List.range g.cols) none ++ resetSgr

/-- Nothing is known of the screen, or it had another size. -/
def full (last : Option Grid) (g : Grid) : Bool :=
  match last with
  | some prev => prev.rows != g.rows || prev.cols != g.cols
  | none => true

/-- The rows that changed since the last frame. -/
def changedRows (last : Option Grid) (g : Grid) : List Nat :=
  (List.range g.rows).filter fun row => full last g ||
    match last with
    | some p => (List.range g.cols).any fun c => p.cell row c != g.cell row c
    | none => true

def cursorMoved (last : Option Grid) (g : Grid) : Bool :=
  match last with
  | some p => p.cursorRow != g.cursorRow || p.cursorCol != g.cursorCol
  | none => true

def visChanged (last : Option Grid) (g : Grid) : Bool :=
  match last with
  | some p => p.cursorVisible != g.cursorVisible
  | none => true

/-- What is written when there is something to draw. -/
def draw (last : Option Grid) (g : Grid) : List Char :=
  let changed := changedRows last g
  let repainting := !changed.isEmpty
  (if repainting then hideCursor else []) ++ changed.flatMap (paintRow g) ++
  (if repainting || cursorMoved last g then moveTo (g.cursorRow + 1) (g.cursorCol + 1) else []) ++
  (if repainting then if g.cursorVisible then showCursor else []
    else if visChanged last g then if g.cursorVisible then showCursor else hideCursor
    else [])

def paint (r : Renderer) (g : Grid) : List Char × Renderer :=
  if (changedRows r.last g).isEmpty && !cursorMoved r.last g && !visChanged r.last g then ([],r)
  else (draw r.last g,{ last := some g })

/-- Force a full repaint on the next `paint`. -/
def invalidate (r : Renderer) : Renderer := { r with last := none }

end Renderer

/-- Seconds without a packet before the banner appears. -/
def showAfter : Nat := 4

/-- The banner after so many whole seconds of silence. -/
def statusBanner (secs : Nat) : Option (List Char) :=
  if secs < showAfter then none
  else some ("[noissh] last contact ".toList ++ decimal secs ++ "s ago — reconnecting…  (Ctrl-^ . to quit)".toList)

def bannerCell (ch : Char) : Cell := { ch, fg := .default, bg := .default, flags := CellFlags.reverse ||| CellFlags.bold }

/-- Stamp a line onto the top row, right-aligned and cut to the width of the screen. -/
def stampStatus (g : Grid) (text : List Char) : Option Grid :=
  if g.rows = 0 ∨ g.cols = 0 then some g
  else do
    let chars := text.take g.cols
    let startCol := g.cols - chars.length
    let cells ← chars.zipIdx.foldlM (fun cells p => Grid.setCell cells (startCol + p.2) (bannerCell p.1)) g.cells
    some { g with cells }

end Noissh

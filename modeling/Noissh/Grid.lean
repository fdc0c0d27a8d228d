import Noissh.Reassembler

/-! The authoritative screen (`term/src/cell.rs` and `term/src/grid.rs`): a grid of cells with a
cursor and modes, and the emulator's editing operations. An operation that would index out of
range, or subtract below zero, returns nothing: the source panics there. -/
namespace Noissh

inductive Color where
  | default
  | indexed (n : UInt8)
  | rgb (r g b : UInt8)
  deriving DecidableEq, Repr

namespace CellFlags

def bold : UInt8 := 1
def underline : UInt8 := 2
def reverse : UInt8 := 4
def italic : UInt8 := 8
def dim : UInt8 := 16
def hidden : UInt8 := 32
def strike : UInt8 := 64
/-- Set by the client's overlay only. -/
def predicted : UInt8 := 128

end CellFlags

structure Cell where
  ch : Char := ' '
  fg : Color := .default
  bg : Color := .default
  flags : UInt8 := 0
  deriving DecidableEq, Repr

def Cell.blank : Cell := {}

structure Grid where
  rows : Nat
  cols : Nat
  cells : List Cell
  cursorRow : Nat := 0
  cursorCol : Nat := 0
  cursorVisible : Bool := true
  pen : Cell := .blank
  autowrap : Bool := true
  wrapPending : Bool := false
  scrollTop : Nat := 0
  scrollBottom : Nat
  saved : Option (Nat × Nat × Cell) := none
  altScreen : Bool := false
  altSaved : Option (List Cell) := none
  /-- Replies to terminal queries, for the shell; not part of the screen. -/
  responses : Bytes := []
  deriving DecidableEq, Repr

namespace Grid

/-- A checked subtraction. -/
def sub (a b : Nat) : Option Nat := if b ≤ a then some (a - b) else none

def setCell (cells : List Cell) (i : Nat) (cell : Cell) : Option (List Cell) :=
  if i < cells.length then some (cells.set i cell) else none

/-- `copy_within`: the run of `len` cells at `src` is written over the one at `dst`. -/
def copyWithin (cells : List Cell) (src len dst : Nat) : Option (List Cell) :=
  if src + len ≤ cells.length ∧ dst + len ≤ cells.length then
    some (Splice.splice cells dst ((cells.drop src).take len))
  else none

def new (rows cols : Nat) : Grid :=
  let rows := max rows 1
  let cols := max cols 1
  { rows, cols, cells := List.replicate (rows * cols) .blank, scrollBottom := rows - 1 }

def takeResponses (g : Grid) : Bytes × Grid := (g.responses,{ g with responses := [] })

def idx (g : Grid) (row col : Nat) : Nat := row * g.cols + col

/-- Read a cell; out of range it is blank. -/
def cell (g : Grid) (row col : Nat) : Cell :=
  if row < g.rows ∧ col < g.cols then (g.cells[g.idx row col]?).getD .blank else .blank

/-- Whether two grids render alike: what is synchronised. -/
def renderEq (g h : Grid) : Bool :=
  g.rows == h.rows && g.cols == h.cols && g.cells == h.cells && g.cursorRow == h.cursorRow &&
    g.cursorCol == h.cursorCol && g.cursorVisible == h.cursorVisible

/-- Blank the `n` cells from `start` on. -/
def blankRun (cells : List Cell) (start n : Nat) : Option (List Cell) :=
  (List.range n).foldlM (fun cells c => setCell cells (start + c) .blank) cells

def scrollUp (g : Grid) (n : Nat) : Option Grid := do
  let span ← sub g.scrollBottom g.scrollTop
  let n := min n (span + 1)
  let cells ← (List.range' g.scrollTop (span + 1)).foldlM (fun cells r =>
    if r + n ≤ g.scrollBottom then copyWithin cells (g.idx (r + n) 0) g.cols (g.idx r 0)
    else blankRun cells (g.idx r 0) g.cols) g.cells
  some { g with cells }

def scrollDown (g : Grid) (n : Nat) : Option Grid := do
  let span ← sub g.scrollBottom g.scrollTop
  let n := min n (span + 1)
  let cells ← (List.range' g.scrollTop (span + 1)).reverse.foldlM (fun cells r =>
    if g.scrollTop + n ≤ r then copyWithin cells (g.idx (r - n) 0) g.cols (g.idx r 0)
    else blankRun cells (g.idx r 0) g.cols) g.cells
  some { g with cells }

def lineFeed (g : Grid) : Option Grid :=
  if g.cursorRow = g.scrollBottom then g.scrollUp 1
  else if g.cursorRow + 1 < g.rows then some { g with cursorRow := g.cursorRow + 1 }
  else some g

def reverseIndex (g : Grid) : Option Grid :=
  if g.cursorRow = g.scrollTop then g.scrollDown 1
  else if 0 < g.cursorRow then some { g with cursorRow := g.cursorRow - 1 }
  else some g

/-- To the start of the next line. -/
def wrapLine (g : Grid) : Option Grid :=
  (lineFeed { g with cursorCol := 0 }).map (fun h => { h with wrapPending := false })

/-- Resolve a pending autowrap from the previous glyph. -/
def resolveWrap (g : Grid) : Option Grid := if g.wrapPending && g.autowrap then g.wrapLine else some g

/-- A glyph of width two does not straddle the right edge. -/
def fitGlyph (g : Grid) (w : Nat) : Option Grid :=
  if w = 2 ∧ g.cols ≤ g.cursorCol + 1 then
    if g.autowrap then g.wrapLine else some { g with cursorCol := g.cols - 2, wrapPending := false }
  else some g

/-- The glyph at the cursor, and the cursor past it. The second column of a wide glyph holds
a spacer. -/
def placeGlyph (g : Grid) (c : Char) (w : Nat) : Option Grid := do
  let col := g.cursorCol
  let cells ← setCell g.cells (g.idx g.cursorRow col) { g.pen with ch := c }
  if w = 2 then
    let cells ← setCell cells (g.idx g.cursorRow (col + 1)) { g.pen with ch := Char.ofNat 0 }
    if col + 2 < g.cols then some { g with cells, cursorCol := col + 2 }
    else if g.autowrap then some { g with cells, wrapPending := true }
    else some { g with cells, cursorCol := g.cols - 1 }
  else if col + 1 < g.cols then some { g with cells, cursorCol := col + 1 }
  else if g.autowrap then some { g with cells, wrapPending := true }
  else some { g with cells }

/-- A glyph of the given display width; those of width zero are skipped. -/
def putChar (g : Grid) (c : Char) (w : Nat) : Option Grid :=
  if w = 0 then some g
  else do
    let g ← g.resolveWrap
    let g ← g.fitGlyph w
    g.placeGlyph c w

def moveTo (g : Grid) (row col : Nat) : Grid :=
  { g with cursorRow := min row (g.rows - 1), cursorCol := min col (g.cols - 1), wrapPending := false }

def eraseInDisplay (g : Grid) (mode : Nat) : Option Grid :=
  if mode = 0 then
    let start := g.idx g.cursorRow g.cursorCol
    if start ≤ g.cells.length then
      some { g with cells := g.cells.take start ++ List.replicate (g.cells.length - start) .blank }
    else none
  else if mode = 1 then
    let last := g.idx g.cursorRow g.cursorCol
    if last < g.cells.length then
      some { g with cells := List.replicate (last + 1) .blank ++ g.cells.drop (last + 1) }
    else none
  else some { g with cells := List.replicate g.cells.length .blank }

def eraseInLine (g : Grid) (mode : Nat) : Option Grid :=
  let start := g.idx g.cursorRow 0
  let cells :=
    if mode = 0 then blankRun g.cells (start + g.cursorCol) (g.cols - g.cursorCol)
    else if mode = 1 then blankRun g.cells start (g.cursorCol + 1)
    else blankRun g.cells start g.cols
  cells.map (fun cells => { g with cells })

/-- Write a cell with the value another one has. -/
def moveCell (cells : List Cell) (dst src : Nat) : Option (List Cell) := do
  let cell ← cells[src]?
  setCell cells dst cell

def insertBlankChars (g : Grid) (n : Nat) : Option Grid := do
  let start := g.idx g.cursorRow 0
  let col := g.cursorCol
  let span ← sub g.cols col
  let n := min n span
  let cells ← (List.range' col span).reverse.foldlM (fun cells c =>
    if col + n ≤ c then moveCell cells (start + c) (start + c - n) else setCell cells (start + c) .blank) g.cells
  some { g with cells }

def deleteChars (g : Grid) (n : Nat) : Option Grid := do
  let start := g.idx g.cursorRow 0
  let col := g.cursorCol
  let span ← sub g.cols col
  let n := min n span
  let cells ← (List.range' col span).foldlM (fun cells c =>
    if c + n < g.cols then moveCell cells (start + c) (start + c + n) else setCell cells (start + c) .blank) g.cells
  some { g with cells }

/-- The lines from the cursor's to the bottom of the scroll region, scrolled alone. -/
def scrollFromCursor (scroll : Grid → Nat → Option Grid) (g : Grid) (n : Nat) : Option Grid :=
  if g.cursorRow < g.scrollTop ∨ g.scrollBottom < g.cursorRow then some g
  else (scroll { g with scrollTop := g.cursorRow } n).map (fun h => { h with scrollTop := g.scrollTop })

def insertLines (g : Grid) (n : Nat) : Option Grid := scrollFromCursor scrollDown g n

def deleteLines (g : Grid) (n : Nat) : Option Grid := scrollFromCursor scrollUp g n

def enterAltScreen (g : Grid) : Grid :=
  if g.altScreen then g
  else moveTo { g with
    altScreen := true
    altSaved := some g.cells
    cells := List.replicate (g.rows * g.cols) .blank } 0 0

def leaveAltScreen (g : Grid) : Grid :=
  if g.altScreen then
    match g.altSaved with
    | some main => { g with altScreen := false, altSaved := none, cells := main }
    | none => { g with altScreen := false }
  else g

/-- The parameters of a control sequence: groups of colon-separated values. -/
abbrev Params := List (List UInt16)

/-- The parameter at `i`; a missing one or a zero is the default. -/
def arg (params : Params) (i deflt : Nat) : Nat :=
  match (params[i]?).bind List.head? with
  | none => deflt
  | some v => if v = 0 then deflt else v.toNat

def argRaw (params : Params) (i deflt : Nat) : Nat :=
  match (params[i]?).bind List.head? with
  | none => deflt
  | some v => v.toNat

def parseExtColor : List UInt16 → Option Color
  | kind :: rest =>
    if kind = 5 then rest.head?.map (fun n => .indexed n.toUInt8)
    else if kind = 2 then
      match (kind :: rest).reverse with
      | b :: g :: r :: _ :: _ => some (.rgb r.toUInt8 g.toUInt8 b.toUInt8)
      | _ => none
    else none
  | [] => none

def setColor (pen : Cell) (fg : Bool) (color : Color) : Cell :=
  if fg then { pen with fg := color } else { pen with bg := color }

/-- One SGR code, given the groups after it: the pen, and how many of those groups it took. -/
def sgrCode (pen : Cell) (group : List UInt16) (rest : Params) : Cell × Nat :=
  let code := (group.head?.getD 0).toNat
  let first := fun i => (rest[i]?).bind List.head?
  if code = 0 then (.blank,0)
  else if code = 1 then ({ pen with flags := pen.flags ||| CellFlags.bold },0)
  else if code = 2 then ({ pen with flags := pen.flags ||| CellFlags.dim },0)
  else if code = 3 then ({ pen with flags := pen.flags ||| CellFlags.italic },0)
  else if code = 4 then ({ pen with flags := pen.flags ||| CellFlags.underline },0)
  else if code = 7 then ({ pen with flags := pen.flags ||| CellFlags.reverse },0)
  else if code = 8 then ({ pen with flags := pen.flags ||| CellFlags.hidden },0)
  else if code = 9 then ({ pen with flags := pen.flags ||| CellFlags.strike },0)
  else if code = 22 then ({ pen with flags := pen.flags &&& ~~~(CellFlags.bold ||| CellFlags.dim) },0)
  else if code = 23 then ({ pen with flags := pen.flags &&& ~~~CellFlags.italic },0)
  else if code = 24 then ({ pen with flags := pen.flags &&& ~~~CellFlags.underline },0)
  else if code = 27 then ({ pen with flags := pen.flags &&& ~~~CellFlags.reverse },0)
  else if code = 28 then ({ pen with flags := pen.flags &&& ~~~CellFlags.hidden },0)
  else if code = 29 then ({ pen with flags := pen.flags &&& ~~~CellFlags.strike },0)
  else if 30 ≤ code ∧ code ≤ 37 then ({ pen with fg := .indexed (UInt8.ofNat (code - 30)) },0)
  else if 90 ≤ code ∧ code ≤ 97 then ({ pen with fg := .indexed (UInt8.ofNat (code - 90 + 8)) },0)
  else if code = 39 then ({ pen with fg := .default },0)
  else if 40 ≤ code ∧ code ≤ 47 then ({ pen with bg := .indexed (UInt8.ofNat (code - 40)) },0)
  else if 100 ≤ code ∧ code ≤ 107 then ({ pen with bg := .indexed (UInt8.ofNat (code - 100 + 8)) },0)
  else if code = 49 then ({ pen with bg := .default },0)
  else if code = 38 ∨ code = 48 then
    -- Extended colour: colon-separated in this group, or the groups that follow.
    if 2 ≤ group.length then
      match parseExtColor group.tail with
      | some color => (setColor pen (code = 38) color,0)
      | none => (pen,0)
    else if first 0 = some 5 then
      match first 1 with
      | some n => (setColor pen (code = 38) (.indexed n.toUInt8),2)
      | none => (pen,2)
    else if first 0 = some 2 then
      let part := fun i => ((first i).getD 0).toUInt8
      (setColor pen (code = 38) (.rgb (part 1) (part 2) (part 3)),4)
    else (pen,0)
  else (pen,0)

/-- The groups left to right; the fuel is their number. -/
def sgrLoop : Nat → Params → Cell → Cell
  | 0, _, pen => pen
  | _, [], pen => pen
  | fuel + 1, group :: rest, pen =>
    let next := sgrCode pen group rest
    sgrLoop fuel (rest.drop next.2) next.1

def setSgr (g : Grid) (params : Params) : Grid :=
  if params.isEmpty then { g with pen := .blank } else { g with pen := sgrLoop params.length params g.pen }

/-- The overlap of the old screen, top left, in a screen of the new size. -/
def resizeCells (old : List Cell) (rows cols rows' cols' : Nat) : Option (List Cell) :=
  (List.range (min rows' rows)).foldlM (fun cells r =>
    (List.range (min cols' cols)).foldlM (fun cells c => do
      let cell ← old[r * cols + c]?
      setCell cells (r * cols' + c) cell) cells) (List.replicate (rows' * cols') .blank)

/-- The screen behind the alternate one, if there is one, resized alike. -/
def resizeSaved (saved : Option (List Cell)) (rows cols rows' cols' : Nat) : Option (Option (List Cell)) :=
  match saved with
  | some alt => (resizeCells alt rows cols rows' cols').map some
  | none => some none

def resize (g : Grid) (rows cols : Nat) : Option Grid := do
  let rows := max rows 1
  let cols := max cols 1
  let cells ← resizeCells g.cells g.rows g.cols rows cols
  let altSaved ← resizeSaved g.altSaved g.rows g.cols rows cols
  some { g with
    rows
    cols
    cells
    altSaved
    scrollTop := 0
    scrollBottom := rows - 1
    cursorRow := min g.cursorRow (rows - 1)
    cursorCol := min g.cursorCol (cols - 1)
    wrapPending := false }

def setPrivateMode (g : Grid) (mode : Nat) (enable : Bool) : Grid :=
  if mode = 7 then { g with autowrap := enable }
  else if mode = 25 then { g with cursorVisible := enable }
  else if mode = 1049 ∨ mode = 47 ∨ mode = 1047 then
    if enable then g.enterAltScreen else g.leaveAltScreen
  else g

def execute (g : Grid) (byte : UInt8) : Option Grid :=
  if byte = 0x0a ∨ byte = 0x0b ∨ byte = 0x0c then g.lineFeed
  else if byte = 0x0d then some { g with cursorCol := 0, wrapPending := false }
  else if byte = 0x08 then some { g with cursorCol := g.cursorCol - 1, wrapPending := false }
  else if byte = 0x09 then some { g with cursorCol := min ((g.cursorCol / 8 + 1) * 8) (g.cols - 1) }
  else some g

def text (s : String) : Bytes := s.toList.map (fun c => UInt8.ofNat c.toNat)

def reply (g : Grid) (bytes : Bytes) : Grid := { g with responses := g.responses ++ bytes }

/-- Escape followed by the text. -/
def escText (s : String) : Bytes := 0x1b :: text s

def csiDispatch (g : Grid) (params : Params) (intermediates : Bytes) (action : Char) : Option Grid :=
  let isPrivate := intermediates.head? = some 0x3f
  let n := arg params 0 1
  match action with
  | 'A' => some { g with cursorRow := g.cursorRow - n, wrapPending := false }
  | 'B' => some { g with cursorRow := min (g.cursorRow + n) (g.rows - 1), wrapPending := false }
  | 'C' => some { g with cursorCol := min (g.cursorCol + n) (g.cols - 1), wrapPending := false }
  | 'D' => some { g with cursorCol := g.cursorCol - n, wrapPending := false }
  | 'G' => do
    let col ← sub n 1
    some { g with cursorCol := min col (g.cols - 1), wrapPending := false }
  | 'd' => do
    let row ← sub n 1
    some { g with cursorRow := min row (g.rows - 1), wrapPending := false }
  | 'H' | 'f' => do
    let row ← sub n 1
    let col ← sub (arg params 1 1) 1
    some (g.moveTo row col)
  | 'J' => g.eraseInDisplay (argRaw params 0 0)
  | 'K' => g.eraseInLine (argRaw params 0 0)
  | '@' => g.insertBlankChars n
  | 'P' => g.deleteChars n
  | 'L' => g.insertLines n
  | 'M' => g.deleteLines n
  | 'S' => g.scrollUp n
  | 'T' => g.scrollDown n
  | 'r' => do
    let top ← sub n 1
    -- The default is the number of rows in 16 bits.
    let bottom ← sub (arg params 1 (g.rows % 2 ^ 16)) 1
    if top < bottom ∧ bottom < g.rows then some (moveTo { g with scrollTop := top, scrollBottom := bottom } 0 0)
    else some g
  | 'm' => some (g.setSgr params)
  | 'h' => if isPrivate then some (g.setPrivateMode (argRaw params 0 0) true) else some g
  | 'l' => if isPrivate then some (g.setPrivateMode (argRaw params 0 0) false) else some g
  | 'n' =>
    if ¬isPrivate ∧ argRaw params 0 0 = 5 then some (g.reply (escText "[0n"))
    else if argRaw params 0 0 = 6 then
      some (g.reply (escText ("[" ++ (if isPrivate then "?" else "") ++ toString (g.cursorRow + 1) ++ ";" ++
        toString (g.cursorCol + 1) ++ "R")))
    else some g
  | 'c' =>
    if intermediates.head? = some 0x3e then some (g.reply (escText "[>0;0;0c"))
    else if intermediates.isEmpty then some (g.reply (escText "[?1;2c"))
    else some g
  | _ => some g

def escDispatch (g : Grid) (byte : UInt8) : Option Grid :=
  if byte = 0x44 then g.lineFeed
  else if byte = 0x4d then g.reverseIndex
  else if byte = 0x45 then lineFeed { g with cursorCol := 0 }
  else if byte = 0x37 then some { g with saved := some (g.cursorRow,g.cursorCol,g.pen) }
  else if byte = 0x38 then
    match g.saved with
    | some (r,c,pen) => some { g with cursorRow := min r (g.rows - 1), cursorCol := min c (g.cols - 1), pen }
    | none => some g
  else if byte = 0x63 then some (new g.rows g.cols)
  else some g

end Grid

/-- What the parser asks the screen to do. -/
inductive Perform where
  | print (c : Char)
  | execute (byte : UInt8)
  | csi (params : Grid.Params) (intermediates : Bytes) (ignore : Bool) (action : Char)
  | esc (intermediates : Bytes) (ignore : Bool) (byte : UInt8)

/-- The escape-sequence parser and the display widths, which come from other libraries. The
parser never looks at the screen. -/
structure Emulator where
  Parser : Type
  init : Parser
  advance : Parser → Bytes → Parser × List Perform
  width : Char → Nat

namespace Grid

def perform (width : Char → Nat) (g : Grid) : Perform → Option Grid
  | .print c => g.putChar c (width c)
  | .execute byte => g.execute byte
  | .csi params intermediates _ action => g.csiDispatch params intermediates action
  | .esc _ _ byte => g.escDispatch byte

end Grid

structure Terminal (em : Emulator) where
  parser : em.Parser
  grid : Grid

namespace Terminal

variable {em : Emulator}

def new (em : Emulator) (rows cols : Nat) : Terminal em := ⟨em.init,Grid.new rows cols⟩

/-- Feed output bytes of the shell. -/
def advance (t : Terminal em) (bytes : Bytes) : Option (Terminal em) := do
  let (parser,performs) := em.advance t.parser bytes
  let grid ← performs.foldlM (Grid.perform em.width) t.grid
  some ⟨parser,grid⟩

def resize (t : Terminal em) (rows cols : Nat) : Option (Terminal em) := do
  let grid ← t.grid.resize rows cols
  some { t with grid }

def takeResponses (t : Terminal em) : Bytes × Terminal em :=
  (t.grid.takeResponses.1,{ t with grid := t.grid.takeResponses.2 })

end Terminal
end Noissh

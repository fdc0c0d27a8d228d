import Noissh.GridSafety
import Noissh.Wire

/-! Screen diffs (`term/src/diff.rs`): a full snapshot, or the cells that changed. Applying one
returns the outcome and the grid as it then is; an index out of range returns nothing. -/
namespace Noissh

open Wire

inductive DiffError where
  | wire (e : WireError)
  | eof
  | badTag (tag : UInt8)
  | dimMismatch
  | badDimensions
  deriving DecidableEq, Repr

namespace Diff

def tagFull : UInt8 := 0
def tagDelta : UInt8 := 1

/-- Upper bound on the cells of a screen that is accepted. -/
def maxCells : Nat := 2 ^ 20

abbrev Reader (α : Type) := Bytes → Except DiffError (α × Bytes)

def getU8 : Reader UInt8
  | [] => .error .eof
  | byte :: rest => .ok (byte,rest)

def getVarint : Reader Nat := fun buf => (Wire.getVarint buf).mapError .wire

def putColor : Color → Bytes
  | .default => [0]
  | .indexed n => [1,n]
  | .rgb r g b => [2,r,g,b]

def getColor : Reader Color := fun buf => do
  let (kind,buf) ← getU8 buf
  if kind = 0 then .ok (.default,buf)
  else if kind = 1 then
    let (n,buf) ← getU8 buf
    .ok (.indexed n,buf)
  else if kind = 2 then
    let (r,buf) ← getU8 buf
    let (g,buf) ← getU8 buf
    let (b,buf) ← getU8 buf
    .ok (.rgb r g b,buf)
  else .error (.badTag kind)

/-- `char::from_u32`, with the replacement character where there is none. -/
def charOf (n : Nat) : Char := if n.isValidChar then Char.ofNat n else Char.ofNat 0xfffd

def putCell (cell : Cell) : Bytes :=
  putVarint cell.ch.toNat ++ putColor cell.fg ++ putColor cell.bg ++ [cell.flags]

def getCell : Reader Cell := fun buf => do
  let (ch,buf) ← getVarint buf
  let (fg,buf) ← getColor buf
  let (bg,buf) ← getColor buf
  let (flags,buf) ← getU8 buf
  .ok ({ ch := charOf (ch % 2 ^ 32), fg, bg, flags },buf)

def putHeader (g : Grid) : Bytes :=
  putVarint g.rows ++ putVarint g.cols ++ putVarint g.cursorRow ++ putVarint g.cursorCol ++
    [if g.cursorVisible then 1 else 0]

/-- The cells of the target that differ from those of the base. -/
def changes (base target : Grid) : List Nat :=
  (List.range target.cells.length).filter (fun i => target.cells[i]? != base.cells[i]?)

def putChange (target : Grid) (i : Nat) : Bytes := putVarint i ++ putCell ((target.cells[i]?).getD .blank)

def encodeFull (target : Grid) : Bytes := tagFull :: (putHeader target ++ target.cells.flatMap putCell)

def encodeDelta (base target : Grid) : Bytes :=
  tagDelta :: (putHeader target ++ (putVarint (changes base target).length ++
    (changes base target).flatMap (putChange target)))

/-- The diff from the base, if there is one, to the target. -/
def encodeDiff (base : Option Grid) (target : Grid) : Bytes :=
  match base with
  | some b => if b.rows = target.rows ∧ b.cols = target.cols then encodeDelta b target else encodeFull target
  | none => encodeFull target

def isFull (bytes : Bytes) : Bool := bytes.head? == some tagFull

structure Header where
  tag : UInt8
  rows : Nat
  cols : Nat
  cursorRow : Nat
  cursorCol : Nat
  cursorVisible : Bool
  deriving DecidableEq, Repr

def getHeader : Reader Header := fun buf => do
  let (tag,buf) ← getU8 buf
  let (rows,buf) ← getVarint buf
  let (cols,buf) ← getVarint buf
  let (cursorRow,buf) ← getVarint buf
  let (cursorCol,buf) ← getVarint buf
  let (visible,buf) ← getU8 buf
  .ok ({ tag, rows, cols, cursorRow, cursorCol, cursorVisible := visible != 0 },buf)

/-- Overwrite `n` cells from `i` on. -/
def applyFull : Nat → Nat → List Cell → Bytes → Option (Except DiffError Unit × List Cell)
  | 0, _, cells, _ => some (.ok (),cells)
  | n + 1, i, cells, buf =>
    match getCell buf with
    | .error e => some (.error e,cells)
    | .ok (cell,rest) => do
      let cells ← Grid.setCell cells i cell
      applyFull n (i + 1) cells rest

/-- Overwrite the listed cells; those beyond the grid are skipped. -/
def applyDelta : Nat → List Cell → Bytes → Except DiffError Unit × List Cell
  | 0, cells, _ => (.ok (),cells)
  | n + 1, cells, buf =>
    match getVarint buf with
    | .error e => (.error e,cells)
    | .ok (i,rest) =>
      match getCell rest with
      | .error e => (.error e,cells)
      | .ok (cell,rest) => applyDelta n (if i < cells.length then cells.set i cell else cells) rest

/-- The cursor of the header, kept inside the grid. -/
def place (header : Header) (g : Grid) : Grid :=
  { g with
    cursorRow := min header.cursorRow (header.rows - 1)
    cursorCol := min header.cursorCol (header.cols - 1)
    cursorVisible := header.cursorVisible }

/-- The cells were written as far as they could be read. -/
def finish (header : Header) (g : Grid) (written : Except DiffError Unit × List Cell) : Except DiffError Unit × Grid :=
  match written with
  | (.ok (),cells) => (.ok (),place header { g with cells })
  | (.error e,cells) => (.error e,{ g with cells })

def applyDiff (g : Grid) (bytes : Bytes) : Option (Except DiffError Unit × Grid) :=
  match getHeader bytes with
  | .error e => some (.error e,g)
  | .ok (header,rest) =>
    if header.rows = 0 ∨ header.cols = 0 ∨ maxCells < header.rows * header.cols then
      some (.error .badDimensions,g)
    else if header.tag = tagFull then
      let g := if g.rows ≠ header.rows ∨ g.cols ≠ header.cols then Grid.new header.rows header.cols else g
      (applyFull (header.rows * header.cols) 0 g.cells rest).map (finish header g)
    else if header.tag = tagDelta then
      if g.rows ≠ header.rows ∨ g.cols ≠ header.cols then some (.error .dimMismatch,g)
      else
        match getVarint rest with
        | .error e => some (.error e,g)
        | .ok (count,rest) => some (finish header g (applyDelta count g.cells rest))
    else some (.error (.badTag header.tag),g)

end Diff
end Noissh

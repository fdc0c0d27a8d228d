import Noissh.Renderer

/-! The renderer's output taken apart: the control sequences it writes of its own, and the
characters of the cells between them. -/
namespace Noissh

inductive Token where
  | moveTo (row col : Nat)
  | clearLine
  | sgr (flags : UInt8) (fg bg : Color)
  | cursor (visible : Bool)
  | glyph (ch : Char)
  deriving DecidableEq, Repr

namespace Token

def text : Token → List Char
  | moveTo row col => Noissh.moveTo row col
  | clearLine => Noissh.clearLine
  | sgr flags fg bg => sgrFor flags fg bg
  | cursor visible => if visible then showCursor else hideCursor
  | glyph ch => [ch]

end Token

namespace Renderer

def cellTokens (g : Grid) (row : Nat) : List Nat → Option (UInt8 × Color × Color) → List Token
  | [], _ => []
  | col :: rest, cur =>
    let cell := g.cell row col
    let key := (cell.flags,cell.fg,cell.bg)
    (if cur = some key then [] else [.sgr cell.flags cell.fg cell.bg]) ++ .glyph cell.ch :: cellTokens g row rest (some key)

def rowTokens (g : Grid) (row : Nat) : List Token :=
  [.moveTo (row + 1) 1,.clearLine] ++ cellTokens g row (List.range g.cols) none ++ [.sgr 0 .default .default]

/-- Whether any row is painted. -/
def repaints (last : Option Grid) (g : Grid) : Bool := !(changedRows last g).isEmpty

/-- Where the cursor goes after the rows, if it has to. -/
def cursorTokens (last : Option Grid) (g : Grid) : List Token :=
  if repaints last g || cursorMoved last g then [.moveTo (g.cursorRow + 1) (g.cursorCol + 1)] else []

def visibilityTokens (last : Option Grid) (g : Grid) : List Token :=
  if repaints last g then if g.cursorVisible then [.cursor true] else []
  else if visChanged last g then [.cursor g.cursorVisible] else []

def drawTokens (last : Option Grid) (g : Grid) : List Token :=
  (if repaints last g then [.cursor false] else []) ++ (changedRows last g).flatMap (rowTokens g) ++
    cursorTokens last g ++ visibilityTokens last g

theorem paintCells_text (g : Grid) (row : Nat) (cols : List Nat) (cur : Option (UInt8 × Color × Color)) :
    paintCells g row cols cur = (cellTokens g row cols cur).flatMap Token.text := by
  induction cols generalizing cur with
  | nil => rfl
  | cons col rest ih =>
    simp only [paintCells,cellTokens,List.flatMap_append,List.flatMap_cons,ih]
    split <;> simp [Token.text]

theorem paintRow_text (g : Grid) (row : Nat) : paintRow g row = (rowTokens g row).flatMap Token.text := by
  simp only [paintRow,rowTokens,paintCells_text,List.flatMap_append,List.flatMap_cons,List.flatMap_nil,Token.text,
    List.append_nil]
  rfl

theorem draw_text (last : Option Grid) (g : Grid) : draw last g = (drawTokens last g).flatMap Token.text := by
  have row : paintRow g = fun row => (rowTokens g row).flatMap Token.text := funext (paintRow_text g)
  unfold draw drawTokens
  rw [List.flatMap_append,List.flatMap_append,List.flatMap_append,List.flatMap_assoc,← row]
  refine congrArg₂ (· ++ ·) (congrArg₂ (· ++ ·) (congrArg₂ (· ++ ·) ?_ rfl) ?_) ?_
  · change (if repaints last g then hideCursor else []) = _
    split <;> rfl
  · change (if repaints last g || cursorMoved last g then moveTo (g.cursorRow + 1) (g.cursorCol + 1) else []) = _
    unfold cursorTokens
    split <;> simp [Token.text]
  · change (if repaints last g then _ else _) = _
    unfold visibilityTokens
    split
    · split <;> rfl
    · split
      · simp [Token.text]
      · rfl

/-- Every glyph written is the character of a cell of the grid. -/
theorem glyph_cellTokens {g : Grid} {row : Nat} {cols : List Nat} {cur : Option (UInt8 × Color × Color)} {ch : Char}
    (member : .glyph ch ∈ cellTokens g row cols cur) : ∃ col ∈ cols, ch = (g.cell row col).ch := by
  induction cols generalizing cur with
  | nil => cases member
  | cons col rest ih =>
    simp only [cellTokens,List.mem_append,List.mem_cons,Token.glyph.injEq] at member
    rcases member with attributes | here | later
    · split at attributes <;> simp at attributes
    · exact ⟨col,.head _,here⟩
    · obtain ⟨col',member,same⟩ := ih later
      exact ⟨col',.tail _ member,same⟩

theorem glyph_drawTokens {last : Option Grid} {g : Grid} {ch : Char} (member : .glyph ch ∈ drawTokens last g) :
    ∃ row col, ch = (g.cell row col).ch := by
  simp only [drawTokens,cursorTokens,visibilityTokens,List.mem_append,List.mem_flatMap] at member
  rcases member with ((hidden | ⟨row,_,painted⟩) | moved) | shown
  · split at hidden <;> simp at hidden
  · simp only [rowTokens,List.mem_append,List.mem_cons,List.not_mem_nil,or_false,reduceCtorEq,false_or] at painted
    obtain ⟨col,_,same⟩ := glyph_cellTokens painted
    exact ⟨row,col,same⟩
  · split at moved <;> simp at moved
  · split at shown
    · split at shown <;> simp at shown
    · split at shown <;> simp at shown

end Renderer
end Noissh

import Noissh.GridTotal
import Noissh.InPlace

/-! Which cell goes where. Scrolling copies rows and shifting copies cells within the one list
of cells, in an order in which nothing is overwritten before it is read. -/
namespace Noissh
namespace Grid

open InPlace

variable {g h : Grid}

/-- A row of the cells; past its end there is nothing. -/
def line (cols : Nat) (cells : List Cell) (r c : Nat) : Option Cell :=
  if c < cols then cells[r * cols + c]? else none

/-- A place lies in the run of cells of a row exactly when it is in that row. -/
theorem in_row_iff {cols r r' c : Nat} (inside : c < cols) :
    r * cols ≤ r' * cols + c ∧ r' * cols + c < r * cols + cols ↔ r' = r := by
  constructor
  · rintro ⟨lower,upper⟩
    rcases Nat.lt_trichotomy r' r with below | same | above
    · have next := Nat.mul_le_mul_right cols (Nat.succ_le_of_lt below)
      rw [Nat.succ_mul] at next
      omega
    · exact same
    · have next := Nat.mul_le_mul_right cols (Nat.succ_le_of_lt above)
      rw [Nat.succ_mul] at next
      omega
  · rintro rfl
    omega

theorem getElem?_copyWithin {cells out : List Cell} {src len dst : Nat} (copied : copyWithin cells src len dst = some out)
    (i : Nat) : out[i]? = if dst ≤ i ∧ i < dst + len then cells[src + (i - dst)]? else cells[i]? := by
  unfold copyWithin at copied
  split at copied
  · rename_i fits
    cases copied
    have length : ((cells.drop src).take len).length = len := by simp; omega
    rw [Splice.getElem?_splice _ _ _ _ (by omega),length]
    by_cases inside : dst ≤ i ∧ i < dst + len
    · rw [if_pos inside,if_pos inside,List.getElem?_take_of_lt (by omega),List.getElem?_drop]
    · rw [if_neg inside,if_neg inside]
  · cases copied

theorem setCell_sets {cells out : List Cell} {i : Nat} {cell : Cell} (set : setCell cells i cell = some out) :
    Sets (fun (cells : List Cell) i => cells[i]?) cells out i (some cell) := by
  unfold setCell at set
  split at set
  · rename_i bound
    cases set
    exact ⟨List.getElem?_set_self bound,fun j other => List.getElem?_set_ne (Ne.symm other)⟩
  · cases set

theorem getElem?_blankRun {cells : List Cell} {start n : Nat} (fits : start + n ≤ cells.length) :
    ∃ out, blankRun cells start n = some out ∧ out.length = cells.length ∧
      ∀ i, out[i]? = if start ≤ i ∧ i < start + n then some .blank else cells[i]? := by
  obtain ⟨out,looped,length,blanked,others⟩ := foldlM_sets (fun (cells : List Cell) i => cells[i]?)
    (fun c => start + c) (fun _ => none) (fun _ => some .blank) (f := fun cells c => setCell cells (start + c) .blank)
    (P := fun now => now.length = cells.length) (l := List.range n) (s := cells)
    (List.pairwise_lt_range.imp fun lt => ⟨Nat.ne_of_lt (Nat.add_lt_add_left lt start),nofun⟩)
    (fun c member now length _ => by
      have inside := List.mem_range.mp member
      have set := @setCell_some now (start + c) (by omega) .blank
      exact ⟨_,set,by simp [length],setCell_sets set⟩) rfl
  refine ⟨out,looped,length,fun i => ?_⟩
  by_cases inside : start ≤ i ∧ i < start + n
  · have here := blanked (i - start) (List.mem_range.mpr (by omega))
    rw [if_pos inside,← here]
    congr 1
    omega
  · rw [if_neg inside]
    apply others
    intro c member
    have := List.mem_range.mp member
    omega

def blankLine (cols c : Nat) : Option Cell := if c < cols then some .blank else none

theorem copyRow_sets {cells : List Cell} {rows cols src dst : Nat} (length : cells.length = rows * cols) (from_ : src < rows)
    (to_ : dst < rows) : ∃ out, copyWithin cells (src * cols) cols (dst * cols) = some out ∧ out.length = rows * cols ∧
      Sets (line cols) cells out dst (line cols cells src) := by
  have place : ∀ {r : Nat}, r < rows → r * cols + cols ≤ rows * cols := fun inside => by
    have := Nat.mul_le_mul_right cols (Nat.succ_le_of_lt inside)
    rwa [Nat.succ_mul] at this
  have first := place from_
  have second := place to_
  obtain ⟨out,copied⟩ := @copyWithin_some cells (src * cols) cols (dst * cols) ⟨by omega,by omega⟩
  refine ⟨out,copied,by rw [copyWithin_length copied,length],?_,?_⟩
  · funext c
    unfold line
    split
    · rename_i inside
      rw [getElem?_copyWithin copied,if_pos ((in_row_iff inside).mpr rfl)]
      congr 1
      omega
    · rfl
  · intro r other
    funext c
    unfold line
    split
    · rename_i inside
      rw [getElem?_copyWithin copied,if_neg fun here => other ((in_row_iff inside).mp here)]
    · rfl

theorem blankRow_sets {cells : List Cell} {rows cols dst : Nat} (length : cells.length = rows * cols) (to_ : dst < rows) :
    ∃ out, blankRun cells (dst * cols) cols = some out ∧ out.length = rows * cols ∧
      Sets (line cols) cells out dst (blankLine cols) := by
  have second := Nat.mul_le_mul_right cols (Nat.succ_le_of_lt to_)
  rw [Nat.succ_mul] at second
  obtain ⟨out,blanked,same,cell⟩ := @getElem?_blankRun cells (dst * cols) cols (by omega)
  refine ⟨out,blanked,same.trans length,?_,?_⟩
  · funext c
    unfold line blankLine
    split
    · rename_i inside
      rw [cell,if_pos ((in_row_iff inside).mpr rfl)]
    · rfl
  · intro r other
    funext c
    unfold line
    split
    · rename_i inside
      rw [cell,if_neg fun here => other ((in_row_iff inside).mp here)]
    · rfl

/-- A loop that gives every row of a region another row, or blanks it. -/
theorem rows_moved {f : List Cell → Nat → Option (List Cell)} {cells : List Cell} {rows cols : Nat} {l : List Nat}
    (source : Nat → Option Nat) (length : cells.length = rows * cols) (inside : ∀ r ∈ l, r < rows)
    (reads : ∀ r ∈ l, ∀ src, source r = some src → src < rows) (ordered : Ordered id source l)
    (round : ∀ r ∈ l, ∀ now, f now r = (match source r with
      | some src => copyWithin now (src * cols) cols (r * cols)
      | none => blankRun now (r * cols) cols)) :
    ∃ out, l.foldlM f cells = some out ∧ out.length = rows * cols ∧
      ∀ r, line cols out r = if r ∈ l then (source r).elim (blankLine cols) (line cols cells) else line cols cells r := by
  obtain ⟨out,looped,length,written,others⟩ := foldlM_sets (line cols) id source
    (fun r => (source r).elim (blankLine cols) (line cols cells)) (f := f) (s := cells)
    (P := fun now => now.length = rows * cols) ordered
    (fun r member now length same => by
      rw [round r member now]
      cases here : source r with
      | some src =>
        have copied := copyRow_sets length (reads r member src here) (inside r member)
        rw [same src here] at copied
        exact copied
      | none => exact blankRow_sets length (inside r member)) length
  refine ⟨out,looped,length,fun r => ?_⟩
  split
  · rename_i member
    exact written r member
  · rename_i outside
    apply others
    rintro _ member rfl
    exact outside member

/-- Only cells change, and each is the old cell at its origin, or blank if it has none. -/
structure Rearranges (g h : Grid) (origin : Nat → Nat → Option (Nat × Nat)) : Prop where
  only : h = { g with cells := h.cells }
  wf : h.WF
  cell : ∀ r c, r < g.rows → c < g.cols → h.cell r c = (origin r c).elim .blank fun p => g.cell p.1 p.2

/-- The rows from `top` to `bottom` take the row `n` below. -/
def upBy (top bottom n r c : Nat) : Option (Nat × Nat) :=
  if top ≤ r ∧ r ≤ bottom then if r + n ≤ bottom then some (r + n,c) else none else some (r,c)

/-- The rows from `top` to `bottom` take the row `n` above. -/
def downBy (top bottom n r c : Nat) : Option (Nat × Nat) :=
  if top ≤ r ∧ r ≤ bottom then if top + n ≤ r then some (r - n,c) else none else some (r,c)

/-- The cells of a row from `col` on take the cell `n` to the left. -/
def rightBy (row col n r c : Nat) : Option (Nat × Nat) :=
  if r = row ∧ col ≤ c then if col + n ≤ c then some (r,c - n) else none else some (r,c)

/-- The cells of a row from `col` on take the cell `n` to the right. -/
def leftBy (row col cols n r c : Nat) : Option (Nat × Nat) :=
  if r = row ∧ col ≤ c then if c + n < cols then some (r,c + n) else none else some (r,c)

theorem cell_eq_line {r c : Nat} (inRow : r < g.rows) (inCol : c < g.cols) :
    g.cell r c = (line g.cols g.cells r c).getD .blank := by
  rw [cell,if_pos ⟨inRow,inCol⟩,line,if_pos inCol,idx]

theorem Rearranges.congr {origin origin' : Nat → Nat → Option (Nat × Nat)} (moved : Rearranges g h origin)
    (same : ∀ r c, r < g.rows → c < g.cols → origin r c = origin' r c) : Rearranges g h origin' where
  only := moved.only
  wf := moved.wf
  cell r c inRow inCol := by rw [moved.cell r c inRow inCol,same r c inRow inCol]

/-- A loop over the rows of a region, each copied from its source or blanked. -/
theorem rows_rearranged (wf : g.WF) {f : List Cell → Nat → Option (List Cell)} {l : List Nat} (source : Nat → Option Nat)
    (inside : ∀ r ∈ l, r < g.rows ∧ ∀ src, source r = some src → src < g.rows) (ordered : Ordered id source l)
    (round : ∀ r ∈ l, ∀ now, f now r = (match source r with
      | some src => copyWithin now (src * g.cols) g.cols (r * g.cols)
      | none => blankRun now (r * g.cols) g.cols)) :
    ∃ cells, l.foldlM f g.cells = some cells ∧
      Rearranges g { g with cells } fun r c => if r ∈ l then (source r).map (·,c) else some (r,c) := by
  obtain ⟨cells,looped,length,lines⟩ := rows_moved source wf.cells (fun r member => (inside r member).1)
    (fun r member => (inside r member).2) ordered round
  refine ⟨cells,looped,rfl,wf.edits (wf.write (length.trans wf.cells.symm)),fun r c inRow inCol => ?_⟩
  have shown : Grid.cell { g with cells } r c = (line g.cols cells r c).getD .blank :=
    cell_eq_line (g := { g with cells }) inRow inCol
  rw [shown,lines]
  by_cases here : r ∈ l
  · rw [if_pos here,if_pos here]
    cases origin : source r with
    | none => simp [blankLine,inCol]
    | some src => simp [cell_eq_line ((inside r here).2 src origin) inCol]
  · rw [if_neg here,if_neg here]
    simp [cell_eq_line inRow inCol]

/-- The clamped count moves the same rows into the region. -/
theorem up_clamped {top bottom r n : Nat} (inside : top ≤ r ∧ r ≤ bottom) :
    (r + min n (bottom - top + 1) ≤ bottom ↔ r + n ≤ bottom) ∧ (r + n ≤ bottom → min n (bottom - top + 1) = n) := by omega

theorem down_clamped {top bottom r n : Nat} (inside : top ≤ r ∧ r ≤ bottom) :
    (top + min n (bottom - top + 1) ≤ r ↔ top + n ≤ r) ∧ (top + n ≤ r → min n (bottom - top + 1) = n) := by omega

theorem scrollUp_rearranges (wf : g.WF) (n : Nat) :
    ∃ h, g.scrollUp n = some h ∧ Rearranges g h (upBy g.scrollTop g.scrollBottom n) := by
  have bottom := wf.bottom
  have top := wf.top
  have region : ∀ r, r ∈ List.range' g.scrollTop (g.scrollBottom - g.scrollTop + 1) ↔
      g.scrollTop ≤ r ∧ r ≤ g.scrollBottom := by
    intro r
    rw [List.mem_range'_1]
    omega
  obtain ⟨cells,looped,moved⟩ := rows_rearranged wf
    (f := fun cells r => if r + min n (g.scrollBottom - g.scrollTop + 1) ≤ g.scrollBottom then
      copyWithin cells (g.idx (r + min n (g.scrollBottom - g.scrollTop + 1)) 0) g.cols (g.idx r 0)
      else blankRun cells (g.idx r 0) g.cols)
    (fun r => if r + n ≤ g.scrollBottom then some (r + n) else none)
    (fun r member => by
      have := (region r).mp member
      refine ⟨by omega,fun src reading => ?_⟩
      split at reading <;> cases reading
      omega)
    -- Rows are written from the top and read from further down.
    (ordered_up (fun _ _ => id) (fun a i reading => by split at reading <;> cases reading; simp) _ _)
    (fun r member now => by
      obtain ⟨clamp,exact_⟩ := up_clamped (n := n) ((region r).mp member)
      simp only [clamp,idx,Nat.add_zero]
      split
      · rename_i fits
        rw [exact_ fits]
      · rfl)
  refine ⟨{ g with cells },?_,moved.congr fun r c _ _ => ?_⟩
  · unfold scrollUp
    rw [span_some wf]
    simp only [Option.bind_eq_bind,Option.bind_some]
    rw [looped]
    rfl
  · simp only [region,upBy]
    split
    · split <;> rfl
    · rfl

theorem scrollDown_rearranges (wf : g.WF) (n : Nat) :
    ∃ h, g.scrollDown n = some h ∧ Rearranges g h (downBy g.scrollTop g.scrollBottom n) := by
  have bottom := wf.bottom
  have top := wf.top
  have region : ∀ r, r ∈ (List.range' g.scrollTop (g.scrollBottom - g.scrollTop + 1)).reverse ↔
      g.scrollTop ≤ r ∧ r ≤ g.scrollBottom := by
    intro r
    rw [List.mem_reverse,List.mem_range'_1]
    omega
  obtain ⟨cells,looped,moved⟩ := rows_rearranged wf
    (f := fun cells r => if g.scrollTop + min n (g.scrollBottom - g.scrollTop + 1) ≤ r then
      copyWithin cells (g.idx (r - min n (g.scrollBottom - g.scrollTop + 1)) 0) g.cols (g.idx r 0)
      else blankRun cells (g.idx r 0) g.cols)
    (fun r => if g.scrollTop + n ≤ r then some (r - n) else none)
    (fun r member => by
      have := (region r).mp member
      refine ⟨by omega,fun src reading => ?_⟩
      split at reading <;> cases reading
      omega)
    -- Rows are written from the bottom and read from further up.
    (ordered_down (fun _ _ => id) (fun a i reading => by split at reading <;> cases reading; simp) _ _)
    (fun r member now => by
      obtain ⟨clamp,exact_⟩ := down_clamped (n := n) ((region r).mp member)
      simp only [clamp,idx,Nat.add_zero]
      split
      · rename_i fits
        rw [exact_ fits]
      · rfl)
  refine ⟨{ g with cells },?_,moved.congr fun r c _ _ => ?_⟩
  · unfold scrollDown
    rw [span_some wf]
    simp only [Option.bind_eq_bind,Option.bind_some]
    rw [looped]
    rfl
  · simp only [region,downBy]
    split
    · split <;> rfl
    · rfl

theorem WF.getElem?_idx (wf : g.WF) {r c : Nat} (inRow : r < g.rows) (inCol : c < g.cols) :
    g.cells[g.idx r c]? = some (g.cell r c) := by
  rw [cell,if_pos ⟨inRow,inCol⟩,List.getElem?_eq_getElem (wf.index inRow inCol),Option.getD_some]

theorem rearranges_of_cells (wf : g.WF) {cells : List Cell} (length : cells.length = g.cells.length)
    {origin : Nat → Nat → Option (Nat × Nat)} (value : ∀ r c, r < g.rows → c < g.cols →
      cells[g.idx r c]? = some ((origin r c).elim .blank fun p => g.cell p.1 p.2)) :
    Rearranges g { g with cells } origin where
  only := rfl
  wf := wf.edits (wf.write length)
  cell r c inRow inCol := by
    have shown : (Grid.cell { g with cells } r c) = (cells[g.idx r c]?).getD .blank := if_pos ⟨inRow,inCol⟩
    rw [shown,value r c inRow inCol]
    rfl

/-- Two places of the screen are one cell only when they are one place. -/
theorem idx_inj {r r' c c' : Nat} (inCol : c < g.cols) (inCol' : c' < g.cols) : g.idx r c = g.idx r' c' ↔ r = r' ∧ c = c' := by
  unfold idx
  constructor
  · intro same
    have row : r = r' := (in_row_iff inCol).mp ⟨by omega,by omega⟩
    subst row
    exact ⟨rfl,by omega⟩
  · rintro ⟨rfl,rfl⟩
    rfl

theorem moveCell_sets {cells : List Cell} {dst src : Nat} (to_ : dst < cells.length) (from_ : src < cells.length) :
    ∃ out, moveCell cells dst src = some out ∧ out.length = cells.length ∧
      Sets (fun (cells : List Cell) i => cells[i]?) cells out dst cells[src]? := by
  obtain ⟨out,moved⟩ := moveCell_some from_ to_
  refine ⟨out,moved,moveCell_length moved,?_⟩
  obtain ⟨cell,read,set⟩ := Option.bind_eq_some_iff.mp moved
  rw [read]
  exact setCell_sets set

/-- A loop over columns of one row, each moved from its source or blanked. -/
theorem columns_rearranged (wf : g.WF) {row : Nat} (inRow : row < g.rows) {f : List Cell → Nat → Option (List Cell)}
    {l : List Nat} (source : Nat → Option Nat)
    (inside : ∀ c ∈ l, c < g.cols ∧ ∀ src, source c = some src → src < g.cols)
    (ordered : Ordered (g.idx row) (fun c => (source c).map (g.idx row)) l)
    (round : ∀ c ∈ l, ∀ now, f now c = (match source c with
      | some src => moveCell now (g.idx row c) (g.idx row src)
      | none => setCell now (g.idx row c) .blank)) :
    ∃ cells, l.foldlM f g.cells = some cells ∧
      Rearranges g { g with cells } fun r c => if r = row ∧ c ∈ l then (source c).map (r,·) else some (r,c) := by
  obtain ⟨cells,looped,length,written,others⟩ := foldlM_sets (fun (cells : List Cell) i => cells[i]?) (g.idx row)
    (fun c => (source c).map (g.idx row)) (fun c => some ((source c).elim .blank (g.cell row))) (f := f) (s := g.cells)
    (P := fun now => now.length = g.cells.length) ordered
    (fun c member now length same => by
      have to_ := wf.index inRow (inside c member).1
      rw [round c member now]
      cases here : source c with
      | some src =>
        have inCol := (inside c member).2 src here
        obtain ⟨out,moved,kept,sets⟩ := @moveCell_sets now (g.idx row c) (g.idx row src) (by omega)
          (by have := wf.index inRow inCol; omega)
        rw [same (g.idx row src) (by rw [here]; rfl),wf.getElem?_idx inRow inCol] at sets
        exact ⟨out,moved,kept.trans length,sets⟩
      | none =>
        have set := @setCell_some now (g.idx row c) (by omega) .blank
        exact ⟨_,set,by simp [length],setCell_sets set⟩) rfl
  refine ⟨cells,looped,rearranges_of_cells wf length fun r c inRow' inCol => ?_⟩
  by_cases here : r = row ∧ c ∈ l
  · obtain ⟨rfl,member⟩ := here
    rw [if_pos ⟨rfl,member⟩,written c member]
    cases source c <;> rfl
  · rw [if_neg here,others _ fun a member same => here ?_]
    · exact wf.getElem?_idx inRow' inCol
    · obtain ⟨rfl,rfl⟩ := (idx_inj (inside a member).1 inCol).mp same
      exact ⟨rfl,member⟩

theorem insertBlankChars_rearranges (wf : g.WF) (n : Nat) :
    ∃ h, g.insertBlankChars n = some h ∧ Rearranges g h (rightBy g.cursorRow g.cursorCol n) := by
  have inCol := wf.col
  have region : ∀ c, c ∈ (List.range' g.cursorCol (g.cols - g.cursorCol)).reverse ↔ g.cursorCol ≤ c ∧ c < g.cols := by
    intro c
    rw [List.mem_reverse,List.mem_range'_1]
    omega
  obtain ⟨cells,looped,moved⟩ := columns_rearranged wf wf.row
    (f := fun cells c => if g.cursorCol + min n (g.cols - g.cursorCol) ≤ c then
      moveCell cells (g.idx g.cursorRow 0 + c) (g.idx g.cursorRow 0 + c - min n (g.cols - g.cursorCol))
      else setCell cells (g.idx g.cursorRow 0 + c) .blank)
    (fun c => if g.cursorCol + n ≤ c then some (c - n) else none)
    (fun c member => by
      have := (region c).mp member
      refine ⟨this.2,fun src reading => ?_⟩
      split at reading <;> cases reading
      omega)
    -- Cells are written from the right and read from further left.
    (ordered_down (fun _ _ lt => Nat.add_lt_add_left lt _) (fun a i reading => by
      split at reading <;> cases reading
      simp [idx]) _ _)
    (fun c member now => by
      have inside := (region c).mp member
      have clamp : g.cursorCol + min n (g.cols - g.cursorCol) ≤ c ↔ g.cursorCol + n ≤ c := by omega
      simp only [clamp,idx,Nat.add_zero]
      split
      · rename_i fits
        rw [Nat.min_eq_left (by omega),Nat.add_sub_assoc (by omega)]
      · rfl)
  refine ⟨{ g with cells },?_,moved.congr fun r c _ inside => ?_⟩
  · unfold insertBlankChars
    dsimp only [Option.bind_eq_bind]
    rw [columns_some wf,Option.bind_some,looped]
    rfl
  · simp only [region,rightBy,inside,and_true]
    split
    · split <;> rfl
    · rfl

theorem deleteChars_rearranges (wf : g.WF) (n : Nat) :
    ∃ h, g.deleteChars n = some h ∧ Rearranges g h (leftBy g.cursorRow g.cursorCol g.cols n) := by
  have inCol := wf.col
  have region : ∀ c, c ∈ List.range' g.cursorCol (g.cols - g.cursorCol) ↔ g.cursorCol ≤ c ∧ c < g.cols := by
    intro c
    rw [List.mem_range'_1]
    omega
  obtain ⟨cells,looped,moved⟩ := columns_rearranged wf wf.row
    (f := fun cells c => if c + min n (g.cols - g.cursorCol) < g.cols then
      moveCell cells (g.idx g.cursorRow 0 + c) (g.idx g.cursorRow 0 + c + min n (g.cols - g.cursorCol))
      else setCell cells (g.idx g.cursorRow 0 + c) .blank)
    (fun c => if c + n < g.cols then some (c + n) else none)
    (fun c member => by
      have := (region c).mp member
      refine ⟨this.2,fun src reading => ?_⟩
      split at reading <;> cases reading
      assumption)
    -- Cells are written from the left and read from further right.
    (ordered_up (fun _ _ lt => Nat.add_lt_add_left lt _) (fun a i reading => by
      split at reading <;> cases reading
      simp [idx]) _ _)
    (fun c member now => by
      have inside := (region c).mp member
      have clamp : c + min n (g.cols - g.cursorCol) < g.cols ↔ c + n < g.cols := by omega
      simp only [clamp,idx,Nat.add_zero]
      split
      · rename_i fits
        rw [Nat.min_eq_left (by omega),Nat.add_assoc]
      · rfl)
  refine ⟨{ g with cells },?_,moved.congr fun r c _ inside => ?_⟩
  · unfold deleteChars
    dsimp only [Option.bind_eq_bind]
    rw [columns_some wf,Option.bind_some,looped]
    rfl
  · simp only [region,leftBy,inside,and_true]
    split
    · split <;> rfl
    · rfl

/-- The places of a set are blanked. -/
def blankedAt (erased : Nat → Nat → Prop) [∀ r c, Decidable (erased r c)] (r c : Nat) : Option (Nat × Nat) :=
  if erased r c then none else some (r,c)

theorem erased_rearranges (wf : g.WF) {cells : List Cell} (length : cells.length = g.cells.length)
    {erased : Nat → Nat → Prop} [∀ r c, Decidable (erased r c)] (value : ∀ r c, r < g.rows → c < g.cols →
      cells[g.idx r c]? = if erased r c then some .blank else g.cells[g.idx r c]?) :
    Rearranges g { g with cells } (blankedAt erased) := by
  apply rearranges_of_cells wf length
  intro r c inRow inCol
  rw [value r c inRow inCol,blankedAt]
  split
  · rfl
  · exact wf.getElem?_idx inRow inCol

/-- Places are numbered along the rows. -/
theorem idx_le {r r' c c' : Nat} (inCol : c < g.cols) (inCol' : c' < g.cols) :
    g.idx r c ≤ g.idx r' c' ↔ r < r' ∨ r = r' ∧ c ≤ c' := by
  unfold idx
  rcases Nat.lt_trichotomy r r' with below | rfl | above
  · have next := Nat.mul_le_mul_right g.cols (Nat.succ_le_of_lt below)
    rw [Nat.succ_mul] at next
    omega
  · omega
  · have next := Nat.mul_le_mul_right g.cols (Nat.succ_le_of_lt above)
    rw [Nat.succ_mul] at next
    omega

/-- What a mode of erasing in the display blanks. -/
def inDisplay (g : Grid) (mode r c : Nat) : Prop :=
  if mode = 0 then g.cursorRow < r ∨ g.cursorRow = r ∧ g.cursorCol ≤ c
  else if mode = 1 then r < g.cursorRow ∨ r = g.cursorRow ∧ c ≤ g.cursorCol
  else True

instance (g : Grid) (mode r c : Nat) : Decidable (g.inDisplay mode r c) := by unfold inDisplay; infer_instance

/-- What a mode of erasing in the line blanks. -/
def inLine (g : Grid) (mode r c : Nat) : Prop :=
  r = g.cursorRow ∧ (mode = 0 → g.cursorCol ≤ c) ∧ (mode = 1 → c ≤ g.cursorCol)

instance (g : Grid) (mode r c : Nat) : Decidable (g.inLine mode r c) := by unfold inLine; infer_instance

theorem eraseInDisplay_rearranges (wf : g.WF) {mode : Nat} (done : g.eraseInDisplay mode = some h) :
    Rearranges g h (blankedAt (g.inDisplay mode)) := by
  have length := (eraseInDisplay_edits wf done).cells
  have here := wf.index wf.row wf.col
  unfold eraseInDisplay at done
  dsimp only at done
  split at done
  · rename_i after
    rw [if_pos (Nat.le_of_lt here)] at done
    cases done
    apply erased_rearranges wf length
    intro r c inRow inCol
    have inside := wf.index inRow inCol
    have order : g.idx g.cursorRow g.cursorCol ≤ g.idx r c ↔ g.cursorRow < r ∨ g.cursorRow = r ∧ g.cursorCol ≤ c :=
      idx_le wf.col inCol
    simp only [inDisplay,if_pos after,← order]
    split
    · rw [List.getElem?_append_right (by simp; omega),List.getElem?_replicate_of_lt (by simp; omega)]
    · rw [List.getElem?_append_left (by simp; omega),List.getElem?_take_of_lt (by omega)]
  split at done
  · rename_i before
    cases done
    apply erased_rearranges wf length
    intro r c inRow inCol
    have inside := wf.index inRow inCol
    have order : g.idx r c ≤ g.idx g.cursorRow g.cursorCol ↔ r < g.cursorRow ∨ r = g.cursorRow ∧ c ≤ g.cursorCol :=
      idx_le inCol wf.col
    simp only [inDisplay,before,Nat.one_ne_zero,if_false,if_true,← order]
    split
    · rw [List.getElem?_append_left (by simp; omega),List.getElem?_replicate_of_lt (by omega)]
    · rw [List.getElem?_append_right (by simp; omega),List.getElem?_drop]
      congr 1
      simp
      omega
  · cases done
    apply erased_rearranges wf length
    intro r c inRow inCol
    rename_i after before
    simp [inDisplay,after,before,wf.index inRow inCol]

theorem eraseInLine_rearranges (wf : g.WF) {mode : Nat} (done : g.eraseInLine mode = some h) :
    Rearranges g h (blankedAt (g.inLine mode)) := by
  have line := wf.rowEnd wf.row
  have inCol := wf.col
  obtain ⟨cells,blanked,rfl⟩ := Option.map_eq_some_iff.mp done
  -- Every mode blanks a run of the cursor's row.
  have run : ∀ {lo n : Nat}, lo + n ≤ g.cols → blankRun g.cells (g.idx g.cursorRow 0 + lo) n = some cells →
      (∀ c, c < g.cols → (lo ≤ c ∧ c < lo + n ↔ (mode = 0 → g.cursorCol ≤ c) ∧ (mode = 1 → c ≤ g.cursorCol))) →
      Rearranges g { g with cells } (blankedAt (g.inLine mode)) := by
    intro lo n fits blanked columns
    obtain ⟨out,same,length,cell⟩ := @getElem?_blankRun g.cells (g.idx g.cursorRow 0 + lo) n (by omega)
    rw [blanked] at same
    cases same
    apply erased_rearranges wf length
    intro r c inRow inCol
    rw [cell]
    have row : g.cursorRow * g.cols ≤ r * g.cols + c ∧ r * g.cols + c < g.cursorRow * g.cols + g.cols ↔
        r = g.cursorRow := in_row_iff inCol
    simp only [inLine,← columns c inCol]
    congr 1
    unfold idx at *
    simp only [eq_iff_iff]
    constructor
    · rintro ⟨lower,upper⟩
      have same := row.mp ⟨by omega,by omega⟩
      subst same
      exact ⟨rfl,by omega,by omega⟩
    · rintro ⟨rfl,lower,upper⟩
      omega
  split at blanked
  · rename_i after
    exact run (by omega) blanked (by omega)
  split at blanked
  · rename_i before
    exact @run 0 _ (by omega) blanked (by omega)
  · exact @run 0 _ (by omega) blanked (by omega)

/-- The place of a row and column in a screen that has them. -/
theorem place_lt {rows cols r c : Nat} (inRow : r < rows) (inCol : c < cols) : r * cols + c < rows * cols := by
  have next := Nat.mul_le_mul_right cols (Nat.succ_le_of_lt inRow)
  rw [Nat.succ_mul] at next
  omega

/-- One row of a resize: its first cells are those of the old row. -/
theorem resizeRow_sets {old now : List Cell} {rows cols rows' cols' r : Nat} (whole : old.length = rows * cols)
    (length : now.length = rows' * cols') (inOld : r < rows) (inNew : r < rows') :
    ∃ out, (List.range (min cols' cols)).foldlM (fun cells c => do
        let cell ← old[r * cols + c]?
        setCell cells (r * cols' + c) cell) now = some out ∧ out.length = rows' * cols' ∧
      (∀ c, c < min cols' cols → out[r * cols' + c]? = old[r * cols + c]?) ∧
      ∀ i, (∀ c, c < min cols' cols → r * cols' + c ≠ i) → out[i]? = now[i]? := by
  obtain ⟨out,looped,kept,written,others⟩ := foldlM_sets (fun (cells : List Cell) i => cells[i]?)
    (fun c => r * cols' + c) (fun _ => none) (fun c => old[r * cols + c]?)
    (P := fun now => now.length = rows' * cols') (l := List.range (min cols' cols)) (s := now)
    (f := fun cells c => do
      let cell ← old[r * cols + c]?
      setCell cells (r * cols' + c) cell)
    (List.pairwise_lt_range.imp fun lt => ⟨Nat.ne_of_lt (Nat.add_lt_add_left lt _),nofun⟩)
    (fun c member now length _ => by
      have inside := List.mem_range.mp member
      have from_ : r * cols + c < old.length := by rw [whole]; exact place_lt inOld (by omega)
      have to_ : r * cols' + c < now.length := by rw [length]; exact place_lt inNew (by omega)
      have set := setCell_some to_ old[r * cols + c]
      refine ⟨now.set (r * cols' + c) old[r * cols + c],?_,by simp [length],?_⟩
      · rw [List.getElem?_eq_getElem from_]
        exact set
      · rw [List.getElem?_eq_getElem from_]
        exact setCell_sets set) length
  refine ⟨out,looped,kept,fun c inside => written c (List.mem_range.mpr inside),fun i apart => ?_⟩
  exact others i fun c member => apart c (List.mem_range.mp member)

/-- The screen of the new size shows what the old one shows at the same place. -/
theorem getElem?_resizeCells {old out : List Cell} {rows cols rows' cols' : Nat} (whole : old.length = rows * cols)
    (resized : resizeCells old rows cols rows' cols' = some out) {r c : Nat} (inRow : r < rows') (inCol : c < cols') :
    out[r * cols' + c]? = some (if r < rows ∧ c < cols then (old[r * cols + c]?).getD .blank else .blank) := by
  -- The rows are slots; a row takes the old one over the blanks of the new screen.
  obtain ⟨out',looped,_,written,others⟩ := foldlM_sets (line cols') id some
    (fun r c => if c < cols then (if c < cols' then old[r * cols + c]? else none) else blankLine cols' c)
    (P := fun now => now.length = rows' * cols') (l := List.range (min rows' rows))
      (s := List.replicate (rows' * cols') Cell.blank)
    (f := fun cells r => (List.range (min cols' cols)).foldlM (fun cells c => do
      let cell ← old[r * cols + c]?
      setCell cells (r * cols' + c) cell) cells)
    (List.pairwise_lt_range.imp fun lt => ⟨Nat.ne_of_lt lt,fun same => Nat.ne_of_gt lt (Option.some.inj same)⟩)
    (fun r member now length fresh => by
      have inside := List.mem_range.mp member
      obtain ⟨next,once,kept,taken,rest⟩ := @resizeRow_sets old now rows cols rows' cols' r whole length
        (by omega) (by omega)
      refine ⟨next,once,kept,?_,?_⟩
      · funext c
        have before := congrFun (fresh r rfl) c
        simp only [line,id] at before ⊢
        by_cases inCol : c < cols'
        · simp only [if_pos inCol] at before ⊢
          by_cases old' : c < cols
          · rw [if_pos old',taken c (by omega)]
          · rw [if_neg old',rest _ (by omega),before,blankLine,if_pos inCol]
            exact List.getElem?_replicate_of_lt (place_lt (by omega) inCol)
        · simp [blankLine,inCol]
      · intro r' other
        funext c
        simp only [line]
        split
        · rename_i inCol
          apply rest
          intro c' inside' same
          have row : r = r' := (@in_row_iff cols' r' r c' (by omega)).mp ⟨by omega,by omega⟩
          exact other row.symm
        · rfl) List.length_replicate
  unfold resizeCells at resized
  rw [looped] at resized
  cases resized
  by_cases inOld : r < rows
  · have here := congrFun (written r (List.mem_range.mpr (by omega))) c
    simp only [line,id,if_pos inCol] at here
    rw [here]
    by_cases old' : c < cols
    · rw [if_pos old',if_pos ⟨inOld,old'⟩,List.getElem?_eq_getElem (by rw [whole]; exact place_lt inOld old')]
      rfl
    · rw [if_neg old',if_neg fun both => old' both.2,blankLine,if_pos inCol]
  · have here := congrFun (others r fun r' member same => by
      have := List.mem_range.mp member
      simp only [id] at same
      omega) c
    simp only [line,if_pos inCol] at here
    rw [here,if_neg fun both => inOld both.1]
    exact List.getElem?_replicate_of_lt (place_lt inRow inCol)

theorem scrollFromCursor_rearranges (wf : g.WF) {scroll : Grid → Nat → Option Grid}
    {origin : Nat → Nat → Nat → Nat → Nat → Option (Nat × Nat)}
    (scrolls : ∀ g : Grid, g.WF → ∀ n, ∃ h, scroll g n = some h ∧ Rearranges g h (origin g.scrollTop g.scrollBottom n))
    (n : Nat) (below : g.scrollTop ≤ g.cursorRow) (above : g.cursorRow ≤ g.scrollBottom) :
    ∃ h, scrollFromCursor scroll g n = some h ∧ Rearranges g h (origin g.cursorRow g.scrollBottom n) := by
  have wf' : WF { g with scrollTop := g.cursorRow } := { wf with top := above }
  obtain ⟨h,scrolled,moved⟩ := scrolls _ wf' n
  refine ⟨{ h with scrollTop := g.scrollTop },?_,?_,?_,moved.cell⟩
  · unfold scrollFromCursor
    rw [if_neg (by omega),scrolled]
    rfl
  · rw [moved.only]
  · have only := moved.only
    exact { moved.wf with top := by rw [only]; exact wf.top }

/-- Editing lines and characters moves the cells it names and changes nothing else. -/
theorem editing_rearranges (wf : g.WF) (n : Nat) :
    (∃ h, g.scrollUp n = some h ∧ Rearranges g h (upBy g.scrollTop g.scrollBottom n)) ∧
    (∃ h, g.scrollDown n = some h ∧ Rearranges g h (downBy g.scrollTop g.scrollBottom n)) ∧
    (g.scrollTop ≤ g.cursorRow → g.cursorRow ≤ g.scrollBottom →
      (∃ h, g.insertLines n = some h ∧ Rearranges g h (downBy g.cursorRow g.scrollBottom n)) ∧
      ∃ h, g.deleteLines n = some h ∧ Rearranges g h (upBy g.cursorRow g.scrollBottom n)) ∧
    (∃ h, g.insertBlankChars n = some h ∧ Rearranges g h (rightBy g.cursorRow g.cursorCol n)) ∧
    ∃ h, g.deleteChars n = some h ∧ Rearranges g h (leftBy g.cursorRow g.cursorCol g.cols n) := by
  refine ⟨scrollUp_rearranges wf n,scrollDown_rearranges wf n,?_,insertBlankChars_rearranges wf n,
    deleteChars_rearranges wf n⟩
  intro below above
  constructor
  · exact scrollFromCursor_rearranges wf (fun _ wf n => scrollDown_rearranges wf n) n below above
  · exact scrollFromCursor_rearranges wf (fun _ wf n => scrollUp_rearranges wf n) n below above

/-- Five rows of three letters, the middle three of which scroll, and the cursor amid them. -/
def lettered : Grid where
  rows := 5
  cols := 3
  cells := "abcdefghijklmno".toList.map (fun ch => { ch })
  cursorRow := 2
  cursorCol := 1
  pen := { flags := 1 }
  scrollTop := 1
  scrollBottom := 3

def letters (g : Grid) : String := .ofList (g.cells.map (·.ch))

theorem lettered_wf : lettered.WF :=
  ⟨by decide,by decide,by decide,by decide,by decide,by decide,by decide,fun _ saved => by cases saved⟩

theorem editing_rearranges_letters :
    ((lettered.scrollUp 1).map letters = some "abcghijkl   mno" ∧ (lettered.scrollDown 2).map letters = some "abc      defmno" ∧
      (lettered.insertLines 1).map letters = some "abcdef   ghimno" ∧
      (lettered.deleteLines 1).map letters = some "abcdefjkl   mno" ∧
      (lettered.insertBlankChars 1).map letters = some "abcdefg hjklmno" ∧
      (lettered.deleteChars 1).map letters = some "abcdefgi jklmno") ∧
    (∃ h, lettered.scrollUp 1 = some h ∧ Rearranges lettered h (upBy 1 3 1)) ∧
    (∃ h, lettered.scrollDown 2 = some h ∧ Rearranges lettered h (downBy 1 3 2)) ∧
    ((∃ h, lettered.insertLines 1 = some h ∧ Rearranges lettered h (downBy 2 3 1)) ∧
      ∃ h, lettered.deleteLines 1 = some h ∧ Rearranges lettered h (upBy 2 3 1)) ∧
    (∃ h, lettered.insertBlankChars 1 = some h ∧ Rearranges lettered h (rightBy 2 1 1)) ∧
    ∃ h, lettered.deleteChars 1 = some h ∧ Rearranges lettered h (leftBy 2 1 3 1) := by
  obtain ⟨up,_,lines,right,left⟩ := editing_rearranges lettered_wf 1
  obtain ⟨_,down,_⟩ := editing_rearranges lettered_wf 2
  exact ⟨by decide +kernel,up,down,lines (by decide) (by decide),right,left⟩

end Grid
end Noissh

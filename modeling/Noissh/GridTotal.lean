import Noissh.GridSafety
import Noissh.Machine

/-! When the emulator returns: always, but for one glyph. A glyph of two columns has no room on
a screen of one; its spacer is then written past the end of its row, which in the last row is
past the end of the screen. -/
namespace Noissh
namespace Grid

variable {g h k : Grid}

/-- Only cells and cursor differ. -/
def Redraws (g h : Grid) : Prop :=
  h = { g with cells := h.cells, cursorRow := h.cursorRow, cursorCol := h.cursorCol, wrapPending := h.wrapPending }

theorem Redraws.trans (first : Redraws g h) (second : Redraws h k) : Redraws g k := by
  unfold Redraws at *
  rw [second,first]

theorem WF.rowEnd (wf : g.WF) {row : Nat} (inside : row < g.rows) : g.idx row 0 + g.cols ≤ g.cells.length := by
  rw [wf.cells,idx,Nat.add_zero,← Nat.succ_mul]
  exact Nat.mul_le_mul_right g.cols inside

theorem WF.index (wf : g.WF) {row col : Nat} (inRow : row < g.rows) (inCol : col < g.cols) :
    g.idx row col < g.cells.length := by
  have last := wf.rowEnd inRow
  unfold idx at *
  omega

theorem setCell_some {cells : List Cell} {i : Nat} (bound : i < cells.length) (cell : Cell) :
    setCell cells i cell = some (cells.set i cell) := if_pos bound

/-- A loop returns if every round does that finds as many cells as there were. -/
theorem foldlM_some {α : Type} {f : List Cell → α → Option (List Cell)} {l : List α} {cells : List Cell}
    (round : ∀ a ∈ l, ∀ now : List Cell, now.length = cells.length → ∃ next, f now a = some next ∧ next.length = now.length) :
    ∃ out, l.foldlM f cells = some out := by
  refine Checked.foldlM_returns (P := fun now => now.length = cells.length) (fun a member now length => ?_) rfl
  obtain ⟨next,first,same⟩ := round a member now length
  exact ⟨next,first,same.trans length⟩

theorem blankRun_some {cells : List Cell} {start n : Nat} (fits : start + n ≤ cells.length) :
    ∃ out, blankRun cells start n = some out := by
  refine foldlM_some fun c member now length => ?_
  have inside := List.mem_range.mp member
  exact ⟨_,setCell_some (by omega) _,List.length_set⟩

theorem copyWithin_some {cells : List Cell} {src len dst : Nat} (fits : src + len ≤ cells.length ∧ dst + len ≤ cells.length) :
    ∃ out, copyWithin cells src len dst = some out := ⟨_,if_pos fits⟩

theorem moveCell_some {cells : List Cell} {dst src : Nat} (from_ : src < cells.length) (to_ : dst < cells.length) :
    ∃ out, moveCell cells dst src = some out := by
  unfold moveCell
  rw [List.getElem?_eq_getElem from_]
  exact ⟨_,setCell_some to_ _⟩

/-- One row of a scroll: another row is copied to it, or it is blanked. -/
theorem scrollRound_some (wf : g.WF) {now : List Cell} (length : now.length = g.cells.length) (r src : Nat) (copies : Bool)
    (inside : r < g.rows) (from_ : copies = true → src < g.rows) :
    ∃ next, (if copies then copyWithin now (g.idx src 0) g.cols (g.idx r 0) else blankRun now (g.idx r 0) g.cols) = some next ∧
      next.length = now.length := by
  have here := wf.rowEnd inside
  cases copies with
  | true =>
    have there := wf.rowEnd (from_ rfl)
    obtain ⟨next,copied⟩ := @copyWithin_some now (g.idx src 0) g.cols (g.idx r 0) ⟨by omega,by omega⟩
    exact ⟨next,copied,copyWithin_length copied⟩
  | false =>
    obtain ⟨next,blanked⟩ := @blankRun_some now (g.idx r 0) g.cols (by omega)
    exact ⟨next,blanked,blankRun_length blanked⟩

theorem span_some (wf : g.WF) : sub g.scrollBottom g.scrollTop = some (g.scrollBottom - g.scrollTop) := if_pos wf.top

theorem scrollUp_some (wf : g.WF) (n : Nat) : ∃ cells, g.scrollUp n = some { g with cells } := by
  have bottom := wf.bottom
  have top := wf.top
  unfold scrollUp
  rw [span_some wf]
  obtain ⟨cells,loop⟩ : ∃ cells, (List.range' g.scrollTop (g.scrollBottom - g.scrollTop + 1)).foldlM (fun cells r =>
      if r + min n (g.scrollBottom - g.scrollTop + 1) ≤ g.scrollBottom then
        copyWithin cells (g.idx (r + min n (g.scrollBottom - g.scrollTop + 1)) 0) g.cols (g.idx r 0)
      else blankRun cells (g.idx r 0) g.cols) g.cells = some cells := by
    refine foldlM_some fun r member now length => ?_
    obtain ⟨from_,to_⟩ := List.mem_range'_1.mp member
    have round := scrollRound_some wf length r (r + min n (g.scrollBottom - g.scrollTop + 1))
      (decide (r + min n (g.scrollBottom - g.scrollTop + 1) ≤ g.scrollBottom)) (by omega)
      fun copies => Nat.lt_of_le_of_lt (of_decide_eq_true copies) bottom
    simpa only [decide_eq_true_eq] using round
  refine ⟨cells,?_⟩
  simp only [Option.bind_eq_bind,Option.bind_some,loop]

theorem scrollDown_some (wf : g.WF) (n : Nat) : ∃ cells, g.scrollDown n = some { g with cells } := by
  have bottom := wf.bottom
  have top := wf.top
  unfold scrollDown
  rw [span_some wf]
  obtain ⟨cells,loop⟩ : ∃ cells, (List.range' g.scrollTop (g.scrollBottom - g.scrollTop + 1)).reverse.foldlM (fun cells r =>
      if g.scrollTop + min n (g.scrollBottom - g.scrollTop + 1) ≤ r then
        copyWithin cells (g.idx (r - min n (g.scrollBottom - g.scrollTop + 1)) 0) g.cols (g.idx r 0)
      else blankRun cells (g.idx r 0) g.cols) g.cells = some cells := by
    refine foldlM_some fun r member now length => ?_
    obtain ⟨from_,to_⟩ := List.mem_range'_1.mp (List.mem_reverse.mp member)
    have round := scrollRound_some wf length r (r - min n (g.scrollBottom - g.scrollTop + 1))
      (decide (g.scrollTop + min n (g.scrollBottom - g.scrollTop + 1) ≤ r)) (by omega) (fun _ => by omega)
    simpa only [decide_eq_true_eq] using round
  refine ⟨cells,?_⟩
  simp only [Option.bind_eq_bind,Option.bind_some,loop]

/-- The row below, unless that is where the screen scrolls or ends. -/
def fedRow (g : Grid) (row : Nat) : Nat :=
  if row = g.scrollBottom then row else if row + 1 < g.rows then row + 1 else row

theorem lineFeed_some (wf : g.WF) :
    ∃ h, g.lineFeed = some h ∧ Redraws g h ∧ h.cursorRow = g.fedRow g.cursorRow ∧ h.cursorCol = g.cursorCol := by
  unfold lineFeed fedRow
  split
  · obtain ⟨cells,scrolled⟩ := scrollUp_some wf 1
    exact ⟨_,scrolled,rfl,rfl,rfl⟩
  · split <;> exact ⟨_,rfl,rfl,rfl,rfl⟩

theorem reverseIndex_some (wf : g.WF) : ∃ h, g.reverseIndex = some h ∧ Redraws g h := by
  unfold reverseIndex
  split
  · obtain ⟨cells,scrolled⟩ := scrollDown_some wf 1
    exact ⟨_,scrolled,rfl⟩
  · split <;> exact ⟨_,rfl,rfl⟩

theorem wrapLine_some (wf : g.WF) :
    ∃ h, g.wrapLine = some h ∧ Redraws g h ∧ h.cursorRow = g.fedRow g.cursorRow ∧ h.cursorCol = 0 := by
  have home : WF { g with cursorCol := 0 } := { wf with col := wf.cols }
  obtain ⟨h,fed,redraws,row,col⟩ := lineFeed_some home
  refine ⟨{ h with wrapPending := false },?_,?_,row,col⟩
  · rw [wrapLine,fed]
    rfl
  · unfold Redraws at *
    rw [redraws]

/-- The row after a wrap that was pending. -/
def resolvedRow (g : Grid) : Nat := if g.wrapPending && g.autowrap then g.fedRow g.cursorRow else g.cursorRow

theorem resolveWrap_some (wf : g.WF) : ∃ h, g.resolveWrap = some h ∧ Redraws g h ∧ h.cursorRow = g.resolvedRow := by
  unfold resolveWrap resolvedRow
  split
  · obtain ⟨h,wrapped,redraws,row,_⟩ := wrapLine_some wf
    exact ⟨h,wrapped,redraws,row⟩
  · exact ⟨g,rfl,rfl,rfl⟩

/-- A glyph of two columns has them after the cursor, unless the screen has one column. -/
theorem fitGlyph_some (wf : g.WF) (w : Nat) :
    ∃ h, g.fitGlyph w = some h ∧ Redraws g h ∧ (w = 2 → 2 ≤ g.cols → h.cursorCol + 1 < g.cols) ∧
      (w = 2 → g.cols = 1 → h.cursorRow = if g.autowrap then g.fedRow g.cursorRow else g.cursorRow) := by
  unfold fitGlyph
  split
  · rename_i tight
    by_cases wraps : g.autowrap = true
    · rw [if_pos wraps,if_pos wraps]
      obtain ⟨h,wrapped,redraws,row,col⟩ := wrapLine_some wf
      exact ⟨h,wrapped,redraws,fun _ wide => by rw [col]; omega,fun _ _ => row⟩
    · rw [if_neg wraps,if_neg wraps]
      exact ⟨_,rfl,rfl,fun _ wide => by dsimp only; omega,fun _ _ => rfl⟩
  · rename_i roomy
    have positive := wf.cols
    exact ⟨g,rfl,rfl,fun two _ => by omega,fun two one => by omega⟩

theorem placeGlyph_some (wf : g.WF) (c : Char) {w : Nat} (fits : w = 2 → g.idx g.cursorRow (g.cursorCol + 1) < g.cells.length) :
    ∃ h, g.placeGlyph c w = some h ∧ Redraws g h := by
  unfold placeGlyph
  dsimp only [Option.bind_eq_bind]
  rw [setCell_some (wf.index wf.row wf.col),Option.bind_some]
  split
  · rename_i two
    rw [setCell_some (by rw [List.length_set]; exact fits two),Option.bind_some]
    split
    · exact ⟨_,rfl,rfl⟩
    split <;> exact ⟨_,rfl,rfl⟩
  · split
    · exact ⟨_,rfl,rfl⟩
    split <;> exact ⟨_,rfl,rfl⟩

theorem placeGlyph_none {c : Char} (spilt : g.cells.length ≤ g.idx g.cursorRow (g.cursorCol + 1)) : g.placeGlyph c 2 = none := by
  unfold placeGlyph
  dsimp only [Option.bind_eq_bind]
  cases set : setCell g.cells (g.idx g.cursorRow g.cursorCol) { g.pen with ch := c } with
  | none => rfl
  | some cells =>
    have outside : setCell cells (g.idx g.cursorRow (g.cursorCol + 1)) { g.pen with ch := Char.ofNat 0 } = none :=
      if_neg (by rw [setCell_length set]; omega)
    rw [Option.bind_some,if_pos rfl,outside,Option.bind_none]

/-- The row a wide glyph lands in on a screen of one column. -/
def landingRow (g : Grid) : Nat := if g.autowrap then g.fedRow g.resolvedRow else g.resolvedRow

/-- A wide glyph on a screen of one column, in its last row. -/
def spills (g : Grid) (w : Nat) : Bool := decide (w = 2 ∧ g.cols = 1 ∧ g.landingRow + 1 = g.rows)

theorem Redraws.fedRow (redraws : Redraws g h) (row : Nat) : h.fedRow row = g.fedRow row := by
  unfold Grid.fedRow
  rw [redraws]

/-- A glyph is printed, unless it spills over the end of the screen. -/
theorem putChar_spec (wf : g.WF) (c : Char) (w : Nat) :
    if g.spills w then g.putChar c w = none else ∃ h, g.putChar c w = some h ∧ Redraws g h := by
  by_cases nothing : w = 0
  · rw [if_neg (by simp [spills,nothing])]
    exact ⟨g,if_pos nothing,rfl⟩
  obtain ⟨h,resolved,redraws,row⟩ := resolveWrap_some wf
  have hwf := wf.edits (resolveWrap_edits wf resolved)
  obtain ⟨k,fitted,redraws',room,landing⟩ := fitGlyph_some hwf w
  have kwf := hwf.edits (fitGlyph_edits hwf fitted)
  have put : g.putChar c w = k.placeGlyph c w := by
    rw [putChar,if_neg nothing,resolved]
    dsimp only [Option.bind_eq_bind,Option.bind_some]
    rw [fitted]
    rfl
  have rows : k.rows = g.rows := by rw [redraws',redraws]
  have cols : h.cols = g.cols := by rw [redraws]
  have cols' : k.cols = g.cols := by rw [redraws',redraws]
  rw [put]
  by_cases one : w = 2 ∧ g.cols = 1
  · obtain ⟨two,one⟩ := one
    have lands : k.cursorRow = g.landingRow := by
      rw [landing two (cols.trans one),landingRow,row,redraws.fedRow,show h.autowrap = g.autowrap by rw [redraws]]
    have col : k.cursorCol = 0 := by
      have := kwf.col
      omega
    have place : k.idx k.cursorRow (k.cursorCol + 1) = g.landingRow + 1 := by
      rw [idx,lands,col,cols',one]
      omega
    have length : k.cells.length = g.rows := by rw [kwf.cells,rows,cols',one,Nat.mul_one]
    have inside := kwf.row
    rw [lands,rows] at inside
    subst two
    by_cases last : g.landingRow + 1 = g.rows
    · rw [if_pos (by simp [spills,one,last])]
      exact placeGlyph_none (by omega)
    · rw [if_neg (by simp [spills,last])]
      obtain ⟨out,placed,final⟩ := placeGlyph_some kwf c (w := 2) fun _ => by omega
      exact ⟨out,placed,(redraws.trans redraws').trans final⟩
  · rw [if_neg (by simp only [spills,decide_eq_true_eq]; exact fun both => one ⟨both.1,both.2.1⟩)]
    have positive := wf.cols
    obtain ⟨out,placed,final⟩ := placeGlyph_some kwf c (w := w) fun two =>
      kwf.index kwf.row (by rw [cols',← cols]; exact room two (by omega))
    exact ⟨out,placed,(redraws.trans redraws').trans final⟩

theorem eraseInDisplay_some (wf : g.WF) (mode : Nat) : ∃ h, g.eraseInDisplay mode = some h ∧ Redraws g h := by
  have here := wf.index wf.row wf.col
  unfold eraseInDisplay
  dsimp only
  rw [if_pos (Nat.le_of_lt here),if_pos here]
  split
  · exact ⟨_,rfl,rfl⟩
  split <;> exact ⟨_,rfl,rfl⟩

theorem eraseInLine_some (wf : g.WF) (mode : Nat) : ∃ h, g.eraseInLine mode = some h ∧ Redraws g h := by
  have line := wf.rowEnd wf.row
  have inside := wf.col
  obtain ⟨cells,blanked⟩ : ∃ cells, (if mode = 0 then blankRun g.cells (g.idx g.cursorRow 0 + g.cursorCol) (g.cols - g.cursorCol)
      else if mode = 1 then blankRun g.cells (g.idx g.cursorRow 0) (g.cursorCol + 1)
      else blankRun g.cells (g.idx g.cursorRow 0) g.cols) = some cells := by
    split
    · exact blankRun_some (by omega)
    split
    · exact blankRun_some (by omega)
    · exact blankRun_some line
  refine ⟨{ g with cells },?_,rfl⟩
  unfold eraseInLine
  dsimp only
  rw [blanked]
  rfl

/-- One cell of a shift within a row: it gets the value of another, or is blanked. -/
theorem shiftRound_some {now : List Cell} (dst src : Nat) (moves : Bool) (to_ : dst < now.length)
    (from_ : moves = true → src < now.length) :
    ∃ next, (if moves then moveCell now dst src else setCell now dst .blank) = some next ∧ next.length = now.length := by
  cases moves with
  | true =>
    obtain ⟨next,moved⟩ := moveCell_some (from_ rfl) to_
    exact ⟨next,moved,moveCell_length moved⟩
  | false => exact ⟨_,setCell_some to_ _,List.length_set⟩

theorem columns_some (wf : g.WF) : sub g.cols g.cursorCol = some (g.cols - g.cursorCol) := if_pos (Nat.le_of_lt wf.col)

theorem insertBlankChars_some (wf : g.WF) (n : Nat) : ∃ h, g.insertBlankChars n = some h ∧ Redraws g h := by
  have line := wf.rowEnd wf.row
  have inside := wf.col
  unfold insertBlankChars
  dsimp only [Option.bind_eq_bind]
  rw [columns_some wf,Option.bind_some]
  obtain ⟨cells,loop⟩ : ∃ cells, (List.range' g.cursorCol (g.cols - g.cursorCol)).reverse.foldlM (fun cells c =>
      if g.cursorCol + min n (g.cols - g.cursorCol) ≤ c then
        moveCell cells (g.idx g.cursorRow 0 + c) (g.idx g.cursorRow 0 + c - min n (g.cols - g.cursorCol))
      else setCell cells (g.idx g.cursorRow 0 + c) .blank) g.cells = some cells := by
    refine foldlM_some fun c member now length => ?_
    obtain ⟨_,to_⟩ := List.mem_range'_1.mp (List.mem_reverse.mp member)
    have round := @shiftRound_some now (g.idx g.cursorRow 0 + c) (g.idx g.cursorRow 0 + c - min n (g.cols - g.cursorCol))
      (decide (g.cursorCol + min n (g.cols - g.cursorCol) ≤ c)) (by omega) (fun _ => by omega)
    simpa only [decide_eq_true_eq] using round
  rw [loop]
  exact ⟨_,rfl,rfl⟩

theorem deleteChars_some (wf : g.WF) (n : Nat) : ∃ h, g.deleteChars n = some h ∧ Redraws g h := by
  have line := wf.rowEnd wf.row
  have inside := wf.col
  unfold deleteChars
  dsimp only [Option.bind_eq_bind]
  rw [columns_some wf,Option.bind_some]
  obtain ⟨cells,loop⟩ : ∃ cells, (List.range' g.cursorCol (g.cols - g.cursorCol)).foldlM (fun cells c =>
      if c + min n (g.cols - g.cursorCol) < g.cols then
        moveCell cells (g.idx g.cursorRow 0 + c) (g.idx g.cursorRow 0 + c + min n (g.cols - g.cursorCol))
      else setCell cells (g.idx g.cursorRow 0 + c) .blank) g.cells = some cells := by
    refine foldlM_some fun c member now length => ?_
    obtain ⟨_,to_⟩ := List.mem_range'_1.mp member
    have round := @shiftRound_some now (g.idx g.cursorRow 0 + c) (g.idx g.cursorRow 0 + c + min n (g.cols - g.cursorCol))
      (decide (c + min n (g.cols - g.cursorCol) < g.cols)) (by omega) (fun moves => by have := of_decide_eq_true moves; omega)
    simpa only [decide_eq_true_eq] using round
  rw [loop]
  exact ⟨_,rfl,rfl⟩

theorem scrollFromCursor_some (wf : g.WF) {scroll : Grid → Nat → Option Grid}
    (scrolls : ∀ g : Grid, g.WF → ∀ n, ∃ cells, scroll g n = some { g with cells }) (n : Nat) :
    ∃ h, scrollFromCursor scroll g n = some h ∧ Redraws g h := by
  unfold scrollFromCursor
  split
  · exact ⟨g,rfl,rfl⟩
  · rename_i inside
    have wf' : WF { g with scrollTop := g.cursorRow } := { wf with top := (by omega : g.cursorRow ≤ g.scrollBottom) }
    obtain ⟨cells,scrolled⟩ := scrolls _ wf' n
    rw [scrolled]
    exact ⟨_,rfl,rfl⟩

/-- There is a saved screen exactly while the alternate one is shown. -/
def Paired (g : Grid) : Prop := g.altScreen = g.altSaved.isSome

theorem Redraws.paired (redraws : Redraws g h) (paired : g.Paired) : h.Paired := by
  unfold Paired
  rw [redraws]
  exact paired

theorem setPrivateMode_paired (paired : g.Paired) (mode : Nat) (enable : Bool) : (g.setPrivateMode mode enable).Paired := by
  unfold setPrivateMode
  split
  · exact paired
  split
  · exact paired
  split
  · split
    · unfold enterAltScreen
      split
      · exact paired
      · rfl
    · unfold leaveAltScreen
      split
      · rename_i shown
        split
        · rfl
        · rename_i saved
          unfold Paired at paired
          rw [shown,saved] at paired
          cases paired
      · exact paired
  · exact paired

theorem arg_pos {params : Params} {i deflt : Nat} (positive : 0 < deflt) : 0 < arg params i deflt := by
  unfold arg
  split
  · exact positive
  · rename_i v _
    split
    · exact positive
    · rename_i nonzero
      exact Nat.pos_of_ne_zero fun zero => nonzero (UInt16.toNat_inj.mp zero)

theorem sub_one {n : Nat} (positive : 0 < n) : sub n 1 = some (n - 1) := if_pos positive

theorem execute_some (wf : g.WF) (byte : UInt8) : ∃ h, g.execute byte = some h ∧ Redraws g h := by
  unfold execute
  split
  · obtain ⟨h,fed,redraws,_⟩ := lineFeed_some wf
    exact ⟨h,fed,redraws⟩
  split
  · exact ⟨_,rfl,rfl⟩
  split
  · exact ⟨_,rfl,rfl⟩
  split <;> exact ⟨_,rfl,rfl⟩

theorem escDispatch_some (wf : g.WF) (paired : g.Paired) (byte : UInt8) : ∃ h, g.escDispatch byte = some h ∧ h.Paired := by
  unfold escDispatch
  split
  · obtain ⟨h,fed,redraws,_⟩ := lineFeed_some wf
    exact ⟨h,fed,redraws.paired paired⟩
  split
  · obtain ⟨h,fed,redraws⟩ := reverseIndex_some wf
    exact ⟨h,fed,redraws.paired paired⟩
  split
  · have home : WF { g with cursorCol := 0 } := { wf with col := wf.cols }
    obtain ⟨h,fed,redraws,_⟩ := lineFeed_some home
    exact ⟨h,fed,redraws.paired paired⟩
  split
  · exact ⟨_,rfl,paired⟩
  split
  · split <;> exact ⟨_,rfl,paired⟩
  split
  · exact ⟨_,rfl,rfl⟩
  · exact ⟨g,rfl,paired⟩

theorem csiDispatch_some (wf : g.WF) (narrow : g.rows < 2 ^ 16) (paired : g.Paired) (params : Params) (intermediates : Bytes)
    (action : Char) : ∃ h, g.csiDispatch params intermediates action = some h ∧ h.Paired := by
  have first : sub (arg params 0 1) 1 = some (arg params 0 1 - 1) := sub_one (arg_pos Nat.one_pos)
  have second : sub (arg params 1 1) 1 = some (arg params 1 1 - 1) := sub_one (arg_pos Nat.one_pos)
  have bottom : sub (arg params 1 (g.rows % 2 ^ 16)) 1 = some (arg params 1 (g.rows % 2 ^ 16) - 1) :=
    sub_one (arg_pos (by rw [Nat.mod_eq_of_lt narrow]; exact wf.rows))
  have drawn : ∀ {out : Option Grid}, (∃ h, out = some h ∧ Redraws g h) → ∃ h, out = some h ∧ h.Paired :=
    fun ⟨h,done,redraws⟩ => ⟨h,done,redraws.paired paired⟩
  have scrolled : ∀ {out : Option Grid}, (∃ cells, out = some { g with cells }) → ∃ h, out = some h ∧ h.Paired :=
    fun ⟨_,done⟩ => ⟨_,done,paired⟩
  unfold csiDispatch
  dsimp only [Option.bind_eq_bind]
  rw [first,second,bottom]
  dsimp only [Option.bind_some]
  split
  · exact ⟨_,rfl,paired⟩
  · exact ⟨_,rfl,paired⟩
  · exact ⟨_,rfl,paired⟩
  · exact ⟨_,rfl,paired⟩
  · exact ⟨_,rfl,paired⟩
  · exact ⟨_,rfl,paired⟩
  · exact ⟨_,rfl,paired⟩
  · exact ⟨_,rfl,paired⟩
  · exact drawn (eraseInDisplay_some wf _)
  · exact drawn (eraseInLine_some wf _)
  · exact drawn (insertBlankChars_some wf _)
  · exact drawn (deleteChars_some wf _)
  · exact drawn (scrollFromCursor_some wf (fun _ => scrollDown_some) _)
  · exact drawn (scrollFromCursor_some wf (fun _ => scrollUp_some) _)
  · exact scrolled (scrollUp_some wf _)
  · exact scrolled (scrollDown_some wf _)
  · split <;> exact ⟨_,rfl,paired⟩
  · refine ⟨_,rfl,?_⟩
    unfold setSgr
    split <;> exact paired
  · split
    · exact ⟨_,rfl,setPrivateMode_paired paired _ _⟩
    · exact ⟨_,rfl,paired⟩
  · split
    · exact ⟨_,rfl,setPrivateMode_paired paired _ _⟩
    · exact ⟨_,rfl,paired⟩
  · split
    · exact ⟨_,rfl,paired⟩
    split <;> exact ⟨_,rfl,paired⟩
  · split
    · exact ⟨_,rfl,paired⟩
    split <;> exact ⟨_,rfl,paired⟩
  · exact ⟨_,rfl,paired⟩

theorem resizeCells_some {old : List Cell} {rows cols : Nat} (whole : old.length = rows * cols) (rows' cols' : Nat) :
    ∃ cells, resizeCells old rows cols rows' cols' = some cells := by
  -- A place of a row that both screens have is a place of either.
  have place : ∀ {r c m n : Nat}, r < m → c < n → r * n + c < m * n := by
    intro r c m n inRow inCol
    have next := Nat.mul_le_mul_right n (Nat.succ_le_of_lt inRow)
    rw [Nat.succ_mul] at next
    omega
  refine foldlM_some fun r member now length => ?_
  have inRow := List.mem_range.mp member
  rw [List.length_replicate] at length
  obtain ⟨next,loop⟩ : ∃ next, (List.range (min cols' cols)).foldlM (fun cells c => do
      let cell ← old[r * cols + c]?
      setCell cells (r * cols' + c) cell) now = some next := by
    refine foldlM_some fun c member now' length' => ?_
    have inCol := List.mem_range.mp member
    have from_ : r * cols + c < old.length := by rw [whole]; exact place (by omega) (by omega)
    have to_ : r * cols' + c < now'.length := by rw [length',length]; exact place (by omega) (by omega)
    rw [List.getElem?_eq_getElem from_]
    exact ⟨_,setCell_some to_ _,List.length_set⟩
  refine ⟨next,loop,foldlM_length (fun cells c cells' round => ?_) loop⟩
  obtain ⟨_,_,set⟩ := Option.bind_eq_some_iff.mp round
  exact setCell_length set

theorem resize_some (wf : g.WF) (paired : g.Paired) (rows cols : Nat) :
    ∃ h, g.resize rows cols = some h ∧ h.Paired ∧ h.rows = max rows 1 := by
  obtain ⟨cells,main⟩ := resizeCells_some wf.cells (max rows 1) (max cols 1)
  unfold resize
  dsimp only [Option.bind_eq_bind]
  rw [main,Option.bind_some]
  unfold Paired at *
  cases saved : g.altSaved with
  | none =>
    rw [saved] at paired
    exact ⟨_,rfl,paired,rfl⟩
  | some alt =>
    rw [saved] at paired
    obtain ⟨cells',behind⟩ := resizeCells_some (wf.alt alt saved) (max rows 1) (max cols 1)
    have resized : resizeSaved (some alt) g.rows g.cols (max rows 1) (max cols 1) = some (some cells') := by
      rw [resizeSaved,behind]
      rfl
    rw [resized,Option.bind_some]
    exact ⟨_,rfl,paired,rfl⟩

/-- What may be asked of a screen: an action of the parser, or another size. -/
inductive Op where
  | perform (action : Perform)
  | resize (rows cols : UInt16)

def apply (width : Char → Nat) (g : Grid) : Op → Option Grid
  | .perform action => g.perform width action
  | .resize rows cols => g.resize rows.toNat cols.toNat

/-- The operation prints a glyph that spills over the end of the screen. -/
def overflows (width : Char → Nat) (g : Grid) : Op → Bool
  | .perform (.print c) => g.spills (width c)
  | _ => false

/-- The cells fill the screen, the cursor and the scroll region are on it, and a screen of the same
size is saved exactly while the alternate one is shown. -/
structure Sound (g : Grid) : Prop where
  cells : g.cells.length = g.rows * g.cols
  row : g.cursorRow < g.rows
  col : g.cursorCol < g.cols
  top : g.scrollTop ≤ g.scrollBottom
  bottom : g.scrollBottom < g.rows
  alt : if g.altScreen then ∃ saved, g.altSaved = some saved ∧ saved.length = g.rows * g.cols else g.altSaved = none

/-- The invariant of every screen that is reached. -/
structure Reached (g : Grid) : Prop where
  wf : g.WF
  paired : g.Paired
  narrow : g.rows < 2 ^ 16

theorem Reached.sound (reached : g.Reached) : g.Sound := by
  obtain ⟨wf,paired,_⟩ := reached
  refine ⟨wf.cells,wf.row,wf.col,wf.top,wf.bottom,?_⟩
  rw [paired]
  cases saved : g.altSaved with
  | none => rfl
  | some alt => exact ⟨alt,rfl,wf.alt alt saved⟩

theorem new_reached (rows cols : UInt16) : (new rows.toNat cols.toNat).Reached := by
  have small := rows.toNat_lt
  refine ⟨new_wf _ _,rfl,?_⟩
  show max rows.toNat 1 < 2 ^ 16
  omega

/-- One operation returns and keeps the invariant, unless it overflows. -/
theorem Reached.apply (reached : g.Reached) (width : Char → Nat) (op : Op) :
    if g.overflows width op then g.apply width op = none else ∃ h, g.apply width op = some h ∧ h.Reached := by
  obtain ⟨wf,paired,narrow⟩ := reached
  cases op with
  | resize rows cols =>
    obtain ⟨h,resized,paired',size⟩ := resize_some wf paired rows.toNat cols.toNat
    have small := rows.toNat_lt
    exact ⟨h,resized,resize_wf resized,paired',by rw [size]; omega⟩
  | perform action =>
    have reach : ∀ {h}, g.perform width action = some h → h.Paired → h.Reached := by
      intro h done paired'
      have keeps := perform_keeps wf done
      exact ⟨keeps.wf,paired',by rw [keeps.rows]; exact narrow⟩
    cases action with
    | print c =>
      have spec := putChar_spec wf c (width c)
      change if g.spills (width c) then g.putChar c (width c) = none else ∃ h, g.putChar c (width c) = some h ∧ h.Reached
      by_cases spilt : g.spills (width c) = true
      · rw [if_pos spilt] at spec ⊢
        exact spec
      · rw [if_neg spilt] at spec ⊢
        obtain ⟨h,put,redraws⟩ := spec
        exact ⟨h,put,reach put (redraws.paired paired)⟩
    | execute byte =>
      obtain ⟨h,done,redraws⟩ := execute_some wf byte
      exact ⟨h,done,reach done (redraws.paired paired)⟩
    | csi params intermediates ignore action =>
      obtain ⟨h,done,paired'⟩ := csiDispatch_some wf narrow paired params intermediates action
      exact ⟨h,done,reach done paired'⟩
    | esc intermediates ignore byte =>
      obtain ⟨h,done,paired'⟩ := escDispatch_some wf paired byte
      exact ⟨h,done,reach done paired'⟩

/-- The emulator returns with a sound screen after any operations on a screen of any size, if and
only if none of them prints a wide glyph in the last row of a screen of one column. -/
theorem emulator_safe_iff (width : Char → Nat) (rows cols : UInt16) (ops : List Op) :
    (∃ g, ops.foldlM (Grid.apply width) (new rows.toNat cols.toNat) = some g ∧ g.Sound) ↔
      Machine.Along (fun g op => (g.apply width op).getD g) (fun g op => g.overflows width op = false) ops
        (new rows.toNat cols.toNat) := by
  have start := new_reached rows cols
  generalize new rows.toNat cols.toNat = g at start
  induction ops generalizing g with
  | nil => exact ⟨fun _ => trivial,fun _ => ⟨g,rfl,start.sound⟩⟩
  | cons op rest ih =>
    have once := start.apply width op
    rw [List.foldlM_cons]
    by_cases overflow : g.overflows width op = true
    · rw [if_pos overflow] at once
      rw [once]
      refine ⟨fun ⟨_,done,_⟩ => (by cases done),fun ⟨clear,_⟩ => ?_⟩
      cases overflow.symm.trans clear
    · rw [if_neg overflow] at once
      obtain ⟨h,done,reached⟩ := once
      have next := ih h reached
      have clear : g.overflows width op = false := Bool.not_eq_true _ ▸ overflow
      simp only [done,Option.bind_eq_bind,Option.bind_some,Machine.Along,Option.getD_some,clear,true_and]
      exact next

/-- An ideograph takes two columns. -/
def cjkWidth (c : Char) : Nat := if 0x4e00 ≤ c.toNat ∧ c.toNat ≤ 0x9fff then 2 else 1

/-- One ideograph on a screen of one cell: its spacer has no place. -/
theorem emulator_panics :
    ¬∃ g, [Op.perform (.print (Char.ofNat 0x4e2d))].foldlM (Grid.apply cjkWidth) (new (1 : UInt16).toNat (1 : UInt16).toNat) =
      some g ∧ g.Sound := by
  rintro ⟨g,done,_⟩
  have panics : ([Op.perform (.print (Char.ofNat 0x4e2d))].foldlM (Grid.apply cjkWidth)
    (new (1 : UInt16).toNat (1 : UInt16).toNat)).isNone = true := by decide
  rw [done] at panics
  cases panics

end Grid
end Noissh

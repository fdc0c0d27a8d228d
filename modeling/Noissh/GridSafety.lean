import Noissh.Checked
import Noissh.Grid

/-! Well-formed screens: the cells fill the grid, and the cursor, the scroll region and the
screen saved behind the alternate one lie in it. Every operation of the emulator that returns
keeps this. -/
namespace Noissh
namespace Grid

structure WF (g : Grid) : Prop where
  rows : 0 < g.rows
  cols : 0 < g.cols
  cells : g.cells.length = g.rows * g.cols
  row : g.cursorRow < g.rows
  col : g.cursorCol < g.cols
  top : g.scrollTop ≤ g.scrollBottom
  bottom : g.scrollBottom < g.rows
  alt : ∀ cells, g.altSaved = some cells → cells.length = g.rows * g.cols

/-- What every editing operation leaves alone; the cursor stays in the grid. -/
structure Edits (g h : Grid) : Prop where
  rows : h.rows = g.rows
  cols : h.cols = g.cols
  cells : h.cells.length = g.cells.length
  row : h.cursorRow < h.rows
  col : h.cursorCol < h.cols
  top : h.scrollTop = g.scrollTop
  bottom : h.scrollBottom = g.scrollBottom
  alt : h.altSaved = g.altSaved

variable {g h : Grid}

theorem WF.edits (wf : g.WF) (edits : Edits g h) : h.WF where
  rows := by rw [edits.rows]; exact wf.rows
  cols := by rw [edits.cols]; exact wf.cols
  cells := by rw [edits.cells,edits.rows,edits.cols]; exact wf.cells
  row := edits.row
  col := edits.col
  top := by rw [edits.top,edits.bottom]; exact wf.top
  bottom := by rw [edits.bottom,edits.rows]; exact wf.bottom
  alt := by rw [edits.alt,edits.rows,edits.cols]; exact wf.alt

theorem WF.refl (wf : g.WF) : Edits g g := ⟨rfl,rfl,rfl,wf.row,wf.col,rfl,rfl,rfl⟩

/-- What every operation of the emulator keeps: the grid stays well formed and of its size. -/
structure Keeps (g h : Grid) : Prop where
  wf : h.WF
  rows : h.rows = g.rows
  cols : h.cols = g.cols

theorem WF.keeps (wf : g.WF) (edits : Edits g h) : Keeps g h := ⟨wf.edits edits,edits.rows,edits.cols⟩

theorem WF.same (wf : g.WF) : Keeps g g := ⟨wf,rfl,rfl⟩

theorem Keeps.trans {a b c : Grid} (first : Keeps a b) (second : Keeps b c) : Keeps a c :=
  ⟨second.wf,second.rows.trans first.rows,second.cols.trans first.cols⟩

theorem Edits.trans {a b c : Grid} (first : Edits a b) (second : Edits b c) : Edits a c :=
  ⟨second.rows.trans first.rows,second.cols.trans first.cols,second.cells.trans first.cells,second.row,second.col,
    second.top.trans first.top,second.bottom.trans first.bottom,second.alt.trans first.alt⟩

/-- Writing cells in place. -/
theorem WF.write (wf : g.WF) {cells : List Cell} (length : cells.length = g.cells.length) : Edits g { g with cells } :=
  ⟨rfl,rfl,length,wf.row,wf.col,rfl,rfl,rfl⟩

theorem new_wf (rows cols : Nat) : (new rows cols).WF := by
  have row : 0 < max rows 1 := by omega
  have col : 0 < max cols 1 := by omega
  refine ⟨row,col,List.length_replicate,row,col,Nat.zero_le _,?_,nofun⟩
  show max rows 1 - 1 < max rows 1
  omega

theorem setCell_length {cells cells' : List Cell} {i : Nat} {cell : Cell} (some : setCell cells i cell = some cells') :
    cells'.length = cells.length := by
  unfold setCell at some
  split at some
  · cases some; exact List.length_set
  · cases some

theorem copyWithin_length {cells cells' : List Cell} {src len dst : Nat}
    (some : copyWithin cells src len dst = some cells') : cells'.length = cells.length := by
  unfold copyWithin at some
  split at some
  · rename_i fits
    cases some
    apply Splice.splice_length
    rw [List.length_take,List.length_drop]
    omega
  · cases some

theorem moveCell_length {cells cells' : List Cell} {dst src : Nat} (some : moveCell cells dst src = some cells') :
    cells'.length = cells.length := by
  unfold moveCell at some
  obtain ⟨cell,_,set⟩ := Option.bind_eq_some_iff.mp some
  exact setCell_length set

/-- A loop whose every round keeps the number of cells keeps it. -/
theorem foldlM_length {α : Type} {f : List Cell → α → Option (List Cell)}
    (keeps : ∀ cells a cells', f cells a = some cells' → cells'.length = cells.length) {l : List α}
    {cells cells' : List Cell} (some : l.foldlM f cells = some cells') : cells'.length = cells.length :=
  Checked.foldlM_keeps (P := fun now => now.length = cells.length) some
    (fun a _ now next round same => (keeps now a next round).trans same) rfl

theorem blankRun_length {cells cells' : List Cell} {start n : Nat} (some : blankRun cells start n = some cells') :
    cells'.length = cells.length :=
  foldlM_length (fun _ _ _ set => setCell_length set) some

/-- A loop over a checked span of rows or columns, each round of which keeps the number of cells. -/
theorem WF.loop (wf : g.WF) {α β : Type} {span : Option β} {rounds : β → List α}
    {f : β → List Cell → α → Option (List Cell)}
    (keeps : ∀ b cells a cells', f b cells a = some cells' → cells'.length = cells.length)
    (run : (do let b ← span; let cells ← (rounds b).foldlM (f b) g.cells; some { g with cells }) = some h) : Edits g h := by
  obtain ⟨b,_,rest⟩ := Option.bind_eq_some_iff.mp run
  obtain ⟨cells,loop,eq⟩ := Option.bind_eq_some_iff.mp rest
  cases eq
  exact wf.write (foldlM_length (keeps b) loop)

theorem scrollUp_edits (wf : g.WF) {n : Nat} (some : g.scrollUp n = some h) : Edits g h := by
  refine wf.loop (fun span cells r cells' round => ?_) some
  split at round
  · exact copyWithin_length round
  · exact blankRun_length round

theorem scrollDown_edits (wf : g.WF) {n : Nat} (some : g.scrollDown n = some h) : Edits g h := by
  refine wf.loop (fun span cells r cells' round => ?_) some
  split at round
  · exact copyWithin_length round
  · exact blankRun_length round

theorem lineFeed_edits (wf : g.WF) (some : g.lineFeed = some h) : Edits g h := by
  unfold lineFeed at some
  split at some
  · exact scrollUp_edits wf some
  · split at some
    · rename_i below
      cases some
      exact { wf.refl with row := below }
    · cases some
      exact wf.refl

theorem reverseIndex_edits (wf : g.WF) (some : g.reverseIndex = some h) : Edits g h := by
  unfold reverseIndex at some
  split at some
  · exact scrollDown_edits wf some
  · have := wf.row
    split at some
    · cases some
      exact { wf.refl with row := (by omega : g.cursorRow - 1 < g.rows) }
    · cases some
      exact wf.refl

/-- Moving the cursor within the grid. -/
theorem WF.cursor (wf : g.WF) {row col : Nat} (inRow : row < g.rows) (inCol : col < g.cols) (wrapPending : Bool) :
    Edits g { g with cursorRow := row, cursorCol := col, wrapPending } :=
  { wf.refl with row := inRow, col := inCol }

theorem WF.lastRow (wf : g.WF) (row : Nat) : min row (g.rows - 1) < g.rows := by
  have := wf.rows
  omega

theorem WF.lastCol (wf : g.WF) (col : Nat) : min col (g.cols - 1) < g.cols := by
  have := wf.cols
  omega

theorem moveTo_edits (wf : g.WF) (row col : Nat) : Edits g (g.moveTo row col) :=
  wf.cursor (wf.lastRow row) (wf.lastCol col) false

theorem wrapLine_edits (wf : g.WF) (some : g.wrapLine = some h) : Edits g h := by
  obtain ⟨fed,line,eq⟩ := Option.map_eq_some_iff.mp some
  subst eq
  have first : Edits g { g with cursorCol := 0 } := { wf.refl with col := wf.cols }
  have edits := first.trans (lineFeed_edits (wf.edits first) line)
  exact { edits with }

theorem resolveWrap_edits (wf : g.WF) (some : g.resolveWrap = some h) : Edits g h := by
  unfold resolveWrap at some
  split at some
  · exact wrapLine_edits wf some
  · cases some; exact wf.refl

theorem fitGlyph_edits (wf : g.WF) {w : Nat} (some : g.fitGlyph w = some h) : Edits g h := by
  have positive := wf.cols
  unfold fitGlyph at some
  split at some
  · split at some
    · exact wrapLine_edits wf some
    · cases some
      exact wf.cursor wf.row (show g.cols - 2 < g.cols by omega) false
  · cases some; exact wf.refl

theorem placeGlyph_edits (wf : g.WF) {c : Char} {w : Nat} (some : g.placeGlyph c w = some h) : Edits g h := by
  have positive := wf.cols
  unfold placeGlyph at some
  obtain ⟨cells,set,rest⟩ := Option.bind_eq_some_iff.mp some
  have length := setCell_length set
  split at rest
  · obtain ⟨cells',set',rest⟩ := Option.bind_eq_some_iff.mp rest
    have length' := (setCell_length set').trans length
    split at rest
    · rename_i fits
      cases rest
      exact { wf.write length' with col := fits }
    · split at rest
      · cases rest
        exact { wf.write length' with }
      · cases rest
        exact { wf.write length' with col := (by omega : g.cols - 1 < g.cols) }
  · split at rest
    · rename_i fits
      cases rest
      exact { wf.write length with col := fits }
    · split at rest
      · cases rest
        exact { wf.write length with }
      · cases rest
        exact wf.write length

theorem putChar_edits (wf : g.WF) {c : Char} {w : Nat} (some : g.putChar c w = some h) : Edits g h := by
  unfold putChar at some
  split at some
  · cases some; exact wf.refl
  · obtain ⟨wrapped,resolved,rest⟩ := Option.bind_eq_some_iff.mp some
    obtain ⟨fitted,fits,placed⟩ := Option.bind_eq_some_iff.mp rest
    have first := resolveWrap_edits wf resolved
    have second := first.trans (fitGlyph_edits (wf.edits first) fits)
    exact second.trans (placeGlyph_edits (wf.edits second) placed)

theorem eraseInDisplay_edits (wf : g.WF) {mode : Nat} (some : g.eraseInDisplay mode = some h) : Edits g h := by
  unfold eraseInDisplay at some
  split at some
  · dsimp only at some
    split at some
    · cases some
      refine wf.write ?_
      simp
      omega
    · cases some
  · split at some
    · dsimp only at some
      split at some
      · cases some
        refine wf.write ?_
        simp
        omega
      · cases some
    · cases some
      exact wf.write (by simp)

theorem eraseInLine_edits (wf : g.WF) {mode : Nat} (some : g.eraseInLine mode = some h) : Edits g h := by
  obtain ⟨cells,run,eq⟩ := Option.map_eq_some_iff.mp some
  subst eq
  refine wf.write ?_
  split at run
  · exact blankRun_length run
  · split at run <;> exact blankRun_length run

theorem insertBlankChars_edits (wf : g.WF) {n : Nat} (some : g.insertBlankChars n = some h) : Edits g h := by
  refine wf.loop (fun span cells c cells' round => ?_) some
  split at round
  · exact moveCell_length round
  · exact setCell_length round

theorem deleteChars_edits (wf : g.WF) {n : Nat} (some : g.deleteChars n = some h) : Edits g h := by
  refine wf.loop (fun span cells c cells' round => ?_) some
  split at round
  · exact moveCell_length round
  · exact setCell_length round

theorem scrollFromCursor_edits (wf : g.WF) {scroll : Grid → Nat → Option Grid}
    (scrolls : ∀ g : Grid, g.WF → ∀ n h, scroll g n = some h → Edits g h) {n : Nat}
    (some : scrollFromCursor scroll g n = some h) : Edits g h := by
  unfold scrollFromCursor at some
  split at some
  · cases some; exact wf.refl
  · rename_i inside
    obtain ⟨k,scrolled,eq⟩ := Option.map_eq_some_iff.mp some
    subst eq
    have wf' : WF { g with scrollTop := g.cursorRow } := { wf with top := (by omega : g.cursorRow ≤ g.scrollBottom) }
    have edits := scrolls _ wf' n k scrolled
    exact ⟨edits.rows,edits.cols,edits.cells,edits.row,edits.col,rfl,edits.bottom,edits.alt⟩

theorem enterAltScreen_keeps (wf : g.WF) : Keeps g g.enterAltScreen := by
  unfold enterAltScreen
  split
  · exact wf.same
  · have shown : WF { g with
        altScreen := true
        altSaved := some g.cells
        cells := List.replicate (g.rows * g.cols) .blank } :=
      { wf with cells := List.length_replicate, alt := fun _ same => Option.some.inj same ▸ wf.cells }
    have moved := shown.keeps (moveTo_edits shown 0 0)
    exact ⟨moved.wf,moved.rows,moved.cols⟩

theorem leaveAltScreen_keeps (wf : g.WF) : Keeps g g.leaveAltScreen := by
  unfold leaveAltScreen
  split
  · split
    · rename_i main saved
      exact ⟨{ wf with cells := wf.alt main saved, alt := nofun },rfl,rfl⟩
    · exact ⟨{ wf with },rfl,rfl⟩
  · exact wf.same

theorem setPrivateMode_keeps (wf : g.WF) (mode : Nat) (enable : Bool) : Keeps g (g.setPrivateMode mode enable) := by
  unfold setPrivateMode
  split
  · exact ⟨{ wf with },rfl,rfl⟩
  · split
    · exact ⟨{ wf with },rfl,rfl⟩
    · split
      · split
        · exact enterAltScreen_keeps wf
        · exact leaveAltScreen_keeps wf
      · exact wf.same

theorem resizeCells_length {old cells : List Cell} {rows cols rows' cols' : Nat}
    (some : resizeCells old rows cols rows' cols' = some cells) : cells.length = rows' * cols' := by
  unfold resizeCells at some
  have length := foldlM_length (fun cells r cells' round =>
    foldlM_length (fun cells c cells' cell => by
      obtain ⟨value,_,set⟩ := Option.bind_eq_some_iff.mp cell
      exact setCell_length set) round) some
  rw [length,List.length_replicate]

theorem resize_wf {rows cols : Nat} (some : g.resize rows cols = some h) : h.WF := by
  unfold resize at some
  obtain ⟨cells,main,rest⟩ := Option.bind_eq_some_iff.mp some
  obtain ⟨altSaved,alt,eq⟩ := Option.bind_eq_some_iff.mp rest
  cases eq
  refine ⟨?_,?_,resizeCells_length main,?_,?_,?_,?_,fun saved same => ?_⟩
  · show 0 < max rows 1
    omega
  · show 0 < max cols 1
    omega
  · show min g.cursorRow (max rows 1 - 1) < max rows 1
    omega
  · show min g.cursorCol (max cols 1 - 1) < max cols 1
    omega
  · exact Nat.zero_le _
  · show max rows 1 - 1 < max rows 1
    omega
  · change altSaved = .some saved at same
    subst same
    unfold resizeSaved at alt
    split at alt
    · obtain ⟨k,resized,eq⟩ := Option.map_eq_some_iff.mp alt
      cases eq
      exact resizeCells_length resized
    · cases alt

theorem execute_keeps (wf : g.WF) {byte : UInt8} (some : g.execute byte = some h) : Keeps g h := by
  have inCol := wf.col
  have positive := wf.cols
  unfold execute at some
  split at some
  · exact wf.keeps (lineFeed_edits wf some)
  · split at some
    · cases some
      exact ⟨{ wf with col := wf.cols },rfl,rfl⟩
    · split at some
      · cases some
        exact ⟨{ wf with col := (by omega : g.cursorCol - 1 < g.cols) },rfl,rfl⟩
      · split at some
        · cases some
          exact ⟨{ wf with col := wf.lastCol _ },rfl,rfl⟩
        · cases some; exact wf.same

theorem escDispatch_keeps (wf : g.WF) {byte : UInt8} (some : g.escDispatch byte = some h) : Keeps g h := by
  unfold escDispatch at some
  split at some
  · exact wf.keeps (lineFeed_edits wf some)
  · split at some
    · exact wf.keeps (reverseIndex_edits wf some)
    · split at some
      · have first : WF { g with cursorCol := 0 } := { wf with col := wf.cols }
        have fed := first.keeps (lineFeed_edits first some)
        exact ⟨fed.wf,fed.rows,fed.cols⟩
      · split at some
        · cases some; exact ⟨{ wf with },rfl,rfl⟩
        · split at some
          · split at some
            · cases some
              exact ⟨{ wf with row := wf.lastRow _, col := wf.lastCol _ },rfl,rfl⟩
            · cases some; exact wf.same
          · split at some
            · cases some
              exact ⟨new_wf _ _,Nat.max_eq_left wf.rows,Nat.max_eq_left wf.cols⟩
            · cases some; exact wf.same

theorem csiDispatch_keeps (wf : g.WF) {params : Params} {intermediates : Bytes} {action : Char}
    (some : g.csiDispatch params intermediates action = some h) : Keeps g h := by
  have inRow := wf.row
  have inCol := wf.col
  unfold csiDispatch at some
  dsimp only at some
  split at some
  · cases some; exact ⟨{ wf with row := (by omega : g.cursorRow - arg params 0 1 < g.rows) },rfl,rfl⟩
  · cases some; exact ⟨{ wf with row := wf.lastRow _ },rfl,rfl⟩
  · cases some; exact ⟨{ wf with col := wf.lastCol _ },rfl,rfl⟩
  · cases some; exact ⟨{ wf with col := (by omega : g.cursorCol - arg params 0 1 < g.cols) },rfl,rfl⟩
  · obtain ⟨col,_,eq⟩ := Option.bind_eq_some_iff.mp some
    cases eq; exact ⟨{ wf with col := wf.lastCol _ },rfl,rfl⟩
  · obtain ⟨row,_,eq⟩ := Option.bind_eq_some_iff.mp some
    cases eq; exact ⟨{ wf with row := wf.lastRow _ },rfl,rfl⟩
  · obtain ⟨row,_,rest⟩ := Option.bind_eq_some_iff.mp some
    obtain ⟨col,_,eq⟩ := Option.bind_eq_some_iff.mp rest
    cases eq; exact wf.keeps (moveTo_edits wf row col)
  · obtain ⟨row,_,rest⟩ := Option.bind_eq_some_iff.mp some
    obtain ⟨col,_,eq⟩ := Option.bind_eq_some_iff.mp rest
    cases eq; exact wf.keeps (moveTo_edits wf row col)
  · exact wf.keeps (eraseInDisplay_edits wf some)
  · exact wf.keeps (eraseInLine_edits wf some)
  · exact wf.keeps (insertBlankChars_edits wf some)
  · exact wf.keeps (deleteChars_edits wf some)
  · exact wf.keeps (scrollFromCursor_edits wf (fun _ wf _ _ => scrollDown_edits wf) some)
  · exact wf.keeps (scrollFromCursor_edits wf (fun _ wf _ _ => scrollUp_edits wf) some)
  · exact wf.keeps (scrollUp_edits wf some)
  · exact wf.keeps (scrollDown_edits wf some)
  · obtain ⟨top,_,rest⟩ := Option.bind_eq_some_iff.mp some
    obtain ⟨bottom,_,region⟩ := Option.bind_eq_some_iff.mp rest
    split at region
    · rename_i inside
      cases region
      have placed : WF { g with scrollTop := top, scrollBottom := bottom } :=
        { wf with top := Nat.le_of_lt inside.1, bottom := inside.2 }
      have moved := placed.keeps (moveTo_edits placed 0 0)
      exact ⟨moved.wf,moved.rows,moved.cols⟩
    · cases region; exact wf.same
  · cases some
    unfold setSgr
    split <;> exact ⟨{ wf with },rfl,rfl⟩
  · split at some <;> cases some
    · exact setPrivateMode_keeps wf _ _
    · exact wf.same
  · split at some <;> cases some
    · exact setPrivateMode_keeps wf _ _
    · exact wf.same
  · split at some
    · cases some; exact ⟨{ wf with },rfl,rfl⟩
    · split at some <;> cases some
      · exact ⟨{ wf with },rfl,rfl⟩
      · exact wf.same
  · split at some
    · cases some; exact ⟨{ wf with },rfl,rfl⟩
    · split at some <;> cases some
      · exact ⟨{ wf with },rfl,rfl⟩
      · exact wf.same
  · cases some; exact wf.same

theorem perform_keeps (wf : g.WF) {width : Char → Nat} {action : Perform} (some : g.perform width action = some h) :
    Keeps g h := by
  cases action with
  | print c => exact wf.keeps (putChar_edits wf some)
  | execute byte => exact execute_keeps wf some
  | csi params intermediates ignore action => exact csiDispatch_keeps wf some
  | esc intermediates ignore byte => exact escDispatch_keeps wf some

end Grid

namespace Terminal

variable {em : Emulator} {t u : Terminal em}

theorem new_wf (em : Emulator) (rows cols : Nat) : (new em rows cols).grid.WF := Grid.new_wf rows cols

theorem performs_keeps {width : Char → Nat} (performs : List Perform) {g h : Grid} (wf : g.WF)
    (some : performs.foldlM (Grid.perform width) g = some h) : Grid.Keeps g h := by
  induction performs generalizing g with
  | nil =>
    cases some
    exact wf.same
  | cons action rest ih =>
    rw [List.foldlM_cons] at some
    obtain ⟨next,first,later⟩ := Option.bind_eq_some_iff.mp some
    have kept := Grid.perform_keeps wf first
    exact kept.trans (ih kept.wf later)

theorem advance_keeps (wf : t.grid.WF) {bytes : Bytes} (some : t.advance bytes = some u) : Grid.Keeps t.grid u.grid := by
  unfold advance at some
  obtain ⟨grid,run,eq⟩ := Option.bind_eq_some_iff.mp some
  cases eq
  exact performs_keeps _ wf run

theorem resize_wf {rows cols : Nat} (some : t.resize rows cols = some u) : u.grid.WF := by
  unfold resize at some
  obtain ⟨grid,resized,eq⟩ := Option.bind_eq_some_iff.mp some
  cases eq
  exact Grid.resize_wf resized

end Terminal
end Noissh

import Noissh.Diff

/-! A diff does what it says: a snapshot turns every grid into its target, and a delta turns
its base into its target. Neither touches a grid that it does not fit. -/
namespace Noissh

open Wire

/-- What is rendered of a grid. -/
structure Grid.View where
  rows : Nat
  cols : Nat
  cells : List Cell
  cursorRow : Nat
  cursorCol : Nat
  cursorVisible : Bool

namespace Grid

def view (g : Grid) : View := ⟨g.rows,g.cols,g.cells,g.cursorRow,g.cursorCol,g.cursorVisible⟩

theorem renderEq_iff (g h : Grid) : g.renderEq h = true ↔ g.view = h.view := by
  simp only [renderEq,view,View.mk.injEq,Bool.and_eq_true,beq_iff_eq,and_assoc]

theorem renderEq_eq_false_iff (g h : Grid) : g.renderEq h = false ↔ g.view ≠ h.view := by
  rw [ne_eq,← renderEq_iff,Bool.not_eq_true]

/-- Grids that render alike have one size. -/
def size (g : Grid) : Nat × Nat := (g.rows,g.cols)

theorem size_eq_of_view {g h : Grid} (same : g.view = h.view) : g.size = h.size := by
  have rows := congrArg View.rows same
  have cols := congrArg View.cols same
  exact Prod.ext rows cols

theorem size_eq_iff (g h : Grid) : g.size = h.size ↔ g.rows = h.rows ∧ g.cols = h.cols := Prod.mk.injEq ..  ▸ Iff.rfl

/-- Small enough to be taken from a diff. -/
def Fits (g : Grid) : Prop := g.rows * g.cols ≤ Diff.maxCells

instance (g : Grid) : Decidable g.Fits := inferInstanceAs (Decidable (_ ≤ _))

/-- It has the cells of its size, and its cursor is inside. -/
structure Framed (g : Grid) : Prop where
  cells : g.cells.length = g.rows * g.cols
  row : g.cursorRow < g.rows
  col : g.cursorCol < g.cols

theorem WF.framed {g : Grid} (wf : g.WF) : g.Framed := ⟨wf.cells,wf.row,wf.col⟩

theorem Framed.rows {g : Grid} (framed : g.Framed) : 0 < g.rows := Nat.lt_of_le_of_lt (Nat.zero_le _) framed.row

theorem Framed.cols {g : Grid} (framed : g.Framed) : 0 < g.cols := Nat.lt_of_le_of_lt (Nat.zero_le _) framed.col

theorem Framed.row_small {g : Grid} (framed : g.Framed) (fits : g.Fits) : g.rows ≤ Diff.maxCells :=
  Nat.le_trans (Nat.le_mul_of_pos_right g.rows framed.cols) fits

theorem Framed.col_small {g : Grid} (framed : g.Framed) (fits : g.Fits) : g.cols ≤ Diff.maxCells :=
  Nat.le_trans (Nat.le_mul_of_pos_left g.cols framed.rows) fits

end Grid

namespace Diff

theorem getVarint_put {v : Nat} (fits : v < 2 ^ 64) (rest : Bytes) :
    getVarint (putVarint v ++ rest) = .ok (v,rest) := by
  rw [getVarint,Wire.getVarint_put,if_pos fits]
  rfl

theorem getVarint_put_wide {v : Nat} (wide : ¬v < 2 ^ 64) (rest : Bytes) :
    getVarint (putVarint v ++ rest) = .error (.wire .varintOverflow) := by
  rw [getVarint,Wire.getVarint_put,if_neg wide]
  rfl

theorem getColor_put (color : Color) (rest : Bytes) : getColor (putColor color ++ rest) = .ok (color,rest) := by
  cases color <;> rfl

theorem charOf_toNat (c : Char) : charOf (c.toNat % 2 ^ 32) = c := by
  have small : c.toNat < 2 ^ 32 := c.val.toNat_lt
  have valid : c.toNat.isValidChar := c.valid
  rw [Nat.mod_eq_of_lt small,charOf,if_pos valid,Char.ofNat_toNat]

theorem getCell_put (cell : Cell) (rest : Bytes) : getCell (putCell cell ++ rest) = .ok (cell,rest) := by
  have small : cell.ch.toNat < 2 ^ 64 := Nat.lt_trans cell.ch.val.toNat_lt (by decide)
  simp only [getCell,putCell,List.append_assoc,getVarint_put small,getColor_put,List.cons_append,List.nil_append,
    getU8,charOf_toNat,bind,Except.bind]

def header (tag : UInt8) (g : Grid) : Header := ⟨tag,g.rows,g.cols,g.cursorRow,g.cursorCol,g.cursorVisible⟩

theorem getHeader_put {g : Grid} (framed : g.Framed) (rows : g.rows < 2 ^ 64) (cols : g.cols < 2 ^ 64) (tag : UInt8)
    (rest : Bytes) : getHeader (tag :: (putHeader g ++ rest)) = .ok (header tag g,rest) := by
  have row := Nat.lt_trans framed.row rows
  have col := Nat.lt_trans framed.col cols
  simp only [getHeader,putHeader,List.append_assoc,getU8,getVarint_put rows,getVarint_put cols,getVarint_put row,
    getVarint_put col,List.cons_append,List.nil_append,bind,Except.bind]
  cases visible : g.cursorVisible <;> simp [header,visible]

theorem getHeader_wide {g : Grid} (wide : ¬(g.rows < 2 ^ 64 ∧ g.cols < 2 ^ 64)) (tag : UInt8) (rest : Bytes) :
    getHeader (tag :: (putHeader g ++ rest)) = .error (.wire .varintOverflow) := by
  by_cases rows : g.rows < 2 ^ 64
  · have cols : ¬g.cols < 2 ^ 64 := fun cols => wide ⟨rows,cols⟩
    simp only [getHeader,putHeader,List.append_assoc,getU8,getVarint_put rows,getVarint_put_wide cols,bind,Except.bind]
  · simp only [getHeader,putHeader,List.append_assoc,getU8,getVarint_put_wide rows,bind,Except.bind]

/-- A diff to a screen too large is refused. -/
theorem applyDiff_large {target : Grid} (framed : target.Framed) (large : ¬target.Fits) (g : Grid) (tag : UInt8) (rest : Bytes) :
    ∃ e, applyDiff g (tag :: (putHeader target ++ rest)) = some (.error e,g) := by
  by_cases wide : target.rows < 2 ^ 64 ∧ target.cols < 2 ^ 64
  · refine ⟨.badDimensions,?_⟩
    have refused : target.rows = 0 ∨ target.cols = 0 ∨ maxCells < target.rows * target.cols :=
      .inr (.inr (Nat.not_le.mp large))
    simp only [applyDiff,getHeader_put framed wide.1 wide.2,header,if_pos refused]
  · refine ⟨.wire .varintOverflow,?_⟩
    simp only [applyDiff,getHeader_wide wide]

/-- The header of a screen that fits is read and accepted. -/
theorem getHeader_fits {g : Grid} (framed : g.Framed) (fits : g.Fits) (tag : UInt8) (rest : Bytes) :
    getHeader (tag :: (putHeader g ++ rest)) = .ok (header tag g,rest) ∧
      ¬(g.rows = 0 ∨ g.cols = 0 ∨ maxCells < g.rows * g.cols) := by
  have rows : g.rows < 2 ^ 64 := Nat.lt_of_le_of_lt (framed.row_small fits) (by decide)
  have cols : g.cols < 2 ^ 64 := Nat.lt_of_le_of_lt (framed.col_small fits) (by decide)
  refine ⟨getHeader_put framed rows cols tag rest,?_⟩
  rintro (zero | zero | large)
  · exact Nat.ne_of_gt framed.rows zero
  · exact Nat.ne_of_gt framed.cols zero
  · exact Nat.not_lt.mpr fits large

/-- The cells of a snapshot, from `i` on. -/
theorem applyFull_put (fresh cells : List Cell) (i : Nat) (fits : i + fresh.length ≤ cells.length) :
    applyFull fresh.length i cells (fresh.flatMap putCell) = some (.ok (),Splice.splice cells i fresh) := by
  induction fresh generalizing i cells with
  | nil => simp [applyFull,Splice.splice]
  | cons cell fresh ih =>
    rw [List.length_cons] at fits
    have set : Grid.setCell cells i cell = some (cells.set i cell) := if_pos (by omega)
    rw [List.flatMap_cons,List.length_cons,applyFull]
    simp only [getCell_put,set,Option.bind_eq_bind,Option.bind_some]
    rw [ih (cells.set i cell) (i + 1) (by rw [List.length_set]; omega),Splice.splice_set _ _ _ _ (by omega)]

/-- The listed cells, as a patch of the grid. -/
def listed (target : Grid) (is : List Nat) : List (Nat × List Cell) :=
  is.map (fun i => (i,[(target.cells[i]?).getD .blank]))

theorem applyDelta_put (target : Grid) (is : List Nat) (cells : List Cell) (inside : ∀ i ∈ is, i < cells.length)
    (small : cells.length ≤ 2 ^ 64) :
    applyDelta is.length cells (is.flatMap (putChange target)) = (.ok (),Splice.patch cells (listed target is)) := by
  induction is generalizing cells with
  | nil => rfl
  | cons i is ih =>
    have here : i < cells.length := inside i (by simp)
    have length : (cells.set i ((target.cells[i]?).getD .blank)).length = cells.length := List.length_set
    rw [List.flatMap_cons,List.length_cons,applyDelta,putChange,List.append_assoc,
      getVarint_put (Nat.lt_of_lt_of_le here small)]
    dsimp only
    rw [getCell_put]
    dsimp only
    rw [if_pos here,ih _ (by rw [length]; exact fun j member => inside j (by simp [member])) (by rw [length]; exact small),
      ← Splice.splice_one _ _ _ here]
    rfl

/-- Patching the base with what changed gives the target. -/
theorem patch_changes {base target : Grid} (length : base.cells.length = target.cells.length) :
    Splice.patch base.cells (listed target (changes base target)) = target.cells := by
  have inside : ∀ i ∈ changes base target, i < base.cells.length := by
    intro i member
    rw [length]
    exact List.mem_range.mp (List.mem_filter.mp member).1
  have fits : ∀ p ∈ listed target (changes base target), p.1 + p.2.length ≤ base.cells.length := by
    intro p member
    obtain ⟨i,change,rfl⟩ := List.mem_map.mp member
    exact inside i change
  apply List.ext_getElem?
  intro j
  by_cases changed : j ∈ changes base target
  · apply Splice.getElem?_patch_of_agree _ _ _ (fun j => target.cells[j]?) fits
    · intro p member k from_ to_
      obtain ⟨i,change,rfl⟩ := List.mem_map.mp member
      have same : k = i := by simp only [List.length_singleton] at from_ to_; omega
      subst same
      have bound : k < target.cells.length := by rw [← length]; exact inside k change
      simp [List.getElem?_eq_getElem bound]
    · exact ⟨_,List.mem_map_of_mem changed,by simp⟩
  · have uncovered : ∀ p ∈ listed target (changes base target), ¬(p.1 ≤ j ∧ j < p.1 + p.2.length) := by
      intro p member covers
      obtain ⟨i,change,rfl⟩ := List.mem_map.mp member
      have same : j = i := by simp only [List.length_singleton] at covers; omega
      exact changed (same ▸ change)
    rw [Splice.getElem?_patch_of_uncovered _ _ _ fits uncovered]
    by_cases bound : j < target.cells.length
    · have same : ¬(target.cells[j]? != base.cells[j]?) = true := fun differs =>
        changed (List.mem_filter.mpr ⟨List.mem_range.mpr bound,differs⟩)
      simp only [bne_iff_ne,ne_eq,not_not] at same
      exact same.symm
    · rw [List.getElem?_eq_none (by omega),List.getElem?_eq_none (by omega)]

section Outcome

variable {g base target : Grid}

/-- The grid with the target's rendering; the rest of it stays. -/
theorem place_view (framed : target.Framed) (size : g.size = target.size) (tag : UInt8) :
    (place (header tag target) { g with cells := target.cells }).view = target.view := by
  have rows := (Grid.size_eq_iff _ _).mp size
  have row : min target.cursorRow (target.rows - 1) = target.cursorRow := by have := framed.row; omega
  have col : min target.cursorCol (target.cols - 1) = target.cursorCol := by have := framed.col; omega
  simp only [place,header,Grid.view,rows.1,rows.2,row,col]

theorem place_wf (wf : g.WF) (target_wf : target.WF) (size : g.size = target.size) (tag : UInt8) :
    (place (header tag target) { g with cells := target.cells }).WF := by
  have rows := (Grid.size_eq_iff _ _).mp size
  refine ⟨wf.rows,wf.cols,?_,?_,?_,wf.top,wf.bottom,wf.alt⟩
  · show target.cells.length = g.rows * g.cols
    rw [rows.1,rows.2]
    exact target_wf.cells
  · show min target.cursorRow (target.rows - 1) < g.rows
    rw [rows.1]
    exact target_wf.lastRow _
  · show min target.cursorCol (target.cols - 1) < g.cols
    rw [rows.2]
    exact target_wf.lastCol _

/-- The diff was applied and the grid renders as its target. -/
def Renders (target : Grid) (out : Option (Except DiffError Unit × Grid)) : Prop :=
  ∃ h, out = some (.ok (),h) ∧ h.view = target.view ∧ h.WF

/-- The diff was refused and the grid is as it was. -/
def Refuses (g : Grid) (out : Option (Except DiffError Unit × Grid)) : Prop :=
  ∃ e, out = some (.error e,g)

/-- The grid a snapshot is written to. -/
def canvas (g target : Grid) : Grid :=
  if g.rows ≠ target.rows ∨ g.cols ≠ target.cols then Grid.new target.rows target.cols else g

theorem canvas_size (framed : target.Framed) : (canvas g target).size = target.size := by
  unfold canvas
  split
  · show (max target.rows 1,max target.cols 1) = (target.rows,target.cols)
    rw [Nat.max_eq_left framed.rows,Nat.max_eq_left framed.cols]
  · rw [Grid.size_eq_iff]
    omega

theorem canvas_cells (framed : g.Framed) : (canvas g target).cells.length = (canvas g target).rows * (canvas g target).cols := by
  unfold canvas
  split
  · exact (Grid.new_wf _ _).cells
  · exact framed.cells

theorem applyDiff_full_eq (framed : g.Framed) (target_framed : target.Framed) (fits : target.Fits) :
    applyDiff g (encodeFull target) =
      some (.ok (),place (header tagFull target) { canvas g target with cells := target.cells }) := by
  obtain ⟨read,accepted⟩ := getHeader_fits target_framed fits tagFull (target.cells.flatMap putCell)
  have rows := (Grid.size_eq_iff _ _).mp (canvas_size (g := g) target_framed)
  have length : target.cells.length = (canvas g target).cells.length := by
    rw [target_framed.cells,canvas_cells framed,rows.1,rows.2]
  have written := applyFull_put target.cells (canvas g target).cells 0 (by omega)
  rw [Splice.splice_all _ _ length,target_framed.cells] at written
  simp only [applyDiff,encodeFull,read,header,if_neg accepted,if_pos]
  change (applyFull (target.rows * target.cols) 0 (canvas g target).cells (target.cells.flatMap putCell)).map _ = _
  rw [written]
  rfl

theorem applyDiff_full (wf : g.WF) (target_wf : target.WF) (fits : target.Fits) :
    Renders target (applyDiff g (encodeFull target)) := by
  have size := canvas_size (g := g) target_wf.framed
  have blank_wf : (canvas g target).WF := by
    unfold canvas
    split
    · exact Grid.new_wf _ _
    · exact wf
  exact ⟨_,applyDiff_full_eq wf.framed target_wf.framed fits,place_view target_wf.framed size tagFull,
    place_wf blank_wf target_wf size tagFull⟩

theorem applyDiff_full_large (target_wf : target.WF) (large : ¬target.Fits) :
    Refuses g (applyDiff g (encodeFull target)) := applyDiff_large target_wf.framed large g tagFull _

theorem applyDiff_delta_eq (framed : g.Framed) (target_framed : target.Framed) (fits : target.Fits)
    (size : base.size = target.size) (same : g.view = base.view) :
    applyDiff g (encodeDelta base target) = some (.ok (),place (header tagDelta target) { g with cells := target.cells }) := by
  obtain ⟨read,accepted⟩ := getHeader_fits target_framed fits tagDelta (putVarint (changes base target).length ++
    (changes base target).flatMap (putChange target))
  have rows := (Grid.size_eq_iff _ _).mp ((Grid.size_eq_of_view same).trans size)
  have match_ : ¬(g.rows ≠ target.rows ∨ g.cols ≠ target.cols) := by omega
  have cells : g.cells = base.cells := congrArg Grid.View.cells same
  have length : base.cells.length = target.cells.length := by
    rw [← cells,framed.cells,target_framed.cells,rows.1,rows.2]
  have few : (changes base target).length ≤ target.cells.length := by
    have := List.length_filter_le (fun i => target.cells[i]? != base.cells[i]?) (List.range target.cells.length)
    rwa [List.length_range] at this
  have small : target.cells.length < 2 ^ 64 := by
    rw [target_framed.cells]
    exact Nat.lt_of_le_of_lt fits (by decide)
  have written := applyDelta_put target (changes base target) base.cells (by
    intro i member
    rw [length]
    exact List.mem_range.mp (List.mem_filter.mp member).1) (by omega)
  rw [patch_changes length] at written
  have kind : ¬tagDelta = tagFull := by decide
  simp only [applyDiff,encodeDelta,read,header,if_neg accepted,if_neg kind,if_neg match_,if_pos,
    getVarint_put (Nat.lt_of_le_of_lt few small),cells,written]
  rfl

theorem applyDiff_delta (wf : g.WF) (target_wf : target.WF) (fits : target.Fits) (size : base.size = target.size)
    (same : g.view = base.view) : Renders target (applyDiff g (encodeDelta base target)) := by
  have gsize : g.size = target.size := (Grid.size_eq_of_view same).trans size
  exact ⟨_,applyDiff_delta_eq wf.framed target_wf.framed fits size same,place_view target_wf.framed gsize tagDelta,
    place_wf wf target_wf gsize tagDelta⟩

theorem applyDiff_delta_large (target_wf : target.WF) (large : ¬target.Fits) :
    Refuses g (applyDiff g (encodeDelta base target)) := applyDiff_large target_wf.framed large g tagDelta _

theorem applyDiff_delta_other (framed : target.Framed) (fits : target.Fits) (size : g.size ≠ target.size) :
    Refuses g (applyDiff g (encodeDelta base target)) := by
  obtain ⟨read,accepted⟩ := getHeader_fits framed fits tagDelta (putVarint (changes base target).length ++
    (changes base target).flatMap (putChange target))
  have other : g.rows ≠ target.rows ∨ g.cols ≠ target.cols := by
    rw [ne_eq,Grid.size_eq_iff] at size
    omega
  have kind : ¬tagDelta = tagFull := by decide
  refine ⟨.dimMismatch,?_⟩
  simp only [applyDiff,encodeDelta,read,header,if_neg accepted,if_neg kind,if_pos other,if_pos]

theorem isFull_full (target : Grid) : isFull (encodeFull target) = true := rfl

theorem isFull_delta (base target : Grid) : isFull (encodeDelta base target) = false := rfl

theorem encodeDiff_cases (start : Option Grid) (target : Grid) :
    encodeDiff start target = encodeFull target ∨
      ∃ base, start = some base ∧ base.size = target.size ∧ encodeDiff start target = encodeDelta base target := by
  cases start with
  | none => exact .inl rfl
  | some base =>
    unfold encodeDiff
    dsimp only
    split
    · rename_i size
      exact .inr ⟨base,rfl,(Grid.size_eq_iff _ _).mpr size,rfl⟩
    · exact .inl rfl

theorem renders_full (framed : g.Framed) (target_framed : target.Framed) (fits : target.Fits) :
    ∃ h, applyDiff g (encodeFull target) = some (.ok (),h) ∧ h.renderEq target = true :=
  ⟨_,applyDiff_full_eq framed target_framed fits,(Grid.renderEq_iff _ _).mpr
    (place_view target_framed (canvas_size target_framed) tagFull)⟩

/-- A diff turns every grid that renders as its base into one that renders as its target, and a
diff without a base every grid. The full ones are those with a header and every cell after it,
and are the ones that can be applied to any grid. -/
theorem diff_faithful (base target : Grid) (target_framed : target.Framed) (fits : target.Fits) :
    (∀ g : Grid, g.Framed → g.renderEq base = true →
      ∃ h, applyDiff g (encodeDiff (some base) target) = some (.ok (),h) ∧ h.renderEq target = true) ∧
    (∀ g : Grid, g.Framed → ∃ h, applyDiff g (encodeDiff none target) = some (.ok (),h) ∧ h.renderEq target = true) ∧
    ∀ start : Option Grid,
      (isFull (encodeDiff start target) = true ↔
        encodeDiff start target = tagFull :: (putHeader target ++ target.cells.flatMap putCell)) ∧
      (isFull (encodeDiff start target) = true ↔
        ∀ g : Grid, g.Framed → ∃ h, applyDiff g (encodeDiff start target) = some (.ok (),h) ∧ h.renderEq target = true) := by
  refine ⟨fun g framed same => ?_,fun g framed => renders_full framed target_framed fits,fun start => ?_⟩
  · have view := (Grid.renderEq_iff _ _).mp same
    rcases encodeDiff_cases (some base) target with full | ⟨b,chosen,size,delta⟩
    · rw [full]
      exact renders_full framed target_framed fits
    · cases chosen
      rw [delta]
      have gsize : g.size = target.size := (Grid.size_eq_of_view view).trans size
      exact ⟨_,applyDiff_delta_eq framed target_framed fits size view,
        (Grid.renderEq_iff _ _).mpr (place_view target_framed gsize tagDelta)⟩
  · rcases encodeDiff_cases start target with full | ⟨b,_,_,delta⟩
    · rw [full]
      exact ⟨⟨fun _ => rfl,fun _ => rfl⟩,⟨fun _ g framed => renders_full framed target_framed fits,fun _ => rfl⟩⟩
    · rw [delta]
      refine ⟨⟨nofun,fun same => ?_⟩,⟨nofun,fun always => ?_⟩⟩
      · cases List.head_eq_of_cons_eq same
      -- A grid with one row more than the target is refused.
      · have other : (Grid.new (target.rows + 1) target.cols).size ≠ target.size := by
          intro same
          have rows : max (target.rows + 1) 1 = target.rows := congrArg Prod.fst same
          omega
        obtain ⟨e,refused⟩ := @applyDiff_delta_other _ b _ target_framed fits other
        obtain ⟨h,applied,_⟩ := always _ (Grid.new_wf _ _).framed
        rw [refused] at applied
        cases applied

/-- A letter was typed. -/
def letter : Grid := { Grid.new 1 2 with cells := [{ Cell.blank with ch := 'a' },.blank], cursorCol := 1 }

theorem diff_faithful_letter :
    ∃ h, applyDiff (Grid.new 1 2) (encodeDiff (some (Grid.new 1 2)) letter) = some (.ok (),h) ∧ h.renderEq letter = true :=
  (diff_faithful (Grid.new 1 2) letter ⟨by decide,by decide,by decide⟩ (by decide)).1 _ (Grid.new_wf 1 2).framed (by decide)

end Outcome

end Diff
end Noissh

import Noissh.AltScreen
import Noissh.GridMoves

/-! A glyph of two columns and the spacer after it. Printing makes the pair; writing over one
half of it, or moving the halves apart, leaves the other behind. -/
namespace Noissh
namespace Grid

variable {g h : Grid} {width : Char → Nat}

def spacerChar : Char := Char.ofNat 0

/-- The cell is the second column of a wide glyph. -/
def Spacer (g : Grid) (r c : Nat) : Prop := (g.cell r c).ch = spacerChar

instance (g : Grid) (r c : Nat) : Decidable (g.Spacer r c) := by unfold Spacer; infer_instance

def Wide (width : Char → Nat) (g : Grid) (r c : Nat) : Prop := width (g.cell r c).ch = 2

instance (width : Char → Nat) (g : Grid) (r c : Nat) : Decidable (g.Wide width r c) := by unfold Wide; infer_instance

/-- A cell is a spacer exactly when the one to its left is wide. -/
def WidePaired (width : Char → Nat) (g : Grid) : Prop :=
  ∀ r c, r < g.rows → c < g.cols → (g.Spacer r c ↔ 0 < c ∧ g.Wide width r (c - 1))

/-- What is relied on of the widths: the spacer has none, and a blank is not wide. -/
structure Widths (width : Char → Nat) : Prop where
  spacer : width spacerChar = 0
  blank : width ' ' ≠ 2

theorem cell_outside {r c : Nat} (outside : ¬(r < g.rows ∧ c < g.cols)) : g.cell r c = .blank := if_neg outside

theorem not_spacer_outside {r c : Nat} (outside : ¬(r < g.rows ∧ c < g.cols)) : ¬g.Spacer r c := by
  rw [Spacer,cell_outside outside]
  decide

theorem Widths.not_wide_outside (widths : Widths width) {r c : Nat} (outside : ¬(r < g.rows ∧ c < g.cols)) :
    ¬g.Wide width r c := by
  rw [Wide,cell_outside outside]
  exact widths.blank

/-- There is no spacer without a wide glyph, also where the screen ends. -/
theorem WidePaired.wide_left (pairs : g.WidePaired width) {r c : Nat} (spacer : g.Spacer r c) :
    0 < c ∧ g.Wide width r (c - 1) := by
  by_cases inside : r < g.rows ∧ c < g.cols
  · exact (pairs r c inside.1 inside.2).mp spacer
  · exact absurd spacer (not_spacer_outside inside)

section Rearranged

variable {origin : Nat → Nat → Option (Nat × Nat)} (moved : Rearranges g h origin)

include moved

theorem Rearranges.rows : h.rows = g.rows := by rw [moved.only]

theorem Rearranges.cols : h.cols = g.cols := by rw [moved.only]

theorem Rearranges.spacer_iff {r c : Nat} (inRow : r < g.rows) (inCol : c < g.cols) :
    h.Spacer r c ↔ ∃ p, origin r c = some p ∧ g.Spacer p.1 p.2 := by
  rw [Spacer,moved.cell r c inRow inCol]
  cases origin r c with
  | none =>
    have blank : Cell.blank.ch ≠ spacerChar := by decide
    exact ⟨fun same => absurd same blank,by simp⟩
  | some p => simp [Spacer]

theorem Rearranges.wide_iff (widths : Widths width) {r c : Nat} (inRow : r < g.rows) (inCol : c < g.cols) :
    h.Wide width r c ↔ ∃ p, origin r c = some p ∧ g.Wide width p.1 p.2 := by
  rw [Wide,moved.cell r c inRow inCol]
  cases origin r c with
  | none => exact ⟨fun same => absurd same widths.blank,by simp⟩
  | some p => simp [Wide]

end Rearranged

/-- Whole rows keep their pairs. -/
theorem WidePaired.rows_moved (pairs : g.WidePaired width) (widths : Widths width) (source : Nat → Option Nat)
    (moved : Rearranges g h fun r c => (source r).map (·,c))
    (inside : ∀ r src, r < g.rows → source r = some src → src < g.rows) : h.WidePaired width := by
  intro r c inRow inCol
  rw [moved.rows] at inRow
  rw [moved.cols] at inCol
  rw [moved.spacer_iff inRow inCol,moved.wide_iff widths inRow (by omega)]
  cases from_ : source r with
  | none => simp
  | some src => simpa [from_] using pairs src c (inside r src inRow from_) inCol

theorem WidePaired.scrolled_up (pairs : g.WidePaired width) (widths : Widths width) {top bottom n : Nat}
    (bound : bottom < g.rows) (moved : Rearranges g h (upBy top bottom n)) : h.WidePaired width := by
  apply pairs.rows_moved widths (fun r => if top ≤ r ∧ r ≤ bottom then if r + n ≤ bottom then some (r + n) else none
    else some r)
  · apply moved.congr
    intro r c _ _
    unfold upBy
    split
    · split <;> rfl
    · rfl
  · intro r src inRow from_
    grind

theorem WidePaired.scrolled_down (pairs : g.WidePaired width) (widths : Widths width) {top bottom n : Nat}
    (moved : Rearranges g h (downBy top bottom n)) : h.WidePaired width := by
  apply pairs.rows_moved widths (fun r => if top ≤ r ∧ r ≤ bottom then if top + n ≤ r then some (r - n) else none
    else some r)
  · apply moved.congr
    intro r c _ _
    unfold downBy
    split
    · split <;> rfl
    · rfl
  · intro r src inRow from_
    grind

/-- Blanking keeps the pairs it does not cut: where it begins and ends no spacer stands. -/
theorem WidePaired.erased (pairs : g.WidePaired width) (widths : Widths width) {erased : Nat → Nat → Prop}
    [∀ r c, Decidable (erased r c)] (moved : Rearranges g h (blankedAt erased))
    (whole : ∀ r c, 0 < c → (erased r (c - 1) ↔ erased r c) ∨ ¬g.Spacer r c) : h.WidePaired width := by
  intro r c inRow inCol
  rw [moved.rows] at inRow
  rw [moved.cols] at inCol
  rw [moved.spacer_iff inRow inCol,moved.wide_iff widths inRow (by omega)]
  have here := pairs r c inRow inCol
  unfold blankedAt
  by_cases first : 0 < c
  · rcases whole r c first with same | cut
    · by_cases gone : erased r c
      · simp [gone,same.mpr gone]
      · have kept : ¬erased r (c - 1) := fun before => gone (same.mp before)
        simpa [gone,kept] using here
    · have apart : ¬g.Wide width r (c - 1) := fun wide => cut (here.mpr ⟨first,wide⟩)
      constructor
      · rintro ⟨p,from_,spacer⟩
        split at from_ <;> cases from_
        exact absurd spacer cut
      · rintro ⟨_,p,from_,wide⟩
        split at from_ <;> cases from_
        exact absurd wide apart
  · constructor
    · rintro ⟨p,from_,spacer⟩
      split at from_ <;> cases from_
      exact absurd (here.mp spacer).1 first
    · rintro ⟨positive,_⟩
      exact absurd positive first

/-- Shifting right keeps the pairs unless the cursor stands on a spacer. -/
theorem WidePaired.shifted_right (pairs : g.WidePaired width) (widths : Widths width) {row col n : Nat} (some_ : 0 < n)
    (moved : Rearranges g h (rightBy row col n)) (whole : ¬g.Spacer row col) : h.WidePaired width := by
  intro r c inRow inCol
  rw [moved.rows] at inRow
  rw [moved.cols] at inCol
  rw [moved.spacer_iff inRow inCol,moved.wide_iff widths inRow (by omega)]
  by_cases shifted : r = row ∧ col ≤ c
  · obtain ⟨rfl,after⟩ := shifted
    by_cases taken : col + n ≤ c
    · have here := pairs r (c - n) inRow (by omega)
      have origin : rightBy r col n r c = some (r,c - n) := by simp [rightBy,after,taken]
      by_cases start : c = col + n
      · have blank : rightBy r col n r (c - 1) = none := by
          rw [rightBy,if_pos ⟨rfl,by omega⟩,if_neg (by omega)]
        have place : c - n = col := by omega
        simp [origin,blank,place,whole]
      · have before : rightBy r col n r (c - 1) = some (r,c - n - 1) := by
          rw [rightBy,if_pos ⟨rfl,by omega⟩,if_pos (by omega)]
          congr 2
          omega
        have positive : 0 < c ↔ 0 < c - n := by omega
        simpa [origin,before,positive] using here
    · have origin : rightBy r col n r c = none := by simp [rightBy,after,taken]
      by_cases first : c = col
      · subst first
        have apart : 0 < c → ¬g.Wide width r (c - 1) := fun positive wide =>
          whole ((pairs r c inRow inCol).mpr ⟨positive,wide⟩)
        simp only [origin,reduceCtorEq,false_and,exists_false,false_iff]
        rintro ⟨positive,p,from_,wide⟩
        rw [rightBy,if_neg (by omega)] at from_
        cases from_
        exact apart positive wide
      · have before : rightBy r col n r (c - 1) = none := by
          rw [rightBy,if_pos ⟨rfl,by omega⟩,if_neg (by omega)]
        simp [origin,before]
  · have origin : rightBy row col n r c = some (r,c) := if_neg shifted
    have before : rightBy row col n r (c - 1) = some (r,c - 1) := if_neg (by omega)
    simpa [origin,before] using pairs r c inRow inCol

/-- Shifting left keeps the pairs when the cell that comes to the cursor is a spacer exactly if
the one there was, and no wide glyph is moved away from the right edge. -/
theorem WidePaired.shifted_left (pairs : g.WidePaired width) (widths : Widths width) {row col n : Nat} (some_ : 0 < n)
    (moved : Rearranges g h (leftBy row col g.cols n)) (whole : g.Spacer row (col + n) ↔ g.Spacer row col)
    (edge : col + n < g.cols → ¬g.Wide width row (g.cols - 1)) : h.WidePaired width := by
  intro r c inRow inCol
  rw [moved.rows] at inRow
  rw [moved.cols] at inCol
  rw [moved.spacer_iff inRow inCol,moved.wide_iff widths inRow (by omega)]
  by_cases shifted : r = row ∧ col ≤ c
  · obtain ⟨rfl,after⟩ := shifted
    have origin : leftBy r col g.cols n r c = if c + n < g.cols then some (r,c + n) else none := if_pos ⟨rfl,after⟩
    have left : g.Spacer r (c + n) ↔ ∃ p, leftBy r col g.cols n r c = some p ∧ g.Spacer p.1 p.2 := by
      rw [origin]
      split
      · simp
      · rename_i outside
        simp [not_spacer_outside (fun inside => outside inside.2)]
    rw [← left]
    by_cases first : c = col
    · subst first
      rw [whole,pairs r c inRow inCol]
      apply and_congr_right
      intro positive
      simp [leftBy,show ¬c ≤ c - 1 by omega]
    · have before : leftBy r col g.cols n r (c - 1) = if c - 1 + n < g.cols then some (r,c - 1 + n) else none :=
        if_pos ⟨rfl,by omega⟩
      rw [before]
      by_cases last : c + n < g.cols
      · rw [if_pos (by omega),pairs r (c + n) inRow last]
        have same : c + n - 1 = c - 1 + n := by omega
        simp [same]
        omega
      · have outside := not_spacer_outside (g := g) (r := r) (c := c + n) fun inside => last inside.2
        simp only [outside,false_iff]
        rintro ⟨_,p,from_,wide⟩
        split at from_ <;> cases from_
        -- The cell that ends before the blanks is the last one of the row.
        have end_ : c - 1 + n = g.cols - 1 := by omega
        exact edge (by omega) (end_ ▸ wide)
  · have origin : leftBy row col g.cols n r c = some (r,c) := if_neg shifted
    have before : leftBy row col g.cols n r (c - 1) = some (r,c - 1) := if_neg (by omega)
    simpa [origin,before] using pairs r c inRow inCol

/-- The columns a glyph of this width takes. -/
def span (w : Nat) : Nat := if w = 2 then 2 else 1

/-- The glyph does not fit before the right edge. -/
def Tight (g : Grid) (w : Nat) : Prop := w = 2 ∧ g.cols ≤ g.cursorCol + 1

/-- The glyph is placed on the next line. -/
def Wraps (g : Grid) (w : Nat) : Prop := g.autowrap = true ∧ (g.wrapPending = true ∨ g.Tight w)

/-- The column of the cursor's row that the glyph is placed in otherwise. -/
def placeCol (g : Grid) (w : Nat) : Nat := if w = 2 ∧ g.cols ≤ g.cursorCol + 1 then g.cols - 2 else g.cursorCol

/-- Where the glyph begins and where it ends no pair is cut, and a wide one has two columns. -/
def PrintWhole (g : Grid) (w : Nat) : Prop :=
  w = 0 ∨ (w = 2 → 1 < g.cols) ∧
    (g.Wraps w → g.cursorRow = g.scrollBottom ∨ ¬g.Spacer (g.fedRow g.cursorRow) (span w)) ∧
    (¬g.Wraps w → ¬g.Spacer g.cursorRow (g.placeCol w) ∧ ¬g.Spacer g.cursorRow (g.placeCol w + span w))

instance (g : Grid) (w : Nat) : Decidable (g.Tight w) := by unfold Tight; infer_instance
instance (g : Grid) (w : Nat) : Decidable (g.Wraps w) := by unfold Wraps; infer_instance
instance (g : Grid) (w : Nat) : Decidable (g.PrintWhole w) := by unfold PrintWhole; infer_instance

theorem WidePaired.of_same (pairs : g.WidePaired width) (rows : h.rows = g.rows) (cols : h.cols = g.cols)
    (cells : h.cells = g.cells) : h.WidePaired width := by
  have same : ∀ r c, h.cell r c = g.cell r c := by
    intro r c
    simp only [cell,idx,rows,cols,cells]
  intro r c inRow inCol
  simp only [Spacer,Wide,same]
  exact pairs r c (rows ▸ inRow) (cols ▸ inCol)

/-- The line after a wrap: the next one with its own spacers, or a blank one scrolled in. -/
theorem lineFeed_paired (wf : g.WF) (widths : Widths width) (pairs : g.WidePaired width) (done : g.lineFeed = some h) :
    h.WidePaired width ∧ h.cursorCol = g.cursorCol ∧
      ∀ c, h.Spacer h.cursorRow c → g.cursorRow ≠ g.scrollBottom ∧ g.Spacer (g.fedRow g.cursorRow) c := by
  unfold lineFeed at done
  split at done
  · rename_i last
    obtain ⟨k,scrolled,moved⟩ := scrollUp_rearranges wf 1
    rw [scrolled] at done
    cases done
    refine ⟨pairs.scrolled_up widths wf.bottom moved,by rw [moved.only],fun c spacer => ?_⟩
    have row : h.cursorRow = g.cursorRow := by rw [moved.only]
    rw [row,last] at spacer
    by_cases inCol : c < g.cols
    · obtain ⟨p,from_,_⟩ := (moved.spacer_iff wf.bottom inCol).mp spacer
      rw [upBy,if_pos ⟨wf.top,Nat.le_refl _⟩,if_neg (by omega)] at from_
      cases from_
    · exact absurd spacer (not_spacer_outside fun inside => inCol (by rw [← moved.cols]; exact inside.2))
  · rename_i apart
    split at done
    · rename_i below
      cases done
      refine ⟨pairs.of_same rfl rfl rfl,rfl,fun c spacer => ⟨apart,?_⟩⟩
      rw [fedRow,if_neg apart,if_pos below]
      exact spacer
    · rename_i below
      cases done
      refine ⟨pairs,rfl,fun c spacer => ⟨apart,?_⟩⟩
      rw [fedRow,if_neg apart,if_neg below]
      exact spacer

/-- Where a glyph is about to be placed: its two ends cut no pair, and it has room. -/
structure Ready (width : Char → Nat) (g : Grid) (w : Nat) : Prop where
  wf : g.WF
  pairs : g.WidePaired width
  first : ¬g.Spacer g.cursorRow g.cursorCol
  last : ¬g.Spacer g.cursorRow (g.cursorCol + span w)
  room : w = 2 → g.cursorCol + 1 < g.cols

theorem wrapLine_ready (wf : g.WF) (widths : Widths width) (pairs : g.WidePaired width) {w : Nat}
    (room : w = 2 → 1 < g.cols) (whole : g.cursorRow = g.scrollBottom ∨ ¬g.Spacer (g.fedRow g.cursorRow) (span w))
    (done : g.wrapLine = some h) : h.Ready width w := by
  have hwf := wf.edits (wrapLine_edits wf done)
  have sameCols := (wrapLine_edits wf done).cols
  obtain ⟨k,fed,rfl⟩ := Option.map_eq_some_iff.mp done
  have home : WF { g with cursorCol := 0 } := { wf with col := wf.cols }
  obtain ⟨paired,col,spacers⟩ := lineFeed_paired home widths (pairs.of_same rfl rfl rfl) fed
  have col : k.cursorCol = 0 := col
  refine ⟨hwf,paired.of_same rfl rfl rfl,fun spacer => ?_,fun spacer => ?_,fun two => ?_⟩
  · have spacer : k.Spacer k.cursorRow k.cursorCol := spacer
    rw [col] at spacer
    exact absurd (paired.wide_left spacer).1 (Nat.lt_irrefl 0)
  · have spacer : k.Spacer k.cursorRow (k.cursorCol + span w) := spacer
    rw [col,Nat.zero_add] at spacer
    obtain ⟨apart,old⟩ := spacers (span w) spacer
    rcases whole with scrolled | clear
    · exact apart scrolled
    · exact clear old
  · have room := room two
    simp only at sameCols ⊢
    omega

/-- Wrapping and fitting the glyph lead to where it is placed. -/
theorem ready_of_whole (wf : g.WF) (widths : Widths width) (pairs : g.WidePaired width) {w : Nat} (positive : w ≠ 0)
    (whole : g.PrintWhole w) {k : Grid} (resolved : g.resolveWrap = some h) (fitted : h.fitGlyph w = some k) :
    k.Ready width w := by
  obtain ⟨room,wrapped,stays⟩ := whole.resolve_left positive
  unfold resolveWrap at resolved
  split at resolved
  · rename_i pending
    simp only [Bool.and_eq_true] at pending
    have ready := wrapLine_ready wf widths pairs room (wrapped ⟨pending.2,.inl pending.1⟩) resolved
    rw [fitGlyph,if_neg] at fitted
    · cases fitted
      exact ready
    · rintro ⟨two,tight⟩
      have := ready.room two
      omega
  · rename_i settled
    cases resolved
    simp only [Bool.and_eq_true,not_and] at settled
    unfold fitGlyph at fitted
    split at fitted
    · rename_i tight
      split at fitted
      · rename_i auto
        exact wrapLine_ready wf widths pairs room (wrapped ⟨auto,.inr tight⟩) fitted
      · rename_i manual
        cases fitted
        obtain ⟨first,last⟩ := stays fun both => manual both.1
        rw [placeCol,if_pos tight] at first last
        have wide := room tight.1
        exact ⟨wf.edits (wf.cursor wf.row (show g.cols - 2 < g.cols by omega) false),pairs.of_same rfl rfl rfl,first,last,
          fun _ => by dsimp only; omega⟩
    · rename_i loose
      cases fitted
      obtain ⟨first,last⟩ := stays fun both => both.2.elim (fun pending => settled pending both.1) loose
      rw [placeCol,if_neg loose] at first last
      have inside := wf.col
      exact ⟨wf,pairs,first,last,fun two => by omega⟩

/-- A placed glyph writes its own cells. -/
theorem placeGlyph_cell (wf : g.WF) {c : Char} {w : Nat} (room : w = 2 → g.cursorCol + 1 < g.cols)
    (done : g.placeGlyph c w = some h) {r i : Nat} (inRow : r < g.rows) (inCol : i < g.cols) :
    h.cell r i = if r = g.cursorRow ∧ i = g.cursorCol then { g.pen with ch := c }
      else if w = 2 ∧ r = g.cursorRow ∧ i = g.cursorCol + 1 then { g.pen with ch := spacerChar } else g.cell r i := by
  have redraws := placeGlyph_redraws done
  have shown : h.cell r i = (h.cells[g.idx r i]?).getD .blank := by
    rw [redraws]
    exact if_pos ⟨inRow,inCol⟩
  rw [shown]
  have here := wf.index wf.row wf.col
  have first : g.idx g.cursorRow g.cursorCol = g.idx r i ↔ r = g.cursorRow ∧ i = g.cursorCol := by
    rw [idx_inj wf.col inCol]
    omega
  have old := wf.getElem?_idx inRow inCol
  unfold placeGlyph at done
  dsimp only [Option.bind_eq_bind] at done
  rw [setCell_some here,Option.bind_some] at done
  by_cases two : w = 2
  · have second : g.idx g.cursorRow (g.cursorCol + 1) = g.idx r i ↔ r = g.cursorRow ∧ i = g.cursorCol + 1 := by
      rw [idx_inj (room two) inCol]
      omega
    have next := wf.index wf.row (room two)
    rw [if_pos two,setCell_some (by simpa using next),Option.bind_some] at done
    have cells : h.cells = (g.cells.set (g.idx g.cursorRow g.cursorCol) { g.pen with ch := c }).set
        (g.idx g.cursorRow (g.cursorCol + 1)) { g.pen with ch := spacerChar } := by
      repeat' split at done
      all_goals
        cases done
        rfl
    rw [cells,List.getElem?_set,List.getElem?_set]
    simp only [first,second,List.length_set,here,next,if_true,two,true_and,old]
    split
    · rw [if_neg (by omega)]
      rfl
    · split <;> rfl
  · rw [if_neg two] at done
    have cells : h.cells = g.cells.set (g.idx g.cursorRow g.cursorCol) { g.pen with ch := c } := by
      repeat' split at done
      all_goals
        cases done
        rfl
    rw [cells,List.getElem?_set]
    simp only [first,here,if_true,two,false_and,if_false,old]
    split <;> rfl

theorem Ready.placed (ready : g.Ready width w) (widths : Widths width) {c : Char} (glyph : width c = w) (positive : w ≠ 0)
    (done : g.placeGlyph c w = some h) : h.WidePaired width := by
  obtain ⟨wf,pairs,first,last,room⟩ := ready
  have redraws := placeGlyph_redraws done
  have rows : h.rows = g.rows := by rw [redraws]
  have cols : h.cols = g.cols := by rw [redraws]
  have shown : c ≠ spacerChar := fun same => positive (by rw [← glyph,same,widths.spacer])
  intro r i inRow inCol
  rw [rows] at inRow
  rw [cols] at inCol
  have here : (g.cell r i).ch = spacerChar ↔ 0 < i ∧ width (g.cell r (i - 1)).ch = 2 := pairs r i inRow inCol
  rw [Spacer,Wide,placeGlyph_cell wf room done inRow inCol,placeGlyph_cell wf room done inRow (by omega)]
  by_cases line : r = g.cursorRow
  swap
  · simpa [line] using here
  subst line
  -- Only the glyph's own columns and the one after them see other neighbours.
  rcases (by omega : i < g.cursorCol ∨ i = g.cursorCol ∨ i = g.cursorCol + 1 ∨ i = g.cursorCol + 2 ∨ g.cursorCol + 2 < i)
    with before | rfl | rfl | rfl | after
  · have apart : i ≠ g.cursorCol ∧ i - 1 ≠ g.cursorCol ∧ i ≠ g.cursorCol + 1 ∧ i - 1 ≠ g.cursorCol + 1 := by omega
    simpa [apart] using here
  · have left : ¬(0 < g.cursorCol ∧ g.Wide width g.cursorRow (g.cursorCol - 1)) := fun both => first (here.mpr both)
    simp only [true_and,if_true,shown,false_iff]
    rintro ⟨some_,wide⟩
    rw [if_neg (by omega),if_neg (by omega)] at wide
    exact left ⟨some_,wide⟩
  · by_cases two : w = 2
    · simp [two,glyph]
    · have clear : (g.cell g.cursorRow (g.cursorCol + 1)).ch ≠ spacerChar := by simpa [Spacer,span,two] using last
      simpa [two,glyph] using clear
  · by_cases two : w = 2
    · have clear : (g.cell g.cursorRow (g.cursorCol + 2)).ch ≠ spacerChar := by simpa [Spacer,span,two] using last
      simpa [two,widths.spacer] using clear
    · simpa [two] using here
  · have apart : i ≠ g.cursorCol ∧ i - 1 ≠ g.cursorCol ∧ i ≠ g.cursorCol + 1 ∧ i - 1 ≠ g.cursorCol + 1 := by omega
    simpa [apart] using here

/-- A glyph that cuts no pair leaves all cells paired. -/
theorem putChar_paired (wf : g.WF) (widths : Widths width) (pairs : g.WidePaired width) {c : Char}
    (whole : g.PrintWhole (width c)) (done : g.putChar c (width c) = some h) : h.WidePaired width := by
  unfold putChar at done
  split at done
  · cases done
    exact pairs
  · rename_i positive
    obtain ⟨k,resolved,rest⟩ := Option.bind_eq_some_iff.mp done
    obtain ⟨m,fitted,placed⟩ := Option.bind_eq_some_iff.mp rest
    exact (ready_of_whole wf widths pairs positive whole resolved fitted).placed widths rfl positive placed

/-- A wider screen shows the cell after the old right edge, so no wide glyph may end there. -/
def EdgeWhole (width : Char → Nat) (g : Grid) (rows cols : Nat) : Prop :=
  g.cols < max cols 1 → ∀ r < min g.rows (max rows 1), ¬g.Wide width r (g.cols - 1)

instance (width : Char → Nat) (g : Grid) (rows cols : Nat) : Decidable (g.EdgeWhole width rows cols) := by
  unfold EdgeWhole
  infer_instance

theorem resized_paired (widths : Widths width) (wf : g.WF) (pairs : g.WidePaired width) {rows cols : Nat}
    (whole : g.EdgeWhole width rows cols) (rows' : h.rows = max rows 1) (cols' : h.cols = max cols 1)
    (resized : resizeCells g.cells g.rows g.cols (max rows 1) (max cols 1) = some h.cells) : h.WidePaired width := by
  have cell : ∀ r c, r < h.rows → c < h.cols → h.cell r c = g.cell r c := by
    intro r c inRow inCol
    rw [cell,if_pos ⟨inRow,inCol⟩,idx,cols',getElem?_resizeCells wf.cells resized (rows' ▸ inRow) (cols' ▸ inCol)]
    rfl
  intro r c inRow inCol
  rw [Spacer,Wide,cell r c inRow inCol,cell r (c - 1) inRow (by omega)]
  by_cases inside : r < g.rows ∧ c < g.cols
  · exact pairs r c inside.1 inside.2
  · have none : ¬g.Spacer r c := not_spacer_outside inside
    have apart : 0 < c → ¬g.Wide width r (c - 1) := by
      intro positive
      by_cases edge : r < g.rows ∧ c - 1 < g.cols
      · have last : c - 1 = g.cols - 1 := by omega
        rw [last]
        apply whole <;> omega
      · exact widths.not_wide_outside edge
    exact ⟨fun spacer => absurd spacer none,fun both => absurd both.2 (apart both.1)⟩

/-- The cells are paired, also those of a screen behind the alternate one. -/
structure Aligned (width : Char → Nat) (g : Grid) : Prop where
  wf : g.WF
  pairs : g.WidePaired width
  behind : ∀ saved, g.altSaved = some saved → WidePaired width { g with cells := saved }

/-- Redrawing leaves the screen behind alone. -/
theorem Aligned.redrawn (aligned : g.Aligned width) (redraws : Redraws g h) (wf : h.WF) (pairs : h.WidePaired width) :
    h.Aligned width where
  wf := wf
  pairs := pairs
  behind saved here := by
    rw [redraws] at here ⊢
    exact (aligned.behind saved here).of_same rfl rfl rfl

theorem Aligned.same (aligned : g.Aligned width) (wf : h.WF) (rows : h.rows = g.rows) (cols : h.cols = g.cols)
    (cells : h.cells = g.cells) (altSaved : h.altSaved = g.altSaved) : h.Aligned width where
  wf := wf
  pairs := aligned.pairs.of_same rows cols cells
  behind saved here := (aligned.behind saved (altSaved ▸ here)).of_same rows cols rfl

/-- A control sequence that cuts no pair: erasing begins and ends, and shifting parts cells,
between pairs. -/
def csiWhole (width : Char → Nat) (g : Grid) (params : Params) (action : Char) : Prop :=
  match action with
  | 'J' | 'K' => (argRaw params 0 0 = 0 → ¬g.Spacer g.cursorRow g.cursorCol) ∧
    (argRaw params 0 0 = 1 → ¬g.Spacer g.cursorRow (g.cursorCol + 1))
  | '@' => ¬g.Spacer g.cursorRow g.cursorCol
  | 'P' => (g.Spacer g.cursorRow (g.cursorCol + arg params 0 1) ↔ g.Spacer g.cursorRow g.cursorCol) ∧
    (g.cursorCol + arg params 0 1 < g.cols → ¬g.Wide width g.cursorRow (g.cols - 1))
  | _ => True

instance (width : Char → Nat) (g : Grid) (params : Params) (action : Char) : Decidable (g.csiWhole width params action) := by
  unfold csiWhole
  split <;> infer_instance

/-- The screen behind the alternate one, shown. -/
def behindWhole (width : Char → Nat) (g : Grid) (rows cols : Nat) : Prop :=
  match g.altSaved with
  | some saved => EdgeWhole width { g with cells := saved } rows cols
  | none => True

instance (width : Char → Nat) (g : Grid) (rows cols : Nat) : Decidable (g.behindWhole width rows cols) := by
  unfold behindWhole
  split <;> infer_instance

/-- The call cuts no pair of a wide glyph and its spacer. -/
def Whole (width : Char → Nat) (g : Grid) : Call → Prop
  | .perform (.print c) => g.PrintWhole (width c)
  | .perform (.csi params _ _ action) => g.csiWhole width params action
  | .perform _ => True
  | .resize rows cols => g.EdgeWhole width rows cols ∧ g.behindWhole width rows cols

instance (width : Char → Nat) (g : Grid) : (c : Call) → Decidable (g.Whole width c)
  | .perform (.print c) => inferInstanceAs (Decidable (g.PrintWhole (width c)))
  | .perform (.csi params _ _ action) => inferInstanceAs (Decidable (g.csiWhole width params action))
  | .perform (.execute _) => .isTrue trivial
  | .perform (.esc _ _ _) => .isTrue trivial
  | .resize _ _ => inferInstanceAs (Decidable (_ ∧ _))

theorem lineFeed_aligned (aligned : g.Aligned width) (widths : Widths width) (done : g.lineFeed = some h) : h.Aligned width :=
  aligned.redrawn (lineFeed_redraws done) (aligned.wf.edits (lineFeed_edits aligned.wf done))
    (lineFeed_paired aligned.wf widths aligned.pairs done).1

theorem scrollUp_paired (wf : g.WF) (widths : Widths width) (pairs : g.WidePaired width) {n : Nat}
    (done : g.scrollUp n = some h) : h.WidePaired width := by
  obtain ⟨k,scrolled,moved⟩ := scrollUp_rearranges wf n
  cases scrolled.symm.trans done
  exact pairs.scrolled_up widths wf.bottom moved

theorem scrollDown_paired (wf : g.WF) (widths : Widths width) (pairs : g.WidePaired width) {n : Nat}
    (done : g.scrollDown n = some h) : h.WidePaired width := by
  obtain ⟨k,scrolled,moved⟩ := scrollDown_rearranges wf n
  cases scrolled.symm.trans done
  exact pairs.scrolled_down widths moved

theorem scrollFromCursor_paired (wf : g.WF) (pairs : g.WidePaired width) {scroll : Grid → Nat → Option Grid}
    (scrolls : ∀ (g h : Grid) n, g.WF → g.WidePaired width → scroll g n = some h → h.WidePaired width) {n : Nat}
    (done : scrollFromCursor scroll g n = some h) : h.WidePaired width := by
  unfold scrollFromCursor at done
  split at done
  · cases done
    exact pairs
  · rename_i inside
    obtain ⟨k,scrolled,rfl⟩ := Option.map_eq_some_iff.mp done
    have wf' : WF { g with scrollTop := g.cursorRow } := { wf with top := (by omega : g.cursorRow ≤ g.scrollBottom) }
    exact (scrolls _ _ _ wf' (pairs.of_same rfl rfl rfl) scrolled).of_same rfl rfl rfl

theorem reverseIndex_aligned (aligned : g.Aligned width) (widths : Widths width) (done : g.reverseIndex = some h) :
    h.Aligned width := by
  apply aligned.redrawn (reverseIndex_redraws done) (aligned.wf.edits (reverseIndex_edits aligned.wf done))
  unfold reverseIndex at done
  split at done
  · exact scrollDown_paired aligned.wf widths aligned.pairs done
  · split at done <;> cases done
    · exact aligned.pairs.of_same rfl rfl rfl
    · exact aligned.pairs

/-- In the cursor's row an erased run begins and ends at the cursor. -/
theorem erased_whole {mode : Nat} (whole : (mode = 0 → ¬g.Spacer g.cursorRow g.cursorCol) ∧
      (mode = 1 → ¬g.Spacer g.cursorRow (g.cursorCol + 1))) (r c : Nat) (positive : 0 < c) :
    ((g.inDisplay mode r (c - 1) ↔ g.inDisplay mode r c) ∨ ¬g.Spacer r c) ∧
      ((g.inLine mode r (c - 1) ↔ g.inLine mode r c) ∨ ¬g.Spacer r c) := by
  by_cases start : mode = 0 ∧ r = g.cursorRow ∧ c = g.cursorCol
  · obtain ⟨rfl,rfl,rfl⟩ := start
    exact ⟨.inr (whole.1 rfl),.inr (whole.1 rfl)⟩
  by_cases stop : mode = 1 ∧ r = g.cursorRow ∧ c = g.cursorCol + 1
  · obtain ⟨rfl,rfl,rfl⟩ := stop
    exact ⟨.inr (whole.2 rfl),.inr (whole.2 rfl)⟩
  unfold inDisplay inLine
  constructor
  · left
    split
    · omega
    split
    · omega
    · exact Iff.rfl
  · left
    omega

theorem eraseInDisplay_aligned (aligned : g.Aligned width) (widths : Widths width) {mode : Nat}
    (whole : (mode = 0 → ¬g.Spacer g.cursorRow g.cursorCol) ∧ (mode = 1 → ¬g.Spacer g.cursorRow (g.cursorCol + 1)))
    (done : g.eraseInDisplay mode = some h) : h.Aligned width := by
  have moved := eraseInDisplay_rearranges aligned.wf done
  apply aligned.redrawn (eraseInDisplay_redraws done) moved.wf
  exact aligned.pairs.erased widths moved fun r c positive => (erased_whole whole r c positive).1

theorem eraseInLine_aligned (aligned : g.Aligned width) (widths : Widths width) {mode : Nat}
    (whole : (mode = 0 → ¬g.Spacer g.cursorRow g.cursorCol) ∧ (mode = 1 → ¬g.Spacer g.cursorRow (g.cursorCol + 1)))
    (done : g.eraseInLine mode = some h) : h.Aligned width := by
  have moved := eraseInLine_rearranges aligned.wf done
  apply aligned.redrawn (eraseInLine_redraws done) moved.wf
  exact aligned.pairs.erased widths moved fun r c positive => (erased_whole whole r c positive).2

/-- A blank screen has no pairs to cut. -/
theorem blank_paired (widths : Widths width) (cells : g.cells = List.replicate (g.rows * g.cols) .blank) :
    g.WidePaired width := by
  have cell : ∀ r c, g.cell r c = .blank := by
    intro r c
    rw [cell]
    split
    · rename_i inside
      have place : g.idx r c < g.rows * g.cols := place_lt inside.1 inside.2
      rw [cells,List.getElem?_replicate_of_lt place]
      rfl
    · rfl
  intro r c _ _
  rw [Spacer,Wide,cell,cell]
  have spacer : Cell.blank.ch ≠ spacerChar := by decide
  exact ⟨fun same => absurd same spacer,fun both => absurd both.2 widths.blank⟩

theorem new_aligned (widths : Widths width) (rows cols : Nat) : (new rows cols).Aligned width where
  wf := new_wf rows cols
  pairs := blank_paired widths rfl
  behind := nofun

theorem setPrivateMode_aligned (aligned : g.Aligned width) (widths : Widths width) (mode : Nat) (enable : Bool) :
    (g.setPrivateMode mode enable).Aligned width := by
  have wf := (setPrivateMode_keeps aligned.wf mode enable).wf
  unfold setPrivateMode at wf ⊢
  split
  · exact aligned.same { aligned.wf with } rfl rfl rfl rfl
  split
  · exact aligned.same { aligned.wf with } rfl rfl rfl rfl
  split
  · rename_i first second third
    rw [if_neg first,if_neg second,if_pos third] at wf
    cases enable with
    | true =>
      simp only [if_true] at wf ⊢
      unfold enterAltScreen at wf ⊢
      split
      · exact aligned
      · rename_i hidden
        rw [if_neg hidden] at wf
        refine ⟨wf,blank_paired widths rfl,fun saved here => ?_⟩
        cases here
        exact aligned.pairs.of_same rfl rfl rfl
    | false =>
      simp only [Bool.false_eq_true,if_false] at wf ⊢
      unfold leaveAltScreen at wf ⊢
      split
      · rename_i shown
        rw [if_pos shown] at wf
        split
        · rename_i main saved
          simp only [saved] at wf
          exact ⟨wf,(aligned.behind main saved).of_same rfl rfl rfl,by simp⟩
        · exact aligned.same { aligned.wf with } rfl rfl rfl rfl
      · exact aligned
  · exact aligned

theorem csiDispatch_aligned (aligned : g.Aligned width) (widths : Widths width) {params : Params} {intermediates : Bytes}
    {action : Char} (whole : g.csiWhole width params action) (done : g.csiDispatch params intermediates action = some h) :
    h.Aligned width := by
  have wf := (csiDispatch_keeps aligned.wf done).wf
  have positive : 0 < arg params 0 1 := arg_pos Nat.one_pos
  unfold csiDispatch at done
  dsimp only at done
  split at done
  · cases done; exact aligned.same wf rfl rfl rfl rfl
  · cases done; exact aligned.same wf rfl rfl rfl rfl
  · cases done; exact aligned.same wf rfl rfl rfl rfl
  · cases done; exact aligned.same wf rfl rfl rfl rfl
  · obtain ⟨col,_,eq⟩ := Option.bind_eq_some_iff.mp done
    cases eq; exact aligned.same wf rfl rfl rfl rfl
  · obtain ⟨row,_,eq⟩ := Option.bind_eq_some_iff.mp done
    cases eq; exact aligned.same wf rfl rfl rfl rfl
  · obtain ⟨row,_,rest⟩ := Option.bind_eq_some_iff.mp done
    obtain ⟨col,_,eq⟩ := Option.bind_eq_some_iff.mp rest
    cases eq; exact aligned.same wf rfl rfl rfl rfl
  · obtain ⟨row,_,rest⟩ := Option.bind_eq_some_iff.mp done
    obtain ⟨col,_,eq⟩ := Option.bind_eq_some_iff.mp rest
    cases eq; exact aligned.same wf rfl rfl rfl rfl
  · exact eraseInDisplay_aligned aligned widths whole done
  · exact eraseInLine_aligned aligned widths whole done
  · obtain ⟨k,shifted,moved⟩ := insertBlankChars_rearranges aligned.wf (arg params 0 1)
    cases shifted.symm.trans done
    exact aligned.redrawn (loop_redraws done) wf (aligned.pairs.shifted_right widths positive moved whole)
  · obtain ⟨k,shifted,moved⟩ := deleteChars_rearranges aligned.wf (arg params 0 1)
    cases shifted.symm.trans done
    exact aligned.redrawn (loop_redraws done) wf (aligned.pairs.shifted_left widths positive moved whole.1 whole.2)
  · exact aligned.redrawn (scrollFromCursor_redraws (fun _ _ _ => scrollDown_redraws) done) wf
      (scrollFromCursor_paired aligned.wf aligned.pairs (fun _ _ _ wf pairs => scrollDown_paired wf widths pairs) done)
  · exact aligned.redrawn (scrollFromCursor_redraws (fun _ _ _ => scrollUp_redraws) done) wf
      (scrollFromCursor_paired aligned.wf aligned.pairs (fun _ _ _ wf pairs => scrollUp_paired wf widths pairs) done)
  · exact aligned.redrawn (scrollUp_redraws done) wf (scrollUp_paired aligned.wf widths aligned.pairs done)
  · exact aligned.redrawn (scrollDown_redraws done) wf (scrollDown_paired aligned.wf widths aligned.pairs done)
  · obtain ⟨top,_,rest⟩ := Option.bind_eq_some_iff.mp done
    obtain ⟨bottom,_,region⟩ := Option.bind_eq_some_iff.mp rest
    split at region <;> cases region
    · exact aligned.same wf rfl rfl rfl rfl
    · exact aligned
  · cases done
    unfold setSgr at wf ⊢
    split
    · exact aligned.same { aligned.wf with } rfl rfl rfl rfl
    · exact aligned.same { aligned.wf with } rfl rfl rfl rfl
  · split at done <;> cases done
    · exact setPrivateMode_aligned aligned widths _ _
    · exact aligned
  · split at done <;> cases done
    · exact setPrivateMode_aligned aligned widths _ _
    · exact aligned
  · split at done
    · cases done; exact aligned.same wf rfl rfl rfl rfl
    · split at done <;> cases done
      · exact aligned.same wf rfl rfl rfl rfl
      · exact aligned
  · split at done
    · cases done; exact aligned.same wf rfl rfl rfl rfl
    · split at done <;> cases done
      · exact aligned.same wf rfl rfl rfl rfl
      · exact aligned
  · cases done; exact aligned

theorem execute_aligned (aligned : g.Aligned width) (widths : Widths width) {byte : UInt8} (done : g.execute byte = some h) :
    h.Aligned width := by
  have wf := (execute_keeps aligned.wf done).wf
  unfold execute at done
  split at done
  · exact lineFeed_aligned aligned widths done
  · repeat' split at done
    all_goals
      cases done
      exact aligned.same wf rfl rfl rfl rfl

theorem escDispatch_aligned (aligned : g.Aligned width) (widths : Widths width) {byte : UInt8}
    (done : g.escDispatch byte = some h) : h.Aligned width := by
  have wf := (escDispatch_keeps aligned.wf done).wf
  unfold escDispatch at done
  split at done
  · exact lineFeed_aligned aligned widths done
  split at done
  · exact reverseIndex_aligned aligned widths done
  split at done
  · have home : Aligned width { g with cursorCol := 0 } :=
      aligned.same { aligned.wf with col := aligned.wf.cols } rfl rfl rfl rfl
    exact lineFeed_aligned home widths done
  split at done
  · cases done
    exact aligned.same wf rfl rfl rfl rfl
  split at done
  · split at done <;> cases done
    · exact aligned.same wf rfl rfl rfl rfl
    · exact aligned
  split at done <;> cases done
  · exact new_aligned widths _ _
  · exact aligned

theorem resize_aligned (aligned : g.Aligned width) (widths : Widths width) {rows cols : Nat}
    (whole : g.EdgeWhole width rows cols ∧ g.behindWhole width rows cols) (done : g.resize rows cols = some h) :
    h.Aligned width := by
  have wf := resize_wf done
  unfold resize at done
  obtain ⟨cells,main,rest⟩ := Option.bind_eq_some_iff.mp done
  obtain ⟨altSaved,alt,eq⟩ := Option.bind_eq_some_iff.mp rest
  cases eq
  refine ⟨wf,resized_paired widths aligned.wf aligned.pairs whole.1 rfl rfl main,fun saved here => ?_⟩
  have here : altSaved = some saved := here
  subst here
  unfold resizeSaved at alt
  split at alt
  · rename_i old behind
    obtain ⟨cells',resized,eq⟩ := Option.map_eq_some_iff.mp alt
    cases eq
    have edge := whole.2
    unfold behindWhole at edge
    simp only [behind] at edge
    have parked : WF { g with cells := old } := { aligned.wf with cells := aligned.wf.alt old behind }
    exact resized_paired widths parked (aligned.behind old behind) edge rfl rfl resized
  · cases alt

/-- A call that cuts no pair keeps all cells paired. -/
theorem call_aligned (aligned : g.Aligned width) (widths : Widths width) {c : Call} (whole : g.Whole width c)
    (done : g.call width c = some h) : h.Aligned width := by
  cases c with
  | resize rows cols => exact resize_aligned aligned widths whole done
  | perform action =>
    cases action with
    | print c =>
      exact aligned.redrawn (putChar_redraws done) (aligned.wf.edits (putChar_edits aligned.wf done))
        (putChar_paired aligned.wf widths aligned.pairs whole done)
    | execute byte => exact execute_aligned aligned widths done
    | csi params intermediates ignore action => exact csiDispatch_aligned aligned widths whole done
    | esc intermediates ignore byte => exact escDispatch_aligned aligned widths done

/-- In a run whose calls cut no pair, the cells of every screen reached are paired. -/
theorem wide_pairs_kept (widths : Widths width) (rows cols : Nat) (calls : List Call)
    (run : calls.foldlM (call width) (new rows cols) = some g)
    (whole : Machine.Along (fun g c => (g.call width c).getD g) (Whole width) calls (new rows cols)) :
    g.WidePaired width := by
  have start := new_aligned widths rows cols
  generalize new rows cols = s at start run whole
  induction calls generalizing s with
  | nil =>
    cases run
    exact start.pairs
  | cons c calls ih =>
    rw [List.foldlM_cons] at run
    obtain ⟨next,once,later⟩ := Option.bind_eq_some_iff.mp run
    obtain ⟨here,rest⟩ := whole
    simp only [once,Option.getD_some] at rest
    exact ih next (call_aligned start widths here once) later rest

/-- Ideographs take two columns and the spacer none. -/
def termWidth (c : Char) : Nat := if c = spacerChar then 0 else cjkWidth c

theorem termWidth_widths : Widths termWidth := ⟨by decide,by decide⟩

def ideograph : Char := Char.ofNat 0x4f60

/-- Two ideographs and a letter, the whole line deleted from the left and the screen made narrower. -/
def wholeCalls : List Call := [.perform (.print ideograph),.perform (.print ideograph),.perform (.print 'a'),
  .perform (.execute 0x0d),.perform (.csi [[2]] [] false 'P'),.resize 2 3]

theorem wide_pairs_kept_deleted : ∃ g, wholeCalls.foldlM (call termWidth) (new 2 6) = some g ∧ g.WidePaired termWidth :=
  ⟨_,rfl,wide_pairs_kept termWidth_widths 2 6 wholeCalls rfl (by decide +kernel)⟩

/-- A letter printed over the first column of an ideograph leaves its spacer. -/
theorem wide_pair_cut : ∃ g, [Call.perform (.print ideograph),.perform (.execute 0x0d),.perform (.print 'a')].foldlM
    (call termWidth) (new 1 4) = some g ∧ ¬g.WidePaired termWidth := by
  refine ⟨_,rfl,fun paired => ?_⟩
  have cut := paired 0 1 (by decide) (by decide)
  revert cut
  decide +kernel

end Grid
end Noissh

import Noissh.Checked
import Noissh.Display

/-! What a diff that cannot be read to its end does to the grid, and that no diff harms it: the
cells read so far are written, and every grid written is well formed. -/
namespace Noissh.Diff

/-- The changes at the head of a delta's body, as far as they can be read. -/
def readWrites : Nat → Bytes → List (Nat × Cell)
  | 0, _ => []
  | n + 1, buf =>
    match getVarint buf with
    | .error _ => []
    | .ok (i,rest) =>
      match getCell rest with
      | .error _ => []
      | .ok (cell,rest) => (i,cell) :: readWrites n rest

theorem readCells_length (n : Nat) (buf : Bytes) : (readCells n buf).length ≤ n := by
  induction n generalizing buf with
  | zero => exact Nat.le_refl 0
  | succ n ih =>
    unfold readCells
    split
    · exact Nat.zero_le _
    · exact Nat.succ_le_succ (ih _)

/-- A snapshot's body is written as far as it can be read. -/
theorem applyFull_eq {n i : Nat} {cells : List Cell} (fits : i + n ≤ cells.length) (buf : Bytes) :
    ∃ res, applyFull n i cells buf = some (res,Splice.splice cells i (readCells n buf)) ∧
      (res = .ok () ↔ (readCells n buf).length = n) := by
  induction n generalizing i cells buf with
  | zero => exact ⟨.ok (),by simp [applyFull,readCells,Splice.splice],by simp [readCells]⟩
  | succ n ih =>
    unfold applyFull readCells
    cases getCell buf with
    | error e => exact ⟨.error e,by simp [Splice.splice],by simp⟩
    | ok read =>
      obtain ⟨cell,rest⟩ := read
      have set : Grid.setCell cells i cell = some (cells.set i cell) := if_pos (by omega)
      obtain ⟨res,written,complete⟩ := @ih (i + 1) (cells.set i cell) (by rw [List.length_set]; omega) rest
      refine ⟨res,?_,?_⟩
      · dsimp only
        rw [set,Option.bind_eq_bind,Option.bind_some,written,Splice.splice_set _ _ _ _ (by omega)]
      · rw [complete,List.length_cons,Nat.add_right_cancel_iff]

theorem applyDelta_eq (n : Nat) (cells : List Cell) (buf : Bytes) :
    (applyDelta n cells buf).2 = Splice.overwrite cells (readWrites n buf) ∧
      ((applyDelta n cells buf).1 = .ok () ↔ (readWrites n buf).length = n) := by
  induction n generalizing cells buf with
  | zero => exact ⟨rfl,by simp [applyDelta,readWrites]⟩
  | succ n ih =>
    unfold applyDelta readWrites
    cases getVarint buf with
    | error e => exact ⟨rfl,by simp⟩
    | ok read =>
      obtain ⟨i,rest⟩ := read
      dsimp only
      cases getCell rest with
      | error e => exact ⟨rfl,by simp⟩
      | ok read =>
        obtain ⟨cell,rest'⟩ := read
        have kept : (if i < cells.length then cells.set i cell else cells) = cells.set i cell := by
          split
          · rfl
          · rw [List.set_eq_of_length_le (by omega)]
        dsimp only
        rw [kept]
        obtain ⟨written,complete⟩ := ih (cells.set i cell) rest'
        exact ⟨written,by rw [complete,List.length_cons,Nat.add_right_cancel_iff]⟩

/-- The diff can be read to its end, or is refused before its first cell, or rewrites what is
there already. -/
def Spares (g : Grid) (bytes : Bytes) : Prop :=
  match getHeader bytes with
  | .error _ => True
  | .ok (header,rest) =>
    if header.rows = 0 ∨ header.cols = 0 ∨ maxCells < header.rows * header.cols then True
    else if header.tag = tagFull then
      (readCells (header.rows * header.cols) rest).length = header.rows * header.cols ∨
        g.rows = header.rows ∧ g.cols = header.cols ∧ readCells (header.rows * header.cols) rest <+: g.cells
    else if header.tag = tagDelta ∧ g.rows = header.rows ∧ g.cols = header.cols then
      match getVarint rest with
      | .error _ => True
      | .ok (count,rest) =>
        (readWrites count rest).length = count ∨
          ∀ i cell, Splice.lastWrite (readWrites count rest) i = some cell → i < g.cells.length → g.cells[i]? = some cell
    else True

/-- A failure leaves the grid as it was. -/
def Unchanged (g : Grid) (out : Option (Except DiffError Unit × Grid)) : Prop := ∀ e h, out = some (.error e,h) → h = g

theorem unchanged_refused (g : Grid) (e : DiffError) : Unchanged g (some (.error e,g)) := by
  intro _ h same
  cases same
  rfl

theorem unchanged_finish (g canvas : Grid) (header : Header) (written : Except DiffError Unit × List Cell) :
    Unchanged g (some (finish header canvas written)) ↔ written.1 = .ok () ∨ { canvas with cells := written.2 } = g := by
  obtain ⟨res,cells⟩ := written
  cases res with
  | ok done => exact iff_of_true (fun e h same => nomatch same) (.inl rfl)
  | error e =>
    constructor
    · exact fun unchanged => .inr (unchanged e _ rfl)
    · rintro (done | same) _ h failed
      · cases done
      · cases failed
        exact same

theorem with_cells_eq (g : Grid) (cells : List Cell) : { g with cells } = g ↔ cells = g.cells := by
  constructor
  · exact fun same => congrArg Grid.cells same
  · intro same
    rw [same]

theorem applyDiff_unchanged_iff {g : Grid} (framed : g.Framed) (bytes : Bytes) :
    Unchanged g (applyDiff g bytes) ↔ Spares g bytes := by
  unfold applyDiff Spares
  cases getHeader bytes with
  | error e => exact iff_of_true (unchanged_refused g e) trivial
  | ok read =>
    obtain ⟨header,rest⟩ := read
    dsimp only
    split
    · exact iff_of_true (unchanged_refused g _) trivial
    rename_i accepted
    split
    · split
      · -- Another size: a blank grid takes the place of this one.
        rename_i other
        have cells := (Grid.new_wf header.rows header.cols).cells
        have rows : (Grid.new header.rows header.cols).rows = header.rows := Nat.max_eq_left (by omega)
        have cols : (Grid.new header.rows header.cols).cols = header.cols := Nat.max_eq_left (by omega)
        rw [rows,cols] at cells
        obtain ⟨res,written,complete⟩ := applyFull_eq (Nat.le_of_eq ((Nat.zero_add _).trans cells.symm)) rest
        rw [written,Option.map_some,unchanged_finish,complete]
        refine or_congr_right (iff_of_false ?_ (by omega))
        intro same
        have sameRows := congrArg Grid.rows same
        have sameCols := congrArg Grid.cols same
        dsimp only at sameRows sameCols
        omega
      · rename_i alike
        have size : g.rows = header.rows ∧ g.cols = header.cols := by omega
        have cells := framed.cells
        rw [size.1,size.2] at cells
        obtain ⟨res,written,complete⟩ := applyFull_eq (Nat.le_of_eq ((Nat.zero_add _).trans cells.symm)) rest
        rw [written,Option.map_some,unchanged_finish,complete,with_cells_eq,Splice.splice_eq_self]
        simp only [size,true_and,List.drop_zero]
    · split
      · rename_i tag
        split
        · rename_i other
          rw [if_neg (by omega)]
          exact iff_of_true (unchanged_refused g _) trivial
        · rename_i alike
          rw [if_pos ⟨tag,by omega,by omega⟩]
          cases getVarint rest with
          | error e => exact iff_of_true (unchanged_refused g e) trivial
          | ok read =>
            obtain ⟨count,rest⟩ := read
            obtain ⟨written,complete⟩ := applyDelta_eq count g.cells rest
            dsimp only
            rw [unchanged_finish,complete,with_cells_eq,written,Splice.overwrite_eq_self]
      · rename_i tag
        rw [if_neg (fun both => tag both.1)]
        exact iff_of_true (unchanged_refused g _) trivial

/-- A diff that fails leaves the grid, and the client with it, as they were exactly when it
spares the grid. -/
theorem failed_diff_unchanged (c : ClientShell) (framed : c.grid.Framed) (data : Bytes) :
    (Unchanged c.grid (applyDiff c.grid data) ∧
      ∀ seq base c', c.applyStateDiff seq base data = some (false,c') →
        c'.screen = c.screen ∧ c'.currentSeq = c.currentSeq ∧ c'.overlay = c.overlay) ↔
      Spares c.grid data := by
  rw [← applyDiff_unchanged_iff framed]
  refine ⟨And.left,fun unchanged => ⟨unchanged,?_⟩⟩
  intro seq base c' refused
  unfold ClientShell.applyStateDiff at refused
  split at refused
  · split at refused
    · cases refused
    · rename_i e h failed
      cases refused
      exact ⟨unchanged e h failed,rfl,rfl⟩
    · cases refused
  · cases refused
    exact ⟨rfl,rfl,rfl⟩

theorem failed_diff_unchanged_short :
    let c := ClientShell.new 1 2
    Spares c.grid [tagFull,1,2,0,0,1,0x20,0,0,0] ∧
      (applyDiff c.grid [tagFull,1,2,0,0,1,0x20,0,0,0]).map Prod.fst = some (.error (.wire .unexpectedEof)) ∧
      ∀ seq base c', c.applyStateDiff seq base [tagFull,1,2,0,0,1,0x20,0,0,0] = some (false,c') → c'.screen = c.screen := by
  have spares : Spares (ClientShell.new 1 2).grid [tagFull,1,2,0,0,1,0x20,0,0,0] := .inr ⟨rfl,rfl,⟨[.blank],rfl⟩⟩
  refine ⟨spares,by decide,fun seq base c' refused => ?_⟩
  exact (((failed_diff_unchanged (ClientShell.new 1 2) (Grid.new_wf 1 2).framed _).mpr spares).2 seq base c' refused).1

/-- A snapshot that ends after the first of its two cells. -/
theorem failed_diff_changes :
    let c := ClientShell.new 1 2
    let data : Bytes := [tagFull,1,2,0,0,1,0x61,0,0,0]
    (∃ e h, applyDiff c.grid data = some (.error e,h) ∧ h ≠ c.grid) ∧
      ∃ c', c.applyStateDiff 1 0 data = some (false,c') ∧ c'.screen ≠ c.screen :=
  ⟨⟨_,_,rfl,by decide⟩,⟨_,rfl,by decide⟩⟩

/-- `Grid::new` in 64-bit words. -/
def newChecked (rows cols : Nat) : Option Grid := do
  let rows := max rows 1
  let cols := max cols 1
  let count ← Checked.mul 64 rows cols
  let scrollBottom ← Checked.sub rows 1
  some { rows, cols, cells := List.replicate count .blank, scrollBottom }

def placeChecked (header : Header) (g : Grid) : Option Grid := do
  let lastRow ← Checked.sub header.rows 1
  let lastCol ← Checked.sub header.cols 1
  some { g with
    cursorRow := min header.cursorRow lastRow
    cursorCol := min header.cursorCol lastCol
    cursorVisible := header.cursorVisible }

def finishChecked (header : Header) (g : Grid) (written : Except DiffError Unit × List Cell) :
    Option (Except DiffError Unit × Grid) :=
  match written with
  | (.ok (),cells) => (placeChecked header { g with cells }).map (fun g => (.ok (),g))
  | (.error e,cells) => some (.error e,{ g with cells })

/-- `apply_diff` in 64-bit words: nothing is returned where a product or a difference is out of
range. -/
def applyDiffChecked (g : Grid) (bytes : Bytes) : Option (Except DiffError Unit × Grid) :=
  match getHeader bytes with
  | .error e => some (.error e,g)
  | .ok (header,rest) =>
    -- `checked_mul`, and `is_none_or` of its result.
    if header.rows = 0 ∨ header.cols = 0 ∨
        (Checked.mul 64 header.rows header.cols).all (fun n => decide (maxCells < n)) = true then
      some (.error .badDimensions,g)
    else if header.tag = tagFull then do
      let g ← if g.rows ≠ header.rows ∨ g.cols ≠ header.cols then newChecked header.rows header.cols else some g
      let count ← Checked.mul 64 header.rows header.cols
      let written ← applyFull count 0 g.cells rest
      finishChecked header g written
    else if header.tag = tagDelta then
      if g.rows ≠ header.rows ∨ g.cols ≠ header.cols then some (.error .dimMismatch,g)
      else
        match getVarint rest with
        | .error e => some (.error e,g)
        | .ok (count,rest) => finishChecked header g (applyDelta count g.cells rest)
    else some (.error (.badTag header.tag),g)

/-- The dimensions of a header that is accepted. -/
structure Accepts (header : Header) : Prop where
  rows : 0 < header.rows
  cols : 0 < header.cols
  small : header.rows * header.cols ≤ maxCells

theorem accepts_iff (header : Header) :
    Accepts header ↔ ¬(header.rows = 0 ∨ header.cols = 0 ∨ maxCells < header.rows * header.cols) := by
  constructor
  · intro accepts
    have rows := accepts.rows
    have cols := accepts.cols
    have small := accepts.small
    omega
  · intro kept
    exact ⟨by omega,by omega,by omega⟩

theorem Accepts.product {header : Header} (accepts : Accepts header) :
    Checked.mul 64 header.rows header.cols = some (header.rows * header.cols) :=
  Checked.mul_some (Nat.lt_of_le_of_lt accepts.small (by decide))

theorem Accepts.new {header : Header} (accepts : Accepts header) :
    newChecked header.rows header.cols = some (Grid.new header.rows header.cols) := by
  unfold newChecked
  rw [Nat.max_eq_left accepts.rows,Nat.max_eq_left accepts.cols]
  dsimp only
  rw [accepts.product,Checked.sub_some accepts.rows]
  unfold Grid.new
  rw [Nat.max_eq_left accepts.rows,Nat.max_eq_left accepts.cols]
  rfl

theorem Accepts.finish {header : Header} (accepts : Accepts header) (g : Grid)
    (written : Except DiffError Unit × List Cell) : finishChecked header g written = some (finish header g written) := by
  obtain ⟨res | res,cells⟩ := written
  · rfl
  · unfold finishChecked placeChecked
    rw [Checked.sub_some accepts.rows,Checked.sub_some accepts.cols]
    rfl

theorem Accepts.fill {header : Header} (accepts : Accepts header) (g : Grid) (rest : Bytes) :
    (applyFull (header.rows * header.cols) 0 g.cells rest).bind (finishChecked header g) =
      (applyFull (header.rows * header.cols) 0 g.cells rest).map (Diff.finish header g) := by
  rw [Option.map_eq_bind]
  exact congrArg _ (funext (accepts.finish g))

/-- The product of the dimensions is checked before it is used. -/
theorem refused_iff (header : Header) :
    (header.rows = 0 ∨ header.cols = 0 ∨
      (Checked.mul 64 header.rows header.cols).all (fun n => decide (maxCells < n)) = true) ↔ ¬Accepts header := by
  rw [accepts_iff,not_not]
  refine or_congr_right (or_congr_right ?_)
  unfold Checked.mul
  split
  · simp
  · rename_i wide
    refine iff_of_true rfl (Nat.lt_of_lt_of_le ?_ (Nat.not_lt.mp wide))
    decide

theorem applyDiffChecked_eq (g : Grid) (bytes : Bytes) : applyDiffChecked g bytes = applyDiff g bytes := by
  unfold applyDiffChecked applyDiff
  cases getHeader bytes with
  | error e => rfl
  | ok read =>
    obtain ⟨header,rest⟩ := read
    dsimp only
    by_cases accepts : Accepts header
    · rw [if_neg (fun refused => (refused_iff header).mp refused accepts),if_neg ((accepts_iff header).mp accepts),
        accepts.new,accepts.product]
      refine ite_congr rfl (fun _ => ?_) fun _ => ite_congr rfl (fun _ => ?_) fun _ => rfl
      · split
        · exact accepts.fill _ rest
        · exact accepts.fill g rest
      · refine ite_congr rfl (fun _ => rfl) fun _ => ?_
        cases getVarint rest with
        | error e => rfl
        | ok read => exact accepts.finish g _
    · rw [if_pos ((refused_iff header).mpr accepts),if_pos (not_not.mp (mt (accepts_iff header).mpr accepts))]

/-- A diff is refused, or it fills a grid of its own size as far as it can be read. -/
theorem applyDiff_forms {g : Grid} (framed : g.Framed) (bytes : Bytes) :
    (∃ e, applyDiff g bytes = some (.error e,g)) ∨
      ∃ header canvas written, Accepts header ∧ canvas.Framed ∧ canvas.rows = header.rows ∧ canvas.cols = header.cols ∧
        written.2.length = canvas.cells.length ∧ applyDiff g bytes = some (finish header canvas written) := by
  unfold applyDiff
  cases getHeader bytes with
  | error e => exact .inl ⟨e,rfl⟩
  | ok read =>
    obtain ⟨header,rest⟩ := read
    dsimp only
    split
    · exact .inl ⟨_,rfl⟩
    rename_i kept
    have accepts := (accepts_iff header).mpr kept
    split
    · have sized : (if g.rows ≠ header.rows ∨ g.cols ≠ header.cols then Grid.new header.rows header.cols else g).Framed ∧
          (if g.rows ≠ header.rows ∨ g.cols ≠ header.cols then Grid.new header.rows header.cols else g).rows = header.rows ∧
          (if g.rows ≠ header.rows ∨ g.cols ≠ header.cols then Grid.new header.rows header.cols else g).cols = header.cols := by
        split
        · exact ⟨(Grid.new_wf _ _).framed,Nat.max_eq_left accepts.rows,Nat.max_eq_left accepts.cols⟩
        · exact ⟨framed,by omega,by omega⟩
      generalize (if g.rows ≠ header.rows ∨ g.cols ≠ header.cols then Grid.new header.rows
        header.cols else g) = canvas at sized ⊢
      obtain ⟨whole,rows,cols⟩ := sized
      have cells := whole.cells
      rw [rows,cols] at cells
      have fits : 0 + header.rows * header.cols ≤ canvas.cells.length := Nat.le_of_eq ((Nat.zero_add _).trans cells.symm)
      obtain ⟨res,written,_⟩ := applyFull_eq fits rest
      refine .inr ⟨header,canvas,(res,_),accepts,whole,rows,cols,?_,by rw [written]; rfl⟩
      exact Splice.splice_length _ _ _ (Nat.le_trans (Nat.add_le_add_left (readCells_length _ _) 0) fits)
    · split
      · split
        · exact .inl ⟨_,rfl⟩
        · cases getVarint rest with
          | error e => exact .inl ⟨e,rfl⟩
          | ok read =>
            refine .inr ⟨header,g,_,accepts,framed,by omega,by omega,?_,rfl⟩
            rw [(applyDelta_eq read.1 g.cells read.2).1,Splice.overwrite_length]
      · exact .inl ⟨_,rfl⟩

theorem finish_framed {header : Header} {canvas : Grid} (accepts : Accepts header) (framed : canvas.Framed)
    (rows : canvas.rows = header.rows) (cols : canvas.cols = header.cols) {written : Except DiffError Unit × List Cell}
    (length : written.2.length = canvas.cells.length) : (finish header canvas written).2.Framed := by
  have filled := length.trans framed.cells
  obtain ⟨res | res,cells⟩ := written
  · exact ⟨filled,framed.row,framed.col⟩
  · have row : min header.cursorRow (header.rows - 1) < canvas.rows := by have := accepts.rows; omega
    have col : min header.cursorCol (header.cols - 1) < canvas.cols := by have := accepts.cols; omega
    exact ⟨filled,row,col⟩

theorem finish_size (header : Header) (canvas : Grid) (written : Except DiffError Unit × List Cell) :
    (finish header canvas written).2.rows = canvas.rows ∧ (finish header canvas written).2.cols = canvas.cols := by
  obtain ⟨res | res,cells⟩ := written <;> exact ⟨rfl,rfl⟩

/-- No bytes take the grid out of its frame, nor beyond the larger of the limit and its size. -/
theorem applyDiff_total (g : Grid) (framed : g.Framed) (bytes : Bytes) :
    ∃ res h, applyDiffChecked g bytes = some (res,h) ∧ h.Framed ∧ 1 ≤ h.rows ∧ 1 ≤ h.cols ∧
      h.rows * h.cols ≤ max (2 ^ 20) (g.rows * g.cols) := by
  rw [applyDiffChecked_eq]
  rcases applyDiff_forms framed bytes with ⟨e,refused⟩ | ⟨header,canvas,written,accepts,whole,rows,cols,length,applied⟩
  · exact ⟨_,g,refused,framed,framed.rows,framed.cols,Nat.le_max_right _ _⟩
  · have after := finish_framed accepts whole rows cols length
    obtain ⟨sameRows,sameCols⟩ := finish_size header canvas written
    refine ⟨(finish header canvas written).1,(finish header canvas written).2,applied,after,after.rows,after.cols,?_⟩
    rw [sameRows,sameCols,rows,cols]
    exact Nat.le_trans accepts.small (Nat.le_max_left _ _)

theorem applyDiff_total_short :
    ∃ res h, applyDiffChecked (Grid.new 1 2) [tagFull,2,2,9,9,1,0x61,0,0,0] = some (res,h) ∧ h.Framed ∧ 1 ≤ h.rows ∧
      1 ≤ h.cols ∧ h.rows * h.cols ≤ max (2 ^ 20) 2 :=
  applyDiff_total (Grid.new 1 2) (Grid.new_wf 1 2).framed _

end Noissh.Diff

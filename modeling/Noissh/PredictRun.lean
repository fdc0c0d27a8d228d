import Noissh.GridMoves
import Noissh.PredictSafety

/-! The outstanding guesses as one run of cells with the predicted cursor right behind it. What
is typed extends the run at its end; taking a guess back and adopting a screen of another size
may leave the cursor elsewhere. -/
namespace Noissh

def Prediction.place (q : Prediction) : Nat × Nat := (q.row,q.col)

namespace Predictor

variable {p : Predictor}

/-- The cell after a place, on a screen of this many columns. -/
def next (cols : Nat) (place : Nat × Nat) : Nat × Nat :=
  if place.2 + 1 < cols then (place.1,place.2 + 1) else (place.1 + 1,0)

/-- The place is on the screen. -/
def On (g : Grid) (place : Nat × Nat) : Prop := place.1 < g.rows ∧ place.2 < g.cols

/-- The number of a cell, row by row. -/
def position (cols : Nat) (q : Prediction) : Nat := q.row * cols + q.col

/-- The guesses are on the screen, each further on than the one before, and the predicted cursor
is on the cell after the last. -/
structure InRun (p : Predictor) : Prop where
  inside : ∀ q ∈ p.preds, On p.base q.place
  increasing : p.preds.Pairwise fun q q' => position p.base.cols q < position p.base.cols q'
  cursor : ∀ q, p.preds.getLast? = some q → On p.base p.cursor ∧ p.cursor = next p.base.cols q.place

instance (g : Grid) (place : Nat × Nat) : Decidable (On g place) := inferInstanceAs (Decidable (_ ∧ _))

/-- On the screen cells are numbered along the rows. -/
theorem position_lt_iff {g : Grid} {q q' : Prediction} (on : On g q.place) (on' : On g q'.place) :
    position g.cols q < position g.cols q' ↔ q.row < q'.row ∨ q.row = q'.row ∧ q.col < q'.col := by
  have order : g.idx q'.row q'.col ≤ g.idx q.row q.col ↔ q'.row < q.row ∨ q'.row = q.row ∧ q'.col ≤ q.col :=
    Grid.idx_le on'.2 on.2
  unfold Grid.idx at order
  unfold position
  omega

theorem position_next {cols : Nat} {q : Prediction} (inCol : q.col < cols) {row col : Nat}
    (after : (row,col) = next cols q.place) : row * cols + col = position cols q + 1 := by
  unfold next Prediction.place at after
  unfold position
  dsimp only at after
  split at after <;> cases after
  · omega
  · rw [Nat.succ_mul]
    omega

/-- Every guess lies before the cursor. -/
theorem InRun.before_cursor (run : p.InRun) {q : Prediction} (member : q ∈ p.preds) :
    position p.base.cols q < p.cursor.1 * p.base.cols + p.cursor.2 := by
  obtain ⟨start,last,split⟩ : ∃ start last, p.preds = start ++ [last] :=
    ⟨_,_,(List.dropLast_concat_getLast (List.ne_nil_of_mem member)).symm⟩
  have increasing := run.increasing
  have here := run.cursor last (by simp [split])
  have inside := run.inside last (by simp [split])
  have after : p.cursor.1 * p.base.cols + p.cursor.2 = _ := position_next inside.2 here.2
  rw [split] at member increasing
  rcases List.mem_append.mp member with earlier | final
  · have le := (List.pairwise_append.mp increasing).2.2 q earlier last (by simp)
    omega
  · obtain rfl := List.mem_singleton.mp final
    omega

theorem guessed_cursor (p : Predictor) (atEnd : ¬p.AtEnd) (byte : UInt8) :
    (p.guessed byte).cursor = next p.base.cols p.cursor := by
  obtain ⟨base,preds,⟨r,c⟩,mode,confirmedEcho,glitch⟩ := p
  unfold AtEnd at atEnd
  unfold guessed advanceCursor next
  dsimp only at *
  split
  · rfl
  · rw [if_pos (by omega)]

theorem guessed_run (run : p.InRun) (inside : p.Inside) (atEnd : ¬p.AtEnd) (byte : UInt8) : (p.guessed byte).InRun := by
  have onScreen := guessed_inside inside byte
  have cursor := guessed_cursor p atEnd byte
  refine ⟨fun q member => ?_,?_,fun q last => ?_⟩
  · rw [guessed_preds] at member
    rw [guessed_base]
    rcases List.mem_append.mp member with old | new
    · exact run.inside q old
    · obtain rfl := List.mem_singleton.mp new
      exact ⟨inside.row,inside.col⟩
  · rw [guessed_preds,guessed_base]
    apply List.pairwise_append.mpr
    refine ⟨run.increasing,by simp,fun q old q' new => ?_⟩
    obtain rfl := List.mem_singleton.mp new
    exact run.before_cursor old
  · rw [guessed_preds,List.getLast?_concat,Option.some.injEq] at last
    subst last
    refine ⟨⟨onScreen.row,onScreen.col⟩,?_⟩
    rw [cursor,guessed_base]
    rfl

/-- The last guess is on the cell after the one before it. -/
def Adjacent (p : Predictor) : Prop :=
  match p.preds.reverse with
  | last :: prev :: _ => last.place = next p.base.cols prev.place
  | _ => True

instance (p : Predictor) : Decidable p.Adjacent := by
  unfold Adjacent
  split <;> infer_instance

/-- Stepping back from the cell after a place leads to it. -/
theorem retreat_next {q : Prediction} (inside : On p.base q.place) (cursor : p.cursor = next p.base.cols q.place) :
    p.retreatCursor = q.place := by
  obtain ⟨row,col,ch⟩ := q
  unfold next at cursor
  unfold retreatCursor
  rw [cursor]
  unfold On Prediction.place at *
  dsimp only at *
  split
  · rw [if_pos (Nat.succ_pos col)]
    rfl
  · rw [if_neg (Nat.lt_irrefl 0),if_pos (Nat.succ_pos row)]
    refine Prod.ext rfl ?_
    dsimp only
    omega

/-- Taking back a guess keeps the run exactly when the one before it is its neighbour. -/
theorem retreat_run_iff (run : p.InRun) (some_ : p.preds ≠ []) :
    InRun { p with preds := p.preds.dropLast, cursor := p.retreatCursor } ↔ p.Adjacent := by
  obtain ⟨start,last,split⟩ : ∃ start last, p.preds = start ++ [last] :=
    ⟨_,_,(List.dropLast_concat_getLast some_).symm⟩
  have inside := run.inside
  have increasing := run.increasing
  have onLast := inside last (by simp [split])
  have back := retreat_next onLast (run.cursor last (by simp [split])).2
  rw [back]
  rw [split] at inside increasing
  rw [split,List.dropLast_concat]
  have kept : ∀ q ∈ start, On p.base q.place := fun q member => inside q (by simp [member])
  have sorted := (List.pairwise_append.mp increasing).1
  have reversed : p.preds.reverse = last :: start.reverse := by simp [split]
  unfold Adjacent
  rw [reversed]
  constructor
  · intro after
    cases ending : start.reverse with
    | nil => trivial
    | cons prev rest =>
      have final : start.getLast? = some prev := by rw [List.getLast?_eq_head?_reverse,ending]; rfl
      exact (after.cursor prev final).2
  · intro adjacent
    refine ⟨kept,sorted,fun q final => ?_⟩
    rw [List.getLast?_eq_head?_reverse] at final
    obtain ⟨rest,ending⟩ : ∃ rest, start.reverse = q :: rest := by
      cases ending : start.reverse with
      | nil => rw [ending] at final; cases final
      | cons first rest => rw [ending] at final; cases final; exact ⟨rest,rfl⟩
    rw [ending] at adjacent
    exact ⟨onLast,adjacent⟩

/-- What is typed is not a backspace between two guesses that are apart. -/
def Steps (p : Predictor) (byte : UInt8) : Prop := Erases byte → p.Adjacent

instance (p : Predictor) (byte : UInt8) : Decidable (p.Steps byte) := inferInstanceAs (Decidable (_ → _))

theorem empty_run (empty : p.preds = []) : p.InRun := by
  constructor <;> simp [empty]

theorem predictByte_run_iff (run : p.InRun) (inside : p.Inside) (byte : UInt8) : (p.predictByte byte).InRun ↔ p.Steps byte := by
  by_cases erases : Erases byte
  · rw [predictByte_erases erases]
    split
    · rename_i empty
      have empty := List.isEmpty_iff.mp empty
      exact iff_of_true run fun _ => by simp [Adjacent,empty]
    · rename_i some_
      rw [retreat_run_iff run (by rwa [List.isEmpty_iff] at some_)]
      exact ⟨fun adjacent _ => adjacent,fun steps => steps erases⟩
  · refine iff_of_true ?_ fun erased => absurd erased erases
    rcases predictByte_cases p byte with same | gone | ⟨_,atEnd,guess⟩ | ⟨erased,_⟩
    · rwa [same.1]
    · rw [gone]
      exact empty_run rfl
    · rw [guess]
      exact guessed_run run inside atEnd byte
    · exact absurd erased erases

/-- Some guess is still open on the new screen: none that it has passed was wrong, and one that
it has not passed lies on it. -/
def Survives (p : Predictor) (g : Grid) : Prop :=
  (∀ q ∈ p.preds, reached g q = true → (g.cell q.row q.col).ch = q.ch) ∧
    ∃ q ∈ p.preds, reached g q = false ∧ On g q.place

/-- The last guess and the predicted cursor lie on the new screen, and there too the cursor is on
the cell after the guess. -/
def Anchored (p : Predictor) (g : Grid) : Prop :=
  ∀ q ∈ p.preds.getLast?, On g q.place ∧ On g p.cursor ∧ p.cursor = next g.cols q.place

instance (p : Predictor) (g : Grid) : Decidable (p.Survives g) := inferInstanceAs (Decidable (_ ∧ _))

instance (p : Predictor) (g : Grid) : Decidable (p.Anchored g) := by
  unfold Anchored
  cases p.preds.getLast? with
  | none => exact .isTrue nofun
  | some q => exact decidable_of_iff (On g q.place ∧ On g p.cursor ∧ p.cursor = next g.cols q.place) (by simp)

/-- What a call does to the run of guesses. -/
def StepsAll (p : Predictor) : Call → Prop
  | .input bytes => Machine.Along predictByte Steps bytes p
  | .reconcile screen => p.Survives screen.grid → p.Anchored screen.grid

instance (p : Predictor) : (c : Call) → Decidable (p.StepsAll c)
  | .input bytes => inferInstanceAs (Decidable (Machine.Along predictByte Steps bytes p))
  | .reconcile _ => inferInstanceAs (Decidable (_ → _))

/-- The guesses kept, if none was wrong. -/
theorem reconcile_preds (p : Predictor) (g : Grid) :
    (p.reconcile g).preds = if (p.preds.filter (reached g)).any (fun q => !((g.cell q.row q.col).ch == q.ch)) then []
      else (p.preds.filter fun q => !reached g q).filter fun q => decide (q.row < g.rows) && decide (q.col < g.cols) := by
  unfold reconcile
  dsimp only
  split <;> rfl

theorem mem_reconcile_preds {g : Grid} {q : Prediction} (member : q ∈ (p.reconcile g).preds) :
    q ∈ p.preds ∧ On g q.place ∧ p.Survives g := by
  rw [reconcile_preds] at member
  split at member
  · cases member
  · rename_i right
    simp only [List.mem_filter,Bool.not_eq_true',Bool.and_eq_true,decide_eq_true_eq] at member
    obtain ⟨⟨old,ahead⟩,on⟩ := member
    refine ⟨old,on,fun q member passed => ?_,q,old,ahead,on⟩
    by_contra wrong
    apply right
    rw [List.any_eq_true]
    exact ⟨q,List.mem_filter.mpr ⟨member,passed⟩,by simpa using wrong⟩

/-- Guesses further on than one that is still open are open. -/
theorem reached_mono {g : Grid} {q q' : Prediction} (le : q.row < q'.row ∨ q.row = q'.row ∧ q.col ≤ q'.col)
    (passed : reached g q' = true) : reached g q = true := by
  unfold reached at *
  simp only [Bool.or_eq_true,decide_eq_true_eq,Bool.and_eq_true,beq_iff_eq] at *
  omega

theorem reconcile_run (run : p.InRun) (screen : Screen) (steps : p.Survives screen.grid → p.Anchored screen.grid) :
    (p.reconcile screen.grid).InRun := by
  have base : (p.reconcile screen.grid).base = screen.grid := rfl
  have sublist : (p.reconcile screen.grid).preds.Sublist p.preds := by
    rw [reconcile_preds]
    split
    · exact List.nil_sublist _
    · exact List.filter_sublist.trans List.filter_sublist
  refine ⟨fun q member => (mem_reconcile_preds member).2.1,?_,fun q last => ?_⟩
  · have increasing := run.increasing.sublist sublist
    refine increasing.imp_of_mem fun {q q'} member member' lt => ?_
    obtain ⟨old,on,_⟩ := mem_reconcile_preds member
    obtain ⟨old',on',_⟩ := mem_reconcile_preds member'
    rw [base,position_lt_iff on on']
    exact (position_lt_iff (run.inside q old) (run.inside q' old')).mp lt
  · have member := List.mem_of_getLast? last
    obtain ⟨old,_,survives⟩ := mem_reconcile_preds member
    obtain ⟨start,final,split⟩ : ∃ start final, p.preds = start ++ [final] :=
      ⟨_,_,(List.dropLast_concat_getLast (List.ne_nil_of_mem old)).symm⟩
    obtain ⟨on,cursorOn,cursor⟩ := steps survives final (by simp [split])
    -- The last guess is open as some guess before it is, so it is the last one kept.
    have ahead : reached screen.grid final = false := by
      obtain ⟨_,q₀,member₀,ahead₀,_⟩ := survives
      by_contra passed
      have passed : reached screen.grid final = true := by simpa using passed
      have le : q₀.row < final.row ∨ q₀.row = final.row ∧ q₀.col ≤ final.col := by
        have inside := run.inside q₀ member₀
        have increasing := run.increasing
        rw [split] at member₀ increasing
        rcases List.mem_append.mp member₀ with earlier | here
        · have lt := (List.pairwise_append.mp increasing).2.2 q₀ earlier final (by simp)
          have := (position_lt_iff inside (run.inside final (by simp [split]))).mp lt
          omega
        · obtain rfl := List.mem_singleton.mp here
          omega
      rw [reached_mono le passed] at ahead₀
      cases ahead₀
    have kept : q = final := by
      rw [reconcile_preds,split] at last
      split at last
      · cases last
      · rw [List.filter_append,List.filter_append] at last
        simpa [List.filter_cons,ahead,on.1,on.2,show final.row < screen.grid.rows from on.1,
          show final.col < screen.grid.cols from on.2] using last.symm
    subst kept
    have some_ : (p.reconcile screen.grid).preds.isEmpty = false := by
      rw [List.isEmpty_eq_false_iff_exists_mem]
      exact ⟨q,member⟩
    rw [reconcile_cursor,some_,base]
    simp only [Bool.false_eq_true,if_false]
    have row : min p.cursor.1 (screen.grid.rows - 1) = p.cursor.1 := by have := cursorOn.1; omega
    have col : min p.cursor.2 (screen.grid.cols - 1) = p.cursor.2 := by have := cursorOn.2; omega
    rw [row,col]
    exact ⟨cursorOn,cursor⟩

theorem call_run (run : p.InRun) (inside : p.Inside) {c : Call} (steps : p.StepsAll c) : (p.call c).InRun := by
  cases c with
  | input bytes =>
    rw [call,predictInput_eq_run]
    have both := Machine.run_invariant (fun q => q.InRun ∧ q.Inside)
      (fun q byte both steps => ⟨(predictByte_run_iff both.1 both.2 byte).mpr steps,predictByte_inside both.2 byte⟩)
      bytes p ⟨run,inside⟩ steps
    exact both.1
  | reconcile screen => exact reconcile_run run screen steps

/-- While backspaces meet neighbours and new screens keep the last guess and the cursor behind
it, the guesses are one run; and the next byte keeps them so exactly when it is such a step. -/
theorem predictions_run (mode : DisplayMode) (base : Screen) (calls : List Call)
    (steps : Machine.Along call StepsAll calls ((new base.grid).setMode mode)) :
    let p := Machine.run call calls ((new base.grid).setMode mode)
    p.InRun ∧ ∀ byte, (p.predictInput [byte]).InRun ↔ p.Steps byte := by
  intro p
  have both : p.InRun ∧ p.Inside := Machine.run_invariant (fun q => q.InRun ∧ q.Inside)
    (fun q c both steps => ⟨call_run both.1 both.2 steps,call_inside both.2 c⟩) calls _
    ⟨empty_run rfl,start_inside mode base⟩ steps
  exact ⟨both.1,fun byte => predictByte_run_iff both.1 both.2 byte⟩

/-- A blank screen with the cursor in its first cell. -/
def blankScreen (rows cols : Nat) : Screen where
  grid := Grid.new rows cols
  framed := (Grid.new_wf rows cols).framed

theorem predictions_run_wider :
    let p := Machine.run call [.input [0x61,0x62,0x63,0x7f],.reconcile (blankScreen 2 6)]
      ((new (blankScreen 2 4).grid).setMode .always)
    p.outstanding = 2 ∧ p.InRun :=
  ⟨by decide,(predictions_run .always (blankScreen 2 4) [.input [0x61,0x62,0x63,0x7f],.reconcile (blankScreen 2 6)]
    (by decide)).1⟩

/-- A screen two columns narrower takes the third guess and leaves the cursor on the second,
where the next key is guessed as well. -/
theorem predictions_stacked :
    let p := Machine.run call [.input [0x61,0x62,0x63],.reconcile (blankScreen 2 2),.input [0x64]]
      ((new (blankScreen 2 4).grid).setMode .always)
    ¬p.InRun := by
  intro p run
  have increasing := run.increasing
  revert increasing
  decide

end Predictor
end Noissh

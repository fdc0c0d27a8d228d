import Noissh.DiffSpec
import Noissh.Machine
import Noissh.Predict

/-! Runs of the predictor: keys typed and screens adopted in any order. A guess that is gone
leaves the authoritative screen behind, and what is typed at a prompt that echoes nothing is
not shown. -/
namespace Noissh.Predictor

/-- A screen as the terminal and the diffs hand it on. -/
structure Screen where
  grid : Grid
  framed : grid.Framed

inductive Call where
  | input (bytes : Bytes)
  | reconcile (screen : Screen)

def call (p : Predictor) : Call → Predictor
  | .input bytes => p.predictInput bytes
  | .reconcile screen => p.reconcile screen.grid

def Printable (byte : UInt8) : Prop := 0x20 ≤ byte ∧ byte ≤ 0x7e

/-- Carriage return or line feed. -/
def Enters (byte : UInt8) : Prop := byte = 0x0d ∨ byte = 0x0a

/-- Backspace or DEL. -/
def Erases (byte : UInt8) : Prop := byte = 0x08 ∨ byte = 0x7f

/-- The predicted cursor is in the last cell. -/
def AtEnd (p : Predictor) : Prop := p.base.cols ≤ p.cursor.2 + 1 ∧ p.base.rows ≤ p.cursor.1 + 1

instance (byte : UInt8) : Decidable (Printable byte) := inferInstanceAs (Decidable (_ ∧ _))

instance (byte : UInt8) : Decidable (Enters byte) := inferInstanceAs (Decidable (_ ∨ _))

instance (byte : UInt8) : Decidable (Erases byte) := inferInstanceAs (Decidable (_ ∨ _))

instance (p : Predictor) : Decidable p.AtEnd := inferInstanceAs (Decidable (_ ∧ _))

/-- The predictor with one more guess, at the cursor. -/
def guessed (p : Predictor) (byte : UInt8) : Predictor :=
  (advanceCursor { p with preds := p.preds ++ [⟨p.cursor.1,p.cursor.2,Char.ofNat byte.toNat⟩] }).2

section Bytes

variable {p : Predictor} {byte : UInt8}

theorem predictByte_printable (printable : Printable byte) : p.predictByte byte = if p.AtEnd then p else p.guessed byte := by
  unfold predictByte
  rw [if_pos (show 0x20 ≤ byte ∧ byte ≤ 0x7e from printable)]
  rfl

theorem Enters.not_printable (enters : Enters byte) : ¬Printable byte := by
  rcases enters with rfl | rfl <;> decide

theorem Erases.not_printable (erases : Erases byte) : ¬Printable byte ∧ ¬Enters byte := by
  rcases erases with rfl | rfl <;> decide

theorem predictByte_erases (erases : Erases byte) :
    p.predictByte byte = if p.preds.isEmpty then p else { p with preds := p.preds.dropLast, cursor := p.retreatCursor } := by
  obtain ⟨printable,enters⟩ := erases.not_printable
  unfold predictByte
  rw [if_neg (show ¬(0x20 ≤ byte ∧ byte ≤ 0x7e) from printable),if_neg (show ¬(byte = 0x0d ∨ byte = 0x0a) from enters),
    if_pos (show byte = 0x08 ∨ byte = 0x7f from erases)]

/-- Enter and the keys that are not predicted. -/
theorem predictByte_other (printable : ¬Printable byte) (erases : ¬Erases byte) : p.predictByte byte = p.abandon := by
  unfold predictByte
  rw [if_neg (show ¬(0x20 ≤ byte ∧ byte ≤ 0x7e) from printable)]
  split
  · rfl
  · rw [if_neg (show ¬(byte = 0x08 ∨ byte = 0x7f) from erases)]

/-- What a byte does. -/
theorem predictByte_cases (p : Predictor) (byte : UInt8) :
    p.predictByte byte = p ∧ ¬Enters byte ∨ p.predictByte byte = p.abandon ∨
      Printable byte ∧ ¬p.AtEnd ∧ p.predictByte byte = p.guessed byte ∨
      Erases byte ∧ p.preds ≠ [] ∧
        p.predictByte byte = { p with preds := p.preds.dropLast, cursor := p.retreatCursor } := by
  by_cases printable : Printable byte
  · rw [predictByte_printable printable]
    by_cases atEnd : p.AtEnd
    · exact .inl ⟨if_pos atEnd,fun enters => enters.not_printable printable⟩
    · exact .inr (.inr (.inl ⟨printable,atEnd,if_neg atEnd⟩))
  by_cases erases : Erases byte
  · rw [predictByte_erases erases]
    by_cases none : p.preds = []
    · exact .inl ⟨if_pos (by rw [none]; rfl),erases.not_printable.2⟩
    · exact .inr (.inr (.inr ⟨erases,none,if_neg (by rwa [List.isEmpty_iff])⟩))
  · exact .inr (.inl (predictByte_other printable erases))

end Bytes

section Fields

variable (p : Predictor) (byte : UInt8)

theorem guessed_preds : (p.guessed byte).preds = p.preds ++ [⟨p.cursor.1,p.cursor.2,Char.ofNat byte.toNat⟩] := by
  unfold guessed advanceCursor
  split
  split
  · rfl
  · split <;> rfl

theorem guessed_base : (p.guessed byte).base = p.base := by
  unfold guessed advanceCursor
  split
  split
  · rfl
  · split <;> rfl

theorem guessed_displaying : (p.guessed byte).displaying = p.displaying := by
  unfold guessed advanceCursor
  split
  split
  · rfl
  · split <;> rfl

@[simp] theorem predictByte_base : (p.predictByte byte).base = p.base := by
  rcases predictByte_cases p byte with same | gone | ⟨_,_,guess⟩ | ⟨_,_,back⟩
  · rw [same.1]
  · rw [gone,abandon]
  · rw [guess,guessed_base]
  · rw [back]

/-- Whether guesses are shown is decided by the screens alone. -/
@[simp] theorem predictByte_displaying : (p.predictByte byte).displaying = p.displaying := by
  rcases predictByte_cases p byte with same | gone | ⟨_,_,guess⟩ | ⟨_,_,back⟩
  · rw [same.1]
  · rw [gone]; rfl
  · rw [guess,guessed_displaying]
  · rw [back]; rfl

@[simp] theorem predictInput_base (bytes : Bytes) : (p.predictInput bytes).base = p.base := by
  unfold predictInput
  induction bytes generalizing p with
  | nil => rfl
  | cons byte rest ih => rw [List.foldl_cons,ih,predictByte_base]

theorem predictInput_eq_run (bytes : Bytes) : p.predictInput bytes = Machine.run predictByte bytes p := by
  unfold predictInput
  induction bytes generalizing p with
  | nil => rfl
  | cons byte rest ih => exact ih _

end Fields

/-- The screen is well formed and the predicted cursor is on it. -/
structure Inside (p : Predictor) : Prop where
  framed : p.base.Framed
  row : p.cursor.1 < p.base.rows
  col : p.cursor.2 < p.base.cols

/-- With no guess left the overlay is the screen `g`. -/
def Vanished (g : Grid) (p : Predictor) : Prop :=
  p.outstanding = 0 → ∃ shown, p.overlay = some shown ∧ shown.renderEq g = true

instance (g : Grid) (p : Predictor) : Decidable (Vanished g p) :=
  decidable_of_iff (p.outstanding = 0 → p.overlay.any (fun shown => shown.renderEq g) = true) (by
    unfold Vanished
    rw [Option.any_eq_true])

/-- With no guess left to show the cursor is the authoritative one. -/
def Restored (p : Predictor) : Prop :=
  p.displaying = true → p.preds = [] → p.cursor = (p.base.cursorRow,p.base.cursorCol)

/-- A backspace that takes the only guess shown finds the predicted cursor one cell past the
authoritative one. -/
def Undoes (p : Predictor) (byte : UInt8) : Prop :=
  Erases byte → p.displaying = true → p.outstanding = 1 → p.retreatCursor = (p.base.cursorRow,p.base.cursorCol)

instance (p : Predictor) (byte : UInt8) : Decidable (p.Undoes byte) :=
  inferInstanceAs (Decidable (_ → _ → _ → _ = _))

def UndoesAll (p : Predictor) : Call → Prop
  | .input bytes => Machine.Along predictByte Undoes bytes p
  | .reconcile _ => True

instance (p : Predictor) : (c : Call) → Decidable (p.UndoesAll c)
  | .input bytes => inferInstanceAs (Decidable (Machine.Along predictByte Undoes bytes p))
  | .reconcile _ => inferInstanceAs (Decidable True)

/-- The last screen adopted. -/
def latest (base : Grid) : List Call → Grid
  | [] => base
  | .input _ :: rest => latest base rest
  | .reconcile screen :: rest => latest screen.grid rest

theorem run_base (calls : List Call) (p : Predictor) : (Machine.run call calls p).base = latest p.base calls := by
  induction calls generalizing p with
  | nil => rfl
  | cons c rest ih =>
    cases c with
    | input bytes => rw [Machine.run_cons,ih,call,predictInput_base,latest]
    | reconcile screen => rw [Machine.run_cons,ih,latest]; rfl

theorem overlay_hidden {p : Predictor} (hidden : p.displaying = false) : p.overlay = some p.base := by
  unfold overlay
  rw [hidden]
  rfl

theorem overlay_empty {p : Predictor} (shows : p.displaying = true) (empty : p.preds = []) :
    p.overlay = some { p.base with
      cursorRow := min p.cursor.1 (p.base.rows - 1), cursorCol := min p.cursor.2 (p.base.cols - 1) } := by
  unfold overlay
  rw [if_pos shows,empty]
  rfl

theorem vanished_iff {p : Predictor} (inside : p.Inside) : Vanished p.base p ↔ Restored p := by
  have row := inside.row
  have col := inside.col
  cases shows : p.displaying with
  | false =>
    refine iff_of_true (fun _ => ⟨p.base,overlay_hidden shows,?_⟩) ?_
    · rw [Grid.renderEq_iff]
    · intro shown
      rw [shows] at shown
      contradiction
  | true =>
    unfold Vanished Restored outstanding
    rw [List.length_eq_zero_iff]
    constructor
    · intro vanished _ empty
      obtain ⟨shown,painted,same⟩ := vanished empty
      rw [overlay_empty shows empty,Option.some.injEq] at painted
      subst shown
      simp only [Grid.renderEq,Bool.and_eq_true,beq_iff_eq] at same
      refine Prod.ext ?_ ?_
      · show p.cursor.1 = p.base.cursorRow
        omega
      · show p.cursor.2 = p.base.cursorCol
        omega
    · intro restored empty
      refine ⟨_,overlay_empty shows empty,?_⟩
      have cursor := restored shows empty
      rw [cursor] at row col ⊢
      dsimp only at row col
      rw [Nat.min_eq_left (by omega),Nat.min_eq_left (by omega),Grid.renderEq_iff]

theorem guessed_inside {p : Predictor} (inside : p.Inside) (byte : UInt8) : (p.guessed byte).Inside := by
  refine ⟨by rw [guessed_base]; exact inside.framed,?_,?_⟩ <;>
    have rows := inside.framed.rows <;> have cols := inside.framed.cols <;>
    have row := inside.row <;> have col := inside.col <;>
    rw [guessed_base] <;> unfold guessed advanceCursor <;> dsimp only <;>
    split <;> first | assumption | (split <;> assumption)

theorem retreat_inside {p : Predictor} (inside : p.Inside) :
    Inside { p with preds := p.preds.dropLast, cursor := p.retreatCursor } := by
  have row := inside.row
  have col := inside.col
  unfold retreatCursor
  dsimp only
  split
  · exact ⟨inside.framed,row,Nat.lt_of_le_of_lt (Nat.sub_le _ 1) col⟩
  · split
    · exact ⟨inside.framed,Nat.lt_of_le_of_lt (Nat.sub_le _ 1) row,Nat.sub_lt inside.framed.cols Nat.one_pos⟩
    · exact ⟨inside.framed,row,col⟩

theorem abandon_inside {p : Predictor} (inside : p.Inside) : p.abandon.Inside :=
  ⟨inside.framed,inside.framed.row,inside.framed.col⟩

theorem predictByte_inside {p : Predictor} (inside : p.Inside) (byte : UInt8) : (p.predictByte byte).Inside := by
  rcases predictByte_cases p byte with same | gone | ⟨_,_,guess⟩ | ⟨_,_,back⟩
  · rwa [same.1]
  · rw [gone]; exact abandon_inside inside
  · rw [guess]; exact guessed_inside inside byte
  · rw [back]; exact retreat_inside inside

theorem predictInput_inside {p : Predictor} (inside : p.Inside) (bytes : Bytes) : (p.predictInput bytes).Inside := by
  rw [predictInput_eq_run]
  exact Machine.run_invariant_always Inside (fun _ byte inside => predictByte_inside inside byte) bytes p inside

theorem reconcile_cursor (p : Predictor) (g : Grid) :
    (p.reconcile g).cursor = if (p.reconcile g).preds.isEmpty then (g.cursorRow,g.cursorCol)
      else (min p.cursor.1 (g.rows - 1),min p.cursor.2 (g.cols - 1)) := rfl

theorem reconcile_inside {p : Predictor} (screen : Screen) : (p.reconcile screen.grid).Inside := by
  have framed := screen.framed
  have row : min p.cursor.1 (screen.grid.rows - 1) < screen.grid.rows := by have := framed.rows; omega
  have col : min p.cursor.2 (screen.grid.cols - 1) < screen.grid.cols := by have := framed.cols; omega
  refine ⟨framed,?_,?_⟩ <;> rw [reconcile_cursor] <;> split
  · exact framed.row
  · exact row
  · exact framed.col
  · exact col

theorem call_inside {p : Predictor} (inside : p.Inside) (c : Call) : (p.call c).Inside := by
  cases c with
  | input bytes => exact predictInput_inside inside bytes
  | reconcile screen => exact reconcile_inside screen

/-- One byte keeps the cursor restored exactly when it undoes no more than the guess. -/
theorem predictByte_restored {p : Predictor} (restored : p.Restored) (byte : UInt8) :
    (p.predictByte byte).Restored ↔ p.Undoes byte := by
  by_cases erases : Erases byte
  · rw [predictByte_erases erases]
    split
    · rename_i empty
      refine iff_of_true restored ?_
      intro _ _ one
      rw [outstanding,List.isEmpty_iff.mp empty] at one
      contradiction
    · rename_i some
      have one : p.preds.dropLast = [] ↔ p.preds.length = 1 := by
        rw [← List.length_eq_zero_iff,List.length_dropLast]
        have := List.length_pos_iff.mpr (mt List.isEmpty_iff.mpr some)
        omega
      constructor
      · intro after _ shows single
        exact after shows (one.mpr single)
      · intro undoes shows single
        exact undoes erases shows (one.mp single)
  · refine iff_of_true ?_ (fun erased => absurd erased erases)
    rcases predictByte_cases p byte with same | gone | ⟨_,_,guess⟩ | ⟨erased,_⟩
    · rwa [same.1]
    · rw [gone]; exact fun _ _ => rfl
    · rw [guess]
      intro _ empty
      rw [guessed_preds] at empty
      exact absurd empty (by simp)
    · exact absurd erased erases

theorem reconcile_restored (p : Predictor) (g : Grid) : (p.reconcile g).Restored := by
  intro _ empty
  rw [reconcile_cursor,empty]
  rfl

theorem call_restored {p : Predictor} (restored : p.Restored) {c : Call} (undoes : p.UndoesAll c) : (p.call c).Restored := by
  cases c with
  | input bytes =>
    rw [call,predictInput_eq_run]
    exact Machine.run_invariant Restored (fun q byte restored undoes => (predictByte_restored restored byte).mpr undoes)
      bytes p restored undoes
  | reconcile screen => exact reconcile_restored p screen.grid

theorem start_inside (mode : DisplayMode) (base : Screen) : ((new base.grid).setMode mode).Inside :=
  ⟨base.framed,base.framed.row,base.framed.col⟩

/-- While every backspace undoes just its guess, a predictor with no guess left shows the last
screen adopted; and the first byte that does otherwise shows another. -/
theorem overlay_vanishes (mode : DisplayMode) (base : Screen) (calls : List Call)
    (undoes : Machine.Along call UndoesAll calls ((new base.grid).setMode mode)) :
    let p := Machine.run call calls ((new base.grid).setMode mode)
    Vanished (latest base.grid calls) p ∧
      ∀ byte, Vanished (latest base.grid calls) (p.predictInput [byte]) ↔ p.Undoes byte := by
  intro p
  have inside : p.Inside :=
    Machine.run_invariant_always Inside (fun _ c inside => call_inside inside c) calls _ (start_inside mode base)
  have restored : p.Restored :=
    Machine.run_invariant Restored (fun _ _ restored undoes => call_restored restored undoes) calls _
      (fun _ _ => rfl) undoes
  have last : p.base = latest base.grid calls := run_base calls _
  rw [← last]
  refine ⟨(vanished_iff inside).mpr restored,fun byte => ?_⟩
  have after := vanished_iff (predictByte_inside inside byte)
  rw [predictByte_base] at after
  exact after.trans (predictByte_restored restored byte)

/-- A blank line of four cells with the cursor in column `col`. -/
def line (col : Fin 4) : Screen where
  grid := { Grid.new 1 4 with cursorCol := col.val }
  framed := ⟨rfl,Nat.one_pos,col.isLt⟩

theorem overlay_vanishes_typo :
    let calls := [Call.input [0x61],.input [0x7f]]
    Machine.Along call UndoesAll calls ((new (line 2).grid).setMode .always) ∧
      Vanished (line 2).grid (Machine.run call calls ((new (line 2).grid).setMode .always)) :=
  ⟨by decide,(overlay_vanishes .always (line 2) [.input [0x61],.input [0x7f]] (by decide)).1⟩

/-- The screen moves the cursor to the left edge, the guess to its right is kept, and taking it
back leaves the cursor where it was typed. -/
theorem overlay_not_vanished :
    let calls := [Call.input [0x61],.reconcile (line 0),.input [0x7f]]
    let p := Machine.run call calls ((new (line 2).grid).setMode .always)
    p.outstanding = 0 ∧ latest (line 2).grid calls = (line 0).grid ∧ ¬Vanished (latest (line 2).grid calls) p := by
  decide

/-- The predictor watched from outside: `quiet` when since the last Enter no guess was echoed. -/
structure Prompt where
  predictor : Predictor
  quiet : Bool := true

namespace Prompt

/-- A new screen echoes a guess. -/
def confirms (p : Predictor) (g : Grid) : Bool :=
  (p.preds.filter (reached g)).any (fun q => (g.cell q.row q.col).ch == q.ch)

def watchByte (s : Prompt) (byte : UInt8) : Prompt :=
  { predictor := s.predictor.predictByte byte, quiet := s.quiet || decide (Enters byte) }

def watch (s : Prompt) : Call → Prompt
  | .input bytes =>
    { predictor := s.predictor.predictInput bytes, quiet := s.quiet || bytes.any (fun byte => decide (Enters byte)) }
  | .reconcile screen =>
    { predictor := s.predictor.reconcile screen.grid, quiet := s.quiet && !confirms s.predictor screen.grid }

/-- No cell is marked as a guess. -/
def Unmarked (g : Grid) : Prop := ∀ c ∈ g.cells, c.flags &&& CellFlags.predicted = 0

instance (g : Grid) : Decidable (Unmarked g) := inferInstanceAs (Decidable (∀ c ∈ g.cells, _))

def Hidden (s : Prompt) : Prop := s.quiet = true → ∃ shown, s.predictor.overlay = some shown ∧ Unmarked shown

instance (s : Prompt) : Decidable s.Hidden :=
  decidable_of_iff (s.quiet = true → s.predictor.overlay.any (fun shown => decide (Unmarked shown)) = true) (by
    simp only [Hidden,Option.any_eq_true,decide_eq_true_eq])

/-- Nothing that can be guessed is typed on a line not yet echoed while guesses are shown. -/
def Veiled (s : Prompt) (byte : UInt8) : Prop :=
  Printable byte → s.quiet = true → s.predictor.displaying = true → s.predictor.AtEnd

instance (s : Prompt) (byte : UInt8) : Decidable (s.Veiled byte) := inferInstanceAs (Decidable (_ → _ → _ → _))

def VeiledAll (s : Prompt) : Call → Prop
  | .input bytes => Machine.Along watchByte Veiled bytes s
  | .reconcile screen => Unmarked screen.grid

instance (s : Prompt) : (c : Call) → Decidable (s.VeiledAll c)
  | .input bytes => inferInstanceAs (Decidable (Machine.Along watchByte Veiled bytes s))
  | .reconcile screen => inferInstanceAs (Decidable (Unmarked screen.grid))

theorem watch_input (s : Prompt) (bytes : Bytes) : s.watch (.input bytes) = Machine.run watchByte bytes s := by
  induction bytes generalizing s with
  | nil => simp [watch,predictInput]
  | cons byte rest ih =>
    rw [Machine.run_cons,← ih]
    simp only [watch,watchByte,predictInput,List.foldl_cons,List.any_cons,Bool.or_assoc]

/-- On a quiet line no guess is held while guesses are shown. -/
structure Dark (s : Prompt) : Prop where
  inside : s.predictor.Inside
  unmarked : Unmarked s.predictor.base
  empty : s.quiet = true → s.predictor.displaying = true → s.predictor.preds = []

theorem Dark.hidden {s : Prompt} (dark : s.Dark) : s.Hidden := by
  intro quiet
  cases shows : s.predictor.displaying with
  | false => exact ⟨_,overlay_hidden shows,dark.unmarked⟩
  | true => exact ⟨_,overlay_empty shows (dark.empty quiet shows),dark.unmarked⟩

theorem idx_lt {g : Grid} (framed : g.Framed) {row col : Nat} (inRow : row < g.rows) (inCol : col < g.cols) :
    row * g.cols + col < g.cells.length := by
  rw [framed.cells]
  calc row * g.cols + col < row * g.cols + g.cols := by omega
    _ = (row + 1) * g.cols := by rw [Nat.add_mul,Nat.one_mul]
    _ ≤ g.rows * g.cols := Nat.mul_le_mul_right _ inRow

/-- A first guess, shown, is marked on the screen. -/
theorem guessed_marked {p : Predictor} (inside : p.Inside) (shows : p.displaying = true) (empty : p.preds = [])
    (byte : UInt8) : ∀ shown, (p.guessed byte).overlay = some shown → ¬Unmarked shown := by
  intro shown painted unmarked
  have bound := idx_lt inside.framed inside.row inside.col
  unfold overlay at painted
  rw [guessed_displaying,if_pos shows,guessed_preds,guessed_base,empty] at painted
  simp only [List.nil_append,List.foldlM_cons,List.foldlM_nil,if_pos (And.intro inside.row inside.col),paint,Grid.setCell,
    if_pos bound,Option.bind_eq_bind,Option.bind_some,Option.pure_def,Option.some.injEq] at painted
  subst shown
  have bit := unmarked _ (List.mem_set bound _)
  dsimp only at bit
  exact absurd bit (by decide)

theorem watchByte_dark {s : Prompt} (dark : s.Dark) {byte : UInt8} (veiled : s.Veiled byte) : (s.watchByte byte).Dark := by
  refine ⟨predictByte_inside dark.inside byte,?_,?_⟩
  · show Unmarked (s.predictor.predictByte byte).base
    rw [predictByte_base]
    exact dark.unmarked
  · intro quiet shows
    rw [watchByte,predictByte_displaying] at shows
    show (s.predictor.predictByte byte).preds = []
    rcases predictByte_cases s.predictor byte with ⟨same,enters⟩ | gone | ⟨printable,inner,_⟩ | ⟨erases,some,_⟩
    · rw [same]
      simp only [watchByte,enters,decide_false,Bool.or_false] at quiet
      exact dark.empty quiet shows
    · rw [gone,abandon]
    · simp only [watchByte,Bool.or_eq_true,decide_eq_true_eq] at quiet
      rcases quiet with quiet | enters
      · exact absurd (veiled printable quiet shows) inner
      · exact absurd printable enters.not_printable
    · simp only [watchByte,Bool.or_eq_true,decide_eq_true_eq] at quiet
      rcases quiet with quiet | enters
      · exact absurd (dark.empty quiet shows) some
      · exact absurd enters erases.not_printable.2

theorem watchByte_hidden {s : Prompt} (dark : s.Dark) (byte : UInt8) : (s.watchByte byte).Hidden ↔ s.Veiled byte := by
  constructor
  · intro hidden printable quiet shows
    by_contra inner
    obtain ⟨shown,painted,unmarked⟩ := hidden (by rw [watchByte,quiet]; rfl)
    rw [watchByte,predictByte_printable printable,if_neg inner] at painted
    exact guessed_marked dark.inside shows (dark.empty quiet shows) byte shown painted unmarked
  · intro veiled
    exact (watchByte_dark dark veiled).hidden

/-- A screen that echoes nothing turns no guess on. -/
theorem reconcile_displaying {p : Predictor} {g : Grid} (silent : confirms p g = false)
    (shows : (p.reconcile g).displaying = true) : p.displaying = true := by
  unfold displaying at shows ⊢
  unfold confirms at silent
  cases mode : p.mode with
  | always => rfl
  | never =>
    rw [show (p.reconcile g).mode = p.mode from rfl,mode] at shows
    exact shows
  | adaptive =>
    rw [show (p.reconcile g).mode = p.mode from rfl,mode] at shows
    simp only [reconcile,silent] at shows
    split at shows <;> simp_all

theorem watch_dark {s : Prompt} (dark : s.Dark) {c : Call} (veiled : s.VeiledAll c) : (s.watch c).Dark := by
  cases c with
  | input bytes =>
    rw [watch_input]
    exact Machine.run_invariant Dark (fun _ _ dark veiled => watchByte_dark dark veiled) bytes s dark veiled
  | reconcile screen =>
    refine ⟨reconcile_inside screen,veiled,?_⟩
    intro quiet shows
    simp only [watch,Bool.and_eq_true,Bool.not_eq_true'] at quiet
    have empty := dark.empty quiet.1 (reconcile_displaying quiet.2 shows)
    simp only [watch,reconcile,empty,List.filter_nil,List.any_nil]
    rfl

/-- While nothing is typed on a quiet line with guesses shown, a quiet line shows no guess; and
the first key that is typed so is shown. -/
theorem prompt_hidden (base : Screen) (unmarked : Unmarked base.grid) (calls : List Call)
    (veiled : Machine.Along watch VeiledAll calls { predictor := new base.grid }) :
    let s := Machine.run watch calls { predictor := new base.grid }
    s.Hidden ∧ ∀ byte, (s.watch (.input [byte])).Hidden ↔ s.Veiled byte := by
  intro s
  have dark : s.Dark :=
    Machine.run_invariant Dark (fun _ _ dark veiled => watch_dark dark veiled) calls _
      ⟨⟨base.framed,base.framed.row,base.framed.col⟩,unmarked,fun _ _ => rfl⟩ veiled
  refine ⟨dark.hidden,fun byte => ?_⟩
  rw [watch_input]
  exact watchByte_hidden dark byte

theorem prompt_hidden_first :
    let s := Machine.run watch [.input [0x61]] { predictor := new (line 0).grid }
    Unmarked (line 0).grid ∧ s.predictor.outstanding = 1 ∧ s.Hidden :=
  ⟨by decide,by decide,(prompt_hidden (line 0) (by decide) [.input [0x61]] (by decide)).1⟩

/-- The line with an `a` echoed. -/
def echoed : Screen where
  grid := { (line 1).grid with cells := { ch := 'a' } :: List.replicate 3 .blank }
  framed := ⟨rfl,Nat.one_pos,by decide⟩

/-- One echo before, then Enter and a prompt that echoes nothing: the next key is shown. -/
theorem prompt_not_hidden :
    let s := Machine.run watch [.input [0x61],.reconcile echoed,.input [0x0d],.reconcile (line 0),.input [0x70]]
      { predictor := new (line 0).grid }
    s.quiet = true ∧ ¬s.Hidden := by
  decide

end Prompt
end Noissh.Predictor

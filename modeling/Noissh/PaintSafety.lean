import Noissh.Machine
import Noissh.RenderTokens
import Noissh.Vt

/-! Incremental painting shows the screen: the renderer's text, read by a terminal of the same
size, leaves on it the grid painted last, whatever was painted before. -/
namespace Noissh

open Vt (Screen Look Kind)
open Vt.Screen (spacer ignored)

def Color.colour : Color → Vt.Colour
  | .default => .default
  | .indexed n => .indexed n.toNat
  | .rgb r g b => .rgb r.toNat g.toNat b.toNat

/-- How a cell of these flags and colours looks; a predicted one is underlined. -/
def look (flags : UInt8) (fg bg : Color) : Look where
  fg := fg.colour
  bg := bg.colour
  bold := decide (flags &&& CellFlags.bold ≠ 0)
  dim := decide (flags &&& CellFlags.dim ≠ 0)
  italic := decide (flags &&& CellFlags.italic ≠ 0)
  underline := decide (flags &&& (CellFlags.underline ||| CellFlags.predicted) ≠ 0)
  reverse := decide (flags &&& CellFlags.reverse ≠ 0)

/-- What the terminal is to show for a cell. -/
def Cell.shown (cell : Cell) : Char × Look := (cell.ch,look cell.flags cell.fg cell.bg)

def colorNumbers (layer : Nat) : Color → List Nat
  | .default => []
  | .indexed n => [layer,5,n.toNat]
  | .rgb r g b => [layer,2,r.toNat,g.toNat,b.toNat]

def attributeNumbers (flags : UInt8) : List Nat :=
  (if flags &&& CellFlags.bold ≠ 0 then [1] else []) ++
  (if flags &&& CellFlags.dim ≠ 0 then [2] else []) ++
  (if flags &&& CellFlags.italic ≠ 0 then [3] else []) ++
  (if flags &&& (CellFlags.underline ||| CellFlags.predicted) ≠ 0 then [4] else []) ++
  (if flags &&& CellFlags.reverse ≠ 0 then [7] else [])

/-- A number after a semicolon. -/
def listed (n : Nat) : List Char := ';' :: Nat.toDigits 10 n

theorem colorCode_listed (layer : Nat) (color : Color) : colorCode layer color = (colorNumbers layer color).flatMap listed := by
  have five : Nat.toDigits 10 5 = ['5'] := rfl
  have two : Nat.toDigits 10 2 = ['2'] := rfl
  cases color <;> simp [colorCode,colorNumbers,listed,decimal,five,two]

theorem sgrFor_join (flags : UInt8) (fg bg : Color) : sgrFor flags fg bg =
    '\x1b' :: '[' :: Screen.join (0 :: (attributeNumbers flags ++ colorNumbers 38 fg ++ colorNumbers 48 bg)) ++ ['m'] := by
  have one : ∀ (p : Prop) [Decidable p] (n : Nat), (if p then [n] else []).flatMap listed = if p then listed n else [] := by
    intro p _ n
    split <;> simp
  change _ =
    '\x1b' :: '[' :: (['0'] ++ (attributeNumbers flags ++ colorNumbers 38 fg ++ colorNumbers 48 bg).flatMap listed) ++ ['m']
  simp only [attributeNumbers,List.flatMap_append,one,← colorCode_listed]
  simp only [sgrFor,List.cons_append,List.append_assoc,List.nil_append]
  rfl

theorem sgr_number {p : Nat} (rest : List Nat) (l : Look) (plain : p ≠ 38 ∧ p ≠ 48) :
    Screen.sgr (p :: rest) l = Screen.sgr rest (Screen.rendition p l) := by
  rw [Screen.sgr]
  all_goals
    intros
    omega

theorem sgr_flag {p : Nat} (b : Prop) [Decidable b] (rest : List Nat) (l : Look) (plain : p ≠ 38 ∧ p ≠ 48) :
    Screen.sgr ((if b then [p] else []) ++ rest) l = Screen.sgr rest (if b then Screen.rendition p l else l) := by
  split
  · exact sgr_number rest l plain
  · rfl

section

variable (b : Prop) [Decidable b] (l : Look)

theorem if_bold : (if b then Screen.rendition 1 l else l) = { l with bold := decide b || l.bold } := by
  by_cases h : b
  · rw [if_pos h,decide_eq_true h,Bool.true_or]
    rfl
  · rw [if_neg h,decide_eq_false h,Bool.false_or]

theorem if_dim : (if b then Screen.rendition 2 l else l) = { l with dim := decide b || l.dim } := by
  by_cases h : b
  · rw [if_pos h,decide_eq_true h,Bool.true_or]
    rfl
  · rw [if_neg h,decide_eq_false h,Bool.false_or]

theorem if_italic : (if b then Screen.rendition 3 l else l) = { l with italic := decide b || l.italic } := by
  by_cases h : b
  · rw [if_pos h,decide_eq_true h,Bool.true_or]
    rfl
  · rw [if_neg h,decide_eq_false h,Bool.false_or]

theorem if_underline : (if b then Screen.rendition 4 l else l) = { l with underline := decide b || l.underline } := by
  by_cases h : b
  · rw [if_pos h,decide_eq_true h,Bool.true_or]
    rfl
  · rw [if_neg h,decide_eq_false h,Bool.false_or]

theorem if_reverse : (if b then Screen.rendition 7 l else l) = { l with reverse := decide b || l.reverse } := by
  by_cases h : b
  · rw [if_pos h,decide_eq_true h,Bool.true_or]
    rfl
  · rw [if_neg h,decide_eq_false h,Bool.false_or]

end

theorem sgr_foreground (color : Color) (rest : List Nat) (l : Look) (fresh : l.fg = .default) :
    Screen.sgr (colorNumbers 38 color ++ rest) l = Screen.sgr rest { l with fg := color.colour } := by
  cases color with
  | default =>
    cases l
    cases fresh
    rfl
  | indexed n => rfl
  | rgb r g b => rfl

theorem sgr_background (color : Color) (l : Look) (fresh : l.bg = .default) :
    Screen.sgr (colorNumbers 48 color) l = { l with bg := color.colour } := by
  cases color with
  | default =>
    cases l
    cases fresh
    rfl
  | indexed n => rfl
  | rgb r g b => rfl

/-- The numbers written for a cell select its looks from any pen. -/
theorem sgr_look (flags : UInt8) (fg bg : Color) (l : Look) :
    Screen.sgr (0 :: (attributeNumbers flags ++ colorNumbers 38 fg ++ colorNumbers 48 bg)) l = look flags fg bg := by
  rw [sgr_number _ _ (by decide)]
  simp only [attributeNumbers,List.append_assoc]
  rw [sgr_flag _ _ _ (by decide),sgr_flag _ _ _ (by decide),sgr_flag _ _ _ (by decide),sgr_flag _ _ _ (by decide),
    sgr_flag _ _ _ (by decide)]
  simp only [if_bold,if_dim,if_italic,if_underline,if_reverse]
  rw [sgr_foreground _ _ _ rfl,sgr_background _ _ rfl]
  simp only [Screen.rendition,Bool.or_false]
  rfl

def Token.perform (k : Kind) (s : Screen) : Token → Screen
  | .moveTo row col => s.moveTo (row - 1) (col - 1)
  | .clearLine => s.eraseLine k 2
  | .sgr flags fg bg => { s with pen := look flags fg bg }
  | .cursor visible => { s with visible }
  | .glyph ch => if ch = spacer then s else s.print k ch

/-- A glyph that is printed, or the spacer behind one. -/
def Token.Legible : Token → Prop
  | .glyph ch => ch = spacer ∨ ignored ch = false
  | _ => True

variable {k : Kind} {s t : Screen} {g : Grid}

/-- A terminal of this size that waits for text. -/
structure Ready (height breadth : Nat) (s : Screen) : Prop where
  rows : s.rows = height
  cols : s.cols = breadth
  parse : s.parse = .ground

variable {height breadth : Nat}

theorem Ready.newline (ready : Ready height breadth s) : Ready height breadth (s.newline k) := by
  unfold Screen.newline
  split
  · exact ⟨ready.rows,ready.cols,ready.parse⟩
  · exact ⟨ready.rows,ready.cols,ready.parse⟩

theorem Ready.put (ready : Ready height breadth s) (row col : Nat) (ch : Char) : Ready height breadth (s.put row col ch) :=
  ⟨ready.rows,ready.cols,ready.parse⟩

theorem Ready.advance (ready : Ready height breadth s) (w : Nat) : Ready height breadth (s.advance w) := by
  unfold Screen.advance
  split
  · exact ⟨ready.rows,ready.cols,ready.parse⟩
  · exact ⟨ready.rows,ready.cols,ready.parse⟩

theorem Ready.print (ready : Ready height breadth s) (ch : Char) : Ready height breadth (s.print k ch) := by
  have placed {u : Screen} (ready : Ready height breadth u) :
      Ready height breadth
        (((if k.width ch = 2 then (u.put u.row u.col ch).put u.row (u.col + 1) spacer else u.put u.row u.col ch)).advance
        (k.width ch)) := by
    apply Ready.advance
    split
    · exact (ready.put _ _ _).put _ _ _
    · exact ready.put _ _ _
  unfold Screen.print
  split
  · exact ready
  · apply placed
    split
    · exact ready.newline
    · exact ready

theorem Ready.perform (ready : Ready height breadth s) (token : Token) : Ready height breadth (token.perform k s) := by
  cases token with
  | glyph ch =>
    change Ready height breadth (if ch = spacer then s else s.print k ch)
    split
    · exact ready
    · exact ready.print ch
  | _ => exact ⟨ready.rows,ready.cols,ready.parse⟩

/-- The terminal reads a token as one. -/
theorem write_token (token : Token) (legible : token.Legible) (ready : s.parse = .ground) :
    s.write k token.text = token.perform k s := by
  cases token with
  | moveTo row col =>
    have text : Token.text (.moveTo row col) = '\x1b' :: '[' :: Screen.join [row,col] ++ ['H'] := by
      simp [Token.text,moveTo,Screen.join,decimal]
    rw [text,Screen.write_csi _ _ Screen.isParam_join (by decide) ready,Screen.dispatch,if_pos rfl,Screen.params_join]
    rfl
  | clearLine =>
    have text : Token.text .clearLine = '\x1b' :: '[' :: Screen.join [2] ++ ['K'] := rfl
    rw [text,Screen.write_csi _ _ Screen.isParam_join (by decide) ready,Screen.dispatch,
      if_neg (by decide),if_pos rfl,Screen.params_join]
    rfl
  | sgr flags fg bg =>
    rw [Token.text,sgrFor_join,Screen.write_csi _ _ Screen.isParam_join (by decide) ready,Screen.dispatch,if_neg (by decide),
      if_neg (by decide),if_pos rfl,Screen.params_join,sgr_look]
    rfl
  | cursor visible =>
    have numeric : ∀ c ∈ ['?','2','5'], Screen.isParam c = true := by simp [Screen.isParam]
    cases visible with
    | true => exact Screen.write_csi ['?','2','5'] 'h' numeric (by decide) ready
    | false => exact Screen.write_csi ['?','2','5'] 'l' numeric (by decide) ready
  | glyph ch =>
    rcases legible with rfl | printable
    · exact Screen.write_spacer ready
    · have glyph : ch ≠ spacer := by
        rintro rfl
        cases printable
      change s.write k [ch] = if ch = spacer then s else s.print k ch
      rw [if_neg glyph]
      exact Screen.write_glyph ch printable ready

def performAll (k : Kind) (s : Screen) (tokens : List Token) : Screen := tokens.foldl (Token.perform k) s

theorem performAll_append (first second : List Token) :
    performAll k s (first ++ second) = performAll k (performAll k s first) second := List.foldl_append

theorem write_tokens (ready : Ready height breadth s) {tokens : List Token} (legible : ∀ token ∈ tokens, token.Legible) :
    s.write k (tokens.flatMap Token.text) = performAll k s tokens ∧ Ready height breadth (performAll k s tokens) := by
  induction tokens generalizing s with
  | nil => exact ⟨rfl,ready⟩
  | cons token rest ih =>
    rw [List.flatMap_cons,Screen.write_append,write_token token (legible token (.head _)) ready.parse]
    exact ih (ready.perform token) fun other member => legible other (.tail _ member)

/-- The next glyph goes to this column of the row; behind the last one a wrap is pending. -/
def At (s : Screen) (row col : Nat) : Prop :=
  s.row = row ∧ (col < s.cols ∧ s.col = col ∧ s.wrap = false ∨ col = s.cols ∧ s.col = s.cols - 1 ∧ s.wrap = true)

/-- The terminal stays as it is but for the cells of the row, the cursor and the pen. -/
structure Within (row : Nat) (s t : Screen) : Prop where
  rows : t.rows = s.rows
  cols : t.cols = s.cols
  visible : t.visible = s.visible
  others : ∀ r c, r ≠ row → t.cell r c = s.cell r c

theorem Within.refl (row : Nat) (s : Screen) : Within row s s := ⟨rfl,rfl,rfl,fun _ _ _ => rfl⟩

theorem Within.trans {row : Nat} {u : Screen} (first : Within row s t) (second : Within row t u) : Within row s u :=
  ⟨second.rows.trans first.rows,second.cols.trans first.cols,second.visible.trans first.visible,
    fun r c other => (second.others r c other).trans (first.others r c other)⟩

theorem advance_at {row col w : Nat} (here : s.row = row ∧ s.col = col ∧ s.wrap = false) (room : col + w ≤ s.cols) :
    At (s.advance w) row (col + w) ∧ (s.advance w).cell = s.cell ∧ (s.advance w).rows = s.rows ∧ (s.advance w).cols = s.cols ∧
      (s.advance w).visible = s.visible ∧ (s.advance w).pen = s.pen := by
  obtain ⟨row_,col_,wrap⟩ := here
  unfold Screen.advance At
  split
  · exact ⟨⟨row_,.inl ⟨by dsimp only; omega,by dsimp only; omega,wrap⟩⟩,rfl,rfl,rfl,rfl,rfl⟩
  · exact ⟨⟨row_,.inr ⟨by dsimp only; omega,rfl,rfl⟩⟩,rfl,rfl,rfl,rfl,rfl⟩

/-- A glyph where there is room for it. -/
theorem print_at {row col : Nat} {ch : Char} (at_ : At s row col) (wide : k.width ch = 1 ∨ k.width ch = 2)
    (room : col + k.width ch ≤ s.cols) :
    Within row s (s.print k ch) ∧ (s.print k ch).pen = s.pen ∧ At (s.print k ch) row (col + k.width ch) ∧
      ∀ c, (s.print k ch).cell row c =
        if k.width ch = 2 ∧ c = col + 1 then (spacer,s.pen) else if c = col then (ch,s.pen) else s.cell row c := by
  obtain ⟨rfl,⟨_,rfl,wrap⟩ | ⟨full,_⟩⟩ := at_
  · have printed : s.print k ch = (if k.width ch = 2 then (s.put s.row s.col ch).put s.row (s.col + 1) spacer
        else s.put s.row s.col ch).advance (k.width ch) := by
      have stays : (s.wrap || decide (s.cols < s.col + k.width ch)) = false := by
        rw [wrap,Bool.false_or,decide_eq_false (by omega)]
      unfold Screen.print
      rw [if_neg (by omega),stays]
      rfl
    rw [printed]
    rcases wide with one | two
    · rw [one,if_neg (by decide)]
      obtain ⟨at_,cell,rows,cols,visible,pen⟩ := @advance_at (s.put s.row s.col ch) s.row s.col 1 ⟨rfl,rfl,wrap⟩ (one ▸ room)
      refine ⟨⟨rows,cols,visible,fun r c other => ?_⟩,pen,at_,fun c => ?_⟩
      · rw [cell,Screen.put]
        exact if_neg fun same => other same.1
      · rw [cell,if_neg (by omega),Screen.put]
        simp only [true_and]
    · rw [two,if_pos rfl]
      obtain ⟨at_,cell,rows,cols,visible,pen⟩ :=
        @advance_at ((s.put s.row s.col ch).put s.row (s.col + 1) spacer) s.row s.col 2 ⟨rfl,rfl,wrap⟩ (two ▸ room)
      refine ⟨⟨rows,cols,visible,fun r c other => ?_⟩,pen,at_,fun c => ?_⟩
      · rw [cell]
        simp only [Screen.put,other,false_and,if_false]
      · rw [cell]
        simp only [Screen.put,true_and]
  · omega

/-- A printable character of one column, one of two columns before its spacer, or a spacer. -/
inductive Laid (width : Char → Nat) (g : Grid) (row col : Nat) : Prop where
  | narrow (printable : ignored (g.cell row col).ch = false) (one : width (g.cell row col).ch = 1)
  | wide (printable : ignored (g.cell row col).ch = false) (two : width (g.cell row col).ch = 2) (room : col + 1 < g.cols)
    (followed : g.cell row (col + 1) = { g.cell row col with ch := spacer })
  | spacer (empty : (g.cell row col).ch = spacer) (behind : ∃ left, col = left + 1 ∧
    ignored (g.cell row left).ch = false ∧ width (g.cell row left).ch = 2)

/-- A grid of this size with its cells laid out. -/
structure Showable (width : Char → Nat) (height breadth : Nat) (g : Grid) : Prop where
  rows : g.rows = height
  cols : g.cols = breadth
  laid : ∀ row col, row < height → col < breadth → Laid width g row col

/-- The terminal shows the grid: every cell, and the cursor where and as it is. A cursor beyond
the screen, which no position of the terminal is, shows at its edge. -/
structure Shows (s : Screen) (g : Grid) : Prop where
  cells : ∀ row col, row < g.rows → col < g.cols → s.cell row col = (g.cell row col).shown
  row : s.row = min g.cursorRow (g.rows - 1)
  col : s.col = min g.cursorCol (g.cols - 1)
  visible : s.visible = g.cursorVisible

/-- Where the next glyph goes when the cells before this one have been written: past a spacer,
which its character has covered. -/
def ahead (g : Grid) (row col : Nat) : Nat := if col < g.cols ∧ (g.cell row col).ch = spacer then col + 1 else col

/-- The cells of the row before this one have been written. -/
structure Drawn (g : Grid) (row col : Nat) (s : Screen) : Prop where
  next : At s row (ahead g row col)
  cells : ∀ c, c < ahead g row col → s.cell row c = (g.cell row c).shown

theorem glyph_not_spacer {ch : Char} (printable : ignored ch = false) : ch ≠ spacer := by
  rintro rfl
  cases printable

theorem ahead_glyph {row col : Nat} (printable : ignored (g.cell row col).ch = false) : ahead g row col = col :=
  if_neg fun ⟨_,empty⟩ => glyph_not_spacer printable empty

section Row

variable {row : Nat} (laid : ∀ col, col < g.cols → Laid k.width g row col)
include laid

/-- Only a character of two columns has a spacer behind it. -/
theorem ahead_after {col : Nat} (ends : ignored (g.cell row col).ch = true ∨ k.width (g.cell row col).ch = 1) :
    ahead g row (col + 1) = col + 1 := by
  refine if_neg fun ⟨bound,empty⟩ => ?_
  cases laid (col + 1) bound with
  | narrow printable one => exact glyph_not_spacer printable empty
  | wide printable two room followed => exact glyph_not_spacer printable empty
  | spacer empty behind =>
    obtain ⟨left,same,printable,two⟩ := behind
    obtain rfl : col = left := by omega
    rcases ends with blank | one
    · rw [printable] at blank
      cases blank
    · omega

/-- One cell: its character is printed, or was before when it is a spacer. -/
theorem glyph_painted {col : Nat} (inside : col < g.cols) (size : s.cols = g.cols)
    (pen : s.pen = look (g.cell row col).flags (g.cell row col).fg (g.cell row col).bg) (drawn : Drawn g row col s) :
    Within row s (Token.perform k s (.glyph (g.cell row col).ch)) ∧
      (Token.perform k s (.glyph (g.cell row col).ch)).pen = s.pen ∧
      Drawn g row (col + 1) (Token.perform k s (.glyph (g.cell row col).ch)) := by
  obtain ⟨next,cells⟩ := drawn
  have shown : ((g.cell row col).ch,s.pen) = (g.cell row col).shown := by rw [pen]; rfl
  cases laid col inside with
  | narrow printable one =>
    have here := ahead_glyph printable
    have after := ahead_after laid (.inr one)
    rw [here] at next cells
    have performed : Token.perform k s (.glyph (g.cell row col).ch) = s.print k (g.cell row col).ch :=
      if_neg (glyph_not_spacer printable)
    obtain ⟨within,same,at_,printed⟩ := print_at next (.inl one) (by omega)
    rw [one] at at_ printed
    rw [performed]
    refine ⟨within,same,by rw [after]; exact at_,fun c before => ?_⟩
    rw [after] at before
    rw [printed,if_neg (by omega)]
    split
    · rename_i this
      rw [this,shown]
    · exact cells c (by omega)
  | wide printable two room followed =>
    have here := ahead_glyph printable
    have after : ahead g row (col + 1) = col + 2 := if_pos ⟨room,by rw [followed]⟩
    rw [here] at next cells
    have performed : Token.perform k s (.glyph (g.cell row col).ch) = s.print k (g.cell row col).ch :=
      if_neg (glyph_not_spacer printable)
    obtain ⟨within,same,at_,printed⟩ := print_at next (.inr two) (by omega)
    rw [two] at at_ printed
    rw [performed]
    refine ⟨within,same,by rw [after]; exact at_,fun c before => ?_⟩
    rw [after] at before
    rw [printed]
    split
    · rename_i second
      rw [second.2,followed,pen]
      rfl
    · split
      · rename_i this
        rw [this,shown]
      · exact cells c (by omega)
  | spacer empty behind =>
    have here : ahead g row col = col + 1 := if_pos ⟨inside,empty⟩
    have after : ahead g row (col + 1) = col + 1 := ahead_after laid (.inl (by rw [empty]; rfl))
    have performed : Token.perform k s (.glyph (g.cell row col).ch) = s := if_pos empty
    rw [performed]
    rw [here] at next cells
    exact ⟨.refl row s,rfl,by rw [after]; exact next,by rw [after]; exact cells⟩

/-- The cells of a row from this one on. -/
theorem cells_painted (n : Nat) {col : Nat} {cur : Option (UInt8 × Color × Color)}
    (ends : col + n = g.cols) (size : s.cols = g.cols)
    (pen : ∀ key, cur = some key → s.pen = look key.1 key.2.1 key.2.2) (drawn : Drawn g row col s) :
    Within row s (performAll k s (Renderer.cellTokens g row (List.range' col n) cur)) ∧
      Drawn g row g.cols (performAll k s (Renderer.cellTokens g row (List.range' col n) cur)) := by
  induction n generalizing col cur s with
  | zero =>
    obtain rfl : col = g.cols := by omega
    exact ⟨.refl row s,drawn⟩
  | succ n ih =>
    -- The pen is as the cell wants it, by a new rendition or from the cell before.
    obtain ⟨u,set,dressed,within⟩ : ∃ u : Screen, performAll k s
        (if cur = some ((g.cell row col).flags,(g.cell row col).fg,(g.cell row col).bg) then []
          else [Token.sgr (g.cell row col).flags (g.cell row col).fg (g.cell row col).bg]) = u ∧
        u = { s with pen := look (g.cell row col).flags (g.cell row col).fg (g.cell row col).bg } ∧ Within row s u := by
      split
      · rename_i kept
        have same := pen _ kept
        refine ⟨s,rfl,?_,.refl row s⟩
        rw [← same]
      · exact ⟨_,rfl,rfl,⟨rfl,rfl,rfl,fun _ _ _ => rfl⟩⟩
    have drawn' : Drawn g row col u := by
      rw [dressed]
      exact ⟨drawn.next,drawn.cells⟩
    have size' : u.cols = g.cols := within.cols.trans size
    obtain ⟨printed,same,drawn''⟩ := glyph_painted laid (show col < g.cols by omega) size' (by rw [dressed]) drawn'
    have rest := @ih (Token.perform k u (.glyph (g.cell row col).ch)) (col + 1)
      (some ((g.cell row col).flags,(g.cell row col).fg,(g.cell row col).bg)) (by omega) (printed.cols.trans size')
      (fun key same_ => by cases same_; rw [same,dressed]) drawn''
    have split_ : performAll k s (Renderer.cellTokens g row (List.range' col (n + 1)) cur) =
        performAll k (Token.perform k u (.glyph (g.cell row col).ch)) (Renderer.cellTokens g row (List.range' (col + 1) n)
          (some ((g.cell row col).flags,(g.cell row col).fg,(g.cell row col).bg))) := by
      rw [List.range'_succ,Renderer.cellTokens,performAll_append,set]
      rfl
    rw [split_]
    exact ⟨within.trans (printed.trans rest.1),rest.2⟩

end Row

/-- A row is cleared and written from its first column on. -/
theorem row_painted {row : Nat} (laid : ∀ col, col < g.cols → Laid k.width g row col)
    (rows : s.rows = g.rows) (cols : s.cols = g.cols) (inside : row < g.rows) :
    Within row s (performAll k s (Renderer.rowTokens g row)) ∧
      ∀ col, col < g.cols → (performAll k s (Renderer.rowTokens g row)).cell row col = (g.cell row col).shown := by
  have first : ahead g row 0 = 0 := by
    refine if_neg fun blank => ?_
    cases laid 0 blank.1 with
    | narrow printable one => exact glyph_not_spacer printable blank.2
    | wide printable two room followed => exact glyph_not_spacer printable blank.2
    | spacer empty behind =>
      obtain ⟨left,same,_⟩ := behind
      omega
  have last : ahead g row g.cols = g.cols := if_neg fun blank => Nat.lt_irrefl _ blank.1
  have cleared : Within row s ((s.moveTo row 0).eraseLine k 2) := by
    refine ⟨rfl,rfl,rfl,fun r c other => if_neg fun same => other ?_⟩
    exact same.1.trans (Nat.min_eq_left (by omega))
  rcases Nat.eq_zero_or_pos g.cols with none_ | some_
  · have bare : performAll k s (Renderer.rowTokens g row) =
      { (s.moveTo row 0).eraseLine k 2 with pen := look 0 .default .default } := by
      rw [Renderer.rowTokens,none_]
      rfl
    rw [bare]
    exact ⟨⟨cleared.rows,cleared.cols,cleared.visible,cleared.others⟩,fun col bound => by omega⟩
  have drawn : Drawn g row 0 ((s.moveTo row 0).eraseLine k 2) := by
    rw [← cols] at some_
    refine ⟨?_,fun c before => by rw [first] at before; omega⟩
    rw [first]
    exact ⟨Nat.min_eq_left (by omega),.inl ⟨some_,Nat.zero_min _,rfl⟩⟩
  obtain ⟨within,done⟩ := cells_painted (s := (s.moveTo row 0).eraseLine k 2) laid g.cols (Nat.zero_add _) cols
    (fun key (same : none = some key) => by cases same) drawn
  have split_ : performAll k s (Renderer.rowTokens g row) = { performAll k ((s.moveTo row 0).eraseLine k 2)
      (Renderer.cellTokens g row (List.range' 0 g.cols) none) with pen := look 0 .default .default } := by
    rw [Renderer.rowTokens,performAll_append,performAll_append,List.range_eq_range']
    rfl
  rw [split_]
  refine ⟨⟨(cleared.trans within).rows,(cleared.trans within).cols,(cleared.trans within).visible,
    (cleared.trans within).others⟩,?_⟩
  intro col bound
  exact done.cells col (by rw [last]; exact bound)

/-- Painting rows changes these rows only. -/
theorem rows_painted {rows : List Nat} (laid : ∀ row col, row < g.rows → col < g.cols → Laid k.width g row col)
    (height : s.rows = g.rows) (breadth : s.cols = g.cols) (inside : ∀ row ∈ rows, row < g.rows) :
    (performAll k s (rows.flatMap (Renderer.rowTokens g))).rows = g.rows ∧
    (performAll k s (rows.flatMap (Renderer.rowTokens g))).cols = g.cols ∧
    (performAll k s (rows.flatMap (Renderer.rowTokens g))).visible = s.visible ∧
    ∀ row col, row < g.rows → col < g.cols → (performAll k s (rows.flatMap (Renderer.rowTokens g))).cell row col =
      if row ∈ rows then (g.cell row col).shown else s.cell row col := by
  induction rows generalizing s with
  | nil => exact ⟨height,breadth,rfl,fun row col _ _ => rfl⟩
  | cons row rest ih =>
    have first := inside row (.head _)
    obtain ⟨within,painted⟩ := @row_painted k s g row (fun col bound => laid row col first bound) height breadth first
    obtain ⟨rows_,cols_,visible,cells⟩ := @ih (performAll k s (Renderer.rowTokens g row)) (within.rows.trans height)
      (within.cols.trans breadth) fun r member => inside r (.tail _ member)
    rw [List.flatMap_cons,performAll_append]
    refine ⟨rows_,cols_,visible.trans within.visible,fun r c bound bound' => ?_⟩
    rw [cells r c bound bound']
    by_cases later : r ∈ rest
    · rw [if_pos later,if_pos (.tail _ later)]
    · rw [if_neg later]
      by_cases this : r = row
      · rw [this,if_pos (.head _),painted c bound']
      · rw [within.others r c this,if_neg (by simp [this,later])]

/-- What the renderer remembers is what the terminal shows. -/
def Remembers (height breadth : Nat) (last : Option Grid) (s : Screen) : Prop :=
  ∀ p, last = some p → p.rows = height ∧ p.cols = breadth ∧ Shows s p

variable {last : Option Grid}

theorem remembers_none (s : Screen) : Remembers height breadth none s := fun _ same => nomatch same

/-- A row that is not painted was the same in the frame before. -/
theorem unchanged_cells {row col : Nat} (inRow : row < g.rows) (inCol : col < g.cols)
    (kept : row ∉ Renderer.changedRows last g) : ∃ p, last = some p ∧ p.cell row col = g.cell row col := by
  cases last with
  | none => exact absurd (List.mem_filter.mpr ⟨List.mem_range.mpr inRow,rfl⟩) kept
  | some p =>
    have same : (Renderer.full (some p) g || (List.range g.cols).any fun c => p.cell row c != g.cell row c) = false := by
      rw [← Bool.not_eq_true]
      exact fun changed => kept (List.mem_filter.mpr ⟨List.mem_range.mpr inRow,changed⟩)
    have cells := (Bool.or_eq_false_iff.mp same).2
    rw [List.any_eq_false] at cells
    exact ⟨p,rfl,by simpa using cells col (List.mem_range.mpr inCol)⟩

theorem unchanged_shown (remembers : Remembers height breadth last s)
    (showable : Showable k.width height breadth g) {row col : Nat}
    (inRow : row < g.rows) (inCol : col < g.cols) (kept : row ∉ Renderer.changedRows last g) :
    s.cell row col = (g.cell row col).shown := by
  obtain ⟨p,before,same⟩ := unchanged_cells inRow inCol kept
  obtain ⟨rows,cols,shows⟩ := remembers p before
  rw [← same]
  refine shows.cells row col ?_ ?_
  · rw [rows,← showable.rows]
    exact inRow
  · rw [cols,← showable.cols]
    exact inCol

theorem changedRows_inside {row : Nat} (member : row ∈ Renderer.changedRows last g) : row < g.rows :=
  List.mem_range.mp (List.mem_filter.mp member).1

/-- Nothing but the visibility of the cursor changes before the rows are painted. -/
theorem hide_performed (s : Screen) (last : Option Grid) (g : Grid) :
    performAll k s (if Renderer.repaints last g then [.cursor false] else []) =
      { s with visible := !Renderer.repaints last g && s.visible } := by
  cases Renderer.repaints last g <;> rfl

theorem cursor_performed (remembers : Remembers height breadth last s) (showable : Showable k.width height breadth g)
    {u : Screen} (rows : u.rows = height) (cols : u.cols = breadth)
      (idle : Renderer.repaints last g = false → u.row = s.row ∧ u.col = s.col) :
    let v := performAll k u (Renderer.cursorTokens last g)
    v.cell = u.cell ∧ v.visible = u.visible ∧ v.row = min g.cursorRow (g.rows - 1) ∧ v.col = min g.cursorCol (g.cols - 1) := by
  rw [← showable.rows] at rows
  rw [← showable.cols] at cols
  unfold Renderer.cursorTokens
  split
  · refine ⟨rfl,rfl,?_,?_⟩
    · change min g.cursorRow (u.rows - 1) = _
      rw [rows]
    · change min g.cursorCol (u.cols - 1) = _
      rw [cols]
  · rename_i quiet
    simp only [Bool.or_eq_true,not_or,Bool.not_eq_true] at quiet
    obtain ⟨row,col⟩ := idle quiet.1
    cases last with
    | none => cases quiet.2
    | some p =>
      obtain ⟨height_,breadth_,shows⟩ := remembers p rfl
      have still := quiet.2
      simp only [Renderer.cursorMoved,Bool.or_eq_false_iff,bne_eq_false_iff_eq] at still
      have row' := shows.row
      have col' := shows.col
      rw [still.1,height_,← showable.rows] at row'
      rw [still.2,breadth_,← showable.cols] at col'
      exact ⟨rfl,rfl,row.trans row',col.trans col'⟩

theorem visibility_performed (remembers : Remembers height breadth last s) {u : Screen}
    (visible : u.visible = (!Renderer.repaints last g && s.visible)) :
    let v := performAll k u (Renderer.visibilityTokens last g)
    v.cell = u.cell ∧ v.row = u.row ∧ v.col = u.col ∧ v.visible = g.cursorVisible := by
  unfold Renderer.visibilityTokens
  split
  · rename_i repaints
    rw [repaints] at visible
    split
    · rename_i shown
      exact ⟨rfl,rfl,rfl,shown.symm⟩
    · rename_i hidden
      exact ⟨rfl,rfl,rfl,visible.trans (Bool.not_eq_true _ ▸ hidden).symm⟩
  · rename_i quiet
    rw [Bool.not_eq_true] at quiet
    split
    · exact ⟨rfl,rfl,rfl,rfl⟩
    · rename_i same
      rw [Bool.not_eq_true] at same
      refine ⟨rfl,rfl,rfl,?_⟩
      cases last with
      | none => cases same
      | some p =>
        simp only [Renderer.visChanged,bne_eq_false_iff_eq] at same
        rw [quiet] at visible
        exact visible.trans ((remembers p rfl).2.2.visible.trans same)

theorem draw_shows (ready : Ready height breadth s) (remembers : Remembers height breadth last s)
    (showable : Showable k.width height breadth g) : Shows (performAll k s (Renderer.drawTokens last g)) g := by
  have laid : ∀ row col, row < g.rows → col < g.cols → Laid k.width g row col := by
    intro row col inRow inCol
    exact showable.laid row col (showable.rows ▸ inRow) (showable.cols ▸ inCol)
  obtain ⟨rows,cols,visible,cells⟩ := @rows_painted k { s with visible := !Renderer.repaints last g && s.visible } g
    (Renderer.changedRows last g) laid (ready.rows.trans showable.rows.symm) (ready.cols.trans showable.cols.symm)
    (fun row member => changedRows_inside member)
  have idle : Renderer.repaints last g = false →
      (performAll k { s with visible := !Renderer.repaints last g && s.visible }
        ((Renderer.changedRows last g).flatMap (Renderer.rowTokens g))).row = s.row ∧
      (performAll k { s with visible := !Renderer.repaints last g && s.visible }
        ((Renderer.changedRows last g).flatMap (Renderer.rowTokens g))).col = s.col := by
    intro quiet
    have none_ : Renderer.changedRows last g = [] := by simpa [Renderer.repaints] using quiet
    rw [none_]
    exact ⟨rfl,rfl⟩
  unfold Renderer.drawTokens
  rw [performAll_append,performAll_append,performAll_append,hide_performed]
  obtain ⟨cell',visible',row',col'⟩ := cursor_performed remembers showable (rows.trans showable.rows)
    (cols.trans showable.cols) idle
  obtain ⟨cell'',row'',col'',visible''⟩ := @visibility_performed k s g height breadth last remembers _ (visible'.trans visible)
  refine ⟨fun row col inRow inCol => ?_,row''.trans row',col''.trans col',visible''⟩
  rw [cell'',cell',cells row col inRow inCol]
  split
  · rfl
  · rename_i kept
    exact unchanged_shown remembers showable inRow inCol kept

theorem Showable.legible (showable : Showable k.width height breadth g) (row col : Nat) :
    (g.cell row col).ch = spacer ∨ ignored (g.cell row col).ch = false := by
  by_cases inside : row < g.rows ∧ col < g.cols
  · cases showable.laid row col (showable.rows ▸ inside.1) (showable.cols ▸ inside.2) with
    | narrow printable one => exact .inr printable
    | wide printable two room followed => exact .inr printable
    | spacer empty behind => exact .inl empty
  · unfold Grid.cell
    rw [if_neg inside]
    exact .inr (by decide)

/-- Nothing to draw is an empty drawing. -/
theorem drawTokens_quiet
    (quiet : ((Renderer.changedRows last g).isEmpty && !Renderer.cursorMoved last g && !Renderer.visChanged last g) = true) :
    Renderer.drawTokens last g = [] := by
  simp only [Bool.and_eq_true,List.isEmpty_iff,Bool.not_eq_true'] at quiet
  obtain ⟨⟨rows,moved⟩,visible⟩ := quiet
  simp [Renderer.drawTokens,Renderer.cursorTokens,Renderer.visibilityTokens,Renderer.repaints,rows,moved,visible]

/-- One frame: the terminal then shows it, and the renderer remembers what is shown. -/
theorem paint_shows {r : Renderer} (ready : Ready height breadth s) (remembers : Remembers height breadth r.last s)
    (showable : Showable k.width height breadth g) :
    Ready height breadth (s.write k (r.paint g).1) ∧ Shows (s.write k (r.paint g).1) g ∧
      Remembers height breadth (r.paint g).2.last (s.write k (r.paint g).1) := by
  have legible : ∀ token ∈ Renderer.drawTokens r.last g, token.Legible := by
    intro token member
    cases token with
    | glyph ch =>
      obtain ⟨row,col,rfl⟩ := Renderer.glyph_drawTokens member
      exact showable.legible row col
    | _ => trivial
  have shows := draw_shows ready remembers showable
  obtain ⟨written,ready'⟩ := @write_tokens k s height breadth ready _ legible
  unfold Renderer.paint
  split
  · rename_i quiet
    rw [drawTokens_quiet quiet] at shows
    exact ⟨ready,shows,remembers⟩
  · dsimp only
    rw [Renderer.draw_text,written]
    exact ⟨ready',shows,fun p same => by cases same; exact ⟨showable.rows,showable.cols,shows⟩⟩

/-- Two grids that look the same. -/
structure Alike (p h : Grid) : Prop where
  rows : p.rows = h.rows
  cols : p.cols = h.cols
  cells : ∀ row col, row < h.rows → col < h.cols → p.cell row col = h.cell row col
  cursorRow : p.cursorRow = h.cursorRow
  cursorCol : p.cursorCol = h.cursorCol
  visible : p.cursorVisible = h.cursorVisible

theorem Alike.trans {p q h : Grid} (first : Alike p q) (second : Alike q h) : Alike p h :=
  ⟨first.rows.trans second.rows,first.cols.trans second.cols,
    fun row col inRow inCol => (first.cells row col (second.rows ▸ inRow) (second.cols ▸ inCol)).trans
      (second.cells row col inRow inCol),
    first.cursorRow.trans second.cursorRow,first.cursorCol.trans second.cursorCol,first.visible.trans second.visible⟩

theorem alike_of_renderEq {h : Grid} (same : h.renderEq g = true) : Alike g h := by
  simp only [Grid.renderEq,Bool.and_eq_true,beq_iff_eq] at same
  obtain ⟨⟨⟨⟨⟨rows,cols⟩,cells⟩,row⟩,col⟩,visible⟩ := same
  refine ⟨rows.symm,cols.symm,fun r c _ _ => ?_,row.symm,col.symm,visible.symm⟩
  simp only [Grid.cell,Grid.idx,rows,cols,cells]

/-- A frame like the one remembered writes nothing. -/
theorem paint_alike {r : Renderer} {p h : Grid} (before : r.last = some p) (alike : Alike p h) : (r.paint h).1 = [] := by
  have rows : Renderer.changedRows (some p) h = [] := by
    refine List.filter_eq_nil_iff.mpr fun row member => ?_
    have inRow := List.mem_range.mp member
    simp only [Renderer.full,alike.rows,alike.cols,bne_self_eq_false,Bool.or_self,Bool.false_or,
      List.any_eq_true,not_exists,not_and]
    intro c column
    rw [alike.cells row c inRow (List.mem_range.mp column),bne_self_eq_false]
    exact Bool.false_ne_true
  unfold Renderer.paint
  rw [before,rows]
  simp only [Renderer.cursorMoved,Renderer.visChanged,alike.cursorRow,alike.cursorCol,alike.visible,bne_self_eq_false]
  rfl

/-- What is remembered after a frame looks like it. -/
theorem paint_remembered (r : Renderer) (sizes : ∀ p, r.last = some p → p.rows = g.rows ∧ p.cols = g.cols) :
    ∃ p, (r.paint g).2.last = some p ∧ Alike p g := by
  unfold Renderer.paint
  split
  · rename_i quiet
    simp only [Bool.and_eq_true,List.isEmpty_iff,Bool.not_eq_true'] at quiet
    obtain ⟨⟨rows,moved⟩,visible⟩ := quiet
    cases before : r.last with
    | none =>
      rw [before] at moved
      cases moved
    | some p =>
      rw [before] at rows moved visible
      simp only [Renderer.cursorMoved,Renderer.visChanged,Bool.or_eq_false_iff,bne_eq_false_iff_eq] at moved visible
      obtain ⟨height,breadth⟩ := sizes p before
      refine ⟨p,rfl,height,breadth,fun row col inRow inCol => ?_,moved.1,moved.2,visible⟩
      obtain ⟨p',same,cells⟩ := @unchanged_cells g (some p) row col inRow inCol (by rw [rows]; exact List.not_mem_nil)
      cases same
      exact cells
  · exact ⟨g,rfl,rfl,rfl,fun _ _ _ _ => rfl,rfl,rfl,rfl⟩

structure Painting where
  renderer : Renderer := .new
  screen : Screen

namespace Painting

inductive Event where
  | paint (g : Grid)
  | invalidate

def step (k : Kind) (p : Painting) : Event → Painting
  | .paint g => { renderer := (p.renderer.paint g).2, screen := p.screen.write k (p.renderer.paint g).1 }
  | .invalidate => { p with renderer := p.renderer.invalidate }

/-- The terminal waits for text and shows what the renderer remembers. -/
structure Sound (height breadth : Nat) (p : Painting) : Prop where
  ready : Ready height breadth p.screen
  remembers : Remembers height breadth p.renderer.last p.screen

/-- Every grid that is painted can be shown. -/
def Fits (k : Kind) (height breadth : Nat) : Event → Prop
  | .paint g => Showable k.width height breadth g
  | .invalidate => True

theorem step_sound {p : Painting} {e : Event} (sound : p.Sound height breadth) (fits : Fits k height breadth e) :
    (p.step k e).Sound height breadth := by
  cases e with
  | paint g =>
    obtain ⟨ready,_,remembers⟩ := paint_shows sound.ready sound.remembers fits
    exact ⟨ready,remembers⟩
  | invalidate => exact ⟨sound.ready,remembers_none _⟩

theorem run_sound {p : Painting} {events : List Event} (sound : p.Sound height breadth)
    (fits : ∀ e ∈ events, Fits k height breadth e) : (Machine.run (step k) events p).Sound height breadth := by
  induction events generalizing p with
  | nil => exact sound
  | cons e rest ih => exact ih (step_sound sound (fits e (.head _))) fun other member => fits other (.tail _ member)

/-- After any frames and invalidations, painting a grid makes the terminal show it, whatever was on
its screen at the start; and the next frame that looks the same writes nothing. -/
theorem painting_shows_screen (k : Kind) (height breadth : Nat) (s : Screen) (ready : Ready height breadth s)
    (events : List Event)
    (fits : ∀ e ∈ events, Fits k height breadth e) (g : Grid) (showable : Showable k.width height breadth g) :
    Shows (Machine.run (step k) (events ++ [.paint g]) { screen := s }).screen g ∧
      ∀ h, h.renderEq g = true → ((Machine.run (step k) (events ++ [.paint g]) { screen := s }).renderer.paint h).1 = [] := by
  have sound : Sound height breadth (Machine.run (step k) events { screen := s }) :=
    run_sound ⟨ready,remembers_none s⟩ fits
  rw [Machine.run_append]
  refine ⟨(paint_shows sound.ready sound.remembers showable).2.1,fun h same => ?_⟩
  obtain ⟨p,remembered,alike⟩ := paint_remembered (Machine.run (step k) events { screen := s }).renderer fun p before =>
    let ⟨rows,cols,_⟩ := sound.remembers p before
    ⟨rows.trans showable.rows.symm,cols.trans showable.cols.symm⟩
  exact paint_alike remembered (alike.trans (alike_of_renderEq same))

/-- An ideograph, its spacer and a predicted letter, with the cursor behind them. -/
def sample (ch : Char) : Grid where
  rows := 1
  cols := 3
  cells := [{ ch := '中', flags := CellFlags.bold },{ ch := spacer, flags := CellFlags.bold },
    { ch, flags := CellFlags.predicted }]
  cursorCol := 2
  scrollBottom := 0

/-- Ideographs take two columns. -/
def ideographic : Kind where
  width := fun c => if c = '中' then 2 else 1
  erased := fun pen => { bg := pen.bg }

theorem sample_showable {ch : Char} (printable : ignored ch = false) (one : ideographic.width ch = 1) :
    Showable ideographic.width 1 3 (sample ch) := by
  refine ⟨rfl,rfl,fun row col inRow inCol => ?_⟩
  obtain rfl : row = 0 := by omega
  obtain rfl | rfl | rfl : col = 0 ∨ col = 1 ∨ col = 2 := by omega
  · exact .wide (show ignored '中' = false by decide) rfl (show 1 < 3 by decide) rfl
  · exact .spacer rfl ⟨0,rfl,show ignored '中' = false by decide,rfl⟩
  · exact .narrow printable one

/-- Two frames that differ in a letter, with an invalidation between them, on a screen full of
other text. -/
theorem painting_shows_screen_letters :
    Shows (Machine.run (step ideographic) ([.paint (sample 'a'),.invalidate] ++ [.paint (sample 'b')])
      { screen := { rows := 1, cols := 3, cell := fun _ _ => ('x',{ reverse := true }) } }).screen (sample 'b') :=
  (painting_shows_screen ideographic 1 3 { rows := 1, cols := 3, cell := fun _ _ => ('x',{ reverse := true }) } ⟨rfl,rfl,rfl⟩
    [.paint (sample 'a'),.invalidate]
    (fun e member => by
      rcases List.mem_cons.mp member with rfl | later
      · exact sample_showable (by decide) (by decide)
      · rw [List.mem_singleton.mp later]
        trivial)
    (sample 'b') (sample_showable (by decide) (by decide))).1

end Painting
end Noissh

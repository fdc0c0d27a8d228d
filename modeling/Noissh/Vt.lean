/-! A character terminal: a screen of cells with a cursor and a pen, driven by text. It knows
cursor position, erase in line, graphic rendition and the visibility of the cursor; NUL and the
other control characters are ignored. A character in the last column leaves the cursor there
with a wrap pending, which the next character performs. -/
namespace Vt

inductive Colour where
  | default
  | indexed (n : Nat)
  | rgb (r g b : Nat)
  deriving DecidableEq, Repr

/-- Graphic rendition. -/
structure Look where
  fg : Colour := .default
  bg : Colour := .default
  bold : Bool := false
  dim : Bool := false
  italic : Bool := false
  underline : Bool := false
  reverse : Bool := false
  deriving DecidableEq, Repr

/-- What terminals differ in: the columns a character takes, and how an erased cell looks. -/
structure Kind where
  width : Char → Nat
  erased : Look → Look

inductive Parse where
  | ground
  | escape
  | csi (params : List Char)
  deriving DecidableEq, Repr

structure Screen where
  rows : Nat
  cols : Nat
  cell : Nat → Nat → Char × Look
  row : Nat := 0
  col : Nat := 0
  wrap : Bool := false
  visible : Bool := true
  pen : Look := {}
  parse : Parse := .ground

namespace Screen

/-- The right half of a character of two columns. -/
def spacer : Char := '\x00'

def put (s : Screen) (row col : Nat) (ch : Char) : Screen :=
  { s with cell := fun r c => if r = row ∧ c = col then (ch,s.pen) else s.cell r c }

/-- To the start of the next line, which on the last one is a new one. -/
def newline (k : Kind) (s : Screen) : Screen :=
  if s.row + 1 < s.rows then { s with row := s.row + 1, col := 0, wrap := false }
  else { s with
    cell := fun r c => if r + 1 < s.rows then s.cell (r + 1) c else (' ',k.erased s.pen)
    col := 0
    wrap := false }

def advance (s : Screen) (w : Nat) : Screen :=
  if s.col + w < s.cols then { s with col := s.col + w } else { s with col := s.cols - 1, wrap := true }

def print (k : Kind) (s : Screen) (ch : Char) : Screen :=
  if k.width ch = 0 then s
  else
    let s := if s.wrap || decide (s.cols < s.col + k.width ch) then s.newline k else s
    let t := s.put s.row s.col ch
    let t := if k.width ch = 2 then t.put s.row (s.col + 1) spacer else t
    t.advance (k.width ch)

/-- The numbers between semicolons; a missing one is zero. -/
def params : List Char → Nat → List Nat
  | [], acc => [acc]
  | c :: rest, acc => if c = ';' then acc :: params rest 0 else params rest (10 * acc + (c.toNat - '0'.toNat))

/-- One attribute of a graphic rendition. -/
def rendition (p : Nat) (l : Look) : Look :=
  match p with
  | 0 => {}
  | 1 => { l with bold := true }
  | 2 => { l with dim := true }
  | 3 => { l with italic := true }
  | 4 => { l with underline := true }
  | 7 => { l with reverse := true }
  | 22 => { l with bold := false, dim := false }
  | 23 => { l with italic := false }
  | 24 => { l with underline := false }
  | 27 => { l with reverse := false }
  | 39 => { l with fg := .default }
  | 49 => { l with bg := .default }
  | _ =>
    if 30 ≤ p ∧ p ≤ 37 then { l with fg := .indexed (p - 30) }
    else if 40 ≤ p ∧ p ≤ 47 then { l with bg := .indexed (p - 40) }
    else if 90 ≤ p ∧ p ≤ 97 then { l with fg := .indexed (p - 82) }
    else if 100 ≤ p ∧ p ≤ 107 then { l with bg := .indexed (p - 92) }
    else l

def sgr : List Nat → Look → Look
  | 38 :: 5 :: n :: rest, l => sgr rest { l with fg := .indexed n }
  | 38 :: 2 :: r :: g :: b :: rest, l => sgr rest { l with fg := .rgb r g b }
  | 48 :: 5 :: n :: rest, l => sgr rest { l with bg := .indexed n }
  | 48 :: 2 :: r :: g :: b :: rest, l => sgr rest { l with bg := .rgb r g b }
  | p :: rest, l => sgr rest (rendition p l)
  | [], l => l

def moveTo (s : Screen) (row col : Nat) : Screen :=
  { s with row := min row (s.rows - 1), col := min col (s.cols - 1), wrap := false }

/-- Erase from the cursor on, up to the cursor, or the whole line. -/
def eraseLine (k : Kind) (s : Screen) (mode : Nat) : Screen :=
  { s with cell := fun r c =>
      if r = s.row ∧ (mode = 0 ∧ s.col ≤ c ∨ mode = 1 ∧ c ≤ s.col ∨ mode = 2) then (' ',k.erased s.pen) else s.cell r c }

def dispatch (k : Kind) (s : Screen) (text : List Char) (final : Char) : Screen :=
  if final = 'H' then
    let ps := params text 0
    s.moveTo (ps[0]?.getD 1 - 1) (ps[1]?.getD 1 - 1)
  else if final = 'K' then s.eraseLine k ((params text 0)[0]?.getD 0)
  else if final = 'm' then { s with pen := sgr (params text 0) s.pen }
  else if final = 'h' ∧ text = ['?','2','5'] then { s with visible := true }
  else if final = 'l' ∧ text = ['?','2','5'] then { s with visible := false }
  else s

def ignored (c : Char) : Bool := decide (c.toNat < 0x20) || decide (0x7f ≤ c.toNat ∧ c.toNat ≤ 0x9f)

def isParam (c : Char) : Bool := decide (0x30 ≤ c.toNat ∧ c.toNat ≤ 0x3f)

def isFinal (c : Char) : Bool := decide (0x40 ≤ c.toNat ∧ c.toNat ≤ 0x7e)

def feed (k : Kind) (s : Screen) (c : Char) : Screen :=
  match s.parse with
  | .ground => if c = '\x1b' then { s with parse := .escape } else if ignored c then s else s.print k c
  | .escape => { s with parse := if c = '[' then .csi [] else .ground }
  | .csi text =>
    if isParam c then { s with parse := .csi (text ++ [c]) }
    else if isFinal c then ({ s with parse := .ground }).dispatch k text c
    else { s with parse := .ground }

def write (k : Kind) (s : Screen) (text : List Char) : Screen := text.foldl (feed k) s

variable {k : Kind} {s : Screen}

theorem write_cons (c : Char) (rest : List Char) : s.write k (c :: rest) = (feed k s c).write k rest := rfl

theorem write_append (first second : List Char) : s.write k (first ++ second) = (s.write k first).write k second :=
  List.foldl_append

theorem write_params (collected text : List Char) (numeric : ∀ c ∈ text, isParam c = true) (state : s.parse = .csi collected) :
    s.write k text = { s with parse := .csi (collected ++ text) } := by
  induction text generalizing s collected with
  | nil =>
    rw [List.append_nil,← state]
    rfl
  | cons c rest ih =>
    have step : feed k s c = { s with parse := .csi (collected ++ [c]) } := by
      rw [feed,state]
      exact if_pos (numeric c (.head _))
    rw [write_cons,step,ih (collected ++ [c]) (fun d member => numeric d (.tail _ member)) rfl,List.append_assoc]
    rfl

/-- A control sequence is performed when its final character arrives. -/
theorem write_csi (text : List Char) (final : Char) (numeric : ∀ c ∈ text, isParam c = true) (ends : isFinal final = true)
    (ready : s.parse = .ground) : s.write k ('\x1b' :: '[' :: text ++ [final]) = s.dispatch k text final := by
  have opened : feed k (feed k s '\x1b') '[' = { s with parse := .csi [] } := by
    simp only [feed,ready]
    rfl
  have plain : isParam final = false := by
    simp only [isFinal,isParam,decide_eq_true_eq,decide_eq_false_iff_not] at ends ⊢
    omega
  rw [List.cons_append,List.cons_append,write_cons,write_cons,opened,write_append,
    write_params [] text numeric rfl,write_cons,feed]
  simp only [List.nil_append,plain,ends,if_true,Bool.false_eq_true,if_false,← ready]
  rfl

theorem write_glyph (c : Char) (printable : ignored c = false) (ready : s.parse = .ground) : s.write k [c] = s.print k c := by
  have plain : c ≠ '\x1b' := by
    rintro rfl
    cases printable
  rw [write_cons,feed,ready]
  simp only [plain,if_false,printable,Bool.false_eq_true]
  rfl

theorem write_spacer (ready : s.parse = .ground) : s.write k [spacer] = s := by
  rw [write_cons,feed,ready]
  rfl

def join : List Nat → List Char
  | [] => []
  | n :: rest => Nat.toDigits 10 n ++ rest.flatMap fun m => ';' :: Nat.toDigits 10 m

theorem digit_range {n : Nat} {c : Char} (member : c ∈ Nat.toDigits 10 n) : 48 ≤ c.toNat ∧ c.toNat ≤ 57 := by
  have digit : c.isDigit = true := Nat.isDigit_of_mem_toDigits (by decide) (by decide) member
  simp only [Char.isDigit,Bool.and_eq_true,decide_eq_true_eq] at digit
  exact digit

theorem isParam_digit {n : Nat} {c : Char} (member : c ∈ Nat.toDigits 10 n) : isParam c = true := by
  have range := digit_range member
  simp only [isParam,decide_eq_true_eq]
  omega

theorem isParam_join {ns : List Nat} : ∀ c ∈ join ns, isParam c = true := by
  intro c member
  cases ns with
  | nil => cases member
  | cons n rest =>
    rcases List.mem_append.mp member with first | later
    · exact isParam_digit first
    · obtain ⟨m,_,here⟩ := List.mem_flatMap.mp later
      rcases List.mem_cons.mp here with rfl | digit
      · decide
      · exact isParam_digit digit

theorem params_digits (text rest : List Char) (acc : Nat) (digits : ∀ c ∈ text, c ≠ ';') :
    params (text ++ rest) acc = params rest (Nat.ofDigitChars 10 text acc) := by
  induction text generalizing acc with
  | nil => rfl
  | cons c more ih =>
    rw [List.cons_append,params,if_neg (digits c (.head _)),ih _ fun d member => digits d (.tail _ member)]
    rw [Nat.ofDigitChars_cons]

theorem digits_plain {n : Nat} : ∀ c ∈ Nat.toDigits 10 n, c ≠ ';' := by
  rintro c member rfl
  have range := digit_range member
  exact absurd range (by decide)

theorem params_join (n : Nat) (rest : List Nat) : params (join (n :: rest)) 0 = n :: rest := by
  unfold join
  rw [params_digits _ _ _ digits_plain,Nat.ofDigitChars_ten_toDigits]
  induction rest generalizing n with
  | nil => rfl
  | cons m rest ih =>
    rw [List.flatMap_cons,List.cons_append,params,if_pos rfl,params_digits _ _ _ digits_plain,Nat.ofDigitChars_ten_toDigits,ih m]

end Screen
end Vt

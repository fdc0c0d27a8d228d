import Noissh.Checked
import Noissh.Machine
import Noissh.RenderTokens
import Noissh.Shell

/-! What a client writes to its terminal: diffs of the screen as they arrive, typed keys, the
overlay of predictions with the status banner over it, and the renderer. The cells of a diff are
painted as they were decoded, so the terminal sees control characters of the server's choice
exactly as far as applied diffs carry any. -/
namespace Noissh

/-- C0 but for the NUL of a spacer, DEL, and C1. -/
def isControl (c : Char) : Bool :=
  decide (0 < c.toNat ∧ c.toNat < 0x20) || c.toNat == 0x7f || decide (0x80 ≤ c.toNat ∧ c.toNat ≤ 0x9f)

namespace Diff

/-- The cells at the head of a snapshot's body, as far as they can be read. -/
def readCells : Nat → Bytes → List Cell
  | 0, _ => []
  | n + 1, buf =>
    match getCell buf with
    | .error _ => []
    | .ok (cell,rest) => cell :: readCells n rest

/-- The cells of a delta's body that lie on a screen of so many, as far as they can be read. -/
def readChanges (size : Nat) : Nat → Bytes → List Cell
  | 0, _ => []
  | n + 1, buf =>
    match getVarint buf with
    | .error _ => []
    | .ok (i,rest) =>
      match getCell rest with
      | .error _ => []
      | .ok (cell,rest) => if i < size then cell :: readChanges size n rest else readChanges size n rest

/-- The cells that a payload carries for the screen it is applied to. -/
def carried (g : Grid) (bytes : Bytes) : List Cell :=
  match getHeader bytes with
  | .error _ => []
  | .ok (header,rest) =>
    if header.rows = 0 ∨ header.cols = 0 ∨ maxCells < header.rows * header.cols then []
    else if header.tag = tagFull then readCells (header.rows * header.cols) rest
    else if header.tag = tagDelta ∧ g.rows = header.rows ∧ g.cols = header.cols then
      match getVarint rest with
      | .error _ => []
      | .ok (count,rest) => readChanges g.cells.length count rest
    else []

variable {P : Cell → Prop}

theorem setCell_all {cells out : List Cell} {i : Nat} {cell : Cell} (set : Grid.setCell cells i cell = some out)
    (old : ∀ c ∈ cells, P c) (fresh : P cell) : ∀ c ∈ out, P c := by
  unfold Grid.setCell at set
  split at set
  · cases set
    intro c member
    rcases List.mem_or_eq_of_mem_set member with before | rfl
    · exact old c before
    · exact fresh
  · cases set

/-- A property of all cells that were there and of all cells read is one of all cells written. -/
theorem applyFull_all {n i : Nat} {cells out : List Cell} {buf : Bytes} {res : Except DiffError Unit}
    (applied : applyFull n i cells buf = some (res,out)) (old : ∀ c ∈ cells, P c) (fresh : ∀ c ∈ readCells n buf, P c) :
    ∀ c ∈ out, P c := by
  induction n generalizing i cells buf with
  | zero =>
    cases applied
    exact old
  | succ n ih =>
    unfold applyFull at applied
    unfold readCells at fresh
    split at applied
    · cases applied
      exact old
    · rename_i cell rest read
      rw [read] at fresh
      obtain ⟨next,set,later⟩ := Option.bind_eq_some_iff.mp applied
      exact ih later (setCell_all set old (fresh cell (.head _))) fun c member => fresh c (.tail _ member)

theorem applyDelta_all {n : Nat} {cells : List Cell} {buf : Bytes} (old : ∀ c ∈ cells, P c)
    (fresh : ∀ c ∈ readChanges cells.length n buf, P c) : ∀ c ∈ (applyDelta n cells buf).2, P c := by
  induction n generalizing cells buf with
  | zero => exact old
  | succ n ih =>
    unfold applyDelta
    unfold readChanges at fresh
    split
    · exact old
    · rename_i i rest index
      rw [index] at fresh
      dsimp only at fresh
      split
      · exact old
      · rename_i cell rest' read
        rw [read] at fresh
        dsimp only at fresh
        split at fresh
        · rename_i inside
          rw [if_pos inside]
          refine ih (fun c member => ?_) ?_
          · rcases List.mem_or_eq_of_mem_set member with before | rfl
            · exact old c before
            · exact fresh c (.head _)
          · rw [List.length_set]
            exact fun c member => fresh c (.tail _ member)
        · rename_i outside
          rw [if_neg outside]
          exact ih old fresh

theorem finish_cells {header : Header} {g h : Grid} {written : Except DiffError Unit × List Cell} {res : Except DiffError Unit}
    (done : finish header g written = (res,h)) : h.cells = written.2 := by
  obtain ⟨_ | _,cells⟩ := written <;> cases done <;> rfl

theorem applyDiff_all {g h : Grid} {bytes : Bytes} {res : Except DiffError Unit} (applied : applyDiff g bytes = some (res,h))
    (old : ∀ c ∈ g.cells, P c) (blank : P .blank) (fresh : ∀ c ∈ carried g bytes, P c) : ∀ c ∈ h.cells, P c := by
  unfold applyDiff at applied
  unfold carried at fresh
  split at applied
  · cases applied
    exact old
  rename_i header rest read
  rw [read] at fresh
  dsimp only at fresh
  split at applied
  · cases applied
    exact old
  rename_i sized
  rw [if_neg sized] at fresh
  split at applied
  · rename_i snapshot
    rw [if_pos snapshot] at fresh
    obtain ⟨written,loop,done⟩ := Option.map_eq_some_iff.mp applied
    rw [finish_cells done]
    refine applyFull_all loop (fun c member => ?_) fresh
    split at member
    · rw [Grid.new] at member
      rw [List.eq_of_mem_replicate member]
      exact blank
    · exact old c member
  · rename_i other
    rw [if_neg other] at fresh
    split at applied
    · rename_i delta
      split at applied
      · cases applied
        exact old
      · rename_i same
        rw [if_pos ⟨delta,by omega⟩] at fresh
        split at applied
        · cases applied
          exact old
        · rename_i count body counted
          rw [counted] at fresh
          rw [finish_cells (Option.some.inj applied)]
          exact applyDelta_all old fresh
    · cases applied
      exact old

end Diff
/-- The shell and the renderer of a client, with all that was written to the terminal. -/
structure Display where
  shell : ClientShell
  renderer : Renderer := .new
  written : List Char := []

namespace Display

inductive Event where
  | stateDiff (seq base : Nat) (data : Bytes)
  | typed (bytes : Bytes)
  | inputAck (seq : Nat)
  /-- A frame is rendered, so many seconds after the last packet. -/
  | render (secs : Nat)
  | invalidate
  deriving DecidableEq, Repr

def start (rows cols : Nat) (mode : DisplayMode) : Display := { shell := (ClientShell.new rows cols).withPrediction mode }

/-- The overlay with the banner, if there is one, stamped on it. -/
def frame (d : Display) (secs : Nat) : Option Grid := do
  let overlay ← d.shell.overlay
  match statusBanner secs with
  | some banner => stampStatus overlay banner
  | none => some overlay

/-- Where the source would panic, nothing is written. -/
def step (d : Display) : Event → Display
  | .stateDiff seq base data =>
    match d.shell.applyStateDiff seq base data with
    | some (_,shell) => { d with shell }
    | none => d
  | .typed bytes => { d with shell := d.shell.typeInput bytes }
  | .inputAck seq => { d with shell := d.shell.onInputAck seq }
  | .render secs =>
    match d.frame secs with
    | some g => { d with renderer := (d.renderer.paint g).2, written := d.written ++ (d.renderer.paint g).1 }
    | none => d
  | .invalidate => { d with renderer := d.renderer.invalidate }

/-- No control character is among the cells that the diff, if it applies, carries for the screen. -/
def Harmless (d : Display) : Event → Prop
  | .stateDiff seq base data =>
    (Diff.isFull data || base == d.shell.currentSeq && decide (d.shell.currentSeq < seq)) = true →
      ∀ cell ∈ Diff.carried d.shell.grid data, isControl cell.ch = false
  | _ => True

/-- Text made of the renderer's own sequences and of characters that are no controls. -/
def Plain (text : List Char) : Prop :=
  ∃ tokens : List Token, text = tokens.flatMap Token.text ∧ ∀ ch, .glyph ch ∈ tokens → isControl ch = false

/-- No cell of the screen, of the predictor's copy or of a prediction holds a control character. -/
structure Unarmed (shell : ClientShell) : Prop where
  grid : ∀ cell ∈ shell.grid.cells, isControl cell.ch = false
  base : ∀ cell ∈ shell.predictor.base.cells, isControl cell.ch = false
  preds : ∀ q ∈ shell.predictor.preds, isControl q.ch = false

theorem new_cells (rows cols : Nat) : ∀ cell ∈ (Grid.new rows cols).cells, isControl cell.ch = false := by
  intro cell member
  rw [List.eq_of_mem_replicate member]
  decide

theorem start_unarmed (rows cols : Nat) (mode : DisplayMode) : Unarmed (start rows cols mode).shell :=
  ⟨new_cells rows cols,new_cells rows cols,nofun⟩

theorem printable_byte {byte : UInt8} (printable : 0x20 ≤ byte ∧ byte ≤ 0x7e) : isControl (Char.ofNat byte.toNat) = false := by
  have low : 0x20 ≤ byte.toNat := printable.1
  have high : byte.toNat ≤ 0x7e := printable.2
  have value : (Char.ofNat byte.toNat).toNat = byte.toNat := by
    rw [Char.ofNat,dif_pos (.inl (by omega))]
    rfl
  unfold isControl
  rw [value]
  simp only [Bool.or_eq_false_iff,decide_eq_false_iff_not,beq_eq_false_iff_ne]
  omega

/-- A key leaves the screen as it is, and predicts a printable character or nothing new. -/
theorem predictByte_unarmed {p : Predictor} (byte : UInt8) (preds : ∀ q ∈ p.preds, isControl q.ch = false) :
    (p.predictByte byte).base = p.base ∧ ∀ q ∈ (p.predictByte byte).preds, isControl q.ch = false := by
  unfold Predictor.predictByte
  split
  · rename_i printable
    dsimp only
    split
    · exact ⟨rfl,preds⟩
    · have guess : ∀ q ∈ p.preds ++ [⟨p.cursor.1,p.cursor.2,Char.ofNat byte.toNat⟩], isControl q.ch = false := by
        intro q member
        rcases List.mem_append.mp member with old | fresh
        · exact preds q old
        · rw [List.mem_singleton.mp fresh]
          exact printable_byte printable
      unfold Predictor.advanceCursor
      dsimp only
      split
      · exact ⟨rfl,guess⟩
      · split <;> exact ⟨rfl,guess⟩
  · split
    · exact ⟨rfl,nofun⟩
    · split
      · split
        · exact ⟨rfl,preds⟩
        · exact ⟨rfl,fun q member => preds q (List.dropLast_subset _ member)⟩
      · exact ⟨rfl,nofun⟩

theorem predictInput_unarmed {p : Predictor} (bytes : Bytes) (preds : ∀ q ∈ p.preds, isControl q.ch = false) :
    (p.predictInput bytes).base = p.base ∧ ∀ q ∈ (p.predictInput bytes).preds, isControl q.ch = false := by
  unfold Predictor.predictInput
  induction bytes generalizing p with
  | nil => exact ⟨rfl,preds⟩
  | cons byte rest ih =>
    obtain ⟨base,kept⟩ := predictByte_unarmed byte preds
    obtain ⟨base',kept'⟩ := ih kept
    exact ⟨base'.trans base,kept'⟩

theorem reconcile_preds {p : Predictor} {g : Grid} {q : Prediction} (member : q ∈ (p.reconcile g).preds) : q ∈ p.preds := by
  simp only [Predictor.reconcile] at member
  have kept := (List.mem_filter.mp member).1
  split at kept
  · cases kept
  · exact (List.mem_filter.mp kept).1

theorem applyStateDiff_unarmed {shell shell' : ClientShell} {seq base : Nat} {data : Bytes} {applied : Bool}
    (unarmed : Unarmed shell)
    (harmless : (Diff.isFull data || base == shell.currentSeq && decide (shell.currentSeq < seq)) = true →
      ∀ cell ∈ Diff.carried shell.grid data, isControl cell.ch = false)
    (done : shell.applyStateDiff seq base data = some (applied,shell')) : Unarmed shell' := by
  unfold ClientShell.applyStateDiff at done
  split at done
  · rename_i applicable
    have fresh := harmless applicable
    split at done
    · cases done
    · rename_i e grid failed
      cases done
      exact ⟨Diff.applyDiff_all failed unarmed.grid (by decide) fresh,unarmed.base,unarmed.preds⟩
    · rename_i grid succeeded
      cases done
      have cells := Diff.applyDiff_all succeeded unarmed.grid (by decide) fresh
      exact ⟨cells,cells,fun q member => unarmed.preds q (reconcile_preds member)⟩
  · cases done
    exact unarmed

theorem overlay_unarmed {shell : ClientShell} {g : Grid} (unarmed : Unarmed shell) (shown : shell.overlay = some g) :
    ∀ cell ∈ g.cells, isControl cell.ch = false := by
  unfold ClientShell.overlay Predictor.overlay at shown
  split at shown
  · obtain ⟨cells,painted,done⟩ := Option.bind_eq_some_iff.mp shown
    cases done
    refine Checked.foldlM_keeps (P := fun now => ∀ cell ∈ now, isControl cell.ch = false) painted
      (fun q member now next round old => ?_)
      unarmed.base
    split at round
    · exact Diff.setCell_all round old (unarmed.preds q member)
    · cases round
      exact old
  · cases shown
    exact unarmed.base

theorem decimal_plain {n : Nat} {c : Char} (member : c ∈ decimal n) : isControl c = false := by
  have digit : c.isDigit = true := Nat.isDigit_of_mem_toDigits (by decide) (by decide) member
  simp only [Char.isDigit,Bool.and_eq_true,decide_eq_true_eq] at digit
  have low : 48 ≤ c.toNat := digit.1
  have high : c.toNat ≤ 57 := digit.2
  unfold isControl
  simp only [Bool.or_eq_false_iff,decide_eq_false_iff_not,beq_eq_false_iff_ne]
  omega

theorem plain_of_all {text : List Char} (all : (text.all fun c => !isControl c) = true) : ∀ c ∈ text, isControl c = false :=
  fun c member => Bool.not_eq_true' _ ▸ List.all_eq_true.mp all c member

theorem statusBanner_plain {secs : Nat} {banner : List Char} (shown : statusBanner secs = some banner) :
    ∀ c ∈ banner, isControl c = false := by
  unfold statusBanner at shown
  split at shown
  · cases shown
  · cases shown
    have before : ∀ c ∈ "[noissh] last contact ".toList, isControl c = false := plain_of_all (by decide)
    have after : ∀ c ∈ "s ago — reconnecting…  (Ctrl-^ . to quit)".toList, isControl c = false := plain_of_all (by decide)
    intro c member
    rcases List.mem_append.mp member with first | last
    · rcases List.mem_append.mp first with words | number
      · exact before c words
      · exact decimal_plain number
    · exact after c last

theorem stampStatus_unarmed {g h : Grid} {text : List Char} (stamped : stampStatus g text = some h)
    (plain : ∀ c ∈ text, isControl c = false) (old : ∀ cell ∈ g.cells, isControl cell.ch = false) :
    ∀ cell ∈ h.cells, isControl cell.ch = false := by
  unfold stampStatus at stamped
  split at stamped
  · cases stamped
    exact old
  · obtain ⟨cells,written,done⟩ := Option.bind_eq_some_iff.mp stamped
    cases done
    refine Checked.foldlM_keeps (P := fun now => ∀ cell ∈ now, isControl cell.ch = false) written
      (fun p member now next round old => Diff.setCell_all (P := fun cell => isControl cell.ch = false) round old ?_) old
    exact plain p.1 (List.mem_of_mem_take (List.fst_mem_of_mem_zipIdx member))

theorem frame_unarmed {d : Display} {secs : Nat} {g : Grid} (unarmed : Unarmed d.shell) (shown : d.frame secs = some g) :
    ∀ cell ∈ g.cells, isControl cell.ch = false := by
  obtain ⟨overlay,painted,stamped⟩ := Option.bind_eq_some_iff.mp shown
  have cells := overlay_unarmed unarmed painted
  split at stamped
  · rename_i banner text
    exact stampStatus_unarmed stamped (statusBanner_plain text) cells
  · cases stamped
    exact cells

theorem cell_unarmed {g : Grid} (cells : ∀ cell ∈ g.cells, isControl cell.ch = false) (row col : Nat) :
    isControl (g.cell row col).ch = false := by
  unfold Grid.cell
  split
  · cases held : g.cells[g.idx row col]? with
    | none => decide
    | some cell => exact cells cell (List.mem_of_getElem? held)
  · decide

theorem paint_plain (r : Renderer) {g : Grid} (cells : ∀ cell ∈ g.cells, isControl cell.ch = false) : Plain (r.paint g).1 := by
  unfold Renderer.paint
  split
  · exact ⟨[],rfl,nofun⟩
  · refine ⟨Renderer.drawTokens r.last g,Renderer.draw_text r.last g,fun ch member => ?_⟩
    obtain ⟨row,col,rfl⟩ := Renderer.glyph_drawTokens member
    exact cell_unarmed cells row col

theorem Plain.append {first second : List Char} (one : Plain first) (two : Plain second) : Plain (first ++ second) := by
  obtain ⟨tokens,rfl,plain⟩ := one
  obtain ⟨tokens',rfl,plain'⟩ := two
  refine ⟨tokens ++ tokens',List.flatMap_append.symm,fun ch member => ?_⟩
  rcases List.mem_append.mp member with here | there
  · exact plain ch here
  · exact plain' ch there

/-- The screen is unarmed and nothing but plain text has been written. -/
structure Peaceful (d : Display) : Prop where
  unarmed : Unarmed d.shell
  plain : Plain d.written

theorem step_peaceful (d : Display) (e : Event) (peaceful : Peaceful d) (harmless : d.Harmless e) : Peaceful (d.step e) := by
  cases e with
  | stateDiff seq base data =>
    unfold step
    dsimp only
    split
    · rename_i applied shell done
      exact ⟨applyStateDiff_unarmed peaceful.unarmed harmless done,peaceful.plain⟩
    · exact peaceful
  | typed bytes =>
    obtain ⟨base,preds⟩ := predictInput_unarmed bytes peaceful.unarmed.preds
    exact ⟨⟨peaceful.unarmed.grid,fun cell member => peaceful.unarmed.base cell (base ▸ member),preds⟩,peaceful.plain⟩
  | inputAck seq => exact ⟨⟨peaceful.unarmed.grid,peaceful.unarmed.base,peaceful.unarmed.preds⟩,peaceful.plain⟩
  | render secs =>
    unfold step
    dsimp only
    split
    · rename_i g shown
      exact ⟨peaceful.unarmed,peaceful.plain.append (paint_plain _ (frame_unarmed peaceful.unarmed shown))⟩
    · exact peaceful
  | invalidate => exact ⟨peaceful.unarmed,peaceful.plain⟩

/-- In every run in which no applied diff carries a control character, whatever is typed and
whenever the banner is shown, only the renderer's own sequences and plain characters are written. -/
theorem writes_plain_text (rows cols : Nat) (mode : DisplayMode) (events : List Event)
    (harmless : Machine.Along step Harmless events (start rows cols mode)) :
    Plain (Machine.run step events (start rows cols mode)).written :=
  (Machine.run_invariant Peaceful step_peaceful events _ ⟨start_unarmed rows cols mode,[],rfl,nofun⟩ harmless).plain

/-- A letter from the server, a key typed and the banner over both. -/
theorem writes_plain_text_letter :
    Plain (Machine.run step [.stateDiff 1 0 [0,1,2,0,0,1,104,0,0,0,105,0,0,0],.typed [33],.render 7]
      (start 1 2 .always)).written :=
  writes_plain_text 1 2 .always [.stateDiff 1 0 [0,1,2,0,0,1,104,0,0,0,105,0,0,0],.typed [33],.render 7]
    ⟨fun _ => by decide,trivial,trivial,trivial⟩

/-- No control but an escape. -/
def Mild (text : List Char) : Prop := ∀ c ∈ text, c = '\x1b' ∨ isControl c = false

theorem mild_of_all {text : List Char} (all : (text.all fun c => c == '\x1b' || !isControl c) = true) : Mild text := by
  intro c member
  simpa using List.all_eq_true.mp all c member

theorem Mild.append {first second : List Char} (one : Mild first) (two : Mild second) : Mild (first ++ second) :=
  fun c member => (List.mem_append.mp member).elim (one c) (two c)

theorem Mild.ite {b : Prop} [Decidable b] {text : List Char} (mild : Mild text) : Mild (if b then text else []) := by
  split
  · exact mild
  · exact nofun

theorem decimal_mild (n : Nat) : Mild (decimal n) := fun _ member => .inr (decimal_plain member)

theorem colorCode_mild (layer : Nat) (color : Color) : Mild (colorCode layer color) := by
  have semicolon : Mild [';'] := mild_of_all (by decide)
  cases color with
  | default => exact nofun
  | indexed n =>
    have five : Mild [';','5',';'] := mild_of_all (by decide)
    exact ((semicolon.append (decimal_mild layer)).append five).append (decimal_mild n.toNat)
  | rgb r g b =>
    have two : Mild [';','2',';'] := mild_of_all (by decide)
    exact ((((semicolon.append (decimal_mild layer)).append two).append (decimal_mild r.toNat)).append
      (semicolon.append (decimal_mild g.toNat))).append (semicolon.append (decimal_mild b.toNat))

theorem sgrFor_mild (flags : UInt8) (fg bg : Color) : Mild (sgrFor flags fg bg) := by
  unfold sgrFor
  refine Mild.append
    (.append (.append (.append (.append (.append (.append (.append ?_ (.ite ?_)) (.ite ?_)) (.ite ?_)) (.ite ?_))
    (.ite ?_)) (colorCode_mild 38 fg)) (colorCode_mild 48 bg)) ?_
  all_goals exact mild_of_all (by decide)

theorem Plain.mild {text : List Char} (plain : Plain text) : Mild text := by
  obtain ⟨tokens,rfl,plain⟩ := plain
  intro c member
  obtain ⟨token,listed,here⟩ := List.mem_flatMap.mp member
  cases token with
  | moveTo row col =>
    have bracket : Mild ['\x1b','['] := mild_of_all (by decide)
    have semicolon : Mild [';'] := mild_of_all (by decide)
    have final : Mild ['H'] := mild_of_all (by decide)
    exact ((bracket.append (decimal_mild row)).append (semicolon.append (decimal_mild col))).append final c here
  | clearLine =>
    have fixed : Mild clearLine := mild_of_all (by decide)
    exact fixed c here
  | sgr flags fg bg => exact sgrFor_mild flags fg bg c here
  | cursor visible =>
    have fixed : Mild (Token.cursor visible).text := by
      cases visible <;> exact mild_of_all (by decide)
    exact fixed c here
  | glyph ch =>
    cases List.mem_singleton.mp here
    exact .inr (plain c listed)

/-- A snapshot of one cell that holds the C1 form of CSI: the terminal takes the characters after
it for a control sequence. -/
theorem csi_injected :
    ¬Plain (Machine.run step [.stateDiff 1 0 [0,1,1,0,0,1,0x9b,0x01,0,0,0],.render 0] (start 1 1 .never)).written := by
  intro plain
  have member : Char.ofNat 0x9b ∈
      (Machine.run step [.stateDiff 1 0 [0,1,1,0,0,1,0x9b,0x01,0,0,0],.render 0] (start 1 1 .never)).written := by decide
  rcases plain.mild _ member with escape | printable
  · exact absurd escape (by decide)
  · exact absurd printable (by decide)

end Display
end Noissh

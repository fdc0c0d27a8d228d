import Noissh.ClientSend
import Noissh.GridTotal
import Noissh.ServerCore
import Mathlib.Data.Nat.Log

/-! How long the screen diffs are. A diff is sealed in one datagram, or it is not sent at all. -/
namespace Noissh

namespace Wire

/-- The bytes of a varint. -/
def varintSize (v : Nat) : Nat := v.log2 / 7 + 1

theorem putVarint_size (v : Nat) : (putVarint v).length = varintSize v := by
  induction v using Nat.strongRecOn with
  | ind v ih =>
    rw [putVarint_eq]
    split
    · rename_i small
      have bits : v.log2 < 7 := by
        by_cases zero : v = 0
        · subst zero
          decide
        · exact (Nat.log2_lt zero).mpr small
      rw [List.length_singleton,varintSize,Nat.div_eq_of_lt bits]
    · rename_i large
      have shifted : (v / 128).log2 = v.log2 - 7 := by
        rw [Nat.log2_eq_log_two,Nat.log2_eq_log_two]
        exact Nat.log_div_base_pow 2 v 7
      have bits : 7 ≤ v.log2 := (Nat.le_log2 (by omega)).mpr (Nat.not_lt.mp large)
      rw [List.length_cons,ih (v / 128) (by omega),varintSize,varintSize,shifted]
      omega

theorem flatMap_size {α : Type} (l : List α) (f : α → Bytes) (size : α → Nat) (each : ∀ a, (f a).length = size a) :
    (l.flatMap f).length = (l.map size).sum := by
  rw [List.length_flatMap]
  exact congrArg List.sum (List.map_congr_left fun a _ => each a)

end Wire

open Wire

namespace Diff

def colorSize : Color → Nat
  | .default => 1
  | .indexed _ => 2
  | .rgb _ _ _ => 4

def cellSize (cell : Cell) : Nat := varintSize cell.ch.toNat + colorSize cell.fg + colorSize cell.bg + 1

def headerSize (g : Grid) : Nat :=
  varintSize g.rows + varintSize g.cols + varintSize g.cursorRow + varintSize g.cursorCol + 1

/-- A changed cell with its index. -/
def changeSize (target : Grid) (i : Nat) : Nat := varintSize i + cellSize ((target.cells[i]?).getD .blank)

def fullSize (target : Grid) : Nat := 1 + headerSize target + (target.cells.map cellSize).sum

def deltaSize (base target : Grid) : Nat :=
  1 + headerSize target + varintSize (changes base target).length + ((changes base target).map (changeSize target)).sum

def diffSize (base : Option Grid) (target : Grid) : Nat :=
  match base with
  | some b => if b.rows = target.rows ∧ b.cols = target.cols then deltaSize b target else fullSize target
  | none => fullSize target

theorem putColor_size (color : Color) : (putColor color).length = colorSize color := by
  cases color <;> rfl

theorem putCell_size (cell : Cell) : (putCell cell).length = cellSize cell := by
  simp only [putCell,cellSize,List.length_append,putVarint_size,putColor_size,List.length_singleton]

theorem putHeader_size (g : Grid) : (putHeader g).length = headerSize g := by
  simp only [putHeader,headerSize,List.length_append,putVarint_size,List.length_singleton]

theorem putChange_size (target : Grid) (i : Nat) : (putChange target i).length = changeSize target i := by
  simp only [putChange,changeSize,List.length_append,putVarint_size,putCell_size]

theorem encodeFull_size (target : Grid) : (encodeFull target).length = fullSize target := by
  simp only [encodeFull,fullSize,List.length_cons,List.length_append,putHeader_size,
    flatMap_size _ _ _ putCell_size]
  omega

theorem encodeDelta_size (base target : Grid) : (encodeDelta base target).length = deltaSize base target := by
  simp only [encodeDelta,deltaSize,List.length_cons,List.length_append,putHeader_size,putVarint_size,
    flatMap_size _ _ _ (putChange_size target)]
  omega

theorem encodeDiff_size (base : Option Grid) (target : Grid) : (encodeDiff base target).length = diffSize base target := by
  unfold encodeDiff diffSize
  cases base with
  | none => exact encodeFull_size target
  | some b =>
    dsimp only
    split
    · exact encodeDelta_size b target
    · exact encodeFull_size target

/-- Only what is rendered is sent. -/
theorem encodeDiff_view (base : Option Grid) {g h : Grid} (same : g.view = h.view) : encodeDiff base g = encodeDiff base h := by
  simp only [Grid.view,Grid.View.mk.injEq] at same
  obtain ⟨rows,cols,cells,row,col,visible⟩ := same
  unfold encodeDiff encodeDelta encodeFull changes putChange putHeader
  rw [rows,cols,cells,row,col,visible]

/-- Four bytes a cell at the least. -/
theorem fullSize_ge (target : Grid) : 4 * target.cells.length ≤ fullSize target := by
  have each : ∀ cells : List Cell, 4 * cells.length ≤ (cells.map cellSize).sum := by
    intro cells
    induction cells with
    | nil => exact Nat.zero_le _
    | cons cell rest ih =>
      have color : ∀ c, 1 ≤ colorSize c := by intro c; cases c <;> simp [colorSize]
      have fg := color cell.fg
      have bg := color cell.bg
      rw [List.length_cons,List.map_cons,List.sum_cons,cellSize,varintSize]
      omega
  exact Nat.le_trans (each target.cells) (Nat.le_add_left _ _)

end Diff

/-- A diff's frame, by the length of the diff. -/
def Frame.stateDiffSize (seq base size : Nat) : Nat := 1 + varintSize seq + varintSize base + varintSize size + size

theorem Frame.stateDiff_size (seq base : Nat) (data : Bytes) :
    (Frame.stateDiff seq base data).encode.length = stateDiffSize seq base data.length := by
  simp only [Frame.encode,stateDiffSize,putBytes,List.length_cons,List.length_append,putVarint_size]
  omega

namespace ServerShell

variable {em : Emulator}

/-- The number the screen has once it is captured. -/
def nextSeq (s : ServerShell em) : Nat := if s.screen.renderEq s.lastSent then s.seq else s.seq + 1

/-- The client has not acknowledged the screen. -/
def Behind (s : ServerShell em) : Prop := s.nextSeq ≠ s.ackedSeq

instance (s : ServerShell em) : Decidable s.Behind := inferInstanceAs (Decidable (_ ≠ _))

/-- The length of the next diff's frame. -/
def nextSize (s : ServerShell em) : Nat :=
  Frame.stateDiffSize s.nextSeq (if s.forceFull then 0 else s.ackedSeq) (Diff.diffSize s.diffBase s.screen)

theorem capture_seq (s : ServerShell em) : s.capture.seq = s.nextSeq := by
  unfold capture nextSeq
  split <;> rfl

theorem capture_kept (s : ServerShell em) : s.capture.forceFull = s.forceFull ∧ s.capture.ackedSeq = s.ackedSeq := by
  unfold capture
  split <;> exact ⟨rfl,rfl⟩

theorem capture_view (s : ServerShell em) : s.capture.lastSent.view = s.screen.view := by
  unfold capture
  split
  · rename_i same
    exact ((Grid.renderEq_iff _ _).mp same).symm
  · rfl

theorem capture_diffBase {s : ServerShell em} (behind : s.Behind) : s.capture.diffBase = s.diffBase := by
  unfold Behind nextSeq at behind
  unfold diffBase capture
  split
  · rfl
  · rename_i differs
    rw [if_neg differs] at behind
    simp [Std.TreeMap.getElem?_insert,behind]

/-- A poll sends a frame of the foreseen length when the client is behind. -/
theorem pollDiff_sends (s : ServerShell em) :
    (¬s.Behind → s.pollDiff.1 = none) ∧
      (s.Behind → ∃ frame, s.pollDiff.1 = some frame ∧ frame.encode.length = s.nextSize) := by
  obtain ⟨force,acked⟩ := s.capture_kept
  have seq := s.capture_seq
  unfold pollDiff
  dsimp only
  rw [seq,acked]
  constructor
  · intro level
    rw [if_pos (not_not.mp level)]
  · intro behind
    rw [if_neg behind]
    refine ⟨_,rfl,?_⟩
    rw [force,capture_diffBase behind,Frame.stateDiff_size,Diff.encodeDiff_view _ s.capture_view,Diff.encodeDiff_size]
    rfl

variable {snow : Snow}

/-- The diff of a poll can be sealed exactly when the client is level, or the cells to send,
with the header before them, are short enough. -/
theorem diff_seals_iff (limits : Session.SealsUpTo snow 65519) (session : Session snow) (s : ServerShell em) :
    (∀ frame, s.pollDiff.1 = some frame →
      (∃ packet, (session.sealFrames [frame]).1 = .ok packet) ∧ (encodeFrames [frame]).length ≤ 65519) ↔
      (s.Behind → s.nextSize ≤ 65519) := by
  obtain ⟨level,sends⟩ := s.pollDiff_sends
  constructor
  · intro sealed behind
    obtain ⟨frame,sent,size⟩ := sends behind
    rw [← size,← Session.encodeFrames_single]
    exact (sealed frame sent).2
  · intro short frame sent
    by_cases behind : s.Behind
    · obtain ⟨other,same,size⟩ := sends behind
      rw [sent,Option.some.injEq] at same
      subst same
      have fits : (encodeFrames [frame]).length ≤ 65519 := by
        rw [Session.encodeFrames_single,size]
        exact short behind
      obtain ⟨body,encrypted⟩ := (limits session.noise.transport session.nonce _).mpr fits
      refine ⟨?_,fits⟩
      unfold Session.sealFrames NoiseSession.encrypt
      rw [encrypted]
      exact ⟨_,rfl⟩
    · rw [level behind] at sent
      cases sent

/-- A letter was typed on a screen of two cells. -/
def typedShell : ServerShell silentEmulator := { ServerShell.new silentEmulator 1 2 with term := ⟨(),Diff.letter⟩ }

theorem typedShell_behind : typedShell.Behind ∧ typedShell.nextSize ≤ 65519 := by
  decide +kernel

theorem diff_seals_letter :
    typedShell.Behind ∧ ∀ frame, typedShell.pollDiff.1 = some frame →
      (∃ packet, ((Session.new ServerCore.sampleId ⟨(),[]⟩ none : Session Clear.noise).sealFrames [frame]).1 = .ok packet) ∧
        (encodeFrames [frame]).length ≤ 65519 :=
  ⟨typedShell_behind.1,
    (diff_seals_iff ClientCore.clear_seals (Session.new ServerCore.sampleId ⟨(),[]⟩ none) typedShell).mpr
      fun _ => typedShell_behind.2⟩

theorem resize_size {g h : Grid} {rows cols : Nat} (resized : g.resize rows cols = some h) :
    h.rows = max rows 1 ∧ h.cols = max cols 1 := by
  unfold Grid.resize at resized
  obtain ⟨cells,_,rest⟩ := Option.bind_eq_some_iff.mp resized
  obtain ⟨altSaved,_,eq⟩ := Option.bind_eq_some_iff.mp rest
  cases eq
  exact ⟨rfl,rfl⟩

/-- A window of one cell grows to 128 lines of 128: every cell is sent. -/
theorem diff_too_long :
    ∃ s, (ServerShell.new silentEmulator 1 1).resize 128 128 = some s ∧ s.screen.rows * s.screen.cols ≤ 2 ^ 20 ∧
      ∃ frame, s.pollDiff.1 = some frame ∧ 65519 < (encodeFrames [frame]).length := by
  obtain ⟨h,resized,_,_⟩ := Grid.resize_some (Grid.new_wf 1 1) rfl 128 128
  obtain ⟨rows,cols⟩ := resize_size resized
  have length := (Grid.resize_wf resized).cells
  let s : ServerShell silentEmulator := { ServerShell.new silentEmulator 1 1 with term := ⟨(),h⟩ }
  have shell : (ServerShell.new silentEmulator 1 1).resize 128 128 = some s := by
    unfold ServerShell.resize Terminal.resize
    show Option.map _ (((Grid.new 1 1).resize 128 128).bind _) = _
    rw [resized]
    rfl
  have differs : h.renderEq (Grid.new 1 1) = false := by
    rw [Grid.renderEq_eq_false_iff]
    intro same
    have height := congrArg Grid.View.rows same
    exact absurd (rows.symm.trans height) (by decide)
  have number : s.nextSeq = 1 := by
    unfold nextSeq
    rw [show s.screen.renderEq s.lastSent = false from differs]
    rfl
  have behind : s.Behind := by
    unfold Behind
    rw [number]
    exact Nat.one_ne_zero
  obtain ⟨frame,sent,size⟩ := s.pollDiff_sends.2 behind
  refine ⟨s,shell,by rw [show s.screen = h from rfl,rows,cols]; decide,frame,sent,?_⟩
  have base : s.diffBase = some (Grid.new 1 1) := Std.TreeMap.getElem?_insert_self
  have full : Diff.diffSize s.diffBase s.screen = Diff.fullSize h := by
    rw [base]
    exact if_neg fun same => absurd (same.1.trans rows) (by decide)
  have least := Diff.fullSize_ge h
  rw [length,rows,cols,show max 128 1 * max 128 1 = 16384 from rfl] at least
  rw [Session.encodeFrames_single,size,nextSize,full,Frame.stateDiffSize]
  omega

end ServerShell
end Noissh

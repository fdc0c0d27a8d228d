import Noissh.GridTotal

/-! The alternate screen. While it is shown the main screen is parked: no operation but a
resize touches it, and a resize does to it what it would have done were it shown. -/
namespace Noissh
namespace Grid

variable {g h : Grid}

/-- What may be asked of a grid: an action of the parser, or another size. -/
inductive Call where
  | perform (action : Perform)
  | resize (rows cols : Nat)

def call (width : Char → Nat) (g : Grid) : Call → Option Grid
  | .perform action => g.perform width action
  | .resize rows cols => g.resize rows cols

/-- The modes that show the alternate screen. -/
def altModes : List Nat := [47,1047,1049]

/-- A private mode of the alternate screen is set (`h`) or reset (`l`). -/
def Call.switches (action : Char) : Call → Bool
  | .perform (.csi params intermediates _ c) =>
    c == action && intermediates.head? == some 0x3f && altModes.contains (argRaw params 0 0)
  | _ => false

def Call.resets : Call → Bool
  | .perform (.esc _ _ byte) => byte == 0x63
  | _ => false

/-- The sizes a run of calls asks for, in order. -/
def sizes (calls : List Call) : List (Nat × Nat) :=
  calls.filterMap fun
    | .resize rows cols => some (rows,cols)
    | .perform _ => none

/-- Cells passed through one size after the other. -/
def resizeThrough (rows cols : Nat) (cells : List Cell) : List (Nat × Nat) → Option (List Cell)
  | [] => some cells
  | size :: rest => do
    let cells ← resizeCells cells rows cols (max size.1 1) (max size.2 1)
    resizeThrough (max size.1 1) (max size.2 1) cells rest

theorem loop_redraws {α β : Type} {span : Option β} {rounds : β → List α} {f : β → List Cell → α → Option (List Cell)}
    (run : (do let b ← span; let cells ← (rounds b).foldlM (f b) g.cells; some { g with cells }) = some h) :
    Redraws g h := by
  obtain ⟨b,_,rest⟩ := Option.bind_eq_some_iff.mp run
  obtain ⟨cells,_,eq⟩ := Option.bind_eq_some_iff.mp rest
  cases eq
  rfl

theorem scrollUp_redraws {n : Nat} (done : g.scrollUp n = some h) : Redraws g h := loop_redraws done

theorem scrollDown_redraws {n : Nat} (done : g.scrollDown n = some h) : Redraws g h := loop_redraws done

theorem lineFeed_redraws (done : g.lineFeed = some h) : Redraws g h := by
  unfold lineFeed at done
  split at done
  · exact scrollUp_redraws done
  · split at done <;> cases done <;> rfl

theorem reverseIndex_redraws (done : g.reverseIndex = some h) : Redraws g h := by
  unfold reverseIndex at done
  split at done
  · exact scrollDown_redraws done
  · split at done <;> cases done <;> rfl

theorem wrapLine_redraws (done : g.wrapLine = some h) : Redraws g h := by
  obtain ⟨k,fed,rfl⟩ := Option.map_eq_some_iff.mp done
  have redraws := lineFeed_redraws fed
  unfold Redraws at *
  rw [redraws]

theorem resolveWrap_redraws (done : g.resolveWrap = some h) : Redraws g h := by
  unfold resolveWrap at done
  split at done
  · exact wrapLine_redraws done
  · cases done
    rfl

theorem fitGlyph_redraws {w : Nat} (done : g.fitGlyph w = some h) : Redraws g h := by
  unfold fitGlyph at done
  split at done
  · split at done
    · exact wrapLine_redraws done
    · cases done
      rfl
  · cases done
    rfl

theorem placeGlyph_redraws {c : Char} {w : Nat} (done : g.placeGlyph c w = some h) : Redraws g h := by
  unfold placeGlyph at done
  obtain ⟨cells,_,rest⟩ := Option.bind_eq_some_iff.mp done
  split at rest
  · obtain ⟨cells',_,rest⟩ := Option.bind_eq_some_iff.mp rest
    repeat' split at rest
    all_goals
      cases rest
      rfl
  · repeat' split at rest
    all_goals
      cases rest
      rfl

theorem putChar_redraws {c : Char} {w : Nat} (done : g.putChar c w = some h) : Redraws g h := by
  unfold putChar at done
  split at done
  · cases done
    rfl
  · obtain ⟨wrapped,resolved,rest⟩ := Option.bind_eq_some_iff.mp done
    obtain ⟨fitted,fits,placed⟩ := Option.bind_eq_some_iff.mp rest
    exact (resolveWrap_redraws resolved).trans ((fitGlyph_redraws fits).trans (placeGlyph_redraws placed))

theorem eraseInDisplay_redraws {mode : Nat} (done : g.eraseInDisplay mode = some h) : Redraws g h := by
  unfold eraseInDisplay at done
  dsimp only at done
  repeat' split at done
  all_goals
    cases done
    try rfl

theorem eraseInLine_redraws {mode : Nat} (done : g.eraseInLine mode = some h) : Redraws g h := by
  obtain ⟨cells,_,rfl⟩ := Option.map_eq_some_iff.mp done
  rfl

theorem scrollFromCursor_redraws {scroll : Grid → Nat → Option Grid}
    (scrolls : ∀ (g h : Grid) n, scroll g n = some h → Redraws g h) {n : Nat}
    (done : scrollFromCursor scroll g n = some h) : Redraws g h := by
  unfold scrollFromCursor at done
  split at done
  · cases done
    rfl
  · obtain ⟨k,scrolled,rfl⟩ := Option.map_eq_some_iff.mp done
    have redraws := scrolls _ _ _ scrolled
    unfold Redraws at *
    rw [redraws]

/-- The alternate screen is shown, and the main one behind it holds these cells. -/
structure Parked (g : Grid) (rows cols : Nat) (main : List Cell) : Prop where
  shown : g.altScreen = true
  saved : g.altSaved = some main
  rows : g.rows = rows
  cols : g.cols = cols

variable {rows cols : Nat} {main : List Cell}

theorem Redraws.parked (redraws : Redraws g h) (parked : g.Parked rows cols main) : h.Parked rows cols main := by
  rw [redraws]
  exact ⟨parked.shown,parked.saved,parked.rows,parked.cols⟩

theorem Parked.setPrivateMode (parked : g.Parked rows cols main) {mode : Nat} {enable : Bool}
    (stays : enable = true ∨ mode ∉ altModes) : (g.setPrivateMode mode enable).Parked rows cols main := by
  unfold Grid.setPrivateMode
  split
  · exact ⟨parked.shown,parked.saved,parked.rows,parked.cols⟩
  split
  · exact ⟨parked.shown,parked.saved,parked.rows,parked.cols⟩
  split
  · rename_i alternate
    have listed : mode ∈ altModes := by
      simp only [altModes,List.mem_cons,List.not_mem_nil,or_false]
      omega
    rcases stays with rfl | unlisted
    · rw [if_pos rfl,enterAltScreen,if_pos parked.shown]
      exact parked
    · exact absurd listed unlisted
  · exact parked

theorem Parked.csiDispatch (parked : g.Parked rows cols main) {params : Params} {intermediates : Bytes} {ignore : Bool}
    {action : Char} (stays : (Call.perform (.csi params intermediates ignore action)).switches 'l' = false)
    (done : g.csiDispatch params intermediates action = some h) : h.Parked rows cols main := by
  have same : ∀ {k : Grid}, k.altScreen = g.altScreen → k.altSaved = g.altSaved → k.rows = g.rows → k.cols = g.cols →
      k.Parked rows cols main := fun shown saved rows cols =>
    ⟨shown.trans parked.shown,saved.trans parked.saved,rows.trans parked.rows,cols.trans parked.cols⟩
  unfold Grid.csiDispatch at done
  dsimp only at done
  split at done
  · cases done; exact same rfl rfl rfl rfl
  · cases done; exact same rfl rfl rfl rfl
  · cases done; exact same rfl rfl rfl rfl
  · cases done; exact same rfl rfl rfl rfl
  · obtain ⟨col,_,eq⟩ := Option.bind_eq_some_iff.mp done
    cases eq; exact same rfl rfl rfl rfl
  · obtain ⟨row,_,eq⟩ := Option.bind_eq_some_iff.mp done
    cases eq; exact same rfl rfl rfl rfl
  · obtain ⟨row,_,rest⟩ := Option.bind_eq_some_iff.mp done
    obtain ⟨col,_,eq⟩ := Option.bind_eq_some_iff.mp rest
    cases eq; exact same rfl rfl rfl rfl
  · obtain ⟨row,_,rest⟩ := Option.bind_eq_some_iff.mp done
    obtain ⟨col,_,eq⟩ := Option.bind_eq_some_iff.mp rest
    cases eq; exact same rfl rfl rfl rfl
  · exact (eraseInDisplay_redraws done).parked parked
  · exact (eraseInLine_redraws done).parked parked
  · exact Redraws.parked (loop_redraws done) parked
  · exact Redraws.parked (loop_redraws done) parked
  · exact (scrollFromCursor_redraws (fun _ _ _ => scrollDown_redraws) done).parked parked
  · exact (scrollFromCursor_redraws (fun _ _ _ => scrollUp_redraws) done).parked parked
  · exact (scrollUp_redraws done).parked parked
  · exact (scrollDown_redraws done).parked parked
  · obtain ⟨top,_,rest⟩ := Option.bind_eq_some_iff.mp done
    obtain ⟨bottom,_,region⟩ := Option.bind_eq_some_iff.mp rest
    split at region <;> cases region
    · exact same rfl rfl rfl rfl
    · exact parked
  · cases done
    unfold setSgr
    split <;> exact same rfl rfl rfl rfl
  · split at done <;> cases done
    · exact parked.setPrivateMode (.inl rfl)
    · exact parked
  · split at done <;> cases done
    · rename_i isPrivate
      apply parked.setPrivateMode
      right
      intro listed
      simp [Call.switches,isPrivate,listed] at stays
    · exact parked
  · split at done
    · cases done; exact same rfl rfl rfl rfl
    · split at done <;> cases done
      · exact same rfl rfl rfl rfl
      · exact parked
  · split at done
    · cases done; exact same rfl rfl rfl rfl
    · split at done <;> cases done
      · exact same rfl rfl rfl rfl
      · exact parked
  · cases done; exact parked

theorem Parked.execute (parked : g.Parked rows cols main) {byte : UInt8} (done : g.execute byte = some h) :
    h.Parked rows cols main := by
  unfold Grid.execute at done
  split at done
  · exact (lineFeed_redraws done).parked parked
  · repeat' split at done
    all_goals
      cases done
      exact ⟨parked.shown,parked.saved,parked.rows,parked.cols⟩

theorem Parked.escDispatch (parked : g.Parked rows cols main) {byte : UInt8} (stays : byte ≠ 0x63)
    (done : g.escDispatch byte = some h) : h.Parked rows cols main := by
  unfold Grid.escDispatch at done
  split at done
  · exact (lineFeed_redraws done).parked parked
  split at done
  · exact (reverseIndex_redraws done).parked parked
  split at done
  · have home : Parked { g with cursorCol := 0 } rows cols main := ⟨parked.shown,parked.saved,parked.rows,parked.cols⟩
    exact (lineFeed_redraws done).parked home
  split at done
  · cases done
    exact ⟨parked.shown,parked.saved,parked.rows,parked.cols⟩
  split at done
  · split at done <;> cases done
    · exact ⟨parked.shown,parked.saved,parked.rows,parked.cols⟩
    · exact parked
  · cases done
    exact parked

/-- An action of the parser leaves the parked screen alone. -/
theorem Parked.perform (parked : g.Parked rows cols main) {width : Char → Nat} {action : Perform}
    (stays : (Call.perform action).switches 'l' = false) (kept : (Call.perform action).resets = false)
    (done : g.perform width action = some h) : h.Parked rows cols main := by
  cases action with
  | print c => exact (putChar_redraws done).parked parked
  | execute byte => exact parked.execute done
  | csi params intermediates ignore action => exact parked.csiDispatch stays done
  | esc intermediates ignore byte => exact parked.escDispatch (by simpa [Call.resets] using kept) done

/-- A resize does to the parked screen what it does to a screen that is shown. -/
theorem Parked.resize (parked : g.Parked rows cols main) {rows' cols' : Nat} (done : g.resize rows' cols' = some h) :
    ∃ cells, resizeCells main rows cols (max rows' 1) (max cols' 1) = some cells ∧
      h.Parked (max rows' 1) (max cols' 1) cells := by
  unfold Grid.resize at done
  obtain ⟨cells,_,rest⟩ := Option.bind_eq_some_iff.mp done
  obtain ⟨altSaved,alt,eq⟩ := Option.bind_eq_some_iff.mp rest
  cases eq
  rw [parked.saved,parked.rows,parked.cols] at alt
  obtain ⟨cells',resized,rfl⟩ := Option.map_eq_some_iff.mp alt
  exact ⟨cells',resized,parked.shown,rfl,rfl,rfl⟩

theorem parked_run {width : Char → Nat} {calls : List Call}
    (stays : ∀ c ∈ calls, c.switches 'l' = false ∧ c.resets = false) (parked : g.Parked rows cols main)
    (run : calls.foldlM (call width) g = some h) :
    ∃ cells, resizeThrough rows cols main (sizes calls) = some cells ∧ h.Parked h.rows h.cols cells := by
  induction calls generalizing g rows cols main with
  | nil =>
    cases run
    exact ⟨main,rfl,parked.shown,parked.saved,rfl,rfl⟩
  | cons c calls ih =>
    rw [List.foldlM_cons] at run
    obtain ⟨next,once,later⟩ := Option.bind_eq_some_iff.mp run
    obtain ⟨resting,kept⟩ := stays c (by simp)
    have others := fun d member => stays d (List.mem_cons_of_mem c member)
    cases c with
    | perform action => exact ih others (parked.perform resting kept once) later
    | resize rows' cols' =>
      obtain ⟨cells,resized,parked⟩ := parked.resize once
      obtain ⟨cells',through,final⟩ := ih others parked later
      refine ⟨cells',?_,final⟩
      change (do let cells ← resizeCells main rows cols (max rows' 1) (max cols' 1)
                 resizeThrough (max rows' 1) (max cols' 1) cells (sizes calls)) = _
      rw [resized]
      exact through

/-- Switching a mode of the alternate screen on. -/
theorem switch_on {width : Char → Nat} {c : Call} (enters : c.switches 'h' = true) (done : g.call width c = some h) :
    h = g.enterAltScreen := by
  unfold Call.switches at enters
  split at enters
  · rename_i params intermediates ignore action
    simp only [Bool.and_eq_true,beq_iff_eq,List.contains_iff_mem] at enters
    obtain ⟨⟨rfl,isPrivate⟩,listed⟩ := enters
    simp only [altModes,List.mem_cons,List.not_mem_nil,or_false] at listed
    simp only [call,perform,csiDispatch,isPrivate,if_true,Option.some.injEq] at done
    rw [← done,setPrivateMode,if_neg (by omega),if_neg (by omega),if_pos (by omega),if_pos rfl]
  · cases enters

theorem switch_off {width : Char → Nat} {c : Call} (leaves : c.switches 'l' = true) (done : g.call width c = some h) :
    h = g.leaveAltScreen := by
  unfold Call.switches at leaves
  split at leaves
  · rename_i params intermediates ignore action
    simp only [Bool.and_eq_true,beq_iff_eq,List.contains_iff_mem] at leaves
    obtain ⟨⟨rfl,isPrivate⟩,listed⟩ := leaves
    simp only [altModes,List.mem_cons,List.not_mem_nil,or_false] at listed
    simp only [call,perform,csiDispatch,isPrivate,if_true,Option.some.injEq] at done
    rw [← done,setPrivateMode,if_neg (by omega),if_neg (by omega),if_pos (by omega),if_neg Bool.false_ne_true]
  · cases leaves

/-- Whatever is done on the alternate screen, leaving it shows the cells from before it was
entered, passed through the resizes in between. -/
theorem alt_screen_isolates (width : Char → Nat) (main : g.altScreen = false) {enter leave : Call} {calls : List Call}
    (enters : enter.switches 'h' = true) (stays : ∀ c ∈ calls, c.switches 'l' = false ∧ c.resets = false)
    (leaves : leave.switches 'l' = true) (run : (enter :: calls ++ [leave]).foldlM (call width) g = some h) :
    resizeThrough g.rows g.cols g.cells (sizes calls) = some h.cells := by
  rw [List.cons_append,List.foldlM_cons] at run
  obtain ⟨shown,entered,rest⟩ := Option.bind_eq_some_iff.mp run
  rw [List.foldlM_append] at rest
  obtain ⟨last,inside,left⟩ := Option.bind_eq_some_iff.mp rest
  have left : last.call width leave = some h := by simpa using left
  have parked : shown.Parked g.rows g.cols g.cells := by
    rw [switch_on enters entered,enterAltScreen,main]
    exact ⟨rfl,rfl,rfl,rfl⟩
  obtain ⟨cells,through,parked⟩ := parked_run stays parked inside
  rw [through,switch_off leaves left,leaveAltScreen,if_pos parked.shown,parked.saved]

def letterScreen : Grid := { rows := 2, cols := 2, cells := [{ ch := 'm' },.blank,.blank,.blank], scrollBottom := 1 }

/-- A letter is there again after the alternate screen was written on and resized. -/
theorem alt_screen_isolates_letter :
    resizeThrough 2 2 letterScreen.cells [(1,3)] = some [{ ch := 'm' },.blank,.blank] :=
  @alt_screen_isolates letterScreen { letterScreen with
    rows := 1, cols := 3, cells := [{ ch := 'm' },.blank,.blank], scrollBottom := 0, cursorCol := 1 } (fun _ => 1) rfl
    (.perform (.csi [[1049]] [0x3f] false 'h')) (.perform (.csi [[47]] [0x3f] false 'l'))
    [.perform (.print 'x'),.resize 1 3] (by decide) (by decide) (by decide) (by decide)

end Grid
end Noissh

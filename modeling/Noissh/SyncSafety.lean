import Noissh.Sync

/-! Numbers name screens: to one client the server gives each `seq` to one screen, and what the
client shows under a number is the screen of that number. -/
namespace Noissh

/-- A screen as it is when new. -/
def Grid.Blank (g : Grid) : Prop := g.view = (Grid.new g.rows g.cols).view

namespace Grid

variable {g h : Grid}

theorem new_blank (rows cols : Nat) : (new rows cols).Blank := by
  have row : max (max rows 1) 1 = max rows 1 := by omega
  have col : max (max cols 1) 1 = max cols 1 := by omega
  simp only [Blank,new,view,row,col]

theorem Blank.view_eq (first : g.Blank) (second : h.Blank) (size : g.size = h.size) : g.view = h.view := by
  obtain ⟨rows,cols⟩ := (size_eq_iff _ _).mp size
  rw [first,second,rows,cols]

theorem size_new (rows cols : Nat) : (new rows cols).size = (max rows 1,max cols 1) := rfl

end Grid

namespace ServerShell

variable {em : Emulator} {s t : ServerShell em} {name : Nat → Grid}

theorem capture_unchanged (same : s.screen.view = s.lastSent.view) : s.capture = s :=
  if_pos ((Grid.renderEq_iff _ _).mpr same)

theorem capture_changed (differs : s.screen.view ≠ s.lastSent.view) : s.capture =
    { s with
      seq := s.seq + 1
      history := s.history.insert (s.seq + 1) s.screen
      lastSent := s.screen } := by
  rw [ne_eq,← Grid.renderEq_iff] at differs
  exact if_neg differs

@[simp] theorem capture_term (s : ServerShell em) : s.capture.term = s.term := by
  unfold capture
  split <;> rfl

@[simp] theorem capture_ackedSeq (s : ServerShell em) : s.capture.ackedSeq = s.ackedSeq := by
  unfold capture
  split <;> rfl

@[simp] theorem capture_forceFull (s : ServerShell em) : s.capture.forceFull = s.forceFull := by
  unfold capture
  split <;> rfl

/-- What was last sent renders as the screen now does. -/
theorem capture_lastSent (s : ServerShell em) : s.capture.lastSent.view = s.screen.view := by
  by_cases same : s.screen.view = s.lastSent.view
  · rw [capture_unchanged same,same]
  · rw [capture_changed same]

@[simp] theorem onStateAck_term (s : ServerShell em) (seq : Nat) : (s.onStateAck seq).term = s.term := by
  unfold onStateAck
  split <;> rfl

@[simp] theorem onStateAck_seq (s : ServerShell em) (seq : Nat) : (s.onStateAck seq).seq = s.seq := by
  unfold onStateAck
  split <;> rfl

/-- A poll that emits nothing. -/
theorem pollDiff_quiet (caught : s.capture.seq = s.ackedSeq) : s.pollDiff = (none,s.capture) := by
  rw [← capture_ackedSeq s] at caught
  exact if_pos caught

/-- A poll that emits its diff. -/
theorem pollDiff_emits (behind : s.capture.seq ≠ s.ackedSeq) :
    s.pollDiff = (some (Sync.emission s).frame,{ s.capture with forceFull := false }) := by
  rw [← capture_ackedSeq s] at behind
  exact if_neg behind

@[simp] theorem pollDiff_term (s : ServerShell em) : s.pollDiff.2.term = s.term := by
  by_cases caught : s.capture.seq = s.ackedSeq
  · rw [pollDiff_quiet caught,capture_term]
  · rw [pollDiff_emits caught]
    exact capture_term s

theorem screen_eq_of_term (same : t.term = s.term) : t.screen = s.screen := congrArg Terminal.grid same

theorem feedOutput_keeps {bytes : Bytes} (wf : s.screen.WF) (fed : s.feedOutput bytes = some t) :
    Grid.Keeps s.screen t.screen := by
  obtain ⟨term,advanced,rfl⟩ := Option.map_eq_some_iff.mp fed
  exact Terminal.advance_keeps wf advanced

theorem resize_wf {rows cols : Nat} (resized : s.resize rows cols = some t) : t.screen.WF := by
  obtain ⟨term,done,rfl⟩ := Option.map_eq_some_iff.mp resized
  exact Terminal.resize_wf done

theorem takeResponses_wf (wf : s.screen.WF) : s.takeResponses.2.screen.WF :=
  ⟨wf.rows,wf.cols,wf.cells,wf.row,wf.col,wf.top,wf.bottom,wf.alt⟩

theorem Reachable.screen_wf (reachable : s.Reachable) : s.screen.WF := by
  induction reachable with
  | new rows cols => exact Terminal.new_wf em rows cols
  | feedOutput _ fed ih => exact (feedOutput_keeps ih fed).wf
  | resize _ resized _ => exact resize_wf resized
  | takeResponses _ ih => exact takeResponses_wf ih
  | onStateAck seq _ ih => rwa [screen_eq_of_term (onStateAck_term _ seq)]
  | ingestInput _ _ _ ih => exact ih
  | pollDiff _ ih => rwa [screen_eq_of_term (pollDiff_term _)]
  | rebind _ ih => exact ih

/-- The server's numbers name screens: that of the last diff, and those in its history. -/
structure Named (name : Nat → Grid) (s : ServerShell em) : Prop where
  wf : ∀ k, (name k).WF
  screen : s.screen.WF
  last : s.lastSent = name s.seq
  held : ∀ k g, s.history[k]? = some g → g = name k ∧ k ≤ s.seq
  acked : s.ackedSeq ≤ s.seq

/-- The numbers after a capture: the old ones, and the next one names the screen. -/
def naming (name : Nat → Grid) (s : ServerShell em) (k : Nat) : Grid := if k ≤ s.seq then name k else s.screen

theorem naming_old {k : Nat} (old : k ≤ s.seq) : s.naming name k = name k := if_pos old

theorem Named.capture (named : s.Named name) : s.capture.Named (s.naming name) := by
  have wf : ∀ k, (s.naming name k).WF := by
    intro k
    unfold naming
    split
    · exact named.wf k
    · exact named.screen
  by_cases same : s.screen.view = s.lastSent.view
  · rw [capture_unchanged same]
    refine ⟨wf,named.screen,?_,?_,named.acked⟩
    · rw [naming_old (Nat.le_refl _)]
      exact named.last
    · intro k g held
      have old := named.held k g held
      rw [naming_old old.2]
      exact old
  · rw [capture_changed same]
    refine ⟨wf,named.screen,?_,?_,Nat.le_succ_of_le named.acked⟩
    · exact (if_neg (Nat.not_succ_le_self s.seq)).symm
    · intro k g held
      rw [Std.TreeMap.getElem?_insert] at held
      split at held
      · rename_i next
        have next : s.seq + 1 = k := by simpa using next
        cases held
        subst next
        exact ⟨(if_neg (Nat.not_succ_le_self s.seq)).symm,Nat.le_refl _⟩
      · have old := named.held k g held
        rw [naming_old old.2]
        exact ⟨old.1,Nat.le_succ_of_le old.2⟩

theorem capture_seq_le (s : ServerShell em) : s.seq ≤ s.capture.seq ∧ s.capture.seq ≤ s.seq + 1 := by
  unfold ServerShell.capture
  split
  · omega
  · exact ⟨Nat.le_succ _,Nat.le_refl _⟩

/-- An acknowledgement only drops history. -/
theorem onStateAck_history (s : ServerShell em) (seq k : Nat) {g : Grid}
    (held : (s.onStateAck seq).history[k]? = some g) : s.history[k]? = some g := by
  unfold onStateAck at held
  split at held
  · simp only [Std.TreeMap.getElem?_filter',Option.filter_eq_some_iff] at held
    exact held.1
  · exact held

theorem Named.onStateAck (named : s.Named name) (seq : Nat) : (s.onStateAck seq).Named name := by
  have history := s.onStateAck_history seq
  unfold ServerShell.onStateAck at history ⊢
  split
  · rename_i taken
    refine ⟨named.wf,named.screen,named.last,?_,?_⟩
    · intro k g held
      rw [if_pos taken] at history
      exact named.held k g (history k held)
    · have some := taken.2
      rw [Std.TreeMap.contains_eq_isSome_getElem?] at some
      obtain ⟨g,held⟩ := Option.isSome_iff_exists.mp some
      exact (named.held seq g held).2
  · exact named

/-- A change to the screen alone. -/
theorem Named.term (named : s.Named name) {term : Terminal em} (wf : term.grid.WF) :
    ServerShell.Named name { s with term } := ⟨named.wf,wf,named.last,named.held,named.acked⟩

theorem Named.ingestInput (named : s.Named name) (offset : Nat) (data : Bytes) :
    (s.ingestInput offset data).2.Named name := ⟨named.wf,named.screen,named.last,named.held,named.acked⟩

theorem Named.unforced (named : s.Named name) : ServerShell.Named name { s with forceFull := false } :=
  ⟨named.wf,named.screen,named.last,named.held,named.acked⟩

end ServerShell

/-- A diff as the server makes it: from the screen of one number to that of a later one. -/
structure Emission.Sound (name : Nat → Grid) (e : Emission) : Prop where
  data : e.data = Diff.encodeDiff e.origin e.target
  target : e.target = name e.seq
  positive : 0 < e.seq
  origin : ∀ g, e.origin = some g → g = name e.base ∧ e.base < e.seq

namespace Emission

/-- The diff is a snapshot: it needs no base. -/
def Full (e : Emission) : Prop := ∀ g, e.origin = some g → g.size ≠ e.target.size

/-- The diff changes this client. -/
def Applies (e : Emission) (c : ClientShell) : Prop :=
  e.target.Fits ∧ (e.Full ∨ e.base = c.currentSeq ∧ c.currentSeq < e.seq ∧ c.grid.size = e.target.size)

variable {e : Emission} {name : Nat → Grid}

theorem Sound.full (sound : e.Sound name) (full : e.Full) : e.data = Diff.encodeFull e.target := by
  rw [sound.data]
  cases held : e.origin with
  | none => rfl
  | some g =>
    have other := full g held
    rw [ne_eq,Grid.size_eq_iff] at other
    exact if_neg other

theorem Sound.delta (sound : e.Sound name) (delta : ¬e.Full) :
    ∃ g, e.origin = some g ∧ g.size = e.target.size ∧ e.data = Diff.encodeDelta g e.target := by
  simp only [Full,ne_eq,not_forall,not_not] at delta
  obtain ⟨g,held,size⟩ := delta
  refine ⟨g,held,size,?_⟩
  rw [sound.data,held]
  exact if_pos ((Grid.size_eq_iff _ _).mp size)

theorem Sound.isFull_iff (sound : e.Sound name) : Diff.isFull e.data = true ↔ e.Full := by
  by_cases full : e.Full
  · simp only [full,sound.full full,Diff.isFull_full]
  · obtain ⟨g,_,_,data⟩ := sound.delta full
    simp only [full,data,Diff.isFull_delta,Bool.false_eq_true]

end Emission

namespace ClientShell

variable {c : ClientShell} {name : Nat → Grid}

/-- What the client shows under a number is the screen of that number; before the first it is
blank, in the client's own size. -/
structure Shows (name : Nat → Grid) (c : ClientShell) : Prop where
  wf : c.grid.WF
  blank : c.currentSeq = 0 → c.grid.Blank
  named : 0 < c.currentSeq → c.grid.view = (name c.currentSeq).view

theorem Shows.view_eq (shows_ : c.Shows name) (zero : (name 0).Blank)
    (size : c.grid.size = (name c.currentSeq).size) : c.grid.view = (name c.currentSeq).view := by
  by_cases first : c.currentSeq = 0
  · rw [first] at size ⊢
    exact (shows_.blank first).view_eq zero size
  · exact shows_.named (by omega)

/-- The diff is applied: the client shows its target. -/
def Applied (c : ClientShell) (e : Emission) (out : Option (Bool × ClientShell)) : Prop :=
  ∃ grid predictor, out = some (true,{ c with grid, currentSeq := e.seq, predictor }) ∧
    grid.view = e.target.view ∧ grid.WF

/-- Every diff of the server is applied as it was meant, or leaves the client as it was. -/
theorem applyStateDiff_sound {e : Emission} (shows_ : c.Shows name) (zero : (name 0).Blank) (sound : e.Sound name)
    (wf : e.target.WF) :
    (e.Applies c → Applied c e (c.applyStateDiff e.seq e.base e.data)) ∧
      (¬e.Applies c → c.applyStateDiff e.seq e.base e.data = some (false,c)) := by
  have applied : ∀ {out}, (Diff.isFull e.data || e.base == c.currentSeq && c.currentSeq < e.seq) = true →
      Diff.applyDiff c.grid e.data = out → Diff.Renders e.target out →
      Applied c e (c.applyStateDiff e.seq e.base e.data) := by
    intro out applicable eq ⟨grid,done,view,grid_wf⟩
    refine ⟨grid,c.predictor.reconcile grid,?_,view,grid_wf⟩
    rw [applyStateDiff,if_pos applicable,eq,done]
  have refused : ∀ {out}, Diff.applyDiff c.grid e.data = out → Diff.Refuses c.grid out →
      c.applyStateDiff e.seq e.base e.data = some (false,c) := by
    intro out eq ⟨error,done⟩
    rw [applyStateDiff]
    split
    · rw [eq,done]
    · rfl
  by_cases full : e.Full
  · have data := sound.full full
    have applicable : (Diff.isFull e.data || e.base == c.currentSeq && c.currentSeq < e.seq) = true := by
      rw [sound.isFull_iff.mpr full,Bool.true_or]
    constructor
    · intro applies
      refine applied applicable (congrArg _ data) ?_
      exact Diff.applyDiff_full shows_.wf wf applies.1
    · intro skips
      have large : ¬e.target.Fits := fun fits => skips ⟨fits,.inl full⟩
      exact refused (congrArg _ data) (Diff.applyDiff_full_large wf large)
  · obtain ⟨g,held,size,data⟩ := sound.delta full
    obtain ⟨named,older⟩ := sound.origin g held
    constructor
    · rintro ⟨fits,refl | ⟨base,newer,own⟩⟩
      · exact absurd refl full
      have same : c.grid.view = g.view := by
        rw [named,base]
        apply shows_.view_eq zero
        rw [← base,← named,size,own]
      have applicable : (Diff.isFull e.data || e.base == c.currentSeq && c.currentSeq < e.seq) = true := by
        simp [base,newer]
      exact applied applicable (congrArg _ data) (Diff.applyDiff_delta shows_.wf wf fits size same)
    · intro skips
      by_cases applicable : e.base = c.currentSeq ∧ c.currentSeq < e.seq
      · by_cases fits : e.target.Fits
        · have other : c.grid.size ≠ e.target.size := fun own => skips ⟨fits,.inr ⟨applicable.1,applicable.2,own⟩⟩
          exact refused (congrArg _ data) (Diff.applyDiff_delta_other wf.framed fits other)
        · exact refused (congrArg _ data) (Diff.applyDiff_delta_large wf fits)
      · have stale : (Diff.isFull e.data || e.base == c.currentSeq && c.currentSeq < e.seq) = false := by
          simpa [data,Diff.isFull_delta] using applicable
        rw [applyStateDiff,stale]
        rfl

end ClientShell

/-- Plain text without escape sequences, one column a character. -/
def asciiEmulator : Emulator where
  Parser := Unit
  init := ()
  advance _ bytes :=
    ((),bytes.map (fun byte => if 0x20 ≤ byte ∧ byte ≤ 0x7e then .print (Char.ofNat byte.toNat) else .execute byte))
  width _ := 1

namespace Sync

variable {em : Emulator} {s : Sync em} {name : Nat → Grid}

/-- Both ends agree on what the numbers name, and so do the diffs sent. -/
structure Agrees (name : Nat → Grid) (s : Sync em) : Prop where
  zero : (name 0).Blank
  server : s.server.Named name
  client : s.client.Shows name
  shown : 0 < s.client.currentSeq → ∃ e ∈ s.sent, e.seq = s.client.currentSeq
  sound : ∀ e ∈ s.sent, e.Sound name ∧ e.seq ≤ s.server.seq
  down : ∀ seq base data, Frame.stateDiff seq base data ∈ s.down → ∃ e ∈ s.sent, e.frame = .stateDiff seq base data

theorem Agrees.behind (agrees : s.Agrees name) : s.client.currentSeq ≤ s.server.seq := by
  by_cases first : s.client.currentSeq = 0
  · omega
  · obtain ⟨e,member,seq⟩ := agrees.shown (by omega)
    rw [← seq]
    exact (agrees.sound e member).2

theorem emission_sound (named : s.server.Named name) (behind : s.server.capture.seq ≠ s.server.ackedSeq) :
    (emission s.server).Sound (s.server.naming name) := by
  have captured := named.capture
  have acked := captured.acked
  rw [ServerShell.capture_ackedSeq] at acked
  refine ⟨rfl,captured.last,?_,?_⟩
  · show 0 < s.server.capture.seq
    omega
  · intro g held
    change s.server.capture.diffBase = some g at held
    unfold ServerShell.diffBase at held
    split at held
    · cases held
    · rename_i delta
      rw [ServerShell.capture_ackedSeq] at held
      have base : (emission s.server).base = s.server.ackedSeq := by
        show (if s.server.capture.forceFull then 0 else s.server.capture.ackedSeq) = s.server.ackedSeq
        rw [if_neg delta,ServerShell.capture_ackedSeq]
      rw [base]
      refine ⟨(captured.held _ g held).1,?_⟩
      show s.server.ackedSeq < s.server.capture.seq
      omega

/-- A capture gives out one more number; the diffs sent before keep theirs. -/
theorem Agrees.older (agrees : s.Agrees name) :
    (s.server.naming name 0).Blank ∧ s.client.Shows (s.server.naming name) ∧
      ∀ e ∈ s.sent, e.Sound (s.server.naming name) ∧ e.seq ≤ s.server.capture.seq := by
  have later := s.server.capture_seq_le.1
  refine ⟨?_,⟨agrees.client.wf,agrees.client.blank,?_⟩,?_⟩
  · rw [ServerShell.naming_old (Nat.zero_le _)]
    exact agrees.zero
  · rw [ServerShell.naming_old agrees.behind]
    exact agrees.client.named
  · intro e member
    obtain ⟨sound,old⟩ := agrees.sound e member
    refine ⟨⟨sound.data,?_,sound.positive,?_⟩,Nat.le_trans old later⟩
    · rw [ServerShell.naming_old old]
      exact sound.target
    · intro g held
      obtain ⟨named,older⟩ := sound.origin g held
      rw [ServerShell.naming_old (by omega)]
      exact ⟨named,older⟩

theorem Agrees.poll (agrees : s.Agrees name) : s.poll.Agrees (s.server.naming name) := by
  obtain ⟨zero,client,sound⟩ := agrees.older
  by_cases caught : s.server.capture.seq = s.server.ackedSeq
  · simp only [Sync.poll,ServerShell.pollDiff_quiet caught]
    exact ⟨zero,agrees.server.capture,client,agrees.shown,sound,agrees.down⟩
  · simp only [Sync.poll,ServerShell.pollDiff_emits caught]
    refine ⟨zero,agrees.server.capture.unforced,client,?_,?_,?_⟩
    · intro positive
      obtain ⟨e,member,seq⟩ := agrees.shown positive
      exact ⟨e,List.mem_append_left _ member,seq⟩
    · intro e member
      rcases List.mem_append.mp member with old | new
      · exact sound e old
      · cases List.mem_singleton.mp new
        exact ⟨emission_sound agrees.server caught,Nat.le_refl _⟩
    · intro seq base data member
      rcases List.mem_append.mp member with old | new
      · obtain ⟨e,held,frame⟩ := agrees.down seq base data old
        exact ⟨e,List.mem_append_left _ held,frame⟩
      · exact ⟨emission s.server,by simp,(List.mem_singleton.mp new).symm⟩

/-- The server changed in what no number depends on. -/
theorem Agrees.serverStep (agrees : s.Agrees name) {server : ServerShell em} (named : server.Named name)
    (seq : server.seq = s.server.seq) : Agrees name { s with server } where
  zero := agrees.zero
  server := named
  client := agrees.client
  shown := agrees.shown
  sound := by rw [seq]; exact agrees.sound
  down := agrees.down

/-- Other frames in flight, none of them a new diff. -/
theorem Agrees.flights (agrees : s.Agrees name) {down : List Frame} (up : List Frame)
    (old : ∀ seq base data, Frame.stateDiff seq base data ∈ down → Frame.stateDiff seq base data ∈ s.down) :
    Agrees name { s with down, up } where
  zero := agrees.zero
  server := agrees.server
  client := agrees.client
  shown := agrees.shown
  sound := agrees.sound
  down := fun seq base data member => agrees.down seq base data (old seq base data member)

/-- The client changed in what is not its screen. -/
theorem Agrees.clientStep (agrees : s.Agrees name) {client : ClientShell} (grid : client.grid = s.client.grid)
    (seq : client.currentSeq = s.client.currentSeq) : Agrees name { s with client } where
  zero := agrees.zero
  server := agrees.server
  client := ⟨by rw [grid]; exact agrees.client.wf,by rw [grid,seq]; exact agrees.client.blank,
    by rw [grid,seq]; exact agrees.client.named⟩
  shown := by rw [seq]; exact agrees.shown
  sound := agrees.sound
  down := agrees.down

/-- A diff moves the client to its target, or leaves it as it was. -/
theorem clientReceives_sound {c : ClientShell} {e : Emission} (shows_ : c.Shows name)
    (zero : (name 0).Blank) (sound : e.Sound name) (wf : e.target.WF) :
    (e.Applies c ∧ ∃ grid predictor, clientReceives c e.frame = { c with grid, currentSeq := e.seq, predictor } ∧
      grid.view = e.target.view ∧ grid.WF) ∨ (¬e.Applies c ∧ clientReceives c e.frame = c) := by
  obtain ⟨taken,refused⟩ := ClientShell.applyStateDiff_sound shows_ zero sound wf
  by_cases applies : e.Applies c
  · obtain ⟨grid,predictor,out,view,grid_wf⟩ := taken applies
    refine .inl ⟨applies,grid,predictor,?_,view,grid_wf⟩
    simp only [clientReceives,Emission.frame,out,Option.elim_some]
  · refine .inr ⟨applies,?_⟩
    simp only [clientReceives,Emission.frame,refused applies,Option.elim_some]

theorem Agrees.outcome (agrees : s.Agrees name) {e : Emission} (member : e ∈ s.sent) :
    (e.Applies s.client ∧ ∃ grid predictor, clientReceives s.client e.frame =
      { s.client with grid, currentSeq := e.seq, predictor } ∧
      grid.view = e.target.view ∧ grid.WF) ∨ (¬e.Applies s.client ∧ clientReceives s.client e.frame = s.client) := by
  obtain ⟨sound,_⟩ := agrees.sound e member
  have wf : e.target.WF := by rw [sound.target]; exact agrees.server.wf _
  exact clientReceives_sound agrees.client agrees.zero sound wf

/-- A diff that was sent reaches the client. -/
theorem Agrees.receives (agrees : s.Agrees name) {e : Emission} (member : e ∈ s.sent) :
    Agrees name { s with client := clientReceives s.client e.frame } := by
  obtain ⟨sound,_⟩ := agrees.sound e member
  rcases agrees.outcome member with ⟨_,grid,predictor,moved,view,grid_wf⟩ | ⟨_,same⟩
  · rw [moved]
    have named : grid.view = (name e.seq).view := by rw [view,sound.target]
    exact ⟨agrees.zero,agrees.server,⟨grid_wf,fun zero => absurd zero (Nat.ne_of_gt sound.positive),fun _ => named⟩,
      fun _ => ⟨e,member,rfl⟩,agrees.sound,agrees.down⟩
  · rw [same]
    exact agrees

theorem serverReceives_named {server : ServerShell em} (named : server.Named name) (frame : Frame) :
    (serverReceives server frame).2.Named name ∧ (serverReceives server frame).2.seq = server.seq := by
  cases frame with
  | ack seq => exact ⟨named.onStateAck seq,ServerShell.onStateAck_seq server seq⟩
  | input offset data => exact ⟨named.ingestInput offset data,rfl⟩
  | _ => exact ⟨named,rfl⟩

theorem serverReceives_reply (server : ServerShell em) (frame : Frame) (seq base : Nat) (data : Bytes) :
    Frame.stateDiff seq base data ∉ (serverReceives server frame).1 := by
  cases frame with
  | input offset bytes => simp [serverReceives,ServerShell.ingestInput]
  | _ => simp [serverReceives]

theorem Agrees.deliver (agrees : s.Agrees name) {frame : Frame} (member : frame ∈ s.down) :
    Agrees name { s with client := clientReceives s.client frame } := by
  cases frame with
  | stateDiff seq base data =>
    obtain ⟨e,sent,eq⟩ := agrees.down seq base data member
    rw [← eq]
    exact agrees.receives sent
  | ack seq => exact agrees.clientStep rfl rfl
  | _ => exact agrees

/-- What the numbers name after an action. -/
def numbering (name : Nat → Grid) (s : Sync em) : Action → Nat → Grid
  | .pollDiff => s.server.naming name
  | _ => name

theorem numbering_old (action : Action) {k : Nat} (old : k ≤ s.server.seq) : numbering name s action k = name k := by
  cases action with
  | pollDiff => exact ServerShell.naming_old old
  | _ => rfl

theorem Agrees.after_step (agrees : s.Agrees name) (action : Action) : (step s action).Agrees (numbering name s action) := by
  cases action with
  | feedOutput bytes =>
    simp only [Sync.step]
    cases fed : s.server.feedOutput bytes with
    | none => exact agrees
    | some server =>
      have wf := (ServerShell.feedOutput_keeps agrees.server.screen fed).wf
      obtain ⟨term,_,rfl⟩ := Option.map_eq_some_iff.mp fed
      exact agrees.serverStep (agrees.server.term wf) rfl
  | resize rows cols =>
    simp only [Sync.step]
    cases resized : s.server.resize rows cols with
    | none => exact agrees
    | some server =>
      have wf := ServerShell.resize_wf resized
      obtain ⟨term,_,rfl⟩ := Option.map_eq_some_iff.mp resized
      exact agrees.serverStep (agrees.server.term wf) rfl
  | takeResponses =>
    exact agrees.serverStep (agrees.server.term (ServerShell.takeResponses_wf agrees.server.screen)) rfl
  | pollDiff => exact agrees.poll
  | typeInput bytes => exact agrees.clientStep rfl rfl
  | pollFrames => exact agrees.flights _ (fun _ _ _ member => member)
  | deliverDown n =>
    simp only [Sync.step]
    split
    · exact agrees
    · rename_i frame held
      exact (agrees.deliver (List.mem_of_getElem? held)).flights _ (fun _ _ _ member => List.mem_of_mem_eraseIdx member)
  | loseDown n => exact agrees.flights _ (fun _ _ _ member => List.mem_of_mem_eraseIdx member)
  | copyDown n =>
    refine agrees.flights _ ?_
    intro seq base data member
    rcases List.mem_append.mp member with old | copy
    · exact old
    · exact List.mem_of_getElem? (Option.mem_toList.mp copy)
  | deliverUp n =>
    simp only [Sync.step]
    split
    · exact agrees
    · rename_i frame _
      obtain ⟨named,seq⟩ := serverReceives_named agrees.server frame
      refine (agrees.serverStep named seq).flights _ ?_
      intro seq base data member
      rcases List.mem_append.mp member with old | reply
      · exact old
      · exact absurd reply (serverReceives_reply _ _ _ _ _)
  | loseUp n => exact agrees.flights _ (fun _ _ _ member => member)
  | copyUp n => exact agrees.flights _ (fun _ _ _ member => member)

theorem Agrees.after_run (agrees : s.Agrees name) (schedule : List Action) : ∃ name, (run schedule s).Agrees name :=
  Machine.run_invariant_always (fun s => ∃ name, s.Agrees name)
    (fun _ action ⟨_,agrees⟩ => ⟨_,agrees.after_step action⟩) schedule s ⟨name,agrees⟩

theorem history_singleton {g h : Grid} {k : Nat}
    (held : ((∅ : Std.TreeMap Nat Grid).insert 0 g)[k]? = some h) : h = g ∧ k = 0 := by
  rw [Std.TreeMap.getElem?_insert] at held
  split at held
  · rename_i same
    have same : 0 = k := by simpa using same
    cases held
    exact ⟨rfl,same.symm⟩
  · simp at held

theorem new_shows (name : Nat → Grid) (rows cols : Nat) : (ClientShell.new rows cols).Shows name :=
  ⟨Grid.new_wf rows cols,fun _ => Grid.new_blank rows cols,fun positive => absurd positive (Nat.lt_irrefl 0)⟩

theorem opened_agrees (em : Emulator) (rows cols rows' cols' : Nat) :
    (opened em rows cols rows' cols').Agrees (fun _ => Grid.new rows cols) where
  zero := Grid.new_blank rows cols
  server := by
    refine ⟨fun _ => Grid.new_wf rows cols,Terminal.new_wf em rows cols,rfl,?_,Nat.le_refl _⟩
    intro k g held
    obtain ⟨rfl,rfl⟩ := history_singleton held
    exact ⟨rfl,Nat.le_refl _⟩
  client := new_shows _ _ _
  shown := fun positive => absurd positive (Nat.lt_irrefl 0)
  sound := fun _ member => absurd member List.not_mem_nil
  down := fun _ _ _ member => absurd member List.not_mem_nil

theorem rebound_agrees {server : ServerShell em} (reachable : server.Reachable) (rows cols : Nat) :
    (rebound server rows cols).Agrees (fun _ => Grid.new server.screen.rows server.screen.cols) where
  zero := Grid.new_blank _ _
  server := by
    refine ⟨fun _ => Grid.new_wf _ _,reachable.screen_wf,rfl,?_,Nat.zero_le _⟩
    intro k g held
    obtain ⟨rfl,rfl⟩ := history_singleton held
    exact ⟨rfl,Nat.zero_le _⟩
  client := new_shows _ _ _
  shown := fun positive => absurd positive (Nat.lt_irrefl 0)
  sound := fun _ member => absurd member List.not_mem_nil
  down := fun _ _ _ member => absurd member List.not_mem_nil

/-- A client attaches at `seq` 0: to a new shell of its own size, or to a running one that was
passed to it. -/
inductive Attached : Sync em → Prop
  | opened (rows cols : Nat) : Attached (opened em rows cols rows cols)
  | rebound {server : ServerShell em} (reachable : server.Reachable) (rows cols : Nat) :
    Attached (rebound server rows cols)

/-- Whatever is lost, doubled or delayed, the client shows the screen the server sent under
the number it reports, and only ever applies a delta to the screen it was computed from. -/
theorem screen_agreement (start : Sync em) (attached : start.Attached) (schedule : List Action) :
    let s := run schedule start
    (0 < s.client.currentSeq →
      (∃ e ∈ s.sent, e.seq = s.client.currentSeq) ∧
      ∀ e ∈ s.sent, e.seq = s.client.currentSeq → s.client.screen.renderEq e.target = true) ∧
    (∀ e ∈ s.sent, ∀ f ∈ s.sent, e.seq = f.seq → e.target = f.target) ∧
    (∀ e ∈ s.sent, ∀ client, Diff.isFull e.data = false →
      s.client.applyStateDiff e.seq e.base e.data = some (true,client) →
      ∃ base, e.origin = some base ∧ s.client.screen.renderEq base = true ∧
        client.screen.renderEq e.target = true) ∧
    (∀ seq base data, Frame.stateDiff seq base data ∈ s.down →
      ∃ e ∈ s.sent, e.frame = .stateDiff seq base data) := by
  intro s
  obtain ⟨name,agrees⟩ : ∃ name, s.Agrees name := by
    cases attached with
    | opened rows cols => exact (opened_agrees em rows cols rows cols).after_run schedule
    | rebound reachable rows cols => exact (rebound_agrees reachable rows cols).after_run schedule
  refine ⟨?_,?_,?_,agrees.down⟩
  · intro positive
    refine ⟨agrees.shown positive,?_⟩
    intro e member seq
    rw [Grid.renderEq_iff,(agrees.sound e member).1.target,seq]
    exact agrees.client.named positive
  · intro e first f second seq
    rw [(agrees.sound e first).1.target,(agrees.sound f second).1.target,seq]
  · intro e member client delta done
    obtain ⟨sound,_⟩ := agrees.sound e member
    have wf : e.target.WF := by rw [sound.target]; exact agrees.server.wf _
    obtain ⟨taken,refused⟩ := ClientShell.applyStateDiff_sound agrees.client agrees.zero sound wf
    have part : ¬e.Full := by rw [← sound.isFull_iff,delta]; simp
    by_cases applies : e.Applies s.client
    · obtain ⟨grid,predictor,out,view,_⟩ := taken applies
      rw [done] at out
      obtain ⟨g,held,size,_⟩ := sound.delta part
      obtain ⟨_,full | ⟨base,_,own⟩⟩ := applies
      · exact absurd full part
      refine ⟨g,held,?_,?_⟩
      · obtain ⟨named,_⟩ := sound.origin g held
        rw [Grid.renderEq_iff,named,base]
        apply agrees.client.view_eq agrees.zero
        rw [own,← size,named,base]
      · rw [Grid.renderEq_iff]
        cases out
        exact view
    · rw [refused applies] at done
      simp at done

/-- A shell that has sent one character to an earlier client. -/
def usedShell : ServerShell asciiEmulator :=
  (((ServerShell.new asciiEmulator 1 2).feedOutput [0x61]).getD (.new asciiEmulator 1 2)).pollDiff.2

theorem usedShell_reachable : usedShell.Reachable :=
  .pollDiff (@ServerShell.Reachable.feedOutput _ _ _ [0x61] (.new 1 2) rfl)

/-- The snapshot is doubled, one copy overtakes the delta that follows it and one is overtaken. -/
def overtaking : List Action :=
  [.pollDiff,.copyDown 0,.deliverDown 1,.feedOutput [0x62],.pollFrames,.deliverUp 0,.pollDiff,.deliverDown 1,.deliverDown 0]

theorem screen_agreement_overtaking :
    let s := run overtaking (rebound usedShell 2 2)
    s.client.currentSeq = 2 ∧ s.sent.length = 2 ∧
      ∀ e ∈ s.sent, e.seq = s.client.currentSeq → s.client.screen.renderEq e.target = true := by
  intro s
  have current : s.client.currentSeq = 2 := by decide +kernel
  refine ⟨current,by decide +kernel,?_⟩
  exact ((screen_agreement _ (.rebound usedShell_reachable 2 2) overtaking).1 (by decide +kernel)).2

end Sync
end Noissh

import Noissh.SyncProgress

/-! A client that attaches fresh, over a link that loses frames but keeps their order: it
catches up exactly when it is of the server's size, or is still owed its snapshot. -/
namespace Noissh
namespace Sync

variable {em : Emulator} {s : Sync em} {name : Nat → Grid} {first : Nat} {size : Nat × Nat}

/-- What survives arrives in order and once, and the screen keeps its size. -/
def InOrder : Action → Prop
  | .resize _ _ => False
  | .copyDown _ => False
  | .copyUp _ => False
  | .deliverDown n => n = 0
  | .deliverUp n => n = 0
  | _ => True

instance : (action : Action) → Decidable (InOrder action)
  | .resize _ _ | .copyDown _ | .copyUp _ => inferInstanceAs (Decidable False)
  | .deliverDown n | .deliverUp n => inferInstanceAs (Decidable (n = 0))
  | .feedOutput _ | .takeResponses | .pollDiff | .typeInput _ | .pollFrames | .loseDown _ | .loseUp _ =>
    inferInstanceAs (Decidable True)

def diffSeq : Frame → Option Nat
  | .stateDiff seq _ _ => some seq
  | _ => none

/-- The diffs in flight are in order, and none is behind the client. -/
structure InLine (s : Sync em) : Prop where
  sorted : (s.down.filterMap diffSeq).Pairwise (· ≤ ·)
  ahead : ∀ k ∈ s.down.filterMap diffSeq, s.client.currentSeq ≤ k

theorem InLine.notStale (line : s.InLine) {action : Action} (order : InOrder action) : NotStale s action := by
  cases action with
  | deliverDown n =>
    intro frame held
    cases frame with
    | stateDiff seq base data =>
      rintro ⟨_,older⟩
      have member : seq ∈ s.down.filterMap diffSeq := List.mem_filterMap.mpr ⟨_,List.mem_of_getElem? held,rfl⟩
      exact Nat.not_lt.mpr (line.ahead seq member) older
    | _ => exact id
  | _ => trivial

/-- Fewer frames in flight to the same client. -/
theorem InLine.fewer (line : s.InLine) {t : Sync em} (client : t.client.currentSeq = s.client.currentSeq)
    (fewer : t.down.Sublist s.down) : t.InLine := by
  have sublist := fewer.filterMap diffSeq
  refine ⟨line.sorted.sublist sublist,?_⟩
  intro k member
  rw [client]
  exact line.ahead k (sublist.subset member)

/-- More frames in flight, none of them a diff. -/
theorem InLine.replies (line : s.InLine) {t : Sync em} (client : t.client = s.client) {replies : List Frame}
    (down : t.down = s.down ++ replies) (other : ∀ seq base data, Frame.stateDiff seq base data ∉ replies) :
    t.InLine := by
  have none : replies.filterMap diffSeq = [] := by
    rw [List.filterMap_eq_nil_iff]
    intro frame member
    cases frame with
    | stateDiff seq base data => exact absurd member (other seq base data)
    | _ => rfl
  have same : t.down.filterMap diffSeq = s.down.filterMap diffSeq := by
    rw [down,List.filterMap_append,none,List.append_nil]
  refine ⟨by rw [same]; exact line.sorted,?_⟩
  rw [same,client]
  exact line.ahead

theorem InLine.poll (line : s.InLine) (agrees : s.Agrees name) : s.poll.InLine := by
  by_cases caught : s.server.capture.seq = s.server.ackedSeq
  · simp only [Sync.poll,ServerShell.pollDiff_quiet caught]
    exact ⟨line.sorted,line.ahead⟩
  · simp only [Sync.poll,ServerShell.pollDiff_emits caught]
    have later := s.server.capture_seq_le.1
    have appended : (s.down ++ [(emission s.server).frame]).filterMap diffSeq =
        s.down.filterMap diffSeq ++ [s.server.capture.seq] := by
      rw [List.filterMap_append]
      rfl
    have old : ∀ k ∈ s.down.filterMap diffSeq, k ≤ s.server.seq := by
      intro k member
      obtain ⟨frame,held,seq⟩ := List.mem_filterMap.mp member
      cases frame with
      | stateDiff seq' base data =>
        cases seq
        obtain ⟨e,sent,eq⟩ := agrees.down _ _ _ held
        have bound := (agrees.sound e sent).2
        cases eq
        exact bound
      | _ => cases seq
    refine ⟨?_,?_⟩
    · rw [appended,List.pairwise_append]
      refine ⟨line.sorted,List.pairwise_singleton _ _,?_⟩
      intro k member l new
      cases List.mem_singleton.mp new
      exact Nat.le_trans (old k member) later
    · rw [appended]
      intro k member
      rcases List.mem_append.mp member with member | new
      · exact line.ahead k member
      · cases List.mem_singleton.mp new
        exact Nat.le_trans agrees.behind later

/-- A diff leaves the client at its number or where it was. -/
theorem Agrees.receives_cases (agrees : s.Agrees name) {e : Emission} (member : e ∈ s.sent) :
    clientReceives s.client e.frame = s.client ∨ (clientReceives s.client e.frame).currentSeq = e.seq := by
  rcases agrees.outcome member with ⟨_,grid,predictor,moved,_⟩ | ⟨_,same⟩
  · rw [moved]
    exact .inr rfl
  · exact .inl same

theorem InLine.deliver (line : s.InLine) (agrees : s.Agrees name) {frame : Frame} {rest : List Frame}
    (down : s.down = frame :: rest) : InLine { s with client := clientReceives s.client frame, down := rest } := by
  have fewer : InLine { s with down := rest } := line.fewer rfl (by rw [down]; exact List.sublist_cons_self frame rest)
  cases frame with
  | stateDiff seq base data =>
    obtain ⟨e,sent,eq⟩ := agrees.down seq base data (by rw [down]; exact List.mem_cons_self)
    rcases agrees.receives_cases sent with same | moved
    · rw [eq] at same
      rw [same]
      exact fewer
    · refine ⟨fewer.sorted,?_⟩
      intro k member
      have sorted := line.sorted
      rw [down] at sorted
      have head := (List.pairwise_cons.mp sorted).1 k member
      cases eq
      change (clientReceives s.client (.stateDiff e.seq e.base e.data)).currentSeq ≤ k
      change (clientReceives s.client (.stateDiff e.seq e.base e.data)).currentSeq = e.seq at moved
      rw [moved]
      exact head
  | _ => exact ⟨fewer.sorted,fewer.ahead⟩

theorem InLine.after_step (line : s.InLine) (agrees : s.Agrees name) {action : Action} (order : InOrder action) :
    (Sync.step s action).InLine := by
  cases action with
  | feedOutput bytes =>
    simp only [Sync.step]
    cases fed : s.server.feedOutput bytes <;> exact ⟨line.sorted,line.ahead⟩
  | pollDiff => exact line.poll agrees
  | deliverDown n =>
    cases order
    simp only [Sync.step]
    cases down : s.down with
    | nil => exact line
    | cons frame rest => exact line.deliver agrees down
  | loseDown n => exact line.fewer rfl (List.eraseIdx_sublist _ _)
  | deliverUp n =>
    simp only [Sync.step]
    split
    · exact line
    · exact line.replies rfl rfl (serverReceives_reply _ _)
  | resize rows cols => exact order.elim
  | copyDown n => exact order.elim
  | copyUp n => exact order.elim
  | _ => exact ⟨line.sorted,line.ahead⟩

/-- The screens of a shell that is not resized all have one size, and the numbers given to
this client start at `first`; before, only its forced snapshot is out of line. -/
structure Fixed (first : Nat) (size : Nat × Nat) (name : Nat → Grid) (s : Sync em) : Prop where
  sizes : ∀ k, (name k).size = size
  screen : s.server.screen.size = size
  forced : s.server.forceFull = true → s.sent = []
  unforced : s.server.forceFull = false → first ≤ s.server.seq
  keys : ∀ k, s.server.history.contains k = true → k = 0 ∨ first ≤ k
  next : first ≤ s.server.seq + 1

/-- No diff is sent under a number that the history does not hold. -/
def Numbered (s : Sync em) : Action → Prop
  | .pollDiff => s.server.seq = s.server.ackedSeq ∨ s.server.history.contains s.server.seq = true ∨
      s.server.screen.renderEq s.server.lastSent = false
  | _ => True

instance (s : Sync em) : (action : Action) → Decidable (Numbered s action)
  | .pollDiff => inferInstanceAs (Decidable (_ ∨ _ ∨ _))
  | .feedOutput _ | .resize _ _ | .takeResponses | .typeInput _ | .pollFrames | .deliverDown _ | .loseDown _ | .copyDown _
  | .deliverUp _ | .loseUp _ | .copyUp _ => inferInstanceAs (Decidable True)

theorem Fixed.numberedFrom (fixed : s.Fixed first size name) (agrees : s.Agrees name) {action : Action}
    (numbered : Numbered s action) : NumberedFrom first s action := by
  cases action with
  | pollDiff =>
    intro behind
    have next := fixed.next
    by_cases same : s.server.screen.view = s.server.lastSent.view
    · rw [ServerShell.capture_unchanged same] at behind ⊢
      have acked := agrees.server.acked
      rcases numbered with caught | held | differs
      · exact absurd caught behind
      · rcases fixed.keys _ held with zero | since
        · omega
        · exact since
      · exact absurd same ((Grid.renderEq_eq_false_iff _ _).mp differs)
    · rw [ServerShell.capture_changed same]
      exact next
  | _ => trivial

theorem Fixed.naming (fixed : s.Fixed first size name) (k : Nat) : (s.server.naming name k).size = size := by
  unfold ServerShell.naming
  split
  · exact fixed.sizes k
  · exact fixed.screen

theorem Fixed.capture_keys (fixed : s.Fixed first size name) (k : Nat)
    (held : s.server.capture.history.contains k = true) : k = 0 ∨ first ≤ k := by
  have next := fixed.next
  rcases (s.server.contains_capture_iff k).mp held with old | ⟨_,new⟩
  · exact fixed.keys k old
  · omega

theorem Fixed.poll (fixed : s.Fixed first size name)
    (numbered : s.server.capture.seq ≠ s.server.ackedSeq → first ≤ s.server.capture.seq) :
    s.poll.Fixed first size (s.server.naming name) := by
  have later := s.server.capture_seq_le.1
  have next : first ≤ s.server.capture.seq + 1 := by
    have := fixed.next
    omega
  have screen : s.server.capture.screen.size = size := by
    rw [ServerShell.screen_eq_of_term s.server.capture_term]
    exact fixed.screen
  by_cases caught : s.server.capture.seq = s.server.ackedSeq
  · simp only [Sync.poll,ServerShell.pollDiff_quiet caught]
    refine ⟨fixed.naming,screen,?_,?_,fixed.capture_keys,next⟩
    · rw [ServerShell.capture_forceFull]
      exact fixed.forced
    · rw [ServerShell.capture_forceFull]
      exact fun unforced => Nat.le_trans (fixed.unforced unforced) later
  · simp only [Sync.poll,ServerShell.pollDiff_emits caught]
    exact ⟨fixed.naming,screen,fun forced => absurd forced Bool.false_ne_true,fun _ => numbered caught,
      fixed.capture_keys,next⟩

theorem Fixed.onStateAck (fixed : s.Fixed first size name) (seq : Nat) :
    Fixed first size name { s with server := s.server.onStateAck seq } := by
  by_cases taken : s.server.ackedSeq < seq ∧ s.server.history.contains seq = true
  · have eq : s.server.onStateAck seq =
        { s.server with ackedSeq := seq, history := s.server.history.filter (fun k _ => seq ≤ k) } := if_pos taken
    rw [eq]
    refine ⟨fixed.sizes,fixed.screen,fixed.forced,fixed.unforced,?_,fixed.next⟩
    intro k held
    apply fixed.keys k
    rw [Std.TreeMap.contains_eq_isSome_getElem?] at held ⊢
    simp only [Std.TreeMap.getElem?_filter'] at held
    obtain ⟨g,value⟩ := Option.isSome_iff_exists.mp held
    rw [(Option.filter_eq_some_iff.mp value).1]
    rfl
  · have same : s.server.onStateAck seq = s.server := if_neg taken
    rw [same]
    exact fixed

theorem Fixed.after_step (fixed : s.Fixed first size name) (agrees : s.Agrees name) {action : Action}
    (order : InOrder action) (numbered : NumberedFrom first s action) :
    (Sync.step s action).Fixed first size (numbering name s action) := by
  cases action with
  | feedOutput bytes =>
    simp only [Sync.step]
    cases fed : s.server.feedOutput bytes with
    | none => exact fixed
    | some server =>
      have kept := ServerShell.feedOutput_keeps agrees.server.screen fed
      have screen : server.screen.size = size := by
        rw [← fixed.screen]
        exact Prod.ext kept.rows kept.cols
      obtain ⟨term,_,rfl⟩ := Option.map_eq_some_iff.mp fed
      exact ⟨fixed.sizes,screen,fixed.forced,fixed.unforced,fixed.keys,fixed.next⟩
  | pollDiff => exact fixed.poll numbered
  | deliverDown n =>
    simp only [Sync.step]
    split <;> exact ⟨fixed.sizes,fixed.screen,fixed.forced,fixed.unforced,fixed.keys,fixed.next⟩
  | deliverUp n =>
    simp only [Sync.step]
    split
    · exact fixed
    · rename_i frame _
      cases frame with
      | ack seq =>
        have acked := fixed.onStateAck seq
        exact ⟨acked.sizes,acked.screen,acked.forced,acked.unforced,acked.keys,acked.next⟩
      | _ => exact ⟨fixed.sizes,fixed.screen,fixed.forced,fixed.unforced,fixed.keys,fixed.next⟩
  | resize rows cols => exact order.elim
  | copyDown n => exact order.elim
  | copyUp n => exact order.elim
  | _ => exact ⟨fixed.sizes,fixed.screen,fixed.forced,fixed.unforced,fixed.keys,fixed.next⟩

/-- What holds of a fresh client and its server along every run of this kind. -/
def Fresh (first : Nat) (size : Nat × Nat) (s : Sync em) : Prop :=
  ∃ name, s.Agrees name ∧ s.Tracks first ∧ s.InLine ∧ s.Fixed first size name

theorem Fresh.after_step (fresh : s.Fresh first size) {action : Action} (order : InOrder action)
    (numbered : Numbered s action) : (Sync.step s action).Fresh first size := by
  obtain ⟨name,agrees,tracks,line,fixed⟩ := fresh
  have from_ := fixed.numberedFrom agrees numbered
  exact ⟨_,agrees.after_step action,tracks.after_step agrees (line.notStale order) from_,line.after_step agrees order,
    fixed.after_step agrees order from_⟩

theorem opened_fresh (em : Emulator) (rows cols rows' cols' : Nat) :
    (opened em rows cols rows' cols').Fresh 0 (Grid.new rows cols).size := by
  refine ⟨_,opened_agrees em rows cols rows' cols',opened_tracks em rows cols rows' cols',
    ⟨List.Pairwise.nil,fun _ member => absurd member List.not_mem_nil⟩,?_⟩
  exact ⟨fun _ => rfl,rfl,fun _ => rfl,fun _ => Nat.zero_le _,fun _ _ => .inr (Nat.zero_le _),Nat.zero_le _⟩

theorem rebound_fresh {server : ServerShell em} (reachable : server.Reachable) (rows cols : Nat) :
    (rebound server rows cols).Fresh (server.seq + 1) server.screen.size := by
  have wf := reachable.screen_wf
  have blank : (Grid.new server.screen.rows server.screen.cols).size = server.screen.size := by
    rw [Grid.size_new,Nat.max_eq_left wf.rows,Nat.max_eq_left wf.cols]
    rfl
  refine ⟨_,rebound_agrees reachable rows cols,?_,⟨List.Pairwise.nil,fun _ member => absurd member List.not_mem_nil⟩,?_⟩
  · refine ⟨Std.TreeMap.contains_insert_self,?_,Nat.le_refl _,fun _ member => absurd member List.not_mem_nil,
      fun _ member => absurd member List.not_mem_nil⟩
    intro k since _ upTo
    exact absurd (Nat.le_trans since upTo) (Nat.not_succ_le_self _)
  · refine ⟨fun _ => blank,rfl,fun _ => rfl,fun unforced => absurd unforced Bool.false_ne_true.symm,?_,Nat.le_refl _⟩
    intro k held
    rw [Std.TreeMap.contains_eq_isSome_getElem?] at held
    obtain ⟨g,value⟩ := Option.isSome_iff_exists.mp held
    exact .inl (history_singleton value).2

/-- The client is of the server's size, or is still owed a snapshot that the next poll sends. -/
def Ready (s : Sync em) : Prop :=
  s.client.grid.size = s.server.screen.size ∨
    s.server.forceFull = true ∧ (0 < s.server.seq ∨ s.server.screen.renderEq s.server.lastSent = false)

instance (s : Sync em) : Decidable s.Ready := inferInstanceAs (Decidable (_ ∨ _))

/-- As long as the snapshot is owed, nothing was sent and nothing acknowledged. -/
theorem Fixed.owed (fixed : s.Fixed first size name) (agrees : s.Agrees name) (tracks : s.Tracks first)
    (forced : s.server.forceFull = true) : s.client.currentSeq = 0 ∧ s.server.ackedSeq = 0 := by
  have behind := tracks.behind
  have zero : s.client.currentSeq = 0 := by
    by_contra shown
    obtain ⟨e,member,_⟩ := agrees.shown (by omega)
    rw [fixed.forced forced] at member
    exact absurd member List.not_mem_nil
  exact ⟨zero,by omega⟩

/-- The snapshot that is owed brings the client up to date. -/
theorem Agrees.round_forced (agrees : s.Agrees name) (fits : s.server.screen.Fits) (forced : s.server.forceFull = true)
    (behind : s.server.capture.seq ≠ s.server.ackedSeq) :
    (round s).client.grid.view = (round s).server.screen.view := by
  have full : (emission s.server).Full := by
    intro g held
    change s.server.capture.diffBase = some g at held
    rw [ServerShell.diffBase,ServerShell.capture_forceFull,if_pos forced] at held
    cases held
  rw [round_screen,round_emits behind]
  exact ((agrees.caughtUp_cases behind).1 ⟨emission_fits fits,.inl full⟩).1

theorem Fixed.converges (fixed : s.Fixed first size name) (agrees : s.Agrees name) (tracks : s.Tracks first)
    (fits : s.server.screen.Fits) (ready : s.Ready) :
    (round (round s)).client.grid.view = (round (round s)).server.screen.view := by
  have matched : s.client.grid.size = s.server.screen.size → s.Matched name := by
    intro same _
    rw [same,fixed.screen,fixed.sizes]
  by_cases forced : s.server.forceFull = true
  · apply agrees.after_round.round_keeps
    obtain ⟨zero,acked⟩ := fixed.owed agrees tracks forced
    rcases ready with same | ⟨_,sends⟩
    · exact agrees.round_converges (matched same) fits (acked.trans zero.symm)
    · apply agrees.round_forced fits forced
      rw [acked]
      rcases sends with later | differs
      · have := s.server.capture_seq_le.1
        omega
      · rw [ServerShell.capture_changed ((Grid.renderEq_eq_false_iff _ _).mp differs)]
        exact Nat.succ_ne_zero _
  · rcases ready with same | ⟨owed,_⟩
    · have since := fixed.unforced (Bool.eq_false_iff.mpr forced)
      exact tracks.two_rounds agrees (matched same) fits
        (fun _ => Nat.le_trans since s.server.capture_seq_le.1)
    · exact absurd owed forced

/-- A round changes nothing for a client of another size that is owed no snapshot. -/
theorem Agrees.round_stuck (agrees : s.Agrees name) (tracks : s.Tracks first)
    (sizes : ∀ k, (name k).size = s.server.screen.size) (other : s.client.grid.size ≠ s.server.screen.size)
    (idle : s.server.forceFull = false ∨ s.server.capture.seq = s.server.ackedSeq) :
    (round s).client = s.client ∧
      ((round s).server.forceFull = false ∨ (round s).server.capture.seq = (round s).server.ackedSeq) := by
  have zero : s.client.currentSeq = 0 := by
    by_contra shown
    apply other
    rw [Grid.size_eq_of_view (agrees.client.named (by omega)),sizes]
  by_cases caught : s.server.capture.seq = s.server.ackedSeq
  · have old := ServerShell.onStateAck_old (s := s.server.capture) (Nat.le_trans (Nat.le_of_eq zero) (Nat.zero_le _))
    rw [round_quiet caught,old]
    refine ⟨rfl,.inr ?_⟩
    have again : s.server.capture.capture = s.server.capture := by
      apply ServerShell.capture_unchanged
      rw [ServerShell.screen_eq_of_term s.server.capture_term]
      exact s.server.capture_lastSent.symm
    show s.server.capture.capture.seq = s.server.capture.ackedSeq
    rw [again,ServerShell.capture_ackedSeq,caught]
  · have unforced : s.server.forceFull = false := idle.resolve_right caught
    have skips : ¬(emission s.server).Applies s.client := by
      have target : (emission s.server).target.size = s.server.screen.size :=
        Grid.size_eq_of_view s.server.capture_lastSent
      rintro ⟨_,full | ⟨_,_,own⟩⟩
      · have held := ServerShell.capture_contains tracks.acked
        rw [Std.TreeMap.contains_eq_isSome_getElem?] at held
        obtain ⟨g,value⟩ := Option.isSome_iff_exists.mp held
        have origin : (emission s.server).origin = some g := by
          show s.server.capture.diffBase = some g
          rw [ServerShell.diffBase,ServerShell.capture_forceFull,unforced,ServerShell.capture_ackedSeq]
          exact value
        obtain ⟨named,_⟩ := (emission_sound agrees.server caught).origin g origin
        apply full g origin
        rw [target,named]
        unfold ServerShell.naming
        split
        · exact sizes _
        · rfl
      · exact other (own.trans target)
    have same := (agrees.caughtUp_cases caught).2 skips
    have old := ServerShell.onStateAck_old (s := { s.server.capture with forceFull := false })
      (Nat.le_trans (Nat.le_of_eq zero) (Nat.zero_le _))
    rw [round_emits caught,same,old]
    exact ⟨rfl,.inl rfl⟩

theorem Fixed.stuck (fixed : s.Fixed first size name) (agrees : s.Agrees name) (tracks : s.Tracks first)
    (notReady : ¬s.Ready) : (round (round s)).client.grid.size ≠ (round (round s)).server.screen.size := by
  obtain ⟨other,idle⟩ : s.client.grid.size ≠ s.server.screen.size ∧
      (s.server.forceFull = false ∨ s.server.capture.seq = s.server.ackedSeq) := by
    unfold Ready at notReady
    push Not at notReady
    refine ⟨notReady.1,?_⟩
    by_cases forced : s.server.forceFull = true
    · obtain ⟨seq,same⟩ := notReady.2 forced
      obtain ⟨_,acked⟩ := fixed.owed agrees tracks forced
      rw [ne_eq,Grid.renderEq_eq_false_iff,not_not] at same
      rw [ServerShell.capture_unchanged same,acked]
      exact .inr (by omega)
    · exact .inl (Bool.eq_false_iff.mpr forced)
  have sizes : ∀ k, (name k).size = s.server.screen.size := fun k => (fixed.sizes k).trans fixed.screen.symm
  have numbered : s.server.capture.seq ≠ s.server.ackedSeq → first ≤ s.server.capture.seq := by
    intro behind
    exact Nat.le_trans (fixed.unforced (idle.resolve_right behind)) s.server.capture_seq_le.1
  obtain ⟨same,idle'⟩ := agrees.round_stuck tracks sizes other idle
  have sizes' : ∀ k, (s.server.naming name k).size = (round s).server.screen.size := by
    intro k
    rw [round_screen,fixed.naming,fixed.screen]
  have other' : (round s).client.grid.size ≠ (round s).server.screen.size := by
    rw [same,round_screen]
    exact other
  obtain ⟨same',_⟩ := agrees.after_round.round_stuck (tracks.after_round agrees numbered) sizes' other' idle'
  rw [same',round_screen]
  exact other'

/-- A new client has just come, of any size: to a shell opened for it, or to a running one. -/
inductive NewClient : Sync em → Prop
  | opened (rows cols rows' cols' : Nat) : NewClient (opened em rows cols rows' cols')
  | rebound {server : ServerShell em} (reachable : server.Reachable) (rows cols : Nat) :
    NewClient (rebound server rows cols)

theorem NewClient.fresh {start : Sync em} (new : NewClient start) :
    ∃ first, start.Fresh first start.server.screen.size := by
  cases new with
  | opened rows cols rows' cols' => exact ⟨0,opened_fresh em rows cols rows' cols'⟩
  | rebound reachable rows cols => exact ⟨_,rebound_fresh reachable rows cols⟩

/-- However many frames are lost, in order as they are a new client catches up in two lossless
rounds exactly when it is of the server's size, or its snapshot is still to be sent. -/
theorem new_client_converges_iff (start : Sync em) (new : NewClient start) (fits : start.server.screen.Fits)
    (schedule : List Action) (meets : Machine.Along step (fun s action => InOrder action ∧ Numbered s action) schedule start) :
    let s := run schedule start
    (round (round s)).client.screen.renderEq (round (round s)).server.screen = true ↔ s.Ready := by
  intro s
  obtain ⟨first,fresh⟩ := new.fresh
  obtain ⟨name,agrees,tracks,_,fixed⟩ : s.Fresh first start.server.screen.size :=
    Machine.run_invariant (Fresh first _) (fun _ _ fresh meets => fresh.after_step meets.1 meets.2) schedule start fresh
      meets
  have fits : s.server.screen.Fits := by
    obtain ⟨rows,cols⟩ := (Grid.size_eq_iff _ _).mp fixed.screen
    show s.server.screen.rows * s.server.screen.cols ≤ Diff.maxCells
    rw [rows,cols]
    exact fits
  rw [Grid.renderEq_iff]
  constructor
  · intro same
    by_contra notReady
    exact fixed.stuck agrees tracks notReady (Grid.size_eq_of_view same)
  · exact fixed.converges agrees tracks fits

/-- The snapshot arrives and the deltas after it are lost. -/
def snapshotFirst : List Action :=
  [.pollDiff,.feedOutput [0x62],.pollDiff,.deliverDown 0,.loseDown 0,.pollFrames,.loseUp 0,.feedOutput [0x63]]

theorem new_client_converges_snapshotFirst :
    let s := run snapshotFirst (rebound usedShell 2 2)
    s.Ready ∧ (round (round s)).client.screen.renderEq (round (round s)).server.screen = true := by
  intro s
  have ready : s.Ready := by decide +kernel
  have converges := new_client_converges_iff (rebound usedShell 2 2) (.rebound usedShell_reachable 2 2) (by decide +kernel)
    snapshotFirst (by decide +kernel)
  exact ⟨ready,converges.mpr ready⟩

/-- A shell whose screen is blank again, after it sent two screens to an earlier client. -/
def clearedShell : ServerShell asciiEmulator :=
  ((usedShell.feedOutput [0x0d,0x20,0x0d]).getD usedShell).pollDiff.2

theorem clearedShell_reachable : clearedShell.Reachable :=
  .pollDiff (@ServerShell.Reachable.feedOutput _ _ _ [0x0d,0x20,0x0d] usedShell_reachable rfl)

/-- The snapshot is lost. -/
def lostSnapshot : List Action := [.pollDiff,.loseDown 0]

/-- The snapshot of a blank screen arrives, and then the screen changes. -/
def blankSnapshot : List Action := [.pollDiff,.deliverDown 0,.feedOutput [0x62]]

/-- Two ways to lose a new client for good: its snapshot is lost and it is of another size, or
it is sent a blank screen under a number that the server does not hold. -/
theorem new_client_stuck :
    usedShell.Reachable ∧ clearedShell.Reachable ∧ (∀ action ∈ lostSnapshot ++ blankSnapshot, InOrder action) ∧
    (round (round (run lostSnapshot (rebound usedShell 2 2)))).client.screen.renderEq
      (round (round (run lostSnapshot (rebound usedShell 2 2)))).server.screen = false ∧
    (round (round (run blankSnapshot (rebound clearedShell 1 2)))).client.screen.renderEq
      (round (round (run blankSnapshot (rebound clearedShell 1 2)))).server.screen = false := by
  refine ⟨usedShell_reachable,clearedShell_reachable,?_,?_,?_⟩
  · decide
  · decide +kernel
  · decide +kernel

end Sync
end Noissh

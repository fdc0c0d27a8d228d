import Noissh.SyncSafety

/-! The server keeps the screen its client shows, as long as no old snapshot overwrites a newer
one; then two lossless rounds bring the client up to date. -/
namespace Noissh

namespace ServerShell

variable {em : Emulator} {s : ServerShell em}

theorem capture_contains {k : Nat} (held : s.history.contains k = true) : s.capture.history.contains k = true := by
  by_cases same : s.screen.view = s.lastSent.view
  · rwa [capture_unchanged same]
  · rw [capture_changed same]
    simp [held]

/-- The numbers held after a capture: those held before, and the new one if there is one. -/
theorem contains_capture_iff (s : ServerShell em) (k : Nat) :
    s.capture.history.contains k = true ↔
      s.history.contains k = true ∨ s.capture.seq = s.seq + 1 ∧ k = s.seq + 1 := by
  by_cases same : s.screen.view = s.lastSent.view
  · simp [capture_unchanged same]
  · have key : (compare (s.seq + 1) k == .eq) = true ↔ k = s.seq + 1 := by
      rw [beq_iff_eq,Nat.compare_eq_eq]
      exact eq_comm
    rw [capture_changed same]
    simp only [Std.TreeMap.contains_insert,Bool.or_eq_true,key,true_and]
    exact or_comm

theorem onStateAck_contains (s : ServerShell em) (seq k : Nat) (later : (s.onStateAck seq).ackedSeq ≤ k)
    (held : s.history.contains k = true) : (s.onStateAck seq).history.contains k = true := by
  unfold onStateAck at later ⊢
  split
  · rename_i taken
    rw [if_pos taken] at later
    rw [Std.TreeMap.contains_eq_isSome_getElem?] at held ⊢
    obtain ⟨g,value⟩ := Option.isSome_iff_exists.mp held
    simp only [Std.TreeMap.getElem?_filter',value,Option.filter_some]
    simpa using later
  · exact held

theorem onStateAck_of_held {seq : Nat} (newer : s.ackedSeq < seq) (held : s.history.contains seq = true) :
    (s.onStateAck seq).ackedSeq = seq := by
  rw [onStateAck,if_pos ⟨newer,held⟩]

theorem onStateAck_old {seq : Nat} (old : seq ≤ s.ackedSeq) : s.onStateAck seq = s :=
  if_neg (fun taken => Nat.not_lt.mpr old taken.1)

end ServerShell

namespace Sync

variable {em : Emulator} {s : Sync em} {name : Nat → Grid} {first : Nat}

/-- The server follows its client: it holds every screen from the acknowledged one on that it
has numbered from `first` on, and the client is never behind what it acknowledged. -/
structure Tracks (first : Nat) (s : Sync em) : Prop where
  acked : s.server.history.contains s.server.ackedSeq = true
  kept : ∀ k, first ≤ k → s.server.ackedSeq ≤ k → k ≤ s.server.seq → s.server.history.contains k = true
  behind : s.server.ackedSeq ≤ s.client.currentSeq
  sent : ∀ e ∈ s.sent, first ≤ e.seq
  acks : ∀ k, Frame.ack k ∈ s.up → k ≤ s.client.currentSeq

/-- The server holds the screen the client shows. -/
theorem Tracks.current (tracks : s.Tracks first) (agrees : s.Agrees name) :
    s.server.history.contains s.client.currentSeq = true := by
  have behind := tracks.behind
  by_cases zero : s.client.currentSeq = 0
  · have acked := tracks.acked
    rwa [show s.server.ackedSeq = s.client.currentSeq by omega] at acked
  · obtain ⟨e,member,seq⟩ := agrees.shown (by omega)
    apply tracks.kept
    · rw [← seq]
      exact tracks.sent e member
    · exact behind
    · exact agrees.behind

/-- A snapshot older than what the client shows. -/
def Stale (c : ClientShell) : Frame → Prop
  | .stateDiff seq _ data => Diff.isFull data = true ∧ seq < c.currentSeq
  | _ => False

instance (c : ClientShell) (frame : Frame) : Decidable (Stale c frame) := by
  unfold Stale
  cases frame <;> infer_instance

/-- The client is not handed a snapshot older than what it shows. -/
def NotStale (s : Sync em) : Action → Prop
  | .deliverDown n => ∀ frame ∈ s.down[n]?, ¬Stale s.client frame
  | _ => True

instance (s : Sync em) (action : Action) : Decidable (NotStale s action) := by
  unfold NotStale
  cases action <;> infer_instance

/-- Whether a diff applies or not, it does not lead the client back unless it is stale. -/
theorem Agrees.receives_seq (agrees : s.Agrees name) {e : Emission} (member : e ∈ s.sent)
    (fresh : ¬Stale s.client e.frame) :
    s.client.currentSeq ≤ (clientReceives s.client e.frame).currentSeq := by
  rcases agrees.outcome member with ⟨⟨_,full | ⟨_,newer,_⟩⟩,grid,predictor,moved,_⟩ | ⟨_,same⟩
  · rw [moved]
    by_contra older
    exact fresh ⟨(agrees.sound e member).1.isFull_iff.mpr full,Nat.lt_of_not_le older⟩
  · rw [moved]
    exact Nat.le_of_lt newer
  · exact Nat.le_of_eq (by rw [same])

theorem Agrees.deliver_seq (agrees : s.Agrees name) {frame : Frame} (member : frame ∈ s.down)
    (fresh : ¬Stale s.client frame) : s.client.currentSeq ≤ (clientReceives s.client frame).currentSeq := by
  cases frame with
  | stateDiff seq base data =>
    obtain ⟨e,sent,eq⟩ := agrees.down seq base data member
    rw [← eq] at fresh ⊢
    exact agrees.receives_seq sent fresh
  | _ => exact Nat.le_refl _

theorem Tracks.poll (tracks : s.Tracks first)
    (numbered : s.server.capture.seq ≠ s.server.ackedSeq → first ≤ s.server.capture.seq) : s.poll.Tracks first := by
  have acked : s.server.capture.history.contains s.server.ackedSeq = true :=
    ServerShell.capture_contains tracks.acked
  have kept : ∀ k, first ≤ k → s.server.ackedSeq ≤ k → k ≤ s.server.capture.seq →
      s.server.capture.history.contains k = true := by
    intro k from_ later upTo
    rw [ServerShell.contains_capture_iff]
    by_cases old : k ≤ s.server.seq
    · exact .inl (tracks.kept k from_ later old)
    · have := s.server.capture_seq_le.2
      exact .inr ⟨by omega,by omega⟩
  by_cases caught : s.server.capture.seq = s.server.ackedSeq
  · simp only [Sync.poll,ServerShell.pollDiff_quiet caught]
    rw [← ServerShell.capture_ackedSeq] at acked kept
    refine ⟨acked,kept,?_,tracks.sent,tracks.acks⟩
    rw [ServerShell.capture_ackedSeq]
    exact tracks.behind
  · simp only [Sync.poll,ServerShell.pollDiff_emits caught]
    rw [← ServerShell.capture_ackedSeq] at acked kept
    refine ⟨acked,kept,?_,?_,tracks.acks⟩
    · rw [ServerShell.capture_ackedSeq]
      exact tracks.behind
    · intro e member
      rcases List.mem_append.mp member with old | new
      · exact tracks.sent e old
      · cases List.mem_singleton.mp new
        exact numbered caught

/-- The server changed in what it does not follow its client by. -/
theorem Tracks.serverStep (tracks : s.Tracks first) {server : ServerShell em} (history : server.history = s.server.history)
    (acked : server.ackedSeq = s.server.ackedSeq) (seq : server.seq = s.server.seq) : Tracks first { s with server } where
  acked := by rw [history,acked]; exact tracks.acked
  kept := by rw [history,acked,seq]; exact tracks.kept
  behind := by rw [acked]; exact tracks.behind
  sent := tracks.sent
  acks := tracks.acks

theorem Tracks.onStateAck (tracks : s.Tracks first) {k : Nat} (upTo : k ≤ s.client.currentSeq) :
    Tracks first { s with server := s.server.onStateAck k } := by
  by_cases taken : s.server.ackedSeq < k ∧ s.server.history.contains k = true
  · have acked : (s.server.onStateAck k).ackedSeq = k := ServerShell.onStateAck_of_held taken.1 taken.2
    have seq : (s.server.onStateAck k).seq = s.server.seq := s.server.onStateAck_seq k
    refine ⟨?_,?_,?_,tracks.sent,tracks.acks⟩
    · show (s.server.onStateAck k).history.contains (s.server.onStateAck k).ackedSeq = true
      apply ServerShell.onStateAck_contains _ _ _ (Nat.le_refl _)
      rw [acked]
      exact taken.2
    · intro j from_ later upTo
      apply ServerShell.onStateAck_contains _ _ _ later
      refine tracks.kept j from_ ?_ (by rw [← seq]; exact upTo)
      change (s.server.onStateAck k).ackedSeq ≤ j at later
      omega
    · show (s.server.onStateAck k).ackedSeq ≤ s.client.currentSeq
      omega
  · have same : s.server.onStateAck k = s.server := if_neg taken
    rw [same]
    exact tracks

theorem Tracks.clientStep (tracks : s.Tracks first) {client : ClientShell}
    (later : s.client.currentSeq ≤ client.currentSeq) : Tracks first { s with client } where
  acked := tracks.acked
  kept := tracks.kept
  behind := Nat.le_trans tracks.behind later
  sent := tracks.sent
  acks := fun k member => Nat.le_trans (tracks.acks k member) later

theorem Tracks.flights (tracks : s.Tracks first) (down : List Frame) {up : List Frame}
    (acks : ∀ k, Frame.ack k ∈ up → k ≤ s.client.currentSeq) : Tracks first { s with down, up } where
  acked := tracks.acked
  kept := tracks.kept
  behind := tracks.behind
  sent := tracks.sent
  acks := acks

theorem Tracks.serverReceives (tracks : s.Tracks first) {frame : Frame} (member : frame ∈ s.up) :
    Tracks first { s with server := (serverReceives s.server frame).2 } := by
  cases frame with
  | ack k => exact tracks.onStateAck (tracks.acks k member)
  | input offset data => exact tracks.serverStep rfl rfl rfl
  | _ => exact tracks

theorem ack_mem_pollFrames {c : ClientShell} {k : Nat} (member : Frame.ack k ∈ c.pollFrames) : k = c.currentSeq := by
  rcases List.mem_append.mp member with input | ack
  · have pending := Option.mem_toList.mp input
    unfold InputSender.pending at pending
    split at pending <;> simp at pending
  · exact Frame.ack.inj (List.mem_singleton.mp ack)

/-- A poll that emits does so under a number given out since `first`. -/
def NumberedFrom (first : Nat) (s : Sync em) : Action → Prop
  | .pollDiff => s.server.capture.seq ≠ s.server.ackedSeq → first ≤ s.server.capture.seq
  | _ => True

theorem Tracks.after_step (tracks : s.Tracks first) (agrees : s.Agrees name) {action : Action} (fresh : NotStale s action)
    (numbered : NumberedFrom first s action) : (step s action).Tracks first := by
  cases action with
  | feedOutput bytes =>
    simp only [Sync.step]
    cases fed : s.server.feedOutput bytes with
    | none => exact tracks
    | some server =>
      obtain ⟨term,_,rfl⟩ := Option.map_eq_some_iff.mp fed
      exact tracks.serverStep rfl rfl rfl
  | resize rows cols =>
    simp only [Sync.step]
    cases resized : s.server.resize rows cols with
    | none => exact tracks
    | some server =>
      obtain ⟨term,_,rfl⟩ := Option.map_eq_some_iff.mp resized
      exact tracks.serverStep rfl rfl rfl
  | takeResponses => exact tracks.serverStep rfl rfl rfl
  | pollDiff => exact tracks.poll numbered
  | typeInput bytes => exact tracks.clientStep (Nat.le_refl _)
  | pollFrames =>
    refine tracks.flights _ ?_
    intro k member
    rcases List.mem_append.mp member with old | new
    · exact tracks.acks k old
    · exact Nat.le_of_eq (ack_mem_pollFrames new)
  | deliverDown n =>
    simp only [Sync.step]
    split
    · exact tracks
    · rename_i frame held
      have newer := agrees.deliver_seq (List.mem_of_getElem? held) (fresh frame held)
      exact (tracks.clientStep newer).flights _ (tracks.clientStep newer).acks
  | loseDown n => exact tracks.flights _ tracks.acks
  | copyDown n => exact tracks.flights _ tracks.acks
  | deliverUp n =>
    simp only [Sync.step]
    split
    · exact tracks
    · rename_i frame held
      refine (tracks.serverReceives (List.mem_of_getElem? held)).flights _ ?_
      exact fun k member => tracks.acks k (List.mem_of_mem_eraseIdx member)
  | loseUp n => exact tracks.flights _ (fun k member => tracks.acks k (List.mem_of_mem_eraseIdx member))
  | copyUp n =>
    refine tracks.flights _ ?_
    intro k member
    rcases List.mem_append.mp member with old | copy
    · exact tracks.acks k old
    · exact tracks.acks k (List.mem_of_getElem? (Option.mem_toList.mp copy))

section Round

theorem round_quiet (caught : s.server.capture.seq = s.server.ackedSeq) :
    round s = { s with server := s.server.capture.onStateAck s.client.currentSeq } := by
  simp only [Sync.round,Sync.poll,ServerShell.pollDiff_quiet caught,Option.elim_none]

/-- The client after its part of a round in which there is a diff. -/
def caughtUp (s : Sync em) : ClientShell := clientReceives s.client (emission s.server).frame

theorem round_emits (behind : s.server.capture.seq ≠ s.server.ackedSeq) : round s =
    { s with
      server := ServerShell.onStateAck { s.server.capture with forceFull := false } s.caughtUp.currentSeq
      client := s.caughtUp
      sent := s.sent ++ [emission s.server] } := by
  simp only [Sync.round,Sync.poll,ServerShell.pollDiff_emits behind,Option.elim_some,caughtUp]

theorem round_screen (s : Sync em) : (round s).server.screen = s.server.screen := by
  by_cases caught : s.server.capture.seq = s.server.ackedSeq
  · rw [round_quiet caught]
    simp only [ServerShell.screen,ServerShell.onStateAck_term,ServerShell.capture_term]
  · rw [round_emits caught]
    simp only [ServerShell.screen,ServerShell.onStateAck_term,ServerShell.capture_term]

theorem Agrees.after_round (agrees : s.Agrees name) : (round s).Agrees (s.server.naming name) := by
  have polled := agrees.poll
  by_cases caught : s.server.capture.seq = s.server.ackedSeq
  · rw [round_quiet caught]
    simp only [Sync.poll,ServerShell.pollDiff_quiet caught] at polled
    exact polled.serverStep (polled.server.onStateAck _) (ServerShell.onStateAck_seq _ _)
  · rw [round_emits caught]
    simp only [Sync.poll,ServerShell.pollDiff_emits caught] at polled
    have received := polled.receives (List.mem_append_right _ (List.mem_singleton_self (emission s.server)))
    exact (received.serverStep (received.server.onStateAck _) (ServerShell.onStateAck_seq _ _)).flights _
      (fun _ _ _ member => List.mem_append_left _ member)

/-- The server's diff applied, or not. -/
theorem Agrees.caughtUp_cases (agrees : s.Agrees name) (behind : s.server.capture.seq ≠ s.server.ackedSeq) :
    ((emission s.server).Applies s.client → s.caughtUp.grid.view = s.server.screen.view ∧
      s.caughtUp.currentSeq = s.server.capture.seq) ∧
    (¬(emission s.server).Applies s.client → s.caughtUp = s.client) := by
  obtain ⟨zero,client,_⟩ := agrees.older
  have sound := emission_sound agrees.server behind
  have wf : (emission s.server).target.WF := by rw [sound.target]; exact agrees.server.capture.wf _
  rcases clientReceives_sound client zero sound wf with ⟨applies,grid,predictor,moved,view,_⟩ | ⟨skips,same⟩
  · refine ⟨fun _ => ?_,fun skips => absurd applies skips⟩
    rw [caughtUp,moved]
    exact ⟨view.trans s.server.capture_lastSent,rfl⟩
  · exact ⟨fun applies => absurd applies skips,fun _ => same⟩

/-- A client that is up to date stays so. -/
theorem Agrees.round_keeps (agrees : s.Agrees name) (same : s.client.grid.view = s.server.screen.view) :
    (round s).client.grid.view = (round s).server.screen.view := by
  rw [round_screen]
  by_cases caught : s.server.capture.seq = s.server.ackedSeq
  · rw [round_quiet caught]
    exact same
  · rw [round_emits caught]
    obtain ⟨taken,refused⟩ := agrees.caughtUp_cases caught
    by_cases applies : (emission s.server).Applies s.client
    · exact (taken applies).1
    · rw [refused applies]
      exact same

theorem Tracks.after_round (tracks : s.Tracks first) (agrees : s.Agrees name)
    (numbered : s.server.capture.seq ≠ s.server.ackedSeq → first ≤ s.server.capture.seq) : (round s).Tracks first := by
  have polled := tracks.poll numbered
  by_cases caught : s.server.capture.seq = s.server.ackedSeq
  · rw [round_quiet caught]
    simp only [Sync.poll,ServerShell.pollDiff_quiet caught] at polled
    exact polled.onStateAck (Nat.le_refl _)
  · rw [round_emits caught]
    simp only [Sync.poll,ServerShell.pollDiff_emits caught] at polled
    have later : s.client.currentSeq ≤ s.caughtUp.currentSeq := by
      obtain ⟨taken,refused⟩ := agrees.caughtUp_cases caught
      by_cases applies : (emission s.server).Applies s.client
      · rw [(taken applies).2]
        exact Nat.le_trans agrees.behind s.server.capture_seq_le.1
      · exact Nat.le_of_eq (congrArg ClientShell.currentSeq (refused applies)).symm
    have moved := polled.clientStep later
    have done := moved.onStateAck (Nat.le_refl _)
    exact done.flights _ done.acks

/-- One round is enough for the server to learn what its client shows. -/
theorem Tracks.round_acked (tracks : s.Tracks first) (agrees : s.Agrees name)
    (numbered : s.server.capture.seq ≠ s.server.ackedSeq → first ≤ s.server.capture.seq) :
    (round s).server.ackedSeq = (round s).client.currentSeq := by
  have acked := tracks.behind
  have current := agrees.behind
  have captured := s.server.capture_seq_le
  by_cases caught : s.server.capture.seq = s.server.ackedSeq
  · rw [round_quiet caught]
    show (s.server.capture.onStateAck s.client.currentSeq).ackedSeq = s.client.currentSeq
    rw [ServerShell.onStateAck_old (by rw [ServerShell.capture_ackedSeq]; omega),ServerShell.capture_ackedSeq]
    omega
  · have ahead : s.server.ackedSeq < s.server.capture.seq := by omega
    have learns : ∀ k, s.server.ackedSeq < k → s.server.capture.history.contains k = true →
        (ServerShell.onStateAck { s.server.capture with forceFull := false } k).ackedSeq = k := by
      intro k newer held
      rw [← ServerShell.capture_ackedSeq] at newer
      exact ServerShell.onStateAck_of_held (s := { s.server.capture with forceFull := false }) newer held
    rw [round_emits caught]
    show (ServerShell.onStateAck _ s.caughtUp.currentSeq).ackedSeq = s.caughtUp.currentSeq
    obtain ⟨taken,refused⟩ := agrees.caughtUp_cases caught
    by_cases applies : (emission s.server).Applies s.client
    · rw [(taken applies).2]
      apply learns _ ahead
      have kept := (tracks.poll numbered).kept
      simp only [Sync.poll,ServerShell.pollDiff_emits caught,ServerShell.capture_ackedSeq] at kept
      exact kept _ (numbered caught) (Nat.le_of_lt ahead) (Nat.le_refl _)
    · rw [refused applies]
      by_cases newer : s.server.ackedSeq < s.client.currentSeq
      · exact learns _ newer (ServerShell.capture_contains (tracks.current agrees))
      · have same : s.client.currentSeq = s.server.capture.ackedSeq := by rw [ServerShell.capture_ackedSeq]; omega
        have kept := ServerShell.onStateAck_old (s := { s.server.capture with forceFull := false }) (Nat.le_of_eq same)
        rw [kept]
        exact same.symm

/-- A client that has applied nothing is of the size the first diff is computed for. -/
def Matched (name : Nat → Grid) (s : Sync em) : Prop :=
  s.client.currentSeq = 0 → s.client.grid.size = (name 0).size

theorem Agrees.client_view (agrees : s.Agrees name) (matched : s.Matched name) :
    s.client.grid.view = (name s.client.currentSeq).view := by
  apply agrees.client.view_eq agrees.zero
  by_cases zero : s.client.currentSeq = 0
  · rw [zero]
    exact matched zero
  · exact Grid.size_eq_of_view (agrees.client.named (by omega))

theorem Agrees.matched_round (agrees : s.Agrees name) (matched : s.Matched name) :
    (round s).Matched (s.server.naming name) := by
  intro zero
  rw [ServerShell.naming_old (Nat.zero_le _)]
  by_cases caught : s.server.capture.seq = s.server.ackedSeq
  · rw [round_quiet caught] at zero ⊢
    exact matched zero
  · rw [round_emits caught] at zero ⊢
    obtain ⟨taken,refused⟩ := agrees.caughtUp_cases caught
    by_cases applies : (emission s.server).Applies s.client
    · have positive := (emission_sound agrees.server caught).positive
      rw [(taken applies).2] at zero
      exact absurd zero (Nat.ne_of_gt positive)
    · rw [refused applies] at zero ⊢
      exact matched zero

theorem emission_fits (fits : s.server.screen.Fits) : (emission s.server).target.Fits := by
  have same := Grid.size_eq_of_view s.server.capture_lastSent
  obtain ⟨rows,cols⟩ := (Grid.size_eq_iff _ _).mp same
  show s.server.capture.lastSent.rows * s.server.capture.lastSent.cols ≤ Diff.maxCells
  rw [rows,cols]
  exact fits

/-- A server that knows what its client shows brings it up to date in one round. -/
theorem Agrees.round_converges (agrees : s.Agrees name) (matched : s.Matched name) (fits : s.server.screen.Fits)
    (knows : s.server.ackedSeq = s.client.currentSeq) : (round s).client.grid.view = (round s).server.screen.view := by
  obtain ⟨zero,client,_⟩ := agrees.older
  have captured := agrees.server.capture
  have view : s.client.grid.view = (s.server.naming name s.client.currentSeq).view := by
    rw [ServerShell.naming_old agrees.behind]
    exact agrees.client_view matched
  rw [round_screen]
  by_cases caught : s.server.capture.seq = s.server.ackedSeq
  · rw [round_quiet caught,← s.server.capture_lastSent,captured.last,caught,knows]
    exact view
  · have ahead : s.client.currentSeq < s.server.capture.seq := by
      have := captured.acked
      rw [ServerShell.capture_ackedSeq] at this
      omega
    have applies : (emission s.server).Applies s.client := by
      refine ⟨emission_fits fits,?_⟩
      by_cases full : (emission s.server).Full
      · exact .inl full
      · obtain ⟨g,held,size,_⟩ := (emission_sound agrees.server caught).delta full
        obtain ⟨named,_⟩ := (emission_sound agrees.server caught).origin g held
        have base : (emission s.server).base = s.client.currentSeq := by
          change s.server.capture.diffBase = some g at held
          show (if s.server.capture.forceFull then 0 else s.server.capture.ackedSeq) = _
          unfold ServerShell.diffBase at held
          split at held
          · cases held
          · rename_i delta
            rw [if_neg delta,ServerShell.capture_ackedSeq,knows]
        refine .inr ⟨base,ahead,?_⟩
        rw [← size,named,base]
        exact Grid.size_eq_of_view view
    rw [round_emits caught]
    exact ((agrees.caughtUp_cases caught).1 applies).1

/-- Two rounds are always enough. -/
theorem Tracks.two_rounds (tracks : s.Tracks first) (agrees : s.Agrees name) (matched : s.Matched name)
    (fits : s.server.screen.Fits)
    (numbered : s.server.capture.seq ≠ s.server.ackedSeq → first ≤ s.server.capture.seq) :
    (round (round s)).client.grid.view = (round (round s)).server.screen.view := by
  refine agrees.after_round.round_converges (agrees.matched_round matched) ?_ (tracks.round_acked agrees numbered)
  rw [round_screen]
  exact fits

end Round

/-- Before its first diff the client's screen stays as it is. -/
theorem Agrees.receives_zero (agrees : s.Agrees name) {e : Emission} (member : e ∈ s.sent)
    (zero : (clientReceives s.client e.frame).currentSeq = 0) : clientReceives s.client e.frame = s.client := by
  rcases agrees.outcome member with ⟨_,grid,predictor,moved,_⟩ | ⟨_,same⟩
  · rw [moved] at zero
    exact absurd zero (Nat.ne_of_gt (agrees.sound e member).1.positive)
  · exact same

theorem Agrees.step_zero (agrees : s.Agrees name) (action : Action) (zero : (step s action).client.currentSeq = 0) :
    s.client.currentSeq = 0 ∧ (step s action).client.grid = s.client.grid := by
  cases action with
  | feedOutput bytes =>
    simp only [Sync.step] at zero ⊢
    cases fed : s.server.feedOutput bytes <;> simp only [fed] at zero ⊢ <;> exact ⟨zero,rfl⟩
  | resize rows cols =>
    simp only [Sync.step] at zero ⊢
    cases fed : s.server.resize rows cols <;> simp only [fed] at zero ⊢ <;> exact ⟨zero,rfl⟩
  | pollDiff =>
    simp only [Sync.step,Sync.poll] at zero ⊢
    split at zero <;> exact ⟨zero,rfl⟩
  | deliverDown n =>
    simp only [Sync.step] at zero ⊢
    cases held : s.down[n]? with
    | none =>
      rw [held] at zero
      exact ⟨zero,rfl⟩
    | some frame =>
      rw [held] at zero
      cases frame with
      | stateDiff seq base data =>
        obtain ⟨e,sent,eq⟩ := agrees.down seq base data (List.mem_of_getElem? held)
        rw [← eq] at zero ⊢
        have same := agrees.receives_zero sent zero
        refine ⟨?_,congrArg ClientShell.grid same⟩
        rw [← congrArg ClientShell.currentSeq same]
        exact zero
      | _ => exact ⟨zero,rfl⟩
  | deliverUp n =>
    simp only [Sync.step] at zero ⊢
    split at zero <;> exact ⟨zero,rfl⟩
  | _ => exact ⟨zero,rfl⟩

/-- The server follows a client that attached with the size of its first screen. -/
def Follows (s : Sync em) : Prop := ∃ name, s.Agrees name ∧ s.Tracks 0 ∧ s.Matched name

theorem Follows.after_step (follows : s.Follows) {action : Action} (fresh : NotStale s action) :
    (Sync.step s action).Follows := by
  obtain ⟨name,agrees,tracks,matched⟩ := follows
  have numbered : NumberedFrom 0 s action := by cases action <;> simp [NumberedFrom]
  refine ⟨_,agrees.after_step action,tracks.after_step agrees fresh numbered,?_⟩
  intro zero
  obtain ⟨before,grid⟩ := agrees.step_zero action zero
  rw [grid,numbering_old action (Nat.zero_le _)]
  exact matched before

theorem opened_tracks (em : Emulator) (rows cols rows' cols' : Nat) : (opened em rows cols rows' cols').Tracks 0 where
  acked := by simp [opened,ServerShell.new]
  kept := by
    intro k _ _ upTo
    have zero : k = 0 := Nat.le_zero.mp upTo
    simp [opened,ServerShell.new,zero]
  behind := Nat.le_refl _
  sent := fun _ _ => Nat.zero_le _
  acks := fun _ member => absurd member List.not_mem_nil

/-- The screen never wedges as long as the client is not handed a snapshot older than what it
shows: from every state so reached, two lossless rounds bring it up to date. -/
theorem sync_never_wedges (rows cols : Nat) (schedule : List Action)
    (fresh : Machine.Along step NotStale schedule (opened em rows cols rows cols))
    (fits : (run schedule (opened em rows cols rows cols)).server.screen.Fits) :
    let s := round (round (run schedule (opened em rows cols rows cols)))
    s.client.screen.renderEq s.server.screen = true := by
  intro s
  have follows : (run schedule (opened em rows cols rows cols)).Follows :=
    Machine.run_invariant Follows (fun _ _ follows fresh => follows.after_step fresh) schedule _
      ⟨_,opened_agrees em rows cols rows cols,opened_tracks em rows cols rows cols,fun _ => rfl⟩ fresh
  obtain ⟨name,agrees,tracks,matched⟩ := follows
  rw [Grid.renderEq_iff]
  exact tracks.two_rounds agrees matched fits (fun _ => Nat.zero_le _)

/-- A snapshot that a newer screen overtakes, the delta in between lost. -/
def resizes : List Action :=
  [.resize 1 3,.pollDiff,.feedOutput [0x61],.pollDiff,.loseDown 1,.resize 2 2,.pollDiff,.deliverDown 0,.pollFrames]

theorem sync_never_wedges_resizes :
    Machine.Along step NotStale resizes (opened asciiEmulator 1 2 1 2) ∧
    let s := round (round (run resizes (opened asciiEmulator 1 2 1 2)))
    s.client.screen.renderEq s.server.screen = true := by
  refine ⟨by decide +kernel,?_⟩
  exact sync_never_wedges 1 2 resizes (by decide +kernel) (by decide +kernel)

/-- No frame is doubled, and no size is larger than a diff may carry. -/
def Ordinary : Action → Prop
  | .copyDown _ => False
  | .copyUp _ => False
  | .resize rows cols => rows * cols ≤ Diff.maxCells
  | _ => True

instance (action : Action) : Decidable (Ordinary action) := by
  unfold Ordinary
  cases action <;> infer_instance

/-- The snapshot of the first resize arrives after that of the second was acknowledged: the
client goes back, and the server has nothing more to send. -/
def overtakenSnapshot : List Action :=
  [.resize 1 3,.pollDiff,.resize 2 2,.pollDiff,.deliverDown 1,.pollFrames,.deliverUp 0,.deliverDown 0]

theorem sync_wedges :
    (∀ action ∈ overtakenSnapshot, Ordinary action) ∧
    let s := run overtakenSnapshot (opened asciiEmulator 1 2 1 2)
    s.client.currentSeq = 1 ∧ s.server.ackedSeq = 2 ∧
      (round (round s)).client.screen.renderEq (round (round s)).server.screen = false := by
  decide +kernel

end Sync
end Noissh

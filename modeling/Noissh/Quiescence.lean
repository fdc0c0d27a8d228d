import Noissh.Recovery

/-! When a stream that both applications have closed comes to rest. Each side gives its end
back on its own view of acks and FINs and answers no more, so an end can be left waiting for
a frame that nobody will send again. -/
namespace Noissh
namespace Lane

variable {id : Nat} {v : Lane}

/-- An end its application has closed carries the close. -/
def Told (v : Lane) (x : Side) : Prop :=
  ∀ s, (v x).stream = some s → (v x).closedAt ≠ none → s.sendFin = true

/-- What a stream keeps without resets and late writes. -/
structure Tidy (id : Nat) (v : Lane) : Prop where
  safe : Safe id v
  graceful : ∀ x, (v x).Graceful
  whole : ∀ x n, (v x).closedAt = some n → n = (v x).wrote.length
  fits : ∀ x, (v x).wrote.length ≤ u64Max
  acked : ∀ x, AckedWhole v x
  told : ∀ x, Told v x

/-- Only a close of a held end is the first close. -/
theorem Touch.closes {y : Side} {e : Event} {e' : Endpoint} (touched : Touch id v y e e')
    (closed : e'.closedAt ≠ none) :
    (v y).closedAt ≠ none ∨ ∃ s status, (v y).stream = some s ∧ e'.stream = some
      { s with sendFin := true, closeStatus := some status } := by
  cases touched with
  | write =>
    unfold Endpoint.write at closed
    split at closed
    · split at closed <;> exact .inl closed
    · exact .inl closed
  | read => unfold Endpoint.read at closed; split at closed <;> exact .inl closed
  | @close status =>
    cases held : (v y).stream with
    | none => exact .inl (by simpa [Endpoint.close,held] using closed)
    | some s => exact .inr ⟨s,status,rfl,by simp [Endpoint.close,held]⟩
  | poll => unfold Endpoint.poll at closed; split at closed <;> exact .inl closed
  | receive => rw [Link.Receive.closedAt] at closed; exact .inl closed
  | _ => exact .inl closed

theorem Evolves.sendFin (safe : Safe id v) {y : Side} {e : Event} {s t : StreamState} (held : (v y).stream = some s)
    (evolves : Evolves v y e s t) (fin : s.sendFin = true) : t.sendFin = true := by
  rcases (evolves.ends safe held).status with ⟨_,same⟩ | ⟨_,_,_,closed⟩
  · exact same.trans fin
  · exact closed

theorem step_told (safe : Safe id v) {e : Event} (fresh : Fresh id v e) {x : Side} (told : Told v x) :
    Told (v.step id e) x := by
  intro t here closed
  rcases (step_touch id v e x).closes closed with before | ⟨s,status,_,now⟩
  · rcases step_evolves safe fresh here with ⟨s,held,evolves⟩ | ⟨unborn,_⟩
    · exact evolves.sendFin safe held (told s held before)
    · exact absurd ((safe.life x).records unborn).2.2 before
  · rw [now] at here
    cases here
    rfl

theorem step_tidy (tidy : Tidy id v) {e : Event} (fresh : Fresh id v e) (ordered : Orderly v e) :
    Tidy id (v.step id e) where
  safe := step_safe tidy.safe e fresh
  graceful := step_graceful tidy.safe tidy.graceful fresh ordered.calm
  whole x := ((step_touch id v e x).whole ordered (tidy.safe.flowing x) ⟨tidy.whole x,tidy.fits x⟩).1
  fits x := ((step_touch id v e x).whole ordered (tidy.safe.flowing x) ⟨tidy.whole x,tidy.fits x⟩).2
  acked x := step_ackedWhole tidy.safe fresh ordered (tidy.acked x)
  told x := step_told tidy.safe fresh (tidy.told x)

theorem Passive.orderly {e : Event} (passive : Passive e) : Orderly v e := by
  cases e <;> trivial

end Lane

namespace Endpoint

/-- Frames other than a StreamOpen leave no trace on a side without an end. -/
theorem absorb_gone {id : Nat} (now : Nat) {e : Endpoint} (gone : e.stream = none) {frames : List Frame}
    (settled : ∀ f ∈ frames, f.opens id = false) (named : ∀ f ∈ frames, f.streamId = some id) :
    (e.absorb id now frames).stream = none := by
  induction frames generalizing e with
  | nil => exact gone
  | cons frame rest ih =>
    refine ih ?_ (fun f member => settled f (.tail _ member)) (fun f member => named f (.tail _ member))
    have notOpen := settled frame (.head _)
    have mine := named frame (.head _)
    cases frame with
    | streamOpen k kind metadata =>
      obtain rfl : k = id := by simpa [Frame.streamId] using mine
      simp [Frame.opens] at notOpen
    | streamData k offset data fin => simp [receive,gone]
    | _ => simp [receive,gone]

end Endpoint

namespace StreamState

variable {s : StreamState}

/-- What taking in frames leaves of the closing side of an end. -/
structure Persists (s t : StreamState) : Prop where
  sendFin : t.sendFin = s.sendFin
  finSent : t.finSent = s.finSent
  next : t.sendNext = s.sendNext
  closeTicks : t.closeTicks = s.closeTicks
  finAcked : s.finAcked = true → t.finAcked = true

theorem absorbFrame_persists (now : Nat) (s : StreamState) (frame : Frame) : Persists s (s.absorbFrame now frame) := by
  cases frame with
  | streamData k offset data fin =>
    rw [absorbFrame,onData_eq]
    exact ⟨rfl,rfl,rfl,rfl,fun acked => acked⟩
  | streamAck k ack window =>
    have mono : s.finAcked = true → (s.onAck ack window now).finAcked = true := by
      intro acked
      rcases Nat.lt_or_ge s.sendNext ack with beyond | known
      · rw [onAck_ignored s ack window now beyond]
        exact acked
      · exact (onAck_finAcked s window now known).mpr (.inl acked)
    obtain ⟨_,_,_,_,_,_,_,_,_,_,_,eq⟩ := s.onAck_eq ack window now
    rw [absorbFrame]
    exact ⟨by rw [eq],by rw [eq],by rw [eq],by rw [eq],mono⟩
  | _ => exact ⟨rfl,rfl,rfl,rfl,fun acked => acked⟩

theorem absorb_persists (now : Nat) (frames : List Frame) (s : StreamState) : Persists s (s.absorb now frames) := by
  induction frames generalizing s with
  | nil => exact ⟨rfl,rfl,rfl,rfl,fun acked => acked⟩
  | cons frame rest ih =>
    have first := absorbFrame_persists now s frame
    have later := ih (s.absorbFrame now frame)
    exact ⟨later.sendFin.trans first.sendFin,later.finSent.trans first.finSent,later.next.trans first.next,
      later.closeTicks.trans first.closeTicks,fun acked => later.finAcked (first.finAcked acked)⟩

/-- An ack of all bytes, taken in after the FIN went out, acknowledges the FIN. -/
theorem absorb_acked (now : Nat) {frames : List Frame} {k window : Nat}
    (member : .streamAck k s.sendNext window ∈ frames) (fin : s.sendFin = true) (sent : s.finSent = true) :
    (s.absorb now frames).finAcked = true := by
  induction frames generalizing s with
  | nil => cases member
  | cons frame rest ih =>
    have first := absorbFrame_persists now s frame
    rcases List.mem_cons.mp member with rfl | later
    · refine (absorb_persists now rest _).finAcked ?_
      exact (onAck_finAcked s window now (Nat.le_refl _)).mpr (.inr ⟨fin,sent,Nat.le_refl _⟩)
    · refine ih ?_ (first.sendFin.trans fin) (first.finSent.trans sent)
      rw [first.next]
      exact later

theorem absorb_untold (now : Nat) {frames : List Frame} (untold : ∀ f ∈ frames, f.tells = false) :
    (s.absorb now frames).peerFin = s.peerFin ∧ (s.absorb now frames).closeReceived = s.closeReceived := by
  induction frames generalizing s with
  | nil => exact ⟨rfl,rfl⟩
  | cons frame rest ih =>
    have same : (s.absorbFrame now frame).peerFin = s.peerFin ∧
        (s.absorbFrame now frame).closeReceived = s.closeReceived := by
      have silent := untold frame (.head _)
      cases frame with
      | streamData k offset data fin =>
        rw [absorbFrame,onData_eq]
        simp only [Frame.tells] at silent
        simp [silent]
      | streamAck k ack window =>
        obtain ⟨_,_,_,_,_,_,_,_,_,_,_,eq⟩ := s.onAck_eq ack window now
        rw [absorbFrame,eq]
        exact ⟨rfl,rfl⟩
      | streamClose k status => cases silent
      | _ => exact ⟨rfl,rfl⟩
    have later := @ih (s.absorbFrame now frame) (fun f member => untold f (.tail _ member))
    exact ⟨later.1.trans same.1,later.2.trans same.2⟩

theorem transmit_ack_mem (live : s.reset = false) (now : Nat) :
    .streamAck s.id s.recv.ackPoint s.window ∈ (s.transmit now).2 := by
  obtain ⟨own,recv,_,_⟩ := transmitData_same { s with needsOpen := false } now
  change (s.afterData now).1.id = s.id at own
  change (s.afterData now).1.recv = s.recv at recv
  rw [transmit_eq s now live]
  refine List.mem_append_left _ (List.mem_append_right _ ?_)
  simp [window,own,recv]

/-- A closed end whose bytes are all acked sends its FIN at once, if it has not yet. -/
theorem transmit_finSent (live : s.reset = false) (fin : s.sendFin = true) (unacked : s.finAcked = false)
    (base : s.sendBase = s.sendNext) (high : s.sendHigh = s.sendNext) (now : Nat) :
    (s.transmit now).1.finSent = true := by
  have full : ¬s.sendHigh < s.sendEnd := by
    have := s.sendEnd_le
    omega
  have same : ({ s with needsOpen := false }).sendEnd = s.sendEnd := rfl
  rw [transmit_eq s now live,countClose_eq]
  show (s.afterData now).1.finSent = true
  unfold afterData transmitData
  rw [same]
  dsimp only
  rw [if_neg full,if_neg (by omega),if_pos (by simp [fin,unacked,base])]
  split
  · rfl
  · rename_i waits
    simp only [Bool.or_eq_true,Bool.not_eq_true',not_or,Bool.not_eq_false] at waits
    exact waits.1

end StreamState

namespace Link

variable {l : Link} {x : Side} {id : Nat}

/-- The action neither resets the stream nor writes to it after its close. -/
def orderlyOn (id : Nat) (l : Link) : Action → Bool
  | .reset _ k => k != id
  | .write x k _ => k != id || (l.closedAt x id).isNone
  | _ => true

theorem orderlyOn_lane {a : Action} (ok : orderlyOn id l a = true) : Lane.Orderly (l.lane id) (l.event id a) := by
  cases a with
  | reset y k =>
    simp only [event]
    split
    · rename_i mine
      simp [orderlyOn,mine] at ok
    · trivial
  | write y k data =>
    simp only [event]
    split
    · rename_i mine
      simpa [orderlyOn,mine,Lane.Orderly,lane] using ok
    · trivial
  | _ =>
    simp only [event]
    repeat' split
    all_goals trivial

theorem start_tidy (id : Nat) : Lane.Tidy id (start.lane id) where
  safe := start_safe.lanes id
  graceful := start_graceful id
  whole _ _ closed := by cases closed
  fits _ := Nat.zero_le _
  acked _ _ held := by simp [lane,start,stream,StreamMux.new] at held
  told _ _ held := by simp [lane,start,stream,StreamMux.new] at held

theorem run_tidy {schedule : List Action} (safe : l.Safe) (tidy : Lane.Tidy id (l.lane id))
    (ordered : Machine.Along step (orderlyOn id · · = true) schedule l) :
    (Machine.run step schedule l).Safe ∧ Lane.Tidy id ((Machine.run step schedule l).lane id) :=
  Machine.run_invariant (fun l : Link => l.Safe ∧ Lane.Tidy id (l.lane id))
    (fun l a both ok => ⟨step_safe both.1 a,by
      rw [lane_step both.1.keyed a id]
      exact Lane.step_tidy both.2 (event_fresh both.1 a id) (orderlyOn_lane ok)⟩) schedule l ⟨safe,tidy⟩ ordered

/-- A stream both sides have known and closed. -/
structure Closed (id : Nat) (l : Link) : Prop where
  safe : l.Safe
  tidy : Lane.Tidy id (l.lane id)
  born : ∀ x, l.born x id = true
  closed : ∀ x, l.closedAt x id ≠ none

theorem Closed.step (closed : Closed id l) {a : Action} (ok : transfers a = true ∨ ∃ y k, a = .read y k) :
    Closed id (l.step a) := by
  have passive := event_passive (l := l) ok id
  have lane := lane_step closed.safe.keyed a id
  refine ⟨step_safe closed.safe a,?_,fun x => ?_,fun x => ?_⟩
  · rw [lane]
    exact Lane.step_tidy closed.tidy passive.fresh passive.orderly
  · show ((l.step a).lane id x).born = true
    rw [lane]
    exact Lane.born_mono closed.tidy.safe _ (closed.born x)
  · show ((l.step a).lane id x).closedAt ≠ none
    rw [lane]
    obtain ⟨n,before⟩ := Option.ne_none_iff_exists'.mp (closed.closed x)
    rw [(Lane.step_touch id (l.lane id) (l.event id a) x).closedAt before]
    simp

theorem Closed.run (closed : Closed id l) {schedule : List Action}
    (ok : ∀ a ∈ schedule, transfers a = true ∨ ∃ y k, a = .read y k) : Closed id (Machine.run Link.step schedule l) := by
  induction schedule generalizing l with
  | nil => exact closed
  | cons a rest ih => exact ih (closed.step (ok a (.head _))) (fun b member => ok b (.tail _ member))

theorem Closed.advance (closed : Closed id l) : Closed id l.advance := closed.run (round_actions l)

theorem Closed.rounds (closed : Closed id l) (n : Nat) : Closed id (Link.rounds n l) := by
  induction n generalizing l with
  | zero => exact closed
  | succ n ih => exact ih closed.advance

/-- No StreamOpen of such a stream is in flight, so a round needs no room for it. -/
theorem Closed.welcomes (closed : Closed id l) : Machine.Along Link.step (fun l _ => l.Welcomes id) l.round l := by
  have along : ∀ schedule : List Action, ∀ l : Link, Closed id l →
      (∀ a ∈ schedule, transfers a = true ∨ ∃ y k, a = .read y k) →
      Machine.Along Link.step (fun l _ => l.Welcomes id) schedule l := by
    intro schedule
    induction schedule with
    | nil => exact fun _ _ _ => trivial
    | cons a rest ih =>
      intro l closed ok
      exact ⟨welcomes_born closed.safe closed.born,ih _ (closed.step (ok a (.head _))) (fun b member => ok b (.tail _ member))⟩
  exact along l.round l closed (round_actions l)

theorem Closed.sendFin (closed : Closed id l) {s : StreamState} (held : l.stream x id = some s) : s.sendFin = true :=
  closed.tidy.told x s held (closed.closed x)

/-- A side that has given its end back gets it back never again. -/
theorem Closed.gone (closed : Closed id l) (gone : (l.polled id x).stream = none) : l.advance.stream x id = none := by
  have polled := polls_lane closed.safe.keyed id (l := l)
  have after : Closed id (Machine.run Link.step polls l) :=
    closed.run (fun a member => .inl (exchange_transfers l a (List.mem_append_left _ (List.mem_append_left _ member))))
  have settled : ∀ f ∈ (l.polled id x.other).flight, f.opens id = false := by
    intro f member
    rw [← (polled x.other).1] at member
    cases isOpen : f.opens id with
    | false => rfl
    | true =>
      have unborn := ((after.tidy.safe.life x.other).opening f member isOpen).2
      rw [Side.other_other,show ((Machine.run Link.step polls l).lane id x).born = true from after.born x] at unborn
      cases unborn
  have named : ∀ f ∈ (l.polled id x.other).flight, f.streamId = some id := by
    intro f member
    rw [← (polled x.other).1] at member
    exact (after.tidy.safe.life x.other).named f member
  have taken := Endpoint.absorb_gone ((l.mux x).now + 1) gone settled named
  show (l.advance.lane id x).stream = none
  unfold Link.advance
  rw [round_lane closed.safe closed.welcomes x]
  simp [Endpoint.read,Endpoint.land,taken]

/-- A closed stream at the end of a round: nothing is in flight, and everything available was read. -/
structure Level (id : Nat) (l : Link) : Prop where
  closed : Closed id l
  quiet : ∀ x, (l.lane id x).flight = []
  read : ∀ x s, l.stream x id = some s → s.recv.unread = 0

theorem Closed.level (closed : Closed id l) : Level id l.advance where
  closed := closed.advance
  quiet := advance_flight closed.safe id
  read _ _ held := advance_unread closed.safe held

/-- The side sends neither a FIN nor a StreamClose any more. -/
def Mute (l : Link) (x : Side) (id : Nat) : Prop := ∀ s, l.stream x id = some s → s.finAcked = true

/-- An end is left behind: it has heard neither a FIN nor a close and the peer repeats neither, or
it has the FIN and the peer is gone while an ack or data is still missing. -/
def Stranded (l : Link) (id : Nat) : Prop :=
  ∃ x s, l.stream x id = some s ∧
    (s.peerFin = .opened ∧ s.closeReceived = false ∧ l.Mute x.other id ∨
      s.peerFin ≠ .opened ∧ l.stream x.other id = none ∧ ¬(s.finAcked = true ∧ s.recvFinished = true))

section Level

variable (level : Level id l) {s : StreamState} (held : l.stream x id = some s)

include level held

theorem Level.live : s.reset = false := (level.closed.tidy.graceful x).live s held

/-- What a transmit of a held end keeps. -/
theorem Level.kept (now : Nat) : StreamState.Kept s (s.transmit now).1 ∧ (s.transmit now).1.closeTicks =
    (if s.awaitsFin then min (s.closeTicks + 1) u32Max else s.closeTicks) := by
  have flow := level.closed.tidy.safe.flowing x
  obtain ⟨_,_,kept,_,ticks,_⟩ := StreamState.transmit_spec (flow.sending s held) (flow.paced s held) (level.live held) now
  exact ⟨kept,ticks⟩

/-- A held end is given back by its poll, or comes through the round. -/
theorem Level.advance_cases :
    (s.transmit ((l.mux x).now + 1)).1.fullyDone = true ∧ l.advance.stream x id = none ∨
    (s.transmit ((l.mux x).now + 1)).1.fullyDone = false ∧
      l.advance.stream x id = some (s.afterRound ((l.mux x).now + 1) (l.polled id x.other).flight) := by
  have live := level.live held
  cases done : (s.transmit ((l.mux x).now + 1)).1.fullyDone with
  | true => exact .inl ⟨rfl,level.closed.gone (by simp [polled_held held live,done])⟩
  | false => exact .inr ⟨rfl,advance_held level.closed.safe level.closed.welcomes held live done⟩

/-- Why an end is given back. -/
theorem Level.done_iff : (s.transmit ((l.mux x).now + 1)).1.fullyDone = true ↔
    s.finAcked = true ∧ s.recvFinished = true ∨ s.graceEnds = true := by
  have flow := level.closed.tidy.safe.flowing x
  have live := level.live held
  have waiting := (level.closed.tidy.graceful x).waiting s held
  have fin := level.closed.sendFin held
  obtain ⟨kept,ticks⟩ := level.kept held ((l.mux x).now + 1)
  refine ⟨fun done => ((StreamState.transmit_done (flow.sending s held) (flow.paced s held) live waiting _).2 done).2,
    fun ready => ?_⟩
  have finished : (s.transmit ((l.mux x).now + 1)).1.recvFinished = s.recvFinished := by
    simp only [StreamState.recvFinished,kept.peerFin,kept.recv]
  have small : closeGraceTicks ≤ u32Max := by decide
  unfold StreamState.fullyDone StreamState.graceOver
  rw [kept.sendFin,fin,kept.finAcked,finished,kept.closeReceived,ticks]
  rcases ready with ⟨acked,read⟩ | ended
  · simp [acked,read]
  · simp only [StreamState.graceEnds,Bool.and_eq_true,decide_eq_true_eq] at ended
    have heard := ended.1
    simp only [StreamState.awaitsFin,Bool.and_eq_true] at heard
    simp only [Bool.not_true,Bool.false_eq_true,if_false,heard.1.1,ended.1,if_true,Bool.true_and]
    split
    · rfl
    · simp only [decide_eq_true_eq]
      omega

end Level

/-- A mute side tells nothing in the next round either. -/
theorem Level.untold (level : Level id l) (mute : l.Mute x id) : ∀ f ∈ (l.polled id x).flight, f.tells = false := by
  intro f member
  cases held : l.stream x id with
  | none =>
    have here : (l.lane id x).stream = none := held
    have quiet := level.quiet x
    simp only [polled,Endpoint.poll,here,quiet] at member
    cases member
  | some s =>
    have flow := level.closed.tidy.safe.flowing x
    have acked := mute s held
    rw [polled_flight held (level.live held) (level.quiet x)] at member
    obtain ⟨_,_,_,_,_,emits⟩ := StreamState.transmit_spec (flow.sending s held) (flow.paced s held)
      (level.live held) ((l.mux x).now + 1)
    cases emits f member with
    | @data off d fin _ _ _ flag =>
      cases fin with
      | false => rfl
      | true =>
        rw [acked] at flag
        cases (flag rfl).2.1
    | close _ unacked =>
      rw [acked] at unacked
      cases unacked
    | _ => rfl

theorem Level.mute_advance (level : Level id l) (mute : l.Mute x id) : l.advance.Mute x id := by
  intro t here
  cases held : l.stream x id with
  | none =>
    rw [level.closed.gone (by simp [polled,Endpoint.poll,lane,held])] at here
    cases here
  | some s =>
    rcases level.advance_cases held with ⟨_,gone⟩ | ⟨_,same⟩
    · rw [gone] at here
      cases here
    · rw [same] at here
      cases here
      refine (StreamState.absorb_persists _ _ _).finAcked ?_
      rw [(level.kept held _).1.finAcked]
      exact mute s held

/-- A side without an end has nothing to send. -/
theorem Level.silent (level : Level id l) (gone : l.stream x id = none) : (l.polled id x).flight = [] := by
  have here : (l.lane id x).stream = none := gone
  simp only [polled,Endpoint.poll,here]
  exact level.quiet x

theorem Closed.stays_gone (closed : Closed id l) (gone : l.stream x id = none) : l.advance.stream x id = none :=
  closed.gone (by simp [polled,Endpoint.poll,lane,gone])

/-- An end that was told nothing in the round knows what it knew. -/
theorem Level.afterRound_untold (level : Level id l) {s : StreamState} (held : l.stream x id = some s) (now : Nat)
    {frames : List Frame} (untold : ∀ f ∈ frames, f.tells = false) :
    (s.afterRound now frames).peerFin = s.peerFin ∧ (s.afterRound now frames).closeReceived = s.closeReceived := by
  have same := StreamState.absorb_untold (s := (s.transmit now).1) now untold
  have kept := (level.kept held now).1
  exact ⟨same.1.trans kept.peerFin,same.2.trans kept.closeReceived⟩

/-- Nothing new arrives at an end whose peer is gone. -/
theorem Level.finished_alone (level : Level id l) {s : StreamState} (held : l.stream x id = some s) (now : Nat)
    (done : (s.afterRound now []).finAcked = true ∧ (s.afterRound now []).recvFinished = true) :
    s.finAcked = true ∧ s.recvFinished = true := by
  obtain ⟨acked,read⟩ := done
  have kept := (level.kept held now).1
  have unread := level.read x s held
  have sum := s.recv.ackPoint_eq_unread
  have recv : (s.afterRound now []).recv = s.recv.read.2 := congrArg (fun r : Reassembler => r.read.2) kept.recv
  have peerFin : (s.afterRound now []).peerFin = s.peerFin := kept.peerFin
  refine ⟨kept.finAcked ▸ acked,?_⟩
  unfold StreamState.recvFinished at read ⊢
  rw [recv,peerFin,Reassembler.read_delivered] at read
  split
  · rename_i stop marked
    rw [marked] at read
    simp only [Bool.and_eq_true,decide_eq_true_eq] at read ⊢
    exact ⟨by omega,by simp [unread]⟩
  · rename_i marked
    rw [marked] at read
    cases read

/-- An end that was left behind stays so. -/
theorem Level.stranded_advance (level : Level id l) (stranded : l.Stranded id) : l.advance.Stranded id := by
  obtain ⟨x,s,held,⟨unmarked,unheard,mute⟩ | ⟨marked,gone,undone⟩⟩ := stranded
  · have unfinished : ¬(s.finAcked = true ∧ s.recvFinished = true ∨ s.graceEnds = true) := by
      simp [StreamState.recvFinished,unmarked,StreamState.graceEnds,StreamState.awaitsFin,unheard]
    rcases level.advance_cases held with ⟨done,_⟩ | ⟨_,same⟩
    · exact absurd ((level.done_iff held).mp done) unfinished
    · have knows := level.afterRound_untold held ((l.mux x).now + 1) (level.untold mute)
      exact ⟨x,_,same,.inl ⟨knows.1.trans unmarked,knows.2.trans unheard,level.mute_advance mute⟩⟩
  · have unfinished : ¬(s.finAcked = true ∧ s.recvFinished = true ∨ s.graceEnds = true) := by
      simp [undone,StreamState.graceEnds,StreamState.awaitsFin,marked]
    rcases level.advance_cases held with ⟨done,_⟩ | ⟨_,same⟩
    · exact absurd ((level.done_iff held).mp done) unfinished
    · rw [level.silent gone] at same
      have quiet : ∀ f ∈ ([] : List Frame), f.tells = false := by simp
      have knows := level.afterRound_untold held ((l.mux x).now + 1) quiet
      exact ⟨x,_,same,.inr ⟨by rw [knows.1]; exact marked,level.closed.stays_gone gone,
        fun done => undone (level.finished_alone held _ done)⟩⟩

/-- An end that has heard of the close and awaits a FIN that will not come is given back when its
grace window ends. -/
theorem Level.grace (k : Nat) (level : Level id l) {s : StreamState} (held : l.stream x id = some s)
    (unmarked : s.peerFin = .opened) (heard : s.closeReceived = true) (mute : l.Mute x.other id)
    (left : closeGraceTicks ≤ s.closeTicks + k) : ∃ n, (rounds n l).stream x id = none := by
  induction k generalizing l s with
  | zero =>
    have waiting := (level.closed.tidy.graceful x).waiting s held
    omega
  | succ k ih =>
    rcases level.advance_cases held with ⟨_,gone⟩ | ⟨_,same⟩
    · exact ⟨1,gone⟩
    · have knows := level.afterRound_untold held ((l.mux x).now + 1) (level.untold mute)
      have awaits : s.awaitsFin = true := by
        simp [StreamState.awaitsFin,unmarked,heard,level.closed.sendFin held]
      have ticks := (level.kept held ((l.mux x).now + 1)).2
      rw [if_pos awaits] at ticks
      have small : closeGraceTicks ≤ u32Max := by decide
      have counted := (StreamState.absorb_persists ((l.mux x).now + 1) (l.polled id x.other).flight
        (s.transmit ((l.mux x).now + 1)).1).closeTicks
      rw [ticks] at counted
      have reached : (s.afterRound ((l.mux x).now + 1) (l.polled id x.other).flight).closeTicks =
        min (s.closeTicks + 1) u32Max := counted
      obtain ⟨n,gone⟩ := ih level.closed.level same (knows.1.trans unmarked) (knows.2.trans heard)
        (level.mute_advance mute) (by omega)
      exact ⟨n + 1,gone⟩

theorem Level.leaves (level : Level id l) (unstranded : ¬l.Stranded id) {s : StreamState}
    (held : l.stream x id = some s) (mute : l.Mute x.other id)
    (ready : s.peerFin ≠ .opened → s.finAcked = true ∧ s.recvFinished = true) : ∃ n, (rounds n l).stream x id = none := by
  by_cases unmarked : s.peerFin = .opened
  · have heard : s.closeReceived = true := by
      by_contra unheard
      exact unstranded ⟨x,s,held,.inl ⟨unmarked,by simpa using unheard,mute⟩⟩
    exact level.grace closeGraceTicks held unmarked heard mute (by omega)
  · rcases level.advance_cases held with ⟨_,gone⟩ | ⟨open_,_⟩
    · exact ⟨1,gone⟩
    · rw [(level.done_iff held).mpr (.inl (ready unmarked))] at open_
      cases open_

/-- Neither side ever gives its end back. -/
def Holds (l : Link) (id : Nat) : Prop := ∀ n x, (rounds n l).stream x id ≠ none

theorem Holds.advance (holds : l.Holds id) : l.advance.Holds id := fun n x => holds (n + 1) x

theorem Holds.rounds (holds : l.Holds id) (n : Nat) : (rounds n l).Holds id := by
  intro m x
  rw [← rounds_add]
  exact holds (n + m) x

theorem Level.rounds (level : Level id l) (n : Nat) : Level id (rounds n l) := by
  induction n generalizing l with
  | zero => exact level
  | succ n ih => exact ih level.closed.level

section Both

variable (level : Level id l) {s t : StreamState} (sender : l.stream x id = some s)
  (receiver : l.stream x.other id = some t)

include level sender receiver

theorem Level.meets (holds : l.Holds id) : Meets l x id s t := by
  have survives : ∀ y u, l.stream y id = some u → (u.transmit ((l.mux y).now + 1)).1.fullyDone = false := by
    intro y u held
    rcases level.advance_cases held with ⟨_,gone⟩ | ⟨open_,_⟩
    · exact absurd gone (holds 1 y)
    · exact open_
  exact Link.meets level.closed.safe level.closed.welcomes level.closed.tidy.graceful level.quiet sender receiver
    (survives x s sender) (survives x.other t receiver)

theorem Level.waiting (pending : t.recv.ackPoint < (l.wrote x id).length) : Waiting l x id s t := by
  refine ⟨sender,receiver,level.quiet,level.read x.other t receiver,?_,pending⟩
  cases owed : s.needsOpen with
  | false => rfl
  | true =>
    have unborn := ((level.closed.tidy.safe.life x).owed s sender owed).2.1
    rw [show (l.lane id x.other).born = true from level.closed.born x.other] at unborn
    cases unborn

/-- Once the peer has all bytes, a round acknowledges them, and the next one the FIN. -/
theorem Level.settles (holds : l.Holds id) (arrived : (l.wrote x id).length ≤ t.recv.ackPoint) :
    ∃ s', l.advance.stream x id = some s' ∧
    s'.sendBase = s'.sendNext ∧ (s.sendBase = s.sendNext → s'.finAcked = true) := by
  have flow := level.closed.tidy.safe.flowing x
  have sending := flow.sending s sender
  have live := level.live sender
  have alive := level.live receiver
  have next : s.sendNext = (l.wrote x id).length := sending.next
  have lower := flow.base s t sender receiver
  have upper : t.recv.ackPoint ≤ s.sendHigh := by
    unfold Lane.Flowing at flow
    rw [show (l.lane id x).stream = some s from sender,
      show (l.lane id x.other).stream = some t from receiver] at flow
    exact flow.ackPoint_le
  have low := sending.low
  have high := sending.high
  have after := (level.meets sender receiver holds).sender
  generalize (l.mux x).now + 1 = now at after
  generalize (l.mux x.other).now + 1 = tick at after
  obtain ⟨sending',_,kept,_⟩ := StreamState.transmit_spec sending (flow.paced s sender) live now
  obtain ⟨base,_⟩ := StreamState.absorb_transmit sending' alive (by rw [kept.base]; exact lower)
    (by rw [kept.next]; omega) now tick
  have persists := StreamState.absorb_persists now (t.transmit tick).2 (s.transmit now).1
  refine ⟨_,after,?_,fun settled => ?_⟩
  · show ((s.transmit now).1.absorb now (t.transmit tick).2).sendBase =
      ((s.transmit now).1.absorb now (t.transmit tick).2).sendNext
    rw [base,persists.next,kept.next]
    omega
  · show ((s.transmit now).1.absorb now (t.transmit tick).2).finAcked = true
    cases acked : s.finAcked with
    | true => exact persists.finAcked (kept.finAcked.trans acked)
    | false =>
      have fin := level.closed.sendFin sender
      have sent := StreamState.transmit_finSent live fin acked settled (by omega) now
      have ack := StreamState.transmit_ack_mem alive tick
      rw [show t.recv.ackPoint = (s.transmit now).1.sendNext by rw [kept.next]; omega] at ack
      exact StreamState.absorb_acked now ack (kept.sendFin.trans fin) sent

end Both

theorem Holds.held (holds : l.Holds id) (x : Side) : ∃ s, l.stream x id = some s :=
  Option.ne_none_iff_exists'.mp (holds 0 x)

/-- Some number of rounds brings all bytes to the peer. -/
theorem Level.arrives (level : Level id l) (holds : l.Holds id) (x : Side) :
    ∃ n, Lane.Arrived ((Link.rounds n l).lane id) x := by
  have next : ∀ m : Link, Level id m → m.Holds id → ∀ s t, Waiting m x id s t →
      Lane.Arrived (m.advance.lane id) x ∨ ∃ s' t', Waiting m.advance x id s' t' ∧ s'.peerWindow = defaultWindow ∧
        (s.peerWindow = defaultWindow → Prod.Lex (· < ·) (Prod.Lex (· < ·) (Prod.Lex (· < ·) (· < ·)))
          (m.advance.remaining x id s' t') (m.remaining x id s t)) :=
    fun m level holds s t waiting => waiting.advance level.closed.safe level.closed.tidy.graceful
      (level.closed.tidy.fits x) (level.meets waiting.sender waiting.receiver holds)
  have ranked := Machine.reaches
    (WellFounded.prod_lex wellFounded_lt (WellFounded.prod_lex wellFounded_lt
      (WellFounded.prod_lex wellFounded_lt wellFounded_lt)))
    Link.advance (fun m => Lane.Arrived (m.lane id) x)
    (fun r m => Level id m ∧ m.Holds id ∧ ∃ s t, Waiting m x id s t ∧ s.peerWindow = defaultWindow ∧
      m.remaining x id s t = r)
    (fun r m ⟨level,holds,s,t,waiting,wide,rank⟩ => by
      rcases next m level holds s t waiting with arrived | ⟨s',t',waiting',wide',lower⟩
      · exact .inl arrived
      · exact .inr ⟨_,rank ▸ lower wide,level.closed.level,holds.advance,s',t',waiting',wide',rfl⟩)
  obtain ⟨s,sender⟩ := holds.held x
  obtain ⟨t,receiver⟩ := holds.held x.other
  rcases Nat.lt_or_ge t.recv.ackPoint (l.wrote x id).length with pending | all
  · rcases next l level holds s t (level.waiting sender receiver pending) with arrived | ⟨s',t',waiting,wide,_⟩
    · exact ⟨1,arrived⟩
    · obtain ⟨n,arrived⟩ := ranked _ l.advance ⟨level.closed.level,holds.advance,s',t',waiting,wide,rfl⟩
      exact ⟨n + 1,arrived⟩
  · refine ⟨0,level.closed.born x.other,fun u same => ?_⟩
    rw [show ((Link.rounds 0 l).lane id x.other).stream = some t from receiver] at same
    cases same
    exact all

theorem Level.acked (level : Level id l) (holds : l.Holds id) (x : Side) : ∃ n, (Link.rounds n l).Mute x id := by
  obtain ⟨n,arrived⟩ := level.arrives holds x
  have here := level.rounds n
  have held := holds.rounds n
  obtain ⟨s,sender⟩ := held.held x
  obtain ⟨t,receiver⟩ := held.held x.other
  obtain ⟨s1,sender1,base,_⟩ := here.settles sender receiver held (arrived.2 t receiver)
  have arrived' : Lane.Arrived ((Link.rounds n l).advance.lane id) x :=
    run_arrived here.closed.safe arrived (round_actions (Link.rounds n l))
  obtain ⟨t1,receiver1⟩ := held.advance.held x.other
  obtain ⟨s2,sender2,_,acked⟩ := here.closed.level.settles sender1 receiver1 held.advance (arrived'.2 t1 receiver1)
  refine ⟨n + 2,fun u same => ?_⟩
  rw [rounds_add,rounds_succ,rounds_succ,rounds_zero,sender2] at same
  cases same
  exact acked base

theorem Level.mute_rounds (level : Level id l) (mute : l.Mute x id) (n : Nat) : (Link.rounds n l).Mute x id := by
  induction n generalizing l with
  | zero => exact mute
  | succ n ih => exact ih level.closed.level (level.mute_advance mute)

/-- An end whose peer's FIN is acknowledged has read all the peer wrote, once it knows of the FIN. -/
theorem Level.finished (level : Level id l) {s t : StreamState} (held : l.stream x id = some s)
    (other : l.stream x.other id = some t) (acked : t.finAcked = true) (marked : s.peerFin ≠ .opened) :
    s.recvFinished = true := by
  have into := (Lane.flows_of_flowing level.closed.tidy.safe.flowing x).into
  have base := (level.closed.tidy.acked x.other t other acked).1
  have next := (into.sending t other).next
  have lower := into.base t s other held
  have unread := level.read x s held
  have sum := s.recv.ackPoint_eq_unread
  unfold StreamState.recvFinished
  split
  · rename_i stop marked
    have fits := (into.finished s held stop marked).1
    simp only [Bool.and_eq_true,decide_eq_true_eq]
    exact ⟨by omega,by simp [unread]⟩
  · rename_i unmarked
    exact absurd unmarked marked

/-- Somebody gives the stream back. -/
theorem Level.parts (level : Level id l) (unstranded : ∀ n, ¬(Link.rounds n l).Stranded id) :
    ∃ n x, (Link.rounds n l).stream x id = none := by
  by_contra never
  have holds : l.Holds id := fun n x gone => never ⟨n,x,gone⟩
  obtain ⟨n,first⟩ := level.acked holds .client
  obtain ⟨m,second⟩ := (level.rounds n).acked (holds.rounds n) .server
  rw [← rounds_add] at second
  have here := level.rounds (n + m)
  have held := holds.rounds (n + m)
  have first := (level.rounds n).mute_rounds first m
  rw [← rounds_add] at first
  obtain ⟨s,client⟩ := held.held .client
  obtain ⟨t,server⟩ := held.held .server
  obtain ⟨k,gone⟩ := here.leaves (unstranded (n + m)) client second
    (fun marked => ⟨first s client,here.finished client server (second t server) marked⟩)
  rw [← rounds_add] at gone
  exact never ⟨_,_,gone⟩

theorem Closed.rounds_gone (closed : Closed id l) (gone : l.stream x id = none) (n : Nat) :
    (Link.rounds n l).stream x id = none := by
  induction n generalizing l with
  | zero => exact gone
  | succ n ih => exact ih closed.advance (closed.stays_gone gone)

/-- Once one side has given the stream back, the other does. -/
theorem Level.follows (level : Level id l) (unstranded : ¬l.Stranded id) (gone : l.stream x.other id = none) :
    ∃ n, ∀ y, (Link.rounds n l).stream y id = none := by
  have both : ∀ n, (Link.rounds n l).stream x id = none → ∀ y, (Link.rounds n l).stream y id = none := by
    intro n mine y
    rcases Side.eq_or_other x y with rfl | rfl
    · exact mine
    · exact level.closed.rounds_gone gone n
  cases held : l.stream x id with
  | none => exact ⟨0,both 0 held⟩
  | some s =>
    have mute : l.Mute x.other id := fun t here => by rw [gone] at here; cases here
    have ready : s.peerFin ≠ .opened → s.finAcked = true ∧ s.recvFinished = true := by
      intro marked
      by_contra undone
      exact unstranded ⟨x,s,held,.inr ⟨marked,gone,undone⟩⟩
    obtain ⟨n,mine⟩ := level.leaves unstranded held mute ready
    exact ⟨n,both n mine⟩

/-- Neither side holds the stream, and neither has a frame of it to send. -/
def AtRest (l : Link) (id : Nat) : Prop :=
  ∀ x, l.stream x id = none ∧ ∀ f ∈ (l.mux x).pollTransmit.2, f.streamId ≠ some id

theorem atRest_iff (keyed : l.Keyed) : l.AtRest id ↔ ∀ x, l.stream x id = none := by
  refine ⟨fun rest x => (rest x).1,fun gone x => ⟨gone x,fun f member named => ?_⟩⟩
  have none := pollTransmit_flight (fun k s held => (keyed x k s held).1) id
  rw [show (l.mux x).streams[id]? = Option.none from gone x] at none
  have here : f ∈ (l.mux x).pollTransmit.2.filter (Frame.names id) :=
    List.mem_filter.mpr ⟨member,by simp [Frame.names,named]⟩
  rw [none] at here
  cases here

theorem Closed.rests_iff (closed : Closed id l) :
    (∃ n, (Link.rounds n l).AtRest id) ↔ ∀ n, ¬(Link.rounds (n + 1) l).Stranded id := by
  have keyed := fun n => (rounds_safe closed.safe n).keyed
  constructor
  · rintro ⟨n,rest⟩ k stranded
    have gone := (atRest_iff (keyed n)).mp rest
    -- Both would hold after either number of rounds.
    have later : (Link.rounds (k + 1 + n) l).Stranded id := by
      clear gone rest
      rw [rounds_add]
      have level := closed.level.rounds k
      rw [rounds_succ] at stranded ⊢
      generalize Link.rounds k l.advance = m at level stranded
      induction n generalizing m with
      | zero => exact stranded
      | succ n ih => exact ih m.advance level.closed.level (level.stranded_advance stranded)
    obtain ⟨x,s,held,_⟩ := later
    have absent := (closed.rounds n).rounds_gone (gone x) (k + 1)
    rw [← rounds_add,Nat.add_comm] at absent
    rw [absent] at held
    cases held
  · intro unstranded
    have level := closed.level
    obtain ⟨n,y,gone⟩ := level.parts unstranded
    have here := level.rounds n
    obtain ⟨m,rest⟩ := here.follows (x := y.other) (unstranded n) (by rw [Side.other_other]; exact gone)
    refine ⟨n + m + 1,(atRest_iff (keyed _)).mpr (fun x => ?_)⟩
    rw [rounds_succ,rounds_add]
    exact rest x

theorem run_closed {schedule : List Action} (ordered : Machine.Along step (orderlyOn id · · = true) schedule start)
    (known : ∀ x, (Machine.run step schedule start).born x id = true)
    (closed : ∀ x, (Machine.run step schedule start).closedAt x id ≠ none) : Closed id (Machine.run step schedule start) := by
  obtain ⟨safe,tidy⟩ := run_tidy start_safe (start_tidy id) ordered
  exact ⟨safe,tidy,known,closed⟩

/-- Both sides close and the client gives the stream back; the ack it leaves behind is lost. -/
def lostAck : List Action :=
  [.openStream .client .exec [],.write .client 0 [7],.close .client 0 0,.poll .client,
    .deliver .client 0,.deliver .client 0,.deliver .client 0,.deliver .client 0,.read .server 0,.close .server 0 0,
    .poll .server,.deliver .server 0,.deliver .server 0,.deliver .server 0,.poll .client,.lose .client 0]

/-- Both sides close, and the client's first StreamClose is lost with the ack before it. -/
def lostClose : List Action :=
  [.openStream .client .exec [],.write .client 0 [7],.close .client 0 0,.poll .client,
    .deliver .client 0,.deliver .client 0,.lose .client 0,.lose .client 0,.read .server 0,.close .server 0 0]

end Link

/-- After any history of loss and reorder in which nobody resets the stream or writes to it after
closing it, a stream that both sides have known and closed comes to rest within some number of
lossless rounds, unless one of the rounds leaves an end behind. -/
theorem closed_streams_rest (schedule : List Link.Action) (id : Nat)
    (ordered : Machine.Along Link.step (Link.orderlyOn id · · = true) schedule Link.start)
    (known : ∀ x, (Machine.run Link.step schedule Link.start).born x id = true)
    (closed : ∀ x, (Machine.run Link.step schedule Link.start).closedAt x id ≠ none) :
    let l := Machine.run Link.step schedule Link.start
    (∃ n, (Link.rounds n l).AtRest id) ↔ ∀ n, ¬(Link.rounds (n + 1) l).Stranded id :=
  (Link.run_closed ordered known closed).rests_iff

theorem closed_streams_rest_lostClose :
    (∃ n, (Link.rounds n (Machine.run Link.step Link.lostClose Link.start)).AtRest 0) ∧
    ∀ n, ¬(Link.rounds (n + 1) (Machine.run Link.step Link.lostClose Link.start)).Stranded 0 := by
  have known : ∀ x, (Machine.run Link.step Link.lostClose Link.start).born x 0 = true := by
    intro x
    cases x <;> decide +kernel
  have closed : ∀ x, (Machine.run Link.step Link.lostClose Link.start).closedAt x 0 ≠ none := by
    intro x
    cases x <;> decide +kernel
  have rest : ∃ n, (Link.rounds n (Machine.run Link.step Link.lostClose Link.start)).AtRest 0 := by
    refine ⟨2,(Link.atRest_iff (Link.rounds_safe (Link.run_safe _) 2).keyed).mpr (fun x => ?_)⟩
    apply Option.isNone_iff_eq_none.mp
    cases x <;> decide +kernel
  exact ⟨rest,(closed_streams_rest Link.lostClose 0 (by decide +kernel) known closed).mp rest⟩

/-- The server repeats its FIN and its close for ever. -/
theorem closed_streams_linger : ¬∀ (schedule : List Link.Action) (id : Nat),
    Machine.Along Link.step (Link.orderlyOn id · · = true) schedule Link.start →
    (∀ x, (Machine.run Link.step schedule Link.start).born x id = true) →
    (∀ x, (Machine.run Link.step schedule Link.start).closedAt x id ≠ none) →
    ∃ n, (Link.rounds n (Machine.run Link.step schedule Link.start)).AtRest id := by
  intro claim
  have ordered : Machine.Along Link.step (Link.orderlyOn 0 · · = true) Link.lostAck Link.start := by decide +kernel
  have facts : (let l := Machine.run Link.step Link.lostAck Link.start
      (∀ x ∈ [Side.client,.server], l.born x 0 = true ∧ (l.closedAt x 0).isSome ∧ l.flight x = []) ∧
      (l.stream .client 0).isNone = true ∧
      (l.stream .server 0).map (fun s => (s.peerFin,s.finAcked,s.recv.unread)) = some (.finished 1,false,0)) := by
    decide +kernel
  have known : ∀ x, (Machine.run Link.step Link.lostAck Link.start).born x 0 = true := by
    intro x
    exact (facts.1 x (by cases x <;> simp)).1
  have closed : ∀ x, (Machine.run Link.step Link.lostAck Link.start).closedAt x 0 ≠ none := by
    intro x
    exact Option.isSome_iff_ne_none.mp (facts.1 x (by cases x <;> simp)).2.1
  have rest := claim Link.lostAck 0 ordered known closed
  have done := Link.run_closed ordered known closed
  rw [done.rests_iff] at rest
  obtain ⟨s,held,here⟩ := Option.map_eq_some_iff.mp facts.2.2
  have gone := Option.isNone_iff_eq_none.mp facts.2.1
  simp only [Prod.mk.injEq] at here
  have level : Link.Level 0 (Machine.run Link.step Link.lostAck Link.start) := by
    refine ⟨done,fun x => ?_,fun x u there => ?_⟩
    · simp only [Link.lane,(facts.1 x (by cases x <;> simp)).2.2,List.filter_nil]
    · cases x with
      | client =>
        rw [gone] at there
        cases there
      | server =>
        rw [held] at there
        cases there
        exact here.2.2
  refine rest 0 (level.stranded_advance ⟨.server,s,held,.inr ⟨?_,gone,?_⟩⟩)
  · simp [here.1]
  · simp [here.2.1]

end Noissh

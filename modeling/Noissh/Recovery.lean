import Mathlib.Order.RelClasses
import Noissh.Progress
import Noissh.Sound

/-! Recovery: once the losses stop, every byte written to a stream reaches the other side.
A round delivers the next byte, or moves an ack, or sends something new, or brings the
retransmit timer nearer to its end. -/
namespace Noissh
namespace Lane

variable {id : Nat} {v : Lane}

/-- What a round does. -/
def Passive : Event → Prop
  | .poll _ _ | .deliver _ _ _ _ | .read _ | .idle => True
  | _ => False

theorem Passive.fresh {e : Event} (passive : Passive e) : Fresh id v e := by
  cases e <;> trivial

/-- Everything side `x` wrote is in the hands of the other side. -/
def Arrived (v : Lane) (x : Side) : Prop :=
  (v x.other).born = true ∧ ∀ t, (v x.other).stream = some t → (v x).wrote.length ≤ t.recv.ackPoint

theorem Touch.passive {y : Side} {e : Event} {e' : Endpoint} (touched : Touch id v y e e') (passive : Passive e) :
    e'.wrote = (v y).wrote ∧ (v y).got <+: e'.got := by
  cases touched with
  | read =>
    unfold Endpoint.read
    split
    · exact ⟨rfl,List.prefix_append _ _⟩
    · exact ⟨rfl,List.prefix_refl _⟩
  | poll => unfold Endpoint.poll; split <;> exact ⟨rfl,List.prefix_refl _⟩
  | receive => rw [Link.Receive.wrote,Link.Receive.got]; exact ⟨rfl,List.prefix_refl _⟩
  | same => exact ⟨rfl,List.prefix_refl _⟩
  | sent => exact ⟨rfl,List.prefix_refl _⟩
  | lost => exact ⟨rfl,List.prefix_refl _⟩
  | _ => cases passive

/-- The ack point of an end never falls. -/
theorem Evolves.ackPoint (safe : Safe id v) {y : Side} {e : Event} {s t : StreamState} (held : (v y).stream = some s)
    (evolves : Evolves v y e s t) : s.recv.ackPoint ≤ t.recv.ackPoint := by
  have out := safe.flowing y
  have valid := (flows_of_flowing safe.flowing y).into.recv s held
  cases evolves with
  | read =>
    have := Reassembler.delivered_le_ackPoint s.recv.read.2
    rwa [Reassembler.read_delivered] at this
  | @poll now _ live _ =>
    obtain ⟨_,_,kept,_⟩ := StreamState.transmit_spec (out.sending s held) (out.paced s held) live now
    exact Nat.le_of_eq (congrArg Reassembler.ackPoint kept.recv).symm
  | @data _ _ now _ k offset data fin _ _ =>
    exact (StreamState.absorbFrame_recv now valid (.streamData k offset data fin)).2.2
  | @ack _ _ now _ k ack window _ _ => exact (StreamState.absorbFrame_recv now valid (.streamAck k ack window)).2.2
  | _ => exact Nat.le_refl _

theorem step_arrived (safe : Safe id v) {x : Side} (arrived : Arrived v x) {e : Event} (passive : Passive e) :
    Arrived (v.step id e) x := by
  refine ⟨born_mono safe e arrived.1,fun t here => ?_⟩
  rw [((step_touch id v e x).passive passive).1]
  rcases step_evolves safe passive.fresh here with ⟨s,held,evolves⟩ | ⟨unborn,_⟩
  · exact Nat.le_trans (arrived.2 s held) (evolves.ackPoint safe held)
  · rw [arrived.1] at unborn; cases unborn

/-- A stream whose FIN is acked has arrived. -/
theorem Sound.arrived (sound : Sound id v) {x : Side} {s : StreamState} (held : (v x).stream = some s)
    (acked : s.finAcked = true) : Arrived v x := by
  obtain ⟨base,_,born⟩ := sound.acked x s held acked
  refine ⟨born,fun t other => ?_⟩
  have flow := sound.safe.flowing x
  rw [← (flow.sending s held).next,← base]
  exact flow.base s t held other

/-- What has arrived and been read is everything that was written. -/
theorem Sound.read_arrived (sound : Sound id v) {x : Side} (arrived : Arrived v x)
    (unread : ∀ t, (v x.other).stream = some t → t.recv.unread = 0) : (v x.other).got = (v x).wrote := by
  have flow := sound.safe.flowing x
  refine flow.got.eq_of_length_le ?_
  cases held : (v x.other).stream with
  | none =>
    obtain ⟨n,closed,reach⟩ := sound.reclaimed x.other arrived.1 held
    rw [Side.other_other] at closed
    rw [← sound.whole x n closed]
    exact reach
  | some t =>
    have reach := arrived.2 t held
    have sum := t.recv.ackPoint_eq_unread
    rw [unread t held] at sum
    obtain ⟨_,eq⟩ := flow.bytes t held
    rw [eq,List.length_take]
    omega

end Lane

namespace Endpoint

theorem receive_held {id now : Nat} {welcome : Bool} {e : Endpoint} {s : StreamState} (held : e.stream = some s)
    (frame : Frame) : (e.receive id now welcome frame).stream = some (s.absorbFrame now frame) := by
  cases frame with
  | streamOpen k kind metadata => simp [receive,held,StreamState.absorbFrame]
  | streamData k offset data fin => simp [receive,held,StreamState.absorbFrame]
  | _ => simp [receive,held,StreamState.absorbFrame]

theorem absorb_held {id now : Nat} {e : Endpoint} {s : StreamState} (held : e.stream = some s) (frames : List Frame) :
    (e.absorb id now frames).stream = some (s.absorb now frames) := by
  induction frames generalizing e s with
  | nil => exact held
  | cons frame rest ih => exact ih (receive_held held frame)

end Endpoint

namespace StreamState

theorem absorb_needsOpen (now : Nat) (frames : List Frame) (s : StreamState) :
    (s.absorb now frames).needsOpen = s.needsOpen := by
  induction frames generalizing s with
  | nil => rfl
  | cons frame rest ih =>
    rw [absorb_cons,ih]
    cases frame with
    | streamData k offset data fin => rw [absorbFrame,onData_eq]
    | streamAck k ack window =>
      obtain ⟨_,_,_,_,_,_,_,_,_,_,_,eq⟩ := s.onAck_eq ack window now
      rw [absorbFrame,eq]
    | _ => rfl

/-- One end of a stream after a round in which it polls, takes in frames and is read. -/
def afterRound (now : Nat) (frames : List Frame) (s : StreamState) : StreamState :=
  let u := (s.transmit now).1.absorb now frames
  { u with recv := u.recv.read.2 }

end StreamState

namespace Link

variable {l : Link} {x : Side} {id : Nat}

theorem event_passive {a : Action} (ok : transfers a = true ∨ ∃ y k, a = .read y k) (id : Nat) :
    Lane.Passive (l.event id a) := by
  rcases ok with moved | ⟨y,k,rfl⟩
  · have quiet := event_quiet (l := l) moved id
    generalize l.event id a = e at quiet
    cases e <;> trivial
  · simp only [event]
    split <;> trivial

theorem round_actions (l : Link) : ∀ a ∈ l.round, transfers a = true ∨ ∃ y k, a = .read y k := by
  intro a member
  rcases List.mem_append.mp member with moved | taken
  · exact .inl (exchange_transfers l a moved)
  · simp only [reads,readAll,List.mem_append,List.mem_map] at taken
    rcases taken with ⟨k,_,rfl⟩ | ⟨k,_,rfl⟩
    · exact .inr ⟨_,k,rfl⟩
    · exact .inr ⟨_,k,rfl⟩

theorem run_arrived (safe : l.Safe) (arrived : Lane.Arrived (l.lane id) x) {schedule : List Action}
    (ok : ∀ a ∈ schedule, transfers a = true ∨ ∃ y k, a = .read y k) :
    Lane.Arrived ((Machine.run step schedule l).lane id) x := by
  induction schedule generalizing l with
  | nil => exact arrived
  | cons a rest ih =>
    refine ih (step_safe safe a) ?_ (fun b member => ok b (.tail _ member))
    rw [lane_step safe.keyed a id]
    exact Lane.step_arrived (safe.lanes id) arrived (event_passive (ok a (.head _)) id)

/-- Rounds write nothing and take back nothing that was read. -/
theorem advance_records (safe : l.Safe) (x : Side) (id : Nat) :
    l.advance.wrote x id = l.wrote x id ∧ l.got x id <+: l.advance.got x id := by
  have run : ∀ schedule : List Action, ∀ l : Link, l.Safe →
      (∀ a ∈ schedule, transfers a = true ∨ ∃ y k, a = .read y k) →
      (Machine.run step schedule l).wrote x id = l.wrote x id ∧ l.got x id <+: (Machine.run step schedule l).got x id := by
    intro schedule
    induction schedule with
    | nil => exact fun l _ _ => ⟨rfl,List.prefix_refl _⟩
    | cons a rest ih =>
      intro l safe ok
      have later := ih (l.step a) (step_safe safe a) (fun b member => ok b (.tail _ member))
      have touched := (Lane.step_touch id (l.lane id) (l.event id a) x).passive (event_passive (ok a (.head _)) id)
      rw [← lane_step safe.keyed a id] at touched
      exact ⟨later.1.trans touched.1,touched.2.trans later.2⟩
  exact run l.round l safe (round_actions l)

/-- A round whose actions are all steady. -/
def SteadyRound (l : Link) : Prop := Machine.Along step (·.steady · = true) l.round l

theorem SteadyRound.room (steady : l.SteadyRound) : Machine.Along step (fun l _ => l.roomy = true) l.round l :=
  steady.imp (fun m a ok => by simp only [Link.steady,Bool.and_eq_true] at ok; exact ok.1.1.1)

/-- No poll of the round ends a grace window. -/
theorem SteadyRound.grace (steady : l.SteadyRound) (safe : l.Safe) {s : StreamState} (held : l.stream x id = some s) :
    s.graceEnds = false := by
  have split := steady
  unfold SteadyRound round exchange polls at split
  simp only [List.cons_append,List.nil_append,Machine.Along] at split
  obtain ⟨first,second,_⟩ := split
  simp only [Link.steady,Bool.and_eq_true] at first second
  cases x with
  | client => exact inGrace_lane (a := .poll .client) first.1.2 id s held
  | server =>
    have same := congrFun (lane_step safe.keyed (.poll .client) id) .server
    simp only [event,Lane.step] at same
    rw [Lane.onSide_ne _ _ (by decide)] at same
    exact inGrace_lane (a := .poll .server) second.1.2 id s
      (show ((l.step (.poll .client)).lane id .server).stream = some s by rw [same]; exact held)

theorem SteadyRound.sound (steady : l.SteadyRound) (sound : l.Sound) : l.advance.Sound := run_sound sound steady

theorem SteadyRound.welcomes (steady : l.SteadyRound) (safe : l.Safe) (id : Nat) :
    Machine.Along step (fun l _ => l.Welcomes id) l.round l :=
  steady.room.of_invariant Safe (fun _ a safe _ => step_safe safe a) (fun _ _ safe room => welcomes_roomy safe room id)
    safe

/-- A held end after its poll. -/
theorem polled_held {s : StreamState} (held : l.stream x id = some s) (live : s.reset = false) :
    l.polled id x = { l.lane id x with
      stream := if (s.transmit ((l.mux x).now + 1)).1.fullyDone then none else some (s.transmit ((l.mux x).now + 1)).1
      flight := (l.lane id x).flight ++ (s.transmit ((l.mux x).now + 1)).2 } := by
  have here : (l.lane id x).stream = some s := held
  simp [polled,Endpoint.poll,here,StreamMux.pollStream,live]

/-- A held end that is not done in both directions survives the poll of a steady round. -/
theorem SteadyRound.survives (steady : l.SteadyRound) (sound : l.Sound) {s : StreamState}
    (held : l.stream x id = some s) (undone : ¬(s.finAcked = true ∧ s.recvFinished = true)) :
    (s.transmit ((l.mux x).now + 1)).1.fullyDone = false := by
  have lane := sound.lanes id
  have flow := lane.safe.flowing x
  have done := (StreamState.transmit_done (flow.sending s held) (flow.paced s held) ((lane.graceful x).live s held)
    ((lane.graceful x).waiting s held) ((l.mux x).now + 1)).2
  cases finished : (s.transmit ((l.mux x).now + 1)).1.fullyDone with
  | false => rfl
  | true =>
    rcases (done finished).2 with both | ended
    · exact absurd both undone
    · rw [steady.grace sound.safe held] at ended; cases ended

theorem advance_reads (safe : l.Safe) (id : Nat) (y : Side) : (Machine.run step l.exchange l).Safe ∧
    l.advance.lane id y = ((Machine.run step l.exchange l).lane id y).read := by
  have after : (Machine.run step l.exchange l).Safe := safe.run _
  refine ⟨after,?_⟩
  unfold advance round
  rw [Machine.run_append]
  exact reads_lane after.keyed id y

theorem advance_flight (safe : l.Safe) (id : Nat) (y : Side) : (l.advance.lane id y).flight = [] := by
  rw [(advance_reads safe id y).2]
  unfold Endpoint.read
  split <;> simp only [Link.lane,exchange_flight,List.filter_nil]

theorem advance_unread (safe : l.Safe) {y : Side} {t : StreamState} (held : l.advance.stream y id = some t) :
    t.recv.unread = 0 := by
  obtain ⟨safe,lane⟩ := advance_reads safe id y
  have here : (((Machine.run step l.exchange l).lane id y).read).stream = some t := lane ▸ held
  cases before : ((Machine.run step l.exchange l).lane id y).stream with
  | none => simp [Endpoint.read,before] at here
  | some u =>
    have valid := (Lane.flows_of_flowing (safe.lanes id).flowing y).into.recv u before
    simp only [Endpoint.read,before,Option.some.injEq] at here
    subst here
    exact Reassembler.read_unread valid

/-- An end that survives its poll, after the round. -/
theorem advance_held (safe : l.Safe) (room : Machine.Along step (fun l _ => l.Welcomes id) l.round l)
    {s : StreamState} (held : l.stream x id = some s) (live : s.reset = false)
    (survives : (s.transmit ((l.mux x).now + 1)).1.fullyDone = false) :
    l.advance.stream x id = some (s.afterRound ((l.mux x).now + 1) (l.polled id x.other).flight) := by
  have lane := round_lane safe room x
  have here : (l.polled id x).stream = some (s.transmit ((l.mux x).now + 1)).1 := by
    simp [polled_held held live,survives]
  have taken := @Endpoint.absorb_held id ((l.mux x).now + 1) _ _ here (l.polled id x.other).flight
  show (l.advance.lane id x).stream = _
  unfold advance
  rw [lane]
  simp [Endpoint.read,Endpoint.land,taken,StreamState.afterRound]

/-- Both ends hold the stream at the end of a round, and bytes are missing. -/
structure Waiting (l : Link) (x : Side) (id : Nat) (s t : StreamState) : Prop where
  sender : l.stream x id = some s
  receiver : l.stream x.other id = some t
  quiet : ∀ y, (l.lane id y).flight = []
  read : t.recv.unread = 0
  opened : s.needsOpen = false
  pending : t.recv.ackPoint < (l.wrote x id).length

/-- After a round, a stream that was held has arrived or is waiting with both ends in place. -/
theorem advance_waiting (sound : l.Sound) (steady : l.SteadyRound) {s : StreamState} (held : l.stream x id = some s) :
    Lane.Arrived (l.advance.lane id) x ∨ ∃ s' t', Waiting l.advance x id s' t' := by
  cases acked : s.finAcked with
  | true => exact .inl (run_arrived sound.safe ((sound.lanes id).arrived held acked) (round_actions l))
  | false =>
    have after := (steady.sound sound).lanes id
    have flow := (sound.lanes id).safe.flowing x
    have live := ((sound.lanes id).graceful x).live s held
    obtain ⟨_,_,_,closed,_⟩ := StreamState.transmit_spec (flow.sending s held) (flow.paced s held) live ((l.mux x).now + 1)
    have here := advance_held sound.safe (steady.welcomes sound.safe id) held live
      (steady.survives sound held (by simp [acked]))
    have quiet := advance_flight sound.safe id
    have opened : (s.afterRound ((l.mux x).now + 1) (l.polled id x.other).flight).needsOpen = false :=
      (StreamState.absorb_needsOpen ..).trans closed
    have born : (l.advance.lane id x.other).born = true := by
      by_cases parity : id % 2 = x.parity
      · rcases after.linked x _ here opened parity with born | ⟨f,member,_⟩
        · exact born
        · rw [quiet x] at member; cases member
      · exact after.answered x ((after.safe.life x).noted _ here).2 parity
    cases other : l.advance.stream x.other id with
    | none => exact .inl ⟨born,fun t impossible => by
        rw [show (l.advance.lane id x.other).stream = l.advance.stream x.other id from rfl,other] at impossible
        cases impossible⟩
    | some t =>
      rcases Nat.lt_or_ge t.recv.ackPoint (l.advance.wrote x id).length with pending | all
      · exact .inr ⟨_,t,here,other,quiet,advance_unread sound.safe other,opened,pending⟩
      · refine .inl ⟨born,fun u same => ?_⟩
        rw [show (l.advance.lane id x.other).stream = l.advance.stream x.other id from rfl,other] at same
        cases same
        exact all

/-- The bytes a sender still has to deliver, in the order in which a round works on them: bytes the
receiver lacks, acks on their way back, bytes never sent, and ticks to the retransmission. -/
def remaining (l : Link) (x : Side) (id : Nat) (s t : StreamState) : Nat × Nat × Nat × Nat :=
  ((l.wrote x id).length - t.recv.ackPoint,t.recv.ackPoint - s.sendBase,(l.wrote x id).length - s.sendHigh,
    s.rtoStart.getD 0 + maxRto - (l.mux x).now)

/-- A receiver that lacks bytes is not finished. -/
theorem Waiting.unfinished {s t : StreamState} (waiting : Waiting l x id s t) (sound : l.Sound) :
    t.recvFinished = false := by
  cases finished : t.recvFinished with
  | false => rfl
  | true =>
    have lane := sound.lanes id
    have flow := lane.safe.flowing x
    obtain ⟨_,eq⟩ := flow.bytes t waiting.receiver
    unfold Lane.Flowing at flow
    rw [show (l.lane id x.other).stream = some t from waiting.receiver] at flow
    obtain ⟨n,closed,reach,_⟩ := flow.read_finished finished
    have whole := lane.whole x n closed
    rw [eq,List.length_take] at reach
    have pending := waiting.pending
    have low := t.recv.delivered_le_ackPoint
    have : n = (l.wrote x id).length := whole
    omega

/-- The sender's FIN is not acked while bytes are missing. -/
theorem Waiting.unacked {s t : StreamState} (waiting : Waiting l x id s t) (sound : l.Sound) : s.finAcked = false := by
  cases acked : s.finAcked with
  | false => rfl
  | true =>
    have reach : (l.wrote x id).length ≤ _ :=
      ((sound.lanes id).arrived waiting.sender acked).2 t waiting.receiver
    have pending := waiting.pending
    omega

/-- Both ends of a stream come through a round, in which each takes in what the other transmits. -/
structure Meets (l : Link) (x : Side) (id : Nat) (s t : StreamState) : Prop where
  sender : l.advance.stream x id = some (s.afterRound ((l.mux x).now + 1) (t.transmit ((l.mux x.other).now + 1)).2)
  receiver : l.advance.stream x.other id = some (t.afterRound ((l.mux x.other).now + 1) (s.transmit ((l.mux x).now + 1)).2)

/-- What a side that holds the stream has in flight after its poll, at the end of a round. -/
theorem polled_flight {s : StreamState} (held : l.stream x id = some s) (live : s.reset = false)
    (quiet : (l.lane id x).flight = []) : (l.polled id x).flight = (s.transmit ((l.mux x).now + 1)).2 := by
  rw [polled_held held live]
  simp only [quiet,List.nil_append]

theorem meets (safe : l.Safe) (room : Machine.Along step (fun l _ => l.Welcomes id) l.round l)
    (graceful : ∀ y, (l.lane id y).Graceful) (quiet : ∀ y, (l.lane id y).flight = []) {s t : StreamState}
    (sender : l.stream x id = some s) (receiver : l.stream x.other id = some t)
    (survives : (s.transmit ((l.mux x).now + 1)).1.fullyDone = false)
    (survives' : (t.transmit ((l.mux x.other).now + 1)).1.fullyDone = false) : Meets l x id s t := by
  have live := (graceful x).live s sender
  have alive := (graceful x.other).live t receiver
  constructor
  · rw [advance_held safe room sender live survives,polled_flight receiver alive (quiet x.other)]
  · rw [advance_held safe room receiver alive survives',Side.other_other,polled_flight sender live (quiet x)]

theorem Waiting.meets {s t : StreamState} (waiting : Waiting l x id s t) (sound : l.Sound) (steady : l.SteadyRound) :
    Meets l x id s t :=
  Link.meets sound.safe (steady.welcomes sound.safe id) (sound.lanes id).graceful waiting.quiet waiting.sender
    waiting.receiver (steady.survives sound waiting.sender (by simp [waiting.unacked sound]))
    (steady.survives sound waiting.receiver (by simp [waiting.unfinished sound]))

section Round

variable {s t : StreamState} (waiting : Waiting l x id s t) (safe : l.Safe) (graceful : ∀ y, (l.lane id y).Graceful)
  (fits : (l.wrote x id).length ≤ u64Max) (both : Meets l x id s t)

include waiting safe graceful fits both

/-- The two ends of a waiting stream after a round. -/
theorem Waiting.round :
    ∃ s' t', l.advance.stream x id = some s' ∧ l.advance.stream x.other id = some t' ∧ s'.needsOpen = false ∧
      s'.peerWindow = defaultWindow ∧ s'.sendBase = t.recv.ackPoint ∧ t.recv.ackPoint ≤ t'.recv.ackPoint ∧
      (s.peerWindow = defaultWindow → s.sendBase = t.recv.ackPoint → t'.recv.ackPoint = t.recv.ackPoint →
        s.sendHigh < s'.sendHigh ∨ s'.sendHigh = s.sendHigh ∧
          ∃ start, s.rtoStart = some start ∧ s'.rtoStart = some start ∧ (l.mux x).now + 1 < start + maxRto) := by
  have flow := (safe.lanes id).flowing x
  have back := (safe.lanes id).flowing x.other
  have sending := flow.sending s waiting.sender
  have live := (graceful x).live s waiting.sender
  have alive := (graceful x.other).live t waiting.receiver
  have lower := flow.base s t waiting.sender waiting.receiver
  have next : s.sendNext = (l.wrote x id).length := sending.next
  have pending := waiting.pending
  have delivered := t.recv.ackPoint_eq_unread
  rw [waiting.read,Nat.add_zero] at delivered
  obtain ⟨senderAfter,receiverAfter⟩ := both
  generalize (l.mux x).now + 1 = now at *
  generalize (l.mux x.other).now + 1 = tick at *
  obtain ⟨sending',_,kept,closed,_⟩ := StreamState.transmit_spec sending (flow.paced s waiting.sender) live now
  obtain ⟨_,_,kept',_⟩ := StreamState.transmit_spec (back.sending t waiting.receiver)
    (back.paced t waiting.receiver) alive tick
  obtain ⟨base,window,needsOpen,_,idle⟩ := StreamState.absorb_transmit sending' alive
    (by rw [kept.base]; exact lower) (by rw [kept.next]; omega) now tick
  have valid : (t.transmit tick).1.recv.Valid := by rw [kept'.recv]; exact flow.recv t waiting.receiver
  obtain ⟨valid',_,grows⟩ := StreamState.absorb_recv tick (s.transmit now).2 valid
  rw [kept'.recv] at grows
  have reached : (t.afterRound tick (s.transmit now).2).recv.ackPoint =
      ((t.transmit tick).1.absorb tick (s.transmit now).2).recv.ackPoint := Reassembler.read_ackPoint valid'
  refine ⟨_,_,senderAfter,receiverAfter,needsOpen.trans closed,?_,base,by rw [reached]; exact grows,
    fun wide settled stuck => ?_⟩
  · refine window.trans ?_
    simp [StreamState.window,waiting.read]
  obtain ⟨high,timer⟩ := idle (by rw [kept.base]; exact settled.symm)
  rcases StreamState.transmit_progress sending (flow.paced s waiting.sender) live wide (by omega) now with
    fresh | ⟨start,running,soon,same,still⟩ | ⟨off,d,fin,member,low,covers,inside⟩
  · exact .inl (Nat.lt_of_lt_of_eq fresh high.symm)
  · exact .inr ⟨high.trans same,start,running,timer.trans (still.trans running),soon⟩
  · -- The resent frame carries the byte the receiver waits for.
    have beyond := StreamState.absorb_covers tick valid member (Nat.le_trans inside fits) low covers
      (by rw [kept'.recv,settled]; exact delivered)
    rw [reached] at stuck
    omega

/-- A round of a waiting stream opens the window and, once it is open, brings the stream nearer to
its end. -/
theorem Waiting.advance : Lane.Arrived (l.advance.lane id) x ∨ ∃ s' t', Waiting l.advance x id s' t' ∧
    s'.peerWindow = defaultWindow ∧
      (s.peerWindow = defaultWindow →
        Prod.Lex (· < ·) (Prod.Lex (· < ·) (Prod.Lex (· < ·) (· < ·)))
          (l.advance.remaining x id s' t') (l.remaining x id s t)) := by
  obtain ⟨s',t',sender,receiver,opened,window,base,grows,progress⟩ := waiting.round safe graceful fits both
  have after : Lane.Safe id (l.advance.lane id) := (safe.run l.round).lanes id
  have born := ((after.life x.other).noted t' receiver).2
  have wrote := (advance_records safe x id).1
  have clock : (l.advance.mux x).now = (l.mux x).now + 1 := round_now safe x
  have flow := after.flowing x
  have high := (flow.sending s' sender).high
  have next : s'.sendNext = (l.advance.wrote x id).length := (flow.sending s' sender).next
  have lower := ((safe.lanes id).flowing x).base s t waiting.sender waiting.receiver
  have pending := waiting.pending
  rcases Nat.lt_or_ge t'.recv.ackPoint (l.advance.wrote x id).length with missing | all
  case inr =>
    refine .inl ⟨born,fun u same => ?_⟩
    rw [show (l.advance.lane id x.other).stream = some t' from receiver] at same
    cases same
    exact all
  refine .inr ⟨s',t',⟨sender,receiver,advance_flight safe id,advance_unread safe receiver,opened,missing⟩,
    window,fun wide => ?_⟩
  unfold remaining
  rw [wrote] at next ⊢
  rcases Nat.lt_or_eq_of_le grows with more | same
  · exact .left _ _ (by omega)
  rw [← same,base]
  refine .right _ ?_
  rcases Nat.lt_or_eq_of_le lower with behind | settled
  · exact .left _ _ (by omega)
  rw [settled]
  refine .right _ ?_
  rcases progress wide settled same.symm with fresh | ⟨level,start,running,still,soon⟩
  · exact .left _ _ (by omega)
  · rw [level,running,still,clock]
    refine .right _ ?_
    simp only [Option.getD_some]
    omega

end Round

theorem Waiting.steady_advance {s t : StreamState} (waiting : Waiting l x id s t) (sound : l.Sound)
    (steady : l.SteadyRound) :
    Lane.Arrived (l.advance.lane id) x ∨ ∃ s' t', Waiting l.advance x id s' t' ∧ s'.peerWindow = defaultWindow ∧
      (s.peerWindow = defaultWindow →
        Prod.Lex (· < ·) (Prod.Lex (· < ·) (Prod.Lex (· < ·) (· < ·)))
          (l.advance.remaining x id s' t') (l.remaining x id s t)) :=
  waiting.advance sound.safe (sound.lanes id).graceful ((sound.lanes id).fits x) (waiting.meets sound steady)

theorem rounds_safe (safe : l.Safe) (n : Nat) : (rounds n l).Safe := by
  induction n generalizing l with
  | zero => exact safe
  | succ n ih =>
    exact ih (safe.run l.round)

@[simp] theorem rounds_zero (l : Link) : rounds 0 l = l := rfl

@[simp] theorem rounds_succ (n : Nat) (l : Link) : rounds (n + 1) l = rounds n l.advance := rfl

theorem rounds_add (n m : Nat) (l : Link) : rounds (n + m) l = rounds m (rounds n l) := by
  unfold rounds
  rw [Nat.add_comm,Function.iterate_add_apply]

theorem rounds_records (safe : l.Safe) (x : Side) (id n : Nat) :
    (rounds n l).wrote x id = l.wrote x id ∧ l.got x id <+: (rounds n l).got x id := by
  induction n generalizing l with
  | zero => exact ⟨rfl,List.prefix_refl _⟩
  | succ n ih =>
    have first := advance_records safe x id
    have later := ih (rounds_safe safe 1)
    exact ⟨later.1.trans first.1,first.2.trans later.2⟩

/-- What was read stays read. -/
theorem rounds_done (safe : l.Safe) {n : Nat} (done : (rounds n l).got x.other id = l.wrote x id) (m : Nat) :
    (rounds (n + m) l).got x.other id = l.wrote x id := by
  have grows := (rounds_records (rounds_safe safe n) x.other id m).2
  have bound := ((rounds_safe safe (n + m)).flow x id).got
  have wrote : (rounds (n + m) l).wrote x id = l.wrote x id := (rounds_records safe x id (n + m)).1
  rw [← rounds_add,done] at grows
  have bound' : (rounds (n + m) l).got x.other id <+: l.wrote x id := wrote ▸ bound
  exact bound'.eq_of_length_le grows.length_le

theorem advance_read (sound : l.Sound) (steady : l.SteadyRound) (arrived : Lane.Arrived (l.advance.lane id) x) :
    l.advance.got x.other id = l.advance.wrote x id :=
  ((steady.sound sound).lanes id).read_arrived arrived (fun _ held => advance_unread sound.safe held)

/-- One stream: some number of steady rounds delivers all of it. -/
theorem recovers (sound : l.Sound) (onward : ∀ n, (rounds n l).SteadyRound) {s : StreamState}
    (held : l.stream x id = some s) : ∃ n, (rounds n l).got x.other id = (rounds n l).wrote x id := by
  have shift : ∀ (m : Link), (∀ n, (rounds n m).SteadyRound) → ∀ n, (rounds n m.advance).SteadyRound :=
    fun m onward n => onward (n + 1)
  have ranked := Machine.reaches
    (WellFounded.prod_lex wellFounded_lt (WellFounded.prod_lex wellFounded_lt
      (WellFounded.prod_lex wellFounded_lt wellFounded_lt)))
    Link.advance (fun m => m.got x.other id = m.wrote x id)
    (fun r m => m.Sound ∧ (∀ n, (rounds n m).SteadyRound) ∧ ∃ s t, Waiting m x id s t ∧
      s.peerWindow = defaultWindow ∧ m.remaining x id s t = r)
    (fun r m ⟨sound,onward,s,t,waiting,wide,rank⟩ => by
      rcases waiting.steady_advance sound (onward 0) with arrived | ⟨s',t',waiting',wide',lower⟩
      · exact .inl (advance_read sound (onward 0) arrived)
      · exact .inr ⟨_,rank ▸ lower wide,(onward 0).sound sound,shift m onward,s',t',waiting',wide',rfl⟩)
  have first := (onward 0).sound sound
  rcases advance_waiting sound (onward 0) held with arrived | ⟨s1,t1,waiting⟩
  · refine ⟨1,?_⟩
    rw [rounds_succ,rounds_zero]
    exact advance_read sound (onward 0) arrived
  rcases waiting.steady_advance first (onward 1) with arrived | ⟨s2,t2,waiting',wide,_⟩
  · refine ⟨2,?_⟩
    rw [rounds_succ,rounds_succ,rounds_zero]
    exact advance_read first (onward 1) arrived
  obtain ⟨n,done⟩ := ranked _ l.advance.advance
    ⟨(onward 1).sound first,shift _ (shift _ onward),s2,t2,waiting',wide,rfl⟩
  refine ⟨n + 2,?_⟩
  rw [rounds_succ,rounds_succ]
  exact done

/-- Finitely many streams: one number of rounds serves them all. -/
theorem recovers_all (sound : l.Sound) (onward : ∀ n, (rounds n l).SteadyRound) (ends : List (Side × Nat))
    (held : ∀ p ∈ ends, (l.stream p.1 p.2).isSome) :
    ∃ n, ∀ p ∈ ends, (rounds n l).got p.1.other p.2 = l.wrote p.1 p.2 := by
  induction ends with
  | nil => exact ⟨0,by simp⟩
  | cons p rest ih =>
    obtain ⟨n,others⟩ := ih (fun q member => held q (.tail _ member))
    obtain ⟨s,here⟩ := Option.isSome_iff_exists.mp (held p (.head _))
    obtain ⟨m,mine⟩ := recovers sound onward here
    rw [(rounds_records sound.safe p.1 p.2 m).1] at mine
    refine ⟨m + n,fun q member => ?_⟩
    rcases List.mem_cons.mp member with rfl | later
    · exact rounds_done sound.safe mine n
    · rw [Nat.add_comm]
      exact rounds_done sound.safe (others q later) m

end Link

/-- In every run that loses no StreamOpen, writes nothing after a close and ends no grace window,
and after which that stays so, some number of lossless rounds brings every byte written to
every stream a side holds to the other side. -/
theorem streams_recover (schedule : List Link.Action)
    (guarded : Machine.Along Link.step (·.steady · = true) schedule Link.start)
    (onward : ∀ n, (Link.rounds n (Machine.run Link.step schedule Link.start)).SteadyRound) :
    let l := Machine.run Link.step schedule Link.start
    ∃ n, ∀ x id, (l.stream x id).isSome → (Link.rounds n l).got x.other id = l.wrote x id := by
  intro l
  have sound : l.Sound := Link.run_sound Link.start_sound guarded
  obtain ⟨n,done⟩ := Link.recovers_all sound onward
    ((l.mux .client).streams.keys.map (Side.client,·) ++ (l.mux .server).streams.keys.map (Side.server,·)) (by
      intro p member
      simp only [List.mem_append,List.mem_map,Std.TreeMap.mem_keys] at member
      rcases member with ⟨k,here,rfl⟩ | ⟨k,here,rfl⟩
      · exact Std.TreeMap.isSome_getElem?_iff_mem.mpr here
      · exact Std.TreeMap.isSome_getElem?_iff_mem.mpr here)
  refine ⟨n,fun x id held => done (x,id) ?_⟩
  simp only [List.mem_append,List.mem_map,Std.TreeMap.mem_keys]
  cases x with
  | client => exact .inl ⟨id,Std.TreeMap.isSome_getElem?_iff_mem.mp held,rfl⟩
  | server => exact .inr ⟨id,Std.TreeMap.isSome_getElem?_iff_mem.mp held,rfl⟩

namespace Link

/-- Only stream 0 was ever opened and nothing was closed. -/
structure Solo (l : Link) : Prop where
  safe : l.Safe
  alone : ∀ id, id ≠ 0 → ∀ y, l.born y id = false
  open_ : ∀ y id, l.closedAt y id = none

theorem solo_size {l : Link} (solo : l.Solo) (x : Side) : (l.mux x).streams.size ≤ 1 := by
  have zero : ∀ k ∈ (l.mux x).streams.keys, k = 0 := by
    intro k member
    obtain ⟨s,held⟩ := Option.isSome_iff_exists.mp
      (Std.TreeMap.isSome_getElem?_iff_mem.mpr (Std.TreeMap.mem_keys.mp member))
    by_contra other
    have born := (solo.safe.keyed x k s held).2
    rw [solo.alone k other x] at born
    cases born
  have distinct : (l.mux x).streams.keys.Nodup := Std.TreeMap.nodup_keys
  rw [← Std.TreeMap.length_keys]
  match keys : (l.mux x).streams.keys with
  | [] => simp
  | [_] => simp
  | j :: k :: rest =>
    rw [keys] at zero distinct
    have first := zero j (.head _)
    have second := zero k (.tail _ (.head _))
    simp [first,second] at distinct

theorem Solo.roomy {l : Link} (solo : l.Solo) : l.roomy = true := by
  have client := solo_size solo .client
  have server := solo_size solo .server
  have few : 1 < maxStreams := by decide
  simp only [Link.roomy,Bool.and_eq_true,decide_eq_true_eq]
  omega

theorem Solo.steady {l : Link} (solo : l.Solo) {a : Action} (ok : transfers a = true ∨ ∃ y k, a = .read y k) :
    l.steady a = true := by
  have grace : ∀ x, l.inGrace (.poll x) = true := by
    intro x
    simp only [inGrace,List.all_eq_true]
    intro p member
    have held : l.stream x p.1 = some p.2 := Std.TreeMap.mem_toList_iff_getElem?_eq_some.mp member
    have flow := solo.safe.flow x p.1
    cases fin : p.2.sendFin with
    | false => simp [StreamState.graceEnds,StreamState.awaitsFin,fin]
    | true => exact absurd (solo.open_ x p.1) (flow.fin p.2 held fin)
  simp only [Link.steady,solo.roomy,Bool.true_and]
  rcases ok with moved | ⟨y,k,rfl⟩
  · cases a with
    | poll x => simp [orderly,grace x,keepsOpens]
    | deliver x n => rfl
    | _ => cases moved
  · rfl

/-- The action opens and closes nothing. -/
def keepsSet : Action → Bool
  | .openStream _ _ _ | .close _ _ _ => false
  | _ => true

theorem step_closedAt (l : Link) {a : Action} (ok : keepsSet a = true) : (l.step a).closedAt = l.closedAt := by
  unfold step
  cases a with
  | openStream => cases ok
  | close => cases ok
  | write x k data =>
    simp only [act]
    split
    · split <;> rfl
    · rfl
  | deliver x n => simp only [act]; split <;> rfl
  | _ => rfl

theorem Solo.step {l : Link} (solo : l.Solo) {a : Action} (ok : keepsSet a = true) : (l.step a).Solo where
  safe := step_safe solo.safe a
  alone id other y := by
    have still := Lane.step_unborn (solo.safe.lanes id) (solo.alone id other) (e := l.event id a)
      (fun x kind metadata opened => ?_) y
    · rw [← lane_step solo.safe.keyed a id] at still
      exact still
    · cases a with
      | openStream => cases ok
      | _ =>
        simp only [event] at opened
        revert opened
        repeat' split
        all_goals simp
  open_ y id := by rw [step_closedAt l ok]; exact solo.open_ y id

theorem Solo.run {l : Link} (solo : l.Solo) (schedule : List Action) (ok : ∀ a ∈ schedule, keepsSet a = true) :
    (Machine.run Link.step schedule l).Solo := by
  induction schedule generalizing l with
  | nil => exact solo
  | cons a rest ih => exact ih (solo.step (ok a (.head _))) (fun b member => ok b (.tail _ member))

theorem keepsSet_of_round {a : Action} (ok : transfers a = true ∨ ∃ y k, a = .read y k) : keepsSet a = true := by
  rcases ok with moved | ⟨y,k,rfl⟩
  · cases a <;> first | rfl | cases moved
  · rfl

theorem Solo.along {l : Link} (solo : l.Solo) {schedule : List Action}
    (ok : ∀ a ∈ schedule, transfers a = true ∨ ∃ y k, a = .read y k) :
    Machine.Along Link.step (·.steady · = true) schedule l := by
  induction schedule generalizing l with
  | nil => trivial
  | cons a rest ih =>
    exact ⟨solo.steady (ok a (.head _)),
      ih (solo.step (keepsSet_of_round (ok a (.head _)))) (fun b member => ok b (.tail _ member))⟩

theorem Solo.rounds {l : Link} (solo : l.Solo) (n : Nat) : (Link.rounds n l).Solo := by
  induction n generalizing l with
  | zero => exact solo
  | succ n ih => exact ih (solo.run _ (fun a member => keepsSet_of_round (round_actions l a member)))

theorem Solo.onward {l : Link} (solo : l.Solo) (n : Nat) : (Link.rounds n l).SteadyRound :=
  (solo.rounds n).along (round_actions _)

theorem opened_solo : (start.step (.openStream .client .exec [])).Solo where
  safe := step_safe start_safe _
  alone id other y := by
    have still := Lane.step_unborn (start_safe.lanes id) (fun _ => rfl)
      (e := start.event id (.openStream .client .exec [])) (fun x kind metadata opened => ?_) y
    · rw [← lane_step start_keyed _ id] at still
      exact still
    · simp only [event] at opened
      rw [show (start.mux .client).nextLocalId = 0 from rfl,if_neg (Ne.symm other)] at opened
      cases opened
  open_ _ _ := rfl

end Link

namespace Lane

/-- The opener has sent its StreamOpen, and it is gone without having reached the peer. -/
structure Orphan (id : Nat) (v : Lane) (x : Side) : Prop where
  born : (v x).born = true
  unborn : (v x.other).born = false
  lost : ∀ f ∈ (v x).flight, f.opens id = false
  opened : ∀ s, (v x).stream = some s → s.needsOpen = false

theorem step_orphan {id : Nat} {v : Lane} (safe : Safe id v) (graceful : ∀ y, (v y).Graceful) {x : Side}
    (orphan : Orphan id v x) {e : Event} (passive : Passive e) : Orphan id (v.step id e) x := by
  have absent := (safe.life x.other).absent orphan.unborn
  refine ⟨born_mono safe e orphan.born,?_,fun f member => ?_,fun t here => ?_⟩
  · have touched := step_touch id v e x.other
    generalize v.step id e x.other = e' at touched
    cases touched with
    | read => simpa [Endpoint.read,absent] using orphan.unborn
    | poll => simpa [Endpoint.poll,absent] using orphan.unborn
    | @receive z n now welcome frame peer sent =>
      have side : z = x := by
        have := congrArg Side.other peer
        rwa [Side.other_other,Side.other_other] at this
      subst side
      have member := List.mem_of_getElem? sent
      have notOpen := orphan.lost frame member
      have mine := (safe.life z).named frame member
      cases frame with
      | streamOpen k kind metadata => simp_all [Frame.opens,Frame.streamId]
      | streamData k offset data fin => simpa [Endpoint.receive,absent] using orphan.unborn
      | _ => exact orphan.unborn
    | same => exact orphan.unborn
    | sent => exact orphan.unborn
    | lost => exact orphan.unborn
    | _ => cases passive
  · rcases (step_touch id v e x).flight member with old | ⟨now,s,rfl,held,emitted⟩
    · exact orphan.lost f old
    · have live := (graceful x).live s held
      have none := StreamState.transmit_opens s now id
      rw [if_neg (by simp [orphan.opened s held])] at none
      simp only [StreamMux.pollStream,live,Bool.false_eq_true,if_false] at emitted
      simpa using List.filter_eq_nil_iff.mp none f emitted
  · rcases step_evolves safe passive.fresh here with ⟨s,held,evolves⟩ | ⟨never,_⟩
    · rcases evolves.needsOpen safe held with same | ⟨_,_,_,closed⟩
      · rw [same]; exact orphan.opened s held
      · exact closed
    · rw [orphan.born] at never; cases never

end Lane

namespace Link

/-- An orphaned stream stays so through every round. -/
theorem rounds_orphan {l : Link} {x : Side} {id : Nat} (safe : l.Safe) (graceful : ∀ y, (l.lane id y).Graceful)
    (orphan : Lane.Orphan id (l.lane id) x) (n : Nat) : Lane.Orphan id ((rounds n l).lane id) x := by
  have run : ∀ schedule : List Action, ∀ l : Link, l.Safe → (∀ y, (l.lane id y).Graceful) →
      Lane.Orphan id (l.lane id) x → (∀ a ∈ schedule, transfers a = true ∨ ∃ y k, a = .read y k) →
      (Machine.run step schedule l).Safe ∧ (∀ y, ((Machine.run step schedule l).lane id y).Graceful) ∧
        Lane.Orphan id ((Machine.run step schedule l).lane id) x := by
    intro schedule
    induction schedule with
    | nil => exact fun l safe graceful orphan _ => ⟨safe,graceful,orphan⟩
    | cons a rest ih =>
      intro l safe graceful orphan ok
      have passive := event_passive (l := l) (ok a (.head _)) id
      have next := step_calm safe graceful (a := a) (by
        rcases ok a (.head _) with moved | ⟨y,k,rfl⟩
        · exact transfers_calm moved
        · rfl)
      refine ih (l.step a) next.1 next.2 ?_ (fun b member => ok b (.tail _ member))
      rw [lane_step safe.keyed a id]
      exact Lane.step_orphan (safe.lanes id) graceful orphan passive
  induction n generalizing l with
  | zero => exact orphan
  | succ n ih =>
    obtain ⟨safe',graceful',orphan'⟩ := run l.round l safe graceful orphan (round_actions l)
    exact ih safe' graceful' orphan'

/-- Bytes are written to a stream whose StreamOpen arrives and whose first data frame is lost. -/
def lostData : List Action :=
  [.openStream .client .exec [],.write .client 0 [7,8,9],.poll .client,.deliver .client 0,.lose .client 0]

/-- The same, with the StreamOpen lost instead. -/
def lostOpen : List Action :=
  [.openStream .client .exec [],.write .client 0 [7,8,9],.poll .client,.lose .client 0]

end Link

theorem streams_recover_lostData :
    ∃ n, ∀ x id, ((Machine.run Link.step Link.lostData Link.start).stream x id).isSome →
      (Link.rounds n (Machine.run Link.step Link.lostData Link.start)).got x.other id =
        (Machine.run Link.step Link.lostData Link.start).wrote x id :=
  streams_recover Link.lostData (by decide +kernel)
    (Link.opened_solo.run [.write .client 0 [7,8,9],.poll .client,.deliver .client 0,.lose .client 0]
      (by simp [Link.keepsSet])).onward

/-- Neither the lost StreamOpen nor anything else ever tells the peer of the stream. -/
theorem streams_orphaned : ¬∀ schedule : List Link.Action,
    Machine.Along Link.step (fun l a => Link.calm a = true ∧ l.roomy = true) schedule Link.start →
    (∀ n, Machine.Along Link.step (fun l _ => l.roomy = true)
      (Link.rounds n (Machine.run Link.step schedule Link.start)).round
      (Link.rounds n (Machine.run Link.step schedule Link.start))) →
    ∃ n, ∀ x id, ((Machine.run Link.step schedule Link.start).stream x id).isSome →
      (Link.rounds n (Machine.run Link.step schedule Link.start)).got x.other id =
        (Machine.run Link.step schedule Link.start).wrote x id := by
  intro claim
  have solo : (Machine.run Link.step Link.lostOpen Link.start).Solo :=
    Link.opened_solo.run [.write .client 0 [7,8,9],.poll .client,.lose .client 0]
      (by simp [Link.keepsSet])
  have graceful := (Link.run_calm Link.start_safe (Link.start_graceful 0) Link.lostOpen (by decide)).2
  have facts : (let l := Machine.run Link.step Link.lostOpen Link.start
      (l.stream .client 0).map (·.needsOpen) = some false ∧ (l.flight .client).all (fun f => !f.opens 0) = true ∧
      l.born .client 0 = true ∧ l.born .server 0 = false ∧ l.wrote .client 0 = [7,8,9]) := by decide +kernel
  obtain ⟨n,done⟩ := claim Link.lostOpen (by decide +kernel) (fun n => (solo.onward n).room)
  generalize Machine.run Link.step Link.lostOpen Link.start = l at solo graceful facts done
  obtain ⟨opened,lost,born,unborn,wrote⟩ := facts
  obtain ⟨s,held,sent⟩ := Option.map_eq_some_iff.mp opened
  have orphan : Lane.Orphan 0 (l.lane 0) .client := by
    refine ⟨born,unborn,fun f member => ?_,fun u here => ?_⟩
    · simpa using List.all_eq_true.mp lost f (List.mem_filter.mp member).1
    · rw [show (l.lane 0 .client).stream = some s from held] at here
      cases here
      exact sent
  have ended := Link.rounds_orphan solo.safe graceful orphan n
  have unread := (((Link.rounds_safe solo.safe n).lanes 0).life .server).records ended.unborn
  have read := done .client 0 (by rw [held]; rfl)
  rw [wrote] at read
  have none : (Link.rounds n l).got .server 0 = [] := unread.2.1
  rw [show Side.client.other = .server from rfl,none] at read
  cases read

end Noissh

import Noissh.Retire

/-! Lossless rounds: both sides poll, then everything in flight is delivered in order.
A receiver that has closed and does not read keeps its window shut, and its grace window
ends while the sender still holds data back. -/
namespace Noissh
namespace Link

/-- Deliver everything side `x` has in flight, oldest first. -/
def deliveries (l : Link) (x : Side) : List Action := List.replicate (l.flight x).length (.deliver x 0)

def polls : List Action := [.poll .client,.poll .server]

/-- One lossless round, as a schedule of the link. -/
def exchange (l : Link) : List Action :=
  polls ++ (Machine.run step polls l).deliveries .client ++ (Machine.run step polls l).deliveries .server

/-- Calls an application makes. -/
def call : Action → Bool
  | .openStream _ _ _ | .write _ _ _ | .read _ _ | .close _ _ _ | .takeEvents _ => true
  | _ => false

/-- Rounds of application calls, each followed by a lossless exchange. -/
def lossless : List (List Action) → Link → Link
  | [], l => l
  | calls :: rest, l =>
    let called := Machine.run step calls l
    lossless rest (Machine.run step called.exchange called)

theorem lossless_append (first second : List (List Action)) (l : Link) :
    lossless (first ++ second) l = lossless second (lossless first l) := by
  induction first generalizing l with
  | nil => rfl
  | cons calls rest ih => exact ih _

/-- Receiving changes no flight. -/
theorem step_deliver_flight (l : Link) (x y : Side) (n : Nat) : ((l.step (.deliver x n)).flight y) =
    if y = x then (l.flight x).eraseIdx n else l.flight y := by
  show ((l.act (.deliver x n)).flight y) = _
  simp only [act]
  cases here : (l.flight x)[n]? with
  | some frame => simp only [receive,setMux,setFlight,Function.update_apply]
  | none =>
    have beyond := List.getElem?_eq_none_iff.mp here
    dsimp only
    split
    · rename_i same
      rw [same,List.eraseIdx_of_length_le beyond]
    · rfl

/-- Delivering a flight in order: what one delivery passes on holds at the end of it. -/
theorem run_deliveries (x : Side) (guard : Link → Action → Prop) (holds : List Frame → Link → Prop)
    (next : ∀ frame rest l, l.flight x = frame :: rest → holds (frame :: rest) l → guard l (.deliver x 0) →
      holds rest (l.step (.deliver x 0))) {l : Link} (first : holds (l.flight x) l)
    (guarded : Machine.Along step guard (l.deliveries x) l) :
    holds [] (Machine.run step (l.deliveries x) l) ∧ (Machine.run step (l.deliveries x) l).flight x = [] := by
  unfold deliveries at guarded ⊢
  generalize flight : l.flight x = frames at first guarded ⊢
  induction frames generalizing l with
  | nil => exact ⟨first,flight⟩
  | cons frame rest ih =>
    have left : (l.step (.deliver x 0)).flight x = rest := by
      rw [step_deliver_flight,if_pos rfl,flight,List.eraseIdx_cons_zero]
    exact ih left (next frame rest l flight first guarded.1) guarded.2

theorem run_deliveries_other (l : Link) (x : Side) :
    (Machine.run step (l.deliveries x) l).flight x.other = l.flight x.other := by
  have run := run_deliveries (l := l) x (fun _ _ => True)
    (fun _ m => m.flight x.other = l.flight x.other)
    (fun frame rest m _ same _ => by rw [step_deliver_flight,if_neg (by simp)]; exact same) rfl
    (Machine.along_trivial _ _)
  exact run.1

/-- The schedule of a round, seen from the state it ends in. -/
theorem run_exchange (l : Link) : Machine.run step l.exchange l =
    let polled := Machine.run step polls l
    let mid := Machine.run step (polled.deliveries .client) polled
    Machine.run step (mid.deliveries .server) mid := by
  have same := run_deliveries_other (Machine.run step polls l) .client
  simp only [exchange,Machine.run_append]
  congr 1
  unfold deliveries at same ⊢
  rw [show Side.client.other = .server from rfl] at same
  rw [same]

theorem exchange_flight (l : Link) (x : Side) : (Machine.run step l.exchange l).flight x = [] := by
  rw [run_exchange]
  dsimp only
  generalize Machine.run step polls l = polled
  have first := (run_deliveries (l := polled) .client (fun _ _ => True) (fun _ _ => True)
    (fun _ _ _ _ _ _ => trivial) trivial (Machine.along_trivial _ _)).2
  generalize Machine.run step (polled.deliveries .client) polled = mid at first
  cases x with
  | server =>
    exact (run_deliveries (l := mid) .server (fun _ _ => True) (fun _ _ => True)
      (fun _ _ _ _ _ _ => trivial) trivial (Machine.along_trivial _ _)).2
  | client => exact (run_deliveries_other mid .server).trans first

end Link

namespace Lane

variable {id : Nat} {v : Lane}

/-- What a round does: polls and deliveries. -/
def Quiet : Event → Prop
  | .poll _ _ | .deliver _ _ _ _ | .idle => True
  | _ => False

theorem Quiet.fresh {e : Event} (quiet : Quiet e) : Fresh id v e := by
  cases e <;> trivial

theorem Quiet.calm {e : Event} (quiet : Quiet e) (x : Side) : e ≠ .reset x := by
  rintro rfl
  cases quiet

/-- The sender has closed a stream whose last chunk lies beyond the window of a receiver that
has closed too and reads nothing. -/
structure Starving (v : Lane) (x : Side) : Prop where
  closed : (v x).closedAt = some (v x).wrote.length
  long : defaultWindow + maxStreamChunk < (v x).wrote.length
  small : ∀ f ∈ (v x).flight, ∀ k off d fin, f = .streamData k off d fin → d.length ≤ maxStreamChunk
  born : (v x.other).born = true
  unread : (v x.other).got = []
  delivered : ∀ t, (v x.other).stream = some t → t.recv.delivered = 0
  open_ : ∀ t, (v x.other).stream = some t → t.peerFin = .opened
  closing : ∀ t, (v x.other).stream = some t → t.sendFin = true

/-- Records that polls and deliveries leave alone. -/
theorem Touch.quiet {y : Side} {e : Event} {e' : Endpoint} (touched : Touch id v y e e') (quiet : Quiet e) :
    e'.wrote = (v y).wrote ∧ e'.got = (v y).got ∧ e'.closedAt = (v y).closedAt := by
  cases touched with
  | poll => unfold Endpoint.poll; split <;> exact ⟨rfl,rfl,rfl⟩
  | receive => exact ⟨Link.Receive.wrote ..,Link.Receive.got ..,Link.Receive.closedAt ..⟩
  | same => exact ⟨rfl,rfl,rfl⟩
  | sent => exact ⟨rfl,rfl,rfl⟩
  | lost => exact ⟨rfl,rfl,rfl⟩
  | _ => cases quiet

theorem Starving.rejects {x : Side} (safe : Safe id v) (starving : Starving v x) {t : StreamState}
    (held : (v x.other).stream = some t) {k off : Nat} {d : Bytes} (sent : .streamData k off d true ∈ (v x).flight) :
    t.accepts off d = false := by
  have mine := (safe.life x).named _ sent
  cases mine
  obtain ⟨n,closed,le⟩ := (safe.flowing x).marked off d sent
  have small := starving.small _ sent _ _ _ _ rfl
  have long := starving.long
  have zero := starving.delivered t held
  rw [starving.closed] at closed
  cases closed
  unfold StreamState.accepts
  rw [zero]
  simp only [Bool.and_eq_false_imp,decide_eq_true_eq,decide_eq_false_iff_not]
  omega

theorem step_starving {x : Side} (safe : Safe id v) (graceful : ∀ y, (v y).Graceful) (starving : Starving v x)
    {e : Event} (quiet : Quiet e) : Starving (v.step id e) x := by
  obtain ⟨wrote,_,closedAt⟩ := (step_touch id v e x).quiet quiet
  obtain ⟨_,got,_⟩ := (step_touch id v e x.other).quiet quiet
  have receiver : ∀ t, (v.step id e x.other).stream = some t →
      t.recv.delivered = 0 ∧ t.peerFin = .opened ∧ t.sendFin = true := by
    intro t here
    rcases step_evolves safe quiet.fresh here with ⟨s,held,evolves⟩ | ⟨unborn,_⟩
    · have delivered := starving.delivered s held
      have open_ := starving.open_ s held
      have closing := starving.closing s held
      have flow := safe.flowing x.other
      cases evolves with
      | same => exact ⟨delivered,open_,closing⟩
      | @poll now _ live _ =>
        obtain ⟨_,_,kept,_⟩ := StreamState.transmit_spec (flow.sending s held) (flow.paced s held) live now
        rw [kept.recv,kept.peerFin,kept.sendFin]
        exact ⟨delivered,open_,closing⟩
      | @data z n now welcome k off d fin _ peer sent =>
        have side : z = x := by
          have := congrArg Side.other peer
          rwa [Side.other_other,Side.other_other] at this
        subst side
        rw [StreamState.onData_eq]
        refine ⟨?_,?_,closing⟩
        · dsimp only
          split
          · rw [Reassembler.insert_delivered]; exact delivered
          · exact delivered
        · dsimp only
          split
          · rename_i marked
            obtain ⟨accepted,rfl,_⟩ := marked
            rw [starving.rejects safe held (List.mem_of_getElem? sent)] at accepted
            cases accepted
          · exact open_
      | @ack _ _ now _ _ ack window _ _ =>
        obtain ⟨_,_,_,_,_,_,_,_,_,_,_,eq⟩ := s.onAck_eq ack window now
        rw [eq]
        exact ⟨delivered,open_,closing⟩
      | closed => exact ⟨delivered,open_,closing⟩
      | aborted _ sent => exact absurd rfl ((graceful _).calm _ (List.mem_of_getElem? sent) _)
      | _ => cases quiet
    · rw [starving.born] at unborn; cases unborn
  constructor
  · rw [closedAt,wrote]; exact starving.closed
  · rw [wrote]; exact starving.long
  · intro f member k off d fin isData
    rcases (step_touch id v e x).emits safe member with old | ⟨now,s,rfl,held,⟨_,isReset⟩ | ⟨_,emits⟩⟩
    · exact starving.small f old k off d fin isData
    · cases isReset.symm.trans isData
    · subst isData
      cases emits with
      | data _ _ small _ => exact small
  · rw [(step_follows (fun y => (safe.life y).noted) e x.other).born,starving.born]
    rfl
  · rw [got]; exact starving.unread
  · exact fun t here => (receiver t here).1
  · exact fun t here => (receiver t here).2.1
  · exact fun t here => (receiver t here).2.2

/-- The peer has heard of the close, or will with the frames in flight. -/
def Closing (v : Lane) (x : Side) : Prop :=
  (∃ k status, .streamClose k status ∈ (v x).flight) ∨
  ∀ t, (v x.other).stream = some t → t.closeReceived = true

/-- The peer has heard of the close and has waited this long for the FIN. -/
def Waited (k : Nat) (v : Lane) (x : Side) : Prop :=
  ∀ t, (v x.other).stream = some t → t.closeReceived = true ∧ k ≤ t.closeTicks

theorem step_waited {x : Side} {k : Nat} (safe : Safe id v) (graceful : ∀ y, (v y).Graceful)
    (starving : Starving v x) (waited : Waited k v x) {e : Event} (quiet : Quiet e) :
    Waited k (v.step id e) x ∧ ∀ now, e = .poll x.other now → Waited (k + 1) (v.step id e) x := by
  have small : closeGraceTicks ≤ u32Max := by decide
  have both : ∀ t, (v.step id e x.other).stream = some t → t.closeReceived = true ∧ k ≤ t.closeTicks ∧
      ∀ now, e = .poll x.other now → k + 1 ≤ t.closeTicks := by
    intro t here
    rcases step_evolves safe quiet.fresh here with ⟨s,held,evolves⟩ | ⟨unborn,_⟩
    · obtain ⟨received,ticks⟩ := waited s held
      have waiting := (graceful x.other).waiting s held
      have flow := safe.flowing x.other
      cases evolves with
      | @poll now _ live _ =>
        obtain ⟨_,_,kept,_,count,_⟩ := StreamState.transmit_spec (flow.sending s held) (flow.paced s held) live now
        have awaits : s.awaitsFin = true := by
          simp [StreamState.awaitsFin,received,starving.open_ s held,starving.closing s held]
        rw [if_pos awaits] at count
        rw [kept.closeReceived,count]
        exact ⟨received,by omega,fun _ _ => by omega⟩
      | same =>
        refine ⟨received,ticks,fun now polled => ?_⟩
        -- A poll of a held end always transmits or reclaims it.
        subst polled
        simp only [step,onSide_same,Endpoint.poll,held,StreamMux.pollStream] at here
        have live := (graceful x.other).live t held
        rw [live] at here
        obtain ⟨_,_,kept,_,count,_⟩ := StreamState.transmit_spec (flow.sending t held) (flow.paced t held) live now
        have awaits : t.awaitsFin = true := by
          simp [StreamState.awaitsFin,received,starving.open_ t held,starving.closing t held]
        rw [if_pos awaits] at count
        simp only [Bool.false_eq_true,if_false] at here
        split at here
        · cases here
        · have same := Option.some.inj here
          rw [same] at count
          omega
      | data => rw [StreamState.onData_eq]; exact ⟨received,ticks,fun _ impossible => by cases impossible⟩
      | @ack _ _ now _ _ ack window _ _ =>
        obtain ⟨_,_,_,_,_,_,_,_,_,_,_,eq⟩ := s.onAck_eq ack window now
        rw [eq]
        exact ⟨received,ticks,fun _ impossible => by cases impossible⟩
      | closed => exact ⟨rfl,ticks,fun _ impossible => by cases impossible⟩
      | aborted => exact ⟨received,ticks,fun _ impossible => by cases impossible⟩
      | _ => cases quiet
    · rw [starving.born] at unborn; cases unborn
  exact ⟨fun t here => ⟨(both t here).1,(both t here).2.1⟩,
    fun now polled t here => ⟨(both t here).1,(both t here).2.2 now polled⟩⟩

theorem step_closing {x : Side} (safe : Safe id v) (born : (v x.other).born = true) (closing : Closing v x)
    {e : Event} (quiet : Quiet e) : Closing (v.step id e) x := by
  rcases closing with ⟨k,status,member⟩ | received
  · cases e with
    | poll z now =>
      refine .inl ⟨k,status,?_⟩
      rcases Side.eq_or_other z x with rfl | rfl
      · simp only [step,onSide_same,Endpoint.poll]
        split
        · exact List.mem_append_left _ member
        · exact member
      · simp only [step,onSide_other]
        exact member
    | deliver z n now welcome =>
      simp only [step]
      cases here : (v z).flight[n]? with
      | none => exact .inl ⟨k,status,member⟩
      | some frame =>
        dsimp only
        rcases Side.eq_or_other z x with rfl | rfl
        · by_cases isClose : frame = .streamClose k status
          · refine .inr (fun t held => ?_)
            simp only [isClose,onSide_same,onSide_other,Endpoint.receive,Option.map_eq_some_iff] at held
            obtain ⟨s,_,rfl⟩ := held
            rfl
          · refine .inl ⟨k,status,?_⟩
            rw [onSide_back,onSide_same]
            obtain ⟨i,at_⟩ := List.mem_iff_getElem?.mp member
            refine List.mem_eraseIdx_iff_getElem?.mpr ⟨i,?_,at_⟩
            rintro rfl
            rw [here] at at_
            exact isClose (Option.some.inj at_)
        · refine .inl ⟨k,status,?_⟩
          rw [onSide_same,Link.Receive.flight,onSide_other]
          exact member
    | idle => exact .inl ⟨k,status,member⟩
    | _ => cases quiet
  · refine .inr (fun t here => ?_)
    rcases step_evolves safe quiet.fresh here with ⟨s,held,evolves⟩ | ⟨unborn,_⟩
    · rcases (evolves.ends safe held).received with same | ⟨_,heard⟩
      · exact same.trans (received s held)
      · exact heard
    · rw [born] at unborn; cases unborn

end Lane

namespace Link

/-- What an exchange is made of. -/
def transfers : Action → Bool
  | .poll _ | .deliver _ _ => true
  | _ => false

theorem event_quiet {l : Link} {a : Action} (ok : transfers a = true) (id : Nat) : Lane.Quiet (l.event id a) := by
  cases a with
  | poll x => trivial
  | deliver x n =>
    simp only [event]
    split
    · split <;> trivial
    · trivial
  | _ => cases ok

theorem deliveries_transfers (l : Link) (x : Side) : ∀ a ∈ l.deliveries x, transfers a = true := by
  intro a member
  rw [List.eq_of_mem_replicate member]
  rfl

/-- A stream whose receiver starves, while polls and deliveries go on. -/
structure Starved (id : Nat) (x : Side) (l : Link) : Prop where
  safe : l.Safe
  graceful : ∀ y, (l.lane id y).Graceful
  starving : Lane.Starving (l.lane id) x
  closing : Lane.Closing (l.lane id) x

variable {id : Nat} {x : Side} {l : Link}

theorem Starved.step (starved : Starved id x l) {a : Action} (ok : transfers a = true) : Starved id x (l.step a) := by
  have quiet := event_quiet (l := l) ok id
  have lane := lane_step starved.safe.keyed a id
  refine ⟨step_safe starved.safe a,?_,?_,?_⟩ <;> rw [lane]
  · exact Lane.step_graceful (starved.safe.lanes id) starved.graceful quiet.fresh quiet.calm
  · exact Lane.step_starving (starved.safe.lanes id) starved.graceful starved.starving quiet
  · exact Lane.step_closing (starved.safe.lanes id) starved.starving.born starved.closing quiet

theorem Starved.run (starved : Starved id x l) (schedule : List Action) (ok : ∀ a ∈ schedule, transfers a = true) :
    Starved id x (Machine.run Link.step schedule l) := by
  induction schedule generalizing l with
  | nil => exact starved
  | cons a rest ih => exact ih (starved.step (ok a (.head _))) (fun b member => ok b (.tail _ member))

theorem Starved.waited (starved : Starved id x l) {k : Nat} (waited : Lane.Waited k (l.lane id) x)
    (schedule : List Action) (ok : ∀ a ∈ schedule, transfers a = true) :
    Lane.Waited k ((Machine.run Link.step schedule l).lane id) x := by
  induction schedule generalizing l with
  | nil => exact waited
  | cons a rest ih =>
    have quiet := event_quiet (l := l) (ok a (.head _)) id
    have lane := lane_step starved.safe.keyed a id
    refine ih (starved.step (ok a (.head _))) ?_ (fun b member => ok b (.tail _ member))
    rw [lane]
    exact (Lane.step_waited (starved.safe.lanes id) starved.graceful starved.starving waited quiet).1

theorem exchange_transfers (l : Link) : ∀ a ∈ l.exchange, transfers a = true := by
  intro a member
  simp only [exchange,List.mem_append,polls,List.mem_cons,List.not_mem_nil,or_false] at member
  rcases member with ((rfl | rfl) | first) | second
  · rfl
  · rfl
  · exact deliveries_transfers _ _ a first
  · exact deliveries_transfers _ _ a second

/-- Every round brings a waiting server one tick nearer to the end of its grace window. -/
theorem Starved.exchange_waited (starved : Starved id .client l) {k : Nat} (waited : Lane.Waited k (l.lane id) .client) :
    Lane.Waited (k + 1) ((Machine.run Link.step l.exchange l).lane id) .client := by
  have first := starved.waited waited [.poll .client] (by simp [transfers])
  have after := starved.run [.poll .client] (by simp [transfers])
  generalize polled : Machine.run Link.step [.poll .client] l = m at first after
  have lane := lane_step after.safe.keyed (.poll .server) id
  have second := (Lane.step_waited (after.safe.lanes id) after.graceful after.starving first
    (event_quiet (l := m) (a := .poll .server) rfl id)).2 _ rfl
  rw [← lane] at second
  have rest := (after.step (a := .poll .server) rfl).waited second
    ((m.step (.poll .server)).deliveries .client ++ (m.step (.poll .server)).deliveries .server)
    (fun a member => (List.mem_append.mp member).elim (deliveries_transfers _ _ a) (deliveries_transfers _ _ a))
  have same : Machine.run Link.step polls l = m.step (.poll .server) := by rw [← polled]; rfl
  unfold exchange
  rw [List.append_assoc,Machine.run_append,same]
  exact rest

/-- After enough rounds the server has given the stream back unread. -/
theorem Starved.lossless_waited (starved : Starved id .client l) {k : Nat}
    (waited : Lane.Waited k (l.lane id) .client) (n : Nat) :
    Starved id .client (lossless (List.replicate n []) l) ∧
    Lane.Waited (k + n) ((lossless (List.replicate n []) l).lane id) .client := by
  induction n generalizing l k with
  | zero => exact ⟨starved,waited⟩
  | succ n ih =>
    have next := ih (starved.run _ l.exchange_transfers) (starved.exchange_waited waited)
    rw [show k + (n + 1) = k + 1 + n by omega]
    exact next

theorem Starved.gone (starved : Starved id .client l) (waited : Lane.Waited closeGraceTicks (l.lane id) .client) :
    ¬l.NoDataLost .server id := by
  intro kept
  have absent : l.stream .server id = none := by
    cases held : l.stream .server id with
    | none => rfl
    | some t =>
      have ticks := (waited t held).2
      have waiting := (starved.graceful .server).waiting t held
      omega
  obtain ⟨n,closed,read⟩ := kept.1 starved.starving.born absent
  have whole : l.closedAt .client id = some (l.wrote .client id).length := starved.starving.closed
  rw [show Side.server.other = .client from rfl,whole] at closed
  cases closed
  have none : l.got .server id = [] := starved.starving.unread
  have long := starved.starving.long
  rw [none,show Side.server.other = .client from rfl,List.take_length,List.prefix_nil] at read
  rw [show (l.lane id .client).wrote = l.wrote .client id from rfl,read] at long
  cases long

theorem step_calm (safe : l.Safe) (graceful : ∀ y, (l.lane id y).Graceful) {a : Action} (ok : calm a = true) :
    (l.step a).Safe ∧ ∀ y, ((l.step a).lane id y).Graceful := by
  refine ⟨step_safe safe a,?_⟩
  rw [lane_step safe.keyed a id]
  exact Lane.step_graceful (safe.lanes id) graceful (event_fresh safe a id) (event_calm ok id)

theorem run_calm (safe : l.Safe) (graceful : ∀ y, (l.lane id y).Graceful) (schedule : List Action)
    (ok : ∀ a ∈ schedule, calm a = true) :
    (Machine.run Link.step schedule l).Safe ∧ ∀ y, ((Machine.run Link.step schedule l).lane id y).Graceful := by
  induction schedule generalizing l with
  | nil => exact ⟨safe,graceful⟩
  | cons a rest ih =>
    obtain ⟨safe',graceful'⟩ := step_calm safe graceful (ok a (.head _))
    exact ih safe' graceful' (fun b member => ok b (.tail _ member))

theorem transfers_calm {a : Action} (ok : transfers a = true) : calm a = true := by
  cases a <;> first | rfl | cases ok

theorem exchange_calm (safe : l.Safe) (graceful : ∀ y, (l.lane id y).Graceful) :
    (Machine.run step l.exchange l).Safe ∧ ∀ y, ((Machine.run step l.exchange l).lane id y).Graceful :=
  run_calm safe graceful _ (fun a member => transfers_calm (exchange_transfers l a member))

/-- One byte more than the receive window and one chunk. -/
def backlog : Bytes := List.replicate (defaultWindow + maxStreamChunk + 1) 0

theorem backlog_length : backlog.length = defaultWindow + maxStreamChunk + 1 := List.length_replicate

/-- The client opens a stream; it then writes more than the server's window holds and closes,
and the server closes and reads nothing. -/
def slowReader : List (List Action) :=
  [[.openStream .client .exec []]] ++ [[.write .client 0 backlog,.close .client 0 0,.close .server 0 0]] ++
    List.replicate closeGraceTicks []

/-- Both sides hold stream 0, nothing is in flight and nothing has been written to it. -/
structure Opened (l : Link) : Prop where
  safe : l.Safe
  graceful : ∀ y, (l.lane 0 y).Graceful
  quiet : ∀ y, l.flight y = []
  sender : (l.stream .client 0).map (fun s => (s.sendNext,s.finAcked)) = some (0,false)
  receiver : (l.stream .server 0).map (fun t => (t.recv.delivered,t.peerFin)) = some (0,.opened)
  wrote : l.wrote .client 0 = []
  closedAt : l.closedAt .client 0 = none
  got : l.got .server 0 = []
  born : l.born .server 0 = true

theorem lossless_opened : Opened (lossless [[.openStream .client .exec []]] start) := by
  have first := run_calm start_safe (start_graceful 0) [.openStream .client .exec []] (by simp [calm])
  have second := exchange_calm first.1 first.2
  have ends : (let l := lossless [[.openStream .client .exec []]] start
      (l.stream .client 0).map (fun s => (s.sendNext,s.finAcked)) = some (0,false) ∧
      (l.stream .server 0).map (fun t => (t.recv.delivered,t.peerFin)) = some (0,.opened) ∧
      l.wrote .client 0 = [] ∧ l.closedAt .client 0 = none ∧ l.got .server 0 = [] ∧ l.born .server 0 = true) := by
    decide +kernel
  obtain ⟨sender,receiver,wrote,closedAt,got,born⟩ := ends
  exact ⟨second.1,second.2,exchange_flight _,sender,receiver,wrote,closedAt,got,born⟩

/-- The calls before the second exchange. -/
def written (data : Bytes) (l : Link) : Link :=
  Machine.run step [.write .client 0 data,.close .client 0 0,.close .server 0 0] l

variable {data : Bytes}

theorem Opened.written_lane (opened : Opened l) : (written data l).lane 0 =
    (((l.lane 0).onSide .client (.write data)).onSide .client (.close 0)).onSide .server (.close 0) := by
  have first := step_calm opened.safe opened.graceful (a := .write .client 0 data) rfl
  have second := step_calm first.1 first.2 (a := .close .client 0 0) rfl
  show (((l.step _).step _).step _).lane 0 = _
  rw [lane_step second.1.keyed,lane_step first.1.keyed,lane_step opened.safe.keyed]
  rfl

theorem Opened.written_calm (opened : Opened l) : (written data l).Safe ∧ ∀ y, ((written data l).lane 0 y).Graceful :=
  run_calm opened.safe opened.graceful _ (by simp [calm])

section Backlog

variable (opened : Opened l) (long : defaultWindow + maxStreamChunk < data.length) (fits : data.length ≤ u64Max)

include opened long fits

theorem Opened.written_starving : Lane.Starving ((written data l).lane 0) .client ∧
    ∃ s, ((written data l).lane 0 .client).stream = some s ∧ s.closeStatus = some 0 ∧ s.finAcked = false := by
  obtain ⟨s,here,facts⟩ := Option.map_eq_some_iff.mp opened.sender
  obtain ⟨t,there,facts'⟩ := Option.map_eq_some_iff.mp opened.receiver
  simp only [Prod.mk.injEq] at facts facts'
  have fits : s.sendNext + data.length ≤ u64Max := by rw [facts.1]; omega
  have client : (written data l).lane 0 .client = { l.lane 0 .client with
      stream := some { s.write data with sendFin := true, closeStatus := some 0 }
      wrote := data, closedAt := some data.length } := by
    have held : (l.lane 0 .client).stream = some s := here
    have none : (l.lane 0 .client).closedAt = Option.none := opened.closedAt
    have empty : (l.lane 0 .client).wrote = [] := opened.wrote
    rw [opened.written_lane,Lane.onSide_ne _ _ (by decide)]
    simp [Endpoint.write,Endpoint.close,held,fits,none,empty]
  have server : (written data l).lane 0 .server = { l.lane 0 .server with
      stream := some { t with sendFin := true, closeStatus := some 0 }
      closedAt := (l.lane 0 .server).closedAt.or (some (l.lane 0 .server).wrote.length) } := by
    have held : (l.lane 0 .server).stream = some t := there
    rw [opened.written_lane,Lane.onSide_same,Lane.onSide_ne _ _ (by decide),Lane.onSide_ne _ _ (by decide)]
    simp [Endpoint.close,held]
  constructor
  · constructor <;> simp only [client,server,show Side.client.other = .server from rfl]
    · exact long
    · simp [lane,opened.quiet]
    · exact opened.born
    · exact opened.got
    · intro u held
      cases held
      exact facts'.1
    · intro u held
      cases held
      exact facts'.2
    · intro u held
      cases held
      rfl
  · rw [client]
    exact ⟨_,rfl,rfl,facts.2⟩

/-- The first poll of the client sends the StreamClose. -/
theorem Opened.polled_starved : Starved 0 .client ((written data l).step (.poll .client)) := by
  obtain ⟨safe,graceful⟩ := opened.written_calm
  obtain ⟨starving,s,held,status,unacked⟩ := opened.written_starving long fits
  have live := (graceful .client).live s held
  have next := step_calm safe graceful (a := .poll .client) rfl
  have lane := lane_step safe.keyed (.poll .client) 0
  refine ⟨next.1,next.2,?_,?_⟩ <;> rw [lane]
  · exact Lane.step_starving (safe.lanes 0) graceful starving trivial
  · refine .inl ⟨s.id,0,?_⟩
    simp only [event,Lane.step,Lane.onSide_same,Endpoint.poll,held,StreamMux.pollStream,live,Bool.false_eq_true,
      if_false]
    exact List.mem_append_right _ (StreamState.transmit_close_mem live status unacked _)

/-- By the end of the second exchange the server has heard of the close. -/
theorem Opened.exchanged :
    Starved 0 .client (Machine.run step (written data l).exchange (written data l)) ∧
    Lane.Waited 0 ((Machine.run step (written data l).exchange (written data l)).lane 0) .client := by
  obtain ⟨later,starts⟩ : ∃ later, (written data l).exchange = .poll .client :: later := ⟨_,rfl⟩
  have ended : Starved 0 .client (Machine.run step (written data l).exchange (written data l)) := by
    have transfers := exchange_transfers (written data l)
    rw [starts] at transfers ⊢
    exact (opened.polled_starved long fits).run later fun a member => transfers a (.tail _ member)
  refine ⟨ended,fun t held => ?_⟩
  rcases ended.closing with ⟨k,status,member⟩ | received
  · have none : ((Machine.run step (written data l).exchange (written data l)).lane 0 .client).flight = [] := by
      simp only [lane,exchange_flight,List.filter_nil]
    rw [none] at member
    cases member
  · exact ⟨received t held,Nat.zero_le _⟩

/-- The data is lost whatever state the stream was opened in. -/
theorem Opened.data_lost : ¬(lossless (List.replicate closeGraceTicks [])
    (Machine.run step (written data l).exchange (written data l))).NoDataLost .server 0 := by
  obtain ⟨ended,heard⟩ := opened.exchanged long fits
  obtain ⟨starved,waited⟩ := ended.lossless_waited heard closeGraceTicks
  rw [Nat.zero_add] at waited
  exact starved.gone waited

end Backlog
end Link

/-- With lossless, ordered rounds and a live peer, a reader that is slow to read loses data. -/
theorem reclaim_drops_data : ¬∀ (rounds : List (List Link.Action)) (x : Side) (id : Nat),
    (∀ calls ∈ rounds, ∀ a ∈ calls, Link.call a = true) → (Link.lossless rounds Link.start).NoDataLost x id := by
  intro claim
  have kept := claim Link.slowReader .server 0 (by
    intro calls member a called
    simp only [Link.slowReader,List.mem_append,List.mem_cons,List.not_mem_nil,or_false,List.mem_replicate] at member
    rcases member with (rfl | rfl) | ⟨_,rfl⟩
    · simp only [List.mem_singleton] at called; subst called; rfl
    · simp only [List.mem_cons,List.not_mem_nil,or_false] at called
      rcases called with rfl | rfl | rfl <;> rfl
    · cases called)
  rw [Link.slowReader,Link.lossless_append,Link.lossless_append] at kept
  exact Link.lossless_opened.data_lost (by rw [Link.backlog_length]; omega) (by rw [Link.backlog_length]; decide) kept

end Noissh

import Noissh.Rounds

/-! Lossless rounds seen from one stream: each end polls, takes in what the other had in
flight, and is read. -/
namespace Noissh
namespace Endpoint

/-- Frames of this stream arrive one after the other, with room for the stream. -/
def absorb (id now : Nat) (frames : List Frame) (e : Endpoint) : Endpoint :=
  frames.foldl (fun e frame => e.receive id now true frame) e

def land (e : Endpoint) : Endpoint := { e with flight := [] }

theorem receive_welcome (id now : Nat) (welcome : Bool) (e : Endpoint) {frame : Frame}
    (room : ∀ k kind metadata, frame = .streamOpen k kind metadata → welcome = true) :
    e.receive id now welcome frame = e.receive id now true frame := by
  cases frame with
  | streamOpen k kind metadata => rw [room k kind metadata rfl]
  | _ => rfl

theorem absorb_cons (id now : Nat) (frame : Frame) (rest : List Frame) (e : Endpoint) :
    e.absorb id now (frame :: rest) = (e.receive id now true frame).absorb id now rest := rfl

theorem absorb_flight (id now : Nat) (frames : List Frame) (e : Endpoint) :
    (e.absorb id now frames).flight = e.flight := by
  induction frames generalizing e with
  | nil => rfl
  | cons frame rest ih => rw [absorb_cons,ih,Link.Receive.flight]

theorem receive_land (id now : Nat) (e : Endpoint) (frame : Frame) :
    e.land.receive id now true frame = (e.receive id now true frame).land := by
  cases held : e.stream <;> cases frame <;> simp [receive,land,held]

theorem absorb_land (id now : Nat) (frames : List Frame) (e : Endpoint) :
    e.land.absorb id now frames = (e.absorb id now frames).land := by
  induction frames generalizing e with
  | nil => rfl
  | cons frame rest ih => rw [absorb_cons,absorb_cons,receive_land,ih]

end Endpoint

namespace Link

/-- Both sides hold fewer streams than they may. -/
def roomy (l : Link) : Bool :=
  decide ((l.mux .client).streams.size < maxStreams) && decide ((l.mux .server).streams.size < maxStreams)

theorem roomy_side {l : Link} (room : l.roomy = true) (x : Side) : (l.mux x).streams.size < maxStreams := by
  simp only [roomy,Bool.and_eq_true,decide_eq_true_eq] at room
  cases x
  · exact room.1
  · exact room.2

/-- With room, a StreamOpen in flight is admitted. -/
theorem admits_opening {l : Link} (safe : l.Safe) (room : l.roomy = true) {x : Side} {id k : Nat} {kind : StreamKind}
    {metadata : Bytes} (member : .streamOpen k kind metadata ∈ (l.lane id x).flight) :
    l.admits x.other id = true := by
  have life := (safe.lanes id).life x
  have same : k = id := by simpa [Frame.streamId] using life.named _ member
  have parity := (life.opening _ member (by simp [Frame.opens,same])).1
  have other := (safe.numbered x.other).parity
  have := x.parity_other
  have := x.parity_lt
  simp only [admits,Bool.and_eq_true,decide_eq_true_eq]
  exact ⟨by omega,roomy_side room x.other⟩

/-- Every StreamOpen in flight for the stream finds room. -/
def Welcomes (l : Link) (id : Nat) : Prop :=
  ∀ x, ∀ f ∈ (l.lane id x).flight, f.opens id = true → l.admits x.other id = true

theorem welcomes_roomy {l : Link} (safe : l.Safe) (room : l.roomy = true) (id : Nat) : l.Welcomes id := by
  intro x f member isOpen
  cases f with
  | streamOpen k kind metadata => exact admits_opening safe room member
  | _ => cases isOpen

/-- No StreamOpen is in flight for a stream both sides have held. -/
theorem welcomes_born {l : Link} (safe : l.Safe) {id : Nat} (born : ∀ x, l.born x id = true) : l.Welcomes id := by
  intro x f member isOpen
  have unborn := (((safe.lanes id).life x).opening f member isOpen).2
  rw [show (l.lane id x.other).born = true from born x.other] at unborn
  cases unborn

theorem deliver_lane {l : Link} (safe : l.Safe) {id : Nat} (room : l.Welcomes id) {x : Side} {frame : Frame}
    {rest : List Frame} (flight : l.flight x = frame :: rest) :
    (l.step (.deliver x 0)).lane id = if frame.names id then
      ((l.lane id).onSide x (.erase 0)).onSide x.other (.receive id (l.mux x.other).now true · frame)
    else l.lane id := by
  rw [lane_step safe.keyed]
  have here : (l.flight x)[0]? = some frame := by rw [flight]; rfl
  simp only [event,here]
  split
  · rename_i mine
    have first : (l.lane id x).flight[Multiplex.rank (Frame.names id) 0 (l.flight x)]? = some frame :=
      Multiplex.getElem?_filter_rank here mine
    have welcome : (fun e : Endpoint => e.receive id (l.mux x.other).now (l.admits x.other id) frame) =
        (fun e => e.receive id (l.mux x.other).now true frame) := by
      funext e
      apply Endpoint.receive_welcome
      intro k kind metadata isOpen
      refine room x frame (List.mem_of_getElem? first) ?_
      subst isOpen
      simpa [Frame.opens,Frame.names,Frame.streamId] using mine
    simp only [Lane.step,first,welcome]
    simp [Multiplex.rank]
  · rfl

/-- A whole flight is absorbed by the other side. -/
theorem deliveries_lane {l : Link} (safe : l.Safe) {x : Side} {id : Nat}
    (room : Machine.Along step (fun l _ => l.Welcomes id) (l.deliveries x) l) :
    (Machine.run step (l.deliveries x) l).lane id =
      ((l.lane id).onSide x .land).onSide x.other (.absorb id (l.mux x.other).now (l.lane id x).flight) := by
  have run := run_deliveries (l := l) x (fun l _ => l.Welcomes id)
    (fun frames m => m.Safe ∧ (m.mux x.other).now = (l.mux x.other).now ∧
      m.lane id x = { l.lane id x with flight := frames.filter (Frame.names id) } ∧
      (m.lane id x.other).absorb id (l.mux x.other).now (frames.filter (Frame.names id)) =
        (l.lane id x.other).absorb id (l.mux x.other).now (l.lane id x).flight)
    (fun frame rest m flight ⟨safe,now,mine,other⟩ room => by
      have lane := deliver_lane safe room flight
      refine ⟨step_safe safe _,by rw [step_now]; exact now,?_,?_⟩
      · rw [lane]
        split
        · rename_i named
          simp [mine,named,Endpoint.erase]
        · rename_i other
          rw [mine,List.filter_cons_of_neg other]
      · rw [lane]
        split
        · rename_i named
          rw [List.filter_cons_of_pos named,Endpoint.absorb_cons] at other
          rw [Lane.onSide_same,Lane.onSide_other,now]
          exact other
        · rename_i unnamed
          rw [List.filter_cons_of_neg unnamed] at other
          exact other)
    ⟨safe,rfl,rfl,rfl⟩ room
  obtain ⟨⟨_,_,mine,other⟩,_⟩ := run
  funext y
  rcases Side.eq_or_other x y with rfl | rfl
  · rw [mine]
    simp [Endpoint.land]
  · rw [Lane.onSide_same,Lane.onSide_other]
    exact other

/-- Read everything a side can. -/
def readAll (l : Link) (x : Side) : List Action := (l.mux x).streams.keys.map (.read x)

def reads (l : Link) : List Action := l.readAll .client ++ l.readAll .server

/-- A lossless round in which the applications read everything available. -/
def round (l : Link) : List Action := l.exchange ++ (Machine.run step l.exchange l).reads

def advance (l : Link) : Link := Machine.run step l.round l

/-- The state after a number of such rounds. -/
def rounds (n : Nat) (l : Link) : Link := advance^[n] l

theorem run_reads {l : Link} (keyed : l.Keyed) (x : Side) (id : Nat) {keys : List Nat} (distinct : keys.Nodup) :
    (Machine.run step (keys.map (.read x)) l).lane id =
      if id ∈ keys then (l.lane id).onSide x .read else l.lane id := by
  induction keys generalizing l with
  | nil => simp
  | cons k rest ih =>
    obtain ⟨absent,distinct⟩ := List.nodup_cons.mp distinct
    rw [List.map_cons,Machine.run_cons,ih (step_keyed keyed _) distinct,lane_step keyed]
    by_cases mine : k = id
    · subst mine
      simp [absent,event,Lane.step]
    · simp [event,mine,Lane.step,Ne.symm mine]

theorem run_readAll {l m : Link} (keyed : m.Keyed) (x : Side) (id : Nat) (same : l.stream x id = m.stream x id) :
    (Machine.run step (l.readAll x) m).lane id = (m.lane id).onSide x .read := by
  unfold readAll
  rw [run_reads keyed x id Std.TreeMap.nodup_keys]
  split
  · rfl
  · rename_i absent
    have none : m.stream x id = none := by
      rw [← same]
      simpa [stream] using absent
    funext y
    rcases Side.eq_or_other x y with rfl | rfl
    · rw [Lane.onSide_same]
      simp [Endpoint.read,lane,none]
    · rw [Lane.onSide_other]

theorem run_keyed {l : Link} (keyed : l.Keyed) (schedule : List Action) : (Machine.run step schedule l).Keyed :=
  Machine.run_invariant_always Keyed (fun _ a keyed => step_keyed keyed a) schedule l keyed

theorem reads_lane {l : Link} (keyed : l.Keyed) (id : Nat) (x : Side) :
    (Machine.run step l.reads l).lane id x = (l.lane id x).read := by
  have first := run_readAll keyed .client id rfl
  have second := run_readAll (run_keyed keyed (l.readAll .client)) .server id (l := l) (by
    have := congrFun first .server
    rw [Lane.onSide_ne _ _ (by decide)] at this
    exact (congrArg Endpoint.stream this).symm)
  rw [reads,Machine.run_append,second,first]
  cases x <;> simp [Lane.onSide]

/-- The frames a side has in flight for a stream once it has polled. -/
def polled (l : Link) (id : Nat) (x : Side) : Endpoint := (l.lane id x).poll id ((l.mux x).now + 1)

theorem polls_lane {l : Link} (keyed : l.Keyed) (id : Nat) (x : Side) :
    (Machine.run step polls l).lane id x = l.polled id x ∧
    ((Machine.run step polls l).mux x).now = (l.mux x).now + 1 := by
  simp only [polls,Machine.run_cons,Machine.run_nil]
  rw [lane_step (step_keyed keyed _),lane_step keyed]
  simp only [event,Lane.step,step_now]
  cases x with
  | client => exact ⟨by rw [Lane.onSide_ne _ _ (by decide),Lane.onSide_same]; rfl,rfl⟩
  | server => exact ⟨by rw [Lane.onSide_same,Lane.onSide_ne _ _ (by decide)]; rfl,rfl⟩

theorem deliveries_now (l : Link) (x y : Side) :
    ((Machine.run step (l.deliveries x) l).mux y).now = (l.mux y).now := by
  have run := run_deliveries (l := l) x (fun _ _ => True)
    (fun _ m => (m.mux y).now = (l.mux y).now)
    (fun frame rest m _ same _ => by rw [step_now]; exact same) rfl (Machine.along_trivial _ _)
  exact run.1

theorem exchange_lane {l : Link} (safe : l.Safe) {id : Nat}
    (room : Machine.Along step (fun l _ => l.Welcomes id) l.exchange l) (x : Side) :
    (Machine.run step l.exchange l).lane id x =
      ((l.polled id x).absorb id ((l.mux x).now + 1) (l.polled id x.other).flight).land := by
  have ends := polls_lane safe.keyed id (l := l)
  have other := run_deliveries_other (Machine.run step polls l) .client
  unfold exchange at room
  rw [Machine.along_append,Machine.along_append,Machine.run_append] at room
  have list : (Machine.run step polls l).deliveries .server =
      (Machine.run step ((Machine.run step polls l).deliveries .client) (Machine.run step polls l)).deliveries .server := by
    unfold deliveries at other ⊢
    rw [show Side.client.other = .server from rfl] at other
    rw [other]
  rw [list] at room
  rw [run_exchange]
  dsimp only
  have polledSafe : (Machine.run step polls l).Safe := safe.run polls
  generalize Machine.run step polls l = m at room ends polledSafe
  have first := deliveries_lane polledSafe room.1.2
  have clock := deliveries_now m .client .client
  have midSafe : (Machine.run step (m.deliveries .client) m).Safe := polledSafe.run _
  generalize Machine.run step (m.deliveries .client) m = mid at room first clock midSafe
  have second := deliveries_lane midSafe room.2
  rw [second,first]
  simp only [show Side.client.other = .server from rfl,show Side.server.other = .client from rfl,clock]
  cases x with
  | client =>
    simp only [Lane.onSide,Function.update_self,Function.update_of_ne (show Side.client ≠ .server by decide),
      Function.update_of_ne (show Side.server ≠ .client by decide),Endpoint.absorb_land,Endpoint.absorb_flight,
      (ends .client).1,(ends .client).2,(ends .server).1]
    rfl
  | server =>
    simp only [Lane.onSide,Function.update_self,Function.update_of_ne (show Side.client ≠ .server by decide),
      Function.update_of_ne (show Side.server ≠ .client by decide),
      (ends .client).1,(ends .server).1,(ends .server).2]
    rfl

/-- A round, as one end of one stream sees it. -/
theorem round_lane {l : Link} (safe : l.Safe) {id : Nat}
    (room : Machine.Along step (fun l _ => l.Welcomes id) l.round l) (x : Side) :
    (Machine.run step l.round l).lane id x =
      ((l.polled id x).absorb id ((l.mux x).now + 1) (l.polled id x.other).flight).land.read := by
  unfold round at room ⊢
  rw [Machine.along_append] at room
  rw [Machine.run_append,reads_lane (run_keyed safe.keyed _),exchange_lane safe room.1]

theorem run_now (l : Link) (schedule : List Action) (x : Side) (still : ∀ a ∈ schedule, pollsAt x a = false) :
    ((Machine.run step schedule l).mux x).now = (l.mux x).now := by
  induction schedule generalizing l with
  | nil => rfl
  | cons a rest ih =>
    rw [Machine.run_cons,ih _ (fun b member => still b (.tail _ member)),step_now,still a (.head _)]
    rfl

theorem round_now {l : Link} (safe : l.Safe) (x : Side) :
    ((Machine.run step l.round l).mux x).now = (l.mux x).now + 1 := by
  rw [round,Machine.run_append,run_now,run_exchange]
  · dsimp only
    rw [deliveries_now,deliveries_now]
    exact (polls_lane safe.keyed 0 x).2
  · intro a member
    simp only [reads,readAll,List.mem_append,List.mem_map] at member
    rcases member with ⟨k,_,rfl⟩ | ⟨k,_,rfl⟩ <;> rfl

end Link
end Noissh

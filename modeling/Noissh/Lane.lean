import Noissh.Link
import Noissh.Multiplex

/-! One stream of a link seen alone. Every action of the link moves each stream by one
event of its own, so that an invariant of a stream is proved over these events. -/
namespace Noissh

/-- One side's share in one stream: its end, its frames in flight, and its records. -/
@[ext] structure Endpoint where
  stream : Option StreamState
  flight : List Frame
  wrote : Bytes
  got : Bytes
  closedAt : Option Nat
  born : Bool
  finReached : Bool

namespace Endpoint

def openStream (id : Nat) (kind : StreamKind) (metadata : Bytes) (e : Endpoint) : Endpoint :=
  { e with stream := some (StreamState.new id kind metadata true), born := true }

def write (data : Bytes) (e : Endpoint) : Endpoint :=
  match e.stream with
  | some s =>
    if s.sendNext + data.length ≤ u64Max then { e with stream := some (s.write data), wrote := e.wrote ++ data }
    else e
  | none => e

def read (e : Endpoint) : Endpoint :=
  match e.stream with
  | some s => { e with stream := some { s with recv := s.recv.read.2 }, got := e.got ++ s.recv.read.1 }
  | none => e

def close (status : Int) (e : Endpoint) : Endpoint :=
  match e.stream with
  | some s =>
    { e with
      stream := some { s with sendFin := true, closeStatus := some status }
      closedAt := e.closedAt.or (some e.wrote.length) }
  | none => e

def reset (e : Endpoint) : Endpoint := { e with stream := e.stream.map (fun s => { s with reset := true }) }

def poll (id now : Nat) (e : Endpoint) : Endpoint :=
  match e.stream with
  | some s =>
    { e with
      stream := (StreamMux.pollStream now id s).1
      flight := e.flight ++ (StreamMux.pollStream now id s).2 }
  | none => e

def erase (n : Nat) (e : Endpoint) : Endpoint := { e with flight := e.flight.eraseIdx n }

/-- A frame of this stream arrives; `welcome` says whether a StreamOpen finds room. -/
def receive (id now : Nat) (welcome : Bool) (e : Endpoint) : Frame → Endpoint
  | .streamOpen _ kind metadata =>
    if welcome && e.stream.isNone then
      { e with stream := some (StreamState.new id kind metadata false), born := true }
    else e
  | .streamData _ offset data fin =>
    match e.stream with
    | some s =>
      { e with
        stream := some (s.onData offset data fin).1
        finReached := e.finReached || (fin && s.accepts offset data) }
    | none => e
  | .streamAck _ ack window => { e with stream := e.stream.map (fun s => s.onAck ack window now) }
  | .streamClose _ _ => { e with stream := e.stream.map (fun s => { s with closeReceived := true }) }
  | .streamReset _ => { e with stream := e.stream.map (fun s => { s with reset := true }) }
  | _ => e

end Endpoint

abbrev Lane := Side → Endpoint

namespace Lane

inductive Event where
  | openStream (x : Side) (kind : StreamKind) (metadata : Bytes)
  | write (x : Side) (data : Bytes)
  | read (x : Side)
  | close (x : Side) (status : Int)
  | reset (x : Side)
  | poll (x : Side) (now : Nat)
  | deliver (x : Side) (n now : Nat) (welcome : Bool)
  | lose (x : Side) (n : Nat)
  | idle
  deriving DecidableEq, Repr

def onSide (v : Lane) (x : Side) (f : Endpoint → Endpoint) : Lane := Function.update v x (f (v x))

def step (id : Nat) (v : Lane) : Event → Lane
  | .openStream x kind metadata => v.onSide x (.openStream id kind metadata)
  | .write x data => v.onSide x (.write data)
  | .read x => v.onSide x .read
  | .close x status => v.onSide x (.close status)
  | .reset x => v.onSide x .reset
  | .poll x now => v.onSide x (.poll id now)
  | .deliver x n now welcome =>
    match (v x).flight[n]? with
    | some frame => (v.onSide x (.erase n)).onSide x.other (fun e => e.receive id now welcome frame)
    | none => v
  | .lose x n => v.onSide x (.erase n)
  | .idle => v

@[simp] theorem onSide_same (v : Lane) (x : Side) (f : Endpoint → Endpoint) : v.onSide x f x = f (v x) := by
  simp [onSide]

@[simp] theorem onSide_other (v : Lane) (x : Side) (f : Endpoint → Endpoint) :
    v.onSide x f x.other = v x.other := by simp [onSide]

@[simp] theorem onSide_back (v : Lane) (x : Side) (f : Endpoint → Endpoint) :
    v.onSide x.other f x = v x := by simp [onSide]

theorem onSide_ne (v : Lane) {x y : Side} (f : Endpoint → Endpoint) (ne : y ≠ x) : v.onSide x f y = v y := by
  simp [onSide,ne]

end Lane

/-- The frames that belong to a stream. -/
def Frame.names (id : Nat) (frame : Frame) : Bool := frame.streamId == some id

namespace Link

def lane (l : Link) (id : Nat) : Lane := fun x =>
  { stream := l.stream x id
    flight := (l.flight x).filter (Frame.names id)
    wrote := l.wrote x id
    got := l.got x id
    closedAt := l.closedAt x id
    born := l.born x id
    finReached := l.finReached x id }

/-- Whether a StreamOpen for the id finds room at a side. -/
def admits (l : Link) (y : Side) (id : Nat) : Bool :=
  decide (id % 2 ≠ (l.mux y).localParity) && decide ((l.mux y).streams.size < maxStreams)

/-- What an action of the link is for one stream. -/
def event (l : Link) (id : Nat) : Action → Lane.Event
  | .openStream x kind metadata => if (l.mux x).nextLocalId = id then .openStream x kind metadata else .idle
  | .write x k data => if k = id then .write x data else .idle
  | .read x k => if k = id then .read x else .idle
  | .close x k status => if k = id then .close x status else .idle
  | .reset x k => if k = id then .reset x else .idle
  | .takeEvents _ => .idle
  | .poll x => .poll x ((l.mux x).now + 1)
  | .deliver x n =>
    match (l.flight x)[n]? with
    | some frame =>
      if frame.names id then
        .deliver x (Multiplex.rank (Frame.names id) n (l.flight x)) (l.mux x.other).now
          (l.admits x.other id)
      else .idle
    | none => .idle
  | .lose x n =>
    match (l.flight x)[n]? with
    | some frame =>
      if frame.names id then .lose x (Multiplex.rank (Frame.names id) n (l.flight x)) else .idle
    | none => .idle

/-- Streams are stored under their own id, and every stream held has been noted. -/
def Keyed (l : Link) : Prop := ∀ x id s, l.stream x id = some s → s.id = id ∧ l.born x id = true

section Parts

variable (l : Link) (x y : Side) (id : Nat)

@[simp] theorem lane_setMux (m : StreamMux) :
    (l.setMux x m).lane id = (l.lane id).onSide x (fun e => { e with stream := m.streams[id]? }) := by
  funext z
  rcases Side.eq_or_other x z with rfl | rfl <;> simp [lane,setMux,stream]

@[simp] theorem lane_setFlight (frames : List Frame) : (l.setFlight x frames).lane id =
    (l.lane id).onSide x (fun e => { e with flight := frames.filter (Frame.names id) }) := by
  funext z
  rcases Side.eq_or_other x z with rfl | rfl <;> simp [lane,setFlight,stream]

theorem put_apply {α : Type} (record : Side → Nat → α) (k : Nat) (value : α) :
    put record x k value y id = if y = x ∧ id = k then value else record y id := by
  simp only [put,Function.update_apply]
  split <;> grind

theorem lane_note : l.note.lane id y =
    { l.lane id y with born := l.born y id || (l.stream y id).isSome } := rfl

end Parts

theorem pollTransmit_flight {m : StreamMux} (keyed : ∀ k (s : StreamState), m.streams[k]? = some s → s.id = k) (id : Nat) :
    m.pollTransmit.2.filter (Frame.names id) =
      match m.streams[id]? with
      | some s => (StreamMux.pollStream (m.now + 1) id s).2
      | none => [] := by
  have named : ∀ p ∈ m.streams.toList, ∀ frame ∈ (StreamMux.pollStream (m.now + 1) p.1 p.2).2,
      frame.streamId = some p.1 := by
    intro p member frame emitted
    have own := keyed p.1 p.2 (Std.TreeMap.mem_toList_iff_getElem?_eq_some.mp member)
    unfold StreamMux.pollStream at emitted
    split at emitted
    · simp only [List.mem_singleton] at emitted
      subst emitted
      rfl
    · rw [StreamState.transmit_streamId p.2 (m.now + 1) emitted,own]
  have distinct : m.streams.toList.Pairwise (fun p q => p.1 ≠ q.1) :=
    Std.TreeMap.distinct_keys_toList.imp (by simp)
  have parts := Multiplex.filter_flatMap_lane (Frame.names id) (k := id)
    (fun p => (StreamMux.pollStream (m.now + 1) p.1 p.2).2) distinct
    (fun p member key frame emitted => by simp [Frame.names,named p member frame emitted,key])
    (fun p member key frame emitted => by simp [Frame.names,named p member frame emitted,key])
  split
  · rename_i s held
    exact parts.1 s (Std.TreeMap.mem_toList_iff_getElem?_eq_some.mpr held)
  · rename_i absent
    exact parts.2 (fun s member => by
      rw [Std.TreeMap.mem_toList_iff_getElem?_eq_some.mp member] at absent
      cases absent)

theorem reached_eq (l : Link) (y : Side) (frame : Frame) (z : Side) (id : Nat) :
    (l.receive y frame).finReached z id = if z = y ∧ frame.names id = true then
      ((l.lane id y).receive id 0 false frame).finReached else l.finReached z id := by
  unfold receive
  cases frame with
  | streamData k offset data fin =>
    cases fin with
    | false =>
      cases held : l.stream y k <;> simp only [Frame.names,Frame.streamId,Endpoint.receive,lane] <;> grind
    | true =>
      simp only [Frame.names,Frame.streamId,Endpoint.receive,lane]
      cases held : l.stream y k <;> grind [put_apply]
  | _ => grind [Frame.names,Frame.streamId,Endpoint.receive,lane]

/-- A frame of the stream reaches its end in the multiplexer. -/
theorem onFrame_stream (m : StreamMux) (id : Nat) (e : Endpoint) (held : e.stream = m.streams[id]?)
    {frame : Frame} (mine : frame.names id = true) :
    (m.onFrame frame).streams[id]? =
      (e.receive id m.now (decide (id % 2 ≠ m.localParity) && decide (m.streams.size < maxStreams)) frame).stream := by
  simp only [Frame.names,beq_iff_eq] at mine
  cases frame <;> simp only [Frame.streamId,Option.some.injEq,reduceCtorEq] at mine <;> subst mine
  case streamOpen k kind metadata =>
    simp only [StreamMux.onFrame,StreamMux.getElem?_onOpen,Endpoint.receive]
    cases here : m.streams[k]? <;> grind
  case streamData k offset data fin =>
    simp only [StreamMux.onFrame,StreamMux.getElem?_onData,Endpoint.receive]
    cases here : m.streams[k]? <;> simp [held,here]
  case streamAck k ack window => simp [StreamMux.onFrame,StreamMux.getElem?_modifyStream,Endpoint.receive,held]
  case streamClose k status => simp [StreamMux.onFrame,StreamMux.getElem?_onClose,Endpoint.receive,held]
  case streamReset k => simp [StreamMux.onFrame,StreamMux.getElem?_onReset,Endpoint.receive,held]

namespace Receive

variable (e : Endpoint) (id now : Nat) (welcome : Bool) (frame : Frame)

theorem flight : (e.receive id now welcome frame).flight = e.flight := by
  cases frame <;> simp only [Endpoint.receive] <;> split <;> rfl

theorem wrote : (e.receive id now welcome frame).wrote = e.wrote := by
  cases frame <;> simp only [Endpoint.receive] <;> split <;> rfl

theorem got : (e.receive id now welcome frame).got = e.got := by
  cases frame <;> simp only [Endpoint.receive] <;> split <;> rfl

theorem closedAt : (e.receive id now welcome frame).closedAt = e.closedAt := by
  cases frame <;> simp only [Endpoint.receive] <;> split <;> rfl

theorem finReached (now' : Nat) (welcome' : Bool) :
    (e.receive id now welcome frame).finReached = (e.receive id now' welcome' frame).finReached := by
  cases frame <;> grind [Endpoint.receive]

end Receive

theorem lane_receive_mine (l : Link) (y : Side) (id : Nat) {frame : Frame} (mine : frame.names id = true) :
    (l.receive y frame).lane id = (l.lane id).onSide y (fun e =>
      { e.receive id (l.mux y).now (l.admits y id) frame with born := e.born }) := by
  funext z
  have reached := l.reached_eq y frame z id
  have arrived := onFrame_stream (l.mux y) id (l.lane id y) rfl mine
  rcases Side.eq_or_other y z with rfl | rfl
  · rw [Lane.onSide_same]
    apply Endpoint.ext
    · simp only [lane,stream,receive,setMux,Function.update_self]
      exact arrived
    · rw [Receive.flight]; rfl
    · rw [Receive.wrote]; rfl
    · rw [Receive.got]; rfl
    · rw [Receive.closedAt]; rfl
    · rfl
    · rw [if_pos ⟨rfl,mine⟩] at reached
      exact reached.trans (Receive.finReached ..)
  · rw [Lane.onSide_other]
    apply Endpoint.ext
    · simp [lane,stream,receive,setMux]
    · rfl
    · rfl
    · rfl
    · rfl
    · rfl
    · rw [if_neg (by simp)] at reached
      exact reached

theorem lane_receive_other (l : Link) (y : Side) (id : Nat) {frame : Frame} (other : frame.names id = false) :
    (l.receive y frame).lane id = l.lane id := by
  funext z
  have reached := l.reached_eq y frame z id
  rw [if_neg (by simp [other])] at reached
  have kept := StreamMux.getElem?_onFrame_other (l.mux y) frame id (by simpa [Frame.names] using other)
  apply Endpoint.ext
  · simp only [lane,stream,receive,setMux]
    rcases Side.eq_or_other y z with rfl | rfl <;> simp [kept]
  · rfl
  · rfl
  · rfl
  · rfl
  · rfl
  · exact reached

/-- An action before the bookkeeping of `note`. -/
theorem lane_act {l : Link} (keyed : l.Keyed) (a : Action) (id : Nat) (y : Side) :
    (l.act a).lane id y = { (l.lane id).step id (l.event id a) y with born := l.born y id } := by
  cases a with
  | openStream x kind metadata =>
    simp only [act,event,lane_setMux,StreamMux.getElem?_openStream]
    by_cases fresh : (l.mux x).nextLocalId = id
    · subst fresh
      rcases Side.eq_or_other x y with rfl | rfl <;> simp [Lane.step,Endpoint.openStream,lane]
    · rw [if_neg (Ne.symm fresh),if_neg fresh]
      rcases Side.eq_or_other x y with rfl | rfl <;> simp [Lane.step,lane,stream]
  | write x k data =>
    simp only [act,event]
    by_cases mine : k = id
    · subst mine
      cases held : l.stream x k with
      | none => rcases Side.eq_or_other x y with rfl | rfl <;> simp [Lane.step,Endpoint.write,lane,held]
      | some s =>
        have here : (l.mux x).streams[k]? = some s := held
        by_cases fits : s.sendNext + data.length ≤ u64Max
        · rcases Side.eq_or_other x y with rfl | rfl <;>
            simp [Lane.step,Endpoint.write,lane,fits,stream,setMux,put_apply,StreamMux.write,
              StreamMux.getElem?_modifyStream,here]
        · rcases Side.eq_or_other x y with rfl | rfl <;> simp [Lane.step,Endpoint.write,lane,held,fits]
    · rw [if_neg mine]
      split
      · split
        · rcases Side.eq_or_other x y with rfl | rfl <;>
            simp [Lane.step,lane,stream,setMux,put_apply,StreamMux.write,StreamMux.getElem?_modifyStream,
              Ne.symm mine]
        · rfl
      · rfl
  | read x k =>
    simp only [act,event]
    by_cases mine : k = id
    · subst mine
      cases held : l.stream x k with
      | none =>
        have here : (l.mux x).streams[k]? = none := held
        rcases Side.eq_or_other x y with rfl | rfl <;>
          simp [Lane.step,Endpoint.read,lane,stream,setMux,put_apply,StreamMux.read,here]
      | some s =>
        have here : (l.mux x).streams[k]? = some s := held
        rcases Side.eq_or_other x y with rfl | rfl <;>
          simp [Lane.step,Endpoint.read,lane,stream,setMux,put_apply,StreamMux.read,here]
    · rw [if_neg mine]
      rcases Side.eq_or_other x y with rfl | rfl <;>
        simp [Lane.step,lane,stream,setMux,put_apply,StreamMux.getElem?_read,Ne.symm mine]
  | close x k status =>
    simp only [act,event]
    by_cases mine : k = id
    · subst mine
      cases held : l.stream x k with
      | none => rcases Side.eq_or_other x y with rfl | rfl <;> simp [Lane.step,Endpoint.close,lane,held]
      | some s =>
        have here : (l.mux x).streams[k]? = some s := held
        rcases Side.eq_or_other x y with rfl | rfl <;>
          simp [Lane.step,Endpoint.close,lane,stream,setMux,put_apply,StreamMux.close,
            StreamMux.getElem?_modifyStream,here]
    · rw [if_neg mine]
      split
      · rcases Side.eq_or_other x y with rfl | rfl <;>
          simp [Lane.step,lane,stream,setMux,put_apply,StreamMux.close,StreamMux.getElem?_modifyStream,
            Ne.symm mine]
      · rfl
  | reset x k =>
    simp only [act,event,lane_setMux,StreamMux.reset,StreamMux.getElem?_modifyStream]
    by_cases mine : k = id
    · subst mine
      rcases Side.eq_or_other x y with rfl | rfl <;> simp [Lane.step,Endpoint.reset,lane,stream]
    · rw [if_neg mine,if_neg (Ne.symm mine)]
      rcases Side.eq_or_other x y with rfl | rfl <;> simp [Lane.step,lane,stream]
  | takeEvents x =>
    simp only [act,event,lane_setMux]
    rcases Side.eq_or_other x y with rfl | rfl <;> simp [Lane.step,lane,stream,StreamMux.takeEvents]
  | poll x =>
    simp only [act,event,lane_setMux,lane_setFlight,StreamMux.getElem?_pollTransmit,List.filter_append]
    rw [pollTransmit_flight (fun k s held => (keyed x k s held).1)]
    rcases Side.eq_or_other x y with rfl | rfl
    · cases held : l.stream y id with
      | none =>
        have here : (l.mux y).streams[id]? = none := held
        simp [Lane.step,Endpoint.poll,lane,held,here]
      | some s =>
        have here : (l.mux y).streams[id]? = some s := held
        simp [Lane.step,Endpoint.poll,lane,held,here]
    · simp [Lane.step,lane]
  | deliver x n =>
    simp only [act,event]
    cases here : (l.flight x)[n]? with
    | none => rfl
    | some frame =>
      dsimp only
      cases mine : frame.names id with
      | true =>
        have first := Multiplex.getElem?_filter_rank here mine
        rw [lane_receive_mine _ _ _ mine,lane_setFlight,Multiplex.filter_eraseIdx_mine here mine,if_pos rfl]
        simp only [Lane.step]
        rw [show ((l.lane id x).flight)[Multiplex.rank (Frame.names id) n (l.flight x)]? = some frame from first]
        rcases Side.eq_or_other x y with rfl | rfl
        · simp [lane,Endpoint.erase]
        · simp only [Lane.onSide_same,Lane.onSide_other]
          rfl
      | false =>
        rw [lane_receive_other _ _ _ mine,lane_setFlight,Multiplex.filter_eraseIdx_other (fun b at_ => by
          rw [here] at at_; cases at_; exact mine)]
        rcases Side.eq_or_other x y with rfl | rfl <;> simp [Lane.step,lane]
  | lose x n =>
    simp only [act,event,lane_setFlight]
    split
    · rename_i frame here
      split
      · rename_i mine
        rw [Multiplex.filter_eraseIdx_mine here mine]
        rcases Side.eq_or_other x y with rfl | rfl <;> simp [Lane.step,lane,Endpoint.erase]
      · rename_i other
        rw [Multiplex.filter_eraseIdx_other (fun b at_ => by
          rw [here] at at_; cases at_; simpa using other)]
        rcases Side.eq_or_other x y with rfl | rfl <;> simp [Lane.step,lane]
    · rename_i none
      rw [Multiplex.filter_eraseIdx_other (fun b at_ => by rw [none] at at_; cases at_)]
      rcases Side.eq_or_other x y with rfl | rfl <;> simp [Lane.step,lane]

end Link

/-- An end that carries the lane's id and has been noted. -/
def Endpoint.Noted (id : Nat) (e : Endpoint) : Prop := ∀ s, e.stream = some s → s.id = id ∧ e.born = true

/-- What an event may do to the identity of an end: it notes exactly the ends it creates. -/
structure Endpoint.Follows (id : Nat) (e e' : Endpoint) : Prop where
  id : ∀ s, e'.stream = some s → s.id = id
  born : e'.born = (e.born || e'.stream.isSome)

namespace Endpoint

variable {id : Nat} {e : Endpoint}

theorem Follows.noted {e' : Endpoint} (follows : Follows id e e') : e'.Noted id := by
  intro s held
  refine ⟨follows.id s held,?_⟩
  rw [follows.born,held]
  simp

/-- Ends that are only rewritten in place. -/
theorem Noted.follows {e' : Endpoint} (noted : e.Noted id) (born : e'.born = e.born)
    (kept : ∀ s', e'.stream = some s' → ∃ s, e.stream = some s ∧ s'.id = s.id) : Follows id e e' where
  id s' held := by
    obtain ⟨s,old,same⟩ := kept s' held
    rw [same]
    exact (noted s old).1
  born := by
    cases held : e'.stream with
    | none => simp [born]
    | some s' =>
      obtain ⟨s,old,_⟩ := kept s' held
      simp [born,(noted s old).2]

theorem openStream_follows (kind : StreamKind) (metadata : Bytes) :
    Follows id e (e.openStream id kind metadata) := by
  constructor <;> simp [openStream,StreamState.new]

theorem write_follows (noted : e.Noted id) (data : Bytes) : Follows id e (e.write data) := by
  apply noted.follows
  · unfold write; split; split <;> rfl; rfl
  · unfold write
    intro s' held
    split at held
    · rename_i s here
      split at held
      · cases held; exact ⟨s,here,rfl⟩
      · exact ⟨s',held,rfl⟩
    · exact ⟨s',held,rfl⟩

theorem read_follows (noted : e.Noted id) : Follows id e e.read := by
  apply noted.follows
  · unfold read; split <;> rfl
  · unfold read
    intro s' held
    split at held
    · rename_i s here
      cases held; exact ⟨s,here,rfl⟩
    · exact ⟨s',held,rfl⟩

theorem close_follows (noted : e.Noted id) (status : Int) : Follows id e (e.close status) := by
  apply noted.follows
  · unfold close; split <;> rfl
  · unfold close
    intro s' held
    split at held
    · rename_i s here
      cases held; exact ⟨s,here,rfl⟩
    · exact ⟨s',held,rfl⟩

theorem reset_follows (noted : e.Noted id) : Follows id e e.reset := by
  refine noted.follows rfl (fun s' held => ?_)
  simp only [reset,Option.map_eq_some_iff] at held
  obtain ⟨s,here,rfl⟩ := held
  exact ⟨s,here,rfl⟩

theorem poll_follows (noted : e.Noted id) (now : Nat) : Follows id e (e.poll id now) := by
  apply noted.follows
  · unfold poll; split <;> rfl
  · unfold poll
    intro s' held
    split at held
    · rename_i s here
      refine ⟨s,here,?_⟩
      simp only [StreamMux.pollStream] at held
      split at held
      · cases held
      · dsimp only at held
        split at held
        · cases held
        · cases held; exact StreamState.transmit_id s now
    · exact ⟨s',held,rfl⟩

theorem erase_follows (noted : e.Noted id) (n : Nat) : Follows id e (e.erase n) :=
  noted.follows rfl (fun s' held => ⟨s',held,rfl⟩)

theorem receive_follows (noted : e.Noted id) (now : Nat) (welcome : Bool) (frame : Frame) :
    Follows id e (e.receive id now welcome frame) := by
  cases frame with
  | streamOpen k kind metadata =>
    simp only [receive]
    split
    · constructor <;> simp [StreamState.new]
    · exact noted.follows rfl (fun s' held => ⟨s',held,rfl⟩)
  | streamData k offset data fin =>
    simp only [receive]
    split
    · rename_i s here
      refine noted.follows rfl (fun s' held => ⟨s,here,?_⟩)
      cases held
      rw [StreamState.onData_eq]
    · exact noted.follows rfl (fun s' held => ⟨s',held,rfl⟩)
  | streamAck k ack window =>
    refine noted.follows rfl (fun s' held => ?_)
    simp only [receive,Option.map_eq_some_iff] at held
    obtain ⟨s,here,rfl⟩ := held
    exact ⟨s,here,StreamState.onAck_id s ack window now⟩
  | streamClose k status =>
    refine noted.follows rfl (fun s' held => ?_)
    simp only [receive,Option.map_eq_some_iff] at held
    obtain ⟨s,here,rfl⟩ := held
    exact ⟨s,here,rfl⟩
  | streamReset k =>
    refine noted.follows rfl (fun s' held => ?_)
    simp only [receive,Option.map_eq_some_iff] at held
    obtain ⟨s,here,rfl⟩ := held
    exact ⟨s,here,rfl⟩
  | _ => exact noted.follows rfl (fun s' held => ⟨s',held,rfl⟩)

end Endpoint

namespace Lane

/-- What an event can do to the end of side `y`. -/
inductive Touch (id : Nat) (v : Lane) (y : Side) : Event → Endpoint → Prop where
  | same {e : Event} : Touch id v y e (v y)
  | openStream {kind : StreamKind} {metadata : Bytes} :
      Touch id v y (.openStream y kind metadata) ((v y).openStream id kind metadata)
  | write {data : Bytes} : Touch id v y (.write y data) ((v y).write data)
  | read : Touch id v y (.read y) (v y).read
  | close {status : Int} : Touch id v y (.close y status) ((v y).close status)
  | reset : Touch id v y (.reset y) (v y).reset
  | poll {now : Nat} : Touch id v y (.poll y now) ((v y).poll id now)
  | sent {n now : Nat} {welcome : Bool} {frame : Frame} : (v y).flight[n]? = some frame →
      Touch id v y (.deliver y n now welcome) ((v y).erase n)
  | lost {n : Nat} : Touch id v y (.lose y n) ((v y).erase n)
  | receive {x : Side} {n now : Nat} {welcome : Bool} {frame : Frame} : x.other = y → (v x).flight[n]? = some frame →
      Touch id v y (.deliver x n now welcome) ((v y).receive id now welcome frame)

theorem step_touch (id : Nat) (v : Lane) (e : Event) (y : Side) : Touch id v y e (v.step id e y) := by
  have side : ∀ (x : Side) (f : Endpoint → Endpoint), Touch id v x e (f (v x)) → Touch id v y e (v.onSide x f y) := by
    intro x f touched
    rcases Side.eq_or_other x y with rfl | rfl
    · rw [onSide_same]; exact touched
    · rw [onSide_other]; exact .same
  cases e with
  | openStream x kind metadata => exact side x _ .openStream
  | write x data => exact side x _ .write
  | read x => exact side x _ .read
  | close x status => exact side x _ .close
  | reset x => exact side x _ .reset
  | poll x now => exact side x _ .poll
  | deliver x n now welcome =>
    simp only [step]
    cases here : (v x).flight[n]? with
    | none => exact .same
    | some frame =>
      dsimp only
      rcases Side.eq_or_other x y with rfl | rfl
      · rw [onSide_back,onSide_same]
        exact .sent here
      · rw [onSide_same,onSide_other]
        exact .receive rfl here
  | lose x n => exact side x _ .lost
  | idle => exact .same

theorem step_follows {id : Nat} {v : Lane} (noted : ∀ x, (v x).Noted id) (e : Event) (y : Side) :
    Endpoint.Follows id (v y) (v.step id e y) := by
  have touched := step_touch id v e y
  generalize v.step id e y = e' at touched
  cases touched with
  | same => exact (noted y).follows rfl (fun s held => ⟨s,held,rfl⟩)
  | openStream => exact Endpoint.openStream_follows _ _
  | write => exact Endpoint.write_follows (noted y) _
  | read => exact Endpoint.read_follows (noted y)
  | close => exact Endpoint.close_follows (noted y) _
  | reset => exact Endpoint.reset_follows (noted y)
  | poll => exact Endpoint.poll_follows (noted y) _
  | sent => exact Endpoint.erase_follows (noted y) _
  | lost => exact Endpoint.erase_follows (noted y) _
  | receive => exact Endpoint.receive_follows (noted y) _ _ _

end Lane

namespace Link

theorem Keyed.noted {l : Link} (keyed : l.Keyed) (id : Nat) (x : Side) : (l.lane id x).Noted id :=
  fun s held => keyed x id s held

/-- Each stream moves by its own event. -/
theorem lane_step {l : Link} (keyed : l.Keyed) (a : Action) (id : Nat) :
    (l.step a).lane id = (l.lane id).step id (l.event id a) := by
  funext y
  have follows := Lane.step_follows (keyed.noted id) (l.event id a) y
  have acted := lane_act keyed a id y
  unfold step
  rw [lane_note,show (l.act a).born = l.born by cases a <;> simp only [act] <;> (repeat' split) <;> rfl,
    show (l.act a).stream y id = ((l.act a).lane id y).stream from rfl,acted]
  apply Endpoint.ext <;> first | rfl | exact follows.born.symm

theorem step_keyed {l : Link} (keyed : l.Keyed) (a : Action) : (l.step a).Keyed := by
  intro x id s held
  have follows := Lane.step_follows (keyed.noted id) (l.event id a) x
  have same := congrFun (lane_step keyed a id) x
  exact (same ▸ follows.noted) s held

theorem start_keyed : start.Keyed := by
  intro x id s held
  simp [start,stream,StreamMux.new] at held

end Link
end Noissh

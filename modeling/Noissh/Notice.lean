import Noissh.Retire

/-! What the events of a multiplexer say about the other end: a stream is announced once, when
it is new, and a close only after the other application has closed. -/
namespace Noissh
namespace StreamMux

/-- A frame raises at most one event, about the stream it names. -/
inductive Raises (m : StreamMux) : Frame → List StreamEvent → Prop where
  | none {frame : Frame} : Raises m frame []
  | opened {k : Nat} {kind : StreamKind} {metadata : Bytes} : m.streams[k]? = none →
      ((m.onFrame (.streamOpen k kind metadata)).streams[k]?).isSome = true →
      Raises m (.streamOpen k kind metadata) [.opened k kind metadata]
  | readable {frame : Frame} {k : Nat} : Raises m frame [.readable k]
  | closed {k : Nat} {status : Int} : Raises m (.streamClose k status) [.closed k status]
  | reset {k : Nat} : Raises m (.streamReset k) [.reset k]

theorem modifyStream_events (m : StreamMux) (id : Nat) (f : StreamState → StreamState) :
    (m.modifyStream id f).events = m.events := by
  unfold modifyStream
  split <;> rfl

theorem read_events (m : StreamMux) (id : Nat) : (m.read id).2.events = m.events := by
  unfold read
  split <;> rfl

theorem onFrame_events (m : StreamMux) (frame : Frame) :
    ∃ fresh, (m.onFrame frame).events = m.events ++ fresh ∧ Raises m frame fresh := by
  have silent : ∀ m' : StreamMux, m'.events = m.events → ∃ fresh, m'.events = m.events ++ fresh ∧ Raises m frame fresh :=
    fun m' same => ⟨[],by rw [same,List.append_nil],.none⟩
  cases frame with
  | streamOpen k kind metadata =>
    by_cases refused : k % 2 = m.localParity ∨ maxStreams ≤ m.streams.size
    · exact silent _ (by simp only [onFrame,onOpen,if_pos refused])
    · cases held : m.streams[k]? with
      | some s => exact silent _ (by simp only [onFrame,onOpen,if_neg refused,held])
      | none =>
        refine ⟨[.opened k kind metadata],by simp only [onFrame,onOpen,if_neg refused,held,push],.opened held ?_⟩
        simp [onFrame,onOpen,if_neg refused,held,push]
  | streamData k offset data fin =>
    cases held : m.streams[k]? with
    | none => exact silent _ (by simp only [onFrame,onData,held])
    | some s =>
      by_cases readable : (s.onData offset data fin).2 = true
      · exact ⟨[.readable k],by simp only [onFrame,onData,held,if_pos readable,push],.readable⟩
      · exact silent _ (by simp only [onFrame,onData,held,if_neg readable])
  | streamAck k ack window => exact silent _ (modifyStream_events ..)
  | streamClose k status =>
    cases held : m.streams[k]? with
    | none => exact silent _ (by simp only [onFrame,onClose,held])
    | some s =>
      by_cases already : s.closeReceived = true
      · exact silent _ (by simp only [onFrame,onClose,held,if_pos already])
      · exact ⟨[.closed k status],by simp only [onFrame,onClose,held,if_neg already,push],.closed⟩
  | streamReset k =>
    cases held : m.streams[k]? with
    | none => exact silent _ (by simp only [onFrame,onReset,held])
    | some s => exact ⟨[.reset k],by simp only [onFrame,onReset,held,push],.reset⟩
  | _ => exact silent _ rfl

end StreamMux

namespace Lane

variable {id : Nat} {v : Lane}

/-- A close is only on its way once the application has closed. -/
structure Announced (v : Lane) (y : Side) : Prop where
  status : ∀ s, (v y).stream = some s → s.closeStatus ≠ none → (v y).closedAt ≠ none
  frames : ∀ k status, .streamClose k status ∈ (v y).flight → (v y).closedAt ≠ none

theorem Touch.closed {y : Side} {e : Event} {e' : Endpoint} (touched : Touch id v y e e')
    (closed : (v y).closedAt ≠ none) : e'.closedAt ≠ none := by
  obtain ⟨n,present⟩ := Option.ne_none_iff_exists'.mp closed
  rw [touched.closedAt present]
  simp

theorem step_announced (safe : Safe id v) {y : Side} (announced : Announced v y) {e : Event} (fresh : Fresh id v e) :
    Announced (v.step id e) y := by
  have touched := step_touch id v e y
  have flow := safe.flowing y
  constructor
  · intro t here closing
    rcases step_evolves safe fresh here with ⟨s,held,evolves⟩ | ⟨_,_,_,_,rfl,_⟩
    · have old : s.closeStatus ≠ none → (v.step id e y).closedAt ≠ none :=
        fun before => touched.closed (announced.status s held before)
      rcases (evolves.ends safe held).status with ⟨same,_⟩ | ⟨status,rfl,_⟩
      · exact old (same ▸ closing)
      · simp only [step,onSide_same,Endpoint.close,held]
        cases (v y).closedAt <;> simp
    · exact absurd rfl closing
  · intro k status member
    rcases touched.emits safe member with old | ⟨now,s,rfl,held,⟨_,isReset⟩ | ⟨_,emits⟩⟩
    · exact touched.closed (announced.frames k status old)
    · cases isReset
    · cases emits with
      | close present => exact touched.closed (announced.status s held (by rw [present]; simp))

end Lane

namespace StreamEvent

def opens (k : Nat) : StreamEvent → Bool
  | opened j _ _ => j == k
  | _ => false

theorem any_opens {pending : List StreamEvent} {k : Nat} {kind : StreamKind} {metadata : Bytes}
    (member : opened k kind metadata ∈ pending) : pending.any (opens k) = true :=
  List.any_eq_true.mpr ⟨_,member,by simp [opens]⟩

end StreamEvent

namespace Link

section

variable {l : Link} {a : Action} {id : Nat}

theorem event_close {y : Side} {status : Int} (same : l.event id a = .close y status) : a = .close y id status := by
  cases a with
  | close x k st =>
    simp only [event] at same
    split at same
    · rename_i mine
      cases same
      rw [mine]
    · cases same
  | _ =>
    simp only [event] at same
    repeat' split at same
    all_goals cases same

theorem event_poll {y : Side} {now : Nat} (same : l.event id a = .poll y now) : a = .poll y := by
  cases a with
  | poll x =>
    cases same
    rfl
  | _ =>
    simp only [event] at same
    repeat' split at same
    all_goals cases same

theorem event_reset {y : Side} (same : l.event id a = .reset y) : a = .reset y id := by
  cases a with
  | reset x k =>
    simp only [event] at same
    split at same
    · rename_i mine
      cases same
      rw [mine]
    · cases same
  | _ =>
    simp only [event] at same
    repeat' split at same
    all_goals cases same

theorem event_deliver {x : Side} {m now : Nat} {welcome : Bool}
    (same : l.event id a = .deliver x m now welcome) :
    ∃ n frame, a = .deliver x n ∧ (l.flight x)[n]? = some frame ∧ (l.lane id x).flight[m]? = some frame ∧
      frame.names id = true := by
  cases a with
  | deliver y n =>
    simp only [event] at same
    split at same
    · rename_i frame here
      split at same
      · rename_i mine
        cases same
        exact ⟨n,frame,rfl,here,Multiplex.getElem?_filter_rank here mine,mine⟩
      · cases same
    · cases same
  | _ =>
    simp only [event] at same
    repeat' split at same
    all_goals cases same

end

/-- Every end's closes are announced truly. -/
def Announced (l : Link) : Prop := ∀ k y, Lane.Announced (l.lane k) y

theorem step_announced {l : Link} (safe : l.Safe) (announced : l.Announced) (a : Action) : (l.step a).Announced := by
  intro k y
  rw [lane_step safe.keyed a k]
  exact Lane.step_announced (safe.lanes k) (announced k y) (event_fresh safe a k)

theorem start_announced : start.Announced := by
  intro k y
  constructor <;> simp [lane,start,stream,StreamMux.new]

theorem step_born (l : Link) (a : Action) {x : Side} {k : Nat} (born : l.born x k = true) : (l.step a).born x k = true := by
  have same : (l.act a).born = l.born := by cases a <;> simp only [act] <;> (repeat' split) <;> rfl
  simp [step,note,same,born]

/-- What the events not yet handled say. -/
structure Notices (l : Link) (x : Side) (pending : List StreamEvent) : Prop where
  born : ∀ k, pending.any (StreamEvent.opens k) = true → l.born x k = true
  once : ∀ k, pending.countP (StreamEvent.opens k) ≤ 1
  closed : ∀ k status, .closed k status ∈ pending → l.closedAt x.other k ≠ none

/-- Once its opening is handled, a stream is not announced again. -/
theorem Notices.handled {l : Link} {x : Side} {pending : List StreamEvent} {k : Nat} {kind : StreamKind}
    {metadata : Bytes} (notices : l.Notices x (.opened k kind metadata :: pending)) :
    pending.any (StreamEvent.opens k) = false := by
  have once := notices.once k
  rw [List.countP_cons_of_pos (by simp [StreamEvent.opens])] at once
  have zero : pending.countP (StreamEvent.opens k) = 0 := by omega
  rw [List.countP_eq_zero] at zero
  simpa using zero

/-- One more event that announces no stream. -/
theorem Notices.append {l : Link} {x : Side} {pending : List StreamEvent} (notices : l.Notices x pending)
    {event : StreamEvent} (quiet : ∀ k, event.opens k = false)
    (closed : ∀ k status, event = .closed k status → l.closedAt x.other k ≠ none) :
    l.Notices x (pending ++ [event]) := by
  refine ⟨fun k opened => notices.born k ?_,fun k => ?_,fun k status member => ?_⟩
  · simpa [quiet k] using opened
  · simpa [quiet k] using notices.once k
  · rcases List.mem_append.mp member with before | here
    · exact notices.closed k status before
    · exact closed k status (List.mem_singleton.mp here).symm

def takesAt (x : Side) : Action → Bool
  | .takeEvents y => y == x
  | _ => false

/-- Only a delivery adds an event. -/
theorem step_events (l : Link) {a : Action} {x : Side} (kept : takesAt x a = false) :
    ((l.step a).mux x).events = (l.mux x).events ∨
    ∃ n frame fresh, a = .deliver x.other n ∧ frame ∈ l.flight x.other ∧
      (l.step a).mux x = (l.mux x).onFrame frame ∧
      ((l.step a).mux x).events = (l.mux x).events ++ fresh ∧ (l.mux x).Raises frame fresh := by
  have set : ∀ y m, (y = x → m.events = (l.mux x).events) → ((l.setMux y m).mux x).events = (l.mux x).events := by
    intro y m same
    simp only [setMux,Function.update_apply]
    by_cases here : x = y
    · rw [if_pos here]; exact same here.symm
    · rw [if_neg here]
  have mux : (l.step a).mux = (l.act a).mux := rfl
  rw [mux]
  cases a with
  | openStream y kind metadata => exact .inl (set y _ (by rintro rfl; rfl))
  | write y k data =>
    left
    simp only [act]
    split
    · split
      · exact set y _ (by rintro rfl; exact StreamMux.modifyStream_events ..)
      · rfl
    · rfl
  | read y k => exact .inl (set y _ (by rintro rfl; exact StreamMux.read_events ..))
  | close y k status =>
    left
    simp only [act]
    split
    · exact set y _ (by rintro rfl; exact StreamMux.modifyStream_events ..)
    · rfl
  | reset y k => exact .inl (set y _ (by rintro rfl; exact StreamMux.modifyStream_events ..))
  | takeEvents y => exact .inl (set y _ (by rintro rfl; simp [takesAt] at kept))
  | poll y => exact .inl (set y _ (by rintro rfl; rfl))
  | deliver y n =>
    simp only [act]
    cases here : (l.flight y)[n]? with
    | none => exact .inl rfl
    | some frame =>
      rcases Side.eq_or_other x y with rfl | rfl
      · left
        simp [receive,setMux,setFlight]
      · right
        obtain ⟨fresh,events,raises⟩ := (l.mux x).onFrame_events frame
        refine ⟨n,frame,fresh,rfl,List.mem_of_getElem? here,?_,?_,raises⟩
        · simp [receive,setMux,setFlight]
        · simpa [receive,setMux,setFlight] using events
  | lose y n => exact .inl rfl

/-- A StreamOpen still in flight announces a stream the side has never held. -/
theorem Safe.opening {l : Link} (safe : l.Safe) {y : Side} {k : Nat} {kind : StreamKind} {metadata : Bytes}
    (sent : .streamOpen k kind metadata ∈ l.flight y) : l.born y.other k = false := by
  have member : Frame.streamOpen k kind metadata ∈ (l.lane k y).flight :=
    List.mem_filter.mpr ⟨sent,by simp [Frame.names,Frame.streamId]⟩
  exact (((safe.lanes k).life y).opening _ member (by simp [Frame.opens])).2

theorem step_closedAt_kept (l : Link) (safe : l.Safe) (a : Action) {y : Side} {k n : Nat} (closed : l.closedAt y k = some n) :
    (l.step a).closedAt y k = some n := by
  have touched := Lane.step_touch k (l.lane k) (l.event k a) y
  rw [← lane_step safe.keyed a k] at touched
  exact touched.closedAt closed

theorem Notices.tail {l : Link} {x : Side} {event : StreamEvent} {pending : List StreamEvent}
    (notices : l.Notices x (event :: pending)) : l.Notices x pending where
  born k opened := notices.born k (by simp [opened])
  once k := Nat.le_trans (List.Sublist.countP_le (List.sublist_cons_self _ _)) (notices.once k)
  closed k status member := notices.closed k status (List.mem_cons_of_mem _ member)

/-- What is pending keeps its meaning. -/
theorem Notices.keep {l : Link} {x : Side} {pending : List StreamEvent} (safe : l.Safe) (notices : l.Notices x pending)
    (a : Action) : (l.step a).Notices x pending where
  born k opened := step_born l a (notices.born k opened)
  once := notices.once
  closed k status member := by
    obtain ⟨n,present⟩ := Option.ne_none_iff_exists'.mp (notices.closed k status member)
    rw [step_closedAt_kept l safe a present]
    simp

/-- What is pending, and whatever the step adds to it, keeps its meaning. -/
theorem Notices.step {l : Link} {x : Side} (safe : l.Safe) (announced : l.Announced) {a : Action}
    (kept : takesAt x a = false) (notices : l.Notices x (l.mux x).events) :
    (l.step a).Notices x ((l.step a).mux x).events := by
  have old := notices.keep safe a
  rcases l.step_events kept with same | ⟨n,frame,fresh,rfl,sent,mux,events,raises⟩
  · rw [same]; exact old
  · rw [events]
    have sentClosed : ∀ k status, frame = .streamClose k status → l.closedAt x.other k ≠ none := by
      rintro k status rfl
      exact (announced k x.other).frames k status (List.mem_filter.mpr ⟨sent,by simp [Frame.names,Frame.streamId]⟩)
    cases raises with
    | none => rw [List.append_nil]; exact old
    | @opened k kind metadata _ held =>
      have unborn : l.born x k = false := by simpa using safe.opening sent
      have born : (l.step (.deliver x.other n)).born x k = true := by
        have here : ((l.step (.deliver x.other n)).stream x k).isSome = true := by rw [stream,mux]; exact held
        obtain ⟨s,present⟩ := Option.isSome_iff_exists.mp here
        exact ((step_safe safe _).keyed x k s present).2
      have none : (l.mux x).events.any (StreamEvent.opens k) = false := by
        by_contra some
        rw [notices.born k (by simpa using some)] at unborn
        cases unborn
      refine ⟨fun j opened => ?_,fun j => ?_,fun j status member => ?_⟩
      · simp only [List.any_append,Bool.or_eq_true,List.any_cons,List.any_nil,Bool.or_false] at opened
        rcases opened with before | here
        · exact old.born j before
        · simp only [StreamEvent.opens,beq_iff_eq] at here
          subst here
          exact born
      · rw [List.countP_append]
        by_cases here : k = j
        · subst here
          have zero : (l.mux x).events.countP (StreamEvent.opens k) = 0 := by
            rw [List.countP_eq_zero]
            intro ev member opens
            rw [List.any_eq_true.mpr ⟨ev,member,opens⟩] at none
            cases none
          simp [zero,StreamEvent.opens]
        · simpa [StreamEvent.opens,here] using notices.once j
      · rcases List.mem_append.mp member with before | here
        · exact old.closed j status before
        · simp at here
    | readable => exact old.append (fun _ => rfl) (by simp)
    | @closed k status =>
      refine old.append (fun _ => rfl) (fun j status' same => ?_)
      cases same
      obtain ⟨n,present⟩ := Option.ne_none_iff_exists'.mp (sentClosed k status rfl)
      rw [step_closedAt_kept l safe _ present]
      simp
    | reset => exact old.append (fun _ => rfl) (by simp)

end Link
end Noissh

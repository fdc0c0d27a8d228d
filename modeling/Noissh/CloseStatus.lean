import Noissh.FinAck
import Noissh.Notice

/-! Whether the status of a close reaches the other application. It travels in a frame of its
own, which is repeated only until the data is acknowledged. -/
namespace Noissh

/-- A link, the events its applications have taken, the statuses they have closed streams with,
and whether a StreamClose has reached a side that held its stream. -/
structure Watched where
  link : Link
  taken : Side → List StreamEvent
  closing : Side → Nat → List Int
  closeReached : Side → Nat → Bool

namespace Watched

open Link

def start : Watched where
  link := .start
  taken _ := []
  closing _ _ := []
  closeReached _ _ := false

def step (w : Watched) (a : Action) : Watched where
  link := w.link.step a
  taken := match a with
    | .takeEvents x => Function.update w.taken x (w.taken x ++ (w.link.mux x).events)
    | _ => w.taken
  closing := match a with
    | .close x id status => if (w.link.stream x id).isSome then put w.closing x id (w.closing x id ++ [status]) else w.closing
    | _ => w.closing
  closeReached := match a with
    | .deliver x n =>
      match (w.link.flight x)[n]? with
      | some (.streamClose id _) =>
        if (w.link.stream x.other id).isSome then put w.closeReached x.other id true else w.closeReached
      | _ => w.closeReached
    | _ => w.closeReached

/-- All the events the application of a side has been or will be given. -/
def surfaced (w : Watched) (x : Side) : List StreamEvent := w.taken x ++ (w.link.mux x).events

/-- A stream is closed again only with the same status. -/
def sameStatus (w : Watched) : Action → Bool
  | .close x id status => (w.closing x id).all (· == status)
  | _ => true

/-- An ack of all bytes reaches a stream that has sent its FIN, or its grace window ends, only
after a StreamClose of it has reached the peer. -/
def closeFirst (w : Watched) : Action → Bool
  | .deliver x n =>
    match (w.link.flight x)[n]? with
    | some (.streamAck id ack _) =>
      match w.link.stream x.other id with
      | some s => !(s.sendFin && s.finSent && decide (s.sendNext ≤ ack)) || w.closeReached x id
      | none => true
    | _ => true
  | .poll x => (w.link.mux x).streams.toList.all (fun p => !p.2.graceEnds || w.closeReached x.other p.1)
  | _ => true

def guarded (w : Watched) (a : Action) : Prop := calm a = true ∧ w.sameStatus a = true ∧ w.closeFirst a = true

/-- A side that will repeat its close no more has closed with a status the peer was told. -/
def StatusKept (w : Watched) (x : Side) (id : Nat) : Prop :=
  ∀ status ∈ w.closing x id, (∀ s, w.link.stream x id = some s → s.finAcked = true) →
    .closed id status ∈ w.surfaced x.other

variable {w : Watched} {a : Action} {id : Nat}

/-- Only a close of a stream that is held adds a status. -/
theorem closing_cases (w : Watched) (a : Action) (x : Side) (id : Nat) :
    (w.step a).closing x id = w.closing x id ∨ ∃ status, (w.link.stream x id).isSome = true ∧ a = .close x id status ∧
      (w.step a).closing x id = w.closing x id ++ [status] := by
  cases a with
  | close y k status =>
    simp only [step]
    split
    · rename_i held
      rw [put_apply]
      split
      · rename_i here
        obtain ⟨rfl,rfl⟩ := here
        exact .inr ⟨status,held,rfl,rfl⟩
      · exact .inl rfl
    · exact .inl rfl
  | _ => exact .inl rfl

theorem closing_mono (w : Watched) (a : Action) {x : Side} {status : Int} (member : status ∈ w.closing x id) :
    status ∈ (w.step a).closing x id := by
  rcases w.closing_cases a x id with same | ⟨_,_,_,more⟩
  · rw [same]
    exact member
  · rw [more]
    exact List.mem_append_left _ member

theorem closeReached_mono (w : Watched) (a : Action) {x : Side} (reached : w.closeReached x id = true) :
    (w.step a).closeReached x id = true := by
  cases a with
  | deliver y n =>
    simp only [step]
    cases (w.link.flight y)[n]? with
    | none => exact reached
    | some frame =>
      cases frame with
      | streamClose k status =>
        dsimp only
        split
        · rw [put_apply]
          split
          · rfl
          · exact reached
        · exact reached
      | _ => exact reached
  | _ => exact reached

theorem surfaced_mono (w : Watched) (a : Action) {x : Side} {event : StreamEvent} (member : event ∈ w.surfaced x) :
    event ∈ (w.step a).surfaced x := by
  cases taking : takesAt x a with
  | true =>
    cases a with
    | takeEvents y =>
      obtain rfl := beq_iff_eq.mp taking
      rw [surfaced,List.mem_append] at member ⊢
      refine .inl ?_
      simpa [step] using member
    | _ => cases taking
  | false =>
    have same : (w.step a).taken x = w.taken x := by
      cases a with
      | takeEvents y =>
        have other : x ≠ y := fun equal => by simp [takesAt,equal] at taking
        simp [step,other]
      | _ => rfl
    unfold surfaced at member ⊢
    rw [same]
    rcases w.link.step_events taking with events | ⟨_,_,fresh,_,_,_,events,_⟩
    · rw [show ((w.step a).link.mux x).events = _ from events]
      exact member
    · rw [show ((w.step a).link.mux x).events = _ from events,← List.append_assoc]
      exact List.mem_append_left _ member

/-- The watch on the link: what is known of a close at both ends. -/
structure Valid (w : Watched) : Prop where
  safe : w.link.Safe
  graceful : ∀ id x, (w.link.lane id x).Graceful
  agreed : ∀ x id, ∀ first ∈ w.closing x id, ∀ second ∈ w.closing x id, first = second
  held : ∀ x id, w.closing x id ≠ [] → w.link.born x id = true
  status : ∀ x id s status, w.link.stream x id = some s → s.closeStatus = some status → status ∈ w.closing x id
  frames : ∀ x id status, .streamClose id status ∈ w.link.flight x → status ∈ w.closing x id
  received : ∀ x id s, w.link.stream x id = some s → s.closeReceived = true → w.closeReached x id = true
  heard : ∀ x id, w.closeReached x id = true → ∃ status ∈ w.closing x.other id, .closed id status ∈ w.surfaced x
  acked : ∀ x id s, w.link.stream x id = some s → s.finAcked = true → w.closeReached x.other id = true
  gone : ∀ x id, w.link.born x id = true → w.link.stream x id = none → w.closeReached x.other id = true

theorem Valid.statusKept (valid : w.Valid) (x : Side) (id : Nat) : w.StatusKept x id := by
  intro status member ended
  have reached : w.closeReached x.other id = true := by
    cases here : w.link.stream x id with
    | none => exact valid.gone x id (valid.held x id (List.ne_nil_of_mem member)) here
    | some s => exact valid.acked x id s here (ended s here)
  obtain ⟨told,same,event⟩ := valid.heard x.other id reached
  rw [Side.other_other] at same
  rw [valid.agreed x id status member told same]
  exact event

/-- A stream after a step is new, or one there was before, with its own events. -/
theorem Valid.stream_cases (valid : w.Valid) {x : Side} {t : StreamState} (here : (w.step a).link.stream x id = some t) :
    (∃ s, w.link.stream x id = some s ∧ Lane.Evolves (w.link.lane id) x (w.link.event id a) s t) ∨
    ∃ kind metadata needsOpen, t = .new id kind metadata needsOpen := by
  have there : ((w.link.lane id).step id (w.link.event id a) x).stream = some t := by
    rw [← lane_step valid.safe.keyed a id]
    exact here
  rcases Lane.step_evolves (valid.safe.lanes id) (event_fresh valid.safe a id) there with evolved | ⟨_,_,_,_,new,_⟩
  · exact .inl evolved
  · exact .inr ⟨_,_,_,new⟩

theorem Valid.touch (valid : w.Valid) (a : Action) (id : Nat) (x : Side) :
    Lane.Touch id (w.link.lane id) x (w.link.event id a) ((w.step a).link.lane id x) := by
  have touched := Lane.step_touch id (w.link.lane id) (w.link.event id a) x
  rw [← lane_step valid.safe.keyed a id] at touched
  exact touched

theorem Valid.after_status (valid : w.Valid) (a : Action) (x : Side) (id : Nat) {t : StreamState} {status : Int}
    (here : (w.step a).link.stream x id = some t) (closed : t.closeStatus = some status) :
    status ∈ (w.step a).closing x id := by
  rcases valid.stream_cases here with ⟨s,held,evolves⟩ | ⟨_,_,_,rfl⟩
  · have old : s.closeStatus = some status → status ∈ (w.step a).closing x id :=
      fun before => w.closing_mono a (valid.status x id s status held before)
    rcases (evolves.ends (valid.safe.lanes id) held).status with ⟨same,_⟩ | ⟨given,called,now,_⟩
    · exact old (same.symm.trans closed)
    · cases event_close called
      cases now.symm.trans closed
      simp [step,held,put_apply]
  · cases closed

theorem Valid.after_frames (valid : w.Valid) (a : Action) (x : Side) (id : Nat) {status : Int}
    (sent : .streamClose id status ∈ (w.step a).link.flight x) : status ∈ (w.step a).closing x id := by
  have mine : Frame.streamClose id status ∈ ((w.step a).link.lane id x).flight :=
    List.mem_filter.mpr ⟨sent,by simp [Frame.names,Frame.streamId]⟩
  rcases (valid.touch a id x).emits (valid.safe.lanes id) mine with old | ⟨now,s,_,held,⟨_,isReset⟩ | ⟨_,emits⟩⟩
  · exact w.closing_mono a (valid.frames x id status (List.mem_filter.mp old).1)
  · cases isReset
  · have present : s.closeStatus = some status := by
      cases emits with
      | close present => exact present
    exact w.closing_mono a (valid.status x id s status held present)

/-- A StreamClose is delivered to a side that holds its stream. -/
theorem closeReached_deliver {x : Side} {n : Nat} {status : Int} (sent : (w.link.flight x)[n]? = some (.streamClose id status))
    (held : (w.link.stream x.other id).isSome = true) : (w.step (.deliver x n)).closeReached x.other id = true := by
  simp [step,sent,held,put_apply]

theorem closeReached_cases {x : Side} (reached : (w.step a).closeReached x id = true) :
    w.closeReached x id = true ∨ ∃ n status s, a = .deliver x.other n ∧
      (w.link.flight x.other)[n]? = some (.streamClose id status) ∧ w.link.stream x id = some s := by
  cases a with
  | deliver y n =>
    simp only [step] at reached
    cases sent : (w.link.flight y)[n]? with
    | none =>
      rw [sent] at reached
      exact .inl reached
    | some frame =>
      rw [sent] at reached
      cases frame with
      | streamClose k status =>
        dsimp only at reached
        split at reached
        · rename_i held
          rw [put_apply] at reached
          split at reached
          · rename_i here
            obtain ⟨rfl,rfl⟩ := here
            obtain ⟨s,present⟩ := Option.isSome_iff_exists.mp held
            rw [Side.other_other]
            exact .inr ⟨n,status,s,rfl,sent,present⟩
          · exact .inl reached
        · exact .inl reached
      | _ => exact .inl reached
  | _ => exact .inl reached

theorem Valid.after_received (valid : w.Valid) (a : Action) (x : Side) (id : Nat) {t : StreamState}
    (here : (w.step a).link.stream x id = some t) (closed : t.closeReceived = true) :
    (w.step a).closeReached x id = true := by
  rcases valid.stream_cases here with ⟨s,held,evolves⟩ | ⟨_,_,_,rfl⟩
  · have old : s.closeReceived = true → (w.step a).closeReached x id = true :=
      fun before => w.closeReached_mono a (valid.received x id s held before)
    rcases (evolves.ends (valid.safe.lanes id) held).received with
      kept | ⟨⟨y,m,now,welcome,k,status,peer,delivered,sent⟩,_⟩
    · exact old (kept.symm.trans closed)
    · obtain ⟨n,frame,rfl,there,same,mine⟩ := event_deliver delivered
      rw [sent] at same
      cases same
      cases beq_iff_eq.mp mine
      rw [← peer]
      exact closeReached_deliver there (by rw [peer,held]; rfl)
  · cases closed

theorem Valid.after_heard (valid : w.Valid) (a : Action) (x : Side) (id : Nat)
    (reached : (w.step a).closeReached x id = true) :
    ∃ status ∈ (w.step a).closing x.other id, .closed id status ∈ (w.step a).surfaced x := by
  have before : w.closeReached x id = true →
      ∃ status ∈ (w.step a).closing x.other id, .closed id status ∈ (w.step a).surfaced x := by
    intro old
    obtain ⟨status,member,event⟩ := valid.heard x id old
    exact ⟨status,w.closing_mono a member,w.surfaced_mono a event⟩
  rcases closeReached_cases reached with old | ⟨n,status,s,rfl,sent,held⟩
  · exact before old
  · cases again : s.closeReceived with
    | true => exact before (valid.received x id s held again)
    | false =>
      refine ⟨status,w.closing_mono _ (valid.frames _ id status (List.mem_of_getElem? sent)),?_⟩
      have here : (w.link.mux x).streams[id]? = some s := held
      refine List.mem_append_right _ ?_
      simp [step,Link.step,note,act,sent,Link.receive,setMux,setFlight,StreamMux.onFrame,StreamMux.onClose,here,again,
        StreamMux.push]

theorem Valid.after_acked (valid : w.Valid) {a : Action} (first : w.closeFirst a = true) (x : Side) (id : Nat)
    {t : StreamState} (here : (w.step a).link.stream x id = some t) (acked : t.finAcked = true) :
    (w.step a).closeReached x.other id = true := by
  refine w.closeReached_mono a ?_
  rcases valid.stream_cases here with ⟨s,held,evolves⟩ | ⟨_,_,_,rfl⟩
  · rcases evolves.finAcked (valid.safe.lanes id) held acked with
      old | ⟨y,m,now,welcome,k,ack,window,peer,happened,sent,fin,gone,all⟩
    · exact valid.acked x id s held old
    · obtain ⟨n,frame,rfl,there,same,mine⟩ := event_deliver happened
      rw [sent] at same
      cases same
      cases beq_iff_eq.mp mine
      subst peer
      rw [Side.other_other]
      simpa [closeFirst,there,held,fin,gone,all] using first
  · cases acked

theorem Valid.after_gone (valid : w.Valid) {a : Action} (first : w.closeFirst a = true) (x : Side) (id : Nat)
    (born : (w.step a).link.born x id = true) (absent : (w.step a).link.stream x id = none) :
    (w.step a).closeReached x.other id = true := by
  refine w.closeReached_mono a ?_
  have flow := valid.safe.flow x id
  rcases (valid.touch a id x).gone absent with ⟨before,same,_⟩ | ⟨now,s,happened,held,_,retired⟩
  · exact valid.gone x id (same.symm.trans born) before
  · have live := (valid.graceful id x).live s held
    have done := StreamMux.fullyDone_of_retired live retired
    obtain ⟨_,either⟩ := (StreamState.transmit_done (flow.sending s held) (flow.paced s held) live
      ((valid.graceful id x).waiting s held) now).2 done
    rcases either with ⟨acked,_⟩ | ended
    · exact valid.acked x id s held acked
    · cases event_poll happened
      have member := Std.TreeMap.mem_toList_iff_getElem?_eq_some.mpr (show (w.link.mux x).streams[id]? = some s from held)
      have ready := List.all_eq_true.mp first _ member
      rw [ended] at ready
      exact ready

theorem Valid.after_step (valid : w.Valid) {a : Action} (ok : w.guarded a) : (w.step a).Valid := by
  obtain ⟨calm,same,first⟩ := ok
  have safe := step_safe valid.safe a
  refine ⟨safe,fun id x => ?_,fun x id => ?_,fun x id closed => ?_,fun x id _ _ => valid.after_status a x id,
    fun x id _ => valid.after_frames a x id,fun x id _ => valid.after_received a x id,valid.after_heard a,
    fun x id _ => valid.after_acked first x id,valid.after_gone first⟩
  · have kept := Lane.step_graceful (valid.safe.lanes id) (valid.graceful id) (event_fresh valid.safe a id)
      (event_calm calm id) x
    rw [← lane_step valid.safe.keyed a id] at kept
    exact kept
  · rcases w.closing_cases a x id with old | ⟨status,_,rfl,new⟩
    · rw [old]
      exact valid.agreed x id
    · have all : ∀ given ∈ w.closing x id ++ [status], given = status := by
        intro given member
        rcases List.mem_append.mp member with before | here
        · exact beq_iff_eq.mp (List.all_eq_true.mp same given before)
        · exact List.mem_singleton.mp here
      rw [new]
      exact fun one member two other => (all one member).trans (all two other).symm
  · rcases w.closing_cases a x id with old | ⟨_,held,_,_⟩
    · rw [old] at closed
      exact step_born _ a (valid.held x id closed)
    · obtain ⟨s,present⟩ := Option.isSome_iff_exists.mp held
      exact step_born _ a (valid.safe.keyed x id s present).2

theorem start_valid : start.Valid := by
  refine ⟨start_safe,start_graceful,fun _ _ _ => nofun,fun _ _ none => absurd rfl none,fun x id s status held => ?_,
    fun _ _ _ => nofun,fun x id s held => ?_,fun _ _ => nofun,fun x id s held => ?_,fun _ _ => nofun⟩
  all_goals
    simp [start,Link.start,stream,StreamMux.new] at held

end Watched

/-- In every run without resets in which a stream is closed with one status, and in which a
StreamClose reaches the peer before all the data is acknowledged and before the grace window
ends, no status is lost. -/
theorem close_status_kept (schedule : List Link.Action)
    (guarded : Machine.Along Watched.step Watched.guarded schedule Watched.start) (x : Side) (id : Nat) :
    (Machine.run Watched.step schedule Watched.start).StatusKept x id :=
  (Machine.run_invariant Watched.Valid (fun _ _ valid ok => valid.after_step ok) schedule _
    Watched.start_valid guarded).statusKept x id

namespace Watched

open Link

/-- A stream of one byte is closed with status 7. Its data and its close arrive in two
datagrams. -/
def exits : List Action :=
  [.openStream .client .exec [],.write .client 0 [1],.close .client 0 7,.poll .client,.deliver .client 0,.deliver .client 0]

/-- The close is delivered before the peer's ack comes back. -/
def toldFirst : List Action := exits ++ [.deliver .client 1,.poll .server,.deliver .server 0]

/-- The close is lost, and the peer's ack of the data comes back. -/
def closeLost : List Action := exits ++ [.lose .client 1,.poll .server,.deliver .server 0]

end Watched

instance (w : Watched) (a : Link.Action) : Decidable (w.guarded a) := inferInstanceAs (Decidable (_ ∧ _ ∧ _))

theorem close_status_kept_toldFirst :
    (Machine.run Watched.step Watched.toldFirst Watched.start).closing .client 0 = [7] ∧
    (Machine.run Watched.step Watched.toldFirst Watched.start).StatusKept .client 0 :=
  ⟨by decide +kernel,close_status_kept Watched.toldFirst (by decide +kernel) .client 0⟩

theorem close_status_lost : ¬∀ (schedule : List Link.Action) (x : Side) (id : Nat),
    Machine.Along Watched.step (fun w a => Link.calm a = true ∧ w.sameStatus a = true) schedule Watched.start →
      (Machine.run Watched.step schedule Watched.start).StatusKept x id := by
  intro claim
  have kept := claim Watched.closeLost .client 0 (by decide +kernel)
  have acked : ((Machine.run Watched.step Watched.closeLost Watched.start).link.stream .client 0).map (·.finAcked) =
      some true := by decide +kernel
  obtain ⟨s,held,done⟩ := Option.map_eq_some_iff.mp acked
  have told := kept 7 (by decide +kernel) (fun t same => by
    rw [held] at same
    cases same
    exact done)
  exact absurd told (by decide +kernel)

end Noissh

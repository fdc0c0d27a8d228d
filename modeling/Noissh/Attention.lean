import Noissh.Notice

/-! What an application may conclude from its end of a stream when it looks at its events
first: an end that is gone was reset or has heard of the peer's end, and an end that the peer
closes and resets in one go is never heard of. -/
namespace Noissh
namespace Lane

variable {id : Nat} {v : Lane}

/-- The side has shown no end: what it has closed it resets before it sends again, nothing in
flight tells of an end, and the peer has heard of none. -/
structure Silent (v : Lane) (y : Side) : Prop where
  unclosed : ∀ s, (v y).stream = some s → s.reset = false → s.sendFin = false ∧ s.closeStatus = none
  untold : ∀ f ∈ (v y).flight, f.tells = false
  unheard : ∀ s, (v y.other).stream = some s → s.peerFin = .opened ∧ s.closeReceived = false

theorem Silent.unclosed_step (safe : Safe id v) {y : Side} (silent : Silent v y) {e : Event} (fresh : Fresh id v e)
    (quiet : ∀ status, e ≠ .close y status) {t : StreamState} (here : (v.step id e y).stream = some t)
    (live : t.reset = false) : t.sendFin = false ∧ t.closeStatus = none := by
  rcases step_evolves safe fresh here with ⟨s,held,evolves⟩ | ⟨_,_,_,_,rfl,_⟩
  · have ends := evolves.ends safe held
    rcases ends.status with ⟨closeStatus,sendFin⟩ | ⟨status,called,_⟩
    · rw [closeStatus,sendFin]
      refine silent.unclosed s held ?_
      rcases ends.resets with same | ⟨_,gone⟩
      · exact same.symm.trans live
      · cases live.symm.trans gone
    · exact absurd called (quiet status)
  · exact ⟨rfl,rfl⟩

theorem Silent.untold_step (safe : Safe id v) {y : Side} (silent : Silent v y) (e : Event) :
    ∀ f ∈ (v.step id e y).flight, f.tells = false := by
  intro f member
  rcases (step_touch id v e y).emits safe member with old | ⟨now,s,rfl,held,⟨_,rfl⟩ | ⟨live,emits⟩⟩
  · exact silent.untold f old
  · rfl
  · obtain ⟨sendFin,closeStatus⟩ := silent.unclosed s held live
    cases emits with
    | opening => rfl
    | @data _ _ fin _ _ _ marked =>
      cases fin with
      | false => rfl
      | true =>
        rw [(marked rfl).1] at sendFin
        cases sendFin
    | ack => rfl
    | close present =>
      rw [present] at closeStatus
      cases closeStatus

theorem Silent.unheard_step (safe : Safe id v) {y : Side} (silent : Silent v y) {e : Event} (fresh : Fresh id v e)
    {t : StreamState} (here : (v.step id e y.other).stream = some t) : t.peerFin = .opened ∧ t.closeReceived = false := by
  have flow := safe.flowing y.other
  rcases step_evolves safe fresh here with ⟨s,held,evolves⟩ | ⟨_,_,_,_,rfl,_⟩
  · have old := silent.unheard s held
    have sent : ∀ {x : Side} {n : Nat} {f : Frame}, x.other = y.other → (v x).flight[n]? = some f → f.tells = false := by
      intro x n f across there
      have same : x = y := by rw [← Side.other_other x,across,Side.other_other]
      rw [same] at there
      exact silent.untold f (List.mem_of_getElem? there)
    cases evolves with
    | same => exact silent.unheard t held
    | @poll now _ before _ =>
      obtain ⟨_,_,kept,_⟩ := StreamState.transmit_spec (flow.sending s held) (flow.paced s held) before now
      rw [kept.peerFin,kept.closeReceived]
      exact old
    | @data _ _ _ _ _ offset data fin _ across there =>
      have plain : fin = false := sent across there
      rw [StreamState.onData_eq,plain]
      simpa using old
    | @ack _ _ now _ _ ack window _ _ =>
      obtain ⟨_,_,_,_,_,_,_,_,_,_,_,eq⟩ := s.onAck_eq ack window now
      rw [eq]
      exact old
    | closed across there => cases sent across there
    | _ => exact old
  · exact ⟨rfl,rfl⟩

theorem step_silent (safe : Safe id v) {y : Side} (silent : Silent v y) {e : Event} (fresh : Fresh id v e)
    (quiet : ∀ status, e ≠ .close y status) : Silent (v.step id e) y where
  unclosed _ here live := silent.unclosed_step safe fresh quiet here live
  untold := silent.untold_step safe e
  unheard _ here := silent.unheard_step safe fresh here

/-- A close that is followed by a reset is not heard of. -/
theorem Silent.abandon {y : Side} (silent : Silent v y) (status : Int) :
    Silent ((v.step id (.close y status)).step id (.reset y)) y := by
  have mine : (v.step id (.close y status)).step id (.reset y) y = ((v y).close status).reset := by
    simp only [step,onSide_same]
  have other : (v.step id (.close y status)).step id (.reset y) y.other = v y.other := by
    simp only [step,onSide_other]
  constructor
  · intro s here live
    rw [mine] at here
    simp only [Endpoint.reset,Option.map_eq_some_iff] at here
    obtain ⟨_,_,rfl⟩ := here
    cases live
  · intro f member
    rw [mine] at member
    refine silent.untold f ?_
    unfold Endpoint.reset Endpoint.close at member
    cases held : (v y).stream <;> simpa [held] using member
  · rw [other]
    exact silent.unheard

/-- An end that is neither reset nor done lasts: it was not closed, or has not heard of the
peer's end. -/
theorem poll_lasts (safe : Safe id v) {x : Side} {s : StreamState} (held : (v x).stream = some s) (live : s.reset = false)
    (lasting : (v x).closedAt = none ∨ Silent v x.other) (now : Nat) : (StreamMux.pollStream now id s).1 ≠ none := by
  have flow := safe.flowing x
  obtain ⟨_,_,kept,_⟩ := StreamState.transmit_spec (flow.sending s held) (flow.paced s held) live now
  have running : (s.transmit now).1.fullyDone = false := by
    unfold StreamState.fullyDone
    rcases lasting with unclosed | silent
    · have sendFin : s.sendFin = false := by
        by_contra closing
        exact flow.fin s held (by simpa using closing) unclosed
      rw [kept.sendFin,sendFin]
      rfl
    · obtain ⟨peerFin,closeReceived⟩ := silent.unheard s (by rw [Side.other_other]; exact held)
      unfold StreamState.recvFinished StreamState.graceOver
      rw [kept.peerFin,peerFin,kept.closeReceived,closeReceived]
      simp
  simp [StreamMux.pollStream,live,running]

/-- What a side opens a stream with. -/
structure Labelled (id : Nat) (kind : StreamKind) (metadata : Bytes) (v : Lane) (y : Side) : Prop where
  born : (v y).born = true
  owed : ∀ s, (v y).stream = some s → s.needsOpen = true → s.kind = kind ∧ s.metadata = metadata
  sent : ∀ kind' metadata', .streamOpen id kind' metadata' ∈ (v y).flight → kind' = kind ∧ metadata' = metadata

theorem step_labelled (safe : Safe id v) {kind : StreamKind} {metadata : Bytes} {y : Side}
    (labelled : Labelled id kind metadata v y) {e : Event} (fresh : Fresh id v e) :
    Labelled id kind metadata (v.step id e) y := by
  have flow := safe.flowing y
  refine ⟨?_,fun t here owes => ?_,fun kind' metadata' member => ?_⟩
  · rw [(step_follows (fun x => (safe.life x).noted) e y).born,labelled.born]
    rfl
  · rcases step_evolves safe fresh here with ⟨s,held,evolves⟩ | ⟨unborn,_⟩
    · have old := labelled.owed s held
      cases evolves with
      | same => exact labelled.owed t held owes
      | @poll now _ before _ =>
        obtain ⟨_,_,_,opened,_⟩ := StreamState.transmit_spec (flow.sending s held) (flow.paced s held) before now
        rw [opened] at owes
        cases owes
      | data => rw [StreamState.onData_eq] at owes ⊢; exact old owes
      | @ack _ _ now _ _ ack window _ _ =>
        obtain ⟨_,_,_,_,_,_,_,_,_,_,_,eq⟩ := s.onAck_eq ack window now
        rw [eq] at owes ⊢
        exact old owes
      | _ => exact old owes
    · rw [labelled.born] at unborn
      cases unborn
  · rcases (step_touch id v e y).emits safe member with old | ⟨now,s,rfl,held,⟨_,isReset⟩ | ⟨_,emits⟩⟩
    · exact labelled.sent _ _ old
    · cases isReset
    · cases emits with
      | opening owes => exact labelled.owed s held owes

end Lane

namespace Link

variable {l : Link} {x : Side} {k : Nat}

def Silent (l : Link) (y : Side) (k : Nat) : Prop := Lane.Silent (l.lane k) y

theorem step_silent (safe : l.Safe) (silent : l.Silent x k) {a : Action} (quiet : ∀ status, a ≠ .close x k status) :
    (l.step a).Silent x k := by
  unfold Silent
  rw [lane_step safe.keyed a k]
  refine Lane.step_silent (safe.lanes k) silent (event_fresh safe a k) (fun status closes => ?_)
  exact quiet status (event_close closes)

theorem Silent.abandon (safe : l.Safe) (silent : l.Silent x k) (status : Int) :
    ((l.step (.close x k status)).step (.reset x k)).Silent x k := by
  have first : l.event k (.close x k status) = .close x status := if_pos rfl
  have second : (l.step (.close x k status)).event k (.reset x k) = .reset x := if_pos rfl
  unfold Silent
  rw [lane_step (step_keyed safe.keyed _),lane_step safe.keyed,first,second]
  exact Lane.Silent.abandon silent status

/-- The side's end of the stream is there and not reset, unless a reset is still to be handled. -/
def Awake (l : Link) (x : Side) (k : Nat) (pending : List StreamEvent) : Prop :=
  .reset k ∈ pending ∨ ∃ s, l.stream x k = some s ∧ s.reset = false

/-- An end stays unless it is reset from either side, or retired by a poll. -/
theorem step_held (safe : l.Safe) {s : StreamState} (held : l.stream x k = some s) (live : s.reset = false) {a : Action}
    (calm : a ≠ .reset x k) (lasting : a = .poll x → l.closedAt x k = none ∨ l.Silent x.other k) :
    (∃ n, a = .deliver x.other n ∧ (l.flight x.other)[n]? = some (.streamReset k)) ∨
    ∃ t, (l.step a).stream x k = some t ∧ t.reset = false := by
  have lane := lane_step safe.keyed a k
  cases after : (l.step a).stream x k with
  | none =>
    have touched := Lane.step_touch k (l.lane k) (l.event k a) x
    rw [← lane] at touched
    rcases touched.gone after with ⟨absent,_⟩ | ⟨now,s',polls,there,_,retired⟩
    · rw [show (l.lane k x).stream = some s from held] at absent
      cases absent
    · obtain rfl : s = s' := Option.some.inj (held.symm.trans there)
      exact absurd retired (Lane.poll_lasts (safe.lanes k) held live (lasting (event_poll polls)) now)
  | some t =>
    have there : ((l.lane k).step k (l.event k a) x).stream = some t := by
      rw [← lane]
      exact after
    suffices (∃ n, a = .deliver x.other n ∧ (l.flight x.other)[n]? = some (.streamReset k)) ∨ t.reset = false from
      this.imp id (fun live => ⟨t,rfl,live⟩)
    rcases Lane.step_evolves (safe.lanes k) (event_fresh safe a k) there with ⟨s',old,evolves⟩ | ⟨_,_,_,_,rfl,_⟩
    · obtain rfl : s = s' := Option.some.inj (held.symm.trans old)
      rcases (evolves.ends (safe.lanes k) held).resets with
        same | ⟨called | ⟨y,n,_,_,j,across,delivered,sent⟩,_⟩
      · exact .inr (same.trans live)
      · exact absurd (event_reset called) calm
      · have same : y = x.other := by rw [← across,Side.other_other]
        subst same
        obtain ⟨m,frame,rfl,here,there,mine⟩ := event_deliver delivered
        obtain rfl : frame = .streamReset j := Option.some.inj (there.symm.trans sent)
        simp only [Frame.names,Frame.streamId,beq_iff_eq,Option.some.injEq] at mine
        rw [mine] at here
        exact .inl ⟨m,rfl,here⟩
    · exact .inr rfl

/-- A reset that reaches an end is the last of its events. -/
theorem deliver_reset {n : Nat} (here : (l.flight x.other)[n]? = some (.streamReset k)) {s : StreamState}
    (held : l.stream x k = some s) : ((l.step (.deliver x.other n)).mux x).events = (l.mux x).events ++ [.reset k] := by
  have present : (l.mux x).streams[k]? = some s := held
  have mux : (l.step (.deliver x.other n)).mux x = (l.mux x).onFrame (.streamReset k) := by
    simp [step,note,act,here,receive,setMux,setFlight]
  rw [mux]
  simp [StreamMux.onFrame,StreamMux.onReset,present,StreamMux.push]

/-- Between its passes an application's events are those of its multiplexer, and whatever is new
among them comes last. -/
theorem Awake.step (safe : l.Safe) {first rest : List StreamEvent} (split : (l.mux x).events = first ++ rest)
    (awake : l.Awake x k rest) {a : Action} (kept : takesAt x a = false) (calm : a ≠ .reset x k)
    (lasting : a = .poll x → l.closedAt x k = none ∨ l.Silent x.other k) {rest' : List StreamEvent}
    (split' : ((l.step a).mux x).events = first ++ rest') : (l.step a).Awake x k rest' := by
  have grown : rest <+: rest' := by
    rcases l.step_events kept with same | ⟨_,_,fresh,_,_,_,events,_⟩
    · rw [split',split] at same
      exact List.append_cancel_left same ▸ List.prefix_refl _
    · rw [split',split,List.append_assoc] at events
      rw [List.append_cancel_left events]
      exact List.prefix_append _ _
  rcases awake with announced | ⟨s,held,live⟩
  · exact .inl (grown.subset announced)
  · rcases step_held safe held live calm lasting with ⟨n,rfl,here⟩ | still
    · have events := deliver_reset here held
      rw [split',split,List.append_assoc] at events
      rw [List.append_cancel_left events]
      exact .inl (List.mem_append_right _ (.head _))
    · exact .inr still

/-- While an application handles its events nothing arrives. -/
theorem Awake.keep (safe : l.Safe) {pending : List StreamEvent} (awake : l.Awake x k pending) {a : Action}
    (calm : a ≠ .reset x k) (unpolled : a ≠ .poll x) (still : ∀ n, a ≠ .deliver x.other n) :
    (l.step a).Awake x k pending := by
  rcases awake with announced | ⟨s,held,live⟩
  · exact .inl announced
  · rcases step_held safe held live calm (fun polls => absurd polls unpolled) with ⟨n,delivers,_⟩ | held
    · exact absurd delivers (still n)
    · exact .inr held

/-- Whoever has seen that no reset is pending has the stream. -/
theorem Awake.held {pending : List StreamEvent} (awake : l.Awake x k pending) (none : .reset k ∉ pending) :
    ∃ s, l.stream x k = some s ∧ s.reset = false := awake.resolve_left none

theorem step_labelled (safe : l.Safe) {kind : StreamKind} {metadata : Bytes}
    (labelled : Lane.Labelled k kind metadata (l.lane k) x) (a : Action) :
    Lane.Labelled k kind metadata ((l.step a).lane k) x := by
  rw [lane_step safe.keyed a k]
  exact Lane.step_labelled (safe.lanes k) labelled (event_fresh safe a k)

end Link
end Noissh

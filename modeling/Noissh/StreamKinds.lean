import Noissh.Calls

/-! The kind of a stream never changes, and both ends agree on it: which streams are commands'
is settled when they are opened. -/
namespace Noissh

theorem StreamState.transmit_kind (s : StreamState) (now : Nat) : (s.transmit now).1.kind = s.kind := by
  have data : ∀ s : StreamState, (s.transmitData now).1.kind = s.kind := by
    intro s
    unfold transmitData emitRange onRto
    dsimp only
    repeat' split
    all_goals rfl
  have count : ∀ s : StreamState, s.countClose.kind = s.kind := by
    intro s
    unfold countClose
    split <;> rfl
  have opening : s.transmitOpen.1.kind = s.kind := by
    unfold transmitOpen
    split <;> rfl
  unfold transmit
  split
  · rfl
  · exact (count _).trans ((data _).trans opening)

namespace Lane

variable {id : Nat} {v : Lane}

theorem Evolves.kind {y : Side} {e : Event} {s t : StreamState} (evolves : Evolves v y e s t) : t.kind = s.kind := by
  cases evolves with
  | poll => exact StreamState.transmit_kind _ _
  | data => rw [StreamState.onData_eq]
  | @ack _ _ now _ _ ack window _ _ =>
    obtain ⟨_,_,_,_,_,_,_,_,_,_,_,eq⟩ := s.onAck_eq ack window now
    rw [eq]
  | _ => rfl

/-- Both ends of the stream, and its StreamOpen in flight, are of a right kind. -/
def Kinded (right : StreamKind → Prop) (v : Lane) : Prop :=
  ∀ y, (∀ s, (v y).stream = some s → right s.kind) ∧
    ∀ k kind metadata, .streamOpen k kind metadata ∈ (v y).flight → right kind

/-- A side that had no end gets one by its own opening or by the other side's StreamOpen. -/
theorem Touch.birth {y : Side} {e : Event} {e' : Endpoint} (touched : Touch id v y e e') (absent : (v y).stream = none)
    {t : StreamState} (here : e'.stream = some t) :
    (∃ metadata, e = .openStream y t.kind metadata) ∨ ∃ x k metadata, .streamOpen k t.kind metadata ∈ (v x).flight := by
  cases touched with
  | openStream =>
    cases here
    exact .inl ⟨_,rfl⟩
  | @receive x _ _ _ frame _ sent =>
    cases frame with
    | streamOpen k kind metadata =>
      simp only [Endpoint.receive] at here
      split at here
      · cases here
        exact .inr ⟨x,k,metadata,List.mem_of_getElem? sent⟩
      · rw [absent] at here
        cases here
    | _ => simp [Endpoint.receive,absent] at here
  | _ => simp [absent,Endpoint.write,Endpoint.read,Endpoint.close,Endpoint.reset,Endpoint.poll,Endpoint.erase] at here

theorem step_kinded {right : StreamKind → Prop} (safe : Safe id v) (kinded : Kinded right v) {e : Event}
    (fresh : Fresh id v e) (opening : ∀ x kind metadata, e = .openStream x kind metadata → right kind) :
    Kinded right (v.step id e) := by
  intro y
  have touched := step_touch id v e y
  refine ⟨fun t here => ?_,fun k kind metadata member => ?_⟩
  · cases held : (v y).stream with
    | none =>
      rcases touched.birth held here with ⟨metadata,opened⟩ | ⟨x,k,metadata,sent⟩
      · exact opening y _ metadata opened
      · exact (kinded x).2 k _ metadata sent
    | some s =>
      rcases step_evolves safe fresh here with ⟨s',held',evolves⟩ | ⟨unborn,_⟩
      · rw [evolves.kind]
        exact (kinded y).1 s' held'
      · rw [(safe.life y).absent unborn] at held
        cases held
  · rcases touched.emits safe member with old | ⟨now,s,_,held,⟨_,isReset⟩ | ⟨_,emits⟩⟩
    · exact (kinded y).2 k kind metadata old
    · cases isReset
    · cases emits
      exact (kinded y).1 s held

end Lane

namespace Link

/-- The streams of commands are those of `exec`, and what is told of streams agrees with it. -/
structure Sorted (exec : Nat → Prop) (l : Link) : Prop where
  lanes : ∀ k, Lane.Kinded (fun kind => kind = .exec ↔ exec k) (l.lane k)
  events : ∀ y k kind metadata, .opened k kind metadata ∈ (l.mux y).events → (kind = .exec ↔ exec k)

variable {exec : Nat → Prop} {l : Link}

theorem Sorted.step (safe : l.Safe) (sorted : l.Sorted exec) {a : Action}
    (opening : ∀ y kind metadata, a = .openStream y kind metadata → (kind = .exec ↔ exec (l.mux y).nextLocalId)) :
    (l.step a).Sorted exec := by
  refine ⟨fun k => ?_,fun y k kind metadata member => ?_⟩
  · rw [lane_step safe.keyed a k]
    refine Lane.step_kinded (safe.lanes k) (sorted.lanes k) (event_fresh safe a k) (fun x kind metadata opened => ?_)
    cases a with
    | openStream y kind' metadata' =>
      simp only [event] at opened
      split at opened
      · rename_i here
        cases opened
        rw [← here]
        exact opening _ _ _ rfl
      · cases opened
    | _ =>
      simp only [event] at opened
      repeat' split at opened
      all_goals cases opened
  · cases takes : takesAt y a with
    | true =>
      cases a with
      | takeEvents z =>
        obtain rfl : z = y := by simpa [takesAt] using takes
        have none : ((l.step (.takeEvents z)).mux z).events = [] := by
          simp [Link.step,note,act,setMux,StreamMux.takeEvents]
        rw [none] at member
        cases member
      | _ => cases takes
    | false =>
      rcases l.step_events takes with same | ⟨n,frame,new,rfl,sent,_,events,raises⟩
      · exact sorted.events y k kind metadata (by rw [← same]; exact member)
      · rw [events,List.mem_append] at member
        rcases member with old | raised
        · exact sorted.events y k kind metadata old
        · cases raises with
          | opened =>
            cases List.mem_singleton.mp raised
            refine ((sorted.lanes k) y.other).2 k kind metadata (List.mem_filter.mpr ⟨sent,?_⟩)
            simp [Frame.names,Frame.streamId]
          | none | readable | closed | reset => simp at raised

/-- A stream that does not exist yet may be of either kind. -/
theorem Sorted.grow (safe : l.Safe) (sorted : l.Sorted exec) {id : Nat} (unborn : ∀ y, l.born y id = false)
    (untold : ∀ y, (l.mux y).events.any (StreamEvent.opens id) = false) : l.Sorted (fun k => exec k ∨ k = id) := by
  refine ⟨fun k y => ?_,fun y k kind metadata member => ?_⟩
  · by_cases same : k = id
    · subst same
      have life := (safe.lanes k).life y
      refine ⟨fun s held => ?_,fun j kind metadata member => ?_⟩
      · rw [life.absent (unborn y)] at held
        cases held
      · rw [life.quiet (unborn y)] at member
        cases member
    · simpa [same] using sorted.lanes k y
  · have other : k ≠ id := by
      rintro rfl
      have told := StreamEvent.any_opens member
      rw [untold y] at told
      cases told
    simpa [other] using sorted.events y k kind metadata member

end Link
end Noissh

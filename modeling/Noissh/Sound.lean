import Noissh.FinAck
import Noissh.Exchange

/-! What a stream keeps in a run without resets, late writes, lost StreamOpens and ended
grace windows: the peer of an opened stream hears of it, and an acknowledged FIN means
that every byte was acknowledged. -/
namespace Noissh
namespace Lane

variable {id : Nat} {v : Lane}

structure Sound (id : Nat) (v : Lane) : Prop where
  safe : Safe id v
  graceful : ∀ x, (v x).Graceful
  reclaimed : ∀ x, Reclaimed v x
  whole : ∀ x n, (v x).closedAt = some n → n = (v x).wrote.length
  fits : ∀ x, (v x).wrote.length ≤ u64Max
  linked : ∀ x s, (v x).stream = some s → s.needsOpen = false → id % 2 = x.parity →
    (v x.other).born = true ∨ ∃ f ∈ (v x).flight, f.opens id = true
  answered : ∀ x, (v x).born = true → id % 2 ≠ x.parity → (v x.other).born = true
  acked : ∀ x s, (v x).stream = some s → s.finAcked = true →
    s.sendBase = s.sendNext ∧ s.sendFin = true ∧ (v x.other).born = true

/-- The events of such a run. -/
def Steady (v : Lane) : Event → Prop
  | .reset _ => False
  | .write x _ => (v x).closedAt = none
  | .poll x _ => ∀ s, (v x).stream = some s → s.graceEnds = false
  | .deliver x n _ welcome => ∀ k kind metadata, (v x).flight[n]? = some (.streamOpen k kind metadata) → welcome = true
  | .lose x n => ∀ k kind metadata, (v x).flight[n]? ≠ some (.streamOpen k kind metadata)
  | _ => True

/-- Neither a reset nor a write after the close. -/
def Orderly (v : Lane) : Event → Prop
  | .reset _ => False
  | .write x _ => (v x).closedAt = none
  | _ => True

theorem Steady.orderly {e : Event} (steady : Steady v e) : Orderly v e := by
  cases e <;> first | exact steady | trivial

theorem Steady.inGrace {e : Event} (steady : Steady v e) : InGrace v e := by
  cases e <;> first | exact steady | trivial

theorem Orderly.calm {e : Event} (ordered : Orderly v e) (x : Side) : e ≠ .reset x := by
  rintro rfl
  exact ordered

/-- A write is whole before the close, and it fits the counter. -/
theorem Touch.whole {y : Side} {e : Event} {e' : Endpoint} (touched : Touch id v y e e') (ordered : Orderly v e)
    (flow : Flowing id v y)
    (old : (∀ n, (v y).closedAt = some n → n = (v y).wrote.length) ∧ (v y).wrote.length ≤ u64Max) :
    (∀ n, e'.closedAt = some n → n = e'.wrote.length) ∧ e'.wrote.length ≤ u64Max := by
  cases touched with
  | @write data =>
    have open_ : (v y).closedAt = none := ordered
    unfold Endpoint.write
    split
    · rename_i s held
      split
      · rename_i room
        have next := (flow.sending s held).next
        refine ⟨fun n closed => ?_,by simp only [List.length_append]; omega⟩
        rw [show (v y).closedAt = some n from closed] at open_
        cases open_
      · exact old
    · exact old
  | read => unfold Endpoint.read; split <;> exact old
  | close =>
    unfold Endpoint.close
    split
    · refine ⟨fun n closed => ?_,old.2⟩
      cases before : (v y).closedAt with
      | none => rw [before] at closed; exact (Option.some.inj closed).symm
      | some m =>
        rw [before] at closed
        exact (Option.some.inj closed) ▸ old.1 m before
    · exact old
  | poll => unfold Endpoint.poll; split <;> exact old
  | receive => rw [Link.Receive.closedAt,Link.Receive.wrote]; exact old
  | _ => exact old

theorem born_mono (safe : Safe id v) (e : Event) {y : Side} (born : (v y).born = true) :
    (v.step id e y).born = true := by
  rw [(step_follows (fun x => (safe.life x).noted) e y).born,born]
  rfl

/-- A StreamOpen in flight stays there or brings the stream to life at the peer. -/
theorem opening_kept (safe : Safe id v) {x : Side} {f : Frame} (member : f ∈ (v x).flight) (isOpen : f.opens id = true)
    {e : Event} (steady : Steady v e) : (v.step id e x.other).born = true ∨ f ∈ (v.step id e x).flight := by
  have kept : ∀ n, (v x).flight[n]? ≠ some f → f ∈ (v x).flight.eraseIdx n := by
    intro n other
    obtain ⟨i,at_⟩ := List.mem_iff_getElem?.mp member
    refine List.mem_eraseIdx_iff_getElem?.mpr ⟨i,?_,at_⟩
    rintro rfl
    exact other at_
  have touched := step_touch id v e x
  generalize after : v.step id e x = e' at touched
  cases touched with
  | same => exact .inr member
  | openStream => exact .inr member
  | write =>
    refine .inr ?_
    unfold Endpoint.write
    split
    · split <;> exact member
    · exact member
  | read => refine .inr ?_; unfold Endpoint.read; split <;> exact member
  | close => refine .inr ?_; unfold Endpoint.close; split <;> exact member
  | reset => exact .inr member
  | poll =>
    refine .inr ?_
    unfold Endpoint.poll
    split
    · exact List.mem_append_left _ member
    · exact member
  | @sent n now welcome frame here =>
    by_cases same : frame = f
    · subst same
      refine .inl ?_
      cases frame with
      | streamOpen k kind metadata =>
        have room := steady k kind metadata here
        subst room
        simp only [step,here,onSide_same,onSide_other,Endpoint.receive]
        cases held : (v x.other).stream with
        | none => rfl
        | some s => simpa using ((safe.life x.other).noted s held).2
      | _ => cases isOpen
    · exact .inr (kept n (by rw [here]; simpa using same))
  | @lost n =>
    refine .inr (kept n (fun here => ?_))
    cases f with
    | streamOpen k kind metadata => exact steady k kind metadata here
    | _ => cases isOpen
  | receive => rw [Link.Receive.flight]; exact .inr member

/-- Whether a StreamOpen is owed changes only when it is sent. -/
theorem Evolves.needsOpen (safe : Safe id v) {y : Side} {e : Event} {s t : StreamState} (held : (v y).stream = some s)
    (evolves : Evolves v y e s t) : t.needsOpen = s.needsOpen ∨
      ∃ now, e = .poll y now ∧ s.reset = false ∧ t.needsOpen = false := by
  have flow := safe.flowing y
  cases evolves with
  | @poll now _ live _ =>
    obtain ⟨_,_,_,closed,_⟩ := StreamState.transmit_spec (flow.sending s held) (flow.paced s held) live now
    exact .inr ⟨now,rfl,live,closed⟩
  | data => rw [StreamState.onData_eq]; exact .inl rfl
  | @ack _ _ now _ _ ack window _ _ =>
    obtain ⟨_,_,_,_,_,_,_,_,_,_,_,eq⟩ := s.onAck_eq ack window now
    rw [eq]
    exact .inl rfl
  | _ => exact .inl rfl

theorem step_linked (sound : Sound id v) {e : Event} (fresh : Fresh id v e) (steady : Steady v e) {x : Side}
    {t : StreamState} (here : (v.step id e x).stream = some t) (opened : t.needsOpen = false)
    (parity : id % 2 = x.parity) :
    (v.step id e x.other).born = true ∨ ∃ f ∈ (v.step id e x).flight, f.opens id = true := by
  have safe := sound.safe
  rcases step_evolves safe fresh here with ⟨s,held,evolves⟩ | ⟨_,_,_,_,rfl,⟨_,owed⟩ | ⟨other,_⟩⟩
  · cases owed : s.needsOpen with
    | false =>
      rcases sound.linked x s held owed parity with born | ⟨f,member,isOpen⟩
      · exact .inl (born_mono safe e born)
      · exact (opening_kept safe member isOpen steady).imp (fun born => born) (fun kept => ⟨f,kept,isOpen⟩)
    | true =>
      rcases evolves.needsOpen safe held with same | ⟨now,rfl,live,_⟩
      · rw [same,owed] at opened; cases opened
      · have own := ((safe.life x).noted s held).1
        have sent := StreamState.transmit_opens s now id
        rw [if_pos ⟨live,owed,own⟩] at sent
        have member : Frame.streamOpen s.id s.kind s.metadata ∈ (s.transmit now).2 ∧
            Frame.opens id (.streamOpen s.id s.kind s.metadata) = true :=
          List.mem_filter.mp (by rw [sent]; exact .head _)
        refine .inr ⟨_,?_,member.2⟩
        simp only [step,onSide_same,Endpoint.poll,held,StreamMux.pollStream,live,Bool.false_eq_true,if_false]
        exact List.mem_append_right _ member.1
  · rw [show (StreamState.new id _ _ _).needsOpen = _ from rfl,owed] at opened; cases opened
  · have := x.parity_other
    have := x.parity_lt
    omega

theorem step_answered (sound : Sound id v) {e : Event} (fresh : Fresh id v e) {x : Side}
    (born : (v.step id e x).born = true) (parity : id % 2 ≠ x.parity) : (v.step id e x.other).born = true := by
  have safe := sound.safe
  refine born_mono safe e ?_
  cases before : (v x).born with
  | true => exact sound.answered x before parity
  | false =>
    rw [(step_follows (fun y => (safe.life y).noted) e x).born,before,Bool.false_or] at born
    obtain ⟨t,here⟩ := Option.isSome_iff_exists.mp born
    rcases step_evolves safe fresh here with ⟨s,held,_⟩ | ⟨_,_,_,_,_,⟨same,_⟩ | ⟨_,linked⟩⟩
    · rw [((safe.life x).noted s held).2] at before; cases before
    · exact absurd same parity
    · exact linked

/-- Every byte of a stream whose FIN is acked has been acked. -/
def AckedWhole (v : Lane) (x : Side) : Prop :=
  ∀ s, (v x).stream = some s → s.finAcked = true → s.sendBase = s.sendNext ∧ s.sendFin = true

theorem step_ackedWhole (safe : Safe id v) {e : Event} (fresh : Fresh id v e) (ordered : Orderly v e) {x : Side}
    (whole : AckedWhole v x) : AckedWhole (v.step id e) x := by
  intro t here acked
  have flow := safe.flowing x
  rcases step_evolves safe fresh here with ⟨s,held,evolves⟩ | ⟨_,_,_,_,rfl,_⟩
  · have sending := flow.sending s held
    have length : s.sendBuf.length = s.sendNext - s.sendBase := by rw [sending.buf,List.length_drop,sending.next]
    have low := sending.low
    have high := sending.high
    have before := evolves.finAcked safe held acked
    cases evolves with
    | @ack _ _ now _ _ ack window _ _ =>
      rcases Nat.lt_or_ge s.sendNext ack with beyond | known
      · rw [StreamState.onAck_ignored s ack window now beyond] at acked ⊢
        exact whole s held acked
      · have step := StreamState.onAck_step s ack window now known low
        rw [step.base,step.next,step.sendFin]
        rcases step.finAcked.mp acked with old | ⟨fin,_,all⟩
        · exact ⟨by have := (whole s held old).1; omega,(whole s held old).2⟩
        · exact ⟨by omega,fin⟩
    | write =>
      have closed := (whole _ held (before.resolve_right (by rintro ⟨_,_,_,_,_,_,_,_,impossible,_⟩; cases impossible))).2
      exact absurd (show (v x).closedAt = none from ordered) (flow.fin _ held closed)
    | close => exact ⟨(whole s held acked).1,rfl⟩
    | @poll now _ live _ =>
      obtain ⟨_,_,kept,_⟩ := StreamState.transmit_spec sending (flow.paced s held) live now
      rw [kept.finAcked] at acked
      rw [kept.base,kept.next,kept.sendFin]
      exact whole s held acked
    | data =>
      rw [StreamState.onData_eq] at acked ⊢
      exact whole s held acked
    | same => exact whole t held acked
    | _ => exact whole s held acked
  · cases acked

theorem step_acked (sound : Sound id v) {e : Event} (fresh : Fresh id v e) (steady : Steady v e) {x : Side}
    {t : StreamState} (here : (v.step id e x).stream = some t) (acked : t.finAcked = true) :
    t.sendBase = t.sendNext ∧ t.sendFin = true ∧ (v.step id e x.other).born = true := by
  have safe := sound.safe
  obtain ⟨base,fin⟩ := step_ackedWhole safe fresh steady.orderly
    (fun s held acked => ⟨(sound.acked x s held acked).1,(sound.acked x s held acked).2.1⟩) t here acked
  refine ⟨base,fin,born_mono safe e ?_⟩
  rcases step_evolves safe fresh here with ⟨s,held,evolves⟩ | ⟨_,_,_,_,rfl,_⟩
  · rcases evolves.finAcked safe held acked with old | ⟨z,n,_,_,_,_,_,peer,_,sent,_⟩
    · exact (sound.acked x s held old).2.2
    · have side : z = x.other := by rw [← peer,Side.other_other]
      subst side
      cases born : (v x.other).born with
      | true => rfl
      | false => rw [(safe.life x.other).quiet born] at sent; cases sent
  · cases acked

theorem step_sound (sound : Sound id v) {e : Event} (fresh : Fresh id v e) (steady : Steady v e) :
    Sound id (v.step id e) where
  safe := step_safe sound.safe e fresh
  graceful := step_graceful sound.safe sound.graceful fresh steady.orderly.calm
  reclaimed := step_reclaimed sound.safe sound.graceful sound.reclaimed steady.inGrace
  whole x := ((step_touch id v e x).whole steady.orderly (sound.safe.flowing x) ⟨sound.whole x,sound.fits x⟩).1
  fits x := ((step_touch id v e x).whole steady.orderly (sound.safe.flowing x) ⟨sound.whole x,sound.fits x⟩).2
  linked _ _ here opened parity := step_linked sound fresh steady here opened parity
  answered _ born parity := step_answered sound fresh born parity
  acked _ _ here acked := step_acked sound fresh steady here acked

end Lane

namespace Link

/-- The action loses no StreamOpen. -/
def keepsOpens (l : Link) : Action → Bool
  | .lose x n =>
    match (l.flight x)[n]? with
    | some (.streamOpen _ _ _) => false
    | _ => true
  | _ => true

def steady (l : Link) (a : Action) : Bool := l.roomy && l.orderly a && l.inGrace a && l.keepsOpens a

theorem steady_lane {l : Link} (safe : l.Safe) {a : Action} (ok : l.steady a = true) (id : Nat) :
    Lane.Steady (l.lane id) (l.event id a) := by
  simp only [steady,Bool.and_eq_true] at ok
  obtain ⟨⟨⟨room,ordered⟩,grace⟩,kept⟩ := ok
  cases a with
  | openStream x kind metadata => simp only [event]; split <;> trivial
  | write x k data =>
    simp only [event]
    split
    · rename_i mine
      subst mine
      exact Option.isNone_iff_eq_none.mp ordered
    · trivial
  | read x k => simp only [event]; split <;> trivial
  | close x k status => simp only [event]; split <;> trivial
  | reset x k => cases ordered
  | takeEvents x => trivial
  | poll x => exact inGrace_lane (a := .poll x) grace id
  | deliver x n =>
    simp only [event]
    split
    · split
      · exact fun k kind metadata here => admits_opening safe room (List.mem_of_getElem? here)
      · trivial
    · trivial
  | lose x n =>
    simp only [event]
    cases here : (l.flight x)[n]? with
    | none => trivial
    | some frame =>
      dsimp only
      split
      · rename_i mine
        intro k kind metadata sent
        have same : some frame = some (.streamOpen k kind metadata) :=
          (Multiplex.getElem?_filter_rank here mine).symm.trans sent
        cases same
        simp [keepsOpens,here] at kept
      · trivial

structure Sound (l : Link) : Prop where
  safe : l.Safe
  lanes : ∀ id, Lane.Sound id (l.lane id)

theorem step_sound {l : Link} (sound : l.Sound) {a : Action} (ok : l.steady a = true) : (l.step a).Sound where
  safe := step_safe sound.safe a
  lanes id := by
    rw [lane_step sound.safe.keyed a id]
    exact Lane.step_sound (sound.lanes id) (event_fresh sound.safe a id) (steady_lane sound.safe ok id)

theorem run_sound {l : Link} (sound : l.Sound) {schedule : List Action}
    (ok : Machine.Along step (·.steady · = true) schedule l) : (Machine.run step schedule l).Sound :=
  Machine.run_invariant Sound (fun _ _ sound ok => step_sound sound ok) schedule l sound ok

theorem start_sound : start.Sound where
  safe := start_safe
  lanes id := by
    refine ⟨start_safe.lanes id,start_graceful id,fun _ born => (by cases born),?_,?_,?_,?_,?_⟩ <;>
      simp [lane,start,stream,StreamMux.new]

end Link
end Noissh

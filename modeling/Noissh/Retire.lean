import Noissh.LinkSafety

/-! How a stream leaves the map when nobody resets it: both directions are done, or the
grace window after the peer's StreamClose ends. -/
namespace Noissh

/-- The frame says that its sender has come to an end. -/
def Frame.tells : Frame → Bool
  | .streamData _ _ _ fin => fin
  | .streamClose _ _ => true
  | _ => false

/-- No reset in sight, and the grace window still running. -/
structure Endpoint.Graceful (e : Endpoint) : Prop where
  live : ∀ s, e.stream = some s → s.reset = false
  waiting : ∀ s, e.stream = some s → s.closeTicks < closeGraceTicks
  calm : ∀ f ∈ e.flight, ∀ k, f ≠ .streamReset k

namespace Lane

variable {id : Nat} {v : Lane}

/-- The frames an event adds to a flight are those of a poll. -/
theorem Touch.flight {y : Side} {e : Event} {e' : Endpoint} (touched : Touch id v y e e') {f : Frame}
    (member : f ∈ e'.flight) : f ∈ (v y).flight ∨
      ∃ now s, e = .poll y now ∧ (v y).stream = some s ∧ f ∈ (StreamMux.pollStream now id s).2 := by
  cases touched with
  | write =>
    unfold Endpoint.write at member
    split at member
    · split at member <;> exact .inl member
    · exact .inl member
  | read => unfold Endpoint.read at member; split at member <;> exact .inl member
  | close => unfold Endpoint.close at member; split at member <;> exact .inl member
  | poll =>
    unfold Endpoint.poll at member
    split at member
    · rename_i s held
      exact (List.mem_append.mp member).imp (fun old => old) (fun new => ⟨_,s,rfl,held,new⟩)
    · exact .inl member
  | sent => exact .inl (List.mem_of_mem_eraseIdx member)
  | lost => exact .inl (List.mem_of_mem_eraseIdx member)
  | receive => rw [Link.Receive.flight] at member; exact .inl member
  | _ => exact .inl member

/-- They are the reset of an end that was reset, or of the forms a transmit emits. -/
theorem Touch.emits (safe : Safe id v) {y : Side} {e : Event} {e' : Endpoint} (touched : Touch id v y e e') {f : Frame}
    (member : f ∈ e'.flight) : f ∈ (v y).flight ∨ ∃ now s, e = .poll y now ∧ (v y).stream = some s ∧
      (s.reset = true ∧ f = .streamReset id ∨ s.reset = false ∧ StreamState.Emits (v y).wrote s (s.transmit now).1 f) := by
  refine (touched.flight member).imp_right ?_
  rintro ⟨now,s,polled,held,emitted⟩
  refine ⟨now,s,polled,held,?_⟩
  unfold StreamMux.pollStream at emitted
  cases live : s.reset with
  | true =>
    rw [if_pos live] at emitted
    exact .inl ⟨rfl,List.mem_singleton.mp emitted⟩
  | false =>
    rw [if_neg (by rw [live]; decide)] at emitted
    have flow := safe.flowing y
    obtain ⟨_,_,_,_,_,emits⟩ := StreamState.transmit_spec (flow.sending s held) (flow.paced s held) live now
    exact .inr ⟨rfl,emits f emitted⟩

theorem step_graceful (safe : Safe id v) (graceful : ∀ x, (v x).Graceful) {e : Event} (fresh : Fresh id v e)
    (calm : ∀ x, e ≠ .reset x) (y : Side) : (v.step id e y).Graceful := by
  have flow := safe.flowing y
  have both : ∀ t, (v.step id e y).stream = some t → t.reset = false ∧ t.closeTicks < closeGraceTicks := by
    intro t here
    rcases step_evolves safe fresh here with ⟨s,held,evolves⟩ | ⟨_,kind,metadata,needsOpen,rfl,_⟩
    · have live := (graceful y).live s held
      have waiting := (graceful y).waiting s held
      cases evolves with
      | reset => exact absurd rfl (calm y)
      | @poll now _ _ open_ =>
        obtain ⟨_,_,kept,_⟩ := StreamState.transmit_spec (flow.sending s held) (flow.paced s held) live now
        have done := StreamState.transmit_done (flow.sending s held) (flow.paced s held) live waiting now
        exact ⟨by rw [kept.reset]; exact live,done.1 open_⟩
      | data => rw [StreamState.onData_eq]; exact ⟨live,waiting⟩
      | @ack _ _ now _ _ ack window _ _ =>
        obtain ⟨_,_,_,_,_,_,_,_,_,_,_,eq⟩ := s.onAck_eq ack window now
        rw [eq]
        exact ⟨live,waiting⟩
      | aborted _ sent => exact absurd rfl ((graceful _).calm _ (List.mem_of_getElem? sent) _)
      | _ => exact ⟨live,waiting⟩
    · exact ⟨rfl,(by decide : 0 < closeGraceTicks)⟩
  refine ⟨fun t here => (both t here).1,fun t here => (both t here).2,fun f member k isReset => ?_⟩
  rcases (step_touch id v e y).emits safe member with old | ⟨now,s,rfl,held,⟨reset,_⟩ | ⟨_,emits⟩⟩
  · exact (graceful y).calm f old k isReset
  · cases ((graceful y).live s held).symm.trans reset
  · subst isReset
    cases emits

/-- A side without an end either had none before, or has just polled it away. -/
theorem Touch.gone {y : Side} {e : Event} {e' : Endpoint} (touched : Touch id v y e e') (gone : e'.stream = none) :
    ((v y).stream = none ∧ e'.born = (v y).born ∧ e'.got = (v y).got) ∨
    ∃ now s, e = .poll y now ∧ (v y).stream = some s ∧ e'.got = (v y).got ∧
      (StreamMux.pollStream now id s).1 = none := by
  cases touched with
  | same => exact .inl ⟨gone,rfl,rfl⟩
  | openStream => cases gone
  | write =>
    cases held : (v y).stream with
    | none => exact .inl ⟨rfl,by simp [Endpoint.write,held]⟩
    | some s =>
      simp only [Endpoint.write,held] at gone
      split at gone
      · cases gone
      · rw [held] at gone; cases gone
  | read =>
    cases held : (v y).stream with
    | none => exact .inl ⟨rfl,by simp [Endpoint.read,held]⟩
    | some s => simp [Endpoint.read,held] at gone
  | close =>
    cases held : (v y).stream with
    | none => exact .inl ⟨rfl,by simp [Endpoint.close,held]⟩
    | some s => simp [Endpoint.close,held] at gone
  | reset => exact .inl ⟨by simpa [Endpoint.reset] using gone,rfl,rfl⟩
  | poll =>
    cases held : (v y).stream with
    | none => exact .inl ⟨rfl,by simp [Endpoint.poll,held]⟩
    | some s =>
      simp only [Endpoint.poll,held] at gone ⊢
      exact .inr ⟨_,s,rfl,rfl,trivial,gone⟩
  | sent => exact .inl ⟨gone,rfl,rfl⟩
  | lost => exact .inl ⟨gone,rfl,rfl⟩
  | @receive _ _ _ _ frame _ _ =>
    refine .inl ?_
    cases frame with
    | streamOpen k kind metadata =>
      simp only [Endpoint.receive] at gone ⊢
      split at gone
      · cases gone
      · rename_i refused
        rw [if_neg refused]
        exact ⟨gone,rfl,rfl⟩
    | streamData k offset data fin =>
      cases held : (v y).stream with
      | none => simp [Endpoint.receive,held]
      | some s => simp [Endpoint.receive,held] at gone
    | streamAck => exact ⟨by simpa [Endpoint.receive] using gone,rfl,rfl⟩
    | streamClose => exact ⟨by simpa [Endpoint.receive] using gone,rfl,rfl⟩
    | streamReset => exact ⟨by simpa [Endpoint.receive] using gone,rfl,rfl⟩
    | _ => exact ⟨gone,rfl,rfl⟩

/-- The point of the first close never moves. -/
theorem Touch.closedAt {y : Side} {e : Event} {e' : Endpoint} (touched : Touch id v y e e') {n : Nat}
    (closed : (v y).closedAt = some n) : e'.closedAt = some n := by
  cases touched with
  | write =>
    unfold Endpoint.write
    split
    · split <;> exact closed
    · exact closed
  | read => unfold Endpoint.read; split <;> exact closed
  | close =>
    unfold Endpoint.close
    split
    · simp [closed]
    · exact closed
  | poll => unfold Endpoint.poll; split <;> exact closed
  | receive => rw [Link.Receive.closedAt]; exact closed
  | _ => exact closed

/-- The end was given back after everything up to the peer's close had been read. -/
def Reclaimed (v : Lane) (x : Side) : Prop :=
  (v x).born = true → (v x).stream = none →
    ∃ n, (v x.other).closedAt = some n ∧ n ≤ (v x).got.length

/-- The event does not end a grace window. -/
def InGrace (v : Lane) : Event → Prop
  | .poll x _ => ∀ s, (v x).stream = some s → s.graceEnds = false
  | _ => True

/-- A poll that does not end the grace window reclaims an end only after everything up to
the peer's close was read. -/
theorem read_of_retired (safe : Safe id v) (graceful : ∀ x, (v x).Graceful) {y : Side} {s : StreamState} {now : Nat}
    (held : (v y).stream = some s) (retired : (StreamMux.pollStream now id s).1 = none)
    (running : s.graceEnds = false) : ∃ n, (v y.other).closedAt = some n ∧ n ≤ (v y).got.length := by
  have flow := safe.flowing y
  have live := (graceful y).live s held
  have done := StreamState.transmit_done (flow.sending s held) (flow.paced s held) live
    ((graceful y).waiting s held) now
  rcases (done.2 (StreamMux.fullyDone_of_retired live retired)).2 with ⟨_,read⟩ | ended
  · have into := (flows_of_flowing safe.flowing y).into
    rw [held] at into
    obtain ⟨n,closed,reach,_⟩ := into.read_finished read
    exact ⟨n,closed,reach⟩
  · rw [running] at ended; cases ended

/-- One side's end: a poll that ends its grace window must come after everything was read. -/
theorem step_reclaimed_side (safe : Safe id v) (graceful : ∀ x, (v x).Graceful) {y : Side} (reclaimed : Reclaimed v y)
    {e : Event} (grace : ∀ now s, e = .poll y now → (v y).stream = some s → s.graceEnds = true →
      ∃ n, (v y.other).closedAt = some n ∧ n ≤ (v y).got.length) : Reclaimed (v.step id e) y := by
  have touched := step_touch id v e y
  have peer := step_touch id v e y.other
  intro born gone
  have before : ∃ n, (v y.other).closedAt = some n ∧ n ≤ (v.step id e y).got.length := by
    rcases touched.gone gone with ⟨absent,same,got⟩ | ⟨now,s,rfl,held,got,retired⟩
    · rw [got]
      exact reclaimed (same ▸ born) absent
    · rw [got]
      cases ends : s.graceEnds with
      | true => exact grace now s rfl held ends
      | false => exact read_of_retired safe graceful held retired ends
  obtain ⟨n,closed,reach⟩ := before
  exact ⟨n,peer.closedAt closed,reach⟩

theorem step_reclaimed (safe : Safe id v) (graceful : ∀ x, (v x).Graceful) (reclaimed : ∀ x, Reclaimed v x)
    {e : Event} (grace : InGrace v e) (y : Side) : Reclaimed (v.step id e) y := by
  refine step_reclaimed_side safe graceful (reclaimed y) (fun now s polled held ends => ?_)
  subst polled
  rw [grace s held] at ends
  cases ends

end Lane

namespace Link

theorem event_calm {l : Link} {a : Action} (ok : calm a = true) (id : Nat) (x : Side) :
    l.event id a ≠ .reset x := by
  cases a with
  | reset y k => cases ok
  | _ =>
    simp only [event]
    repeat' split
    all_goals simp

/-- No poll of the action ends a grace window. -/
def inGrace (l : Link) : Action → Bool
  | .poll x => (l.mux x).streams.toList.all (fun p => !p.2.graceEnds)
  | _ => true

theorem inGrace_lane {l : Link} {a : Action} (ok : l.inGrace a = true) (id : Nat) :
    Lane.InGrace (l.lane id) (l.event id a) := by
  cases a with
  | poll x =>
    intro s held
    have member := Std.TreeMap.mem_toList_iff_getElem?_eq_some.mpr (show (l.mux x).streams[id]? = some s from held)
    simpa using List.all_eq_true.mp ok _ member
  | _ =>
    simp only [event]
    repeat' split
    all_goals trivial

theorem start_graceful (id : Nat) (x : Side) : (start.lane id x).Graceful := by
  constructor <;> simp [lane,start,stream,StreamMux.new]

/-- Both what a link without resets keeps and what its reclaimed streams have delivered. -/
theorem run_reclaimed {schedule : List Action}
    (guarded : Machine.Along step (fun l a => calm a = true ∧ l.inGrace a = true) schedule start) (id : Nat) (x : Side) :
    Lane.Reclaimed ((Machine.run step schedule start).lane id) x := by
  have run := run_lanes (fun l a => calm a = true ∧ l.inGrace a = true)
    (fun _ v => (∀ x, (v x).Graceful) ∧ ∀ x, Lane.Reclaimed v x)
    (fun l a id safe both ok =>
      ⟨Lane.step_graceful (safe.lanes id) both.1 (event_fresh safe a id) (event_calm ok.1 id),
        Lane.step_reclaimed (safe.lanes id) both.1 both.2 (inGrace_lane ok.2 id)⟩)
    start_safe (fun id => ⟨start_graceful id,fun x born => by cases born⟩) guarded id
  exact run.2 x

/-- Everything the peer wrote before its close has been read. -/
def ReadToClose (l : Link) (x : Side) (id : Nat) : Prop :=
  ∃ n, l.closedAt x.other id = some n ∧ (l.wrote x.other id).take n <+: l.got x id

/-- A stream that is gone, and one that reports itself finished, was read up to the peer's close. -/
def NoDataLost (l : Link) (x : Side) (id : Nat) : Prop :=
  (l.born x id = true → l.stream x id = none → l.ReadToClose x id) ∧
  (l.born x id = true → (l.mux x).isRecvFinished id = true → l.ReadToClose x id)

end Link

theorem prefix_take {w r : Bytes} {n : Nat} (read : r <+: w) (reach : n ≤ r.length) : w.take n <+: r := by
  obtain ⟨rest,rfl⟩ := read
  rw [List.take_append_of_le_length reach]
  exact List.take_prefix n r

/-- As long as no grace window ends, whatever the schedule, reclaiming a stream loses
nothing the peer wrote before its close. -/
theorem reclaim_keeps_data (schedule : List Link.Action)
    (guarded : Machine.Along Link.step (fun l a => Link.calm a = true ∧ l.inGrace a = true) schedule Link.start)
    (x : Side) (id : Nat) : (Machine.run Link.step schedule Link.start).NoDataLost x id := by
  have flow := (Link.run_safe schedule).flow x.other id
  unfold Lane.Flowing at flow
  rw [Side.other_other] at flow
  have gone : (Machine.run Link.step schedule Link.start).born x id = true →
      (Machine.run Link.step schedule Link.start).stream x id = none →
      (Machine.run Link.step schedule Link.start).ReadToClose x id := by
    intro born absent
    obtain ⟨n,closed,reach⟩ := Link.run_reclaimed guarded id x born absent
    exact ⟨n,closed,prefix_take flow.got reach⟩
  refine ⟨gone,fun born finished => ?_⟩
  unfold StreamMux.isRecvFinished at finished
  split at finished
  · rename_i s held
    rw [show ((Machine.run Link.step schedule Link.start).lane id x).stream = some s from held] at flow
    obtain ⟨n,closed,reach,read⟩ := flow.read_finished finished
    exact ⟨n,closed,prefix_take read reach⟩
  · rename_i absent
    exact gone born absent

/-- One byte goes to the server, both sides close, and the server gives the stream back. -/
def Link.settled : List Link.Action :=
  [.openStream .client .exec [],.write .client 0 [7],.close .client 0 0,.poll .client,
    .deliver .client 0,.deliver .client 0,.deliver .client 0,.deliver .client 0,.read .server 0,.close .server 0 0,
    .poll .server,.deliver .server 0,.deliver .server 0,.deliver .server 0,.poll .client,.deliver .client 0,
    .poll .server]

theorem reclaim_keeps_data_settled :
    (Machine.run Link.step Link.settled Link.start).born .server 0 = true ∧
    (Machine.run Link.step Link.settled Link.start).got .server 0 = [7] ∧
    ((Machine.run Link.step Link.settled Link.start).stream .server 0).isNone = true ∧
    (Machine.run Link.step Link.settled Link.start).NoDataLost .server 0 :=
  ⟨by decide +kernel,by decide +kernel,by decide +kernel,
    reclaim_keeps_data Link.settled (by decide +kernel) .server 0⟩

end Noissh

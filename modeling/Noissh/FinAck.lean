import Noissh.Retire

/-! When an acknowledged FIN is one the peer has. A FIN takes no byte of the sequence, so
an ack of all bytes that the peer sent before it saw the FIN looks the same as one sent
after. -/
namespace Noissh
namespace Lane

variable {id : Nat} {v : Lane}

/-- A recorded FIN stays recorded. -/
theorem Evolves.peerFin (safe : Safe id v) {y : Side} {e : Event} {s t : StreamState} (held : (v y).stream = some s)
    (evolves : Evolves v y e s t) (marked : s.peerFin ≠ .opened) : t.peerFin ≠ .opened := by
  have flow := safe.flowing y
  cases evolves with
  | @poll now _ live _ =>
    obtain ⟨_,_,kept,_⟩ := StreamState.transmit_spec (flow.sending s held) (flow.paced s held) live now
    rw [kept.peerFin]
    exact marked
  | data =>
    rw [StreamState.onData_eq]
    simp only [marked,and_false,if_false]
    exact marked
  | @ack _ _ now _ _ ack window _ _ =>
    obtain ⟨_,_,_,_,_,_,_,_,_,_,_,eq⟩ := s.onAck_eq ack window now
    rw [eq]
    exact marked
  | _ => exact marked

/-- The FIN becomes acked only by an ack of all bytes after some frame carried it. -/
theorem Evolves.finAcked (safe : Safe id v) {y : Side} {e : Event} {s t : StreamState} (held : (v y).stream = some s)
    (evolves : Evolves v y e s t) (acked : t.finAcked = true) : s.finAcked = true ∨
      ∃ x n now welcome k ack window, x.other = y ∧ e = .deliver x n now welcome ∧
        (v x).flight[n]? = some (.streamAck k ack window) ∧ s.sendFin = true ∧ s.finSent = true ∧ s.sendNext ≤ ack := by
  have flow := safe.flowing y
  cases evolves with
  | @poll now _ live _ =>
    obtain ⟨_,_,kept,_⟩ := StreamState.transmit_spec (flow.sending s held) (flow.paced s held) live now
    rw [kept.finAcked] at acked
    exact .inl acked
  | data => rw [StreamState.onData_eq] at acked; exact .inl acked
  | @ack x n now welcome k ack window _ peer sent =>
    rcases Nat.lt_or_ge s.sendNext ack with beyond | known
    · rw [StreamState.onAck_ignored s ack window now beyond] at acked
      exact .inl acked
    · have step := StreamState.onAck_step s ack window now known (flow.sending s held).low
      exact (step.finAcked.mp acked).imp (fun old => old)
        (fun covered => ⟨x,n,now,welcome,k,ack,window,peer,rfl,sent,covered⟩)
  | _ => exact .inl acked

/-- A FIN reaches an end only on a frame the peer had in flight, and is then recorded. -/
theorem Touch.finReached {y : Side} {e : Event} {e' : Endpoint} (touched : Touch id v y e e')
    (reached : e'.finReached = true) : (v y).finReached = true ∨
      (∃ x k offset data, x.other = y ∧ .streamData k offset data true ∈ (v x).flight) ∧
      ∃ t, e'.stream = some t ∧ t.peerFin ≠ .opened := by
  cases touched with
  | write =>
    unfold Endpoint.write at reached
    split at reached
    · split at reached <;> exact .inl reached
    · exact .inl reached
  | read => unfold Endpoint.read at reached; split at reached <;> exact .inl reached
  | close => unfold Endpoint.close at reached; split at reached <;> exact .inl reached
  | poll => unfold Endpoint.poll at reached; split at reached <;> exact .inl reached
  | @receive x n now welcome frame peer sent =>
    cases frame with
    | streamOpen k kind metadata => simp only [Endpoint.receive] at reached; split at reached <;> exact .inl reached
    | streamData k offset data fin =>
      cases held : (v y).stream with
      | none => exact .inl (by simpa [Endpoint.receive,held] using reached)
      | some s =>
        simp only [Endpoint.receive,held,Bool.or_eq_true,Bool.and_eq_true] at reached ⊢
        refine reached.imp (fun old => old) ?_
        rintro ⟨rfl,accepted⟩
        refine ⟨⟨x,k,offset,data,peer,List.mem_of_getElem? sent⟩,_,rfl,?_⟩
        rw [StreamState.onData_eq]
        simp only [accepted,true_and]
        split
        · simp
        · rename_i before; exact before
    | _ => exact .inl reached
  | _ => exact .inl reached

theorem Touch.finReached_mono {y : Side} {e : Event} {e' : Endpoint} (touched : Touch id v y e e')
    (reached : (v y).finReached = true) : e'.finReached = true := by
  cases touched with
  | write =>
    unfold Endpoint.write
    split
    · split <;> exact reached
    · exact reached
  | read => unfold Endpoint.read; split <;> exact reached
  | close => unfold Endpoint.close; split <;> exact reached
  | poll => unfold Endpoint.poll; split <;> exact reached
  | @receive x n now welcome frame peer sent =>
    cases frame with
    | streamOpen k kind metadata => simp only [Endpoint.receive]; split <;> exact reached
    | streamData k offset data fin => simp only [Endpoint.receive]; split <;> simp [reached]
    | _ => exact reached
  | _ => exact reached

/-- What an acknowledged FIN of side `x` says about the peer. -/
structure FinKnown (v : Lane) (x : Side) : Prop where
  acked : ∀ s, (v x).stream = some s → s.finAcked = true → (v x.other).finReached = true
  born : (v x.other).finReached = true → (v x.other).born = true
  closed : (v x.other).finReached = true → ∃ n, (v x).closedAt = some n
  recorded : (v x.other).finReached = true → ∀ t, (v x.other).stream = some t → t.peerFin ≠ .opened
  read : (v x.other).finReached = true → (v x.other).stream = none →
    ∃ n, (v x).closedAt = some n ∧ n ≤ (v x.other).got.length

/-- An ack of all bytes reaches an end that has sent its FIN only after the FIN has reached
the peer. -/
def FinFirst (v : Lane) : Event → Prop
  | .deliver x n _ _ => ∀ k ack window, (v x).flight[n]? = some (.streamAck k ack window) →
      ∀ s, (v x.other).stream = some s → s.sendFin = true → s.finSent = true → s.sendNext ≤ ack →
        (v x).finReached = true
  | _ => True

theorem step_finKnown (safe : Safe id v) (graceful : ∀ x, (v x).Graceful) (known : ∀ x, FinKnown v x) {e : Event}
    (fresh : Fresh id v e) (order : FinFirst v e) (x : Side) : FinKnown (v.step id e) x := by
  have sender := step_touch id v e x
  have receiver := step_touch id v e x.other
  have after := step_safe safe e fresh
  constructor
  · intro t here acked
    refine receiver.finReached_mono ?_
    rcases step_evolves safe fresh here with ⟨s,held,evolves⟩ | ⟨_,_,_,_,rfl,_⟩
    · rcases evolves.finAcked safe held acked with old | ⟨z,n,now,welcome,k,ack,window,peer,rfl,sent,fin,gone,all⟩
      · exact (known x).acked s held old
      · have side : z = x.other := by rw [← peer,Side.other_other]
        subst side
        exact order k ack window sent s (by rw [Side.other_other]; exact held) fin gone all
    · cases acked
  · intro reached
    rcases receiver.finReached reached with old | ⟨_,t,held,_⟩
    · rw [(step_follows (fun y => (safe.life y).noted) e x.other).born,(known x).born old]
      rfl
    · exact ((after.life x.other).noted t held).2
  · intro reached
    rcases receiver.finReached reached with old | ⟨⟨z,k,offset,data,peer,sent⟩,_⟩
    · obtain ⟨n,closed⟩ := (known x).closed old
      exact ⟨n,sender.closedAt closed⟩
    · have side : z = x := by
        have := congrArg Side.other peer
        rwa [Side.other_other,Side.other_other] at this
      subst side
      have mine := (safe.life z).named _ sent
      cases mine
      obtain ⟨n,closed,_⟩ := (safe.flowing z).marked offset data sent
      exact ⟨n,sender.closedAt closed⟩
  · intro reached t here
    rcases receiver.finReached reached with old | ⟨_,u,held,marked⟩
    · rcases step_evolves safe fresh here with ⟨s,held,evolves⟩ | ⟨unborn,_⟩
      · exact evolves.peerFin safe held ((known x).recorded old s held)
      · rw [(known x).born old] at unborn; cases unborn
    · rw [held] at here
      cases here
      exact marked
  · intro reached gone
    rcases receiver.finReached reached with old | ⟨_,t,held,_⟩
    · rcases receiver.gone gone with ⟨absent,_,got⟩ | ⟨now,s,rfl,held,got,retired⟩
      · obtain ⟨n,closed,reach⟩ := (known x).read old absent
        exact ⟨n,sender.closedAt closed,by rw [got]; exact reach⟩
      · -- The peer has recorded the FIN, so its grace window is not running.
        have marked := (known x).recorded old s held
        obtain ⟨n,closed,reach⟩ := read_of_retired safe graceful held retired (by
          simp [StreamState.graceEnds,StreamState.awaitsFin,marked])
        rw [Side.other_other] at closed
        exact ⟨n,sender.closedAt closed,by rw [got]; exact reach⟩
    · rw [held] at gone; cases gone

end Lane

namespace Link

/-- An ack of all bytes is delivered to a stream that has sent its FIN only after a
FIN-bearing frame was processed by the peer. -/
def finFirst (l : Link) : Action → Bool
  | .deliver x n =>
    match (l.flight x)[n]? with
    | some (.streamAck id ack _) =>
      match l.stream x.other id with
      | some s => !(s.sendFin && s.finSent && decide (s.sendNext ≤ ack)) || l.finReached x id
      | none => true
    | _ => true
  | _ => true

theorem finFirst_lane {l : Link} {a : Action} (ok : l.finFirst a = true) (id : Nat) :
    Lane.FinFirst (l.lane id) (l.event id a) := by
  cases a with
  | deliver x n =>
    simp only [event]
    cases here : (l.flight x)[n]? with
    | none => trivial
    | some frame =>
      dsimp only
      split
      · rename_i mine
        intro k ack window sent s held fin gone all
        have same : some frame = some (.streamAck k ack window) :=
          (Multiplex.getElem?_filter_rank here mine).symm.trans sent
        cases same
        cases beq_iff_eq.mp mine
        rw [show (l.lane id x.other).stream = l.stream x.other id from rfl] at held
        simp only [finFirst,here,held,fin,gone,all,decide_true,Bool.and_true,Bool.not_true,Bool.false_or] at ok
        exact ok
      · trivial
  | _ =>
    simp only [event]
    repeat' split
    all_goals trivial

theorem start_finKnown (id : Nat) (x : Side) : Lane.FinKnown (start.lane id) x := by
  constructor <;> simp [lane,start,stream,StreamMux.new]

theorem run_finKnown {schedule : List Action}
    (guarded : Machine.Along step (fun l a => l.orderly a = true ∧ l.finFirst a = true) schedule start)
    (id : Nat) (x : Side) : Lane.FinKnown ((Machine.run step schedule start).lane id) x := by
  have run := run_lanes (fun l a => l.orderly a = true ∧ l.finFirst a = true)
    (fun _ v => (∀ x, (v x).Graceful) ∧ ∀ x, Lane.FinKnown v x)
    (fun l a id safe both ok =>
      ⟨Lane.step_graceful (safe.lanes id) both.1 (event_fresh safe a id) (event_calm (orderly_calm ok.1) id),
        Lane.step_finKnown (safe.lanes id) both.1 both.2 (event_fresh safe a id) (finFirst_lane ok.2 id)⟩)
    start_safe (fun id => ⟨start_graceful id,start_finKnown id⟩) guarded id
  exact run.2 x

/-- If the side considers its FIN acknowledged, the peer has recorded it at the total number of
bytes written, or has retired the stream after reading them all. -/
def FinHonest (l : Link) (x : Side) (id : Nat) : Prop :=
  ∀ s, l.stream x id = some s → s.finAcked = true →
    match l.stream x.other id with
    | some t => t.peerFin = .finished (l.wrote x id).length
    | none => l.born x.other id = true ∧ l.got x.other id = l.wrote x id

end Link

/-- In every run that neither resets nor writes after close, and in which an ack of all
bytes reaches a sender whose FIN has gone out only after the FIN has reached the peer, an
acknowledged FIN is one the peer has. -/
theorem fin_acked_recorded (schedule : List Link.Action)
    (guarded : Machine.Along Link.step (fun l a => l.orderly a = true ∧ l.finFirst a = true) schedule Link.start)
    (x : Side) (id : Nat) : (Machine.run Link.step schedule Link.start).FinHonest x id := by
  intro s held acked
  have known := Link.run_finKnown guarded id x
  have flow := (Link.run_safe schedule).flow x id
  have whole := Link.run_closedWhole x id schedule
    (guarded.imp (fun l a ok => Link.orderly_quiet ok.1 x id))
  have reached := known.acked s held acked
  unfold Lane.Flowing at flow
  split
  · rename_i t other
    cases end_ : t.peerFin with
    | opened => exact absurd end_ (known.recorded reached t other)
    | finished stop =>
      obtain ⟨fits,n,closed,le⟩ := flow.finished t other stop end_
      have eq : n = _ := whole n closed
      have fits' : stop ≤ ((Machine.run Link.step schedule Link.start).wrote x id).length := fits
      rw [show stop = ((Machine.run Link.step schedule Link.start).wrote x id).length by omega]
  · rename_i absent
    obtain ⟨n,closed,reach⟩ := known.read reached absent
    have eq : n = _ := whole n closed
    subst eq
    exact ⟨known.born reached,flow.got.eq_of_length_le reach⟩

namespace Link

/-- A stream of no bytes is opened and closed; its StreamOpen is delivered and its empty FIN
lost. The peer's first ack then acknowledges all zero bytes. -/
def lostFin : List Action :=
  [.openStream .client .exec [],.close .client 0 0,.poll .client,.deliver .client 0,.lose .client 0,
    .poll .server,.deliver .server 0]

/-- The same stream with its FIN delivered before the peer polls. -/
def keptFin : List Action :=
  [.openStream .client .exec [],.close .client 0 0,.poll .client,.deliver .client 0,.deliver .client 0,
    .poll .server,.deliver .server 0]

end Link

theorem fin_acked_unseen : ¬∀ (schedule : List Link.Action) (x : Side) (id : Nat),
    Machine.Along Link.step (fun l a => l.orderly a = true) schedule Link.start →
      (Machine.run Link.step schedule Link.start).FinHonest x id := by
  intro claim
  have honest := claim Link.lostFin .client 0 (by decide +kernel)
  have acked : ((Machine.run Link.step Link.lostFin Link.start).stream .client 0).map (·.finAcked) = some true := by
    decide +kernel
  have open_ : ((Machine.run Link.step Link.lostFin Link.start).stream .server 0).map (·.peerFin) =
      some .opened := by decide +kernel
  obtain ⟨s,held,marked⟩ := Option.map_eq_some_iff.mp acked
  obtain ⟨t,other,unmarked⟩ := Option.map_eq_some_iff.mp open_
  have recorded := honest s held marked
  rw [show Side.client.other = .server from rfl,other] at recorded
  simp only [unmarked] at recorded
  cases recorded

theorem fin_acked_recorded_keptFin :
    ((Machine.run Link.step Link.keptFin Link.start).stream .client 0).map (·.finAcked) = some true ∧
    (Machine.run Link.step Link.keptFin Link.start).FinHonest .client 0 :=
  ⟨by decide +kernel,fin_acked_recorded Link.keptFin (by decide +kernel) .client 0⟩

end Noissh

import Noissh.LaneSafety

/-! Safety of a link over every schedule: what is read is a prefix of what was written,
nothing is dropped from a send buffer before the peer has it, and a finished stream was
read whole. -/
namespace Noissh
namespace StreamMux

/-- The fields beside the streams and the events: the numbering of streams and the clock. -/
def numbers (m : StreamMux) : Nat × Nat × Nat × Nat := (m.nextLocalId,m.idStep,m.localParity,m.now)

theorem modifyStream_numbers (m : StreamMux) (id : Nat) (f : StreamState → StreamState) :
    (m.modifyStream id f).numbers = m.numbers := by
  unfold modifyStream
  split <;> rfl

theorem read_numbers (m : StreamMux) (id : Nat) : (m.read id).2.numbers = m.numbers := by
  unfold read
  split <;> rfl

theorem onFrame_numbers (m : StreamMux) (frame : Frame) : (m.onFrame frame).numbers = m.numbers := by
  cases frame with
  | streamOpen id kind metadata =>
    simp only [onFrame,onOpen]
    split
    · rfl
    · split <;> rfl
  | streamData id offset data fin =>
    simp only [onFrame,onData]
    split
    · split <;> rfl
    · rfl
  | streamAck id ack window => exact modifyStream_numbers ..
  | streamClose id status =>
    simp only [onFrame,onClose]
    split
    · split <;> rfl
    · rfl
  | streamReset id =>
    simp only [onFrame,onReset]
    split <;> rfl
  | _ => rfl

end StreamMux

namespace Link

/-- Locally opened ids have the side's parity, and none above the next one is in use. -/
structure Numbered (l : Link) (x : Side) : Prop where
  parity : (l.mux x).localParity = x.parity
  idStep : (l.mux x).idStep = 2
  next : (l.mux x).nextLocalId % 2 = x.parity
  fresh : ∀ id, (l.mux x).nextLocalId ≤ id → id % 2 = x.parity → ∀ y, l.born y id = false

structure Safe (l : Link) : Prop where
  keyed : l.Keyed
  numbered : ∀ x, l.Numbered x
  lanes : ∀ id, Lane.Safe id (l.lane id)

def opensAt (x : Side) : Action → Bool
  | .openStream y _ _ => y == x
  | _ => false

def pollsAt (x : Side) : Action → Bool
  | .poll y => y == x
  | _ => false

theorem step_numbers (l : Link) (a : Action) (x : Side) : ((l.step a).mux x).numbers =
    if opensAt x a then ((l.mux x).openStream .session []).1.numbers
    else if pollsAt x a then (l.mux x).pollTransmit.1.numbers else (l.mux x).numbers := by
  have set : ∀ y m, m.numbers = (l.mux y).numbers → ((l.setMux y m).mux x).numbers = (l.mux x).numbers := by
    intro y m same
    simp only [setMux,Function.update_apply]
    split
    · rename_i here; rw [here]; exact same
    · rfl
  unfold step note
  cases a with
  | openStream y kind metadata =>
    simp only [act,opensAt,setMux,Function.update_apply,beq_iff_eq]
    by_cases here : x = y
    · subst here; simp; rfl
    · rw [if_neg here,if_neg (Ne.symm here)]; rfl
  | write y k data =>
    simp only [act]
    split
    · split
      · exact set y _ (StreamMux.modifyStream_numbers ..)
      · rfl
    · rfl
  | read y k => exact set y _ (StreamMux.read_numbers ..)
  | close y k status =>
    simp only [act]
    split
    · exact set y _ (StreamMux.modifyStream_numbers ..)
    · rfl
  | reset y k => exact set y _ (StreamMux.modifyStream_numbers ..)
  | takeEvents y => exact set y _ rfl
  | poll y =>
    simp only [act,opensAt,pollsAt,setMux,setFlight,Function.update_apply,beq_iff_eq]
    by_cases here : x = y
    · subst here; simp
    · rw [if_neg here,if_neg (Ne.symm here)]; rfl
  | deliver y n =>
    simp only [act]
    split
    · exact set y.other _ (StreamMux.onFrame_numbers ..)
    · rfl
  | lose y n => rfl

/-- The clock of a side ticks with its polls only. -/
theorem step_now (l : Link) (a : Action) (x : Side) :
    ((l.step a).mux x).now = if pollsAt x a then (l.mux x).now + 1 else (l.mux x).now := by
  have numbers := l.step_numbers a x
  cases a with
  | openStream y kind metadata =>
    split at numbers <;> simp_all [StreamMux.numbers,StreamMux.openStream,pollsAt]
  | _ =>
    simp only [opensAt,Bool.false_eq_true,if_false] at numbers
    split at numbers <;> simp_all [StreamMux.numbers,StreamMux.pollTransmit]

theorem event_fresh {l : Link} (safe : l.Safe) (a : Action) (id : Nat) :
    Lane.Fresh id (l.lane id) (l.event id a) := by
  cases a with
  | openStream x kind metadata =>
    simp only [event]
    split
    · rename_i here
      subst here
      exact ⟨(safe.numbered x).next,(safe.numbered x).fresh _ (Nat.le_refl _) (safe.numbered x).next⟩
    · trivial
  | _ =>
    simp only [event]
    repeat' split
    all_goals trivial

theorem step_numbered {l : Link} (safe : l.Safe) (a : Action) (x : Side) : (l.step a).Numbered x := by
  have old := safe.numbered x
  have numbers := l.step_numbers a x
  have unborn : ∀ id, (∀ y, l.born y id = false) → (∀ y kind metadata, l.event id a ≠ .openStream y kind metadata) →
      ∀ y, (l.step a).born y id = false := by
    intro id never other y
    have lane := congrFun (lane_step safe.keyed a id) y
    have still := Lane.step_unborn (safe.lanes id) never other y
    rw [← lane] at still
    exact still
  cases opening : opensAt x a with
  | false =>
    have numbers : (((l.step a).mux x).nextLocalId,((l.step a).mux x).idStep,((l.step a).mux x).localParity) =
        ((l.mux x).nextLocalId,(l.mux x).idStep,(l.mux x).localParity) := by
      rw [opening,if_neg (by simp)] at numbers
      split at numbers <;> simp_all [StreamMux.numbers,StreamMux.pollTransmit]
    simp only [Prod.mk.injEq] at numbers
    refine ⟨by rw [numbers.2.2]; exact old.parity,by rw [numbers.2.1]; exact old.idStep,
      by rw [numbers.1]; exact old.next,fun id le parity => ?_⟩
    rw [numbers.1] at le
    refine unborn id (old.fresh id le parity) (fun y kind metadata opened => ?_)
    -- An id of this side's parity is not opened by the other side.
    cases a with
    | openStream z kind' metadata' =>
      simp only [event] at opened
      split at opened
      · rename_i here
        rcases Side.eq_or_other x z with rfl | rfl
        · simp [opensAt] at opening
        · have other := (safe.numbered x.other).next
          have := x.parity_lt
          rw [here,x.parity_other] at other
          omega
      · cases opened
    | _ =>
      simp only [event] at opened
      revert opened
      repeat' split
      all_goals simp
  | true =>
    rw [opening,if_pos rfl] at numbers
    simp only [StreamMux.numbers,StreamMux.openStream,Prod.mk.injEq] at numbers
    have step := old.idStep
    have next := old.next
    refine ⟨by rw [numbers.2.2.1]; exact old.parity,by rw [numbers.2.1]; exact old.idStep,
      by rw [numbers.1]; omega,fun id le parity => ?_⟩
    rw [numbers.1] at le
    refine unborn id (old.fresh id (by omega) parity) (fun y kind metadata opened => ?_)
    cases a with
    | openStream z kind' metadata' =>
      have same : z = x := by simpa [opensAt] using opening
      subst same
      simp only [event] at opened
      split at opened
      · omega
      · cases opened
    | _ => cases opening

theorem step_safe {l : Link} (safe : l.Safe) (a : Action) : (l.step a).Safe where
  keyed := step_keyed safe.keyed a
  numbered := step_numbered safe a
  lanes id := by
    rw [lane_step safe.keyed a id]
    exact Lane.step_safe (safe.lanes id) _ (event_fresh safe a id)

theorem start_safe : start.Safe where
  keyed := start_keyed
  numbered x := by cases x <;> constructor <;> simp [start,StreamMux.new,Side.isClient,Side.parity]
  lanes id := by
    have blank : ∀ x, start.lane id x = ⟨none,[],[],[],none,false,false⟩ := by
      intro x
      simp [lane,start,stream,StreamMux.new]
    constructor
    · intro x
      constructor <;> simp [blank,Endpoint.Noted]
    · intro x
      unfold Lane.Flowing
      rw [blank x,blank x.other]
      exact Flow.unborn (by simp)

theorem Safe.run {l : Link} (safe : l.Safe) (schedule : List Action) : (Machine.run step schedule l).Safe :=
  Machine.run_invariant_always Safe (fun _ a safe => step_safe safe a) schedule l safe

theorem run_safe (schedule : List Action) : (Machine.run step schedule start).Safe :=
  start_safe.run schedule

/-- An invariant that every stream's own events keep holds along the run of the link. -/
theorem run_lanes (guard : Link → Action → Prop) (invariant : Nat → Lane → Prop)
    (preserved : ∀ l a id, l.Safe → invariant id (l.lane id) → guard l a →
      invariant id ((l.lane id).step id (l.event id a)))
    {schedule : List Action} {l : Link} (safe : l.Safe) (valid : ∀ id, invariant id (l.lane id))
    (guarded : Machine.Along step guard schedule l) (id : Nat) :
    invariant id ((Machine.run step schedule l).lane id) := by
  have run := Machine.run_invariant (fun l : Link => l.Safe ∧ ∀ id, invariant id (l.lane id))
    (fun l a both ok => ⟨step_safe both.1 a,fun id => by
      rw [lane_step both.1.keyed a id]
      exact preserved l a id both.1 (both.2 id) ok⟩) schedule l ⟨safe,valid⟩ guarded
  exact run.2 id

theorem Safe.flow {l : Link} (safe : l.Safe) (x : Side) (id : Nat) : Lane.Flowing id (l.lane id) x :=
  (safe.lanes id).flowing x

/-- The side does not write to the stream once it has closed it. -/
def quietAfterClose (x : Side) (id : Nat) (l : Link) : Action → Bool
  | .write y k _ => !(y == x && k == id) || (l.closedAt x id).isNone
  | _ => true

/-- The action resets no stream. -/
def calm : Action → Bool
  | .reset _ _ => false
  | _ => true

/-- Neither a reset nor a write after the close of its stream. -/
def orderly (l : Link) : Action → Bool
  | .reset _ _ => false
  | .write x id _ => (l.closedAt x id).isNone
  | _ => true

theorem orderly_calm {l : Link} {a : Action} (ok : l.orderly a = true) : calm a = true := by
  cases a <;> first | rfl | exact ok

theorem orderly_quiet {l : Link} {a : Action} (ok : l.orderly a = true) (x : Side) (id : Nat) :
    quietAfterClose x id l a = true := by
  cases a with
  | write y k data =>
    simp only [quietAfterClose,Bool.or_eq_true,Bool.not_eq_true',Bool.and_eq_false_imp,beq_iff_eq]
    simp only [orderly] at ok
    by_cases mine : y = x ∧ k = id
    · obtain ⟨rfl,rfl⟩ := mine
      exact .inr ok
    · exact .inl (fun side => by simpa using fun same => mine ⟨side,same⟩)
  | _ => rfl

/-- Everything was written before the close. -/
def ClosedWhole (x : Side) (id : Nat) (l : Link) : Prop :=
  ∀ n, l.closedAt x id = some n → n = (l.wrote x id).length

theorem step_closedWhole {x : Side} {id : Nat} {l : Link} (whole : ClosedWhole x id l) {a : Action}
    (quiet : quietAfterClose x id l a = true) : ClosedWhole x id (l.step a) := by
  have unchanged : ∀ l' : Link, l'.wrote x id = l.wrote x id → l'.closedAt x id = l.closedAt x id →
      ClosedWhole x id l'.note := by
    intro l' wrote closedAt n closed
    have := whole n (closedAt ▸ closed)
    rw [this,← wrote]
    rfl
  unfold step
  cases a with
  | write y k data =>
    simp only [act]
    split
    · split
      · by_cases mine : y = x ∧ k = id
        · obtain ⟨rfl,rfl⟩ := mine
          intro n closed
          have open_ : l.closedAt y k = none := by simpa [quietAfterClose] using quiet
          rw [show l.closedAt y k = some n from closed] at open_
          cases open_
        · exact unchanged _ (by simp only [put_apply]; rw [if_neg (by grind)]) rfl
      · exact unchanged _ rfl rfl
    · exact unchanged _ rfl rfl
  | close y k status =>
    simp only [act]
    split
    · by_cases mine : y = x ∧ k = id
      · obtain ⟨rfl,rfl⟩ := mine
        intro n closed
        change put l.closedAt y k _ y k = some n at closed
        rw [put_apply,if_pos ⟨rfl,rfl⟩] at closed
        cases before : l.closedAt y k with
        | none =>
          rw [before] at closed
          have : n = (l.wrote y k).length := by simpa using closed.symm
          exact this
        | some m =>
          rw [before] at closed
          have : m = n := by simpa using closed
          exact this ▸ whole m before
      · exact unchanged _ rfl (by simp only [put_apply]; rw [if_neg (by grind)])
    · exact unchanged _ rfl rfl
  | openStream y kind metadata => exact unchanged _ rfl rfl
  | read y k => exact unchanged _ rfl rfl
  | reset y k => exact unchanged _ rfl rfl
  | takeEvents y => exact unchanged _ rfl rfl
  | poll y => exact unchanged _ rfl rfl
  | deliver y n =>
    simp only [act]
    split
    · exact unchanged _ rfl rfl
    · exact unchanged _ rfl rfl
  | lose y n => exact unchanged _ rfl rfl

theorem run_closedWhole (x : Side) (id : Nat) (schedule : List Action)
    (quiet : Machine.Along step (quietAfterClose x id · · = true) schedule start) :
    ClosedWhole x id (Machine.run step schedule start) :=
  Machine.run_invariant (ClosedWhole x id)
    (fun _ _ whole ok => step_closedWhole whole ok) schedule start (by intro n closed; cases closed) quiet

end Link

/-- The receiver's bytes reach no further than the sender has sent. -/
theorem Flow.ackPoint_le {s t : StreamState} {sent back : Frame → Prop} {id : Nat} {w r : Bytes}
    {closed : Option Nat} (flow : Flow (some s) (some t) sent back id w r closed) :
    t.recv.ackPoint ≤ s.sendHigh := by
  obtain ⟨low,inside⟩ := flow.behind s t rfl rfl
  by_contra beyond
  obtain ⟨b,held⟩ := Reassembler.contents_before_ackPoint (flow.recv t rfl)
    (p := max t.recv.delivered s.sendHigh) (by omega) (by omega)
  have := inside _ b held
  omega

/-- A finished receiver has read at least up to the close. -/
theorem Flow.read_finished {t : StreamState} {tx : Option StreamState} {sent back : Frame → Prop} {id : Nat}
    {w r : Bytes} {closed : Option Nat} (flow : Flow tx (some t) sent back id w r closed)
    (finished : t.recvFinished = true) : ∃ n, closed = some n ∧ n ≤ r.length ∧ r <+: w := by
  unfold StreamState.recvFinished at finished
  cases end_ : t.peerFin with
  | opened => rw [end_] at finished; cases finished
  | finished stop =>
    rw [end_] at finished
    simp only [Bool.and_eq_true,decide_eq_true_eq] at finished
    obtain ⟨_,n,present,le⟩ := flow.finished t rfl stop end_
    obtain ⟨fits,eq⟩ := flow.bytes t rfl
    refine ⟨n,present,?_,flow.got⟩
    rw [eq,List.length_take]
    omega

/-- Stream safety end to end, over every interleaving of the applications' calls, the
polls, deliveries in any order and losses. -/
theorem stream_safety (schedule : List Link.Action) (x : Side) (id : Nat) :
    let l := Machine.run Link.step schedule Link.start
    l.got x.other id <+: l.wrote x id ∧
    (∀ s, l.stream x id = some s → l.wrote x id = (l.wrote x id).take s.sendBase ++ s.sendBuf) ∧
    (∀ s t, l.stream x id = some s → l.stream x.other id = some t →
      s.sendBase ≤ t.recv.ackPoint ∧ t.recv.ackPoint ≤ s.sendHigh) ∧
    (Machine.Along Link.step (Link.quietAfterClose x id · · = true) schedule Link.start →
      (l.stream x.other id).isSome → (l.mux x.other).isRecvFinished id = true →
      l.closedAt x id = some (l.wrote x id).length ∧ l.got x.other id = l.wrote x id) := by
  intro l
  have flow := (Link.run_safe schedule).flow x id
  refine ⟨flow.got,fun s held => ?_,fun s t held other => ?_,fun quiet held finished => ?_⟩
  · have sending := flow.sending s held
    rw [sending.buf]
    exact (List.take_append_drop _ _).symm
  · refine ⟨flow.base s t held other,?_⟩
    unfold Lane.Flowing at flow
    rw [show ((l.lane id) x).stream = some s from held,
      show ((l.lane id) x.other).stream = some t from other] at flow
    exact flow.ackPoint_le
  · obtain ⟨t,other⟩ := Option.isSome_iff_exists.mp held
    have done : t.recvFinished = true := by
      unfold StreamMux.isRecvFinished at finished
      rw [show (l.mux x.other).streams[id]? = some t from other] at finished
      exact finished
    unfold Lane.Flowing at flow
    rw [show ((l.lane id) x.other).stream = some t from other] at flow
    obtain ⟨n,closed,reach,read⟩ := flow.read_finished done
    have whole : n = (l.wrote x id).length := Link.run_closedWhole x id schedule quiet n closed
    subst whole
    exact ⟨closed,read.eq_of_length_le reach⟩

/-- A stream is opened, written to and closed; its last bytes arrive before its first. -/
def finishing : List Link.Action :=
  [.openStream .client .exec [9],.write .client 0 [1,2],.poll .client,.write .client 0 [3],.close .client 0 0,.poll .client,
    .deliver .client 0,.deliver .client 2,.deliver .client 0,.read .server 0]

theorem stream_safety_finished :
    let l := Machine.run Link.step finishing Link.start
    l.wrote .client 0 = [1,2,3] ∧ l.closedAt .client 0 = some 3 ∧ l.got .server 0 = l.wrote .client 0 := by
  have wrote : (Machine.run Link.step finishing Link.start).wrote .client 0 = [1,2,3] := by decide +kernel
  obtain ⟨closed,got⟩ := (stream_safety finishing .client 0).2.2.2 (by decide +kernel) (by decide +kernel) (by decide +kernel)
  refine ⟨wrote,?_,got⟩
  rw [wrote] at closed
  exact closed

end Noissh

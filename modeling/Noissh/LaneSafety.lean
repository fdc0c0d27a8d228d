import Noissh.Flow
import Noissh.Lane

/-! The safety invariant of one stream: both directions flow correctly, and the stream is
born at the peer at most once, by the one StreamOpen its opener sends. -/
namespace Noissh
namespace Lane

/-- The bytes going from side `x` to the other. -/
def Flowing (id : Nat) (v : Lane) (x : Side) : Prop :=
  Flow (v x).stream (v x.other).stream (· ∈ (v x).flight) (· ∈ (v x.other).flight) id
    (v x).wrote (v x.other).got (v x).closedAt

structure Life (id : Nat) (v : Lane) (x : Side) : Prop where
  noted : (v x).Noted id
  named : ∀ f ∈ (v x).flight, f.streamId = some id
  records : (v x).born = false → (v x).wrote = [] ∧ (v x).got = [] ∧ (v x).closedAt = none
  quiet : (v x).born = false → (v x).flight = []
  untouched : (v x).born = false → ∀ s, (v x.other).stream = some s → s.sendBase = 0
  opening : ∀ f ∈ (v x).flight, f.opens id = true → id % 2 = x.parity ∧ (v x.other).born = false
  once : (v x).flight.countP (Frame.opens id) ≤ 1
  owed : ∀ s, (v x).stream = some s → s.needsOpen = true →
    id % 2 = x.parity ∧ (v x.other).born = false ∧ (v x).flight.countP (Frame.opens id) = 0

structure Safe (id : Nat) (v : Lane) : Prop where
  life : ∀ x, Life id v x
  flowing : ∀ x, Flowing id v x

/-- What the numbering of streams promises an event: only a fresh id of the right parity is
opened. -/
def Fresh (id : Nat) (v : Lane) : Event → Prop
  | .openStream x _ _ => id % 2 = x.parity ∧ ∀ y, (v y).born = false
  | _ => True

variable {id : Nat} {v : Lane}

theorem Life.absent {x : Side} (life : Life id v x) (unborn : (v x).born = false) : (v x).stream = none := by
  cases held : (v x).stream with
  | none => rfl
  | some s => rw [(life.noted s held).2] at unborn; cases unborn

/-- An end rewritten in place: it is no more born, owes no new StreamOpen and has no new one
in flight. `linked` says that the peer may have sent it frames. -/
structure Rewrites (id : Nat) (linked : Prop) (e e' : Endpoint) : Prop where
  follows : Endpoint.Follows id e e'
  held : ∀ t, e'.stream = some t → ∃ s, e.stream = some s ∧
    (s.needsOpen = false → t.needsOpen = false) ∧ (¬linked → s.sendBase = 0 → t.sendBase = 0)
  silent : e.stream = none →
    e'.wrote = e.wrote ∧ e'.got = e.got ∧ e'.closedAt = e.closedAt ∧ (e.flight = [] → e'.flight = [])
  opens : List.Sublist (e'.flight.filter (Frame.opens id)) (e.flight.filter (Frame.opens id))
  named : ∀ f ∈ e'.flight, f ∈ e.flight ∨ f.streamId = some id

theorem Rewrites.born {linked : Prop} {e e' : Endpoint} (noted : e.Noted id)
    (rewrites : Rewrites id linked e e') : e'.born = e.born := by
  rw [rewrites.follows.born]
  cases held : e'.stream with
  | none => simp
  | some t =>
    obtain ⟨s,old,_⟩ := rewrites.held t held
    simp [(noted s old).2]

theorem Rewrites.count_le {linked : Prop} {e e' : Endpoint} (rewrites : Rewrites id linked e e') :
    e'.flight.countP (Frame.opens id) ≤ e.flight.countP (Frame.opens id) := by
  rw [List.countP_eq_length_filter,List.countP_eq_length_filter]
  exact rewrites.opens.length_le

theorem Life.onSide (life : ∀ y, Life id v y) {x : Side} {f : Endpoint → Endpoint}
    (rewrites : Rewrites id ((v x.other).born = true) (v x) (f (v x))) (y : Side) :
    Life id (v.onSide x f) y := by
  have born : ∀ z, (v.onSide x f z).born = (v z).born := by
    intro z
    rcases Side.eq_or_other x z with rfl | rfl
    · rw [onSide_same]; exact rewrites.born (life z).noted
    · rw [onSide_other]
  rcases Side.eq_or_other x y with rfl | rfl
  · constructor <;> simp only [onSide_same,onSide_other]
    · exact rewrites.follows.noted
    · intro g member
      rcases rewrites.named g member with old | fresh
      · exact (life y).named g old
      · exact fresh
    · intro unborn
      rw [rewrites.born (life y).noted] at unborn
      obtain ⟨wrote,got,closedAt,_⟩ := rewrites.silent ((life y).absent unborn)
      rw [wrote,got,closedAt]
      exact (life y).records unborn
    · intro unborn
      rw [rewrites.born (life y).noted] at unborn
      exact (rewrites.silent ((life y).absent unborn)).2.2.2 ((life y).quiet unborn)
    · intro unborn
      rw [rewrites.born (life y).noted] at unborn
      exact (life y).untouched unborn
    · intro g member isOpen
      have old := rewrites.opens.subset (List.mem_filter.mpr ⟨member,isOpen⟩)
      exact (life y).opening g (List.mem_filter.mp old).1 isOpen
    · exact Nat.le_trans rewrites.count_le (life y).once
    · intro t held needs
      obtain ⟨s,old,opened,_⟩ := rewrites.held t held
      have owing : s.needsOpen = true := by
        cases owed : s.needsOpen with
        | true => rfl
        | false => rw [opened owed] at needs; cases needs
      obtain ⟨parity,unborn,none⟩ := (life y).owed s old owing
      exact ⟨parity,unborn,by have := rewrites.count_le; omega⟩
  · constructor <;> simp only [onSide_other,Side.other_other,onSide_same]
    · exact (life x.other).noted
    · exact (life x.other).named
    · exact (life x.other).records
    · exact (life x.other).quiet
    · intro unborn t held
      obtain ⟨s,old,_,base⟩ := rewrites.held t held
      exact base (by simp [unborn]) ((life x.other).untouched unborn s (by simpa using old))
    · intro g member isOpen
      have := (life x.other).opening g member isOpen
      rw [Side.other_other] at this
      rw [rewrites.born (life x).noted]
      exact this
    · exact (life x.other).once
    · intro s held needs
      have := (life x.other).owed s held needs
      rw [Side.other_other] at this
      rw [rewrites.born (life x).noted]
      exact this

section Rewrites

variable {linked : Prop} {e : Endpoint}

/-- A rewrite that leaves the frames in flight alone. -/
theorem rewrites_of_flight {e' : Endpoint} (follows : Endpoint.Follows id e e') (flight : e'.flight = e.flight)
    (held : ∀ t, e'.stream = some t → ∃ s, e.stream = some s ∧
      (s.needsOpen = false → t.needsOpen = false) ∧ (¬linked → s.sendBase = 0 → t.sendBase = 0))
    (silent : e.stream = none → e' = e) : Rewrites id linked e e' where
  follows := follows
  held := held
  silent none := by simp [silent none]
  opens := by simp [flight]
  named f member := .inl (flight ▸ member)

/-- A rewrite of the stream alone, which owes no new StreamOpen and keeps its first unacked byte. -/
theorem rewrites_of_map {f : StreamState → StreamState}
    (follows : Endpoint.Follows id e { e with stream := e.stream.map f })
    (opened : ∀ s : StreamState, s.needsOpen = false → (f s).needsOpen = false)
    (base : ∀ s : StreamState, ¬linked → s.sendBase = 0 → (f s).sendBase = 0) :
    Rewrites id linked e { e with stream := e.stream.map f } := by
  refine rewrites_of_flight follows rfl (fun t held => ?_) (fun none => ?_)
  · obtain ⟨s,here,rfl⟩ := Option.map_eq_some_iff.mp held
    exact ⟨s,here,opened s,base s⟩
  · apply Endpoint.ext <;> simp [none]

theorem write_rewrites (noted : e.Noted id) (data : Bytes) : Rewrites id linked e (e.write data) := by
  refine rewrites_of_flight (Endpoint.write_follows noted data) ?_ ?_ ?_ <;> unfold Endpoint.write
  · split
    · split <;> rfl
    · rfl
  · intro t held
    split at held
    · rename_i s here
      split at held
      · cases held; exact ⟨s,here,fun same => same,fun _ same => same⟩
      · exact ⟨t,held,fun same => same,fun _ same => same⟩
    · exact ⟨t,held,fun same => same,fun _ same => same⟩
  · intro none; simp [none]

theorem read_rewrites (noted : e.Noted id) : Rewrites id linked e e.read := by
  refine rewrites_of_flight (Endpoint.read_follows noted) ?_ ?_ ?_ <;> unfold Endpoint.read
  · split <;> rfl
  · intro t held
    split at held
    · rename_i s here
      cases held; exact ⟨s,here,fun same => same,fun _ same => same⟩
    · exact ⟨t,held,fun same => same,fun _ same => same⟩
  · intro none; simp [none]

theorem close_rewrites (noted : e.Noted id) (status : Int) : Rewrites id linked e (e.close status) := by
  refine rewrites_of_flight (Endpoint.close_follows noted status) ?_ ?_ ?_ <;> unfold Endpoint.close
  · split <;> rfl
  · intro t held
    split at held
    · rename_i s here
      cases held; exact ⟨s,here,fun same => same,fun _ same => same⟩
    · exact ⟨t,held,fun same => same,fun _ same => same⟩
  · intro none; simp [none]

theorem reset_rewrites (noted : e.Noted id) : Rewrites id linked e e.reset :=
  rewrites_of_map (Endpoint.reset_follows noted) (fun _ same => same) (fun _ _ same => same)

theorem erase_rewrites (noted : e.Noted id) (n : Nat) : Rewrites id linked e (e.erase n) where
  follows := Endpoint.erase_follows noted n
  held t held := ⟨t,held,fun same => same,fun _ same => same⟩
  silent _ := ⟨rfl,rfl,rfl,fun empty => by simp [Endpoint.erase,empty]⟩
  opens := (List.eraseIdx_sublist _ _).filter _
  named f member := .inl (List.mem_of_mem_eraseIdx member)

/-- A frame other than a StreamOpen reaches the end; the peer has sent it, so it is linked. -/
theorem receive_rewrites (noted : e.Noted id) (present : linked) (now : Nat) (welcome : Bool) {frame : Frame}
    (notOpen : frame.opens id = false) (mine : frame.streamId = some id) :
    Rewrites id linked e (e.receive id now welcome frame) := by
  have follows := Endpoint.receive_follows noted now welcome frame
  cases frame with
  | streamOpen k kind metadata => simp_all [Frame.opens,Frame.streamId]
  | streamData k offset data fin =>
    refine rewrites_of_flight follows (Link.Receive.flight ..) (fun t held => ?_) (fun none => ?_)
    · simp only [Endpoint.receive] at held
      split at held
      · rename_i s here
        cases held
        rw [StreamState.onData_eq]
        exact ⟨s,here,fun same => same,fun _ same => same⟩
      · exact ⟨t,held,fun same => same,fun _ same => same⟩
    · simp [Endpoint.receive,none]
  | streamAck k ack window =>
    refine rewrites_of_map follows (fun s same => ?_) (fun _ absent => absurd present absent)
    obtain ⟨_,_,_,_,_,_,_,_,_,_,_,eq⟩ := s.onAck_eq ack window now
    rw [eq]; exact same
  | streamClose k status => exact rewrites_of_map follows (fun _ same => same) (fun _ _ same => same)
  | streamReset k => exact rewrites_of_map follows (fun _ same => same) (fun _ _ same => same)
  | _ => simp [Frame.streamId] at mine

/-- A poll by an end that owes no StreamOpen. -/
theorem poll_rewrites (noted : e.Noted id) (opened : ∀ s, e.stream = some s → s.reset = false → s.needsOpen = false)
    (flow : ∀ s, e.stream = some s → ∃ w, StreamState.Sending w s ∧ s.Paced) (now : Nat) :
    Rewrites id linked e (e.poll id now) := by
  have follows := Endpoint.poll_follows noted now
  cases held : e.stream with
  | none =>
    have same : e.poll id now = e := by simp [Endpoint.poll,held]
    rw [same] at follows ⊢
    exact rewrites_of_flight follows rfl (fun t here => by rw [held] at here; cases here) (fun _ => rfl)
  | some s =>
    obtain ⟨own,_⟩ := noted s held
    constructor
    · exact follows
    · intro t here
      refine ⟨s,held,?_⟩
      simp only [Endpoint.poll,held,StreamMux.pollStream] at here
      split at here
      · cases here
      · rename_i live
        obtain ⟨w,sending,paced⟩ := flow s held
        obtain ⟨_,_,kept,closed,_⟩ := StreamState.transmit_spec sending paced (by simpa using live) now
        dsimp only at here
        split at here
        · cases here
        · cases here
          exact ⟨fun _ => closed,fun _ zero => by rw [kept.base]; exact zero⟩
    · intro none; rw [held] at none; cases none
    · simp only [Endpoint.poll,held,StreamMux.pollStream]
      split
      · simp [Frame.opens]
      · rename_i live
        dsimp only
        rw [List.filter_append,StreamState.transmit_opens,if_neg]
        · simp
        · simp [opened s held (by simpa using live)]
    · intro f member
      simp only [Endpoint.poll,held,StreamMux.pollStream] at member
      split at member
      · simp only [List.mem_append,List.mem_singleton] at member
        rcases member with old | rfl
        · exact .inl old
        · exact .inr rfl
      · simp only [List.mem_append] at member
        rcases member with old | fresh
        · exact .inl old
        · exact .inr (by rw [StreamState.transmit_streamId s now fresh,own])

end Rewrites

/-- The flow out of an end and the flow into it, when the peer's end is `p`. -/
structure Flows (id : Nat) (e p : Endpoint) : Prop where
  out : Flow e.stream p.stream (· ∈ e.flight) (· ∈ p.flight) id e.wrote p.got e.closedAt
  into : Flow p.stream e.stream (· ∈ p.flight) (· ∈ e.flight) id p.wrote e.got p.closedAt

theorem flows_of_flowing (flowing : ∀ y, Flowing id v y) (x : Side) : Flows id (v x) (v x.other) where
  out := flowing x
  into := by
    have := flowing x.other
    unfold Flowing at this
    rwa [Side.other_other] at this

theorem flowing_onSide {x : Side} {f : Endpoint → Endpoint} (flows : Flows id (f (v x)) (v x.other)) (y : Side) :
    Flowing id (v.onSide x f) y := by
  unfold Flowing
  rcases Side.eq_or_other x y with rfl | rfl
  · rw [onSide_same,onSide_other]
    exact flows.out
  · rw [Side.other_other,onSide_same,onSide_other]
    exact flows.into

section Flows

variable {e p : Endpoint}

/-- A rewrite that keeps both the sending and the receiving fields. -/
theorem Flows.kept {e' : Endpoint} (flows : Flows id e p)
    (held : ∀ t, e'.stream = some t → ∃ s, e.stream = some s ∧ SendSame s t ∧ RecvSame s t)
    (fewer : ∀ f ∈ e'.flight, f ∈ e.flight ∨ f = .streamReset id) (wrote : e'.wrote = e.wrote)
    (got : e'.got = e.got) (closedAt : e'.closedAt = e.closedAt) : Flows id e' p where
  out := by
    rw [wrote,closedAt]
    refine flows.out.mono (fun t here => ?_) (fun t here => ⟨t,here,.refl t⟩) (fun off d fin member => ?_)
      (fun _ _ old => old)
    · obtain ⟨s,old,send,_⟩ := held t here
      exact ⟨s,old,send⟩
    · rcases fewer _ member with old | impossible
      · exact old
      · cases impossible
  into := by
    rw [got]
    refine flows.into.mono (fun t here => ⟨t,here,.refl t⟩) (fun t here => ?_) (fun _ _ _ old => old)
      (fun a window member => ?_)
    · obtain ⟨s,old,_,recv⟩ := held t here
      exact ⟨s,old,recv⟩
    · rcases fewer _ member with old | impossible
      · exact old
      · cases impossible

theorem Flows.write (flows : Flows id e p) (data : Bytes) : Flows id (e.write data) p := by
  cases held : e.stream with
  | none =>
    have same : e.write data = e := by simp [Endpoint.write,held]
    rw [same]; exact flows
  | some s =>
    by_cases fits : s.sendNext + data.length ≤ u64Max
    · have out := flows.out
      have into := flows.into
      rw [held] at out into
      have eq : e.write data = { e with stream := some (s.write data), wrote := e.wrote ++ data } := by
        simp [Endpoint.write,held,fits]
      rw [eq]
      exact ⟨out.write data,into.mono (fun t here => ⟨t,here,.refl t⟩)
        (fun t here => ⟨s,rfl,by cases here; exact ⟨rfl,rfl⟩⟩) (fun _ _ _ old => old) (fun _ _ old => old)⟩
    · have same : e.write data = e := by simp [Endpoint.write,held,fits]
      rw [same]; exact flows

theorem Flows.read (flows : Flows id e p) : Flows id e.read p := by
  cases held : e.stream with
  | none =>
    have same : e.read = e := by simp [Endpoint.read,held]
    rw [same]; exact flows
  | some s =>
    have out := flows.out
    have into := flows.into
    rw [held] at out into
    have eq : e.read = { e with
        stream := some { s with recv := s.recv.read.2 }, got := e.got ++ s.recv.read.1 } := by
      simp [Endpoint.read,held]
    rw [eq]
    exact ⟨out.mono (fun t here => ⟨s,rfl,by cases here; exact ⟨rfl,rfl,rfl,rfl,rfl,rfl,rfl,rfl⟩⟩)
      (fun t here => ⟨t,here,.refl t⟩) (fun _ _ _ old => old) (fun _ _ old => old),into.read⟩

theorem Flows.close (flows : Flows id e p) (status : Int) : Flows id (e.close status) p := by
  cases held : e.stream with
  | none =>
    have same : e.close status = e := by simp [Endpoint.close,held]
    rw [same]; exact flows
  | some s =>
    have out := flows.out
    have into := flows.into
    rw [held] at out into
    have eq : e.close status = { e with
        stream := some { s with sendFin := true, closeStatus := some status }
        closedAt := e.closedAt.or (some e.wrote.length) } := by
      simp [Endpoint.close,held]
    rw [eq]
    exact ⟨out.close status,into.mono (fun t here => ⟨t,here,.refl t⟩)
      (fun t here => ⟨s,rfl,by cases here; exact ⟨rfl,rfl⟩⟩) (fun _ _ _ old => old) (fun _ _ old => old)⟩

theorem Flows.reset (flows : Flows id e p) : Flows id e.reset p := by
  refine flows.kept (fun t here => ?_) (fun f old => .inl old) rfl rfl rfl
  simp only [Endpoint.reset,Option.map_eq_some_iff] at here
  obtain ⟨s,held,rfl⟩ := here
  exact ⟨s,held,⟨rfl,rfl,rfl,rfl,rfl,rfl,rfl,rfl⟩,⟨rfl,rfl⟩⟩

theorem Flows.erase (flows : Flows id e p) (n : Nat) : Flows id (e.erase n) p :=
  flows.kept (fun t here => ⟨t,here,.refl t,.refl t⟩) (fun _ member => .inl (List.mem_of_mem_eraseIdx member))
    rfl rfl rfl

theorem Flows.poll (flows : Flows id e p) (now : Nat) : Flows id (e.poll id now) p := by
  cases held : e.stream with
  | none =>
    have same : e.poll id now = e := by simp [Endpoint.poll,held]
    rw [same]; exact flows
  | some s =>
    cases reset : s.reset with
    | true =>
      have eq : e.poll id now = { e with stream := none, flight := e.flight ++ [.streamReset id] } := by
        simp [Endpoint.poll,held,StreamMux.pollStream,reset]
      rw [eq]
      refine flows.kept (fun t here => by cases here) (fun f member => ?_) rfl rfl rfl
      simp only [List.mem_append,List.mem_singleton] at member
      exact member
    | false =>
      have out := flows.out
      have into := flows.into
      rw [held] at out into
      obtain ⟨_,_,kept,_,_,emits⟩ :=
        StreamState.transmit_spec (out.sending s rfl) (out.paced s rfl) reset now
      have eq : e.poll id now = { e with
          stream := if (s.transmit now).1.fullyDone then none else some (s.transmit now).1
          flight := e.flight ++ (s.transmit now).2 } := by
        simp [Endpoint.poll,held,StreamMux.pollStream,reset]
      have left : ∀ t, (if (s.transmit now).1.fullyDone then none else some (s.transmit now).1) = some t →
          t = (s.transmit now).1 := by
        intro t here
        split at here
        · cases here
        · cases here; rfl
      rw [eq]
      constructor
      · exact out.pollSender reset now left (fun _ member => List.mem_append.mp member)
      · refine into.pollReceiver (fun t here => ?_) (fun f member => ?_)
        · rw [left t here]; exact ⟨kept.recv,kept.peerFin⟩
        · refine (List.mem_append.mp member).imp (fun old => old) (fun fresh a window isAck => ?_)
          subst isAck
          cases emits _ fresh with
          | ack _ => rfl

/-- A frame the peer has in flight reaches the end, which holds the stream. -/
theorem Flows.receive (flows : Flows id e p) (now : Nat) (welcome : Bool) {frame : Frame}
    (sent : frame ∈ p.flight) (mine : frame.streamId = some id) (notOpen : frame.opens id = false) :
    Flows id (e.receive id now welcome frame) p := by
  cases held : e.stream with
  | none =>
    have same : e.receive id now welcome frame = e := by
      cases frame <;> simp_all [Endpoint.receive,Frame.opens,Frame.streamId] <;>
        apply Endpoint.ext <;> simp [held]
    rw [same]; exact flows
  | some s =>
    have out := flows.out
    have into := flows.into
    rw [held] at out into
    cases frame with
    | streamOpen k kind metadata => simp_all [Frame.opens,Frame.streamId]
    | streamData k offset data fin =>
      cases mine
      have eq : e.receive id now welcome (.streamData id offset data fin) = { e with
          stream := some (s.onData offset data fin).1
          finReached := e.finReached || (fin && s.accepts offset data) } := by
        simp [Endpoint.receive,held]
      rw [eq]
      refine ⟨out.mono (fun t here => ⟨s,rfl,?_⟩) (fun t here => ⟨t,here,.refl t⟩) (fun _ _ _ old => old)
        (fun _ _ old => old),into.onData sent⟩
      cases here
      rw [StreamState.onData_eq]
      exact ⟨rfl,rfl,rfl,rfl,rfl,rfl,rfl,rfl⟩
    | streamAck k ack window =>
      cases mine
      have eq : e.receive id now welcome (.streamAck id ack window) = { e with
          stream := some (s.onAck ack window now) } := by
        simp [Endpoint.receive,held]
      rw [eq]
      refine ⟨out.onAck sent now,into.mono (fun t here => ⟨t,here,.refl t⟩) (fun t here => ⟨s,rfl,?_⟩)
        (fun _ _ _ old => old) (fun _ _ old => old)⟩
      cases here
      obtain ⟨_,_,_,_,_,_,_,_,_,_,_,same⟩ := s.onAck_eq ack window now
      rw [same]
      exact ⟨rfl,rfl⟩
    | streamClose k status =>
      refine flows.kept (fun t here => ?_) (fun f old => .inl old) rfl rfl rfl
      simp only [Endpoint.receive,held,Option.map_some,Option.some.injEq] at here
      subst here
      exact ⟨s,held,⟨rfl,rfl,rfl,rfl,rfl,rfl,rfl,rfl⟩,⟨rfl,rfl⟩⟩
    | streamReset k =>
      refine flows.kept (fun t here => ?_) (fun f old => .inl old) rfl rfl rfl
      simp only [Endpoint.receive,held,Option.map_some,Option.some.injEq] at here
      subst here
      exact ⟨s,held,⟨rfl,rfl,rfl,rfl,rfl,rfl,rfl,rfl⟩,⟨rfl,rfl⟩⟩
    | _ => cases mine

end Flows

/-- An end is created on a side that never had one. -/
theorem Safe.birth (safe : Safe id v) {x : Side} (kind : StreamKind) (metadata : Bytes) (needsOpen : Bool)
    (unborn : (v x).born = false) (settled : ∀ f ∈ (v x.other).flight, f.opens id = false)
    (opened : ∀ s, (v x.other).stream = some s → s.needsOpen = false)
    (owes : needsOpen = true → id % 2 = x.parity ∧ (v x.other).born = false) :
    Safe id (v.onSide x (fun e => { e with stream := some (.new id kind metadata needsOpen), born := true })) := by
  have life := safe.life x
  have peer := safe.life x.other
  have flows := flows_of_flowing safe.flowing x
  obtain ⟨wrote,got,closedAt⟩ := life.records unborn
  have quiet := life.quiet unborn
  have absent := life.absent unborn
  constructor
  · intro y
    rcases Side.eq_or_other x y with rfl | rfl
    · constructor <;> simp only [onSide_same,onSide_other]
      · intro s held
        cases held
        exact ⟨rfl,rfl⟩
      · simp [quiet]
      · intro impossible; cases impossible
      · intro impossible; cases impossible
      · intro impossible; cases impossible
      · simp [quiet]
      · simp [quiet]
      · intro s held owing
        cases held
        exact ⟨(owes owing).1,(owes owing).2,by simp [quiet]⟩
    · constructor <;> simp only [onSide_other,Side.other_other,onSide_same]
      · exact peer.noted
      · exact peer.named
      · exact peer.records
      · exact peer.quiet
      · intro _ s held
        cases held
        rfl
      · intro f member isOpen
        rw [settled f member] at isOpen; cases isOpen
      · exact peer.once
      · intro s held owing
        rw [opened s held] at owing; cases owing
  · apply flowing_onSide
    have out := flows.out
    have into := flows.into
    rw [absent,wrote,closedAt] at out
    rw [absent,got] at into
    constructor
    · show Flow _ _ _ _ _ (v x).wrote _ (v x).closedAt
      rw [wrote,closedAt]
      exact out.bornSender (by simp [quiet]) kind metadata needsOpen
    · show Flow _ _ _ _ _ _ (v x).got _
      rw [got]
      exact into.bornReceiver (by simp [quiet]) (fun s held => life.untouched unborn s held) kind metadata needsOpen

/-- The poll that sends the StreamOpen. -/
theorem Life.pollOpening (life : ∀ y, Life id v y) {x : Side} {s : StreamState} (held : (v x).stream = some s)
    (sending : ∃ w, StreamState.Sending w s ∧ s.Paced) (live : s.reset = false) (owing : s.needsOpen = true)
    (now : Nat) (y : Side) : Life id (v.onSide x (.poll id now)) y := by
  obtain ⟨parity,unborn,none⟩ := (life x).owed s held owing
  obtain ⟨own,born⟩ := (life x).noted s held
  obtain ⟨w,buffered,paced⟩ := sending
  obtain ⟨_,_,kept,closed,_⟩ := StreamState.transmit_spec buffered paced live now
  have count := StreamState.transmit_opens s now id
  rw [if_pos ⟨live,owing,own⟩] at count
  have follows := Endpoint.poll_follows (life x).noted now
  have eq : (v x).poll id now = { v x with
      stream := if (s.transmit now).1.fullyDone then Option.none else some (s.transmit now).1
      flight := (v x).flight ++ (s.transmit now).2 } := by
    simp [Endpoint.poll,held,StreamMux.pollStream,live]
  have left : ∀ t, (if (s.transmit now).1.fullyDone then Option.none else some (s.transmit now).1) = some t →
      t = (s.transmit now).1 := by
    intro t here
    split at here
    · cases here
    · cases here; rfl
  have noted := follows.noted
  rw [eq] at noted
  rcases Side.eq_or_other x y with rfl | rfl
  · constructor <;> simp only [onSide_same,onSide_other,eq]
    · exact noted
    · intro f member
      rcases List.mem_append.mp member with old | fresh
      · exact (life y).named f old
      · rw [StreamState.transmit_streamId s now fresh,own]
    · intro never; rw [born] at never; cases never
    · intro never; rw [born] at never; cases never
    · intro never; rw [born] at never; cases never
    · intro _ _ _
      exact ⟨parity,unborn⟩
    · rw [List.countP_append,none,List.countP_eq_length_filter,count]
      simp
    · intro t here needs
      rw [left t here,closed] at needs
      cases needs
  · constructor <;> simp only [onSide_other,Side.other_other,onSide_same,eq]
    · exact (life x.other).noted
    · exact (life x.other).named
    · exact (life x.other).records
    · exact (life x.other).quiet
    · intro _ t here
      rw [left t here,kept.base]
      exact (life x.other).untouched unborn s (by simpa using held)
    · intro f member
      rw [(life x.other).quiet unborn] at member
      cases member
    · exact (life x.other).once
    · intro t here
      rw [(life x.other).absent unborn] at here
      cases here

theorem Safe.poll (safe : Safe id v) (x : Side) (now : Nat) : Safe id (v.onSide x (.poll id now)) := by
  have flows := flows_of_flowing safe.flowing x
  have sending : ∀ s, (v x).stream = some s → ∃ w, StreamState.Sending w s ∧ s.Paced :=
    fun s held => ⟨_,flows.out.sending s held,flows.out.paced s held⟩
  refine ⟨?_,flowing_onSide (flows.poll now)⟩
  by_cases owing : ∃ s, (v x).stream = some s ∧ s.reset = false ∧ s.needsOpen = true
  · obtain ⟨s,held,live,needs⟩ := owing
    exact Life.pollOpening safe.life held (sending s held) live needs now
  · refine Life.onSide safe.life (poll_rewrites (safe.life x).noted (fun s held live => ?_) sending now)
    cases needs : s.needsOpen with
    | false => rfl
    | true => exact absurd ⟨s,held,live,needs⟩ owing

theorem onSide_id (v : Lane) (x : Side) : v.onSide x (fun e => e) = v := Function.update_eq_self x v

theorem onSide_comm (v : Lane) (x : Side) (f g : Endpoint → Endpoint) :
    (v.onSide x f).onSide x.other g = (v.onSide x.other g).onSide x f := by
  funext y
  rcases Side.eq_or_other x y with rfl | rfl <;> simp

/-- At most one of the counted elements is left when one of them is erased. -/
theorem none_left {frames : List Frame} {n : Nat} {frame : Frame} (once : frames.countP (Frame.opens id) ≤ 1)
    (here : frames[n]? = some frame) (isOpen : frame.opens id = true) :
    ∀ f ∈ frames.eraseIdx n, f.opens id = false := by
  have split := Multiplex.countP_eraseIdx here isOpen
  have zero : (frames.eraseIdx n).countP (Frame.opens id) = 0 := by omega
  intro f member
  simpa using List.countP_eq_zero.mp zero f member

theorem Safe.erase (safe : Safe id v) (x : Side) (n : Nat) : Safe id (v.onSide x (.erase n)) :=
  ⟨Life.onSide safe.life (erase_rewrites (safe.life x).noted n),
    flowing_onSide ((flows_of_flowing safe.flowing x).erase n)⟩

theorem Safe.deliver (safe : Safe id v) (x : Side) (n now : Nat) (welcome : Bool) :
    Safe id (v.step id (.deliver x n now welcome)) := by
  simp only [step]
  cases here : (v x).flight[n]? with
  | none => exact safe
  | some frame =>
    dsimp only
    have sent : frame ∈ (v x).flight := List.mem_of_getElem? here
    have linked : (v x).born = true := by
      cases born : (v x).born with
      | true => rfl
      | false => rw [(safe.life x).quiet born] at sent; cases sent
    cases isOpen : frame.opens id with
    | false =>
      rw [onSide_comm]
      refine Safe.erase ⟨?_,?_⟩ x n
      · exact Life.onSide safe.life (receive_rewrites (safe.life x.other).noted (by simpa using linked) now welcome
          isOpen ((safe.life x).named frame sent))
      · refine flowing_onSide ((flows_of_flowing safe.flowing x.other).receive now welcome ?_
          ((safe.life x).named frame sent) isOpen)
        rw [Side.other_other]; exact sent
    | true =>
      have erased := safe.erase x n
      obtain ⟨parity,unborn⟩ := (safe.life x).opening frame sent isOpen
      have others := none_left (safe.life x).once here isOpen
      cases frame with
      | streamOpen k kind metadata =>
        cases welcome with
        | false =>
          have same : (fun e => Endpoint.receive id now false e (.streamOpen k kind metadata)) = (fun e => e) := rfl
          rw [same,onSide_id]
          exact erased
        | true =>
          have absent := (safe.life x.other).absent unborn
          have birth := erased.birth (x := x.other) kind metadata false (by simpa using unborn)
            (by simpa [Endpoint.erase] using others) (fun s held => ?_) (by simp)
          · have eq : ((v.onSide x (.erase n)).onSide x.other
                (fun e => Endpoint.receive id now true e (.streamOpen k kind metadata))) =
                (v.onSide x (.erase n)).onSide x.other
                  (fun e => { e with stream := some (.new id kind metadata false), born := true }) := by
              unfold onSide
              congr 1
              simp [Endpoint.receive,absent]
            rw [eq]
            exact birth
          · -- An end with its StreamOpen in flight no longer owes it.
            cases owed : s.needsOpen with
            | false => rfl
            | true =>
              have none := ((safe.life x).owed s (by simpa [Endpoint.erase] using held) owed).2.2
              rw [List.countP_eq_zero] at none
              exact absurd isOpen (none _ sent)
      | _ => cases isOpen

theorem step_safe (safe : Safe id v) (e : Event) (fresh : Fresh id v e) : Safe id (v.step id e) := by
  have flows := flows_of_flowing safe.flowing
  have noted := fun x => (safe.life x).noted
  cases e with
  | openStream x kind metadata =>
    obtain ⟨parity,unborn⟩ := fresh
    refine safe.birth kind metadata true (unborn x) (fun f member => ?_) (fun s held => ?_)
      (fun _ => ⟨parity,unborn x.other⟩)
    · rw [(safe.life x.other).quiet (unborn x.other)] at member; cases member
    · rw [(safe.life x.other).absent (unborn x.other)] at held; cases held
  | write x data =>
    exact ⟨Life.onSide safe.life (write_rewrites (noted x) data),flowing_onSide ((flows x).write data)⟩
  | read x => exact ⟨Life.onSide safe.life (read_rewrites (noted x)),flowing_onSide (flows x).read⟩
  | close x status =>
    exact ⟨Life.onSide safe.life (close_rewrites (noted x) status),flowing_onSide ((flows x).close status)⟩
  | reset x => exact ⟨Life.onSide safe.life (reset_rewrites (noted x)),flowing_onSide (flows x).reset⟩
  | poll x now => exact safe.poll x now
  | deliver x n now welcome => exact safe.deliver x n now welcome
  | lose x n => exact safe.erase x n
  | idle => exact safe

/-- No event but an opening brings an unborn stream to life. -/
theorem step_unborn (safe : Safe id v) (unborn : ∀ y, (v y).born = false) {e : Event}
    (other : ∀ x kind metadata, e ≠ .openStream x kind metadata) (y : Side) : (v.step id e y).born = false := by
  have absent := fun x => (safe.life x).absent (unborn x)
  have quiet := fun x => (safe.life x).quiet (unborn x)
  have still : ∀ (x : Side) (f : Endpoint → Endpoint), (f (v x)).born = false → (v.onSide x f y).born = false := by
    intro x f same
    rcases Side.eq_or_other x y with rfl | rfl
    · rw [onSide_same]; exact same
    · rw [onSide_other]; exact unborn _
  cases e with
  | openStream x kind metadata => exact absurd rfl (other x kind metadata)
  | write x data => exact still x _ (by simp [Endpoint.write,absent x,unborn x])
  | read x => exact still x _ (by simp [Endpoint.read,absent x,unborn x])
  | close x status => exact still x _ (by simp [Endpoint.close,absent x,unborn x])
  | reset x => exact still x _ (unborn x)
  | poll x now => exact still x _ (by simp [Endpoint.poll,absent x,unborn x])
  | deliver x n now welcome =>
    simp only [step,quiet x,List.getElem?_nil]
    exact unborn y
  | lose x n => exact still x _ (unborn x)
  | idle => exact unborn y

/-- What an event can do to an end that side `y` holds before and after it. -/
inductive Evolves (v : Lane) (y : Side) : Event → StreamState → StreamState → Prop where
  | same {e : Event} {s : StreamState} : Evolves v y e s s
  | write {data : Bytes} {s : StreamState} : Evolves v y (.write y data) s (s.write data)
  | read {s : StreamState} : Evolves v y (.read y) s { s with recv := s.recv.read.2 }
  | close {status : Int} {s : StreamState} :
      Evolves v y (.close y status) s { s with sendFin := true, closeStatus := some status }
  | reset {s : StreamState} : Evolves v y (.reset y) s { s with reset := true }
  | poll {now : Nat} {s : StreamState} : s.reset = false → (s.transmit now).1.fullyDone = false →
      Evolves v y (.poll y now) s (s.transmit now).1
  | data {x : Side} {n now : Nat} {welcome : Bool} {k offset : Nat} {data : Bytes} {fin : Bool} {s : StreamState} :
      x.other = y → (v x).flight[n]? = some (.streamData k offset data fin) →
      Evolves v y (.deliver x n now welcome) s (s.onData offset data fin).1
  | ack {x : Side} {n now : Nat} {welcome : Bool} {k ack window : Nat} {s : StreamState} :
      x.other = y → (v x).flight[n]? = some (.streamAck k ack window) →
      Evolves v y (.deliver x n now welcome) s (s.onAck ack window now)
  | closed {x : Side} {n now : Nat} {welcome : Bool} {k : Nat} {status : Int} {s : StreamState} :
      x.other = y → (v x).flight[n]? = some (.streamClose k status) →
      Evolves v y (.deliver x n now welcome) s { s with closeReceived := true }
  | aborted {x : Side} {n now : Nat} {welcome : Bool} {k : Nat} {s : StreamState} :
      x.other = y → (v x).flight[n]? = some (.streamReset k) →
      Evolves v y (.deliver x n now welcome) s { s with reset := true }

/-- An end after an event is the one before it, evolved, or one created on a side that
never had one. -/
theorem step_evolves (safe : Safe id v) {e : Event} (fresh : Fresh id v e) {y : Side} {t : StreamState}
    (here : (v.step id e y).stream = some t) :
    (∃ s, (v y).stream = some s ∧ Evolves v y e s t) ∨
    (v y).born = false ∧ ∃ kind metadata needsOpen, t = .new id kind metadata needsOpen ∧
      (id % 2 = y.parity ∧ needsOpen = true ∨ id % 2 = y.other.parity ∧ (v y.other).born = true) := by
  have touched := step_touch id v e y
  generalize v.step id e y = e' at touched here
  cases touched with
  | same => exact .inl ⟨t,here,.same⟩
  | openStream => exact .inr ⟨fresh.2 y,_,_,_,(Option.some.inj here).symm,.inl ⟨fresh.1,rfl⟩⟩
  | write =>
    unfold Endpoint.write at here
    split at here
    · rename_i s held
      split at here
      · cases here; exact .inl ⟨s,held,.write⟩
      · exact .inl ⟨t,here,.same⟩
    · exact .inl ⟨t,here,.same⟩
  | read =>
    unfold Endpoint.read at here
    split at here
    · rename_i s held
      cases here; exact .inl ⟨s,held,.read⟩
    · exact .inl ⟨t,here,.same⟩
  | close =>
    unfold Endpoint.close at here
    split at here
    · rename_i s held
      cases here; exact .inl ⟨s,held,.close⟩
    · exact .inl ⟨t,here,.same⟩
  | reset =>
    simp only [Endpoint.reset,Option.map_eq_some_iff] at here
    obtain ⟨s,held,rfl⟩ := here
    exact .inl ⟨s,held,.reset⟩
  | @poll now =>
    cases held : (v y).stream with
    | none => simp [Endpoint.poll,held] at here
    | some s =>
      simp only [Endpoint.poll,held,StreamMux.pollStream] at here
      split at here
      · cases here
      · rename_i live
        dsimp only at here
        split at here
        · cases here
        · rename_i open_
          cases here
          exact .inl ⟨s,rfl,.poll (by simpa using live) (by simpa using open_)⟩
  | sent => exact .inl ⟨t,here,.same⟩
  | lost => exact .inl ⟨t,here,.same⟩
  | @receive x n now welcome frame peer sent =>
    cases frame with
    | streamOpen k kind metadata =>
      simp only [Endpoint.receive] at here
      split at here
      · have member := List.mem_of_getElem? sent
        have isOpen : Frame.opens id (.streamOpen k kind metadata) = true := by
          simpa [Frame.opens,Frame.streamId] using (safe.life x).named _ member
        have linked : (v x).born = true := by
          cases born : (v x).born with
          | true => rfl
          | false => rw [(safe.life x).quiet born] at member; cases member
        obtain ⟨parity,unborn⟩ := (safe.life x).opening _ member isOpen
        subst peer
        rw [Side.other_other]
        exact .inr ⟨unborn,_,_,_,(Option.some.inj here).symm,.inr ⟨parity,linked⟩⟩
      · exact .inl ⟨t,here,.same⟩
    | streamData k offset data fin =>
      simp only [Endpoint.receive] at here
      split at here
      · rename_i s held
        cases here; exact .inl ⟨s,held,.data peer sent⟩
      · exact .inl ⟨t,here,.same⟩
    | streamAck k ack window =>
      simp only [Endpoint.receive,Option.map_eq_some_iff] at here
      obtain ⟨s,held,rfl⟩ := here
      exact .inl ⟨s,held,.ack peer sent⟩
    | streamClose k status =>
      simp only [Endpoint.receive,Option.map_eq_some_iff] at here
      obtain ⟨s,held,rfl⟩ := here
      exact .inl ⟨s,held,.closed peer sent⟩
    | streamReset k =>
      simp only [Endpoint.receive,Option.map_eq_some_iff] at here
      obtain ⟨s,held,rfl⟩ := here
      exact .inl ⟨s,held,.aborted peer sent⟩
    | _ => exact .inl ⟨t,here,.same⟩

/-- What an event does to an end's part in closing the stream: nothing, or it is closed or reset
by its own side or by a frame of the peer. -/
inductive Ends (v : Lane) (y : Side) (e : Event) (s t : StreamState) : Prop where
  | kept (sendFin : t.sendFin = s.sendFin) (closeStatus : t.closeStatus = s.closeStatus)
    (closeReceived : t.closeReceived = s.closeReceived) (reset : t.reset = s.reset)
  | close (status : Int) (called : e = .close y status) (after : t = { s with sendFin := true, closeStatus := some status })
  | reset (called : e = .reset y) (after : t = { s with reset := true })
  | closed (x : Side) (n now : Nat) (welcome : Bool) (k : Nat) (status : Int) (peer : x.other = y)
    (delivered : e = .deliver x n now welcome) (sent : (v x).flight[n]? = some (.streamClose k status))
    (after : t = { s with closeReceived := true })
  | aborted (x : Side) (n now : Nat) (welcome : Bool) (k : Nat) (peer : x.other = y)
    (delivered : e = .deliver x n now welcome) (sent : (v x).flight[n]? = some (.streamReset k))
      (after : t = { s with reset := true })

theorem Evolves.ends (safe : Safe id v) {y : Side} {e : Event} {s t : StreamState} (held : (v y).stream = some s)
    (evolves : Evolves v y e s t) : Ends v y e s t := by
  have flow := safe.flowing y
  cases evolves with
  | close => exact .close _ rfl rfl
  | reset => exact .reset rfl rfl
  | closed peer sent => exact .closed _ _ _ _ _ _ peer rfl sent rfl
  | aborted peer sent => exact .aborted _ _ _ _ _ peer rfl sent rfl
  | @poll now _ live _ =>
    obtain ⟨_,_,kept,_⟩ := StreamState.transmit_spec (flow.sending s held) (flow.paced s held) live now
    exact .kept kept.sendFin kept.closeStatus kept.closeReceived kept.reset
  | data =>
    rw [StreamState.onData_eq]
    exact .kept rfl rfl rfl rfl
  | @ack _ _ now _ _ ack window _ _ =>
    obtain ⟨_,_,_,_,_,_,_,_,_,_,_,eq⟩ := s.onAck_eq ack window now
    rw [eq]
    exact .kept rfl rfl rfl rfl
  | _ => exact .kept rfl rfl rfl rfl

section Ends

variable {y : Side} {e : Event} {s t : StreamState} (ends : Ends v y e s t)
include ends

theorem Ends.status : t.closeStatus = s.closeStatus ∧ t.sendFin = s.sendFin ∨
    ∃ status, e = .close y status ∧ t.closeStatus = some status ∧ t.sendFin = true := by
  cases ends with
  | kept sendFin closeStatus => exact .inl ⟨closeStatus,sendFin⟩
  | close status called after =>
    subst after
    exact .inr ⟨status,called,rfl,rfl⟩
  | reset _ after | closed _ _ _ _ _ _ _ _ _ after | aborted _ _ _ _ _ _ _ _ after =>
    subst after
    exact .inl ⟨rfl,rfl⟩

theorem Ends.received : t.closeReceived = s.closeReceived ∨
    (∃ x n now welcome k status, x.other = y ∧ e = .deliver x n now welcome ∧ (v x).flight[n]? = some (.streamClose k status)) ∧
      t.closeReceived = true := by
  cases ends with
  | kept _ _ closeReceived => exact .inl closeReceived
  | closed x n now welcome k status peer delivered sent after =>
    subst after
    exact .inr ⟨⟨x,n,now,welcome,k,status,peer,delivered,sent⟩,rfl⟩
  | close _ _ after | reset _ after | aborted _ _ _ _ _ _ _ _ after =>
    subst after
    exact .inl rfl

theorem Ends.resets : t.reset = s.reset ∨ (e = .reset y ∨
    ∃ x n now welcome k, x.other = y ∧ e = .deliver x n now welcome ∧
      (v x).flight[n]? = some (.streamReset k)) ∧ t.reset = true := by
  cases ends with
  | kept _ _ _ reset => exact .inl reset
  | reset called after =>
    subst after
    exact .inr ⟨.inl called,rfl⟩
  | aborted x n now welcome k peer delivered sent after =>
    subst after
    exact .inr ⟨.inr ⟨x,n,now,welcome,k,peer,delivered,sent⟩,rfl⟩
  | close _ _ after | closed _ _ _ _ _ _ _ _ _ after =>
    subst after
    exact .inl rfl

end Ends

end Lane
end Noissh

import Noissh.Driver
import Noissh.Notice

/-! What the driver's own calls at one end do to the link: nothing to the other end's records,
nothing to what has arrived, and only a read moves bytes to the application. -/
namespace Noissh

/-- Bytes of the stream that have reached this end without a gap, read or not. -/
def Endpoint.arrived (e : Endpoint) : Nat := e.got.length + (e.stream.elim 0 (·.recv.unread))

namespace Lane

variable {id : Nat} {v : Lane} {x : Side}

/-- The event is a call of the application at side `x`. -/
def Event.own (x : Side) : Event → Prop
  | .openStream y _ _ => y = x
  | .write y _ => y = x
  | .read y => y = x
  | .close y _ => y = x
  | .reset y => y = x
  | .idle => True
  | _ => False

theorem step_own_other {e : Event} (own : e.own x) : v.step id e x.other = v x.other := by
  cases e with
  | poll | deliver | lose => cases own
  | idle => rfl
  | _ => cases own; exact onSide_other v _ _

theorem step_own_got {e : Event} (own : e.own x) (unread : e ≠ .read x) : (v.step id e x).got = (v x).got := by
  have touched := step_touch id v e x
  generalize v.step id e x = e' at touched
  cases touched with
  | same => rfl
  | openStream => rfl
  | write =>
    unfold Endpoint.write
    split
    · split <;> rfl
    · rfl
  | read => exact absurd rfl unread
  | close => unfold Endpoint.close; split <;> rfl
  | reset => rfl
  | _ => cases own

theorem step_own_arrived (safe : Safe id v) {e : Event} (own : e.own x) (fresh : Fresh id v e) :
    (v.step id e x).arrived = (v x).arrived := by
  have touched := step_touch id v e x
  generalize v.step id e x = e' at touched
  cases touched with
  | same => rfl
  | openStream =>
    have unborn := fresh.2 x
    have absent := (safe.life x).absent unborn
    simp only [Endpoint.arrived,absent,Endpoint.openStream]
    rfl
  | write =>
    unfold Endpoint.write
    split
    · rename_i s held
      split
      · simp only [Endpoint.arrived,held]; rfl
      · rfl
    · rfl
  | read =>
    cases held : (v x).stream with
    | none => simp only [Endpoint.read,held]
    | some s =>
      have valid := (flows_of_flowing safe.flowing x).into.recv s held
      have length := s.recv.read_length
      simp only [Endpoint.arrived,Endpoint.read,held,Option.elim_some,List.length_append,Reassembler.read_unread valid]
      omega
  | close =>
    unfold Endpoint.close
    split
    · rename_i s held
      simp only [Endpoint.arrived,held]; rfl
    · rfl
  | reset =>
    cases held : (v x).stream with
    | none => simp [Endpoint.arrived,Endpoint.reset,held]
    | some s => simp [Endpoint.arrived,Endpoint.reset,held]
  | _ => cases own

end Lane

namespace Link

/-- The action is a call of the application at side `x`, other than taking its events. -/
def ownCall (x : Side) : Action → Bool
  | .openStream y _ _ => y == x
  | .write y _ _ => y == x
  | .read y _ => y == x
  | .close y _ _ => y == x
  | .reset y _ => y == x
  | _ => false

theorem event_own {l : Link} {x : Side} {a : Action} (own : ownCall x a = true) (k : Nat) : (l.event k a).own x := by
  cases a with
  | takeEvents | poll | deliver | lose => cases own
  | _ =>
    simp only [ownCall,beq_iff_eq] at own
    simp only [event]
    split
    · exact own
    · trivial

def arrived (l : Link) (x : Side) (k : Nat) : Nat := (l.got x k).length + (l.mux x).recvBuffered k

theorem arrived_lane (l : Link) (x : Side) (k : Nat) : l.arrived x k = (l.lane k x).arrived := by
  have unread : (l.mux x).recvBuffered k = (l.lane k x).stream.elim 0 (·.recv.unread) := by
    cases held : (l.mux x).streams[k]? with
    | none => simp [StreamMux.recvBuffered,lane,stream,held]
    | some s => simp [StreamMux.recvBuffered,lane,stream,held]
  unfold arrived
  rw [unread]
  rfl

/-- The link after calls at side `x` that read no stream but `k`. -/
structure Serves (x : Side) (k : Option Nat) (l l' : Link) : Prop where
  safe : l'.Safe
  announced : l'.Announced
  events : (l'.mux x).events = (l.mux x).events
  born : ∀ j, l.born x j = true → l'.born x j = true
  got : ∀ j, k ≠ some j → l'.got x j = l.got x j
  arrived : ∀ j, l'.arrived x j = l.arrived x j
  wrote : ∀ j, l'.wrote x.other j = l.wrote x.other j
  closedAt : ∀ j, l'.closedAt x.other j = l.closedAt x.other j

theorem Serves.refl {l : Link} (safe : l.Safe) (announced : l.Announced) (x : Side) (k : Option Nat) : Serves x k l l :=
  ⟨safe,announced,rfl,fun _ born => born,fun _ _ => rfl,fun _ => rfl,fun _ => rfl,fun _ => rfl⟩

theorem Serves.trans {x : Side} {k : Option Nat} {a b c : Link} (first : Serves x k a b) (second : Serves x k b c) :
    Serves x k a c where
  safe := second.safe
  announced := second.announced
  events := second.events.trans first.events
  born j born := second.born j (first.born j born)
  got j other := (second.got j other).trans (first.got j other)
  arrived j := (second.arrived j).trans (first.arrived j)
  wrote j := (second.wrote j).trans (first.wrote j)
  closedAt j := (second.closedAt j).trans (first.closedAt j)

/-- Calls that read nothing may be counted as reading any one stream. -/
theorem Serves.weaken {x : Side} {a b : Link} (serves : Serves x none a b) (k : Option Nat) : Serves x k a b :=
  { serves with got := fun j _ => serves.got j nofun }

theorem serves_step {l : Link} (safe : l.Safe) (announced : l.Announced) {x : Side} {a : Action}
    (own : ownCall x a = true) {k : Option Nat} (reads : ∀ j, a = .read x j → k = some j) : Serves x k l (l.step a) := by
  have lane := fun j => lane_step safe.keyed a j
  have other : ∀ j, (l.step a).lane j x.other = l.lane j x.other := by
    intro j
    rw [lane j]
    exact Lane.step_own_other (event_own own j)
  have quiet : takesAt x a = false := by
    cases a with
    | takeEvents => cases own
    | _ => rfl
  refine ⟨step_safe safe a,step_announced safe announced a,?_,fun j => step_born l a,fun j unread => ?_,fun j => ?_,
    fun j => congrArg Endpoint.wrote (other j),fun j => congrArg Endpoint.closedAt (other j)⟩
  · rcases l.step_events quiet with same | ⟨n,_,_,rfl,_⟩
    · exact same
    · cases own
  · have kept := @Lane.step_own_got j (l.lane j) x _ (event_own (l := l) own j) (fun isRead => by
      cases a with
      | read y i =>
        simp only [event] at isRead
        split at isRead
        · rename_i here
          cases isRead
          exact unread (reads j (by rw [here]))
        · cases isRead
      | openStream | write | close | reset =>
        simp only [event] at isRead
        split at isRead <;> cases isRead
      | _ => cases own)
    rw [← lane j] at kept
    exact kept
  · rw [arrived_lane,arrived_lane,lane j]
    exact Lane.step_own_arrived (safe.lanes j) (event_own own j) (event_fresh safe a j)

/-- A read hands over everything that has arrived. -/
theorem read_buffered {l : Link} (safe : l.Safe) (x : Side) (k : Nat) :
    ((l.step (.read x k)).mux x).recvBuffered k = 0 := by
  have mux : (l.step (.read x k)).mux x = ((l.mux x).read k).2 := by
    simp [step,note,act,setMux]
  rw [mux]
  unfold StreamMux.recvBuffered StreamMux.read
  cases held : (l.mux x).streams[k]? with
  | none => simp [held]
  | some s =>
    have valid := (Lane.flows_of_flowing (safe.lanes k).flowing x).into.recv s held
    simp [Reassembler.read_unread valid]

theorem read_got (l : Link) (x : Side) (k : Nat) :
    (l.step (.read x k)).got x k = l.got x k ++ ((l.mux x).read k).1 := by
  show (l.act (.read x k)).got x k = _
  simp [act,put]

theorem read_length (l : Link) (x : Side) (k : Nat) : ((l.mux x).read k).1.length = (l.mux x).recvBuffered k := by
  unfold StreamMux.read StreamMux.recvBuffered
  split
  · exact Reassembler.read_length _
  · rfl

theorem step_got (l : Link) {a : Action} {x : Side} {j : Nat} (unread : a ≠ .read x j) : (l.step a).got x j = l.got x j := by
  show (l.act a).got x j = _
  cases a with
  | read y k =>
    simp only [act]
    rw [put_apply,if_neg (fun here => unread (by rw [here.1,here.2]))]
  | write y k data =>
    simp only [act]
    split
    · split <;> rfl
    · rfl
  | close y k status => simp only [act]; split <;> rfl
  | deliver y n => simp only [act]; split <;> rfl
  | _ => rfl

theorem step_wrote (l : Link) {a : Action} {x : Side} {j : Nat} (unwritten : ∀ data, a ≠ .write x j data) :
    (l.step a).wrote x j = l.wrote x j := by
  show (l.act a).wrote x j = _
  cases a with
  | write y k data =>
    simp only [act]
    split
    · split
      · dsimp only
        rw [put_apply,if_neg (fun here => unwritten data (by rw [here.1,here.2]))]
      · rfl
    · rfl
  | close y k status => simp only [act]; split <;> rfl
  | deliver y n => simp only [act]; split <;> rfl
  | _ => rfl

theorem step_unclosed (l : Link) {a : Action} {x : Side} {j : Nat} (unclosed : ∀ status, a ≠ .close x j status) :
    (l.step a).closedAt x j = l.closedAt x j := by
  show (l.act a).closedAt x j = _
  cases a with
  | write y k data =>
    simp only [act]
    split
    · split <;> rfl
    · rfl
  | close y k status =>
    simp only [act]
    split
    · dsimp only
      rw [put_apply,if_neg (fun here => unclosed status (by rw [here.1,here.2]))]
    · rfl
  | deliver y n => simp only [act]; split <;> rfl
  | _ => rfl

/-- A write to a stream that is held, and that its counter can still count. -/
theorem write_wrote {l : Link} {x : Side} {k : Nat} {s : StreamState} (safe : l.Safe) (held : l.stream x k = some s)
    {data : Bytes} (fits : (l.wrote x k).length + data.length ≤ u64Max) :
    (l.step (.write x k data)).wrote x k = l.wrote x k ++ data := by
  have next : s.sendNext = (l.wrote x k).length := ((safe.flow x k).sending s held).next
  show (l.act (.write x k data)).wrote x k = _
  simp only [act,held,if_pos (show s.sendNext + data.length ≤ u64Max by rw [next]; exact fits)]
  rw [put_apply,if_pos ⟨rfl,rfl⟩]

theorem close_closedAt (l : Link) (x : Side) (k : Nat) (status : Int) {n : Nat} (unclosed : l.closedAt x k = none)
    (closed : (l.step (.close x k status)).closedAt x k = some n) : n = (l.wrote x k).length := by
  change (l.act (.close x k status)).closedAt x k = some n at closed
  simp only [act] at closed
  split at closed
  · dsimp only at closed
    rw [put_apply,if_pos ⟨rfl,rfl⟩,unclosed] at closed
    exact (Option.some.inj closed).symm
  · rw [unclosed] at closed
    cases closed

/-- Every byte the other side wrote before closing is among these. -/
def Whole (l : Link) (x : Side) (k : Nat) (bytes : Bytes) : Prop :=
  ∃ n, l.closedAt x.other k = some n ∧ (l.wrote x.other k).take n <+: bytes

theorem Whole.step {l : Link} (safe : l.Safe) {x : Side} {k : Nat} {bytes : Bytes} (whole : l.Whole x k bytes)
    (a : Action) : (l.step a).Whole x k bytes := by
  obtain ⟨n,closed,within⟩ := whole
  refine ⟨n,step_closedAt_kept l safe a closed,?_⟩
  have short : n ≤ (l.wrote x.other k).length := (safe.flow x.other k).closedLe n closed
  have grown : l.wrote x.other k <+: (l.step a).wrote x.other k := by
    show l.wrote x.other k <+: (l.act a).wrote x.other k
    cases a with
    | write y j data =>
      simp only [act]
      split
      · split
        · dsimp only
          rw [put_apply]
          split
          · rename_i here
            rw [here.1,here.2]
            exact List.prefix_append _ _
          · exact List.prefix_refl _
        · exact List.prefix_refl _
      · exact List.prefix_refl _
    | close y j status => simp only [act]; split <;> exact List.prefix_refl _
    | deliver y j => simp only [act]; split <;> exact List.prefix_refl _
    | _ => exact List.prefix_refl _
  obtain ⟨more,eq⟩ := grown
  rw [← eq,List.take_append_of_le_length short]
  exact within

theorem Whole.serves {l l' : Link} {x : Side} {j : Option Nat} (serves : Serves x j l l') {k : Nat} {bytes : Bytes}
    (whole : l.Whole x k bytes) : l'.Whole x k bytes := by
  obtain ⟨n,closed,within⟩ := whole
  exact ⟨n,by rw [serves.closedAt]; exact closed,by rw [serves.wrote]; exact within⟩

/-- What has been read is whole once it reaches the close. -/
theorem Safe.whole {l : Link} (safe : l.Safe) {x : Side} {k n : Nat} (closed : l.closedAt x.other k = some n)
    (reached : n ≤ (l.got x k).length) : l.Whole x k (l.got x k) := by
  have got : l.got x k <+: l.wrote x.other k := by simpa [lane] using (safe.flow x.other k).got
  refine ⟨n,closed,?_⟩
  obtain ⟨rest,eq⟩ := got
  rw [← eq,List.take_append_of_le_length reached]
  exact List.take_prefix _ _

end Link
end Noissh

import Noissh.DriverRuns

/-! Forwarded connections over every run: when a connection may be reaped without truncating
the bytes of the other side. -/
namespace Noissh

/-- The event tells of the stream's close. -/
def StreamEvent.closes (k : Nat) : StreamEvent → Bool
  | .closed j _ => j == k
  | _ => false

namespace Driver

variable {x : Side} {pending : List StreamEvent} {d : Driver} {io : Io}

/-- Every byte the other side wrote before closing has arrived. -/
def allArrived (l : Link) (x : Side) (k : Nat) : Bool :=
  match l.closedAt x.other k with
  | some n => decide (n ≤ l.arrived x k)
  | none => true

/-- The streams whose opening as a forward is still to be handled. -/
def openedForwards (pending : List StreamEvent) : List Nat :=
  pending.filterMap (fun
    | .opened k .forward _ => some k
    | _ => none)

/-- The connection was told of the other side's close, or will be by a pending event. -/
def heard (d : Driver) (pending : List StreamEvent) (k : Nat) : Bool :=
  (d.forwards[k]?).any (·.peerClosed) || pending.any (StreamEvent.closes k)

/-- The local socket is at its end, or will be read to it. -/
def ended (d : Driver) (io : Io) (k : Nat) : Bool :=
  (d.forwards[k]?).any (·.readClosed) || ReadResult.reachEof (io k).reads

/-- Whenever the pump looks at a connection that was told of the other side's close and whose
socket is at its end, the bytes before that close have arrived. -/
def arrivesFirst (x : Side) (d : Driver) : Action → Bool
  | .pump io =>
    (d.forwards.keys ++ openedForwards (d.link.mux x).events).all (fun k =>
      !(d.heard (d.link.mux x).events k && d.ended io k) || allArrived d.link x k)
  | _ => true

/-- No connection was reaped, its socket being alive, before it had written every byte the
other side wrote before closing. -/
def ForwardsWhole (d : Driver) (x : Side) : Prop :=
  ∀ k c, d.reaped k = some c → c.dead = false → d.link.Whole x k c.sent

/-- The condition of `arrivesFirst` in the middle of a pump. -/
def ArrivesFirst (x : Side) (io : Io) (pending : List StreamEvent) (d : Driver) : Prop :=
  ∀ k, (d.forwards[k]?).isSome = true ∨ k ∈ openedForwards pending → d.heard pending k = true → d.ended io k = true →
    allArrived d.link x k = true

theorem allArrived_serves {l l' : Link} {j : Option Nat} (serves : Link.Serves x j l l') (k : Nat) :
    allArrived l' x k = allArrived l x k := by
  unfold allArrived
  rw [serves.closedAt,serves.arrived]

theorem onOpened_exec_forwards (d : Driver) (x : Side) (io : StreamIo) (k : Nat) :
    (d.onOpened x io k .exec).forwards = d.forwards := by
  cases x with
  | client => rfl
  | server =>
    simp only [onOpened]
    split
    · rfl
    · split <;> rfl

theorem allArrived_take {l : Link} (safe : l.Safe) (x : Side) (k : Nat) :
    allArrived (l.step (.takeEvents x)) x k = allArrived l x k := by
  unfold allArrived
  rw [Link.arrived_lane,Link.arrived_lane,Link.lane_step safe.keyed]
  rfl

theorem mem_openedForwards {k : Nat} : k ∈ openedForwards pending ↔ ∃ metadata, .opened k .forward metadata ∈ pending := by
  unfold openedForwards
  constructor
  · intro opened
    obtain ⟨event,member,eq⟩ := List.mem_filterMap.mp opened
    split at eq
    · rename_i j metadata
      cases eq
      exact ⟨metadata,member⟩
    · cases eq
  · rintro ⟨metadata,member⟩
    exact List.mem_filterMap.mpr ⟨_,member,rfl⟩

/-- What an event does to a connection: a started forward attaches one, a close is marked on
it and a reset removes it. -/
theorem handleEvent_forwards (d : Driver) (x : Side) (io : Io) (event : StreamEvent) (k : Nat) :
    ((d.handleEvent x io event).forwards[k]? = d.forwards[k]? ∧
      ((io k).started = true → ∀ metadata, event ≠ .opened k .forward metadata)) ∨
    (∃ metadata, event = .opened k .forward metadata ∧ (io k).started = true ∧
      (d.handleEvent x io event).forwards[k]? = some {}) ∨
    (∃ status c, event = .closed k status ∧ d.forwards[k]? = some c ∧
      (d.handleEvent x io event).forwards[k]? = some { c with peerClosed := true }) ∨
    (event = .reset k ∧ (d.handleEvent x io event).forwards[k]? = none) := by
  cases event with
  | opened j kind metadata =>
    cases kind with
    | forward =>
      by_cases started : (io j).started = true
      · by_cases same : k = j
        · subst same
          exact .inr (.inl ⟨metadata,rfl,started,by simp [handleEvent,onOpened,started]⟩)
        · refine .inl ⟨?_,fun _ _ opened => same (by cases opened; rfl)⟩
          simp only [handleEvent,onOpened,if_pos started]
          exact TreeMaps.getElem?_insert_ne _ _ same
      · refine .inl ⟨by simp [handleEvent,onOpened,started],fun here _ opened => ?_⟩
        cases opened
        exact started here
    | exec => exact .inl ⟨congrArg (·[k]?) (onOpened_exec_forwards d x (io j) j),by simp⟩
    | session | fileTransfer | agent => exact .inl ⟨rfl,by simp⟩
  | readable j => exact .inl ⟨rfl,by simp⟩
  | closed j status =>
    by_cases same : k = j
    · subst same
      cases held : d.forwards[k]? with
      | none =>
        refine .inl ⟨?_,by simp⟩
        simp only [handleEvent,onClosed,held]
        split <;> simp [held]
      | some c =>
        refine .inr (.inr (.inl ⟨status,c,rfl,rfl,?_⟩))
        simp only [handleEvent,onClosed,held]
        split <;> simp
    · refine .inl ⟨?_,by simp⟩
      simp only [handleEvent,onClosed]
      split <;> split <;> first | exact TreeMaps.getElem?_insert_ne _ _ same | rfl
  | reset j =>
    by_cases same : k = j
    · subst same
      refine .inr (.inr (.inr ⟨rfl,?_⟩))
      simp only [handleEvent,onReset]
      split <;> simp
    · refine .inl ⟨?_,by simp⟩
      simp only [handleEvent,onReset]
      split <;> exact TreeMaps.getElem?_erase_ne _ same

theorem openedForwards_tail {event : StreamEvent} {k : Nat} (opened : k ∈ openedForwards pending) :
    k ∈ openedForwards (event :: pending) := by
  obtain ⟨metadata,member⟩ := mem_openedForwards.mp opened
  exact mem_openedForwards.mpr ⟨metadata,List.mem_cons_of_mem _ member⟩

theorem handleEvent_arrives {event : StreamEvent} (valid : d.Valid x (event :: pending))
    (first : d.ArrivesFirst x io (event :: pending)) : (d.handleEvent x io event).ArrivesFirst x io pending := by
  intro k mine heard ended
  rw [allArrived_serves (handleEvent_serves valid.safe valid.announced x io event) k]
  -- An event that leaves the connection alone can only shorten what is pending.
  have unchanged : (d.handleEvent x io event).forwards[k]? = d.forwards[k]? → allArrived d.link x k = true := by
    intro same
    unfold Driver.heard Driver.ended at *
    rw [same] at mine heard ended
    refine first k (mine.imp id openedForwards_tail) ?_ ended
    unfold Driver.heard
    rw [List.any_cons]
    simp only [Bool.or_eq_true] at heard ⊢
    exact heard.imp id .inr
  rcases d.handleEvent_forwards x io event k with
    ⟨same,_⟩ | ⟨metadata,rfl,_,attached⟩ | ⟨status,c,rfl,held,after⟩ | ⟨rfl,erased⟩
  · exact unchanged same
  · unfold Driver.heard at heard
    unfold Driver.ended at ended
    rw [attached] at heard ended
    refine first k (.inr (mem_openedForwards.mpr ⟨metadata,List.mem_cons_self⟩)) ?_ ?_
    · unfold Driver.heard
      simp only [Option.any_some,Bool.false_or] at heard
      simp [heard]
    · unfold Driver.ended
      simp only [Option.any_some,Bool.false_or] at ended
      simp [ended]
  · unfold Driver.ended at ended
    rw [after] at ended
    refine first k (.inl (by rw [held]; rfl)) (by simp [Driver.heard,StreamEvent.closes]) ?_
    unfold Driver.ended
    rw [held]
    exact ended
  · have opened : k ∈ openedForwards pending := by
      rw [erased] at mine
      exact mine.resolve_left (by simp)
    have waiting : pending.any (StreamEvent.opens k) = true := by
      obtain ⟨metadata,member⟩ := mem_openedForwards.mp opened
      exact StreamEvent.any_opens member
    exact unchanged (by rw [erased,(valid.weaken.waiting k waiting).1])

theorem pumpForward_arrives (valid : d.Valid x []) (first : d.ArrivesFirst x io []) (j : Nat) :
    (d.pumpForward x io j).ArrivesFirst x io [] := by
  intro k mine heard ended
  rw [allArrived_serves (pumpForward_serves valid io j) k]
  have unchanged : (d.pumpForward x io j).forwards[k]? = d.forwards[k]? → allArrived d.link x k = true := by
    intro same
    unfold Driver.heard Driver.ended at *
    rw [same] at mine heard ended
    exact first k mine heard ended
  cases held : d.forwards[j]? with
  | none => exact unchanged (by simp only [pumpForward,held])
  | some c =>
    have spec := pumpConn_spec (io j) valid.safe valid.announced (valid.carries j c held).1
    obtain ⟨_,_,closed,read,_⟩ := spec
    by_cases same : k = j
    · subst same
      by_cases finished : (pumpConn x k (io k) d.link c).2.isFinished = true
      · have erased : (d.pumpForward x io k).forwards[k]? = none := by
          simp only [pumpForward,held,if_pos finished]
          simp
        rw [erased] at mine
        simp [openedForwards] at mine
      · have after : (d.pumpForward x io k).forwards[k]? = some (pumpConn x k (io k) d.link c).2 := by
          simp only [pumpForward,held,if_neg finished]
          simp
        unfold Driver.heard at heard
        unfold Driver.ended at ended
        rw [after] at heard ended
        refine first k (.inl (by rw [held]; rfl)) ?_ ?_
        · simp only [Option.any_some,List.any_nil,Bool.or_false] at heard
          rw [closed] at heard
          simp [Driver.heard,held,heard]
        · simp only [Option.any_some,Bool.or_eq_true] at ended
          simp only [Driver.ended,held,Option.any_some,Bool.or_eq_true]
          rcases ended with before | eof
          · exact read before
          · exact .inr eof
    · refine unchanged ?_
      simp only [pumpForward,held]
      split
      · exact TreeMaps.getElem?_erase_ne _ same
      · exact TreeMaps.getElem?_insert_ne _ _ same

/-- A connection reaped alive has written all that had arrived. -/
theorem pumpForward_whole (valid : d.Valid x []) (first : d.ArrivesFirst x io []) (whole : d.ForwardsWhole x) (j : Nat) :
    (d.pumpForward x io j).ForwardsWhole x := by
  intro k c' reaped live
  have serves := pumpForward_serves valid io j
  have old : ∀ c, d.reaped k = some c → c.dead = false → (d.pumpForward x io j).link.Whole x k c.sent :=
    fun c before alive => (whole k c before alive).serves serves
  cases held : d.forwards[j]? with
  | none => exact old c' (by simpa only [pumpForward,held] using reaped) live
  | some c =>
    obtain ⟨pumped,carries,closed,read,all⟩ := pumpConn_spec (io j) valid.safe valid.announced (valid.carries j c held).1
    by_cases finished : (pumpConn x j (io j) d.link c).2.isFinished = true
    · have link : (d.pumpForward x io j).link = (pumpConn x j (io j) d.link c).1 := by
        simp only [pumpForward,held,if_pos finished]
      have record : (d.pumpForward x io j).reaped = Function.update d.reaped j (some (pumpConn x j (io j) d.link c).2) := by
        simp only [pumpForward,held,if_pos finished]
      rw [record] at reaped
      rw [link]
      by_cases same : k = j
      · subst same
        rw [Function.update_self,Option.some.injEq] at reaped
        rw [reaped] at all read closed carries finished
        obtain ⟨told,none⟩ := ForwardConn.isFinished_live finished live
        obtain ⟨sent,reach⟩ := all none live
        have ended : c'.readClosed = true := by
          simp only [ForwardConn.isFinished,live,Bool.false_or,Bool.and_eq_true] at finished
          exact finished.1.1
        have arrived := first k (.inl (by rw [held]; rfl))
          (by simp [Driver.heard,held,← closed,told])
          (by simpa [Driver.ended,held] using read ended)
        obtain ⟨n,present⟩ := Option.ne_none_iff_exists'.mp (carries.told told)
        rw [pumped.closedAt] at present
        simp only [allArrived,present,decide_eq_true_eq] at arrived
        rw [sent]
        refine pumped.safe.whole (by rw [pumped.closedAt]; exact present) ?_
        rw [← reach,pumped.arrived]
        exact arrived
      · rw [Function.update_of_ne same] at reaped
        exact (whole k c' reaped live).serves pumped
    · exact old c' (by simpa only [pumpForward,held,if_neg finished] using reaped) live

/-- A pump that looks at ended connections only when their bytes have arrived truncates none. -/
theorem pump_forwardsWhole (rests : d.Rests x) (whole : d.ForwardsWhole x)
    (first : d.arrivesFirst x (.pump io) = true) : (d.pump x io).ForwardsWhole x := by
  have run := @pump_induct x io
    (fun pending d => d.Taken x pending ∧ d.ArrivesFirst x io pending ∧ d.ForwardsWhole x)
    (fun event pending d ⟨taken,first,whole⟩ =>
      ⟨taken.handle io,handleEvent_arrives taken.1 first,fun k c reaped live => by
        rw [(d.handleEvent_kept x io event).1] at reaped
        exact (whole k c reaped live).serves (handleEvent_serves taken.1.safe taken.1.announced x io event)⟩)
    (fun d k ⟨taken,first,whole⟩ =>
      ⟨taken.forward io k,pumpForward_arrives taken.1 first k,pumpForward_whole taken.1 first whole k⟩)
    (fun d k ⟨taken,first,whole⟩ => by
      obtain ⟨reaped,forwards,_⟩ := d.pumpExec_kept x io k
      have serves := pumpExec_serves taken.1 io k
      refine ⟨taken.exec io k,fun j mine heard ended => ?_,fun j c here live => ?_⟩
      · rw [allArrived_serves serves j]
        unfold Driver.heard Driver.ended at *
        rw [forwards] at mine heard ended
        exact first j mine heard ended
      · rw [reaped] at here
        exact (whole j c here live).serves serves)
  refine (run ⟨Valid.take rests,fun k mine heard ended => ?_,fun k c reaped live => ?_⟩).2.2
  · have here : k ∈ d.forwards.keys ++ openedForwards (d.link.mux x).events := by
      rcases mine with held | opened
      · refine List.mem_append_left _ (Std.TreeMap.mem_keys.mpr ?_)
        exact Std.TreeMap.mem_iff_isSome_getElem?.mpr held
      · exact List.mem_append_right _ opened
    have ok := List.all_eq_true.mp first k here
    change d.heard (d.link.mux x).events k = true at heard
    change d.ended io k = true at ended
    simp only [heard,ended,Bool.and_self,Bool.not_true,Bool.false_or] at ok
    exact (allArrived_take rests.safe x k).trans ok
  · exact (whole k c reaped live).step rests.safe _

theorem step_forwardsWhole (rests : d.Rests x) (whole : d.ForwardsWhole x) {a : Action}
    (first : d.arrivesFirst x a = true) : (d.step x a).ForwardsWhole x := by
  rcases d.step_link x a with ⟨b,kept,unread,eq⟩ | ⟨kind,metadata,leftover,rfl⟩ | ⟨io,rfl⟩
  · rw [eq]
    exact fun k c reaped live => (whole k c reaped live).step rests.safe b
  · exact fun k c reaped live => (whole k c reaped live).serves (accept_serves rests kind metadata leftover).1
  · exact pump_forwardsWhole rests whole first

end Driver

/-- Forwarded connections are not truncated, at either end and in every run in which the pump
looks at an ended connection only when the bytes before the close have arrived. -/
theorem forwards_whole (x : Side) (privsep : Bool) (schedule : List Driver.Action)
    (first : Machine.Along (Driver.step x) (fun d a => d.arrivesFirst x a = true) schedule (Driver.start privsep)) :
    (Machine.run (Driver.step x) schedule (Driver.start privsep)).ForwardsWhole x :=
  (Machine.run_invariant (fun d : Driver => d.Rests x ∧ d.ForwardsWhole x)
    (fun _ a both ok => ⟨Driver.step_rests both.1 a,Driver.step_forwardsWhole both.1 both.2 ok⟩) schedule _
    ⟨Driver.start_rests x privsep,nofun⟩ first).2

namespace Driver

/-- The socket takes two bytes, is interrupted, then takes more, and has nothing to send. -/
def hungUp : Io := fun _ => { writes := [.ok 2,.interrupted,.ok 5], reads := [.ok []] }

/-- The client opens a forward, writes three bytes, closes and polls. -/
def forwardClosed : List Action :=
  [.peer (.openStream .forward []),.peer (.write 0 [7,8,9]),.peer (.close 0 0),.poll .client]

/-- Its frames arrive in order before the pump. -/
def forwardInOrder : List Action :=
  forwardClosed ++ [.deliver .client 0,.deliver .client 0,.deliver .client 0,.deliver .client 0,.pump hungUp]

/-- The StreamClose overtakes the data. -/
def forwardOvertaken : List Action := forwardClosed ++ [.deliver .client 0,.deliver .client 2,.pump hungUp]

end Driver

theorem forwards_whole_inOrder :
    (Machine.run (Driver.step .server) Driver.forwardInOrder (Driver.start false)).ForwardsWhole .server ∧
    ((Machine.run (Driver.step .server) Driver.forwardInOrder (Driver.start false)).reaped 0).map (·.sent) =
      some [7,8,9] :=
  ⟨forwards_whole .server false Driver.forwardInOrder (by decide +kernel),by decide +kernel⟩

/-- A connection is reaped with none of the three bytes written to its healthy socket. -/
theorem forwards_truncated : ¬∀ (x : Side) (privsep : Bool) (schedule : List Driver.Action),
    (Machine.run (Driver.step x) schedule (Driver.start privsep)).ForwardsWhole x := by
  intro claim
  have whole := claim .server false Driver.forwardOvertaken 0
  have facts : (let d := Machine.run (Driver.step .server) Driver.forwardOvertaken (Driver.start false)
      (d.reaped 0).map (fun c => (c.dead,c.sent)) = some (false,[]) ∧ d.link.closedAt .client 0 = some 3 ∧
      d.link.wrote .client 0 = [7,8,9]) := by decide +kernel
  obtain ⟨reaped,closed,wrote⟩ := facts
  obtain ⟨c,here,ends⟩ := Option.map_eq_some_iff.mp reaped
  simp only [Prod.mk.injEq] at ends
  obtain ⟨n,at_,within⟩ := whole c here ends.1
  rw [show Side.server.other = .client from rfl] at at_ within
  rw [closed,Option.some.injEq] at at_
  rw [← at_,wrote,ends.2] at within
  simp at within

end Noissh

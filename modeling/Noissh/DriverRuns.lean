import Noissh.DriverSafety

/-! Runs of the driver: what holds between its steps, over every schedule of both ends' calls,
the link's choices and what the sockets and commands answer. -/
namespace Noissh

namespace Driver

variable {x : Side} {pending : List StreamEvent} {d d' : Driver} {io : Io}

theorem onOpened_serves (safe : d.link.Safe) (announced : d.link.Announced) (x : Side) (io : StreamIo) (k : Nat)
    (kind : StreamKind) : Link.Serves x none d.link (d.onOpened x io k kind).link := by
  have same := Link.Serves.refl safe announced x none
  have call : ∀ a : Link.Action, Link.ownCall x a = true → (∀ j, a ≠ .read x j) →
      Link.Serves x none d.link (d.link.step a) :=
    fun a own unread => Link.serves_step safe announced own (fun j same => absurd same (unread j))
  cases kind with
  | forward =>
    simp only [onOpened]
    split
    · exact same
    · exact call _ (by simp [Link.ownCall]) (by simp)
  | exec =>
    cases x with
    | client => exact same
    | server =>
      simp only [onOpened]
      repeat' split
      all_goals exact call _ (by simp [Link.ownCall]) (by simp)
  | session | fileTransfer | agent => exact same

/-- No event changes how the server runs commands, or what it remembers of ended connections. -/
theorem handleEvent_kept (d : Driver) (x : Side) (io : Io) (event : StreamEvent) :
    (d.handleEvent x io event).reaped = d.reaped ∧ (d.handleEvent x io event).privsep = d.privsep := by
  cases event with
  | opened k kind metadata =>
    unfold handleEvent onOpened
    cases kind <;> cases x <;> dsimp only <;> (repeat' split) <;> exact ⟨rfl,rfl⟩
  | readable k => exact ⟨rfl,rfl⟩
  | closed k status =>
    unfold handleEvent onClosed
    dsimp only
    split <;> exact ⟨rfl,rfl⟩
  | reset k =>
    unfold handleEvent onReset
    dsimp only
    split <;> exact ⟨rfl,rfl⟩

/-- Handling an event reads no stream. -/
theorem handleEvent_serves (safe : d.link.Safe) (announced : d.link.Announced) (x : Side) (io : Io) (event : StreamEvent) :
    Link.Serves x none d.link (d.handleEvent x io event).link := by
  have same := Link.Serves.refl safe announced x none
  cases event with
  | opened k kind metadata => exact onOpened_serves safe announced x (io k) k kind
  | readable k => exact same
  | closed k status =>
    simp only [handleEvent,onClosed]
    repeat' split
    all_goals exact same
  | reset k =>
    simp only [handleEvent,onReset]
    split
    · exact Link.serves_step safe announced (by simp [Link.ownCall]) (by simp)
    · exact same

theorem pumpForward_serves (valid : d.Valid x pending) (io : Io) (k : Nat) :
    Link.Serves x (some k) d.link (d.pumpForward x io k).link := by
  unfold pumpForward
  split
  · rename_i c held
    have spec := pumpConn_spec (io k) valid.safe valid.announced (valid.carries k c held).1
    dsimp only
    split <;> exact spec.1
  · exact .refl valid.safe valid.announced x _

theorem pumpExec_serves (valid : d.Valid x pending) (io : Io) (k : Nat) :
    Link.Serves x (some k) d.link (d.pumpExec x io k).link := by
  unfold pumpExec
  split
  · rename_i e held
    obtain ⟨serves,_⟩ := pumpProc_spec e.errId (io k) valid.safe valid.announced (valid.feeds k e held)
    dsimp only
    generalize pumpProc x k e.errId (io k) d.link e.proc = pumped at serves
    split
    · have first := Link.serves_step serves.safe serves.announced (x := x) (k := some k)
        (a := .close x k pumped.2.exitCode) (by simp [Link.ownCall]) (by simp)
      exact serves.trans (first.trans (Link.serves_step first.safe first.announced (by simp [Link.ownCall]) (by simp)))
    · exact serves
  · exact .refl valid.safe valid.announced x _

theorem pumpExec_kept (d : Driver) (x : Side) (io : Io) (k : Nat) :
    (d.pumpExec x io k).reaped = d.reaped ∧ (d.pumpExec x io k).forwards = d.forwards ∧
      (d.pumpExec x io k).shut = d.shut := by
  unfold pumpExec
  split
  · dsimp only
    split <;> exact ⟨rfl,rfl,rfl⟩
  · exact ⟨rfl,rfl,rfl⟩

/-- Induction over a pump: its events in order, then its connections, then its commands. -/
theorem pump_induct (holds : List StreamEvent → Driver → Prop)
    (handle : ∀ event pending d, holds (event :: pending) d → holds pending (d.handleEvent x io event))
    (forward : ∀ d k, holds [] d → holds [] (d.pumpForward x io k))
    (exec : ∀ d k, holds [] d → holds [] (d.pumpExec x io k)) {d : Driver}
    (first : holds (d.link.mux x).events { d with link := d.link.step (.takeEvents x) }) : holds [] (d.pump x io) := by
  have events : ∀ pending d, holds pending d → holds [] (pending.foldl (handleEvent x io) d) := by
    intro pending
    induction pending with
    | nil => exact fun _ here => here
    | cons event rest ih => exact fun d here => ih _ (handle event rest d here)
  have forwards : ∀ keys d, holds [] d → holds [] (List.foldl (pumpForward x io) d keys) := by
    intro keys
    induction keys with
    | nil => exact fun _ here => here
    | cons k rest ih => exact fun d here => ih _ (forward d k here)
  have execs : ∀ keys d, holds [] d → holds [] (List.foldl (pumpExec x io) d keys) := by
    intro keys
    induction keys with
    | nil => exact fun _ here => here
    | cons k rest ih => exact fun d here => ih _ (exec d k here)
  exact execs _ _ (forwards _ _ (events _ _ first))

/-- Valid, with every event of the multiplexer taken. -/
def Taken (x : Side) (pending : List StreamEvent) (d : Driver) : Prop :=
  d.Valid x pending ∧ (d.link.mux x).events = []

theorem Taken.handle {event : StreamEvent} (io : Io) (taken : d.Taken x (event :: pending)) :
    (d.handleEvent x io event).Taken x pending :=
  ⟨handleEvent_valid io taken.1,(handleEvent_serves taken.1.safe taken.1.announced x io event).events.trans taken.2⟩

theorem Taken.forward (io : Io) (k : Nat) (taken : d.Taken x pending) : (d.pumpForward x io k).Taken x pending :=
  ⟨pumpForward_valid taken.1 io k,(pumpForward_serves taken.1 io k).events.trans taken.2⟩

theorem Taken.exec (io : Io) (k : Nat) (taken : d.Taken x pending) : (d.pumpExec x io k).Taken x pending :=
  ⟨pumpExec_valid taken.1 io k,(pumpExec_serves taken.1 io k).events.trans taken.2⟩

theorem Valid.take (valid : d.Valid x pending) : Taken x pending { d with link := d.link.step (.takeEvents x) } := by
  have lane : ∀ j, (d.link.step (.takeEvents x)).lane j = d.link.lane j := fun j => Link.lane_step valid.safe.keyed _ j
  have born : ∀ j, (d.link.step (.takeEvents x)).born x j = d.link.born x j :=
    fun j => congrArg Endpoint.born (congrFun (lane j) x)
  refine ⟨⟨Link.step_safe valid.safe _,Link.step_announced valid.safe valid.announced _,
    ⟨fun j opened => ?_,valid.notices.once,valid.notices.closed⟩,valid.waiting,fun j unborn => ?_,fun j c held => ?_,
    valid.feeds⟩,?_⟩
  · rw [born j]; exact valid.notices.born j opened
  · exact valid.unborn j ((born j).symm.trans unborn)
  · exact ⟨(valid.carries j c held).1.carried (.refl c) rfl rfl,(valid.carries j c held).2⟩
  · show ((d.link.act (.takeEvents x)).mux x).events = []
    simp [Link.act,Link.setMux,StreamMux.takeEvents]

/-- Between two steps the events still to be handled are those of the multiplexer. -/
def Rests (x : Side) (d : Driver) : Prop := d.Valid x (d.link.mux x).events

theorem Taken.rests (taken : d.Taken x []) : d.Rests x := by
  unfold Rests
  rw [taken.2]
  exact taken.1

theorem pump_rests (io : Io) (rests : d.Rests x) : (d.pump x io).Rests x :=
  (pump_induct (Taken x) (fun _ _ _ taken => Taken.handle io taken) (fun _ k taken => Taken.forward io k taken)
    (fun _ k taken => Taken.exec io k taken) (Valid.take rests)).rests

/-- The link moves without the driver. -/
theorem Rests.link (rests : d.Rests x) {a : Link.Action} (kept : Link.takesAt x a = false)
    (unread : ∀ j, a ≠ .read x j) : Rests x { d with link := d.link.step a } := by
  have safe := rests.safe
  have got : ∀ j, (d.link.step a).got x j = d.link.got x j := fun j => Link.step_got _ (unread j)
  have closed : ∀ j, d.link.closedAt x.other j ≠ none → (d.link.step a).closedAt x.other j ≠ none := by
    intro j before
    obtain ⟨n,present⟩ := Option.ne_none_iff_exists'.mp before
    rw [Link.step_closedAt_kept _ safe a present]
    simp
  have untouched : ∀ j, d.Untouched x j → Untouched { d with link := d.link.step a } x j :=
    fun j old => ⟨old.1,old.2.1,(got j).trans old.2.2⟩
  refine ⟨Link.step_safe safe a,Link.step_announced safe rests.announced a,rests.notices.step safe rests.announced kept,
    fun j opened => untouched j ?_,fun j unborn => untouched j (rests.unborn j ?_),fun j c held => ?_,
    fun j e held open_ => (rests.feeds j e held open_).trans (got j).symm⟩
  · rcases d.link.step_events kept with same | ⟨n,frame,fresh,rfl,sent,_,events,raises⟩
    · exact rests.waiting j (by rw [← same]; exact opened)
    · change ((d.link.step (.deliver x.other n)).mux x).events.any (StreamEvent.opens j) = true at opened
      rw [events,List.any_append,Bool.or_eq_true] at opened
      rcases opened with before | new
      · exact rests.waiting j before
      · cases raises with
        | @opened k kind metadata =>
          simp only [List.any_cons,StreamEvent.opens,List.any_nil,Bool.or_false,beq_iff_eq] at new
          subst new
          exact rests.unborn k (by simpa using safe.opening sent)
        | _ => simp [StreamEvent.opens] at new
  · cases born : d.link.born x j with
    | false => rfl
    | true => exact absurd (Link.step_born d.link a born) (by simpa using unborn)
  · obtain ⟨old,apart⟩ := rests.carries j c held
    exact ⟨⟨fun live => (old.bytes live).trans (got j).symm,fun told => closed j (old.told told)⟩,apart⟩

/-- The link after a connection was accepted, and that its stream is new. -/
theorem accept_serves (rests : d.Rests x) (kind : StreamKind) (metadata leftover : Bytes) :
    Link.Serves x none d.link (d.accept x kind metadata leftover).link ∧
    d.link.born x (d.link.mux x).nextLocalId = false ∧
    (d.accept x kind metadata leftover).link.born x (d.link.mux x).nextLocalId = true := by
  have safe := rests.safe
  have first := Link.serves_step safe rests.announced (x := x) (k := none) (a := .openStream x kind metadata)
    (by simp [Link.ownCall]) (by simp)
  have unborn := (safe.numbered x).fresh _ (Nat.le_refl _) (safe.numbered x).next x
  have born : (d.link.step (.openStream x kind metadata)).born x (d.link.mux x).nextLocalId = true := by
    have lane := congrFun (Link.lane_step safe.keyed (.openStream x kind metadata) (d.link.mux x).nextLocalId) x
    simp only [Link.event,if_true,Lane.step,Lane.onSide_same] at lane
    exact congrArg Endpoint.born lane
  have both : Link.Serves x none d.link (d.accept x kind metadata leftover).link ∧
      (d.accept x kind metadata leftover).link.born x (d.link.mux x).nextLocalId = true := by
    unfold accept
    dsimp only
    split
    · exact ⟨first,born⟩
    · have second := Link.serves_step first.safe first.announced (x := x) (k := none)
        (a := .write x (d.link.mux x).nextLocalId leftover) (by simp [Link.ownCall]) (by simp)
      exact ⟨first.trans second,second.born _ born⟩
  exact ⟨both.1,unborn,both.2⟩

theorem accept_rests (rests : d.Rests x) (kind : StreamKind) (metadata leftover : Bytes) :
    (d.accept x kind metadata leftover).Rests x := by
  obtain ⟨serves,unborn,born⟩ := accept_serves rests kind metadata leftover
  obtain ⟨_,exec,unread⟩ := rests.unborn _ unborn
  unfold Rests
  rw [serves.events]
  refine rests.update (d.link.mux x).nextLocalId (serves.weaken _)
    (fun j ne => TreeMaps.getElem?_insert_ne _ _ ne) (fun _ _ => rfl)
    (fun idle => ?_) (fun c held => ?_) (fun e held => ?_)
  · rcases idle with opened | none
    · rw [rests.notices.born _ opened] at unborn; cases unborn
    · rw [born] at none; cases none
  · simp only [accept,Std.TreeMap.getElem?_insert_self,Option.some.injEq] at held
    subst held
    exact ⟨⟨fun _ => ((serves.got _ (by simp)).trans unread).symm,by simp⟩,exec⟩
  · exact absurd (exec.symm.trans held) (by simp)

/-- The actions that move the link alone. -/
theorem step_link (d : Driver) (x : Side) (a : Action) :
    (∃ b, Link.takesAt x b = false ∧ (∀ j, b ≠ .read x j) ∧ d.step x a = { d with link := d.link.step b }) ∨
    (∃ kind metadata leftover, a = .accept kind metadata leftover) ∨ ∃ io, a = .pump io := by
  cases a with
  | peer call =>
    refine .inl ⟨call.action x.other,?_,fun j => ?_,rfl⟩
    · cases call <;> simp [Call.action,Link.takesAt]
    · cases call <;> simp [Call.action]
  | poll y => exact .inl ⟨.poll y,rfl,by simp,rfl⟩
  | deliver y n => exact .inl ⟨.deliver y n,rfl,by simp,rfl⟩
  | lose y n => exact .inl ⟨.lose y n,rfl,by simp,rfl⟩
  | accept kind metadata leftover => exact .inr (.inl ⟨kind,metadata,leftover,rfl⟩)
  | pump io => exact .inr (.inr ⟨io,rfl⟩)

theorem step_rests (rests : d.Rests x) (a : Action) : (d.step x a).Rests x := by
  rcases d.step_link x a with ⟨b,kept,unread,eq⟩ | ⟨kind,metadata,leftover,rfl⟩ | ⟨io,rfl⟩
  · rw [eq]; exact rests.link kept unread
  · exact accept_rests rests kind metadata leftover
  · exact pump_rests io rests

theorem start_rests (x : Side) (privsep : Bool) : (start privsep).Rests x := by
  have events : ((start privsep).link.mux x).events = [] := rfl
  have untouched : ∀ k, (start privsep).Untouched x k := fun k => ⟨by simp [start],by simp [start],rfl⟩
  unfold Rests
  rw [events]
  refine ⟨Link.start_safe,Link.start_announced,⟨by simp,fun k => by simp,by simp⟩,fun k _ => untouched k,fun k _ => untouched k,
    fun k c held => ?_,fun k e held => ?_⟩
  · rw [(untouched k).1] at held; cases held
  · rw [(untouched k).2.1] at held; cases held

end Driver
end Noissh

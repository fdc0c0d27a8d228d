import Noissh.ForwardDelivery
import Noissh.Sources

/-! Both ends of a session with their drivers: a client that forwards ports, perhaps beside other work
on the session, and the server that dials their targets or accepts for them. What a socket gives at one end
is what the socket at the other end is given. -/
namespace Noissh

/-- Two drivers that share one link. -/
structure Bridge where
  drivers : Side → Driver
  shared : ∀ x, (drivers x).link = (drivers .client).link

namespace Bridge

inductive Action where
  | poll
  | deliver (n : Nat)
  | lose (n : Nat)
  | accept (target leftover : Bytes)
  | pump (io : Io)
  /-- The application's own call, beside its driver. -/
  | call (c : Driver.Call)

def start (privsep : Bool) : Bridge := ⟨fun _ => .start privsep,fun _ => rfl⟩

def driverStep (y : Side) (d : Driver) : Action → Driver
  | .poll => d.step y (.poll y)
  | .deliver n => d.step y (.deliver y n)
  | .lose n => d.step y (.lose y n)
  | .accept target leftover => d.step y (.accept .forward target leftover)
  | .pump io => d.step y (.pump io)
  | .call c => { d with link := d.link.step (c.action y) }

/-- One side moves, and the other finds the link moved. -/
def step (s : Bridge) (a : Side × Action) : Bridge where
  drivers := Function.update (fun y => { s.drivers y with link := (driverStep a.1 (s.drivers a.1) a.2).link }) a.1
    (driverStep a.1 (s.drivers a.1) a.2)
  shared := by
    have all : ∀ x, (Function.update (fun y => { s.drivers y with link := (driverStep a.1 (s.drivers a.1) a.2).link }) a.1
        (driverStep a.1 (s.drivers a.1) a.2) x).link = (driverStep a.1 (s.drivers a.1) a.2).link := by
      intro x
      by_cases own : x = a.1
      · subst own
        rw [Function.update_self]
      · rw [Function.update_of_ne own]
    intro x
    rw [all,all]

def run (schedule : List (Side × Action)) (s : Bridge) : Bridge := Machine.run step schedule s

/-- What the sockets, the commands and the application of a side give its streams. -/
def gives (s : Bridge) (a : Side × Action) : List ((Side × Nat) × Bytes) :=
  let d := s.drivers a.1
  let chunks := match a.2 with
    | .accept _ leftover => [((d.link.mux a.1).nextLocalId,leftover)]
    | .pump io => d.pumpGives a.1 io
    | .call (.write id data) => if (d.link.stream a.1 id).isSome then [(id,data)] else []
    | _ => []
  chunks.map (fun chunk => ((a.1,chunk.1),chunk.2))

/-- The application leaves to the driver the streams that the driver holds, or is to be told of, and
the events. -/
def leaves (y : Side) (d : Driver) : Driver.Call → Bool
  | .takeEvents => false
  | .openStream _ _ => true
  | .write id _ | .read id | .close id _ | .reset id =>
    (d.forwards[id]?).isNone && (d.execs[id]?).isNone && !(d.link.mux y).events.any (StreamEvent.opens id)

def orderly (s : Bridge) (a : Side × Action) : Bool :=
  match a.2 with
  | .call c => leaves a.1 (s.drivers a.1) c
  | _ => true

/-- What holds between any two steps, after some chunks were given. -/
structure Sound (given : List ((Side × Nat) × Bytes)) (s : Bridge) : Prop where
  rests : ∀ x, (s.drivers x).Rests x
  paired : ∀ x, (s.drivers x).Paired x
  given : ∀ x k, (bytesOf (x,k) given).length ≤ u64Max → (s.drivers x).link.Given x k (bytesOf (x,k) given)

variable {s : Bridge} {given : List ((Side × Nat) × Bytes)}

/-- The chunks of one side are of no other side's streams. -/
theorem bytesOf_side (y x : Side) (k : Nat) (chunks : List (Nat × Bytes)) :
    bytesOf (x,k) (chunks.map (fun chunk => ((y,chunk.1),chunk.2))) = if y = x then bytesOf k chunks else [] := by
  induction chunks with
  | nil => simp
  | cons chunk rest ih =>
    rw [List.map_cons,← List.singleton_append,bytesOf_append,ih,← List.singleton_append (x := chunk),bytesOf_append]
    by_cases own : y = x
    · subst own
      rw [if_pos rfl,if_pos rfl]
      by_cases same : chunk.1 = k
      · subst same
        rw [bytesOf_same,bytesOf_same]
      · rw [bytesOf_other same,bytesOf_other (fun eq => same (congrArg Prod.snd eq))]
    · rw [if_neg own,if_neg own,bytesOf_other (fun eq => own (congrArg Prod.fst eq)),List.append_nil]

end Bridge

namespace Link

/-- Whose call, poll or flight an action is. -/
def mover : Action → Side
  | .openStream x _ _ | .write x _ _ | .read x _ | .close x _ _ | .reset x _ | .takeEvents
      x | .poll x | .deliver x _ | .lose x _ => x

theorem mover_ownCall {y : Side} {a : Action} (own : ownCall y a = true) : mover a = y := by
  cases a <;> simp_all [ownCall,mover]

/-- What was read stays read. -/
theorem Reaches.got_grows {ok : Action → Prop} {l l' : Link} (reaches : Reaches ok l l') (x : Side) (k : Nat) :
    l.got x k <+: l'.got x k := by
  refine reaches.keeps (fun l' => l.got x k <+: l'.got x k) (fun next a grown _ => grown.trans ?_) (List.prefix_refl _)
  by_cases read : a = .read x k
  · subst read
    rw [read_got]
    exact List.prefix_append _ _
  · rw [step_got next read]

end Link

namespace Driver

variable {x y : Side} {d : Driver}

/-- A connection reaped alive was given bytes that were read of its stream. -/
def ReapedWithin (d : Driver) (x : Side) : Prop := ∀ k c, d.reaped k = some c → c.dead = false → c.sent <+: d.link.got x k

theorem ReapedWithin.grown {d' : Driver} (within : d.ReapedWithin x) {ok : Link.Action → Prop}
    (reaches : Link.Reaches ok d.link d'.link) (same : d'.reaped = d.reaped) : d'.ReapedWithin x := by
  intro k c reaped live
  rw [same] at reaped
  exact (within k c reaped live).trans (reaches.got_grows x k)

theorem pumpForward_within {pending : List StreamEvent} (valid : d.Valid x pending)
    (within : d.ReapedWithin x) (io : Io) (j : Nat) : (d.pumpForward x io j).ReapedWithin x := by
  intro k c reaped live
  have reaches := d.pumpForward_reaches (x := x) io j
  have old : d.reaped k = some c → c.sent <+: (d.pumpForward x io j).link.got x k := fun before =>
    (within k c before live).trans (reaches.got_grows x k)
  cases held : d.forwards[j]? with
  | none => exact old (by simpa only [pumpForward,held] using reaped)
  | some before =>
    obtain ⟨_,carries,_⟩ := pumpConn_spec (io j) valid.safe valid.announced (valid.carries j before held).1
    by_cases finished : (pumpConn x j (io j) d.link before).2.isFinished = true
    · by_cases same : k = j
      · subst same
        have now : (pumpConn x k (io k) d.link before).2 = c := by
          simpa only [pumpForward,held,if_pos finished,Function.update_self,Option.some.injEq] using reaped
        have link : (d.pumpForward x io k).link = (pumpConn x k (io k) d.link before).1 := by
          simp only [pumpForward,held,if_pos finished]
        rw [now] at carries finished
        have bytes := carries.bytes live
        rw [(ForwardConn.isFinished_live finished live).2,List.append_nil] at bytes
        rw [link,bytes]
      · exact old (by simpa only [pumpForward,held,if_pos finished,Function.update_of_ne same] using reaped)
    · exact old (by simpa only [pumpForward,held,if_neg finished] using reaped)

theorem pump_within (rests : d.Rests x) (within : d.ReapedWithin x) (io : Io) : (d.pump x io).ReapedWithin x := by
  have takes : Link.Reaches (fun _ => True) d.link (d.link.step (.takeEvents x)) := .step d.link trivial
  exact (pump_induct (fun pending d => d.Taken x pending ∧ d.ReapedWithin x)
    (fun event _ d both => ⟨both.1.handle io,both.2.grown (d.handleEvent_reaches io event) (d.handleEvent_kept x io event).1⟩)
    (fun _ k both => ⟨both.1.forward io k,pumpForward_within both.1.1 both.2 io k⟩)
    (fun d k both => ⟨both.1.exec io k,both.2.grown (d.pumpExec_reaches io k) (d.pumpExec_kept x io k).1⟩)
    ⟨Valid.take rests,within.grown takes rfl⟩).2

/-- The other side moves. -/
theorem Rests.moved (rests : d.Rests x) (apart : y ≠ x) {l : Link}
    (reaches : Link.Reaches (fun a => Link.mover a = y) d.link l) : Rests x { d with link := l } := by
  refine reaches.keeps (fun l => Rests x { d with link := l }) (fun l a here moved => ?_) rests
  subst moved
  refine Rests.link here ?_ (fun j read => apart (by rw [read]; rfl))
  cases a with
  | takeEvents z => simpa [Link.takesAt,Link.mover] using apart
  | _ => rfl

end Driver

namespace Bridge

open Driver

variable {s : Bridge} {given : List ((Side × Nat) × Bytes)} {y : Side} {d : Driver}

theorem driverStep_reaches (y : Side) (d : Driver) (a : Action) :
    Link.Reaches (fun a => Link.mover a = y) d.link (driverStep y d a).link := by
  cases a with
  | poll => exact .step d.link rfl
  | deliver n => exact .step d.link rfl
  | lose n => exact .step d.link rfl
  | accept target leftover => exact (d.accept_reaches .forward target leftover).mono (fun _ => Link.mover_ownCall)
  | pump io =>
    refine (d.pump_reaches io).mono ?_
    rintro a (own | rfl)
    · exact Link.mover_ownCall own
    · rfl
  | call c => cases c <;> exact .step d.link rfl

/-- The application calls about streams that are not the driver's. -/
theorem call_rests (rests : d.Rests y) {c : Driver.Call} (apart : leaves y d c = true) :
    Rests y { d with link := d.link.step (c.action y) } := by
  cases c with
  | takeEvents => cases apart
  | read id =>
    simp only [leaves,Bool.and_eq_true,Option.isNone_iff_eq_none,Bool.not_eq_true'] at apart
    obtain ⟨⟨forward,exec⟩,unopened⟩ := apart
    have serves := Link.serves_step rests.safe rests.announced (x := y) (k := some id) (a := .read y id) (by simp [Link.ownCall])
      (fun j same => by cases same; rfl)
    change Valid y ((d.link.step (.read y id)).mux y).events { d with link := d.link.step (.read y id) }
    rw [serves.events]
    refine Valid.update rests id serves (fun _ _ => rfl) (fun _ _ => rfl) (fun idle => ?_)
      (fun c held => absurd (held.symm.trans forward) (by simp)) (fun e held => absurd (held.symm.trans exec) (by simp))
    have unborn : d.link.born y id = false := by
      rcases idle with opened | unborn
      · exact absurd (opened.symm.trans unopened) (by simp)
      · by_contra born
        exact absurd (serves.born id (by simpa using born)) (by rw [unborn]; exact Bool.false_ne_true)
    have absent : d.link.stream y id = none := ((rests.safe.lanes id).life y).absent unborn
    have got := d.link.read_got y id
    rw [(rests.unborn id unborn).2.2,
      show ((d.link.mux y).read id).1
      = [] by simp only [StreamMux.read,show (d.link.mux y).streams[id]? = none from absent]] at got
    exact ⟨forward,exec,got⟩
  | openStream kind metadata => exact Rests.link rests rfl (fun _ eq => by cases eq)
  | write id data => exact Rests.link rests rfl (fun _ eq => by cases eq)
  | close id status => exact Rests.link rests rfl (fun _ eq => by cases eq)
  | reset id => exact Rests.link rests rfl (fun _ eq => by cases eq)

/-- Nothing is written to a stream that is not there. -/
theorem gives_absent {l : Link} {id : Nat} (absent : l.stream y id = none) (data : Bytes) :
    Link.Gives y l (l.step (.write y id data)) [] := by
  intro k given held _
  rw [bytesOf_nil,List.append_nil]
  have same : l.step (.write y id data) = l.note := by
    unfold Link.step
    simp only [Link.act,absent]
  rw [same]
  refine ⟨held.wrote,fun live => held.all (live.imp (fun here => here) (fun unborn => ?_))⟩
  exact (Bool.or_eq_false_iff.mp unborn).1

theorem driverStep_moves (rests : d.Rests y) (paired : d.Paired y) (s : Bridge) {a : Action} (held : s.drivers y = d)
    (orderly : s.orderly (y,a) = true) :
    (driverStep y d a).Rests y ∧ (driverStep y d a).Paired y ∧
      ∃ chunks, s.gives (y,a) = chunks.map (fun chunk => ((y,chunk.1),chunk.2)) ∧
        Link.Gives y d.link (driverStep y d a).link chunks := by
  subst held
  have reaches := driverStep_reaches y (s.drivers y) a
  have quiet : ∀ b : Link.Action, Link.takesAt y b = false → (∀ j, b ≠ .read y j) → (∀ k data, b ≠ .write y k data) →
      driverStep y (s.drivers y) a = { s.drivers y with link := (s.drivers y).link.step b } → s.gives (y,a) = [] →
      (driverStep y (s.drivers y) a).Rests y ∧ (driverStep y (s.drivers y) a).Paired y ∧
        ∃ chunks, s.gives (y,a) = chunks.map (fun chunk => ((y,chunk.1),chunk.2)) ∧
          Link.Gives y (s.drivers y).link (driverStep y (s.drivers y) a).link chunks := by
    intro b kept unread unwritten eq nothing
    rw [eq,nothing]
    refine ⟨rests.link kept unread,fun k e held => Link.step_born _ b (paired k e held),[],rfl,?_⟩
    exact Link.gives_reaches (Link.Reaches.step (s.drivers y).link rfl) rests.safe
      (fun c k data same => by cases same; exact unwritten k data)
  cases a with
  | poll => exact quiet (.poll y) rfl (fun _ eq => by cases eq) (fun _ _ eq => by cases eq) rfl rfl
  | deliver n => exact quiet (.deliver y n) rfl (fun _ eq => by cases eq) (fun _ _ eq => by cases eq) rfl rfl
  | lose n => exact quiet (.lose y n) rfl (fun _ eq => by cases eq) (fun _ _ eq => by cases eq) rfl rfl
  | accept target leftover =>
    obtain ⟨pairs,gives⟩ := accept_pumps rests paired .forward target leftover
    exact ⟨accept_rests rests .forward target leftover,pairs,_,rfl,gives⟩
  | pump io =>
    have pumps := pump_pumps rests paired io
    exact ⟨pumps.taken.rests,pumps.paired,_,rfl,pumps.gives⟩
  | call c =>
    refine ⟨call_rests rests orderly,fun k e held => reaches.born (paired k e held),?_⟩
    have silent : (∀ k data, c.action y ≠ .write y k data) → s.gives (y,.call c) = [] → ∃ chunks,
        s.gives (y,.call c) = chunks.map (fun chunk => ((y,chunk.1),chunk.2)) ∧
          Link.Gives y (s.drivers y).link (driverStep y (s.drivers y) (.call c)).link chunks := fun unwritten nothing =>
      ⟨[],nothing,Link.gives_reaches (Link.Reaches.step _ rfl) rests.safe
        (fun b k data same => by cases same; exact unwritten k data)⟩
    cases c with
    | write id data =>
      cases held : (s.drivers y).link.stream y id with
      | none => exact ⟨[],by simp only [gives,held]; rfl,gives_absent held data⟩
      | some st =>
        have born := (((rests.safe.lanes id).life y).noted st held).2
        exact ⟨[(id,data)],by simp only [gives,held]; rfl,Link.gives_write rests.safe born data⟩
    | openStream kind metadata => exact silent (fun _ _ eq => by cases eq) rfl
    | read id => exact silent (fun _ _ eq => by cases eq) rfl
    | close id status => exact silent (fun _ _ eq => by cases eq) rfl
    | reset id => exact silent (fun _ _ eq => by cases eq) rfl
    | takeEvents => exact silent (fun _ _ eq => by cases eq) rfl

theorem step_same (s : Bridge) (y : Side) (a : Action) : (s.step (y,a)).drivers y = driverStep y (s.drivers y) a := by
  unfold step
  dsimp only
  rw [Function.update_self]

theorem step_other (s : Bridge) {x y : Side} (apart : x ≠ y) (a : Action) :
    (s.step (y,a)).drivers x = { s.drivers x with link := (driverStep y (s.drivers y) a).link } := by
  unfold step
  dsimp only
  rw [Function.update_of_ne apart]

/-- What holds before an orderly step holds after it. -/
theorem Sound.step (sound : s.Sound given) {a : Side × Action} (orderly : s.orderly a = true) :
    (s.step a).Sound (given ++ s.gives a) := by
  obtain ⟨y,a⟩ := a
  obtain ⟨rests,paired,chunks,gave,gives⟩ := driverStep_moves (sound.rests y) (sound.paired y) s rfl orderly
  have reaches := driverStep_reaches y (s.drivers y) a
  have link : ∀ x, (s.drivers x).link = (s.drivers y).link := fun x => (s.shared x).trans (s.shared y).symm
  have all : ∀ x, ((s.step (y,a)).drivers x).link = (driverStep y (s.drivers y) a).link := by
    intro x
    by_cases own : x = y
    · subst own
      rw [step_same]
    · rw [step_other s own]
  refine ⟨fun x => ?_,fun x k e held => ?_,fun x k counted => ?_⟩
  · by_cases own : x = y
    · subst own
      rw [step_same]
      exact rests
    · rw [step_other s own]
      exact (sound.rests x).moved (fun same => own same.symm) ((link x).symm ▸ reaches)
  · by_cases own : x = y
    · subst own
      rw [step_same] at held ⊢
      exact paired k e held
    · rw [step_other s own] at held ⊢
      have born := sound.paired x k e held
      rw [link x] at born
      exact reaches.born born
  · rw [gave,bytesOf_append,bytesOf_side] at counted ⊢
    rw [all x]
    have before : (bytesOf (x,k) given).length ≤ u64Max := by
      rw [List.length_append] at counted
      omega
    have held := sound.given x k before
    rw [link x] at held
    by_cases own : y = x
    · subst own
      rw [if_pos rfl] at counted ⊢
      exact gives k _ held counted
    · rw [if_neg own,List.append_nil]
      exact (reaches.keeps (fun l => l.Safe ∧ l.Given x k (bytesOf (x,k) given)) (fun l b both moved =>
        ⟨Link.step_safe both.1 b,both.2.step both.1 (fun data eq => own (by rw [← moved,eq]; rfl))⟩)
          ⟨(sound.rests y).safe,held⟩).2

theorem start_sound (privsep : Bool) : (start privsep).Sound [] where
  rests x := start_rests x privsep
  paired _ k e held := absurd held (by simp [start,Driver.start])
  given x k _ := ⟨List.prefix_refl _,fun _ => rfl⟩

/-- All that was given to a stream at one end, in a run. -/
def gave (privsep : Bool) (schedule : List (Side × Action)) (x : Side) (k : Nat) : Bytes :=
  bytesOf (x,k) (Machine.observed step gives schedule (start privsep))

theorem run_sound (privsep : Bool) {schedule : List (Side × Action)}
    (orderly : Machine.Along step (fun s a => s.orderly a = true) schedule (start privsep)) :
    (run schedule (start privsep)).Sound (Machine.observed step gives schedule (start privsep)) :=
  Machine.run_observed gives (fun given s => s.Sound given) (fun _ _ _ sound orderly => sound.step orderly) schedule [] _
    (start_sound privsep) orderly

/-- What a socket at one end was given, and what waits for it, is a beginning of what was given to
its stream at the other end; so is what a command was given, and what an application read. -/
theorem tunnel_exact (privsep : Bool) (schedule : List (Side × Action))
    (orderly : Machine.Along step (fun s a => s.orderly a = true) schedule (start privsep)) (x : Side) (k : Nat)
    (counted : (gave privsep schedule x.other k).length ≤ u64Max) :
    let d := (run schedule (start privsep)).drivers x
    d.link.got x k <+: gave privsep schedule x.other k ∧
      (∀ c, d.forwards[k]? = some c → c.dead = false → c.sent ++ c.out <+: gave privsep schedule x.other k) ∧
      ∀ e, d.execs[k]? = some e → e.proc.stdin = true → e.proc.piped ++ e.proc.stdinBuf <+: gave privsep schedule x.other k := by
  intro d
  have sound := run_sound privsep orderly
  have rests : d.Rests x := sound.rests x
  have link : ((run schedule (start privsep)).drivers x.other).link = d.link := by
    rw [(run schedule (start privsep)).shared]
    exact ((run schedule (start privsep)).shared x).symm
  have given := sound.given x.other k counted
  rw [link] at given
  have flow : d.link.got x k <+: d.link.wrote x.other k := by simpa [Link.lane] using (rests.safe.flow x.other k).got
  have got := flow.trans given.wrote
  refine ⟨got,fun c held live => ?_,fun e held open_ => ?_⟩
  · rw [(rests.carries k c held).1.bytes live]
    exact got
  · rw [rests.feeds k e held open_]
    exact got

/-- A browser asks for three bytes through the client, which also runs a command. -/
def asked : List (Side × Action) :=
  [(.client,.accept [104] [1]),(.client,.call (.openStream .exec [108])),(.client,.call (.write 2 [6])),
   (.client,.pump (fun k => if k = 0 then { reads := [.ok [2],.ok [3],.ok []] } else {})),(.client,.poll),
   (.server,.call (.openStream .session [])),
   (.client,.deliver 0),(.client,.deliver 0),(.client,.deliver 0),(.client,.deliver 0),(.client,.deliver 0),(.client,.deliver 0),
   (.server,.pump (fun _ => { writes := [.ok 2,.interrupted] }))]

theorem tunnel_exact_asked :
    let d := (run asked (start false)).drivers .server
    ((d.forwards[0]?).map (fun c => (c.dead,c.sent,c.out)) = some (false,[1,2],[3]) ∧
      (d.execs[2]?).map (fun e => (e.proc.stdin,e.proc.piped)) = some (true,[6])) ∧
      (∀ c, d.forwards[0]? = some c → c.dead = false → c.sent ++ c.out <+: gave false asked Side.server.other 0) ∧
      ∀ e, d.execs[2]? = some e → e.proc.stdin = true →
        e.proc.piped ++ e.proc.stdinBuf <+: gave false asked Side.server.other 2 :=
  ⟨by decide +kernel,(tunnel_exact false asked (by decide +kernel) .server 0 (by decide +kernel)).2.1,
    (tunnel_exact false asked (by decide +kernel) .server 2 (by decide +kernel)).2.2⟩

/-- A pump at side `x` looks at an ended connection only when the bytes before the close have
arrived. -/
def arrives (x : Side) (s : Bridge) (a : Side × Action) : Bool :=
  match a.2 with
  | .pump io => a.1 != x || (s.drivers x).arrivesFirst x (.pump io)
  | _ => true

/-- What was reaped alive was whole. -/
structure Reaps (x : Side) (s : Bridge) : Prop where
  whole : (s.drivers x).ForwardsWhole x
  within : (s.drivers x).ReapedWithin x

theorem Reaps.step {x : Side} (reaps : s.Reaps x) (sound : s.Sound given) {a : Side × Action} (first : s.arrives x a = true) :
    (s.step a).Reaps x := by
  obtain ⟨y,a⟩ := a
  have reaches := driverStep_reaches y (s.drivers y) a
  have link : (s.drivers x).link = (s.drivers y).link := (s.shared x).trans (s.shared y).symm
  have moved : ∀ d' : Driver, d'.reaped = (s.drivers x).reaped → d'.link = (driverStep y (s.drivers y) a).link →
      d'.ForwardsWhole x ∧ d'.ReapedWithin x := by
    intro d' same there
    rw [← link,← there] at reaches
    refine ⟨fun k c reaped live => ?_,reaps.within.grown reaches same⟩
    rw [same] at reaped
    exact (reaches.keeps (fun l => l.Safe ∧ l.Whole x k c.sent)
      (fun l b both _ => ⟨Link.step_safe both.1 b,both.2.step both.1 b⟩)
      ⟨(sound.rests x).safe,reaps.whole k c reaped live⟩).2
  by_cases own : x = y
  · subst own
    rw [show (s.step (x,a)).Reaps x ↔ (driverStep x (s.drivers x) a).ForwardsWhole x ∧
      (driverStep x (s.drivers x) a).ReapedWithin x from
      ⟨fun reaps => step_same s x a ▸ ⟨reaps.whole,reaps.within⟩,fun both =>
        ⟨step_same s x a ▸ both.1,step_same s x a ▸ both.2⟩⟩]
    cases a with
    | pump io =>
      have first : (s.drivers x).arrivesFirst x (.pump io) = true := by simpa [arrives] using first
      exact ⟨pump_forwardsWhole (sound.rests x) reaps.whole first,pump_within (sound.rests x) reaps.within io⟩
    | _ => exact moved _ rfl rfl
  · have after := moved ((s.step (y,a)).drivers x) (by rw [step_other s own]) (by rw [step_other s own])
    exact ⟨after.1,after.2⟩

/-- The target answers with two bytes and both hang up. -/
def answered : List (Side × Action) :=
  asked ++ [(.server,.pump (fun k => if k = 0 then { writes := [.ok 5], reads := [.ok [8,9],.ok []] } else {})),
    (.server,.poll)] ++
    List.replicate 8 (.server,.deliver 0) ++ [(.client,.pump (fun _ => { writes := [.ok 7] }))]

end Bridge
end Noissh

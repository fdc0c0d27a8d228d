import Noissh.ForwardDelivery
import Noissh.RemoteExec
import Noissh.StdinDelivery
import Noissh.StreamKinds

/-! The server's side of a remote command over every run: the streams of its outputs carry what it
printed, and are closed after all of it. -/
namespace Noissh

namespace Lane

variable {id : Nat} {v : Lane} {y : Side}

/-- The side has not closed the stream, and still holds it if it ever did. -/
def Stays (v : Lane) (y : Side) : Prop := (v y).closedAt = none ∧ ((v y).born = true → (v y).stream ≠ none)

theorem Touch.unclosed {e : Event} {e' : Endpoint} (touched : Touch id v y e e')
    (unclosed : ∀ status, e ≠ .close y status) : e'.closedAt = (v y).closedAt := by
  cases touched with
  | write =>
    unfold Endpoint.write
    split
    · split <;> rfl
    · rfl
  | read => unfold Endpoint.read; split <;> rfl
  | close => exact absurd rfl (unclosed _)
  | poll => unfold Endpoint.poll; split <;> rfl
  | receive => rw [Link.Receive.closedAt]
  | _ => rfl

theorem Touch.unwritten {e : Event} {e' : Endpoint} (touched : Touch id v y e e')
    (unwritten : ∀ data, e ≠ .write y data) : e'.wrote = (v y).wrote := by
  cases touched with
  | write => exact absurd rfl (unwritten _)
  | read => unfold Endpoint.read; split <;> rfl
  | close => unfold Endpoint.close; split <;> rfl
  | poll => unfold Endpoint.poll; split <;> rfl
  | @receive _ _ _ _ frame _ _ => cases frame <;> simp only [Endpoint.receive] <;> (repeat' split) <;> rfl
  | _ => rfl

/-- A stream that is neither closed here nor reset is not reclaimed here. -/
theorem step_stays (safe : Safe id v) (graceful : ∀ x, (v x).Graceful) (stays : Stays v y) {e : Event}
    (unclosed : ∀ status, e ≠ .close y status) : Stays (v.step id e) y := by
  have touched := step_touch id v e y
  refine ⟨(touched.unclosed unclosed).trans stays.1,fun born gone => ?_⟩
  rcases touched.gone gone with ⟨absent,same,_⟩ | ⟨now,s,_,held,_,retired⟩
  · exact stays.2 (same ▸ born) absent
  · have flow := safe.flowing y
    have live := (graceful y).live s held
    have done := StreamState.transmit_done (flow.sending s held) (flow.paced s held) live ((graceful y).waiting s held) now
    exact flow.fin s held (done.2 (StreamMux.fullyDone_of_retired live retired)).1 stays.1

/-- The stream carries an output of the server, complete once it is closed, and no reset. -/
structure Outlet (v : Lane) (data : Bytes) (done : Bool) : Prop where
  graceful : ∀ x, (v x).Graceful
  wrote : (v .server).wrote = data
  running : done = false → Stays v .server
  ended : done = true → (v .server).closedAt = some data.length

theorem Outlet.step (safe : Safe id v) {data : Bytes} {done : Bool} (outlet : Outlet v data done) {e : Event}
    (fresh : Fresh id v e) (calm : ∀ x, e ≠ .reset x) (unwritten : ∀ d, e ≠ .write .server d)
    (unclosed : ∀ status, e ≠ .close .server status) : Outlet (v.step id e) data done where
  graceful := step_graceful safe outlet.graceful fresh calm
  wrote := ((step_touch id v e .server).unwritten unwritten).trans outlet.wrote
  running open_ := step_stays safe outlet.graceful (outlet.running open_) unclosed
  ended closed := (step_touch id v e .server).closedAt (outlet.ended closed)

theorem Outlet.write (safe : Safe id v) {data : Bytes} (outlet : Outlet v data false) (born : (v .server).born = true)
    {more : Bytes} (fits : data.length + more.length ≤ u64Max) :
    Outlet (v.step id (.write .server more)) (data ++ more) false where
  graceful := step_graceful safe outlet.graceful trivial nofun
  wrote := by
    obtain ⟨s,held⟩ := Option.ne_none_iff_exists'.mp ((outlet.running rfl).2 born)
    have next : s.sendNext = data.length := by
      rw [← outlet.wrote]
      exact ((safe.flowing .server).sending s held).next
    simp only [Lane.step,onSide_same,Endpoint.write,held]
    rw [if_pos (by rw [next]; exact fits)]
    exact congrArg (· ++ more) outlet.wrote
  running _ := step_stays safe outlet.graceful (outlet.running rfl) (by simp)
  ended := by simp

theorem Outlet.close (safe : Safe id v) {data : Bytes} (outlet : Outlet v data false) (born : (v .server).born = true)
    (status : Int) : Outlet (v.step id (.close .server status)) data true where
  graceful := step_graceful safe outlet.graceful trivial nofun
  wrote := ((step_touch id v (.close .server status) .server).unwritten nofun).trans outlet.wrote
  running := nofun
  ended _ := by
    have stays := outlet.running rfl
    obtain ⟨s,held⟩ := Option.ne_none_iff_exists'.mp (stays.2 born)
    simp only [Lane.step,onSide_same,Endpoint.close,held,stays.1,Option.none_or,outlet.wrote]

/-- A stream that does not exist yet has carried nothing. -/
theorem Outlet.unborn (safe : Safe id v) (unborn : ∀ x, (v x).born = false) : Outlet v [] false where
  graceful x := by
    have life := safe.life x
    refine ⟨fun s held => ?_,fun s held => ?_,fun f member => ?_⟩
    · rw [life.absent (unborn x)] at held; cases held
    · rw [life.absent (unborn x)] at held; cases held
    · rw [life.quiet (unborn x)] at member; cases member
  wrote := ((safe.life .server).records (unborn .server)).1
  running _ := ⟨((safe.life .server).records (unborn .server)).2.2,fun born => by rw [unborn] at born; cases born⟩
  ended := by simp

/-- The event is neither a reset nor a write or close by the server. -/
def Event.aside (e : Event) : Prop :=
  (∀ x, e ≠ .reset x) ∧ (∀ d, e ≠ .write .server d) ∧ ∀ status, e ≠ .close .server status

end Lane

namespace Link

variable {l l' : Link}

theorem event_aside {k : Nat} {a : Action} (calm : ∀ x, a ≠ .reset x k) (unwritten : ∀ data, a ≠ .write .server k data)
    (unclosed : ∀ status, a ≠ .close .server k status) : (l.event k a).aside := by
  refine ⟨fun x same => calm x (event_reset same),fun data same => ?_,fun status same => unclosed status (event_close same)⟩
  cases a with
  | write x j d =>
    simp only [event] at same
    split at same
    · rename_i mine
      cases same
      exact unwritten data (by rw [mine])
    · cases same
  | _ =>
    simp only [event] at same
    repeat' split at same
    all_goals cases same

theorem read_aside (x : Side) (k j : Nat) : (l.event k (.read x j)).aside := event_aside (by simp) (by simp) (by simp)

theorem write_aside (k j : Nat) (data : Bytes) : (l.event k (.write .client j data)).aside :=
  event_aside (by simp) (by simp) (by simp)

theorem close_aside (k j : Nat) (status : Int) : (l.event k (.close .client j status)).aside :=
  event_aside (by simp) (by simp) (by simp)

theorem outlet_step (safe : l.Safe) {k : Nat} {data : Bytes} {done : Bool} (outlet : Lane.Outlet (l.lane k) data done)
    {a : Action} (aside : (l.event k a).aside) : Lane.Outlet ((l.step a).lane k) data done := by
  rw [lane_step safe.keyed a k]
  exact outlet.step (safe.lanes k) (event_fresh safe a k) aside.1 aside.2.1 aside.2.2

end Link

namespace Driver

variable {l : Link} {k errId : Nat}

/-- The server's reads of a stream leave the outputs alone. -/
theorem feedStdin_outlet (safe : l.Safe) (fuel : Nat) (p : ExecProc) (results : List WriteResult) {j : Nat} {data : Bytes}
    {done : Bool} (outlet : Lane.Outlet (l.lane j) data done) :
    (feedStdin .server k fuel l p results).1.Safe ∧
      Lane.Outlet ((feedStdin .server k fuel l p results).1.lane j) data done := by
  refine (feedStdin_reaches fuel l p results).keeps (fun l => l.Safe ∧ Lane.Outlet (l.lane j) data done) ?_ ⟨safe,outlet⟩
  rintro l a both rfl
  exact ⟨Link.step_safe both.1 _,Link.outlet_step both.1 both.2 (Link.read_aside .server j k)⟩

/-- An output that is drained is written to its stream. -/
theorem drainOutput_outlet (safe : l.Safe) (read : ExecProc → Bytes × ExecProc) (p : ExecProc) {data : Bytes}
    (born : l.born .server k = true) (outlet : Lane.Outlet (l.lane k) data false)
    (fits : (data ++ (if (l.mux .server).inFlight k < sendCap then (read p).1 else [])).length ≤ u64Max) :
    Lane.Outlet ((drainOutput .server k read l p).1.lane k)
      (data ++ (if (l.mux .server).inFlight k < sendCap then (read p).1 else [])) false := by
  unfold drainOutput
  by_cases room : (l.mux .server).inFlight k < sendCap
  · rw [if_pos room] at fits ⊢
    rw [if_pos room]
    dsimp only
    by_cases none : (read p).1.isEmpty = true
    · rw [if_pos none,List.isEmpty_iff.mp none,List.append_nil]
      exact outlet
    · rw [if_neg none,Link.lane_step safe.keyed]
      simp only [Link.event,if_true]
      exact outlet.write (safe.lanes k) born (by rw [← List.length_append]; exact fits)
  · rw [if_neg room] at fits ⊢
    rw [if_neg room,List.append_nil]
    exact outlet

end Driver
namespace ExecRun

/-- What both ends know of the command's streams: the client's `e` and the server's `o`. -/
structure Wire (e : Nat) (o : Option Nat) (l : Link) : Prop where
  safe : l.Safe
  announced : l.Announced
  sorted : l.Sorted (fun k => k = e ∨ o = some k)
  notices : l.Notices .client (l.mux .client).events
  born : l.born .client e = true
  told : (l.mux .client).events.any (StreamEvent.opens e) = false

variable {e : Nat} {o : Option Nat} {l l' : Link} {printed : Bytes × Bytes} {pending : List StreamEvent} {d d' : Driver}

/-- A stream that a side has held is not announced to it again. -/
theorem step_told (safe : l.Safe) {x : Side} {a : Link.Action} (kept : Link.takesAt x a = false) {k : Nat}
    (born : l.born x k = true) (none : (l.mux x).events.any (StreamEvent.opens k) = false) :
    ((l.step a).mux x).events.any (StreamEvent.opens k) = false := by
  rcases l.step_events kept with same | ⟨n,frame,new,rfl,sent,_,events,raises⟩
  · rw [same]
    exact none
  · rw [events,List.any_append,none,Bool.false_or]
    cases raises with
    | @opened j kind metadata _ _ =>
      have unborn : l.born x j = false := by simpa using safe.opening sent
      have other : j ≠ k := by
        rintro rfl
        rw [unborn] at born
        cases born
      simp [StreamEvent.opens,other]
    | none | readable | closed | reset => simp [StreamEvent.opens]

theorem Wire.step (wire : Wire e o l) {a : Link.Action} (kept : Link.takesAt .client a = false)
    (opening : ∀ y kind metadata, a = .openStream y kind metadata →
      (kind = .exec ↔ (l.mux y).nextLocalId = e ∨ o = some (l.mux y).nextLocalId)) : Wire e o (l.step a) where
  safe := Link.step_safe wire.safe a
  announced := Link.step_announced wire.safe wire.announced a
  sorted := wire.sorted.step wire.safe opening
  notices := wire.notices.step wire.safe wire.announced kept
  born := Link.step_born l a wire.born
  told := step_told wire.safe kept wire.born wire.told

theorem Wire.reaches {ok : Link.Action → Prop} (wire : Wire e o l) (reaches : Link.Reaches ok l l')
    (calls : ∀ a, ok a → Link.takesAt .client a = false ∧ ∀ y kind metadata, a ≠ .openStream y kind metadata) :
    Wire e o l' :=
  reaches.keeps (Wire e o) (fun _ a wire allowed => wire.step (calls a allowed).1
    (fun y kind metadata opened => absurd opened ((calls a allowed).2 y kind metadata))) wire

theorem callOn_plain {x : Side} {k : Nat} (a : Link.Action) (call : Link.callOn x k a = true) :
    Link.takesAt .client a = false ∧ ∀ y kind metadata, a ≠ .openStream y kind metadata := by
  cases a <;> first | cases call | exact ⟨rfl,by simp⟩

/-- The server has taken note of the stream and does not serve it as a forward. -/
structure Known (pending : List StreamEvent) (d : Driver) (k : Nat) : Prop where
  born : d.link.born .server k = true
  told : pending.any (StreamEvent.opens k) = false
  apart : d.forwards[k]? = none

/-- The server has not refused the command. -/
def Fair (e : Nat) (o : Option Nat) (pending : List StreamEvent) (l : Link) : Prop :=
  o ≠ none ∨ l.born .server e = false ∨ pending.any (StreamEvent.opens e) = true

/-- The server's side, while `pending` are the events it has not handled: the command with its
streams `e` and `o` has printed `printed`. -/
structure Host (e : Nat) (o : Option Nat) (printed : Bytes × Bytes) (pending : List StreamEvent) (d : Driver) : Prop where
  valid : d.Valid .server pending
  wire : Wire e o d.link
  execs : ∀ (k : Nat) (s : ExecState), d.execs[k]? = some s → k = e ∧ o = some s.errId
  kinds : ∀ k kind metadata, .opened k kind metadata ∈ pending → (kind = .exec ↔ k = e ∨ o = some k)
  apart : d.forwards[e]? = none
  calm : Fair e o pending d.link → .reset e ∉ pending
  out : Fair e o pending d.link → Lane.Outlet (d.link.lane e) printed.1 (o.isSome && (d.execs[e]?).isNone)
  closed : o = none → d.link.closedAt .server e = none
  blank : o = none → printed = ([],[])
  known : o ≠ none → Known pending d e
  err : ∀ s, o = some s → s ≠ e ∧ Known pending d s ∧
    Lane.Outlet (d.link.lane s) printed.2 (o.isSome && (d.execs[e]?).isNone)

theorem fair_of_some {s : Nat} (spawned : o = some s) : Fair e o pending l := .inl (by rw [spawned]; simp)

theorem fair_opening {kind : StreamKind} {metadata : Bytes} : Fair e o (.opened e kind metadata :: pending) l :=
  .inr (.inr (StreamEvent.any_opens List.mem_cons_self))

theorem Fair.mono {pending' : List StreamEvent} (fair : Fair e o pending' l') (sub : pending' ⊆ pending)
    (born : l.born .server e = true → l'.born .server e = true) : Fair e o pending l := by
  rcases fair with some | unborn | opens
  · exact .inl some
  · refine .inr (.inl (Bool.eq_false_iff.mpr (fun before => ?_)))
    rw [born before] at unborn
    cases unborn
  · obtain ⟨event,member,here⟩ := List.any_eq_true.mp opens
    exact .inr (.inr (List.any_eq_true.mpr ⟨event,sub member,here⟩))

/-- A step that leaves the command and its two outputs alone. -/
theorem Host.move {pending' : List StreamEvent} (host : Host e o printed pending d) (valid : d'.Valid .server pending')
    (wire : Wire e o d'.link)
    (execs : ∀ (k : Nat) (s : ExecState), d'.execs[k]? = some s →
      ∃ s' : ExecState, d.execs[k]? = some s' ∧ s'.errId = s.errId)
    (running : (d'.execs[e]?).isNone = (d.execs[e]?).isNone)
    (kinds : ∀ k kind metadata, .opened k kind metadata ∈ pending' → (kind = .exec ↔ k = e ∨ o = some k))
    (fair : Fair e o pending' d'.link → Fair e o pending d.link)
    (calm : Fair e o pending' d'.link → .reset e ∈ pending' → .reset e ∈ pending)
    (apart : ∀ k, k = e ∨ o = some k → d.forwards[k]? = none → d'.forwards[k]? = none)
    (born : ∀ k, d.link.born .server k = true → d'.link.born .server k = true)
    (told : ∀ k, d.link.born .server k = true → pending.any (StreamEvent.opens k) = false →
      pending'.any (StreamEvent.opens k) = false)
    (lanes : Fair e o pending' d'.link → ∀ k, k = e ∨ o = some k → ∀ data done,
      Lane.Outlet (d.link.lane k) data done → Lane.Outlet (d'.link.lane k) data done)
    (closed : o = none → d'.link.closedAt .server e = d.link.closedAt .server e) : Host e o printed pending' d' := by
  have known : ∀ k, k = e ∨ o = some k → Known pending d k → Known pending' d' k :=
    fun k mine old => ⟨born k old.born,told k old.born old.told,apart k mine old.apart⟩
  refine ⟨valid,wire,fun k s here => ?_,kinds,apart e (.inl rfl) host.apart,fun isFair member => ?_,fun isFair => ?_,
    fun none => (closed none).trans (host.closed none),host.blank,fun some => known e (.inl rfl) (host.known some),
    fun s spawned => ?_⟩
  · obtain ⟨s',before,same⟩ := execs k s here
    rw [← same]
    exact host.execs k s' before
  · exact host.calm (fair isFair) (calm isFair member)
  · rw [running]
    exact lanes isFair e (.inl rfl) _ _ (host.out (fair isFair))
  · obtain ⟨ne,old,outlet⟩ := host.err s spawned
    rw [running]
    exact ⟨ne,known s (.inr spawned) old,lanes (fair_of_some spawned) s (.inr spawned) _ _ outlet⟩

theorem Fair.step (safe : l.Safe) {a : Link.Action} (kept : Link.takesAt .server a = false)
    (fair : Fair e o ((l.step a).mux .server).events (l.step a)) : Fair e o (l.mux .server).events l := by
  rcases fair with some | unborn | opens
  · exact .inl some
  · refine .inr (.inl (Bool.eq_false_iff.mpr (fun before => ?_)))
    rw [Link.step_born l a before] at unborn
    cases unborn
  · cases before : l.born .server e with
    | false => exact .inr (.inl before)
    | true =>
      refine .inr (.inr ?_)
      by_contra none
      rw [step_told safe kept before (by simpa using none)] at opens
      cases opens

/-- The link moves without the driver, and neither resets the command's streams nor writes to
or closes them at the server. -/
theorem Host.link (host : Host e o printed (d.link.mux .server).events d) {a : Link.Action}
    (serverKept : Link.takesAt .server a = false) (clientKept : Link.takesAt .client a = false)
    (unread : ∀ j, a ≠ .read .server j)
    (opening : ∀ y kind metadata, a = .openStream y kind metadata →
      (kind = .exec ↔ (d.link.mux y).nextLocalId = e ∨ o = some (d.link.mux y).nextLocalId))
    (aside : ∀ k, k = e ∨ o = some k → (d.link.event k a).aside) :
    Host e o printed ((d.link.step a).mux .server).events { d with link := d.link.step a } := by
  have safe := host.wire.safe
  have rests : d.Rests .server := host.valid
  have wire := host.wire.step clientKept opening
  refine host.move (rests.link serverKept unread) wire (fun k s here => ⟨s,here,rfl⟩) rfl (wire.sorted.events .server)
    (fun fair => fair.step safe serverKept) (fun isFair member => ?_) (fun _ _ none => none)
    (fun k => Link.step_born d.link a) (fun k => step_told safe serverKept)
    (fun _ k mine data done outlet => Link.outlet_step safe outlet (aside k mine)) (fun none => ?_)
  · rcases d.link.step_events serverKept with same | ⟨n,frame,new,rfl,sent,_,events,raises⟩
    · rw [← same]
      exact member
    · rw [events,List.mem_append] at member
      refine member.resolve_right (fun raised => ?_)
      cases raises with
      | reset =>
        cases List.mem_singleton.mp raised
        refine ((host.out (isFair.step safe serverKept)).graceful .client).calm _ (List.mem_filter.mpr ⟨sent,?_⟩) e rfl
        simp [Frame.names,Frame.streamId]
      | none | opened | readable | closed => simp at raised
  · refine Link.step_unclosed d.link (fun status same => ?_)
    subst same
    exact (aside e (.inl rfl)).2.2 status (by simp [Link.event])

/-- The server's stream `s` for the command's stderr is opened. -/
structure Opens (e s : Nat) (l l' : Link) : Prop where
  unborn : ∀ y, l.born y s = false
  ne : s ≠ e
  wire : Wire e (some s) l'
  lane : l'.lane e = l.lane e
  born : l'.born .server s = true
  err : Lane.Outlet (l'.lane s) [] false

theorem Wire.opens (wire : Wire e none l) (none : (l.mux .server).events = []) :
    Opens e (l.mux .server).nextLocalId l (l.step (.openStream .server .exec [])) := by
  have safe := wire.safe
  generalize fresh : (l.mux .server).nextLocalId = s
  have unborn : ∀ y, l.born y s = false := by
    rw [← fresh]
    exact (safe.numbered .server).fresh _ (Nat.le_refl _) (safe.numbered .server).next
  have ne : s ≠ e := by
    rintro rfl
    have absent := unborn .client
    rw [wire.born] at absent
    cases absent
  have untold : ∀ y, (l.mux y).events.any (StreamEvent.opens s) = false := by
    intro y
    cases y with
    | server => rw [none]; rfl
    | client =>
      by_contra told
      have here := wire.notices.born s (by simpa using told)
      rw [unborn] at here
      cases here
  have grown : Wire e (some s) l := by
    refine ⟨safe,wire.announced,?_,wire.notices,wire.born,wire.told⟩
    have sorted := wire.sorted.grow safe unborn untold
    rwa [show (fun k => (k = e ∨ Option.none = some k) ∨ k = s) = fun k => k = e ∨ some s = some k by
      funext k; simp [eq_comm]] at sorted
  have opening : ∀ y kind metadata', Link.Action.openStream .server .exec [] = .openStream y kind metadata' →
      (kind = .exec ↔ (l.mux y).nextLocalId = e ∨ some s = some (l.mux y).nextLocalId) := by
    intro y kind metadata' same
    cases same
    simp [fresh]
  refine ⟨unborn,ne,grown.step rfl opening,?_,?_,?_⟩
  · rw [Link.lane_step safe.keyed]
    simp only [Link.event,fresh,if_neg ne]
    rfl
  · have here := congrFun (Link.lane_step safe.keyed (.openStream .server .exec []) s) .server
    simp only [Link.event,fresh,if_true,Lane.step,Lane.onSide_same] at here
    exact congrArg Endpoint.born here
  · exact Link.outlet_step safe (Lane.Outlet.unborn (safe.lanes s) unborn) (a := .openStream .server .exec [])
      (Link.event_aside (by simp) (by simp) (by simp))

/-- The command is spawned: the server opens the stream of its stderr. -/
theorem Host.spawn {metadata : Bytes} (host : Host e none printed (.opened e .exec metadata :: pending) d)
    (none : (d.link.mux .server).events = []) (valid : Driver.Valid .server pending { d with
      link := d.link.step (.openStream .server .exec [])
      execs := d.execs.insert e ⟨{},(d.link.mux .server).nextLocalId⟩ }) :
    Host e (some (d.link.mux .server).nextLocalId) printed pending { d with
      link := d.link.step (.openStream .server .exec [])
      execs := d.execs.insert e ⟨{},(d.link.mux .server).nextLocalId⟩ } := by
  have opens := host.wire.opens none
  have fair : Fair e Option.none (.opened e .exec metadata :: pending) d.link := fair_opening
  have born : d.link.born .server e = true := host.valid.notices.born e (StreamEvent.any_opens List.mem_cons_self)
  have once := host.valid.notices.handled
  generalize (d.link.mux .server).nextLocalId = s at valid opens ⊢
  have unheard : pending.any (StreamEvent.opens s) = false := by
    by_contra told
    have here := host.valid.weaken.notices.born s (by simpa using told)
    rw [opens.unborn] at here
    cases here
  refine ⟨valid,opens.wire,fun k t here => ?_,fun k kind metadata' member => ?_,host.apart,fun _ member => ?_,
    fun _ => ?_,by simp,by simp,fun _ => ⟨Link.step_born _ _ born,once,host.apart⟩,fun t same => ?_⟩
  · rw [Std.TreeMap.getElem?_insert] at here
    split at here
    · rename_i same
      cases here
      exact ⟨(Std.compare_eq_iff_eq.mp same).symm,rfl⟩
    · exact absurd (host.execs k t here).2 (by simp)
  · have before := host.kinds k kind metadata' (List.mem_cons_of_mem _ member)
    have other : s ≠ k := by
      rintro rfl
      rw [StreamEvent.any_opens member] at unheard
      cases unheard
    simpa [other] using before
  · exact host.calm fair (List.mem_cons_of_mem _ member)
  · have outlet := host.out fair
    rw [opens.lane]
    simpa using outlet
  · cases same
    have blank := host.blank rfl
    refine ⟨opens.ne,⟨opens.born,unheard,(host.valid.unborn s (opens.unborn .server)).1⟩,?_⟩
    simpa [blank] using opens.err

/-- Calls that do not concern the command. -/
theorem Host.calls {pending' : List StreamEvent} (host : Host e o printed pending d) (valid : d'.Valid .server pending')
    (sub : pending' ⊆ pending) {ok : Link.Action → Prop} (reaches : Link.Reaches ok d.link d'.link)
    (calls : ∀ a, ok a → Link.takesAt .client a = false ∧ (∀ y kind metadata, a ≠ .openStream y kind metadata) ∧
      ∀ k, k = e ∨ o = some k → ∀ l : Link, l.event k a = .idle)
    (execs : ∀ (k : Nat) (s : ExecState), d'.execs[k]? = some s →
      ∃ s' : ExecState, d.execs[k]? = some s' ∧ s'.errId = s.errId)
    (running : (d'.execs[e]?).isNone = (d.execs[e]?).isNone)
    (apart : ∀ k, k = e ∨ o = some k → d.forwards[k]? = none → d'.forwards[k]? = none) :
    Host e o printed pending' d' := by
  have lane : ∀ k, k = e ∨ o = some k → d'.link.lane k = d.link.lane k := fun k mine =>
    (reaches.lane host.wire.safe (fun l a allowed => (calls a allowed).2.2 k mine l)).2
  refine host.move valid (host.wire.reaches reaches (fun a allowed => ⟨(calls a allowed).1,(calls a allowed).2.1⟩)) execs
    running (fun k kind metadata member => host.kinds k kind metadata (sub member))
    (fun fair => fair.mono sub reaches.born) (fun _ member => sub member) apart (fun k => reaches.born)
    (fun k _ none => ?_) (fun _ k mine data done outlet => by rw [lane k mine]; exact outlet)
    (fun _ => congrArg Endpoint.closedAt (congrFun (lane e (.inl rfl)) .server))
  rw [List.any_eq_false] at none ⊢
  exact fun event member => none event (sub member)

/-- The command goes on as it was, or it is spawned, with a stream for its stderr that the client
has not heard of. -/
structure Grows (e : Nat) (o o' : Option Nat) (pending pending' : List StreamEvent) (d d' : Driver) : Prop where
  fair : Fair e o' pending' d'.link → Fair e o pending d.link
  client : ∀ k, d'.link.lane k .client = d.link.lane k .client
  runs : o' = o ∧ (d'.execs[e]?).isSome = (d.execs[e]?).isSome ∨
    o = none ∧ (∃ s, o' = some s ∧ d.link.born .client s = false) ∧ (d'.execs[e]?).isSome = true

theorem Grows.refl : Grows e o o pending pending d d := ⟨id,fun _ => rfl,.inl ⟨rfl,rfl⟩⟩

theorem Grows.trans {o₁ o₂ : Option Nat} {p₁ p₂ : List StreamEvent} {d₁ d₂ : Driver}
    (first : Grows e o o₁ pending p₁ d d₁) (second : Grows e o₁ o₂ p₁ p₂ d₁ d₂) : Grows e o o₂ pending p₂ d d₂ := by
  have client := fun k => (second.client k).trans (first.client k)
  refine ⟨fun fair => first.fair (second.fair fair),client,?_⟩
  rcases first.runs with ⟨rfl,running⟩ | ⟨none,⟨s,rfl,unborn⟩,running⟩
  · rcases second.runs with ⟨same,still⟩ | ⟨none,⟨s,spawned,unborn⟩,running'⟩
    · exact .inl ⟨same,still.trans running⟩
    · refine .inr ⟨none,⟨s,spawned,?_⟩,running'⟩
      rw [← unborn]
      exact (congrArg Endpoint.born (first.client s)).symm
  · rcases second.runs with ⟨rfl,still⟩ | ⟨absurd,_⟩
    · exact .inr ⟨none,⟨s,rfl,unborn⟩,still.trans running⟩
    · cases absurd

/-- The server's own calls leave the client's end of every stream alone. -/
theorem reaches_client {ok : Link.Action → Prop} (safe : l.Safe) (reaches : Link.Reaches ok l l')
    (own : ∀ a, ok a → Link.ownCall .server a = true ∨ a = .takeEvents .server) (k : Nat) :
    l'.lane k .client = l.lane k .client := by
  refine (reaches.keeps (fun next => next.Safe ∧ next.lane k .client = l.lane k .client) (fun next a both allowed => ?_)
    ⟨safe,rfl⟩).2
  refine ⟨Link.step_safe both.1 a,?_⟩
  rw [Link.lane_step both.1.keyed]
  rcases own a allowed with call | rfl
  · rw [show Side.client = Side.server.other from rfl,Lane.step_own_other (Link.event_own call k)]
    exact both.2
  · exact both.2

/-- The command's stream is announced: it is spawned or refused. -/
theorem Host.opened {metadata : Bytes} (io : Io) (host : Host e o printed (.opened e .exec metadata :: pending) d)
    (none : (d.link.mux .server).events = []) :
    ∃ o', Host e o' printed pending (d.handleEvent .server io (.opened e .exec metadata)) ∧
      Grows e o o' (.opened e .exec metadata :: pending) pending d
        (d.handleEvent .server io (.opened e .exec metadata)) := by
  have valid := Driver.handleEvent_valid io host.valid
  have unspawned : o = Option.none := by
    by_contra spawned
    have told := (host.known spawned).told
    simp [StreamEvent.opens] at told
  subst unspawned
  have born : d.link.born .server e = true := host.valid.notices.born e (StreamEvent.any_opens List.mem_cons_self)
  have once := host.valid.notices.handled
  have refuse : Driver.Valid .server pending { d with link := d.link.step (.reset .server e) } →
      Host e Option.none printed pending { d with link := d.link.step (.reset .server e) } := by
    intro valid
    have unfair : ¬Fair e Option.none pending (d.link.step (.reset .server e)) := by
      rintro (some | unborn | opens)
      · exact some rfl
      · rw [Link.step_born _ _ born] at unborn; cases unborn
      · rw [once] at opens; cases opens
    refine host.move valid (host.wire.step rfl (by simp)) (fun k s here => ⟨s,here,rfl⟩) rfl
      (fun k kind metadata member => host.kinds k kind metadata (List.mem_cons_of_mem _ member))
      (fun fair => absurd fair unfair) (fun fair => absurd fair unfair) (fun _ _ none => none)
      (fun k before => Link.step_born _ _ before) (fun k _ none => ?_) (fun fair => absurd fair unfair)
      (fun _ => Link.step_unclosed _ (by simp))
    rw [List.any_cons,Bool.or_eq_false_iff] at none
    exact none.2
  have client := reaches_client host.wire.safe (d.handleEvent_reaches (x := .server) io (.opened e .exec metadata))
    (fun _ own => .inl own)
  have fair : Fair e Option.none (.opened e .exec metadata :: pending) d.link := fair_opening
  simp only [Driver.handleEvent,Driver.onOpened] at valid client ⊢
  by_cases refused : d.privsep = true
  · rw [if_pos refused] at valid client ⊢
    exact ⟨Option.none,refuse valid,fun _ => fair,client,.inl ⟨rfl,rfl⟩⟩
  · rw [if_neg refused] at valid client ⊢
    by_cases started : (io e).started = true
    · rw [if_pos started] at valid client ⊢
      have safe := host.wire.safe
      have unborn := (safe.numbered .server).fresh _ (Nat.le_refl _) (safe.numbered .server).next .client
      exact ⟨some _,host.spawn none valid,fun _ => fair,client,.inr ⟨rfl,⟨_,rfl,unborn⟩,by simp⟩⟩
    · rw [if_neg started] at valid client ⊢
      exact ⟨Option.none,refuse valid,fun _ => fair,client,.inl ⟨rfl,rfl⟩⟩

/-- The event does not concern the command. -/
structure Bystander (e : Nat) (o : Option Nat) (d : Driver) (event : StreamEvent) : Prop where
  apart : ∀ k, k = e ∨ o = some k → ∀ kind metadata, event ≠ .opened k kind metadata
  unspawned : ∀ k metadata, event ≠ .opened k .exec metadata
  quiet : ∀ k (s : ExecState), d.execs[k]? = some s → event ≠ .reset k

/-- No event but the announcement of the command's stream concerns it. -/
theorem Host.bystander {event : StreamEvent} (host : Host e o printed (event :: pending) d)
    (other : ∀ metadata, event ≠ .opened e .exec metadata) : Bystander e o d event := by
  have apart : ∀ k, k = e ∨ o = some k → ∀ kind metadata, event ≠ .opened k kind metadata := by
    rintro k mine kind metadata rfl
    rcases mine with rfl | spawned
    · exact other metadata (by rw [(host.kinds k kind metadata List.mem_cons_self).mpr (.inl rfl)])
    · have told := (host.err k spawned).2.1.told
      simp [StreamEvent.opens] at told
  refine ⟨apart,?_,?_⟩
  · rintro k metadata rfl
    exact apart k ((host.kinds k .exec metadata List.mem_cons_self).mp rfl) .exec metadata rfl
  · rintro k s held rfl
    obtain ⟨rfl,spawned⟩ := host.execs k s held
    exact host.calm (fair_of_some spawned) List.mem_cons_self

theorem Bystander.execs {event : StreamEvent} (bystander : Bystander e o d event) (io : Io) (k : Nat) :
    ((d.handleEvent .server io event).execs[k]?).map ExecState.errId = (d.execs[k]?).map ExecState.errId := by
  rcases d.handleEvent_execs .server io event k with same | ⟨metadata,_,rfl,_⟩ | ⟨status,s,_,held,after⟩ | ⟨rfl,gone⟩
  · rw [same]
  · exact absurd rfl (bystander.unspawned k metadata)
  · rw [held,after]
    rfl
  · cases held : d.execs[k]? with
    | none => rw [gone]
    | some s => exact absurd rfl (bystander.quiet k s held)

theorem Bystander.forwards {event : StreamEvent} (bystander : Bystander e o d event) (io : Io) {k : Nat}
    (mine : k = e ∨ o = some k) (absent : d.forwards[k]? = none) :
    (d.handleEvent .server io event).forwards[k]? = none := by
  rcases d.handleEvent_forwards .server io event k with ⟨same,_⟩ | ⟨metadata,opened,_⟩ | ⟨_,c,_,held,_⟩ | ⟨_,gone⟩
  · exact same.trans absent
  · exact absurd opened (bystander.apart k mine .forward metadata)
  · rw [absent] at held
    cases held
  · exact gone

theorem Host.other {event : StreamEvent} (io : Io) (host : Host e o printed (event :: pending) d)
    (bystander : Bystander e o d event) : Host e o printed pending (d.handleEvent .server io event) := by
  have valid := Driver.handleEvent_valid io host.valid
  have kept : ∀ (k : Nat) (s : ExecState), (d.handleEvent .server io event).execs[k]? = some s →
      ∃ s' : ExecState, d.execs[k]? = some s' ∧ s'.errId = s.errId := by
    intro k s here
    have same := bystander.execs io k
    rw [here] at same
    exact Option.map_eq_some_iff.mp same.symm
  have running : ((d.handleEvent .server io event).execs[e]?).isNone = (d.execs[e]?).isNone := by
    have same := congrArg Option.isNone (bystander.execs io e)
    simpa using same
  have forwards := fun k mine absent => bystander.forwards io (k := k) mine absent
  rcases d.handleEvent_link .server io event with same |
    ⟨a,eq,⟨k,kind,metadata,rfl,call⟩ | ⟨k,metadata,rfl,_⟩ | ⟨k,s,rfl,held,_⟩⟩
  · have reaches : Link.Reaches (fun _ => False) d.link (d.handleEvent .server io event).link := by
      rw [same]
      exact .refl _
    exact host.calls valid (List.subset_cons_self _ _) reaches (by simp) kept running forwards
  · have reaches : Link.Reaches (· = a) d.link (d.handleEvent .server io (.opened k kind metadata)).link := by
      rw [eq]
      exact .step _ rfl
    refine host.calls valid (List.subset_cons_self _ _) reaches (fun b same => ?_) kept running forwards
    subst same
    obtain ⟨client,plain⟩ := callOn_plain b call
    refine ⟨client,plain,fun j mine l => Link.event_callOn call (fun here => ?_) l⟩
    subst here
    exact bystander.apart j mine kind metadata rfl
  · exact absurd rfl (bystander.unspawned k metadata)
  · exact absurd rfl (bystander.quiet k s held)

theorem Host.event {event : StreamEvent} (io : Io) (host : Host e o printed (event :: pending) d)
    (none : (d.link.mux .server).events = []) :
    ∃ o', Host e o' printed pending (d.handleEvent .server io event) ∧
      Grows e o o' (event :: pending) pending d (d.handleEvent .server io event) := by
  by_cases announced : ∃ metadata, event = .opened e .exec metadata
  · obtain ⟨metadata,rfl⟩ := announced
    exact host.opened io none
  · have bystander := host.bystander (fun metadata same => announced ⟨metadata,same⟩)
    have reaches := d.handleEvent_reaches (x := .server) io event
    refine ⟨o,host.other io bystander,fun fair => fair.mono (List.subset_cons_self _ _) reaches.born,
      reaches_client host.wire.safe reaches (fun _ own => .inl own),.inl ⟨rfl,?_⟩⟩
    have same := congrArg Option.isSome (bystander.execs io e)
    simpa using same

/-- Calls of the server during which the command goes on as it was. -/
theorem grows_same {ok : Link.Action → Prop} (safe : d.link.Safe) (reaches : Link.Reaches ok d.link d'.link)
    (own : ∀ a, ok a → Link.ownCall .server a = true ∨ a = .takeEvents .server) (execs : d'.execs = d.execs) :
    Grows e o o pending pending d d' :=
  ⟨fun fair => fair.mono (fun _ member => member) reaches.born,reaches_client safe reaches own,
    .inl ⟨rfl,by rw [execs]⟩⟩

/-- The pump takes the events. -/
theorem Host.take (host : Host e o printed (d.link.mux .server).events d) :
    Host e o printed (d.link.mux .server).events { d with link := d.link.step (.takeEvents .server) } := by
  have rests : d.Rests .server := host.valid
  have reaches : Link.Reaches (· = .takeEvents .server) d.link (d.link.step (.takeEvents .server)) := .step _ rfl
  refine host.calls (Driver.Valid.take rests).1 (fun _ member => member) reaches ?_ (fun k s here => ⟨s,here,rfl⟩) rfl
    (fun _ _ none => none)
  rintro a rfl
  exact ⟨rfl,by simp,fun _ _ _ => rfl⟩

theorem Host.forward (io : Io) (host : Host e o printed [] d) (j : Nat) :
    Host e o printed [] (d.pumpForward .server io j) ∧ Grows e o o [] [] d (d.pumpForward .server io j) := by
  have execs : (d.pumpForward .server io j).execs = d.execs := by
    unfold Driver.pumpForward
    split
    · dsimp only
      split <;> rfl
    · rfl
  have reaches := d.pumpForward_reaches (x := .server) io j
  refine ⟨?_,grows_same host.wire.safe reaches (fun a call => .inl (Link.ownCall_of_callOn call)) execs⟩
  cases held : d.forwards[j]? with
  | none =>
    have same : d.pumpForward .server io j = d := by simp only [Driver.pumpForward,held]
    rw [same]
    exact host
  | some c =>
    have other : ∀ k, k = e ∨ o = some k → k ≠ j := by
      rintro k mine rfl
      rcases mine with rfl | spawned
      · rw [host.apart] at held
        cases held
      · rw [(host.err k spawned).2.1.apart] at held
        cases held
    refine host.calls (Driver.pumpForward_valid host.valid io j) (fun _ member => member) reaches
      (fun a call => ?_) (fun k s here => ⟨s,by rw [← execs]; exact here,rfl⟩) (by rw [execs]) (fun k mine none => ?_)
    · obtain ⟨client,plain⟩ := callOn_plain a call
      exact ⟨client,plain,fun k mine l => Link.event_callOn call (other k mine) l⟩
    · have ne := other k mine
      simp only [Driver.pumpForward,held]
      split
      · rw [TreeMaps.getElem?_erase_ne _ ne]
        exact none
      · rw [TreeMaps.getElem?_insert_ne _ _ ne]
        exact none

/-- A pump up to its commands. -/
theorem Host.serveForwards (io : Io) (host : Host e o printed (d.link.mux .server).events d) :
    ∃ o', Host e o' printed [] (d.serveForwards .server io) ∧
      Grows e o o' (d.link.mux .server).events [] d (d.serveForwards .server io) := by
  have events : ∀ pending d o, Host e o printed pending d → (d.link.mux .server).events = [] →
      ∃ o', Host e o' printed [] (pending.foldl (Driver.handleEvent .server io) d) ∧
        Grows e o o' pending [] d (pending.foldl (Driver.handleEvent .server io) d) := by
    intro pending
    induction pending with
    | nil => exact fun d o host _ => ⟨o,host,.refl⟩
    | cons event rest ih =>
      intro d o host none
      obtain ⟨mid,first,grows⟩ := host.event io none
      have taken : d.Taken .server (event :: rest) := ⟨host.valid,none⟩
      obtain ⟨o',last,later⟩ := ih _ mid first (taken.handle io).2
      exact ⟨o',last,grows.trans later⟩
  have forwards : ∀ keys d o, Host e o printed [] d →
      Host e o printed [] (List.foldl (Driver.pumpForward .server io) d keys) ∧
        Grows e o o [] [] d (List.foldl (Driver.pumpForward .server io) d keys) := by
    intro keys
    induction keys with
    | nil => exact fun d o host => ⟨host,.refl⟩
    | cons j rest ih =>
      intro d o host
      obtain ⟨first,grows⟩ := host.forward io j
      obtain ⟨last,later⟩ := ih _ o first
      exact ⟨last,grows.trans later⟩
  have none := (Driver.Valid.take (x := .server) host.valid).2
  have reaches : Link.Reaches (· = .takeEvents .server) d.link (d.link.step (.takeEvents .server)) := .step _ rfl
  have took : Grows e o o (d.link.mux .server).events (d.link.mux .server).events d
      { d with link := d.link.step (.takeEvents .server) } :=
    grows_same host.wire.safe reaches (fun _ same => .inr same) rfl
  obtain ⟨o',handled,grows⟩ := events _ _ _ host.take none
  obtain ⟨served,later⟩ := forwards _ _ o' handled
  exact ⟨o',served,(took.trans grows).trans later⟩

/-- The two streams of a running command. -/
structure Streams (e t : Nat) (o : Option Nat) (printed : Bytes × Bytes) (l : Link) : Prop where
  wire : Wire e o l
  out : Lane.Outlet (l.lane e) printed.1 false
  err : Lane.Outlet (l.lane t) printed.2 false
  born : l.born .server e = true ∧ l.born .server t = true

/-- What `pumpProc` takes from the command it writes to the streams. -/
theorem Streams.pumpProc {t : Nat} (streams : Streams e t o printed l) (ne : t ≠ e) (io : StreamIo) (p : ExecProc)
    (fits : (printed.1 ++ (Driver.taken .server e t io l p).1).length ≤ u64Max ∧
      (printed.2 ++ (Driver.taken .server e t io l p).2).length ≤ u64Max) :
    Streams e t o (printed.1 ++ (Driver.taken .server e t io l p).1,printed.2 ++ (Driver.taken .server e t io l p).2)
      (Driver.pumpProc .server e t io l p).1 := by
  have read : ∀ a, a = Link.Action.read .server e → Link.takesAt .client a = false ∧
      ∀ y kind metadata, a ≠ .openStream y kind metadata := by
    rintro a rfl
    exact ⟨rfl,by simp⟩
  unfold Driver.taken at fits ⊢
  unfold Driver.pumpProc
  dsimp only at fits ⊢
  have fedReaches := Driver.feedStdin_reaches (x := .server) (k := e) ((l.mux .server).recvBuffered e + 1) l p io.writes
  have fedOut := Driver.feedStdin_outlet (k := e) streams.wire.safe ((l.mux .server).recvBuffered e + 1) p io.writes streams.out
  have fedErr := Driver.feedStdin_outlet (k := e) streams.wire.safe ((l.mux .server).recvBuffered e + 1) p io.writes streams.err
  generalize Driver.feedStdin .server e ((l.mux .server).recvBuffered e + 1) l p io.writes = fed at *
  have fedStreams : Streams e t o printed fed.1 :=
    ⟨streams.wire.reaches fedReaches read,fedOut.2,fedErr.2,fedReaches.born streams.born.1,fedReaches.born streams.born.2⟩
  have outReaches := Driver.drainOutput_reaches (x := .server) e (·.readStdout io.reads) fed.1 (fed.2.1.flushStdin fed.2.2).1
  have outOut := Driver.drainOutput_outlet fedOut.1 (·.readStdout io.reads) (fed.2.1.flushStdin fed.2.2).1
    fedStreams.born.1 fedStreams.out fits.1
  generalize outEq : Driver.drainOutput .server e (·.readStdout io.reads) fed.1 (fed.2.1.flushStdin fed.2.2).1 = out at *
  have outErr := (outReaches.lane fedOut.1 (k := t) (fun l a call => Link.event_callOn call ne l)).2
  have outWire := fedStreams.wire.reaches outReaches callOn_plain
  have outBorn := outReaches.born fedStreams.born.2
  have errReaches := Driver.drainOutput_reaches (x := .server) t (·.readStderr io.errors) out.1 out.2
  have errErr := Driver.drainOutput_outlet outWire.safe (·.readStderr io.errors) out.2 outBorn
    (by rw [outErr]; exact fedStreams.err) fits.2
  have errOut := (errReaches.lane outWire.safe (k := e) (fun l a call => Link.event_callOn call ne.symm l)).2
  refine ⟨outWire.reaches errReaches callOn_plain,?_,errErr,
    errReaches.born (outReaches.born fedStreams.born.1),errReaches.born outBorn⟩
  rw [errOut]
  exact outOut

/-- Both streams are closed. -/
theorem Streams.finish {t : Nat} (streams : Streams e t o printed l) (ne : t ≠ e) (code : Int) :
    let l' := (l.step (.close .server e code)).step (.close .server t 0)
    Wire e o l' ∧ Lane.Outlet (l'.lane e) printed.1 true ∧ Lane.Outlet (l'.lane t) printed.2 true ∧
      l'.born .server e = true ∧ l'.born .server t = true := by
  intro l'
  have wire := streams.wire.step (a := .close .server e code) rfl (by simp)
  have bornT := Link.step_born l (.close .server e code) streams.born.2
  have closedE : Lane.Outlet ((l.step (.close .server e code)).lane e) printed.1 true := by
    rw [Link.lane_step streams.wire.safe.keyed]
    simp only [Link.event,if_true]
    exact streams.out.close (streams.wire.safe.lanes e) streams.born.1 code
  have stillT : (l.step (.close .server e code)).lane t = l.lane t := by
    rw [Link.lane_step streams.wire.safe.keyed]
    simp only [Link.event,if_neg ne.symm]
    rfl
  refine ⟨wire.step rfl (by simp),?_,?_,Link.step_born _ _ (Link.step_born _ _ streams.born.1),Link.step_born _ _ bornT⟩
  · have stillE : l'.lane e = (l.step (.close .server e code)).lane e := by
      rw [Link.lane_step wire.safe.keyed]
      simp only [Link.event,if_neg ne]
      rfl
    rw [stillE]
    exact closedE
  · rw [Link.lane_step wire.safe.keyed]
    simp only [Link.event,if_true]
    refine Lane.Outlet.close (wire.safe.lanes t) ?_ bornT 0
    rw [stillT]
    exact streams.err

/-- The command's share of a pump: what is taken from its outputs is written to its streams, and
they are closed when it has finished. -/
theorem Host.pumpExec (io : Io) (host : Host e o printed [] d) {s : ExecState} (held : d.execs[e]? = some s)
    (fits : (printed.1 ++ (Driver.taken .server e s.errId (io e) d.link s.proc).1).length ≤ u64Max ∧
      (printed.2 ++ (Driver.taken .server e s.errId (io e) d.link s.proc).2).length ≤ u64Max) :
    Host e o (printed.1 ++ (Driver.taken .server e s.errId (io e) d.link s.proc).1,
      printed.2 ++ (Driver.taken .server e s.errId (io e) d.link s.proc).2) [] (d.pumpExec .server io e) := by
  obtain ⟨_,spawned⟩ := host.execs e s held
  obtain ⟨ne,known,err⟩ := host.err s.errId spawned
  have knownE := host.known (by rw [spawned]; simp)
  have out := host.out (fair_of_some spawned)
  rw [held] at out err
  simp only [Option.isNone_some,Bool.and_false] at out err
  have valid := Driver.pumpExec_valid host.valid io e
  have streams := Streams.pumpProc ⟨host.wire,out,err,knownE.born,known.born⟩ ne (io e) s.proc fits
  generalize Driver.taken .server e s.errId (io e) d.link s.proc = data at streams ⊢
  unfold Driver.pumpExec at valid ⊢
  rw [held] at valid ⊢
  dsimp only at valid ⊢
  generalize Driver.pumpProc .server e s.errId (io e) d.link s.proc = pumped at valid streams ⊢
  have unspawned : ∀ {p : Prop}, o = none → p := fun none => by rw [spawned] at none; cases none
  by_cases finished : pumped.2.finished = true
  · rw [if_pos finished] at valid ⊢
    obtain ⟨wire,closedE,closedT,born⟩ := streams.finish ne pumped.2.exitCode
    refine ⟨valid,wire,fun k t here => ?_,by simp,host.apart,fun _ => by simp,fun _ => ?_,unspawned,unspawned,
      fun _ => ⟨born.1,rfl,knownE.apart⟩,fun t same => ?_⟩
    · rw [Std.TreeMap.getElem?_erase] at here
      split at here
      · cases here
      · exact host.execs k t here
    · simpa [spawned] using closedE
    · obtain rfl : s.errId = t := Option.some.inj (spawned.symm.trans same)
      exact ⟨ne,⟨born.2,rfl,known.apart⟩,by simpa [spawned] using closedT⟩
  · rw [if_neg finished] at valid ⊢
    refine ⟨valid,streams.wire,fun k t here => ?_,by simp,host.apart,fun _ => by simp,fun _ => ?_,unspawned,unspawned,
      fun _ => ⟨streams.born.1,rfl,knownE.apart⟩,fun t same => ?_⟩
    · rw [Std.TreeMap.getElem?_insert] at here
      split at here
      · rename_i same
        cases here
        exact ⟨(Std.compare_eq_iff_eq.mp same).symm,spawned⟩
      · exact host.execs k t here
    · simpa using streams.out
    · obtain rfl : s.errId = t := Option.some.inj (spawned.symm.trans same)
      exact ⟨ne,⟨streams.born.2,rfl,known.apart⟩,by simpa using streams.err⟩

/-- At most the one command is pumped. -/
theorem Host.keys (host : Host e o printed [] d) :
    d.execs.keys = if (d.execs[e]?).isSome then [e] else [] := by
  have only : ∀ k ∈ d.execs.keys, k = e ∧ (d.execs[k]?).isSome = true := by
    intro k member
    have here := Std.TreeMap.mem_iff_isSome_getElem?.mp (Std.TreeMap.mem_keys.mp member)
    obtain ⟨s,held⟩ := Option.isSome_iff_exists.mp here
    exact ⟨(host.execs k s held).1,here⟩
  split
  · rename_i here
    have member : e ∈ d.execs.keys := Std.TreeMap.mem_keys.mpr (Std.TreeMap.mem_iff_isSome_getElem?.mpr here)
    have distinct : d.execs.keys.Nodup := d.execs.nodup_keys
    match keys : d.execs.keys with
    | [] => rw [keys] at member; cases member
    | [k] => rw [(only k (by rw [keys]; exact List.mem_cons_self)).1]
    | j :: k :: rest =>
      have first := (only j (by rw [keys]; exact List.mem_cons_self)).1
      have second := (only k (by rw [keys]; exact List.mem_cons_of_mem _ List.mem_cons_self)).1
      rw [keys,first,second] at distinct
      simp at distinct
  · rename_i gone
    refine List.eq_nil_iff_forall_not_mem.mpr (fun k member => gone ?_)
    obtain ⟨rfl,here⟩ := only k member
    exact here

/-- A pump: the command is spawned or refused, or prints. -/
theorem Host.pump {r : ExecRun} (io : Io)
    (host : Host r.loop.e r.errId r.printed (r.server.link.mux .server).events r.server)
    (fits : (r.record io).2.1.length ≤ u64Max ∧ (r.record io).2.2.length ≤ u64Max) :
    Host r.loop.e (r.record io).1 (r.record io).2 [] (r.server.pump .server io) ∧
      Grows r.loop.e r.errId (r.record io).1 (r.server.link.mux .server).events [] r.server
        (r.server.serveForwards .server io) ∧
      (r.errId ≠ none → r.server.execs[r.loop.e]? = none → (r.record io).2 = r.printed) := by
  obtain ⟨o',served,grows⟩ := host.serveForwards io
  have keys := served.keys
  rw [Driver.pump_eq,keys]
  unfold record at fits ⊢
  generalize r.server.serveForwards .server io = d at *
  dsimp only at fits ⊢
  cases held : d.execs[r.loop.e]? with
  | none =>
    have same : o' = r.errId := by
      rcases grows.runs with ⟨same,_⟩ | ⟨_,_,running⟩
      · exact same
      · rw [held] at running
        cases running
    subst same
    exact ⟨served,grows,fun _ _ => rfl⟩
  | some s =>
    obtain ⟨_,spawned⟩ := served.execs _ s held
    rw [held] at fits
    subst spawned
    refine ⟨served.pumpExec io held fits,grows,fun some gone => ?_⟩
    rcases grows.runs with ⟨_,running⟩ | ⟨none,_⟩
    · rw [held,gone] at running
      cases running
    · exact absurd none some

end ExecRun
end Noissh

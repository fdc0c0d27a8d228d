import Noissh.Attention
import Noissh.Serving
import Noissh.Transfer

/-! What both directions of a file transfer share: the session whatever the two drivers do with
it, the bytes on their way from one disk to the other, and the loop that drains a stream into a
sink. -/
namespace Noissh

open Files

namespace Link

/-- One side has read a stream some times over. -/
inductive Reads (x : Side) (k : Nat) : Link → Link → Prop where
  | refl {l : Link} : Reads x k l l
  | read {l l' : Link} : Reads x k (l.step (.read x k)) l' → Reads x k l l'

/-- What each read keeps, all of them keep. -/
theorem Reads.keep {x : Side} {k : Nat} {l l' : Link} (reads : Reads x k l l') (keeps : Link → Prop)
    (step : ∀ l, keeps l → keeps (l.step (.read x k))) (first : keeps l) : keeps l' := by
  induction reads with
  | refl => exact first
  | read _ ih => exact ih (step _ first)

section

variable {x : Side} {a : Action} (foreign : ownCall x a = false)

include foreign

theorem not_read (k : Nat) : a ≠ .read x k := by
  rintro rfl
  simp [ownCall] at foreign

theorem not_write (k : Nat) (data : Bytes) : a ≠ .write x k data := by
  rintro rfl
  simp [ownCall] at foreign

theorem not_close (k : Nat) (status : Int) : a ≠ .close x k status := by
  rintro rfl
  simp [ownCall] at foreign

theorem not_reset (k : Nat) : a ≠ .reset x k := by
  rintro rfl
  simp [ownCall] at foreign

end

/-- A stream is not reset when it is new. -/
theorem created_live {l : Link} (safe : l.Safe) {x : Side} {k : Nat} {a : Action} (absent : l.stream x k = none)
    {t : StreamState} (here : (l.step a).stream x k = some t) : t.reset = false := by
  have there : ((l.lane k).step k (l.event k a) x).stream = some t := by
    rw [← lane_step safe.keyed a k]
    exact here
  rcases Lane.step_evolves (safe.lanes k) (event_fresh safe a k) there with ⟨s,held,_⟩ | ⟨_,_,_,_,rfl,_⟩
  · rw [show (l.lane k x).stream = none from absent] at held
    cases held
  · rfl

theorem own_apart {a : Action} (own : ownCall .server a = true) : ownCall .client a = false := by
  cases a with
  | takeEvents | poll | deliver | lose => rfl
  | _ =>
    simp only [ownCall,beq_iff_eq] at own
    subst own
    rfl

theorem own_keeps {x : Side} {a : Action} (own : ownCall x a = true) (y : Side) : takesAt y a = false := by
  cases a with
  | takeEvents => cases own
  | _ => rfl

theorem take_events (l : Link) (x : Side) : ((l.step (.takeEvents x)).mux x).events = [] := by
  show ((l.act (.takeEvents x)).mux x).events = []
  simp [act,setMux,StreamMux.takeEvents]

/-- A call of an application adds no event. -/
theorem call_events (l : Link) {a : Action} {x : Side} (own : ownCall x a = true) (y : Side) :
    ((l.step a).mux y).events = (l.mux y).events := by
  rcases l.step_events (own_keeps own y) with same | ⟨_,_,_,rfl,_⟩
  · exact same
  · cases own

end Link

namespace FileSink

variable {pid : Nat} {dest : Path} {x : Side}

/-- A drain leaves the destination alone. The sink has what was read from the stream, unless a
write failed. -/
theorem drain_spec (fuel room : Nat) {l : Link} {fs : FileSystem Path} {k : FileSink} (unshared : fs.Unshared)
    (holds : k.Holds pid dest fs (l.got x xferId)) :
    let drained := k.drain x fuel room l fs
    Link.Reads x xferId l drained.2.1 ∧ drained.2.2.1.Unshared ∧ drained.2.2.1.read dest = fs.read dest ∧
      ∃ bytes, drained.2.2.2.Holds pid dest drained.2.2.1 bytes ∧
        (drained.1 = true → bytes = drained.2.1.got x xferId) := by
  induction fuel generalizing room l fs k with
  | zero => exact ⟨.refl,unshared,rfl,_,holds,fun _ => rfl⟩
  | succ fuel ih =>
    have got := l.read_got x xferId
    simp only [drain]
    by_cases none : (Driver.streamRead x xferId l).1.isEmpty = true
    · rw [if_pos none]
      have nothing : ((l.mux x).read xferId).1 = [] := List.isEmpty_iff.mp none
      rw [nothing,List.append_nil] at got
      exact ⟨.read .refl,unshared,rfl,_,holds,fun _ => got.symm⟩
    · rw [if_neg none]
      obtain ⟨wrote,same⟩ := holds.write (Driver.streamRead x xferId l).1 room
      have still := FileSystem.write_unshared unshared k.file ((Driver.streamRead x xferId l).1.take room)
      by_cases fits : (Driver.streamRead x xferId l).1.length ≤ room
      · rw [List.take_of_length_le fits] at wrote
        have next := @ih (room - (Driver.streamRead x xferId l).1.length) (Driver.streamRead x xferId l).2 _ _ still
          (by rw [show (Driver.streamRead x xferId l).2.got x xferId = _ from got]; exact wrote)
        obtain ⟨reads,unshared',same',bytes,holds',all⟩ := next
        rw [if_pos (show (k.write fs _ room).1 = true from decide_eq_true fits)]
        exact ⟨.read reads,unshared',same'.trans same,bytes,holds',all⟩
      · rw [if_neg (show ¬(k.write fs _ room).1 = true from by simpa [write] using fits)]
        exact ⟨.read .refl,still,same,_,wrote,nofun⟩

end FileSink

namespace Transfer

variable {cfg : XferSetup} {t : Transfer} {pending : List StreamEvent} {l : Link}

@[simp] theorem setDisk_same (t : Transfer) (x : Side) (fs : FileSystem Path) : (t.setDisk x fs).disk x = fs := by
  simp [setDisk]

theorem setDisk_other (t : Transfer) (x : Side) (fs : FileSystem Path) : (t.setDisk x.other fs).disk x = t.disk x := by
  simp [setDisk]

theorem giveUp_eq (absent : t.sink = none) (e : TransferError) :
    t.giveUp e = { t with phase := .returned (.error e), source := none } := by
  simp [giveUp,absent]

theorem serve_cases {a : Link.Action} (holds : Transfer → Prop) (reached : holds { t with link := t.link.step a })
    (gone : holds t) : holds (t.serve a) := by
  unfold serve
  split
  · exact reached
  · exact gone

theorem serve_eq (session : t.session = true) (a : Link.Action) : t.serve a = { t with link := t.link.step a } :=
  if_pos session

theorem serve_events {a : Link.Action} (own : Link.ownCall .server a = true) (x : Side) :
    ((t.serve a).link.mux x).events = (t.link.mux x).events :=
  serve_cases (fun t' => (t'.link.mux x).events = (t.link.mux x).events) (Link.call_events t.link own x) rfl

theorem dropXfer_link (t : Transfer) : t.dropXfer.link = t.link := by
  unfold dropXfer
  split <;> rfl

/-- There is nothing to drop yet when a transfer is inserted. -/
theorem insertXfer_eq (idle : t.xfer = none) (x : XferState) : t.insertXfer x = { t with xfer := some x } := by
  simp [insertXfer,dropXfer,idle]

theorem handleEvent_events (t : Transfer) (cfg : XferSetup) (io : DiskIo) (event : StreamEvent) :
    ((t.handleEvent cfg io event).link.mux .server).events = (t.link.mux .server).events := by
  have refused : ((t.serve (.reset .server xferId)).link.mux .server).events = (t.link.mux .server).events :=
    serve_events rfl .server
  have inserted : ∀ (t : Transfer) (x : XferState), (t.insertXfer x).link = t.link := fun t _ => t.dropXfer_link
  unfold handleEvent
  split
  · split
    · unfold onOpened
      split
      · exact refused
      · split
        · dsimp only
          split
          · rw [inserted]
            rfl
          · exact refused
        · split
          · rw [inserted]
          · exact refused
        · exact refused
    · rfl
  · split
    · rw [dropXfer_link]
    · rfl
  · rfl

/-- Induction over a pump: its events in order, then the transfer if its session is still there. -/
theorem pump_induct (cfg : XferSetup) (io : DiskIo) (holds : List StreamEvent → Transfer → Prop)
    (handle : ∀ event pending t, holds (event :: pending) t → holds pending (t.handleEvent cfg io event))
    (xfer : ∀ t, holds [] t → (t.link.mux .server).events = [] → t.session = true →
      holds [] (t.pumpXfer io) ∧ ((t.pumpXfer io).link.mux .server).events = [])
    (drop : ∀ t, holds [] t → holds [] t.dropXfer) {t : Transfer}
    (first : holds (t.link.mux .server).events { t with link := t.link.step (.takeEvents .server) }) :
    holds ((t.pump cfg io).link.mux .server).events (t.pump cfg io) := by
  have handled : ∀ pending t, holds pending t ∧ (t.link.mux .server).events = [] →
      holds [] (pending.foldl (handleEvent cfg io) t) ∧
        ((pending.foldl (handleEvent cfg io) t).link.mux .server).events = [] := by
    intro pending
    induction pending with
    | nil => exact fun _ here => here
    | cons event rest ih =>
      exact fun t here => ih _ ⟨handle event rest t here.1,(t.handleEvent_events cfg io event).trans here.2⟩
  obtain ⟨rest,taken⟩ := handled _ _ ⟨first,Link.take_events t.link .server⟩
  have done : ∀ {t : Transfer}, holds [] t ∧ (t.link.mux .server).events = [] → holds (t.link.mux .server).events t := by
    intro t ⟨rest,taken⟩
    rw [taken]
    exact rest
  unfold pump
  dsimp only
  split
  · rename_i session
    exact done (xfer _ rest taken session)
  · exact done ⟨drop _ rest,by rw [dropXfer_link]; exact taken⟩

/-- What holds of the session whatever the drivers do, while `pending` are the events that the
server has not handled. -/
structure Bond (cfg : XferSetup) (pending : List StreamEvent) (l : Link) : Prop where
  safe : l.Safe
  announced : l.Announced
  notices : l.Notices .server pending
  labelled : Lane.Labelled xferId .fileTransfer cfg.request.encode (l.lane xferId) .client
  labels : ∀ kind metadata, .opened xferId kind metadata ∈ pending →
    kind = .fileTransfer ∧ metadata = cfg.request.encode

/-- The server has not handled the opening of the stream. -/
def Unopened (pending : List StreamEvent) (l : Link) : Prop :=
  pending.any (StreamEvent.opens xferId) = true ∨ l.born .server xferId = false

theorem Bond.call (bond : Bond cfg pending l) (a : Link.Action) : Bond cfg pending (l.step a) where
  safe := Link.step_safe bond.safe a
  announced := Link.step_announced bond.safe bond.announced a
  notices := bond.notices.keep bond.safe a
  labelled := Link.step_labelled bond.safe bond.labelled a
  labels := bond.labels

theorem Bond.tail {event : StreamEvent} (bond : Bond cfg (event :: pending) l) : Bond cfg pending l where
  safe := bond.safe
  announced := bond.announced
  notices := bond.notices.tail
  labelled := bond.labelled
  labels kind metadata member := bond.labels kind metadata (List.mem_cons_of_mem _ member)

theorem Bond.step (bond : Bond cfg (l.mux .server).events l) {a : Link.Action} (kept : Link.takesAt .server a = false) :
    Bond cfg ((l.step a).mux .server).events (l.step a) where
  safe := Link.step_safe bond.safe a
  announced := Link.step_announced bond.safe bond.announced a
  notices := bond.notices.step bond.safe bond.announced kept
  labelled := Link.step_labelled bond.safe bond.labelled a
  labels kind metadata member := by
    rcases l.step_events kept with same | ⟨n,frame,fresh,rfl,sent,_,events,raises⟩
    · rw [same] at member
      exact bond.labels kind metadata member
    · rw [events] at member
      rcases List.mem_append.mp member with old | new
      · exact bond.labels kind metadata old
      · cases raises with
        | @opened k kind' metadata' =>
          cases List.mem_singleton.mp new
          refine bond.labelled.sent kind metadata (List.mem_filter.mpr ⟨sent,?_⟩)
          simp [Frame.names,Frame.streamId]
        | _ => simp at new

/-- A stream is opened once. -/
theorem Bond.opened {kind : StreamKind} {metadata : Bytes}
    (bond : Bond cfg (.opened xferId kind metadata :: pending) l) : ¬Unopened pending l := by
  have once := bond.notices.handled
  have born := bond.notices.born xferId (StreamEvent.any_opens List.mem_cons_self)
  rintro (opened | unborn)
  · rw [once] at opened
    cases opened
  · rw [born] at unborn
    cases unborn

theorem Unopened.of_call {a : Link.Action} (unopened : Unopened pending (l.step a)) : Unopened pending l := by
  refine unopened.imp id (fun unborn => ?_)
  cases born : l.born .server xferId with
  | false => rfl
  | true =>
    rw [Link.step_born l a born] at unborn
    cases unborn

theorem Unopened.of_step (safe : l.Safe) {a : Link.Action} (kept : Link.takesAt .server a = false)
    (unopened : Unopened ((l.step a).mux .server).events (l.step a)) : Unopened (l.mux .server).events l := by
  rcases unopened with opened | unborn
  · rcases l.step_events kept with same | ⟨n,frame,fresh,rfl,sent,_,events,raises⟩
    · rw [same] at opened
      exact .inl opened
    · rw [events,List.any_append,Bool.or_eq_true] at opened
      rcases opened with before | new
      · exact .inl before
      · cases raises with
        | @opened k kind metadata =>
          simp only [List.any_cons,StreamEvent.opens,List.any_nil,Bool.or_false,beq_iff_eq] at new
          subst new
          exact .inr (safe.opening sent)
        | _ => simp [StreamEvent.opens] at new
  · exact (Unopened.of_call (.inr unborn) : Unopened (l.mux .server).events l)

/-- Until the server handles the opening of the stream nothing has been done with it; and when
it does, the stream is there or a reset comes after. -/
structure Waiting (pending : List StreamEvent) (l : Link) : Prop where
  unread : Unopened pending l → l.got .server xferId = [] ∧ l.closedAt .server xferId = none
  opening : ∀ first kind metadata rest, pending = first ++ .opened xferId kind metadata :: rest →
    l.Awake .server xferId rest

theorem Waiting.tail {event : StreamEvent} (waiting : Waiting (event :: pending) l) : Waiting pending l where
  unread unopened := waiting.unread (unopened.imp (fun opened => by simp [opened]) id)
  opening first kind metadata rest split := waiting.opening (event :: first) kind metadata rest (by rw [split]; rfl)

/-- There is nothing to wait for once the opening has been handled. -/
theorem Waiting.of_opened (opened : ¬Unopened pending l) : Waiting pending l where
  unread unopened := absurd unopened opened
  opening first kind metadata rest split := by
    refine absurd (.inl ?_) opened
    rw [split]
    simp [StreamEvent.opens]

theorem Waiting.take (safe : l.Safe) (waiting : Waiting pending l) : Waiting pending (l.step (.takeEvents .server)) where
  unread unopened := waiting.unread unopened.of_call
  opening first kind metadata rest split :=
    (waiting.opening first kind metadata rest split).keep safe nofun nofun nofun

/-- The application at the other side calls, or the link moves. -/
theorem Waiting.step (bond : Bond cfg (l.mux .server).events l) (waiting : Waiting (l.mux .server).events l)
    {a : Link.Action} (kept : Link.takesAt .server a = false) (foreign : Link.ownCall .server a = false) :
    Waiting ((l.step a).mux .server).events (l.step a) where
  unread unopened := by
    obtain ⟨unread,unclosed⟩ := waiting.unread (unopened.of_step bond.safe kept)
    exact ⟨(Link.step_got l (Link.not_read foreign xferId)).trans unread,
      (Link.step_unclosed l (Link.not_close foreign xferId)).trans unclosed⟩
  opening first kind metadata rest split := by
    have old : ∀ rest', (l.mux .server).events = first ++ .opened xferId kind metadata :: rest' →
        (l.step a).Awake .server xferId rest := by
      intro rest' before
      have member : .opened xferId kind metadata ∈ (l.mux .server).events := by rw [before]; simp
      have unclosed := (waiting.unread (.inl (StreamEvent.any_opens member))).2
      refine Link.Awake.step bond.safe (before.trans (List.append_cons first _ rest'))
        (waiting.opening first kind metadata rest' before) kept (Link.not_reset foreign xferId) (fun _ => .inl unclosed)
        (split.trans (List.append_cons first _ rest))
    rcases l.step_events kept with same | ⟨n,frame,fresh,rfl,sent,mux,events,raises⟩
    · exact old rest (same.symm.trans split)
    · -- The opening has just arrived, or was pending before.
      have new : fresh = .opened xferId kind metadata :: rest → (l.step (.deliver .client n)).Awake .server xferId rest := by
        intro arrived
        cases raises with
        | opened absent present =>
          obtain ⟨same,_⟩ := List.cons.inj arrived
          cases same
          obtain ⟨s,here⟩ := Option.isSome_iff_exists.mp present
          have held : (l.step (.deliver .client n)).stream .server xferId = some s := by
            unfold Link.stream
            rw [show (l.step (.deliver .client n)).mux .server = _ from mux]
            exact here
          exact .inr ⟨s,held,Link.created_live bond.safe absent held⟩
        | _ => simp at arrived
      rw [events] at split
      rcases List.append_eq_append_iff.mp split with ⟨more,_,arrived⟩ | ⟨more,before,after⟩
      · have one : fresh.length ≤ 1 := by cases raises <;> simp
        rw [arrived,List.length_append,List.length_cons] at one
        have none : more = [] := List.length_eq_zero_iff.mp (by omega)
        rw [none,List.nil_append] at arrived
        exact new arrived
      · cases more with
        | nil => exact new after.symm
        | cons event more =>
          obtain ⟨rfl,_⟩ := List.cons.inj after
          exact old more before

/-- The sending side has written what was read from its disk, and closed at the end of it. -/
structure Sent (cfg : XferSetup) (t : Transfer) : Prop where
  wrote : t.link.wrote cfg.receiver.other xferId = t.read
  closed : ∀ n, t.link.closedAt cfg.receiver.other xferId = some n → n = t.read.length ∧ t.eof = true

/-- The link moves and the sender does nothing. -/
theorem Sent.link (sent : Sent cfg t) {a : Link.Action} (unwritten : ∀ data, a ≠ .write cfg.receiver.other xferId data)
    (unclosed : ∀ status, a ≠ .close cfg.receiver.other xferId status) : Sent cfg { t with link := t.link.step a } where
  wrote := (Link.step_wrote t.link unwritten).trans sent.wrote
  closed n here := sent.closed n ((Link.step_unclosed t.link unclosed).symm.trans here)

/-- A receiver that holds the stream and finds it finished has every byte. -/
theorem Sent.exact (sent : Sent cfg t) (safe : t.link.Safe) {s : StreamState}
    (held : t.link.stream cfg.receiver xferId = some s)
    (finished : (t.link.mux cfg.receiver).isRecvFinished xferId = true) :
    t.link.got cfg.receiver xferId = t.read ∧ t.eof = true := by
  have present : (t.link.mux cfg.receiver).streams[xferId]? = some s := held
  unfold StreamMux.isRecvFinished at finished
  rw [present] at finished
  have into := (Lane.flows_of_flowing (safe.lanes xferId).flowing cfg.receiver).into
  rw [show (t.link.lane xferId cfg.receiver).stream = some s from held] at into
  obtain ⟨n,closed,reach,within⟩ := into.read_finished finished
  obtain ⟨all,eof⟩ := sent.closed n closed
  refine ⟨?_,eof⟩
  have within : t.link.got cfg.receiver xferId <+: t.read := by
    rw [← sent.wrote]
    exact within
  rw [all] at reach
  exact within.eq_of_length_le reach

end Transfer
end Noissh

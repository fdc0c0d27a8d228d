import Noissh.TransferSafety

/-! Uploads. The client takes the server's end of the stream for success, so the server must
show one only when the file is in place: whatever it closes before a rename that fails it
resets before it sends again. -/
namespace Noissh

open Files

namespace Transfer

variable {cfg : XferSetup} {before : Option Bytes} {pending : List StreamEvent} {t t' : Transfer}

/-- The server's half of an upload. -/
structure PutServer (cfg : XferSetup) (before : Option Bytes) (pending : List StreamEvent) (t : Transfer) : Prop where
  waiting : Waiting pending t.link
  fresh : Unopened pending t.link → t.xfer = none ∧ t.landed = false
  unshared : (t.disk .server).Unshared
  signs : t.landed = true ∨ t.link.Silent .server xferId
  landed : t.landed = true → t.eof = true ∧ (t.disk .server).read cfg.dest = some t.read
  untouched : t.landed = false → (t.disk .server).read cfg.dest = before
  holding : ∀ x, t.xfer = some x → ∃ k, x = .put k ∧
    k.Holds (cfg.pid .server) cfg.dest (t.disk .server) (t.link.got .server xferId)
  receiving : t.xfer ≠ none →
    t.landed = false ∧ t.link.closedAt .server xferId = none ∧ t.link.Awake .server xferId pending

/-- The client's half. It has the stream while it runs, unless the upload has landed. -/
structure PutClient (t : Transfer) : Prop where
  sink : t.sink = none
  source : ∀ src, t.source = some src → t.sentFin = false →
    src.file.offset = t.read.length ∧ t.read.length ≤ FileSystem.maxOffset
  fin : t.eof = t.sentFin
  watching : t.phase = .running → t.landed = true ∨ t.link.Awake .client xferId (t.link.mux .client).events
  done : t.phase = .leaving ∨ t.phase = .returned (.ok ()) → t.landed = true

structure Put (cfg : XferSetup) (before : Option Bytes) (pending : List StreamEvent) (t : Transfer) : Prop where
  upload : cfg.receiver = .server
  bond : Bond cfg pending t.link
  sent : Sent cfg t
  server : PutServer cfg before pending t
  client : PutClient t

/-- Between two steps the server's events are those of its multiplexer. -/
def PutRests (cfg : XferSetup) (before : Option Bytes) (t : Transfer) : Prop :=
  Put cfg before (t.link.mux .server).events t

theorem PutServer.congr (server : PutServer cfg before pending t) (link : t'.link = t.link)
    (disk : t'.disk .server = t.disk .server) (xfer : t'.xfer = t.xfer) (landed : t'.landed = t.landed)
    (record : t.landed = true → t'.read = t.read ∧ t'.eof = t.eof) : PutServer cfg before pending t' where
  waiting := by rw [link]; exact server.waiting
  fresh := by rw [link,xfer,landed]; exact server.fresh
  unshared := by rw [disk]; exact server.unshared
  signs := by rw [link,landed]; exact server.signs
  landed here := by
    rw [landed] at here
    rw [disk,(record here).1,(record here).2]
    exact server.landed here
  untouched := by rw [disk,landed]; exact server.untouched
  holding := by rw [link,xfer,disk]; exact server.holding
  receiving := by rw [link,xfer,landed]; exact server.receiving

/-- The link moves, or the client calls. -/
theorem PutServer.link (bond : Bond cfg (t.link.mux .server).events t.link)
    (server : PutServer cfg before (t.link.mux .server).events t) {a : Link.Action}
    (kept : Link.takesAt .server a = false) (foreign : Link.ownCall .server a = false) :
    PutServer cfg before ((t.link.step a).mux .server).events { t with link := t.link.step a } where
  waiting := server.waiting.step bond kept foreign
  fresh unopened := server.fresh (unopened.of_step bond.safe kept)
  unshared := server.unshared
  signs := server.signs.imp id (fun silent => Link.step_silent bond.safe silent (Link.not_close foreign xferId))
  landed := server.landed
  untouched := server.untouched
  holding x held := by
    obtain ⟨k,put,holds⟩ := server.holding x held
    refine ⟨k,put,?_⟩
    rw [Link.step_got t.link (Link.not_read foreign xferId)]
    exact holds
  receiving busy := by
    obtain ⟨out,unclosed,awake⟩ := server.receiving busy
    refine ⟨out,(Link.step_unclosed t.link (Link.not_close foreign xferId)).trans unclosed,?_⟩
    exact Link.Awake.step bond.safe (List.nil_append _).symm awake kept (Link.not_reset foreign xferId)
      (fun _ => .inl unclosed) (List.nil_append _).symm

/-- The link moves, or the server calls. -/
theorem PutClient.link (safe : t.link.Safe) (client : PutClient t) {a : Link.Action}
    (signs : a = .poll .client → t.landed = true ∨ t.link.Silent .server xferId)
    (kept : Link.takesAt .client a = false) (foreign : Link.ownCall .client a = false) :
    PutClient { t with link := t.link.step a } where
  sink := client.sink
  source := client.source
  fin := client.fin
  watching running := by
    rcases client.watching running with landed | awake
    · exact .inl landed
    by_cases landed : t.landed = true
    · exact .inl landed
    · refine .inr (Link.Awake.step safe (List.nil_append _).symm awake kept (Link.not_reset foreign xferId) ?_
        (List.nil_append _).symm)
      exact fun polls => .inr ((signs polls).resolve_left landed)
  done := client.done

/-- The link moves by itself. -/
theorem PutRests.link (rests : PutRests cfg before t) {a : Link.Action} (server : Link.ownCall .server a = false)
    (client : Link.ownCall .client a = false) (kept : ∀ x, Link.takesAt x a = false) :
    PutRests cfg before { t with link := t.link.step a } where
  upload := rests.upload
  bond := rests.bond.step (kept .server)
  sent := by
    have same : cfg.receiver.other = .client := by rw [rests.upload]; rfl
    refine rests.sent.link ?_ ?_ <;> rw [same]
    · exact Link.not_write client xferId
    · exact Link.not_close client xferId
  server := rests.server.link rests.bond (kept .server) server
  client := rests.client.link rests.bond.safe (fun _ => rests.server.signs) (kept .client) client

theorem download_eq (absent : t.sink = none) (io : DiskIo) : t.download io = t := by
  simp [download,absent]

theorem PutClient.giveUp (client : PutClient t) (e : TransferError) : PutClient (t.giveUp e) := by
  rw [giveUp_eq client.sink]
  refine ⟨client.sink,fun _ source => ?_,client.fin,by simp,by rintro (here | here) <;> cases here⟩
  cases source

theorem PutRests.giveUp (rests : PutRests cfg before t) (e : TransferError) : PutRests cfg before (t.giveUp e) := by
  have client := rests.client.giveUp e
  rw [giveUp_eq rests.client.sink] at client ⊢
  exact ⟨rests.upload,rests.bond,⟨rests.sent.wrote,rests.sent.closed⟩,
    rests.server.congr rfl rfl rfl rfl (fun _ => ⟨rfl,rfl⟩),client⟩

/-- The client calls on its stream, before the upload has landed. -/
theorem PutRests.clientCall (rests : PutRests cfg before t) (afloat : t.landed = false) {a : Link.Action}
    (foreign : Link.ownCall .server a = false) (kept : Link.takesAt .server a = false)
    (link : t'.link = t.link.step a) (disk : t'.disk = t.disk) (xfer : t'.xfer = t.xfer) (landed : t'.landed = t.landed)
    (sent : Sent cfg t') (client : PutClient t') : PutRests cfg before t' := by
  refine ⟨rests.upload,?_,sent,?_,client⟩
  · rw [link]
    exact rests.bond.step kept
  · have moved := rests.server.link rests.bond kept foreign
    rw [← link] at moved
    refine moved.congr rfl ?_ xfer landed (fun here => ?_)
    · rw [disk]
    · rw [show t.landed = true from here] at afloat
      cases afloat

/-- The client leaves its loop only when the upload has landed. -/
theorem PutRests.finishUpload (rests : PutRests cfg before t) (taken : (t.link.mux .client).events = []) :
    PutRests cfg before t.finishUpload := by
  unfold Transfer.finishUpload
  split
  · rename_i running
    split
    · rename_i finished
      refine ⟨rests.upload,rests.bond,⟨rests.sent.wrote,rests.sent.closed⟩,
        rests.server.congr rfl rfl rfl rfl (fun _ => ⟨rfl,rfl⟩),?_⟩
      refine ⟨rests.client.sink,rests.client.source,rests.client.fin,by simp,fun _ => ?_⟩
      rcases rests.client.watching running with landed | awake
      · exact landed
      · rw [taken] at awake
        obtain ⟨s,held,_⟩ := awake.held List.not_mem_nil
        refine rests.server.signs.resolve_right (fun silent => ?_)
        have unheard := (silent.unheard s held).1
        have finished := finished.2
        unfold StreamMux.isRecvFinished at finished
        rw [show (t.link.mux .client).streams[xferId]? = some s from held] at finished
        simp [StreamState.recvFinished,unheard] at finished
    · exact rests
  · exact rests

theorem PutRests.sendChunk (rests : PutRests cfg before t) (running : t.phase = .running)
    (taken : (t.link.mux .client).events = []) {src : FileSource} (source : t.source = some src)
    (unsent : t.sentFin = false) (io : DiskIo) :
    PutRests cfg before (t.sendChunk src io) ∧ ((t.sendChunk src io).link.mux .client).events = [] := by
  have sender : cfg.receiver.other = .client := by rw [rests.upload]; rfl
  have more : t.eof = false := rests.client.fin.trans unsent
  have afloat : t.landed = false := by
    cases landed : t.landed with
    | false => rfl
    | true =>
      rw [(rests.server.landed landed).1] at more
      cases more
  have awake : t.link.Awake .client xferId [] := by
    rcases rests.client.watching running with landed | awake
    · rw [afloat] at landed
      cases landed
    · rwa [taken] at awake
  obtain ⟨s,held,live⟩ := awake.held List.not_mem_nil
  obtain ⟨offset,small⟩ := rests.client.source src source unsent
  have unclosed : t.link.closedAt .client xferId = none := by
    cases closed : t.link.closedAt .client xferId with
    | none => rfl
    | some n =>
      have eof := (rests.sent.closed n (by rw [sender]; exact closed)).2
      rw [more] at eof
      cases eof
  have wrote : t.link.wrote .client xferId = t.read := by
    rw [← sender]
    exact rests.sent.wrote
  unfold Transfer.sendChunk
  cases chunk : src.readChunk (t.disk .client) chunk io.short with
  | none =>
    refine ⟨rests.giveUp .io,?_⟩
    rw [giveUp_eq rests.client.sink]
    exact taken
  | some both =>
    obtain ⟨data,src'⟩ := both
    obtain ⟨advanced,bound⟩ := FileSource.readChunk_offset (offset ▸ small) chunk
    dsimp only
    by_cases last : data.isEmpty = true
    · rw [if_pos last]
      have events := Link.call_events t.link (a := .close .client xferId 0) (x := .client) rfl .client
      refine ⟨rests.clientCall afloat rfl rfl rfl rfl rfl rfl ⟨?_,?_⟩ ⟨rests.client.sink,?_,rfl,fun _ => ?_,?_⟩,
        events.trans taken⟩
      · exact (Link.step_wrote t.link (a := .close .client xferId 0) (by simp)).trans rests.sent.wrote
      · intro n closed
        rw [sender] at closed
        refine ⟨?_,rfl⟩
        rw [Link.close_closedAt t.link .client xferId 0 unclosed closed,wrote]
      · intro _ _ unsent
        cases unsent
      · exact .inr (by rw [events,taken]; exact awake.keep rests.bond.safe (by simp) (by simp) (by simp))
      · intro past
        have here : t.phase = .leaving ∨ t.phase = .returned (.ok ()) := past
        rw [running] at here
        rcases here with here | here <;> cases here
    · rw [if_neg last]
      have events := Link.call_events t.link (a := .write .client xferId data) (x := .client) rfl .client
      have fits : (t.link.wrote .client xferId).length + data.length ≤ u64Max := by
        rw [wrote,← offset,← advanced]
        exact Nat.le_trans bound (by decide)
      have written := Link.write_wrote rests.bond.safe held fits
      refine ⟨rests.clientCall afloat rfl rfl rfl rfl rfl rfl ⟨?_,?_⟩
        ⟨rests.client.sink,?_,rests.client.fin,fun _ => ?_,rests.client.done⟩,events.trans taken⟩
      · rw [sender,written,wrote]
      · intro n closed
        rw [sender,Link.step_unclosed t.link (a := .write .client xferId data) (by simp),unclosed] at closed
        cases closed
      · intro src'' same _
        cases same
        rw [List.length_append]
        omega
      · exact .inr (by rw [events,taken]; exact awake.keep rests.bond.safe (by simp) (by simp) (by simp))

theorem PutRests.upload_step (rests : PutRests cfg before t) (running : t.phase = .running)
    (taken : (t.link.mux .client).events = []) (io : DiskIo) : PutRests cfg before (t.upload io) := by
  unfold Transfer.upload
  cases source : t.source with
  | none => exact rests
  | some src =>
    dsimp only
    split
    · rename_i room
      have unsent : t.sentFin = false := by simpa using room.1
      obtain ⟨rests',taken'⟩ := rests.sendChunk running taken source unsent io
      exact rests'.finishUpload taken'
    · exact rests.finishUpload taken

theorem PutRests.turn (rests : PutRests cfg before t) (io : DiskIo) : PutRests cfg before (t.turn io) := by
  unfold Transfer.turn
  split
  · rename_i running
    have sender : cfg.receiver.other = .client := by rw [rests.upload]; rfl
    have bond := rests.bond.step (a := .takeEvents .client) rfl
    have server := rests.server.link rests.bond (a := .takeEvents .client) rfl rfl
    have sent : Sent cfg { t with link := t.link.step (.takeEvents .client) } := rests.sent.link (by simp) (by simp)
    have taken : ((t.link.step (.takeEvents .client)).mux .client).events = [] := Link.take_events t.link .client
    -- Past the look at its events, the client has the stream.
    have client : .reset xferId ∉ (t.link.mux .client).events →
        PutClient { t with link := t.link.step (.takeEvents .client) } := by
      intro calm
      refine ⟨rests.client.sink,rests.client.source,rests.client.fin,fun _ => ?_,rests.client.done⟩
      refine (rests.client.watching running).imp id (fun awake => ?_)
      have held := awake.keep rests.bond.safe (a := .takeEvents .client) (by simp) (by simp) (by simp)
      exact .inr (held.held calm)
    dsimp only
    split
    · have gone := giveUp_eq (t := { t with link := t.link.step (.takeEvents .client) }) rests.client.sink rejected
      rw [gone]
      refine ⟨rests.upload,bond,⟨sent.wrote,sent.closed⟩,server.congr rfl rfl rfl rfl (fun _ => ⟨rfl,rfl⟩),?_⟩
      refine ⟨rests.client.sink,fun _ source => ?_,rests.client.fin,by simp,by rintro (here | here) <;> cases here⟩
      cases source
    · rename_i calm
      have moved : PutRests cfg before { t with link := t.link.step (.takeEvents .client) } :=
        ⟨rests.upload,bond,sent,server,client calm⟩
      have after := moved.upload_step running taken io
      rw [download_eq after.client.sink]
      exact after
  · exact rests

theorem PutRests.leave (rests : PutRests cfg before t) (io : DiskIo) : PutRests cfg before (t.leave io) := by
  unfold Transfer.leave
  split
  · rename_i leaving
    split
    · rename_i held
      rw [rests.client.sink] at held
      cases held
    · refine ⟨rests.upload,rests.bond,⟨rests.sent.wrote,rests.sent.closed⟩,
        rests.server.congr rfl rfl rfl rfl (fun _ => ⟨rfl,rfl⟩),?_⟩
      exact ⟨rests.client.sink,rests.client.source,rests.client.fin,by simp,fun _ => rests.client.done (.inl leaving)⟩
  · exact rests

theorem PutRests.fail (rests : PutRests cfg before t) : PutRests cfg before t.fail := by
  unfold Transfer.fail
  split
  · exact rests
  · exact rests.giveUp .io

theorem PutClient.congr (client : PutClient t) (link : t'.link = t.link) (phase : t'.phase = t.phase)
    (source : t'.source = t.source) (sink : t'.sink = t.sink) (sentFin : t'.sentFin = t.sentFin) (read : t'.read = t.read)
    (eof : t'.eof = t.eof) (landed : t.landed = true → t'.landed = true) : PutClient t' where
  sink := by rw [sink]; exact client.sink
  source := by rw [source,sentFin,read]; exact client.source
  fin := by rw [eof,sentFin]; exact client.fin
  watching := by rw [phase,link]; exact fun running => (client.watching running).imp landed id
  done := by rw [phase]; exact fun past => landed (client.done past)

/-- The transfer's entry is taken out of the map. -/
theorem Put.release (put : Put cfg before pending t) : Put cfg before pending { t with xfer := none } where
  upload := put.upload
  bond := put.bond
  sent := ⟨put.sent.wrote,put.sent.closed⟩
  server := {
    waiting := put.server.waiting
    fresh := fun unopened => ⟨rfl,(put.server.fresh unopened).2⟩
    unshared := put.server.unshared
    signs := put.server.signs
    landed := put.server.landed
    untouched := put.server.untouched
    holding := nofun
    receiving := fun busy => absurd rfl busy }
  client := put.client.congr rfl rfl rfl rfl rfl rfl rfl id

/-- And put back. -/
theorem Put.hold (put : Put cfg before pending t) (opened : ¬Unopened pending t.link) {k : FileSink}
    (holds : k.Holds (cfg.pid .server) cfg.dest (t.disk .server) (t.link.got .server xferId))
    (receiving : t.landed = false ∧ t.link.closedAt .server xferId = none ∧ t.link.Awake .server xferId pending) :
    Put cfg before pending { t with xfer := some (.put k) } where
  upload := put.upload
  bond := put.bond
  sent := ⟨put.sent.wrote,put.sent.closed⟩
  server := {
    waiting := put.server.waiting
    fresh := fun unopened => absurd unopened opened
    unshared := put.server.unshared
    signs := put.server.signs
    landed := put.server.landed
    untouched := put.server.untouched
    holding := fun _ held => ⟨k,(Option.some.inj held).symm,holds⟩
    receiving := fun _ => receiving }
  client := put.client.congr rfl rfl rfl rfl rfl rfl rfl id

/-- The files change, and the destination does not. -/
theorem Put.files (put : Put cfg before pending t) (idle : t.xfer = none) {fs : FileSystem Path} (unshared : fs.Unshared)
    (same : fs.read cfg.dest = (t.disk .server).read cfg.dest) : Put cfg before pending (t.setDisk .server fs) where
  upload := put.upload
  bond := put.bond
  sent := ⟨put.sent.wrote,put.sent.closed⟩
  server := by
    have disk := t.setDisk_same .server fs
    exact {
      waiting := put.server.waiting
      fresh := put.server.fresh
      unshared := by rw [disk]; exact unshared
      signs := put.server.signs
      landed := by rw [disk,same]; exact put.server.landed
      untouched := by rw [disk,same]; exact put.server.untouched
      holding := fun x held => by
        change t.xfer = some x at held
        rw [idle] at held
        cases held
      receiving := fun busy => absurd idle busy }
  client := put.client.congr rfl rfl rfl rfl rfl rfl rfl id

/-- The server calls on a stream it has no entry for, and does not close it. -/
theorem Put.call (put : Put cfg before pending t) (opened : ¬Unopened pending t.link) (idle : t.xfer = none)
    {a : Link.Action} (own : Link.ownCall .server a = true) (quiet : ∀ status, a ≠ .close .server xferId status) :
    Put cfg before pending { t with link := t.link.step a } := by
  have foreign : Link.ownCall .client a = false := Link.own_apart own
  have kept : Link.takesAt .client a = false := Link.own_keeps own .client
  have sender : cfg.receiver.other = .client := by rw [put.upload]; rfl
  have later : ¬Unopened pending (t.link.step a) := fun unopened => opened unopened.of_call
  refine ⟨put.upload,put.bond.call a,?_,?_,?_⟩
  · refine put.sent.link ?_ ?_ <;> rw [sender]
    · exact Link.not_write foreign xferId
    · exact Link.not_close foreign xferId
  · exact {
      waiting := .of_opened later
      fresh := fun unopened => absurd unopened later
      unshared := put.server.unshared
      signs := put.server.signs.imp id (fun silent => Link.step_silent put.bond.safe silent quiet)
      landed := put.server.landed
      untouched := put.server.untouched
      holding := fun x held => by
        change t.xfer = some x at held
        rw [idle] at held
        cases held
      receiving := fun busy => absurd idle busy }
  · exact put.client.link put.bond.safe (fun _ => put.server.signs) kept foreign

theorem Put.tail {event : StreamEvent} (put : Put cfg before (event :: pending) t)
    (idle : t.xfer = none ∨ event ≠ .reset xferId) : Put cfg before pending t where
  upload := put.upload
  bond := put.bond.tail
  sent := put.sent
  server := { put.server with
    waiting := put.server.waiting.tail
    fresh := fun unopened => put.server.fresh (unopened.imp (fun opened => by simp [opened]) id)
    receiving := fun busy => by
      obtain ⟨afloat,unclosed,awake⟩ := put.server.receiving busy
      refine ⟨afloat,unclosed,awake.imp (fun member => ?_) id⟩
      rcases List.mem_cons.mp member with same | later
      · exact absurd same.symm (idle.resolve_left busy)
      · exact later }
  client := put.client

/-- The entry is dropped, and its temporary file with it. -/
theorem Put.dropXfer (put : Put cfg before pending t) : Put cfg before pending t.dropXfer ∧ t.dropXfer.xfer = none := by
  unfold Transfer.dropXfer
  split
  · rename_i k held
    obtain ⟨k',same,holds⟩ := put.server.holding _ held
    cases same
    have removed : (k.drop (t.disk .server)).read cfg.dest = (t.disk .server).read cfg.dest := by
      rw [holds.drop]
      exact FileSystem.remove_read (tempPath_ne _ _)
    exact ⟨put.release.files rfl (FileSink.drop_unshared put.server.unshared k) removed,rfl⟩
  · exact ⟨put.release,rfl⟩

theorem Put.onOpened {path : String} {size : UInt64} (request : cfg.request = .put path size) {kind : StreamKind}
    {metadata : Bytes} (put : Put cfg before (.opened xferId kind metadata :: pending) t) (io : DiskIo) :
    Put cfg before pending (t.onOpened cfg io metadata) := by
  have opened := put.bond.opened
  have unopened : Unopened (.opened xferId kind metadata :: pending) t.link := .inl (StreamEvent.any_opens List.mem_cons_self)
  obtain ⟨idle,afloat⟩ := put.server.fresh unopened
  obtain ⟨unread,unclosed⟩ := put.server.waiting.unread unopened
  have awake := put.server.waiting.opening [] kind metadata pending rfl
  have label := (put.bond.labels kind metadata (.head _)).2
  have kept := put.tail (.inl idle)
  have refused : Put cfg before pending (t.serve (.reset .server xferId)) :=
    serve_cases _ (kept.call opened idle rfl (by simp)) kept
  have dest : cfg.dest = Path.ofString path := by simp [XferSetup.dest,request]
  unfold Transfer.onOpened
  rw [label,XferRequest.parse_encode,request]
  split
  · exact refused
  · by_cases empty : (XferRequest.put path size).path.isEmpty = true
    · rw [if_pos empty]
      exact refused
    · rw [if_neg empty]
      dsimp only
      rw [← dest]
      cases io.opens with
      | false => exact refused
      | true =>
        obtain ⟨k,created,holds,same⟩ :=
          FileSink.create_holds (show FileSink.Unlinked (cfg.pid .server) cfg.dest _ from
            FileSink.unlinked_of_unshared put.server.unshared)
        rw [created]
        have filed := kept.files idle (FileSink.create_unshared put.server.unshared true) same
        dsimp only
        rw [insertXfer_eq (show (t.setDisk .server _).xfer = none from idle)]
        refine filed.hold opened ?_ ⟨afloat,unclosed,awake⟩
        rw [setDisk_same]
        change k.Holds _ _ _ (t.link.got .server xferId)
        rw [unread]
        exact holds

theorem Put.handle {path : String} {size : UInt64} (request : cfg.request = .put path size) {event : StreamEvent}
    (put : Put cfg before (event :: pending) t) (io : DiskIo) : Put cfg before pending (t.handleEvent cfg io event) := by
  unfold Transfer.handleEvent
  split
  · split
    · rename_i mine
      subst mine
      exact put.onOpened request io
    · exact put.tail (.inr (by simp))
  · split
    · exact put.dropXfer.1.tail (.inl put.dropXfer.2)
    · rename_i k other
      refine put.tail (.inr (fun same => other ?_))
      cases same
      rfl
  · rename_i calm
    exact put.tail (.inr (calm _))

/-- The server has drained the stream into its sink. -/
theorem Put.drain (put : Put cfg before [] t) (taken : (t.link.mux .server).events = []) {k : FileSink}
    (held : t.xfer = some (.put k)) (fuel room : Nat) :
    let drained := k.drain .server fuel room t.link (t.disk .server)
    let t' := { t.setDisk .server drained.2.2.1 with link := drained.2.1, xfer := some (.put drained.2.2.2) }
    Put cfg before [] { t' with xfer := none } ∧ (t'.link.mux .server).events = [] ∧ ¬Unopened [] t'.link ∧
      t'.link.closedAt .server xferId = none ∧ t'.link.Awake .server xferId [] ∧
      ∃ bytes, drained.2.2.2.Holds (cfg.pid .server) cfg.dest drained.2.2.1 bytes ∧
        (drained.1 = true → bytes = t'.link.got .server xferId) := by
  obtain ⟨k',same,holds⟩ := put.server.holding _ held
  cases same
  obtain ⟨afloat,unclosed,awake⟩ := put.server.receiving (by rw [held]; simp)
  have opened : ¬Unopened [] t.link := by
    intro unopened
    rw [(put.server.fresh unopened).1] at held
    cases held
  obtain ⟨reads,unshared,same,filled⟩ := FileSink.drain_spec fuel room put.server.unshared holds
  have kept := reads.keep
    (fun l => Put cfg before [] { t with link := l, xfer := none } ∧ (l.mux .server).events = [] ∧ ¬Unopened [] l ∧
      l.closedAt .server xferId = none ∧ l.Awake .server xferId [])
    (fun l ⟨put,taken,opened,unclosed,awake⟩ =>
      ⟨put.call opened rfl rfl (by simp),(Link.call_events l (x := .server) rfl .server).trans taken,
        fun unopened => opened unopened.of_call,
        (Link.step_unclosed l (a := .read .server xferId) (by simp)).trans unclosed,
          awake.keep put.bond.safe (by simp) (by simp) (by simp)⟩)
    ⟨put.release,taken,opened,unclosed,awake⟩
  obtain ⟨put',taken',opened',unclosed',awake'⟩ := kept
  exact ⟨put'.files rfl unshared same,taken',opened',unclosed',awake',filled⟩

/-- An upload that is finished lands exactly, or the stream is reset before the client hears of
its close. -/
theorem Put.land (put : Put cfg before [] { t with xfer := none }) (opened : ¬Unopened [] t.link) (session : t.session = true)
    (afloat : t.landed = false) {k : FileSink}
    (holds : k.Holds (cfg.pid .server) cfg.dest (t.disk .server) (t.link.got .server xferId)) {s : StreamState}
    (held : t.link.stream .server xferId = some s) (finished : (t.link.mux .server).isRecvFinished xferId = true)
    (io : DiskIo) : Put cfg before [] (t.land k io) := by
  have sender : cfg.receiver.other = .client := by rw [put.upload]; rfl
  have silent : t.link.Silent .server xferId := put.server.signs.resolve_left (by rw [show t.landed = false from afloat]; simp)
  obtain ⟨exact,eof⟩ : t.link.got .server xferId = t.read ∧ t.eof = true := by
    have := put.sent.exact put.bond.safe (s := s)
    rw [put.upload] at this
    exact this held finished
  rw [exact] at holds
  -- What the close and the reset do to the link, apart from the signs of an end.
  have closed : Bond cfg [] (t.link.step (.close .server xferId 0)) := put.bond.call _
  have sent : Sent cfg { t with link := t.link.step (.close .server xferId 0) } := by
    refine Sent.link (t := t) ⟨put.sent.wrote,put.sent.closed⟩ ?_ ?_ <;> rw [sender] <;> simp
  have client := put.client.link put.bond.safe (a := .close .server xferId 0) (by simp) rfl rfl
  have later : ¬Unopened [] (t.link.step (.close .server xferId 0)) := fun unopened => opened unopened.of_call
  have unshared := FileSink.finalize_unshared put.server.unshared k io.syncs io.renames
  unfold Transfer.land
  simp only [serve,session,if_true,setDisk]
  rcases holds.finalize io.syncs io.renames with ⟨ok,_,reads,_⟩ | ⟨failed,removed⟩
  · rw [if_pos ok]
    refine ⟨put.upload,closed,⟨sent.wrote,sent.closed⟩,?_,client.congr rfl rfl rfl rfl rfl rfl rfl (fun _ => rfl)⟩
    exact {
      waiting := .of_opened later
      fresh := fun unopened => absurd unopened later
      unshared := by simpa using unshared
      signs := .inl rfl
      landed := fun _ => ⟨eof,by simpa using reads⟩
      untouched := by simp
      holding := by simp
      receiving := fun busy => absurd rfl busy }
  · rw [if_neg (by rw [failed]; simp)]
    have kept : (t.disk .server).read cfg.dest = before := put.server.untouched afloat
    have reset := client.link closed.safe (a := .reset .server xferId) (by simp) rfl rfl
    have last : ¬Unopened [] ((t.link.step (.close .server xferId 0)).step (.reset .server xferId)) :=
      fun unopened => later unopened.of_call
    refine ⟨put.upload,closed.call _,?_,?_,reset.congr rfl rfl rfl rfl rfl rfl rfl id⟩
    · have again := sent.link (a := .reset .server xferId) (by simp) (by simp)
      exact ⟨again.wrote,again.closed⟩
    · exact {
        waiting := .of_opened last
        fresh := fun unopened => absurd unopened last
        unshared := by simpa using unshared
        signs := .inr (silent.abandon put.bond.safe 0)
        landed := fun landed => by
          rw [show t.landed = true from landed] at afloat
          cases afloat
        untouched := fun _ => by
          dsimp only
          rw [Function.update_self,removed]
          exact (FileSystem.remove_read (tempPath_ne _ _)).trans kept
        holding := by simp
        receiving := fun busy => absurd rfl busy }

theorem land_events (t : Transfer) (k : FileSink) (io : DiskIo) :
    ((t.land k io).link.mux .server).events = (t.link.mux .server).events := by
  have closed := serve_events (t := t) (a := .close .server xferId 0) rfl .server
  unfold Transfer.land
  dsimp only
  split
  · exact closed
  · exact (serve_events rfl .server).trans closed

theorem Put.pumpPut (put : Put cfg before [] t) (taken : (t.link.mux .server).events = []) (session : t.session = true)
    {k : FileSink} (held : t.xfer = some (.put k)) (io : DiskIo) :
    Put cfg before [] (t.pumpPut k io) ∧ ((t.pumpPut k io).link.mux .server).events = [] := by
  have afloat := (put.server.receiving (by rw [held]; simp)).1
  obtain ⟨drained,taken',opened,unclosed,awake,bytes,holds,all⟩ :=
    put.drain taken held ((t.link.mux .server).recvBuffered xferId + 1) io.room
  unfold Transfer.pumpPut
  generalize k.drain .server ((t.link.mux .server).recvBuffered xferId + 1) io.room t.link (t.disk .server) = result at *
  obtain ⟨ok,l,fs,k'⟩ := result
  dsimp only at *
  cases ok with
  | false =>
    have refused := drained.call opened rfl (a := .reset .server xferId) rfl (by simp)
    have removed : (k'.drop ((t.setDisk .server fs).disk .server)).read cfg.dest =
        ((t.setDisk .server fs).disk .server).read cfg.dest := by
      rw [setDisk_same,holds.drop]
      exact FileSystem.remove_read (tempPath_ne _ _)
    have dropped := refused.files rfl (FileSink.drop_unshared drained.server.unshared k') removed
    have calm := Link.call_events l (a := .reset .server xferId) (x := .server) rfl .server
    simp only [Bool.not_false,if_true]
    rw [serve_eq (t := { t.setDisk .server fs with link := l, xfer := some (.put k') }) session]
    exact ⟨dropped,calm.trans taken'⟩
  | true =>
    have full : k'.Holds (cfg.pid .server) cfg.dest fs (l.got .server xferId) := by
      rw [← all rfl]
      exact holds
    simp only [Bool.not_true,Bool.false_eq_true,if_false]
    obtain ⟨s,stream,live⟩ := awake.held List.not_mem_nil
    split
    · rename_i finished
      refine ⟨Put.land (t := { t.setDisk .server fs with link := l, xfer := some (.put k') }) drained opened session afloat
        ?_ stream finished io,(land_events ..).trans taken'⟩
      dsimp only
      rw [setDisk_same]
      exact full
    · refine ⟨drained.hold opened ?_ ⟨afloat,unclosed,awake⟩,taken'⟩
      rw [setDisk_same]
      exact full

/-- The events are taken, and become what is pending. -/
theorem PutRests.take (rests : PutRests cfg before t) :
    Put cfg before (t.link.mux .server).events { t with link := t.link.step (.takeEvents .server) } where
  upload := rests.upload
  bond := rests.bond.call _
  sent := rests.sent.link nofun nofun
  server := {
    waiting := rests.server.waiting.take rests.bond.safe
    fresh := fun unopened => rests.server.fresh unopened.of_call
    unshared := rests.server.unshared
    signs := rests.server.signs.imp id (fun silent => Link.step_silent rests.bond.safe silent nofun)
    landed := rests.server.landed
    untouched := rests.server.untouched
    holding := rests.server.holding
    receiving := fun busy => by
      obtain ⟨afloat,unclosed,awake⟩ := rests.server.receiving busy
      exact ⟨afloat,unclosed,awake.keep rests.bond.safe (by simp) (by simp) (by simp)⟩ }
  client := rests.client.link rests.bond.safe (fun _ => rests.server.signs) rfl rfl

theorem PutRests.pump {path : String} {size : UInt64} (request : cfg.request = .put path size)
    (rests : PutRests cfg before t) (io : DiskIo) : PutRests cfg before (t.pump cfg io) := by
  refine pump_induct cfg io (Put cfg before) (fun event pending t put => put.handle request io)
    (fun t put taken session => ?_) (fun t put => put.dropXfer.1) rests.take
  unfold pumpXfer
  split
  · rename_i k held
    exact put.pumpPut taken session held io
  · rename_i src held
    obtain ⟨k,same,_⟩ := put.server.holding _ held
    cases same
  · exact ⟨put,taken⟩

/-- Another program writes a file. -/
theorem PutRests.elsewhere (rests : PutRests cfg before t) {x : Side} {path : Path}
    (apart : ¬(x = cfg.receiver ∧ (path = cfg.dest ∨ path = cfg.temp))) (bytes : Bytes) :
    PutRests cfg before (t.setDisk x ((t.disk x).writeFile path bytes)) := by
  refine ⟨rests.upload,rests.bond,⟨rests.sent.wrote,rests.sent.closed⟩,?_,
    rests.client.congr rfl rfl rfl rfl rfl rfl rfl id⟩
  cases x with
  | client => exact rests.server.congr rfl (t.setDisk_other .server _) rfl rfl (fun _ => ⟨rfl,rfl⟩)
  | server =>
    rw [rests.upload] at apart
    simp only [true_and,not_or] at apart
    have temp : cfg.temp = tempPath (cfg.pid .server) cfg.dest := by rw [XferSetup.temp,rests.upload]
    rw [temp] at apart
    have disk := t.setDisk_same .server ((t.disk .server).writeFile path bytes)
    have same := FileSystem.writeFile_read rests.server.unshared (Ne.symm apart.1) bytes
    exact {
      waiting := rests.server.waiting
      fresh := rests.server.fresh
      unshared := by
        rw [disk]
        exact FileSystem.writeFile_unshared rests.server.unshared path bytes
      signs := rests.server.signs
      landed := by
        rw [disk,same]
        exact rests.server.landed
      untouched := by
        rw [disk,same]
        exact rests.server.untouched
      holding := fun x held => by
        obtain ⟨k,put,holds⟩ := rests.server.holding x held
        rw [disk]
        exact ⟨k,put,holds.elsewhere rests.server.unshared (Ne.symm apart.1) (Ne.symm apart.2) bytes⟩
      receiving := rests.server.receiving }

theorem PutRests.step {path : String} {size : UInt64} (request : cfg.request = .put path size)
    (rests : PutRests cfg before t) (a : Action) : PutRests cfg before (t.step cfg a) := by
  cases a with
  | turn io => exact rests.turn io
  | leave io => exact rests.leave io
  | fail => exact rests.fail
  | pump io => exact rests.pump request io
  | vanish =>
    exact ⟨rests.upload,rests.bond,⟨rests.sent.wrote,rests.sent.closed⟩,
      rests.server.congr rfl rfl rfl rfl (fun _ => ⟨rfl,rfl⟩),rests.client.congr rfl rfl rfl rfl rfl rfl rfl id⟩
  | poll x =>
    cases x with
    | client => exact rests.link rfl rfl (fun _ => rfl)
    | server => exact serve_cases _ (rests.link rfl rfl (fun _ => rfl)) rests
  | deliver x n =>
    cases x with
    | client =>
      simp only [Transfer.step]
      split <;> exact rests.link rfl rfl (fun _ => rfl)
    | server => exact rests.link rfl rfl (fun _ => rfl)
  | lose x n => exact rests.link rfl rfl (fun _ => rfl)
  | elsewhere x path bytes =>
    simp only [Transfer.step]
    split
    · exact rests
    · rename_i apart
      exact rests.elsewhere apart bytes

end Transfer
end Noissh

import Noissh.TransferSafety

/-! Downloads. The client moves the file into place only when its stream, which it has all the
while, is finished: a stream that is gone was reset, and of that the client is told first. -/
namespace Noissh

open Files

namespace Transfer

variable {cfg : XferSetup} {before : Option Bytes} {pending : List StreamEvent} {t t' : Transfer}

/-- The server's half of a download. -/
structure GetServer (pending : List StreamEvent) (t : Transfer) : Prop where
  waiting : Waiting pending t.link
  fresh : Unopened pending t.link → t.xfer = none ∧ t.read = [] ∧ t.eof = false
  serving : ∀ x, t.xfer = some x → ∃ src, x = .get src ∧ src.file.offset = t.read.length ∧
    t.read.length ≤ FileSystem.maxOffset ∧ t.eof = false ∧ t.link.Awake .server xferId pending

/-- The client's half. -/
structure GetClient (cfg : XferSetup) (before : Option Bytes) (t : Transfer) : Prop where
  source : t.source = none
  unshared : (t.disk .client).Unshared
  untouched : t.phase ≠ .returned (.ok ()) → (t.disk .client).read cfg.dest = before
  running : t.phase = .running → ∃ k, t.sink = some k ∧
    k.Holds (cfg.pid .client) cfg.dest (t.disk .client) (t.link.got .client xferId) ∧
    t.link.closedAt .client xferId = none ∧ t.link.Awake .client xferId (t.link.mux .client).events
  leaving : t.phase = .leaving → ∃ k, t.sink = some k ∧
    k.Holds (cfg.pid .client) cfg.dest (t.disk .client) t.read ∧ t.eof = true
  done : t.phase = .returned (.ok ()) → t.eof = true ∧ (t.disk .client).read cfg.dest = some t.read
  ended : ∀ r, t.phase = .returned r → t.sink = none

structure Get (cfg : XferSetup) (before : Option Bytes) (pending : List StreamEvent) (t : Transfer) : Prop where
  download : cfg.receiver = .client
  bond : Bond cfg pending t.link
  sent : Sent cfg t
  server : GetServer pending t
  client : GetClient cfg before t

/-- Between two steps the server's events are those of its multiplexer. -/
def GetRests (cfg : XferSetup) (before : Option Bytes) (t : Transfer) : Prop :=
  Get cfg before (t.link.mux .server).events t

/-- The server closes at the end of its file. -/
theorem Sent.unclosed (sent : Sent cfg t) (more : t.eof = false) : t.link.closedAt cfg.receiver.other xferId = none := by
  cases closed : t.link.closedAt cfg.receiver.other xferId with
  | none => rfl
  | some n =>
    have eof := (sent.closed n closed).2
    rw [more] at eof
    cases eof

theorem GetServer.congr (server : GetServer pending t) (link : t'.link = t.link) (xfer : t'.xfer = t.xfer)
    (read : t'.read = t.read) (eof : t'.eof = t.eof) : GetServer pending t' where
  waiting := by rw [link]; exact server.waiting
  fresh := by rw [link,xfer,read,eof]; exact server.fresh
  serving := by rw [link,xfer,read,eof]; exact server.serving

/-- The link moves, or the client calls. -/
theorem GetServer.link (bond : Bond cfg (t.link.mux .server).events t.link) (sent : Sent cfg t)
    (download : cfg.receiver = .client) (server : GetServer (t.link.mux .server).events t) {a : Link.Action}
    (kept : Link.takesAt .server a = false) (foreign : Link.ownCall .server a = false) :
    GetServer ((t.link.step a).mux .server).events { t with link := t.link.step a } where
  waiting := server.waiting.step bond kept foreign
  fresh unopened := server.fresh (unopened.of_step bond.safe kept)
  serving x held := by
    obtain ⟨src,get,offset,small,more,awake⟩ := server.serving x held
    have unclosed := sent.unclosed more
    rw [download] at unclosed
    refine ⟨src,get,offset,small,more,?_⟩
    exact Link.Awake.step bond.safe (List.nil_append _).symm awake kept (Link.not_reset foreign xferId)
      (fun _ => .inl unclosed) (List.nil_append _).symm

theorem GetClient.congr (client : GetClient cfg before t) (link : t'.link = t.link)
    (disk : t'.disk .client = t.disk .client) (phase : t'.phase = t.phase) (source : t'.source = t.source)
    (sink : t'.sink = t.sink) (record : t.eof = true → t'.read = t.read ∧ t'.eof = t.eof) : GetClient cfg before t' where
  source := by rw [source]; exact client.source
  unshared := by rw [disk]; exact client.unshared
  untouched := by rw [phase,disk]; exact client.untouched
  running := by rw [phase,sink,disk,link]; exact client.running
  leaving := by
    rw [phase,sink,disk]
    intro leaving
    obtain ⟨k,held,holds,eof⟩ := client.leaving leaving
    rw [(record eof).1,(record eof).2]
    exact ⟨k,held,holds,eof⟩
  done := by
    rw [phase,disk]
    intro returned
    have done := client.done returned
    rw [(record done.1).1,(record done.1).2]
    exact done
  ended := by rw [phase,sink]; exact client.ended

/-- The link moves, or the server calls. -/
theorem GetClient.link (safe : t.link.Safe) (client : GetClient cfg before t) {a : Link.Action}
    (kept : Link.takesAt .client a = false) (foreign : Link.ownCall .client a = false) :
    GetClient cfg before { t with link := t.link.step a } where
  source := client.source
  unshared := client.unshared
  untouched := client.untouched
  running running := by
    obtain ⟨k,held,holds,unclosed,awake⟩ := client.running running
    refine ⟨k,held,?_,(Link.step_unclosed t.link (Link.not_close foreign xferId)).trans unclosed,?_⟩
    · rw [Link.step_got t.link (Link.not_read foreign xferId)]
      exact holds
    · exact Link.Awake.step safe (List.nil_append _).symm awake kept (Link.not_reset foreign xferId)
        (fun _ => .inl unclosed) (List.nil_append _).symm
  leaving := client.leaving
  done := client.done
  ended := client.ended

/-- The link moves by itself. -/
theorem GetRests.link (rests : GetRests cfg before t) {a : Link.Action} (server : Link.ownCall .server a = false)
    (client : Link.ownCall .client a = false) (kept : ∀ x, Link.takesAt x a = false) :
    GetRests cfg before { t with link := t.link.step a } where
  download := rests.download
  bond := rests.bond.step (kept .server)
  sent := by
    have sender : cfg.receiver.other = .server := by rw [rests.download]; rfl
    refine rests.sent.link ?_ ?_ <;> rw [sender]
    · exact Link.not_write server xferId
    · exact Link.not_close server xferId
  server := rests.server.link rests.bond rests.sent rests.download (kept .server) server
  client := rests.client.link rests.bond.safe (kept .client) client

/-- All but the client's half, between two steps. -/
structure GetPeer (cfg : XferSetup) (t : Transfer) : Prop where
  download : cfg.receiver = .client
  bond : Bond cfg (t.link.mux .server).events t.link
  sent : Sent cfg t
  server : GetServer (t.link.mux .server).events t

theorem GetRests.peer (rests : GetRests cfg before t) : GetPeer cfg t :=
  ⟨rests.download,rests.bond,rests.sent,rests.server⟩

theorem GetPeer.rests (peer : GetPeer cfg t) (client : GetClient cfg before t) : GetRests cfg before t :=
  ⟨peer.download,peer.bond,peer.sent,peer.server,client⟩

theorem GetPeer.congr (peer : GetPeer cfg t) (link : t'.link = t.link) (xfer : t'.xfer = t.xfer) (read : t'.read = t.read)
    (eof : t'.eof = t.eof) : GetPeer cfg t' := by
  refine ⟨peer.download,?_,⟨?_,?_⟩,?_⟩
  · rw [link]; exact peer.bond
  · rw [link,read]; exact peer.sent.wrote
  · rw [link,read,eof]; exact peer.sent.closed
  · rw [link]; exact peer.server.congr link xfer read eof

/-- The client calls. -/
theorem GetPeer.call (peer : GetPeer cfg t) {a : Link.Action} (kept : Link.takesAt .server a = false)
    (foreign : Link.ownCall .server a = false) : GetPeer cfg { t with link := t.link.step a } where
  download := peer.download
  bond := peer.bond.step kept
  sent := by
    have sender : cfg.receiver.other = .server := by rw [peer.download]; rfl
    refine peer.sent.link ?_ ?_ <;> rw [sender]
    · exact Link.not_write foreign xferId
    · exact Link.not_close foreign xferId
  server := peer.server.link peer.bond peer.sent peer.download kept foreign

/-- An error return leaves the destination as it was. -/
theorem GetPeer.giveUp (peer : GetPeer cfg t) {k : FileSink} {bytes : Bytes} (held : t.sink = some k)
    (holds : k.Holds (cfg.pid .client) cfg.dest (t.disk .client) bytes) (unshared : (t.disk .client).Unshared)
    (still : (t.disk .client).read cfg.dest = before) (e : TransferError) : GetRests cfg before (t.giveUp e) := by
  have shape : t.giveUp e = { t.setDisk .client (k.drop (t.disk .client)) with
      phase := .returned (.error e), source := none, sink := none } := by
    simp [Transfer.giveUp,held,setDisk]
  have disk := t.setDisk_same .client (k.drop (t.disk .client))
  rw [shape]
  refine GetPeer.rests ?_ ?_
  · exact peer.congr rfl rfl rfl rfl
  refine {
    source := rfl
    unshared := ?_
    untouched := fun _ => ?_
    running := by simp
    leaving := by simp
    done := by simp
    ended := fun _ _ => rfl }
  · dsimp only
    rw [disk]
    exact FileSink.drop_unshared unshared k
  · dsimp only
    rw [disk,holds.drop]
    exact (FileSystem.remove_read (tempPath_ne _ _)).trans still

/-- The client drains its stream, and leaves when it finds it finished. -/
theorem GetPeer.download_step (peer : GetPeer cfg t) (client : GetClient cfg before t) (running : t.phase = .running)
    (taken : (t.link.mux .client).events = []) (io : DiskIo) : GetRests cfg before (t.download io) := by
  obtain ⟨k,held,holds,unclosed,awake⟩ := client.running running
  rw [taken] at awake
  obtain ⟨reads,unshared,same,bytes,holds',all⟩ := FileSink.drain_spec
    ((t.link.mux .client).recvBuffered xferId + 1) io.room client.unshared holds
  obtain ⟨peer',taken',unclosed',awake'⟩ := reads.keep
    (fun l => GetPeer cfg { t with link := l } ∧ (l.mux .client).events = [] ∧
      l.closedAt .client xferId = none ∧ l.Awake .client xferId [])
    (fun l ⟨peer,taken,unclosed,awake⟩ =>
      ⟨peer.call rfl rfl,(Link.call_events l (x := .client) rfl .client).trans taken,
        (Link.step_unclosed l (a := .read .client xferId) (by simp)).trans unclosed,
        awake.keep peer.bond.safe (by simp) (by simp) (by simp)⟩)
    ⟨peer,taken,unclosed,awake⟩
  unfold Transfer.download
  rw [held]
  dsimp only
  generalize k.drain .client ((t.link.mux .client).recvBuffered xferId + 1) io.room t.link (t.disk .client) = result at *
  obtain ⟨ok,l,fs,k'⟩ := result
  dsimp only at *
  have disk := t.setDisk_same .client fs
  -- The destination is as it was, however the drain went.
  have still : (t.disk .client).read cfg.dest = before := client.untouched (by rw [running]; simp)
  have running' : (t.setDisk .client fs).phase = .running := running
  have drained : GetPeer cfg { t.setDisk .client fs with link := l, sink := some k' } := peer'.congr rfl rfl rfl rfl
  cases ok with
  | false =>
    rw [if_pos (by rfl)]
    refine drained.giveUp rfl (show k'.Holds _ _ _ bytes from ?_) ?_ ?_ .io
    · dsimp only
      rw [disk]
      exact holds'
    · dsimp only
      rw [disk]
      exact unshared
    · dsimp only
      rw [disk]
      exact same.trans still
  | true =>
    rw [all rfl] at holds'
    rw [if_neg (by simp)]
    split
    · rename_i finished
      obtain ⟨s,stream,_⟩ := awake'.held List.not_mem_nil
      obtain ⟨exact,eof⟩ : l.got .client xferId = t.read ∧ t.eof = true := by
        have := drained.sent.exact drained.bond.safe (s := s)
        rw [drained.download] at this
        exact this stream finished
      rw [exact] at holds'
      refine GetPeer.rests ?_ ?_
      · exact (drained.call (a := .close .client xferId 0) rfl rfl).congr rfl rfl rfl rfl
      refine {
        source := client.source
        unshared := ?_
        untouched := fun _ => ?_
        running := by simp
        leaving := fun _ => ⟨k',rfl,?_,eof⟩
        done := by simp
        ended := (by simp) }
      · dsimp only
        rw [disk]
        exact unshared
      · dsimp only
        rw [disk]
        exact same.trans still
      · dsimp only
        rw [disk]
        exact holds'
    · refine drained.rests {
        source := client.source
        unshared := ?_
        untouched := fun _ => ?_
        running := fun _ => ⟨k',rfl,?_,unclosed',?_⟩
        leaving := fun here => ?_
        done := fun here => ?_
        ended := fun r here => ?_ }
      · dsimp only
        rw [disk]
        exact unshared
      · dsimp only
        rw [disk]
        exact same.trans still
      · dsimp only
        rw [disk]
        exact holds'
      · dsimp only
        rw [taken']
        exact awake'
      · exact absurd (running'.symm.trans here) (by simp)
      · exact absurd (running'.symm.trans here) (by simp)
      · exact absurd (running'.symm.trans here) (by simp)

theorem GetRests.turn (rests : GetRests cfg before t) (io : DiskIo) : GetRests cfg before (t.turn io) := by
  unfold Transfer.turn
  split
  · rename_i running
    have peer := rests.peer.call (a := .takeEvents .client) rfl rfl
    obtain ⟨k,held,holds,unclosed,awake⟩ := rests.client.running running
    have still := rests.client.untouched (by rw [running]; simp)
    dsimp only
    split
    · exact peer.giveUp held holds rests.client.unshared still rejected
    · rename_i calm
      -- Past the look at its events, the client has the stream.
      have awake' : (t.link.step (.takeEvents .client)).Awake .client xferId [] :=
        .inr ((awake.keep rests.bond.safe (a := .takeEvents .client) (by simp) (by simp) (by simp)).held calm)
      have taken := Link.take_events t.link .client
      have client : GetClient cfg before { t with link := t.link.step (.takeEvents .client) } :=
        { rests.client with
          running := fun _ => ⟨k,held,holds,unclosed,by rw [show ((t.link.step _).mux _).events = _ from taken]; exact awake'⟩ }
      have upload : ({ t with link := t.link.step (.takeEvents .client) } : Transfer).upload io =
          { t with link := t.link.step (.takeEvents .client) } := by
        simp [Transfer.upload,rests.client.source]
      rw [upload]
      exact peer.download_step client running taken io
  · exact rests

theorem GetRests.leave (rests : GetRests cfg before t) (io : DiskIo) : GetRests cfg before (t.leave io) := by
  unfold Transfer.leave
  split
  · rename_i leaving
    obtain ⟨k,held,holds,eof⟩ := rests.client.leaving leaving
    have still := rests.client.untouched (by rw [leaving]; simp)
    have disk := t.setDisk_same .client (k.finalize (t.disk .client) io.syncs io.renames).2
    have unshared := FileSink.finalize_unshared rests.client.unshared k io.syncs io.renames
    rw [held]
    dsimp only
    refine GetPeer.rests ?_ ?_
    · exact rests.peer.congr rfl rfl rfl rfl
    rcases holds.finalize io.syncs io.renames with ⟨ok,_,reads,_⟩ | ⟨failed,removed⟩
    · rw [if_pos ok]
      refine {
        source := rests.client.source
        unshared := by dsimp only; rw [disk]; exact unshared
        untouched := fun here => absurd rfl here
        running := by simp
        leaving := by simp
        done := fun _ => ⟨eof,?_⟩
        ended := fun _ _ => rfl }
      dsimp only
      rw [disk]
      exact reads
    · rw [if_neg (by rw [failed]; simp)]
      refine {
        source := rests.client.source
        unshared := by dsimp only; rw [disk]; exact unshared
        untouched := fun _ => ?_
        running := by simp
        leaving := by simp
        done := by simp
        ended := fun _ _ => rfl }
      dsimp only
      rw [disk,removed]
      exact (FileSystem.remove_read (tempPath_ne _ _)).trans still
  · exact rests

theorem GetRests.fail (rests : GetRests cfg before t) : GetRests cfg before t.fail := by
  unfold Transfer.fail
  cases phase : t.phase with
  | returned r => exact rests
  | running =>
    obtain ⟨k,held,holds,_⟩ := rests.client.running phase
    exact rests.peer.giveUp held holds rests.client.unshared (rests.client.untouched (by rw [phase]; simp)) .io
  | leaving =>
    obtain ⟨k,held,holds,_⟩ := rests.client.leaving phase
    exact rests.peer.giveUp held holds rests.client.unshared (rests.client.untouched (by rw [phase]; simp)) .io

/-- The transfer's entry is taken out of the map. -/
theorem Get.release (get : Get cfg before pending t) : Get cfg before pending { t with xfer := none } where
  download := get.download
  bond := get.bond
  sent := ⟨get.sent.wrote,get.sent.closed⟩
  server := ⟨get.server.waiting,fun unopened => ⟨rfl,(get.server.fresh unopened).2⟩,nofun⟩
  client := get.client.congr rfl rfl rfl rfl rfl (fun _ => ⟨rfl,rfl⟩)

theorem Get.tail {event : StreamEvent} (get : Get cfg before (event :: pending) t)
    (idle : t.xfer = none ∨ event ≠ .reset xferId) : Get cfg before pending t where
  download := get.download
  bond := get.bond.tail
  sent := get.sent
  server := {
    waiting := get.server.waiting.tail
    fresh := fun unopened => get.server.fresh (unopened.imp (fun opened => by simp [opened]) id)
    serving := fun x held => by
      obtain ⟨src,same,offset,small,more,awake⟩ := get.server.serving x held
      refine ⟨src,same,offset,small,more,awake.imp (fun member => ?_) id⟩
      rcases List.mem_cons.mp member with same | later
      · exact absurd same.symm (idle.resolve_left (by rw [held]; simp))
      · exact later }
  client := get.client

theorem Get.dropXfer (get : Get cfg before pending t) : Get cfg before pending t.dropXfer ∧ t.dropXfer.xfer = none := by
  unfold Transfer.dropXfer
  split
  · rename_i k held
    obtain ⟨src,same,_⟩ := get.server.serving _ held
    cases same
  · exact ⟨get.release,rfl⟩

/-- The server resets a stream it has no entry for. -/
theorem Get.reset (get : Get cfg before pending t) (opened : ¬Unopened pending t.link) (idle : t.xfer = none) :
    Get cfg before pending { t with link := t.link.step (.reset .server xferId) } where
  download := get.download
  bond := get.bond.call _
  sent := get.sent.link nofun nofun
  server := {
    waiting := .of_opened (fun unopened => opened unopened.of_call)
    fresh := fun unopened => absurd unopened.of_call opened
    serving := fun x held => by
      change t.xfer = some x at held
      rw [idle] at held
      cases held }
  client := get.client.link get.bond.safe rfl rfl

theorem Get.onOpened {path : String} (request : cfg.request = .get path) {kind : StreamKind} {metadata : Bytes}
    (get : Get cfg before (.opened xferId kind metadata :: pending) t) (io : DiskIo) :
    Get cfg before pending (t.onOpened cfg io metadata) := by
  have opened := get.bond.opened
  have unopened : Unopened (.opened xferId kind metadata :: pending) t.link := .inl (StreamEvent.any_opens List.mem_cons_self)
  obtain ⟨idle,unread,more⟩ := get.server.fresh unopened
  have awake := get.server.waiting.opening [] kind metadata pending rfl
  have label := (get.bond.labels kind metadata (.head _)).2
  have kept := get.tail (.inl idle)
  have refused : Get cfg before pending (t.serve (.reset .server xferId)) := serve_cases _ (kept.reset opened idle) kept
  unfold Transfer.onOpened
  rw [label,XferRequest.parse_encode,request]
  split
  · exact refused
  · by_cases empty : (XferRequest.get path).path.isEmpty = true
    · rw [if_pos empty]
      exact refused
    · rw [if_neg empty]
      dsimp only
      split
      · rename_i src found
        rw [insertXfer_eq idle]
        refine ⟨kept.download,kept.bond,⟨kept.sent.wrote,kept.sent.closed⟩,
          ⟨kept.server.waiting,fun unopened => absurd unopened opened,fun x held => ⟨src,?_,?_,?_,more,awake⟩⟩,
          kept.client.congr rfl rfl rfl rfl rfl (fun _ => ⟨rfl,rfl⟩)⟩
        · exact (Option.some.inj held).symm
        · rw [FileSource.openFile_offset found,show t.read = [] from unread]
          rfl
        · rw [show t.read = [] from unread]
          exact Nat.zero_le _
      · exact refused

theorem Get.handle {path : String} (request : cfg.request = .get path) {event : StreamEvent}
    (get : Get cfg before (event :: pending) t) (io : DiskIo) : Get cfg before pending (t.handleEvent cfg io event) := by
  unfold Transfer.handleEvent
  split
  · split
    · rename_i mine
      subst mine
      exact get.onOpened request io
    · exact get.tail (.inr (by simp))
  · split
    · exact get.dropXfer.1.tail (.inl get.dropXfer.2)
    · rename_i k other
      refine get.tail (.inr (fun same => other ?_))
      cases same
      rfl
  · rename_i calm
    exact get.tail (.inr (calm _))

theorem Get.pumpGet (get : Get cfg before [] t) (taken : (t.link.mux .server).events = []) (session : t.session = true)
    {src : FileSource} (held : t.xfer = some (.get src)) (io : DiskIo) :
    Get cfg before [] (t.pumpGet src io) ∧ ((t.pumpGet src io).link.mux .server).events = [] := by
  have sender : cfg.receiver.other = .server := by rw [get.download]; rfl
  obtain ⟨src',same,offset,small,more,awake⟩ := get.server.serving _ held
  cases same
  have opened : ¬Unopened [] t.link := by
    intro unopened
    rw [(get.server.fresh unopened).1] at held
    cases held
  have unclosed := get.sent.unclosed more
  rw [sender] at unclosed
  have wrote := get.sent.wrote
  rw [sender] at wrote
  have events : ∀ {a : Link.Action}, Link.ownCall .server a = true → ((t.link.step a).mux .server).events = [] :=
    fun own => (Link.call_events t.link own .server).trans taken
  -- The client is done only with a file that was read to its end.
  have frozen : ∀ read eof, t.eof = true → read = t.read ∧ eof = t.eof := fun _ _ past => by
    rw [more] at past
    cases past
  unfold Transfer.pumpGet
  split
  · cases chunk : src.readChunk (t.disk .server) chunk io.short with
    | none =>
      dsimp only
      rw [serve_eq session]
      exact ⟨get.release.reset opened rfl,events rfl⟩
    | some both =>
      obtain ⟨data,src'⟩ := both
      dsimp only
      rw [serve_eq session,serve_eq session]
      by_cases last : data.isEmpty = true
      · rw [if_pos last]
        refine ⟨⟨get.download,get.bond.call _,⟨?_,fun n closed => ?_⟩,⟨?_,fun unopened => ?_,by simp⟩,?_⟩,events rfl⟩
        · exact (Link.step_wrote t.link (a := .close .server xferId 0) (by simp)).trans get.sent.wrote
        · rw [sender] at closed
          refine ⟨?_,rfl⟩
          rw [Link.close_closedAt t.link .server xferId 0 unclosed closed,wrote]
        · exact .of_opened (fun unopened => opened unopened.of_call)
        · exact absurd unopened.of_call opened
        · exact (get.client.link get.bond.safe (a := .close .server xferId 0) rfl rfl).congr rfl rfl rfl rfl rfl
            (frozen _ _)
      · rw [if_neg last]
        obtain ⟨advanced,bound⟩ := FileSource.readChunk_offset (offset ▸ small) chunk
        obtain ⟨s,stream,_⟩ := awake.held List.not_mem_nil
        have fits : (t.link.wrote .server xferId).length + data.length ≤ u64Max := by
          rw [wrote,← offset,← advanced]
          exact Nat.le_trans bound (by decide)
        have written := Link.write_wrote get.bond.safe stream fits
        refine ⟨⟨get.download,get.bond.call _,⟨?_,fun n closed => ?_⟩,⟨?_,fun unopened => ?_,fun x here => ?_⟩,?_⟩,
          events rfl⟩
        · rw [sender,written,wrote]
        · rw [sender,Link.step_unclosed t.link (a := .write .server xferId data) (by simp),unclosed] at closed
          cases closed
        · exact .of_opened (fun unopened => opened unopened.of_call)
        · exact absurd unopened.of_call opened
        · refine ⟨src',(Option.some.inj here).symm,?_,?_,more,awake.keep get.bond.safe (by simp) (by simp) (by simp)⟩
          · rw [List.length_append]
            omega
          · rw [List.length_append]
            omega
        · exact (get.client.link get.bond.safe (a := .write .server xferId data) rfl rfl).congr rfl rfl rfl rfl rfl
            (frozen _ _)
  · exact ⟨get,taken⟩

/-- The events are taken, and become what is pending. -/
theorem GetRests.take (rests : GetRests cfg before t) :
    Get cfg before (t.link.mux .server).events { t with link := t.link.step (.takeEvents .server) } where
  download := rests.download
  bond := rests.bond.call _
  sent := rests.sent.link nofun nofun
  server := {
    waiting := rests.server.waiting.take rests.bond.safe
    fresh := fun unopened => rests.server.fresh unopened.of_call
    serving := fun x held => by
      obtain ⟨src,same,offset,small,more,awake⟩ := rests.server.serving x held
      exact ⟨src,same,offset,small,more,awake.keep rests.bond.safe (by simp) (by simp) (by simp)⟩ }
  client := rests.client.link rests.bond.safe rfl rfl

theorem GetRests.pump {path : String} (request : cfg.request = .get path) (rests : GetRests cfg before t) (io : DiskIo) :
    GetRests cfg before (t.pump cfg io) := by
  refine pump_induct cfg io (Get cfg before) (fun event pending t get => get.handle request io)
    (fun t get taken session => ?_) (fun t get => get.dropXfer.1) rests.take
  unfold pumpXfer
  split
  · rename_i k held
    obtain ⟨src,same,_⟩ := get.server.serving _ held
    cases same
  · rename_i src held
    exact get.pumpGet taken session held io
  · exact ⟨get,taken⟩

/-- Another program writes a file. -/
theorem GetRests.elsewhere (rests : GetRests cfg before t) {x : Side} {path : Path}
    (apart : ¬(x = cfg.receiver ∧ (path = cfg.dest ∨ path = cfg.temp))) (bytes : Bytes) :
    GetRests cfg before (t.setDisk x ((t.disk x).writeFile path bytes)) := by
  refine GetPeer.rests ?_ ?_
  · exact rests.peer.congr rfl rfl rfl rfl
  cases x with
  | server => exact rests.client.congr rfl (t.setDisk_other .client _) rfl rfl rfl (fun _ => ⟨rfl,rfl⟩)
  | client =>
    rw [rests.download] at apart
    simp only [true_and,not_or] at apart
    have temp : cfg.temp = tempPath (cfg.pid .client) cfg.dest := by rw [XferSetup.temp,rests.download]
    rw [temp] at apart
    have disk := t.setDisk_same .client ((t.disk .client).writeFile path bytes)
    have same := FileSystem.writeFile_read rests.client.unshared (Ne.symm apart.1) bytes
    have holds : ∀ {k : FileSink} {held : Bytes}, k.Holds (cfg.pid .client) cfg.dest (t.disk .client) held →
        k.Holds (cfg.pid .client) cfg.dest ((t.disk .client).writeFile path bytes) held :=
      fun holds => holds.elsewhere rests.client.unshared (Ne.symm apart.1) (Ne.symm apart.2) bytes
    exact {
      source := rests.client.source
      unshared := by
        rw [disk]
        exact FileSystem.writeFile_unshared rests.client.unshared path bytes
      untouched := by
        rw [disk,same]
        exact rests.client.untouched
      running := fun running => by
        obtain ⟨k,held,old,rest⟩ := rests.client.running running
        rw [disk]
        exact ⟨k,held,holds old,rest⟩
      leaving := fun leaving => by
        obtain ⟨k,held,old,rest⟩ := rests.client.leaving leaving
        rw [disk]
        exact ⟨k,held,holds old,rest⟩
      done := by
        rw [disk,same]
        exact rests.client.done
      ended := rests.client.ended }

theorem GetRests.step {path : String} (request : cfg.request = .get path) (rests : GetRests cfg before t) (a : Action) :
    GetRests cfg before (t.step cfg a) := by
  cases a with
  | turn io => exact rests.turn io
  | leave io => exact rests.leave io
  | fail => exact rests.fail
  | pump io => exact rests.pump request io
  | vanish =>
    refine GetPeer.rests ?_ ?_
    · exact rests.peer.congr rfl rfl rfl rfl
    · exact rests.client.congr rfl rfl rfl rfl rfl (fun _ => ⟨rfl,rfl⟩)
  | poll x =>
    cases x with
    | client => exact rests.link rfl rfl (fun _ => rfl)
    | server => exact serve_cases _ (rests.link rfl rfl (fun _ => rfl)) rests
  | deliver x n =>
    cases x with
    | client =>
      simp only [Transfer.step]
      split <;> exact rests.link rfl rfl (fun _ => rfl)
    | server => exact rests.link rfl rfl (fun _ => rfl)
  | lose x n => exact rests.link rfl rfl (fun _ => rfl)
  | elsewhere x path bytes =>
    simp only [Transfer.step]
    split
    · exact rests
    · rename_i apart
      exact rests.elsewhere apart bytes

end Transfer
end Noissh

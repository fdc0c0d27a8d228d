import Noissh.TransferExact

/-! What a transfer reads. While no other program writes the file it reads from, that is the
file's bytes from its start on, and all of them where the reads came to the end. -/
namespace Noissh

open Files

/-- Of a file, the source has handed over the bytes before its offset. -/
structure FileSource.Reads (path : Path) (file : Option Bytes) (fs : FileSystem Path) (src : Option FileSource)
    (read : Bytes) (eof : Bool) : Prop where
  unshared : fs.Unshared
  same : fs.read path = file
  handle : ∀ f, src = some f → fs.entries path = some f.file.file ∧ f.file.offset = read.length
  begins : read <+: (file.getD []).take FileSystem.maxOffset
  whole : eof = true → file.map (List.take FileSystem.maxOffset) = some read

namespace FileSource

variable {path : Path} {file : Option Bytes} {fs : FileSystem Path} {src : Option FileSource} {read : Bytes} {eof : Bool}

theorem Reads.close (reads : Reads path file fs src read eof) : Reads path file fs none read eof :=
  ⟨reads.unshared,reads.same,nofun,reads.begins,reads.whole⟩

/-- The file is opened before anything was read. -/
theorem Reads.opened (reads : Reads path file fs src [] eof) {opens : Bool} {f : FileSource}
    (found : openFile fs path opens = some f) : Reads path file fs (some f) [] eof := by
  refine ⟨reads.unshared,reads.same,fun g same => ?_,reads.begins,reads.whole⟩
  cases same
  refine ⟨?_,openFile_offset found⟩
  unfold openFile at found
  split at found
  · obtain ⟨number,named,rfl⟩ := Option.map_eq_some_iff.mp found
    exact named
  · cases found

/-- A chunk is what comes next in the file, and an empty one is its end. -/
theorem Reads.chunk {f f' : FileSource} (reads : Reads path file fs (some f) read eof) {limit : Nat} (some_ : 0 < limit)
    {short : Option Nat} {data : Bytes}
    (chunk : f.readChunk fs limit short = some (data,f')) :
    Reads path file fs (some f') (read ++ data) data.isEmpty := by
  obtain ⟨named,offset⟩ := reads.handle f rfl
  obtain ⟨n,_,same⟩ := Option.map_eq_some_iff.mp chunk
  cases same
  have content : file = some (fs.contents f.file.file) := by
    rw [← reads.same,FileSystem.read,named,Option.map_some]
  have begins := reads.begins
  rw [content,Option.getD_some] at begins
  generalize bytes : (fs.contents f.file.file).take FileSystem.maxOffset = all at begins
  have split : read ++ all.drop read.length = all := by
    conv => rhs; rw [← List.take_append_drop read.length all]
    rw [← List.prefix_iff_eq_take.mp begins]
  have data : (fs.readAt f.file (min limit (n + 1))).1 = (all.drop read.length).take (min limit (n + 1)) := by
    rw [FileSystem.readAt,offset,bytes]
  refine ⟨reads.unshared,reads.same,fun g same => ?_,?_,fun last => ?_⟩
  · cases same
    refine ⟨named,?_⟩
    rw [List.length_append,← offset]
    rfl
  · rw [content,Option.getD_some,bytes,data]
    conv => rhs; rw [← split]
    exact (List.prefix_append_right_inj read).mpr (List.take_prefix _ _)
  · rw [data] at last ⊢
    have none : all.drop read.length = [] := by
      cases rest : all.drop read.length with
      | nil => rfl
      | cons b more =>
        obtain ⟨k,count⟩ := Nat.exists_eq_succ_of_ne_zero (show min limit (n + 1) ≠ 0 by omega)
        rw [rest,count] at last
        cases last
    rw [content,Option.map_some,bytes,none,List.take_nil,List.append_nil]
    rw [none,List.append_nil] at split
    rw [split]

/-- Another program writes another file. -/
theorem Reads.elsewhere (reads : Reads path file fs src read eof) {other : Path} (differ : path ≠ other) (bytes : Bytes) :
    Reads path file (fs.writeFile other bytes) src read eof where
  unshared := FileSystem.writeFile_unshared reads.unshared other bytes
  same := (FileSystem.writeFile_read reads.unshared differ bytes).trans reads.same
  handle f held := by
    rw [(FileSystem.writeFile_other reads.unshared differ bytes).1]
    exact reads.handle f held
  begins := reads.begins
  whole := reads.whole

end FileSource

namespace XferSetup

/-- The file that is asked for. -/
def sourcePath (cfg : XferSetup) : Path :=
  match cfg.request with
  | .put _ _ => Path.ofString cfg.localPath
  | .get path => Path.ofString path

end XferSetup

namespace Transfer

variable {cfg : XferSetup} {before file : Option Bytes} {pending : List StreamEvent} {t t' : Transfer}

/-- What the file reads of the client depend on is as it was. -/
structure Still (t t' : Transfer) : Prop where
  disk : t'.disk .client = t.disk .client
  source : t'.source = t.source
  read : t'.read = t.read
  eof : t'.eof = t.eof

theorem Still.trans {t'' : Transfer} (first : Still t t') (second : Still t' t'') : Still t t'' :=
  ⟨second.disk.trans first.disk,second.source.trans first.source,second.read.trans first.read,second.eof.trans first.eof⟩

theorem Still.files (t : Transfer) (fs : FileSystem Path) : Still t (t.setDisk .server fs) :=
  ⟨t.setDisk_other .client fs,rfl,rfl,rfl⟩

theorem Still.serve (t : Transfer) (a : Link.Action) : Still t (t.serve a) :=
  serve_cases (Still t) ⟨rfl,rfl,rfl,rfl⟩ ⟨rfl,rfl,rfl,rfl⟩

theorem Still.dropXfer (t : Transfer) : Still t t.dropXfer := by
  unfold Transfer.dropXfer
  split
  · rename_i k _
    exact (Still.files t (k.drop (t.disk .server))).trans ⟨rfl,rfl,rfl,rfl⟩
  · exact ⟨rfl,rfl,rfl,rfl⟩

theorem Still.insertXfer (t : Transfer) (x : XferState) : Still t (t.insertXfer x) :=
  (Still.dropXfer t).trans ⟨rfl,rfl,rfl,rfl⟩

theorem Still.handleEvent (t : Transfer) (io : DiskIo) (event : StreamEvent) : Still t (t.handleEvent cfg io event) := by
  unfold Transfer.handleEvent
  split
  · split
    · unfold Transfer.onOpened
      split
      · exact .serve t _
      · split
        · dsimp only
          split
          · exact (Still.files t _).trans (.insertXfer _ _)
          · exact .serve t _
        · split
          · exact .insertXfer t _
          · exact .serve t _
        · exact .serve t _
    · exact ⟨rfl,rfl,rfl,rfl⟩
  · split
    · exact .dropXfer t
    · exact ⟨rfl,rfl,rfl,rfl⟩
  · exact ⟨rfl,rfl,rfl,rfl⟩

theorem Still.land (t : Transfer) (k : FileSink) (io : DiskIo) : Still t (t.land k io) := by
  unfold Transfer.land
  have closed : Still t { t.serve (.close .server xferId 0) with xfer := none } :=
    (Still.serve t (.close .server xferId 0)).trans ⟨rfl,rfl,rfl,rfl⟩
  generalize ({ t.serve (.close .server xferId 0) with xfer := none } : Transfer) = u at closed ⊢
  have moved := closed.trans (.files u (k.finalize (u.disk .server) io.syncs io.renames).2)
  dsimp only
  split
  · exact moved.trans ⟨rfl,rfl,rfl,rfl⟩
  · exact moved.trans (.serve _ _)

theorem Still.pumpPut (t : Transfer) (k : FileSink) (io : DiskIo) : Still t (t.pumpPut k io) := by
  unfold Transfer.pumpPut
  generalize k.drain .server ((t.link.mux .server).recvBuffered xferId + 1) io.room t.link (t.disk .server) = drained
  have stored : Still t { t.setDisk .server drained.2.2.1 with link := drained.2.1, xfer := some (.put drained.2.2.2) } :=
    (Still.files t drained.2.2.1).trans ⟨rfl,rfl,rfl,rfl⟩
  dsimp only
  split
  · exact stored.trans ((Still.serve _ _).trans (.dropXfer _))
  split
  · exact stored.trans (.land _ _ io)
  · exact stored

/-- The server reads no file for an upload. -/
theorem PutRests.pump_still {path : String} {size : UInt64} (request : cfg.request = .put path size)
    (rests : PutRests cfg before t) (io : DiskIo) : Still t (t.pump cfg io) := by
  refine (pump_induct cfg io (fun pending t' => Put cfg before pending t' ∧ Still t t')
    (fun event pending t' both => ⟨both.1.handle request io,both.2.trans (.handleEvent t' io event)⟩)
    (fun t' both taken session => ?_) (fun t' both => ⟨both.1.dropXfer.1,both.2.trans (.dropXfer t')⟩)
    ⟨rests.take,⟨rfl,rfl,rfl,rfl⟩⟩).2
  unfold pumpXfer
  split
  · rename_i k held
    obtain ⟨put,events⟩ := both.1.pumpPut taken session held io
    exact ⟨⟨put,both.2.trans (.pumpPut t' k io)⟩,events⟩
  · rename_i src held
    obtain ⟨k,same,_⟩ := both.1.server.holding _ held
    cases same
  · exact ⟨both,taken⟩

/-- What the client has read for an upload. -/
def PutReads (cfg : XferSetup) (file : Option Bytes) (t : Transfer) : Prop :=
  FileSource.Reads cfg.sourcePath file (t.disk .client) t.source t.read t.eof

theorem PutReads.still (reads : PutReads cfg file t) (still : Still t t') : PutReads cfg file t' := by
  unfold PutReads
  rw [still.disk,still.source,still.read,still.eof]
  exact reads

theorem PutReads.giveUp (reads : PutReads cfg file t) (sink : t.sink = none) (e : TransferError) :
    PutReads cfg file (t.giveUp e) := by
  rw [giveUp_eq sink]
  exact reads.close

theorem PutReads.finishUpload (reads : PutReads cfg file t) : PutReads cfg file t.finishUpload := by
  unfold Transfer.finishUpload
  split
  · split <;> exact reads
  · exact reads

theorem PutReads.sendChunk (reads : PutReads cfg file t) (sink : t.sink = none) {src : FileSource} (source : t.source = some src)
    (more : t.eof = false) (io : DiskIo) : PutReads cfg file (t.sendChunk src io) := by
  unfold Transfer.sendChunk
  split
  · exact reads.giveUp sink .io
  · rename_i data src' chunk
    unfold PutReads at reads
    rw [source] at reads
    have next := reads.chunk (show 0 < Noissh.chunk by decide) chunk
    cases data with
    | nil =>
      rw [List.append_nil] at next
      exact next
    | cons b rest =>
      unfold PutReads
      dsimp only [List.isEmpty_cons] at next ⊢
      rw [if_neg Bool.false_ne_true]
      dsimp only
      rw [more]
      exact next

/-- An upload has no sink at the client. -/
theorem upload_sink (absent : t.sink = none) (io : DiskIo) : (t.upload io).sink = none := by
  have finish : ∀ t : Transfer, t.finishUpload.sink = t.sink := by
    intro t
    unfold Transfer.finishUpload
    split
    · split <;> rfl
    · rfl
  unfold Transfer.upload
  split
  · rename_i src _
    split
    · rw [finish]
      unfold Transfer.sendChunk
      split
      · rw [giveUp_eq absent]
        exact absent
      · split <;> exact absent
    · exact (finish t).trans absent
  · exact absent

theorem PutReads.turn (reads : PutReads cfg file t) (client : PutClient t) (io : DiskIo) : PutReads cfg file (t.turn io) := by
  unfold Transfer.turn
  split
  · have taken : PutReads cfg file { t with link := t.link.step (.takeEvents .client) } := reads
    have sink : ({ t with link := t.link.step (.takeEvents .client) } : Transfer).sink = none := client.sink
    have fin : ({ t with link := t.link.step (.takeEvents .client) } : Transfer).eof = t.sentFin := client.fin
    generalize opened : ({ t with link := t.link.step (.takeEvents .client) } : Transfer) = u at taken sink fin ⊢
    dsimp only
    split
    · exact taken.giveUp sink rejected
    · rw [download_eq (upload_sink sink io)]
      unfold Transfer.upload
      split
      · rename_i src source
        split
        · rename_i room
          have unsent : u.sentFin = false := by simpa using room.1
          have more : u.eof = false := by
            rw [fin,← unsent,← opened]
          exact (taken.sendChunk sink source more io).finishUpload
        · exact taken.finishUpload
      · exact taken
  · exact reads

theorem PutReads.leave (reads : PutReads cfg file t) (client : PutClient t) (io : DiskIo) : PutReads cfg file (t.leave io) := by
  unfold Transfer.leave
  split
  · rw [client.sink]
    exact reads
  · exact reads

theorem PutReads.fail (reads : PutReads cfg file t) (client : PutClient t) : PutReads cfg file t.fail := by
  unfold Transfer.fail
  split
  · exact reads
  · exact reads.giveUp client.sink .io

/-- The action is no write of another program to the file that is asked for. -/
def spares (cfg : XferSetup) : Action → Bool
  | .elsewhere x path _ => !(decide (x = cfg.receiver.other) && decide (path = cfg.sourcePath))
  | _ => true

theorem PutReads.step {path : String} {size : UInt64} (request : cfg.request = .put path size) (rests : PutRests cfg before t)
    (reads : PutReads cfg file t) {a : Action} (spared : spares cfg a = true) : PutReads cfg file (t.step cfg a) := by
  have client : cfg.receiver.other = .client := by rw [rests.upload]; rfl
  cases a with
  | turn io => exact reads.turn rests.client io
  | leave io => exact reads.leave rests.client io
  | fail => exact reads.fail rests.client
  | pump io => exact reads.still (rests.pump_still request io)
  | vanish => exact reads
  | poll x =>
    cases x with
    | client => exact reads
    | server => exact reads.still (.serve t _)
  | deliver x n => cases x <;> exact reads
  | lose x n => exact reads
  | elsewhere x other bytes =>
    simp only [Transfer.step]
    split
    · exact reads
    · cases x with
      | server => exact reads.still (.files t _)
      | client =>
        simp only [spares,client,decide_true,Bool.true_and,Bool.not_eq_true',decide_eq_false_iff_not] at spared
        unfold PutReads
        rw [setDisk_same]
        exact reads.elsewhere (Ne.symm spared) bytes

/-- The source that the server has open. -/
def serving (t : Transfer) : Option FileSource :=
  match t.xfer with
  | some (.get src) => some src
  | _ => none

/-- What the server has read for a download. -/
def GetReads (cfg : XferSetup) (file : Option Bytes) (t : Transfer) : Prop :=
  FileSource.Reads cfg.sourcePath file (t.disk .server) t.serving t.read t.eof

/-- What the file reads of the server depend on is as it was. -/
structure Aside (t t' : Transfer) : Prop where
  disk : t'.disk .server = t.disk .server
  xfer : t'.xfer = t.xfer
  read : t'.read = t.read
  eof : t'.eof = t.eof

theorem Aside.trans {t'' : Transfer} (first : Aside t t') (second : Aside t' t'') : Aside t t'' :=
  ⟨second.disk.trans first.disk,second.xfer.trans first.xfer,second.read.trans first.read,second.eof.trans first.eof⟩

theorem Aside.files (t : Transfer) (fs : FileSystem Path) : Aside t (t.setDisk .client fs) :=
  ⟨t.setDisk_other .server fs,rfl,rfl,rfl⟩

theorem Aside.giveUp (t : Transfer) (e : TransferError) : Aside t (t.giveUp e) := by
  unfold Transfer.giveUp
  dsimp only
  split
  · rename_i k _
    exact (Aside.files t (k.drop (t.disk .client))).trans ⟨rfl,rfl,rfl,rfl⟩
  · exact ⟨rfl,rfl,rfl,rfl⟩

theorem Aside.download (t : Transfer) (io : DiskIo) : Aside t (t.download io) := by
  unfold Transfer.download
  split
  · rename_i k _
    generalize k.drain .client ((t.link.mux .client).recvBuffered xferId + 1) io.room t.link (t.disk .client) = drained
    have stored : Aside t { t.setDisk .client drained.2.2.1 with link := drained.2.1, sink := some drained.2.2.2 } :=
      (Aside.files t drained.2.2.1).trans ⟨rfl,rfl,rfl,rfl⟩
    dsimp only
    split
    · exact stored.trans (.giveUp _ _)
    split
    · exact stored.trans ⟨rfl,rfl,rfl,rfl⟩
    · exact stored
  · exact ⟨rfl,rfl,rfl,rfl⟩

theorem Aside.turn (source : t.source = none) (io : DiskIo) : Aside t (t.turn io) := by
  unfold Transfer.turn
  split
  · have taken : Aside t { t with link := t.link.step (.takeEvents .client) } := ⟨rfl,rfl,rfl,rfl⟩
    have none : ({ t with link := t.link.step (.takeEvents .client) } : Transfer).source = none := source
    generalize ({ t with link := t.link.step (.takeEvents .client) } : Transfer) = u at taken none ⊢
    have upload : u.upload io = u := by simp only [Transfer.upload,none]
    dsimp only
    split
    · exact taken.trans (.giveUp u rejected)
    · rw [upload]
      exact taken.trans (.download u io)
  · exact ⟨rfl,rfl,rfl,rfl⟩

theorem Aside.leave (t : Transfer) (io : DiskIo) : Aside t (t.leave io) := by
  unfold Transfer.leave
  split
  · split
    · rename_i k _
      exact (Aside.files t (k.finalize (t.disk .client) io.syncs io.renames).2).trans ⟨rfl,rfl,rfl,rfl⟩
    · exact ⟨rfl,rfl,rfl,rfl⟩
  · exact ⟨rfl,rfl,rfl,rfl⟩

theorem Aside.fail (t : Transfer) : Aside t t.fail := by
  unfold Transfer.fail
  split
  · exact ⟨rfl,rfl,rfl,rfl⟩
  · exact .giveUp t .io

theorem GetReads.aside (reads : GetReads cfg file t) (aside : Aside t t') : GetReads cfg file t' := by
  unfold GetReads serving
  rw [aside.disk,aside.xfer,aside.read,aside.eof]
  exact reads

theorem GetReads.serve (reads : GetReads cfg file t) (a : Link.Action) : GetReads cfg file (t.serve a) :=
  serve_cases (GetReads cfg file) reads reads

/-- The server closes its source. -/
theorem GetReads.release (reads : GetReads cfg file t) :
    GetReads cfg file { t with xfer := none } := FileSource.Reads.close reads

theorem GetReads.dropXfer (get : Get cfg before pending t) (reads : GetReads cfg file t) : GetReads cfg file t.dropXfer := by
  unfold Transfer.dropXfer
  split
  · rename_i k held
    obtain ⟨src,same,_⟩ := get.server.serving _ held
    cases same
  · exact reads.release

theorem GetReads.handle {path : String} (request : cfg.request = .get path) {event : StreamEvent}
    (get : Get cfg before (event :: pending) t) (reads : GetReads cfg file t) (io : DiskIo) :
    GetReads cfg file (t.handleEvent cfg io event) := by
  unfold Transfer.handleEvent
  split
  · rename_i k metadata
    split
    · rename_i mine
      subst mine
      have unopened : Unopened (.opened xferId .fileTransfer metadata :: pending) t.link :=
        .inl (StreamEvent.any_opens List.mem_cons_self)
      obtain ⟨idle,unread,_⟩ := get.server.fresh unopened
      have label := (get.bond.labels .fileTransfer metadata (.head _)).2
      unfold Transfer.onOpened
      rw [label,XferRequest.parse_encode,request]
      split
      · exact reads.serve _
      · by_cases empty : (XferRequest.get path).path.isEmpty = true
        · rw [if_pos empty]
          exact reads.serve _
        · rw [if_neg empty]
          dsimp only
          split
          · rename_i src found
            rw [insertXfer_eq idle]
            have source : cfg.sourcePath = Path.ofString path := by rw [XferSetup.sourcePath,request]
            have closed := FileSource.Reads.close reads
            rw [unread] at closed
            have opened := closed.opened (source ▸ found)
            rw [← unread] at opened
            exact opened
          · exact reads.serve _
    · exact reads
  · split
    · exact reads.dropXfer get
    · exact reads
  · exact reads

theorem GetReads.pumpGet (reads : GetReads cfg file t) {src : FileSource} (held : t.xfer = some (.get src))
    (more : t.eof = false) (io : DiskIo) : GetReads cfg file (t.pumpGet src io) := by
  unfold Transfer.pumpGet
  split
  · split
    · exact (reads.serve _).release
    · rename_i data src' chunk
      have open_ : t.serving = some src := by rw [serving,held]
      unfold GetReads at reads
      rw [open_] at reads
      have next := reads.chunk (show 0 < Noissh.chunk by decide) chunk
      cases data with
      | nil =>
        rw [List.append_nil] at next
        have closed : GetReads cfg file { t with xfer := none, eof := true } := next.close
        exact serve_cases (fun u => GetReads cfg file { u with xfer := none, eof := true }) closed closed
      | cons b rest =>
        rw [List.isEmpty_cons,← more] at next
        have longer : GetReads cfg file { t with xfer := some (.get src'), read := t.read ++ b :: rest } := next
        exact serve_cases
          (fun u => GetReads cfg file { u with xfer := some (.get src'), read := t.read ++ b :: rest }) longer longer
  · exact reads

theorem GetReads.pump {path : String} (request : cfg.request = .get path) (rests : GetRests cfg before t)
    (reads : GetReads cfg file t) (io : DiskIo) : GetReads cfg file (t.pump cfg io) := by
  refine (pump_induct cfg io (fun pending t => Get cfg before pending t ∧ GetReads cfg file t)
    (fun event pending t both => ⟨both.1.handle request io,both.2.handle request both.1 io⟩)
    (fun t both taken session => ?_) (fun t both => ⟨both.1.dropXfer.1,both.2.dropXfer both.1⟩) ⟨rests.take,reads⟩).2
  unfold pumpXfer
  split
  · rename_i k held
    obtain ⟨src,same,_⟩ := both.1.server.serving _ held
    cases same
  · rename_i src held
    obtain ⟨src',same,_,_,more,_⟩ := both.1.server.serving _ held
    obtain ⟨get,events⟩ := both.1.pumpGet taken session held io
    exact ⟨⟨get,both.2.pumpGet held more io⟩,events⟩
  · exact ⟨both,taken⟩

theorem GetReads.step {path : String} (request : cfg.request = .get path) (rests : GetRests cfg before t)
    (reads : GetReads cfg file t) {a : Action} (spared : spares cfg a = true) : GetReads cfg file (t.step cfg a) := by
  have server : cfg.receiver.other = .server := by rw [rests.download]; rfl
  cases a with
  | turn io => exact reads.aside (.turn rests.client.source io)
  | leave io => exact reads.aside (.leave t io)
  | fail => exact reads.aside (.fail t)
  | pump io => exact reads.pump request rests io
  | vanish => exact reads
  | poll x =>
    cases x with
    | client => exact reads
    | server => exact reads.serve _
  | deliver x n => cases x <;> exact reads
  | lose x n => exact reads
  | elsewhere x other bytes =>
    simp only [Transfer.step]
    split
    · exact reads
    · cases x with
      | client => exact reads.aside (.files t _)
      | server =>
        simp only [spares,server,decide_true,Bool.true_and,Bool.not_eq_true',decide_eq_false_iff_not] at spared
        unfold GetReads
        rw [setDisk_same]
        exact FileSource.Reads.elsewhere reads (Ne.symm spared) bytes

/-- Nothing has been read yet. -/
theorem start_reads {fs : FileSystem Path} (unshared : fs.Unshared) (path : Path) :
    FileSource.Reads path (fs.read path) fs none [] false :=
  ⟨unshared,rfl,nofun,List.nil_prefix,nofun⟩

theorem start_putReads {disks : Side → Disk} {io : DiskIo} {path : String} {size : UInt64}
    (request : cfg.request = .put path size) :
    PutReads cfg ((disks .client).files.read cfg.sourcePath) (start cfg disks io) := by
  have nothing := start_reads (disks .client).unshared cfg.sourcePath
  have source : cfg.sourcePath = Path.ofString cfg.localPath := by rw [XferSetup.sourcePath,request]
  unfold start
  rw [request]
  dsimp only
  split
  · rename_i src found
    exact nothing.opened (source ▸ found)
  · rw [giveUp_eq rfl]
    exact nothing

theorem start_getReads {disks : Side → Disk} {io : DiskIo} {path : String} (request : cfg.request = .get path) :
    GetReads cfg ((disks .server).files.read cfg.sourcePath) (start cfg disks io) := by
  have begun : ∀ t : Transfer, t.disk .server = (disks .server).files → t.xfer = none → t.read = [] → t.eof = false →
      GetReads cfg ((disks .server).files.read cfg.sourcePath) t := by
    intro t disk xfer read eof
    unfold GetReads serving
    rw [disk,xfer,read,eof]
    exact start_reads (disks .server).unshared cfg.sourcePath
  unfold start
  rw [request]
  dsimp only
  split
  · refine begun _ ?_ rfl rfl rfl
    simp [setDisk]
  · rw [giveUp_eq rfl]
    exact begun _ rfl rfl rfl rfl

/-- If no other program writes the file that is asked for, what a transfer has read is what the file
begins with, and the whole file where a read came to its end; and a transfer that reports success
has copied it. -/
theorem source_copied (cfg : XferSetup) (disks : Side → Disk) (io : DiskIo) (schedule : List Action)
    (spared : Machine.Along (step cfg) (fun _ a => spares cfg a = true) schedule (start cfg disks io)) :
    let t := Machine.run (step cfg) schedule (start cfg disks io)
    let file := (disks cfg.receiver.other).files.read cfg.sourcePath
    t.read <+: (file.getD []).take FileSystem.maxOffset ∧
      (t.eof = true → file.map (List.take FileSystem.maxOffset) = some t.read) ∧
      (t.phase = .returned (.ok ()) →
        (t.disk cfg.receiver).read cfg.dest = file.map (List.take FileSystem.maxOffset)) := by
  intro t file
  obtain ⟨src,exact,reads⟩ : ∃ src, t.Exact cfg ((disks cfg.receiver).files.read cfg.dest) ∧
      FileSource.Reads cfg.sourcePath file (t.disk cfg.receiver.other) src t.read t.eof := by
    cases request : cfg.request with
    | put path size =>
      have server : cfg.receiver = .server := by simp [XferSetup.receiver,request]
      obtain ⟨rests,reads⟩ := Machine.run_invariant
        (fun t => PutRests cfg ((disks .server).files.read cfg.dest) t ∧
          PutReads cfg ((disks .client).files.read cfg.sourcePath) t)
        (fun t a both spared => ⟨both.1.step request a,both.2.step request both.1 spared⟩) schedule (start cfg disks io)
        ⟨start_put request,start_putReads request⟩ spared
      rw [show file = (disks .client).files.read cfg.sourcePath by simp [file,server,Side.other],server]
      exact ⟨_,rests.exact,reads⟩
    | get path =>
      have client : cfg.receiver = .client := by simp [XferSetup.receiver,request]
      obtain ⟨rests,reads⟩ := Machine.run_invariant
        (fun t => GetRests cfg ((disks .client).files.read cfg.dest) t ∧
          GetReads cfg ((disks .server).files.read cfg.sourcePath) t)
        (fun t a both spared => ⟨both.1.step request a,both.2.step request both.1 spared⟩) schedule (start cfg disks io)
        ⟨start_get request,start_getReads request⟩ spared
      rw [show file = (disks .server).files.read cfg.sourcePath by simp [file,client,Side.other],client]
      exact ⟨_,rests.exact,reads⟩
  refine ⟨reads.begins,reads.whole,fun returned => ?_⟩
  obtain ⟨eof,copied,_⟩ := exact.success returned
  rw [copied,reads.whole eof]

/-- The transfer reports success. -/
def succeeded : Phase → Bool
  | .returned (.ok _) => true
  | _ => false

theorem eq_of_succeeded {phase : Phase} (well : succeeded phase = true) : phase = .returned (.ok ()) := by
  cases phase with
  | returned result =>
    cases result with
    | ok => rfl
    | error => cases well
  | _ => cases well

theorem source_copied_notes :
    let t := Machine.run (step sendNotes) notesSent (start sendNotes notesDisks {})
    t.phase = .returned (.ok ()) ∧ t.read <+: [1,2,3] ∧ (t.disk .server).read sendNotes.dest = some [1,2,3] := by
  have asked : (notesDisks sendNotes.receiver.other).files.read sendNotes.sourcePath = some [1,2,3] := by decide +kernel
  obtain ⟨begins,_,copies⟩ := source_copied sendNotes notesDisks {} notesSent (by decide +kernel)
  rw [asked] at begins copies
  have returned : (Machine.run (step sendNotes) notesSent (start sendNotes notesDisks {})).phase = .returned (.ok ()) :=
    eq_of_succeeded (by decide +kernel)
  exact ⟨returned,begins,copies returned⟩

end Transfer
end Noissh

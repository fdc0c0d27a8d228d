import Noissh.GetSafety
import Noissh.PutSafety

/-! A file transfer that reports success is exact, and one that does not complete leaves the
destination alone. -/
namespace Noissh

open Files

namespace Transfer

variable {cfg : XferSetup} {disks : Side → Disk} {io : DiskIo}

/-- The session when the client has opened its stream. -/
def opened (cfg : XferSetup) : Link := Link.start.step (.openStream .client .fileTransfer cfg.request.encode)

theorem opened_lane (cfg : XferSetup) : (opened cfg).lane xferId =
    Lane.onSide (Link.start.lane xferId) .client (.openStream xferId .fileTransfer cfg.request.encode) := by
  unfold opened
  rw [Link.lane_step Link.start_keyed]
  rfl

theorem opened_bond (cfg : XferSetup) : Bond cfg ((opened cfg).mux .server).events (opened cfg) := by
  refine ⟨Link.step_safe Link.start_safe _,Link.step_announced Link.start_safe Link.start_announced _,?_,?_,by rintro _ _ ⟨⟩⟩
  · exact ⟨by rintro _ ⟨⟩,fun _ => Nat.zero_le _,by rintro _ _ ⟨⟩⟩
  · rw [opened_lane]
    refine ⟨?_,fun s held _ => ?_,fun kind metadata member => ?_⟩
    · rw [Lane.onSide_same]
      rfl
    · rw [Lane.onSide_same] at held
      cases held
      exact ⟨rfl,rfl⟩
    · rw [Lane.onSide_same] at member
      cases member

theorem opened_waiting (cfg : XferSetup) : Waiting ((opened cfg).mux .server).events (opened cfg) where
  unread _ := ⟨rfl,rfl⟩
  opening first kind metadata rest split := by
    have none : ((opened cfg).mux .server).events = [] := rfl
    rw [none] at split
    simp at split

theorem opened_silent (cfg : XferSetup) : (opened cfg).Silent .server xferId := by
  unfold Link.Silent
  rw [opened_lane]
  refine ⟨fun s held _ => ?_,fun f member => ?_,fun s held => ?_⟩
  · rw [Lane.onSide_ne _ _ (show Side.server ≠ .client by decide)] at held
    simp [Link.lane,Link.start,Link.stream,StreamMux.new] at held
  · rw [Lane.onSide_ne _ _ (show Side.server ≠ .client by decide)] at member
    simp [Link.lane,Link.start] at member
  · rw [show Side.server.other = .client from rfl,Lane.onSide_same] at held
    cases held
    exact ⟨rfl,rfl⟩

theorem opened_awake (cfg : XferSetup) : (opened cfg).Awake .client xferId ((opened cfg).mux .client).events := by
  have stream := congrArg Endpoint.stream (congrFun (opened_lane cfg) .client)
  rw [Lane.onSide_same] at stream
  exact .inr ⟨_,stream,rfl⟩

theorem start_put {path : String} {size : UInt64} (request : cfg.request = .put path size) :
    PutRests cfg ((disks .server).files.read cfg.dest) (start cfg disks io) := by
  have upload : cfg.receiver = .server := by simp [XferSetup.receiver,request]
  have server : ∀ t : Transfer, t.link = opened cfg → t.disk .server = (disks .server).files → t.xfer = none →
      t.landed = false → PutServer cfg ((disks .server).files.read cfg.dest) (t.link.mux .server).events t := by
    intro t link disk xfer landed
    refine ⟨?_,fun _ => ⟨xfer,landed⟩,?_,.inr ?_,?_,?_,?_,fun busy => absurd xfer busy⟩
    · rw [link]; exact opened_waiting cfg
    · rw [disk]; exact (disks .server).unshared
    · rw [link]; exact opened_silent cfg
    · rw [landed]; simp
    · rw [disk]; exact fun _ => rfl
    · rw [xfer]; simp
  have sent : ∀ t : Transfer, t.link = opened cfg → t.read = [] → Sent cfg t := by
    intro t link read
    refine ⟨?_,fun n closed => ?_⟩
    · rw [link,read]; rfl
    · rw [link] at closed
      cases closed
  have bond := opened_bond cfg
  unfold start
  rw [request]
  dsimp only
  split
  · rename_i src found
    refine ⟨upload,?_,sent _ ?_ rfl,server _ ?_ rfl rfl rfl,⟨rfl,fun src' same _ => ?_,rfl,fun _ => .inr ?_,?_⟩⟩
    · rw [← request]; exact bond
    · rw [← request]; rfl
    · rw [← request]; rfl
    · cases same
      rw [FileSource.openFile_offset found]
      exact ⟨rfl,Nat.zero_le _⟩
    · rw [← request]; exact opened_awake cfg
    · rintro (here | here) <;> cases here
  · rw [giveUp_eq rfl]
    refine ⟨upload,?_,sent _ ?_ rfl,server _ ?_ rfl rfl rfl,⟨rfl,by simp,rfl,by simp,?_⟩⟩
    · rw [← request]; exact bond
    · rw [← request]; rfl
    · rw [← request]; rfl
    · rintro (here | here) <;> cases here

theorem start_get {path : String} (request : cfg.request = .get path) :
    GetRests cfg ((disks .client).files.read cfg.dest) (start cfg disks io) := by
  have download : cfg.receiver = .client := by simp [XferSetup.receiver,request]
  have dest : cfg.dest = Path.ofString cfg.localPath := by simp [XferSetup.dest,request]
  have peer : ∀ t : Transfer, t.link = opened cfg → t.read = [] → t.eof = false → t.xfer = none → GetPeer cfg t := by
    intro t link read more xfer
    refine ⟨download,?_,⟨?_,fun n closed => ?_⟩,⟨?_,fun _ => ⟨xfer,read,more⟩,?_⟩⟩
    · rw [link]; exact opened_bond cfg
    · rw [link,read]; rfl
    · rw [link] at closed
      cases closed
    · rw [link]; exact opened_waiting cfg
    · rw [xfer]; simp
  have unshared := (disks .client).unshared
  unfold start
  rw [request]
  dsimp only
  rw [← dest]
  cases io.opens with
  | false =>
    rw [show (FileSink.create (cfg.pid .client) (disks .client).files cfg.dest false).1 = none from rfl]
    dsimp only
    rw [giveUp_eq rfl]
    refine GetPeer.rests (peer _ ?_ rfl rfl rfl) ⟨rfl,unshared,fun _ => rfl,by simp,by simp,by simp,fun _ _ => rfl⟩
    rw [← request]
    rfl
  | true =>
    obtain ⟨k,created,holds,same⟩ :=
      FileSink.create_holds (show FileSink.Unlinked (cfg.pid .client) cfg.dest _ from FileSink.unlinked_of_unshared unshared)
    rw [created]
    dsimp only
    refine GetPeer.rests (peer _ ?_ rfl rfl rfl) ⟨rfl,?_,fun _ => ?_,fun _ => ⟨k,rfl,?_,rfl,?_⟩,
      by rintro ⟨⟩,by rintro ⟨⟩,by rintro _ ⟨⟩⟩
    · rw [← request]
      rfl
    · dsimp only
      rw [setDisk_same]
      exact FileSink.create_unshared unshared true
    · dsimp only
      rw [setDisk_same]
      exact same
    · dsimp only
      rw [setDisk_same]
      exact holds
    · rw [← request]
      exact opened_awake cfg

/-- A success is exact, and at no moment does the destination hold anything but what it held
before or the complete new content. -/
structure Exact (cfg : XferSetup) (before : Option Bytes) (t : Transfer) : Prop where
  success : t.phase = .returned (.ok ()) → t.eof = true ∧ (t.disk cfg.receiver).read cfg.dest = some t.read ∧
    (cfg.receiver = .server → t.landed = true)
  whole : (t.disk cfg.receiver).read cfg.dest = before ∨
    t.eof = true ∧ (t.disk cfg.receiver).read cfg.dest = some t.read

theorem PutRests.exact {before : Option Bytes} {t : Transfer} (rests : PutRests cfg before t) : t.Exact cfg before := by
  refine ⟨fun returned => ?_,?_⟩ <;> rw [rests.upload]
  · have landed := rests.client.done (.inr returned)
    obtain ⟨eof,reads⟩ := rests.server.landed landed
    exact ⟨eof,reads,fun _ => landed⟩
  · cases landed : t.landed with
    | true => exact .inr (rests.server.landed landed)
    | false => exact .inl (rests.server.untouched landed)

theorem GetRests.exact {before : Option Bytes} {t : Transfer} (rests : GetRests cfg before t) : t.Exact cfg before := by
  refine ⟨fun returned => ?_,?_⟩ <;> rw [rests.download]
  · obtain ⟨eof,reads⟩ := rests.client.done returned
    exact ⟨eof,reads,by simp⟩
  · by_cases returned : t.phase = .returned (.ok ())
    · exact .inr (rests.client.done returned)
    · exact .inl (rests.client.untouched returned)

end Transfer

/-- In every run, whatever is asked for and however the disks, the link and the session behave. -/
theorem transfer_exact (cfg : XferSetup) (disks : Side → Disk) (io : DiskIo) (schedule : List Transfer.Action) :
    (Machine.run (Transfer.step cfg) schedule (Transfer.start cfg disks io)).Exact cfg
      ((disks cfg.receiver).files.read cfg.dest) := by
  cases request : cfg.request with
  | put path size =>
    have server : cfg.receiver = .server := by simp [XferSetup.receiver,request]
    have rests := Machine.run_invariant_always (Transfer.PutRests cfg ((disks .server).files.read cfg.dest))
      (fun t a rests => rests.step request a) schedule (Transfer.start cfg disks io) (Transfer.start_put request)
    rw [server]
    exact rests.exact
  | get path =>
    have client : cfg.receiver = .client := by simp [XferSetup.receiver,request]
    have rests := Machine.run_invariant_always (Transfer.GetRests cfg ((disks .client).files.read cfg.dest))
      (fun t a rests => rests.step request a) schedule (Transfer.start cfg disks io) (Transfer.start_get request)
    rw [client]
    exact rests.exact

namespace Transfer

/-- A disk with one file, or none. -/
def oneFile (file : Option (Path × Bytes)) : Disk where
  files := {
    entries := fun path => if (file.map Prod.fst) = some path then some 0 else none
    contents := fun _ => (file.map Prod.snd).getD []
    next := 1
    numbered := by
      intro path found here
      split at here
      · cases here
        exact Nat.lt_succ_self 0
      · cases here }
  unshared := by
    intro path other found here there
    dsimp only at here there
    split at here
    · split at there
      · rename_i first second
        exact Option.some.inj (first.symm.trans second)
      · cases there
    · cases here

def sendNotes : XferSetup := ⟨.put "/srv/notes" 3,"notes",fun _ => 7,false⟩

def notesDisks : Side → Disk
  | .client => oneFile (some (Path.ofString "notes",[1,2,3]))
  | .server => oneFile (some (Path.ofString "/srv/notes",[9]))

/-- The opening, two passes of the client, its frames in another order, and the server's answer. -/
def notesSent : List Action :=
  [.poll .client,.deliver .client 0,.pump {},.turn {},.turn {},.poll .client,
    .deliver .client 1,.deliver .client 1,.deliver .client 0,.deliver .client 0,.pump {},.poll .server,
    .deliver .server 0,.deliver .server 0,.deliver .server 0,.turn {},.leave {}]

example : let t := Machine.run (step sendNotes) notesSent (start sendNotes notesDisks {})
    (t.disk .server).read sendNotes.dest = some [1,2,3] ∧ (t.phase matches .returned (.ok ())) = true := by decide +kernel

end Transfer
end Noissh

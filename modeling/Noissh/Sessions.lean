import Noissh.Peers

/-! What the server's calls do at the ends of its sessions: each session in reach of a call makes
a few steps of its own end, is begun or is dropped, and no other is touched. -/
namespace Noissh

variable {snow : Snow} {em : Emulator} {login : Login}

namespace ServerSession

/-- One session's steps at its end. -/
def Moves (bufs : Bytes → Prop) (s t : ServerSession snow em login) (packets : List Bytes) (frames opens : List Frame) : Prop :=
  Peer.Reaches bufs s.session t.session s.mux t.mux packets frames opens

variable {s t u : ServerSession snow em login} {bufs : Bytes → Prop} {packets packets' : List Bytes}
  {frames frames' opens opens' : List Frame}

theorem Moves.same (session : t.session = s.session) (mux : t.mux = s.mux) : s.Moves bufs t [] [] [] := by
  unfold Moves
  rw [session,mux]
  exact .refl bufs s.session s.mux

theorem Moves.trans (first : s.Moves bufs t packets frames opens) (second : t.Moves bufs u packets' frames' opens') :
    s.Moves bufs u (packets ++ packets') (frames ++ frames') (opens ++ opens') := Peer.Reaches.trans first second

/-- Sealing spends nonces, and changes nothing else of a session. -/
theorem sealTo_next (s : ServerSession snow em login) (frames : List Frame) :
    ∃ n, (s.sealTo frames).2 = { s with session := { s.session with sendNonce := n } } := by
  unfold sealTo
  split
  · exact ⟨s.session.sendNonce,rfl⟩
  · exact ⟨_,by rw [← s.session.sealFrames_next frames]⟩

theorem addressed_nil (s : ServerSession snow em login) : s.addressed [] = [] := by
  unfold addressed
  split <;> rfl

theorem addressed_congr (peer : t.session.peerAddr = s.session.peerAddr) (frames : List Frame) :
    t.addressed frames = s.addressed frames := by
  unfold addressed
  rw [peer]

theorem sealTo_moves (s : ServerSession snow em login) {frame : Frame} (unnamed : frame.streamId = none) :
    s.Moves (fun _ => False) (s.sealTo [frame]).2 ((s.sealTo [frame]).1.toList.map Prod.snd) (s.addressed [frame]) [] := by
  unfold sealTo addressed
  cases known : s.session.peerAddr with
  | none => exact .same rfl rfl
  | some addr =>
    have sent := Peer.reaches_sendOne (fun _ => False) s.session s.mux unnamed
    dsimp only
    cases out : (s.session.sealFrames [frame]).1 with
    | error e => rw [out] at sent; exact sent
    | ok packet => rw [out] at sent; exact sent

/-- The session but for its nonces, and whether the version was sent. -/
theorem announceVersion_next (s : ServerSession snow em login) :
    ∃ n sent, s.announceVersion.2 = { s with session := { s.session with sendNonce := n }, versionSent := sent } := by
  unfold announceVersion
  split
  · exact ⟨s.session.sendNonce,s.versionSent,rfl⟩
  · obtain ⟨n,next⟩ := s.sealTo_next [.control (ControlMsg.serverVersion pkgVersion).encode]
    dsimp only
    rw [next]
    exact ⟨n,_,rfl⟩

theorem announceVersion_moves (s : ServerSession snow em login) :
    s.Moves (fun _ => False) s.announceVersion.2 (s.announceVersion.1.map Prod.snd) s.versionFrames [] := by
  unfold announceVersion versionFrames
  split
  · exact .same rfl rfl
  · exact s.sealTo_moves rfl

theorem emitDiff_next (s : ServerSession snow em login) :
    ∃ n shell, s.emitDiff.2 = { s with session := { s.session with sendNonce := n }, shell } := by
  unfold emitDiff
  split
  · dsimp only
    split
    · exact ⟨s.session.sendNonce,_,rfl⟩
    · rename_i frame _
      obtain ⟨n,next⟩ := sealTo_next { s with shell := some (ServerShell.pollDiff _).2 } [frame]
      rw [next]
      exact ⟨n,_,rfl⟩
  · exact ⟨s.session.sendNonce,s.shell,rfl⟩

theorem pollDiff_unnamed {shell : ServerShell em} {frame : Frame} (polled : shell.pollDiff.1 = some frame) :
    frame.streamId = none := by
  unfold ServerShell.pollDiff at polled
  dsimp only at polled
  split at polled <;> cases polled
  rfl

theorem emitDiff_moves (s : ServerSession snow em login) :
    s.Moves (fun _ => False) s.emitDiff.2 (s.emitDiff.1.map Prod.snd)
      (s.addressed (s.shell.elim [] (fun shell => shell.pollDiff.1.toList))) [] := by
  unfold emitDiff
  split
  · rename_i shell addr held known
    dsimp only
    rw [held,Option.elim_some]
    split
    · rename_i none
      rw [none,Option.toList_none,addressed_nil]
      exact .same rfl rfl
    · rename_i frame polled
      have sent := sealTo_moves { s with shell := some shell.pollDiff.2 } (pollDiff_unnamed polled)
      rw [polled]
      exact sent
  · rename_i lacks
    have nothing : s.addressed (s.shell.elim [] (fun shell => shell.pollDiff.1.toList)) = [] := by
      unfold addressed
      split
      · rename_i known
        obtain ⟨addr,known⟩ := Option.isSome_iff_exists.mp known
        cases held : s.shell with
        | none => rfl
        | some shell => exact (lacks shell addr held known).elim
      · rfl
    rw [nothing]
    exact .same rfl rfl

theorem emitStreams_next (s : ServerSession snow em login) :
    ∃ n mux, s.emitStreams.2.2 = { s with session := { s.session with sendNonce := n }, mux } := by
  unfold emitStreams
  dsimp only
  split
  · exact ⟨s.session.sendNonce,_,rfl⟩
  split
  · exact ⟨s.session.sendNonce,_,rfl⟩
  · have next := s.session.sealMany_next s.mux.pollTransmit.2 maxDatagramPlaintext
    split <;> rename_i sealed_ <;> rw [sealed_] at next <;> exact ⟨_,_,by rw [← next]⟩

theorem emitStreams_moves (s : ServerSession snow em login) :
    s.Moves (fun _ => False) s.emitStreams.2.2 (s.emitStreams.1.map Prod.snd) s.mux.pollTransmit.2 [] := by
  have taken := Peer.reaches_takeEvents (fun _ => False) s.session s.mux.pollTransmit.1
  have dropped := (Peer.reaches_dropped (fun _ => False) s.session s.mux).trans taken
  have polled := (Peer.reaches_poll (fun _ => False) s.session s.mux [] (fun _ member => absurd member List.not_mem_nil)).trans
    (Peer.reaches_takeEvents (fun _ => False) _ s.mux.pollTransmit.1)
  simp only [List.append_nil,List.nil_append] at dropped polled
  unfold emitStreams
  dsimp only
  split
  · exact dropped
  split
  · exact dropped
  · split <;> rename_i sealed_ <;> rw [sealed_] at polled
    · exact polled
    · rename_i packets session
      have same : (packets.map (fun packet => (‹SocketAddr›,packet))).map Prod.snd = packets := by simp
      unfold Moves
      rw [same]
      exact polled

theorem detectExit_moves (s : ServerSession snow em login) : s.Moves (fun _ => False) s.detectExit [] [] [] := by
  unfold detectExit
  split
  · split <;> exact .same rfl rfl
  · exact .same rfl rfl

theorem detectExit_session (s : ServerSession snow em login) : s.detectExit.session = s.session := by
  unfold detectExit
  split
  · split <;> rfl
  · rfl

theorem noticeExit_moves (s : ServerSession snow em login) :
    s.Moves (fun _ => False) s.noticeExit.2.2 (s.noticeExit.1.map Prod.snd)
      (s.addressed (s.exitStatus.elim [] (fun status => [.control (ControlMsg.exit status).encode]))) [] := by
  unfold noticeExit
  cases found : s.exitStatus with
  | none =>
    rw [Option.elim_none,addressed_nil]
    exact .same rfl rfl
  | some status => exact s.sealTo_moves rfl

theorem detectExit_congr (status : t.exitStatus = s.exitStatus) (pty : t.pty = s.pty) :
    t.detectExit.exitStatus = s.detectExit.exitStatus := by
  unfold detectExit
  rw [status,pty]
  split
  · split <;> rfl
  · exact status

/-- A tick seals the frames of the tick, and hands out what was sealed. -/
theorem tick_moves (s : ServerSession snow em login) :
    s.Moves (fun _ => False) s.tick.2.2.2 (s.tick.1.map Prod.snd) s.tickFrames [] := by
  unfold tick tickFrames
  dsimp only
  by_cases late : idleReapTicks ≤ min (s.idleTicks + 1) u32Max ∧ s.exitStatus.isNone = true
  · have reaped : s.reaped = true := by
      simp only [reaped,late.2,Bool.and_true,decide_eq_true_eq]
      omega
    rw [if_pos late,if_pos reaped]
    exact .same rfl rfl
  · have kept : ¬s.reaped = true := by
      simp only [reaped,Bool.and_eq_true,decide_eq_true_eq]
      rintro ⟨long,running⟩
      refine late ⟨?_,running⟩
      have : idleReapTicks ≤ u32Max := by decide
      omega
    rw [if_neg late,if_neg kept]
    generalize aged : ({ s with idleTicks := min (s.idleTicks + 1) u32Max } : ServerSession snow em login) = s₀
    have zero : s₀.versionFrames = s.versionFrames := by rw [← aged]; rfl
    have version := s₀.announceVersion_moves
    obtain ⟨n,sent,announced⟩ := s₀.announceVersion_next
    generalize s₀.announceVersion.1 = versionOut at version ⊢
    generalize s₀.announceVersion.2 = s₁ at version announced ⊢
    -- The terminal's output is read: the screen and the terminal are those of the tick's start.
    obtain ⟨screen,terminal⟩ := drainPty_congr (s := s) (t := s₁) (by rw [announced,← aged]) (by rw [announced,← aged])
    have drained := s₁.drainPty_next
    generalize s₁.drainPty = s₂ at screen terminal drained ⊢
    have read : s₁.Moves (fun _ => False) s₂ [] [] [] := .same (by rw [drained]) (by rw [drained])
    have diff := s₂.emitDiff_moves
    obtain ⟨n',shell,polled⟩ := s₂.emitDiff_next
    generalize s₂.emitDiff.1 = diffOut at diff ⊢
    generalize s₂.emitDiff.2 = s₃ at diff polled ⊢
    have streams := s₃.emitStreams_moves
    obtain ⟨n'',mux,flushed⟩ := s₃.emitStreams_next
    generalize s₃.emitStreams.1 = streamsOut at streams ⊢
    generalize s₃.emitStreams.2.1 = events
    generalize s₃.emitStreams.2.2 = s₄ at streams flushed ⊢
    have found : s₄.detectExit.exitStatus = s.foundStatus := by
      refine detectExit_congr (s := s.drainPty) ?_ ?_
      · rw [flushed,polled,drained,announced,← aged,drainPty_exitStatus]
      · rw [flushed,polled]
        exact terminal
    have exit := s₄.detectExit_moves.trans (s₄.detectExit.noticeExit_moves)
    have begun : s.Moves (fun _ => False) s₀ [] [] [] := .same (by rw [← aged]) (by rw [← aged])
    have all := (((begun.trans version).trans read).trans diff).trans (streams.trans exit)
    have here : ∀ frames, s₂.addressed frames = s.addressed frames := addressed_congr (by rw [drained,announced,← aged])
    have there : ∀ frames, s₄.detectExit.addressed frames = s.addressed frames := by
      refine addressed_congr ?_
      rw [detectExit_session,flushed,polled,drained,announced,← aged]
    rw [zero,here,there,found,screen,show s₃.mux = s.mux by rw [polled,drained,announced,← aged]] at all
    simp only [List.append_nil,List.nil_append,← List.append_assoc,← List.map_append] at all
    exact all

/-- What the child's end changes. -/
theorem detectExit_next (s : ServerSession snow em login) :
    s.detectExit = { s with exitStatus := s.detectExit.exitStatus, pty := s.detectExit.pty } := by
  unfold detectExit
  split
  · split <;> rfl
  · rfl

theorem noticeExit_next (s : ServerSession snow em login) :
    ∃ n ticks, s.noticeExit.2.2 = { s with session := { s.session with sendNonce := n }, exitTicks := ticks } := by
  unfold noticeExit
  split
  · exact ⟨s.session.sendNonce,s.exitTicks,rfl⟩
  · rename_i status _
    obtain ⟨n,next⟩ := s.sealTo_next [.control (ControlMsg.exit status).encode]
    dsimp only
    rw [next]
    exact ⟨n,_,rfl⟩

/-- The screen after it was polled, which it is while the client's address is known. -/
def polledShell (s : ServerSession snow em login) : Option (ServerShell em) :=
  if s.session.peerAddr.isSome then s.drainPty.shell.map (fun shell => shell.pollDiff.2) else s.drainPty.shell

theorem emitDiff_shell (s : ServerSession snow em login) :
    s.emitDiff.2.shell = if s.session.peerAddr.isSome then s.shell.map (fun shell => shell.pollDiff.2) else s.shell := by
  unfold emitDiff
  split
  · rename_i shell addr held known
    dsimp only
    rw [held,known,Option.isSome_some,if_pos rfl,Option.map_some]
    split
    · rfl
    · rename_i frame _
      obtain ⟨n,next⟩ := sealTo_next { s with shell := some shell.pollDiff.2 } [frame]
      rw [next]
  · rename_i lacks
    split
    · rename_i known
      obtain ⟨addr,known⟩ := Option.isSome_iff_exists.mp known
      cases held : s.shell with
      | none => rfl
      | some shell => exact (lacks shell addr held known).elim
    · rfl

/-- A tick leaves the typed bytes, polls the screen and keeps the status it finds. -/
theorem tick_shell (s : ServerSession snow em login) :
    s.tick.2.2.2.typed = s.typed ∧ (s.tick.2.2.2.shell = if s.reaped then s.shell else s.polledShell) ∧
      s.tick.2.2.2.exitStatus = if s.reaped then s.exitStatus else s.foundStatus := by
  unfold tick
  dsimp only
  by_cases late : idleReapTicks ≤ min (s.idleTicks + 1) u32Max ∧ s.exitStatus.isNone = true
  · have reaped : s.reaped = true := by
      simp only [reaped,late.2,Bool.and_true,decide_eq_true_eq]
      omega
    rw [if_pos late,if_pos reaped,if_pos reaped]
    exact ⟨rfl,rfl,rfl⟩
  · have kept : ¬s.reaped = true := by
      simp only [reaped,Bool.and_eq_true,decide_eq_true_eq]
      rintro ⟨long,running⟩
      refine late ⟨?_,running⟩
      have : idleReapTicks ≤ u32Max := by decide
      omega
    rw [if_neg late,if_neg kept,if_neg kept]
    generalize aged : ({ s with idleTicks := min (s.idleTicks + 1) u32Max } : ServerSession snow em login) = s₀
    obtain ⟨n,sent,announced⟩ := s₀.announceVersion_next
    generalize s₀.announceVersion.2 = s₁ at announced ⊢
    obtain ⟨screen,terminal⟩ := drainPty_congr (s := s) (t := s₁) (by rw [announced,← aged]) (by rw [announced,← aged])
    have drained := s₁.drainPty_next
    generalize s₁.drainPty = s₂ at screen terminal drained ⊢
    have diff := s₂.emitDiff_shell
    obtain ⟨n',shell,polled⟩ := s₂.emitDiff_next
    generalize s₂.emitDiff.2 = s₃ at diff polled ⊢
    obtain ⟨n'',mux,flushed⟩ := s₃.emitStreams_next
    generalize s₃.emitStreams.2.2 = s₄ at flushed ⊢
    have found : s₄.detectExit.exitStatus = s.foundStatus := by
      refine detectExit_congr (s := s.drainPty) ?_ ?_
      · rw [flushed,polled,drained,announced,← aged,drainPty_exitStatus]
      · rw [flushed,polled]
        exact terminal
    have exited := s₄.detectExit_next
    generalize s₄.detectExit = s₅ at found exited ⊢
    obtain ⟨k,ticks,noticed⟩ := s₅.noticeExit_next
    have peer : s₂.session.peerAddr = s.session.peerAddr := by rw [drained,announced,← aged]
    refine ⟨by rw [noticed,exited,flushed,polled,drained,announced,← aged],?_,?_⟩
    · rw [show s₅.noticeExit.2.2.shell = s₃.shell from by rw [noticed,exited,flushed],diff,peer,screen]
      rfl
    · rw [show s₅.noticeExit.2.2.exitStatus = s₅.exitStatus from by rw [noticed],found]

/-- Everything one frame can do to the session it is for, with the frames that answer it. -/
inductive Takes (s : ServerSession snow em login) : Frame → ServerSession snow em login → List Frame → Prop
  | input (offset : Nat) (data : Bytes) : Takes s (.input offset data) (s.onInput offset data).2 (s.onInput offset data).1
  | ack (seq : Nat) : Takes s (.ack seq) (s.onStateAck seq) []
  | shell (data : Bytes) (asked : ServerCore.asks (.control data) = true) (cols rows : UInt16) (pty : login.Handle)
    (bare : s.pty = none) : Takes s (.control data) { s with
      rows
      cols
      shell := some (.new em rows.toNat cols.toNat)
      pty := some pty
      typed := [] } []
  | resize (data : Bytes) (cols rows : UInt16) : Takes s (.control data) (s.resize cols rows) []
  | bye (data : Bytes) : Takes s (.control data) s.bye []
  | control (data : Bytes) : Takes s (.control data) s []
  | ping (stamp : Nat) : Takes s (.ping stamp) s [.pong stamp]
  | stream (frame : Frame) : Takes s frame { s with mux := s.mux.onFrame frame } []

/-- The frames of a packet, one after the other, each of which meets the guard. -/
inductive TakesAll (p : ServerSession snow em login → Frame → Bool) :
    ServerSession snow em login → List Frame → ServerSession snow em login → List Frame → Prop
  | nil (s : ServerSession snow em login) : TakesAll p s [] s []
  | cons {s t u : ServerSession snow em login} {frame : Frame} {frames answers answers' : List Frame}
      (meets : p s frame = true) :
    Takes s frame t answers → TakesAll p t frames u answers' → TakesAll p s (frame :: frames) u (answers ++ answers')

theorem onInput_kept (s : ServerSession snow em login) (offset : Nat) (data : Bytes) :
    (s.onInput offset data).2.session = s.session ∧ (s.onInput offset data).2.mux = s.mux ∧
      ∀ frame ∈ (s.onInput offset data).1, ∃ seq, frame = .ack seq := by
  unfold onInput
  split
  · exact ⟨rfl,rfl,fun _ member => absurd member List.not_mem_nil⟩
  · dsimp only
    split <;> exact ⟨rfl,rfl,fun frame member => ⟨_,List.mem_singleton.mp member⟩⟩

/-- The session itself stays, its streams see the frame, and it is answered by frames of none. -/
theorem Takes.kept {frame : Frame} {answers : List Frame} (takes : s.Takes frame t answers) :
    t.session = s.session ∧ t.mux = s.mux.onFrame frame ∧ ∀ answer ∈ answers, answer.streamId = none := by
  have nothing : ∀ answer ∈ ([] : List Frame), answer.streamId = none := fun _ member => absurd member List.not_mem_nil
  cases takes with
  | input offset data =>
    obtain ⟨session,mux,acks⟩ := s.onInput_kept offset data
    refine ⟨session,mux,fun answer member => ?_⟩
    obtain ⟨seq,rfl⟩ := acks answer member
    rfl
  | ping stamp => exact ⟨rfl,rfl,fun answer member => by rw [List.mem_singleton.mp member]; rfl⟩
  | _ => exact ⟨rfl,rfl,nothing⟩

theorem TakesAll.kept {p : ServerSession snow em login → Frame → Bool} {answers : List Frame}
    (takes : TakesAll p s frames t answers) :
    t.session = s.session ∧ t.mux = frames.foldl StreamMux.onFrame s.mux ∧ ∀ answer ∈ answers, answer.streamId = none := by
  induction takes with
  | nil s => exact ⟨rfl,rfl,fun _ member => absurd member List.not_mem_nil⟩
  | cons _ first _ ih =>
    obtain ⟨session,mux,unnamed⟩ := first.kept
    obtain ⟨session',mux',unnamed'⟩ := ih
    refine ⟨session'.trans session,by rw [mux',mux]; rfl,fun answer member => ?_⟩
    rcases List.mem_append.mp member with here | there
    · exact unnamed answer here
    · exact unnamed' answer there

end ServerSession

namespace ServerCore

variable {c d : ServerCore snow em login} {sid : SessionId} {s : ServerSession snow em login}

/-- One session is put in the place of another of its id; the rest is as it was. -/
structure Puts (sid : SessionId) (t : ServerSession snow em login) (c d : ServerCore snow em login) : Prop where
  here : d.sessions[sid]? = some t
  there : ∀ k, k ≠ sid → d.sessions[k]? = c.sessions[k]?
  pending : d.pending = c.pending

theorem puts_insert {t : ServerSession snow em login} (sessions : d.sessions = c.sessions.insert sid t)
    (pending : d.pending = c.pending) : Puts sid t c d := by
  refine ⟨?_,fun k other => ?_,pending⟩
  · rw [sessions]
    exact Std.TreeMap.getElem?_insert_self
  · rw [sessions,Std.TreeMap.getElem?_insert,if_neg fun eq => other (Std.LawfulEqCmp.eq_of_compare eq).symm]

theorem puts_same (held : c.sessions[sid]? = some s) (sessions : d.sessions = c.sessions) (pending : d.pending = c.pending) :
    Puts sid s c d := ⟨by rw [sessions]; exact held,fun k _ => by rw [sessions],pending⟩

theorem Puts.trans {e : ServerCore snow em login} {t u : ServerSession snow em login} (first : Puts sid t c d)
    (second : Puts sid u d e) : Puts sid u c e :=
  ⟨second.here,fun k other => (second.there k other).trans (first.there k other),second.pending.trans first.pending⟩

theorem update_puts (held : c.sessions[sid]? = some s) (f : ServerSession snow em login → ServerSession snow em login) :
    Puts sid (f s) c (c.update sid f) := by
  unfold update
  rw [held]
  exact puts_insert rfl rfl

theorem openShell_takes (held : c.sessions[sid]? = some s) {data : Bytes} (asked : asks (.control data) = true)
    (cols rows : UInt16) (term : String) (agent : Bool) :
    ∃ t, s.Takes (.control data) t [] ∧ Puts sid t c (c.openShell sid cols rows term agent) := by
  unfold openShell
  rw [held]
  dsimp only
  split
  · exact ⟨s,.control data,puts_same held rfl rfl⟩
  · rename_i bare
    split
    · exact ⟨s,.control data,puts_same held rfl rfl⟩
    · exact ⟨_,.shell data asked cols rows _ (by simpa using bare),puts_insert rfl rfl⟩

/-- A frame does to its session what it can do to one, and to no other anything. -/
theorem onFrame_takes (held : c.sessions[sid]? = some s) (replies : List Frame) (frame : Frame) :
    ∃ t answers, s.Takes frame t answers ∧ Puts sid t c (onFrame sid (replies,c) frame).2 ∧
      (onFrame sid (replies,c) frame).1 = replies ++ answers := by
  cases frame with
  | input offset data =>
    simp only [onFrame,held]
    exact ⟨_,_,.input offset data,puts_insert rfl rfl,rfl⟩
  | ack seq => exact ⟨_,_,.ack seq,update_puts held (fun s => s.onStateAck seq),(List.append_nil _).symm⟩
  | ping stamp => exact ⟨s,_,.ping stamp,puts_same held rfl rfl,rfl⟩
  | control data =>
    simp only [onFrame]
    split
    · rename_i msg decoded
      cases msg with
      | openShell cols rows term agent =>
        have asked : asks (.control data) = true := by simp only [asks,decoded]
        obtain ⟨t,takes,puts⟩ := openShell_takes held asked cols rows term agent
        exact ⟨t,[],takes,puts,(List.append_nil _).symm⟩
      | resize cols rows =>
        exact ⟨_,_,.resize data cols rows,update_puts held (fun s => s.resize cols rows),(List.append_nil _).symm⟩
      | bye => exact ⟨_,_,.bye data,update_puts held _,(List.append_nil _).symm⟩
      | _ => exact ⟨s,_,.control data,puts_same held rfl rfl,(List.append_nil _).symm⟩
    · exact ⟨s,_,.control data,puts_same held rfl rfl,(List.append_nil _).symm⟩
  | resize cols rows => exact ⟨s,_,.stream _,puts_same held rfl rfl,(List.append_nil _).symm⟩
  | pong stamp => exact ⟨s,_,.stream _,puts_same held rfl rfl,(List.append_nil _).symm⟩
  | stateDiff seq base data => exact ⟨s,_,.stream _,puts_same held rfl rfl,(List.append_nil _).symm⟩
  | _ => exact ⟨_,_,.stream _,update_puts held (fun s => { s with mux := s.mux.onFrame _ }),(List.append_nil _).symm⟩

/-- Each frame meets the guard in the session as it is when the frame's turn comes. -/
def meets (p : ServerSession snow em login → Frame → Bool) (sid : SessionId) : ServerCore snow em login → List Frame → Bool
  | _, [] => true
  | c, frame :: rest => (c.sessions[sid]?).all (fun s => p s frame) && meets p sid (onFrame sid ([],c) frame).2 rest

/-- The frames of a datagram, if it opens, meet the guard. -/
def packetMeets (p : ServerSession snow em login → Frame → Bool) (c : ServerCore snow em login) (src : SocketAddr)
    (sid : SessionId) (buf : Bytes) : Bool :=
  match c.sessions[sid]? with
  | none => true
  | some s =>
    match s.session.openPacket src buf with
    | (.error _,_) => true
    | (.ok frames,session) => meets p sid { c with sessions := c.sessions.insert sid { s with session, idleTicks := 0 } } frames

theorem meets_always (sid : SessionId) (c : ServerCore snow em login) (frames : List Frame) :
    meets (fun _ _ => true) sid c frames = true := by
  induction frames generalizing c with
  | nil => rfl
  | cons frame rest ih =>
    unfold meets
    rw [ih,Bool.and_true]
    cases c.sessions[sid]? <;> rfl

theorem packetMeets_always (c : ServerCore snow em login) (src : SocketAddr) (sid : SessionId) (buf : Bytes) :
    packetMeets (fun _ _ => true) c src sid buf = true := by
  unfold packetMeets
  split
  · rfl
  · split
    · rfl
    · exact meets_always sid _ _

/-- The answers given before make no difference. -/
theorem onFrame_replies (replies : List Frame) (frame : Frame) :
    (onFrame sid (replies,c) frame).2 = (onFrame sid ([],c) frame).2 := by
  cases frame with
  | input offset data =>
    simp only [onFrame]
    split <;> rfl
  | control data =>
    simp only [onFrame]
    split <;> rfl
  | _ => rfl

theorem onFrames_takes {p : ServerSession snow em login → Frame → Bool} (held : c.sessions[sid]? = some s) (replies : List Frame)
    {frames : List Frame} (met : meets p sid c frames = true) :
    ∃ t answers, s.TakesAll p frames t answers ∧ Puts sid t c (frames.foldl (onFrame sid) (replies,c)).2 ∧
      (frames.foldl (onFrame sid) (replies,c)).1 = replies ++ answers := by
  induction frames generalizing c s replies with
  | nil => exact ⟨s,[],.nil s,puts_same held rfl rfl,(List.append_nil _).symm⟩
  | cons frame rest ih =>
    obtain ⟨first,later⟩ := Bool.and_eq_true_iff.mp met
    rw [held] at first
    obtain ⟨t,answers,takes,puts,said⟩ := onFrame_takes held replies frame
    rw [← onFrame_replies replies] at later
    obtain ⟨u,answers',takes',puts',said'⟩ := ih puts.here (onFrame sid (replies,c) frame).1 later
    refine ⟨u,answers ++ answers',.cons first takes takes',puts.trans puts',?_⟩
    rw [List.foldl_cons,said',said,List.append_assoc]

/-- What a packet makes of its session, and the frames that answer it: it is refused, or its
frames are taken one after the other. -/
inductive Received (p : ServerSession snow em login → Frame → Bool) (src : SocketAddr) (buf : Bytes)
    (s : ServerSession snow em login) : ServerSession snow em login → List Frame → Prop
  | refused (e : TransportError) (session : Session snow) (opened : s.session.openPacket src buf = (.error e,session)) :
    Received p src buf s { s with session } []
  | taken (frames : List Frame) (session : Session snow) (opened : s.session.openPacket src buf = (.ok frames,session))
    (u : ServerSession snow em login) (answers : List Frame)
    (takes : ServerSession.TakesAll p { s with session, idleTicks := 0 } frames u answers) (session' : Session snow)
    (mux : StreamMux) : Received p src buf s { u with session := session', mux } answers

theorem surfaceEvents_puts (held : c.sessions[sid]? = some s) :
    Puts sid { s with mux := s.mux.takeEvents.2 } c (c.surfaceEvents sid) := by
  unfold surfaceEvents
  rw [held]
  exact puts_insert rfl rfl

theorem sendReplies_moves (held : c.sessions[sid]? = some s) {replies : List Frame}
    (unnamed : ∀ frame ∈ replies, frame.streamId = none) {addr : SocketAddr} (known : s.session.peerAddr = some addr)
    (bufs : Bytes → Prop) :
    ∃ session, Puts sid { s with session } c (c.sendReplies sid replies).2 ∧
      s.Moves bufs { s with session } (((c.sendReplies sid replies).1.toOption.getD []).map Prod.snd) replies [] := by
  have sent := Peer.reaches_send bufs s.session s.mux replies unnamed
  unfold sendReplies
  rw [held]
  dsimp only
  rw [known]
  dsimp only
  split
  · rename_i empty
    rw [List.isEmpty_iff.mp empty] at sent ⊢
    exact ⟨s.session,puts_same held rfl rfl,sent⟩
  · split <;> rename_i sealed_ <;> rw [sealed_] at sent
    · exact ⟨_,puts_insert rfl rfl,sent⟩
    · rename_i packets session
      refine ⟨session,puts_insert rfl rfl,?_⟩
      have same : (packets.map (fun packet => (addr,packet))).map Prod.snd = packets := by simp
      change s.Moves bufs _ ((packets.map (fun packet => (addr,packet))).map Prod.snd) replies []
      rw [same]
      exact sent

/-- A transport packet makes steps at its session's end, and none at another's. -/
theorem handleTransport_end {p : ServerSession snow em login → Frame → Bool} (held : c.sessions[sid]? = some s)
    {src : SocketAddr} {buf : Bytes} (met : c.packetMeets p src sid buf = true) :
    ∃ t, Puts sid t c (c.handleTransport src sid buf).2 ∧ Received p src buf s t (c.replies src sid buf) ∧
      s.Moves (· = buf) t (((c.handleTransport src sid buf).1.toOption.getD []).map Prod.snd) (c.replies src sid buf)
        ((s.session.openPacket src buf).1.toOption.getD []) := by
  have received := Peer.reaches_receive (· = buf) s.session s.mux src rfl
  unfold packetMeets at met
  unfold handleTransport replies
  rw [held] at met ⊢
  dsimp only at met ⊢
  cases opened : s.session.openPacket src buf with
  | mk outcome session =>
    rw [opened] at received met
    cases outcome with
    | error e => exact ⟨_,puts_insert rfl rfl,.refused e session opened,received⟩
    | ok frames =>
      have known : session.peerAddr = some src := by
        rcases s.session.openPacket_cases src buf with ⟨e,refused,_⟩ | ⟨_,_,_,_,_,_,taken⟩
        · rw [refused] at opened
          cases opened
        · rw [taken] at opened
          rw [← (Prod.mk.inj opened).2]
      have start : Puts sid { s with session, idleTicks := 0 } c
          { c with sessions := c.sessions.insert sid { s with session, idleTicks := 0 } } := puts_insert rfl rfl
      obtain ⟨u,answers,takes,puts,said⟩ := onFrames_takes start.here [] met
      obtain ⟨sameSession,mux,unnamed⟩ := takes.kept
      have surfaced := surfaceEvents_puts puts.here
      have peer : u.session.peerAddr = some src := by
        rw [sameSession]
        exact known
      obtain ⟨session',sent,moves⟩ := sendReplies_moves surfaced.here unnamed peer (· = buf)
      have replied : (c.receive sid s session frames).1 = answers := said
      have core : (c.receive sid s session frames).2 = (frames.foldl (onFrame sid) ([],{ c with
        sessions := c.sessions.insert sid { s with session, idleTicks := 0 } })).2 := rfl
      dsimp only
      rw [replied,core]
      refine ⟨_,((start.trans puts).trans surfaced).trans sent,?_,?_⟩
      · exact .taken frames session opened u answers takes session' u.mux.takeEvents.2
      · have events := Peer.reaches_takeEvents (· = buf) u.session u.mux
        have first : s.Moves (· = buf) u [] [] frames := by
          unfold ServerSession.Moves
          rw [sameSession,mux]
          exact received
        have all := (first.trans (t := u) (u := { u with mux := u.mux.takeEvents.2 }) events).trans moves
        simp only [List.nil_append,List.append_nil] at all
        exact all

/-- A session of another id is untouched by a packet. -/
theorem handleTransport_other (src : SocketAddr) {k : SessionId} (other : k ≠ sid) (buf : Bytes) :
    (c.handleTransport src sid buf).2.sessions[k]? = c.sessions[k]? := by
  cases held : c.sessions[sid]? with
  | none =>
    unfold handleTransport
    rw [held]
  | some s =>
    obtain ⟨t,puts,_⟩ := handleTransport_end held (c.packetMeets_always src sid buf)
    exact puts.there k other

/-- Sessions and pending handshakes are held under their own ids, which have eight bytes. -/
structure Named (c : ServerCore snow em login) : Prop where
  sessions : ∀ (k : SessionId) (s : ServerSession snow em login), c.sessions[k]? = some s →
    s.session.sessionId = k ∧ k.length = 8
  pending : ∀ (k : SessionId) (h : Handshaker snow), c.pending[k]? = some h → h.sessionId = k

/-- What a handshake message can do to the session of an id: nothing, drop it, or begin it. -/
inductive Turns (k : SessionId) (c d : ServerCore snow em login) : Prop
  | same (same : d.sessions[k]? = c.sessions[k]?)
  | dropped (gone : d.sessions[k]? = none)
  | begun (absent : c.sessions[k]? = none) (t : ServerSession snow em login) (noise : NoiseSession snow) (src : SocketAddr)
    (held : d.sessions[k]? = some t) (session : t.session = .new k noise (some src)) (mux : t.mux = .new false)
    (sized : k.length = 8)
    (input : ∀ shell, t.shell = some shell → ∃ (k' : SessionId) (s : ServerSession snow em login) (old : ServerShell em),
      c.sessions[k']? = some s ∧ s.shell = some old ∧ shell = old.rebindToNewClient) (typed : t.typed = [])
    (status : t.exitStatus = none)

theorem attach_turns (order : List SessionId) {sid : SessionId} (absent : c.sessions[sid]? = none)
    (sized : sid.length = 8) (noise : NoiseSession snow)
    (src : SocketAddr) (key : Bytes) (k : SessionId) : Turns k c (c.attach order sid (.new sid noise (some src)) key) := by
  have inserted : ∀ (m : Std.TreeMap SessionId (ServerSession snow em login)) (t : ServerSession snow em login),
      (m.insert sid t)[k]? = if k = sid then some t else m[k]? := by
    intro m t
    rw [Std.TreeMap.getElem?_insert]
    by_cases same : k = sid
    · rw [if_pos same,if_pos (same ▸ Std.ReflCmp.compare_self)]
    · rw [if_neg same,if_neg fun eq => same (Std.LawfulEqCmp.eq_of_compare eq).symm]
  unfold attach
  dsimp only
  split
  · by_cases here : k = sid
    · subst here
      refine .begun absent (.fresh (.new k noise (some src)) key) noise src ?_ rfl rfl sized
        (fun _ none => by cases none) rfl rfl
      exact (inserted _ _).trans (if_pos rfl)
    · exact .same ((inserted _ _).trans (if_neg here))
  · rename_i old s found
    have there : c.sessions[old]? = some s := by
      obtain ⟨k',_,found⟩ := List.exists_of_findSome?_eq_some found
      obtain ⟨s',there,found⟩ := Option.bind_eq_some_iff.mp found
      split at found <;> cases found
      exact there
    by_cases here : k = sid
    · subst here
      refine .begun absent ((ServerSession.fresh (.new k noise (some src)) key).inherit s) noise src ?_ rfl rfl sized
        (fun shell held => ?_) rfl rfl
      · exact (inserted _ _).trans (if_pos rfl)
      · obtain ⟨shell',there',same⟩ := Option.map_eq_some_iff.mp held
        exact ⟨old,s,shell',there,there',same.symm⟩
    · have rest := (inserted (c.sessions.erase old) ((ServerSession.fresh (.new sid noise (some src)) key).inherit s)).trans
        (if_neg here)
      rw [Std.TreeMap.getElem?_erase] at rest
      split at rest
      · exact .dropped rest
      · exact .same rest

/-- The sessions after a handshake message, and what is sent. -/
theorem handleHandshake_turns (named : c.Named) (order : List SessionId) (src : SocketAddr) {sid : SessionId}
    (sized : sid.length = 8) (body : Bytes) :
    (∀ k, Turns k c (c.handleHandshake order src sid body).2) ∧
      (∀ (k : SessionId) (h : Handshaker snow), (c.handleHandshake order src sid body).2.pending[k]? = some h →
        h.sessionId = k) ∧
      ∀ p ∈ (c.handleHandshake order src sid body).1.toOption.getD [], ∃ message, p.2 = buildHandshakePacket sid message := by
  have nothing : ∀ p ∈ ([] : List (SocketAddr × Bytes)), ∃ message, p.2 = buildHandshakePacket sid message :=
    fun _ member => absurd member List.not_mem_nil
  -- What a read does, once the pending handshakes are those of their ids.
  have reads : ∀ (d : ServerCore snow em login) (h : Handshaker snow) (wasPending : Bool), d.sessions = c.sessions →
      c.sessions[sid]? = none → (∀ (k : SessionId) (g : Handshaker snow), d.pending[k]? = some g →
        g.sessionId = k) → h.sessionId = sid →
      (∀ k, Turns k c (d.readHandshake order src sid h wasPending body).2) ∧
        (∀ (k : SessionId) (g : Handshaker snow),
          (d.readHandshake order src sid h wasPending body).2.pending[k]? = some g → g.sessionId = k) ∧
        ∀ p ∈ (d.readHandshake order src sid h wasPending body).1.toOption.getD [], ∃ message,
          p.2 = buildHandshakePacket sid message := by
    intro d h wasPending sessions absent keyed own
    have still : ∀ k, Turns k c d := fun k => .same (by rw [sessions])
    have keeps : ∀ (h' : Handshaker snow), h'.sessionId = sid →
        ∀ (k : SessionId) (g : Handshaker snow), (d.pending.insert sid h')[k]? = some g → g.sessionId = k := by
      intro h' same k g held
      rw [Std.TreeMap.getElem?_insert] at held
      split at held
      · rename_i here
        cases held
        exact same.trans (Std.LawfulEqCmp.eq_of_compare here)
      · exact keyed k g held
    obtain ⟨kept,replies⟩ := h.read_keeps body
    unfold readHandshake
    cases got : h.read body with
    | mk outcome h' =>
      rw [got] at kept replies
      have own' : h'.sessionId = sid := kept.trans own
      cases outcome with
      | error e =>
        dsimp only
        refine ⟨fun k => ?_,fun k g => ?_,nothing⟩
        · split
          · exact .same (by rw [sessions])
          · exact still k
        · split
          · exact keeps h' own' k g
          · exact keyed k g
      | ok outcome =>
        have said : ∀ p ∈ outcome.reply.toList.map (fun reply => (src,reply)), ∃ message, p.2 =
          buildHandshakePacket sid message := by
          intro p member
          obtain ⟨reply,there,rfl⟩ := List.mem_map.mp member
          obtain ⟨message,same⟩ := replies outcome reply rfl (Option.mem_toList.mp there)
          exact ⟨message,by rw [same,own]⟩
        dsimp only
        split
        · unfold admitClient
          split
          · exact ⟨still,keyed,nothing⟩
          · rename_i key _
            split
            · split
              · exact ⟨still,keyed,nothing⟩
              · rename_i session made
                have fresh := Handshaker.intoSession_new made
                rw [own'] at fresh
                refine ⟨fun k => ?_,keyed,said⟩
                have turns := attach_turns order (show d.sessions[sid]? = none by rw [sessions]; exact absent)
                  sized session.noise src key k
                rw [← fresh] at turns
                cases turns with
                | same same => exact .same (same.trans (by rw [sessions]))
                | dropped gone => exact .dropped gone
                | begun none t noise src held session mux sized input typed status =>
                  rw [sessions] at none input
                  exact .begun none t noise src held session mux sized input typed status
            · exact ⟨still,keyed,said⟩
        · refine ⟨fun k => .same (by rw [sessions]),keeps h' own',said⟩
  unfold handleHandshake
  by_cases established : c.sessions.contains sid = true
  · rw [if_pos established]
    exact ⟨fun k => .same rfl,named.pending,nothing⟩
  rw [if_neg established]
  have absent : c.sessions[sid]? = none := Std.TreeMap.getElem?_eq_none fun there =>
    established (Std.TreeMap.contains_iff_mem.mpr there)
  cases held : c.pending[sid]? with
  | some h =>
    refine reads { c with pending := c.pending.erase sid } h true rfl absent (fun k g there => ?_) (named.pending sid h held)
    rw [Std.TreeMap.getElem?_erase] at there
    split at there
    · cases there
    · exact named.pending k g there
  | none =>
    dsimp only
    split
    · exact ⟨fun k => .same rfl,named.pending,nothing⟩
    split
    · exact ⟨fun k => .same rfl,named.pending,nothing⟩
    cases made : Handshaker.server snow c.privateKey sid (ControlMsg.utf8 pkgVersion) with
    | error e => exact ⟨fun k => .same rfl,named.pending,nothing⟩
    | ok h =>
      refine reads c h false rfl absent named.pending ?_
      unfold Handshaker.server at made
      split at made <;> cases made
      rfl

/-- What a tick sends, session by session. -/
theorem tickSessions_out {order : List SessionId} (distinct : order.Nodup) (t : Ticking snow em login) :
    (order.foldl tickSession t).out = t.out ++ order.flatMap (fun k => (t.core.sessions[k]?).elim [] (·.tick.1)) := by
  induction order generalizing t with
  | nil => exact (List.append_nil _).symm
  | cons sid rest ih =>
    obtain ⟨fresh,distinct⟩ := List.nodup_cons.mp distinct
    have others : ∀ k ∈ rest, (tickSession t sid).core.sessions[k]? = t.core.sessions[k]? := by
      intro k member
      unfold tickSession
      split
      · rfl
      · dsimp only
        rw [Std.TreeMap.getElem?_insert,if_neg]
        intro eq
        rw [Std.LawfulEqCmp.eq_of_compare eq] at fresh
        exact fresh member
    have first : (tickSession t sid).out = t.out ++ (t.core.sessions[sid]?).elim [] (·.tick.1) := by
      unfold tickSession
      cases t.core.sessions[sid]? with
      | none => exact (List.append_nil _).symm
      | some s => rfl
    rw [List.foldl_cons,ih distinct,first,List.append_assoc,List.flatMap_cons]
    congr 2
    exact List.flatMap_congr fun k member => by rw [others k member]

theorem tickAll_out {order : List SessionId} (walks : order.Perm c.sessions.keys) :
    (c.tickAll order).1 = order.flatMap (fun k => (c.sessions[k]?).elim [] (·.tick.1)) := by
  have distinct : order.Nodup := walks.nodup_iff.mpr c.sessions.nodup_keys
  unfold tickAll
  dsimp only
  rw [tickSessions_out distinct]
  rfl

/-- A tick walks the sessions. Else its order is not theirs, or an emulator panics. -/
theorem tick_cases (c : ServerCore snow em login) (order : List SessionId) :
    (order.isPerm c.sessions.keys = true ∧ c.calm order = true ∧ c.call (.tick order) = (c.tickAll order).2 ∧
      c.sends (.tick order) = (c.tickAll order).1 ∧
      ∀ k, c.emits k (.tick order) = (c.sessions[k]?).elim [] (·.tickFrames)) ∨
    (c.call (.tick order) = c ∧ c.sends (.tick order) = [] ∧ ∀ k, c.emits k (.tick order) = []) := by
  by_cases walks : order.isPerm c.sessions.keys = true
  · rcases c.call_tick walks with ⟨calm,called⟩ | ⟨panics,called⟩
    · exact .inl ⟨walks,calm,called,by simp only [sends,walks,tick,calm,if_true,Option.elim_some],
        fun k => by simp only [emits,walks,calm,and_self,if_true]⟩
    · exact .inr ⟨called,by simp only [sends,walks,tick,panics,if_true,Bool.false_eq_true,if_false,Option.elim_none],
        fun k => by simp only [emits,walks,panics,Bool.false_eq_true,and_false,if_false]⟩
  · exact .inr ⟨if_neg walks,if_neg walks,fun k => by simp only [emits,walks,Bool.false_eq_true,false_and,if_false]⟩

theorem tickAll_pending (order : List SessionId) : (c.tickAll order).2.pending = c.pending := (c.tickAll_serves order).pending

/-- What a packet of one session has sent is nothing to another. -/
theorem handleTransport_elsewhere (named : c.Named) (src : SocketAddr) (sized : sid.length = 8) {k : SessionId}
    (other : sid ≠ k) (buf : Bytes) : ∀ p ∈ (c.handleTransport src sid buf).1.toOption.getD [], Elsewhere k p.2 := by
  intro p member
  cases held : c.sessions[sid]? with
  | none =>
    unfold handleTransport at member
    rw [held] at member
    exact absurd member List.not_mem_nil
  | some s =>
    obtain ⟨t,_,_,moves⟩ := handleTransport_end held (c.packetMeets_always src sid buf)
    obtain ⟨nonce,body,packet⟩ := moves.keeps.2.2 p.2 (List.mem_map_of_mem member)
    rw [packet,(named.sessions sid s held).1]
    exact transport_elsewhere sized other nonce body

/-- What a tick sends is sealed by the session it ticks. -/
theorem tickAll_sends (named : c.Named) {order : List SessionId} (walks : order.Perm c.sessions.keys) (k : SessionId)
    {p : SocketAddr × Bytes} (member : p ∈ (c.tickAll order).1) :
    (∃ s, c.sessions[k]? = some s ∧ p ∈ s.tick.1) ∨ Elsewhere k p.2 := by
  rw [tickAll_out walks] at member
  obtain ⟨k',_,there⟩ := List.mem_flatMap.mp member
  cases held : c.sessions[k']? with
  | none =>
    rw [held] at there
    exact absurd there List.not_mem_nil
  | some s =>
    rw [held] at there
    by_cases here : k' = k
    · exact .inl ⟨s,here ▸ held,there⟩
    · obtain ⟨name,sized⟩ := named.sessions k' s held
      obtain ⟨nonce,body,packet⟩ := s.tick_moves.keeps.2.2 p.2 (List.mem_map_of_mem there)
      rw [packet,name]
      exact .inr (transport_elsewhere sized here nonce body)

/-- The call uses a stream of the session in a way that is recorded. -/
def touches (sid : SessionId) : Call → Bool
  | .streamWrite k _ _ | .streamRead k _ | .streamCloseStatus k _ _ => k == sid
  | _ => false

/-- The frames a call opens for a session. -/
def opens (c : ServerCore snow em login) (sid : SessionId) : Call → List Frame
  | .handlePacket order src buf =>
    if order.isPerm c.sessions.keys then
      match parsePacket buf with
      | .ok (.transport k _ _) =>
        if k = sid then (c.sessions[sid]?).elim [] (fun s => (s.session.openPacket src buf).1.toOption.getD []) else []
      | _ => []
    else []
  | _ => []

/-- What a call can do to a session that is there. -/
structure Ends (k : SessionId) (c : ServerCore snow em login) (a : Call) (s : ServerSession snow em login) : Prop where
  moves : ∃ t packets, s.Moves (fun buf => ∃ order src, a = .handlePacket order src buf) t packets (c.emits k a) (c.opens k a) ∧
    ((c.call a).sessions[k]? = some t ∨ (c.call a).sessions[k]? = none) ∧
    ∀ p ∈ c.sends a, p.2 ∈ packets ∨ Elsewhere k p.2

/-- A call that is no packet and no tick sends nothing. -/
theorem Ends.quiet {k : SessionId} {a : Call} {t : ServerSession snow em login} (nothing : c.emits k a = [] ∧ c.opens k a = [])
    (silent : c.sends a = []) (after : (c.call a).sessions[k]? = some t) (moves : s.Moves (fun _ => False) t [] [] []) :
    Ends k c a s := by
  refine ⟨t,[],?_,.inl after,fun p member => ?_⟩
  · rw [nothing.1,nothing.2]
    obtain ⟨actions,quiet,drives⟩ := moves
    refine ⟨actions,fun b member => ?_,drives⟩
    have here := quiet b member
    cases b with
    | receive src buf => exact here.elim
    | _ => exact here
  · rw [silent] at member
    exact absurd member List.not_mem_nil

theorem update_other (c : ServerCore snow em login) {k : SessionId} (other : k ≠ sid)
    (f : ServerSession snow em login → ServerSession snow em login) : (c.update sid f).sessions[k]? = c.sessions[k]? := by
  unfold update
  split
  · rfl
  · dsimp only
    rw [Std.TreeMap.getElem?_insert,if_neg fun eq => other (Std.LawfulEqCmp.eq_of_compare eq).symm]

/-- A session that is there makes steps at its own end, and may be dropped after them. -/
theorem call_ends (named : c.Named) {k : SessionId} (held : c.sessions[k]? = some s) {a : Call} (still : touches k a = false) :
    Ends k c a s := by
  have same : ∀ a : Call, c.emits k a = [] ∧ c.opens k a = [] → c.sends a = [] → (c.call a).sessions[k]? = c.sessions[k]? →
      Ends k c a s := fun a nothing silent after => .quiet nothing silent (after.trans held) (.same rfl rfl)
  have updates : ∀ (a : Call) (sid : SessionId) (f : StreamMux → StreamMux), c.emits k a = [] ∧
    c.opens k a = [] → c.sends a = [] →
      c.call a = c.update sid (fun s => { s with mux := f s.mux }) →
      (k = sid → Peer.Reaches (fun _ => False) s.session s.session s.mux (f s.mux) [] [] []) → Ends k c a s := by
    intro a sid f nothing silent called reaches
    by_cases here : k = sid
    · refine .quiet (t := { s with mux := f s.mux }) nothing silent ?_ (reaches here)
      rw [called]
      subst here
      exact (update_puts held _).here
    · exact same a nothing silent (by rw [called]; exact c.update_other here _)
  cases a with
  | handlePacket order src buf =>
    by_cases walks : order.isPerm c.sessions.keys = true
    · have called : c.call (.handlePacket order src buf) = (c.tryHandlePacket order src buf).2 := if_pos walks
      have sent : c.sends (.handlePacket order src buf) = (c.tryHandlePacket order src buf).1.toOption.getD [] := if_pos walks
      have still : ∀ {d : ServerCore snow em login}, c.call (.handlePacket order src buf) = d →
          (d.sessions[k]? = some s ∨ d.sessions[k]? = none) → c.emits k (.handlePacket order src buf) = [] ∧
            c.opens k (.handlePacket order src buf) = [] →
            (∀ p ∈ c.sends (.handlePacket order src buf), Elsewhere k p.2) → Ends k c (.handlePacket order src buf) s := by
        intro d called after nothing elsewhere
        refine ⟨s,[],?_,by rw [called]; exact after,fun p member => .inr (elsewhere p member)⟩
        rw [nothing.1,nothing.2]
        exact .refl _ s.session s.mux
      unfold tryHandlePacket at called sent
      cases parsed : parsePacket buf with
      | error e =>
        rw [parsed] at called sent
        refine still called (.inl held) (by simp only [emits,opens,walks,if_true,parsed,and_self]) (fun p member => ?_)
        rw [sent] at member
        exact absurd member List.not_mem_nil
      | ok packet =>
        rw [parsed] at called sent
        cases packet with
        | handshake sid body =>
          obtain ⟨turns,_,said⟩ := handleHandshake_turns named order src (parsePacket_handshake parsed).2 body
          refine still called ?_ (by simp only [emits,opens,walks,if_true,parsed,and_self]) (fun p member => ?_)
          · cases turns k with
            | same same => exact .inl (same.trans held)
            | dropped gone => exact .inr gone
            | begun absent => exact absurd (held.symm.trans absent) (by simp)
          · rw [sent] at member
            obtain ⟨message,packet⟩ := said p member
            rw [packet]
            exact handshake_elsewhere k sid message
        | transport sid nonce body =>
          dsimp only at called sent
          have sized := (parsePacket_transport parsed).2.1
          by_cases here : sid = k
          · subst here
            obtain ⟨t,puts,_,moves⟩ := handleTransport_end held (c.packetMeets_always src sid buf)
            refine ⟨t,((c.handleTransport src sid buf).1.toOption.getD []).map Prod.snd,?_,
              .inl (by rw [called]; exact puts.here),fun p member => ?_⟩
            · have emitted : c.emits sid (.handlePacket order src buf) = c.replies src sid buf := by
                simp only [emits,walks,if_true,parsed]
              have opened : c.opens sid (.handlePacket order src buf) = (s.session.openPacket src buf).1.toOption.getD [] := by
                simp only [opens,walks,if_true,parsed,held,Option.elim_some]
              rw [emitted,opened]
              obtain ⟨actions,quiet,drives⟩ := moves
              refine ⟨actions,fun b member => ?_,drives⟩
              have first := quiet b member
              cases b with
              | receive src' buf' => exact ⟨order,src,by rw [show buf' = buf from first]⟩
              | _ => exact first
            · rw [sent] at member
              exact .inl (List.mem_map_of_mem member)
          · refine still called (.inl ?_) ?_ (fun p member => ?_)
            · rw [handleTransport_other src (Ne.symm here) buf]
              exact held
            · simp only [emits,opens,walks,if_true,parsed,if_neg here,and_self]
            · rw [sent] at member
              exact handleTransport_elsewhere named src sized here buf p member
    · refine same _ ⟨?_,?_⟩ ?_ ?_
      · exact if_neg walks
      · exact if_neg walks
      · exact if_neg walks
      · exact congrArg (fun c : ServerCore snow em login => c.sessions[k]?) (if_neg walks)
  | tick order =>
    rcases c.tick_cases order with ⟨walks,_,called,sent,sealed_⟩ | ⟨called,sent,sealed_⟩
    · have perm := List.isPerm_iff.mp walks
      have after := c.tickAll_sessions perm k
      rw [held,Option.bind_some] at after
      refine ⟨s.tick.2.2.2,s.tick.1.map Prod.snd,?_,?_,fun p member => ?_⟩
      · rw [sealed_,held]
        obtain ⟨actions,quiet,drives⟩ := s.tick_moves
        refine ⟨actions,fun b member => ?_,drives⟩
        have here := quiet b member
        cases b with
        | receive src buf => exact here.elim
        | _ => exact here
      · rw [called]
        split at after
        · exact .inr after
        · exact .inl after
      · rw [sent] at member
        rcases tickAll_sends named perm k member with ⟨s',held',there⟩ | elsewhere
        · rw [held] at held'
          cases held'
          exact .inl (List.mem_map_of_mem there)
        · exact .inr elsewhere
    · exact same _ ⟨sealed_ k,rfl⟩ sent (by rw [called])
  | openStream sid kind metadata =>
    exact updates _ sid (fun mux => (mux.openStream kind metadata).1) ⟨rfl,rfl⟩ rfl rfl
      (fun _ => Peer.reaches_openStream _ s.session s.mux kind metadata)
  | streamReset sid id =>
    exact updates _ sid (fun mux => mux.reset id) ⟨rfl,rfl⟩ rfl rfl (fun _ => Peer.reaches_reset _ s.session s.mux id)
  | streamWrite sid id data =>
    exact updates _ sid (fun mux => mux.write id data) ⟨rfl,rfl⟩ rfl rfl (fun here => by subst here; simp [touches] at still)
  | streamRead sid id =>
    exact updates _ sid (fun mux => (mux.read id).2) ⟨rfl,rfl⟩ rfl rfl (fun here => by subst here; simp [touches] at still)
  | streamCloseStatus sid id status =>
    exact updates _ sid (fun mux => mux.close id status) ⟨rfl,rfl⟩ rfl rfl (fun here => by subst here; simp [touches] at still)
  | _ => exact same _ ⟨rfl,rfl⟩ rfl rfl

/-- A session that is not there is not emitted for, and may be begun. -/
structure Starts (k : SessionId) (c : ServerCore snow em login) (a : Call) : Prop where
  emits : c.emits k a = []
  turns : Turns k c (c.call a)
  elsewhere : ∀ p ∈ c.sends a, Elsewhere k p.2

theorem call_starts (named : c.Named) {k : SessionId} (absent : c.sessions[k]? = none) (a : Call) : Starts k c a := by
  have same : ∀ a : Call, c.emits k a = [] → c.sends a = [] → (c.call a).sessions[k]? = c.sessions[k]? → Starts k c a :=
    fun a emitted silent after =>
      ⟨emitted,.same after,fun p member => by rw [silent] at member; exact absurd member List.not_mem_nil⟩
  have updates : ∀ (a : Call) (sid : SessionId) (f : ServerSession snow em login → ServerSession snow em login),
      c.emits k a = [] → c.sends a = [] → c.call a = c.update sid f → Starts k c a := by
    intro a sid f emitted silent called
    refine same a emitted silent ?_
    rw [called]
    by_cases here : k = sid
    · subst here
      unfold update
      rw [absent]
      exact absent
    · exact c.update_other here f
  cases a with
  | handlePacket order src buf =>
    by_cases walks : order.isPerm c.sessions.keys = true
    · have called : c.call (.handlePacket order src buf) = (c.tryHandlePacket order src buf).2 := if_pos walks
      have sent : c.sends (.handlePacket order src buf) = (c.tryHandlePacket order src buf).1.toOption.getD [] := if_pos walks
      unfold tryHandlePacket at called sent
      cases parsed : parsePacket buf with
      | error e =>
        rw [parsed] at called sent
        exact same _ (by simp only [ServerCore.emits,walks,if_true,parsed]) sent (by rw [called])
      | ok packet =>
        rw [parsed] at called sent
        cases packet with
        | handshake sid body =>
          obtain ⟨turns,_,said⟩ := handleHandshake_turns named order src (parsePacket_handshake parsed).2 body
          refine ⟨by simp only [ServerCore.emits,walks,if_true,parsed],by rw [called]; exact turns k,fun p member => ?_⟩
          rw [sent] at member
          obtain ⟨message,packet⟩ := said p member
          rw [packet]
          exact handshake_elsewhere k sid message
        | transport sid nonce body =>
          dsimp only at called sent
          have sized := (parsePacket_transport parsed).2.1
          by_cases here : sid = k
          · subst here
            have nothing : c.handleTransport src sid buf = (.ok [],c) := by
              unfold handleTransport
              rw [absent]
            refine same _ ?_ (by rw [sent,nothing]; rfl) (by rw [called,nothing])
            simp only [ServerCore.emits,walks,if_true,parsed,replies,absent]
          · refine ⟨by simp only [ServerCore.emits,walks,if_true,parsed,if_neg here],.same ?_,fun p member => ?_⟩
            · rw [called]
              exact handleTransport_other src (Ne.symm here) buf
            · rw [sent] at member
              exact handleTransport_elsewhere named src sized here buf p member
    · refine same _ ?_ ?_ ?_
      · exact if_neg walks
      · exact if_neg walks
      · exact congrArg (fun c : ServerCore snow em login => c.sessions[k]?) (if_neg walks)
  | tick order =>
    rcases c.tick_cases order with ⟨walks,_,called,sent,sealed_⟩ | ⟨called,sent,sealed_⟩
    · have perm := List.isPerm_iff.mp walks
      refine ⟨by rw [sealed_,absent]; rfl,.same ?_,fun p member => ?_⟩
      · rw [called,c.tickAll_sessions perm,absent]
        rfl
      · rw [sent] at member
        rcases tickAll_sends named perm k member with ⟨s',held',there⟩ | elsewhere
        · rw [absent] at held'
          cases held'
        · exact elsewhere
    · exact same _ (sealed_ k) sent (by rw [called])
  | openStream sid kind metadata => exact updates _ sid _ rfl rfl rfl
  | streamReset sid id => exact updates _ sid _ rfl rfl rfl
  | streamWrite sid id data => exact updates _ sid _ rfl rfl rfl
  | streamRead sid id => exact updates _ sid _ rfl rfl rfl
  | streamCloseStatus sid id status => exact updates _ sid _ rfl rfl rfl
  | _ => exact same _ rfl rfl rfl

theorem new_named (privateKey : Bytes) (authorized : AuthorizedKeys) (backend : login.State) (command : Option (List String))
    (user : Option String) (agentDir : String) (pid : Nat) :
    (new privateKey authorized backend command user agentDir pid : ServerCore snow em login).Named :=
  ⟨fun k s held => by simp [new] at held,fun k h held => by simp [new] at held⟩

/-- A call keeps the pending handshakes under their ids. -/
theorem call_pending (named : c.Named) (a : Call) :
    ∀ (k : SessionId) (h : Handshaker snow), (c.call a).pending[k]? = some h → h.sessionId = k := by
  have updates : ∀ sid f, (c.update sid f).pending = c.pending := by
    intro sid f
    unfold update
    split <;> rfl
  cases a with
  | handlePacket order src buf =>
    by_cases walks : order.isPerm c.sessions.keys = true
    · rw [show c.call (.handlePacket order src buf) = (c.tryHandlePacket order src buf).2 from if_pos walks]
      unfold tryHandlePacket
      split
      · exact named.pending
      · rename_i sid body parsed
        exact (handleHandshake_turns named order src (parsePacket_handshake parsed).2 body).2.1
      · rename_i sid _ _ _
        rw [show (c.handleTransport src sid buf).2.pending = c.pending from (c.handleTransport_serves src sid buf).pending]
        exact named.pending
    · rw [show c.call (.handlePacket order src buf) = c from if_neg walks]
      exact named.pending
  | tick order =>
    rcases c.tick_cases order with ⟨_,_,called,_⟩ | ⟨called,_⟩
    · rw [called,tickAll_pending]
      exact named.pending
    · rw [called]
      exact named.pending
  | openStream sid kind metadata => exact (updates sid _).symm ▸ named.pending
  | streamRead sid id => exact (updates sid _).symm ▸ named.pending
  | streamWrite sid id data => exact (updates sid _).symm ▸ named.pending
  | streamCloseStatus sid id status => exact (updates sid _).symm ▸ named.pending
  | streamReset sid id => exact (updates sid _).symm ▸ named.pending
  | _ => exact named.pending

/-- A call that uses a stream of the session changes its streams only. -/
theorem call_touches {k : SessionId} (held : c.sessions[k]? = some s) {a : Call} (touched : touches k a = true) :
    ∃ mux, (c.call a).sessions[k]? = some { s with mux } := by
  cases a with
  | streamWrite sid id data =>
    obtain rfl : sid = k := by simpa [touches] using touched
    exact ⟨_,(update_puts held _).here⟩
  | streamRead sid id =>
    obtain rfl : sid = k := by simpa [touches] using touched
    exact ⟨_,(update_puts held _).here⟩
  | streamCloseStatus sid id status =>
    obtain rfl : sid = k := by simpa [touches] using touched
    exact ⟨_,(update_puts held _).here⟩
  | _ => cases touched

theorem call_absent {k : SessionId} (absent : c.sessions[k]? = none) {a : Call} (touched : touches k a = true) :
    (c.call a).sessions[k]? = none := by
  have still : ∀ f : ServerSession snow em login → ServerSession snow em login, (c.update k f).sessions[k]? = none := by
    intro f
    unfold update
    rw [absent]
    exact absent
  cases a with
  | streamWrite sid id data =>
    obtain rfl : sid = k := by simpa [touches] using touched
    exact still _
  | streamRead sid id =>
    obtain rfl : sid = k := by simpa [touches] using touched
    exact still _
  | streamCloseStatus sid id status =>
    obtain rfl : sid = k := by simpa [touches] using touched
    exact still _
  | _ => cases touched

theorem call_named (named : c.Named) (a : Call) : (c.call a).Named := by
  refine ⟨fun k t after => ?_,call_pending named a⟩
  cases held : c.sessions[k]? with
  | none =>
    cases (call_starts named held a).turns with
    | same same => exact absurd (after.symm.trans (same.trans held)) (by simp)
    | dropped gone => exact absurd (after.symm.trans gone) (by simp)
    | begun _ t' noise src there session _ sized =>
      rw [after] at there
      cases there
      rw [session]
      exact ⟨rfl,sized⟩
  | some s =>
    obtain ⟨name,sized⟩ := named.sessions k s held
    refine ⟨?_,sized⟩
    cases touched : touches k a with
    | true =>
      obtain ⟨mux,there⟩ := call_touches held touched
      rw [after] at there
      cases there
      exact name
    | false =>
      obtain ⟨t',packets,moves,either,_⟩ := (call_ends named held touched).moves
      rcases either with there | gone
      · rw [after] at there
        cases there
        exact moves.keeps.1.trans name
      · exact absurd (after.symm.trans gone) (by simp)

/-- A datagram for the session is one whose frames meet the guard. -/
def callMeets (p : ServerSession snow em login → Frame → Bool) (c : ServerCore snow em login) (sid : SessionId) : Call → Bool
  | .handlePacket _ src buf =>
    match parsePacket buf with
    | .ok (.transport k _ _) => k != sid || c.packetMeets p src sid buf
    | _ => true
  | _ => true

theorem callMeets_always (c : ServerCore snow em login) (sid : SessionId) (a : Call) :
    c.callMeets (fun _ _ => true) sid a = true := by
  unfold callMeets
  split
  · split
    · rw [packetMeets_always,Bool.or_true]
    · rfl
  · rfl

/-- What becomes of a session in a call, with the frames it is given to seal and those it opens. -/
inductive Becomes (p : ServerSession snow em login → Frame → Bool) (k : SessionId) (c : ServerCore snow em login)
    (s : ServerSession snow em login) (a : Call) : Prop
  | still (mux : StreamMux) (after : (c.call a).sessions[k]? = some { s with mux }) (silent : c.emits k a = [])
    (unheard : c.opens k a = [])
  | dropped (after : (c.call a).sessions[k]? = none) (silent : c.emits k a = []) (unheard : c.opens k a = [])
  | received (src : SocketAddr) (buf : Bytes) (t : ServerSession snow em login) (after : (c.call a).sessions[k]? = some t)
    (received : Received p src buf s t (c.emits k a)) (opened : c.opens k a = (s.session.openPacket src buf).1.toOption.getD [])
  | ticked (order : List SessionId) (ticks : a = .tick order) (walks : order.isPerm c.sessions.keys = true)
    (calm : c.calm order = true)
    (after : (c.call a).sessions[k]? = some s.tick.2.2.2 ∨ (c.call a).sessions[k]? = none)
    (sealed_ : c.emits k a = s.tickFrames) (unheard : c.opens k a = [])

/-- A tick that walks the sessions, with no panic, ticks each of them. -/
theorem call_ticked {k : SessionId} (held : c.sessions[k]? = some s) {order : List SessionId}
    (walks : order.isPerm c.sessions.keys = true) (calm : c.calm order = true) :
    ((c.call (.tick order)).sessions[k]? = some s.tick.2.2.2 ∨ (c.call (.tick order)).sessions[k]? = none) ∧
      c.emits k (.tick order) = s.tickFrames := by
  have after := c.tickAll_sessions (List.isPerm_iff.mp walks) k
  rw [held,Option.bind_some] at after
  refine ⟨?_,by simp only [emits,walks,calm,and_self,if_true,held,Option.elim_some]⟩
  rw [show c.call
    (.tick order) = (c.tickAll order).2 by simp only [call,tick,walks,calm,if_true,Option.map_some,Option.getD_some]]
  split at after
  · exact .inr after
  · exact .inl after

theorem call_becomes {p : ServerSession snow em login → Frame → Bool} (named : c.Named)
    {k : SessionId} (held : c.sessions[k]? = some s)
    {a : Call} (met : c.callMeets p k a = true) : Becomes p k c s a := by
  have same : ∀ a : Call, c.emits k a = [] ∧ c.opens k a = [] → (c.call a).sessions[k]? = c.sessions[k]? → Becomes p k c s a :=
    fun a nothing after => .still s.mux (after.trans held) nothing.1 nothing.2
  have updates : ∀ (a : Call) (sid : SessionId) (f : StreamMux → StreamMux), c.emits k a = [] ∧ c.opens k a = [] →
      c.call a = c.update sid (fun s => { s with mux := f s.mux }) → Becomes p k c s a := by
    intro a sid f nothing called
    by_cases here : k = sid
    · subst here
      exact .still (f s.mux) (called ▸ (update_puts held _).here) nothing.1 nothing.2
    · exact same a nothing (by rw [called]; exact c.update_other here _)
  cases a with
  | handlePacket order src buf =>
    by_cases walks : order.isPerm c.sessions.keys = true
    · have called : c.call (.handlePacket order src buf) = (c.tryHandlePacket order src buf).2 := if_pos walks
      unfold tryHandlePacket at called
      simp only [callMeets] at met
      cases parsed : parsePacket buf with
      | error e =>
        rw [parsed] at called
        exact same _ (by simp only [emits,opens,walks,if_true,parsed,and_self]) (by rw [called])
      | ok packet =>
        rw [parsed] at called met
        cases packet with
        | handshake sid body =>
          have nothing : c.emits k (.handlePacket order src buf) = [] ∧ c.opens k (.handlePacket order src buf) = [] := by
            simp only [emits,opens,walks,if_true,parsed,and_self]
          have turns := (handleHandshake_turns named order src (parsePacket_handshake parsed).2 body).1 k
          rw [← show c.call (.handlePacket order src buf) = (c.handleHandshake order src sid body).2 from called] at turns
          cases turns with
          | same after => exact same _ nothing after
          | dropped gone => exact .dropped gone nothing.1 nothing.2
          | begun absent => exact absurd (held.symm.trans absent) (by simp)
        | transport sid nonce body =>
          dsimp only at called met
          by_cases here : sid = k
          · subst here
            obtain ⟨t,puts,received,_⟩ := handleTransport_end (p := p) held (by simpa using met)
            have emitted : c.emits sid (.handlePacket order src buf) = c.replies src sid buf := by
              simp only [emits,walks,if_true,parsed]
            refine .received src buf t (called ▸ puts.here) (emitted ▸ received) ?_
            simp only [opens,walks,if_true,parsed,held,Option.elim_some]
          · refine same _ (by simp only [emits,opens,walks,if_true,parsed,if_neg here,and_self]) ?_
            rw [called]
            exact handleTransport_other src (Ne.symm here) buf
    · exact same _ ⟨if_neg walks,if_neg walks⟩ (congrArg (fun c : ServerCore snow em login => c.sessions[k]?) (if_neg walks))
  | tick order =>
    rcases c.tick_cases order with ⟨walks,calm,_⟩ | ⟨called,_,silent⟩
    · obtain ⟨after,sealed_⟩ := call_ticked held walks calm
      exact .ticked order rfl walks calm after sealed_ rfl
    · exact same _ ⟨silent k,rfl⟩ (by rw [called])
  | openStream sid kind metadata => exact updates _ sid (fun mux => (mux.openStream kind metadata).1) ⟨rfl,rfl⟩ rfl
  | streamReset sid id => exact updates _ sid (fun mux => mux.reset id) ⟨rfl,rfl⟩ rfl
  | streamWrite sid id data => exact updates _ sid (fun mux => mux.write id data) ⟨rfl,rfl⟩ rfl
  | streamRead sid id => exact updates _ sid (fun mux => (mux.read id).2) ⟨rfl,rfl⟩ rfl
  | streamCloseStatus sid id status => exact updates _ sid (fun mux => mux.close id status) ⟨rfl,rfl⟩ rfl
  | _ => exact same _ ⟨rfl,rfl⟩ rfl

end ServerCore
end Noissh

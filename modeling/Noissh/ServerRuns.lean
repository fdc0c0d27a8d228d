import Mathlib.Logic.Relation
import Noissh.Machine
import Noissh.ServerSafety

/-! Whole runs of the server, and the terminals that come and go in them. Its login backend is
one that numbers the terminals it starts and keeps which of its calls succeeded; apart from
that it is any backend. -/
namespace Noissh

/-- A terminal, the number of the call that started it, and whether it was killed. -/
structure Traced (Handle : Type) where
  number : Nat
  handle : Handle
  killed : Bool := false
  deriving DecidableEq, Repr

/-- The backend, with the outcome of every call of `spawn`. -/
def Login.traced (login : Login) : Login where
  State := login.State × List Bool
  Handle := Traced login.Handle
  spawn state request :=
    ((login.spawn state.1 request).1.map (fun handle => { number := state.2.length, handle }),
      (login.spawn state.1 request).2,state.2 ++ [(login.spawn state.1 request).1.isSome])
  write pty bytes := ((login.write pty.handle bytes).1,{ pty with handle := (login.write pty.handle bytes).2 })
  read pty := ((login.read pty.handle).1,{ pty with handle := (login.read pty.handle).2 })
  tryWait pty := ((login.tryWait pty.handle).1,{ pty with handle := (login.tryWait pty.handle).2 })
  kill pty := { pty with handle := login.kill pty.handle, killed := true }
  setWinsize pty rows cols := { pty with handle := login.setWinsize pty.handle rows cols }
  setNonblocking pty := { pty with handle := login.setNonblocking pty.handle }

variable {snow : Snow} {em : Emulator} {login : Login}

/-- What a run is followed by, of one session: whether it has a screen, the number of its
terminal and whether that was killed, whether it is over, and whose it is. -/
structure View where
  screen : Bool
  terminal : Option (Nat × Bool)
  ended : Bool
  key : Bytes
  deriving DecidableEq, Repr

namespace ServerSession

def view (s : ServerSession snow em login.traced) : View where
  screen := s.shell.isSome
  terminal := s.pty.map (fun pty => (pty.number,pty.killed))
  ended := s.exitStatus.isSome
  key := s.clientKey

/-- The shell of the session has no terminal any more: its child has exited. -/
def childGone (s : ServerSession snow em login) : Bool := s.shell.isSome && s.pty.isNone

/-- The child has exited when the tick looks, after its output was read. -/
def exits (s : ServerSession snow em login) : Bool :=
  s.exitStatus.isNone && s.drainPty.pty.any (fun pty => (login.tryWait pty).1.isSome)

end ServerSession

namespace ServerCore

/-- The calls of the server's driver. A hash map is walked in the order given. -/
inductive Call where
  | handlePacket (order : List SessionId) (src : SocketAddr) (buf : Bytes)
  | tick (order : List SessionId)
  | takeStreamEvents
  | takeRemoteForwardRequests
  | takeAgentSocketRequests
  | openStream (sid : SessionId) (kind : StreamKind) (metadata : Bytes)
  | streamRead (sid : SessionId) (id : Nat)
  | streamWrite (sid : SessionId) (id : Nat) (data : Bytes)
  | streamCloseStatus (sid : SessionId) (id : Nat) (status : Int)
  | streamReset (sid : SessionId) (id : Nat)
  deriving DecidableEq, Repr

/-- One call. An order that is not one of the sessions is never that of the map. No state follows
a panic; it is taken for a call that changes nothing. -/
def call (c : ServerCore snow em login) : Call → ServerCore snow em login
  | .handlePacket order src buf => if order.isPerm c.sessions.keys then (c.handlePacket order src buf).2 else c
  | .tick order => if order.isPerm c.sessions.keys then ((c.tick order).map Prod.snd).getD c else c
  | .takeStreamEvents => c.takeStreamEvents.2
  | .takeRemoteForwardRequests => c.takeRemoteForwardRequests.2
  | .takeAgentSocketRequests => c.takeAgentSocketRequests.2
  | .openStream sid kind metadata => (c.openStream sid kind metadata).2
  | .streamRead sid id => (c.streamRead sid id).2
  | .streamWrite sid id data => c.streamWrite sid id data
  | .streamCloseStatus sid id status => c.streamCloseStatus sid id status
  | .streamReset sid id => c.streamReset sid id

/-- The frames of a datagram, and the session they are for. -/
def frames (c : ServerCore snow em login) (src : SocketAddr) (buf : Bytes) : Option (SessionId × List Frame) :=
  match parsePacket buf with
  | .ok (.transport sid _ _) =>
    (c.sessions[sid]?).bind (fun s => (s.session.openPacket src buf).1.toOption.map (fun frames => (sid,frames)))
  | _ => none

/-- The handshake that a message is read by. -/
def handshaker (c : ServerCore snow em login) (sid : SessionId) (body : Bytes) : Option (Handshaker snow) :=
  if c.sessions.contains sid then none
  else
    match c.pending[sid]? with
    | some hs => some hs
    | none =>
      if body.length + 9 < minHandshakeInit ∨ maxPendingHandshakes ≤ c.pending.size then none
      else (Handshaker.server snow c.privateKey sid (ControlMsg.utf8 pkgVersion)).toOption

/-- The session id of a handshake whose last message the datagram is. -/
def finishes (c : ServerCore snow em login) (buf : Bytes) : Option SessionId :=
  match parsePacket buf with
  | .ok (.handshake sid body) =>
    if (c.handshaker sid body).any (fun hs => (hs.read body).1.toOption.any (·.finished)) then some sid else none
  | _ => none

/-- A frame that asks for a shell. -/
def asks : Frame → Bool
  | .control data =>
    match ControlMsg.decode data with
    | .ok (.openShell _ _ _ _) => true
    | _ => false
  | _ => false

/-- A frame that says the client is done. -/
def leaves : Frame → Bool
  | .control data =>
    match ControlMsg.decode data with
    | .ok .bye => true
    | _ => false
  | _ => false

/-- The session ids `spawn` succeeded for, each time. -/
def started (c : ServerCore snow em login.traced) : List SessionId :=
  ((c.spawned.zip c.backend.2).filter (·.2)).map (·.1.1)

def view (c : ServerCore snow em login.traced) (sid : SessionId) : Option View := (c.sessions[sid]?).map (·.view)

end ServerCore

namespace ServerSession

variable (s : ServerSession snow em login.traced)

theorem onInput_view (offset : Nat) (data : Bytes) : (s.onInput offset data).2.view = s.view := by
  unfold onInput
  cases shell : s.shell with
  | none => rfl
  | some shell' =>
    cases pty : s.pty <;> simp only [view,shell,pty] <;> rfl

theorem onStateAck_view (seq : Nat) : (s.onStateAck seq).view = s.view := by
  simp [view,onStateAck]

theorem resize_view (cols rows : UInt16) : (s.resize cols rows).view = s.view := by
  simp [view,resize,Login.traced,Function.comp_def]

theorem sealTo_eq (s : ServerSession snow em login) (frames : List Frame) :
    ∃ session, (s.sealTo frames).2 = { s with session } := by
  unfold sealTo
  split
  · exact ⟨_,rfl⟩
  · exact ⟨_,rfl⟩

theorem announceVersion_eq (s : ServerSession snow em login) :
    ∃ session versionSent, s.announceVersion.2 = { s with session, versionSent } := by
  unfold announceVersion
  split
  · exact ⟨_,_,rfl⟩
  · obtain ⟨session,eq⟩ := s.sealTo_eq [.control (ControlMsg.serverVersion pkgVersion).encode]
    dsimp only
    rw [eq]
    exact ⟨_,_,rfl⟩

theorem emitDiff_eq (s : ServerSession snow em login) :
    ∃ shell session, s.emitDiff.2 = { s with shell, session } ∧ shell.isSome = s.shell.isSome := by
  unfold emitDiff
  split
  · rename_i shell addr held _
    dsimp only
    rw [held]
    split
    · exact ⟨_,_,rfl,rfl⟩
    · obtain ⟨session,eq⟩ := sealTo_eq { s with shell := some shell.pollDiff.2 } [_]
      rw [eq]
      exact ⟨_,_,rfl,rfl⟩
  · exact ⟨_,_,rfl,rfl⟩

theorem emitStreams_eq (s : ServerSession snow em login) :
    ∃ session mux, s.emitStreams.2.2 = { s with session, mux } := by
  unfold emitStreams
  dsimp only
  split
  · exact ⟨_,_,rfl⟩
  split
  · exact ⟨_,_,rfl⟩
  split <;> exact ⟨_,_,rfl⟩

/-- Reading and answering keeps whether there is a screen, and the number of the terminal. -/
theorem feed_view {sp sp' : Option (ServerShell em) × login.traced.Handle} {bytes : Bytes} (fed : feed sp bytes = some sp') :
    sp'.1.isSome = sp.1.isSome ∧ sp'.2.number = sp.2.number ∧ sp'.2.killed = sp.2.killed := by
  unfold feed at fed
  split at fed
  · cases fed
    exact ⟨rfl,rfl,rfl⟩
  · rename_i shell held
    obtain ⟨after,_,rfl⟩ := Option.map_eq_some_iff.mp fed
    rw [held]
    dsimp only
    split <;> exact ⟨rfl,rfl,rfl⟩

theorem drainPty_view : s.drainPty.view = s.view := by
  rcases s.drainPty_cases with same | ⟨pty,shell,pty',held,fed,drained⟩
  · rw [same]
  · obtain ⟨screen,number,killed⟩ := feeds_keep
      (fun sp : Option (ServerShell em) × login.traced.Handle => sp.1.isSome = s.shell.isSome ∧
        sp.2.number = pty.number ∧ sp.2.killed = pty.killed)
      (fun _ _ _ fed old => ⟨(feed_view fed).1.trans old.1,(feed_view fed).2.1.trans old.2.1,(feed_view fed).2.2.trans old.2.2⟩)
      fed ⟨rfl,rfl,rfl⟩
    dsimp only at screen number killed
    rw [drained]
    simp only [view,held,Option.map_some,screen,number,killed]

theorem drainPty_exitStatus (s : ServerSession snow em login) : s.drainPty.exitStatus = s.exitStatus := by
  rw [s.drainPty_next]

/-- The child has exited: the session is over and without a terminal. Else nothing is seen. -/
theorem detectExit_view :
    (s.detectExit.view = { s.view with terminal := none, ended := true } ∧ s.exitStatus = none ∧
      s.pty.any (fun pty => (login.traced.tryWait pty).1.isSome) = true) ∨ s.detectExit.view = s.view := by
  unfold detectExit
  split
  · rename_i pty running held
    split
    · rename_i status _ answer
      refine .inl ⟨rfl,running,?_⟩
      simp [held,answer]
    · rename_i pty' answer
      refine .inr ?_
      have same : pty' = { pty with handle := (login.tryWait pty.handle).2 } := (congrArg Prod.snd answer).symm
      simp only [view,held,same]
      rfl
  · exact .inr rfl

theorem noticeExit_view :
    s.noticeExit.2.2.view = s.view ∧ (s.noticeExit.2.1 = true → s.exitStatus.isSome = true) := by
  unfold noticeExit
  cases held : s.exitStatus with
  | none => exact ⟨rfl,nofun⟩
  | some status =>
    obtain ⟨session,eq⟩ := s.sealTo_eq [.control (ControlMsg.exit status).encode]
    dsimp only
    rw [eq]
    exact ⟨rfl,fun _ => rfl⟩

/-- Everything a tick does to a session: it is reaped, its child is found to have exited, or it
stays as it is; and it is over if the tick is done with it. -/
theorem tick_cases :
    (s.reaped = true ∧ s.tick.2.2.1 = true) ∨
    (s.tick.2.2.1 = true → s.tick.2.2.2.view.ended = true) ∧
      ((s.exits = true ∧ s.tick.2.2.2.view = { s.view with terminal := none, ended := true }) ∨
        s.tick.2.2.2.view = s.view) := by
  unfold tick
  dsimp only
  split
  · rename_i late
    refine .inl ⟨?_,rfl⟩
    have reached := late.1
    simp only [reaped,late.2,Bool.and_true,decide_eq_true_eq]
    omega
  · refine .inr ?_
    obtain ⟨session,sent,announced⟩ := announceVersion_eq { s with idleTicks := min (s.idleTicks + 1) u32Max }
    rw [announced]
    generalize ready : ({ s with idleTicks := min (s.idleTicks + 1) u32Max, session := session, versionSent := sent } :
      ServerSession snow em login.traced) = t
    have seen : t.view = s.view := by rw [← ready]; rfl
    have same : t.drainPty.pty = s.drainPty.pty := (drainPty_congr (by rw [← ready]) (by rw [← ready])).2
    have status : t.drainPty.exitStatus = s.exitStatus := by rw [drainPty_exitStatus,← ready]
    obtain ⟨shell,session,sent,screen⟩ := t.drainPty.emitDiff_eq
    rw [sent]
    obtain ⟨session,mux,streamed⟩ := emitStreams_eq { t.drainPty with shell := shell, session := session }
    rw [streamed]
    generalize settled : ({ t.drainPty with shell := shell, session := session, mux := mux } :
      ServerSession snow em login.traced) = u
    have seen' : u.view = s.view := by
      rw [← seen,← t.drainPty_view,← settled]
      simp only [view,screen]
    obtain ⟨notice,done⟩ := u.detectExit.noticeExit_view
    rw [notice]
    refine ⟨done,?_⟩
    rcases u.detectExit_view with ⟨gone,running,exited⟩ | still
    · refine .inl ⟨?_,by rw [gone,seen']⟩
      rw [← settled] at running exited
      rw [status] at running
      rw [same] at exited
      simp only [exits,running,exited,Option.isNone_none,Bool.and_self]
    · exact .inr (still.trans seen')

end ServerSession

namespace ServerCore

/-- The two logs of calls of `spawn` go together. -/
def Aligned (c : ServerCore snow em login.traced) : Prop := c.spawned.length = c.backend.2.length

/-- Nothing of this is seen. -/
structure Alike (c d : ServerCore snow em login.traced) : Prop where
  view : d.view = c.view
  log : c.Aligned → d.Aligned ∧ d.started = c.started

variable {c d e : ServerCore snow em login.traced}

theorem Alike.refl (c : ServerCore snow em login.traced) : Alike c c := ⟨rfl,fun aligned => ⟨aligned,rfl⟩⟩

theorem log_of_eq (spawned : d.spawned = c.spawned) (backend : d.backend = c.backend) (aligned : c.Aligned) :
    d.Aligned ∧ d.started = c.started := by
  unfold Aligned started
  rw [spawned,backend]
  exact ⟨aligned,rfl⟩

theorem alike_of_eq (sessions : d.sessions = c.sessions) (spawned : d.spawned = c.spawned)
    (backend : d.backend = c.backend) : Alike c d := by
  refine ⟨?_,log_of_eq spawned backend⟩
  funext sid
  simp only [view,sessions]

/-- One session in the place of itself. -/
theorem view_insert {sid : SessionId} {t : ServerSession snow em login.traced}
    (sessions : d.sessions = c.sessions.insert sid t) : d.view = Function.update c.view sid (some t.view) := by
  funext k
  simp only [view,sessions,Function.update_apply,Std.TreeMap.getElem?_insert]
  by_cases same : k = sid
  · rw [if_pos same,if_pos (same ▸ Std.ReflCmp.compare_self)]
    rfl
  · rw [if_neg same,if_neg fun eq => same (Std.LawfulEqCmp.eq_of_compare eq).symm]

theorem alike_insert {sid : SessionId} {s t : ServerSession snow em login.traced} (held : c.sessions[sid]? = some s)
    (sessions : d.sessions = c.sessions.insert sid t) (same : t.view = s.view) (spawned : d.spawned = c.spawned)
    (backend : d.backend = c.backend) : Alike c d := by
  refine ⟨?_,log_of_eq spawned backend⟩
  rw [view_insert sessions,same]
  refine Function.update_eq_self_iff.mpr ?_
  simp only [view,held,Option.map_some]

theorem update_alike (c : ServerCore snow em login.traced) (sid : SessionId)
    {f : ServerSession snow em login.traced → ServerSession snow em login.traced} (same : ∀ s, (f s).view = s.view) :
    Alike c (c.update sid f) := by
  unfold update
  split
  · exact .refl c
  · rename_i s held
    exact alike_insert held rfl (same s) rfl rfl

/-- What one frame can do: nothing that is seen, start a shell where there is no terminal, or
end the session. -/
inductive Effect (sid : SessionId) (frame : Frame) (c d : ServerCore snow em login.traced) : Prop
  | alike (same : Alike c d)
  | opened (asked : asks frame = true) (v : View) (held : c.view sid = some v) (bare : v.terminal = none) (number : Nat)
    (view : d.view = Function.update c.view sid (some { v with screen := true, terminal := some (number,false) }))
    (log : c.Aligned → d.Aligned ∧ d.started = c.started ++ [sid])
  | left (asked : leaves frame = true) (v : View) (held : c.view sid = some v)
    (view : d.view = Function.update c.view sid (some { v with ended := true }))
    (log : c.Aligned → d.Aligned ∧ d.started = c.started)

/-- One more call of `spawn`, and its outcome. -/
theorem log_append {sid : SessionId} {key : Bytes} {outcome : Bool} (spawned : d.spawned = c.spawned ++ [(sid,key)])
    (backend : d.backend.2 = c.backend.2 ++ [outcome]) (aligned : c.Aligned) :
    d.Aligned ∧ d.started = c.started ++ (if outcome then [sid] else []) := by
  unfold Aligned started
  rw [spawned,backend,List.zip_append aligned]
  refine ⟨?_,?_⟩
  · simp only [List.length_append,List.length_singleton]
    exact congrArg (· + 1) aligned
  · cases outcome <;> simp

theorem openShell_effect {sid : SessionId} {frame : Frame} (asked : asks frame = true) (cols rows : UInt16) (term : String)
    (agent : Bool) : Effect sid frame c (c.openShell sid cols rows term agent) := by
  unfold openShell
  cases held : c.sessions[sid]? with
  | none => exact .alike (.refl c)
  | some s =>
    dsimp only
    split
    · exact .alike (.refl c)
    rename_i bare
    have bare : s.pty = none := by simpa using bare
    generalize call : SpawnRequest.mk _ _ _ _ _ _ = request
    cases answer : (login.spawn c.backend.1 request).1 with
    | none =>
      have spawned : (login.traced.spawn c.backend request).1 = none := by simp only [Login.traced,answer,Option.map_none]
      rw [spawned]
      dsimp only
      refine .alike ⟨rfl,fun aligned => ?_⟩
      have log := log_append (c := c) (d := { c with
        backend := (login.traced.spawn c.backend request).2
        spawned := c.spawned ++ [(sid,s.clientKey)] }) rfl rfl aligned
      rw [answer] at log
      simpa using log
    | some handle =>
      have spawned : (login.traced.spawn c.backend request).1 = some { number := c.backend.2.length, handle } := by
        simp only [Login.traced,answer,Option.map_some]
      rw [spawned]
      dsimp only
      refine .opened asked s.view ?_ ?_ c.backend.2.length ((view_insert rfl).trans ?_) (fun aligned => ?_)
      · simp only [view,held,Option.map_some]
      · simp only [ServerSession.view,bare,Option.map_none]
      · rfl
      · refine @log_append _ _ _ c _ sid s.clientKey true rfl ?_ aligned
        simp only [Login.traced,answer,Option.isSome_some]

theorem onFrame_effect (sid : SessionId) (replies : List Frame) (c : ServerCore snow em login.traced) (frame : Frame) :
    Effect sid frame c (onFrame sid (replies,c) frame).2 := by
  cases frame with
  | input offset data =>
    unfold onFrame
    dsimp only
    split
    · exact .alike (.refl c)
    · rename_i s held
      exact .alike (alike_insert held rfl (s.onInput_view offset data) rfl rfl)
  | control data =>
    unfold onFrame
    dsimp only
    split
    · rename_i msg decoded
      cases msg with
      | openShell cols rows term agent => exact openShell_effect (by simp only [asks,decoded]) cols rows term agent
      | resize cols rows => exact .alike (c.update_alike sid fun s => s.resize_view cols rows)
      | bye =>
        unfold handleControl update
        dsimp only
        cases held : c.sessions[sid]? with
        | none => exact .alike (.refl c)
        | some s =>
          refine .left (by simp only [leaves,decoded]) s.view (by simp only [view,held,Option.map_some]) ?_ (log_of_eq rfl rfl)
          exact view_insert (t := s.bye) rfl
      | _ => exact .alike (alike_of_eq rfl rfl rfl)
    · exact .alike (.refl c)
  | ack seq => exact .alike (c.update_alike sid fun s => s.onStateAck_view seq)
  | resize => exact .alike (.refl c)
  | ping => exact .alike (.refl c)
  | pong => exact .alike (.refl c)
  | stateDiff => exact .alike (.refl c)
  | _ => exact .alike (c.update_alike sid fun s => rfl)

theorem surfaceEvents_alike (c : ServerCore snow em login.traced) (sid : SessionId) : Alike c (c.surfaceEvents sid) := by
  unfold surfaceEvents
  split
  · exact .refl c
  · rename_i s held
    exact alike_insert held rfl rfl rfl rfl

theorem sendReplies_alike (c : ServerCore snow em login.traced) (sid : SessionId) (replies : List Frame) :
    Alike c (c.sendReplies sid replies).2 := by
  unfold sendReplies
  split
  · exact .refl c
  rename_i s held
  split
  · exact .refl c
  split
  · exact .refl c
  split <;> exact alike_insert held rfl rfl rfl rfl

/-- One step of the server inside a packet with these frames. -/
def Moves (sid : SessionId) (frames : List Frame) (c d : ServerCore snow em login.traced) : Prop :=
  Alike c d ∨ ∃ frame ∈ frames, Effect sid frame c d

/-- A transport packet is nothing that is seen, or one frame after the other. -/
theorem handleTransport_moves (c : ServerCore snow em login.traced) (src : SocketAddr) (sid : SessionId) (buf : Bytes) :
    Alike c (c.handleTransport src sid buf).2 ∨
      ∃ s frames, c.sessions[sid]? = some s ∧ (s.session.openPacket src buf).1 = .ok frames ∧
        Relation.ReflTransGen (Moves sid frames) c (c.handleTransport src sid buf).2 := by
  unfold handleTransport
  cases held : c.sessions[sid]? with
  | none => exact .inl (.refl c)
  | some s =>
    dsimp only
    cases opened : s.session.openPacket src buf with
    | mk outcome session =>
      cases outcome with
      | error => exact .inl (alike_insert held rfl rfl rfl rfl)
      | ok frames =>
        refine .inr ⟨s,frames,rfl,by rw [opened],?_⟩
        have first : Moves sid frames c { c with sessions := c.sessions.insert sid { s with session, idleTicks := 0 } } :=
          .inl (alike_insert held rfl rfl rfl rfl)
        have all : ∀ (rest : List Frame) (rc : List Frame × ServerCore snow em login.traced), (∀ f ∈ rest, f ∈ frames) →
            Relation.ReflTransGen (Moves sid frames) rc.2 (rest.foldl (onFrame sid) rc).2 := by
          intro rest
          induction rest with
          | nil => exact fun _ _ => .refl
          | cons f rest ih =>
            intro rc members
            have here : Moves sid frames rc.2 (onFrame sid rc f).2 :=
              .inr ⟨f,members f (.head _),onFrame_effect sid rc.1 rc.2 f⟩
            exact .head here (ih _ fun g member => members g (.tail _ member))
        have received := all frames ([],{ c with sessions := c.sessions.insert sid { s with session, idleTicks := 0 } })
          fun _ member => member
        exact ((Relation.ReflTransGen.head first received).tail (.inl (surfaceEvents_alike _ sid))).tail
          (.inl (sendReplies_alike _ sid _))

/-- What a tick leaves of a session. -/
theorem tickSessions_spec (order : List SessionId) (distinct : order.Nodup) (t : Ticking snow em login) (k : SessionId) :
    (order.foldl tickSession t).core.sessions[k]? =
      (if k ∈ order then (t.core.sessions[k]?).map (fun s => s.tick.2.2.2) else t.core.sessions[k]?) ∧
    (k ∈ (order.foldl tickSession t).finished ↔
      k ∈ t.finished ∨ k ∈ order ∧ (t.core.sessions[k]?).any (fun s => s.tick.2.2.1) = true) := by
  induction order generalizing t with
  | nil => simp
  | cons sid rest ih =>
    obtain ⟨fresh,distinct⟩ := List.nodup_cons.mp distinct
    obtain ⟨sessions,finished⟩ := ih distinct (tickSession t sid)
    rw [List.foldl_cons,sessions,finished]
    unfold tickSession
    by_cases same : k = sid
    · rw [← same] at fresh ⊢
      cases held : t.core.sessions[k]? with
      | none => simp [fresh,held]
      | some s => by_cases done : s.tick.2.2.1 = true <;> simp [fresh,done]
    · cases held : t.core.sessions[sid]? with
      | none => simp [same]
      | some s =>
        have other : ∀ u : ServerSession snow em login, (t.core.sessions.insert sid u)[k]? = t.core.sessions[k]? := by
          intro u
          rw [Std.TreeMap.getElem?_insert,if_neg fun eq => same (Std.LawfulEqCmp.eq_of_compare eq).symm]
        by_cases done : s.tick.2.2.1 = true <;> simp [same,done,other]

/-- The sessions after a tick: each has ticked, and those that are over are gone. -/
theorem tickAll_sessions (c : ServerCore snow em login) {order : List SessionId}
    (walks : order.Perm c.sessions.keys) (k : SessionId) :
    (c.tickAll order).2.sessions[k]? = (c.sessions[k]?).bind (fun s => if s.tick.2.2.1 then none else some s.tick.2.2.2) := by
  have distinct : order.Nodup := walks.nodup_iff.mpr c.sessions.nodup_keys
  have walked : k ∈ order ↔ k ∈ c.sessions := by rw [walks.mem_iff,Std.TreeMap.mem_keys]
  obtain ⟨sessions,finished⟩ := tickSessions_spec order distinct { out := [], finished := [], events := [], core := c } k
  unfold tickAll
  dsimp only
  rw [TreeMaps.getElem?_foldl_erase,sessions]
  cases held : c.sessions[k]? with
  | none => simp
  | some s =>
    have member : k ∈ order := walked.mpr (Std.TreeMap.mem_iff_isSome_getElem?.mpr (by rw [held]; rfl))
    rw [held] at finished
    simp only [member,List.not_mem_nil,false_or,true_and,Option.any_some] at finished
    by_cases done : s.tick.2.2.1 = true <;> simp [finished,done,member]

/-- What a tick can do to a session: drop it because it was silent or is over, find that its
child has exited, or nothing that is seen. -/
theorem tick_effect {order : List SessionId} (walks : order.Perm c.sessions.keys) (k : SessionId) :
    (c.view k = none ∧ (c.tickAll order).2.view k = none) ∨
    ∃ s, c.sessions[k]? = some s ∧
      (((c.tickAll order).2.view k = none ∧ (s.reaped = true ∨ s.exits = true ∨ s.exitStatus.isSome = true)) ∨
        (s.exits = true ∧ (c.tickAll order).2.view k = some { s.view with terminal := none, ended := true }) ∨
        (c.tickAll order).2.view k = some s.view) := by
  unfold view
  rw [c.tickAll_sessions walks]
  cases held : c.sessions[k]? with
  | none => exact .inl ⟨rfl,rfl⟩
  | some s =>
    refine .inr ⟨s,rfl,?_⟩
    rw [Option.bind_some]
    rcases s.tick_cases with ⟨late,done⟩ | ⟨isOver,rest⟩
    · rw [if_pos done]
      exact .inl ⟨rfl,.inl late⟩
    by_cases done : s.tick.2.2.1 = true
    · rw [if_pos done]
      refine .inl ⟨rfl,.inr ?_⟩
      rcases rest with ⟨exited,_⟩ | same
      · exact .inl exited
      · exact .inr ((congrArg View.ended same).symm.trans (isOver done))
    · rw [if_neg done,Option.map_some]
      rcases rest with ⟨exited,seen⟩ | same
      · exact .inr (.inl ⟨exited,congrArg some seen⟩)
      · exact .inr (.inr (congrArg some same))

theorem tick_log (order : List SessionId) (aligned : c.Aligned) :
    (c.tickAll order).2.Aligned ∧ (c.tickAll order).2.started = c.started := by
  have kept : ∀ t : Ticking snow em login.traced, (order.foldl tickSession t).core.spawned = t.core.spawned ∧
      (order.foldl tickSession t).core.backend = t.core.backend := by
    induction order with
    | nil => exact fun _ => ⟨rfl,rfl⟩
    | cons sid rest ih =>
      intro t
      have first : (tickSession t sid).core.spawned = t.core.spawned ∧ (tickSession t sid).core.backend = t.core.backend := by
        unfold tickSession
        split <;> exact ⟨rfl,rfl⟩
      exact ⟨(ih _).1.trans first.1,(ih _).2.trans first.2⟩
  exact log_of_eq (kept _).1 (kept _).2 aligned

/-- What a handshake message can do: nothing that is seen, begin a session, or begin one with the
shell of another session of the same client. -/
inductive Admits (buf : Bytes) (c d : ServerCore snow em login.traced) : Prop
  | alike (same : Alike c d)
  | fresh (sid : SessionId) (last : c.finishes buf = some sid) (absent : c.view sid = none) (key : Bytes)
    (view : d.view = Function.update c.view sid (some { screen := false, terminal := none, ended := false, key }))
    (log : c.Aligned → d.Aligned ∧ d.started = c.started)
  | moved (sid : SessionId) (last : c.finishes buf = some sid) (absent : c.view sid = none) (old : SessionId) (v : View)
    (held : c.view old = some v) (running : v.ended = false)
    (view : d.view = Function.update (Function.update c.view old none) sid (some v))
    (log : c.Aligned → d.Aligned ∧ d.started = c.started)

theorem view_erase {sid : SessionId} (sessions : d.sessions = c.sessions.erase sid) :
    d.view = Function.update c.view sid none := by
  funext k
  simp only [view,sessions,Function.update_apply,Std.TreeMap.getElem?_erase]
  by_cases same : k = sid
  · rw [if_pos same,if_pos (same ▸ Std.ReflCmp.compare_self)]
    rfl
  · rw [if_neg same,if_neg fun eq => same (Std.LawfulEqCmp.eq_of_compare eq).symm]

/-- The shell that a client gets back was that of a running session of the same key. -/
theorem attach_view (order : List SessionId) (sid : SessionId) (session : Session snow) (key : Bytes) :
    (c.attach order sid session key).view =
        Function.update c.view sid (some { screen := false, terminal := none, ended := false, key }) ∨
      ∃ old v, c.view old = some v ∧ v.ended = false ∧
        (c.attach order sid session key).view = Function.update (Function.update c.view old none) sid (some v) := by
  unfold attach
  dsimp only
  split
  · exact .inl (view_insert (t := ServerSession.fresh session key) rfl)
  · rename_i k old found
    obtain ⟨k',_,chosen⟩ := List.exists_of_findSome?_eq_some found
    obtain ⟨old',there,matched⟩ := Option.bind_eq_some_iff.mp chosen
    split at matched
    · rename_i fit
      cases matched
      obtain ⟨same,running⟩ := fit
      have going : old.exitStatus = none := by
        simp only [ServerSession.running,Bool.and_eq_true,Option.isNone_iff_eq_none] at running
        exact running.1
      have seen : ((ServerSession.fresh session key).inherit old).view = old.view := by
        simp [ServerSession.view,ServerSession.inherit,ServerSession.fresh,going,same]
      refine .inr ⟨k,old.view,by simp only [view,there,Option.map_some],?_,?_⟩
      · simp only [ServerSession.view,going,Option.isSome_none]
      · rw [← seen,← view_erase (c := c) (d := { c with sessions := c.sessions.erase k }) rfl]
        exact view_insert (t := (ServerSession.fresh session key).inherit old) rfl
    · cases matched

theorem admitClient_admits {buf : Bytes} {sid : SessionId} (last : c.finishes buf = some sid) (absent : c.view sid = none)
    (pending : Std.TreeMap SessionId (Handshaker snow)) (order : List SessionId) (src : SocketAddr) (hs : Handshaker snow)
    (out : List (SocketAddr × Bytes)) : Admits buf c (admitClient { c with pending } order src sid hs out).2 := by
  have same : Alike c { c with pending } := alike_of_eq rfl rfl rfl
  unfold admitClient
  split
  · exact .alike same
  rename_i key _
  split
  · split
    · exact .alike same
    · rename_i session _
      have log : c.Aligned → (attach { c with pending } order sid session key).Aligned ∧
          (attach { c with pending } order sid session key).started = c.started := log_of_eq rfl rfl
      rcases @attach_view _ _ _ { c with pending } order sid session key with seen | ⟨old,v,held,running,seen⟩
      · exact .fresh sid last absent key seen log
      · exact .moved sid last absent old v held running seen log
  · exact .alike same

theorem handleHandshake_admits {buf : Bytes} {sid : SessionId} {body : Bytes}
    (parsed : parsePacket buf = .ok (.handshake sid body))
    (order : List SessionId) (src : SocketAddr) : Admits buf c (c.handleHandshake order src sid body).2 := by
  have finishes : ∀ hs, c.handshaker sid body = some hs → ∀ outcome hs', hs.read body = (.ok outcome,hs') →
      outcome.finished = true → c.finishes buf = some sid := by
    intro hs stands outcome hs' got finished
    simp [ServerCore.finishes,parsed,stands,got,Except.toOption,finished]
  have reads : ∀ (hs : Handshaker snow) (wasPending : Bool) (pending : Std.TreeMap SessionId (Handshaker snow)),
      c.handshaker sid body = some hs → c.view sid = none →
      Admits buf c (readHandshake { c with pending } order src sid hs wasPending body).2 := by
    intro hs wasPending pending stands absent
    unfold readHandshake
    split
    · dsimp only
      split <;> exact .alike (alike_of_eq rfl rfl rfl)
    · rename_i outcome hs' got
      dsimp only
      split
      · rename_i finished
        exact admitClient_admits (finishes hs stands outcome hs' got finished) absent pending order src hs' _
      · exact .alike (alike_of_eq rfl rfl rfl)
  unfold handleHandshake
  by_cases established : c.sessions.contains sid = true
  · rw [if_pos established]
    exact .alike (.refl c)
  rw [if_neg established]
  have absent : c.view sid = none := by
    have gone : c.sessions[sid]? = none := Std.TreeMap.getElem?_eq_none fun there =>
      established (Std.TreeMap.contains_iff_mem.mpr there)
    simp only [view,gone,Option.map_none]
  cases held : c.pending[sid]? with
  | some hs => exact reads hs true (c.pending.erase sid) (by simp [handshaker,established,held]) absent
  | none =>
    dsimp only
    by_cases short : body.length + 9 < minHandshakeInit
    · rw [if_pos short]
      exact .alike (.refl c)
    rw [if_neg short]
    by_cases full : maxPendingHandshakes ≤ c.pending.size
    · rw [if_pos full]
      exact .alike (.refl c)
    rw [if_neg full]
    cases made : Handshaker.server snow c.privateKey sid (ControlMsg.utf8 pkgVersion) with
    | error => exact .alike (.refl c)
    | ok hs => exact reads hs false c.pending (by simp [handshaker,established,held,short,full,made,Except.toOption]) absent

/-- The calls that are neither a datagram nor a tick are not seen. -/
theorem call_alike (a : Call) (packet : ∀ order src buf, a ≠ .handlePacket order src buf) (tick : ∀ order, a ≠ .tick order) :
    Alike c (c.call a) := by
  cases a with
  | handlePacket order src buf => exact absurd rfl (packet order src buf)
  | tick order => exact absurd rfl (tick order)
  | openStream sid kind metadata => exact c.update_alike sid fun _ => rfl
  | streamRead sid id => exact c.update_alike sid fun _ => rfl
  | streamWrite sid id data => exact c.update_alike sid fun _ => rfl
  | streamCloseStatus sid id status => exact c.update_alike sid fun _ => rfl
  | streamReset sid id => exact c.update_alike sid fun _ => rfl
  | _ => exact alike_of_eq rfl rfl rfl

/-- A tick returns, or the emulator panics and there is no next state. -/
theorem call_tick (c : ServerCore snow em login) {order : List SessionId} (walks : order.isPerm c.sessions.keys = true) :
    (c.calm order = true ∧ c.call (.tick order) = (c.tickAll order).2) ∨ (c.calm order = false ∧ c.call (.tick order) = c) := by
  have called : c.call (.tick order) = ((c.tick order).map Prod.snd).getD c := if_pos walks
  rw [called]
  unfold tick
  cases calm : c.calm order with
  | true => exact .inl ⟨rfl,rfl⟩
  | false => exact .inr ⟨rfl,rfl⟩

/-- Everything one call can do. -/
theorem call_cases (c : ServerCore snow em login.traced) (a : Call) :
    Alike c (c.call a) ∨
    (∃ order src buf sid frames, a = .handlePacket order src buf ∧ order.Perm c.sessions.keys ∧
      c.frames src buf = some (sid,frames) ∧ Relation.ReflTransGen (Moves sid frames) c (c.call a)) ∨
    (∃ order src buf, a = .handlePacket order src buf ∧ Admits buf c (c.call a)) ∨
    ∃ order, a = .tick order ∧ order.Perm c.sessions.keys ∧ c.calm order = true ∧ c.call a = (c.tickAll order).2 := by
  cases a with
  | handlePacket order src buf =>
    by_cases walks : order.isPerm c.sessions.keys = true
    · have called : c.call (.handlePacket order src buf) = (c.tryHandlePacket order src buf).2 := if_pos walks
      rw [called]
      unfold tryHandlePacket
      split
      · exact .inl (.refl c)
      · rename_i sid body parsed
        exact .inr (.inr (.inl ⟨order,src,buf,rfl,handleHandshake_admits parsed order src⟩))
      · rename_i sid nonce body parsed
        rcases c.handleTransport_moves src sid buf with same | ⟨s,frames,held,opened,moves⟩
        · exact .inl same
        · refine .inr (.inl ⟨order,src,buf,sid,frames,rfl,List.isPerm_iff.mp walks,?_,moves⟩)
          simp [ServerCore.frames,parsed,held,opened,Except.toOption]
    · have called : c.call (.handlePacket order src buf) = c := if_neg walks
      rw [called]
      exact .inl (.refl c)
  | tick order =>
    by_cases walks : order.isPerm c.sessions.keys = true
    · rcases c.call_tick walks with ⟨calm,called⟩ | ⟨_,called⟩
      · exact .inr (.inr (.inr ⟨order,rfl,List.isPerm_iff.mp walks,calm,called⟩))
      · rw [called]
        exact .inl (.refl c)
    · have called : c.call (.tick order) = c := if_neg walks
      rw [called]
      exact .inl (.refl c)
  | _ => exact .inl (call_alike _ nofun nofun)

end ServerCore
end Noissh

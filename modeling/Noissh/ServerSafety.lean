import Noissh.HandshakeSpec
import Noissh.ServerCore

/-! Who gets a session on the server, and a login through it. -/
namespace Noissh

variable {snow : Snow} {em : Emulator} {login : Login}

namespace ServerSession

/-- The session is still of the same client. -/
def Same (s t : ServerSession snow em login) : Prop :=
  t.clientKey = s.clientKey ∧ t.session.noise = s.session.noise

theorem Same.refl (s : ServerSession snow em login) : s.Same s := ⟨rfl,rfl⟩

theorem Same.trans {s t u : ServerSession snow em login} (first : s.Same t) (second : t.Same u) : s.Same u :=
  ⟨second.1.trans first.1,second.2.trans first.2⟩

theorem onInput_same (s : ServerSession snow em login) (offset : Nat) (data : Bytes) : s.Same (s.onInput offset data).2 := by
  unfold onInput
  split
  · exact .refl s
  · dsimp only
    split <;> exact ⟨rfl,rfl⟩

theorem sealTo_same (s : ServerSession snow em login) (frames : List Frame) : s.Same (s.sealTo frames).2 := by
  unfold sealTo
  split
  · exact .refl s
  · exact ⟨rfl,s.session.sealFrames_noise frames⟩

theorem announceVersion_same (s : ServerSession snow em login) : s.Same s.announceVersion.2 := by
  unfold announceVersion
  split
  · exact .refl s
  · exact s.sealTo_same _

/-- What every read keeps, they all keep. -/
theorem feeds_keep {chunks : List Bytes} {sp sp' : Option (ServerShell em) × login.Handle}
    (keeps : Option (ServerShell em) × login.Handle → Prop)
    (fed : ∀ sp bytes sp', feed sp bytes = some sp' → keeps sp → keeps sp')
    (reads : chunks.foldlM feed sp = some sp') (start : keeps sp) : keeps sp' := by
  induction chunks generalizing sp with
  | nil => exact Option.some.inj reads ▸ start
  | cons bytes rest ih =>
    rw [List.foldlM_cons] at reads
    obtain ⟨next,first,reads⟩ := Option.bind_eq_some_iff.mp reads
    exact ih reads (fed sp bytes next first start)

/-- The terminal's output was read, or nothing is said. -/
theorem drainPty_cases (s : ServerSession snow em login) :
    s.drainPty = s ∨ ∃ pty shell pty', s.pty = some pty ∧
      (login.read pty).1.foldlM feed (s.shell,(login.read pty).2) = some (shell,pty') ∧
      s.drainPty = { s with shell, pty := some pty' } := by
  unfold drainPty readPty
  cases held : s.pty with
  | none => exact .inl rfl
  | some pty =>
    dsimp only
    cases fed : (login.read pty).1.foldlM feed (s.shell,(login.read pty).2) with
    | none => exact .inl rfl
    | some sp => exact .inr ⟨pty,sp.1,sp.2,rfl,fed,rfl⟩

theorem drainPty_next (s : ServerSession snow em login) :
    s.drainPty = { s with shell := s.drainPty.shell, pty := s.drainPty.pty } := by
  rcases s.drainPty_cases with same | ⟨pty,shell,pty',_,_,drained⟩
  · rw [same]
  · rw [drained]

/-- What is read and answered depends on the screen and the terminal only. -/
theorem drainPty_congr {s t : ServerSession snow em login} (shell : t.shell = s.shell) (pty : t.pty = s.pty) :
    t.drainPty.shell = s.drainPty.shell ∧ t.drainPty.pty = s.drainPty.pty := by
  unfold drainPty readPty
  rw [pty,shell]
  cases s.pty with
  | none => exact ⟨shell,pty⟩
  | some p =>
    dsimp only
    cases (login.read p).1.foldlM feed (s.shell,(login.read p).2) with
    | none => exact ⟨shell,pty⟩
    | some sp => exact ⟨rfl,rfl⟩

theorem drainPty_same (s : ServerSession snow em login) : s.Same s.drainPty := by
  rw [s.drainPty_next]
  exact ⟨rfl,rfl⟩

theorem emitDiff_same (s : ServerSession snow em login) : s.Same s.emitDiff.2 := by
  unfold emitDiff
  split
  · dsimp only
    split
    · exact ⟨rfl,rfl⟩
    · exact sealTo_same _ _
  · exact .refl s

theorem emitStreams_same (s : ServerSession snow em login) : s.Same s.emitStreams.2.2 := by
  unfold emitStreams
  dsimp only
  split
  · exact ⟨rfl,rfl⟩
  split
  · exact ⟨rfl,rfl⟩
  · have sealed := s.session.sealMany_noise s.mux.pollTransmit.2 maxDatagramPlaintext
    split <;> rename_i eq <;> rw [eq] at sealed <;> exact ⟨rfl,sealed⟩

theorem detectExit_same (s : ServerSession snow em login) : s.Same s.detectExit := by
  unfold detectExit
  split
  · split <;> exact ⟨rfl,rfl⟩
  · exact .refl s

theorem noticeExit_same (s : ServerSession snow em login) : s.Same s.noticeExit.2.2 := by
  unfold noticeExit
  split
  · exact .refl s
  · exact s.sealTo_same _

theorem tick_same (s : ServerSession snow em login) : s.Same s.tick.2.2.2 := by
  unfold tick
  dsimp only
  split
  · exact ⟨rfl,rfl⟩
  · have version := announceVersion_same { s with idleTicks := min (s.idleTicks + 1) u32Max }
    have diff :=
      (drainPty_same _).trans (emitDiff_same (announceVersion { s with idleTicks := min (s.idleTicks + 1) u32Max }).2.drainPty)
    have rest := ((emitStreams_same _).trans (detectExit_same _)).trans
      (noticeExit_same
        (announceVersion { s with idleTicks := min (s.idleTicks + 1) u32Max }).2.drainPty.emitDiff.2.emitStreams.2.2.detectExit)
    exact (version.trans diff).trans rest

end ServerSession

namespace ServerCore

/-- The states of a server that any history of its calls leads to. -/
inductive Reachable (authorized : AuthorizedKeys) : ServerCore snow em login → Prop
  | new (privateKey : Bytes) (backend : login.State) (command : Option (List String)) (user : Option String)
    (agentDir : String) (pid : Nat) : Reachable authorized (.new privateKey authorized backend command user agentDir pid)
  | handlePacket {c : ServerCore snow em login} (order : List SessionId) (src : SocketAddr) (buf : Bytes) :
    c.Reachable authorized → Reachable authorized (c.handlePacket order src buf).2
  | tick {c d : ServerCore snow em login} {out : List (SocketAddr × Bytes)} (order : List SessionId) :
    c.Reachable authorized → c.tick order = some (out,d) → Reachable authorized d
  | takeStreamEvents {c : ServerCore snow em login} :
    c.Reachable authorized → Reachable authorized c.takeStreamEvents.2
  | takeRemoteForwardRequests {c : ServerCore snow em login} :
    c.Reachable authorized → Reachable authorized c.takeRemoteForwardRequests.2
  | takeAgentSocketRequests {c : ServerCore snow em login} :
    c.Reachable authorized → Reachable authorized c.takeAgentSocketRequests.2
  | openStream {c : ServerCore snow em login} (sid : SessionId) (kind : StreamKind) (metadata : Bytes) :
    c.Reachable authorized → Reachable authorized (c.openStream sid kind metadata).2
  | streamRead {c : ServerCore snow em login} (sid : SessionId) (id : Nat) :
    c.Reachable authorized → Reachable authorized (c.streamRead sid id).2
  | streamWrite {c : ServerCore snow em login} (sid : SessionId) (id : Nat) (data : Bytes) :
    c.Reachable authorized → Reachable authorized (c.streamWrite sid id data)
  | streamCloseStatus {c : ServerCore snow em login} (sid : SessionId) (id : Nat) (status : Int) :
    c.Reachable authorized → Reachable authorized (c.streamCloseStatus sid id status)
  | streamReset {c : ServerCore snow em login} (sid : SessionId) (id : Nat) :
    c.Reachable authorized → Reachable authorized (c.streamReset sid id)

/-- A call that admits nobody: the sessions are some of those there were, and a login is for
one of them. -/
structure Serves (c d : ServerCore snow em login) : Prop where
  authorized : d.authorized = c.authorized
  pending : d.pending = c.pending
  sessions : ∀ (sid : SessionId) (t : ServerSession snow em login), d.sessions[sid]? = some t →
    ∃ s, c.sessions[sid]? = some s ∧ s.Same t
  spawned : ∀ call ∈ d.spawned, call ∈ c.spawned ∨ ∃ s, c.sessions[call.1]? = some s ∧ call.2 = s.clientKey

variable {c d e : ServerCore snow em login}

theorem Serves.refl (c : ServerCore snow em login) : Serves c c :=
  ⟨rfl,rfl,fun _ t held => ⟨t,held,.refl t⟩,fun _ => .inl⟩

theorem Serves.trans (first : Serves c d) (second : Serves d e) : Serves c e where
  authorized := second.authorized.trans first.authorized
  pending := second.pending.trans first.pending
  sessions sid u held := by
    obtain ⟨t,there,same'⟩ := second.sessions sid u held
    obtain ⟨s,here,same⟩ := first.sessions sid t there
    exact ⟨s,here,same.trans same'⟩
  spawned call member := by
    rcases second.spawned call member with old | ⟨t,there,key⟩
    · exact first.spawned call old
    · obtain ⟨s,here,same⟩ := first.sessions _ t there
      exact .inr ⟨s,here,key.trans same.1⟩

/-- One session further on, in the place of itself. -/
theorem serves_insert {sid : SessionId} {s t : ServerSession snow em login} (held : c.sessions[sid]? = some s)
    (sessions : d.sessions = c.sessions.insert sid t) (same : s.Same t) (authorized : d.authorized = c.authorized)
    (pending : d.pending = c.pending)
    (spawned : ∀ call ∈ d.spawned, call ∈ c.spawned ∨ call = (sid,s.clientKey)) : Serves c d := by
  refine ⟨authorized,pending,fun k u there => ?_,fun call member => ?_⟩
  · rw [sessions,Std.TreeMap.getElem?_insert] at there
    split at there
    · rename_i here
      cases there
      rw [← Std.LawfulEqCmp.eq_of_compare here]
      exact ⟨s,held,same⟩
    · exact ⟨u,there,.refl u⟩
  · rcases spawned call member with old | rfl
    · exact .inl old
    · exact .inr ⟨s,held,rfl⟩

theorem update_serves (c : ServerCore snow em login) (sid : SessionId)
    {f : ServerSession snow em login → ServerSession snow em login} (same : ∀ s : ServerSession snow em login, s.Same (f s)) :
    Serves c (c.update sid f) := by
  unfold update
  split
  · exact .refl c
  · rename_i s held
    exact serves_insert held rfl (same s) rfl rfl fun _ => .inl

theorem updateMux_serves (c : ServerCore snow em login) (sid : SessionId) (f : StreamMux → StreamMux) :
    Serves c (c.update sid (fun s => { s with mux := f s.mux })) := c.update_serves sid fun _ => ⟨rfl,rfl⟩

/-- Nothing of this is changed by other fields. -/
theorem serves_of_eq (authorized : d.authorized = c.authorized) (pending : d.pending = c.pending)
    (sessions : d.sessions = c.sessions) (spawned : d.spawned = c.spawned) : Serves c d := by
  refine ⟨authorized,pending,fun sid t held => ?_,fun call member => ?_⟩
  · rw [sessions] at held
    exact ⟨t,held,.refl t⟩
  · rw [spawned] at member
    exact .inl member

theorem openShell_serves (c : ServerCore snow em login) (sid : SessionId) (cols rows : UInt16) (term : String)
    (agent : Bool) : Serves c (c.openShell sid cols rows term agent) := by
  unfold openShell
  split
  · exact .refl c
  rename_i s held
  split
  · exact .refl c
  dsimp only
  have logged : ∀ call ∈ c.spawned ++ [(sid,s.clientKey)], call ∈ c.spawned ∨ call = (sid,s.clientKey) := fun call member =>
    (List.mem_append.mp member).imp_right List.mem_singleton.mp
  split
  · refine ⟨rfl,rfl,fun _ t there => ⟨t,there,.refl t⟩,fun call member => ?_⟩
    rcases logged call member with old | rfl
    · exact .inl old
    · exact .inr ⟨s,held,rfl⟩
  · exact serves_insert held rfl ⟨rfl,rfl⟩ rfl rfl logged

theorem handleControl_serves (c : ServerCore snow em login) (sid : SessionId) (msg : ControlMsg) :
    Serves c (c.handleControl sid msg) := by
  cases msg with
  | openShell cols rows term agent => exact c.openShell_serves sid cols rows term agent
  | resize cols rows => exact c.update_serves sid fun s => ⟨rfl,rfl⟩
  | bye => exact c.update_serves sid fun s => ⟨rfl,rfl⟩
  | _ => exact serves_of_eq rfl rfl rfl rfl

theorem onFrame_serves (sid : SessionId) (replies : List Frame) (c : ServerCore snow em login) (frame : Frame) :
    Serves c (onFrame sid (replies,c) frame).2 := by
  cases frame with
  | input offset data =>
    unfold onFrame
    dsimp only
    split
    · exact .refl c
    · rename_i s held
      exact serves_insert held rfl (s.onInput_same offset data) rfl rfl fun _ => .inl
  | control data =>
    unfold onFrame
    dsimp only
    split
    · exact c.handleControl_serves sid _
    · exact .refl c
  | ack => exact c.update_serves sid fun s => ⟨rfl,rfl⟩
  | resize => exact .refl c
  | ping => exact .refl c
  | pong => exact .refl c
  | stateDiff => exact .refl c
  | _ => exact c.updateMux_serves sid fun mux => mux.onFrame _

theorem onFrames_serves (sid : SessionId) (frames : List Frame) (replies : List Frame) (c : ServerCore snow em login) :
    Serves c (frames.foldl (onFrame sid) (replies,c)).2 := by
  induction frames generalizing replies c with
  | nil => exact .refl c
  | cons frame rest ih => exact (onFrame_serves sid replies c frame).trans (ih _ _)

theorem surfaceEvents_serves (c : ServerCore snow em login) (sid : SessionId) : Serves c (c.surfaceEvents sid) := by
  unfold surfaceEvents
  split
  · exact .refl c
  · rename_i s held
    exact serves_insert held rfl (.refl s) rfl rfl fun _ => .inl

theorem sendReplies_serves (c : ServerCore snow em login) (sid : SessionId) (replies : List Frame) :
    Serves c (c.sendReplies sid replies).2 := by
  unfold sendReplies
  split
  · exact .refl c
  rename_i s held
  split
  · exact .refl c
  split
  · exact .refl c
  have sealed := s.session.sealMany_noise replies maxDatagramPlaintext
  split <;> rename_i eq <;> rw [eq] at sealed <;> exact serves_insert held rfl ⟨rfl,sealed⟩ rfl rfl fun _ => .inl

theorem handleTransport_serves (c : ServerCore snow em login) (src : SocketAddr) (sid : SessionId) (buf : Bytes) :
    Serves c (c.handleTransport src sid buf).2 := by
  unfold handleTransport
  split
  · exact .refl c
  rename_i s held
  have same := (s.session.openPacket_keeps src buf).1
  split <;> rename_i eq <;> rw [eq] at same
  · exact serves_insert held rfl ⟨rfl,same⟩ rfl rfl fun _ => .inl
  · rename_i frames session
    have first : Serves c { c with sessions := c.sessions.insert sid { s with session, idleTicks := 0 } } :=
      serves_insert held rfl ⟨rfl,same⟩ rfl rfl fun _ => .inl
    have received : Serves c (c.receive sid s session frames).2 := first.trans (onFrames_serves sid frames [] _)
    exact (received.trans (surfaceEvents_serves _ sid)).trans (sendReplies_serves _ sid _)

theorem tickSession_serves (t : Ticking snow em login) (sid : SessionId) : Serves t.core (tickSession t sid).core := by
  unfold tickSession
  split
  · exact .refl _
  · rename_i s held
    exact serves_insert held rfl s.tick_same rfl rfl fun _ => .inl

theorem tickSessions_serves (order : List SessionId) (t : Ticking snow em login) :
    Serves t.core (order.foldl tickSession t).core := by
  induction order generalizing t with
  | nil => exact .refl _
  | cons sid rest ih => exact (tickSession_serves t sid).trans (ih _)

/-- A tick that returns has ticked the sessions. -/
theorem tick_some {out : List (SocketAddr × Bytes)} {order : List SessionId} (ticked : c.tick order = some (out,d)) :
    c.calm order = true ∧ c.tickAll order = (out,d) := by
  unfold tick at ticked
  split at ticked <;> rename_i calm
  · exact ⟨calm,Option.some.inj ticked⟩
  · cases ticked

theorem tickAll_serves (c : ServerCore snow em login) (order : List SessionId) : Serves c (c.tickAll order).2 := by
  have all := tickSessions_serves order { out := [], finished := [], events := [], core := c }
  refine ⟨all.authorized,all.pending,fun sid t held => ?_,all.spawned⟩
  unfold tickAll at held
  rw [TreeMaps.getElem?_foldl_erase] at held
  split at held
  · cases held
  · exact all.sessions sid t held

/-- What a new server has, handshakes keep and every call that admits nobody keeps, holds of
all reachable servers. -/
theorem Reachable.invariant {authorized : AuthorizedKeys} {invariant : ServerCore snow em login → Prop}
    (new : ∀ privateKey backend command user agentDir pid,
      invariant (.new privateKey authorized backend command user agentDir pid))
    (handshake : ∀ c order src sid body, invariant c → invariant (c.handleHandshake order src sid body).2)
    (serves : ∀ c d, Serves c d → invariant c → invariant d)
    (reachable : c.Reachable authorized) : invariant c := by
  induction reachable with
  | new privateKey backend command user agentDir pid => exact new privateKey backend command user agentDir pid
  | handlePacket order src buf _ ih =>
    unfold ServerCore.handlePacket tryHandlePacket
    dsimp only
    split
    · exact ih
    · exact handshake _ _ _ _ _ ih
    · exact serves _ _ (handleTransport_serves _ src _ buf) ih
  | @tick c d out order _ ticked ih =>
    have serving := c.tickAll_serves order
    rw [(tick_some ticked).2] at serving
    exact serves c d serving ih
  | openStream sid kind metadata _ ih =>
    exact serves _ _ (updateMux_serves _ sid fun mux => (mux.openStream kind metadata).1) ih
  | streamRead sid id _ ih => exact serves _ _ (updateMux_serves _ sid fun mux => (mux.read id).2) ih
  | streamWrite sid id data _ ih => exact serves _ _ (updateMux_serves _ sid fun mux => mux.write id data) ih
  | streamCloseStatus sid id status _ ih => exact serves _ _ (updateMux_serves _ sid fun mux => mux.close id status) ih
  | streamReset sid id _ ih => exact serves _ _ (updateMux_serves _ sid fun mux => mux.reset id) ih
  | @takeStreamEvents c _ ih => exact serves c _ (serves_of_eq rfl rfl rfl rfl) ih
  | @takeRemoteForwardRequests c _ ih => exact serves c _ (serves_of_eq rfl rfl rfl rfl) ih
  | @takeAgentSocketRequests c _ ih => exact serves c _ (serves_of_eq rfl rfl rfl rfl) ih

/-- Every session is of an authorized key, which its handshake authenticated, and so was every
login. -/
structure Guarded (authorized : AuthorizedKeys) (c : ServerCore snow em login) : Prop where
  keys : c.authorized = authorized
  sessions : ∀ (sid : SessionId) (s : ServerSession snow em login), c.sessions[sid]? = some s →
    authorized.Lists s.clientKey ∧ s.session.noise.remoteStatic = s.clientKey
  spawned : ∀ call ∈ c.spawned, authorized.Lists call.2

variable {authorized : AuthorizedKeys}

theorem Serves.guarded (serves : Serves c d) (guarded : c.Guarded authorized) : d.Guarded authorized where
  keys := serves.authorized.trans guarded.keys
  sessions sid t held := by
    obtain ⟨s,there,key,noise⟩ := serves.sessions sid t held
    rw [key,noise]
    exact guarded.sessions sid s there
  spawned call member := by
    rcases serves.spawned call member with old | ⟨s,there,key⟩
    · exact guarded.spawned call old
    · rw [key]
      exact (guarded.sessions _ s there).1

/-- A session after a client was admitted is the new one, or was there before. -/
theorem attach_sessions {order : List SessionId} {sid : SessionId} {session : Session snow} {key : Bytes} {k : SessionId}
    {t : ServerSession snow em login} (held : (c.attach order sid session key).sessions[k]? = some t) :
    (t.clientKey = key ∧ t.session = session) ∨ c.sessions[k]? = some t := by
  unfold attach at held
  dsimp only at held
  split at held
  · rw [Std.TreeMap.getElem?_insert] at held
    split at held
    · cases held
      exact .inl ⟨rfl,rfl⟩
    · exact .inr held
  · rw [Std.TreeMap.getElem?_insert] at held
    split at held
    · cases held
      exact .inl ⟨rfl,rfl⟩
    · rw [Std.TreeMap.getElem?_erase] at held
      split at held
      · cases held
      · exact .inr held

theorem admitClient_guarded (guarded : c.Guarded authorized) (order : List SessionId) (src : SocketAddr)
    (sid : SessionId) (hs : Handshaker snow) (out : List (SocketAddr × Bytes)) :
    (c.admitClient order src sid hs out).2.Guarded authorized := by
  unfold admitClient
  split
  · exact guarded
  rename_i key learned
  split
  · rename_i listed
    split
    · exact guarded
    rename_i session made
    have same := Handshaker.intoSession_spec made
    rw [learned,Option.some_inj] at same
    refine ⟨guarded.keys,fun k t held => ?_,guarded.spawned⟩
    rcases attach_sessions held with ⟨owner,through⟩ | old
    · rw [owner,through,← same]
      rw [authorizeClient_iff,guarded.keys] at listed
      exact ⟨listed,rfl⟩
    · exact guarded.sessions k t old
  · exact guarded

theorem readHandshake_guarded (guarded : c.Guarded authorized) (order : List SessionId) (src : SocketAddr)
    (sid : SessionId) (hs : Handshaker snow) (wasPending : Bool) (body : Bytes) :
    (c.readHandshake order src sid hs wasPending body).2.Guarded authorized := by
  unfold readHandshake
  split
  · dsimp only
    split
    · exact ⟨guarded.keys,guarded.sessions,guarded.spawned⟩
    · exact guarded
  · dsimp only
    split
    · exact admitClient_guarded guarded order src sid _ _
    · exact ⟨guarded.keys,guarded.sessions,guarded.spawned⟩

theorem handleHandshake_guarded (guarded : c.Guarded authorized) (order : List SessionId) (src : SocketAddr)
    (sid : SessionId) (body : Bytes) : (c.handleHandshake order src sid body).2.Guarded authorized := by
  unfold handleHandshake
  split
  · exact guarded
  split
  · rename_i hs _
    have without : Guarded authorized { c with pending := c.pending.erase sid } :=
      ⟨guarded.keys,guarded.sessions,guarded.spawned⟩
    exact readHandshake_guarded without order src sid hs true body
  split
  · exact guarded
  split
  · exact guarded
  split
  · exact guarded
  · exact readHandshake_guarded guarded order src sid _ false body

theorem Reachable.guarded (reachable : c.Reachable authorized) : c.Guarded authorized := by
  refine reachable.invariant (fun _ _ _ _ _ _ => ?_) (fun _ order src sid body guarded => ?_) (fun _ _ serves => serves.guarded)
  · refine ⟨rfl,fun sid s held => ?_,fun call member => absurd member List.not_mem_nil⟩
    change (∅ : Std.TreeMap SessionId (ServerSession snow em login))[sid]? = some s at held
    rw [Std.TreeMap.getElem?_emptyc] at held
    cases held
  · exact handleHandshake_guarded guarded order src sid body

end ServerCore
end Noissh

import Noissh.OneShell

/-! When a terminal leaves the server. A client of the same key takes a running shell over when
it connects, whatever it connects for, and its farewell then ends that shell. An emulator that
panics ends all of them. -/
namespace Noissh

variable {snow : Snow} {em : Emulator} {login : Login}

namespace ServerCore

/-- The session a datagram brings such a frame for. -/
def brings (p : Frame → Bool) (c : ServerCore snow em login) : Call → List SessionId
  | .handlePacket order src buf =>
    match c.frames src buf with
    | some (sid,frames) => if order.isPerm c.sessions.keys ∧ frames.any p then [sid] else []
    | none => []
  | _ => []

/-- The call comes to its end: a tick in which no emulator panics, or another call. -/
def returns (c : ServerCore snow em login) : Call → Bool
  | .tick order => c.calm order
  | _ => true

/-- What a call leaves of the server: nothing where an emulator panics, all terminals with it. -/
def next (c : ServerCore snow em login) (a : Call) : Option (ServerCore snow em login) :=
  if c.returns a then some (c.call a) else none

/-- The server, and the sessions of those there are whose client has asked for a shell, and has
said that it is done. -/
structure Watched (snow : Snow) (em : Emulator) (login : Login) where
  core : ServerCore snow em login.traced
  asked : List SessionId := []
  left : List SessionId := []

namespace Watched

/-- A session that begins or ends with the call is not remembered. -/
def step (w : Watched snow em login) (a : Call) : Watched snow em login where
  core := w.core.call a
  asked := (w.asked ++ w.core.brings asks a).filter (fun sid =>
    w.core.sessions.contains sid && (w.core.call a).sessions.contains sid)
  left := (w.left ++ w.core.brings leaves a).filter (fun sid =>
    w.core.sessions.contains sid && (w.core.call a).sessions.contains sid)

/-- The client that says it is done has asked for a shell, if its session holds a terminal. -/
def leavesOwn (w : Watched snow em login) (src : SocketAddr) (buf : Bytes) : Bool :=
  match w.core.frames src buf with
  | none => true
  | some (sid,frames) =>
    !(frames.any leaves && (w.core.sessions[sid]?).any (·.pty.isSome)) || decide (sid ∈ w.asked) || frames.any asks

def proper (w : Watched snow em login) : Call → Bool
  | .handlePacket _ src buf => w.core.notAfterExit src buf && w.leavesOwn src buf
  | a => w.core.returns a

end Watched

/-- A terminal of this number is with some session, and was not killed. -/
def Attached (c : ServerCore snow em login.traced) (number : Nat) : Prop :=
  ∃ sid v, c.view sid = some v ∧ v.terminal = some (number,false)

/-- No terminal was killed, each has a screen, and a session that is over while it has one is
one whose client has asked for it and is done. -/
structure Owned (asked left : List SessionId) (c : ServerCore snow em login.traced) : Prop where
  alive : ∀ sid v number killed, c.view sid = some v → v.terminal = some (number,killed) → v.screen = true ∧ killed = false
  done : ∀ sid v, c.view sid = some v → v.ended = true →
    (v.terminal.isSome = true → sid ∈ asked ∧ sid ∈ left) ∧ (v.screen = false → sid ∈ left)

variable {c d : ServerCore snow em login.traced} {asked left : List SessionId}

theorem Owned.alike (owned : Owned asked left c) (same : Alike c d) : Owned asked left d := by
  refine ⟨fun sid v number killed held => ?_,fun sid v held => ?_⟩
  · exact owned.alive sid v number killed (same.view ▸ held)
  · exact owned.done sid v (same.view ▸ held)

/-- One session in the place of another. -/
theorem Owned.insert (owned : Owned asked left c) {sid : SessionId} {v : View}
    (view : ∀ k u, k ≠ sid → d.view k = some u → c.view k = some u) (here : d.view sid = some v)
    (alive : ∀ number killed, v.terminal = some (number,killed) → v.screen = true ∧ killed = false)
    (done : v.ended = true → (v.terminal.isSome = true → sid ∈ asked ∧ sid ∈ left) ∧ (v.screen = false → sid ∈ left)) :
    Owned asked left d := by
  refine ⟨fun k u number killed held => ?_,fun k u held => ?_⟩
  · by_cases same : k = sid
    · subst same
      cases here.symm.trans held
      exact alive number killed
    · exact owned.alive k u number killed (view k u same held)
  · by_cases same : k = sid
    · subst same
      cases here.symm.trans held
      exact done
    · exact owned.done k u (view k u same held)

/-- One frame: what it asks is remembered, and a farewell is for a terminal of one's own. -/
theorem Owned.effect (owned : Owned asked left c) {sid : SessionId} {frame : Frame} (effect : Effect sid frame c d)
    (asking : asks frame = true → sid ∈ asked ∧ ∀ v, c.view sid = some v → ¬(v.screen = true ∧ v.terminal = none))
    (leaving : leaves frame = true → sid ∈ left ∧ ∀ v, c.view sid = some v → v.terminal.isSome = true → sid ∈ asked) :
    Owned asked left d := by
  cases effect with
  | alike same => exact owned.alike same
  | opened asks v held bare number view log =>
    obtain ⟨member,present⟩ := asking asks
    have dark : v.screen = false := Bool.not_eq_true _ ▸ fun screen => present v held ⟨screen,bare⟩
    refine owned.insert (fun k u other there => ?_) (by rw [view,Function.update_self])
      (fun n killed same => ?_) (fun ended => ?_)
    · rwa [view,Function.update_of_ne other] at there
    · cases same
      exact ⟨rfl,rfl⟩
    · exact ⟨fun _ => ⟨member,(owned.done sid v held ended).2 dark⟩,nofun⟩
  | left leaves v held view log =>
    obtain ⟨member,own⟩ := leaving leaves
    refine owned.insert (fun k u other there => ?_) (by rw [view,Function.update_self]) (fun n killed => ?_) (fun _ => ?_)
    · rwa [view,Function.update_of_ne other] at there
    · exact owned.alive sid v n killed held
    · exact ⟨fun terminal => ⟨own v held terminal,member⟩,fun _ => member⟩

/-- The terminals of the sessions, and which sessions there are, stay as they are in a packet. -/
structure Rests (c d : ServerCore snow em login.traced) : Prop where
  live : ∀ k, (d.view k).isSome = (c.view k).isSome
  terminal : ∀ k v number, c.view k = some v → v.terminal = some (number,false) →
    ∃ u, d.view k = some u ∧ u.terminal = some (number,false)

theorem Alike.rests (same : Alike c d) : Rests c d := by
  refine ⟨fun k => by rw [same.view],fun k v number held terminal => ⟨v,?_,terminal⟩⟩
  rw [same.view]
  exact held

/-- One session changes and keeps the terminal it had. -/
theorem Rests.update {sid : SessionId} {v v' : View} (held : c.view sid = some v)
    (view : d.view = Function.update c.view sid (some v'))
    (kept : ∀ number, v.terminal = some (number,false) → v'.terminal = some (number,false)) : Rests c d := by
  refine ⟨fun k => ?_,fun k u n there terminal => ?_⟩
  · rw [view,Function.update_apply]
    split
    · rename_i same
      rw [same,held]
      rfl
    · rfl
  · rw [view,Function.update_apply]
    split
    · rename_i same
      cases held.symm.trans (same ▸ there)
      exact ⟨v',rfl,kept n terminal⟩
    · exact ⟨u,there,terminal⟩

theorem Effect.rests {sid : SessionId} {frame : Frame} (effect : Effect sid frame c d) : Rests c d := by
  cases effect with
  | alike same => exact same.rests
  | opened asks v held bare number view log =>
    refine .update held view fun n terminal => ?_
    rw [bare] at terminal
    cases terminal
  | left leaves v held view log => exact .update held view fun n terminal => terminal

theorem packet_rests {sid : SessionId} {frames : List Frame} (moves : Relation.ReflTransGen (Moves sid frames) c d) :
    Rests c d := by
  induction moves with
  | refl => exact (Alike.refl c).rests
  | @tail b e _ move ih =>
    have next : Rests b e := by
      rcases move with same | ⟨frame,_,effect⟩
      · exact same.rests
      · exact effect.rests
    refine ⟨fun k => (next.live k).trans (ih.live k),fun k v number held terminal => ?_⟩
    obtain ⟨u,there,terminal⟩ := ih.terminal k v number held terminal
    exact next.terminal k u number there terminal

theorem Owned.packet (owned : Owned asked left c) {sid : SessionId} {frames : List Frame}
    (moves : Relation.ReflTransGen (Moves sid frames) c d)
    (asking : frames.any asks = true → sid ∈ asked ∧ ∀ v, c.view sid = some v → ¬(v.screen = true ∧ v.terminal = none))
    (leaving : frames.any leaves = true → sid ∈ left ∧ ∀ v, c.view sid = some v → v.terminal.isSome = true → sid ∈ asked) :
    Owned asked left d := by
  have both : Owned asked left d ∧
      (frames.any asks = true → ∀ v, d.view sid = some v → ¬(v.screen = true ∧ v.terminal = none)) ∧
      (frames.any leaves = true → ∀ v, d.view sid = some v → v.terminal.isSome = true → sid ∈ asked) := by
    induction moves with
    | refl => exact ⟨owned,fun some => (asking some).2,fun some => (leaving some).2⟩
    | tail _ move ih =>
      obtain ⟨owned,present,own⟩ := ih
      rcases move with same | ⟨frame,member,effect⟩
      · refine ⟨owned.alike same,fun some v there => ?_,fun some v there => ?_⟩
        · exact present some v (same.view ▸ there)
        · exact own some v (same.view ▸ there)
      have among : ∀ p : Frame → Bool, p frame = true → frames.any p = true := fun p found =>
        List.any_eq_true.mpr ⟨frame,member,found⟩
      refine ⟨owned.effect effect (fun asks => ?_) (fun leaves => ?_),fun some =>
        effect.present (present some),fun some v there => ?_⟩
      · exact ⟨(asking (among _ asks)).1,present (among _ asks)⟩
      · exact ⟨(leaving (among _ leaves)).1,own (among _ leaves)⟩
      · cases effect with
        | alike same => exact own some v (same.view ▸ there)
        | opened asks u held bare number view log => exact fun _ => (asking (among _ asks)).1
        | left leaves u held view log =>
          rw [view,Function.update_self] at there
          cases there
          exact own some u held
  exact both.1

theorem Owned.admits (owned : Owned asked left c) {buf : Bytes} (admits : Admits buf c d) : Owned asked left d := by
  cases admits with
  | alike same => exact owned.alike same
  | fresh sid last absent key view log =>
    refine owned.insert (fun k u other there => ?_) (by rw [view,Function.update_self])
      (fun n killed some => ?_) (fun ended => ?_)
    · rwa [view,Function.update_of_ne other] at there
    · cases some
    · cases ended
  | moved sid last absent old v held running view log =>
    refine owned.insert (fun k u other there => ?_) (by rw [view,Function.update_self]) (fun n killed => ?_) (fun ended => ?_)
    · rw [view,Function.update_of_ne other,Function.update_apply] at there
      split at there
      · cases there
      · exact there
    · exact owned.alive old v n killed held
    · rw [running] at ended
      cases ended

/-- A child that exits has a terminal. -/
theorem exits_terminal {s : ServerSession snow em login.traced} (exited : s.exits = true) : s.view.terminal.isSome = true := by
  rw [← s.drainPty_view]
  obtain ⟨pty,held,_⟩ := (Option.any_eq_true _ _).mp (Bool.and_eq_true_iff.mp exited).2
  simp only [ServerSession.view,held,Option.map_some,Option.isSome_some]

theorem Owned.tick (owned : Owned asked left c) {order : List SessionId} (walks : order.Perm c.sessions.keys) :
    Owned asked left (c.tickAll order).2 := by
  refine ⟨fun k u number killed there terminal => ?_,fun k u there ended => ?_⟩
  · rcases tick_effect walks k with ⟨_,gone⟩ | ⟨s,held,⟨gone,_⟩ | ⟨_,exited⟩ | same⟩
    · cases gone.symm.trans there
    · cases gone.symm.trans there
    · cases exited.symm.trans there
      cases terminal
    · cases same.symm.trans there
      exact owned.alive k s.view number killed (congrArg (Option.map ServerSession.view) held) terminal
  · rcases tick_effect walks k with ⟨_,gone⟩ | ⟨s,held,⟨gone,_⟩ | ⟨exits,exited⟩ | same⟩
    · cases gone.symm.trans there
    · cases gone.symm.trans there
    · cases exited.symm.trans there
      obtain ⟨⟨number,killed⟩,terminal⟩ := Option.isSome_iff_exists.mp (exits_terminal exits)
      have screen := (owned.alive k s.view number killed (congrArg (Option.map ServerSession.view) held) terminal).1
      exact ⟨nofun,fun dark => by cases screen.symm.trans dark⟩
    · cases same.symm.trans there
      exact owned.done k s.view (congrArg (Option.map ServerSession.view) held) ended

/-- Less may be remembered, if it is of sessions that are not over. -/
theorem Owned.mono (owned : Owned asked left c) {asked' left' : List SessionId}
    (kept : ∀ k v, c.view k = some v → v.ended = true → (k ∈ asked → k ∈ asked') ∧ (k ∈ left → k ∈ left')) :
    Owned asked' left' c := by
  refine ⟨owned.alive,fun sid v held ended => ?_⟩
  obtain ⟨here,there⟩ := kept sid v held ended
  obtain ⟨terminal,dark⟩ := owned.done sid v held ended
  exact ⟨fun some => ⟨here (terminal some).1,there (terminal some).2⟩,fun off => there (dark off)⟩

/-- A session that is over was there before the call. -/
theorem call_ended (c : ServerCore snow em login.traced) (a : Call) (k : SessionId) (v : View)
    (there : (c.call a).view k = some v) (ended : v.ended = true) : (c.view k).isSome = true := by
  rcases c.call_cases a with same | ⟨order,src,buf,sid,frames,rfl,walks,opened,moves⟩ | ⟨order,src,buf,rfl,admits⟩ |
    ⟨order,rfl,walks,_,called⟩
  · rw [same.view] at there
    rw [there]
    rfl
  · rw [← (packet_rests moves).live,there]
    rfl
  · cases admits with
    | alike same =>
      rw [same.view] at there
      rw [there]
      rfl
    | fresh sid last absent key view log =>
      rw [view,Function.update_apply] at there
      split at there
      · cases there
        cases ended
      · rw [there]
        rfl
    | moved sid last absent old u held running view log =>
      rw [view,Function.update_apply] at there
      split at there
      · cases there
        cases running.symm.trans ended
      · rw [Function.update_apply] at there
        split at there
        · cases there
        · rw [there]
          rfl
  · rw [called] at there
    rcases tick_effect walks k with ⟨_,gone⟩ | ⟨s,held,_⟩
    · cases gone.symm.trans there
    · rw [view,held]
      rfl

namespace Watched

variable {w : Watched snow em login}

theorem mem_brings {order : List SessionId} {src : SocketAddr} {buf : Bytes} {sid : SessionId} {frames : List Frame}
    (p : Frame → Bool) (opened : c.frames src buf = some (sid,frames)) (walks : order.Perm c.sessions.keys)
    (found : frames.any p = true) : sid ∈ c.brings p (.handlePacket order src buf) := by
  simp only [brings,opened,List.isPerm_iff.mpr walks,found,and_self,if_true,List.mem_singleton]

theorem contains_of_view {sid : SessionId} (there : (c.view sid).isSome = true) : c.sessions.contains sid = true := by
  rw [view,Option.isSome_map] at there
  rw [Std.TreeMap.contains_eq_isSome_getElem?]
  exact there

theorem asked_of_leavesOwn {order : List SessionId} {src : SocketAddr} {buf : Bytes} {sid : SessionId} {frames : List Frame}
    (own : w.leavesOwn src buf = true) (opened : w.core.frames src buf = some (sid,frames))
    (walks : order.Perm w.core.sessions.keys) (found : frames.any leaves = true) {v : View}
    (held : w.core.view sid = some v) (terminal : v.terminal.isSome = true) :
    sid ∈ w.asked ++ w.core.brings asks (.handlePacket order src buf) := by
  obtain ⟨s,there,rfl⟩ := Option.map_eq_some_iff.mp held
  have some : s.pty.isSome = true := by
    rw [← Option.isSome_map]
    exact terminal
  simp only [leavesOwn,opened,found,there,Option.any_some,some,Bool.and_self,Bool.not_true,Bool.false_or,Bool.or_eq_true,
    decide_eq_true_eq] at own
  rcases own with before | here
  · exact List.mem_append_left _ before
  · exact List.mem_append_right _ (mem_brings asks opened walks here)

theorem after_step (owned : Owned w.asked w.left w.core) (a : Call) (guard : w.proper a = true) :
    Owned (w.step a).asked (w.step a).left (w.step a).core := by
  have both : Owned (w.asked ++ w.core.brings asks a) (w.left ++ w.core.brings leaves a) w.core :=
    owned.mono fun _ _ _ _ => ⟨List.mem_append_left _,List.mem_append_left _⟩
  have whole : Owned (w.asked ++ w.core.brings asks a) (w.left ++ w.core.brings leaves a) (w.core.call a) := by
    rcases w.core.call_cases a with
      same | ⟨order,src,buf,sid,frames,rfl,walks,opened,moves⟩ | ⟨order,src,buf,rfl,admits⟩ | ⟨order,rfl,walks,_,called⟩
    · exact both.alike same
    · obtain ⟨timely,own⟩ := Bool.and_eq_true_iff.mp guard
      refine both.packet moves (fun found => ⟨?_,present_of_notAfterExit timely opened found⟩) (fun found => ⟨?_,?_⟩)
      · exact List.mem_append_right _ (mem_brings asks opened walks found)
      · exact List.mem_append_right _ (mem_brings leaves opened walks found)
      · exact fun v held terminal => asked_of_leavesOwn own opened walks found held terminal
    · exact both.admits admits
    · rw [called]
      exact both.tick walks
  refine whole.mono fun k v there ended => ?_
  have before := contains_of_view (call_ended w.core a k v there ended)
  have after : (w.core.call a).sessions.contains k = true := contains_of_view (by rw [there]; rfl)
  have kept : (w.core.sessions.contains k && (w.core.call a).sessions.contains k) = true := by rw [before,after]; rfl
  exact ⟨fun member => List.mem_filter.mpr ⟨member,kept⟩,fun member => List.mem_filter.mpr ⟨member,kept⟩⟩

theorem new_owned (privateKey : Bytes) (authorized : AuthorizedKeys) (backend : login.traced.State)
    (command : Option (List String)) (user : Option String) (agentDir : String) (pid : Nat) :
    Owned [] [] (ServerCore.new privateKey authorized backend command user agentDir pid : ServerCore snow em login.traced) := by
  have nothing : ∀ sid, (ServerCore.new privateKey authorized backend command user agentDir pid :
      ServerCore snow em login.traced).view sid = none := new_view privateKey authorized backend command user agentDir pid
  refine ⟨fun sid v number killed held => ?_,fun sid v held => ?_⟩
  · cases held.symm.trans (nothing sid)
  · cases held.symm.trans (nothing sid)

/-- Where a terminal is after one call, or why it is gone. -/
theorem leaves_for_cause (owned : Owned w.asked w.left w.core) (a : Call) {sid : SessionId}
    {s : ServerSession snow em login.traced}
    {pty : login.traced.Handle} (held : w.core.sessions[sid]? = some s) (terminal : s.pty = some pty) :
    (w.core.call a).Attached pty.number ∨
      (∃ order, a = .tick order) ∧ (s.exits = true ∨ s.reaped = true ∨ sid ∈ w.asked ∧ sid ∈ w.left) := by
  have seen : w.core.view sid = some s.view := congrArg (Option.map ServerSession.view) held
  have numbered : s.view.terminal = some (pty.number,false) := by
    have here : s.view.terminal = some (pty.number,pty.killed) := by
      simp only [ServerSession.view,terminal]
      rfl
    rw [here,(owned.alive sid s.view _ _ seen here).2]
  rcases w.core.call_cases a with same | ⟨order,src,buf,k,frames,rfl,walks,opened,moves⟩ | ⟨order,src,buf,rfl,admits⟩ |
    ⟨order,rfl,walks,_,called⟩
  · obtain ⟨u,there,still⟩ := same.rests.terminal sid _ _ seen numbered
    exact .inl ⟨sid,u,there,still⟩
  · obtain ⟨u,there,still⟩ := (packet_rests moves).terminal sid _ _ seen numbered
    exact .inl ⟨sid,u,there,still⟩
  · refine .inl ?_
    cases admits with
    | alike same =>
      obtain ⟨u,there,still⟩ := same.rests.terminal sid _ _ seen numbered
      exact ⟨sid,u,there,still⟩
    | fresh k last absent key view log =>
      have other : sid ≠ k := fun same => by cases (same ▸ seen).symm.trans absent
      exact ⟨sid,s.view,by rw [view,Function.update_of_ne other]; exact seen,numbered⟩
    | moved k last absent old v there running view log =>
      by_cases taken : sid = old
      · subst taken
        cases seen.symm.trans there
        exact ⟨k,_,by rw [view,Function.update_self],numbered⟩
      · have other : sid ≠ k := fun same => by cases (same ▸ seen).symm.trans absent
        exact ⟨sid,s.view,by rw [view,Function.update_of_ne other,Function.update_of_ne taken]; exact seen,numbered⟩
  · rw [called]
    rcases tick_effect walks sid with ⟨absent,_⟩ | ⟨t,there,⟨_,reaped | exits | isOver⟩ | ⟨exits,_⟩ | same⟩
    · cases seen.symm.trans absent
    · cases held.symm.trans there
      exact .inr ⟨⟨order,rfl⟩,.inr (.inl reaped)⟩
    · cases held.symm.trans there
      exact .inr ⟨⟨order,rfl⟩,.inl exits⟩
    · cases held.symm.trans there
      exact .inr ⟨⟨order,rfl⟩,.inr (.inr ((owned.done sid s.view seen isOver).1 (by rw [numbered]; rfl)))⟩
    · cases held.symm.trans there
      exact .inr ⟨⟨order,rfl⟩,.inl exits⟩
    · cases held.symm.trans there
      exact .inl ⟨sid,s.view,same,numbered⟩

/-- When no shell is asked for after the child has exited, only clients that have asked for a
shell say farewell while they hold one, and no emulator panics, a terminal leaves the server in
a tick only, because its child has exited, its client was silent for too long, or its client has
asked for it and is done. -/
theorem shell_leaves_for_cause (privateKey : Bytes) (authorized : AuthorizedKeys) (backend : login.State)
    (command : Option (List String)) (user : Option String) (agentDir : String) (pid : Nat) (calls : List Call)
    (guarded : Machine.Along step (fun w a => w.proper a = true) calls
      { core := (ServerCore.new privateKey authorized (backend,[]) command user agentDir pid :
          ServerCore snow em login.traced) })
    (a : Call) {sid : SessionId} {s : ServerSession snow em login.traced} {pty : Traced login.Handle} :
    let w := Machine.run step calls
      { core := (ServerCore.new privateKey authorized (backend,[]) command user agentDir pid : ServerCore snow em login.traced) }
    w.core.sessions[sid]? = some s → s.pty = some pty → w.core.returns a = true →
      (∃ d, w.core.next a = some d ∧ d.Attached pty.number) ∨
        (∃ order, a = .tick order) ∧ (s.exits = true ∨ s.reaped = true ∨ sid ∈ w.asked ∧ sid ∈ w.left) := by
  intro w held terminal returns
  have owned : Owned w.asked w.left w.core :=
    Machine.run_invariant (fun w : Watched snow em login => Owned w.asked w.left w.core)
      (fun _ a owned guard => after_step owned a guard) calls _
      (new_owned privateKey authorized (backend,[]) command user agentDir pid) guarded
  rcases leaves_for_cause owned a held terminal with still | cause
  · exact .inl ⟨w.core.call a,if_pos returns,still⟩
  · exact .inr cause

/-- Another session of the same client. -/
def otherId : SessionId := List.replicate 8 6

def packet (sid : SessionId) (nonce : Nat) (frames : List Frame) : Bytes :=
  pktTransport :: (sid ++ toBeBytes nonce ++ (encodeFrames frames ++ Clear.tag nonce))

/-- Its handshake while the first has a shell, and its farewell. -/
def visit : List Call :=
  [.handlePacket [sampleId] (.v4 1 6) (buildHandshakePacket otherId (Clear.pad (32 + minHandshakeInit))),
    .handlePacket [sampleId] (.v4 1 6) (buildHandshakePacket otherId (clientKey.bytes ++ Clear.pad 32)),
    .handlePacket [otherId] (.v4 1 6) (packet otherId 0 [.control ControlMsg.bye.encode])]

def startState (capacity : Nat) : Watched Clear.noise silentEmulator limitedLogin where
  core := .new (List.replicate 32 7) ⟨[(clientKey,"client")]⟩ (capacity,[]) none none "/tmp" 1

/-- The first session has its shell. -/
def opened : Watched Clear.noise silentEmulator limitedLogin := Machine.run step (meet ++ [request 0]) (startState 4)

theorem shell_leaves_for_cause_opened :
    ∃ s pty, opened.core.sessions[sampleId]? = some s ∧ s.pty = some pty ∧
      ((∃ d, opened.core.next (.tick [sampleId]) = some d ∧ d.Attached pty.number) ∨
        (∃ order, Call.tick [sampleId] = .tick order) ∧
          (s.exits = true ∨ s.reaped = true ∨ sampleId ∈ opened.asked ∧ sampleId ∈ opened.left)) := by
  have found : (opened.core.sessions[sampleId]?).any (fun s => s.pty.isSome) = true := by decide +kernel
  obtain ⟨s,held,some⟩ := (Option.any_eq_true _ _).mp found
  obtain ⟨pty,terminal⟩ := Option.isSome_iff_exists.mp some
  exact ⟨s,pty,held,terminal,shell_leaves_for_cause _ _ _ _ _ _ _ (meet ++ [request 0]) (by decide +kernel) _ held terminal
    (by decide +kernel)⟩

/-- A visit to the open shell, and the ticks until the last. -/
def visited : Watched Clear.noise silentEmulator limitedLogin :=
  Machine.run step (visit ++ List.replicate 49 (.tick [otherId])) opened

/-- The visitor has the terminal, never asked for it, and takes it away. -/
theorem shell_lost_to_visitor :
    ∃ s pty, visited.core.sessions[otherId]? = some s ∧ s.pty = some pty ∧
      ¬((∃ d, visited.core.next (.tick [otherId]) = some d ∧ d.Attached pty.number) ∨
        (∃ order, Call.tick [otherId] = .tick order) ∧
          (s.exits = true ∨ s.reaped = true ∨ otherId ∈ visited.asked ∧ otherId ∈ visited.left)) := by
  have found : (visited.core.sessions[otherId]?).any (fun s => s.pty.isSome && !s.exits && !s.reaped) = true := by
    decide +kernel
  have empty : (visited.core.next (.tick [otherId])).all (fun d => d.sessions.isEmpty) = true := by decide +kernel
  have never : otherId ∉ visited.asked := by decide +kernel
  obtain ⟨s,held,some⟩ := (Option.any_eq_true _ _).mp found
  simp only [Bool.and_eq_true,Bool.not_eq_true'] at some
  obtain ⟨⟨terminal,running⟩,heard⟩ := some
  obtain ⟨pty,terminal⟩ := Option.isSome_iff_exists.mp terminal
  refine ⟨s,pty,held,terminal,?_⟩
  rintro (⟨d,left,sid,v,there,_⟩ | ⟨_,exits | reaped | ⟨asked,_⟩⟩)
  · rw [left,Option.all_some] at empty
    rw [view,Std.TreeMap.getElem?_of_isEmpty empty] at there
    cases there
  · cases running.symm.trans exits
  · cases heard.symm.trans reaped
  · exact never asked

end Watched
end ServerCore
end Noissh

import Noissh.Stack
import Noissh.Sync
import Noissh.TunnelSafety

/-! What the calls of either core do at its end of the session: each is a few steps of that end,
which seals exactly the frames the call emits. -/
namespace Noissh

variable {snow : Snow} {em : Emulator} {login : Login}

/-- The datagram is no transport packet of the session. -/
def Elsewhere (sid : SessionId) (buf : Bytes) : Prop := ∀ nonce body, parsePacket buf ≠ .ok (.transport sid nonce body)

theorem handshake_elsewhere (sid k : SessionId) (message : Bytes) : Elsewhere sid (buildHandshakePacket k message) := by
  intro nonce body parsed
  obtain ⟨same,_⟩ := parsePacket_transport parsed
  exact absurd (List.cons.inj same).1 (by decide)

theorem transport_elsewhere {sid k : SessionId} (sized : k.length = 8) (other : k ≠ sid) (nonce : Nat) (body : Bytes) :
    Elsewhere sid (transportPacket k nonce body) := by
  intro nonce' body' parsed
  obtain ⟨same,sized',_⟩ := parsePacket_transport parsed
  have tail := (List.cons.inj same).2
  rw [List.append_assoc,List.append_assoc] at tail
  exact other (List.append_inj_left tail (by rw [sized,sized']))

/-- A batch of one frame is that frame sealed. -/
theorem Session.sealMany_single (s : Session snow) (frame : Frame) (maxPlaintext : Nat) :
    s.sealMany [frame] maxPlaintext = ((s.sealFrames [frame]).1.map (fun packet => [packet]),(s.sealFrames [frame]).2) := by
  simp only [sealMany,sealLoop,List.isEmpty_nil,not_true_eq_false,false_and,if_false,List.nil_append]
  rw [if_neg (by simp)]
  split <;> rename_i sealed_ <;> simp [sealed_,Except.map]

theorem Session.Packed.packets {s : Session snow} {maxPlaintext nonce stop : Nat} {packets : List Bytes}
    {groups : List (List Frame)} (packed : s.Packed maxPlaintext nonce packets groups stop) :
    ∀ buf ∈ packets, ∃ nonce body, buf = transportPacket s.sessionId nonce body := by
  induction packed with
  | nil _ => exact fun _ member => absurd member List.not_mem_nil
  | cons seals _ _ ih =>
    intro buf member
    rcases List.mem_cons.mp member with rfl | later
    · obtain ⟨body,_,same⟩ := seals
      exact ⟨_,body,same⟩
    · exact ih buf later

/-- Every datagram of a batch is a transport packet of the session. -/
theorem Session.sealMany_packets (s : Session snow) (frames : List Frame) (maxPlaintext : Nat) :
    ∀ buf ∈ (s.sealMany frames maxPlaintext).1.toOption.getD [], ∃ nonce body, buf = transportPacket s.sessionId nonce body := by
  cases out : (s.sealMany frames maxPlaintext).1 with
  | error e => exact fun _ member => absurd member List.not_mem_nil
  | ok packets =>
    obtain ⟨groups,_,packed⟩ := sealMany_packed (Prod.ext out rfl)
    exact packed.packets

/-- At most one nonce is spent for each frame. -/
theorem Session.sealLoop_spends (maxPlaintext : Nat) (frames : List Frame) (s : Session snow) (packets : List Bytes)
    (group : List Frame) (n : Nat) :
    (sealLoop maxPlaintext s packets group n frames).2.sendNonce ≤
      s.sendNonce + (if group.isEmpty then 0 else 1) + frames.length := by
  induction frames generalizing s packets group n with
  | nil =>
    have seals := sealFrames_next s group
    unfold sealLoop
    split
    · exact Nat.le_add_right _ _
    · split <;> rename_i outcome
      all_goals
        rw [outcome] at seals
        exact Nat.le_of_eq (congrArg Session.sendNonce seals)
  | cons frame rest ih =>
    have seals := sealFrames_next s group
    unfold sealLoop
    dsimp only
    rw [List.length_cons]
    split <;> rename_i full
    · rw [if_neg full.1]
      split <;> rename_i outcome <;> rw [outcome] at seals <;> dsimp only at seals <;> subst seals
      · dsimp only
        omega
      · rename_i packet
        have later := ih { s with sendNonce := s.sendNonce + 1 } (packets ++ [packet]) [frame] (encodeFrames [frame]).length
        rw [if_neg (by simp)] at later
        dsimp only at later
        omega
    · have later := ih s packets (group ++ [frame]) (n + (encodeFrames [frame]).length)
      rw [if_neg (by simp)] at later
      omega

theorem Session.sealMany_spends (s : Session snow) (frames : List Frame) (maxPlaintext : Nat) :
    (s.sealMany frames maxPlaintext).2.sendNonce ≤ s.sendNonce + frames.length := sealLoop_spends maxPlaintext frames s [] [] 0

namespace Peer

/-- From this session and these streams the actions lead to those, hand out the datagrams, emit
the frames and open the others; they touch no record of a stream. -/
def Drives (actions : List Action) (s s' : Session snow) (m m' : StreamMux) (packets : List Bytes)
    (frames opens : List Frame) : Prop :=
  ∀ e : Peer snow, e.session = s → e.mux = m →
    e.run actions = { e with
      session := s'
      mux := m'
      sent := e.sent ++ packets
      emitted := e.emitted ++ frames
      opened := e.opened ++ opens }

/-- The action writes to no stream, seals no stream's frames beside a poll's, and receives only
such bytes. -/
def Quiet (bufs : Bytes → Prop) : Action → Prop
  | .write _ _ => False
  | .poll due _ => ∀ frame ∈ due, frame.streamId = none
  | .send frames => ∀ frame ∈ frames, frame.streamId = none
  | .receive _ buf => bufs buf
  | _ => True

/-- Some quiet actions lead there. -/
def Reaches (bufs : Bytes → Prop) (s s' : Session snow) (m m' : StreamMux) (packets : List Bytes)
    (frames opens : List Frame) : Prop :=
  ∃ actions, (∀ a ∈ actions, Quiet bufs a) ∧ Drives actions s s' m m' packets frames opens

variable {bufs : Bytes → Prop} {s s' s'' : Session snow} {m m' m'' : StreamMux} {packets packets' : List Bytes}
  {frames frames' opens opens' : List Frame}

theorem Reaches.refl (bufs : Bytes → Prop) (s : Session snow) (m : StreamMux) : Reaches bufs s s m m [] [] [] := by
  refine ⟨[],fun _ member => absurd member List.not_mem_nil,?_⟩
  rintro e rfl rfl
  simp [run]

theorem Reaches.trans (first : Reaches bufs s s' m m' packets frames opens)
    (second : Reaches bufs s' s'' m' m'' packets' frames' opens') :
    Reaches bufs s s'' m m'' (packets ++ packets') (frames ++ frames') (opens ++ opens') := by
  obtain ⟨actions,quiet,drives⟩ := first
  obtain ⟨actions',quiet',drives'⟩ := second
  refine ⟨actions ++ actions',fun a member => ?_,fun e session mux => ?_⟩
  · rcases List.mem_append.mp member with here | there
    · exact quiet a here
    · exact quiet' a there
  · have there := drives e session mux
    unfold run at there
    unfold run
    rw [Machine.run_append,there]
    have rest := drives' { e with
      session := s'
      mux := m'
      sent := e.sent ++ packets
      emitted := e.emitted ++ frames
      opened := e.opened ++ opens } rfl rfl
    unfold run at rest
    rw [rest]
    simp

/-- One action that leads there. -/
theorem Reaches.single {a : Action} (quiet : Quiet bufs a) (drives : Drives [a] s s' m m' packets frames opens) :
    Reaches bufs s s' m m' packets frames opens :=
  ⟨[a],fun _ member => by rw [List.mem_singleton.mp member]; exact quiet,drives⟩

theorem reaches_learn (bufs : Bytes → Prop) (s : Session snow) (m : StreamMux) (addr : SocketAddr) :
    Reaches bufs s { s with peerAddr := some addr } m m [] [] [] := by
  refine .single (a := .learn addr) trivial ?_
  rintro e rfl rfl
  simp [run,step]

theorem reaches_takeEvents (bufs : Bytes → Prop) (s : Session snow) (m : StreamMux) :
    Reaches bufs s s m m.takeEvents.2 [] [] [] := by
  refine .single (a := .takeEvents) trivial ?_
  rintro e rfl rfl
  simp [run,step]

theorem reaches_openStream (bufs : Bytes → Prop) (s : Session snow) (m : StreamMux) (kind : StreamKind) (metadata : Bytes) :
    Reaches bufs s s m (m.openStream kind metadata).1 [] [] [] := by
  refine .single (a := .openStream kind metadata) trivial ?_
  rintro e rfl rfl
  simp [run,step]

theorem reaches_reset (bufs : Bytes → Prop) (s : Session snow) (m : StreamMux) (id : Nat) :
    Reaches bufs s s m (m.reset id) [] [] [] := by
  refine .single (a := .reset id) trivial ?_
  rintro e rfl rfl
  simp [run,step]

theorem reaches_send (bufs : Bytes → Prop) (s : Session snow) (m : StreamMux) (frames : List Frame)
    (unnamed : ∀ frame ∈ frames, frame.streamId = none) :
    Reaches bufs s (s.sealMany frames maxDatagramPlaintext).2 m m
      ((s.sealMany frames maxDatagramPlaintext).1.toOption.getD []) frames [] := by
  refine .single (a := .send frames) unnamed ?_
  rintro e rfl rfl
  simp [run,step,seals]

theorem reaches_sendOne (bufs : Bytes → Prop) (s : Session snow) (m : StreamMux) {frame : Frame}
    (unnamed : frame.streamId = none) :
    Reaches bufs s (s.sealFrames [frame]).2 m m (s.sealFrames [frame]).1.toOption.toList [frame] [] := by
  have sent := reaches_send bufs s m [frame] (by simpa using unnamed)
  rw [Session.sealMany_single] at sent
  cases out : (s.sealFrames [frame]).1 with
  | error e => rw [out] at sent; exact sent
  | ok packet => rw [out] at sent; exact sent

theorem reaches_poll (bufs : Bytes → Prop) (s : Session snow) (m : StreamMux) (due : List Frame)
    (unnamed : ∀ frame ∈ due, frame.streamId = none) :
    Reaches bufs s (s.sealMany (due ++ m.pollTransmit.2) maxDatagramPlaintext).2 m m.pollTransmit.1
      ((s.sealMany (due ++ m.pollTransmit.2) maxDatagramPlaintext).1.toOption.getD []) (due ++ m.pollTransmit.2) [] := by
  refine .single (a := .poll due true) unnamed ?_
  rintro e rfl rfl
  simp [run,step,seals]

theorem reaches_dropped (bufs : Bytes → Prop) (s : Session snow) (m : StreamMux) :
    Reaches bufs s s m m.pollTransmit.1 [] m.pollTransmit.2 [] := by
  refine .single (a := .poll [] false) (fun _ member => absurd member List.not_mem_nil) ?_
  rintro e rfl rfl
  simp [run,step]

theorem reaches_receive (bufs : Bytes → Prop) (s : Session snow) (m : StreamMux) (src : SocketAddr) {buf : Bytes}
    (may : bufs buf) :
    Reaches bufs s (s.openPacket src buf).2 m (((s.openPacket src buf).1.toOption.getD []).foldl StreamMux.onFrame m) [] []
      ((s.openPacket src buf).1.toOption.getD []) := by
  refine .single (a := .receive src buf) may ?_
  rintro e rfl rfl
  simp [run,step,Peer.frames]

/-- The session keeps its name and keys, spends at most one nonce for each frame, and hands out
only its own transport packets. -/
structure Outlasts (e e' : Peer snow) : Prop where
  name : e'.session.sessionId = e.session.sessionId
  keyed : e'.session.noise = e.session.noise
  grows : e.session.sendNonce ≤ e'.session.sendNonce
  spends : e'.session.sendNonce + e.emitted.length ≤ e.session.sendNonce + e'.emitted.length
  emitted : e.emitted <+: e'.emitted
  sent : ∀ buf ∈ e'.sent, buf ∈ e.sent ∨ ∃ nonce body, buf = transportPacket e.session.sessionId nonce body

theorem outlasts_same {e e' : Peer snow} (name : e'.session.sessionId = e.session.sessionId)
    (keyed : e'.session.noise = e.session.noise) (nonce : e'.session.sendNonce = e.session.sendNonce)
    (emitted : e.emitted <+: e'.emitted) (sent : e'.sent = e.sent) : e.Outlasts e' := by
  refine ⟨name,keyed,Nat.le_of_eq nonce.symm,?_,emitted,fun buf member => .inl (sent ▸ member)⟩
  rw [nonce]
  exact Nat.add_le_add_left emitted.length_le _

theorem Outlasts.trans {e e' e'' : Peer snow} (first : e.Outlasts e') (second : e'.Outlasts e'') : e.Outlasts e'' := by
  refine ⟨second.name.trans first.name,second.keyed.trans first.keyed,Nat.le_trans first.grows second.grows,?_,
    first.emitted.trans second.emitted,fun buf member => ?_⟩
  · have := first.spends
    have := second.spends
    omega
  · rcases second.sent buf member with before | there
    · exact first.sent buf before
    · rw [first.name] at there
      exact .inr there

theorem seals_outlasts (e : Peer snow) (frames : List Frame) : e.Outlasts (e.seals frames) := by
  have next := e.session.sealMany_next frames maxDatagramPlaintext
  refine ⟨?_,?_,e.session.sealMany_grows frames maxDatagramPlaintext,?_,List.prefix_append _ _,fun buf member => ?_⟩
  · exact (congrArg Session.sessionId next :)
  · exact (congrArg Session.noise next :)
  · have spends := e.session.sealMany_spends frames maxDatagramPlaintext
    unfold seals
    dsimp only
    rw [List.length_append]
    omega
  · exact (List.mem_append.mp member).imp_right (e.session.sealMany_packets frames maxDatagramPlaintext buf)

theorem step_outlasts (e : Peer snow) (a : Action) : e.Outlasts (e.step a) := by
  cases a with
  | poll due heard =>
    unfold step
    cases heard with
    | false => exact outlasts_same rfl rfl rfl (List.prefix_append _ _) rfl
    | true =>
      have seals := seals_outlasts { e with mux := e.mux.pollTransmit.1 } (due ++ e.mux.pollTransmit.2)
      exact ⟨seals.name,seals.keyed,seals.grows,seals.spends,seals.emitted,seals.sent⟩
  | send frames => exact e.seals_outlasts frames
  | receive src buf =>
    have keeps := e.session.openPacket_keeps src buf
    refine outlasts_same keeps.2 keeps.1 ?_ (List.prefix_refl _) rfl
    rcases e.session.openPacket_cases src buf with ⟨_,refused,_⟩ | ⟨_,_,_,_,_,_,taken⟩
    · simp only [step,refused]
    · simp only [step,taken]
  | _ => exact outlasts_same rfl rfl rfl (List.prefix_refl _) rfl

theorem run_outlasts (actions : List Action) (e : Peer snow) : e.Outlasts (e.run actions) := by
  induction actions generalizing e with
  | nil => exact outlasts_same rfl rfl rfl (List.prefix_refl _) rfl
  | cons a rest ih => exact (e.step_outlasts a).trans (ih (e.step a))

theorem Reaches.outlasts (reaches : Reaches bufs s s' m m' packets frames opens) :
    ({ session := s, mux := m } : Peer snow).Outlasts { session := s', mux := m', sent := packets, emitted := frames } := by
  obtain ⟨actions,_,drives⟩ := reaches
  have kept := run_outlasts actions { session := s, mux := m }
  rw [drives { session := s, mux := m } rfl rfl] at kept
  exact ⟨kept.name,kept.keyed,kept.grows,kept.spends,kept.emitted,kept.sent⟩

/-- The session keeps its name and keys, and hands out only its own transport packets. -/
theorem Reaches.keeps (reaches : Reaches bufs s s' m m' packets frames opens) :
    s'.sessionId = s.sessionId ∧ s'.noise = s.noise ∧
      ∀ buf ∈ packets, ∃ nonce body, buf = transportPacket s.sessionId nonce body := by
  have kept := reaches.outlasts
  exact ⟨kept.name,kept.keyed,fun buf member => (kept.sent buf member).resolve_left List.not_mem_nil⟩

/-- A nonce is spent on a frame at most. -/
theorem Reaches.spends (reaches : Reaches bufs s s' m m' packets frames opens) :
    s'.sendNonce ≤ s.sendNonce + frames.length := reaches.outlasts.spends

end Peer

namespace Tunnel

variable {x : Side} {t : Tunnel snow}

/-- The actions of one end, in the tunnel. -/
theorem run_side (actions : List Peer.Action) (t : Tunnel snow) (x : Side) :
    Machine.run step (actions.map (fun a => (x,a))) t = Function.update t x ((t x).run actions) := by
  induction actions generalizing t with
  | nil => exact (Function.update_eq_self x t).symm
  | cons a rest ih =>
    rw [List.map_cons,Machine.run_cons,ih]
    unfold step
    rw [Function.update_self,Function.update_idem]
    rfl

/-- Quiet actions are ideal when what they receive is genuine, and what is emitted by the end of
them is of words. -/
theorem along_ideal {actions : List Peer.Action} (quiet : ∀ a ∈ actions, Peer.Quiet (t.Genuine x) a)
    (typed : ∀ frame ∈ ((t x).run actions).emitted, frame.Typed)
    (word : ((t x).run actions).session.sendNonce ≤ 2 ^ 64) :
    Machine.Along step Ideal (actions.map (fun a => (x,a))) t := by
  induction actions generalizing t with
  | nil => trivial
  | cons a rest ih =>
    have kept := (t x).step_outlasts a
    have later := ((t x).step a).run_outlasts rest
    have here : (t.step (x,a)) x = (t x).step a := Function.update_self ..
    have there : (t.step (x,a)) x.other = t x.other := Function.update_of_ne (Side.other_ne x) ..
    have same : ∀ buf, t.Genuine x buf → (t.step (x,a)).Genuine x buf := by
      intro buf genuine nonce body plaintext parsed opens
      rw [here,kept.name] at parsed
      rw [here,kept.keyed] at opens
      rw [there]
      exact genuine nonce body plaintext parsed opens
    have sealable : ∀ (e : Peer snow) (due streams : List Frame), e.session = (t x).session →
        (t x).step a = e.seals (due ++ streams) → (∀ frame ∈ due, frame.streamId = none) → e.Sealable due streams := by
      intro e due streams session stepped unnamed
      refine ⟨unnamed,fun frame member => typed frame ?_,?_⟩
      · refine later.emitted.subset ?_
        rw [stepped]
        exact List.mem_append_right _ member
      · refine Nat.le_trans ?_ word
        refine Nat.le_trans ?_ later.grows
        rw [stepped]
        exact Nat.le_refl _
    have first := quiet a (.head _)
    refine ⟨⟨?_,?_⟩,ih (t := t.step (x,a)) (fun b member => ?_) (by rw [here]; exact typed) (by rw [here]; exact word)⟩
    · cases a with
      | write id data => exact first.elim
      | poll due heard =>
        rintro rfl
        have ready := sealable { t x with mux := (t x).mux.pollTransmit.1 } due (t x).mux.pollTransmit.2 rfl rfl first
        exact ⟨ready.unnamed,ready.typed,ready.word⟩
      | send frames => exact sealable (t x) frames [] rfl (by rw [List.append_nil]; rfl) first
      | _ => trivial
    · rintro src buf rfl
      exact first
    · have next := quiet b (.tail _ member)
      cases b with
      | receive src buf => exact same buf next
      | _ => exact next

/-- Where quiet actions lead, the tunnel can be led. -/
theorem reach {bufs : Bytes → Prop} {session : Session snow} {mux : StreamMux} {packets : List Bytes} {frames opens : List Frame}
    (reaches : Peer.Reaches bufs (t x).session session (t x).mux mux packets frames opens)
    (genuine : ∀ buf, bufs buf → t.Genuine x buf) (typed : ∀ frame ∈ (t x).emitted ++ frames, frame.Typed)
    (word : session.sendNonce ≤ 2 ^ 64) :
    ∃ actions, Machine.Along step Ideal actions t ∧ Machine.run step actions t = Function.update t x { t x with
      session
      mux
      sent := (t x).sent ++ packets
      emitted := (t x).emitted ++ frames
      opened := (t x).opened ++ opens } := by
  obtain ⟨actions,quiet,drives⟩ := reaches
  have ran := drives (t x) rfl rfl
  refine ⟨actions.map (fun a => (x,a)),along_ideal (fun a member => ?_) (by rw [ran]; exact typed) (by rw [ran]; exact word),?_⟩
  · have here := quiet a member
    cases a with
    | receive src buf => exact genuine buf here
    | _ => exact here
  · rw [run_side,ran]

end Tunnel

namespace Handshaker

/-- A message is read for the same session, and what answers it is a handshake packet. -/
theorem read_keeps (h : Handshaker snow) (body : Bytes) :
    (h.read body).2.sessionId = h.sessionId ∧
      ∀ outcome reply, (h.read body).1 = .ok outcome → outcome.reply = some reply →
        ∃ message, reply = buildHandshakePacket h.sessionId message := by
  unfold read
  split
  · exact ⟨rfl,fun _ _ failed => by cases failed⟩
  · split
    · exact ⟨rfl,fun _ _ failed => by cases failed⟩
    · dsimp only
      split
      · exact ⟨rfl,fun _ _ done silent => by cases done; cases silent⟩
      · unfold reply
        split
        · exact ⟨rfl,fun _ _ failed => by cases failed⟩
        · exact ⟨rfl,fun _ _ done spoken => by cases done; cases spoken; exact ⟨_,rfl⟩⟩

theorem intoSession_new {h : Handshaker snow} {peerAddr : Option SocketAddr} {session : Session snow}
    (made : h.intoSession peerAddr = .ok session) : session = .new h.sessionId session.noise peerAddr := by
  unfold intoSession at made
  split at made
  · split at made
    · cases made
    · rename_i hs _
      cases out : snow.session hs with
      | error e => rw [out] at made; cases made
      | ok noise => rw [out] at made; cases made; rfl
  · cases made

end Handshaker

namespace ClientCore

variable {c : ClientCore snow}

/-- Only control messages wait to be sent. -/
def Controls (c : ClientCore snow) : Prop := ∀ frame ∈ c.pendingControl, ∃ data, frame = .control data

/-- The two requests change their own counters, and nothing else. -/
theorem requests_eq (c : ClientCore snow) : ∃ shellPending shellTicks forwardTicks,
    c.openShellFrames.2.remoteForwardFrames.2 = { c with
      openShellPending := shellPending
      openShellTicks := shellTicks
      remoteForwardTicks := forwardTicks } := by
  have shell : ∃ shellPending shellTicks, c.openShellFrames.2 = { c with
      openShellPending := shellPending
      openShellTicks := shellTicks } := by
    unfold openShellFrames
    split <;> exact ⟨_,_,rfl⟩
  obtain ⟨shellPending,shellTicks,shell⟩ := shell
  rw [shell]
  unfold remoteForwardFrames
  split <;> exact ⟨_,_,_,rfl⟩

theorem gather_fst (c : ClientCore snow) : c.gather.1 = c.due ++ c.mux.pollTransmit.2 := by
  obtain ⟨_,_,_,same⟩ := c.requests_eq
  change c.openShellFrames.1 ++ c.openShellFrames.2.remoteForwardFrames.1 ++
      c.openShellFrames.2.remoteForwardFrames.2.pendingControl ++ c.openShellFrames.2.remoteForwardFrames.2.shell.pollFrames ++
      c.openShellFrames.2.remoteForwardFrames.2.mux.pollTransmit.2 = _
  rw [same]
  rfl

/-- Collecting the frames changes the queues and the streams, and nothing else that a session or
a screen rests on. -/
theorem gather_snd (c : ClientCore snow) :
    c.gather.2.mux = c.mux.pollTransmit.1.takeEvents.2 ∧ c.gather.2.session = c.session ∧ c.gather.2.hs = c.hs ∧
      c.gather.2.shell = c.shell ∧ c.gather.2.exited = c.exited ∧ c.gather.2.pendingControl = [] := by
  obtain ⟨_,_,_,same⟩ := c.requests_eq
  have all : ∃ events, c.gather.2 = { c.openShellFrames.2.remoteForwardFrames.2 with
      pendingControl := []
      mux := c.openShellFrames.2.remoteForwardFrames.2.mux.pollTransmit.1.takeEvents.2
      streamEvents := events } := ⟨_,rfl⟩
  obtain ⟨events,all⟩ := all
  rw [all,same]
  exact ⟨rfl,rfl,rfl,rfl,rfl,rfl⟩

theorem openShellFrames_control (c : ClientCore snow) : ∀ frame ∈ c.openShellFrames.1, ∃ data, frame = .control data := by
  unfold openShellFrames
  split
  · intro frame member
    exact ⟨_,List.mem_singleton.mp member⟩
  · exact fun _ member => absurd member List.not_mem_nil

theorem remoteForwardFrames_control (c : ClientCore snow) :
    ∀ frame ∈ c.remoteForwardFrames.1, ∃ data, frame = .control data := by
  unfold remoteForwardFrames
  split
  · intro frame member
    obtain ⟨forward,_,same⟩ := List.mem_map.mp member
    exact ⟨_,same.symm⟩
  · exact fun _ member => absurd member List.not_mem_nil

/-- What is due is control messages, the typed bytes and the acknowledgement of the screen. -/
theorem due_cases (controls : c.Controls) {frame : Frame} (member : frame ∈ c.due) :
    (∃ data, frame = .control data) ∨ c.shell.inputTx.pending = some frame ∨ frame = .ack c.shell.currentSeq := by
  unfold due at member
  simp only [List.mem_append] at member
  rcases member with ((shell | forwards) | control) | polled
  · exact .inl (c.openShellFrames_control frame shell)
  · exact .inl (remoteForwardFrames_control _ frame forwards)
  · exact .inl (controls frame control)
  · unfold ClientShell.pollFrames at polled
    rcases List.mem_append.mp polled with input | ack
    · exact .inr (.inl (Option.mem_toList.mp input))
    · exact .inr (.inr (List.mem_singleton.mp ack))

theorem due_unnamed (controls : c.Controls) {frame : Frame} (member : frame ∈ c.due) : frame.streamId = none := by
  rcases due_cases controls member with ⟨data,rfl⟩ | input | rfl
  · rfl
  · unfold InputSender.pending at input
    split at input
    · cases input
    · cases input
      rfl
  · rfl

/-- Everything there is to send is sealed at the client's end. -/
theorem outgoing_reaches (controls : c.Controls) {s : Session snow} (held : c.session = some s) (bufs : Bytes → Prop) :
    ∃ s', c.outgoing.2.session = some s' ∧
      Peer.Reaches bufs s s' c.mux c.outgoing.2.mux (c.outgoing.1.toOption.getD []) c.gather.1 [] := by
  have polled := Peer.reaches_poll bufs s c.mux c.due (fun _ member => due_unnamed controls member)
  have both := polled.trans (Peer.reaches_takeEvents bufs _ _)
  obtain ⟨mux,session,_⟩ := c.gather_snd
  rw [← c.gather_fst,← mux,List.append_nil,List.append_nil] at both
  unfold outgoing
  rw [held]
  dsimp only
  split
  · rename_i empty
    rw [List.isEmpty_iff.mp empty] at both ⊢
    exact ⟨s,session.trans held,both⟩
  · split <;> rename_i sealed_ <;> rw [sealed_] at both
    · exact ⟨_,rfl,both⟩
    · exact ⟨_,rfl,both⟩

/-- What the sending of everything leaves alone. -/
theorem outgoing_snd (c : ClientCore snow) : c.outgoing.2.hs = c.hs ∧ c.outgoing.2.shell = c.shell ∧
    c.outgoing.2.exited = c.exited ∧ (c.Controls → c.outgoing.2.Controls) := by
  obtain ⟨_,_,hs,shell,exited,queue⟩ := c.gather_snd
  have empty : c.gather.2.Controls := by
    unfold Controls
    rw [queue]
    exact fun _ member => absurd member List.not_mem_nil
  unfold outgoing
  split
  · exact ⟨rfl,rfl,rfl,id⟩
  · dsimp only
    split
    · exact ⟨hs,shell,exited,fun _ => empty⟩
    · split <;> exact ⟨hs,shell,exited,fun _ => empty⟩

theorem tick_eq (c : ClientCore snow) : c.tick = (c.outgoing.1.toOption.getD [],c.outgoing.2) := by
  unfold tick
  split <;> rename_i out <;> rw [out] <;> rfl

/-- The frames of a datagram that opens. -/
def frames (c : ClientCore snow) (buf : Bytes) : List Frame :=
  match c.session with
  | none => []
  | some s => (s.openPacket c.serverAddr buf).1.toOption.getD []

theorem foldl_onFrame (frames : List Frame) (c : ClientCore snow) :
    (frames.foldl onFrame c).mux = frames.foldl StreamMux.onFrame c.mux ∧ (frames.foldl onFrame c).session = c.session ∧
      (frames.foldl onFrame c).hs = c.hs ∧ (frames.foldl onFrame c).pendingControl = c.pendingControl := by
  have one : ∀ (c : ClientCore snow) (frame : Frame), (c.onFrame frame).mux = c.mux.onFrame frame ∧
      (c.onFrame frame).session = c.session ∧ (c.onFrame frame).hs = c.hs ∧
      (c.onFrame frame).pendingControl = c.pendingControl := by
    intro c frame
    cases frame with
    | control data =>
      unfold onFrame onControl
      dsimp only
      split
      · exact ⟨rfl,rfl,rfl,rfl⟩
      · split <;> exact ⟨rfl,rfl,rfl,rfl⟩
      · exact ⟨rfl,rfl,rfl,rfl⟩
    | _ => exact ⟨rfl,rfl,rfl,rfl⟩
  induction frames generalizing c with
  | nil => exact ⟨rfl,rfl,rfl,rfl⟩
  | cons frame rest ih =>
    obtain ⟨mux,session,hs,queue⟩ := one c frame
    obtain ⟨mux',session',hs',queue'⟩ := ih (c.onFrame frame)
    exact ⟨mux'.trans (by rw [mux]; rfl),session'.trans session,hs'.trans hs,queue'.trans queue⟩

theorem handleTransport_reaches {s : Session snow} (held : c.session = some s) (bufs : Bytes → Prop) {buf : Bytes}
    (may : bufs buf) :
    ∃ s', (c.handleTransport buf).session = some s' ∧
      Peer.Reaches bufs s s' c.mux (c.handleTransport buf).mux [] [] (c.frames buf) ∧
      (c.handleTransport buf).hs = c.hs ∧ (c.handleTransport buf).pendingControl = c.pendingControl := by
  have received := Peer.reaches_receive bufs s c.mux c.serverAddr may
  unfold handleTransport frames
  rw [held]
  dsimp only
  split <;> rename_i opened
  · rw [opened] at received ⊢
    exact ⟨_,rfl,received,rfl,rfl⟩
  · rename_i frames session
    rw [opened] at received ⊢
    obtain ⟨mux,same,hs,queue⟩ := foldl_onFrame frames { c with session := some session }
    refine ⟨session,same,?_,hs,queue⟩
    have both := received.trans (Peer.reaches_takeEvents bufs _ _)
    rw [List.append_nil,List.append_nil,List.append_nil] at both
    unfold onFrames
    dsimp only
    rw [mux]
    exact both

/-- The frames a call opens. -/
def opens (c : ClientCore snow) : Call → List Frame
  | .handlePacket buf =>
    match parsePacket buf with
    | .ok (.transport _ _ _) => c.frames buf
    | _ => []
  | _ => []

/-- The call uses a stream in a way that is recorded. -/
def touches : Call → Bool
  | .streamWrite _ _ | .streamRead _ | .streamClose _ => true
  | _ => false

/-- Once there is a session, a call is a few steps of the client's end. -/
theorem call_reaches (controls : c.Controls) {s : Session snow} (held : c.session = some s) (settled : c.hs = none) {x : Call}
    (still : touches x = false) :
    ∃ s', (c.call x).2.session = some s' ∧
      Peer.Reaches (fun buf => x = .handlePacket buf) s s' c.mux (c.call x).2.mux (c.call x).1 (c.emits x) (c.opens x) ∧
      (c.call x).2.hs = none ∧ (c.call x).2.Controls := by
  cases x with
  | tick =>
    obtain ⟨s',next,reaches⟩ := outgoing_reaches controls held (fun buf => Call.tick = .handlePacket buf)
    obtain ⟨hs,_,_,queue⟩ := c.outgoing_snd
    simp only [call,tick_eq,emits,held,Option.isSome_some,if_true]
    exact ⟨s',next,reaches,hs.trans settled,queue controls⟩
  | keepalive =>
    simp only [call,keepalive,held,emits,Option.isSome_some,if_true]
    exact ⟨_,rfl,Peer.reaches_sendOne _ s c.mux rfl,settled,controls⟩
  | handlePacket buf =>
    have quiet : c.connects (.handlePacket buf) = false := by simp [connects,held]
    simp only [emits,quiet,Bool.false_eq_true,if_false]
    unfold call handlePacket opens
    dsimp only
    split
    · rename_i parsed
      rw [parsed]
      exact ⟨s,held,.refl _ s c.mux,settled,controls⟩
    · rename_i parsed
      rw [parsed]
      unfold handleHandshake
      rw [settled]
      exact ⟨s,held,.refl _ s c.mux,settled,controls⟩
    · rename_i parsed
      rw [parsed]
      obtain ⟨s',next,reaches,hs,queue⟩ := handleTransport_reaches held (fun b => Call.handlePacket buf = .handlePacket b) rfl
      exact ⟨s',next,reaches,hs.trans settled,fun frame member => controls frame (queue ▸ member)⟩
  | streamWrite id data => cases still
  | streamRead id => cases still
  | streamClose id => cases still
  | openForward target => exact ⟨s,held,Peer.reaches_openStream _ s c.mux _ _,settled,controls⟩
  | openXfer request => exact ⟨s,held,Peer.reaches_openStream _ s c.mux _ _,settled,controls⟩
  | openExec cmd => exact ⟨s,held,Peer.reaches_openStream _ s c.mux _ _,settled,controls⟩
  | resize cols rows =>
    refine ⟨s,held,.refl _ s c.mux,settled,fun frame member => ?_⟩
    rcases List.mem_append.mp member with old | new
    · exact controls frame old
    · exact ⟨_,List.mem_singleton.mp new⟩
  | sendBye =>
    refine ⟨s,held,.refl _ s c.mux,settled,fun frame member => ?_⟩
    rcases List.mem_append.mp member with old | new
    · exact controls frame old
    · exact ⟨_,List.mem_singleton.mp new⟩
  | _ => exact ⟨s,held,.refl _ s c.mux,settled,controls⟩

/-- A client without a session stays so, and its datagrams are of the handshake; or the handshake
gives it its session, and it sends what there is. -/
structure Begins (sid : SessionId) (keys : NoiseSession snow) (c d : ClientCore snow) (out : List Bytes)
    (frames : List Frame) : Prop where
  reaches : ∃ s packets, Peer.Reaches (fun _ => False) (.new sid keys none) s c.mux d.mux packets frames [] ∧
    (d.session = some s ∨ d.session = none ∧ s = .new sid keys none) ∧ ∀ buf ∈ out, buf ∈ packets ∨ Elsewhere sid buf
  named : ∀ h, d.hs = some h → h.sessionId = sid
  settled : d.session.isSome = true → d.hs = none
  controls : d.Controls

variable {sid : SessionId} {keys : NoiseSession snow} {d : ClientCore snow} {out : List Bytes}

/-- Nothing of a session yet. -/
theorem Begins.waiting (mux : d.mux = c.mux) (absent : d.session = none) (named : ∀ h, d.hs = some h → h.sessionId = sid)
    (controls : d.Controls) (elsewhere : ∀ buf ∈ out, Elsewhere sid buf) : Begins sid keys c d out [] := by
  refine ⟨⟨_,[],?_,.inr ⟨absent,rfl⟩,fun buf member => .inr (elsewhere buf member)⟩,named,fun some => ?_,controls⟩
  · rw [mux]
    exact .refl _ _ _
  · rw [absent] at some
    cases some

/-- The client once the handshake has given it this session. -/
def join (c : ClientCore snow) (session : Session snow) : ClientCore snow :=
  { c with hs := none, session := some session, established := true, openShellPending := c.wantShell }

theorem establish_eq {h : Handshaker snow} {session : Session snow} (made : h.intoSession (some c.serverAddr) = .ok session)
    (out : List Bytes) :
    c.establish h out = ((c.join session).outgoing.1.map (fun packets => out ++ packets),(c.join session).outgoing.2) := by
  unfold establish
  rw [made]
  dsimp only
  split <;> rename_i sent <;> rw [join,sent] <;> rfl

/-- What is due depends on the queues, on the sizes and the terminal's name, and on the shell. -/
theorem due_congr {d : ClientCore snow} (pending : d.openShellPending = c.openShellPending)
    (size : (d.cols,d.rows) = (c.cols,c.rows)) (wants : (d.term,d.wantAgent) = (c.term,c.wantAgent))
    (forwards : (d.remoteForwards,d.remoteForwardTicks) = (c.remoteForwards,c.remoteForwardTicks))
    (control : d.pendingControl = c.pendingControl) (shell : d.shell = c.shell) : d.due = c.due := by
  simp only [Prod.mk.injEq] at size wants forwards
  unfold due openShellFrames remoteForwardFrames
  rw [pending]
  cases c.openShellPending <;>
    simp only [if_true,Bool.false_eq_true,if_false,apply_ite Prod.fst,size,wants,forwards,control,shell]

theorem gather_congr {d : ClientCore snow} (due : d.due = c.due) (mux : d.mux = c.mux) : d.gather.1 = c.gather.1 := by
  rw [gather_fst,gather_fst,due,mux]

/-- What a handshake that ends so has sent. -/
def opening (c d : ClientCore snow) : List Frame := if d.session.isSome then c.asking.gather.1 else []

theorem opening_none (absent : d.session = none) : c.opening d = [] := by
  unfold opening
  rw [absent]
  rfl

/-- The keys known, and what was learnt of the server, make no difference. -/
theorem Begins.of_congr {e : ClientCore snow} (begins : Begins sid keys e d out (e.opening d))
    (due : e.asking.due = c.asking.due) (mux : e.mux = c.mux) : Begins sid keys c d out (c.opening d) := by
  have same : e.opening d = c.opening d := by
    unfold opening
    rw [gather_congr due mux]
  have reaches := begins.reaches
  rw [same,mux] at reaches
  exact ⟨reaches,begins.named,begins.settled,begins.controls⟩

theorem establish_begins (controls : c.Controls) (absent : c.session = none) {h : Handshaker snow} (named : h.sessionId = sid)
    (elsewhere : ∀ buf ∈ out, Elsewhere sid buf)
    (agreed : ∀ session, (c.establish h out).2.session = some session → session.noise = keys) :
    Begins sid keys c (c.establish h out).2 ((c.establish h out).1.toOption.getD [])
      (c.opening (c.establish h out).2) := by
  cases made : h.intoSession (some c.serverAddr) with
  | error e =>
    have failed : c.establish h out = (.error (.handshakeDriver e),{ c with hs := none }) := by
      unfold establish
      rw [made]
    rw [failed]
    rw [opening_none (d := { c with hs := none }) absent]
    exact .waiting rfl absent (fun _ none => by cases none) controls (fun _ member => absurd member List.not_mem_nil)
  | ok session =>
    rw [establish_eq made] at agreed ⊢
    dsimp only at agreed ⊢
    have queue : (c.join session).Controls := controls
    obtain ⟨s',next,reaches⟩ := outgoing_reaches queue (show (c.join session).session = some session from rfl) (fun _ => False)
    obtain ⟨hs,_,_,queue'⟩ := (c.join session).outgoing_snd
    have same : (c.join session).gather.1 = c.asking.gather.1 :=
      gather_congr (c := c.asking) (due_congr rfl rfl rfl rfl rfl rfl) rfl
    have key : session.noise = keys := by
      rw [← reaches.keeps.2.1]
      exact agreed s' next
    have fresh : session = { Session.new sid keys none with peerAddr := some c.serverAddr } := by
      rw [Handshaker.intoSession_new made,named,key]
      rfl
    rw [opening,next,Option.isSome_some,if_pos rfl,← same]
    refine ⟨⟨s',(c.join session).outgoing.1.toOption.getD [],?_,.inl next,fun buf member => ?_⟩,fun h there => ?_,fun _ => hs,
      queue' queue⟩
    · have learnt := Peer.reaches_learn (fun _ => False) (Session.new sid keys none) c.mux c.serverAddr
      rw [← fresh] at learnt
      exact learnt.trans reaches
    · cases sent : (c.join session).outgoing.1 with
      | error e =>
        rw [sent] at member
        exact absurd member List.not_mem_nil
      | ok packets =>
        rw [sent] at member
        rcases List.mem_append.mp member with early | late
        · exact .inr (elsewhere buf early)
        · exact .inl late
    · rw [hs] at there
      cases there

theorem handleHandshake_begins (controls : c.Controls) (absent : c.session = none)
    (named : ∀ h, c.hs = some h → h.sessionId = sid) (body : Bytes)
    (agreed : ∀ session, (c.handleHandshake body).2.session = some session → session.noise = keys) :
    Begins sid keys c (c.handleHandshake body).2 ((c.handleHandshake body).1.toOption.getD [])
      (c.opening (c.handleHandshake body).2) := by
  have stays : ∀ (d : ClientCore snow) (e : RuntimeError), d.mux = c.mux → d.session = none →
      (∀ h, d.hs = some h → h.sessionId = sid) → d.Controls →
      Begins sid keys c d ((Except.error e : Except RuntimeError (List Bytes)).toOption.getD [])
        (c.opening d) := by
    intro d e mux absent named controls
    rw [opening_none absent]
    exact .waiting mux absent named controls (fun _ member => absurd member List.not_mem_nil)
  unfold handleHandshake at agreed ⊢
  cases held : c.hs with
  | none => exact stays c _ rfl absent named controls
  | some h =>
    rw [held] at agreed
    dsimp only at agreed ⊢
    obtain ⟨kept,replies⟩ := h.read_keeps body
    cases got : h.read body with
    | mk outcome h' =>
      rw [got] at agreed kept replies
      have named' : h'.sessionId = sid := kept.trans (named h held)
      have again : ∀ g, some h' = some g → g.sessionId = sid := fun g same => by cases same; exact named'
      cases outcome with
      | error e => exact stays _ _ rfl absent again controls
      | ok outcome =>
        have elsewhere : ∀ buf ∈ outcome.reply.toList, Elsewhere sid buf := by
          intro buf member
          obtain ⟨message,rfl⟩ := replies outcome buf rfl (Option.mem_toList.mp member)
          exact handshake_elsewhere sid _ message
        dsimp only at agreed ⊢
        split
        · rename_i finished
          rw [if_pos finished] at agreed
          unfold finishHandshake at agreed ⊢
          split
          · exact stays _ _ rfl absent again controls
          · rename_i key learned
            rw [learned] at agreed
            dsimp only at agreed ⊢
            revert agreed
            split
            · exact fun _ => stays _ _ rfl absent again controls
            · rename_i tofu known _ verdict
              intro agreed
              have ends := establish_begins (by exact controls) (by exact absent) named' elsewhere agreed
              exact ends.of_congr (due_congr rfl rfl rfl rfl rfl rfl) rfl
        · rename_i unfinished
          rw [opening_none (d := { c with hs := some h' }) absent]
          exact .waiting rfl absent again controls elsewhere

/-- While there is no session, a call makes it or leaves it to a later one. -/
theorem call_begins (controls : c.Controls) (absent : c.session = none) (named : ∀ h, c.hs = some h → h.sessionId = sid)
    {x : Call} (still : touches x = false)
    (agreed : ∀ session, (c.call x).2.session = some session → session.noise = keys) :
    Begins sid keys c (c.call x).2 (c.call x).1 (c.emits x) := by
  have quiet : ∀ d : ClientCore snow, d.mux = c.mux → d.session = none → d.hs = c.hs → d.Controls → Begins sid keys c d [] [] :=
    fun d mux none hs controls => .waiting mux none (fun h held => named h (hs ▸ held)) controls
      (fun _ member => absurd member List.not_mem_nil)
  have opened : ∀ kind metadata, Begins sid keys c { c with mux := (c.mux.openStream kind metadata).1 } [] [] := by
    intro kind metadata
    refine ⟨⟨_,[],Peer.reaches_openStream _ _ c.mux kind metadata,.inr ⟨absent,rfl⟩,fun _ member =>
      absurd member List.not_mem_nil⟩,
      named,fun some => ?_,controls⟩
    change c.session.isSome = true at some
    rw [absent] at some
    cases some
  cases x with
  | tick =>
    simp only [call,tick,outgoing_silent absent,emits,absent,Option.isSome_none,Bool.false_eq_true,if_false]
    exact quiet c rfl absent rfl controls
  | keepalive =>
    simp only [call,keepalive,absent,emits,Option.isSome_none,Bool.false_eq_true,if_false]
    exact quiet c rfl absent rfl controls
  | handlePacket buf =>
    have emitted : c.emits (.handlePacket buf) = c.opening (c.handlePacket buf).2 := by
      simp only [emits,connects,absent,Option.isNone_none,Bool.true_and,opening]
      rfl
    rw [emitted]
    unfold call handlePacket at agreed ⊢
    dsimp only at agreed ⊢
    split
    · rw [opening_none absent]
      exact quiet c rfl absent rfl controls
    · rename_i body parsed
      rw [parsed] at agreed
      exact handleHandshake_begins controls absent named body agreed
    · have same : c.handleTransport buf = c := by
        unfold handleTransport
        rw [absent]
      rw [same,opening_none absent]
      exact quiet c rfl absent rfl controls
  | streamWrite id data => cases still
  | streamRead id => cases still
  | streamClose id => cases still
  | openForward target => exact opened _ _
  | openXfer request => exact opened _ _
  | openExec cmd => exact opened _ _
  | resize cols rows =>
    refine quiet _ rfl absent rfl (fun frame member => ?_)
    rcases List.mem_append.mp member with old | new
    · exact controls frame old
    · exact ⟨_,List.mem_singleton.mp new⟩
  | sendBye =>
    refine quiet _ rfl absent rfl (fun frame member => ?_)
    rcases List.mem_append.mp member with old | new
    · exact controls frame old
    · exact ⟨_,List.mem_singleton.mp new⟩
  | _ => exact quiet _ rfl absent rfl controls

/-- The status that an exit notice gives. -/
def told (exited : Option Int) : Frame → Option Int
  | .control data =>
    match ControlMsg.decode data with
    | .ok (.exit status) => some status
    | _ => exited
  | _ => exited

theorem foldl_onFrame_shell (frames : List Frame) (c : ClientCore snow) :
    (frames.foldl onFrame c).shell = frames.foldl Sync.clientReceives c.shell ∧
      (frames.foldl onFrame c).exited = frames.foldl told c.exited := by
  have one : ∀ (c : ClientCore snow) (frame : Frame), (c.onFrame frame).shell = Sync.clientReceives c.shell frame ∧
      (c.onFrame frame).exited = told c.exited frame := by
    intro c frame
    cases frame with
    | control data =>
      change (c.onControl data).shell = c.shell ∧ (c.onControl data).exited = told c.exited (.control data)
      simp only [onControl,told]
      cases ControlMsg.decode data with
      | error e => exact ⟨rfl,rfl⟩
      | ok msg =>
        cases msg with
        | serverVersion v =>
          dsimp only
          split <;> exact ⟨rfl,rfl⟩
        | _ => exact ⟨rfl,rfl⟩
    | _ => exact ⟨rfl,rfl⟩
  induction frames generalizing c with
  | nil => exact ⟨rfl,rfl⟩
  | cons frame rest ih =>
    obtain ⟨shell,exited⟩ := one c frame
    obtain ⟨shell',exited'⟩ := ih (c.onFrame frame)
    exact ⟨shell'.trans (by rw [shell]; rfl),exited'.trans (by rw [exited]; rfl)⟩

theorem establish_shell (c : ClientCore snow) (h : Handshaker snow) (out : List Bytes) :
    (c.establish h out).2.shell = c.shell ∧ (c.establish h out).2.exited = c.exited := by
  cases made : h.intoSession (some c.serverAddr) with
  | error e =>
    unfold establish
    rw [made]
    exact ⟨rfl,rfl⟩
  | ok session =>
    rw [establish_eq made]
    exact ⟨(c.join session).outgoing_snd.2.1,(c.join session).outgoing_snd.2.2.1⟩

theorem handleHandshake_shell (c : ClientCore snow) (body : Bytes) :
    (c.handleHandshake body).2.shell = c.shell ∧ (c.handleHandshake body).2.exited = c.exited := by
  unfold handleHandshake
  split
  · exact ⟨rfl,rfl⟩
  · split
    · exact ⟨rfl,rfl⟩
    · dsimp only
      split
      · unfold finishHandshake
        split
        · exact ⟨rfl,rfl⟩
        · split
          · exact ⟨rfl,rfl⟩
          · exact establish_shell _ _ _
      · exact ⟨rfl,rfl⟩

/-- The screen and the typed bytes after a call: bytes were typed, or frames opened. -/
def shellBy (c : ClientCore snow) : Call → ClientShell
  | .typeInput bytes => c.shell.typeInput bytes
  | x => (c.opens x).foldl Sync.clientReceives c.shell

theorem call_shell (c : ClientCore snow) (x : Call) :
    (c.call x).2.shell = c.shellBy x ∧ (c.call x).2.exited = (c.opens x).foldl told c.exited := by
  cases x with
  | handlePacket buf =>
    unfold call handlePacket shellBy opens
    dsimp only
    split
    · rename_i parsed
      rw [parsed]
      exact ⟨rfl,rfl⟩
    · rename_i parsed
      rw [parsed]
      exact c.handleHandshake_shell _
    · rename_i parsed
      rw [parsed]
      unfold handleTransport frames
      cases c.session with
      | none => exact ⟨rfl,rfl⟩
      | some session =>
        dsimp only
        split <;> rename_i opened <;> rw [opened]
        · exact ⟨rfl,rfl⟩
        · rename_i frames session'
          exact foldl_onFrame_shell frames { c with session := some session' }
  | tick =>
    rw [show (c.call .tick).2 = c.outgoing.2 from congrArg Prod.snd c.tick_eq]
    exact ⟨c.outgoing_snd.2.1,c.outgoing_snd.2.2.1⟩
  | keepalive =>
    unfold call keepalive
    cases c.session <;> exact ⟨rfl,rfl⟩
  | _ => exact ⟨rfl,rfl⟩

/-- Typed bytes are sent as the client has them, and acknowledgements of the screen as it is. -/
theorem emits_cases (controls : c.Controls) {x : Call} {frame : Frame} (member : frame ∈ c.emits x) :
    (∃ data, frame = .control data) ∨ c.shell.inputTx.pending = some frame ∨ frame = .ack c.shell.currentSeq ∨
      frame = .ping 0 ∨ frame.streamId ≠ none := by
  have gathered : ∀ d : ClientCore snow, d.Controls → d.shell = c.shell → frame ∈ d.gather.1 →
      (∃ data, frame = .control data) ∨ c.shell.inputTx.pending = some frame ∨ frame = .ack c.shell.currentSeq ∨
        frame = .ping 0 ∨ frame.streamId ≠ none := by
    intro d controls shell member
    rw [gather_fst] at member
    rcases List.mem_append.mp member with due | polled
    · rcases due_cases controls due with control | input | ack
      · exact .inl control
      · exact .inr (.inl (shell ▸ input))
      · exact .inr (.inr (.inl (shell ▸ ack)))
    · rw [← StreamMux.streamFrames_pollTransmit] at polled
      have named := (List.mem_filter.mp polled).2
      exact .inr (.inr (.inr (.inr fun none => by rw [none] at named; cases named)))
  cases x with
  | handlePacket buf =>
    simp only [emits] at member
    split at member
    · exact gathered c.asking controls rfl member
    · exact absurd member List.not_mem_nil
  | tick =>
    simp only [emits] at member
    split at member
    · exact gathered c controls rfl member
    · exact absurd member List.not_mem_nil
  | keepalive =>
    simp only [emits] at member
    split at member
    · exact .inr (.inr (.inr (.inl (List.mem_singleton.mp member))))
    · exact absurd member List.not_mem_nil
  | _ => exact absurd member List.not_mem_nil

end ClientCore
end Noissh

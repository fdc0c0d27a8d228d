import Noissh.ClientCore
import Noissh.SessionSpec

/-! What an established client makes of datagrams that are not its server's: a transport
packet that does not authenticate is dropped, and everything else is an error. -/
namespace Noissh

/-- The first byte of a datagram says what it is; transport packets have 17 bytes of header. -/
theorem parsePacket_transport_iff (buf : Bytes) :
    (∃ sessionId nonce body, parsePacket buf = .ok (.transport sessionId nonce body)) ↔
      17 ≤ buf.length ∧ buf.head? = some pktTransport := by
  cases buf with
  | nil => simp [parsePacket]
  | cons ty rest =>
    simp only [parsePacket,List.head?_cons,Option.some.injEq]
    by_cases short : (ty :: rest).length < 9
    · rw [if_pos short]
      constructor
      · rintro ⟨_,_,_,eq⟩
        cases eq
      · intro header
        omega
    · rw [if_neg short]
      by_cases handshake : ty = pktHandshake
      · rw [if_pos handshake]
        constructor
        · rintro ⟨_,_,_,eq⟩
          cases eq
        · rintro ⟨_,transport⟩
          exact absurd (handshake.symm.trans transport) (by decide)
      · rw [if_neg handshake]
        by_cases transport : ty = pktTransport
        · rw [if_pos transport]
          by_cases header : (ty :: rest).length < 17
          · rw [if_pos header]
            constructor
            · rintro ⟨_,_,_,eq⟩
              cases eq
            · rintro ⟨long,_⟩
              omega
          · rw [if_neg header]
            exact ⟨fun _ => ⟨by omega,transport⟩,fun _ => ⟨_,_,_,rfl⟩⟩
        · rw [if_neg transport]
          constructor
          · rintro ⟨_,_,_,eq⟩
            cases eq
          · rintro ⟨_,eq⟩
            exact absurd eq transport

namespace Session

variable {snow : Snow} (produced : snow.Transport → Nat → Bytes → Prop)

/-- A transport packet of this session that the peer produced, under a nonce not yet seen. -/
def Authentic (s : Session snow) (buf : Bytes) : Prop :=
  ∃ nonce body, parsePacket buf = .ok (.transport s.sessionId nonce body) ∧
    produced s.noise.transport nonce body ∧ (s.replay.checkAndSet nonce).1 = true

/-- What is not authentic does not open, and leaves the session as it is. -/
theorem openPacket_junk
    (genuine : ∀ t nonce body plaintext, snow.decrypt t nonce body = .ok plaintext → produced t nonce body)
    (s : Session snow) (src : SocketAddr) {buf : Bytes} (junk : ¬s.Authentic produced buf) :
    ∃ e, s.openPacket src buf = (.error e,s) := by
  rcases s.openPacket_cases src buf with ⟨e,refused,_⟩ | ⟨nonce,body,plaintext,parsed,opened,fresh,_⟩
  · exact ⟨e,refused⟩
  · exact absurd ⟨nonce,body,parsed,genuine _ _ _ _ opened,fresh⟩ junk

end Session

namespace ClientCore

variable {snow : Snow}

/-- The states of a client that any history of its calls leads to. -/
inductive Reachable : ClientCore snow → Prop
  | new {privateKey : Bytes} {sid : SessionId} {termVar : Option String} {known : KnownHosts} {hostLabel : String}
    {serverAddr : SocketAddr} {rows cols : UInt16} {prediction : DisplayMode} {c : ClientCore snow} {first : Bytes} :
    new snow privateKey sid termVar known hostLabel serverAddr rows cols prediction = .ok (c,first) → Reachable c
  | setWantShell {c : ClientCore snow} (want : Bool) : c.Reachable → Reachable (c.setWantShell want)
  | setWantAgent {c : ClientCore snow} (want : Bool) : c.Reachable → Reachable (c.setWantAgent want)
  | typeInput {c : ClientCore snow} (bytes : Bytes) : c.Reachable → Reachable (c.typeInput bytes)
  | resize {c : ClientCore snow} (cols rows : UInt16) : c.Reachable → Reachable (c.resize cols rows)
  | sendBye {c : ClientCore snow} : c.Reachable → Reachable c.sendBye
  | handlePacket {c : ClientCore snow} (buf : Bytes) : c.Reachable → Reachable (c.handlePacket buf).2
  | tick {c : ClientCore snow} : c.Reachable → Reachable c.tick.2
  | openForward {c : ClientCore snow} (target : String) : c.Reachable → Reachable (c.openForward target).1
  | openXfer {c : ClientCore snow} (request : Bytes) : c.Reachable → Reachable (c.openXfer request).1
  | openExec {c : ClientCore snow} (cmd : String) : c.Reachable → Reachable (c.openExec cmd).1
  | streamWrite {c : ClientCore snow} (id : Nat) (data : Bytes) : c.Reachable → Reachable (c.streamWrite id data)
  | streamRead {c : ClientCore snow} (id : Nat) : c.Reachable → Reachable (c.streamRead id).2
  | streamClose {c : ClientCore snow} (id : Nat) : c.Reachable → Reachable (c.streamClose id)
  | requestRemoteForward {c : ClientCore snow} (bindPort : UInt16) (target : String) :
    c.Reachable → Reachable (c.requestRemoteForward bindPort target)
  | takeStreamEvents {c : ClientCore snow} : c.Reachable → Reachable c.takeStreamEvents.2
  | keepalive {c : ClientCore snow} : c.Reachable → Reachable c.keepalive.2

/-- Once established, the client has its session and has no handshake any more. -/
def Settled (c : ClientCore snow) : Prop := c.established = true → c.hs = none ∧ c.session.isSome = true

/-- A call that leaves the handshake alone and keeps the session. -/
structure Stays (c d : ClientCore snow) : Prop where
  established : d.established = c.established
  hs : d.hs = c.hs
  session : d.session.isSome = c.session.isSome

variable {c d : ClientCore snow}

theorem Stays.settled (stays : Stays c d) (settled : c.Settled) : d.Settled := by
  intro established
  rw [stays.established] at established
  rw [stays.hs,stays.session]
  exact settled established

/-- A call that leaves alone the handshake, the keys known and what the session is. -/
structure Keeps (c d : ClientCore snow) : Prop where
  established : d.established = c.established
  hs : d.hs = c.hs
  noise : d.session.map Session.noise = c.session.map Session.noise
  known : d.known = c.known
  hostLabel : d.hostLabel = c.hostLabel
  serverStatic : d.serverStatic = c.serverStatic

theorem Keeps.refl (c : ClientCore snow) : Keeps c c := ⟨rfl,rfl,rfl,rfl,rfl,rfl⟩

theorem Keeps.trans {e : ClientCore snow} (first : Keeps c d) (second : Keeps d e) : Keeps c e :=
  ⟨second.established.trans first.established,second.hs.trans first.hs,second.noise.trans first.noise,
    second.known.trans first.known,second.hostLabel.trans first.hostLabel,second.serverStatic.trans first.serverStatic⟩

theorem Keeps.stays (keeps : Keeps c d) : Stays c d := by
  refine ⟨keeps.established,keeps.hs,?_⟩
  rw [← @Option.isSome_map _ _ Session.noise d.session,keeps.noise,Option.isSome_map]

theorem openShellFrames_keeps (c : ClientCore snow) : Keeps c c.openShellFrames.2 := by
  unfold openShellFrames
  split <;> exact ⟨rfl,rfl,rfl,rfl,rfl,rfl⟩

theorem remoteForwardFrames_keeps (c : ClientCore snow) : Keeps c c.remoteForwardFrames.2 := by
  unfold remoteForwardFrames
  split <;> exact ⟨rfl,rfl,rfl,rfl,rfl,rfl⟩

theorem gather_keeps (c : ClientCore snow) : Keeps c c.gather.2 := by
  have both := (openShellFrames_keeps c).trans (remoteForwardFrames_keeps c.openShellFrames.2)
  exact ⟨both.established,both.hs,both.noise,both.known,both.hostLabel,both.serverStatic⟩

/-- The same session, further on, in the place of one. -/
theorem keeps_session {session : Session snow} (held : c.session = some session) {next : Session snow}
    (same : next.noise = session.noise) : Keeps c { c with session := some next } := by
  refine ⟨rfl,rfl,?_,rfl,rfl,rfl⟩
  rw [held,Option.map_some,Option.map_some,same]

/-- What a call to send leaves as it was. -/
theorem outgoing_keeps (c : ClientCore snow) : Keeps c c.outgoing.2 := by
  have gathered := gather_keeps c
  unfold outgoing
  split
  · exact .refl c
  · rename_i session held
    have sealed := session.sealMany_noise c.gather.1 maxDatagramPlaintext
    have known : c.session.map Session.noise = some session.noise := by rw [held,Option.map_some]
    dsimp only
    split
    · exact gathered
    · split <;> rename_i eq
      · rw [eq] at sealed
        exact ⟨gathered.established,gathered.hs,known ▸ congrArg some sealed,gathered.known,
          gathered.hostLabel,gathered.serverStatic⟩
      · rw [eq] at sealed
        exact ⟨gathered.established,gathered.hs,known ▸ congrArg some sealed,gathered.known,
          gathered.hostLabel,gathered.serverStatic⟩

theorem tick_keeps (c : ClientCore snow) : Keeps c c.tick.2 := by
  have sent := outgoing_keeps c
  unfold tick
  split <;> rename_i eq <;> rw [eq] at sent <;> exact sent

theorem keepalive_keeps (c : ClientCore snow) : Keeps c c.keepalive.2 := by
  unfold keepalive
  split
  · exact .refl c
  · rename_i session held
    exact keeps_session held (session.sealFrames_noise _)

theorem onFrame_keeps (c : ClientCore snow) (frame : Frame) : Keeps c (c.onFrame frame) := by
  cases frame with
  | control data =>
    unfold onFrame onControl
    dsimp only
    split
    · exact ⟨rfl,rfl,rfl,rfl,rfl,rfl⟩
    · split <;> exact ⟨rfl,rfl,rfl,rfl,rfl,rfl⟩
    · exact .refl c
  | _ => exact ⟨rfl,rfl,rfl,rfl,rfl,rfl⟩

theorem onFrames_keeps (c : ClientCore snow) (frames : List Frame) : Keeps c (c.onFrames frames) := by
  have all : ∀ (frames : List Frame) (c : ClientCore snow), Keeps c (frames.foldl onFrame c) := by
    intro frames
    induction frames with
    | nil => exact .refl
    | cons frame rest ih => exact fun c => (onFrame_keeps c frame).trans (ih _)
  have folded := all frames c
  exact ⟨folded.established,folded.hs,folded.noise,folded.known,folded.hostLabel,folded.serverStatic⟩

theorem handleTransport_keeps (c : ClientCore snow) (buf : Bytes) : Keeps c (c.handleTransport buf) := by
  unfold handleTransport
  split
  · exact .refl c
  · rename_i session held
    have same := (session.openPacket_keeps c.serverAddr buf).1
    split <;> rename_i eq <;> rw [eq] at same
    · exact keeps_session held same
    · exact (keeps_session held same).trans (onFrames_keeps _ _)

theorem settled_of_unestablished (fresh : c.established = false) : c.Settled := by
  intro established
  rw [fresh] at established
  cases established

theorem establish_settled (fresh : c.established = false) (hs : Handshaker snow) (out : List Bytes) :
    (c.establish hs out).2.Settled := by
  unfold establish
  split
  · exact settled_of_unestablished fresh
  · rename_i session _
    have started : Settled { c with
        hs := none
        session := some session
        established := true
        openShellPending := c.wantShell } := fun _ => ⟨rfl,rfl⟩
    have sent := (outgoing_keeps _).stays.settled started
    dsimp only
    split
    · rename_i eq
      rw [eq] at sent
      exact sent
    · rename_i eq
      rw [eq] at sent
      exact sent

theorem finishHandshake_settled (fresh : c.established = false) (hs : Handshaker snow) (out : List Bytes) :
    (c.finishHandshake hs out).2.Settled := by
  unfold finishHandshake
  split
  · exact settled_of_unestablished fresh
  · split
    · exact settled_of_unestablished fresh
    · apply establish_settled
      exact fresh

theorem handleHandshake_settled (settled : c.Settled) (body : Bytes) : (c.handleHandshake body).2.Settled := by
  unfold handleHandshake
  split
  · exact settled
  · rename_i hs held
    have fresh : c.established = false := by
      by_contra established
      rw [(settled (by simpa using established)).1] at held
      cases held
    split
    · exact settled_of_unestablished fresh
    · dsimp only
      split
      · apply finishHandshake_settled
        exact fresh
      · exact settled_of_unestablished fresh

theorem Reachable.settled (reachable : c.Reachable) : c.Settled := by
  induction reachable with
  | new made =>
    unfold ClientCore.new at made
    split at made
    · cases made
    · cases made
      exact settled_of_unestablished rfl
  | handlePacket buf _ ih =>
    unfold ClientCore.handlePacket
    split
    · exact ih
    · exact handleHandshake_settled ih _
    · exact (handleTransport_keeps _ buf).stays.settled ih
  | @tick c _ ih => exact (tick_keeps c).stays.settled ih
  | @keepalive c _ ih => exact (keepalive_keeps c).stays.settled ih
  | _ => rename_i ih; exact ih

/-- An established client drops, unchanged and without a word, every transport packet that is
not an authentic fresh one of its session; on every other datagram it fails. -/
theorem junk_ignored_iff (produced : snow.Transport → Nat → Bytes → Prop)
    (genuine : ∀ t nonce body plaintext, snow.decrypt t nonce body = .ok plaintext → produced t nonce body)
    {c : ClientCore snow} (reachable : c.Reachable) (established : c.established = true) (buf : Bytes)
    (junk : ∀ session, c.session = some session → ¬session.Authentic produced buf) :
    c.handlePacket buf = (.ok [],c) ↔ 17 ≤ buf.length ∧ buf.head? = some pktTransport := by
  obtain ⟨none,some⟩ := reachable.settled established
  obtain ⟨session,held⟩ := Option.isSome_iff_exists.mp some
  rw [← parsePacket_transport_iff]
  unfold handlePacket
  cases parsed : parsePacket buf with
  | error e => simp
  | ok packet =>
    cases packet with
    | handshake sessionId body =>
      simp [handleHandshake,none]
    | transport sessionId nonce body =>
      obtain ⟨e,dropped⟩ := session.openPacket_junk produced genuine c.serverAddr (junk session held)
      have same : c.handleTransport buf = c := by
        unfold handleTransport
        simp only [held,dropped]
        rw [← held]
      exact ⟨fun _ => ⟨_,_,_,rfl⟩,fun _ => by rw [same]⟩

def sampleId : SessionId := List.replicate 8 7

/-- A client that has sent its first message and wants no shell. -/
def dialling : ClientCore Clear.noise :=
  (start {
    hs := some (⟨true,1,List.replicate 32 1,none⟩ : Clear.Handshake)
    sessionId := sampleId
    finished := false
    sendPayload := []
    peerPayload := none } none {} "host:51820" (.v4 0 51820) 24 80 .adaptive).setWantShell false

theorem dialling_reachable : dialling.Reachable := by
  apply Reachable.setWantShell
  exact @Reachable.new _ (List.replicate 32 1) sampleId none {} "host:51820" (.v4 0 51820) 24 80 .adaptive _ _ rfl

/-- The server's handshake message. -/
def secondMessage : Bytes := buildHandshakePacket sampleId (Clear.pad 32 ++ List.replicate 32 2 ++ Clear.pad 32)

def connected : ClientCore Clear.noise := (dialling.handlePacket secondMessage).2

theorem connected_reachable : connected.Reachable := .handlePacket secondMessage dialling_reachable

/-- A transport packet of the session whose tag is not that of its nonce. -/
def forged : Bytes := pktTransport :: (sampleId ++ toBeBytes 3 ++ List.replicate 16 9)

theorem junk_ignored_forged :
    connected.established = true ∧ (17 ≤ forged.length ∧ forged.head? = some pktTransport) ∧
      connected.handlePacket forged = (.ok [],connected) := by
  have established : connected.established = true := by decide +kernel
  have header : 17 ≤ forged.length ∧ forged.head? = some pktTransport := by decide
  refine ⟨established,header,?_⟩
  refine (junk_ignored_iff Clear.Produced Clear.decrypt_produced connected_reachable established forged ?_).mpr header
  rintro session _ ⟨nonce,body,parsed,⟨plaintext,sent⟩,_⟩
  have header : parsePacket forged = .ok (.transport sampleId 3 (List.replicate 16 9)) := by decide +kernel
  rw [header] at parsed
  obtain ⟨_,rfl,rfl⟩ := Packet.transport.inj (Except.ok.inj parsed)
  have opened := Clear.decrypt_encrypt sent
  have refused : Clear.decrypt 3 (List.replicate 16 9) = .error "Decrypt" := by decide +kernel
  rw [refused] at opened
  cases opened

/-- An established client fails on an empty datagram, on one of an unknown type, and on the
server's own handshake message when that comes again. -/
theorem junk_fatal :
    connected.established = true ∧
      (connected.handlePacket []).1 = .error (.transport .short) ∧
      (connected.handlePacket (List.replicate 9 7)).1 = .error (.transport (.unknownType 7)) ∧
      (connected.handlePacket secondMessage).1 = .error .handshake := by
  decide +kernel

end ClientCore
end Noissh

import Noissh.ClientSafety
import Noissh.Machine
import Noissh.ServerSafety

/-! Both sides admit only whom they trust. A client makes one handshake: it waits for the
server's message, and then either has a session with the key it holds for the host, or is
refused for good. -/
namespace Noissh.ClientCore

variable {snow : Snow}

inductive Call where
  | setWantShell (want : Bool)
  | setWantAgent (want : Bool)
  | typeInput (bytes : Bytes)
  | resize (cols rows : UInt16)
  | sendBye
  | handlePacket (buf : Bytes)
  | tick
  | openForward (target : String)
  | openXfer (request : Bytes)
  | openExec (cmd : String)
  | streamWrite (id : Nat) (data : Bytes)
  | streamRead (id : Nat)
  | streamClose (id : Nat)
  | requestRemoteForward (bindPort : UInt16) (target : String)
  | takeStreamEvents
  | keepalive

/-- A call, with the datagrams it gives to send; a failed one gives none. -/
def call (c : ClientCore snow) : Call → List Bytes × ClientCore snow
  | .setWantShell want => ([],c.setWantShell want)
  | .setWantAgent want => ([],c.setWantAgent want)
  | .typeInput bytes => ([],c.typeInput bytes)
  | .resize cols rows => ([],c.resize cols rows)
  | .sendBye => ([],c.sendBye)
  | .handlePacket buf => ((c.handlePacket buf).1.toOption.getD [],(c.handlePacket buf).2)
  | .tick => c.tick
  | .openForward target => ([],(c.openForward target).1)
  | .openXfer request => ([],(c.openXfer request).1)
  | .openExec cmd => ([],(c.openExec cmd).1)
  | .streamWrite id data => ([],c.streamWrite id data)
  | .streamRead id => ([],(c.streamRead id).2)
  | .streamClose id => ([],c.streamClose id)
  | .requestRemoteForward bindPort target => ([],c.requestRemoteForward bindPort target)
  | .takeStreamEvents => ([],c.takeStreamEvents.2)
  | .keepalive => (c.keepalive.1.toList,c.keepalive.2)

/-- A client, and all the datagrams its calls gave to send. -/
structure Dialog (snow : Snow) where
  core : ClientCore snow
  sent : List Bytes := []

def Dialog.step (d : Dialog snow) (x : Call) : Dialog snow where
  core := (d.core.call x).2
  sent := d.sent ++ (d.core.call x).1

def Dialog.run (d : Dialog snow) (calls : List Call) : Dialog snow := Machine.run step calls d

/-- The server's key, as the finished handshake gave it. -/
def serverKey (c : ClientCore snow) : Option Bytes :=
  match c.session with
  | some session => some session.noise.remoteStatic
  | none => do
    let h ← c.hs
    let hs ← h.hs
    if snow.isFinished hs then snow.remoteStatic hs else none

/-- The session is with the holder of the key that is known for the host. -/
def Trusting (c : ClientCore snow) : Prop :=
  c.established = true ∧ c.hs = none ∧ ∃ (key : PublicKey) (noise : NoiseSession snow),
    c.known.hosts[c.hostLabel]? = some key ∧ c.session.map Session.noise = some noise ∧ noise.remoteStatic = key.bytes ∧
    c.serverStatic = some key.bytes

/-- There is no session, and the handshake is at one of these turns. -/
def Unconnected (initiates : snow.Handshake → Bool) (turn : snow.Handshake → Nat) (turns : List Nat)
    (c : ClientCore snow) : Prop :=
  c.established = false ∧ c.session = none ∧ ∀ h, c.hs = some h → ∃ n ∈ turns, h.At initiates turn true n

variable {initiates : snow.Handshake → Bool} {turn : snow.Handshake → Nat} {c d : ClientCore snow}

theorem Keeps.unconnected {turns : List Nat} (keeps : Keeps c d) (unconnected : c.Unconnected initiates turn turns) :
    d.Unconnected initiates turn turns := by
  obtain ⟨fresh,absent,stands⟩ := unconnected
  refine ⟨keeps.established.trans fresh,?_,fun h held => stands h (keeps.hs ▸ held)⟩
  have noise := keeps.noise
  rw [absent,Option.map_none,Option.map_eq_none_iff] at noise
  exact noise

theorem Keeps.trusting (keeps : Keeps c d) (trusting : c.Trusting) : d.Trusting := by
  obtain ⟨established,gone,key,noise,pinned,session,same,static⟩ := trusting
  refine ⟨keeps.established.trans established,keeps.hs.trans gone,key,noise,?_,keeps.noise.trans session,same,
    keeps.serverStatic.trans static⟩
  rw [keeps.known,keeps.hostLabel]
  exact pinned

theorem outgoing_silent (absent : c.session = none) : c.outgoing = (.ok [],c) := by
  unfold outgoing
  rw [absent]

/-- Every call but that of a handshake message leaves the handshake as it is, and sends nothing
while there is no session. -/
theorem call_cases (c : ClientCore snow) (x : Call) :
    (Keeps c (c.call x).2 ∧ (c.session = none → (c.call x).1 = [])) ∨
    ∃ body, (c.call x).1 = (c.handleHandshake body).1.toOption.getD [] ∧ (c.call x).2 = (c.handleHandshake body).2 := by
  cases x with
  | handlePacket buf =>
    unfold call handlePacket
    dsimp only
    split
    · exact .inl ⟨.refl c,fun _ => rfl⟩
    · rename_i body _
      exact .inr ⟨body,rfl,rfl⟩
    · exact .inl ⟨c.handleTransport_keeps buf,fun _ => rfl⟩
  | tick =>
    refine .inl ⟨c.tick_keeps,fun absent => ?_⟩
    rw [call,tick,outgoing_silent absent]
  | keepalive =>
    refine .inl ⟨c.keepalive_keeps,fun absent => ?_⟩
    rw [call,keepalive,absent]
    rfl
  | _ => exact .inl ⟨⟨rfl,rfl,rfl,rfl,rfl,rfl⟩,fun _ => rfl⟩

/-- All the pins of one store are in the other. -/
def Pins (before after : KnownHosts) : Prop :=
  ∀ (label : String) (key : PublicKey), before.hosts[label]? = some key → after.hosts[label]? = some key

/-- With a trusted key the client gets its session, or loses its handshake. -/
theorem establish_cases (fresh : c.established = false) (absent : c.session = none) {h : Handshaker snow} {key : PublicKey}
    (pinned : c.known.hosts[c.hostLabel]? = some key) (static : c.serverStatic = some key.bytes)
    (learned : h.remoteStatic = some key.bytes) (out : List Bytes) :
    (c.establish h out).2.known = c.known ∧
    (((c.establish h out).1.toOption = none ∧ (c.establish h out).2.Unconnected initiates turn [3]) ∨
      (c.establish h out).2.Trusting) := by
  unfold establish
  split
  · exact ⟨rfl,.inl ⟨rfl,fresh,absent,nofun⟩⟩
  · rename_i session made
    have same := Handshaker.intoSession_spec made
    rw [learned,Option.some_inj] at same
    have started : Trusting { c with
        hs := none
        session := some session
        established := true
        openShellPending := c.wantShell } := ⟨rfl,rfl,key,session.noise,pinned,rfl,same.symm,static⟩
    have keeps := outgoing_keeps { c with
        hs := none
        session := some session
        established := true
        openShellPending := c.wantShell }
    dsimp only
    split <;> rename_i eq <;> rw [eq] at keeps
    · exact ⟨keeps.known,.inr (keeps.trusting started)⟩
    · exact ⟨keeps.known,.inr (keeps.trusting started)⟩

/-- The end of a handshake: refused, without a word, or trusted. -/
theorem finishHandshake_cases (fresh : c.established = false) (absent : c.session = none) {h : Handshaker snow}
    (held : c.hs = some h) (stands : h.At initiates turn true 3) (out : List Bytes) :
    Pins c.known (c.finishHandshake h out).2.known ∧
    (((c.finishHandshake h out).1.toOption = none ∧ (c.finishHandshake h out).2.Unconnected initiates turn [3]) ∨
      (c.finishHandshake h out).2.Trusting) := by
  have refused : c.Unconnected initiates turn [3] := by
    refine ⟨fresh,absent,fun g there => ?_⟩
    cases held.symm.trans there
    exact ⟨3,.head _,stands⟩
  unfold finishHandshake
  cases learned : h.remoteStatic with
  | none => exact ⟨fun _ _ there => there,.inl ⟨rfl,refused⟩⟩
  | some key =>
    dsimp only
    rcases verifyServer_cases c.known c.hostLabel key with ⟨mismatch,same,_⟩ | ⟨trusted,⟨pin,pinned,bytes⟩,kept⟩
    · rw [← Prod.eta (verifyServer c.known c.hostLabel key),mismatch,same]
      exact ⟨fun _ _ there => there,.inl ⟨rfl,refused⟩⟩
    · split
      · rename_i verdict
        rw [verdict] at trusted
        exact absurd rfl trusted
      · rename_i tofu known _ verdict
        rw [verdict] at pinned kept
        have done := @establish_cases snow initiates turn { c with
            known
            knownHostsDirty := c.knownHostsDirty || tofu == .new
            serverStatic := some key
            serverVersion := c.learnVersion h } fresh absent h pin pinned (by rw [bytes]) (by rw [learned,bytes]) out
        refine ⟨fun label other there => ?_,done.2⟩
        rw [done.1]
        exact kept label other there

/-- A waiting client reads a message and stays waiting, or its handshake ends. -/
theorem handleHandshake_waiting (xx : snow.XX initiates turn) (waiting : c.Unconnected initiates turn [1,2])
    (body : Bytes) :
    Pins c.known (c.handleHandshake body).2.known ∧
    (((c.handleHandshake body).1.toOption = none ∧ ((c.handleHandshake body).2.Unconnected initiates turn [1,2] ∨
      (c.handleHandshake body).2.Unconnected initiates turn [3])) ∨ (c.handleHandshake body).2.Trusting) := by
  obtain ⟨fresh,absent,turns⟩ := waiting
  unfold handleHandshake
  cases held : c.hs with
  | none => exact ⟨fun _ _ there => there,.inl ⟨rfl,.inl ⟨fresh,absent,turns⟩⟩⟩
  | some h =>
    dsimp only
    have again : ∀ (g : Handshaker snow) (m : Nat), m ∈ [1,2] → g.At initiates turn true m →
        Unconnected initiates turn [1,2] { c with hs := some g } := fun g m listed stands =>
      ⟨fresh,absent,fun other same => by cases same; exact ⟨m,listed,stands⟩⟩
    obtain ⟨n,listed,stands⟩ := turns h held
    have either : n = 1 ∨ n = 2 := by simpa using listed
    rcases either with rfl | rfl
    · rcases Handshaker.read_second xx stands body with ⟨e,h',failed,one | two⟩ | ⟨packet,h',done,three⟩
      · rw [failed]
        exact ⟨fun _ _ there => there,.inl ⟨rfl,.inl (again h' 1 (by simp) one)⟩⟩
      · rw [failed]
        exact ⟨fun _ _ there => there,.inl ⟨rfl,.inl (again h' 2 (by simp) two)⟩⟩
      · rw [done]
        have ends := @finishHandshake_cases snow initiates turn { c with hs := some h' } fresh absent h' rfl three [packet]
        exact ⟨ends.1,ends.2.imp_left fun ⟨silent,refused⟩ => ⟨silent,.inr refused⟩⟩
    · obtain ⟨e,h',failed,two⟩ := Handshaker.read_out_of_turn xx stands (.inr (by decide)) body
      rw [failed]
      exact ⟨fun _ _ there => there,.inl ⟨rfl,.inl (again h' 2 (by simp) two)⟩⟩

/-- Once refused, whatever comes is an error. -/
theorem handleHandshake_refused (xx : snow.XX initiates turn) (refused : c.Unconnected initiates turn [3]) (body : Bytes) :
    (c.handleHandshake body).2.known = c.known ∧ (c.handleHandshake body).1.toOption = none ∧
      (c.handleHandshake body).2.Unconnected initiates turn [3] := by
  obtain ⟨fresh,absent,turns⟩ := refused
  unfold handleHandshake
  cases held : c.hs with
  | none => exact ⟨rfl,rfl,fresh,absent,turns⟩
  | some h =>
    dsimp only
    obtain ⟨n,listed,stands⟩ := turns h held
    obtain rfl := List.mem_singleton.mp listed
    obtain ⟨e,h',failed,three⟩ := Handshaker.read_out_of_turn xx stands (.inl (Nat.le_refl 3)) body
    rw [failed]
    exact ⟨rfl,rfl,fresh,absent,fun other same => by cases same; exact ⟨3,.head _,three⟩⟩

theorem handleHandshake_trusting (trusting : c.Trusting) (body : Bytes) : (c.handleHandshake body).2 = c := by
  unfold handleHandshake
  rw [trusting.2.1]

namespace Dialog

/-- Nothing was sent while there is no session, and a session is with a trusted server. -/
def Sound (initiates : snow.Handshake → Bool) (turn : snow.Handshake → Nat) (d : Dialog snow) : Prop :=
  (d.sent = [] ∧ (d.core.Unconnected initiates turn [1,2] ∨ d.core.Unconnected initiates turn [3])) ∨ d.core.Trusting

/-- The handshake is over and was refused. -/
def Refused (initiates : snow.Handshake → Bool) (turn : snow.Handshake → Nat) (d : Dialog snow) : Prop :=
  d.sent = [] ∧ d.core.Unconnected initiates turn [3]

variable {d : Dialog snow}

theorem Refused.after_step (xx : snow.XX initiates turn) (refused : d.Refused initiates turn) (x : Call) :
    (d.step x).Refused initiates turn := by
  obtain ⟨silent,ended⟩ := refused
  unfold step Refused
  rcases d.core.call_cases x with ⟨keeps,quiet⟩ | ⟨body,out,core⟩
  · exact ⟨by rw [silent,quiet ended.2.1]; rfl,keeps.unconnected ended⟩
  · obtain ⟨_,failed,again⟩ := handleHandshake_refused xx ended body
    refine ⟨?_,?_⟩
    · dsimp only
      rw [silent,out,failed]
      rfl
    · dsimp only
      rw [core]
      exact again

theorem Sound.after_step (xx : snow.XX initiates turn) (sound : d.Sound initiates turn) (x : Call) :
    (d.step x).Sound initiates turn := by
  rcases sound with ⟨silent,waiting | ended⟩ | trusting
  · rcases d.core.call_cases x with ⟨keeps,quiet⟩ | ⟨body,out,core⟩
    · refine .inl ⟨?_,.inl (keeps.unconnected waiting)⟩
      rw [step,silent,quiet waiting.2.1]
      rfl
    · unfold step Sound
      dsimp only
      rw [core,out,silent]
      rcases (handleHandshake_waiting xx waiting body).2 with ⟨failed,either⟩ | trusting
      · rw [failed]
        exact .inl ⟨rfl,either⟩
      · exact .inr trusting
  · have refused : d.Refused initiates turn := ⟨silent,ended⟩
    have next := refused.after_step xx x
    exact .inl ⟨next.1,.inr next.2⟩
  · refine .inr ?_
    rcases d.core.call_cases x with ⟨keeps,_⟩ | ⟨body,_,core⟩
    · exact keeps.trusting trusting
    · rw [step,core,handleHandshake_trusting trusting body]
      exact trusting

/-- No call changes a pin. -/
theorem Sound.pins (xx : snow.XX initiates turn) (sound : d.Sound initiates turn) (x : Call) :
    Pins d.core.known (d.step x).core.known := by
  unfold step
  dsimp only
  rcases d.core.call_cases x with ⟨keeps,_⟩ | ⟨body,_,core⟩
  · rw [keeps.known]
    exact fun _ _ there => there
  · rw [core]
    rcases sound with ⟨_,waiting | ended⟩ | trusting
    · exact (handleHandshake_waiting xx waiting body).1
    · rw [(handleHandshake_refused xx ended body).1]
      exact fun _ _ there => there
    · rw [handleHandshake_trusting trusting body]
      exact fun _ _ there => there

theorem Sound.after_run (xx : snow.XX initiates turn) (sound : d.Sound initiates turn) (calls : List Call) :
    (d.run calls).Sound initiates turn ∧ Pins d.core.known (d.run calls).core.known := by
  induction calls generalizing d with
  | nil => exact ⟨sound,fun _ _ there => there⟩
  | cons x rest ih =>
    obtain ⟨after,pins⟩ := ih (sound.after_step xx x)
    exact ⟨after,fun label key there => pins label key (sound.pins xx x label key there)⟩

/-- A key other than the pinned one means that the client was refused. -/
theorem Sound.refused (xx : snow.XX initiates turn) (sound : d.Sound initiates turn) {pin : PublicKey} {key : Bytes}
    (pinned : d.core.known.hosts[d.core.hostLabel]? = some pin) (learned : d.core.serverKey = some key)
    (differs : key ≠ pin.bytes) : d.Refused initiates turn := by
  unfold serverKey at learned
  rcases sound with ⟨silent,waiting | ended⟩ | ⟨_,_,known,noise,held,session,same,_⟩
  · obtain ⟨_,absent,turns⟩ := waiting
    rw [absent] at learned
    dsimp only at learned
    cases handshake : d.core.hs with
    | none =>
      rw [handshake] at learned
      cases learned
    | some h =>
      obtain ⟨n,listed,hs,there,_,three⟩ := turns h handshake
      have unfinished : ¬snow.isFinished hs = true := by
        rw [xx.finished,three]
        rintro rfl
        simp at listed
      simp only [handshake,there,Option.bind_some,if_neg unfinished,bind] at learned
      cases learned
  · exact ⟨silent,ended⟩
  · rw [pinned,Option.some_inj] at held
    obtain ⟨s,connected,rfl⟩ := Option.map_eq_some_iff.mp session
    rw [connected] at learned
    cases learned
    exact absurd (same.trans (by rw [held])) differs

theorem start_sound (xx : snow.XX initiates turn) {privateKey : Bytes} {sid : SessionId} {termVar : Option String}
    {known : KnownHosts} {hostLabel : String} {serverAddr : SocketAddr} {rows cols : UInt16} {prediction : DisplayMode}
    {c : ClientCore snow} {first : Bytes}
    (made : new snow privateKey sid termVar known hostLabel serverAddr rows cols prediction = .ok (c,first)) :
    Sound initiates turn ⟨c,[]⟩ := by
  unfold new at made
  split at made
  · cases made
  rename_i h _ begun
  cases made
  refine .inl ⟨rfl,.inl ⟨rfl,rfl,fun g same => ?_⟩⟩
  cases same
  exact ⟨1,.head _,Handshaker.client_at xx begun⟩

end Dialog
end Noissh.ClientCore

namespace Noissh

variable {snow : Snow} {em : Emulator} {login : Login} {initiates : snow.Handshake → Bool} {turn : snow.Handshake → Nat}

open ClientCore

/-- The server has sessions and starts logins only for authorized keys. The client is connected
only to the key it has pinned for the host, keeps its pins, and in a dialog with another key
never sends anything. -/
theorem sessions_trusted (xx : snow.XX initiates turn) :
    (∀ (authorized : AuthorizedKeys) (c : ServerCore snow em login), c.Reachable authorized →
      (∀ (sid : SessionId) (s : ServerSession snow em login), c.sessions[sid]? = some s →
        authorized.Lists s.clientKey ∧ s.session.noise.remoteStatic = s.clientKey) ∧
      ∀ call ∈ c.spawned, authorized.Lists call.2) ∧
    ∀ privateKey sid termVar known hostLabel serverAddr rows cols prediction (c : ClientCore snow) first,
      ClientCore.new snow privateKey sid termVar known hostLabel serverAddr rows cols prediction = .ok (c,first) →
      ∀ earlier later : List Call,
        let d := Dialog.run ⟨c,[]⟩ earlier
        let e := d.run later
        (d.core.established = true → ∃ pin : PublicKey, d.core.known.hosts[d.core.hostLabel]? = some pin ∧
          d.core.serverKey = some pin.bytes) ∧
        Pins d.core.known e.core.known ∧
        ∀ (pin : PublicKey) (key : Bytes), d.core.known.hosts[d.core.hostLabel]? = some pin →
          d.core.serverKey = some key → key ≠ pin.bytes → e.sent = [] ∧ e.core.established = false := by
  refine ⟨fun authorized c reachable => ⟨reachable.guarded.sessions,reachable.guarded.spawned⟩,?_⟩
  intro _ _ _ _ _ _ _ _ _ c first made earlier later d e
  have sound : d.Sound initiates turn := ((Dialog.start_sound xx made).after_run xx earlier).1
  refine ⟨fun established => ?_,(sound.after_run xx later).2,fun pin key pinned learned differs => ?_⟩
  · rcases sound with ⟨_,⟨fresh,_⟩ | ⟨fresh,_⟩⟩ | ⟨_,_,key,noise,pinned,session,same,_⟩
    · rw [fresh] at established
      cases established
    · rw [fresh] at established
      cases established
    · obtain ⟨s,connected,rfl⟩ := Option.map_eq_some_iff.mp session
      refine ⟨key,pinned,?_⟩
      rw [serverKey,connected,← same]
  · have refused := Machine.run_invariant_always (Dialog.Refused initiates turn) (fun _ x holds => holds.after_step xx x)
      later d (sound.refused xx pinned learned differs)
    exact ⟨refused.1,refused.2.1⟩

/-- The store of a client that has met the host before. -/
def metBefore : KnownHosts := { hosts := (∅ : Std.TreeMap String PublicKey).insert "host:51820" ⟨List.replicate 32 3,rfl⟩ }

/-- It dials the host, and the server that answers has another key. -/
def impostor : Dialog Clear.noise :=
  Dialog.run ⟨{ dialling with known := metBefore, wantShell := true },[]⟩ [.handlePacket secondMessage]

/-- A server that was greeted has a session for its client and started a login, and the client
that met an impostor stays silent when it is called on. -/
theorem sessions_trusted_greeted :
    ((ServerCore.greeted 100).sessions.contains ServerCore.sampleId = true ∧
      ∀ call ∈ (ServerCore.greeted 100).spawned, (⟨[(ServerCore.clientKey,"client")]⟩ : AuthorizedKeys).Lists call.2) ∧
    impostor.core.serverKey = some (List.replicate 32 2) ∧
      (impostor.run [.typeInput [97],.tick,.handlePacket secondMessage,.keepalive]).sent = [] := by
  have trusted := @sessions_trusted Clear.noise silentEmulator limitedLogin _ _ Clear.xx
  refine ⟨⟨by decide +kernel,(trusted.1 _ _ ?_).2⟩,by decide +kernel,?_⟩
  · exact .handlePacket [] _ _ (.handlePacket [] _ _ (.handlePacket [] _ _ (.new _ _ _ _ _ _)))
  · have met := trusted.2 (List.replicate 32 1) ClientCore.sampleId none metBefore "host:51820"
      (.v4 0 51820) 24 80 .adaptive _ _ rfl
      [.handlePacket secondMessage] [.typeInput [97],.tick,.handlePacket secondMessage,.keepalive]
    exact (met.2.2 ⟨List.replicate 32 3,rfl⟩ (List.replicate 32 2) (by decide +kernel) (by decide +kernel) (by decide)).1

end Noissh

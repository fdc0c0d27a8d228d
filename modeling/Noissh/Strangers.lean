import Noissh.ClientSafety
import Noissh.ServerSafety

/-! What a datagram of a stranger does to the server: it touches no session, destroys no
handshake, and gets back no more than it brought. -/
namespace Noissh

variable {snow : Snow} {em : Emulator} {login : Login} {initiates : snow.Handshake → Bool} {turn : snow.Handshake → Nat}

/-- Moreover a message that is not read changes nothing, and the second message is as long as
its keys, tags and payload. -/
structure Snow.Standard (snow : Snow) (initiates : snow.Handshake → Bool) (turn : snow.Handshake → Nat) : Prop extends
    snow.XX initiates turn where
  unchanged : ∀ {h body e h'}, snow.readMessage h body = (.error e,h') → h' = h
  second : ∀ {h payload message h'}, initiates h = false → turn h = 1 →
    snow.writeMessage h payload = (.ok message,h') → message.length = 96 + payload.length

theorem Clear.standard : Snow.Standard Clear.noise Clear.Handshake.initiator Clear.Handshake.turn where
  toXX := Clear.xx
  unchanged failed := Clear.readMessage_failed failed
  second := by
    intro h payload message h' responds one wrote
    change Clear.writeMessage h payload = _ at wrote
    unfold Clear.writeMessage at wrote
    rw [if_neg (by rw [responds]; simp),if_pos ⟨by rw [responds]; simp,one⟩] at wrote
    cases wrote
    simp only [Clear.pad,List.length_append,List.length_replicate,Clear.publicHalf_length]
    omega

namespace ServerCore

variable {c d : ServerCore snow em login}

/-- Every handshake that is pending waits for its third message. -/
def Waiting (initiates : snow.Handshake → Bool) (turn : snow.Handshake → Nat) (c : ServerCore snow em login) : Prop :=
  ∀ (sid : SessionId) (hs : Handshaker snow), c.pending[sid]? = some hs → hs.At initiates turn false 2

/-- The datagram is the last message of the handshake of an authorized key. -/
def Completes (c : ServerCore snow em login) (buf : Bytes) : Prop :=
  ∃ sid body hs key, parsePacket buf = .ok (.handshake sid body) ∧ c.sessions.contains sid = false ∧
    c.pending[sid]? = some hs ∧ (∃ outcome, (hs.read body).1 = .ok outcome ∧ outcome.finished = true) ∧
    (hs.read body).2.remoteStatic = some key ∧ authorizeClient c.authorized key = true

/-- Everything a handshake message can do: nothing, fail to continue a pending handshake, begin
one, or finish one. -/
theorem handleHandshake_cases (xx : snow.XX initiates turn) (waiting : c.Waiting initiates turn) (order : List SessionId)
    (src : SocketAddr) (sid : SessionId) (body : Bytes) :
    ((c.handleHandshake order src sid body).1.toOption.getD [] = [] ∧ (c.handleHandshake order src sid body).2 = c) ∨
    (∃ hs h' hs' text, c.pending[sid]? = some h' ∧ h'.hs = some hs ∧ snow.readMessage hs body = (.error text,hs') ∧
      c.handleHandshake order src sid body =
        (.ok [],{ c with pending := (c.pending.erase sid).insert sid { h' with hs := some hs' } })) ∨
    (∃ hs message last h', minHandshakeInit ≤ body.length + 9 ∧ c.pending[sid]? = none ∧ initiates hs = false ∧ turn hs = 1 ∧
      snow.writeMessage hs (ControlMsg.utf8 pkgVersion) = (.ok message,last) ∧ h'.At initiates turn false 2 ∧
      c.handleHandshake order src sid body =
        (.ok [(src,buildHandshakePacket sid message)],{ c with pending := c.pending.insert sid h' })) ∨
    ∃ hs h', c.sessions.contains sid = false ∧ c.pending[sid]? = some hs ∧
      hs.read body = (.ok { reply := none, finished := true },h') ∧
      c.handleHandshake order src sid body = admitClient { c with pending := c.pending.erase sid } order src sid h' [] := by
  unfold handleHandshake
  by_cases established : c.sessions.contains sid = true
  · rw [if_pos established]
    exact .inl ⟨rfl,rfl⟩
  rw [if_neg established]
  cases held : c.pending[sid]? with
  | some h =>
    dsimp only
    unfold readHandshake
    rcases Handshaker.read_third xx (waiting sid h held) body with ⟨e,hs,hs',there,failed,text,got⟩ | ⟨h',done⟩
    · rw [failed]
      exact .inr (.inl ⟨hs,h,hs',text,rfl,there,got,rfl⟩)
    · rw [done]
      exact .inr (.inr (.inr ⟨h,h',Bool.not_eq_true _ ▸ established,rfl,done,rfl⟩))
  | none =>
    dsimp only
    by_cases short : body.length + 9 < minHandshakeInit
    · rw [if_pos short]
      exact .inl ⟨rfl,rfl⟩
    rw [if_neg short]
    by_cases full : maxPendingHandshakes ≤ c.pending.size
    · rw [if_pos full]
      exact .inl ⟨rfl,rfl⟩
    rw [if_neg full]
    cases made : Handshaker.server snow c.privateKey sid (ControlMsg.utf8 pkgVersion) with
    | error e => exact .inl ⟨rfl,rfl⟩
    | ok h =>
      obtain ⟨stands,same,payload⟩ := Handshaker.server_at xx made
      dsimp only
      unfold readHandshake
      rcases Handshaker.read_first xx stands body with ⟨e,h',failed⟩ | ⟨hs,message,last,h',one,responds,wrote,done,two⟩
      · rw [failed]
        exact .inl ⟨rfl,rfl⟩
      · rw [done,same]
        rw [payload] at wrote
        exact .inr (.inr (.inl ⟨hs,message,last,h',Nat.le_of_not_lt short,rfl,responds,one,wrote,two,rfl⟩))

theorem admitClient_pending (c : ServerCore snow em login) (order : List SessionId) (src : SocketAddr) (sid : SessionId)
    (hs : Handshaker snow) (out : List (SocketAddr × Bytes)) :
    (c.admitClient order src sid hs out).2.pending = c.pending := by
  unfold admitClient
  split
  · rfl
  split
  · split <;> rfl
  · rfl

/-- One pending handshake put in the place of another, or in a free one. -/
theorem Waiting.insert (waiting : c.Waiting initiates turn) {sid : SessionId} {h : Handshaker snow}
    (stands : h.At initiates turn false 2) {pending : Std.TreeMap SessionId (Handshaker snow)}
    (others : ∀ k g, k ≠ sid → pending[k]? = some g → c.pending[k]? = some g)
    (replaced : d.pending = pending.insert sid h) : d.Waiting initiates turn := by
  intro k g there
  rw [replaced,Std.TreeMap.getElem?_insert] at there
  split at there
  · cases there
    exact stands
  · rename_i other
    refine waiting k g (others k g (fun same => other ?_) there)
    rw [same]
    exact Std.ReflCmp.compare_self

theorem handleHandshake_waiting (xx : snow.XX initiates turn) (waiting : c.Waiting initiates turn) (order : List SessionId)
    (src : SocketAddr) (sid : SessionId) (body : Bytes) :
    (c.handleHandshake order src sid body).2.Waiting initiates turn := by
  have erased : ∀ (k : SessionId) (g : Handshaker snow), (c.pending.erase sid)[k]? = some g → c.pending[k]? = some g := by
    intro k g there
    rw [Std.TreeMap.getElem?_erase] at there
    split at there
    · cases there
    · exact there
  rcases handleHandshake_cases xx waiting order src sid body with ⟨_,same⟩ | ⟨hs,h,hs',text,held,there,got,done⟩ |
    ⟨hs,message,last,h',_,_,_,_,_,stands,done⟩ | ⟨hs,h',_,_,_,done⟩
  · rw [same]
    exact waiting
  · rw [done]
    obtain ⟨g,same,side,two⟩ := waiting sid h held
    cases there.symm.trans same
    obtain ⟨side',still⟩ := xx.unread got
    exact waiting.insert (h := { h with hs := some hs' }) ⟨hs',rfl,side'.trans side,still.trans two⟩
      (fun k g _ => erased k g) rfl
  · rw [done]
    exact waiting.insert stands (fun k g _ there => there) rfl
  · rw [done]
    intro k g there
    rw [admitClient_pending] at there
    exact waiting k g (erased k g there)

theorem Reachable.waiting {authorized : AuthorizedKeys} (xx : snow.XX initiates turn) (reachable : c.Reachable authorized) :
    c.Waiting initiates turn := by
  refine reachable.invariant (fun _ _ _ _ _ _ => ?_) (fun _ order src sid body waiting => ?_) (fun _ _ serves waiting => ?_)
  · intro sid hs held
    change (∅ : Std.TreeMap SessionId (Handshaker snow))[sid]? = some hs at held
    rw [Std.TreeMap.getElem?_emptyc] at held
    cases held
  · exact handleHandshake_waiting xx waiting order src sid body
  · intro sid hs held
    rw [serves.pending] at held
    exact waiting sid hs held

/-- Putting back what a map holds changes nothing. -/
theorem getElem?_insert_held {β : Type} {m m' : Std.TreeMap SessionId β} {sid : SessionId} {value : β}
    (held : m[sid]? = some value) (others : ∀ k, k ≠ sid → m'[k]? = m[k]?) (k : SessionId) :
    (m'.insert sid value)[k]? = m[k]? := by
  rw [Std.TreeMap.getElem?_insert]
  split
  · rename_i same
    rw [← Std.LawfulEqCmp.eq_of_compare same,held]
  · rename_i other
    exact others k fun same => other (same ▸ Std.ReflCmp.compare_self)

/-- A transport packet that is not authentic is an error, and leaves every session as it is. -/
theorem handleTransport_junk {produced : snow.Transport → Nat → Bytes → Prop}
    (genuine : ∀ t nonce body plaintext, snow.decrypt t nonce body = .ok plaintext → produced t nonce body)
    (src : SocketAddr) (sid : SessionId) {buf : Bytes}
    (junk : ∀ (k : SessionId) (s : ServerSession snow em login), c.sessions[k]? = some s → ¬s.session.Authentic produced buf) :
    (c.handleTransport src sid buf).1.toOption.getD [] = [] ∧ (c.handleTransport src sid buf).2.pending = c.pending ∧
      ∀ k : SessionId, (c.handleTransport src sid buf).2.sessions[k]? = c.sessions[k]? := by
  unfold handleTransport
  cases held : c.sessions[sid]? with
  | none => exact ⟨rfl,rfl,fun _ => rfl⟩
  | some s =>
    obtain ⟨e,dropped⟩ := s.session.openPacket_junk produced genuine src (junk sid s held)
    dsimp only
    rw [dropped]
    exact ⟨rfl,rfl,getElem?_insert_held held fun _ _ => rfl⟩

theorem admitClient_stranger (c : ServerCore snow em login) (order : List SessionId) (src : SocketAddr) (sid : SessionId)
    (hs : Handshaker snow) (stranger : ∀ key, hs.remoteStatic = some key → authorizeClient c.authorized key = false) :
    (c.admitClient order src sid hs []).1.toOption.getD [] = [] ∧ (c.admitClient order src sid hs []).2 = c := by
  unfold admitClient
  split
  · exact ⟨rfl,rfl⟩
  · rename_i key learned
    rw [if_neg (by rw [stranger key learned]; decide)]
    exact ⟨rfl,rfl⟩

theorem version_length : (ControlMsg.utf8 pkgVersion).length = 5 := by decide +kernel

/-- A datagram that is neither an authentic fresh packet of a session nor the last message of
an authorized handshake changes no session, changes no pending handshake that does not read
it, and is answered to its source with no more bytes than it has. -/
theorem stranger_harmless (standard : snow.Standard initiates turn) (produced : snow.Transport → Nat → Bytes → Prop)
    (genuine : ∀ t nonce body plaintext, snow.decrypt t nonce body = .ok plaintext → produced t nonce body)
    {authorized : AuthorizedKeys} {c : ServerCore snow em login} (reachable : c.Reachable authorized)
    (order : List SessionId) (src : SocketAddr) (buf : Bytes)
    (junk : ∀ (k : SessionId) (s : ServerSession snow em login), c.sessions[k]? = some s → ¬s.session.Authentic produced buf)
    (incomplete : ¬c.Completes buf) :
    (∀ k : SessionId, (c.handlePacket order src buf).2.sessions[k]? = c.sessions[k]?) ∧
    (∀ (k : SessionId) (hs : Handshaker snow), c.pending[k]? = some hs →
      (∀ body, parsePacket buf = .ok (.handshake k body) → ∃ e, (hs.read body).1 = .error e) →
      (c.handlePacket order src buf).2.pending[k]? = some hs) ∧
    ((c.handlePacket order src buf).1.map (fun reply => reply.2.length)).sum ≤ buf.length ∧
    ∀ reply ∈ (c.handlePacket order src buf).1, reply.1 = src := by
  have quiet : (([] : List (SocketAddr × Bytes)).map (fun reply => reply.2.length)).sum ≤ buf.length ∧
      ∀ reply ∈ ([] : List (SocketAddr × Bytes)), reply.1 = src := ⟨Nat.zero_le _,fun _ => nofun⟩
  unfold handlePacket tryHandlePacket
  cases parsed : parsePacket buf with
  | error e => exact ⟨fun _ => rfl,fun _ _ held _ => held,quiet⟩
  | ok packet =>
    cases packet with
    | transport sid nonce body =>
      obtain ⟨silent,pending,sessions⟩ := handleTransport_junk genuine src sid junk
      dsimp only
      rw [silent]
      exact ⟨sessions,fun k hs held _ => by rw [pending]; exact held,quiet⟩
    | handshake sid body =>
      obtain ⟨framed,sized⟩ := parsePacket_handshake parsed
      have waiting := reachable.waiting standard.toXX
      dsimp only
      rcases handleHandshake_cases standard.toXX waiting order src sid body with ⟨silent,same⟩ |
        ⟨hs,h,hs',text,held,there,got,done⟩ | ⟨hs,message,last,h',long,free,responds,one,wrote,stands,done⟩ |
        ⟨hs,h',absent,held,read,done⟩
      · rw [silent,same]
        exact ⟨fun _ => rfl,fun _ _ held _ => held,quiet⟩
      · rw [done]
        have same : ({ h with hs := some hs' } : Handshaker snow) = h := by
          rw [standard.unchanged got,← there]
        refine ⟨fun _ => rfl,fun k g there _ => ?_,quiet⟩
        dsimp only
        rw [same,getElem?_insert_held held fun k other => TreeMaps.getElem?_erase_ne c.pending other]
        exact there
      · rw [done]
        refine ⟨fun _ => rfl,fun k g there _ => ?_,?_,fun reply member => ?_⟩
        · dsimp only
          rw [Std.TreeMap.getElem?_insert,if_neg fun same => ?_]
          · exact there
          · rw [Std.LawfulEqCmp.eq_of_compare same,there] at free
            cases free
        · have size := standard.second responds one wrote
          rw [version_length] at size
          rw [framed]
          simp only [Except.toOption,Option.getD_some,List.map_cons,List.map_nil,List.sum_cons,List.sum_nil,
            buildHandshakePacket,List.length_cons,List.length_append,sized]
          unfold minHandshakeInit at long
          omega
        · rw [List.mem_singleton.mp member]
      · have stranger : ∀ key, h'.remoteStatic = some key → authorizeClient c.authorized key = false := by
          intro key learned
          rw [← Bool.not_eq_true]
          intro listed
          exact incomplete ⟨sid,body,hs,key,parsed,absent,held,⟨_,congrArg Prod.fst read,rfl⟩,by rw [read]; exact learned,listed⟩
        obtain ⟨silent,same⟩ := admitClient_stranger { c with pending := c.pending.erase sid } order src sid h' stranger
        rw [done,silent,same]
        refine ⟨fun _ => rfl,fun k g there fails => ?_,quiet⟩
        dsimp only
        rw [TreeMaps.getElem?_erase_ne c.pending]
        · exact there
        · rintro rfl
          obtain ⟨e,failed⟩ := fails body rfl
          rw [held,Option.some_inj] at there
          rw [← there,read] at failed
          cases failed

def visitorId : SessionId := List.replicate 8 6

/-- A client has its shell, and the handshake of another is pending. -/
def hosting : ServerCore Clear.noise silentEmulator limitedLogin :=
  ((greeted 100).handlePacket [sampleId] (.v4 1 6) (buildHandshakePacket visitorId (Clear.pad (32 + minHandshakeInit)))).2

/-- A handshake packet for the pending session that is too short to be read. -/
def garbage : Bytes := buildHandshakePacket visitorId [1,2,3]

/-- The first message of a handshake that no client goes on with. -/
def knock : Bytes := buildHandshakePacket (List.replicate 8 7) (Clear.pad (32 + minHandshakeInit))

theorem stranger_harmless_hosting :
    hosting.sessions.contains sampleId = true ∧ hosting.pending.contains visitorId = true ∧
    (hosting.handlePacket [sampleId] (.v4 6 6) knock).1.length = 1 ∧
    ∀ buf ∈ [garbage,knock],
      (∀ k : SessionId, (hosting.handlePacket [sampleId] (.v4 6 6) buf).2.sessions[k]? = hosting.sessions[k]?) ∧
      (∀ hs, hosting.pending[visitorId]? = some hs →
        (hosting.handlePacket [sampleId] (.v4 6 6) buf).2.pending[visitorId]? = some hs) ∧
      ((hosting.handlePacket [sampleId] (.v4 6 6) buf).1.map (fun reply => reply.2.length)).sum ≤ buf.length ∧
      ∀ reply ∈ (hosting.handlePacket [sampleId] (.v4 6 6) buf).1, reply.1 = .v4 6 6 := by
  have reachable : hosting.Reachable ⟨[(clientKey,"client")]⟩ :=
    .handlePacket _ _ _ (.handlePacket _ _ _ (.handlePacket _ _ _ (.handlePacket _ _ _ (.new _ _ _ _ _ _))))
  refine ⟨by decide +kernel,by decide +kernel,by decide +kernel,fun buf member => ?_⟩
  have packet : ∃ k body, parsePacket buf = .ok (.handshake k body) ∧
      (hosting.pending[k]?).all (fun hs => (hs.read body).1.toOption.isNone) = true := by
    rcases List.mem_pair.mp member with rfl | rfl
    · exact ⟨visitorId,[1,2,3],by decide +kernel,by decide +kernel⟩
    · exact ⟨List.replicate 8 7,Clear.pad (32 + minHandshakeInit),by decide +kernel,by decide +kernel⟩
  obtain ⟨k,body,parsed,refused⟩ := packet
  have fails : ∀ hs, hosting.pending[k]? = some hs → ∃ e, (hs.read body).1 = .error e := by
    intro hs held
    rw [held,Option.all_some] at refused
    cases read : (hs.read body).1 with
    | error e => exact ⟨e,rfl⟩
    | ok outcome =>
      rw [read] at refused
      cases refused
  have harmless := stranger_harmless Clear.standard Clear.Produced Clear.decrypt_produced reachable [sampleId] (.v4 6 6) buf
    (fun k s _ authentic => ?_) (fun completes => ?_)
  · refine ⟨harmless.1,fun hs held => harmless.2.1 visitorId hs held fun body' same => ?_,harmless.2.2⟩
    rw [parsed] at same
    cases same
    exact fails hs held
  · obtain ⟨nonce,body,same,_⟩ := authentic
    rw [parsed] at same
    cases same
  · obtain ⟨sid,body,hs,key,same,_,held,⟨outcome,read,_⟩,_⟩ := completes
    rw [parsed] at same
    cases same
    obtain ⟨e,failed⟩ := fails hs held
    rw [failed] at read
    cases read

end ServerCore
end Noissh

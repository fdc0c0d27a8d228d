import Noissh.Link
import Noissh.SessionSpec
import Noissh.WireSpec

/-! Two sessions over one Noise session, and a network that may hand either of them any bytes
from any address. The nonces accepted and the last source are kept as the protocol means
them: a sealed packet of the peer, taken when its nonce is fresh. -/
namespace Noissh

/-- A packet a side has sealed. -/
structure Sealed where
  nonce : Nat
  frames : List Frame
  packet : Bytes
  deriving DecidableEq, Repr

/-- The ciphertext. -/
def Sealed.body (p : Sealed) : Bytes := p.packet.drop 17

structure Pair (snow : Snow) where
  session : Side → Session snow
  /-- Everything a side has sealed. -/
  log : Side → List Sealed
  /-- The nonces a side has accepted. -/
  accepted : Side → List Nat
  /-- Where the last fresh packet came from. -/
  source : Side → Option SocketAddr

namespace Pair

variable {snow : Snow}

inductive Action where
  | sealFrames (x : Side) (frames : List Frame)
  | deliver (x : Side) (src : SocketAddr) (packet : Bytes)
  deriving DecidableEq, Repr

/-- Two new sessions with one id. -/
def start (sessionId : SessionId) (noise : Side → NoiseSession snow) (peer : Side → Option SocketAddr) : Pair snow where
  session x := .new sessionId (noise x) (peer x)
  log _ := []
  accepted _ := []
  source := peer

/-- The entry of the peer's log that a packet is, when it is fresh. -/
def fresh (s : Pair snow) (x : Side) (packet : Bytes) : Option Sealed :=
  (s.log x.other).find? (fun p => p.packet = packet ∧ WindowFilter.Fresh (s.accepted x) p.nonce)

def step (s : Pair snow) : Action → Pair snow
  | .sealFrames x frames =>
    let (out,session) := (s.session x).sealFrames frames
    let entry := out.toOption.map (fun packet => { nonce := (s.session x).nonce, frames, packet : Sealed })
    { s with
      session := Function.update s.session x session
      log := Function.update s.log x (s.log x ++ entry.toList) }
  | .deliver x src packet =>
    let next := { s with session := Function.update s.session x ((s.session x).openPacket src packet).2 }
    match s.fresh x packet with
    | none => next
    | some p =>
      { next with
        accepted := Function.update s.accepted x (p.nonce :: s.accepted x)
        source := Function.update s.source x (some src) }

def run (s : Pair snow) (schedule : List Action) : Pair snow := Machine.run step schedule s

/-- Ideal authentication: whatever decrypts under a nonce was sealed under it by the peer. -/
def unforged (s : Pair snow) (x : Side) (packet : Bytes) : Bool :=
  match parsePacket packet with
  | .ok (.transport _ nonce body) =>
    match snow.decrypt (s.session x).noise.transport nonce body with
    | .ok _ => (s.log x.other).any (fun p => p.nonce = nonce ∧ p.body = body)
    | .error _ => true
  | _ => true

/-- Frames are values of their type, a side seals fewer than 2^64 packets, and nothing is
forged. -/
def ideal (s : Pair snow) : Action → Bool
  | .sealFrames x frames => decide (∀ frame ∈ frames, frame.Typed) && decide ((s.session x).sendNonce + 1 < 2 ^ 64)
  | .deliver x _ packet => s.unforged x packet

/-- Sessions and logs belong together. -/
structure Exact (sessionId : SessionId) (noise : Side → NoiseSession snow) (s : Pair snow) : Prop where
  id : ∀ x, (s.session x).sessionId = sessionId
  keyed : ∀ x, (s.session x).noise = noise x
  records : ∀ x, (s.session x).replay.Records (s.accepted x)
  peer : ∀ x, (s.session x).peerAddr = s.source x
  sealed : ∀ x, ∀ p ∈ s.log x, p.nonce < 2 ^ 64 ∧ (∀ frame ∈ p.frames, frame.Typed) ∧
    ∃ body, snow.encrypt (noise x).transport p.nonce (encodeFrames p.frames) = .ok body ∧
      p.packet = transportPacket sessionId p.nonce body

section

variable {sessionId : SessionId} {noise : Side → NoiseSession snow} {s : Pair snow}

theorem start_exact (peer : Side → Option SocketAddr) : (start sessionId noise peer).Exact sessionId noise where
  id _ := rfl
  keyed _ := rfl
  records _ := WindowFilter.new_records
  peer _ := rfl
  sealed _ _ member := absurd member List.not_mem_nil

theorem transportPacket_body {nonce : Nat} (body : Bytes) (sized : sessionId.length = 8) :
    (transportPacket sessionId nonce body).drop 17 = body := by
  change (sessionId ++ toBeBytes nonce ++ body).drop 16 = body
  have both : (sessionId ++ toBeBytes nonce).length = 16 := by rw [List.length_append,sized,toBeBytes_length]
  rw [← both,List.drop_left]

theorem Exact.after_seal (exact : s.Exact sessionId noise) {x : Side} {frames : List Frame}
    (typed : ∀ frame ∈ frames, frame.Typed) :
    (s.step (.sealFrames x frames)).Exact sessionId noise := by
  have session : ∀ y, ((s.step (.sealFrames x frames)).session y).sessionId = (s.session y).sessionId ∧
      ((s.step (.sealFrames x frames)).session y).noise = (s.session y).noise ∧
      ((s.step (.sealFrames x frames)).session y).replay = (s.session y).replay ∧
      ((s.step (.sealFrames x frames)).session y).peerAddr = (s.session y).peerAddr := by
    intro y
    simp only [step]
    by_cases here : y = x
    · subst here
      rw [Function.update_self,Session.sealFrames_next]
      exact ⟨rfl,rfl,rfl,rfl⟩
    · rw [Function.update_of_ne here]
      exact ⟨rfl,rfl,rfl,rfl⟩
  refine {
    id := fun y => (session y).1.trans (exact.id y)
    keyed := fun y => (session y).2.1.trans (exact.keyed y)
    records := fun y => by
      rw [(session y).2.2.1]
      exact exact.records y
    peer := fun y => (session y).2.2.2.trans (exact.peer y)
    sealed := fun y p member => ?_ }
  simp only [step] at member
  by_cases here : y = x
  · subst here
    rw [Function.update_self] at member
    rcases List.mem_append.mp member with old | new
    · exact exact.sealed y p old
    · cases out : ((s.session y).sealFrames frames).1 with
      | error e =>
        rw [out] at new
        exact absurd new List.not_mem_nil
      | ok packet =>
        rw [out] at new
        obtain rfl := List.mem_singleton.mp new
        obtain ⟨body,encrypted,shape⟩ := ((s.session y).sealFrames_ok_iff frames packet).mp out
        rw [exact.keyed y] at encrypted
        rw [exact.id y] at shape
        exact ⟨Nat.mod_lt _ (by decide),typed,body,encrypted,shape⟩
  · rw [Function.update_of_ne here] at member
    exact exact.sealed y p member

variable (sized : sessionId.length = 8)
  (correct : ∀ x nonce plaintext body, snow.encrypt (noise x).transport nonce plaintext = .ok body →
    snow.decrypt (noise x.other).transport nonce body = .ok plaintext)

include sized

/-- A sealed packet parses to what was encrypted. -/
theorem Exact.carries (exact : s.Exact sessionId noise) {x : Side} {p : Sealed} (member : p ∈ s.log x) :
    parsePacket p.packet = .ok (.transport sessionId p.nonce p.body) ∧
      snow.encrypt (noise x).transport p.nonce (encodeFrames p.frames) = .ok p.body := by
  obtain ⟨small,_,body,encrypted,shape⟩ := exact.sealed x p member
  have same : p.body = body := by rw [Sealed.body,shape,transportPacket_body body sized]
  rw [same,shape]
  exact ⟨parsePacket_transportPacket body sized small,encrypted⟩

include correct

/-- Equal packets carry equal frames. -/
theorem Exact.frames_eq (exact : s.Exact sessionId noise) {x : Side} {p q : Sealed} (member : p ∈ s.log x)
    (there : q ∈ s.log x) (same : p.packet = q.packet) : p.frames = q.frames := by
  obtain ⟨parsed,encrypted⟩ := exact.carries sized member
  obtain ⟨parsed',encrypted'⟩ := exact.carries sized there
  rw [same,parsed'] at parsed
  injection parsed with packets
  injection packets with _ sameNonce sameBody
  have first := correct x _ _ _ encrypted
  rw [← sameNonce,← sameBody,correct x _ _ _ encrypted'] at first
  injection first with plain
  have decoded := decodeFrames_encode (exact.sealed x q there).2.1
  rw [plain,decodeFrames_encode (exact.sealed x p member).2.1] at decoded
  injection decoded

/-- `open` takes exactly the fresh packets of the peer, and returns what they carry. -/
theorem Exact.opens (exact : s.Exact sessionId noise) {x : Side} (src : SocketAddr) {packet : Bytes}
    (unforged : s.unforged x packet = true) :
    (∃ e, s.fresh x packet = none ∧ (s.session x).openPacket src packet = (.error e,s.session x)) ∨
    ∃ p, s.fresh x packet = some p ∧ (s.session x).openPacket src packet = (.ok p.frames,
      { s.session x with replay := ((s.session x).replay.checkAndSet p.nonce).2, peerAddr := some src }) ∧
      ((s.session x).replay.checkAndSet p.nonce).2.Records (p.nonce :: s.accepted x) := by
  have id := exact.id x
  have records := exact.records x
  rcases (s.session x).openPacket_cases src packet with ⟨e,refused,stale⟩ | ⟨nonce,body,plaintext,parsed,opened,fresh,taken⟩
  · refine .inl ⟨e,List.find?_eq_none.mpr (fun p member => ?_),refused⟩
    simp only [decide_eq_true_eq]
    rintro ⟨rfl,isFresh⟩
    -- A fresh entry of the log would have been taken.
    obtain ⟨parsed,encrypted⟩ := exact.carries sized member
    have decrypts := correct x.other _ _ _ encrypted
    rw [Side.other_other] at decrypts
    rw [id,exact.keyed x] at stale
    have old := stale _ _ _ parsed decrypts
    rw [((records.checkAndSet p.nonce).1).mpr isFresh] at old
    cases old
  · rw [id] at parsed
    have isFresh := (records.checkAndSet nonce).1.mp fresh
    unfold Pair.unforged at unforged
    rw [parsed] at unforged
    dsimp only at unforged
    rw [opened] at unforged
    simp only [List.any_eq_true,decide_eq_true_eq] at unforged
    obtain ⟨q,member,rfl,rfl⟩ := unforged
    have whole : q.packet = packet := by
      obtain ⟨_,_,ct,_,shape⟩ := exact.sealed _ q member
      have same : q.body = ct := by rw [Sealed.body,shape,transportPacket_body ct sized]
      rw [(parsePacket_transport parsed).1,same,shape]
    have found : ∃ p, s.fresh x packet = some p := by
      cases found : s.fresh x packet with
      | some p => exact ⟨p,rfl⟩
      | none =>
        have none := List.find?_eq_none.mp found q member
        simp only [decide_eq_true_eq] at none
        exact absurd ⟨whole,isFresh⟩ none
    obtain ⟨p,found⟩ := found
    have matched := List.find?_some found
    simp only [decide_eq_true_eq] at matched
    have here := List.mem_of_find?_eq_some found
    obtain ⟨parsed',encrypted⟩ := exact.carries sized here
    rw [matched.1,parsed] at parsed'
    injection parsed' with same
    injection same with _ sameNonce sameBody
    have decrypts := correct x.other _ _ _ encrypted
    rw [Side.other_other,← exact.keyed x,← sameNonce,← sameBody,opened] at decrypts
    cases decrypts
    rw [sameNonce] at fresh taken
    refine .inr ⟨p,found,?_,(records.checkAndSet p.nonce).2 fresh⟩
    rw [taken,decodeFrames_encode (exact.sealed _ p here).2.1]
    rfl

theorem Exact.after_deliver (exact : s.Exact sessionId noise) {x : Side} (src : SocketAddr) {packet : Bytes}
    (unforged : s.unforged x packet = true) : (s.step (.deliver x src packet)).Exact sessionId noise := by
  simp only [step]
  rcases exact.opens sized correct src unforged with ⟨e,none,refused⟩ | ⟨p,found,taken,records⟩
  · rw [none,refused,Function.update_eq_self]
    exact exact
  · rw [found,taken]
    refine {
      id := (Function.forall_update_iff s.session (fun _ session => session.sessionId = sessionId)).mpr
        ⟨exact.id x,fun y _ => exact.id y⟩
      keyed := (Function.forall_update_iff s.session (fun y session => session.noise = noise y)).mpr
        ⟨exact.keyed x,fun y _ => exact.keyed y⟩
      records := fun y => ?_
      peer := fun y => ?_
      sealed := exact.sealed }
    · by_cases same : y = x
      · subst same
        simp only [Function.update_self]
        exact records
      · simp only [Function.update_of_ne same]
        exact exact.records y
    · by_cases same : y = x
      · subst same
        simp only [Function.update_self]
      · simp only [Function.update_of_ne same]
        exact exact.peer y

end

/-- Over any ideal run, `open` succeeds on exactly the peer's sealed packets that are fresh,
returns what was sealed, and otherwise changes nothing; the peer address is where the last
fresh packet came from. -/
theorem delivery_exact (sessionId : SessionId) (noise : Side → NoiseSession snow) (peer : Side → Option SocketAddr)
    (sized : sessionId.length = 8)
    (correct : ∀ x nonce plaintext body, snow.encrypt (noise x).transport nonce plaintext = .ok body →
      snow.decrypt (noise x.other).transport nonce body = .ok plaintext)
    (schedule : List Action)
    (guarded : Machine.Along step (fun s a => s.ideal a = true) schedule (start sessionId noise peer)) :
    let s := (start sessionId noise peer).run schedule
    ∀ x, (s.session x).peerAddr = s.source x ∧
      ∀ src packet, s.unforged x packet = true →
        ((∃ frames, ((s.session x).openPacket src packet).1 = .ok frames) ↔
          ∃ p ∈ s.log x.other, p.packet = packet ∧ p.nonce ∉ s.accepted x ∧
            (s.accepted x = [] ∨ ∀ m ∈ s.accepted x, m < p.nonce + 64)) ∧
        (∀ p ∈ s.log x.other, p.packet = packet → ∀ frames,
          ((s.session x).openPacket src packet).1 = .ok frames → frames = p.frames) ∧
        ∀ e, ((s.session x).openPacket src packet).1 = .error e →
          ((s.session x).openPacket src packet).2 = s.session x ∧
            (s.step (.deliver x src packet)).accepted = s.accepted := by
  intro s x
  have exact : s.Exact sessionId noise := by
    refine Machine.run_invariant (Exact sessionId noise) (fun t a exact allowed => ?_) schedule _ (start_exact peer) guarded
    cases a with
    | sealFrames y frames =>
      simp only [ideal,Bool.and_eq_true,decide_eq_true_eq] at allowed
      exact exact.after_seal allowed.1
    | deliver y src packet => exact exact.after_deliver sized correct src allowed
  refine ⟨exact.peer x,fun src packet unforged => ?_⟩
  rcases exact.opens sized correct src unforged with ⟨e,none,refused⟩ | ⟨p,found,taken,_⟩
  · rw [refused]
    refine ⟨⟨nofun,?_⟩,fun _ _ _ _ => nofun,fun _ _ => ⟨rfl,?_⟩⟩
    · rintro ⟨p,member,same,new,recent⟩
      have stale := List.find?_eq_none.mp none p member
      rw [decide_eq_true_eq] at stale
      refine absurd ⟨same,new,?_⟩ stale
      rcases recent with empty | recent
      · rw [empty]
        exact fun m here => absurd here List.not_mem_nil
      · exact recent
    · simp only [step,none]
  · rw [taken]
    have member := List.mem_of_find?_eq_some found
    have matched := List.find?_some found
    rw [decide_eq_true_eq] at matched
    obtain ⟨same,new,recent⟩ := matched
    refine ⟨⟨fun _ => ⟨p,member,same,new,.inr recent⟩,fun _ => ⟨_,rfl⟩⟩,fun q there sameBytes frames opened => ?_,nofun⟩
    cases opened
    exact exact.frames_eq sized correct member there (same.trans sameBytes.symm)

def clearSessions : Side → NoiseSession Clear.noise := fun _ => ⟨(),[]⟩

def exampleId : SessionId := List.replicate 8 5

/-- What the client seals first and second. -/
def firstPacket : Bytes := transportPacket exampleId 0 (encodeFrames [.ack 1] ++ Clear.tag 0)
def secondPacket : Bytes := transportPacket exampleId 1 (encodeFrames [.ping 2] ++ Clear.tag 1)

/-- The second packet overtakes the first, which then comes twice; the server moves with the
client's address, and not with the copy or with forged bytes. -/
def overtaking : List Action := [
  .sealFrames .client [.ack 1],
  .sealFrames .client [.ping 2],
  .deliver .server (.v4 1 5) secondPacket,
  .deliver .server (.v4 2 5) firstPacket,
  .deliver .server (.v4 3 5) firstPacket,
  .deliver .server (.v4 4 5) (transportPacket exampleId 2 [0])]

theorem delivery_exact_overtaking :
    let s := (start exampleId clearSessions (fun _ => none)).run overtaking
    (s.session .server).peerAddr = some (.v4 2 5) ∧
      ¬∃ frames, ((s.session .server).openPacket (.v4 3 5) firstPacket).1 = .ok frames := by
  intro s
  have holds := delivery_exact exampleId clearSessions (fun _ => none) rfl
    (fun _ _ _ _ sent => Clear.decrypt_encrypt sent) overtaking (by decide +kernel) .server
  refine ⟨holds.1.trans (by decide +kernel),fun opened => ?_⟩
  exact absurd ((holds.2 (.v4 3 5) firstPacket (by decide +kernel)).1.mp opened) (by decide +kernel)

end Pair
end Noissh

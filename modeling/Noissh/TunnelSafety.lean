import Noissh.Rounds
import Noissh.Tunnel

/-! The tunnel is a link. A datagram that opens is one the other end handed out, under a nonce
that was not accepted before, so its frames are still in the link's flight; they are delivered
together, and no datagram delivers them again. -/
namespace Noissh

variable {snow : Snow}

/-- Frames of the streams: the others are none of the multiplexer's business. -/
def streamFrames (frames : List Frame) : List Frame := frames.filter (·.streamId.isSome)

theorem streamFrames_append (first second : List Frame) :
    streamFrames (first ++ second) = streamFrames first ++ streamFrames second := List.filter_append ..

namespace StreamMux

theorem onFrame_of_none (m : StreamMux) {frame : Frame} (other : frame.streamId = none) : m.onFrame frame = m := by
  cases frame <;> first | rfl | cases other

theorem foldl_streamFrames (frames : List Frame) (m : StreamMux) :
    (streamFrames frames).foldl onFrame m = frames.foldl onFrame m := by
  induction frames generalizing m with
  | nil => rfl
  | cons frame rest ih =>
    unfold streamFrames at ih ⊢
    cases named : frame.streamId with
    | none => rw [List.filter_cons_of_neg (by simp [named]),ih,List.foldl_cons,m.onFrame_of_none named]
    | some id => rw [List.filter_cons_of_pos (by simp [named]),List.foldl_cons,ih,List.foldl_cons]

/-- A poll emits frames of streams only. -/
theorem streamFrames_pollTransmit (m : StreamMux) : streamFrames m.pollTransmit.2 = m.pollTransmit.2 := by
  apply List.filter_eq_self.mpr
  intro frame member
  obtain ⟨p,_,emitted⟩ := List.mem_flatMap.mp member
  unfold pollStream at emitted
  split at emitted
  · rw [List.mem_singleton.mp emitted]
    rfl
  · rw [StreamState.transmit_streamId p.2 (m.now + 1) emitted]
    rfl

end StreamMux

namespace Link

/-- What a link shows to the applications at its ends. -/
structure Agrees (l l' : Link) : Prop where
  wrote : l'.wrote = l.wrote
  got : l'.got = l.got
  closedAt : l'.closedAt = l.closedAt

/-- Delivering the frame at one place again and again hands over a run of frames. -/
theorem run_deliver_group (x : Side) (before group after : List Frame) (l : Link)
    (flight : l.flight x = before ++ (group ++ after)) :
    let l' := Machine.run step (List.replicate group.length (.deliver x before.length)) l
    l'.mux = Function.update l.mux x.other (group.foldl StreamMux.onFrame (l.mux x.other)) ∧
      l'.flight = Function.update l.flight x (before ++ after) ∧ l.Agrees l' := by
  induction group generalizing l with
  | nil =>
    refine ⟨?_,?_,rfl,rfl,rfl⟩
    · simp
    · rw [List.nil_append] at flight
      rw [← flight,Function.update_eq_self]
      rfl
  | cons frame rest ih =>
    have here : (l.flight x)[before.length]? = some frame := by rw [flight]; simp
    have left : (l.step (.deliver x before.length)).flight = Function.update l.flight x (before ++ (rest ++ after)) := by
      funext y
      rw [step_deliver_flight,Function.update_apply,flight,List.eraseIdx_append_of_length_le (Nat.le_refl _)]
      simp
    have mux : (l.step (.deliver x before.length)).mux =
        Function.update l.mux x.other ((l.mux x.other).onFrame frame) := by
      simp only [step,act,here,receive,note]
      rfl
    have same : l.Agrees (l.step (.deliver x before.length)) := by
      simp only [step,act,here,receive,note]
      exact ⟨rfl,rfl,rfl⟩
    obtain ⟨muxes,flights,agrees⟩ := ih (l.step (.deliver x before.length)) (by rw [left,Function.update_self])
    rw [List.length_cons,List.replicate_succ,Machine.run_cons]
    refine ⟨?_,?_,agrees.wrote.trans same.wrote,agrees.got.trans same.got,agrees.closedAt.trans same.closedAt⟩
    · rw [muxes,mux,Function.update_idem,Function.update_self,List.foldl_cons]
    · rw [flights,left,Function.update_idem]

end Link

namespace Tunnel

/-- A group of frames under the nonce it was sealed with. -/
abbrev Envelope := Nat × List Frame

/-- The datagram carries this envelope from side `x` to the other. -/
def Carries (sessionId : SessionId) (keys : Side → NoiseSession snow) (x : Side) (buf : Bytes) (e : Envelope) : Prop :=
  ∃ body, parsePacket buf = .ok (.transport sessionId e.1 body) ∧
    snow.decrypt (keys x.other).transport e.1 body = .ok (encodeFrames e.2)

/-- The frames of a pool of envelopes. -/
def poured (pool : List Envelope) : List Frame := pool.flatMap Prod.snd

@[simp] theorem poured_append (first second : List Envelope) : poured (first ++ second) = poured first ++ poured second :=
  List.flatMap_append

@[simp] theorem poured_cons (e : Envelope) (pool : List Envelope) : poured (e :: pool) = e.2 ++ poured pool :=
  List.flatMap_cons

/-- The tunnel shows what the link shows. The link's flight is what the envelopes in the pool
hold of the streams; a datagram's envelope is in the pool until its nonce is accepted. -/
structure Matches (sessionId : SessionId) (keys : Side → NoiseSession snow) (t : Tunnel snow) (l : Link)
    (pool : Side → List Envelope) (accepted : Side → List Nat) : Prop where
  mux : ∀ x, l.mux x = (t x).mux
  wrote : ∀ x, l.wrote x = (t x).wrote
  got : ∀ x, l.got x = (t x).got
  closedAt : ∀ x, l.closedAt x = (t x).closedAt
  named : ∀ x, (t x).session.sessionId = sessionId
  keyed : ∀ x, (t x).session.noise = keys x
  records : ∀ x, (t x).session.replay.Records (accepted x)
  flight : ∀ x, l.flight x = streamFrames (poured (pool x))
  account : ∀ x, (t x).emitted.Perm ((t x.other).opened ++ poured (pool x))
  sent : ∀ x, ∀ buf ∈ (t x).sent, ∃ e, Carries sessionId keys x buf e ∧ (∀ frame ∈ e.2, frame.Typed) ∧
    (e.1 ∈ accepted x.other ∨ e ∈ pool x)

def Related (sessionId : SessionId) (keys : Side → NoiseSession snow) (t : Tunnel snow) (l : Link) : Prop :=
  ∃ pool accepted, t.Matches sessionId keys l pool accepted

section

variable {sessionId : SessionId} {keys : Side → NoiseSession snow} {t : Tunnel snow} {l : Link}
  {pool : Side → List Envelope} {accepted : Side → List Nat}

theorem start_related (sessionId : SessionId) (keys : Side → NoiseSession snow) :
    (start sessionId keys).Related sessionId keys Link.start := by
  refine ⟨fun _ => [],fun _ => [],?_⟩
  constructor
  case records => exact fun _ => WindowFilter.new_records
  case sent => exact fun _ _ member => absurd member List.not_mem_nil
  case account => exact fun _ => .nil
  all_goals intros; rfl

/-- One end of the tunnel and its side of the link, for what is true of every side. -/
theorem forall_update {P : Side → Peer snow → Prop} {x : Side} {e : Peer snow} (here : P x e)
    (there : ∀ y, y ≠ x → P y (t y)) (y : Side) : P y (Function.update t x e y) := by
  rw [Function.update_apply]
  split
  · rename_i same
    exact same ▸ here
  · rename_i other
    exact there y other

/-- What an application does at one side happens to its multiplexer and to its records alone. -/
theorem Matches.app (matched : t.Matches sessionId keys l pool accepted) {x : Side} {e : Peer snow} {l' : Link}
    (same : ∀ y, y ≠ x → l'.mux y = l.mux y ∧ l'.wrote y = l.wrote y ∧ l'.got y = l.got y ∧ l'.closedAt y = l.closedAt y)
    (mux : l'.mux x = e.mux) (wrote : l'.wrote x = e.wrote) (got : l'.got x = e.got) (closedAt : l'.closedAt x = e.closedAt)
    (session : { e.session with peerAddr := (t x).session.peerAddr } = (t x).session) (sent : e.sent = (t x).sent)
    (emitted : e.emitted = (t x).emitted) (opened : e.opened = (t x).opened) (flight : l'.flight = l.flight) :
    Matches sessionId keys (Function.update t x e) l' pool accepted := by
  have opens : ∀ y, (Function.update t x e y).opened = (t y).opened :=
    forall_update (P := fun y e => e.opened = (t y).opened) opened (fun _ _ => rfl)
  have name := congrArg Session.sessionId session
  have key := congrArg Session.noise session
  have replay := congrArg Session.replay session
  refine ⟨?_,?_,?_,?_,?_,?_,?_,?_,?_,?_⟩
  · exact forall_update (P := fun y e => l'.mux y = e.mux) mux (fun y other => (same y other).1.trans (matched.mux y))
  · exact forall_update (P := fun y e => l'.wrote y = e.wrote) wrote (fun y other => (same y other).2.1.trans (matched.wrote y))
  · exact forall_update (P := fun y e => l'.got y = e.got) got (fun y other => (same y other).2.2.1.trans (matched.got y))
  · exact forall_update (P := fun y e => l'.closedAt y = e.closedAt) closedAt
      (fun y other => (same y other).2.2.2.trans (matched.closedAt y))
  · exact forall_update (P := fun y e => e.session.sessionId = sessionId) (name.trans (matched.named x))
      (fun y _ => matched.named y)
  · exact forall_update (P := fun y e => e.session.noise = keys y) (key.trans (matched.keyed x)) (fun y _ => matched.keyed y)
  · refine forall_update (P := fun y e => e.session.replay.Records (accepted y)) ?_ (fun y _ => matched.records y)
    rw [show e.session.replay = (t x).session.replay from replay]
    exact matched.records x
  · rw [flight]
    exact matched.flight
  · intro y
    rw [opens]
    exact forall_update (P := fun y e => e.emitted.Perm ((t y.other).opened ++ poured (pool y)))
      (emitted ▸ matched.account x) (fun y _ => matched.account y) y
  · intro y buf member
    refine matched.sent y buf ?_
    have kept : ∀ y, (Function.update t x e y).sent = (t y).sent :=
      forall_update (P := fun y e => e.sent = (t y).sent) sent (fun _ _ => rfl)
    exact kept y ▸ member

/-- The datagrams of a batch carry its groups. -/
theorem packed_carries (correct : ∀ x nonce plaintext body, snow.encrypt (keys x).transport nonce plaintext = .ok body →
      snow.decrypt (keys x.other).transport nonce body = .ok plaintext)
    (sized : sessionId.length = 8) {x : Side} {s : Session snow} (named : s.sessionId = sessionId) (noise : s.noise = keys x)
    {nonce stop : Nat} {packets : List Bytes} {groups : List (List Frame)}
    (packed : s.Packed maxDatagramPlaintext nonce packets groups stop) (word : stop ≤ 2 ^ 64)
    (typed : ∀ frame ∈ groups.flatten, frame.Typed) :
    nonce ≤ stop ∧ ∃ envelopes : List Envelope, poured envelopes = groups.flatten ∧
      ∀ buf ∈ packets, ∃ e ∈ envelopes, Carries sessionId keys x buf e ∧ ∀ frame ∈ e.2, frame.Typed := by
  induction packed with
  | nil nonce => exact ⟨Nat.le_refl _,[],rfl,fun _ member => absurd member List.not_mem_nil⟩
  | @cons nonce stop packet packets group groups seals within packed ih =>
    rw [List.flatten_cons] at typed
    obtain ⟨rest,envelopes,flat,each⟩ := ih word (fun frame member => typed frame (List.mem_append_right _ member))
    obtain ⟨body,encrypted,rfl⟩ := seals
    refine ⟨by omega,(nonce,group) :: envelopes,by rw [poured_cons,flat,List.flatten_cons],?_⟩
    intro buf member
    rcases List.mem_cons.mp member with rfl | later
    · rw [Nat.mod_eq_of_lt (show nonce < 2 ^ 64 by omega)] at encrypted ⊢
      refine ⟨(nonce,group),.head _,⟨body,?_,?_⟩,fun frame here => typed frame (List.mem_append_left _ here)⟩
      · rw [named]
        exact parsePacket_transportPacket body sized (by omega)
      · apply correct x
        rw [← noise]
        exact encrypted
    · obtain ⟨e,pooled,carries⟩ := each buf later
      exact ⟨e,.tail _ pooled,carries⟩

/-- Frames given to a side's session, in datagrams or not, go to the pool. -/
theorem Matches.emit (matched : t.Matches sessionId keys l pool accepted) {x : Side} {e : Peer snow}
    {frames streams : List Frame} {packets : List Bytes} (envelopes : List Envelope) (mux : e.mux = (t x).mux)
    (wrote : e.wrote = (t x).wrote) (got : e.got = (t x).got) (closedAt : e.closedAt = (t x).closedAt)
    (session : { e.session with sendNonce := (t x).session.sendNonce } = (t x).session)
    (sent : e.sent = (t x).sent ++ packets) (emitted : e.emitted = (t x).emitted ++ frames) (opened : e.opened = (t x).opened)
    (holds : poured envelopes = frames) (only : streamFrames frames = streams)
    (each : ∀ buf ∈ packets, ∃ e ∈ envelopes, Carries sessionId keys x buf e ∧ ∀ frame ∈ e.2, frame.Typed) :
    Matches sessionId keys (Function.update t x e) (l.setFlight x (l.flight x ++ streams))
      (Function.update pool x (pool x ++ envelopes)) accepted := by
  have opens : ∀ y, (Function.update t x e y).opened = (t y).opened :=
    forall_update (P := fun y e => e.opened = (t y).opened) opened (fun _ _ => rfl)
  have pooled : ∀ y e, e ∈ pool y → e ∈ Function.update pool x (pool x ++ envelopes) y := by
    intro y e member
    rw [Function.update_apply]
    split
    · rename_i here
      exact List.mem_append_left _ (here ▸ member)
    · exact member
  have name := congrArg Session.sessionId session
  have key := congrArg Session.noise session
  have replay := congrArg Session.replay session
  refine ⟨?_,?_,?_,?_,?_,?_,?_,?_,?_,?_⟩
  · exact forall_update (P := fun y e => l.mux y = e.mux) ((matched.mux x).trans mux.symm) (fun y _ => matched.mux y)
  · exact forall_update (P := fun y e => l.wrote y = e.wrote) ((matched.wrote x).trans wrote.symm) (fun y _ => matched.wrote y)
  · exact forall_update (P := fun y e => l.got y = e.got) ((matched.got x).trans got.symm) (fun y _ => matched.got y)
  · exact forall_update (P := fun y e => l.closedAt y = e.closedAt) ((matched.closedAt x).trans closedAt.symm)
      (fun y _ => matched.closedAt y)
  · exact forall_update (P := fun y e => e.session.sessionId = sessionId) (name.trans (matched.named x))
      (fun y _ => matched.named y)
  · exact forall_update (P := fun y e => e.session.noise = keys y) (key.trans (matched.keyed x)) (fun y _ => matched.keyed y)
  · refine forall_update (P := fun y e => e.session.replay.Records (accepted y)) ?_ (fun y _ => matched.records y)
    rw [show e.session.replay = (t x).session.replay from replay]
    exact matched.records x
  · intro y
    simp only [Link.setFlight,Function.update_apply]
    split
    · rw [poured_append,streamFrames_append,holds,only,matched.flight x]
    · exact matched.flight y
  · intro y
    rw [opens]
    refine forall_update
      (P := fun y e => e.emitted.Perm ((t y.other).opened ++ poured (Function.update pool x (pool x ++ envelopes) y)))
      ?_ (fun y other => ?_) y
    · rw [Function.update_self,poured_append,holds,emitted,← List.append_assoc]
      exact (matched.account x).append_right frames
    · rw [Function.update_of_ne other]
      exact matched.account y
  · intro y buf member
    have earlier : buf ∈ (t y).sent → ∃ e, Carries sessionId keys y buf e ∧ (∀ frame ∈ e.2, frame.Typed) ∧
        (e.1 ∈ accepted y.other ∨ e ∈ Function.update pool x (pool x ++ envelopes) y) := by
      intro member
      obtain ⟨e,carries,typed,place⟩ := matched.sent y buf member
      exact ⟨e,carries,typed,place.imp id (pooled y e)⟩
    rw [Function.update_apply] at member
    split at member
    · rename_i here
      subst here
      rw [sent] at member
      rcases List.mem_append.mp member with old | new
      · exact earlier old
      · obtain ⟨e,there,carries,typed⟩ := each buf new
        exact ⟨e,carries,typed,.inr (by rw [Function.update_self]; exact List.mem_append_right _ there)⟩
    · exact earlier member

/-- Sealing a batch puts its groups into the pool; a batch that fails leaves its frames there,
in no datagram. -/
theorem Matches.seals (correct : ∀ x nonce plaintext body, snow.encrypt (keys x).transport nonce plaintext = .ok body →
      snow.decrypt (keys x.other).transport nonce body = .ok plaintext)
    (sized : sessionId.length = 8) (matched : t.Matches sessionId keys l pool accepted) {x : Side}
    (due streams : List Frame) (sealable : (t x).Sealable due streams) (polled : streamFrames streams = streams) :
    ∃ pool', Matches sessionId keys (Function.update t x ((t x).seals (due ++ streams)))
      (l.setFlight x (l.flight x ++ streams)) pool' accepted := by
  have only : streamFrames (due ++ streams) = streams := by
    have none : streamFrames due = [] :=
      List.filter_eq_nil_iff.mpr (fun frame member => by simp [sealable.unnamed frame member])
    rw [streamFrames_append,polled,none,List.nil_append]
  have next := (t x).session.sealMany_next (due ++ streams) maxDatagramPlaintext
  have envelopes : ∃ envelopes : List Envelope, poured envelopes = due ++ streams ∧
      ∀ buf ∈ ((t x).session.sealMany (due ++ streams) maxDatagramPlaintext).1.toOption.getD [],
        ∃ e ∈ envelopes, Carries sessionId keys x buf e ∧ ∀ frame ∈ e.2, frame.Typed := by
    cases out : ((t x).session.sealMany (due ++ streams) maxDatagramPlaintext).1 with
    | error e => exact ⟨[(0,due ++ streams)],by simp [poured],fun _ member => absurd member List.not_mem_nil⟩
    | ok packets =>
      obtain ⟨groups,flat,packed⟩ := Session.sealMany_packed (Prod.ext out rfl)
      obtain ⟨_,envelopes,same,each⟩ := packed_carries correct sized (matched.named x) (matched.keyed x) packed sealable.word
        (by rw [flat]; exact sealable.typed)
      exact ⟨envelopes,by rw [same,flat],each⟩
  obtain ⟨envelopes,holds,each⟩ := envelopes
  exact ⟨_,matched.emit envelopes rfl rfl rfl rfl (by simp only [Peer.seals]; rw [next]) rfl rfl rfl holds only each⟩

/-- A datagram from the network is refused, or it is an envelope of the pool, whose frames are
delivered together. -/
theorem Matches.receive (matched : t.Matches sessionId keys l pool accepted) {x : Side} {src : SocketAddr} {buf : Bytes}
    (genuine : t.Genuine x buf) :
    ∃ actions pool' accepted', (t.step (x,.receive src buf)).Matches sessionId keys (Machine.run Link.step actions l) pool'
      accepted' := by
  have named := matched.named x
  have noise := matched.keyed x
  rcases (t x).session.openPacket_cases src buf with ⟨e,refused,_⟩ | ⟨nonce,body,plaintext,parsed,opens,fresh,taken⟩
  · refine ⟨[],pool,accepted,?_⟩
    have same : t.step (x,.receive src buf) = t := by
      simp [step,Peer.step,Peer.frames,refused,Except.toOption]
    rw [same]
    exact matched
  · obtain ⟨e,⟨body',parsed',opens'⟩,typed,place⟩ := matched.sent x.other buf (genuine nonce body plaintext parsed opens)
    rw [named,parsed',Except.ok.injEq,Packet.transport.injEq] at parsed
    obtain ⟨_,rfl,rfl⟩ := parsed
    rw [Side.other_other] at opens' place
    rw [noise,opens'] at opens
    cases opens
    rw [decodeFrames_encode typed] at taken
    obtain ⟨exactly,recorded⟩ := (matched.records x).checkAndSet e.1
    have pooled : e ∈ pool x.other := place.resolve_left (exactly.mp fresh).1
    obtain ⟨before,after,split⟩ := List.append_of_mem pooled
    have flight : l.flight x.other = streamFrames (poured before) ++ (streamFrames e.2 ++ streamFrames (poured after)) := by
      rw [matched.flight x.other,split,poured_append,poured_cons,streamFrames_append,streamFrames_append]
    obtain ⟨mux,flights,agrees⟩ :=
      Link.run_deliver_group x.other (streamFrames (poured before)) (streamFrames e.2) (streamFrames (poured after)) l flight
    have next : t.step (x,.receive src buf) = Function.update t x { t x with
        session := { (t x).session with replay := ((t x).session.replay.checkAndSet e.1).2, peerAddr := some src }
        mux := e.2.foldl StreamMux.onFrame (t x).mux
        opened := (t x).opened ++ e.2 } := by
      simp only [step,Peer.step,Peer.frames,taken,Except.mapError,Except.toOption,Option.getD_some]
    refine ⟨List.replicate (streamFrames e.2).length (.deliver x.other (streamFrames (poured before)).length),
      Function.update pool x.other (before ++ after),Function.update accepted x (e.1 :: accepted x),?_⟩
    rw [next]
    refine ⟨?_,?_,?_,?_,?_,?_,?_,?_,?_,?_⟩
    · intro y
      rw [mux,Side.other_other,StreamMux.foldl_streamFrames,matched.mux x,Function.update_apply,Function.update_apply]
      split
      · rfl
      · exact matched.mux y
    · rw [agrees.wrote]
      exact forall_update (P := fun y e => l.wrote y = e.wrote) (matched.wrote x) (fun y _ => matched.wrote y)
    · rw [agrees.got]
      exact forall_update (P := fun y e => l.got y = e.got) (matched.got x) (fun y _ => matched.got y)
    · rw [agrees.closedAt]
      exact forall_update (P := fun y e => l.closedAt y = e.closedAt) (matched.closedAt x) (fun y _ => matched.closedAt y)
    · exact forall_update (P := fun y e => e.session.sessionId = sessionId) named (fun y _ => matched.named y)
    · exact forall_update (P := fun y e => e.session.noise = keys y) noise (fun y _ => matched.keyed y)
    · refine forall_update (P := fun y e => e.session.replay.Records (Function.update accepted x _ y)) ?_ (fun y other => ?_)
      · rw [Function.update_self]
        exact recorded fresh
      · rw [Function.update_of_ne other]
        exact matched.records y
    · intro y
      rw [flights,Function.update_apply,Function.update_apply]
      split
      · rw [poured_append,streamFrames_append]
      · exact matched.flight y
    · intro y
      have account := matched.account y
      rcases Side.eq_or_other x y with rfl | rfl
      · rw [Function.update_self,Function.update_of_ne (Side.other_ne y),Function.update_of_ne (Side.ne_other y)]
        exact account
      · rw [Side.other_other] at account ⊢
        rw [split,poured_append,poured_cons] at account
        rw [Function.update_of_ne (Side.other_ne x),Function.update_self,Function.update_self,poured_append]
        refine account.trans ?_
        rw [List.append_assoc]
        refine List.Perm.append_left _ ?_
        rw [← List.append_assoc,← List.append_assoc]
        exact (List.perm_append_comm).append_right _
    · intro y buf' member
      have member : buf' ∈ (t y).sent := by
        rw [Function.update_apply] at member
        split at member
        · rename_i here
          exact here ▸ member
        · exact member
      obtain ⟨e',carries,typed',place'⟩ := matched.sent y buf' member
      refine ⟨e',carries,typed',?_⟩
      rcases place' with seen | pooled'
      · left
        rw [Function.update_apply]
        split
        · rename_i here; exact .tail _ (here ▸ seen)
        · exact seen
      · rw [Function.update_apply,Function.update_apply]
        by_cases here : y = x.other
        · subst here
          rw [if_pos (Side.other_other x),if_pos rfl]
          rw [split] at pooled'
          rcases List.mem_append.mp pooled' with front | back
          · exact .inr (List.mem_append_left _ front)
          · rcases List.mem_cons.mp back with rfl | back
            · exact .inl (.head _)
            · exact .inr (List.mem_append_right _ back)
        · rw [if_neg here]
          exact .inr pooled'

end

/-- Everything two ends of a session do over a network that may lose, repeat, reorder, replay
and make up datagrams, a link of two multiplexers does too. -/
theorem simulates_link {sessionId : SessionId} {keys : Side → NoiseSession snow}
    (correct : ∀ x nonce plaintext body, snow.encrypt (keys x).transport nonce plaintext = .ok body →
      snow.decrypt (keys x.other).transport nonce body = .ok plaintext)
    (sized : sessionId.length = 8) :
    Machine.Simulates (@step snow) Ideal Link.step (fun _ _ => True) (Related sessionId keys) where
  answer t l a related ideal := by
    obtain ⟨pool,accepted,matched⟩ := related
    obtain ⟨x,a⟩ := a
    obtain ⟨sound,genuine⟩ := ideal
    have one : ∀ action pool' accepted', (t.step (x,a)).Matches sessionId keys (l.step action) pool' accepted' →
        ∃ actions, Machine.Along Link.step (fun _ _ => True) actions l ∧
          (t.step (x,a)).Related sessionId keys (Machine.run Link.step actions l) := fun action pool' accepted' next =>
      ⟨[action],⟨trivial,trivial⟩,pool',accepted',next⟩
    have mux := matched.mux x
    cases a with
    | learn addr =>
      refine ⟨[],trivial,pool,accepted,matched.app (fun y _ => ⟨rfl,rfl,rfl,rfl⟩) mux ?_ ?_ ?_ rfl rfl rfl rfl rfl⟩
      · exact matched.wrote x
      · exact matched.got x
      · exact matched.closedAt x
    | openStream kind metadata =>
      refine one (.openStream x kind metadata) pool accepted (matched.app (fun y other => ⟨?_,rfl,rfl,rfl⟩) ?_ (matched.wrote x)
        (matched.got x) (matched.closedAt x) rfl rfl rfl rfl rfl)
      · exact Function.update_of_ne other ..
      · simp only [Link.step,Link.act,Link.note,Link.setMux,Function.update_self,Peer.step,mux]
    | write id data =>
      refine one (.write x id data) pool accepted ?_
      simp only [Link.step,Link.act,Link.stream,step,Peer.step,mux]
      cases held : (t x).mux.streams[id]? with
      | some s =>
        have room : s.sendNext + data.length ≤ u64Max := sound s held
        dsimp only
        rw [if_pos room,Option.isSome_some,if_pos rfl]
        refine matched.app (fun y other => ⟨?_,?_,rfl,rfl⟩) ?_ ?_ (matched.got x) (matched.closedAt x) rfl rfl rfl rfl rfl
        · exact Function.update_of_ne other ..
        · exact Function.update_of_ne other ..
        · simp only [Link.note,Link.setMux,Function.update_self]
        · simp only [Link.note,Link.put,Function.update_self,matched.wrote x]
      | none =>
        have still : (t x).mux.write id data = (t x).mux := by
          unfold StreamMux.write StreamMux.modifyStream
          rw [held]
        refine matched.app (fun y _ => ⟨rfl,rfl,rfl,rfl⟩) (mux.trans still.symm) ?_ (matched.got x) (matched.closedAt x) rfl rfl
          rfl rfl rfl
        exact matched.wrote x
    | read id =>
      refine one (.read x id) pool accepted (matched.app (fun y other => ⟨?_,rfl,?_,rfl⟩) ?_ (matched.wrote x) ?_
        (matched.closedAt x) rfl rfl rfl rfl rfl)
      · exact Function.update_of_ne other ..
      · exact Function.update_of_ne other ..
      · simp only [Link.step,Link.act,Link.note,Link.setMux,Function.update_self,Peer.step,mux]
      · simp only [Link.step,Link.act,Link.note,Link.put,Function.update_self,Peer.step,mux,matched.got x]
    | close id status =>
      refine one (.close x id status) pool accepted ?_
      simp only [Link.step,Link.act,Link.stream,step,Peer.step,mux]
      cases held : (t x).mux.streams[id]? with
      | some s =>
        dsimp only
        rw [Option.isSome_some,if_pos rfl]
        refine matched.app (fun y other => ⟨?_,rfl,rfl,?_⟩) ?_ (matched.wrote x) (matched.got x) ?_ rfl rfl rfl rfl rfl
        · exact Function.update_of_ne other ..
        · exact Function.update_of_ne other ..
        · simp only [Link.note,Link.setMux,Function.update_self]
        · simp only [Link.note,Link.put,Function.update_self,matched.closedAt x,matched.wrote x]
      | none =>
        have still : (t x).mux.close id status = (t x).mux := by
          unfold StreamMux.close StreamMux.modifyStream
          rw [held]
        refine matched.app (fun y _ => ⟨rfl,rfl,rfl,rfl⟩) (mux.trans still.symm) (matched.wrote x) (matched.got x) ?_ rfl rfl
          rfl rfl rfl
        exact matched.closedAt x
    | reset id =>
      refine one (.reset x id) pool accepted (matched.app (fun y other => ⟨?_,rfl,rfl,rfl⟩) ?_ (matched.wrote x)
        (matched.got x) (matched.closedAt x) rfl rfl rfl rfl rfl)
      · exact Function.update_of_ne other ..
      · simp only [Link.step,Link.act,Link.note,Link.setMux,Function.update_self,Peer.step,mux]
    | takeEvents =>
      refine one (.takeEvents x) pool accepted (matched.app (fun y other => ⟨?_,rfl,rfl,rfl⟩) ?_ (matched.wrote x)
        (matched.got x) (matched.closedAt x) rfl rfl rfl rfl rfl)
      · exact Function.update_of_ne other ..
      · simp only [Link.step,Link.act,Link.note,Link.setMux,Function.update_self,Peer.step,mux]
    | poll due heard =>
      have polled : Matches sessionId keys (Function.update t x { t x with mux := (t x).mux.pollTransmit.1 })
          (l.setMux x (t x).mux.pollTransmit.1) pool accepted := by
        refine matched.app (fun y other => ⟨?_,rfl,rfl,rfl⟩) ?_ (matched.wrote x) (matched.got x) (matched.closedAt x) rfl rfl
          rfl rfl rfl
        · exact Function.update_of_ne other ..
        · simp only [Link.setMux,Function.update_self]
      have streams := (t x).mux.streamFrames_pollTransmit
      have after : l.step (.poll x) = ((l.setMux x (t x).mux.pollTransmit.1).setFlight x
          (l.flight x ++ (t x).mux.pollTransmit.2)).note := by simp only [Link.step,Link.act,mux]
      suffices next : ∃ pool', (t.step (x,.poll due heard)).Matches sessionId keys
          ((l.setMux x (t x).mux.pollTransmit.1).setFlight x (l.flight x ++ (t x).mux.pollTransmit.2)) pool' accepted by
        obtain ⟨pool',next⟩ := next
        refine one (.poll x) pool' accepted ?_
        rw [after]
        exact ⟨next.mux,next.wrote,next.got,next.closedAt,next.named,next.keyed,next.records,next.flight,next.account,next.sent⟩
      cases heard with
      | false =>
        have stranded := polled.emit (x := x) (e := (t x).step (.poll due false)) [(0,(t x).mux.pollTransmit.2)]
          (by simp [Peer.step]) (by simp [Peer.step]) (by simp [Peer.step]) (by simp [Peer.step]) (by simp [Peer.step])
          (show ((t x).step (.poll due false)).sent = _ ++ [] by simp [Peer.step]) (by simp [Peer.step]) (by simp [Peer.step])
          (by simp [poured]) streams (fun _ member => absurd member List.not_mem_nil)
        rw [Function.update_idem] at stranded
        exact ⟨_,stranded⟩
      | true =>
        obtain ⟨pool',sealed_⟩ := polled.seals (x := x) correct sized due (t x).mux.pollTransmit.2
          (by rw [Function.update_self]; exact ⟨(sound rfl).unnamed,(sound rfl).typed,(sound rfl).word⟩) streams
        rw [Function.update_idem,Function.update_self] at sealed_
        exact ⟨pool',sealed_⟩
    | send frames =>
      obtain ⟨pool',next⟩ := matched.seals correct sized frames [] sound rfl
      have still : l.setFlight x (l.flight x ++ []) = l := by simp [Link.setFlight]
      rw [List.append_nil,still] at next
      exact ⟨[],trivial,pool',accepted,next⟩
    | receive src buf =>
      obtain ⟨actions,pool',accepted',next⟩ := matched.receive (genuine src buf rfl)
      exact ⟨actions,Machine.along_trivial _ _,pool',accepted',next⟩

/-- The tunnel is related to a link that some schedule has led to. -/
def Linked (sessionId : SessionId) (keys : Side → NoiseSession snow) (t : Tunnel snow) : Prop :=
  ∃ l : Link, l.Safe ∧ t.Related sessionId keys l

section

variable {sessionId : SessionId} {keys : Side → NoiseSession snow} {t : Tunnel snow}

theorem start_linked (sessionId : SessionId) (keys : Side → NoiseSession snow) : (start sessionId keys).Linked sessionId keys :=
  ⟨Link.start,Link.start_safe,start_related sessionId keys⟩

theorem Linked.run (linked : t.Linked sessionId keys)
    (correct : ∀ x nonce plaintext body, snow.encrypt (keys x).transport nonce plaintext = .ok body →
      snow.decrypt (keys x.other).transport nonce body = .ok plaintext)
    (sized : sessionId.length = 8) {schedule : List (Side × Peer.Action)} (ideal : Machine.Along step Ideal schedule t) :
    Linked sessionId keys (Machine.run step schedule t) := by
  obtain ⟨l,safe,related⟩ := linked
  obtain ⟨actions,_,next⟩ := (simulates_link correct sized).run schedule related ideal
  exact ⟨_,safe.run actions,next⟩

theorem Linked.got (linked : t.Linked sessionId keys) (x : Side) (id : Nat) : (t x.other).got id <+: (t x).wrote id := by
  obtain ⟨l,safe,pool,accepted,matched⟩ := linked
  have flow := (safe.flow x id).got
  rw [← matched.got x.other,← matched.wrote x]
  exact flow

/-- An end that holds the stream and has all of it was given at least what was written before
the close. -/
theorem Linked.finished (linked : t.Linked sessionId keys) (x : Side) (id : Nat) {s : StreamState}
    (held : (t x.other).mux.streams[id]? = some s) (done : s.recvFinished = true) :
    ∃ n, (t x).closedAt id = some n ∧ n ≤ ((t x.other).got id).length := by
  obtain ⟨l,safe,pool,accepted,matched⟩ := linked
  have flow := safe.flow x id
  unfold Lane.Flowing at flow
  rw [← matched.mux x.other] at held
  rw [show ((l.lane id) x.other).stream = some s from held] at flow
  obtain ⟨n,closed,reach,_⟩ := flow.read_finished done
  rw [← matched.got x.other,← matched.closedAt x]
  exact ⟨n,closed,reach⟩

/-- Each frame is opened no more often than it was emitted. -/
theorem Linked.once (linked : t.Linked sessionId keys) (x : Side) : (t x.other).opened.Subperm (t x).emitted := by
  obtain ⟨l,safe,pool,accepted,matched⟩ := linked
  exact (List.sublist_append_left _ _).subperm.trans (matched.account x).symm.subperm

theorem Linked.mem_emitted (linked : t.Linked sessionId keys) (x : Side) {frame : Frame} (member : frame ∈ (t x.other).opened) :
    frame ∈ (t x).emitted := (linked.once x).subset member

theorem Linked.named (linked : t.Linked sessionId keys) (x : Side) : (t x).session.sessionId = sessionId := by
  obtain ⟨l,safe,pool,accepted,matched⟩ := linked
  exact matched.named x

theorem Linked.keyed (linked : t.Linked sessionId keys) (x : Side) : (t x).session.noise = keys x := by
  obtain ⟨l,safe,pool,accepted,matched⟩ := linked
  exact matched.keyed x

end

end Tunnel
end Noissh

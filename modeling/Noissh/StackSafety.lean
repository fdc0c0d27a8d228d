import Noissh.Sessions

/-! The whole program is a tunnel, and so a link. Client and server, with all their sessions, keep
their ends of the session; what other sessions and strangers do is the network's. -/
namespace Noissh

variable {snow : Snow} {em : Emulator} {login : Login}

theorem ServerCore.opens_absent {c : ServerCore snow em login} {sid : SessionId} (absent : c.sessions[sid]? = none)
    (a : ServerCore.Call) : c.opens sid a = [] := by
  cases a with
  | handlePacket order src buf =>
    simp only [opens,absent,Option.elim_none,ite_self]
    split
    · split <;> rfl
    · rfl
  | _ => rfl

theorem ClientCore.opens_absent {c : ClientCore snow} (absent : c.session = none) (x : ClientCore.Call) : c.opens x = [] := by
  cases x with
  | handlePacket buf =>
    simp only [opens,frames,absent]
    split <;> rfl
  | _ => rfl

namespace Stack

/-- The frames an action opens for the client's session. -/
def opens (sid : SessionId) (s : Stack snow em login) : Action → List Frame
  | .client x => s.client.opens x
  | .server x => s.server.opens sid x

/-- The client and its end: before the session is made the end is new. -/
structure ClientEnd (sid : SessionId) (keys : NoiseSession snow) (c : ClientCore snow) (e : Peer snow) : Prop where
  mux : c.mux = e.mux
  session : c.session = some e.session ∨ c.session = none ∧ e.session = .new sid keys none
  named : ∀ h, c.hs = some h → h.sessionId = sid
  settled : c.session.isSome = true → c.hs = none
  controls : c.Controls

/-- The server and its end: once the session is dropped, its end stays as it was. -/
structure ServerEnd (sid : SessionId) (keys : NoiseSession snow) (met : Bool) (c : ServerCore snow em login) (e : Peer snow) :
    Prop where
  held : ∀ x, c.sessions[sid]? = some x → x.session = e.session ∧ x.mux = e.mux
  unmet : met = false → c.sessions[sid]? = none ∧ e = .new false sid keys
  named : c.Named

/-- The records of a side are those of its end, and what it hands out besides is of no concern to
the session. -/
structure Recorded (sid : SessionId) (s : Stack snow em login) (x : Side) (e : Peer snow) : Prop where
  wrote : s.wrote x = e.wrote
  got : s.got x = e.got
  closedAt : s.closedAt x = e.closedAt
  sent : ∀ buf ∈ s.sent x, buf ∈ e.sent ∨ Elsewhere sid buf
  typed : ∀ frame ∈ e.emitted, frame.Typed

/-- The tunnel's ends are those of the client's session. -/
structure Follows (sid : SessionId) (keys : Side → NoiseSession snow) (s : Stack snow em login) (t : Tunnel snow) : Prop where
  client : ClientEnd sid (keys .client) s.client (t .client)
  server : ServerEnd sid (keys .server) s.met s.server (t .server)
  recorded : ∀ x, s.Recorded sid x (t x)

/-- What one step does to the tunnel. -/
structure Advances (sid : SessionId) (s : Stack snow em login) (a : Action) (t t' : Tunnel snow) : Prop where
  emitted : (t' (side a)).emitted = (t (side a)).emitted ++ s.emits sid a
  opened : (t' (side a)).opened = (t (side a)).opened ++ s.opens sid a
  other : t' (side a).other = t (side a).other

variable {sid : SessionId} {keys : Side → NoiseSession snow} {s : Stack snow em login} {t : Tunnel snow}

/-- A genuine datagram is genuine in the tunnel. -/
theorem Follows.genuine (follows : s.Follows sid keys t) (linked : t.Linked sid keys) {x : Side} {buf : Bytes}
    (genuine : s.Genuine sid keys x buf) : t.Genuine x buf := by
  intro nonce body plaintext parsed opens
  rw [linked.named x] at parsed
  rw [linked.keyed x] at opens
  rcases (follows.recorded x.other).sent buf (genuine nonce body plaintext parsed opens) with there | elsewhere
  · exact there
  · exact absurd parsed (elsewhere nonce body)

/-- An action that touches no stream of the session leaves its records. -/
theorem records_same (s : Stack snow em login) {a : Action} (client : ∀ x, a = .client x → ClientCore.touches x = false)
    (server : ∀ x, a = .server x → ServerCore.touches sid x = false) :
    s.wroteBy sid a = s.wrote ∧ s.gotBy sid a = s.got ∧ s.closedBy sid a = s.closedAt := by
  cases a with
  | client x =>
    have still := client x rfl
    cases x <;> first | exact ⟨rfl,rfl,rfl⟩ | cases still
  | server x =>
    have still := server x rfl
    cases x with
    | streamWrite k id data =>
      have other : k ≠ sid := by simpa [ServerCore.touches] using still
      simp only [wroteBy,gotBy,closedBy,other,false_and,if_false,and_self]
    | streamRead k id =>
      have other : k ≠ sid := by simpa [ServerCore.touches] using still
      simp only [wroteBy,gotBy,closedBy,other,if_false,and_self]
    | streamCloseStatus k id status =>
      have other : k ≠ sid := by simpa [ServerCore.touches] using still
      simp only [wroteBy,gotBy,closedBy,other,false_and,if_false,and_self]
    | _ => exact ⟨rfl,rfl,rfl⟩

/-- The records after a step, when those of its own side are right. -/
theorem recorded_step (recorded : ∀ x, s.Recorded sid x (t x)) {a : Action} {e : Peer snow}
    (wrote : s.wroteBy sid a = Function.update s.wrote (side a) e.wrote)
    (got : s.gotBy sid a = Function.update s.got (side a) e.got)
    (closedAt : s.closedBy sid a = Function.update s.closedAt (side a) e.closedAt)
    (earlier : (t (side a)).sent ⊆ e.sent) (handed : ∀ buf ∈ s.handed a, buf ∈ e.sent ∨ Elsewhere sid buf)
    (typed : ∀ frame ∈ e.emitted, frame.Typed) (x : Side) :
    (s.step sid a).Recorded sid x (Function.update t (side a) e x) := by
  by_cases here : x = side a
  · subst here
    refine ⟨?_,?_,?_,fun buf member => ?_,?_⟩
    · change s.wroteBy sid a (side a) = _
      rw [wrote,Function.update_self,Function.update_self]
    · change s.gotBy sid a (side a) = _
      rw [got,Function.update_self,Function.update_self]
    · change s.closedBy sid a (side a) = _
      rw [closedAt,Function.update_self,Function.update_self]
    · rw [Function.update_self]
      change buf ∈ Function.update s.sent (side a) _ (side a) at member
      rw [Function.update_self] at member
      rcases List.mem_append.mp member with old | new
      · exact ((recorded (side a)).sent buf old).imp_left (fun there => earlier there)
      · exact handed buf new
    · rw [Function.update_self]
      exact typed
  · have old := recorded x
    refine ⟨?_,?_,?_,fun buf member => ?_,?_⟩
    · change s.wroteBy sid a x = _
      rw [wrote,Function.update_of_ne here,Function.update_of_ne here]
      exact old.wrote
    · change s.gotBy sid a x = _
      rw [got,Function.update_of_ne here,Function.update_of_ne here]
      exact old.got
    · change s.closedBy sid a x = _
      rw [closedAt,Function.update_of_ne here,Function.update_of_ne here]
      exact old.closedAt
    · rw [Function.update_of_ne here]
      change buf ∈ Function.update s.sent (side a) _ x at member
      rw [Function.update_of_ne here] at member
      exact old.sent buf member
    · rw [Function.update_of_ne here]
      exact old.typed

/-- The tunnel answers an action by steps of its own, and its ends move on with it. -/
def Answered (sid : SessionId) (keys : Side → NoiseSession snow) (s : Stack snow em login)
    (a : Action) (t : Tunnel snow) : Prop :=
  ∃ actions, Machine.Along Tunnel.step Tunnel.Ideal actions t ∧
    (s.step sid a).Follows sid keys (Machine.run Tunnel.step actions t) ∧
    s.Advances sid a t (Machine.run Tunnel.step actions t)

/-- Quiet steps of one end answer an action that touches no stream. -/
theorem Follows.quiet (follows : s.Follows sid keys t) (linked : t.Linked sid keys) {a : Action}
    (client : ∀ x, a = .client x → ClientCore.touches x = false) (server : ∀ x, a = .server x → ServerCore.touches sid x = false)
    {session : Session snow} {mux : StreamMux} {packets : List Bytes} {bufs : Bytes → Prop}
    (reaches : Peer.Reaches bufs (t (side a)).session session (t (side a)).mux mux packets (s.emits sid a) (s.opens sid a))
    (genuine : ∀ buf, bufs buf → s.Genuine sid keys (side a) buf) (typed : ∀ frame ∈ s.emits sid a, frame.Typed)
    (word : (t (side a)).session.sendNonce + (s.emits sid a).length ≤ 2 ^ 64)
    (handed : ∀ buf ∈ s.handed a, buf ∈ packets ∨ Elsewhere sid buf)
    (ends : ∀ e : Peer snow, e.session = session → e.mux = mux → Advances sid s a t (Function.update t (side a) e) →
      ClientEnd sid (keys .client) (s.clientBy a) (Function.update t (side a) e .client) ∧
      ServerEnd sid (keys .server) (s.step sid a).met (s.serverBy a) (Function.update t (side a) e .server)) :
    s.Answered sid keys a t := by
  have old := follows.recorded (side a)
  have typed' : ∀ frame ∈ (t (side a)).emitted ++ s.emits sid a, frame.Typed := fun frame member =>
    (List.mem_append.mp member).elim (old.typed frame) (typed frame)
  obtain ⟨actions,along,ran⟩ := Tunnel.reach reaches (fun buf may => follows.genuine linked (genuine buf may)) typed'
    (Nat.le_trans reaches.spends word)
  obtain ⟨wrote,got,closedAt⟩ := s.records_same client server
  generalize reached : ({ t (side a) with
    session
    mux
    sent := (t (side a)).sent ++ packets
    emitted := (t (side a)).emitted ++ s.emits sid a
    opened := (t (side a)).opened ++ s.opens sid a } : Peer snow) = e at ran
  have advances : Advances sid s a t (Function.update t (side a) e) := by
    refine ⟨?_,?_,?_⟩
    · rw [Function.update_self,← reached]
    · rw [Function.update_self,← reached]
    · rw [Function.update_of_ne (Side.other_ne _)]
  obtain ⟨clientEnd,serverEnd⟩ := ends e (by rw [← reached]) (by rw [← reached]) advances
  refine ⟨actions,along,?_,ran.symm ▸ advances⟩
  rw [ran]
  refine ⟨clientEnd,serverEnd,recorded_step follows.recorded ?_ ?_ ?_ ?_ ?_ ?_⟩
  · rw [wrote,← reached]
    exact (Function.update_eq_self_iff.mpr old.wrote.symm).symm
  · rw [got,← reached]
    exact (Function.update_eq_self_iff.mpr old.got.symm).symm
  · rw [closedAt,← reached]
    exact (Function.update_eq_self_iff.mpr old.closedAt.symm).symm
  · rw [← reached]
    exact List.subset_append_left _ _
  · intro buf member
    rw [← reached]
    exact (handed buf member).imp_left (List.mem_append_right _)
  · rw [← reached]
    exact typed'

/-- A step of the client leaves the server's end. -/
theorem Follows.server_stays (follows : s.Follows sid keys t) (x : ClientCore.Call) (e : Peer snow) :
    ServerEnd sid (keys .server) (s.step sid (.client x)).met s.server (Function.update t .client e .server) := by
  rw [Function.update_of_ne (by decide)]
  refine ⟨follows.server.held,fun unmet => follows.server.unmet ?_,follows.server.named⟩
  exact (Bool.or_eq_false_iff.mp unmet).1

/-- A step of the server leaves the client's end. -/
theorem Follows.client_stays (follows : s.Follows sid keys t) (e : Peer snow) :
    ClientEnd sid (keys .client) s.client (Function.update t .server e .client) := by
  rw [Function.update_of_ne (by decide)]
  exact follows.client

/-- A call that uses no stream is answered at the client's end. -/
theorem Follows.client_quiet (follows : s.Follows sid keys t) (linked : t.Linked sid keys) {x : ClientCore.Call}
    (ideal : s.Ideal sid keys (.client x)) (still : ClientCore.touches x = false) : s.Answered sid keys (.client x) t := by
  have client : ∀ y, Action.client x = .client y → ClientCore.touches y = false := by
    rintro y ⟨⟩
    exact still
  have server : ∀ y, Action.client x = .server y → ServerCore.touches sid y = false := fun y same => by cases same
  have word := ideal.word
  rcases follows.client.session with held | ⟨absent,fresh⟩
  · obtain ⟨session,next,reaches,settled,controls⟩ := ClientCore.call_reaches follows.client.controls held
      (follows.client.settled (by rw [held]; rfl)) still
    rw [follows.client.mux] at reaches
    rw [show s.session sid (side (.client x)) = some (t .client).session from held] at word
    refine follows.quiet linked client server reaches (fun buf same => ?_) ideal.typed word (fun _ => .inl)
      (fun e session mux _ => ⟨?_,follows.server_stays x e⟩)
    · subst same
      exact ideal.unforged
    · rw [show Function.update t (side (.client x)) e .client = e from Function.update_self ..]
      refine ⟨mux.symm,.inl (next.trans (by rw [session])),fun h there => ?_,fun _ => settled,controls⟩
      rw [show (s.clientBy (.client x)).hs = none from settled] at there
      cases there
  · have begins := ClientCore.call_begins follows.client.controls absent follows.client.named still
      (fun session made => (ideal.agreed .client session made : session.noise = keys .client))
    obtain ⟨session,packets,reaches,made,handed⟩ := begins.reaches
    have nothing : s.opens sid (.client x) = [] := s.client.opens_absent absent x
    rw [← fresh,follows.client.mux] at reaches
    rw [show s.session sid (side (.client x)) = none from absent] at word
    rw [← nothing] at reaches
    refine follows.quiet linked client server reaches (fun _ none => none.elim) ideal.typed ?_ handed
      (fun e same mux _ => ⟨?_,follows.server_stays x e⟩)
    · rw [show (t (side (.client x))).session = .new sid (keys .client) none from fresh]
      exact word
    · rw [show Function.update t (side (.client x)) e .client = e from Function.update_self ..]
      refine ⟨mux.symm,?_,begins.named,begins.settled,begins.controls⟩
      rcases made with made | ⟨none,new⟩
      · exact .inl (made.trans (by rw [same]))
      · exact .inr ⟨none,same.trans new⟩

/-- A use of a stream is the same use at the end of its side. -/
theorem Follows.touch (follows : s.Follows sid keys t) {a : Action} (b : Peer.Action) (sound : (t (side a)).Sound b)
    (quiet : ∀ src buf, b ≠ .receive src buf) (silent : s.handed a = []) (unsaid : s.emits sid a = [])
      (unheard : s.opens sid a = [])
    (outer : ((t (side a)).step b).sent = (t (side a)).sent ∧ ((t (side a)).step b).emitted = (t (side a)).emitted ∧
      ((t (side a)).step b).opened = (t (side a)).opened)
    (wrote : s.wroteBy sid a = Function.update s.wrote (side a) ((t (side a)).step b).wrote)
    (got : s.gotBy sid a = Function.update s.got (side a) ((t (side a)).step b).got)
    (closedAt : s.closedBy sid a = Function.update s.closedAt (side a) ((t (side a)).step b).closedAt)
    (ends : ∀ e : Peer snow, e = (t (side a)).step b →
      ClientEnd sid (keys .client) (s.clientBy a) (Function.update t (side a) e .client) ∧
      ServerEnd sid (keys .server) (s.step sid a).met (s.serverBy a) (Function.update t (side a) e .server)) :
    s.Answered sid keys a t := by
  obtain ⟨sent,emitted,opened⟩ := outer
  obtain ⟨clientEnd,serverEnd⟩ := ends _ rfl
  refine ⟨[(side a,b)],⟨⟨sound,fun src buf same => absurd same (quiet src buf)⟩,trivial⟩,⟨clientEnd,serverEnd,?_⟩,?_,?_,?_⟩
  · refine recorded_step follows.recorded wrote got closedAt (by rw [sent]; exact List.Subset.refl _) (fun buf member => ?_) ?_
    · rw [silent] at member
      exact absurd member List.not_mem_nil
    · rw [emitted]
      exact (follows.recorded (side a)).typed
  · change (Function.update t (side a) ((t (side a)).step b) (side a)).emitted = _
    rw [Function.update_self,emitted,unsaid,List.append_nil]
  · change (Function.update t (side a) ((t (side a)).step b) (side a)).opened = _
    rw [Function.update_self,opened,unheard,List.append_nil]
  · exact Function.update_of_ne (Side.other_ne _) ..

theorem Follows.client_touch (follows : s.Follows sid keys t) {x : ClientCore.Call} (ideal : s.Ideal sid keys (.client x))
    (touched : ClientCore.touches x = true) : s.Answered sid keys (.client x) t := by
  have own := follows.recorded .client
  have mux := follows.client.mux
  have held : ∀ id, s.stream sid .client id = (t .client).mux.streams[id]? := fun id => by
    rw [← mux]
    rfl
  have ends : ∀ e : Peer snow, (s.clientBy (.client x)).mux = e.mux → e.session = (t .client).session →
      (s.clientBy (.client x)).session = s.client.session → (s.clientBy (.client x)).hs = s.client.hs →
      (s.clientBy (.client x)).Controls →
      ClientEnd sid (keys .client) (s.clientBy (.client x)) (Function.update t .client e .client) ∧
      ServerEnd sid (keys .server) (s.step sid (.client x)).met s.server (Function.update t .client e .server) := by
    intro e mux' session session' hs controls
    refine ⟨?_,follows.server_stays x e⟩
    rw [Function.update_self]
    refine ⟨mux',?_,fun h there => follows.client.named h (hs ▸ there),fun some => ?_,controls⟩
    · rw [session',session]
      exact follows.client.session
    · rw [session'] at some
      rw [hs]
      exact follows.client.settled some
  cases x with
  | streamWrite id data =>
    refine follows.touch (.write id data) (fun st there => ?_) (by simp) rfl rfl rfl ⟨rfl,rfl,rfl⟩ ?_ ?_ ?_ ?_
    · exact ideal.counted st ((held id).trans there)
    · change (if (s.stream sid .client id).isSome = true then _ else _) =
        Function.update s.wrote .client (if (t .client).mux.streams[id]?.isSome = true then _ else _)
      rw [held]
      split
      · rw [Link.put,own.wrote]
        rfl
      · exact (Function.update_eq_self_iff.mpr own.wrote.symm).symm
    · exact (Function.update_eq_self_iff.mpr own.got.symm).symm
    · exact (Function.update_eq_self_iff.mpr own.closedAt.symm).symm
    · rintro e rfl
      exact ends _ (congrArg (fun m => m.write id data) mux) rfl rfl rfl follows.client.controls
  | streamRead id =>
    refine follows.touch (.read id) trivial (by simp) rfl rfl rfl ⟨rfl,rfl,rfl⟩ ?_ ?_ ?_ ?_
    · exact (Function.update_eq_self_iff.mpr own.wrote.symm).symm
    · simp only [gotBy,side,Peer.step,Link.put,ClientCore.streamRead,mux,own.got]
    · exact (Function.update_eq_self_iff.mpr own.closedAt.symm).symm
    · rintro e rfl
      exact ends _ (congrArg (fun m => (m.read id).2) mux) rfl rfl rfl follows.client.controls
  | streamClose id =>
    refine follows.touch (.close id 0) trivial (by simp) rfl rfl rfl ⟨rfl,rfl,rfl⟩ ?_ ?_ ?_ ?_
    · exact (Function.update_eq_self_iff.mpr own.wrote.symm).symm
    · exact (Function.update_eq_self_iff.mpr own.got.symm).symm
    · change (if (s.stream sid .client id).isSome = true then _ else _) =
        Function.update s.closedAt .client (if (t .client).mux.streams[id]?.isSome = true then _ else _)
      rw [held]
      split
      · rw [Link.put,own.closedAt,own.wrote]
        rfl
      · exact (Function.update_eq_self_iff.mpr own.closedAt.symm).symm
    · rintro e rfl
      exact ends _ (congrArg (fun m => m.close id 0) mux) rfl rfl rfl follows.client.controls
  | _ => cases touched

theorem Follows.server_touch (follows : s.Follows sid keys t) {x : ServerCore.Call} (ideal : s.Ideal sid keys (.server x))
    (touched : ServerCore.touches sid x = true) {session : ServerSession snow em login}
    (there : s.server.sessions[sid]? = some session) : s.Answered sid keys (.server x) t := by
  have own := follows.recorded .server
  obtain ⟨sameSession,mux⟩ := follows.server.held session there
  have met : s.met = true := by
    by_contra unmet
    have absent := (follows.server.unmet (by simpa using unmet)).1
    rw [there] at absent
    cases absent
  have held : ∀ id, s.stream sid .server id = (t .server).mux.streams[id]? := fun id => by
    rw [← mux]
    simp only [stream,Stack.mux,there,Option.map_some,Option.bind_some]
  have ends : ∀ (e : Peer snow) (m : StreamMux), (s.serverBy (.server x)).sessions[sid]? = some { session with mux := m } →
      e.mux = m → e.session = (t .server).session →
      ClientEnd sid (keys .client) s.client (Function.update t .server e .client) ∧
      ServerEnd sid (keys .server) (s.step sid (.server x)).met (s.serverBy (.server x))
        (Function.update t .server e .server) := by
    intro e m after mux' session'
    refine ⟨follows.client_stays e,?_⟩
    rw [Function.update_self]
    refine ⟨fun y held => ?_,fun unmet => ?_,ServerCore.call_named follows.server.named x⟩
    · rw [after] at held
      cases held
      exact ⟨sameSession.trans session'.symm,mux'.symm⟩
    · rw [show (s.step sid (.server x)).met = true from by simp [step,met]] at unmet
      cases unmet
  cases x with
  | streamWrite k id data =>
    obtain rfl : k = sid := by simpa [ServerCore.touches] using touched
    refine follows.touch (.write id data) (fun st found => ?_) (by simp) rfl rfl rfl ⟨rfl,rfl,rfl⟩ ?_ ?_ ?_ ?_
    · exact ideal.counted rfl st ((held id).trans found)
    · change (if k = k ∧ (s.stream k .server id).isSome = true then _ else _) =
        Function.update s.wrote .server (if (t .server).mux.streams[id]?.isSome = true then _ else _)
      simp only [held,true_and]
      split
      · rw [Link.put,own.wrote]
        rfl
      · exact (Function.update_eq_self_iff.mpr own.wrote.symm).symm
    · exact (Function.update_eq_self_iff.mpr own.got.symm).symm
    · exact (Function.update_eq_self_iff.mpr own.closedAt.symm).symm
    · rintro e rfl
      exact ends _ _ (ServerCore.update_puts there _).here (congrArg (fun m => m.write id data) mux).symm rfl
  | streamRead k id =>
    obtain rfl : k = sid := by simpa [ServerCore.touches] using touched
    refine follows.touch (.read id) trivial (by simp) rfl rfl rfl ⟨rfl,rfl,rfl⟩ ?_ ?_ ?_ ?_
    · exact (Function.update_eq_self_iff.mpr own.wrote.symm).symm
    · simp only [gotBy,side,Peer.step,Link.put,ServerCore.streamRead,there,Option.map_some,Option.getD_some,mux,own.got,if_true]
    · exact (Function.update_eq_self_iff.mpr own.closedAt.symm).symm
    · rintro e rfl
      exact ends _ _ (ServerCore.update_puts there _).here (congrArg (fun m => (m.read id).2) mux).symm rfl
  | streamCloseStatus k id status =>
    obtain rfl : k = sid := by simpa [ServerCore.touches] using touched
    refine follows.touch (.close id status) trivial (by simp) rfl rfl rfl ⟨rfl,rfl,rfl⟩ ?_ ?_ ?_ ?_
    · exact (Function.update_eq_self_iff.mpr own.wrote.symm).symm
    · exact (Function.update_eq_self_iff.mpr own.got.symm).symm
    · change (if k = k ∧ (s.stream k .server id).isSome = true then _ else _) =
        Function.update s.closedAt .server (if (t .server).mux.streams[id]?.isSome = true then _ else _)
      simp only [held,true_and]
      split
      · rw [Link.put,own.closedAt,own.wrote]
        rfl
      · exact (Function.update_eq_self_iff.mpr own.closedAt.symm).symm
    · rintro e rfl
      exact ends _ _ (ServerCore.update_puts there _).here (congrArg (fun m => m.close id status) mux).symm rfl
  | _ => cases touched

/-- The server has no such session: its records stay, whatever the action. -/
theorem records_absent (absent : s.server.sessions[sid]? = none) (x : ServerCore.Call) :
    s.wroteBy sid (.server x) = s.wrote ∧ s.gotBy sid (.server x) = s.got ∧ s.closedBy sid (.server x) = s.closedAt := by
  have none : ∀ id, s.stream sid .server id = none := fun id => by
    simp only [stream,mux,absent,Option.map_none,Option.bind_none]
  cases x with
  | streamWrite k id data =>
    simp only [wroteBy,gotBy,closedBy,none,Option.isSome_none,Bool.false_eq_true,and_false,if_false,and_self]
  | streamCloseStatus k id status =>
    simp only [wroteBy,gotBy,closedBy,none,Option.isSome_none,Bool.false_eq_true,and_false,if_false,and_self]
  | streamRead k id =>
    refine ⟨rfl,?_,rfl⟩
    simp only [gotBy]
    split <;> rename_i here
    · rw [here]
      simp only [ServerCore.streamRead,absent,Option.map_none,Option.getD_none,List.append_nil,Link.put,Function.update_eq_self]
    · rfl
  | _ => exact ⟨rfl,rfl,rfl⟩

/-- While the server has no such session, and gets none, nothing happens at its end. -/
theorem Follows.idle (follows : s.Follows sid keys t) {x : ServerCore.Call} (absent : s.server.sessions[sid]? = none)
    (after : (s.server.call x).sessions[sid]? = none) : s.Answered sid keys (.server x) t := by
  have starts := ServerCore.call_starts follows.server.named absent x
  obtain ⟨wrote,got,closedAt⟩ := records_absent absent x
  have same : t = Function.update t .server (t .server) := (Function.update_eq_self ..).symm
  have met : (s.step sid (.server x)).met = s.met := by
    have gone : (s.serverBy (.server x)).sessions.contains sid = false := by
      rw [Std.TreeMap.contains_eq_isSome_getElem?]
      exact congrArg Option.isSome after
    simp only [step,gone,Bool.or_false]
  refine ⟨[],trivial,
    ⟨follows.client,⟨fun y held => ?_,fun unmet => ⟨after,?_⟩,ServerCore.call_named follows.server.named x⟩,?_⟩,?_,?_,rfl⟩
  · exact absurd (held.symm.trans after) (by simp)
  · rw [met] at unmet
    exact (follows.server.unmet unmet).2
  · intro y
    change (s.step sid (.server x)).Recorded sid y (t y)
    rw [same]
    refine recorded_step (a := .server x) follows.recorded ?_ ?_ ?_ (List.Subset.refl _) (fun buf member => ?_)
      (follows.recorded .server).typed y
    · rw [wrote]
      exact (Function.update_eq_self_iff.mpr (follows.recorded .server).wrote.symm).symm
    · rw [got]
      exact (Function.update_eq_self_iff.mpr (follows.recorded .server).got.symm).symm
    · rw [closedAt]
      exact (Function.update_eq_self_iff.mpr (follows.recorded .server).closedAt.symm).symm
    · obtain ⟨p,sent,rfl⟩ := List.mem_map.mp member
      exact .inr (starts.elsewhere p sent)
  · change _ = _ ++ s.server.emits sid x
    rw [starts.emits,List.append_nil]
    rfl
  · change _ = _ ++ s.server.opens sid x
    rw [ServerCore.opens_absent absent,List.append_nil]
    rfl

/-- A call that uses no stream of the session is answered at the server's end. -/
theorem Follows.server_quiet (follows : s.Follows sid keys t) (linked : t.Linked sid keys) {x : ServerCore.Call}
    (ideal : s.Ideal sid keys (.server x)) (still : ServerCore.touches sid x = false) : s.Answered sid keys (.server x) t := by
  have client : ∀ y, Action.server x = .client y → ClientCore.touches y = false := fun y same => by cases same
  have server : ∀ y, Action.server x = .server y → ServerCore.touches sid y = false := by
    rintro y ⟨⟩
    exact still
  have named := follows.server.named
  have word := ideal.word
  have known : s.session sid .server = (s.server.sessions[sid]?).map (·.session) := rfl
  have begun : ∀ y, (s.server.call x).sessions[sid]? = some y → (s.step sid (.server x)).met = true := by
    intro y there
    have contains : (s.serverBy (.server x)).sessions.contains sid = true := by
      rw [Std.TreeMap.contains_eq_isSome_getElem?]
      exact (congrArg Option.isSome there :)
    simp only [step,contains,Bool.or_true]
  cases there : s.server.sessions[sid]? with
  | some y =>
    obtain ⟨session,mux⟩ := follows.server.held y there
    obtain ⟨z,packets,moves,after,sent⟩ := (ServerCore.call_ends named there still).moves
    have reaches := moves
    unfold ServerSession.Moves at reaches
    rw [session,mux] at reaches
    rw [show side (.server x) = .server from rfl,known,there,Option.map_some,Option.elim_some,session] at word
    refine follows.quiet linked client server reaches (fun buf may => ?_) ideal.typed word (fun buf handed => ?_)
      (fun e session' mux' _ => ⟨follows.client_stays e,?_⟩)
    · obtain ⟨order,src,rfl⟩ := may
      exact ideal.unforged
    · obtain ⟨p,member,rfl⟩ := List.mem_map.mp handed
      exact sent p member
    · rw [show Function.update t (side (.server x)) e .server = e from Function.update_self ..]
      have met : s.met = true := by
        by_contra unmet
        have absent := (follows.server.unmet (by simpa using unmet)).1
        rw [there] at absent
        cases absent
      refine ⟨fun z' held => ?_,fun unmet => ?_,ServerCore.call_named named x⟩
      · rcases after with same | gone
        · rw [show (s.serverBy (.server x)).sessions[sid]? = some z from same] at held
          cases held
          exact ⟨session'.symm,mux'.symm⟩
        · exact absurd (held.symm.trans gone) (by simp)
      · rw [show (s.step sid (.server x)).met = true from by simp [step,met]] at unmet
        cases unmet
  | none =>
    have starts := ServerCore.call_starts named there x
    cases turns : starts.turns with
    | same same => exact follows.idle there (same.trans there)
    | dropped gone => exact follows.idle there gone
    | begun _ z noise src held session mux _ input typed status =>
      have unmet : s.met = false := by
        by_contra met
        have gone : (s.server.call x).sessions[sid]? = none := ideal.once (by simpa using met) there
        exact absurd (gone.symm.trans held) (by simp)
      obtain ⟨_,fresh⟩ := follows.server.unmet unmet
      have key : noise = keys .server := by
        have agreed := ideal.agreed .server z.session
          (show ((s.server.call x).sessions[sid]?).map (·.session) = some z.session by rw [held]; rfl)
        rw [session] at agreed
        exact agreed
      have learnt := Peer.reaches_learn (fun _ => False) (t .server).session (t .server).mux src
      have reaches : Peer.Reaches (fun _ => False) (t .server).session { (t .server).session with peerAddr := some src }
          (t .server).mux (t .server).mux [] (s.server.emits sid x) (s.server.opens sid x) := by
        rw [starts.emits,ServerCore.opens_absent there x]
        exact learnt
      refine follows.quiet linked client server reaches (fun _ none => none.elim) ideal.typed ?_ (fun buf handed => ?_)
        (fun e session' mux' _ => ⟨follows.client_stays e,?_⟩)
      · rw [show side (.server x) = .server from rfl,known,there,Option.map_none,Option.elim_none] at word
        rw [show (t (side (.server x))).session.sendNonce = 0 from congrArg (fun e : Peer snow => e.session.sendNonce) fresh]
        exact word
      · obtain ⟨p,member,rfl⟩ := List.mem_map.mp handed
        exact .inr (starts.elsewhere p member)
      · rw [show Function.update t (side (.server x)) e .server = e from Function.update_self ..]
        refine ⟨fun y there => ?_,fun unmet => ?_,ServerCore.call_named named x⟩
        · rw [show (s.serverBy (.server x)).sessions[sid]? = some z from held] at there
          cases there
          rw [session,mux,session',mux',fresh,key]
          exact ⟨rfl,rfl⟩
        · rw [begun z held] at unmet
          cases unmet

/-- Each action of the program is answered by the tunnel. -/
theorem Follows.answered (follows : s.Follows sid keys t) (linked : t.Linked sid keys) {a : Action}
    (ideal : s.Ideal sid keys a) : s.Answered sid keys a t := by
  cases a with
  | client x =>
    cases touched : ClientCore.touches x with
    | true => exact follows.client_touch ideal touched
    | false => exact follows.client_quiet linked ideal touched
  | server x =>
    cases touched : ServerCore.touches sid x with
    | false => exact follows.server_quiet linked ideal touched
    | true =>
      cases there : s.server.sessions[sid]? with
      | some session => exact follows.server_touch ideal touched there
      | none =>
        exact follows.idle there (ServerCore.call_absent there touched)

/-- What a side seals with its keys the other side opens with its own. -/
def Paired (keys : Side → NoiseSession snow) : Prop :=
  ∀ x nonce plaintext body, snow.encrypt (keys x).transport nonce plaintext = .ok body →
    snow.decrypt (keys x.other).transport nonce body = .ok plaintext

/-- A client has drawn the id of a session and sent its first message; the server has run for a
while, and has no session of this id. -/
inductive Begun (sid : SessionId) : Stack snow em login → Prop
  | intro (privateKey : Bytes) (termVar : Option String) (known : KnownHosts) (hostLabel : String) (serverAddr : SocketAddr)
    (rows cols : UInt16) (prediction : DisplayMode) {client : ClientCore snow} {first : Bytes}
    (dialled : ClientCore.new snow privateKey sid termVar known hostLabel serverAddr rows cols prediction = .ok (client,first))
    (serverKey : Bytes) (authorized : AuthorizedKeys) (backend : login.State) (command : Option (List String))
    (user : Option String) (agentDir : String) (pid : Nat) (earlier : List ServerCore.Call)
    (absent : (Machine.run ServerCore.call earlier
      (.new serverKey authorized backend command user agentDir pid : ServerCore snow em login)).sessions[sid]? = none)
    (sized : sid.length = 8) :
    Begun sid (start client first (Machine.run ServerCore.call earlier
      (.new serverKey authorized backend command user agentDir pid)))

theorem Begun.sized {s : Stack snow em login} (begun : s.Begun sid) : sid.length = 8 := by
  cases begun
  assumption

theorem Begun.follows {s : Stack snow em login} (begun : s.Begun sid) (keys : Side → NoiseSession snow) :
    s.Follows sid keys (Tunnel.start sid keys) := by
  cases begun with
  | intro privateKey termVar known hostLabel serverAddr rows cols prediction dialled serverKey authorized backend command
      user agentDir pid earlier absent sized =>
    unfold ClientCore.new at dialled
    split at dialled
    · cases dialled
    rename_i hs message begins
    obtain ⟨rfl,rfl⟩ := Prod.mk.inj (Except.ok.inj dialled)
    have spoken : hs.sessionId = sid ∧ ∃ body, message = buildHandshakePacket sid body := by
      unfold Handshaker.client at begins
      split at begins
      · cases begins
      · split at begins <;> cases begins
        exact ⟨rfl,_,rfl⟩
    refine ⟨⟨rfl,.inr ⟨rfl,rfl⟩,fun h there => ?_,fun some => absurd some Bool.false_ne_true,
      fun _ none => absurd none List.not_mem_nil⟩,
      ⟨fun y there => ?_,fun _ => ⟨absent,rfl⟩,?_⟩,fun x =>
        ⟨?_,?_,?_,fun buf member => ?_,fun _ none => absurd none List.not_mem_nil⟩⟩
    · cases there
      exact spoken.1
    · exact absurd (there.symm.trans absent) (by simp)
    · exact Machine.run_invariant_always ServerCore.Named (fun c a named => ServerCore.call_named named a) earlier _
        (ServerCore.new_named serverKey authorized backend command user agentDir pid)
    · rfl
    · rfl
    · rfl
    · cases x with
      | client =>
        obtain ⟨_,body,rfl⟩ := spoken
        rw [List.mem_singleton.mp member]
        exact .inr (handshake_elsewhere sid sid body)
      | server => exact absurd member List.not_mem_nil

/-- The tunnel simulates the whole program. -/
theorem simulates_tunnel (paired : Paired keys) (sized : sid.length = 8) :
    Machine.Simulates (@step snow em login sid) (Ideal sid keys) Tunnel.step Tunnel.Ideal
      (fun s t => s.Follows sid keys t ∧ t.Linked sid keys) where
  answer s t a both ideal := by
    obtain ⟨follows,linked⟩ := both
    obtain ⟨actions,along,next,_⟩ := follows.answered linked ideal
    exact ⟨actions,along,next,linked.run paired sized along⟩

theorem Begun.run {s : Stack snow em login} (begun : s.Begun sid) (paired : Paired keys) {schedule : List Action}
    (ideal : Machine.Along (step sid) (Ideal sid keys) schedule s) :
    ∃ t : Tunnel snow, (s.run sid schedule).Follows sid keys t ∧ t.Linked sid keys := by
  obtain ⟨actions,_,both⟩ := (simulates_tunnel paired begun.sized).run schedule
    ⟨begun.follows keys,Tunnel.start_linked sid keys⟩ ideal
  exact ⟨_,both⟩

/-- What each guarded step preserves of the program, its tunnel and what was seen, a run does. -/
theorem Follows.carries {ω : Type} (look : Stack snow em login → Action → List ω) (guard : Stack snow em login → Action → Prop)
    (invariant : List ω → Stack snow em login → Tunnel snow → Prop)
    (preserved : ∀ seen s a t t', s.Follows sid keys t → s.Ideal sid keys a → guard s a → s.Advances sid a t t' →
      t'.Linked sid keys → invariant seen s t → invariant (seen ++ look s a) (s.step sid a) t')
    (paired : Paired keys) (sized : sid.length = 8) {schedule : List Action} (seen : List ω)
      {s : Stack snow em login} {t : Tunnel snow}
    (follows : s.Follows sid keys t) (linked : t.Linked sid keys) (valid : invariant seen s t)
    (guarded : Machine.Along (step sid) (fun s a => s.Ideal sid keys a ∧ guard s a) schedule s) :
    ∃ t' : Tunnel snow, (s.run sid schedule).Follows sid keys t' ∧
      invariant (seen ++ Machine.observed (step sid) look schedule s) (s.run sid schedule) t' := by
  obtain ⟨t',follows',_,valid'⟩ := Machine.run_observed look
    (fun seen s => ∃ t : Tunnel snow, s.Follows sid keys t ∧ t.Linked sid keys ∧ invariant seen s t)
    (fun seen s a both guarded => by
      obtain ⟨t,follows,linked,valid⟩ := both
      obtain ⟨actions,along,next,advances⟩ := follows.answered linked guarded.1
      have linked' := linked.run paired sized along
      exact ⟨_,next,linked',preserved seen s a t _ follows guarded.1 guarded.2 advances linked' valid⟩)
    schedule seen s ⟨t,follows,linked,valid⟩ guarded
  exact ⟨t',follows',valid'⟩

end Stack
end Noissh

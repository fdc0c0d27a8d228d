import Noissh.StackSafety
import Noissh.SyncSafety

/-! What client and server make of each other's frames, over any run: none that the other did not
seal, none twice, and the streams end to end. -/
namespace Noissh.Stack

variable {snow : Snow} {em : Emulator} {login : Login} {sid : SessionId} {keys : Side → NoiseSession snow}
  {s : Stack snow em login} {t : Tunnel snow}

/-- The frames that one side is given to seal. -/
def emittedBy (sid : SessionId) (x : Side) (s : Stack snow em login) (a : Action) : List Frame :=
  if side a = x then s.emits sid a else []

/-- The frames that one side opens, and acts on. -/
def openedBy (sid : SessionId) (x : Side) (s : Stack snow em login) (a : Action) : List Frame :=
  if side a = x then s.opens sid a else []

theorem Advances.seen {a : Action} {t' : Tunnel snow} (advances : s.Advances sid a t t') (x : Side) :
    (t' x).emitted = (t x).emitted ++ s.emittedBy sid x a ∧ (t' x).opened = (t x).opened ++ s.openedBy sid x a := by
  unfold emittedBy openedBy
  by_cases own : side a = x
  · rw [if_pos own,if_pos own,← own]
    exact ⟨advances.emitted,advances.opened⟩
  · obtain rfl : x = (side a).other := by
      cases here : side a <;> cases x <;> first | rfl | exact absurd here own
    rw [if_neg own,if_neg own,advances.other,List.append_nil,List.append_nil]
    exact ⟨rfl,rfl⟩

/-- Along a run the tunnel's ends emit and open what the sides do. -/
theorem Follows.run (follows : s.Follows sid keys t) (linked : t.Linked sid keys) (paired : Paired keys) (sized : sid.length = 8)
    {schedule : List Action} (ideal : Machine.Along (step sid) (Ideal sid keys) schedule s) :
    ∃ t' : Tunnel snow, (s.run sid schedule).Follows sid keys t' ∧ t'.Linked sid keys ∧
      ∀ x, (t' x).emitted = (t x).emitted ++ Machine.observed (step sid) (emittedBy sid x) schedule s ∧
        (t' x).opened = (t x).opened ++ Machine.observed (step sid) (openedBy sid x) schedule s := by
  induction schedule generalizing s t with
  | nil =>
    refine ⟨t,follows,linked,fun x => ?_⟩
    rw [Machine.observed_nil,Machine.observed_nil,List.append_nil,List.append_nil]
    exact ⟨rfl,rfl⟩
  | cons a rest ih =>
    obtain ⟨actions,along,next,advances⟩ := follows.answered linked ideal.1
    obtain ⟨t',last,linked',seen⟩ := ih next (linked.run paired sized along) ideal.2
    refine ⟨t',last,linked',fun x => ?_⟩
    obtain ⟨emitted,opened⟩ := seen x
    obtain ⟨emitted',opened'⟩ := advances.seen x
    rw [emitted,opened,emitted',opened',List.append_assoc,List.append_assoc]
    exact ⟨rfl,rfl⟩

theorem Follows.stream (follows : s.Follows sid keys t) (x : Side) (id : Nat) {st : StreamState}
    (held : s.stream sid x id = some st) : (t x).mux.streams[id]? = some st := by
  cases x with
  | client =>
    rw [← follows.client.mux]
    exact held
  | server =>
    unfold Stack.stream mux at held
    cases there : s.server.sessions[sid]? with
    | none =>
      rw [there] at held
      cases held
    | some y =>
      rw [there] at held
      rw [← (follows.server.held y there).2]
      exact held

/-- Whether a datagram is genuine. -/
def checkGenuine (sid : SessionId) (keys : Side → NoiseSession snow) (s : Stack snow em login) (x : Side) (buf : Bytes) : Bool :=
  match parsePacket buf with
  | .ok (.transport k nonce body) =>
    !(k == sid && (snow.decrypt (keys x).transport nonce body).toBool) || (s.sent x.other).contains buf
  | _ => true

theorem checkGenuine_iff {s : Stack snow em login} {x : Side} {buf : Bytes} :
    s.checkGenuine sid keys x buf = true ↔ s.Genuine sid keys x buf := by
  unfold checkGenuine Genuine
  cases parsed : parsePacket buf with
  | error e => simp
  | ok packet =>
    cases packet with
    | handshake k body => simp
    | transport k nonce body =>
      refine ⟨fun checked nonce' body' plaintext same opens => ?_,fun genuine => ?_⟩
      · cases same
        simpa [opens,Except.toBool] using checked
      · by_cases here : k = sid
        · subst here
          cases opens : snow.decrypt (keys x).transport nonce body with
          | error e => simp [opens,Except.toBool]
          | ok plaintext => simp [genuine nonce body plaintext rfl opens]
        · simp [here]

instance genuineDecidable (sid : SessionId) (keys : Side → NoiseSession snow) (s : Stack snow em login)
    (x : Side) (buf : Bytes) : Decidable (s.Genuine sid keys x buf) := decidable_of_iff _ checkGenuine_iff

instance unforgedDecidable (sid : SessionId) (keys : Side → NoiseSession snow) (s : Stack snow em login) (a : Action) :
    Decidable (s.Unforged sid keys a) := by
  unfold Unforged
  split <;> infer_instance

instance countedDecidable (sid : SessionId) (s : Stack snow em login) (a : Action) : Decidable (s.Counted sid a) := by
  unfold Counted
  split
  · exact Option.decidableForallMem (o := s.stream sid .client _)
  · exact inferInstanceAs (Decidable (_ → ∀ st ∈ s.stream sid .server _, _))
  · exact inferInstance

instance idealDecidable [DecidableEq (NoiseSession snow)] (sid : SessionId) (keys : Side → NoiseSession snow)
    (s : Stack snow em login) (a : Action) : Decidable (s.Ideal sid keys a) :=
  decidable_of_iff (s.Unforged sid keys a ∧
      ((∀ session ∈ (s.step sid a).session sid .client, session.noise = keys .client) ∧
        ∀ session ∈ (s.step sid a).session sid .server, session.noise = keys .server) ∧
      (s.met = true → (s.server.sessions[sid]?).isNone = true → ((s.step sid a).server.sessions[sid]?).isNone = true) ∧
      (∀ frame ∈ s.emits sid a, frame.Typed) ∧
      (s.session sid (side a)).elim 0 (·.sendNonce) + (s.emits sid a).length ≤ 2 ^ 64 ∧ s.Counted sid a) (by
    simp only [Option.isNone_iff_eq_none]
    refine ⟨fun both => ?_,fun ideal =>
      ⟨ideal.unforged,⟨ideal.agreed .client,ideal.agreed .server⟩,ideal.once,ideal.typed,ideal.word,ideal.counted⟩⟩
    obtain ⟨unforged,⟨client,server⟩,once,typed,word,counted⟩ := both
    refine ⟨unforged,fun x => ?_,once,typed,word,counted⟩
    cases x with
    | client => exact client
    | server => exact server)

/-- A terminal that echoes, and exits when it is typed an end of transmission. -/
def echoLogin : Login where
  State := Unit
  Handle := Bytes × Bool
  spawn _ _ := (some ([],false),())
  write pty bytes := (some bytes.length,(pty.1 ++ bytes,pty.2 || bytes.contains 4))
  read pty := ([pty.1],([],pty.2))
  tryWait pty := (if pty.2 then some 7 else none,pty)
  kill := id
  setWinsize pty _ _ := pty
  setNonblocking := id

/-- The actions of a script that looks at the state before each of them. -/
def play (sid : SessionId) : List (Stack snow em login → Action) → Stack snow em login → List Action
  | [], _ => []
  | move :: rest, s => move s :: play sid rest (s.step sid (move s))

/-- The `n`-th datagram of the other side arrives. -/
def toClient (n : Nat) (s : Stack snow em login) : Action := .client (.handlePacket ((s.sent .server).getD n []))

def toServer (n : Nat) (s : Stack snow em login) : Action :=
  .server (.handlePacket s.server.sessions.keys (.v4 1 5) ((s.sent .client).getD n []))

def serverTick (s : Stack snow em login) : Action := .server (.tick s.server.sessions.keys)

instance clearKeysDecidable : DecidableEq (NoiseSession Clear.noise) := fun a b =>
  decidable_of_iff (a.remoteStatic = b.remoteStatic) ⟨fun same => by cases a; cases b; cases same; rfl,congrArg _⟩

def sampleId : SessionId := ServerCore.sampleId

/-- Each side has the other's public key. -/
def sampleKeys : Side → NoiseSession Clear.noise
  | .client => ⟨(),List.replicate 32 7⟩
  | .server => ⟨(),ServerCore.clientKey.bytes⟩

theorem sampleKeys_paired : Paired sampleKeys := fun _ _ _ _ sent => Clear.decrypt_encrypt sent

def sampleClient : ClientCore Clear.noise :=
  .start {
    hs := some (⟨true,1,ServerCore.clientKey.bytes,none⟩ : Clear.Handshake)
    sessionId := sampleId
    finished := false
    sendPayload := []
    peerPayload := none } none {} "host:51820" (.v4 0 51820) 2 4 .adaptive

def sampleServer : ServerCore Clear.noise asciiEmulator echoLogin :=
  .new (List.replicate 32 7) ⟨[(ServerCore.clientKey,"client")]⟩ () none none "/tmp" 1

def sampleStart : Stack Clear.noise asciiEmulator echoLogin := start sampleClient ServerCore.firstMessage.2 sampleServer

theorem sampleStart_begun : sampleStart.Begun sampleId := by
  have dialled : ClientCore.new Clear.noise ServerCore.clientKey.bytes sampleId none {} "host:51820" (.v4 0 51820) 2 4
      .adaptive = .ok (sampleClient,ServerCore.firstMessage.2) := rfl
  have absent : sampleServer.sessions[sampleId]? = none := by decide +kernel
  exact .intro ServerCore.clientKey.bytes none {} "host:51820" (.v4 0 51820) 2 4 .adaptive dialled (List.replicate 32 7)
    ⟨[(ServerCore.clientKey,"client")]⟩ () none none "/tmp" 1 [] absent rfl

/-- The handshake, a stream, typed bytes and the exit; some datagrams arrive twice, late or never. -/
def talk : List Action := play sampleId [toServer 0,toClient 0,toServer 1,toServer 2,
  fun _ => .client (.openForward "h:1"),fun _ => .client (.streamWrite 0 [104,105]),fun _ => .client (.streamClose 0),
  fun _ => .client (.typeInput [97,98]),fun _ => .client .tick,toServer 3,toServer 3,
  fun _ => .server (.streamRead sampleId 0),serverTick,toClient 3,toClient 2,fun _ => .client (.typeInput [4]),
  fun _ => .client .tick,toServer 4,serverTick,toClient 6,toClient 7] sampleStart

theorem talk_ideal : Machine.Along (step sampleId) (Ideal sampleId sampleKeys) talk sampleStart := by decide +kernel

/-- Neither side acts on a frame that the other did not seal in this session, nor on one more
often than it was sealed; whatever else the network delivers, and however often. -/
theorem frames_once (begun : s.Begun sid) (paired : Paired keys) (schedule : List Action)
    (ideal : Machine.Along (step sid) (Ideal sid keys) schedule s) (x : Side) :
    (Machine.observed (step sid) (openedBy sid x.other) schedule s).Subperm
      (Machine.observed (step sid) (emittedBy sid x) schedule s) := by
  obtain ⟨t,_,linked,seen⟩ := (begun.follows keys).run (Tunnel.start_linked sid keys) paired begun.sized ideal
  have once := linked.once x
  rw [(seen x).1,(seen x.other).2] at once
  exact once

/-- What a side has read of a stream is a beginning of what the other wrote, in order and without
gaps; and once it holds all of it, it has read everything written before the stream was closed. -/
theorem streams_exact (begun : s.Begun sid) (paired : Paired keys) (schedule : List Action)
    (ideal : Machine.Along (step sid) (Ideal sid keys) schedule s) (x : Side) (id : Nat) :
    let e := s.run sid schedule
    e.got x.other id <+: e.wrote x id ∧
      ∀ st, e.stream sid x.other id = some st → st.recvFinished = true →
        ∃ n, e.closedAt x id = some n ∧ (e.wrote x id).take n <+: e.got x.other id := by
  intro e
  obtain ⟨t,follows,linked⟩ := begun.run paired ideal
  have here := follows.recorded x
  have there := follows.recorded x.other
  have flow : e.got x.other id <+: e.wrote x id := by
    rw [there.got,here.wrote]
    exact linked.got x id
  refine ⟨flow,fun st held done => ?_⟩
  obtain ⟨n,closed,reach⟩ := linked.finished x id (follows.stream x.other id held) done
  refine ⟨n,(congrFun here.closedAt id).trans closed,?_⟩
  rw [← congrFun there.got id] at reach
  exact List.prefix_of_prefix_length_le (List.take_prefix _ _) flow (Nat.le_trans (List.length_take_le _ _) reach)

/-- Whatever a run of the whole program does to the session's streams, a run of two multiplexers over
a link does too: one that loses and reorders frames, and hands over none twice. -/
theorem refines_link (begun : s.Begun sid) (paired : Paired keys) (schedule : List Action)
    (ideal : Machine.Along (step sid) (Ideal sid keys) schedule s) :
    let e := s.run sid schedule
    ∃ actions : List Link.Action, let l := Machine.run Link.step actions .start
      (∀ x, l.wrote x = e.wrote x ∧ l.got x = e.got x ∧ l.closedAt x = e.closedAt x) ∧
      ∀ x m, e.mux sid x = some m → l.mux x = m := by
  intro e
  have sim := (@simulates_tunnel snow em login _ _ paired begun.sized).trans (Tunnel.simulates_link paired begun.sized)
  obtain ⟨actions,_,t,⟨follows,_⟩,_,_,matched⟩ := sim.run schedule
    ⟨_,⟨begun.follows keys,Tunnel.start_linked sid keys⟩,Tunnel.start_related sid keys⟩ ideal
  refine ⟨actions,fun x => ?_,fun x m held => ?_⟩
  · have recorded := follows.recorded x
    exact ⟨(matched.wrote x).trans recorded.wrote.symm,(matched.got x).trans recorded.got.symm,
      (matched.closedAt x).trans recorded.closedAt.symm⟩
  · rw [matched.mux]
    cases x with
    | client =>
      cases held
      exact follows.client.mux.symm
    | server =>
      obtain ⟨y,there,rfl⟩ := Option.map_eq_some_iff.mp held
      exact (follows.server.held y there).2.symm

theorem refines_link_talk :
    let e := sampleStart.run sampleId talk
    ∃ actions : List Link.Action, let l := Machine.run Link.step actions .start
      (∀ x, l.wrote x = e.wrote x ∧ l.got x = e.got x ∧ l.closedAt x = e.closedAt x) ∧
      ∀ x m, e.mux sampleId x = some m → l.mux x = m :=
  refines_link sampleStart_begun sampleKeys_paired talk talk_ideal

theorem frames_once_talk :
    (Machine.observed (step sampleId) (openedBy sampleId .server) talk sampleStart).Subperm
      (Machine.observed (step sampleId) (emittedBy sampleId .client) talk sampleStart) :=
  frames_once sampleStart_begun sampleKeys_paired talk talk_ideal .client

theorem streams_exact_talk :
    let e := sampleStart.run sampleId talk
    e.got .server 0 <+: e.wrote .client 0 ∧
      ∀ st, e.stream sampleId .server 0 = some st → st.recvFinished = true →
        ∃ n, e.closedAt .client 0 = some n ∧ (e.wrote .client 0).take n <+: e.got .server 0 :=
  streams_exact sampleStart_begun sampleKeys_paired talk talk_ideal .client 0

end Noissh.Stack

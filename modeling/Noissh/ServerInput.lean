import Noissh.InputChannel
import Noissh.ServerCore

/-! Typed bytes on the server. They are acknowledged when they are handed to the terminal,
whether or not it takes them. -/
namespace Noissh

variable {snow : Snow} {em : Emulator} {login : Login}

namespace ServerSession

/-- The bytes a frame adds to those received. -/
def unseen (shell : ServerShell em) (offset : Nat) (data : Bytes) : Bytes := (shell.inputRx.ingest offset data).1

/-- How many of some bytes the terminal would take now. -/
def taken (s : ServerSession snow em login) (bytes : Bytes) : Nat :=
  match s.pty with
  | none => 0
  | some pty => (login.write pty bytes).1.getD 0

/-- There is a terminal that takes all the bytes this frame adds, if it adds any. -/
def takesAll (s : ServerSession snow em login) : Frame → Bool
  | .input offset data =>
    match s.shell with
    | none => true
    | some shell => decide ((unseen shell offset data).length ≤ s.taken (unseen shell offset data))
  | _ => true

/-- The session after the frames of a packet, as far as typed bytes go. -/
def afterFrame (s : ServerSession snow em login) : Frame → ServerSession snow em login
  | .input offset data => (s.onInput offset data).2
  | _ => s

/-- The terminal takes all of every frame, each in its turn. -/
def takesEach (s : ServerSession snow em login) : List Frame → Bool
  | [] => true
  | frame :: rest => s.takesAll frame && (s.afterFrame frame).takesEach rest

/-- The terminal has what was received, and that is a beginning of the client's stream. -/
structure Typed (stream : Bytes) (s : ServerSession snow em login) (received : Nat) : Prop where
  shell : ∃ shell, s.shell = some shell ∧ shell.inputRx.received = received
  typed : s.typed = stream.take received
  fits : received ≤ stream.length

variable {stream : Bytes} {s : ServerSession snow em login} {received : Nat}

/-- One frame of the client's stream, taken whole. -/
theorem Typed.onInput (typed : s.Typed stream received) {offset : Nat} {data : Bytes}
    (segment : Segment stream offset data) (takes : s.takesAll (.input offset data) = true) :
    ∃ received', received ≤ received' ∧ (s.onInput offset data).1 = [.ack received'] ∧
      (s.onInput offset data).2.Typed stream received' := by
  obtain ⟨shell,held,rfl⟩ := typed.shell
  obtain ⟨grown,yields⟩ := @InputChannel.ingest_segment shell.inputRx _ _ _ segment
  have le : shell.inputRx.received ≤ (shell.inputRx.ingest offset data).2.received := by
    rw [grown]
    split
    · exact Nat.le_max_left _ _
    · exact Nat.le_refl _
  have fits : (shell.inputRx.ingest offset data).2.received ≤ stream.length := by
    rw [grown]
    split
    · exact Nat.max_le.mpr ⟨typed.fits,segment.fits⟩
    · exact typed.fits
  simp only [takesAll,held,unseen] at takes
  have takes := of_decide_eq_true takes
  refine ⟨(shell.inputRx.ingest offset data).2.received,le,?_,?_⟩
  · unfold ServerSession.onInput
    rw [held]
    dsimp only
    split <;> rfl
  · have total : s.typed ++ (shell.inputRx.ingest offset data).1 =
      stream.take (shell.inputRx.ingest offset data).2.received := by
      rw [typed.typed]
      exact yields
    unfold ServerSession.onInput
    rw [held]
    dsimp only
    unfold taken at takes
    cases terminal : s.pty with
    | none =>
      rw [terminal] at takes
      have empty : (shell.inputRx.ingest offset data).1 = [] := List.length_eq_zero_iff.mp (Nat.le_zero.mp takes)
      rw [empty,List.append_nil] at total
      exact ⟨⟨_,rfl,rfl⟩,total,fits⟩
    | some pty =>
      rw [terminal] at takes
      have whole : (shell.inputRx.ingest offset data).1.take
          ((login.write pty (shell.inputRx.ingest offset data).1).1.getD 0) = (shell.inputRx.ingest offset data).1 :=
        List.take_of_length_le takes
      exact ⟨⟨_,rfl,rfl⟩,(congrArg (s.typed ++ ·) whole).trans total,fits⟩

/-- Only the shell and the terminal decide what is taken. -/
theorem takesEach_congr {t : ServerSession snow em login} (shell : t.shell = s.shell) (pty : t.pty = s.pty)
    {frames : List Frame} (takes : s.takesEach frames = true) : t.takesEach frames = true := by
  induction frames generalizing s t with
  | nil => rfl
  | cons frame rest ih =>
    obtain ⟨first,later⟩ := Bool.and_eq_true_iff.mp takes
    apply Bool.and_eq_true_iff.mpr
    cases frame with
    | input offset data =>
      refine ⟨?_,ih ?_ ?_ later⟩
      · simp only [takesAll,taken,shell,pty] at first ⊢
        exact first
      · simp only [afterFrame,ServerSession.onInput,shell,pty]
        cases s.shell with
        | none => exact shell
        | some => cases s.pty <;> rfl
      · simp only [afterFrame,ServerSession.onInput,shell,pty]
        cases s.shell with
        | none => exact pty
        | some => cases s.pty <;> rfl
    | _ => exact ⟨rfl,ih shell pty later⟩

end ServerSession

namespace ServerCore

/-- The frames that answer a datagram. -/
def replies (c : ServerCore snow em login) (src : SocketAddr) (sid : SessionId) (buf : Bytes) : List Frame :=
  match c.sessions[sid]? with
  | none => []
  | some s =>
    match s.session.openPacket src buf with
    | (.error _,_) => []
    | (.ok frames,session) => (c.receive sid s session frames).1

/-- The server, and every acknowledgement of typed bytes it has returned to this client. -/
structure Keyed (snow : Snow) (em : Emulator) (login : Login) where
  core : ServerCore snow em login
  acks : List Nat := []

namespace Keyed

def ackSeq : Frame → Option Nat
  | .ack seq => some seq
  | _ => none

/-- A datagram for the session arrives. -/
def step (sid : SessionId) (k : Keyed snow em login) (datagram : SocketAddr × Bytes) : Keyed snow em login where
  core := (k.core.handleTransport datagram.1 sid datagram.2).2
  acks := k.acks ++ (k.core.replies datagram.1 sid datagram.2).filterMap ackSeq

def run (sid : SessionId) (k : Keyed snow em login) (datagrams : List (SocketAddr × Bytes)) : Keyed snow em login :=
  Machine.run (step sid) datagrams k

/-- The frames of a datagram that opens. -/
def carried (sid : SessionId) (k : Keyed snow em login) (datagram : SocketAddr × Bytes) : List Frame :=
  match k.core.sessions[sid]? with
  | none => []
  | some s => (s.session.openPacket datagram.1 datagram.2).1.toOption.getD []

/-- A frame of typed bytes of the client's stream. -/
def typesIn (stream : Bytes) : Frame → Bool
  | .input offset data => decide (Segment stream offset data)
  | _ => false

def types (stream : Bytes) (sid : SessionId) (k : Keyed snow em login) (datagram : SocketAddr × Bytes) : Bool :=
  (k.carried sid datagram).all (typesIn stream)

/-- The terminal takes all a datagram carries. -/
def accepts (sid : SessionId) (k : Keyed snow em login) (datagram : SocketAddr × Bytes) : Bool :=
  (k.core.sessions[sid]?).all (fun s => s.takesEach (k.carried sid datagram))

/-- The shell was just opened: nothing was received, and nothing typed. -/
def Opened (sid : SessionId) (k : Keyed snow em login) : Prop :=
  k.acks = [] ∧ ∃ s, k.core.sessions[sid]? = some s ∧ (∃ shell, s.shell = some shell ∧ shell.inputRx = .new) ∧ s.typed = []

/-- The terminal's bytes are a beginning of the stream, and nothing else is acknowledged. -/
def Sound (stream : Bytes) (sid : SessionId) (k : Keyed snow em login) : Prop :=
  ∃ s, k.core.sessions[sid]? = some s ∧ s.typed <+: stream ∧ ∀ seq ∈ k.acks, seq ≤ s.typed.length

/-- What stays true of a session, and that acknowledgements are within what was received. -/
def Valid (stream : Bytes) (sid : SessionId) (k : Keyed snow em login) : Prop :=
  ∃ s received, k.core.sessions[sid]? = some s ∧ s.Typed stream received ∧ ∀ seq ∈ k.acks, seq ≤ received

variable {stream : Bytes} {sid : SessionId}

/-- The frames of a packet, all of them typed bytes. -/
theorem receive_typed (frames : List Frame) (replies : List Frame) {c : ServerCore snow em login}
    {s : ServerSession snow em login} {received : Nat} (held : c.sessions[sid]? = some s) (typed : s.Typed stream received)
    (types : ∀ frame ∈ frames, typesIn stream frame = true) (takes : s.takesEach frames = true) :
    ∃ (s' : ServerSession snow em login) (received' : Nat) (acks : List Nat),
      (frames.foldl (onFrame sid) (replies,c)).2.sessions[sid]? = some s' ∧ s'.Typed stream received' ∧ received ≤ received' ∧
      (frames.foldl (onFrame sid) (replies,c)).1 = replies ++ acks.map .ack ∧ ∀ seq ∈ acks, seq ≤ received' := by
  induction frames generalizing replies c s received with
  | nil => exact ⟨s,received,[],held,typed,Nat.le_refl _,(List.append_nil _).symm,fun _ => nofun⟩
  | cons frame rest ih =>
    obtain ⟨first,later⟩ := Bool.and_eq_true_iff.mp takes
    obtain ⟨offset,data,rfl,segment⟩ : ∃ offset data, frame = .input offset data ∧ Segment stream offset data := by
      have here := types frame (.head _)
      cases frame with
      | input offset data => exact ⟨offset,data,rfl,of_decide_eq_true here⟩
      | _ => cases here
    obtain ⟨next,le,answer,typed'⟩ := typed.onInput segment first
    have stepped : onFrame sid (replies,c) (.input offset data) =
        (replies ++ [.ack next],{ c with sessions := c.sessions.insert sid (s.onInput offset data).2 }) := by
      simp only [onFrame,held,answer]
    rw [List.foldl_cons,stepped]
    obtain ⟨s',received',acks,held',final,le',answers,bound⟩ :=
      ih (replies ++ [.ack next]) (c := { c with sessions := c.sessions.insert sid (s.onInput offset data).2 })
        Std.TreeMap.getElem?_insert_self typed' (fun other member => types other (.tail _ member)) later
    refine ⟨s',received',next :: acks,held',final,Nat.le_trans le le',?_,?_⟩
    · rw [answers,List.append_assoc]
      rfl
    · intro seq member
      rcases List.mem_cons.mp member with rfl | old
      · exact le'
      · exact bound seq old

/-- Surfacing events and sending the answers change neither shell nor terminal. -/
theorem sendReplies_typed {c : ServerCore snow em login} {s : ServerSession snow em login} {received : Nat}
    (held : c.sessions[sid]? = some s) (typed : s.Typed stream received) (replies : List Frame) :
    ∃ s', ((c.surfaceEvents sid).sendReplies sid replies).2.sessions[sid]? = some s' ∧ s'.Typed stream received := by
  have surfaced : ∃ s', (c.surfaceEvents sid).sessions[sid]? = some s' ∧ s'.Typed stream received := by
    unfold surfaceEvents
    rw [held]
    exact ⟨_,Std.TreeMap.getElem?_insert_self,typed.shell,typed.typed,typed.fits⟩
  obtain ⟨t,here,typed⟩ := surfaced
  unfold sendReplies
  rw [here]
  dsimp only
  split
  · exact ⟨t,here,typed⟩
  split
  · exact ⟨t,here,typed⟩
  split
  · exact ⟨_,Std.TreeMap.getElem?_insert_self,typed.shell,typed.typed,typed.fits⟩
  · exact ⟨_,Std.TreeMap.getElem?_insert_self,typed.shell,typed.typed,typed.fits⟩

theorem Valid.after_step {k : Keyed snow em login} (valid : k.Valid stream sid) (datagram : SocketAddr × Bytes)
    (types : k.types stream sid datagram = true) (accepts : k.accepts sid datagram = true) :
    (k.step sid datagram).Valid stream sid := by
  obtain ⟨s,received,held,typed,bound⟩ := valid
  simp only [Keyed.types,Keyed.accepts,carried,held,Option.all_some,List.all_eq_true] at types accepts
  unfold step handleTransport replies
  rw [held]
  dsimp only
  cases opened : s.session.openPacket datagram.1 datagram.2 with
  | mk outcome session =>
    rw [opened] at types accepts
    cases outcome with
    | error e =>
      refine ⟨_,received,Std.TreeMap.getElem?_insert_self,⟨typed.shell,typed.typed,typed.fits⟩,?_⟩
      dsimp only
      rw [List.filterMap_nil,List.append_nil]
      exact bound
    | ok frames =>
      have takes := ServerSession.takesEach_congr (s := s) (t := { s with session, idleTicks := 0 }) rfl rfl accepts
      obtain ⟨s',received',acks,held',typed',le,answers,within⟩ :=
        receive_typed frames [] (c := { k.core with sessions := k.core.sessions.insert sid { s with session, idleTicks := 0 } })
          Std.TreeMap.getElem?_insert_self ⟨typed.shell,typed.typed,typed.fits⟩ types takes
      obtain ⟨t,here,final⟩ := sendReplies_typed held' typed' (k.core.receive sid s session frames).1
      refine ⟨t,received',here,final,?_⟩
      intro seq member
      rcases List.mem_append.mp member with old | new
      · exact Nat.le_trans (bound seq old) le
      · obtain ⟨frame,replied,isAck⟩ := List.mem_filterMap.mp new
        change frame ∈ (frames.foldl (onFrame sid) ([],_)).1 at replied
        rw [answers,List.nil_append] at replied
        obtain ⟨n,listed,rfl⟩ := List.mem_map.mp replied
        cases isAck
        exact within _ listed

/-- When the terminal takes all it is given, it has a beginning of the client's stream, and
no more than that is acknowledged. -/
theorem input_acked_once_written (stream : Bytes) (sid : SessionId) (k : Keyed snow em login) (opened : k.Opened sid)
    (datagrams : List (SocketAddr × Bytes))
    (guarded : Machine.Along (step sid) (fun k d => k.types stream sid d = true ∧ k.accepts sid d = true) datagrams k) :
    (k.run sid datagrams).Sound stream sid := by
  obtain ⟨none,s,held,⟨shell,there,new⟩,nothing⟩ := opened
  have start : k.Valid stream sid := by
    refine ⟨s,0,held,⟨⟨shell,there,by rw [new]; rfl⟩,nothing,Nat.zero_le _⟩,fun seq member => ?_⟩
    rw [none] at member
    exact absurd member List.not_mem_nil
  obtain ⟨s',received,held',typed,bound⟩ :=
    Machine.run_invariant (Valid stream sid) (fun _ d valid guard => valid.after_step d guard.1 guard.2)
      datagrams k start guarded
  refine ⟨s',held',?_,fun seq member => ?_⟩
  · rw [typed.typed]
    exact List.take_prefix _ _
  · rw [typed.typed,List.length_take,Nat.min_eq_left typed.fits]
    exact bound seq member

/-- The server of a client that has a shell, whose terminal takes so much at a time. -/
def shellOpened (capacity : Nat) : Keyed Clear.noise silentEmulator limitedLogin where
  core := greeted capacity

theorem opened_of_seen {sid : SessionId} {k : Keyed snow em login} (none : k.acks = [])
    (seen : (k.core.sessions[sid]?).map (fun s => (s.shell.map (·.inputRx),s.typed)) = some (some .new,[])) : k.Opened sid := by
  obtain ⟨s,held,same⟩ := Option.map_eq_some_iff.mp seen
  obtain ⟨shell,typed⟩ := Prod.mk.inj same
  exact ⟨none,s,held,Option.map_eq_some_iff.mp shell,typed⟩

/-- `ls` and return, repeated with more behind it. -/
def line : List (SocketAddr × Bytes) :=
  [samplePacket 1 [.input 0 [108,115]],samplePacket 2 [.input 0 [108,115,13]]]

theorem input_acked_once_written_line : ((shellOpened 100).run sampleId line).Sound [108,115,13] sampleId :=
  input_acked_once_written _ _ _ (opened_of_seen rfl (by decide +kernel)) _ (by decide +kernel)

def wholeLine : List (SocketAddr × Bytes) := [samplePacket 1 [.input 0 [108,115,13]]]

/-- The terminal takes two bytes of three, and all three are acknowledged. -/
theorem input_acked_unwritten :
    (shellOpened 2).Opened sampleId ∧
      Machine.Along (step sampleId) (fun k d => k.types [108,115,13] sampleId d = true) wholeLine (shellOpened 2) ∧
      ¬((shellOpened 2).run sampleId wholeLine).Sound [108,115,13] sampleId := by
  refine ⟨opened_of_seen rfl (by decide +kernel),by decide +kernel,?_⟩
  rintro ⟨s,held,_,bound⟩
  have three := bound 3 (by decide +kernel)
  have short : ((((shellOpened 2).run sampleId wholeLine).core.sessions[sampleId]?).map
      (fun s => s.typed.length)) = some 2 := by decide +kernel
  rw [held,Option.map_some,Option.some_inj] at short
  omega

end Keyed
end ServerCore
end Noissh

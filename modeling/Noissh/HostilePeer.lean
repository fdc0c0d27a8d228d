import Noissh.Link
import Noissh.MuxRuns
import Noissh.Simulation
import Noissh.StreamChecked

/-! The multiplexer against a hostile peer. Whatever frames arrive in whatever order, no call
panics until the application itself has used up a 64-bit counter, and every stream keeps its
send buffer in step with its offsets and its received segments apart. The same says when the
numbers of `StreamMux` and `Link`, which have no bound, are the source's words. -/
namespace Noissh

open Checked

namespace StreamState

/-- What a stream keeps against any frames. -/
structure Guarded (now : Nat) (s : StreamState) : Prop where
  sending : ∃ w, Sending w s
  paced : s.Paced
  clocked : Clocked now s
  room : s.sendNext + defaultWindow ≤ u64Max
  valid : s.recv.Valid
  below : s.recv.Below u64Max

variable {s t : StreamState} {now : Nat}

theorem new_guarded (now id : Nat) (kind : StreamKind) (metadata : Bytes) (needsOpen : Bool) :
    Guarded now (new id kind metadata needsOpen) where
  sending := ⟨[],new_sending id kind metadata needsOpen⟩
  paced := new_paced id kind metadata needsOpen
  clocked := new_clocked now id kind metadata needsOpen
  room := show 0 + defaultWindow ≤ u64Max by decide
  valid := Reassembler.empty_valid
  below := fun p _ => Reassembler.contents_eq_none Reassembler.empty_valid (by simp)

theorem Guarded.write (guarded : s.Guarded now) {data : Bytes} (room : s.sendNext + data.length + defaultWindow ≤ u64Max) :
    (s.write data).Guarded now := by
  obtain ⟨w,sending⟩ := guarded.sending
  exact { guarded with
    sending := ⟨w ++ data,write_sending sending data⟩
    paced := ⟨guarded.paced.cwndLow,guarded.paced.cwndHigh,guarded.paced.rtoHigh⟩
    clocked := guarded.clocked.congr rfl rfl rfl rfl rfl rfl
    room := room }

/-- What is received, and the flags of a close or a reset, do not touch the sending side. -/
theorem Guarded.received (guarded : s.Guarded now) {recv : Reassembler} (valid : recv.Valid) (below : recv.Below u64Max)
    (peerFin : HalfState) (sendFin closeReceived reset : Bool) (closeStatus : Option Int) :
    Guarded now { s with recv, peerFin, sendFin, closeReceived, reset, closeStatus } where
  sending := guarded.sending.imp fun _ sending => ⟨sending.next,sending.buf,sending.low,sending.high,sending.window⟩
  paced := ⟨guarded.paced.cwndLow,guarded.paced.cwndHigh,guarded.paced.rtoHigh⟩
  clocked := guarded.clocked.congr rfl rfl rfl rfl rfl rfl
  room := guarded.room
  valid := valid
  below := below

theorem Guarded.read (guarded : s.Guarded now) : Guarded now { s with recv := s.recv.read.2 } :=
  guarded.received (Reassembler.read_valid guarded.valid) (guarded.below.read guarded.valid)
    s.peerFin s.sendFin s.closeReceived s.reset
    s.closeStatus

theorem Guarded.onData (guarded : s.Guarded now) (offset : Nat) (data : Bytes) (fin : Bool) :
    (s.onData offset data fin).1.Guarded now := by
  rw [onData_eq]
  apply guarded.received
  · split
    · exact Reassembler.insert_valid guarded.valid offset data
    · exact guarded.valid
  · split
    · rename_i accepted
      simp only [accepts,Bool.and_eq_true,decide_eq_true_eq] at accepted
      exact guarded.below.insert guarded.valid accepted.1
    · exact guarded.below

theorem Guarded.onAck (guarded : s.Guarded now) (ack window : Nat) : (s.onAck ack window now).Guarded now := by
  obtain ⟨w,sending⟩ := guarded.sending
  have sent := onAck_sending sending ack window now
  have paced := onAck_paced guarded.paced ack window now
  have clocked := onAck_clocked guarded.clocked sending ack window
  have room := guarded.room
  have valid := guarded.valid
  have below := guarded.below
  obtain ⟨_,_,_,_,_,_,_,_,_,_,_,acked⟩ := s.onAck_eq ack window now
  rw [acked] at sent paced clocked ⊢
  exact ⟨⟨w,sent⟩,paced,clocked,room,valid,below⟩

theorem Guarded.transmit (guarded : s.Guarded now) (live : s.reset = false) : (s.transmit (now + 1)).1.Guarded (now + 1) := by
  obtain ⟨w,sending⟩ := guarded.sending
  obtain ⟨sent,paced,kept,_⟩ := transmit_spec sending guarded.paced live (now + 1)
  exact ⟨⟨w,sent⟩,paced,transmit_clocked guarded.clocked sending guarded.paced live,kept.next ▸ guarded.room,
    kept.recv ▸ guarded.valid,kept.recv ▸ guarded.below⟩

theorem Guarded.flag (guarded : s.Guarded now) (sendFin closeReceived reset : Bool) (closeStatus : Option Int) :
    Guarded now { s with sendFin, closeReceived, reset, closeStatus } :=
  guarded.received guarded.valid guarded.below s.peerFin sendFin closeReceived reset closeStatus

/-- The send buffer spans from the base to the end of what was written, and the received
segments are nonempty, apart, and not yet delivered. -/
structure Intact (s : StreamState) : Prop where
  balance : s.sendBase + s.sendBuf.length = s.sendNext
  low : s.sendBase ≤ s.sendHigh
  high : s.sendHigh ≤ s.sendNext
  recv : s.recv.Valid

theorem Guarded.intact (guarded : s.Guarded now) : s.Intact := by
  obtain ⟨w,sending⟩ := guarded.sending
  refine ⟨?_,sending.low,sending.high,guarded.valid⟩
  have le := Nat.le_trans sending.low sending.high
  rw [sending.buf,List.length_drop,← sending.next]
  omega

end StreamState

namespace StreamMux

/-- A call, `none` where it panics. -/
def callChecked (m : StreamMux) : Call → Option StreamMux
  | .openStream kind metadata => (m.openChecked kind metadata).map Prod.fst
  | .write id data => m.modifyChecked id (fun s => s.writeChecked data)
  | .close id status => some (m.close id status)
  | .reset id => some (m.reset id)
  | .read id => (m.readChecked id).map Prod.snd
  | .takeEvents => some m.takeEvents.2
  | .pollTransmit => m.pollTransmitChecked.map Prod.fst
  | .onFrame frame => m.onFrameChecked frame

/-- The local 64-bit counters have room for the call: ids for an open, ticks for a poll, stream
offsets for a write, of which those beyond the last byte by a window are computed as well. -/
def Roomy (m : StreamMux) : Call → Prop
  | .openStream _ _ => m.nextLocalId + m.idStep ≤ u64Max
  | .write id data => ∀ s, m.streams[id]? = some s → s.sendNext + data.length + defaultWindow ≤ u64Max
  | .pollTransmit => m.now < u64Max
  | _ => True

structure Secure (m : StreamMux) : Prop where
  streams : ∀ (k : Nat) (s : StreamState), m.streams[k]? = some s → s.Guarded m.now
  own : ∀ (k : Nat) (s : StreamState), m.streams[k]? = some s → k % 2 = m.localParity → k < m.nextLocalId
  parity : m.nextLocalId % 2 = m.localParity
  step : m.idStep = 2

variable {m : StreamMux} {c : Call} {k : Nat} {s t : StreamState}

theorem new_secure (isClient : Bool) : (new isClient).Secure := by
  have empty : ∀ k : Nat, (new isClient).streams[k]? = none := fun k => by simp [new]
  refine ⟨fun k s held => ?_,fun k s held => ?_,?_,rfl⟩
  · rw [empty k] at held
    cases held
  · rw [empty k] at held
    cases held
  · cases isClient <;> rfl

/-- One call on a guarded stream. -/
theorem Moves.guarded (moves : Moves m.now k s c t) (held : m.streams[k]? = some s)
    (guarded : s.Guarded m.now) (roomy : m.Roomy c) : t.Guarded (m.call c).now := by
  obtain ⟨streams,events,rest⟩ := m.call_rest c
  rw [rest]
  cases moves with
  | rests still =>
    cases c with
    | pollTransmit => exact absurd rfl still
    | _ => exact guarded
  | write data => exact guarded.write (roomy s held)
  | close status => exact guarded.flag true s.closeReceived s.reset (some status)
  | reset => exact guarded.flag s.sendFin s.closeReceived true s.closeStatus
  | read => exact guarded.read
  | data offset data fin => exact guarded.onData offset data fin
  | ack ack window => exact guarded.onAck ack window
  | closed status => exact guarded.flag s.sendFin true s.reset s.closeStatus
  | aborted => exact guarded.flag s.sendFin s.closeReceived true s.closeStatus
  | poll live => exact guarded.transmit live

theorem call_secure (secure : m.Secure) (roomy : m.Roomy c) : (m.call c).Secure := by
  have two := secure.step
  have parity := secure.parity
  refine ⟨fun k t held => ?_,fun k t held mine => ?_,?_,?_⟩
  · cases call_comes held with
    | opened kind metadata next => exact StreamState.new_guarded _ k kind metadata true
    | accepted kind metadata vacant foreign => exact StreamState.new_guarded _ k kind metadata false
    | held s before moves => exact moves.guarded before (secure.streams k s before) roomy
  all_goals obtain ⟨streams,events,rest⟩ := m.call_rest c
  · have comes := call_comes held
    rw [rest] at mine ⊢
    dsimp only at mine ⊢
    cases comes with
    | opened kind metadata next => dsimp only; omega
    | accepted kind metadata vacant foreign => exact absurd mine foreign
    | held s before moves =>
      have lower := secure.own k s before mine
      split <;> omega
  · rw [rest]
    dsimp only
    split <;> omega
  · rw [rest]
    exact two

theorem modifyChecked_eq {id : Nat} {f : StreamState → Option StreamState} {g : StreamState → StreamState}
    (returns : ∀ s, m.streams[id]? = some s → f s = some (g s)) : m.modifyChecked id f = some (m.modifyStream id g) := by
  unfold modifyChecked modifyStream
  cases held : m.streams[id]? with
  | none => rfl
  | some s =>
    simp only [returns s held]
    rfl

theorem readChecked_eq (secure : m.Secure) (id : Nat) : m.readChecked id = some (m.read id) := by
  unfold readChecked read
  cases held : m.streams[id]? with
  | none => rfl
  | some s =>
    have guarded := secure.streams id s held
    simp only [Reassembler.readChecked_eq guarded.valid guarded.below]
    rfl

theorem onDataChecked_eq (secure : m.Secure) (id offset : Nat) (data : Bytes) (fin : Bool) :
    m.onDataChecked id offset data fin = some (m.onData id offset data fin) := by
  unfold onDataChecked onData
  cases held : m.streams[id]? with
  | none => rfl
  | some s =>
    have guarded := secure.streams id s held
    simp only [StreamState.onDataChecked_eq guarded.valid guarded.below]
    rfl

theorem onFrameChecked_eq (secure : m.Secure) (frame : Frame) : m.onFrameChecked frame = some (m.onFrame frame) := by
  cases frame with
  | streamData id offset data fin => exact onDataChecked_eq secure id offset data fin
  | streamAck id ack window =>
    refine modifyChecked_eq fun s held => ?_
    have guarded := secure.streams id s held
    obtain ⟨w,sending⟩ := guarded.sending
    exact StreamState.onAckChecked_eq guarded.clocked sending (Nat.le_trans (Nat.le_add_right _ _) guarded.room) ack window
  | _ => rfl

theorem pollStreamChecked_eq (secure : m.Secure) (held : m.streams[k]? = some s) :
    pollStreamChecked (m.now + 1) k s = some (pollStream (m.now + 1) k s) := by
  have guarded := secure.streams k s held
  obtain ⟨w,sending⟩ := guarded.sending
  unfold pollStreamChecked pollStream
  split
  · rfl
  · rename_i live
    have after := guarded.transmit (Bool.not_eq_true _ ▸ live)
    simp only [StreamState.transmitChecked_eq sending guarded.paced guarded.room guarded.valid guarded.below,
      Option.bind_eq_bind,Option.bind_some,StreamState.fullyDoneChecked_eq after.valid after.below]
    rfl

theorem pollTransmitChecked_eq (secure : m.Secure) (roomy : m.now < u64Max) : m.pollTransmitChecked = some m.pollTransmit := by
  have held : ∀ p ∈ m.streams.toList, m.streams[p.1]? = some p.2 := fun p member =>
    Std.TreeMap.mem_toList_iff_getElem?_eq_some.mp member
  have polled : m.streams.toList.mapM (fun p => pollStreamChecked (m.now + 1) p.1 p.2) =
      some (m.streams.toList.map fun p => pollStream (m.now + 1) p.1 p.2) :=
    mapM_some fun p member => pollStreamChecked_eq secure (held p member)
  have word : m.now + 1 < 2^64 := Nat.lt_of_le_of_lt roomy StreamState.u64Max_lt
  unfold pollTransmitChecked pollTransmit
  simp only [add_some word,polled,Option.bind_eq_bind,Option.bind_some,List.flatMap_map]
  rfl

theorem callChecked_eq (secure : m.Secure) (roomy : m.Roomy c) : m.callChecked c = some (m.call c) := by
  cases c with
  | openStream kind metadata =>
    have fits : m.nextLocalId + m.idStep < 2^64 := Nat.lt_of_le_of_lt roomy StreamState.u64Max_lt
    simp only [callChecked,openChecked,add_some fits]
    rfl
  | write id data =>
    refine modifyChecked_eq fun s held => StreamState.writeChecked_eq ?_
    exact Nat.le_trans (Nat.le_add_right _ _) (roomy s held)
  | read id =>
    rw [callChecked,readChecked_eq secure]
    rfl
  | pollTransmit =>
    rw [callChecked,pollTransmitChecked_eq secure roomy]
    rfl
  | onFrame frame => exact onFrameChecked_eq secure frame
  | close id status => rfl
  | reset id => rfl
  | takeEvents => rfl

/-- A run of calls with room returns. -/
theorem run_checked (secure : m.Secure) (calls : List Call) (roomy : Machine.Along call Roomy calls m) :
    calls.foldlM callChecked m = some (Machine.run call calls m) := by
  induction calls generalizing m with
  | nil => rfl
  | cons c rest ih =>
    rw [List.foldlM_cons,callChecked_eq secure roomy.1]
    exact ih (call_secure secure roomy.1) roomy.2

theorem Moves.peerFin {now offset : Nat} (moves : Moves now k s c t) (finished : s.peerFin = .finished offset)
    (guarded : s.Guarded now) : t.peerFin = .finished offset := by
  cases moves with
  | data o d fin =>
    rw [StreamState.onData_eq]
    dsimp only
    rw [if_neg (by simp [finished]),finished]
  | ack ack window =>
    obtain ⟨_,_,_,_,_,_,_,_,_,_,_,acked⟩ := s.onAck_eq ack window now
    rw [acked]
    exact finished
  | poll live =>
    obtain ⟨w,sending⟩ := guarded.sending
    obtain ⟨_,_,kept,_⟩ := StreamState.transmit_spec sending guarded.paced live (now + 1)
    exact kept.peerFin.trans finished
  | _ => exact finished

theorem call_peerFin (secure : m.Secure) {offset : Nat} (held : m.streams[k]? = some s) (finished : s.peerFin = .finished offset)
    (after : (m.call c).streams[k]? = some t) : t.peerFin = .finished offset := by
  cases call_comes after with
  | opened kind metadata next =>
    have mine := secure.own k s held (next ▸ secure.parity)
    omega
  | accepted kind metadata vacant foreign =>
    rw [held] at vacant
    cases vacant
  | held s' before moves =>
    rw [held] at before
    cases before
    exact moves.peerFin finished (secure.streams k s held)

/-- The stream is still held after the call. -/
def Keeps (k : Nat) (m : StreamMux) (c : Call) : Prop := ((m.call c).streams[k]?).isSome = true

/-- While a stream is held, the offset of the peer's FIN stays what it was first said to be. -/
theorem run_peerFin (secure : m.Secure) {offset : Nat} {calls : List Call} (roomy : Machine.Along call Roomy calls m)
    (kept : Machine.Along call (Keeps k) calls m) (held : m.streams[k]? = some s) (finished : s.peerFin = .finished offset) :
    ∃ t, (Machine.run call calls m).streams[k]? = some t ∧ t.peerFin = .finished offset := by
  induction calls generalizing m s with
  | nil => exact ⟨s,held,finished⟩
  | cons c rest ih =>
    obtain ⟨t,after⟩ := Option.isSome_iff_exists.mp kept.1
    exact ih (call_secure secure roomy.1) roomy.2 kept.2 after (call_peerFin secure held finished after)

/-- A frame creates no stream of the local parity. -/
theorem onFrame_foreign {frame : Frame} (mine : k % 2 = m.localParity) (vacant : m.streams[k]? = none) :
    (m.onFrame frame).streams[k]? = none := by
  cases after : (m.onFrame frame).streams[k]? with
  | none => rfl
  | some t =>
    cases onFrame_comes after with
    | accepted kind metadata vacant foreign => exact absurd mine foreign
    | held s before moves =>
      rw [vacant] at before
      cases before

theorem run_parity (calls : List Call) : (Machine.run call calls m).localParity = m.localParity := by
  refine Machine.run_invariant_always (fun n => n.localParity = m.localParity) (fun n c same => ?_) calls m rfl
  obtain ⟨streams,events,rest⟩ := n.call_rest c
  rw [rest]
  exact same

/-- In every run of calls with arbitrary frames between them, as long as the application's own
counters have room: no call panics, every stream is intact, the FIN of a stream stays where it
was while the stream is held, and no frame creates a stream under an id that an open returns. -/
theorem hostile_peer_contained (isClient : Bool) (earlier later : List Call)
    (roomy : Machine.Along call Roomy (earlier ++ later) (new isClient)) :
    ∃ m n, earlier.foldlM callChecked (new isClient) = some m ∧ later.foldlM callChecked m = some n ∧
      (∀ (k : Nat) (s : StreamState), n.streams[k]? = some s → s.Intact) ∧
      (∀ (k offset : Nat) (s : StreamState), m.streams[k]? = some s → s.peerFin = .finished offset →
        Machine.Along call (Keeps k) later m → ∃ t, n.streams[k]? = some t ∧ t.peerFin = .finished offset) ∧
      (∀ kind metadata, (n.openStream kind metadata).2 % 2 = if isClient then 0 else 1) ∧
      ∀ (frame : Frame) (k : Nat), k % 2 = (if isClient then 0 else 1) → n.streams[k]? = none →
        (n.onFrame frame).streams[k]? = none := by
  obtain ⟨first,second⟩ := (Machine.along_append earlier later (new isClient)).mp roomy
  have start := new_secure isClient
  have secure := Machine.run_invariant Secure (fun _ _ => call_secure) earlier _ start first
  have secure' := Machine.run_invariant Secure (fun _ _ => call_secure) later _ secure second
  have parity : (Machine.run call later (Machine.run call earlier (new isClient))).localParity = if isClient then 0 else 1 :=
    (run_parity later).trans (run_parity earlier)
  refine ⟨_,_,run_checked start earlier first,run_checked secure later second,?_,?_,?_,?_⟩
  · exact fun k s held => (secure'.streams k s held).intact
  · exact fun k offset s held finished kept => run_peerFin secure second kept held finished
  · exact fun kind metadata => secure'.parity.trans parity
  · exact fun frame k mine vacant => onFrame_foreign (mine.trans parity.symm) vacant

/-- A frame for data never sent, an ack beyond the end and an open with a local id, between the
calls of a client. -/
theorem hostile_peer_contained_forged : ∃ m n,
    [Call.openStream .forward [],.write 0 [1,2,3],.pollTransmit].foldlM callChecked (new true) = some m ∧
    [Call.onFrame (.streamAck 0 99 0),.onFrame (.streamOpen 2 .forward []),.onFrame (.streamData 0 5 [7] true)].foldlM
      callChecked m = some n ∧
    (∀ (k : Nat) (s : StreamState), n.streams[k]? = some s → s.Intact) := by
  obtain ⟨m,n,first,second,intact,_⟩ := hostile_peer_contained true [.openStream .forward [],.write 0 [1,2,3],.pollTransmit]
    [.onFrame (.streamAck 0 99 0),.onFrame (.streamOpen 2 .forward []),.onFrame (.streamData 0 5 [7] true)]
    ⟨show 0 + 2 ≤ u64Max by decide,fun s held => by
      rw [call,getElem?_openStream,if_pos (show 0 = (new true).nextLocalId from rfl)] at held
      cases held
      show 0 + 3 + defaultWindow ≤ u64Max
      decide,show 0 < u64Max by decide,trivial,trivial,trivial,trivial⟩
  exact ⟨m,n,first,second,intact⟩

theorem polls_checked (n : Nat) (fits : n ≤ u64Max) :
    (List.replicate n Call.pollTransmit).foldlM callChecked (new true) = some { new true with now := n } := by
  induction n with
  | zero => rfl
  | succ n ih =>
    have word : n + 1 < 2^64 := Nat.lt_of_le_of_lt fits StreamState.u64Max_lt
    rw [List.replicate_succ',List.foldlM_append,ih (by omega)]
    simp only [List.foldlM_cons,List.foldlM_nil,callChecked,pollTransmitChecked,Option.bind_eq_bind,
      Option.bind_some,add_some word]
    rfl

theorem opens_checked (n : Nat) (fits : 2 * n ≤ u64Max) :
    ∃ streams, (List.replicate n (Call.openStream .forward [])).foldlM callChecked (new true) =
      some { new true with nextLocalId := 2 * n, streams } := by
  induction n with
  | zero => exact ⟨{},rfl⟩
  | succ n ih =>
    obtain ⟨streams,before⟩ := ih (by omega)
    have word : 2 * n + 2 < 2^64 := Nat.lt_of_le_of_lt fits StreamState.u64Max_lt
    refine ⟨streams.insert (2 * n) (StreamState.new (2 * n) .forward [] true),?_⟩
    rw [List.replicate_succ',List.foldlM_append,before]
    simp only [List.foldlM_cons,List.foldlM_nil,callChecked,openChecked,new,Option.bind_eq_bind,Option.bind_some,add_some word]
    rfl

theorem write_checked {n : Nat} {data : Bytes} (held : ∃ s, m.streams[k]? = some s ∧ s.sendNext = n)
    (fits : n + data.length < 2^64) :
    ∃ m', m.callChecked (.write k data) = some m' ∧ ∃ s, m'.streams[k]? = some s ∧ s.sendNext = n + data.length := by
  obtain ⟨s,here,rfl⟩ := held
  refine ⟨{ m with streams := m.streams.insert k (s.write data) },?_,s.write data,Std.TreeMap.getElem?_insert_self,rfl⟩
  simp only [callChecked,modifyChecked,here,StreamState.writeChecked,add_some fits]
  rfl

theorem write_panics {n : Nat} {data : Bytes} (held : ∃ s, m.streams[k]? = some s ∧ s.sendNext = n)
    (full : 2^64 ≤ n + data.length) : m.callChecked (.write k data) = none := by
  obtain ⟨s,here,rfl⟩ := held
  have none_ : add 64 s.sendNext data.length = none := if_neg (Nat.not_lt.mpr full)
  simp only [callChecked,modifyChecked,here,StreamState.writeChecked,none_]
  rfl

/-- A stream written nearly 2^64 bytes. -/
theorem writes_overflow (n : Nat) (half : n < 2^63) (full : 2^64 ≤ 2 * n + 2) :
    ([Call.openStream .forward [],.write 0 (List.replicate n 0),.write 0 (List.replicate n 0),.write 0 [0,0]].foldlM
      callChecked (new true)) = none := by
  have length : (List.replicate n (0 : UInt8)).length = n := List.length_replicate
  have start : ∃ m, (new true).callChecked (.openStream .forward []) = some m ∧ ∃ s, m.streams[0]? = some s ∧ s.sendNext = 0 :=
    ⟨_,rfl,_,Std.TreeMap.getElem?_insert_self,rfl⟩
  obtain ⟨m,opened,held⟩ := start
  obtain ⟨m',once,held'⟩ := @write_checked _ _ _ (List.replicate n 0) held (by omega)
  obtain ⟨m'',twice,held''⟩ := @write_checked _ _ _ (List.replicate n 0) held' (by omega)
  have panics : m''.callChecked (.write 0 [0,0]) = none := write_panics held'' (by rw [length]; show 2^64 ≤ 0 + n + n + 2; omega)
  simp only [List.foldlM_cons,opened,once,twice,panics,Option.bind_eq_bind,Option.bind_some]
  rfl

/-- The tick counter after 2^64 - 1 polls, the id counter after 2^63 - 1 opens and the offsets of
a stream after nearly 2^64 bytes are at their ends, and the next call overflows them. -/
theorem counters_overflow :
    (¬∃ m, (List.replicate (2^64) Call.pollTransmit).foldlM callChecked (new true) = some m) ∧
    (¬∃ m, (List.replicate (2^63) (Call.openStream .forward [])).foldlM callChecked (new true) = some m) ∧
    ¬∃ m, [Call.openStream .forward [],.write 0 (List.replicate (2^63 - 1) 0),
      .write 0 (List.replicate (2^63 - 1) 0),.write 0 [0,0]].foldlM
      callChecked (new true) = some m := by
  refine ⟨?_,?_,?_⟩
  · rintro ⟨m,returned⟩
    rw [show 2^64 = u64Max + 1 from rfl,List.replicate_succ',List.foldlM_append,polls_checked u64Max (Nat.le_refl _)] at returned
    have full : add 64 u64Max 1 = none := by decide
    simp only [List.foldlM_cons,callChecked,pollTransmitChecked,Option.bind_eq_bind,Option.bind_some,full] at returned
    cases returned
  · rintro ⟨m,returned⟩
    obtain ⟨streams,before⟩ := opens_checked (2^63 - 1) (by decide)
    rw [show 2^63 = 2^63 - 1 + 1 from rfl,List.replicate_succ',List.foldlM_append,before] at returned
    have full : add 64 (2 * (2^63 - 1)) 2 = none := by decide
    simp only [List.foldlM_cons,callChecked,openChecked,new,Option.bind_eq_bind,Option.bind_some,full] at returned
    cases returned
  · rintro ⟨m,returned⟩
    rw [writes_overflow (2^63 - 1) (by decide) (by decide)] at returned
    cases returned

end StreamMux
namespace Link

open StreamMux

/-- The calls that an action makes at one end. -/
def calls (x : Side) (l : Link) : Action → List Call
  | .openStream y kind metadata => if y = x then [.openStream kind metadata] else []
  | .write y id data =>
    if y = x ∧ (l.stream x id).any (fun s => s.sendNext + data.length ≤ u64Max) then [.write id data] else []
  | .read y id => if y = x then [.read id] else []
  | .close y id status => if y = x ∧ (l.stream x id).isSome then [.close id status] else []
  | .reset y id => if y = x then [.reset id] else []
  | .takeEvents y => if y = x then [.takeEvents] else []
  | .poll y => if y = x then [.pollTransmit] else []
  | .deliver y n => if y.other = x then ((l.flight y)[n]?).toList.map .onFrame else []
  | .lose _ _ => []

theorem setMux_apply (l : Link) (x y : Side) (m : StreamMux) : (l.setMux y m).mux x = if y = x then m else l.mux x := by
  unfold setMux
  by_cases same : y = x
  · subst same
    simp
  · rw [if_neg same]
    exact Function.update_of_ne (Ne.symm same) ..

theorem step_calls (l : Link) (x : Side) (a : Action) :
    (l.step a).mux x = Machine.run StreamMux.call (l.calls x a) (l.mux x) := by
  change (l.act a).mux x = _
  have one : ∀ (y : Side) (c : Call), (l.setMux y ((l.mux y).call c)).mux x =
      Machine.run StreamMux.call (if y = x then [c] else []) (l.mux x) := by
    intro y c
    rw [setMux_apply]
    split
    · rename_i same
      rw [same]
      rfl
    · rfl
  cases a with
  | openStream y kind metadata => exact one y (.openStream kind metadata)
  | read y id => exact one y (.read id)
  | reset y id => exact one y (.reset id)
  | takeEvents y => exact one y .takeEvents
  | poll y => exact one y .pollTransmit
  | lose y n => rfl
  | write y id data =>
    simp only [act,calls]
    cases held : l.stream y id with
    | none =>
      rw [if_neg]
      · rfl
      · rintro ⟨rfl,fits⟩
        rw [held] at fits
        cases fits
    | some s =>
      dsimp only
      split <;> rename_i fits
      · have applied := one y (.write id data)
        by_cases same : y = x
        · subst same
          rw [if_pos rfl] at applied
          rw [if_pos ⟨rfl,by rw [held,Option.any_some,decide_eq_true fits]⟩]
          exact applied
        · rw [if_neg same] at applied
          rw [if_neg (same ·.1)]
          exact applied
      · rw [if_neg]
        · rfl
        · rintro ⟨rfl,fits'⟩
          rw [held,Option.any_some,decide_eq_true_eq] at fits'
          exact fits fits'
  | close y id status =>
    simp only [act,calls]
    cases held : l.stream y id with
    | none =>
      rw [if_neg]
      · rfl
      · rintro ⟨rfl,there⟩
        rw [held] at there
        cases there
    | some s =>
      have applied := one y (.close id status)
      by_cases same : y = x
      · subst same
        rw [if_pos rfl] at applied
        rw [if_pos ⟨rfl,by rw [held]; rfl⟩]
        exact applied
      · rw [if_neg same] at applied
        rw [if_neg (same ·.1)]
        exact applied
  | deliver y n =>
    simp only [act,calls]
    cases (l.flight y)[n]? with
    | none =>
      rw [Option.toList_none,List.map_nil,ite_self]
      rfl
    | some frame => exact one y.other (.onFrame frame)

/-- The counters of `StreamMux` are numbers without a bound. While they have room, a link's ends
run as the words of the source do. -/
theorem run_checked (x : Side) (schedule : List Action)
    (roomy : Machine.Along step (fun l a => Machine.Along StreamMux.call Roomy (l.calls x a) (l.mux x)) schedule start) :
    (Machine.observed step (calls x) schedule start).foldlM callChecked (new x.isClient) =
      some ((Machine.run step schedule start).mux x) := by
  have secure : (start.mux x).Secure := new_secure x.isClient
  change (Machine.observed step (calls x) schedule start).foldlM callChecked (start.mux x) = _
  generalize start = l at roomy secure ⊢
  induction schedule generalizing l with
  | nil => rfl
  | cons a rest ih =>
    have next := l.step_calls x a
    have after : ((l.step a).mux x).Secure := next ▸ Machine.run_invariant Secure (fun _ _ => call_secure) _ _ secure roomy.1
    rw [Machine.observed_cons,List.foldlM_append,StreamMux.run_checked secure _ roomy.1,← next]
    exact ih _ roomy.2 after

end Link
end Noissh

import Noissh.Machine
import Noissh.StreamMux

/-! A stream multiplexer between an application that calls it as it likes and a peer whose
frames are arbitrary: runs of its calls, and all that one call can do to a stream. -/
namespace Noissh
namespace StreamMux

inductive Call where
  | openStream (kind : StreamKind) (metadata : Bytes)
  | write (id : Nat) (data : Bytes)
  | close (id : Nat) (status : Int)
  | reset (id : Nat)
  | read (id : Nat)
  | takeEvents
  | pollTransmit
  | onFrame (frame : Frame)
  deriving DecidableEq, Repr

def call (m : StreamMux) : Call → StreamMux
  | .openStream kind metadata => (m.openStream kind metadata).1
  | .write id data => m.write id data
  | .close id status => m.close id status
  | .reset id => m.reset id
  | .read id => (m.read id).2
  | .takeEvents => m.takeEvents.2
  | .pollTransmit => m.pollTransmit.1
  | .onFrame frame => m.onFrame frame

/-- What a call can make of a stream that it finds and leaves held. -/
inductive Moves (now k : Nat) (s : StreamState) : Call → StreamState → Prop where
  | rests {c : Call} (still : c ≠ .pollTransmit) : Moves now k s c s
  | write (data : Bytes) : Moves now k s (.write k data) (s.write data)
  | close (status : Int) : Moves now k s (.close k status) { s with sendFin := true, closeStatus := some status }
  | reset : Moves now k s (.reset k) { s with reset := true }
  | read : Moves now k s (.read k) { s with recv := s.recv.read.2 }
  | data (offset : Nat) (data : Bytes) (fin : Bool) :
    Moves now k s (.onFrame (.streamData k offset data fin)) (s.onData offset data fin).1
  | ack (ack window : Nat) : Moves now k s (.onFrame (.streamAck k ack window)) (s.onAck ack window now)
  | closed (status : Int) : Moves now k s (.onFrame (.streamClose k status)) { s with closeReceived := true }
  | aborted : Moves now k s (.onFrame (.streamReset k)) { s with reset := true }
  | poll (live : s.reset = false) : Moves now k s .pollTransmit (s.transmit (now + 1)).1

/-- Where a stream held after a call comes from. -/
inductive Comes (m : StreamMux) (k : Nat) : Call → StreamState → Prop where
  | opened (kind : StreamKind) (metadata : Bytes) (next : k = m.nextLocalId) :
    Comes m k (.openStream kind metadata) (StreamState.new k kind metadata true)
  | accepted (kind : StreamKind) (metadata : Bytes) (vacant : m.streams[k]? = none) (foreign : k % 2 ≠ m.localParity) :
    Comes m k (.onFrame (.streamOpen k kind metadata)) (StreamState.new k kind metadata false)
  | held {c : Call} (s : StreamState) {t : StreamState} (before : m.streams[k]? = some s)
      (moves : Moves m.now k s c t) : Comes m k c t

variable {m : StreamMux} {c : Call} {k : Nat} {t : StreamState}

/-- An update in place of one stream. -/
theorem comes_modified {id : Nat} {f : StreamState → StreamState} (still : c ≠ .pollTransmit)
    (moves : k = id → ∀ s, Moves m.now k s c (f s))
    (held : (if k = id then m.streams[id]?.map f else m.streams[k]?) = some t) : Comes m k c t := by
  split at held
  · rename_i same
    obtain ⟨s,before,rfl⟩ := Option.map_eq_some_iff.mp held
    exact .held s (same ▸ before) (moves same s)
  · exact .held t held (.rests still)

theorem onFrame_comes {frame : Frame} (held : (m.onFrame frame).streams[k]? = some t) : Comes m k (.onFrame frame) t := by
  by_cases mine : frame.streamId = some k
  · cases frame <;> simp only [Frame.streamId,Option.some.injEq,reduceCtorEq] at mine
    case streamOpen id kind metadata =>
      subst mine
      rw [onFrame,getElem?_onOpen] at held
      split at held
      · rename_i fresh
        cases held
        exact .accepted kind metadata fresh.2.1 fresh.2.2.1
      · exact .held t held (.rests (by simp))
    case streamData id offset data fin =>
      subst mine
      rw [onFrame,getElem?_onData] at held
      exact comes_modified (by simp) (fun _ s => .data offset data fin) held
    case streamAck id ack window =>
      subst mine
      rw [onFrame,getElem?_modifyStream] at held
      exact comes_modified (by simp) (fun _ s => .ack ack window) held
    case streamClose id status =>
      subst mine
      rw [onFrame,getElem?_onClose] at held
      exact comes_modified (by simp) (fun _ s => .closed status) held
    case streamReset id =>
      subst mine
      rw [onFrame,getElem?_onReset] at held
      exact comes_modified (by simp) (fun _ s => .aborted) held
  · rw [getElem?_onFrame_other m frame k mine] at held
    exact .held t held (.rests (by simp))

theorem pollStream_some {now : Nat} {s : StreamState} (kept : (pollStream now k s).1 = some t) :
    s.reset = false ∧ t = (s.transmit now).1 := by
  unfold pollStream at kept
  split at kept
  · cases kept
  · rename_i live
    refine ⟨Bool.not_eq_true _ ▸ live,?_⟩
    dsimp only at kept
    split at kept
    · cases kept
    · cases kept
      rfl

theorem call_comes (held : (m.call c).streams[k]? = some t) : Comes m k c t := by
  cases c with
  | openStream kind metadata =>
    rw [call,getElem?_openStream] at held
    split at held
    · rename_i next
      cases held
      exact .opened kind metadata next
    · exact .held t held (.rests (by simp))
  | write id data =>
    rw [call,write,getElem?_modifyStream] at held
    exact comes_modified (by simp) (fun same s => same ▸ .write data) held
  | close id status =>
    rw [call,close,getElem?_modifyStream] at held
    exact comes_modified (by simp) (fun same s => same ▸ .close status) held
  | reset id =>
    rw [call,reset,getElem?_modifyStream] at held
    exact comes_modified (by simp) (fun same s => same ▸ .reset) held
  | read id =>
    rw [call,getElem?_read] at held
    exact comes_modified (by simp) (fun same s => same ▸ .read) held
  | takeEvents => exact .held t held (.rests (by simp))
  | pollTransmit =>
    rw [call,getElem?_pollTransmit,Option.bind_eq_some_iff] at held
    obtain ⟨s,before,kept⟩ := held
    obtain ⟨live,rfl⟩ := pollStream_some kept
    exact .held s before (.poll live)
  | onFrame frame => exact onFrame_comes held

theorem modifyStream_rest (m : StreamMux) (id : Nat) (f : StreamState → StreamState) :
    ∃ streams, m.modifyStream id f = { m with streams } := by
  unfold modifyStream
  split
  · exact ⟨_,rfl⟩
  · exact ⟨m.streams,rfl⟩

/-- A frame moves neither the clock nor the local ids. -/
theorem onFrame_rest (m : StreamMux) (frame : Frame) : ∃ streams events, m.onFrame frame = { m with streams, events } := by
  cases frame <;> simp only [onFrame]
  case streamOpen id kind metadata =>
    unfold onOpen
    split
    · exact ⟨_,_,rfl⟩
    · split <;> exact ⟨_,_,rfl⟩
  case streamData id offset data fin =>
    unfold onData
    split
    · dsimp only
      split <;> exact ⟨_,_,rfl⟩
    · exact ⟨_,_,rfl⟩
  case streamAck id ack window =>
    obtain ⟨streams,modified⟩ := m.modifyStream_rest id (fun s => s.onAck ack window m.now)
    exact ⟨streams,m.events,modified⟩
  case streamClose id status =>
    unfold onClose
    split
    · split <;> exact ⟨_,_,rfl⟩
    · exact ⟨_,_,rfl⟩
  case streamReset id =>
    unfold onReset
    split <;> exact ⟨_,_,rfl⟩
  all_goals exact ⟨m.streams,m.events,rfl⟩

/-- Of the rest, an open takes the next local id and a poll advances the clock. -/
theorem call_rest (m : StreamMux) (c : Call) : ∃ streams events, m.call c = { m with
    streams
    events
    nextLocalId := match c with | .openStream .. => m.nextLocalId + m.idStep | _ => m.nextLocalId
    now := match c with | .pollTransmit => m.now + 1 | _ => m.now } := by
  cases c with
  | openStream kind metadata => exact ⟨_,_,rfl⟩
  | write id data =>
    obtain ⟨streams,modified⟩ := m.modifyStream_rest id (fun s => s.write data)
    exact ⟨streams,m.events,modified⟩
  | close id status =>
    obtain ⟨streams,modified⟩ := m.modifyStream_rest id (fun s => { s with sendFin := true, closeStatus := some status })
    exact ⟨streams,m.events,modified⟩
  | reset id =>
    obtain ⟨streams,modified⟩ := m.modifyStream_rest id (fun s => { s with reset := true })
    exact ⟨streams,m.events,modified⟩
  | read id =>
    simp only [call,read]
    split <;> exact ⟨_,_,rfl⟩
  | takeEvents => exact ⟨_,_,rfl⟩
  | pollTransmit => exact ⟨_,_,rfl⟩
  | onFrame frame => exact onFrame_rest m frame

end StreamMux
end Noissh

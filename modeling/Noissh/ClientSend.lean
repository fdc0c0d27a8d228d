import Noissh.ClientSafety
import Noissh.StreamStateSpec
import Noissh.WireSpec

/-! What a client's `tick` sends. Everything due is taken out of the queues and sealed in one
go, so that one frame too long to seal loses all of it. -/
namespace Noissh

namespace StreamMux

/-- A poll sends the announcements that are owed, and otherwise frames with little data. -/
theorem pollTransmit_payload (m : StreamMux) {frame : Frame} (member : frame ∈ m.pollTransmit.2) :
    (∃ (id : Nat) (s : StreamState), m.streams[id]? = some s ∧ s.reset = false ∧ s.needsOpen = true ∧
      frame = .streamOpen s.id s.kind s.metadata) ∨ frame.payload.length ≤ maxStreamChunk := by
  obtain ⟨⟨id,s⟩,held,emitted⟩ := List.mem_flatMap.mp member
  have held := Std.TreeMap.mem_toList_iff_getElem?_eq_some.mp held
  unfold pollStream at emitted
  split at emitted
  · obtain rfl := List.mem_singleton.mp emitted
    exact .inr (Nat.zero_le _)
  rename_i live
  have live := Bool.eq_false_iff.mpr live
  dsimp only at emitted
  rw [s.transmit_eq _ live] at emitted
  simp only [List.mem_append,List.mem_singleton] at emitted
  rcases emitted with ((opening | data) | rfl) | close
  · unfold StreamState.transmitOpen at opening
    split at opening
    · rename_i owed
      exact .inl ⟨id,s,held,live,owed,List.mem_singleton.mp opening⟩
    · exact absurd opening List.not_mem_nil
  · obtain ⟨off,d,fin,rfl,small⟩ := StreamState.transmitData_data _ _ data
    exact .inr small
  · exact .inr (Nat.zero_le _)
  · unfold StreamState.transmitClose at close
    split at close
    · split at close
      · exact absurd close List.not_mem_nil
      · obtain rfl := List.mem_singleton.mp close
        exact .inr (Nat.zero_le _)
    · exact absurd close List.not_mem_nil

/-- The announcement of a stream is sent by the next poll. -/
theorem pollTransmit_opening (m : StreamMux) {id : Nat} {s : StreamState} (held : m.streams[id]? = some s)
    (live : s.reset = false) (owed : s.needsOpen = true) :
    .streamOpen s.id s.kind s.metadata ∈ m.pollTransmit.2 := by
  refine List.mem_flatMap.mpr ⟨(id,s),Std.TreeMap.mem_toList_iff_getElem?_eq_some.mpr held,?_⟩
  unfold pollStream
  rw [if_neg (by rw [live]; exact Bool.false_ne_true)]
  dsimp only
  rw [s.transmit_eq _ live,StreamState.transmitOpen,if_pos owed]
  simp

/-- Every stream sends something. -/
theorem pollTransmit_eq_nil_iff (m : StreamMux) : m.pollTransmit.2 = [] ↔ m.hasTraffic = false := by
  have emits : ∀ now id (s : StreamState), (pollStream now id s).2 ≠ [] := by
    intro now id s
    unfold pollStream
    split
    · exact List.cons_ne_nil _ _
    · rename_i live
      dsimp only
      rw [s.transmit_eq _ (Bool.eq_false_iff.mpr live)]
      simp
  have none : m.pollTransmit.2 = [] ↔ m.streams.toList = [] := by
    change m.streams.toList.flatMap _ = [] ↔ _
    rw [List.flatMap_eq_nil_iff]
    constructor
    · intro all
      refine List.eq_nil_iff_forall_not_mem.mpr (fun p member => emits _ _ _ (all p member))
    · intro empty p member
      rw [empty] at member
      exact absurd member List.not_mem_nil
  rw [none,hasTraffic,← Std.TreeMap.isEmpty_toList,Bool.not_eq_false']
  exact List.isEmpty_iff.symm

end StreamMux

namespace ClientCore

variable {snow : Snow} {c : ClientCore snow}

/-- The longest plaintext the Noise library seals. -/
def sealLimit : Nat := 65519

/-- Everything due: the shell and forward requests, the control queue, the typed bytes with an
acknowledgement, and what the streams send. -/
theorem gather_frames (c : ClientCore snow) : c.gather.1 =
    c.openShellFrames.1 ++ c.remoteForwardFrames.1 ++ c.pendingControl ++ c.shell.pollFrames ++ c.mux.pollTransmit.2 := by
  unfold gather remoteForwardFrames openShellFrames
  dsimp only
  split <;> split <;> rfl

/-- Whatever may be long in what is due is short enough to seal. -/
structure Fits (c : ClientCore snow) : Prop where
  shell : c.openShellPending = true →
    (Frame.control (ControlMsg.openShell c.cols c.rows c.term c.wantAgent).encode).encode.length ≤ sealLimit
  forwards : c.remoteForwardTicks < remoteForwardMaxTicks → ∀ request ∈ c.remoteForwards,
    (Frame.control (ControlMsg.remoteForward request.1 request.2).encode).encode.length ≤ sealLimit
  control : ∀ frame ∈ c.pendingControl, frame.encode.length ≤ sealLimit
  input : c.shell.inputTx.buffer ≠ [] →
    (Frame.input c.shell.inputTx.base c.shell.inputTx.buffer).encode.length ≤ sealLimit
  streams : ∀ (id : Nat) (s : StreamState), c.mux.streams[id]? = some s → s.reset = false → s.needsOpen = true →
    (Frame.streamOpen s.id s.kind s.metadata).encode.length ≤ sealLimit

/-- There is nothing to lose: no control frame is queued, no byte typed and no stream open. -/
structure Idle (c : ClientCore snow) : Prop where
  control : c.pendingControl = []
  input : c.shell.inputTx.buffer = []
  streams : c.mux.hasTraffic = false

/-- The datagrams of a tick together carry every frame taken from the control queue and from
the streams, and the typed bytes that are not acknowledged. -/
def TickComplete (c : ClientCore snow) : Prop :=
  ∃ session, c.session = some session ∧ ∃ groups, List.Forall₂ session.Carries c.tick.1 groups ∧
    (c.pendingControl ++ c.shell.inputTx.pending.toList ++ c.mux.pollTransmit.2).Sublist groups.flatten

/-- The conditions cover everything due, as the other frames are short. -/
theorem fits_iff (typed : ∀ frame ∈ c.gather.1, frame.Typed) :
    c.Fits ↔ ∀ frame ∈ c.gather.1, frame.encode.length ≤ sealLimit := by
  have short : ∀ frame ∈ c.gather.1, frame.payload.length ≤ maxStreamChunk → frame.encode.length ≤ sealLimit := by
    intro frame member small
    have size := Frame.encode_length_le (typed frame member)
    unfold maxStreamChunk at small
    unfold sealLimit
    omega
  rw [gather_frames] at short ⊢
  simp only [List.mem_append] at short ⊢
  constructor
  · intro fits frame member
    rcases member with (((shell | forward) | control) | typing) | stream
    · unfold openShellFrames at shell
      split at shell
      · rename_i pending
        obtain rfl := List.mem_singleton.mp shell
        exact fits.shell pending
      · exact absurd shell List.not_mem_nil
    · unfold remoteForwardFrames at forward
      split at forward
      · rename_i repeated
        obtain ⟨request,here,rfl⟩ := List.mem_map.mp forward
        exact fits.forwards repeated.2 request here
      · exact absurd forward List.not_mem_nil
    · exact fits.control frame control
    · have place := typing
      rcases List.mem_append.mp typing with input | ack
      · unfold InputSender.pending at input
        split at input
        · exact absurd input List.not_mem_nil
        · rename_i some
          obtain rfl := List.mem_singleton.mp input
          exact fits.input (fun empty => some (List.isEmpty_iff.mpr empty))
      · obtain rfl := List.mem_singleton.mp ack
        exact short _ (.inl (.inr place)) (Nat.zero_le _)
    · rcases c.mux.pollTransmit_payload stream with ⟨id,s,held,live,owed,rfl⟩ | small
      · exact fits.streams id s held live owed
      · exact short frame (.inr stream) small
  · intro all
    refine ⟨fun pending => all _ (.inl (.inl (.inl (.inl ?_)))),fun ticks request here => all _ (.inl (.inl (.inl (.inr ?_)))),
      fun frame here => all _ (.inl (.inl (.inr here))),fun typed => all _ (.inl (.inr ?_)),
      fun id s held live owed => all _ (.inr (c.mux.pollTransmit_opening held live owed))⟩
    · rw [openShellFrames,if_pos pending]
      exact .head _
    · have some : ¬c.remoteForwards.isEmpty = true := by
        intro empty
        rw [List.isEmpty_iff.mp empty] at here
        exact List.not_mem_nil here
      rw [remoteForwardFrames,if_pos ⟨some,ticks⟩]
      exact List.mem_map.mpr ⟨request,here,rfl⟩
    · have some : ¬c.shell.inputTx.buffer.isEmpty = true := fun empty => typed (List.isEmpty_iff.mp empty)
      rw [ClientShell.pollFrames,InputSender.pending,if_neg some]
      exact .head _

theorem idle_iff : c.Idle ↔ c.pendingControl ++ c.shell.inputTx.pending.toList ++ c.mux.pollTransmit.2 = [] := by
  have input : c.shell.inputTx.pending.toList = [] ↔ c.shell.inputTx.buffer = [] := by
    unfold InputSender.pending
    split
    · rename_i empty
      exact ⟨fun _ => List.isEmpty_iff.mp empty,fun _ => rfl⟩
    · rename_i some
      exact ⟨nofun,fun empty => absurd (List.isEmpty_iff.mpr empty) some⟩
  rw [List.append_eq_nil_iff,List.append_eq_nil_iff,input,StreamMux.pollTransmit_eq_nil_iff]
  exact ⟨fun idle => ⟨⟨idle.control,idle.input⟩,idle.streams⟩,fun all => ⟨all.1.1,all.1.2,all.2⟩⟩

/-- A client acknowledges in every tick, so that there is always something to seal. -/
theorem gather_ne_nil (c : ClientCore snow) : ¬c.gather.1.isEmpty = true := by
  intro empty
  rw [List.isEmpty_iff,gather_frames] at empty
  simp [ClientShell.pollFrames] at empty

theorem tick_sealed {session session' : Session snow} {packets : List Bytes} (held : c.session = some session)
    (out : session.sealMany c.gather.1 maxDatagramPlaintext = (.ok packets,session')) : c.tick.1 = packets := by
  unfold tick outgoing
  rw [held]
  dsimp only
  rw [if_neg c.gather_ne_nil,out]

theorem tick_failed {session session' : Session snow} {e : TransportError} (held : c.session = some session)
    (out : session.sealMany c.gather.1 maxDatagramPlaintext = (.error e,session')) : c.tick.1 = [] := by
  unfold tick outgoing
  rw [held]
  dsimp only
  rw [if_neg c.gather_ne_nil,out]

section

variable (limits : Session.SealsUpTo snow sealLimit)

include limits

theorem tick_fits {session : Session snow} (held : c.session = some session)
    (fits : ∀ frame ∈ c.gather.1, frame.encode.length ≤ sealLimit) : c.TickComplete := by
  obtain ⟨packets,groups,session',out,carries,flat⟩ :=
    Session.sealMany_fits limits (show maxDatagramPlaintext ≤ sealLimit by decide) session fits
  refine ⟨session,held,groups,?_,?_⟩
  · rw [tick_sealed held out]
    exact carries
  · rw [flat,gather_frames,ClientShell.pollFrames]
    simp only [List.append_assoc]
    refine (List.Sublist.append (List.Sublist.refl _) ?_).trans
      ((List.sublist_append_right _ _).trans (List.sublist_append_right _ _))
    exact List.Sublist.append (List.Sublist.refl _) (List.sublist_append_right _ _)

/-- A frame over the limit loses everything. -/
theorem tick_large {session : Session snow} (held : c.session = some session) {frame : Frame}
    (member : frame ∈ c.gather.1) (large : sealLimit < frame.encode.length) : c.TickComplete ↔ c.Idle := by
  obtain ⟨e,session',out⟩ := Session.sealMany_large limits session member large
  have nothing := tick_failed held out
  rw [idle_iff]
  constructor
  · rintro ⟨_,_,groups,carries,kept⟩
    rw [nothing] at carries
    cases carries
    exact List.sublist_nil.mp kept
  · intro idle
    refine ⟨session,held,[],?_,?_⟩
    · rw [nothing]
      exact .nil
    · rw [idle]
      exact .slnil

/-- A tick sends all it takes exactly when nothing due is too long, or there is nothing to
lose. -/
theorem tick_complete_iff (reachable : c.Reachable) (established : c.established = true)
    (typed : ∀ frame ∈ c.gather.1, frame.Typed) : c.TickComplete ↔ c.Fits ∨ c.Idle := by
  obtain ⟨session,held⟩ := Option.isSome_iff_exists.mp (reachable.settled established).2
  by_cases fits : c.Fits
  · have all := (fits_iff typed).mp fits
    exact ⟨fun _ => .inl fits,fun _ => tick_fits limits held all⟩
  · have large : ∃ frame ∈ c.gather.1, sealLimit < frame.encode.length := by
      by_contra none
      refine fits ((fits_iff typed).mpr (fun frame member => ?_))
      by_contra long
      exact none ⟨frame,member,Nat.not_le.mp long⟩
    obtain ⟨frame,member,long⟩ := large
    rw [tick_large limits held member long]
    exact ⟨.inr,fun either => either.resolve_left fits⟩

end

theorem clear_seals : Session.SealsUpTo Clear.noise sealLimit := by
  intro t nonce plaintext
  change (∃ body, Clear.encrypt nonce plaintext = .ok body) ↔ _
  unfold Clear.encrypt Clear.maxMessage sealLimit
  split
  · exact ⟨fun _ => by omega,fun _ => ⟨_,rfl⟩⟩
  · exact ⟨nofun,fun fits => by omega⟩

theorem input_length_lt (offset : Nat) (data : Bytes) : data.length < (Frame.input offset data).encode.length := by
  simp only [Frame.encode,Wire.putBytes,List.length_cons,List.length_append]
  omega

theorem typed_and_resized (c : ClientCore snow) (bytes : Bytes) (cols rows : UInt16) :
    ((c.typeInput bytes).resize cols rows).session = c.session ∧
      ((c.typeInput bytes).resize cols rows).established = c.established ∧
      ((c.typeInput bytes).resize cols rows).shell.inputTx.buffer = c.shell.inputTx.buffer ++ bytes ∧
      ((c.typeInput bytes).resize cols rows).pendingControl ≠ [] :=
  ⟨rfl,rfl,rfl,List.append_ne_nil_of_right_ne_nil _ (List.cons_ne_nil _ _)⟩

/-- A connected client that has typed a line and resized its window. -/
def typing : ClientCore Clear.noise := (connected.typeInput [108,115,13]).resize 100 40

theorem tick_complete_typing : typing.TickComplete := by
  have typed : ∀ frame ∈ typing.gather.1, frame.Typed := by decide +kernel
  refine (tick_complete_iff clear_seals (.resize 100 40 (.typeInput _ connected_reachable)) (by decide +kernel) typed).mpr
    (.inl ((fits_iff typed).mpr ?_))
  decide +kernel

/-- A connected client whose unacknowledged paste is longer than one message, and that has
resized its window. -/
def pasting : ClientCore Clear.noise := (connected.typeInput (List.replicate 65520 120)).resize 100 40

/-- The paste does not seal, and the resize request is gone with it. -/
theorem tick_loses_resize :
    pasting.Reachable ∧ pasting.established = true ∧ pasting.pendingControl ≠ [] ∧ ¬pasting.TickComplete := by
  obtain ⟨sameSession,sameEstablished,sameBuffer,queued⟩ :=
    connected.typed_and_resized (List.replicate 65520 120) 100 40
  have session : connected.session.isSome = true := by decide +kernel
  obtain ⟨session,held⟩ := Option.isSome_iff_exists.mp session
  have established : connected.established = true := by decide +kernel
  have buffer : pasting.shell.inputTx.buffer = List.replicate 65520 120 := by
    rw [pasting,sameBuffer,show connected.shell.inputTx.buffer = [] by decide +kernel,List.nil_append]
  refine ⟨.resize 100 40 (.typeInput _ connected_reachable),sameEstablished.trans established,queued,?_⟩
  have member : .input pasting.shell.inputTx.base pasting.shell.inputTx.buffer ∈ pasting.gather.1 := by
    have some : ¬pasting.shell.inputTx.buffer.isEmpty = true := by
      rw [buffer,List.isEmpty_iff,List.replicate_eq_nil_iff]
      decide
    rw [gather_frames,ClientShell.pollFrames,InputSender.pending,if_neg some]
    simp
  have large : sealLimit < (Frame.input pasting.shell.inputTx.base pasting.shell.inputTx.buffer).encode.length := by
    refine Nat.lt_of_lt_of_le ?_ (Nat.le_of_lt (input_length_lt _ _))
    rw [buffer,List.length_replicate]
    decide
  rw [tick_large clear_seals (c := pasting) (sameSession.trans held) member large]
  exact fun idle => queued idle.control

end ClientCore
end Noissh

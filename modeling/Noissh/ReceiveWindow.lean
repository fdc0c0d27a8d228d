import Noissh.MuxRuns
import Noissh.StreamChecked

/-! How much of a stream is buffered for a reader that does not read. A segment is admitted by
where it starts and stored to where it ends, so the advertised window bounds the buffer exactly
as long as no admitted segment reaches beyond it. -/
namespace Noissh

namespace Reassembler

/-- The number of bytes held in segments, contiguous or not. -/
def buffered (r : Reassembler) : Nat := (r.segs.toList.map fun p => p.2.length).sum

/-- Segments apart from each other take no more room than the span they lie in. -/
theorem lengths_le {l : List (Nat × Bytes)} {lo hi : Nat} (apart : l.Pairwise fun a b => a.1 + a.2.length ≤ b.1)
    (inside : ∀ p ∈ l, lo ≤ p.1 ∧ p.1 + p.2.length ≤ hi) : (l.map fun p => p.2.length).sum ≤ hi - lo := by
  induction l generalizing lo with
  | nil => exact Nat.zero_le _
  | cons p rest ih =>
    obtain ⟨before,apart⟩ := List.pairwise_cons.mp apart
    have here := inside p (.head _)
    have later := @ih (p.1 + p.2.length) apart fun q member => ⟨before q member,(inside q (.tail _ member)).2⟩
    rw [List.map_cons,List.sum_cons]
    omega

/-- Everything stored lies within a window of what was delivered. -/
structure Windowed (r : Reassembler) : Prop where
  valid : r.Valid
  below : r.Below (r.delivered + defaultWindow)

variable {r : Reassembler}

theorem Windowed.buffered (windowed : r.Windowed) : r.buffered ≤ defaultWindow := by
  have held : ∀ p ∈ r.segs.toList, r.segs[p.1]? = some p.2 := fun p member =>
    Std.TreeMap.mem_toList_iff_getElem?_eq_some.mp member
  have apart : r.segs.toList.Pairwise fun a b => a.1 + a.2.length ≤ b.1 := by
    refine (List.Pairwise.and_mem.mp r.segs.ordered_keys_toList).imp fun {a b} ⟨first,second,ordered⟩ => ?_
    have lt : a.1 < b.1 := Nat.compare_eq_lt.mp ordered
    exact Nat.le_of_lt (windowed.valid.apart a.1 a.2 b.1 b.2 (held a first) (held b second) lt)
  have total := @lengths_le _ r.delivered (r.delivered + defaultWindow) apart fun p member =>
    ⟨windowed.valid.future p.1 p.2 (held p member),windowed.below.seg windowed.valid (held p member)⟩
  rwa [Nat.add_sub_cancel_left] at total

theorem Windowed.unread (windowed : r.Windowed) : r.unread ≤ defaultWindow := by
  have point := windowed.below.ackPoint windowed.valid (Nat.le_add_right _ _)
  have sum := r.ackPoint_eq_unread
  omega

theorem empty_windowed : Windowed {} := ⟨empty_valid,fun _ _ => contents_eq_none empty_valid (by simp)⟩

theorem Windowed.insert (windowed : r.Windowed) {offset : Nat} {data : Bytes}
    (fits : offset + data.length ≤ r.delivered + defaultWindow) : (r.insert offset data).Windowed :=
  ⟨insert_valid windowed.valid offset data,by rw [insert_delivered]; exact windowed.below.insert windowed.valid fits⟩

theorem Windowed.read (windowed : r.Windowed) : r.read.2.Windowed := by
  refine ⟨read_valid windowed.valid,(windowed.below.read windowed.valid).mono ?_⟩
  rw [read_delivered]
  exact Nat.add_le_add_right r.delivered_le_ackPoint _

end Reassembler

theorem StreamState.transmit_recv (s : StreamState) (now : Nat) (live : s.reset = false) : (s.transmit now).1.recv = s.recv := by
  rw [transmit_eq s now live,countClose_eq]
  exact (transmitData_same { s with needsOpen := false } now).2.1

namespace StreamMux

/-- Bytes held in the reassembly segments of a stream. -/
def recvHeld (m : StreamMux) (id : Nat) : Nat :=
  match m.streams[id]? with
  | some s => s.recv.buffered
  | none => 0

/-- A segment that the stream it names admits ends within the window. -/
def InWindow (m : StreamMux) : Call → Prop
  | .onFrame (.streamData id offset data _) => ∀ s, m.streams[id]? = some s → s.accepts offset data = true →
    offset + data.length ≤ s.recv.delivered + defaultWindow
  | _ => True

/-- No stream stores anything beyond its window. -/
def Windowed (m : StreamMux) : Prop := ∀ (k : Nat) (s : StreamState), m.streams[k]? = some s → s.recv.Windowed

variable {m : StreamMux} {c : Call} {k : Nat} {s t : StreamState}

theorem Moves.windowed (moves : Moves m.now k s c t) (held : m.streams[k]? = some s) (windowed : s.recv.Windowed)
    (inside : m.InWindow c) : t.recv.Windowed := by
  cases moves with
  | read => exact windowed.read
  | data offset data fin =>
    rw [StreamState.onData_eq]
    dsimp only
    split
    · rename_i accepted
      exact windowed.insert (inside s held accepted)
    · exact windowed
  | ack ack window =>
    obtain ⟨_,_,_,_,_,_,_,_,_,_,_,acked⟩ := s.onAck_eq ack window m.now
    rw [acked]
    exact windowed
  | poll live =>
    rw [s.transmit_recv _ live]
    exact windowed
  | _ => exact windowed

theorem call_windowed (windowed : m.Windowed) (inside : m.InWindow c) : (m.call c).Windowed := by
  intro k t held
  cases call_comes held with
  | opened kind metadata next => exact Reassembler.empty_windowed
  | accepted kind metadata vacant foreign => exact Reassembler.empty_windowed
  | held s before moves => exact moves.windowed before (windowed k s before) inside

/-- In every run whose admitted segments end within the window, no stream ever buffers more than a
window, be it the contiguous bytes that wait for the reader or all bytes of its segments. -/
theorem receive_buffer_bounded (isClient : Bool) (calls : List Call) (inside : Machine.Along call InWindow calls (new isClient))
    (id : Nat) :
    (Machine.run call calls (new isClient)).recvBuffered id ≤ defaultWindow ∧
      (Machine.run call calls (new isClient)).recvHeld id ≤ defaultWindow := by
  have start : (new isClient).Windowed := fun k s held => by simp [new] at held
  have windowed := Machine.run_invariant Windowed (fun _ _ => call_windowed) calls _ start inside
  unfold recvBuffered recvHeld
  cases held : (Machine.run call calls (new isClient)).streams[id]? with
  | none => exact ⟨Nat.zero_le _,Nat.zero_le _⟩
  | some s => exact ⟨(windowed id s held).unread,(windowed id s held).buffered⟩

/-- A segment of a stream just opened. -/
theorem receive_buffer_bounded_first :
    (Machine.run call [.onFrame (.streamOpen 0 .forward []),.onFrame (.streamData 0 2 [1,2,3] false)] (new false)).recvHeld 0 ≤
      defaultWindow := by
  refine (receive_buffer_bounded false [.onFrame (.streamOpen 0 .forward []),.onFrame (.streamData 0 2 [1,2,3] false)]
    ⟨trivial,fun s held _ => ?_,trivial⟩ 0).2
  exact Nat.le_trans (show 2 + 3 ≤ defaultWindow by decide) (Nat.le_add_left _ _)

/-- The first `n` bytes of a stream have arrived and none has been read. -/
def Filled (m : StreamMux) (id n : Nat) : Prop :=
  ∃ s, m.streams[id]? = some s ∧ s.recv.Valid ∧ s.recv.delivered = 0 ∧ n ≤ s.recv.ackPoint

theorem Filled.next {id n : Nat} {data : Bytes} {fin : Bool} (filled : m.Filled id n) (start : n ≤ defaultWindow)
    (word : n + data.length ≤ u64Max) : (m.call (.onFrame (.streamData id n data fin))).Filled id (n + data.length) := by
  obtain ⟨s,held,valid,unread,arrived⟩ := filled
  have accepted : s.accepts n data = true := by
    simp only [StreamState.accepts,Bool.and_eq_true,decide_eq_true_eq]
    omega
  refine ⟨(s.onData n data fin).1,?_,?_⟩
  · rw [call,onFrame,getElem?_onData,if_pos rfl,held]
    rfl
  · rw [StreamState.onData_eq]
    simp only [accepted,if_true]
    have valid' := Reassembler.insert_valid valid n data
    refine ⟨valid',by rw [Reassembler.insert_delivered,unread],Reassembler.le_ackPoint valid' fun p _ upper => ?_⟩
    rw [Reassembler.insert_contents valid]
    split
    · exact ⟨_,List.getElem?_eq_getElem (by omega)⟩
    · exact Reassembler.contents_before_ackPoint valid (by omega) (by omega)

theorem opened_filled (id : Nat) (kind : StreamKind) (metadata : Bytes) (vacant : m.streams[id]? = none)
    (foreign : id % 2 ≠ m.localParity) (few : m.streams.size < maxStreams) :
    (m.call (.onFrame (.streamOpen id kind metadata))).Filled id 0 := by
  refine ⟨StreamState.new id kind metadata false,?_,Reassembler.empty_valid,rfl,Nat.zero_le _⟩
  rw [call,onFrame,getElem?_onOpen,if_pos ⟨rfl,vacant,foreign,few⟩]

theorem Filled.recvBuffered {id n : Nat} (filled : m.Filled id n) : n ≤ m.recvBuffered id := by
  obtain ⟨s,held,valid,unread,arrived⟩ := filled
  have sum := s.recv.ackPoint_eq_unread
  unfold StreamMux.recvBuffered
  rw [held]
  dsimp only
  omega

theorem five_segments (data : Bytes) (length : data.length = 60000) :
    ¬(Machine.run call [.onFrame (.streamOpen 0 .forward []),.onFrame (.streamData 0 0 data false),
      .onFrame (.streamData 0 60000 data false),.onFrame (.streamData 0 120000 data false),
      .onFrame (.streamData 0 180000 data false),.onFrame (.streamData 0 240000 data false)] (new false)).recvBuffered 0 ≤
      defaultWindow := by
  have first : ((new false).call (.onFrame (.streamOpen 0 .forward []))).Filled 0 0 :=
    opened_filled 0 .forward [] rfl (by decide) (by decide)
  have more : ∀ (m : StreamMux) (n last : Nat), m.Filled 0 n → n ≤ defaultWindow → last = n + 60000 →
      (m.call (.onFrame (.streamData 0 n data false))).Filled 0 last := by
    intro m n last filled start sum
    have next := @Filled.next m 0 n data false filled start
    rw [length,← sum] at next
    exact next (Nat.le_trans (Nat.le_of_eq sum) (Nat.le_trans (Nat.add_le_add_right start 60000) (by decide)))
  have one := more _ 0 60000 first (by decide) (by decide)
  have two := more _ 60000 120000 one (by decide) (by decide)
  have three := more _ 120000 180000 two (by decide) (by decide)
  have four := more _ 180000 240000 three (by decide) (by decide)
  have five := more _ 240000 300000 four (by decide) (by decide)
  simp only [Machine.run_cons,Machine.run_nil]
  intro bounded
  have most := Nat.le_trans five.recvBuffered bounded
  exact absurd most (by decide)

/-- Five segments in order, the last of which still starts within the window. -/
theorem window_overrun :
    ¬(Machine.run call [.onFrame (.streamOpen 0 .forward []),.onFrame (.streamData 0 0 (List.replicate 60000 7) false),
      .onFrame (.streamData 0 60000 (List.replicate 60000 7) false),
      .onFrame (.streamData 0 120000 (List.replicate 60000 7) false),
      .onFrame (.streamData 0 180000 (List.replicate 60000 7) false),
      .onFrame (.streamData 0 240000 (List.replicate 60000 7) false)] (new false)).recvBuffered 0 ≤ defaultWindow :=
  five_segments (List.replicate 60000 7) List.length_replicate

end StreamMux
end Noissh

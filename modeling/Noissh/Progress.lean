import Noissh.StreamStateSpec

/-! Progress of one endpoint in a lossless round: what a list of frames does to the end
that takes it in, and what one transmit contributes to the delivery of the next byte. -/
namespace Noissh
namespace StreamState

/-- A frame of the stream reaches an end that holds it. -/
def absorbFrame (now : Nat) (s : StreamState) : Frame → StreamState
  | .streamData _ offset data fin => (s.onData offset data fin).1
  | .streamAck _ ack window => s.onAck ack window now
  | .streamClose _ _ => { s with closeReceived := true }
  | .streamReset _ => { s with reset := true }
  | _ => s

def absorb (now : Nat) (frames : List Frame) (s : StreamState) : StreamState := frames.foldl (absorbFrame now) s

@[simp] theorem absorb_nil (now : Nat) (s : StreamState) : s.absorb now [] = s := rfl

@[simp] theorem absorb_cons (now : Nat) (frame : Frame) (rest : List Frame) (s : StreamState) :
    s.absorb now (frame :: rest) = (s.absorbFrame now frame).absorb now rest := rfl

theorem absorb_append (now : Nat) (first second : List Frame) (s : StreamState) :
    s.absorb now (first ++ second) = (s.absorb now first).absorb now second := List.foldl_append

theorem absorbFrame_recv (now : Nat) {s : StreamState} (valid : s.recv.Valid) (frame : Frame) :
    (s.absorbFrame now frame).recv.Valid ∧ (s.absorbFrame now frame).recv.delivered = s.recv.delivered ∧
    s.recv.ackPoint ≤ (s.absorbFrame now frame).recv.ackPoint := by
  cases frame with
  | streamData k offset data fin =>
    rw [absorbFrame,onData_eq]
    dsimp only
    split
    · exact ⟨Reassembler.insert_valid valid offset data,Reassembler.insert_delivered ..,
        Reassembler.insert_ackPoint_le valid offset data⟩
    · exact ⟨valid,rfl,Nat.le_refl _⟩
  | streamAck k ack window =>
    obtain ⟨_,_,_,_,_,_,_,_,_,_,_,eq⟩ := s.onAck_eq ack window now
    rw [absorbFrame,eq]
    exact ⟨valid,rfl,Nat.le_refl _⟩
  | _ => exact ⟨valid,rfl,Nat.le_refl _⟩

theorem absorb_recv (now : Nat) (frames : List Frame) {s : StreamState} (valid : s.recv.Valid) :
    (s.absorb now frames).recv.Valid ∧ (s.absorb now frames).recv.delivered = s.recv.delivered ∧
    s.recv.ackPoint ≤ (s.absorb now frames).recv.ackPoint := by
  induction frames generalizing s with
  | nil => exact ⟨valid,rfl,Nat.le_refl _⟩
  | cons frame rest ih =>
    obtain ⟨valid',delivered,grows⟩ := absorbFrame_recv now valid frame
    obtain ⟨valid'',delivered',grows'⟩ := ih valid'
    exact ⟨valid'',delivered'.trans delivered,Nat.le_trans grows grows'⟩

/-- A frame that covers the next byte moves the ack point past it. -/
theorem onData_covers {s : StreamState} (valid : s.recv.Valid) {off : Nat} {d : Bytes} {fin : Bool} {p : Nat}
    (fits : off + d.length ≤ u64Max) (start : off ≤ p) (stop : p < off + d.length)
    (read : p = s.recv.delivered) : p < (s.onData off d fin).1.recv.ackPoint := by
  have accepted : s.accepts off d = true := by
    simp only [accepts,Bool.and_eq_true,decide_eq_true_eq]
    omega
  rw [onData_eq]
  simp only [accepted,if_true]
  have valid' := Reassembler.insert_valid valid off d
  have low := Reassembler.delivered_le_ackPoint (s.recv.insert off d)
  rw [Reassembler.insert_delivered] at low
  by_contra short
  have here : (s.recv.insert off d).ackPoint = p := by omega
  have none := Reassembler.contents_ackPoint valid'
  rw [here,Reassembler.insert_contents valid,if_pos ⟨start,stop,by omega⟩] at none
  have bound := List.getElem?_eq_none_iff.mp none
  omega

theorem absorb_covers (now : Nat) {frames : List Frame} {s : StreamState} (valid : s.recv.Valid) {k off : Nat}
    {d : Bytes} {fin : Bool} {p : Nat} (member : .streamData k off d fin ∈ frames) (fits : off + d.length ≤ u64Max)
    (start : off ≤ p) (stop : p < off + d.length) (read : p = s.recv.delivered) :
    p < (s.absorb now frames).recv.ackPoint := by
  induction frames generalizing s with
  | nil => cases member
  | cons frame rest ih =>
    obtain ⟨valid',delivered,_⟩ := absorbFrame_recv now valid frame
    rcases List.mem_cons.mp member with rfl | later
    · exact Nat.lt_of_lt_of_le (onData_covers valid fits start stop read) (absorb_recv now rest valid').2.2
    · exact ih valid' later (read.trans delivered.symm)

/-- The fields a sender's progress rests on. -/
structure SendKept (s t : StreamState) : Prop where
  buf : t.sendBuf = s.sendBuf
  base : t.sendBase = s.sendBase
  high : t.sendHigh = s.sendHigh
  next : t.sendNext = s.sendNext
  peerWindow : t.peerWindow = s.peerWindow
  rtoStart : t.rtoStart = s.rtoStart
  needsOpen : t.needsOpen = s.needsOpen

theorem SendKept.refl (s : StreamState) : SendKept s s := by constructor <;> rfl

theorem SendKept.trans {s t u : StreamState} (first : SendKept s t) (second : SendKept t u) : SendKept s u := by
  constructor
  · rw [second.buf,first.buf]
  · rw [second.base,first.base]
  · rw [second.high,first.high]
  · rw [second.next,first.next]
  · rw [second.peerWindow,first.peerWindow]
  · rw [second.rtoStart,first.rtoStart]
  · rw [second.needsOpen,first.needsOpen]

theorem absorb_kept (now : Nat) {frames : List Frame} (s : StreamState)
    (noAck : ∀ f ∈ frames, ∀ k ack window, f ≠ .streamAck k ack window) : SendKept s (s.absorb now frames) := by
  induction frames generalizing s with
  | nil => exact .refl s
  | cons frame rest ih =>
    refine SendKept.trans ?_ (ih (s.absorbFrame now frame) (fun f member => noAck f (.tail _ member)))
    cases frame with
    | streamData k offset data fin => rw [absorbFrame,onData_eq]; constructor <;> rfl
    | streamAck k ack window => exact absurd rfl (noAck _ (.head _) k ack window)
    | _ => constructor <;> rfl

/-- An ack that is not beyond what was acked before only updates the peer's window. -/
theorem onAck_stale (s : StreamState) {ack : Nat} (window now : Nat) (known : ack ≤ s.sendNext)
    (stale : ack ≤ s.sendBase) : SendKept { s with peerWindow := window } (s.onAck ack window now) := by
  obtain ⟨srtt,rttvar,rto,timed,_,sampled⟩ := ackTimed_eq { s with peerWindow := window } ack now
  unfold onAck
  rw [if_neg (by omega),show ackData { s with peerWindow := window } ack now = { s with peerWindow := window } from
    if_neg (by dsimp only; omega),sampled]
  obtain ⟨finAcked,_,acked⟩ := ackFin_eq { s with peerWindow := window, srtt, rttvar, rto, timed } ack
  rw [acked]
  constructor <;> rfl

/-- The peer's transmit carries exactly one ack. -/
theorem absorb_oneAck (now tick : Nat) (s : StreamState) {t : StreamState} (live : t.reset = false) :
    ∃ u, SendKept s u ∧ SendKept (u.onAck t.recv.ackPoint t.window now) (s.absorb now (t.transmit tick).2) := by
  obtain ⟨_,recv,_,_⟩ := transmitData_same { t with needsOpen := false } tick
  change (t.afterData tick).1.recv = t.recv at recv
  rw [transmit_eq t tick live,absorb_append,absorb_append,absorb_append,
    show (t.afterData tick).1.window = t.window by simp only [window,recv],recv]
  refine ⟨_,SendKept.trans (absorb_kept now s ?_) (absorb_kept now _ ?_),absorb_kept now _ ?_⟩
  · intro f member k ack window isAck
    unfold transmitOpen at member
    split at member
    · rw [List.mem_singleton.mp member] at isAck; cases isAck
    · cases member
  · intro f member k ack window isAck
    obtain ⟨off,d,fin,rfl,_⟩ := transmitData_data _ tick member
    cases isAck
  · intro f member k ack window isAck
    unfold transmitClose at member
    split at member
    · split at member
      · cases member
      · rw [List.mem_singleton.mp member] at isAck; cases isAck
    · cases member

/-- What a sender is after the peer's transmit has arrived. -/
theorem absorb_transmit {w : Bytes} {s t : StreamState} (sending : Sending w s) (live : t.reset = false)
    (lower : s.sendBase ≤ t.recv.ackPoint) (known : t.recv.ackPoint ≤ s.sendNext) (now tick : Nat) :
    (s.absorb now (t.transmit tick).2).sendBase = t.recv.ackPoint ∧
    (s.absorb now (t.transmit tick).2).peerWindow = t.window ∧
    (s.absorb now (t.transmit tick).2).needsOpen = s.needsOpen ∧
    s.sendHigh ≤ (s.absorb now (t.transmit tick).2).sendHigh ∧
    (t.recv.ackPoint = s.sendBase → (s.absorb now (t.transmit tick).2).sendHigh = s.sendHigh ∧
      (s.absorb now (t.transmit tick).2).rtoStart = s.rtoStart) := by
  obtain ⟨u,before,after⟩ := absorb_oneAck now tick s live
  have low : u.sendBase ≤ u.sendHigh := by rw [before.base,before.high]; exact sending.low
  have step := onAck_step u t.recv.ackPoint t.window now (by rw [before.next]; exact known) low
  have length : s.sendBuf.length = s.sendNext - s.sendBase := by rw [sending.buf,List.length_drop,sending.next]
  have base := step.base
  have high := step.high
  rw [before.buf,before.base] at base
  rw [before.high] at high
  refine ⟨by rw [after.base]; omega,by rw [after.peerWindow,step.peerWindow],
    by rw [after.needsOpen,step.needsOpen,before.needsOpen],by rw [after.high]; omega,fun same => ?_⟩
  have stale := @onAck_stale u t.recv.ackPoint t.window now (by rw [before.next]; exact known)
    (by rw [before.base]; exact Nat.le_of_eq same)
  rw [after.high,after.rtoStart,stale.high,stale.rtoStart]
  exact ⟨before.high,before.rtoStart⟩

/-- With the peer's window open and bytes outstanding, a transmit sends something new, or
resends the next byte, or waits for a timer that runs out. -/
theorem transmit_progress {w : Bytes} {s : StreamState} (sending : Sending w s) (paced : s.Paced)
    (live : s.reset = false) (window : s.peerWindow = defaultWindow) (pending : s.sendBase < s.sendNext) (now : Nat) :
    s.sendHigh < (s.transmit now).1.sendHigh ∨
    (∃ start, s.rtoStart = some start ∧ now < start + maxRto ∧ (s.transmit now).1.sendHigh = s.sendHigh ∧
      (s.transmit now).1.rtoStart = s.rtoStart) ∨
    ∃ off d fin, .streamData s.id off d fin ∈ (s.transmit now).2 ∧ off ≤ s.sendBase ∧
      s.sendBase < off + d.length ∧ off + d.length ≤ w.length := by
  have low := sending.low
  have high := sending.high
  have next := sending.next
  have wide : mss ≤ s.cwnd := paced.cwndLow
  have positive : 0 < mss ∧ 0 < defaultWindow := by decide
  rw [transmit_eq s now live,countClose_eq]
  dsimp only
  simp only [List.mem_append]
  have same : ({ s with needsOpen := false }).sendEnd = s.sendEnd := rfl
  have reach : min s.sendNext (s.sendBase + 1) ≤ s.sendEnd := by
    unfold sendEnd
    rw [window]
    omega
  unfold afterData transmitData
  rw [same]
  dsimp only
  split
  · rename_i fresh
    exact .inl fresh
  · rename_i full
    split
    · rename_i outstanding
      cases due : ({ s with needsOpen := false }).rtoDue now with
      | false =>
        rw [show rtoDue { s with needsOpen := false } now = s.rtoDue now from rfl] at due
        refine .inr (.inl ?_)
        unfold rtoDue at due
        split at due
        · rename_i start running
          have := paced.rtoHigh
          simp only [decide_eq_false_iff_not] at due
          exact ⟨start,running,by omega,rfl,rfl⟩
        · cases due
      | true =>
        refine .inr (.inr ?_)
        obtain ⟨c,part,covers⟩ := chunks_cover (Nat.le_refl (s.sendHigh - s.sendBase))
          (Nat.le_refl s.sendBase) outstanding
        have range := chunks_mem part
        have length : ((s.sendBuf.drop (c.1 - s.sendBase)).take (c.2 - c.1)).length = c.2 - c.1 := by
          rw [sending.buf]; simp; omega
        refine ⟨c.1,_,_,.inl (.inl (.inr (List.mem_map.mpr ⟨c,part,rfl⟩))),covers.1,?_,?_⟩
        · show s.sendBase < c.1 + ((s.sendBuf.drop (c.1 - s.sendBase)).take (c.2 - c.1)).length
          omega
        · show c.1 + ((s.sendBuf.drop (c.1 - s.sendBase)).take (c.2 - c.1)).length ≤ w.length
          omega
    · omega

end StreamState
end Noissh

import Noissh.StreamState

/-! What the operations of one stream endpoint keep and what a transmit can send. Callers
cite these facts and never unfold the operations. -/
namespace Noissh

/-- `d` is the run of `w` that starts at `off`. -/
structure Segment (w : Bytes) (off : Nat) (d : Bytes) : Prop where
  fits : off + d.length ≤ w.length
  agrees : ∀ i, i < d.length → w[off + i]? = d[i]?

instance segmentDecidable (w : Bytes) (off : Nat) (d : Bytes) : Decidable (Segment w off d) :=
  decidable_of_iff (off + d.length ≤ w.length ∧ ∀ i < d.length, w[off + i]? = d[i]?)
    ⟨fun both => ⟨both.1,both.2⟩,fun part => ⟨part.fits,part.agrees⟩⟩

theorem Segment.append {w d : Bytes} {off : Nat} (part : Segment w off d) (more : Bytes) :
    Segment (w ++ more) off d where
  fits := by have := part.fits; simp; omega
  agrees := by
    intro i bound
    have := part.fits
    rw [List.getElem?_append_left (by omega)]
    exact part.agrees i bound

theorem Segment.nil {w : Bytes} {off : Nat} (fits : off ≤ w.length) : Segment w off [] :=
  ⟨by simpa using fits,by simp⟩

/-- A slice of the unacked suffix is a run of the whole. -/
theorem Segment.of_drop_take {w : Bytes} {base off stop : Nat} (lower : base ≤ off) (le : off ≤ stop)
    (fits : stop ≤ w.length) : Segment w off (((w.drop base).drop (off - base)).take (stop - off)) := by
  have start : base + (off - base) = off := by omega
  have length : (((w.drop base).drop (off - base)).take (stop - off)).length = stop - off := by
    simp; omega
  constructor
  · omega
  · intro i bound
    rw [List.getElem?_take_of_lt (by omega),List.getElem?_drop,List.getElem?_drop]
    congr 1; omega

namespace StreamState

/-- The send side holds the unacked suffix of everything written, `w`. -/
structure Sending (w : Bytes) (s : StreamState) : Prop where
  next : s.sendNext = w.length
  buf : s.sendBuf = w.drop s.sendBase
  low : s.sendBase ≤ s.sendHigh
  high : s.sendHigh ≤ s.sendNext
  window : s.sendHigh ≤ s.sendBase + defaultWindow

/-- Congestion window and timeout stay in their ranges. -/
structure Paced (s : StreamState) : Prop where
  cwndLow : mss ≤ s.cwnd
  cwndHigh : s.cwnd ≤ maxCwnd
  rtoHigh : s.rto ≤ maxRto

theorem new_sending (id : Nat) (kind : StreamKind) (metadata : Bytes) (needsOpen : Bool) :
    Sending [] (new id kind metadata needsOpen) := by constructor <;> simp [new]

theorem new_paced (id : Nat) (kind : StreamKind) (metadata : Bytes) (needsOpen : Bool) :
    Paced (new id kind metadata needsOpen) := by
  constructor <;> simp [new,initCwnd,mss,maxStreamChunk,maxCwnd,defaultWindow,initRto,maxRto]

theorem write_sending {w : Bytes} {s : StreamState} (sending : Sending w s) (data : Bytes) :
    Sending (w ++ data) (s.write data) where
  next := by simp [write,sending.next]
  buf := by
    have := sending.low
    have := sending.high
    have := sending.next
    simp only [write,sending.buf]
    rw [List.drop_append_of_le_length (by omega)]
  low := sending.low
  high := by have := sending.high; simp only [write]; omega
  window := sending.window

section Frames

variable (s : StreamState)

@[simp] theorem recomputeRto_rto_le : s.recomputeRto.rto ≤ maxRto := by
  simp only [recomputeRto]
  split
  · exact Nat.max_le.mpr ⟨by decide,Nat.min_le_left _ _⟩
  · decide

theorem updateRtt_eq (r : Nat) : ∃ srtt rttvar rto, rto ≤ maxRto ∧
    s.updateRtt r = { s with srtt, rttvar, rto } := by
  unfold updateRtt
  split
  · exact ⟨_,_,_,recomputeRto_rto_le _,rfl⟩
  · exact ⟨_,_,_,recomputeRto_rto_le _,rfl⟩

theorem ackTimed_eq (ack now : Nat) : ∃ srtt rttvar rto timed, (rto = s.rto ∨ rto ≤ maxRto) ∧
    s.ackTimed ack now = { s with srtt, rttvar, rto, timed } := by
  unfold ackTimed
  split
  · split
    · obtain ⟨srtt,rttvar,rto,le,eq⟩ := s.updateRtt_eq (max (now - _) 1 % 2^32)
      exact ⟨srtt,rttvar,rto,none,.inr le,by rw [eq]⟩
    · exact ⟨_,_,_,_,.inl rfl,rfl⟩
  · exact ⟨_,_,_,_,.inl rfl,rfl⟩

theorem growCwnd_eq (acked : Nat) : ∃ cwnd, min s.cwnd maxCwnd ≤ cwnd ∧ cwnd ≤ maxCwnd ∧
    s.growCwnd acked = { s with cwnd } := by
  refine ⟨_,?_,?_,rfl⟩
  · simp only [u32Max,maxCwnd,defaultWindow]; omega
  · omega

theorem ackFin_eq (ack : Nat) : ∃ finAcked,
    (finAcked = true ↔ s.finAcked = true ∨ s.sendFin = true ∧ s.finSent = true ∧ s.sendNext ≤ ack) ∧
    s.ackFin ack = { s with finAcked } := by
  unfold ackFin
  split
  · rename_i covered
    exact ⟨true,by simp only [Bool.and_eq_true,decide_eq_true_eq] at covered; grind,rfl⟩
  · rename_i uncovered
    exact ⟨s.finAcked,by simp only [Bool.and_eq_true,decide_eq_true_eq] at uncovered; grind,rfl⟩

end Frames

/-- An ack moves only send-side bookkeeping. -/
structure AckStep (s t : StreamState) (ack window : Nat) : Prop where
  id : t.id = s.id
  needsOpen : t.needsOpen = s.needsOpen
  base : t.sendBase = max s.sendBase (min ack (s.sendBase + s.sendBuf.length))
  next : t.sendNext = s.sendNext
  high : t.sendHigh = max s.sendHigh t.sendBase
  buf : t.sendBuf = s.sendBuf.drop (t.sendBase - s.sendBase)
  peerWindow : t.peerWindow = window
  sendFin : t.sendFin = s.sendFin
  finSent : t.finSent = s.finSent
  finAcked : t.finAcked = true ↔ s.finAcked = true ∨ s.sendFin = true ∧ s.finSent = true ∧ s.sendNext ≤ ack
  closeStatus : t.closeStatus = s.closeStatus
  recv : t.recv = s.recv
  peerFin : t.peerFin = s.peerFin
  closeReceived : t.closeReceived = s.closeReceived
  closeTicks : t.closeTicks = s.closeTicks
  reset : t.reset = s.reset

theorem ackData_eq (s : StreamState) (ack now : Nat) : ∃ cwnd rtoStart rto,
    (cwnd = s.cwnd ∨ min s.cwnd maxCwnd ≤ cwnd ∧ cwnd ≤ maxCwnd) ∧ (rto = s.rto ∨ rto ≤ maxRto) ∧
    s.ackData ack now = { s with
      sendBuf := s.sendBuf.drop (max s.sendBase (min ack (s.sendBase + s.sendBuf.length)) - s.sendBase)
      sendBase := max s.sendBase (min ack (s.sendBase + s.sendBuf.length))
      sendHigh := if s.sendBase < ack then
        max s.sendHigh (max s.sendBase (min ack (s.sendBase + s.sendBuf.length))) else s.sendHigh
      cwnd, rtoStart, rto } := by
  unfold ackData
  split
  · rename_i fresh
    have base : s.sendBase + min (ack - s.sendBase) s.sendBuf.length =
        max s.sendBase (min ack (s.sendBase + s.sendBuf.length)) := by omega
    have advance : max s.sendBase (min ack (s.sendBase + s.sendBuf.length)) - s.sendBase =
        min (ack - s.sendBase) s.sendBuf.length := by omega
    dsimp only
    obtain ⟨cwnd,low,high,grown⟩ := growCwnd_eq ({ s with
      sendBuf := s.sendBuf.drop (min (ack - s.sendBase) s.sendBuf.length)
      sendBase := s.sendBase + min (ack - s.sendBase) s.sendBuf.length
      sendHigh := max s.sendHigh (s.sendBase + min (ack - s.sendBase) s.sendBuf.length) } : StreamState)
      (min (ack - s.sendBase) s.sendBuf.length)
    rw [grown,advance,← base]
    exact ⟨cwnd,_,_,.inr ⟨low,high⟩,.inr (recomputeRto_rto_le _),rfl⟩
  · rename_i stale
    have same : max s.sendBase (min ack (s.sendBase + s.sendBuf.length)) = s.sendBase := by omega
    rw [same]
    exact ⟨s.cwnd,s.rtoStart,s.rto,.inl rfl,.inl rfl,by simp⟩

theorem onAck_ignored (s : StreamState) (ack window now : Nat) (beyond : s.sendNext < ack) :
    s.onAck ack window now = s := by simp [onAck,beyond]

/-- An ack of bytes that were written. -/
theorem onAck_known (s : StreamState) {ack : Nat} (window now : Nat) (known : ack ≤ s.sendNext) :
    ∃ cwnd rtoStart rto srtt rttvar timed finAcked,
      (cwnd = s.cwnd ∨ min s.cwnd maxCwnd ≤ cwnd ∧ cwnd ≤ maxCwnd) ∧ (rto = s.rto ∨ rto ≤ maxRto) ∧
      (finAcked = true ↔ s.finAcked = true ∨ s.sendFin = true ∧ s.finSent = true ∧ s.sendNext ≤ ack) ∧
      s.onAck ack window now = { s with
        peerWindow := window
        sendBuf := s.sendBuf.drop (max s.sendBase (min ack (s.sendBase + s.sendBuf.length)) - s.sendBase)
        sendBase := max s.sendBase (min ack (s.sendBase + s.sendBuf.length))
        sendHigh := if s.sendBase < ack then
          max s.sendHigh (max s.sendBase (min ack (s.sendBase + s.sendBuf.length))) else s.sendHigh
        cwnd, rtoStart, rto, srtt, rttvar, timed, finAcked } := by
  obtain ⟨cwnd,rtoStart,rto,cwndRange,rtoRange,data⟩ := ackData_eq { s with peerWindow := window } ack now
  unfold onAck
  rw [if_neg (Nat.not_lt.mpr known),data]
  obtain ⟨srtt,rttvar,rto',timed,rtoRange',sampled⟩ := ackTimed_eq _ ack now
  rw [sampled]
  obtain ⟨finAcked,meaning,acked⟩ := ackFin_eq _ ack
  rw [acked]
  refine ⟨cwnd,rtoStart,rto',srtt,rttvar,timed,finAcked,cwndRange,?_,meaning,rfl⟩
  rcases rtoRange' with same | small
  · rw [same]
    exact rtoRange
  · exact .inr small

theorem onAck_finAcked (s : StreamState) {ack : Nat} (window now : Nat) (known : ack ≤ s.sendNext) :
    (s.onAck ack window now).finAcked = true ↔
      s.finAcked = true ∨ s.sendFin = true ∧ s.finSent = true ∧ s.sendNext ≤ ack := by
  obtain ⟨_,_,_,_,_,_,finAcked,_,_,meaning,acked⟩ := s.onAck_known window now known
  rw [acked]
  exact meaning

theorem onAck_step (s : StreamState) (ack window now : Nat) (known : ack ≤ s.sendNext)
    (low : s.sendBase ≤ s.sendHigh) : AckStep s (s.onAck ack window now) ack window := by
  obtain ⟨_,_,_,_,_,_,finAcked,_,_,meaning,acked⟩ := s.onAck_known window now known
  rw [acked]
  constructor <;> first | rfl | skip
  · dsimp only
    split <;> omega
  · exact meaning

/-- An ack rewrites send-side fields only. -/
theorem onAck_eq (s : StreamState) (ack window now : Nat) :
    ∃ peerWindow sendBuf sendBase sendHigh cwnd rtoStart rto srtt rttvar timed finAcked,
      s.onAck ack window now = { s with
        peerWindow, sendBuf, sendBase, sendHigh, cwnd, rtoStart, rto, srtt, rttvar, timed, finAcked } := by
  rcases Nat.lt_or_ge s.sendNext ack with beyond | known
  · exact ⟨_,_,_,_,_,_,_,_,_,_,_,s.onAck_ignored ack window now beyond⟩
  · obtain ⟨_,_,_,_,_,_,_,_,_,_,acked⟩ := s.onAck_known window now known
    exact ⟨_,_,_,_,_,_,_,_,_,_,_,acked⟩

theorem onAck_id (s : StreamState) (ack window now : Nat) : (s.onAck ack window now).id = s.id := by
  obtain ⟨_,_,_,_,_,_,_,_,_,_,_,eq⟩ := s.onAck_eq ack window now
  rw [eq]

theorem onAck_paced {s : StreamState} (paced : s.Paced) (ack window now : Nat) :
    (s.onAck ack window now).Paced := by
  rcases Nat.lt_or_ge s.sendNext ack with beyond | known
  · rw [onAck_ignored s ack window now beyond]
    exact paced
  · obtain ⟨_,_,_,_,_,_,_,cwndRange,rtoRange,_,acked⟩ := s.onAck_known window now known
    rw [acked]
    have := paced.cwndLow
    have := paced.cwndHigh
    have := paced.rtoHigh
    have : mss ≤ maxCwnd := by decide
    constructor <;> dsimp only <;> omega

theorem onAck_sending {w : Bytes} {s : StreamState} (sending : Sending w s) (ack window now : Nat) :
    Sending w (s.onAck ack window now) := by
  rcases Nat.lt_or_ge s.sendNext ack with beyond | known
  · rw [onAck_ignored s ack window now beyond]
    exact sending
  · have step := onAck_step s ack window now known sending.low
    have next := sending.next
    have low := sending.low
    have high := sending.high
    have window := sending.window
    have length : s.sendBuf.length = s.sendNext - s.sendBase := by
      rw [sending.buf,List.length_drop,next]
    have base := step.base
    have highEq := step.high
    constructor
    · rw [step.next,next]
    · rw [step.buf,sending.buf,List.drop_drop]
      congr 1; omega
    · omega
    · rw [step.next]; omega
    · omega

theorem chunks_mem {fuel off stop : Nat} {c : Nat × Nat} (member : c ∈ chunks fuel off stop) :
    off ≤ c.1 ∧ c.1 < c.2 ∧ c.2 ≤ stop ∧ c.2 ≤ c.1 + maxStreamChunk := by
  induction fuel generalizing off with
  | zero => simp [chunks] at member
  | succ fuel ih =>
    simp only [chunks] at member
    split at member
    · have positive : 0 < maxStreamChunk := by decide
      rcases List.mem_cons.mp member with rfl | later
      · dsimp only; omega
      · have := ih later
        omega
    · simp at member

theorem chunks_cover {fuel off stop p : Nat} (enough : stop - off ≤ fuel) (lower : off ≤ p)
    (upper : p < stop) : ∃ c ∈ chunks fuel off stop, c.1 ≤ p ∧ p < c.2 := by
  induction fuel generalizing off with
  | zero => omega
  | succ fuel ih =>
    have positive : 0 < maxStreamChunk := by decide
    simp only [chunks,if_pos (show off < stop by omega)]
    by_cases here : p < min (off + maxStreamChunk) stop
    · exact ⟨_,List.mem_cons_self,lower,here⟩
    · obtain ⟨c,member,range⟩ := @ih (min (off + maxStreamChunk) stop) (by omega) (by omega)
      exact ⟨c,List.mem_cons_of_mem _ member,range⟩

/-- The frames one transmit from `s` to `t` can send, when `w` is everything written. -/
inductive Emits (w : Bytes) (s t : StreamState) : Frame → Prop where
  | opening : s.needsOpen = true → Emits w s t (.streamOpen s.id s.kind s.metadata)
  | data {off : Nat} {d : Bytes} {fin : Bool} : Segment w off d → off + d.length ≤ t.sendHigh →
      d.length ≤ maxStreamChunk →
      (fin = true → s.sendFin = true ∧ s.finAcked = false ∧ off + d.length = w.length ∧ t.finSent = true) →
      Emits w s t (.streamData s.id off d fin)
  | ack {window : Nat} : window ≤ defaultWindow → Emits w s t (.streamAck s.id s.recv.ackPoint window)
  | close {status : Int} : s.closeStatus = some status → s.finAcked = false →
      Emits w s t (.streamClose s.id status)

/-- The fields a transmit leaves alone, and the direction in which it moves the others. -/
structure Kept (s t : StreamState) : Prop where
  id : t.id = s.id
  buf : t.sendBuf = s.sendBuf
  base : t.sendBase = s.sendBase
  next : t.sendNext = s.sendNext
  high : s.sendHigh ≤ t.sendHigh
  peerWindow : t.peerWindow = s.peerWindow
  sendFin : t.sendFin = s.sendFin
  finSent : s.finSent = true → t.finSent = true
  finAcked : t.finAcked = s.finAcked
  closeStatus : t.closeStatus = s.closeStatus
  recv : t.recv = s.recv
  peerFin : t.peerFin = s.peerFin
  closeReceived : t.closeReceived = s.closeReceived
  reset : t.reset = s.reset

theorem Kept.refl (s : StreamState) : Kept s s := by
  constructor <;> first | exact Nat.le_refl _ | rfl | exact fun same => same

/-- What is sent of a range of the buffer is that range of what was written. -/
theorem Sending.chunk {w : Bytes} {s : StreamState} (sending : Sending w s) {off stop : Nat} (lower : s.sendBase ≤ off)
    (order : off ≤ stop) (upper : stop ≤ s.sendNext) :
    let data := (s.sendBuf.drop (off - s.sendBase)).take (stop - off)
    Segment w off data ∧ data.length = stop - off := by
  have next := sending.next
  rw [sending.buf]
  refine ⟨Segment.of_drop_take (by omega) (by omega) (by omega),?_⟩
  rw [List.length_take,List.length_drop,List.length_drop]
  omega

theorem emitRange_mem {w : Bytes} {s : StreamState} (sending : Sending w s) {off stop : Nat}
    (lower : s.sendBase ≤ off) (upper : stop ≤ s.sendNext) {frame : Frame}
    (member : frame ∈ (s.emitRange off stop).2) :
    ∃ o d fin, frame = .streamData s.id o d fin ∧ Segment w o d ∧ off ≤ o ∧ o + d.length ≤ stop ∧
      d.length ≤ maxStreamChunk ∧ (fin = true → s.sendFin = true ∧ s.finAcked = false ∧
        o + d.length = w.length ∧ (s.emitRange off stop).1.finSent = true) := by
  obtain ⟨c,part,rfl⟩ := List.mem_map.mp member
  have range := chunks_mem part
  have next := sending.next
  obtain ⟨segment,length⟩ := @Sending.chunk _ _ sending c.1 c.2 (by omega) (by omega) (by omega)
  refine ⟨c.1,_,s.finAt c.2,rfl,segment,range.1,by omega,by omega,fun flagged => ?_⟩
  simp only [emitRange,Bool.or_eq_true,List.any_eq_true]
  have marked := flagged
  simp only [finAt,Bool.and_eq_true,beq_iff_eq,Bool.not_eq_true'] at flagged
  exact ⟨flagged.1.1,flagged.2,by omega,.inr ⟨c,part,marked⟩⟩

theorem sendEnd_le (s : StreamState) : s.sendEnd ≤ s.sendNext := by unfold sendEnd; omega

theorem transmitData_spec {w : Bytes} {s : StreamState} (sending : Sending w s) (paced : s.Paced)
    (now : Nat) :
    Sending w (s.transmitData now).1 ∧ (s.transmitData now).1.Paced ∧ Kept s (s.transmitData now).1 ∧
    (s.transmitData now).1.needsOpen = s.needsOpen ∧
    (s.transmitData now).1.closeTicks = s.closeTicks ∧
    ∀ frame ∈ (s.transmitData now).2, Emits w s (s.transmitData now).1 frame := by
  have next := sending.next
  have low := sending.low
  have high := sending.high
  have endLe := s.sendEnd_le
  have capped : s.sendEnd ≤ s.sendBase + defaultWindow := by
    have : s.cwnd ≤ defaultWindow := paced.cwndHigh
    unfold sendEnd; omega
  unfold transmitData
  split
  · rename_i fresh
    have start : max s.sendHigh s.sendBase = s.sendHigh := by omega
    rw [start]
    refine ⟨⟨next,sending.buf,by simp only [emitRange]; omega,endLe,capped⟩,
      ⟨paced.cwndLow,paced.cwndHigh,paced.rtoHigh⟩,?_,rfl,rfl,fun frame member => ?_⟩
    · constructor <;> first | rfl | skip
      · exact Nat.le_of_lt fresh
      · intro sent; simp [emitRange,sent]
    · obtain ⟨o,d,fin,rfl,segment,_,reach,small,flag⟩ := emitRange_mem sending low endLe member
      exact .data segment reach small flag
  · split
    · split
      · refine ⟨⟨next,sending.buf,low,high,sending.window⟩,?_,?_,rfl,rfl,fun frame member => ?_⟩
        · constructor
          · exact Nat.le_refl _
          · simp only [onRto]; decide
          · simp only [onRto]; omega
        · constructor <;> first | exact Nat.le_refl _ | rfl | skip
          intro sent; simp [emitRange,onRto,sent]
        · obtain ⟨o,d,fin,rfl,segment,_,reach,small,flag⟩ :=
            emitRange_mem sending (Nat.le_refl _) high member
          exact .data segment reach small flag
      · exact ⟨sending,paced,.refl s,rfl,rfl,by simp⟩
    · split
      · rename_i closing
        simp only [Bool.and_eq_true,Bool.not_eq_true',beq_iff_eq] at closing
        split
        · refine ⟨⟨next,sending.buf,low,high,sending.window⟩,⟨paced.cwndLow,paced.cwndHigh,paced.rtoHigh⟩,
            ?_,rfl,rfl,fun frame member => ?_⟩
          · constructor <;> first | exact Nat.le_refl _ | rfl | exact fun _ => rfl
          · rw [List.mem_singleton] at member
            subst member
            exact .data (Segment.nil (by omega)) (by simp only [List.length_nil]; omega) (by simp)
              (fun _ => ⟨closing.1.1,closing.1.2,by simp only [List.length_nil]; omega,rfl⟩)
        · exact ⟨sending,paced,.refl s,rfl,rfl,by simp⟩
      · exact ⟨sending,paced,.refl s,rfl,rfl,by simp⟩

theorem transmitData_data (s : StreamState) (now : Nat) {frame : Frame} (member : frame ∈ (s.transmitData now).2) :
    ∃ off d fin, frame = .streamData s.id off d fin ∧ d.length ≤ maxStreamChunk := by
  have emitted : ∀ off stop, frame ∈ (s.emitRange off stop).2 →
      ∃ o d fin, frame = .streamData s.id o d fin ∧ d.length ≤ maxStreamChunk := by
    intro off stop member
    obtain ⟨c,chunk,rfl⟩ := List.mem_map.mp member
    have small := (chunks_mem chunk).2.2.2
    refine ⟨_,_,_,rfl,?_⟩
    rw [List.length_take]
    omega
  unfold transmitData at member
  split at member
  · exact emitted _ _ member
  · split at member
    · split at member
      · exact emitted _ _ member
      · simp at member
    · split at member
      · split at member
        · exact ⟨_,_,_,List.mem_singleton.mp member,Nat.zero_le _⟩
        · simp at member
      · simp at member

/-- Fields that no branch of the data part touches, whatever the state. -/
theorem transmitData_same (s : StreamState) (now : Nat) :
    (s.transmitData now).1.id = s.id ∧ (s.transmitData now).1.recv = s.recv ∧
    (s.transmitData now).1.closeStatus = s.closeStatus ∧ (s.transmitData now).1.finAcked = s.finAcked := by
  unfold transmitData
  split
  · exact ⟨rfl,rfl,rfl,rfl⟩
  · split
    · split <;> exact ⟨rfl,rfl,rfl,rfl⟩
    · split
      · split <;> exact ⟨rfl,rfl,rfl,rfl⟩
      · exact ⟨rfl,rfl,rfl,rfl⟩

/-- The advertised receive window. -/
def window (s : StreamState) : Nat := defaultWindow - min s.recv.unread defaultWindow

theorem transmitOpen_fst (s : StreamState) : s.transmitOpen.1 = { s with needsOpen := false } := by
  unfold transmitOpen
  split
  · rfl
  · cases s; simp_all

/-- The state after the data part of a transmit, the StreamOpen having been sent. -/
def afterData (s : StreamState) (now : Nat) : StreamState × List Frame :=
  ({ s with needsOpen := false }).transmitData now

theorem transmit_eq (s : StreamState) (now : Nat) (live : s.reset = false) :
    s.transmit now = (({ (s.afterData now).1 with recvWindow := (s.afterData now).1.window }).countClose,
      s.transmitOpen.2 ++ (s.afterData now).2 ++
        [.streamAck (s.afterData now).1.id (s.afterData now).1.recv.ackPoint (s.afterData now).1.window] ++
        (s.afterData now).1.transmitClose) := by
  unfold transmit afterData
  rw [if_neg (by simp [live]),← transmitOpen_fst]
  rfl

theorem countClose_eq (s : StreamState) : s.countClose =
    { s with closeTicks := if s.awaitsFin then min (s.closeTicks + 1) u32Max else s.closeTicks } := by
  unfold countClose
  split <;> rfl

/-- One transmit of a stream that is not reset: what it keeps and what it sends. -/
theorem transmit_spec {w : Bytes} {s : StreamState} (sending : Sending w s) (paced : s.Paced)
    (live : s.reset = false) (now : Nat) :
    Sending w (s.transmit now).1 ∧ (s.transmit now).1.Paced ∧ Kept s (s.transmit now).1 ∧
    (s.transmit now).1.needsOpen = false ∧
    (s.transmit now).1.closeTicks =
      (if s.awaitsFin then min (s.closeTicks + 1) u32Max else s.closeTicks) ∧
    ∀ frame ∈ (s.transmit now).2, Emits w s (s.transmit now).1 frame := by
  have sending' : Sending w { s with needsOpen := false } :=
    ⟨sending.next,sending.buf,sending.low,sending.high,sending.window⟩
  have paced' : Paced { s with needsOpen := false } := ⟨paced.cwndLow,paced.cwndHigh,paced.rtoHigh⟩
  obtain ⟨sent,pace,kept,closed,ticks,frames⟩ := transmitData_spec sending' paced' now
  rw [transmit_eq s now live,countClose_eq]
  change Sending w (s.afterData now).1 at sent
  change (s.afterData now).1.Paced at pace
  change Kept { s with needsOpen := false } (s.afterData now).1 at kept
  have awaits : awaitsFin { (s.afterData now).1 with recvWindow := (s.afterData now).1.window } = s.awaitsFin := by
    simp only [awaitsFin,kept.closeReceived,kept.sendFin,kept.peerFin]
  refine ⟨⟨sent.next,sent.buf,sent.low,sent.high,sent.window⟩,⟨pace.cwndLow,pace.cwndHigh,pace.rtoHigh⟩,
    ⟨kept.id,kept.buf,kept.base,kept.next,kept.high,kept.peerWindow,kept.sendFin,kept.finSent,
      kept.finAcked,kept.closeStatus,kept.recv,kept.peerFin,kept.closeReceived,kept.reset⟩,closed,?_,?_⟩
  · rw [awaits]
    dsimp only
    rw [show (s.afterData now).1.closeTicks = s.closeTicks from ticks]
  · intro frame member
    simp only [List.mem_append] at member
    rcases member with ((opening | data) | ack) | close
    · unfold transmitOpen at opening
      split at opening
      · rename_i owed
        rw [List.mem_singleton] at opening
        subst opening
        exact .opening owed
      · simp at opening
    · cases frames frame data with
      | opening owed => cases owed
      | data segment reach small flag => exact .data segment reach small flag
      | ack le => exact .ack le
      | close status unacked => exact .close status unacked
    · rw [List.mem_singleton] at ack
      subst ack
      rw [kept.id,kept.recv]
      exact .ack (Nat.sub_le _ _)
    · unfold transmitClose at close
      rw [kept.closeStatus,kept.finAcked,kept.id] at close
      split at close
      · rename_i status present
        split at close
        · simp at close
        · rename_i unacked
          rw [List.mem_singleton] at close
          subst close
          exact .close present (by simpa using unacked)
      · simp at close

/-- A closed stream whose FIN is not acked says so in every transmit. -/
theorem transmit_close_mem {s : StreamState} (live : s.reset = false) {status : Int}
    (closed : s.closeStatus = some status) (unacked : s.finAcked = false) (now : Nat) :
    .streamClose s.id status ∈ (s.transmit now).2 := by
  obtain ⟨own,_,status',acked⟩ := transmitData_same { s with needsOpen := false } now
  change (s.afterData now).1.id = s.id at own
  change (s.afterData now).1.closeStatus = s.closeStatus at status'
  change (s.afterData now).1.finAcked = s.finAcked at acked
  rw [transmit_eq s now live]
  apply List.mem_append_right
  unfold transmitClose
  rw [own,status',acked,closed,unacked]
  simp

/-- The grace window ends with this transmit. -/
def graceEnds (s : StreamState) : Bool := s.awaitsFin && decide (closeGraceTicks ≤ s.closeTicks + 1)

/-- A stream whose grace window was still running is reclaimed either because both
directions are done, or because the window ends now. -/
theorem transmit_done {w : Bytes} {s : StreamState} (sending : Sending w s) (paced : s.Paced)
    (live : s.reset = false) (waiting : s.closeTicks < closeGraceTicks) (now : Nat) :
    ((s.transmit now).1.fullyDone = false → (s.transmit now).1.closeTicks < closeGraceTicks) ∧
    ((s.transmit now).1.fullyDone = true →
      s.sendFin = true ∧ (s.finAcked = true ∧ s.recvFinished = true ∨ s.graceEnds = true)) := by
  obtain ⟨_,_,kept,_,ticks,_⟩ := transmit_spec sending paced live now
  have finished : (s.transmit now).1.recvFinished = s.recvFinished := by
    simp only [recvFinished,kept.peerFin,kept.recv]
  have small : closeGraceTicks ≤ u32Max := by decide
  unfold fullyDone graceOver graceEnds
  rw [ticks,finished,kept.sendFin,kept.finAcked,kept.closeReceived]
  cases awaits : s.awaitsFin with
  | true =>
    have waits := awaits
    simp only [awaitsFin,Bool.and_eq_true] at waits
    simp only [waits.1.1,waits.1.2,Bool.not_true,Bool.false_eq_true,if_false,if_true,Bool.true_and,true_and]
    constructor
    · intro open_
      split at open_
      · cases open_
      · simp only [decide_eq_false_iff_not] at open_ ⊢
        omega
    · intro done
      split at done
      · rename_i both
        exact .inl (by simpa using both)
      · simp only [decide_eq_true_eq] at done ⊢
        omega
  | false =>
    simp only [Bool.false_eq_true,if_false]
    refine ⟨fun _ => waiting,fun done => ?_⟩
    split at done
    · cases done
    · rename_i closing
      refine ⟨by simpa using closing,?_⟩
      split at done
      · rename_i both
        exact .inl (by simpa using both)
      · simp only [Bool.and_eq_true,decide_eq_true_eq] at done
        omega

theorem transmit_id (s : StreamState) (now : Nat) : (s.transmit now).1.id = s.id := by
  cases live : s.reset with
  | true => simp [transmit,live]
  | false =>
    rw [transmit_eq s now live,countClose_eq]
    exact (transmitData_same { s with needsOpen := false } now).1

/-- Every frame of a transmit names its own stream. -/
theorem transmit_streamId (s : StreamState) (now : Nat) {frame : Frame}
    (member : frame ∈ (s.transmit now).2) : frame.streamId = some s.id := by
  cases live : s.reset with
  | true => simp [transmit,live] at member
  | false =>
    have same : (s.afterData now).1.id = s.id := (transmitData_same { s with needsOpen := false } now).1
    rw [transmit_eq s now live] at member
    simp only [List.mem_append,List.mem_singleton,same] at member
    rcases member with ((opening | data') | rfl) | close
    · unfold transmitOpen at opening
      split at opening
      · rw [List.mem_singleton] at opening
        subst opening
        rfl
      · simp at opening
    · obtain ⟨off,d,fin,rfl,_⟩ := transmitData_data _ now data'
      rfl
    · rfl
    · unfold transmitClose at close
      rw [same] at close
      split at close
      · split at close
        · simp at close
        · rw [List.mem_singleton] at close
          subst close
          rfl
      · simp at close

/-- A transmit opens the stream at most once, and only when that is owed. -/
theorem transmit_opens (s : StreamState) (now k : Nat) : (s.transmit now).2.filter (Frame.opens k) =
    if s.reset = false ∧ s.needsOpen = true ∧ s.id = k then [.streamOpen s.id s.kind s.metadata] else [] := by
  cases live : s.reset with
  | true => simp [transmit,live]
  | false =>
    have data : ∀ frame ∈ (s.afterData now).2, Frame.opens k frame = false := by
      intro frame member
      obtain ⟨off,d,fin,rfl,_⟩ := transmitData_data _ now member
      rfl
    have close : ∀ frame ∈ (s.afterData now).1.transmitClose, Frame.opens k frame = false := by
      unfold transmitClose
      intro frame member
      split at member
      · split at member
        · simp at member
        · rw [List.mem_singleton.mp member]; rfl
      · simp at member
    have noData : (s.afterData now).2.filter (Frame.opens k) = [] :=
      List.filter_eq_nil_iff.mpr (fun frame member => by simp [data frame member])
    have noClose : (s.afterData now).1.transmitClose.filter (Frame.opens k) = [] :=
      List.filter_eq_nil_iff.mpr (fun frame member => by simp [close frame member])
    rw [transmit_eq s now live]
    simp only [List.filter_append,noData,noClose]
    unfold transmitOpen
    cases s.needsOpen <;> simp [Frame.opens,List.filter_cons]

theorem onData_eq (s : StreamState) (offset : Nat) (data : Bytes) (fin : Bool) :
    (s.onData offset data fin).1 = { s with
      recv := if s.accepts offset data then s.recv.insert offset data else s.recv
      peerFin := if s.accepts offset data ∧ fin = true ∧ s.peerFin = .opened
        then .finished (offset + data.length) else s.peerFin } := by
  unfold onData
  split
  · rename_i accepted
    simp only [recordFin,accepted,true_and,Bool.and_eq_true,beq_iff_eq]
    split <;> rfl
  · rename_i refused
    simp [refused]

end StreamState
end Noissh

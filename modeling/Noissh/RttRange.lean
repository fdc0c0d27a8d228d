import Noissh.HostilePeer
import Noissh.SendRuns

/-! The RTT, timeout and congestion arithmetic of a stream over its runs. Beside the additions and
multiplications of the source's words, the cast of a tick difference fails here if it loses a bit,
and the window and the timeout fail where the source would saturate. No run of a stream reaches
such a failure, whatever is acknowledged. -/
namespace Noissh

open Checked

namespace StreamState

def growCwndExact (s : StreamState) (acked : Nat) : Option StreamState := do
  let inc ←
    -- An ack of bytes never sent may cover more than a word counts, of which at most a segment matters.
    if s.cwnd < s.ssthresh then pure (min (acked % 2^32) mss)
    else do
      let square ← mul 64 mss mss
      cast 32 (max (square / max s.cwnd 1) 1)
  let cwnd ← add 32 s.cwnd inc
  pure { s with cwnd := min cwnd maxCwnd }

def onRtoExact (s : StreamState) : Option StreamState := do
  let floor ← mul 32 2 mss
  let rto ← mul 32 s.rto 2
  pure { s with ssthresh := max (s.cwnd / 2) floor, cwnd := mss, rto := min rto maxRto, timed := none }

def ackDataExact (s : StreamState) (ack now : Nat) : Option StreamState := do
  if s.sendBase < ack then
    let distance ← sub ack s.sendBase
    let advance := min distance s.sendBuf.length
    let buf ← drain s.sendBuf advance
    let base ← add 64 s.sendBase advance
    let high := max s.sendHigh base
    let s ← growCwndExact { s with sendBuf := buf, sendBase := base, sendHigh := high } advance
    recomputeRtoChecked { s with rtoStart := if base < high then some now else none }
  else pure s

def ackTimedExact (s : StreamState) (ack now : Nat) : Option StreamState :=
  match s.timed with
  | some (seq,sent) =>
    if seq ≤ ack then do
      let sample ← cast 32 (max (now - sent) 1)
      let s ← s.updateRttChecked sample
      pure { s with timed := none }
    else some s
  | none => some s

def onAckExact (s : StreamState) (ack window now : Nat) : Option StreamState :=
  if s.sendNext < ack then some s
  else do
    let s ← ({ s with peerWindow := window }).ackDataExact ack now
    let s ← s.ackTimedExact ack now
    pure (s.ackFin ack)

def transmitDataExact (s : StreamState) (now : Nat) : Option (StreamState × List Frame) := do
  let limit ← add 64 s.sendBase (min s.peerWindow s.cwnd)
  let sendEnd := min s.sendNext limit
  if s.sendHigh < sendEnd then
    let (t,out) ← s.emitRangeChecked (max s.sendHigh s.sendBase) sendEnd
    pure ({ t with
      timed := t.timed.or (some (sendEnd,now))
      sendHigh := sendEnd
      rtoStart := t.rtoStart.or (some now) },out)
  else if s.sendBase < s.sendHigh then
    if s.rtoDue now then
      let (t,out) ← s.emitRangeChecked s.sendBase s.sendHigh
      let t ← ({ t with rtoStart := some now }).onRtoExact
      pure (t,out)
    else pure (s,[])
  else if s.sendFin && !s.finAcked && s.sendNext == s.sendBase then
    if !s.finSent || s.rtoDue now then
      pure ({ s with finSent := true, rtoStart := some now },[.streamData s.id s.sendNext [] true])
    else pure (s,[])
  else pure (s,[])

def transmitExact (s : StreamState) (now : Nat) : Option (StreamState × List Frame) :=
  if s.reset then some (s,[])
  else do
    let (s,opening) := s.transmitOpen
    let (s,data) ← s.transmitDataExact now
    let (s,acks) ← s.transmitAckChecked
    pure (s.countClose,opening ++ data ++ acks ++ s.transmitClose)

variable {s : StreamState} {w : Bytes} {now : Nat}

theorem growCwndExact_eq (paced : s.Paced) (acked : Nat) : s.growCwndExact acked = some (s.growCwnd acked) := by
  have low := paced.cwndLow
  have high := paced.cwndHigh
  have square : mss * mss < 2^64 := by decide
  have step : max (mss * mss / max s.cwnd 1) 1 ≤ mss * mss := Nat.max_le.mpr ⟨Nat.div_le_self _ _,by decide⟩
  have narrow : max (mss * mss / max s.cwnd 1) 1 < 2^32 := Nat.lt_of_le_of_lt step (by decide)
  have sum : ∀ inc ≤ mss * mss, add 32 s.cwnd inc = some (s.cwnd + inc) ∧ min (s.cwnd + inc) u32Max = s.cwnd + inc := by
    intro inc small
    have fits : s.cwnd + inc ≤ u32Max := Nat.le_trans (Nat.add_le_add high small) (by decide)
    exact ⟨add_some (Nat.lt_of_le_of_lt fits (by decide)),Nat.min_eq_left fits⟩
  unfold growCwndExact growCwnd
  split
  · obtain ⟨added,whole⟩ := sum (min (acked % 2^32) mss) (Nat.le_trans (Nat.min_le_right _ _) (by decide))
    simp only [Option.pure_def,Option.bind_eq_bind,Option.bind_some,added,whole]
  · obtain ⟨added,whole⟩ := sum _ step
    simp only [Option.pure_def,Option.bind_eq_bind,Option.bind_some,mul_some square,cast_some narrow,added,whole]

theorem onRtoExact_eq (paced : s.Paced) : s.onRtoExact = some s.onRto := by
  have high := paced.rtoHigh
  have limit : maxRto * 2 ≤ u32Max := by decide
  have doubled : s.rto * 2 < 2^32 := Nat.lt_of_le_of_lt (Nat.le_trans (Nat.mul_le_mul_right 2 high) limit) (by decide)
  unfold onRtoExact onRto
  rw [mul_some (show 2 * mss < 2^32 by decide),mul_some doubled,Nat.min_eq_left (show s.rto * 2 ≤ u32Max by omega)]
  rfl

/-- What the stream owes and what the peer allows are not part of what it keeps. -/
theorem Guarded.allowed (guarded : s.Guarded now) (needsOpen : Bool) (peerWindow : Nat) :
    Guarded now { s with needsOpen, peerWindow } where
  sending := guarded.sending.imp fun _ sending => ⟨sending.next,sending.buf,sending.low,sending.high,sending.window⟩
  paced := ⟨guarded.paced.cwndLow,guarded.paced.cwndHigh,guarded.paced.rtoHigh⟩
  clocked := guarded.clocked.congr rfl rfl rfl rfl rfl rfl
  room := guarded.room
  valid := guarded.valid
  below := guarded.below

/-- The additions of an ack are the checked ones; growing the window adds none that fails. -/
theorem ackDataExact_eq (guarded : s.Guarded now) (ack : Nat) : s.ackDataExact ack now = some (s.ackData ack now) := by
  obtain ⟨w,sending⟩ := guarded.sending
  have grown : ∀ buf base high advance, growCwndExact { s with sendBuf := buf, sendBase := base, sendHigh := high } advance =
      some (growCwnd { s with sendBuf := buf, sendBase := base, sendHigh := high } advance) := fun buf base high advance =>
    @growCwndExact_eq { s with sendBuf := buf, sendBase := base, sendHigh := high }
      ⟨guarded.paced.cwndLow,guarded.paced.cwndHigh,guarded.paced.rtoHigh⟩ advance
  rw [← ackDataChecked_eq guarded.clocked sending (Nat.le_trans (Nat.le_add_right _ _) guarded.room)]
  unfold ackDataExact ackDataChecked
  simp only [grown,Option.bind_eq_bind,Option.bind_some,Option.pure_def]

theorem ackTimedExact_eq (guarded : s.Guarded now) (ack : Nat) :
    (s.ackData ack now).ackTimedExact ack now = some ((s.ackData ack now).ackTimed ack now) := by
  obtain ⟨w,sending⟩ := guarded.sending
  rw [← ackTimedChecked_eq guarded.clocked sending]
  unfold ackTimedExact ackTimedChecked
  rw [(ackData_timing s ack now).2.2.1]
  cases probed : s.timed with
  | none => rfl
  | some probe =>
    have bound := (guarded.clocked.probe probe.1 probe.2 probed).bound sending.window
    have limit := rttLimit_lt
    have narrow : max (now - probe.2) 1 < 2^32 := by omega
    simp only [cast_some narrow,Nat.mod_eq_of_lt narrow,Option.bind_eq_bind,Option.bind_some]

theorem onAckExact_eq (guarded : s.Guarded now) (ack window : Nat) :
    s.onAckExact ack window now = some (s.onAck ack window now) := by
  unfold onAckExact onAck
  split
  · rfl
  have guarded' : Guarded now { s with peerWindow := window } := guarded.allowed s.needsOpen window
  simp only [ackDataExact_eq guarded',ackTimedExact_eq guarded',Option.bind_eq_bind,Option.bind_some,Option.pure_def]

theorem transmitDataExact_eq (guarded : s.Guarded now) (later : Nat) :
    s.transmitDataExact later = some (s.transmitData later) := by
  obtain ⟨w,sending⟩ := guarded.sending
  have again := emitRangeChecked_eq sending (Nat.le_refl _) sending.high guarded.room
  have timeout : onRtoExact { (s.emitRange s.sendBase s.sendHigh).1 with rtoStart := some later } =
      some (onRto { (s.emitRange s.sendBase s.sendHigh).1 with rtoStart := some later }) :=
    onRtoExact_eq ⟨guarded.paced.cwndLow,guarded.paced.cwndHigh,guarded.paced.rtoHigh⟩
  rw [← transmitDataChecked_eq sending guarded.paced guarded.room]
  unfold transmitDataExact transmitDataChecked
  simp only [again,timeout,Option.bind_eq_bind,Option.bind_some,Option.pure_def]

theorem transmitExact_eq (guarded : s.Guarded now) (later : Nat) : s.transmitExact later = some (s.transmit later) := by
  obtain ⟨w,sending⟩ := guarded.sending
  have opened : s.transmitOpen.1.Guarded now := by
    rw [transmitOpen_fst]
    exact guarded.allowed false s.peerWindow
  obtain ⟨w,sending'⟩ := opened.sending
  rw [← transmitChecked_eq sending guarded.paced guarded.room guarded.valid guarded.below]
  unfold transmitExact transmitChecked
  simp only [transmitDataExact_eq opened,transmitDataChecked_eq sending' opened.paced opened.room]

/-- The timeout, the congestion window and the slow-start threshold are in their ranges. -/
structure Ranged (s : StreamState) : Prop where
  rto : minRto ≤ s.rto ∧ s.rto ≤ maxRto
  cwnd : mss ≤ s.cwnd ∧ s.cwnd ≤ maxCwnd
  ssthresh : 2 * mss ≤ s.ssthresh

/-- The lower bounds that `Paced` does not have. -/
structure Floored (s : StreamState) : Prop where
  rto : minRto ≤ s.rto
  ssthresh : 2 * mss ≤ s.ssthresh

theorem Floored.recomputeRto (floored : s.Floored) : s.recomputeRto.Floored := by
  refine ⟨?_,floored.ssthresh⟩
  simp only [StreamState.recomputeRto]
  split
  · exact Nat.le_max_left _ _
  · decide

theorem Floored.updateRtt (floored : s.Floored) (r : Nat) : (s.updateRtt r).Floored := by
  have kept : ∀ srtt rttvar, Floored { s with srtt, rttvar } := fun _ _ => ⟨floored.rto,floored.ssthresh⟩
  unfold StreamState.updateRtt
  split
  · exact (kept _ _).recomputeRto
  · exact (kept _ _).recomputeRto

theorem Floored.ackData (floored : s.Floored) (ack now : Nat) : (s.ackData ack now).Floored := by
  unfold StreamState.ackData
  split
  · exact Floored.recomputeRto ⟨floored.rto,floored.ssthresh⟩
  · exact floored

theorem Floored.ackTimed (floored : s.Floored) (ack now : Nat) : (s.ackTimed ack now).Floored := by
  unfold StreamState.ackTimed
  split
  · rename_i seq sent _
    split
    · have updated := floored.updateRtt (max (now - sent) 1 % 2^32)
      exact ⟨updated.rto,updated.ssthresh⟩
    · exact floored
  · exact floored

theorem Floored.onAck (floored : s.Floored) (ack window now : Nat) : (s.onAck ack window now).Floored := by
  unfold StreamState.onAck
  split
  · exact floored
  have start : Floored { s with peerWindow := window } := ⟨floored.rto,floored.ssthresh⟩
  have sampled := (start.ackData ack now).ackTimed ack now
  obtain ⟨finAcked,_,acked⟩ :=
    ackFin_eq (StreamState.ackTimed (StreamState.ackData { s with peerWindow := window } ack now) ack now) ack
  rw [acked]
  exact ⟨sampled.rto,sampled.ssthresh⟩

theorem Floored.onRto (floored : s.Floored) : s.onRto.Floored := by
  have low := floored.rto
  have top : minRto ≤ maxRto ∧ minRto ≤ u32Max := by decide
  refine ⟨?_,Nat.le_max_right _ _⟩
  simp only [StreamState.onRto]
  omega

theorem Floored.transmit (floored : s.Floored) (now : Nat) : (s.transmit now).1.Floored := by
  cases live : s.reset with
  | true =>
    simp only [StreamState.transmit,live,if_true]
    exact floored
  | false =>
    have data : (s.afterData now).1.Floored := by
      unfold afterData transmitData
      split
      · exact ⟨floored.rto,floored.ssthresh⟩
      · split
        · split
          · exact Floored.onRto ⟨floored.rto,floored.ssthresh⟩
          · exact ⟨floored.rto,floored.ssthresh⟩
        · split
          · split <;> exact ⟨floored.rto,floored.ssthresh⟩
          · exact ⟨floored.rto,floored.ssthresh⟩
    rw [transmit_eq s now live,countClose_eq]
    exact ⟨data.rto,data.ssthresh⟩

end StreamState

namespace Sender

open StreamState

/-- A call, `none` where some arithmetic leaves its words. -/
def stepExact (s : Sender) : Call → Option Sender
  | .write data => do
    let stream ← s.stream.writeChecked data
    pure { s with stream, wrote := s.wrote ++ data }
  | .read => do
    let (_,recv) ← s.stream.recv.readChecked
    pure { s with stream := { s.stream with recv } }
  | .poll => do
    let now ← add 64 s.now 1
    let (stream,out) ← s.stream.transmitExact now
    pure { stream, now, wrote := s.wrote, sent := s.sent ++ out }
  | .data offset data fin => do
    let (stream,_) ← s.stream.onDataChecked offset data fin
    pure { s with stream }
  | .ack ack window => do
    let stream ← s.stream.onAckExact ack window s.now
    pure { s with stream }
  | c => some (s.step c)

/-- A stream that was not reset and keeps what makes its arithmetic exact. -/
structure Steady (s : Sender) : Prop where
  guarded : s.stream.Guarded s.now
  wrote : s.stream.sendNext = s.wrote.length
  live : s.stream.reset = false
  floored : s.stream.Floored

/-- Less than 2^63 ticks and bytes. -/
def Small (s : Sender) : Prop := s.now < 2^63 ∧ s.wrote.length < 2^63

instance (s : Sender) : Decidable s.Small := inferInstanceAs (Decidable (_ ∧ _))

variable {s : Sender}

theorem Steady.ranged (steady : s.Steady) : s.stream.Ranged :=
  ⟨⟨steady.floored.rto,steady.guarded.paced.rtoHigh⟩,
    ⟨steady.guarded.paced.cwndLow,steady.guarded.paced.cwndHigh⟩,steady.floored.ssthresh⟩

theorem start_steady (id : Nat) (kind : StreamKind) (metadata : Bytes) (needsOpen : Bool) (born : Nat) :
    (start id kind metadata needsOpen born).Steady where
  guarded := new_guarded born id kind metadata needsOpen
  wrote := rfl
  live := rfl
  floored := ⟨show minRto ≤ initRto by decide,show 2 * mss ≤ maxCwnd by decide⟩

/-- Ticks and bytes only grow. -/
theorem Small.before {c : Call} (small : (s.step c).Small) : s.Small := by
  obtain ⟨ticks,bytes⟩ := small
  cases c with
  | write data =>
    rw [step,List.length_append] at bytes
    exact ⟨ticks,by omega⟩
  | poll => exact ⟨Nat.lt_of_succ_lt ticks,bytes⟩
  | _ => exact ⟨ticks,bytes⟩

theorem Small.start {calls : List Call} (small : (Machine.run step calls s).Small) : s.Small := by
  induction calls generalizing s with
  | nil => exact small
  | cons c rest ih => exact (ih small).before

/-- One call keeps what the arithmetic needs, and its arithmetic is exact. -/
theorem step_steady (steady : s.Steady) {c : Call} (alive : c ≠ .reset) (small : (s.step c).Small) :
    (s.step c).Steady ∧ s.stepExact c = some (s.step c) := by
  obtain ⟨guarded,wrote,live,floored⟩ := steady
  obtain ⟨ticks,bytes⟩ := small
  have word : 2^63 + defaultWindow ≤ u64Max := by decide
  cases c with
  | write data =>
    rw [step,List.length_append] at bytes
    have room : s.stream.sendNext + data.length + defaultWindow ≤ u64Max := by omega
    refine ⟨⟨guarded.write room,?_,live,floored.rto,floored.ssthresh⟩,?_⟩
    · simp [step,write,wrote]
    · simp only [stepExact,writeChecked_eq (Nat.le_trans (Nat.le_add_right _ _) room),Option.bind_eq_bind,Option.bind_some]
      rfl
  | reset => exact absurd rfl alive
  | close status =>
      exact ⟨⟨guarded.flag true s.stream.closeReceived s.stream.reset (some status),wrote,live,floored.rto,floored.ssthresh⟩,rfl⟩
  | closed =>
      exact ⟨⟨guarded.flag s.stream.sendFin true s.stream.reset s.stream.closeStatus,wrote,live,
      floored.rto,floored.ssthresh⟩,rfl⟩
  | read =>
    refine ⟨⟨guarded.read,wrote,live,floored.rto,floored.ssthresh⟩,?_⟩
    simp only [stepExact,Reassembler.readChecked_eq guarded.valid guarded.below,Option.bind_eq_bind,Option.bind_some]
    rfl
  | poll =>
    obtain ⟨w,sending⟩ := guarded.sending
    have same := (transmit_spec sending guarded.paced live (s.now + 1)).2.2.1
    refine ⟨⟨guarded.transmit live,same.next.trans wrote,same.reset.trans live,floored.transmit (s.now + 1)⟩,?_⟩
    have clock : s.now + 1 < 2^64 := Nat.lt_trans ticks (by decide)
    simp only [stepExact,add_some clock,transmitExact_eq guarded,Option.bind_eq_bind,Option.bind_some]
    rfl
  | data offset data fin =>
    refine ⟨⟨guarded.onData offset data fin,?_,?_,?_,?_⟩,?_⟩
    · simp only [step,onData_eq]
      exact wrote
    · simp only [step,onData_eq]
      exact live
    · simp only [step,onData_eq]
      exact floored.rto
    · simp only [step,onData_eq]
      exact floored.ssthresh
    · simp only [stepExact,onDataChecked_eq guarded.valid guarded.below,Option.bind_eq_bind,Option.bind_some]
      rfl
  | ack ack window =>
    obtain ⟨_,_,_,_,_,_,_,_,_,_,_,acked⟩ := s.stream.onAck_eq ack window s.now
    refine ⟨⟨guarded.onAck ack window,?_,?_,floored.onAck ack window s.now⟩,?_⟩
    · simp only [step,acked]
      exact wrote
    · simp only [step,acked]
      exact live
    · simp only [stepExact,onAckExact_eq guarded,Option.bind_eq_bind,Option.bind_some]
      rfl

theorem run_steady (steady : s.Steady) {calls : List Call} (alive : .reset ∉ calls) (small : (Machine.run step calls s).Small) :
    (Machine.run step calls s).Steady ∧ calls.foldlM stepExact s = some (Machine.run step calls s) := by
  induction calls generalizing s with
  | nil => exact ⟨steady,rfl⟩
  | cons c rest ih =>
    have first : .reset ≠ c := fun same => alive (same ▸ List.mem_cons_self)
    have later : .reset ∉ rest := fun member => alive (List.mem_cons_of_mem c member)
    obtain ⟨next,exact_⟩ := step_steady steady (Ne.symm first) (Small.start small)
    rw [List.foldlM_cons,exact_]
    exact ih next later small

/-- In every run of a stream that is not reset, with less than 2^63 ticks and bytes and whatever is
acknowledged when: up to every point no arithmetic overflows, no tick difference is cut by its
cast, and timeout, congestion window and threshold are in their ranges. -/
theorem arithmetic_in_range (id : Nat) (kind : StreamKind) (metadata : Bytes) (needsOpen : Bool) (born : Nat) (calls : List Call)
    (alive : .reset ∉ calls) (small : (Machine.run step calls (start id kind metadata needsOpen born)).Small) :
    ∀ earlier, earlier <+: calls → ∃ s, earlier.foldlM stepExact (start id kind metadata needsOpen born) = some s ∧
      s = Machine.run step earlier (start id kind metadata needsOpen born) ∧ s.stream.Ranged := by
  rintro earlier ⟨later,rfl⟩
  rw [Machine.run_append] at small
  obtain ⟨steady,exact_⟩ := run_steady (start_steady id kind metadata needsOpen born)
    (fun member => alive (List.mem_append_left _ member)) (Small.start small)
  exact ⟨_,exact_,rfl,steady.ranged⟩

/-- A probe that is answered, and a second one that a timeout ends. -/
theorem arithmetic_in_range_timeout :
    let calls := [.write [1],.poll,.ack 1 100,.write [2]] ++ List.replicate 5 Call.poll
    (∃ s, calls.foldlM stepExact (start 0 .forward [] true 0) = some s ∧ s.stream.srtt = 1 ∧ s.stream.cwnd = mss) := by
  intro calls
  obtain ⟨s,returned,rfl,_⟩ := arithmetic_in_range 0 .forward [] true 0 calls (by decide)
    (by decide +kernel) calls (List.prefix_refl _)
  exact ⟨_,returned,by decide +kernel⟩

end Sender
end Noissh

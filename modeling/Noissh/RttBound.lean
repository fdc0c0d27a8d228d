import Noissh.StreamStateSpec

/-! How long an RTT probe can be under way. The peer may answer as late as it likes and
acknowledge as little as it likes, but a probe ends with the first retransmission: every poll
in between either sends new data, of which the congestion window admits only so much, or finds
the timer running, and the timer is restarted only by an ack that moves the send base towards
the probed offset. -/
namespace Noissh
namespace StreamState

/-- The most ticks an RTT sample can measure. -/
def rttLimit : Nat := (maxRto + 1) * maxCwnd

/-- A probe of the data up to `seq`, sent at tick `sent`, is under way. -/
structure Probing (now seq sent : Nat) (s : StreamState) : Prop where
  low : s.sendBase < seq
  high : seq ≤ s.sendHigh
  waiting : ∃ t, s.rtoStart = some t ∧
    now - sent ≤ maxRto * (maxCwnd - (seq - s.sendBase)) + (s.sendHigh - seq) + min (now - t) maxRto

structure Clocked (now : Nat) (s : StreamState) : Prop where
  srtt : s.srtt ≤ rttLimit
  rttvar : s.rttvar ≤ rttLimit
  started : ∀ t, s.rtoStart = some t → t ≤ now
  probe : ∀ seq sent, s.timed = some (seq,sent) → Probing now seq sent s

variable {s t : StreamState} {w : Bytes} {now seq sent : Nat}

theorem Probing.bound (probing : Probing now seq sent s) (window : s.sendHigh ≤ s.sendBase + defaultWindow) :
    now - sent ≤ rttLimit := by
  obtain ⟨low,high,t,_,waiting⟩ := probing
  simp only [rttLimit,maxRto,maxCwnd,defaultWindow] at *
  omega

theorem new_clocked (now id : Nat) (kind : StreamKind) (metadata : Bytes) (needsOpen : Bool) :
    Clocked now (new id kind metadata needsOpen) := by
  constructor <;> simp [new]

/-- Only these fields are read. -/
theorem Clocked.congr (clocked : Clocked now s) (srtt : t.srtt = s.srtt) (rttvar : t.rttvar = s.rttvar)
    (rtoStart : t.rtoStart = s.rtoStart) (timed : t.timed = s.timed) (base : t.sendBase = s.sendBase)
    (high : t.sendHigh = s.sendHigh) : Clocked now t := by
  refine ⟨srtt ▸ clocked.srtt,rttvar ▸ clocked.rttvar,fun start => rtoStart ▸ clocked.started start,fun seq sent open_ => ?_⟩
  have probing := clocked.probe seq sent (timed ▸ open_)
  exact ⟨base ▸ probing.low,high ▸ probing.high,by rw [rtoStart,base,high]; exact probing.waiting⟩

theorem updateRtt_small (srtt : s.srtt ≤ rttLimit) (rttvar : s.rttvar ≤ rttLimit) {r : Nat} (sample : r ≤ rttLimit) :
    (s.updateRtt r).srtt ≤ rttLimit ∧ (s.updateRtt r).rttvar ≤ rttLimit := by
  unfold updateRtt
  split
  · exact ⟨sample,Nat.le_trans (Nat.div_le_self _ _) sample⟩
  · have spread := Nat.mod_le (3 * s.rttvar + (max s.srtt r - min s.srtt r)) (2^32)
    have total := Nat.mod_le (7 * s.srtt + r) (2^32)
    constructor <;> simp only [recomputeRto] <;> omega

theorem sample_small {late : Nat} (bound : late ≤ rttLimit) : max late 1 % 2^32 ≤ rttLimit := by
  have positive : 1 ≤ rttLimit := by decide
  have le := Nat.mod_le (max late 1) (2^32)
  omega

/-- The part of an ack that moves the base leaves the estimate alone, and restarts the timer or
finds everything sent acknowledged. -/
theorem ackData_timing (s : StreamState) (ack now : Nat) :
    (s.ackData ack now).srtt = s.srtt ∧ (s.ackData ack now).rttvar = s.rttvar ∧ (s.ackData ack now).timed = s.timed ∧
    (s.ackData ack now).rtoStart = if s.sendBase < ack then
      (if (s.ackData ack now).sendBase < (s.ackData ack now).sendHigh then some now else none) else s.rtoStart := by
  unfold ackData
  split
  · exact ⟨rfl,rfl,rfl,rfl⟩
  · exact ⟨rfl,rfl,rfl,rfl⟩

/-- A probe that the ack does not reach stays under way, with the timer restarted if the base
came closer. -/
theorem Probing.ackData {ack : Nat} (probing : Probing now seq sent s) (sending : Sending w s) (short : ack < seq) :
    Probing now seq sent (s.ackData ack now) := by
  obtain ⟨low,high,t,running,waiting⟩ := probing
  have window := sending.window
  obtain ⟨cwnd,rtoStart,rto,_,_,data⟩ := ackData_eq s ack now
  have timing := (ackData_timing s ack now).2.2.2
  have length : s.sendBuf.length = s.sendNext - s.sendBase := by
    rw [sending.buf,List.length_drop,sending.next]
  have next := sending.high
  have base : (s.ackData ack now).sendBase = max s.sendBase ack := by
    rw [data]
    dsimp only
    omega
  have top : (s.ackData ack now).sendHigh = s.sendHigh := by
    rw [data]
    dsimp only
    split <;> omega
  rw [base,top] at timing
  refine ⟨by omega,by omega,?_⟩
  rw [timing,base,top]
  split
  · rename_i fresh
    have closer : maxCwnd - (seq - s.sendBase) + 1 ≤ maxCwnd - (seq - max s.sendBase ack) := by
      simp only [maxCwnd]
      omega
    have paid := Nat.mul_le_mul_left maxRto closer
    have short : min (now - t) maxRto ≤ maxRto := Nat.min_le_right _ _
    rw [if_pos (by omega)]
    refine ⟨now,rfl,?_⟩
    rw [Nat.mul_succ] at paid
    clear timing base top
    omega
  · rename_i stale
    rw [Nat.max_eq_left (Nat.le_of_not_lt stale)]
    exact ⟨t,running,waiting⟩

theorem onAck_clocked (clocked : Clocked now s) (sending : Sending w s) (ack window : Nat) :
    Clocked now (s.onAck ack window now) := by
  unfold onAck
  split
  · exact clocked
  have sending' : Sending w { s with peerWindow := window } :=
    ⟨sending.next,sending.buf,sending.low,sending.high,sending.window⟩
  have clocked' : Clocked now { s with peerWindow := window } := clocked.congr rfl rfl rfl rfl rfl rfl
  generalize { s with peerWindow := window } = u at sending' clocked'
  obtain ⟨srtt,rttvar,timed,start⟩ := ackData_timing u ack now
  have started : ∀ t, (u.ackData ack now).rtoStart = some t → t ≤ now := by
    intro t running
    rw [start] at running
    split at running
    · split at running
      · cases running
        exact Nat.le_refl _
      · cases running
    · exact clocked'.started t running
  have sampled : Clocked now ((u.ackData ack now).ackTimed ack now) := by
    unfold ackTimed
    rw [timed]
    split
    · rename_i seq sent probed
      have probing := clocked'.probe seq sent probed
      split
      · have small := @updateRtt_small (u.ackData ack now) (srtt ▸ clocked'.srtt) (rttvar ▸ clocked'.rttvar) _
          (sample_small (probing.bound sending'.window))
        refine ⟨small.1,small.2,?_,by simp⟩
        obtain ⟨_,_,_,_,updated⟩ := updateRtt_eq (u.ackData ack now) (max (now - sent) 1 % 2^32)
        rw [updated]
        exact started
      · rename_i short
        refine ⟨srtt ▸ clocked'.srtt,rttvar ▸ clocked'.rttvar,started,fun seq' sent' again => ?_⟩
        rw [timed,probed] at again
        cases again
        exact probing.ackData sending' (by omega)
    · rename_i idle
      exact ⟨srtt ▸ clocked'.srtt,rttvar ▸ clocked'.rttvar,started,
        fun seq sent again => by rw [timed,idle] at again; cases again⟩
  obtain ⟨finAcked,_,acked⟩ := ackFin_eq ((u.ackData ack now).ackTimed ack now) ack
  rw [acked]
  exact sampled.congr rfl rfl rfl rfl rfl rfl

/-- New data under an open probe takes room the window has only once. -/
theorem Probing.extend {high : Nat} (probing : Probing now seq sent s) (more : s.sendHigh < high)
    (base : t.sendBase = s.sendBase) (top : t.sendHigh = high) (start : t.rtoStart = s.rtoStart)
    (started : ∀ start, s.rtoStart = some start → start ≤ now) : Probing (now + 1) seq sent t := by
  obtain ⟨low,inside,start',running,waiting⟩ := probing
  have past := started start' running
  refine ⟨base ▸ low,by omega,start',start.trans running,?_⟩
  rw [base,top]
  have longer : min (now - start') maxRto ≤ min (now + 1 - start') maxRto := by omega
  generalize maxRto * (maxCwnd - (seq - s.sendBase)) = spent at waiting ⊢
  omega

/-- A poll before the timer is due is one of few since the timer was started. -/
theorem Probing.tick (probing : Probing now seq sent s) (paced : s.Paced) (early : s.rtoDue (now + 1) = false)
    (started : ∀ start, s.rtoStart = some start → start ≤ now) : Probing (now + 1) seq sent s := by
  obtain ⟨low,inside,start,running,waiting⟩ := probing
  have past := started start running
  have patience := paced.rtoHigh
  simp only [rtoDue,running,decide_eq_false_iff_not] at early
  refine ⟨low,inside,start,running,?_⟩
  have longer : min (now + 1 - start) maxRto = min (now - start) maxRto + 1 := by omega
  generalize maxRto * (maxCwnd - (seq - s.sendBase)) = spent at waiting ⊢
  omega

theorem transmitData_clocked (clocked : Clocked now s) (sending : Sending w s) (paced : s.Paced) :
    Clocked (now + 1) (s.transmitData (now + 1)).1 := by
  have later : ∀ t, s.rtoStart = some t → t ≤ now + 1 := fun t running => Nat.le_succ_of_le (clocked.started t running)
  have low := sending.low
  have capped : s.sendEnd ≤ s.sendBase + maxCwnd := by
    have := paced.cwndHigh
    unfold sendEnd
    omega
  unfold transmitData
  split
  · rename_i fresh
    refine ⟨clocked.srtt,clocked.rttvar,fun t running => ?_,fun seq sent open_ => ?_⟩
    · simp only [emitRange] at running
      cases before : s.rtoStart with
      | none =>
        rw [before] at running
        cases running
        exact Nat.le_refl _
      | some t' =>
        rw [before] at running
        cases running
        exact later _ before
    · simp only [emitRange] at open_
      cases before : s.timed with
      | none =>
        rw [before] at open_
        cases open_
        refine ⟨Nat.lt_of_le_of_lt low fresh,Nat.le_refl _,?_⟩
        simp only [emitRange]
        cases s.rtoStart with
        | none => exact ⟨now + 1,rfl,by omega⟩
        | some t' => exact ⟨t',rfl,by omega⟩
      | some probe =>
        rw [before] at open_
        cases open_
        have probing := clocked.probe _ _ before
        obtain ⟨start,running,_⟩ := probing.waiting
        refine probing.extend fresh rfl rfl ?_ clocked.started
        simp only [emitRange]
        rw [running]
        rfl
  · split
    · split
      · exact ⟨clocked.srtt,clocked.rttvar,fun t running => by cases running; exact Nat.le_refl _,by rintro _ _ ⟨⟩⟩
      · rename_i early
        exact ⟨clocked.srtt,clocked.rttvar,later,fun seq sent open_ =>
          (clocked.probe seq sent open_).tick paced (Bool.not_eq_true _ ▸ early) clocked.started⟩
    · rename_i settled
      have idle : s.timed = none := by
        cases open_ : s.timed with
        | none => rfl
        | some probe =>
          have probing := clocked.probe _ _ open_
          have := probing.low
          have := probing.high
          omega
      split
      · split
        · exact ⟨clocked.srtt,clocked.rttvar,fun t running => by cases running; exact Nat.le_refl _,
            fun seq sent open_ => by cases idle.symm.trans open_⟩
        · exact ⟨clocked.srtt,clocked.rttvar,later,fun seq sent open_ => by cases idle.symm.trans open_⟩
      · exact ⟨clocked.srtt,clocked.rttvar,later,fun seq sent open_ => by cases idle.symm.trans open_⟩

theorem transmit_clocked (clocked : Clocked now s) (sending : Sending w s) (paced : s.Paced) (live : s.reset = false) :
    Clocked (now + 1) (s.transmit (now + 1)).1 := by
  have clocked' : Clocked now { s with needsOpen := false } := clocked.congr rfl rfl rfl rfl rfl rfl
  have sending' : Sending w { s with needsOpen := false } :=
    ⟨sending.next,sending.buf,sending.low,sending.high,sending.window⟩
  have data := transmitData_clocked clocked' sending' ⟨paced.cwndLow,paced.cwndHigh,paced.rtoHigh⟩
  rw [transmit_eq s (now + 1) live,countClose_eq]
  exact Clocked.congr (s := (s.afterData (now + 1)).1) data rfl rfl rfl rfl rfl rfl

end StreamState
end Noissh

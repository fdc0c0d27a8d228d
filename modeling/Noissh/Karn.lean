import Noissh.RttBound
import Noissh.SendRuns

/-! Karn's rule for the RTT probe: the byte that a probe waits for was sent once, when the probe
began, so that no sample is taken of a byte that was sent again. Beside a run stand all the frames
it sends with the ticks at which it sends them. -/
namespace Noissh

/-- The frame carries the byte at this offset. -/
def Frame.covers (p : Nat) : Frame → Bool
  | .streamData _ offset data _ => decide (offset ≤ p) && decide (p < offset + data.length)
  | _ => false

namespace StreamState

variable {s : StreamState} {w : Bytes} {now p : Nat}

/-- Each byte of a range is in one chunk. -/
theorem chunks_filter {fuel off stop : Nat} (enough : stop - off ≤ fuel) (low : off ≤ p) (high : p < stop) :
    ∃ c, (chunks fuel off stop).filter (fun c => decide (c.1 ≤ p) && decide (p < c.2)) = [c] := by
  induction fuel generalizing off with
  | zero => omega
  | succ fuel ih =>
    have positive : 0 < maxStreamChunk := by decide
    rw [chunks,if_pos (by omega)]
    by_cases here : p < min (off + maxStreamChunk) stop
    · refine ⟨(off,min (off + maxStreamChunk) stop),?_⟩
      have later : (chunks fuel (min (off + maxStreamChunk) stop) stop).filter
          (fun c => decide (c.1 ≤ p) && decide (p < c.2)) = [] := by
        apply List.filter_eq_nil_iff.mpr
        intro c member
        have range := chunks_mem member
        simp only [Bool.and_eq_true,decide_eq_true_eq]
        omega
      rw [List.filter_cons,if_pos (by simp only [Bool.and_eq_true,decide_eq_true_eq]; exact ⟨low,here⟩),later]
    · obtain ⟨c,only⟩ := @ih (min (off + maxStreamChunk) stop) (by omega) (by omega)
      refine ⟨c,?_⟩
      rw [List.filter_cons,if_neg (by simp only [Bool.and_eq_true,decide_eq_true_eq]; exact fun both => here both.2)]
      exact only

theorem emitRange_covers (sending : Sending w s) {off stop : Nat} (low : s.sendBase ≤ off) (high : stop ≤ s.sendNext) :
    (s.emitRange off stop).2.filter (Frame.covers p) =
      ((chunks (stop - off) off stop).filter (fun c => decide (c.1 ≤ p) && decide (p < c.2))).map s.chunkFrame := by
  rw [emitRange,List.filter_map]
  congr 1
  apply List.filter_congr
  intro c member
  have range := chunks_mem member
  have length := (@Sending.chunk _ _ sending c.1 c.2 (by omega) (by omega) (by omega)).2
  simp only [Function.comp,chunkFrame,Frame.covers]
  rw [length,show c.1 + (c.2 - c.1) = c.2 by omega]

/-- A range that does not reach the byte does not carry it; one that does carries it once. -/
theorem emitRange_outside (sending : Sending w s) {off stop : Nat} (low : s.sendBase ≤ off) (high : stop ≤ s.sendNext)
    (outside : p < off ∨ stop ≤ p) : (s.emitRange off stop).2.filter (Frame.covers p) = [] := by
  rw [emitRange_covers sending low high,List.map_eq_nil_iff,List.filter_eq_nil_iff]
  intro c member
  have range := chunks_mem member
  simp only [Bool.and_eq_true,decide_eq_true_eq]
  omega

theorem emitRange_inside (sending : Sending w s) {off stop : Nat} (low : s.sendBase ≤ off) (high : stop ≤ s.sendNext)
    (from_ : off ≤ p) (to_ : p < stop) : ∃ frame, (s.emitRange off stop).2.filter (Frame.covers p) = [frame] := by
  obtain ⟨c,only⟩ := chunks_filter (Nat.le_refl (stop - off)) from_ to_
  exact ⟨s.chunkFrame c,by rw [emitRange_covers sending low high,only]; rfl⟩

/-- What a poll does with the probe and with the frames that carry a byte. -/
inductive Probes (s : StreamState) (now : Nat) (t : StreamState) (out : List Frame) : Prop where
  /-- The byte before `sendHigh` is sent for the first time, and a probe of it starts if none is open. -/
  | fresh : s.sendHigh < t.sendHigh → t.timed = s.timed.or (some (t.sendHigh,now)) →
      (∀ p < s.sendHigh, out.filter (Frame.covers p) = []) →
      (∃ frame, out.filter (Frame.covers (t.sendHigh - 1)) = [frame]) → Probes s now t out
  /-- What is outstanding is sent again. -/
  | again : t.timed = none → t.sendHigh = s.sendHigh → Probes s now t out
  | idle : t.timed = s.timed → t.sendHigh = s.sendHigh → (∀ p, out.filter (Frame.covers p) = []) → Probes s now t out

theorem transmitData_probes (sending : Sending w s) (now : Nat) :
    Probes s now (s.transmitData now).1 (s.transmitData now).2 := by
  have low := sending.low
  have stop := s.sendEnd_le
  unfold transmitData
  split
  · rename_i fresh
    rw [show max s.sendHigh s.sendBase = s.sendHigh by omega]
    refine .fresh fresh rfl (fun p below => ?_) ?_
    · exact emitRange_outside sending low stop (.inl below)
    · exact emitRange_inside sending low stop (by dsimp only; omega) (by dsimp only; omega)
  · split
    · split
      · exact .again rfl rfl
      · exact .idle rfl rfl fun _ => rfl
    · split
      · split
        · refine .idle rfl rfl fun p => ?_
          have empty : ¬Frame.covers p (.streamData s.id s.sendNext [] true) = true := by simp [Frame.covers]
          rw [List.filter_cons,if_neg empty,List.filter_nil]
        · exact .idle rfl rfl fun _ => rfl
      · exact .idle rfl rfl fun _ => rfl

/-- Only the data part of a transmit carries bytes. -/
theorem transmit_covers (live : s.reset = false) (now p : Nat) :
    (s.transmit now).2.filter (Frame.covers p) = (s.afterData now).2.filter (Frame.covers p) := by
  have opening : s.transmitOpen.2.filter (Frame.covers p) = [] := by
    unfold transmitOpen
    split <;> rfl
  have closing : (s.afterData now).1.transmitClose.filter (Frame.covers p) = [] := by
    unfold transmitClose
    split
    · split <;> rfl
    · rfl
  rw [transmit_eq s now live]
  simp only [List.filter_append,opening,closing,List.nil_append,List.append_nil]
  exact List.append_nil _

theorem transmit_probes (sending : Sending w s) (live : s.reset = false) (now : Nat) :
    Probes s now (s.transmit now).1 (s.transmit now).2 := by
  have sending' : Sending w { s with needsOpen := false } :=
    ⟨sending.next,sending.buf,sending.low,sending.high,sending.window⟩
  have covers := transmit_covers live now
  have after : (s.transmit now).1.timed = (s.afterData now).1.timed ∧
    (s.transmit now).1.sendHigh = (s.afterData now).1.sendHigh := by
    rw [transmit_eq s now live,countClose_eq]
    exact ⟨rfl,rfl⟩
  cases transmitData_probes sending' now with
  | fresh more timed older newest =>
    refine .fresh (after.2 ▸ more) ?_ (fun p below => (covers p).trans (older p below)) ?_
    · rw [after.1,after.2]
      exact timed
    · obtain ⟨frame,only⟩ := newest
      rw [after.2]
      exact ⟨frame,(covers _).trans only⟩
  | again timed same => exact .again (after.1.trans timed) (after.2.trans same)
  | idle timed same none_ => exact .idle (after.1.trans timed) (after.2.trans same) fun p => (covers p).trans (none_ p)

/-- The new estimate is of the old one and the sample. -/
theorem updateRtt_congr {t : StreamState} (srtt : t.srtt = s.srtt) (rttvar : t.rttvar = s.rttvar) (r : Nat) :
    (t.updateRtt r).srtt = (s.updateRtt r).srtt ∧ (t.updateRtt r).rttvar = (s.updateRtt r).rttvar := by
  unfold updateRtt
  rw [srtt,rttvar]
  split <;> exact ⟨rfl,rfl⟩

/-- What an ack does with the probe and the estimate. -/
inductive Samples (s : StreamState) (ack now : Nat) (t : StreamState) : Prop where
  | nothing : t.timed = s.timed → t.srtt = s.srtt → t.rttvar = s.rttvar → Samples s ack now t
  /-- The ack reaches the probe, which ends with a sample of the time since it was sent. -/
  | probe (seq sent : Nat) : s.timed = some (seq,sent) → seq ≤ ack → t.timed = none →
      t.srtt = (s.updateRtt (max (now - sent) 1 % 2^32)).srtt → t.rttvar = (s.updateRtt (max (now - sent) 1 % 2^32)).rttvar →
      Samples s ack now t

theorem onAck_samples (s : StreamState) (ack window now : Nat) : Samples s ack now (s.onAck ack window now) := by
  unfold onAck
  split
  · exact .nothing rfl rfl rfl
  obtain ⟨srtt,rttvar,timed,_⟩ := ackData_timing { s with peerWindow := window } ack now
  generalize ackData { s with peerWindow := window } ack now = u at srtt rttvar timed
  obtain ⟨finAcked,_,acked⟩ := ackFin_eq (u.ackTimed ack now) ack
  rw [acked]
  unfold ackTimed
  rw [timed]
  split
  · rename_i seq sent open_
    split
    · rename_i reached
      have folded := @updateRtt_congr s u srtt rttvar (max (now - sent) 1 % 2^32)
      exact .probe seq sent open_ reached rfl folded.1 folded.2
    · exact .nothing timed srtt rttvar
  · exact .nothing timed srtt rttvar

end StreamState

namespace Sender

open StreamState

/-- The frames a call sends, with the tick at which it sends them. -/
def emits (s : Sender) : Call → List (Nat × Frame)
  | .poll => (s.stream.transmit (s.now + 1)).2.map fun frame => (s.now + 1,frame)
  | _ => []

theorem emits_quiet (s : Sender) {c : Call} (quiet : c ≠ .poll) : s.emits c = [] := by
  cases c with
  | poll => exact absurd rfl quiet
  | _ => rfl

/-- All that a run sends, in order. -/
def emissions : List Call → Sender → List (Nat × Frame)
  | [], _ => []
  | c :: calls, s => s.emits c ++ emissions calls (s.step c)

theorem run_sent (calls : List Call) (s : Sender) :
    (Machine.run step calls s).sent = s.sent ++ (emissions calls s).map Prod.snd := by
  induction calls generalizing s with
  | nil => exact (List.append_nil _).symm
  | cons c calls ih =>
    have here : (s.step c).sent = s.sent ++ (s.emits c).map Prod.snd := by
      cases c with
      | poll => simp [step,emits,Function.comp_def]
      | _ => exact (List.append_nil _).symm
    rw [Machine.run_cons,ih,here,emissions,List.map_append,List.append_assoc]

/-- Of all emissions exactly one carries the byte at `p`, and it was sent at this tick. -/
def Once (log : List (Nat × Frame)) (p tick : Nat) : Prop := ∃ frame, log.filter (fun e => e.2.covers p) = [(tick,frame)]

variable {log : List (Nat × Frame)} {s : Sender} {p tick : Nat}

theorem Once.append (once : Once log p tick) {later : List (Nat × Frame)} (none_ : later.filter (fun e => e.2.covers p) = []) :
    Once (log ++ later) p tick := by
  obtain ⟨frame,only⟩ := once
  exact ⟨frame,by rw [List.filter_append,only,none_,List.append_nil]⟩

theorem filter_stamped (frames : List Frame) (now p : Nat) :
    (frames.map fun frame => (now,frame)).filter (fun e => e.2.covers p) =
      (frames.filter (Frame.covers p)).map fun frame => (now,frame) :=
  List.filter_map

/-- Beside the emissions so far: none is of what counts as unsent, and the probe is of a byte sent once. -/
structure Probed (log : List (Nat × Frame)) (s : Sender) : Prop where
  sound : s.Sound
  unsent : ∀ p, s.stream.sendHigh ≤ p → log.filter (fun e => e.2.covers p) = []
  probe : ∀ seq sent, s.stream.timed = some (seq,sent) → 0 < seq ∧ seq ≤ s.stream.sendHigh ∧ Once log (seq - 1) sent

theorem start_probed (id : Nat) (kind : StreamKind) (metadata : Bytes) (needsOpen : Bool) (born : Nat) :
    Probed [] (start id kind metadata needsOpen born) :=
  ⟨start_sound id kind metadata needsOpen born,fun _ _ => rfl,nofun⟩

theorem poll_probed (probed : Probed log s) : Probed (log ++ s.emits .poll) (s.step .poll) := by
  obtain ⟨sound,unsent,probe⟩ := probed
  cases live : s.stream.reset with
  | true =>
    rw [emits,step,transmit_reset live]
    exact ⟨⟨sound.sending,sound.paced⟩,
      fun p above => by simpa using unsent p above,fun seq sent open_ => by simpa using probe seq sent open_⟩
  | false =>
    have spec := transmit_spec sound.sending sound.paced live (s.now + 1)
    have grown := spec.2.2.1.high
    have frames := spec.2.2.2.2.2
    have probes := transmit_probes sound.sending live (s.now + 1)
    have word : s.emits .poll = (s.stream.transmit (s.now + 1)).2.map fun frame => (s.now + 1,frame) := rfl
    refine ⟨step_sound sound .poll,fun p above => ?_,fun seq sent open_ => ?_⟩
    · rw [List.filter_append,unsent p (Nat.le_trans grown above),word,filter_stamped,List.nil_append,List.map_eq_nil_iff,
        List.filter_eq_nil_iff]
      intro frame member
      cases frames frame member with
      | data segment reach small flag =>
        simp only [step] at above
        simp only [Frame.covers,Bool.and_eq_true,decide_eq_true_eq]
        omega
      | opening _ | ack _ | close _ _ => exact Bool.false_ne_true
    · simp only [step] at open_ ⊢
      -- The probe that was open, of a byte that this poll does not send.
      have kept : ∀ seq sent, s.stream.timed = some (seq,sent) →
          (s.stream.transmit (s.now + 1)).2.filter (Frame.covers (seq - 1)) = [] →
          0 < seq ∧ seq ≤ (s.stream.transmit (s.now + 1)).1.sendHigh ∧ Once (log ++ s.emits .poll) (seq - 1) sent := by
        intro seq sent before none_
        obtain ⟨positive,below,once⟩ := probe seq sent before
        exact ⟨positive,Nat.le_trans below grown,once.append (by rw [word,filter_stamped,none_]; rfl)⟩
      cases probes with
      | fresh more timed older newest =>
        cases before : s.stream.timed with
        | some pair =>
          rw [timed,before] at open_
          cases open_
          have range := probe _ _ before
          exact kept _ _ before (older _ (by omega))
        | none =>
          rw [timed,before] at open_
          cases open_
          obtain ⟨frame,only⟩ := newest
          refine ⟨by omega,Nat.le_refl _,frame,?_⟩
          rw [List.filter_append,unsent _ (by omega),word,filter_stamped,only]
          rfl
      | again timed same =>
        rw [timed] at open_
        cases open_
      | idle timed same none_ => exact kept seq sent (timed.symm.trans open_) (none_ _)

theorem ack_probed (probed : Probed log s) (ack window : Nat) : Probed log (s.step (.ack ack window)) := by
  obtain ⟨sound,unsent,probe⟩ := probed
  have high : s.stream.sendHigh ≤ (s.stream.onAck ack window s.now).sendHigh := by
    rcases Nat.lt_or_ge s.stream.sendNext ack with beyond | known
    · exact Nat.le_of_eq (congrArg sendHigh (onAck_ignored s.stream ack window s.now beyond).symm)
    · rw [(onAck_step s.stream ack window s.now known sound.sending.low).high]
      exact Nat.le_max_left _ _
  refine ⟨step_sound sound _,fun p above => unsent p (Nat.le_trans high above),fun seq sent open_ => ?_⟩
  change (s.stream.onAck ack window s.now).timed = _ at open_
  cases onAck_samples s.stream ack window s.now with
  | nothing timed srtt rttvar =>
    obtain ⟨positive,below,once⟩ := probe seq sent (timed.symm.trans open_)
    exact ⟨positive,Nat.le_trans below high,once⟩
  | probe seq' sent' before reached timed srtt rttvar =>
    rw [timed] at open_
    cases open_

theorem step_probed (probed : Probed log s) (c : Call) : Probed (log ++ s.emits c) (s.step c) := by
  by_cases polls : c = .poll
  · subst polls
    exact poll_probed probed
  · rw [emits_quiet s polls,List.append_nil]
    cases c with
    | poll => exact absurd rfl polls
    | ack ack window => exact ack_probed probed ack window
    | data offset data fin =>
      refine ⟨step_sound probed.sound _,?_,?_⟩ <;> rw [step,onData_eq]
      · exact probed.unsent
      · exact probed.probe
    | write _ | close _ | reset | read | closed => exact ⟨step_sound probed.sound _,probed.unsent,probed.probe⟩

theorem run_probed (probed : Probed log s) (calls : List Call) :
    Probed (log ++ emissions calls s) (Machine.run step calls s) := by
  induction calls generalizing log s with
  | nil =>
    rw [emissions,List.append_nil]
    exact probed
  | cons c calls ih =>
    rw [emissions,← List.append_assoc]
    exact ih (step_probed probed c)

/-- After every run, the byte before the offset that a probe waits for has been sent in exactly one
frame, at the tick that the probe notes; an ack that changes the estimate ends such a probe and
folds the time since that tick. -/
theorem probes_sent_once (id : Nat) (kind : StreamKind) (metadata : Bytes) (needsOpen : Bool) (born : Nat) (calls : List Call) :
    let s := Machine.run step calls (start id kind metadata needsOpen born)
    let log := emissions calls (start id kind metadata needsOpen born)
    s.sent = log.map Prod.snd ∧
    (∀ seq sent, s.stream.timed = some (seq,sent) → 0 < seq ∧ Once log (seq - 1) sent) ∧
    ∀ ack window, let t := s.stream.onAck ack window s.now
      (t.srtt = s.stream.srtt ∧ t.rttvar = s.stream.rttvar) ∨
      ∃ seq sent, seq ≤ ack ∧ Once log (seq - 1) sent ∧ t.srtt = (s.stream.updateRtt (max (s.now - sent) 1 % 2^32)).srtt ∧
        t.rttvar = (s.stream.updateRtt (max (s.now - sent) 1 % 2^32)).rttvar := by
  intro s log
  have probed : Probed log s := run_probed (start_probed id kind metadata needsOpen born) calls
  refine ⟨run_sent calls _,?_,?_⟩
  · intro seq sent open_
    obtain ⟨positive,_,once⟩ := probed.probe seq sent open_
    exact ⟨positive,once⟩
  · intro ack window
    cases onAck_samples s.stream ack window s.now with
    | nothing timed srtt rttvar => exact .inl ⟨srtt,rttvar⟩
    | probe seq sent open_ reached timed srtt rttvar =>
      exact .inr ⟨seq,sent,reached,(probed.probe seq sent open_).2.2,srtt,rttvar⟩

end Sender
end Noissh

import Noissh.MuxRuns
import Noissh.StreamStateSpec

/-! Runs of one stream's endpoint, with all that was written to it and all that it sent. Every
stream a multiplexer holds is at the end of such a run. How much one poll sends, and that what
is acknowledged was sent, are statements about them. -/
namespace Noissh

/-- A stream, the clock of its multiplexer, the bytes written and the frames sent. -/
structure Sender where
  stream : StreamState
  now : Nat
  wrote : Bytes := []
  sent : List Frame := []

namespace Sender

open StreamState

inductive Call where
  | write (data : Bytes)
  | close (status : Int)
  | reset
  | read
  | poll
  | data (offset : Nat) (data : Bytes) (fin : Bool)
  | ack (ack window : Nat)
  | closed
  deriving DecidableEq, Repr

def start (id : Nat) (kind : StreamKind) (metadata : Bytes) (needsOpen : Bool) (now : Nat) : Sender :=
  { stream := .new id kind metadata needsOpen, now }

def step (s : Sender) : Call → Sender
  | .write data => { s with stream := s.stream.write data, wrote := s.wrote ++ data }
  | .close status => { s with stream := { s.stream with sendFin := true, closeStatus := some status } }
  | .reset => { s with stream := { s.stream with reset := true } }
  | .read => { s with stream := { s.stream with recv := s.stream.recv.read.2 } }
  | .poll =>
    { s with
      stream := (s.stream.transmit (s.now + 1)).1
      now := s.now + 1
      sent := s.sent ++ (s.stream.transmit (s.now + 1)).2 }
  | .data offset data fin => { s with stream := (s.stream.onData offset data fin).1 }
  | .ack ack window => { s with stream := s.stream.onAck ack window s.now }
  | .closed => { s with stream := { s.stream with closeReceived := true } }

/-- The send side holds what was written and not acknowledged. -/
structure Sound (s : Sender) : Prop where
  sending : Sending s.wrote s.stream
  paced : s.stream.Paced

theorem start_sound (id : Nat) (kind : StreamKind) (metadata : Bytes) (needsOpen : Bool) (now : Nat) :
    (start id kind metadata needsOpen now).Sound :=
  ⟨new_sending id kind metadata needsOpen,new_paced id kind metadata needsOpen⟩

theorem transmit_reset {s : StreamState} (gone : s.reset = true) (now : Nat) : s.transmit now = (s,[]) := if_pos gone

theorem transmit_sound {w : Bytes} {s : StreamState} (sending : Sending w s) (paced : s.Paced) (now : Nat) :
    Sending w (s.transmit now).1 ∧ (s.transmit now).1.Paced := by
  cases live : s.reset with
  | true =>
    rw [transmit_reset live]
    exact ⟨sending,paced⟩
  | false =>
    have spec := transmit_spec sending paced live now
    exact ⟨spec.1,spec.2.1⟩

theorem step_sound {s : Sender} (sound : s.Sound) (c : Call) : (s.step c).Sound := by
  obtain ⟨sending,paced⟩ := sound
  cases c with
  | write data => exact ⟨write_sending sending data,⟨paced.cwndLow,paced.cwndHigh,paced.rtoHigh⟩⟩
  | close _ | reset | read | closed =>
    exact ⟨⟨sending.next,sending.buf,sending.low,sending.high,sending.window⟩,⟨paced.cwndLow,paced.cwndHigh,paced.rtoHigh⟩⟩
  | poll =>
    obtain ⟨sending',paced'⟩ := transmit_sound sending paced (s.now + 1)
    exact ⟨sending',paced'⟩
  | data offset data fin =>
    rw [step,onData_eq]
    exact ⟨⟨sending.next,sending.buf,sending.low,sending.high,sending.window⟩,⟨paced.cwndLow,paced.cwndHigh,paced.rtoHigh⟩⟩
  | ack ack window => exact ⟨onAck_sending sending ack window s.now,onAck_paced paced ack window s.now⟩

theorem run_sound {s : Sender} (sound : s.Sound) (calls : List Call) : (Machine.run step calls s).Sound :=
  Machine.run_invariant_always Sound (fun _ c sound => step_sound sound c) calls s sound

/-- The stream is at the end of a run, with the clock at `now`. -/
def Reached (now : Nat) (t : StreamState) : Prop :=
  ∃ id kind metadata needsOpen born calls,
    (Machine.run step calls (start id kind metadata needsOpen born)).stream = t ∧
      (Machine.run step calls (start id kind metadata needsOpen born)).now = now

theorem new_reached (id : Nat) (kind : StreamKind) (metadata : Bytes) (needsOpen : Bool) (now : Nat) :
    Reached now (.new id kind metadata needsOpen) := ⟨id,kind,metadata,needsOpen,now,[],rfl,rfl⟩

theorem Reached.step {now : Nat} {t : StreamState} (reached : Reached now t) (c : Call) :
    Reached (Sender.step { stream := t, now } c).now (Sender.step { stream := t, now } c).stream := by
  obtain ⟨id,kind,metadata,needsOpen,born,calls,rfl,rfl⟩ := reached
  refine ⟨id,kind,metadata,needsOpen,born,calls ++ [c],?_,?_⟩ <;> rw [Machine.run_append] <;> cases c <;> rfl

/-- The clock after a call of the multiplexer. -/
def clockAfter (now : Nat) : StreamMux.Call → Nat
  | .pollTransmit => now + 1
  | _ => now

theorem moves_reached {now k : Nat} {s t : StreamState} {c : StreamMux.Call} (reached : Reached now s)
    (moves : StreamMux.Moves now k s c t) : Reached (clockAfter now c) t := by
  cases moves with
  | rests still =>
    cases c with
    | pollTransmit => contradiction
    | _ => exact reached
  | write data => exact reached.step (.write data)
  | close status => exact reached.step (.close status)
  | reset => exact reached.step .reset
  | read => exact reached.step .read
  | data offset data fin => exact reached.step (.data offset data fin)
  | ack ack window => exact reached.step (.ack ack window)
  | closed status => exact reached.step .closed
  | aborted => exact reached.step .reset
  | poll live => exact reached.step .poll

/-- Whatever is called and whatever frames arrive, each stream held is at the end of a run of
its own. -/
theorem mux_reached (isClient : Bool) (calls : List StreamMux.Call) {k : Nat} {t : StreamState}
    (held : (Machine.run StreamMux.call calls (.new isClient)).streams[k]? = some t) :
    Reached (Machine.run StreamMux.call calls (.new isClient)).now t := by
  refine Machine.run_invariant_always (fun m : StreamMux => ∀ k t, m.streams[k]? = some t → Reached m.now t) ?_ calls
    (.new isClient) ?_ k t held
  · intro m c before k t after
    have clock : (m.call c).now = clockAfter m.now c := by
      obtain ⟨streams,events,rest⟩ := m.call_rest c
      rw [rest]
      cases c <;> rfl
    cases StreamMux.call_comes after with
    | opened kind metadata next =>
      rw [clock]
      exact new_reached k kind metadata true m.now
    | accepted kind metadata vacant foreign =>
      rw [clock]
      exact new_reached k kind metadata false m.now
    | held s known moves =>
      rw [clock]
      exact moves_reached (before k s known) moves
  · intro k t held
    simp [StreamMux.new] at held

/-- The stream data in some frames. -/
def payload (frames : List Frame) : Nat :=
  (frames.map fun frame => match frame with | .streamData _ _ data _ => data.length | _ => 0).sum

@[simp] theorem payload_append (first second : List Frame) : payload (first ++ second) = payload first + payload second := by
  simp [payload]

theorem chunks_sum {fuel off stop : Nat} (enough : stop - off ≤ fuel) :
    ((chunks fuel off stop).map fun c => c.2 - c.1).sum = stop - off := by
  induction fuel generalizing off with
  | zero => simp only [chunks,List.map_nil,List.sum_nil]; omega
  | succ fuel ih =>
    have positive : 0 < maxStreamChunk := by decide
    rw [chunks]
    split
    · rw [List.map_cons,List.sum_cons,ih (by omega)]
      omega
    · simp only [List.map_nil,List.sum_nil]; omega

theorem emitRange_payload {w : Bytes} {s : StreamState} (sending : Sending w s) {off stop : Nat} (low : s.sendBase ≤ off)
    (high : stop ≤ s.sendNext) : payload (s.emitRange off stop).2 = stop - off := by
  rw [← @chunks_sum (stop - off) off stop (Nat.le_refl _)]
  unfold payload emitRange
  rw [List.map_map]
  refine congrArg List.sum (List.map_congr_left fun c member => ?_)
  have range := chunks_mem member
  have next := sending.next
  simp only [Function.comp,chunkFrame,sending.buf,List.length_take,List.length_drop]
  omega

/-- What goes out for the first time, or again once the timer is due. -/
theorem transmitData_payload {w : Bytes} {s : StreamState} (sending : Sending w s) (now : Nat) :
    payload (s.transmitData now).2 =
      if s.sendHigh < s.sendEnd then s.sendEnd - s.sendHigh else if s.rtoDue now then s.sendHigh - s.sendBase else 0 := by
  have low := sending.low
  unfold transmitData
  split
  · rename_i fresh
    rw [show max s.sendHigh s.sendBase = s.sendHigh by omega]
    exact emitRange_payload sending low s.sendEnd_le
  · split
    · split
      · exact emitRange_payload sending (Nat.le_refl _) sending.high
      · rfl
    · have none : s.sendHigh - s.sendBase = 0 := by omega
      rw [none,ite_self]
      split
      · split <;> rfl
      · rfl

theorem transmit_payload {w : Bytes} {s : StreamState} (sending : Sending w s) (now : Nat) :
    payload (s.transmit now).2 = if s.reset then 0 else payload (s.transmitData now).2 := by
  cases live : s.reset with
  | true =>
    rw [transmit_reset live]
    rfl
  | false =>
    have sending' : Sending w { s with needsOpen := false } :=
      ⟨sending.next,sending.buf,sending.low,sending.high,sending.window⟩
    have opening : payload s.transmitOpen.2 = 0 := by
      unfold transmitOpen
      split <;> rfl
    have closing : payload (s.afterData now).1.transmitClose = 0 := by
      unfold transmitClose
      split
      · split <;> rfl
      · rfl
    have data : payload (s.afterData now).2 = payload (s.transmitData now).2 :=
      (transmitData_payload sending' now).trans (transmitData_payload sending now).symm
    rw [transmit_eq s now live]
    simp only [payload_append,opening,closing,data]
    simp [payload]

/-- The stream data of one poll is within the flow-control and the congestion window exactly
when no more than that is outstanding, or nothing is sent again. -/
theorem transmit_within_windows_iff (id : Nat) (kind : StreamKind) (metadata : Bytes) (needsOpen : Bool) (born : Nat)
    (calls : List Call) (now : Nat) :
    let s := (Machine.run step calls (start id kind metadata needsOpen born)).stream
    payload (s.transmit now).2 ≤ min s.peerWindow s.cwnd ↔
      s.reset = true ∨ s.rtoDue now = false ∨ s.sendHigh - s.sendBase ≤ min s.peerWindow s.cwnd := by
  intro s
  obtain ⟨sending,paced⟩ := run_sound (start_sound id kind metadata needsOpen born) calls
  have low : s.sendBase ≤ s.sendHigh := sending.low
  rw [transmit_payload sending,transmitData_payload sending]
  change (if s.reset then 0 else if s.sendHigh < s.sendEnd then s.sendEnd - s.sendHigh
    else if s.rtoDue now then s.sendHigh - s.sendBase else 0) ≤ _ ↔ _
  have ends : s.sendEnd ≤ s.sendBase + min s.peerWindow s.cwnd := by unfold sendEnd; omega
  cases s.reset <;> cases s.rtoDue now <;>
    simp only [Bool.false_eq_true,↓reduceIte,true_or,or_true,iff_true,false_or,reduceCtorEq]
  · split <;> omega
  · split <;> omega
  · exact Nat.zero_le _
  · exact Nat.zero_le _

/-- Nothing is acknowledged: the second timeout sends again what the congestion window, now one
segment, no longer allows. -/
theorem transmit_beyond_windows :
    let calls := .write (List.replicate 1025 0) :: List.replicate 24 Call.poll
    let s := (Machine.run step calls (start 0 .forward [] true 0)).stream
    min s.peerWindow s.cwnd < payload (s.transmit 25).2 := by
  decide +kernel

/-- Some frame of the stream `id` carries the byte of `w` at `p`. -/
def Carried (id : Nat) (w : Bytes) (frames : List Frame) (p : Nat) : Prop :=
  ∃ off data fin, Frame.streamData id off data fin ∈ frames ∧ off ≤ p ∧ p < off + data.length ∧ data[p - off]? = w[p]?

/-- Every byte that left the send buffer was sent. -/
def Accounted (s : Sender) : Prop := ∀ p < s.stream.sendBase, Carried s.stream.id s.wrote s.sent p

/-- The peer acknowledges nothing between what was sent and what was written. -/
def Truthful (s : Sender) : Call → Prop
  | .ack ack _ => ack ≤ s.stream.sendHigh ∨ s.stream.sendNext < ack
  | _ => True

instance (s : Sender) : (c : Call) → Decidable (s.Truthful c)
  | .ack ack _ => inferInstanceAs (Decidable (ack ≤ s.stream.sendHigh ∨ s.stream.sendNext < ack))
  | .write _ | .close _ | .reset | .read | .poll | .data _ _ _ | .closed => inferInstanceAs (Decidable True)

theorem Carried.more {id : Nat} {w : Bytes} {frames : List Frame} {p : Nat} (carried : Carried id w frames p)
    (later : List Frame) : Carried id w (frames ++ later) p := by
  obtain ⟨off,data,fin,member,range⟩ := carried
  exact ⟨off,data,fin,List.mem_append_left _ member,range⟩

theorem emitRange_carried {w : Bytes} {s : StreamState} (sending : Sending w s) {off stop p : Nat} (low : s.sendBase ≤ off)
    (high : stop ≤ s.sendNext) (from_ : off ≤ p) (to_ : p < stop) : Carried s.id w (s.emitRange off stop).2 p := by
  obtain ⟨c,member,inside⟩ := chunks_cover (Nat.le_refl (stop - off)) from_ to_
  have range := chunks_mem member
  obtain ⟨segment,length⟩ := @Sending.chunk _ _ sending c.1 c.2 (by omega) (by omega) (by omega)
  refine ⟨c.1,_,s.finAt c.2,List.mem_map_of_mem member,inside.1,by rw [length]; omega,?_⟩
  rw [← segment.agrees (p - c.1) (by rw [length]; omega)]
  congr 1
  omega

/-- A poll sends all that it counts as sent from then on. -/
theorem transmit_carried {w : Bytes} {s : StreamState} (sending : Sending w s) (now : Nat) {p : Nat} (from_ : s.sendHigh ≤ p)
    (to_ : p < (s.transmit now).1.sendHigh) : Carried s.id w (s.transmit now).2 p := by
  cases live : s.reset with
  | true =>
    rw [transmit_reset live] at to_
    dsimp only at to_
    omega
  | false =>
    have low := sending.low
    have sending' : Sending w { s with needsOpen := false } :=
      ⟨sending.next,sending.buf,sending.low,sending.high,sending.window⟩
    have data : ∀ t : StreamState, Sending w t → t.sendHigh ≤ p → p < (t.transmitData now).1.sendHigh →
        Carried t.id w (t.transmitData now).2 p := by
      intro t sending from_ to_
      have low := sending.low
      unfold transmitData at to_ ⊢
      split
      · rename_i fresh
        rw [if_pos fresh] at to_
        rw [show max t.sendHigh t.sendBase = t.sendHigh by omega]
        exact emitRange_carried sending low t.sendEnd_le from_ to_
      · rename_i stale
        rw [if_neg stale] at to_
        exfalso
        split at to_
        · split at to_ <;> exact absurd to_ (Nat.not_lt.mpr from_)
        · split at to_
          · split at to_ <;> exact absurd to_ (Nat.not_lt.mpr from_)
          · exact absurd to_ (Nat.not_lt.mpr from_)
    rw [transmit_eq s now live] at to_ ⊢
    rw [countClose_eq] at to_
    obtain ⟨off,d,fin,member,range⟩ := data _ sending' from_ to_
    exact ⟨off,d,fin,by simp only [List.mem_append]; exact .inl (.inl (.inr member)),range⟩

/-- All that counts as sent was sent, and nothing else. -/
structure Exact (s : Sender) : Prop where
  sound : s.Sound
  carried : ∀ p < s.stream.sendHigh, Carried s.stream.id s.wrote s.sent p
  bounded : ∀ id off data fin, Frame.streamData id off data fin ∈ s.sent → off + data.length ≤ s.stream.sendHigh

theorem Exact.accounted {s : Sender} (exact_ : s.Exact) : s.Accounted :=
  fun p below => exact_.carried p (Nat.lt_of_lt_of_le below exact_.sound.sending.low)

theorem start_exact (id : Nat) (kind : StreamKind) (metadata : Bytes) (needsOpen : Bool) (now : Nat) :
    (start id kind metadata needsOpen now).Exact :=
  ⟨start_sound id kind metadata needsOpen now,fun p below => absurd below (Nat.not_lt_zero p),
    fun _ _ _ _ member => nomatch member⟩

theorem poll_exact {s : Sender} (exact_ : s.Exact) : (s.step .poll).Exact := by
  obtain ⟨sound,carried,bounded⟩ := exact_
  refine ⟨step_sound sound .poll,?_,?_⟩
  · intro p below
    simp only [step,transmit_id]
    by_cases before : p < s.stream.sendHigh
    · exact (carried p before).more _
    · obtain ⟨off,data,fin,member,range⟩ := transmit_carried sound.sending (s.now + 1) (Nat.not_lt.mp before) below
      exact ⟨off,data,fin,List.mem_append_right _ member,range⟩
  · intro id off data fin member
    have grown : s.stream.sendHigh ≤ (s.stream.transmit (s.now + 1)).1.sendHigh := by
      cases live : s.stream.reset with
      | true => exact Nat.le_of_eq (congrArg (fun out => out.1.sendHigh) (transmit_reset live (s.now + 1)).symm)
      | false => exact (transmit_spec sound.sending sound.paced live (s.now + 1)).2.2.1.high
    rcases List.mem_append.mp member with before | now
    · exact Nat.le_trans (bounded id off data fin before) grown
    · cases live : s.stream.reset with
      | true =>
        rw [transmit_reset live] at now
        cases now
      | false =>
        cases (transmit_spec sound.sending sound.paced live (s.now + 1)).2.2.2.2.2 _ now with
        | data segment reach small flag => exact reach

theorem write_exact {s : Sender} (exact_ : s.Exact) (data : Bytes) : (s.step (.write data)).Exact := by
  obtain ⟨sound,carried,bounded⟩ := exact_
  refine ⟨step_sound sound (.write data),?_,bounded⟩
  intro p below
  obtain ⟨off,sent,fin,member,from_,to_,same⟩ := carried p below
  have high := sound.sending.high
  have next := sound.sending.next
  have within : p < s.wrote.length := Nat.lt_of_lt_of_le below (next ▸ high)
  exact ⟨off,sent,fin,member,from_,to_,by rw [same,step,List.getElem?_append_left within]⟩

/-- The bytes that an ack of written bytes takes out of the buffer. -/
theorem ack_base {s : Sender} (sound : s.Sound) {ack : Nat} (window : Nat) (known : ack ≤ s.stream.sendNext) :
    (s.stream.onAck ack window s.now).sendBase = max s.stream.sendBase ack := by
  have acked := onAck_step s.stream ack window s.now known sound.sending.low
  have next := sound.sending.next
  rw [acked.base,sound.sending.buf,List.length_drop]
  omega

theorem ack_exact {s : Sender} (exact_ : s.Exact) {ack window : Nat} (truthful : s.Truthful (.ack ack window)) :
    (s.step (.ack ack window)).Exact := by
  obtain ⟨sound,carried,bounded⟩ := exact_
  have low := sound.sending.low
  have high := sound.sending.high
  rcases truthful with below | beyond
  · have known := Nat.le_trans below high
    have same : (s.stream.onAck ack window s.now).sendHigh = s.stream.sendHigh := by
      rw [(onAck_step s.stream ack window s.now known low).high,ack_base sound window known]
      omega
    refine ⟨step_sound sound _,?_,?_⟩
    · intro p inside
      simp only [step,onAck_id] at inside ⊢
      exact carried p (same ▸ inside)
    · intro id off data fin member
      show _ ≤ (s.stream.onAck ack window s.now).sendHigh
      rw [same]
      exact bounded id off data fin member
  · rw [step,onAck_ignored s.stream ack window s.now beyond]
    exact ⟨sound,carried,bounded⟩

theorem step_exact {s : Sender} (exact_ : s.Exact) {c : Call} (truthful : s.Truthful c) : (s.step c).Exact := by
  cases c with
  | write data => exact write_exact exact_ data
  | poll => exact poll_exact exact_
  | ack ack window => exact ack_exact exact_ truthful
  | data offset data fin =>
    refine ⟨step_sound exact_.sound _,?_,?_⟩ <;> rw [step,onData_eq]
    · exact exact_.carried
    · exact exact_.bounded
  | close _ | reset | read | closed => exact ⟨step_sound exact_.sound _,exact_.carried,exact_.bounded⟩

/-- An ack leaves every byte accounted for exactly when it is of what was sent, or of more than
was written. -/
theorem ack_accounted_iff {s : Sender} (exact_ : s.Exact) (ack window : Nat) :
    (s.step (.ack ack window)).Accounted ↔ s.Truthful (.ack ack window) := by
  refine ⟨fun accounted => ?_,fun truthful => (ack_exact exact_ truthful).accounted⟩
  by_contra lie
  simp only [Truthful,not_or,Nat.not_le,Nat.not_lt] at lie
  have base := ack_base exact_.sound window lie.2
  obtain ⟨off,data,fin,member,from_,to_,_⟩ := accounted s.stream.sendHigh (by
    show _ < (s.stream.onAck ack window s.now).sendBase
    rw [base]
    omega)
  exact absurd (exact_.bounded _ off data fin member) (by omega)

/-- While no ack falls between what was sent and what was written, every byte that left the
buffer was sent before; the first ack that does takes bytes that were not. -/
theorem acked_was_sent (id : Nat) (kind : StreamKind) (metadata : Bytes) (needsOpen : Bool) (born : Nat) (calls : List Call)
    (truthful : Machine.Along step Truthful calls (start id kind metadata needsOpen born)) :
    let s := Machine.run step calls (start id kind metadata needsOpen born)
    s.Accounted ∧ ∀ ack window, (s.step (.ack ack window)).Accounted ↔ s.Truthful (.ack ack window) := by
  intro s
  have exact_ : s.Exact := Machine.run_invariant Exact (fun _ _ exact_ truthful => step_exact exact_ truthful) calls _
    (start_exact id kind metadata needsOpen born) truthful
  exact ⟨exact_.accounted,ack_accounted_iff exact_⟩

theorem acked_was_sent_letter :
    let s := Machine.run step [.write [97],.poll,.ack 1 100] (start 0 .forward [] true 0)
    s.stream.sendBase = 1 ∧ s.Accounted :=
  ⟨by decide +kernel,
    (acked_was_sent 0 .forward [] true 0 [.write [97],.poll,.ack 1 100] (by decide +kernel)).1⟩

/-- A byte is acknowledged before any poll. -/
theorem acked_unsent :
    let s := Machine.run step [.write [97],.ack 1 100] (start 0 .forward [] true 0)
    s.stream.sendBuf = [] ∧ s.sent = [] ∧ ¬s.Accounted := by
  refine ⟨by decide +kernel,rfl,?_⟩
  intro accounted
  obtain ⟨off,data,fin,member,_⟩ := accounted 0 (by decide +kernel)
  cases member

end Sender
end Noissh

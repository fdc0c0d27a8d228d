import Noissh.StreamStateSpec

/-! One direction of one stream: a sender's end, a receiver's end and the frames between
them. `Flow` says what they have to do with the bytes written, and the lemmas say how each
kind of step keeps it. The ends are optional, since either may be missing or reclaimed. -/
namespace Noissh

open StreamState

/-- The fields of an endpoint that the outgoing direction rests on. -/
structure SendSame (s t : StreamState) : Prop where
  id : t.id = s.id
  buf : t.sendBuf = s.sendBuf
  base : t.sendBase = s.sendBase
  high : t.sendHigh = s.sendHigh
  next : t.sendNext = s.sendNext
  fin : t.sendFin = s.sendFin
  cwnd : t.cwnd = s.cwnd
  rto : t.rto = s.rto

/-- The fields of an endpoint that the incoming direction rests on. -/
structure RecvSame (s t : StreamState) : Prop where
  recv : t.recv = s.recv
  peerFin : t.peerFin = s.peerFin

theorem SendSame.refl (s : StreamState) : SendSame s s := by constructor <;> rfl
theorem RecvSame.refl (s : StreamState) : RecvSame s s := by constructor <;> rfl

structure Flow (tx rx : Option StreamState) (sent back : Frame → Prop) (id : Nat)
    (w r : Bytes) (closed : Option Nat) : Prop where
  keyed : ∀ s, tx = some s → s.id = id
  sending : ∀ s, tx = some s → Sending w s
  paced : ∀ s, tx = some s → s.Paced
  fin : ∀ s, tx = some s → s.sendFin = true → closed ≠ none
  closedLe : ∀ n, closed = some n → n ≤ w.length
  segment : ∀ off d fin, sent (.streamData id off d fin) → Segment w off d
  reach : ∀ off d fin, sent (.streamData id off d fin) → ∀ s, tx = some s → off + d.length ≤ s.sendHigh
  marked : ∀ off d, sent (.streamData id off d true) → ∃ n, closed = some n ∧ n ≤ off + d.length
  recv : ∀ t, rx = some t → t.recv.Valid
  bytes : ∀ t, rx = some t → t.recv.delivered ≤ w.length ∧ r = w.take t.recv.delivered
  stored : ∀ t, rx = some t → ∀ p b, t.recv.contents p = some b → w[p]? = some b
  behind : ∀ s t, tx = some s → rx = some t → t.recv.delivered ≤ s.sendHigh ∧
    ∀ p b, t.recv.contents p = some b → p < s.sendHigh
  finished : ∀ t, rx = some t → ∀ stop, t.peerFin = .finished stop →
    stop ≤ w.length ∧ ∃ n, closed = some n ∧ n ≤ stop
  got : r <+: w
  acks : ∀ t, rx = some t → ∀ a window, back (.streamAck id a window) → a ≤ t.recv.ackPoint
  base : ∀ s t, tx = some s → rx = some t → s.sendBase ≤ t.recv.ackPoint

namespace Flow

variable {tx rx tx' rx' : Option StreamState} {sent back sent' back' : Frame → Prop} {id : Nat}
  {w r : Bytes} {closed : Option Nat}

/-- Neither end exists yet. -/
theorem unborn (quiet : ∀ f, ¬sent f) : Flow none none sent back id [] [] none := by
  constructor <;> simp_all

/-- The sender's end is created. -/
theorem bornSender (flow : Flow none rx sent back id [] r none) (quiet : ∀ f, ¬sent f) (kind : StreamKind)
    (metadata : Bytes) (needsOpen : Bool) :
    Flow (some (new id kind metadata needsOpen)) rx sent back id [] r none where
  keyed s here := by cases here; rfl
  sending s here := by cases here; exact new_sending id kind metadata needsOpen
  paced s here := by cases here; exact new_paced id kind metadata needsOpen
  fin s here closing := by cases here; cases closing
  closedLe := flow.closedLe
  segment off d fin here := absurd here (quiet _)
  reach off d fin here := absurd here (quiet _)
  marked off d here := absurd here (quiet _)
  recv := flow.recv
  bytes := flow.bytes
  stored := flow.stored
  behind s t hereS hereT := by
    refine ⟨Nat.le_trans (flow.bytes t hereT).1 (Nat.zero_le _),fun p b holds => ?_⟩
    have := flow.stored t hereT p b holds
    simp at this
  finished := flow.finished
  got := flow.got
  acks := flow.acks
  base s t here _ := by cases here; exact Nat.zero_le _

/-- The receiver's end is created, before any byte was acked to the sender. -/
theorem bornReceiver (flow : Flow tx none sent back id w [] closed) (silent : ∀ f, ¬back f)
    (untouched : ∀ s, tx = some s → s.sendBase = 0) (kind : StreamKind) (metadata : Bytes) (needsOpen : Bool) :
    Flow tx (some (new id kind metadata needsOpen)) sent back id w [] closed where
  keyed := flow.keyed
  sending := flow.sending
  paced := flow.paced
  fin := flow.fin
  closedLe := flow.closedLe
  segment := flow.segment
  reach := flow.reach
  marked := flow.marked
  recv t here := by cases here; exact Reassembler.empty_valid
  bytes t here := by cases here; simp [new]
  stored t here p b holds := by
    cases here
    exact absurd ((Reassembler.contents_eq_some Reassembler.empty_valid).mp holds) (Reassembler.empty_not_holds p b)
  behind s t _ here := by
    cases here
    refine ⟨Nat.zero_le _,fun p b holds => ?_⟩
    exact absurd ((Reassembler.contents_eq_some Reassembler.empty_valid).mp holds) (Reassembler.empty_not_holds p b)
  finished t here stop fin := by cases here; cases fin
  got := flow.got
  acks t here a window ack := absurd ack (silent _)
  base s t here _ := by rw [untouched s here]; exact Nat.zero_le _

/-- Steps that leave the relevant fields alone, drop an end, or lose frames. -/
theorem mono (flow : Flow tx rx sent back id w r closed)
    (sender : ∀ s', tx' = some s' → ∃ s, tx = some s ∧ SendSame s s')
    (receiver : ∀ t', rx' = some t' → ∃ t, rx = some t ∧ RecvSame t t')
    (fewer : ∀ off d fin, sent' (.streamData id off d fin) → sent (.streamData id off d fin))
    (fewerBack : ∀ a window, back' (.streamAck id a window) → back (.streamAck id a window)) :
    Flow tx' rx' sent' back' id w r closed where
  keyed s' here := by
    obtain ⟨s,old,same⟩ := sender s' here
    rw [same.id]; exact flow.keyed s old
  sending s' here := by
    obtain ⟨s,old,same⟩ := sender s' here
    have sending := flow.sending s old
    constructor
    · rw [same.next]; exact sending.next
    · rw [same.buf,same.base]; exact sending.buf
    · rw [same.base,same.high]; exact sending.low
    · rw [same.high,same.next]; exact sending.high
    · rw [same.high,same.base]; exact sending.window
  paced s' here := by
    obtain ⟨s,old,same⟩ := sender s' here
    have paced := flow.paced s old
    constructor
    · rw [same.cwnd]; exact paced.cwndLow
    · rw [same.cwnd]; exact paced.cwndHigh
    · rw [same.rto]; exact paced.rtoHigh
  fin s' here closing := by
    obtain ⟨s,old,same⟩ := sender s' here
    exact flow.fin s old (same.fin ▸ closing)
  closedLe := flow.closedLe
  segment off d fin here := flow.segment off d fin (fewer _ _ _ here)
  reach off d fin frame s' here := by
    obtain ⟨s,old,same⟩ := sender s' here
    rw [same.high]; exact flow.reach off d fin (fewer _ _ _ frame) s old
  marked off d here := flow.marked off d (fewer _ _ _ here)
  recv t' here := by
    obtain ⟨t,old,same⟩ := receiver t' here
    rw [same.recv]; exact flow.recv t old
  bytes t' here := by
    obtain ⟨t,old,same⟩ := receiver t' here
    rw [same.recv]; exact flow.bytes t old
  stored t' here := by
    obtain ⟨t,old,same⟩ := receiver t' here
    rw [same.recv]; exact flow.stored t old
  behind s' t' hereS hereT := by
    obtain ⟨s,oldS,sameS⟩ := sender s' hereS
    obtain ⟨t,oldT,sameT⟩ := receiver t' hereT
    rw [sameT.recv,sameS.high]; exact flow.behind s t oldS oldT
  finished t' here := by
    obtain ⟨t,old,same⟩ := receiver t' here
    rw [same.peerFin]; exact flow.finished t old
  got := flow.got
  acks t' here a window frame := by
    obtain ⟨t,old,same⟩ := receiver t' here
    rw [same.recv]; exact flow.acks t old a window (fewerBack _ _ frame)
  base s' t' hereS hereT := by
    obtain ⟨s,oldS,sameS⟩ := sender s' hereS
    obtain ⟨t,oldT,sameT⟩ := receiver t' hereT
    rw [sameT.recv,sameS.base]; exact flow.base s t oldS oldT

/-- The sender's application writes. -/
theorem write {s : StreamState} (flow : Flow (some s) rx sent back id w r closed) (data : Bytes) :
    Flow (some (s.write data)) rx sent back id (w ++ data) r closed where
  keyed s' here := by cases here; exact flow.keyed s rfl
  sending s' here := by cases here; exact write_sending (flow.sending s rfl) data
  paced s' here := by
    cases here
    have paced := flow.paced s rfl
    exact ⟨paced.cwndLow,paced.cwndHigh,paced.rtoHigh⟩
  fin s' here closing := by cases here; exact flow.fin s rfl closing
  closedLe n here := by have := flow.closedLe n here; simp; omega
  segment off d fin here := (flow.segment off d fin here).append data
  reach off d fin frame s' here := by cases here; exact flow.reach off d fin frame s rfl
  marked := flow.marked
  recv := flow.recv
  bytes t here := by
    obtain ⟨le,eq⟩ := flow.bytes t here
    refine ⟨by simp; omega,?_⟩
    rw [List.take_append_of_le_length le]; exact eq
  stored t here p b holds := by
    have value := flow.stored t here p b holds
    have bound := (List.getElem?_eq_some_iff.mp value).1
    rw [List.getElem?_append_left bound]; exact value
  behind s' t hereS hereT := by cases hereS; exact flow.behind s t rfl hereT
  finished t here stop fin := by
    obtain ⟨le,closed⟩ := flow.finished t here stop fin
    exact ⟨by simp; omega,closed⟩
  got := flow.got.trans (List.prefix_append w data)
  acks := flow.acks
  base s' t hereS hereT := by cases hereS; exact flow.base s t rfl hereT

/-- The receiver's application reads. -/
theorem read {t : StreamState} (flow : Flow tx (some t) sent back id w r closed) :
    Flow tx (some { t with recv := t.recv.read.2 }) sent back id w (r ++ t.recv.read.1) closed := by
  have valid := flow.recv t rfl
  obtain ⟨le,eq⟩ := flow.bytes t rfl
  have sum := t.recv.ackPoint_eq_unread
  have length := t.recv.read_length
  have pointwise : ∀ i, i < t.recv.unread → t.recv.read.1[i]? = w[t.recv.delivered + i]? := by
    intro i bound
    rw [Reassembler.getElem?_read valid bound]
    obtain ⟨b,held⟩ := Reassembler.contents_before_ackPoint valid
      (p := t.recv.delivered + i) (by omega) (by omega)
    rw [held,flow.stored t rfl _ b held]
  have reach : t.recv.ackPoint ≤ w.length := by
    by_contra beyond
    obtain ⟨b,held⟩ := Reassembler.contents_before_ackPoint valid
      (p := max t.recv.delivered w.length) (by omega) (by omega)
    have := (List.getElem?_eq_some_iff.mp (flow.stored t rfl _ b held)).1
    omega
  have extended : r ++ t.recv.read.1 = w.take t.recv.ackPoint := by
    rw [eq,sum,List.take_add]
    congr 1
    apply List.ext_getElem?
    intro i
    by_cases bound : i < t.recv.unread
    · rw [pointwise i bound,List.getElem?_take_of_lt bound,List.getElem?_drop]
    · rw [List.getElem?_eq_none (by omega),List.getElem?_eq_none (by simp; omega)]
  exact {
    keyed := flow.keyed
    sending := flow.sending
    paced := flow.paced
    fin := flow.fin
    closedLe := flow.closedLe
    segment := flow.segment
    reach := flow.reach
    marked := flow.marked
    recv := fun t' here => by cases here; exact Reassembler.read_valid valid
    bytes := fun t' here => by
      cases here
      simp only [Reassembler.read_delivered]
      exact ⟨reach,extended⟩
    stored := fun t' here p b holds => by
      cases here
      rw [Reassembler.read_contents valid] at holds
      split at holds
      · cases holds
      · exact flow.stored t rfl p b holds
    behind := fun s t' hereS hereT => by
      cases hereT
      obtain ⟨low,inside⟩ := flow.behind s t hereS rfl
      simp only [Reassembler.read_delivered]
      refine ⟨?_,fun p b holds => ?_⟩
      · by_contra beyond
        obtain ⟨b,held⟩ := Reassembler.contents_before_ackPoint valid
          (p := max t.recv.delivered s.sendHigh) (by omega) (by omega)
        have := inside _ b held
        omega
      · rw [Reassembler.read_contents valid] at holds
        split at holds
        · cases holds
        · exact inside p b holds
    finished := fun t' here => by cases here; exact flow.finished t rfl
    got := by rw [extended]; exact List.take_prefix _ _
    acks := fun t' here a window frame => by
      cases here
      have := flow.acks t rfl a window frame
      exact Nat.le_trans this (by rw [← Reassembler.read_delivered]; exact Reassembler.delivered_le_ackPoint _)
    base := fun s t' hereS hereT => by
      cases hereT
      have := flow.base s t hereS rfl
      exact Nat.le_trans this (by rw [← Reassembler.read_delivered]; exact Reassembler.delivered_le_ackPoint _) }

/-- The sender's application closes. -/
theorem close {s : StreamState} (flow : Flow (some s) rx sent back id w r closed) (status : Int) :
    Flow (some { s with sendFin := true, closeStatus := some status }) rx sent back id w r
      (closed.or (some w.length)) where
  keyed s' here := by cases here; exact flow.keyed s rfl
  sending s' here := by
    cases here
    have sending := flow.sending s rfl
    exact ⟨sending.next,sending.buf,sending.low,sending.high,sending.window⟩
  paced s' here := by
    cases here
    have paced := flow.paced s rfl
    exact ⟨paced.cwndLow,paced.cwndHigh,paced.rtoHigh⟩
  fin s' here _ := by cases closed <;> simp
  closedLe n here := by
    cases closed with
    | none => simp only [Option.none_or,Option.some.injEq] at here; omega
    | some m => exact flow.closedLe n (by simpa using here)
  segment := flow.segment
  reach off d fin frame s' here := by cases here; exact flow.reach off d fin frame s rfl
  marked off d here := by
    obtain ⟨n,present,le⟩ := flow.marked off d here
    exact ⟨n,by rw [present]; rfl,le⟩
  recv := flow.recv
  bytes := flow.bytes
  stored := flow.stored
  behind s' t hereS hereT := by cases hereS; exact flow.behind s t rfl hereT
  finished t here stop fin := by
    obtain ⟨le,n,present,reach⟩ := flow.finished t here stop fin
    exact ⟨le,n,by rw [present]; rfl,reach⟩
  got := flow.got
  acks := flow.acks
  base s' t hereS hereT := by cases hereS; exact flow.base s t rfl hereT

/-- The sender polls: its new frames join those in flight, and it may be reclaimed. -/
theorem pollSender {s : StreamState} (flow : Flow (some s) rx sent back id w r closed)
    (live : s.reset = false) (now : Nat)
    (sender : ∀ s', tx' = some s' → s' = (s.transmit now).1)
    (frames : ∀ f, sent' f → sent f ∨ f ∈ (s.transmit now).2) :
    Flow tx' rx sent' back id w r closed := by
  obtain ⟨sending,paced,kept,_,_,emits⟩ := transmit_spec (flow.sending s rfl) (flow.paced s rfl) live now
  have data : ∀ off d fin, .streamData id off d fin ∈ (s.transmit now).2 → Segment w off d ∧
      off + d.length ≤ (s.transmit now).1.sendHigh ∧
      (fin = true → s.sendFin = true ∧ off + d.length = w.length) := by
    intro off d fin member
    cases emits _ member with
    | data segment reach _ flag => exact ⟨segment,reach,fun marked => ⟨(flag marked).1,(flag marked).2.2.1⟩⟩
  exact {
    keyed := fun s' here => by cases sender s' here; rw [kept.id]; exact flow.keyed s rfl
    sending := fun s' here => by cases sender s' here; exact sending
    paced := fun s' here => by cases sender s' here; exact paced
    fin := fun s' here closing => by
      cases sender s' here
      exact flow.fin s rfl (kept.sendFin ▸ closing)
    closedLe := flow.closedLe
    segment := fun off d fin here => by
      rcases frames _ here with old | fresh
      · exact flow.segment off d fin old
      · exact (data off d fin fresh).1
    reach := fun off d fin frame s' here => by
      cases sender s' here
      rcases frames _ frame with old | fresh
      · exact Nat.le_trans (flow.reach off d fin old s rfl) kept.high
      · exact (data off d fin fresh).2.1
    marked := fun off d here => by
      rcases frames _ here with old | fresh
      · exact flow.marked off d old
      · obtain ⟨closing,stop⟩ := (data off d true fresh).2.2 rfl
        obtain ⟨n,present⟩ := Option.ne_none_iff_exists'.mp (flow.fin s rfl closing)
        exact ⟨n,present,by rw [stop]; exact flow.closedLe n present⟩
    recv := flow.recv
    bytes := flow.bytes
    stored := flow.stored
    behind := fun s' t hereS hereT => by
      cases sender s' hereS
      obtain ⟨low,inside⟩ := flow.behind s t rfl hereT
      exact ⟨Nat.le_trans low kept.high,fun p b holds => Nat.lt_of_lt_of_le (inside p b holds) kept.high⟩
    finished := flow.finished
    got := flow.got
    acks := flow.acks
    base := fun s' t hereS hereT => by
      cases sender s' hereS
      rw [kept.base]
      exact flow.base s t rfl hereT }

/-- The receiver's poll adds acks at its current ack point. -/
theorem pollReceiver {t : StreamState} (flow : Flow tx (some t) sent back id w r closed)
    (receiver : ∀ t', rx' = some t' → RecvSame t t')
    (frames : ∀ f, back' f → back f ∨ ∀ a window, f = .streamAck id a window → a = t.recv.ackPoint) :
    Flow tx rx' sent back' id w r closed := by
  have old : Flow tx rx' sent back id w r closed := flow.mono
    (fun s' here => ⟨s',here,.refl s'⟩) (fun t' here => ⟨t,rfl,receiver t' here⟩)
    (fun _ _ _ old => old) (fun _ _ old => old)
  refine { old with acks := fun t' here a window frame => ?_ }
  rw [(receiver t' here).recv]
  rcases frames _ frame with before | fresh
  · exact flow.acks t rfl a window before
  · exact Nat.le_of_eq (fresh a window rfl)

/-- A StreamData frame reaches the receiver. -/
theorem onData {t : StreamState} (flow : Flow tx (some t) sent back id w r closed)
    {off : Nat} {d : Bytes} {fin : Bool} (frame : sent (.streamData id off d fin)) :
    Flow tx (some (t.onData off d fin).1) sent back id w r closed := by
  rw [onData_eq]
  by_cases accepted : t.accepts off d = true
  case neg =>
    simp only [accepted,if_false,false_and,Bool.false_eq_true]
    exact flow
  have valid := flow.recv t rfl
  have segment := flow.segment off d fin frame
  simp only [accepted,if_true,true_and]
  have agrees : ∀ p b, (t.recv.insert off d).contents p = some b →
      t.recv.contents p = some b ∨ p < off + d.length ∧ w[p]? = some b := by
    intro p b holds
    rw [Reassembler.insert_contents valid] at holds
    split at holds
    · rename_i range
      right
      refine ⟨range.2.1,?_⟩
      rw [← holds,← segment.agrees (p - off) (by omega)]
      congr 1; omega
    · exact .inl holds
  exact {
    keyed := flow.keyed
    sending := flow.sending
    paced := flow.paced
    fin := flow.fin
    closedLe := flow.closedLe
    segment := flow.segment
    reach := flow.reach
    marked := flow.marked
    recv := fun t' here => by cases here; exact Reassembler.insert_valid valid off d
    bytes := fun t' here => by
      cases here
      simp only [Reassembler.insert_delivered]
      exact flow.bytes t rfl
    stored := fun t' here p b holds => by
      cases here
      rcases agrees p b holds with old | ⟨_,value⟩
      · exact flow.stored t rfl p b old
      · exact value
    behind := fun s t' hereS hereT => by
      cases hereT
      obtain ⟨low,inside⟩ := flow.behind s t hereS rfl
      simp only [Reassembler.insert_delivered]
      refine ⟨low,fun p b holds => ?_⟩
      rcases agrees p b holds with old | ⟨lt,_⟩
      · exact inside p b old
      · exact Nat.lt_of_lt_of_le lt (flow.reach off d fin frame s hereS)
    finished := fun t' here stop end_ => by
      cases here
      dsimp only at end_
      split at end_
      · rename_i first
        cases end_
        obtain ⟨rfl,_⟩ := first
        exact ⟨segment.fits,flow.marked off d frame⟩
      · exact flow.finished t rfl stop end_
    got := flow.got
    acks := fun t' here a window ack => by
      cases here
      exact Nat.le_trans (flow.acks t rfl a window ack) (Reassembler.insert_ackPoint_le valid off d)
    base := fun s t' hereS hereT => by
      cases hereT
      exact Nat.le_trans (flow.base s t hereS rfl) (Reassembler.insert_ackPoint_le valid off d) }

/-- A StreamAck reaches the sender. -/
theorem onAck {s : StreamState} (flow : Flow (some s) rx sent back id w r closed)
    {a window : Nat} (frame : back (.streamAck id a window)) (now : Nat) :
    Flow (some (s.onAck a window now)) rx sent back id w r closed := by
  rcases Nat.lt_or_ge s.sendNext a with beyond | known
  · rw [onAck_ignored s a window now beyond]
    exact flow
  have sending := flow.sending s rfl
  have step := onAck_step s a window now known sending.low
  have raised : s.sendHigh ≤ (s.onAck a window now).sendHigh := by rw [step.high]; omega
  exact {
    keyed := fun s' here => by cases here; rw [step.id]; exact flow.keyed s rfl
    sending := fun s' here => by cases here; exact onAck_sending sending a window now
    paced := fun s' here => by cases here; exact onAck_paced (flow.paced s rfl) a window now
    fin := fun s' here closing => by cases here; exact flow.fin s rfl (step.sendFin ▸ closing)
    closedLe := flow.closedLe
    segment := flow.segment
    reach := fun off d fin frame s' here => by
      cases here
      exact Nat.le_trans (flow.reach off d fin frame s rfl) raised
    marked := flow.marked
    recv := flow.recv
    bytes := flow.bytes
    stored := flow.stored
    behind := fun s' t hereS hereT => by
      cases hereS
      obtain ⟨low,inside⟩ := flow.behind s t rfl hereT
      exact ⟨Nat.le_trans low raised,fun p b holds => Nat.lt_of_lt_of_le (inside p b holds) raised⟩
    finished := flow.finished
    got := flow.got
    acks := flow.acks
    base := fun s' t hereS hereT => by
      cases hereS
      have := flow.base s t rfl hereT
      have := flow.acks t hereT a window frame
      rw [step.base]
      omega }

end Flow
end Noissh

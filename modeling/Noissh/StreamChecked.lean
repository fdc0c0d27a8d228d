import Noissh.Checked
import Noissh.RttBound
import Noissh.StreamMux

/-! The stream code with its panics (`transport/src/stream.rs`): every addition, subtraction and
multiplication is that of the source's words and every slice and map access is checked. While
the bounds hold that the invariants give, each function returns, and returns what its total
counterpart says. -/
namespace Noissh

open Checked Splice

namespace Reassembler

def mergeChecked (r : Reassembler) (offset : Nat) (data : Bytes) : Option Reassembler := do
  let stop ← add 64 offset data.length
  let ends ← (r.segs.toList.filter (fun p => p.1 ≤ stop)).mapM fun p => do
    let last ← add 64 p.1 p.2.length
    pure (p.1,last)
  let keys := (ends.filter (fun p => offset ≤ p.2)).map Prod.fst
  let (start,mergedStop) ← keys.foldlM (fun (p : Nat × Nat) k => do
    let seg ← r.segs[k]?
    let last ← add 64 k seg.length
    pure (min p.1 k,max p.2 last)) (offset,stop)
  let size ← sub mergedStop start
  let (segs,buf) ← keys.foldlM (fun (p : Std.TreeMap Nat Bytes × Bytes) k => do
    let seg ← p.1[k]?
    let pos ← sub k start
    let hi ← add 64 pos seg.length
    let buf ← copy p.2 pos hi seg
    pure (p.1.erase k,buf)) (r.segs,List.replicate size 0)
  let pos ← sub offset start
  let hi ← add 64 pos data.length
  let buf ← copy buf pos hi data
  pure { r with segs := segs.insert start buf }

def insertChecked (r : Reassembler) (offset : Nat) (data : Bytes) : Option Reassembler :=
  if data.isEmpty then some r
  else if offset < r.delivered then do
    let cut ← sub r.delivered offset
    if data.length ≤ cut then pure r
    else
      let rest ← drain data cut
      r.mergeChecked r.delivered rest
  else r.mergeChecked offset data

def readChecked (r : Reassembler) : Option (Bytes × Reassembler) :=
  match r.segs[r.delivered]? with
  | some bytes => do
    let delivered ← add 64 r.delivered bytes.length
    pure (bytes,⟨delivered,r.segs.erase r.delivered⟩)
  | none => some ([],r)

def ackPointChecked (r : Reassembler) : Option Nat :=
  match r.segs[r.delivered]? with
  | some bytes => add 64 r.delivered bytes.length
  | none => some r.delivered

def unreadChecked (r : Reassembler) : Option Nat := do
  let point ← r.ackPointChecked
  sub point r.delivered

/-- Nothing is stored at or beyond this offset. -/
def Below (r : Reassembler) (n : Nat) : Prop := ∀ p, n ≤ p → r.contents p = none

variable {r : Reassembler} {n offset : Nat} {data : Bytes}

theorem Below.seg (valid : r.Valid) (below : r.Below n) {k : Nat} {bytes : Bytes} (stored : r.segs[k]? = some bytes) :
    k + bytes.length ≤ n := by
  by_contra beyond
  have positive := List.length_pos_iff.mpr (valid.nonempty k bytes stored)
  have last := below (k + bytes.length - 1) (by omega)
  rw [contents_of_seg valid stored (by omega) (by omega),List.getElem?_eq_none_iff] at last
  omega

theorem Below.mono {n' : Nat} (below : r.Below n) (le : n ≤ n') : r.Below n' := fun p above => below p (Nat.le_trans le above)

theorem Below.insert (valid : r.Valid) (below : r.Below n) (fits : offset + data.length ≤ n) :
    (r.insert offset data).Below n := by
  intro p above
  rw [insert_contents valid,if_neg (by omega)]
  exact below p above

theorem Below.read (valid : r.Valid) (below : r.Below n) : r.read.2.Below n := by
  intro p above
  rw [read_contents valid]
  split
  · rfl
  · exact below p above

theorem Below.ackPoint (valid : r.Valid) (below : r.Below n) (inside : r.delivered ≤ n) : r.ackPoint ≤ n := by
  unfold Reassembler.ackPoint
  split
  · rename_i bytes stored
    exact below.seg valid stored
  · exact inside

theorem seg_word (valid : r.Valid) (below : r.Below u64Max) {k : Nat} {bytes : Bytes} (stored : r.segs[k]? = some bytes) :
    add 64 k bytes.length = some (k + bytes.length) := by
  have last := below.seg valid stored
  exact add_some (Nat.lt_of_le_of_lt last (by decide))

theorem touching_checked (valid : r.Valid) (below : r.Below u64Max) (stop : Nat) :
    ∃ ends, ((r.segs.toList.filter (fun p => p.1 ≤ stop)).mapM fun p => do
        let last ← add 64 p.1 p.2.length
        pure (p.1,last)) = some ends ∧
      (ends.filter (fun p => offset ≤ p.2)).map Prod.fst = r.touching offset stop := by
  refine ⟨_,@mapM_some _ _ _ (fun p => (p.1,p.1 + p.2.length)) _ ?_,?_⟩
  · intro p member
    have stored := Std.TreeMap.mem_toList_iff_getElem?_eq_some.mp (List.mem_filter.mp member).1
    rw [seg_word valid below stored]
    rfl
  · rw [List.filter_map,List.map_map,List.filter_filter]
    unfold touching
    have order : ∀ p : Nat × Bytes, (decide (offset ≤ p.1 + p.2.length) && decide (p.1 ≤ stop)) =
        (decide (p.1 ≤ stop) && decide (offset ≤ p.1 + p.2.length)) := fun p => Bool.and_comm _ _
    simp only [Function.comp_def,order]

theorem span_checked (valid : r.Valid) (below : r.Below u64Max) {keys : List Nat}
    (held : ∀ k ∈ keys, ∃ bytes, r.segs[k]? = some bytes) (start stop : Nat) :
    keys.foldlM (fun (p : Nat × Nat) k => do
        let seg ← r.segs[k]?
        let last ← add 64 k seg.length
        pure (min p.1 k,max p.2 last)) (start,stop) = some (mergedStart start keys,r.mergedEnd stop keys) := by
  rw [@foldlM_some _ _ _ (fun p k => (min p.1 k,max p.2 (k + (r.seg k).length)))]
  · congr 1
    clear held
    induction keys generalizing start stop with
    | nil => rfl
    | cons k rest ih => exact ih (min start k) (max stop (k + (r.seg k).length))
  · intro k member p
    obtain ⟨bytes,stored⟩ := held k member
    simp only [stored,seg_of_some stored,Option.bind_eq_bind,Option.bind_some,seg_word valid below stored]
    rfl

/-- Moving the touched segments to the merged buffer: each is still there when its turn comes. -/
theorem gather_checked {start size : Nat} {keys : List Nat} {segs : Std.TreeMap Nat Bytes} {buf : Bytes} {seg : Nat → Bytes}
    (apart : keys.Pairwise (· ≠ ·)) (held : ∀ k ∈ keys, segs[k]? = some (seg k)) (length : buf.length = size)
    (inside : ∀ k ∈ keys, start ≤ k ∧ k - start + (seg k).length ≤ size) (word : size < 2^64) :
    keys.foldlM (fun (p : Std.TreeMap Nat Bytes × Bytes) k => do
        let seg ← p.1[k]?
        let pos ← sub k start
        let hi ← add 64 pos seg.length
        let buf ← copy p.2 pos hi seg
        pure (p.1.erase k,buf)) (segs,buf) =
      some (keys.foldl (fun m k => m.erase k) segs,patch buf (keys.map fun k => (k - start,seg k))) := by
  induction keys generalizing segs buf with
  | nil => rfl
  | cons k rest ih =>
    obtain ⟨above,fits⟩ := inside k (.head _)
    obtain ⟨others,apart⟩ := List.pairwise_cons.mp apart
    have copied : copy buf (k - start) (k - start + (seg k).length) (seg k) = some (splice buf (k - start) (seg k)) :=
      copy_some (by omega)
    rw [List.foldlM_cons]
    simp only [held k (.head _),sub_some above,add_some (Nat.lt_of_le_of_lt fits word),copied,Option.bind_eq_bind,
      Option.bind_some,Option.pure_def]
    refine ih apart ?_ ?_ fun q member => inside q (.tail _ member)
    · intro q member
      rw [Std.TreeMap.getElem?_erase,if_neg (by simpa using others q member)]
      exact held q (.tail _ member)
    · rw [splice_length _ _ _ (by omega),length]

theorem touching_nodup (r : Reassembler) (offset stop : Nat) : (r.touching offset stop).Pairwise (· ≠ ·) := by
  have distinct := Std.TreeMap.distinct_keys_toList (t := r.segs)
  unfold touching
  rw [List.pairwise_map]
  refine (distinct.filter _).imp fun different same => different ?_
  rw [same]
  exact Std.ReflCmp.compare_self

theorem mergeChecked_eq (valid : r.Valid) (below : r.Below u64Max) (fits : offset + data.length ≤ u64Max) :
    r.mergeChecked offset data = some (r.merge offset data) := by
  have stored : ∀ k ∈ r.mergeKeys offset data, r.segs[k]? = some (r.seg k) := by
    intro k member
    obtain ⟨bytes,here,_⟩ := mem_mergeKeys.mp member
    rw [here,seg_of_some here]
  have start : r.mergeStart offset data ≤ offset := mergeStart_le
  have small : r.mergeEnd offset data ≤ u64Max := by
    rcases mergedEnd_mem r (r.mergeKeys offset data) (offset + data.length) with same | ⟨k,member,same⟩
    · exact Nat.le_trans (Nat.le_of_eq same) fits
    · exact Nat.le_trans (Nat.le_of_eq same) (below.seg valid (stored k member))
  have ordered : r.mergeStart offset data ≤ r.mergeEnd offset data := by
    have stop : offset + data.length ≤ r.mergeEnd offset data := le_mergeEnd
    omega
  have word : u64Max < 2^64 := by decide
  -- The four loops and the last copy, in the order of the source.
  obtain ⟨ends,listed,touched⟩ := @touching_checked r offset valid below (offset + data.length)
  have spanned : _ = some (r.mergeStart offset data,r.mergeEnd offset data) :=
    span_checked valid below (fun k member => ⟨_,stored k member⟩) offset (offset + data.length)
  have gathered : _ = some (_,patch (r.mergeZeros offset data) (r.mergePatches offset data)) :=
    gather_checked (touching_nodup r offset (offset + data.length)) stored mergeZeros_length
      (fun k member => by
        have range := mergeKey_range member (stored k member)
        omega) (by omega)
  have copied := copy_some (@data_fits r offset data)
  have position : offset - r.mergeStart offset data + data.length < 2^64 := by omega
  unfold mergeChecked
  simp only [Option.bind_eq_bind,Option.pure_def] at listed spanned gathered ⊢
  rw [add_some (by omega),Option.bind_some,listed,Option.bind_some,touched]
  change Option.bind ((r.mergeKeys offset data).foldlM _ _) _ = _
  rw [spanned,Option.bind_some,sub_some ordered,Option.bind_some]
  change Option.bind ((r.mergeKeys offset data).foldlM _ (r.segs,r.mergeZeros offset data)) _ = _
  rw [gathered,Option.bind_some,sub_some start,Option.bind_some,add_some position,Option.bind_some,copied,Option.bind_some]
  rfl

theorem insertChecked_eq (valid : r.Valid) (below : r.Below u64Max) (fits : offset + data.length ≤ u64Max) :
    r.insertChecked offset data = some (r.insert offset data) := by
  unfold insertChecked insert
  split
  · rfl
  · split
    · rename_i _ old
      simp only [sub_some (Nat.le_of_lt old),Option.bind_eq_bind,Option.bind_some]
      split
      · rfl
      · rename_i longer
        rw [drain_some (by omega),Option.bind_some]
        exact mergeChecked_eq valid below (by rw [List.length_drop]; omega)
    · exact mergeChecked_eq valid below fits

theorem ackPointChecked_eq (valid : r.Valid) (below : r.Below u64Max) : r.ackPointChecked = some r.ackPoint := by
  unfold ackPointChecked ackPoint
  cases stored : r.segs[r.delivered]? with
  | none => rfl
  | some bytes => exact seg_word valid below stored

theorem unreadChecked_eq (valid : r.Valid) (below : r.Below u64Max) : r.unreadChecked = some r.unread := by
  unfold unreadChecked
  rw [ackPointChecked_eq valid below,Option.bind_eq_bind,Option.bind_some]
  exact sub_some r.delivered_le_ackPoint

theorem readChecked_eq (valid : r.Valid) (below : r.Below u64Max) : r.readChecked = some r.read := by
  unfold readChecked read
  cases stored : r.segs[r.delivered]? with
  | none => rfl
  | some bytes =>
    simp only [seg_word valid below stored]
    rfl

end Reassembler

namespace StreamState

def fullyDoneChecked (s : StreamState) : Option Bool :=
  if !s.sendFin then some false
  else do
    let finished ← match s.finAcked,s.peerFin with
      | true,.finished offset =>
        if offset ≤ s.recv.delivered then s.recv.unreadChecked.map (fun unread => unread == 0) else some false
      | _,_ => some false
    pure (finished || s.graceOver)

def writeChecked (s : StreamState) (data : Bytes) : Option StreamState := do
  let next ← add 64 s.sendNext data.length
  pure { s with sendBuf := s.sendBuf ++ data, sendNext := next }

def recomputeRtoChecked (s : StreamState) : Option StreamState :=
  if 0 < s.srtt then do
    let spread ← mul 32 4 s.rttvar
    let rto ← add 32 s.srtt (max spread 1)
    pure { s with rto := max minRto (min maxRto rto) }
  else some { s with rto := initRto }

def updateRttChecked (s : StreamState) (r : Nat) : Option StreamState :=
  if s.srtt = 0 then recomputeRtoChecked { s with srtt := r, rttvar := r / 2 }
  else do
    let delta := max s.srtt r - min s.srtt r
    let thrice ← mul 32 3 s.rttvar
    let spread ← add 32 thrice delta
    let seven ← mul 32 7 s.srtt
    let total ← add 32 seven r
    recomputeRtoChecked { s with rttvar := spread / 4, srtt := total / 8 }

def ackDataChecked (s : StreamState) (ack now : Nat) : Option StreamState :=
  if s.sendBase < ack then do
    let distance ← sub ack s.sendBase
    let advance := min distance s.sendBuf.length
    let buf ← drain s.sendBuf advance
    let base ← add 64 s.sendBase advance
    let high := max s.sendHigh base
    let s := { s with sendBuf := buf, sendBase := base, sendHigh := high }
    let s := s.growCwnd advance
    recomputeRtoChecked { s with rtoStart := if base < high then some now else none }
  else some s

def ackTimedChecked (s : StreamState) (ack now : Nat) : Option StreamState :=
  match s.timed with
  | some (seq,sent) =>
    if seq ≤ ack then do
      let s ← s.updateRttChecked (max (now - sent) 1 % 2^32)
      pure { s with timed := none }
    else some s
  | none => some s

def onAckChecked (s : StreamState) (ack window now : Nat) : Option StreamState :=
  if s.sendNext < ack then some s
  else do
    let s ← ({ s with peerWindow := window }).ackDataChecked ack now
    let s ← s.ackTimedChecked ack now
    pure (s.ackFin ack)

/-- The loop of `emitRange`; the first argument bounds its rounds. -/
def emitChecked : Nat → StreamState → Nat → Nat → Option (StreamState × List Frame)
  | 0, s, _, _ => some (s,[])
  | fuel + 1, s, off, stop =>
    if off < stop then do
      let reach ← add 64 off maxStreamChunk
      let chunkEnd := min reach stop
      let lo ← sub off s.sendBase
      let hi ← sub chunkEnd s.sendBase
      let fin := s.finAt chunkEnd
      let data ← slice s.sendBuf lo hi
      let (t,out) ← emitChecked fuel { s with finSent := s.finSent || fin } chunkEnd stop
      pure (t,.streamData s.id off data fin :: out)
    else some (s,[])

def emitRangeChecked (s : StreamState) (off stop : Nat) : Option (StreamState × List Frame) :=
  emitChecked (stop - off) s off stop

def transmitDataChecked (s : StreamState) (now : Nat) : Option (StreamState × List Frame) := do
  let limit ← add 64 s.sendBase (min s.peerWindow s.cwnd)
  let sendEnd := min s.sendNext limit
  if s.sendHigh < sendEnd then
    let (t,out) ← s.emitRangeChecked (max s.sendHigh s.sendBase) sendEnd
    pure ({ t with
      timed := t.timed.or (some (sendEnd,now))
      sendHigh := sendEnd
      rtoStart := t.rtoStart.or (some now) },out)
  else if s.sendBase < s.sendHigh then
    if s.rtoDue now then
      let (t,out) ← s.emitRangeChecked s.sendBase s.sendHigh
      pure (({ t with rtoStart := some now }).onRto,out)
    else pure (s,[])
  else if s.sendFin && !s.finAcked && s.sendNext == s.sendBase then
    if !s.finSent || s.rtoDue now then
      pure ({ s with finSent := true, rtoStart := some now },[.streamData s.id s.sendNext [] true])
    else pure (s,[])
  else pure (s,[])

def transmitAckChecked (s : StreamState) : Option (StreamState × List Frame) := do
  let unread ← s.recv.unreadChecked
  let window := defaultWindow - min unread defaultWindow
  let point ← s.recv.ackPointChecked
  pure ({ s with recvWindow := window },[.streamAck s.id point window])

def transmitChecked (s : StreamState) (now : Nat) : Option (StreamState × List Frame) :=
  if s.reset then some (s,[])
  else do
    let (s,opening) := s.transmitOpen
    let (s,data) ← s.transmitDataChecked now
    let (s,acks) ← s.transmitAckChecked
    pure (s.countClose,opening ++ data ++ acks ++ s.transmitClose)

def onDataChecked (s : StreamState) (offset : Nat) (data : Bytes) (fin : Bool) : Option (StreamState × Bool) :=
  if s.accepts offset data then do
    let had ← s.recv.ackPointChecked
    let t := s.recordFin (offset + data.length) fin
    let recv ← t.recv.insertChecked offset data
    let point ← recv.ackPointChecked
    pure ({ t with recv },decide (had < point))
  else some (s,false)

variable {s : StreamState} {w : Bytes} {now : Nat}

theorem u64Max_lt : u64Max < 2^64 := by decide

theorem rttLimit_lt : 8 * rttLimit < 2^32 := by decide

theorem fullyDoneChecked_eq (valid : s.recv.Valid) (below : s.recv.Below u64Max) : s.fullyDoneChecked = some s.fullyDone := by
  unfold fullyDoneChecked fullyDone recvFinished
  cases s.sendFin with
  | false => rfl
  | true =>
    cases s.finAcked with
    | false => rfl
    | true =>
      cases s.peerFin with
      | opened => rfl
      | finished offset =>
        rw [Reassembler.unreadChecked_eq valid below]
        by_cases reached : offset ≤ s.recv.delivered
        · simp only [Bool.not_true,Bool.false_eq_true,if_false,reached,if_true,decide_true,Bool.true_and,Option.map_some]
          cases s.recv.unread == 0 <;> rfl
        · simp only [Bool.not_true,Bool.false_eq_true,if_false,reached,decide_false,Bool.false_and,Bool.and_false]
          rfl

theorem writeChecked_eq {data : Bytes} (fits : s.sendNext + data.length ≤ u64Max) :
    s.writeChecked data = some (s.write data) := by
  unfold writeChecked
  rw [add_some (Nat.lt_of_le_of_lt fits u64Max_lt)]
  rfl

theorem recomputeRtoChecked_eq (srtt : s.srtt ≤ rttLimit) (rttvar : s.rttvar ≤ rttLimit) :
    s.recomputeRtoChecked = some s.recomputeRto := by
  have limit := rttLimit_lt
  have spread : 4 * s.rttvar < 2^32 := by omega
  have sum : s.srtt + max (4 * s.rttvar) 1 < 2^32 := by omega
  unfold recomputeRtoChecked recomputeRto
  rw [Nat.mod_eq_of_lt spread,Nat.mod_eq_of_lt sum,mul_some spread]
  split
  · simp only [Option.bind_eq_bind,Option.bind_some,add_some sum]
    rfl
  · rfl

theorem updateRttChecked_eq (srtt : s.srtt ≤ rttLimit) (rttvar : s.rttvar ≤ rttLimit) {r : Nat} (sample : r ≤ rttLimit) :
    s.updateRttChecked r = some (s.updateRtt r) := by
  have limit := rttLimit_lt
  have small := updateRtt_small srtt rttvar sample
  unfold updateRtt at small
  unfold updateRttChecked updateRtt
  split
  · exact recomputeRtoChecked_eq sample (Nat.le_trans (Nat.div_le_self _ _) sample)
  · rename_i sampled
    rw [if_neg sampled] at small
    have thrice : 3 * s.rttvar < 2^32 := by omega
    have spread : 3 * s.rttvar + (max s.srtt r - min s.srtt r) < 2^32 := by omega
    have seven : 7 * s.srtt < 2^32 := by omega
    have total : 7 * s.srtt + r < 2^32 := by omega
    simp only [mul_some thrice,add_some spread,mul_some seven,add_some total,Option.bind_eq_bind,Option.bind_some,
      Nat.mod_eq_of_lt spread,Nat.mod_eq_of_lt total] at small ⊢
    exact recomputeRtoChecked_eq small.1 small.2

theorem ackDataChecked_eq (clocked : Clocked now s) (sending : Sending w s) (room : s.sendNext ≤ u64Max) (ack : Nat) :
    s.ackDataChecked ack now = some (s.ackData ack now) := by
  have word := u64Max_lt
  have length : s.sendBuf.length = s.sendNext - s.sendBase := by
    rw [sending.buf,List.length_drop,sending.next]
  have low := sending.low
  have high := sending.high
  unfold ackDataChecked ackData
  split
  · rename_i fresh
    have drained := @drain_some _ s.sendBuf (min (ack - s.sendBase) s.sendBuf.length) (Nat.min_le_right _ _)
    have base : s.sendBase + min (ack - s.sendBase) s.sendBuf.length < 2^64 := by omega
    simp only [sub_some (Nat.le_of_lt fresh),drained,add_some base,Option.bind_eq_bind,Option.bind_some]
    exact recomputeRtoChecked_eq clocked.srtt clocked.rttvar
  · rfl

/-- A probe that an ack ends is sampled after at most `rttLimit` ticks. -/
theorem ackTimedChecked_eq (clocked : Clocked now s) (sending : Sending w s) (ack : Nat) :
    (s.ackData ack now).ackTimedChecked ack now = some ((s.ackData ack now).ackTimed ack now) := by
  obtain ⟨srtt,rttvar,timed,_⟩ := ackData_timing s ack now
  unfold ackTimedChecked ackTimed
  rw [timed]
  cases probed : s.timed with
  | none => rfl
  | some probe =>
    have bound := (clocked.probe probe.1 probe.2 probed).bound sending.window
    have updated := @updateRttChecked_eq (s.ackData ack now) (srtt ▸ clocked.srtt)
      (rttvar ▸ clocked.rttvar) _ (sample_small bound)
    dsimp only
    rw [updated]
    split <;> rfl

theorem onAckChecked_eq (clocked : Clocked now s) (sending : Sending w s) (room : s.sendNext ≤ u64Max) (ack window : Nat) :
    s.onAckChecked ack window now = some (s.onAck ack window now) := by
  unfold onAckChecked onAck
  split
  · rfl
  have sending' : Sending w { s with peerWindow := window } :=
    ⟨sending.next,sending.buf,sending.low,sending.high,sending.window⟩
  have clocked' : Clocked now { s with peerWindow := window } := clocked.congr rfl rfl rfl rfl rfl rfl
  rw [ackDataChecked_eq clocked' sending' room ack]
  simp only [Option.bind_eq_bind,Option.bind_some,ackTimedChecked_eq clocked' sending']
  rfl

theorem emitChecked_eq (fuel : Nat) {off stop : Nat} (length : s.sendBase + s.sendBuf.length = s.sendNext)
    (low : s.sendBase ≤ off) (high : stop ≤ s.sendNext) (room : s.sendNext + maxStreamChunk ≤ u64Max) :
    emitChecked fuel s off stop =
      some ({ s with finSent := s.finSent || (chunks fuel off stop).any (fun c => s.finAt c.2) },
        (chunks fuel off stop).map s.chunkFrame) := by
  have word := u64Max_lt
  induction fuel generalizing s off with
  | zero => simp [emitChecked,chunks]
  | succ fuel ih =>
    unfold emitChecked chunks
    split
    · rename_i more
      have reach : off + maxStreamChunk < 2^64 := by omega
      have ordered : s.sendBase ≤ min (off + maxStreamChunk) stop := by omega
      have part := @slice_some _ s.sendBuf (off - s.sendBase) (min (off + maxStreamChunk) stop - s.sendBase)
        (by omega) (by omega)
      have later := @ih { s with finSent := s.finSent || s.finAt (min (off + maxStreamChunk) stop) }
        (min (off + maxStreamChunk) stop) length ordered high room
      have span : min (off + maxStreamChunk) stop - s.sendBase - (off - s.sendBase) =
        min (off + maxStreamChunk) stop - off := by omega
      simp only [add_some reach,sub_some low,sub_some ordered,part,later,Option.bind_eq_bind,Option.bind_some,span,
        List.any_cons,List.map_cons,Bool.or_assoc]
      rfl
    · simp

theorem emitRangeChecked_eq {off stop : Nat} (sending : Sending w s) (low : s.sendBase ≤ off) (high : stop ≤ s.sendNext)
    (room : s.sendNext + defaultWindow ≤ u64Max) : s.emitRangeChecked off stop = some (s.emitRange off stop) := by
  have length : s.sendBase + s.sendBuf.length = s.sendNext := by
    have le := Nat.le_trans sending.low sending.high
    rw [sending.buf,List.length_drop,← sending.next]
    omega
  have chunk : maxStreamChunk ≤ defaultWindow := by decide
  exact emitChecked_eq _ length low high (by omega)

theorem transmitDataChecked_eq (sending : Sending w s) (paced : s.Paced) (room : s.sendNext + defaultWindow ≤ u64Max) :
    s.transmitDataChecked now = some (s.transmitData now) := by
  have word := u64Max_lt
  have low := sending.low
  have high := sending.high
  have cwnd : s.cwnd ≤ defaultWindow := paced.cwndHigh
  have limit : s.sendBase + min s.peerWindow s.cwnd < 2^64 := by omega
  have fresh := @emitRangeChecked_eq s w (max s.sendHigh s.sendBase) s.sendEnd sending (Nat.le_max_right _ _) s.sendEnd_le room
  have again := @emitRangeChecked_eq s w s.sendBase s.sendHigh sending (Nat.le_refl _) high room
  unfold transmitDataChecked transmitData
  rw [add_some limit,again,Option.bind_eq_bind,Option.bind_some]
  change (if s.sendHigh < s.sendEnd then (s.emitRangeChecked (max s.sendHigh s.sendBase) s.sendEnd).bind _ else _) = _
  rw [fresh]
  split
  · rfl
  · split
    · split <;> rfl
    · split
      · split <;> rfl
      · rfl

theorem transmitAckChecked_eq (valid : s.recv.Valid) (below : s.recv.Below u64Max) :
    s.transmitAckChecked = some s.transmitAck := by
  unfold transmitAckChecked
  rw [Reassembler.unreadChecked_eq valid below,Reassembler.ackPointChecked_eq valid below]
  rfl

theorem transmitChecked_eq (sending : Sending w s) (paced : s.Paced) (room : s.sendNext + defaultWindow ≤ u64Max)
    (valid : s.recv.Valid) (below : s.recv.Below u64Max) : s.transmitChecked now = some (s.transmit now) := by
  have sending' : Sending w s.transmitOpen.1 := by
    rw [transmitOpen_fst]
    exact ⟨sending.next,sending.buf,sending.low,sending.high,sending.window⟩
  have data := @transmitDataChecked_eq s.transmitOpen.1 w now sending'
    (by rw [transmitOpen_fst]; exact ⟨paced.cwndLow,paced.cwndHigh,paced.rtoHigh⟩) (by rw [transmitOpen_fst]; exact room)
  have recv : (s.transmitOpen.1.transmitData now).1.recv = s.recv := by
    rw [(transmitData_same _ now).2.1,transmitOpen_fst]
  have acks := @transmitAckChecked_eq (s.transmitOpen.1.transmitData now).1 (recv ▸ valid) (recv ▸ below)
  unfold transmitChecked transmit
  split
  · rfl
  · simp only [data,acks,Option.bind_eq_bind,Option.bind_some]
    rfl

theorem onDataChecked_eq (valid : s.recv.Valid) (below : s.recv.Below u64Max) (offset : Nat) (data : Bytes) (fin : Bool) :
    s.onDataChecked offset data fin = some (s.onData offset data fin) := by
  have recv : (s.recordFin (offset + data.length) fin).recv = s.recv := by
    unfold recordFin
    split <;> rfl
  unfold onDataChecked onData
  split
  · rename_i accepted
    simp only [accepts,Bool.and_eq_true,decide_eq_true_eq] at accepted
    have inserted := Reassembler.insertChecked_eq valid below accepted.1
    have point := Reassembler.ackPointChecked_eq (Reassembler.insert_valid valid offset data) (below.insert valid accepted.1)
    simp only [recv,Reassembler.ackPointChecked_eq valid below,inserted,point,Option.bind_eq_bind,Option.bind_some]
    rfl
  · rfl

end StreamState

namespace StreamMux

/-- Update a stream in place if it is held (`get_mut`). -/
def modifyChecked (m : StreamMux) (id : Nat) (f : StreamState → Option StreamState) : Option StreamMux :=
  match m.streams[id]? with
  | some s => do
    let t ← f s
    pure { m with streams := m.streams.insert id t }
  | none => some m

def openChecked (m : StreamMux) (kind : StreamKind) (metadata : Bytes) : Option (StreamMux × Nat) := do
  let id := m.nextLocalId
  let next ← add 64 m.nextLocalId m.idStep
  pure ({ m with
    nextLocalId := next
    streams := m.streams.insert id (StreamState.new id kind metadata true) },id)

def readChecked (m : StreamMux) (id : Nat) : Option (Bytes × StreamMux) :=
  match m.streams[id]? with
  | some s => do
    let (bytes,recv) ← s.recv.readChecked
    pure (bytes,{ m with streams := m.streams.insert id { s with recv } })
  | none => some ([],m)

def onDataChecked (m : StreamMux) (id offset : Nat) (data : Bytes) (fin : Bool) : Option StreamMux :=
  match m.streams[id]? with
  | some s => do
    let (t,readable) ← s.onDataChecked offset data fin
    let m := { m with streams := m.streams.insert id t }
    pure (if readable then m.push (.readable id) else m)
  | none => some m

/-- The frames that only set flags compute nothing that could fail. -/
def onFrameChecked (m : StreamMux) : Frame → Option StreamMux
  | .streamData id offset data fin => m.onDataChecked id offset data fin
  | .streamAck id ack window => m.modifyChecked id (fun s => s.onAckChecked ack window m.now)
  | frame => some (m.onFrame frame)

def pollStreamChecked (now id : Nat) (s : StreamState) : Option (Option StreamState × List Frame) :=
  if s.reset then some (none,[.streamReset id])
  else do
    let (t,out) ← s.transmitChecked now
    let done ← t.fullyDoneChecked
    pure (if done then none else some t,out)

/-- The rounds of all streams run checked; of the streams remain those that `pollTransmit` keeps. -/
def pollTransmitChecked (m : StreamMux) : Option (StreamMux × List Frame) := do
  let now ← add 64 m.now 1
  let polled ← m.streams.toList.mapM (fun p => pollStreamChecked now p.1 p.2)
  pure ({ m with now, streams := m.streams.filterMap (fun id s => (pollStream now id s).1) },polled.flatMap Prod.snd)

end StreamMux
end Noissh

import Noissh.Machine
import Noissh.Shell
import Noissh.StreamStateSpec

/-! The channel of typed bytes (`transport/src/input.rs`) under an arbitrary network. Every
frame and every acknowledgement ever sent stays deliverable: one never delivered is lost, one
delivered again is a duplicate, and any order of deliveries is allowed. -/
namespace Noissh

structure InputChannel where
  sender : InputSender := .new
  receiver : InputReceiver := .new
  /-- Every `Input` frame sent. -/
  frames : List Frame := []
  /-- Every acknowledgement sent. -/
  acks : List Nat := []
  /-- All bytes pushed. -/
  pushed : Bytes := []
  /-- All results of `ingest`, joined. -/
  delivered : Bytes := []
  deriving DecidableEq, Repr

namespace InputChannel

inductive Action where
  | push (data : Bytes)
  | send
  | acknowledge
  | deliverFrame (n : Nat)
  | deliverAck (n : Nat)
  deriving DecidableEq, Repr

/-- A frame reaches the receiver, which answers as `ServerShell::ingest_input` does. -/
def receive (c : InputChannel) : Frame → InputChannel
  | .input offset data =>
    let (fresh,receiver) := c.receiver.ingest offset data
    { c with receiver, delivered := c.delivered ++ fresh, acks := c.acks ++ [receiver.ack] }
  | _ => c

def step (c : InputChannel) : Action → InputChannel
  | .push data => { c with sender := c.sender.push data, pushed := c.pushed ++ data }
  | .send => { c with frames := c.frames ++ c.sender.pending.toList }
  | .acknowledge => { c with acks := c.acks ++ [c.receiver.ack] }
  | .deliverFrame n => (c.frames[n]?).elim c c.receive
  | .deliverAck n => (c.acks[n]?).elim c (fun seq => { c with sender := c.sender.onAck seq })

def run (c : InputChannel) (schedule : List Action) : InputChannel := Machine.run step schedule c

def start : InputChannel := {}

/-- The frame the sender would send now reaches the receiver. -/
def redeliver (c : InputChannel) : InputChannel := c.sender.pending.elim c c.receive

/-- The bytes a frame carries are where they belong among those pushed. -/
def Carries (pushed : Bytes) (received : Nat) : Frame → Prop
  | .input offset data => Segment pushed offset data ∧ offset ≤ received
  | _ => False

structure Exact (c : InputChannel) : Prop where
  buffer : c.sender.buffer = c.pushed.drop c.sender.base
  base : c.sender.base ≤ c.receiver.received
  received : c.receiver.received ≤ c.pushed.length
  frames : ∀ frame ∈ c.frames, Carries c.pushed c.receiver.received frame
  acks : ∀ seq ∈ c.acks, seq ≤ c.receiver.received
  delivered : c.delivered = c.pushed.take c.receiver.received

variable {c : InputChannel}

theorem Carries.append {pushed : Bytes} {received : Nat} {frame : Frame} (carries : Carries pushed received frame)
    (more : Bytes) : Carries (pushed ++ more) received frame := by
  cases frame with
  | input offset data => exact ⟨carries.1.append more,carries.2⟩
  | _ => cases carries

theorem Carries.later {pushed : Bytes} {received received' : Nat} {frame : Frame}
    (carries : Carries pushed received frame) (le : received ≤ received') : Carries pushed received' frame := by
  cases frame with
  | input offset data => exact ⟨carries.1,Nat.le_trans carries.2 le⟩
  | _ => cases carries

theorem Exact.total (exact : c.Exact) : c.sender.total = c.pushed.length := by
  have base := exact.base
  have received := exact.received
  rw [InputSender.total,exact.buffer,List.length_drop]
  omega

/-- What is pending is everything from the sender's base on, and the receiver has all before. -/
theorem Exact.pending (exact : c.Exact) {frame : Frame} (pending : c.sender.pending = some frame) :
    frame = .input c.sender.base (c.pushed.drop c.sender.base) ∧ Carries c.pushed c.receiver.received frame := by
  unfold InputSender.pending at pending
  split at pending
  · cases pending
  cases pending
  rw [exact.buffer]
  have fits := Nat.le_trans exact.base exact.received
  exact ⟨rfl,⟨by simp; omega,fun i _ => by rw [List.getElem?_drop]⟩,exact.base⟩

/-- Bytes that belong where the frame says yield those that follow the ones received, or
nothing when there is a gap. -/
theorem ingest_segment {r : InputReceiver} {pushed : Bytes} {offset : Nat} {data : Bytes}
    (segment : Segment pushed offset data) :
    (r.ingest offset data).2.received = (if offset ≤ r.received then max r.received (offset + data.length) else r.received) ∧
      pushed.take r.received ++ (r.ingest offset data).1 = pushed.take (r.ingest offset data).2.received := by
  obtain ⟨fits,agrees⟩ := segment
  unfold InputReceiver.ingest
  by_cases old : offset + data.length ≤ r.received
  · rw [if_pos old,if_pos (by omega)]
    exact ⟨(Nat.max_eq_left old).symm,List.append_nil _⟩
  rw [if_neg old]
  by_cases gap : r.received < offset
  · rw [if_pos gap,if_neg (Nat.not_le.mpr gap)]
    exact ⟨rfl,List.append_nil _⟩
  rw [if_neg gap,if_pos (Nat.not_lt.mp gap)]
  refine ⟨(Nat.max_eq_right (Nat.le_of_not_le old)).symm,?_⟩
  change pushed.take r.received ++ data.drop (r.received - offset) = pushed.take (offset + data.length)
  apply List.ext_getElem?
  intro i
  by_cases before : i < r.received
  · rw [List.getElem?_append_left (by simp; omega),List.getElem?_take_of_lt before,List.getElem?_take_of_lt (by omega)]
  rw [List.getElem?_append_right (by simp; omega),List.getElem?_drop,List.length_take,Nat.min_eq_left (by omega)]
  by_cases inside : i < offset + data.length
  · rw [List.getElem?_take_of_lt inside]
    have here := agrees (r.received - offset + (i - r.received)) (by omega)
    have place : offset + (r.received - offset + (i - r.received)) = i := by omega
    rw [place] at here
    exact here.symm
  · rw [List.getElem?_eq_none (by omega),List.getElem?_eq_none (by simp; omega)]

theorem ingest_spec {r : InputReceiver} {pushed : Bytes} {offset : Nat} {data : Bytes}
    (carries : Carries pushed r.received (.input offset data)) :
    (r.ingest offset data).2.received = max r.received (offset + data.length) ∧
      pushed.take r.received ++ (r.ingest offset data).1 = pushed.take (r.ingest offset data).2.received := by
  have here := ingest_segment (r := r) carries.1
  rw [if_pos carries.2] at here
  exact here

theorem Exact.receive (exact : c.Exact) {frame : Frame} (carries : Carries c.pushed c.receiver.received frame) :
    (c.receive frame).Exact := by
  cases frame with
  | input offset data =>
    obtain ⟨grown,yields⟩ := ingest_spec carries
    have fits := carries.1.fits
    have bound := exact.received
    have le : c.receiver.received ≤ (c.receiver.ingest offset data).2.received := by rw [grown]; exact Nat.le_max_left _ _
    exact {
      buffer := exact.buffer
      base := Nat.le_trans exact.base le
      received := by
        change (c.receiver.ingest offset data).2.received ≤ c.pushed.length
        rw [grown]
        exact Nat.max_le.mpr ⟨bound,fits⟩
      frames := fun other member => (exact.frames other member).later le
      acks := fun seq member => by
        rcases List.mem_append.mp member with old | new
        · exact Nat.le_trans (exact.acks seq old) le
        · exact Nat.le_of_eq (List.mem_singleton.mp new)
      delivered := by
        change c.delivered ++ _ = _
        rw [exact.delivered]
        exact yields }
  | _ => cases carries

/-- An acknowledgement the receiver stands behind drops only bytes it has. -/
theorem Exact.onAck (exact : c.Exact) {seq : Nat} (acked : seq ≤ c.receiver.received) :
    Exact { c with sender := c.sender.onAck seq } := by
  have total := exact.total
  unfold InputSender.onAck
  dsimp only
  split
  · rename_i newer
    exact { exact with
      buffer := by
        change c.sender.buffer.drop _ = c.pushed.drop (min seq c.sender.total)
        rw [exact.buffer,List.drop_drop,Nat.add_sub_of_le (Nat.le_of_lt newer)]
      base := Nat.le_trans (Nat.min_le_left _ _) acked }
  · exact exact

theorem Exact.push (exact : c.Exact) (data : Bytes) : (c.step (.push data)).Exact := by
  have base := exact.base
  have received := exact.received
  exact {
    buffer := by
      change c.sender.buffer ++ data = (c.pushed ++ data).drop c.sender.base
      rw [exact.buffer,List.drop_append_of_le_length (by omega)]
    base := base
    received := by
      change c.receiver.received ≤ (c.pushed ++ data).length
      rw [List.length_append]; omega
    frames := fun frame member => (exact.frames frame member).append data
    acks := exact.acks
    delivered := by
      change c.delivered = (c.pushed ++ data).take c.receiver.received
      rw [exact.delivered,List.take_append_of_le_length received] }

theorem Exact.after_step (exact : c.Exact) (a : Action) : (c.step a).Exact := by
  cases a with
  | push data => exact exact.push data
  | send =>
    refine { exact with frames := fun frame member => ?_ }
    rcases List.mem_append.mp member with old | new
    · exact exact.frames frame old
    · exact (exact.pending (Option.mem_toList.mp new)).2
  | acknowledge =>
    refine { exact with acks := fun seq member => ?_ }
    rcases List.mem_append.mp member with old | new
    · exact exact.acks seq old
    · exact Nat.le_of_eq (List.mem_singleton.mp new)
  | deliverFrame n =>
    simp only [step]
    cases found : c.frames[n]? with
    | none => exact exact
    | some frame => exact exact.receive (exact.frames frame (List.mem_of_getElem? found))
  | deliverAck n =>
    simp only [step]
    cases found : c.acks[n]? with
    | none => exact exact
    | some seq => exact exact.onAck (exact.acks seq (List.mem_of_getElem? found))

theorem start_exact : start.Exact where
  buffer := rfl
  base := Nat.le_refl 0
  received := Nat.le_refl 0
  frames := fun _ member => absurd member List.not_mem_nil
  acks := fun _ member => absurd member List.not_mem_nil
  delivered := rfl

theorem Exact.redeliver (exact : c.Exact) : c.redeliver.receiver.received = c.sender.total := by
  have base := exact.base
  have received := exact.received
  have total := exact.total
  unfold InputChannel.redeliver
  cases pending : c.sender.pending with
  | none =>
    -- An empty buffer means the base, and so the receiver, is at the end.
    have empty : c.sender.buffer = [] := by
      unfold InputSender.pending at pending
      split at pending
      · rename_i empty
        exact List.isEmpty_iff.mp empty
      · cases pending
    change c.receiver.received = c.sender.total
    rw [InputSender.total,empty,List.length_nil] at total ⊢
    omega
  | some frame =>
    obtain ⟨rfl,carries⟩ := exact.pending pending
    change (c.receiver.ingest _ _).2.received = _
    rw [(ingest_spec carries).1,List.length_drop]
    omega

/-- Typed bytes arrive exactly once and in order, whatever the network does, and one delivery
of the current frame brings the receiver up to date with all that was pushed. -/
theorem keystrokes_exact (schedule : List Action) :
    let c := start.run schedule
    c.delivered = c.pushed.take c.receiver.received ∧
      c.sender.base ≤ c.receiver.received ∧ c.receiver.received ≤ c.sender.total ∧
      c.sender.total = c.pushed.length ∧ c.redeliver.receiver.received = c.sender.total := by
  intro c
  have exact : c.Exact :=
    Machine.run_invariant_always Exact (fun _ a exact => exact.after_step a) schedule start start_exact
  refine ⟨exact.delivered,exact.base,?_,exact.total,exact.redeliver⟩
  rw [exact.total]
  exact exact.received

/-- The first frame comes after the one that holds it, twice; an old acknowledgement comes last. -/
def overtakenKeys : List Action :=
  [.push [1,2],.send,.push [3],.send,.deliverFrame 1,.deliverFrame 0,.deliverFrame 0,.deliverAck 1,
    .push [4,5],.send,.acknowledge,
    .deliverAck 0]

theorem keystrokes_exact_overtaken :
    let c := start.run overtakenKeys
    (c.pushed = [1,2,3,4,5] ∧ c.delivered = [1,2,3] ∧ c.sender.base = 3) ∧
      c.delivered = c.pushed.take c.receiver.received ∧ c.sender.total = c.pushed.length ∧
      c.redeliver.receiver.received = c.sender.total :=
  ⟨by decide,(keystrokes_exact overtakenKeys).1,(keystrokes_exact overtakenKeys).2.2.2⟩

end InputChannel
end Noissh

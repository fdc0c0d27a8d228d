import Noissh.Machine
import Noissh.Reassembler

/-! A stream buffer as a partial map from absolute offsets to values. `StreamMap` says what
inserting and reading mean on the map alone; the reassembler implements it in every run. -/

structure StreamMap (β : Type) where
  /-- Everything before this offset was handed out. -/
  delivered : Nat
  value : Nat → Option β
  future : ∀ p, p < delivered → value p = none

namespace StreamMap

variable {β : Type}

inductive Call (β : Type) where
  | insert (offset : Nat) (data : List β)
  | read

def empty : StreamMap β := ⟨0,fun _ => none,fun _ _ => rfl⟩

/-- The data at its own offsets from `delivered` on, every other entry as it was. -/
def insert (m : StreamMap β) (offset : Nat) (data : List β) : StreamMap β where
  delivered := m.delivered
  value p := if offset ≤ p ∧ p < offset + data.length ∧ m.delivered ≤ p then data[p - offset]?
    else m.value p
  future p below := by simp [m.future p below]; omega

/-- Hand out everything before `stop`. -/
def advance (m : StreamMap β) (stop : Nat) : StreamMap β where
  delivered := stop
  value p := if p < stop then none else m.value p
  future p below := by simp [below]

/-- The first offset from `delivered` on that has no entry. -/
structure Missing (m : StreamMap β) (stop : Nat) : Prop where
  future : m.delivered ≤ stop
  absent : m.value stop = none
  full : ∀ p, m.delivered ≤ p → p < stop → (m.value p).isSome

/-- `out` is the contiguous run of entries from `delivered` to the first missing offset. -/
structure Run (m : StreamMap β) (out : List β) : Prop where
  missing : m.Missing (m.delivered + out.length)
  value : ∀ i, i < out.length → out[i]? = m.value (m.delivered + i)

/-- A call with its reply and the map it leaves. -/
inductive Step (m : StreamMap β) : Call β → List β → StreamMap β → Prop where
  | insert (offset : Nat) (data : List β) : Step m (.insert offset data) [] (m.insert offset data)
  | read (out : List β) : m.Run out → Step m .read out (m.advance (m.delivered + out.length))

inductive Steps : StreamMap β → List (Call β) → List (List β) → StreamMap β → Prop where
  | nil (m : StreamMap β) : Steps m [] [] m
  | cons {m m' m'' : StreamMap β} {call : Call β} {out : List β} {calls : List (Call β)}
      {outs : List (List β)} : Step m call out m' → Steps m' calls outs m'' → Steps m (call :: calls) (out :: outs) m''

end StreamMap

namespace Noissh
namespace Reassembler

open StreamMap

/-- The end of the data fits a `u64`. -/
def FitsCall : Call UInt8 → Prop
  | .insert offset data => offset + data.length < 2^64
  | .read => True

def call (r : Reassembler) : Call UInt8 → Bytes × Reassembler
  | .insert offset data => ([],r.insert offset data)
  | .read => r.read

def after (r : Reassembler) (c : Call UInt8) : Reassembler := (r.call c).2

/-- What the calls of a run return, in order. -/
def replies : List (Call UInt8) → Reassembler → List Bytes
  | [], _ => []
  | c :: calls, r => (r.call c).1 :: replies calls (r.after c)

structure Implements (r : Reassembler) (m : StreamMap UInt8) : Prop where
  delivered : m.delivered = r.delivered
  value : ∀ p b, m.value p = some b ↔ r.Holds p b

/-- No offset the reassembler computes with leaves `u64`. -/
structure Ranged (r : Reassembler) : Prop where
  delivered : r.delivered < 2^64
  stop : ∀ k bytes, r.segs[k]? = some bytes → k + bytes.length < 2^64

theorem Implements.contents {r : Reassembler} {m : StreamMap UInt8} (same : r.Implements m) (valid : r.Valid)
    (p : Nat) : m.value p = r.contents p := by
  apply Option.ext
  intro b
  rw [same.value,contents_eq_some valid]

theorem implements_of_contents {r : Reassembler} {m : StreamMap UInt8} (valid : r.Valid)
    (delivered : m.delivered = r.delivered) (value : ∀ p, m.value p = r.contents p) : r.Implements m where
  delivered := delivered
  value p b := by rw [value,contents_eq_some valid]

theorem empty_implements : Implements {} empty where
  delivered := rfl
  value p b := by simp [empty]

theorem Implements.missing {r : Reassembler} {m : StreamMap UInt8} (same : r.Implements m) (valid : r.Valid) :
    m.Missing r.ackPoint where
  future := by rw [same.delivered]; exact r.delivered_le_ackPoint
  absent := by rw [same.contents valid]; exact contents_ackPoint valid
  full p lower upper := by
    rw [same.delivered] at lower
    obtain ⟨b,here⟩ := contents_before_ackPoint valid lower upper
    simp [same.contents valid,here]

theorem Implements.run {r : Reassembler} {m : StreamMap UInt8} (same : r.Implements m) (valid : r.Valid) :
    m.Run r.read.1 := by
  have stop : m.delivered + r.read.1.length = r.ackPoint := by
    rw [same.delivered,read_length,← ackPoint_eq_unread]
  constructor
  · rw [stop]
    exact same.missing valid
  · intro i bound
    rw [read_length] at bound
    rw [getElem?_read valid bound,same.contents valid,same.delivered]

theorem after_valid {r : Reassembler} (valid : r.Valid) (c : Call UInt8) : (r.after c).Valid := by
  cases c with
  | insert offset data => exact insert_valid valid offset data
  | read => exact read_valid valid

/-- Every call of the reassembler is a step of the map. -/
theorem Implements.step {r : Reassembler} {m : StreamMap UInt8} (same : r.Implements m) (valid : r.Valid)
    (c : Call UInt8) : ∃ m', m.Step c (r.call c).1 m' ∧ (r.after c).Implements m' := by
  cases c with
  | insert offset data =>
    refine ⟨m.insert offset data,.insert offset data,?_⟩
    apply implements_of_contents (insert_valid valid offset data)
    · simpa [StreamMap.insert] using same.delivered
    · intro p
      rw [insert_contents valid]
      simp only [StreamMap.insert,same.delivered,same.contents valid]
  | read =>
    refine ⟨_,.read r.read.1 (same.run valid),?_⟩
    have stop : m.delivered + r.read.1.length = r.ackPoint := by
      rw [same.delivered,read_length,← ackPoint_eq_unread]
    rw [stop]
    apply implements_of_contents (read_valid valid)
    · simp [advance]
    · intro p
      rw [read_contents valid]
      simp only [advance,same.contents valid]

theorem Ranged.ackPoint {r : Reassembler} (ranged : r.Ranged) : r.ackPoint < 2^64 := by
  unfold Reassembler.ackPoint
  split
  · rename_i bytes stored
    exact ranged.stop _ bytes stored
  · exact ranged.delivered

/-- A segment's last byte is an entry of the map, so a bound on the entries bounds the ends. -/
theorem ranged_of_holds {r : Reassembler} (valid : r.Valid) (delivered : r.delivered < 2^64)
    (bound : ∀ p b, r.Holds p b → p + 1 < 2^64) : r.Ranged where
  delivered := delivered
  stop k bytes stored := by
    have positive := List.length_pos_iff.mpr (valid.nonempty k bytes stored)
    have inside : bytes.length - 1 < bytes.length := by omega
    have last := bound (k + (bytes.length - 1)) bytes[bytes.length - 1] ⟨k,bytes,stored,by omega,by simp⟩
    omega

theorem Ranged.holds {r : Reassembler} (ranged : r.Ranged) {p : Nat} {b : UInt8} (held : r.Holds p b) :
    p + 1 < 2^64 := by
  obtain ⟨k,bytes,stored,lower,value⟩ := held
  have upper := (List.getElem?_eq_some_iff.mp value).1
  have stop := ranged.stop k bytes stored
  omega

theorem Ranged.step {r : Reassembler} (ranged : r.Ranged) (valid : r.Valid) {c : Call UInt8} (fits : FitsCall c) :
    (r.after c).Ranged := by
  apply ranged_of_holds (after_valid valid c)
  · cases c with
    | insert offset data => simpa [Reassembler.after,call] using ranged.delivered
    | read => simpa [Reassembler.after,call] using ranged.ackPoint
  · intro p b held
    rw [← contents_eq_some (after_valid valid c)] at held
    cases c with
    | insert offset data =>
      simp only [Reassembler.after,call,insert_contents valid] at held
      split at held
      · rename_i inside
        change offset + data.length < 2^64 at fits
        omega
      · exact ranged.holds ((contents_eq_some valid).mp held)
    | read =>
      simp only [Reassembler.after,call,read_contents valid] at held
      split at held
      · cases held
      · exact ranged.holds ((contents_eq_some valid).mp held)

theorem run_ranged {r : Reassembler} (ranged : r.Ranged) (valid : r.Valid) (calls : List (Call UInt8))
    (fits : ∀ c ∈ calls, FitsCall c) :
    (Machine.run after calls r).Valid ∧ (Machine.run after calls r).Ranged := by
  induction calls generalizing r with
  | nil => exact ⟨valid,ranged⟩
  | cons c calls ih =>
    have head : FitsCall c := fits c (by simp)
    apply ih (ranged.step valid head) (after_valid valid c)
    exact fun d member => fits d (by simp [member])

theorem Implements.steps {r : Reassembler} {m : StreamMap UInt8} (same : r.Implements m) (valid : r.Valid)
    (calls : List (Call UInt8)) :
    ∃ m', m.Steps calls (replies calls r) m' ∧ (Machine.run after calls r).Implements m' := by
  induction calls generalizing r m with
  | nil => exact ⟨m,.nil m,same⟩
  | cons c calls ih =>
    obtain ⟨next,step,implements⟩ := same.step valid c
    obtain ⟨last,steps,final⟩ := ih implements (after_valid valid c)
    exact ⟨last,.cons step steps,final⟩

/-- Every run of inserts and reads from the empty reassembler is a run of the byte map, its
replies included, and no sum of the run overflows. -/
theorem run_implements (calls : List (Call UInt8)) (fits : ∀ c ∈ calls, FitsCall c) :
    (∃ m, empty.Steps calls (replies calls {}) m ∧ (Machine.run after calls {}).Implements m ∧
      m.Missing (Machine.run after calls {}).ackPoint) ∧ (Machine.run after calls {}).Ranged := by
  obtain ⟨valid,ranged⟩ := run_ranged ⟨by decide,by simp⟩ empty_valid calls fits
  obtain ⟨m,steps,final⟩ := empty_implements.steps empty_valid calls
  exact ⟨⟨m,steps,final,final.missing valid⟩,ranged⟩

/-- The third insert bridges the first two and lies over both, the last one over the bridge. -/
def overlapping : List (Call UInt8) :=
  [.insert 2 [3,4],.insert 6 [7,8],.insert 3 [14,15,16,17],.read,.insert 0 [1,2,13],.read]

theorem run_implements_overlap :
    replies overlapping {} = [[],[],[],[],[],[1,2,13,14,15,16,17,8]] ∧
    (∃ m, empty.Steps overlapping (replies overlapping {}) m ∧ (Machine.run after overlapping {}).Implements m ∧
      m.Missing (Machine.run after overlapping {}).ackPoint) ∧ (Machine.run after overlapping {}).Ranged :=
  ⟨by decide +kernel,run_implements overlapping (by simp [overlapping,FitsCall])⟩

end Reassembler
end Noissh

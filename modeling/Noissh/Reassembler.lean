import Mathlib.Data.FinEnum
import Mathlib.Tactic.Common
import Noissh.Splice
import Noissh.TreeMaps

/-! In-order reassembly of out-of-order stream segments (`transport/src/stream.rs`).
Offsets are absolute. The segment map keeps coalesced, non-adjacent runs, so the
contiguous bytes after `delivered` are always a single segment. -/
namespace Noissh

open Splice

abbrev Bytes := List UInt8

structure Reassembler where
  /-- Bytes already handed to the application via `read`. -/
  delivered : Nat := 0
  /-- Non-overlapping, coalesced future segments keyed by start offset. -/
  segs : Std.TreeMap Nat Bytes := {}

namespace Reassembler

/-- The stored bytes at a key; the source indexes only keys it has just listed. -/
def seg (r : Reassembler) (k : Nat) : Bytes := r.segs[k]?.getD []

/-- Keys of the segments overlapping or adjacent to `[offset, stop]`. -/
def touching (r : Reassembler) (offset stop : Nat) : List Nat :=
  (r.segs.toList.filter (fun p => p.1 ≤ stop && offset ≤ p.1 + p.2.length)).map Prod.fst

def mergedStart (offset : Nat) (keys : List Nat) : Nat := keys.foldl (fun acc k => min acc k) offset

def mergedEnd (r : Reassembler) (stop : Nat) (keys : List Nat) : Nat :=
  keys.foldl (fun acc k => max acc (k + (r.seg k).length)) stop

/-- Coalesce nonempty `data` at `offset ≥ delivered` with every segment it touches. The
keys listed are distinct, so reading a segment and removing it commute with the rest. -/
def merge (r : Reassembler) (offset : Nat) (data : Bytes) : Reassembler :=
  let stop := offset + data.length
  let keys := r.touching offset stop
  let start := mergedStart offset keys
  let zeros := List.replicate (r.mergedEnd stop keys - start) 0
  let buf := patch zeros (keys.map (fun k => (k - start,r.seg k)))
  let rest := keys.foldl (fun m k => m.erase k) r.segs
  { r with segs := rest.insert start (splice buf (offset - start) data) }

def insert (r : Reassembler) (offset : Nat) (data : Bytes) : Reassembler :=
  if data.isEmpty then r
  else if offset < r.delivered then
    -- Drop any already-delivered prefix.
    let cut := r.delivered - offset
    if data.length ≤ cut then r else r.merge r.delivered (data.drop cut)
  else r.merge offset data

/-- Drain and return the contiguous bytes available from `delivered`. -/
def read (r : Reassembler) : Bytes × Reassembler :=
  match r.segs[r.delivered]? with
  | some bytes => (bytes,⟨r.delivered + bytes.length,r.segs.erase r.delivered⟩)
  | none => ([],r)

/-- Highest contiguous offset received. -/
def ackPoint (r : Reassembler) : Nat :=
  match r.segs[r.delivered]? with
  | some bytes => r.delivered + bytes.length
  | none => r.delivered

def unread (r : Reassembler) : Nat := r.ackPoint - r.delivered

/-- The reassembler stores byte `b` at absolute offset `p`. -/
def Holds (r : Reassembler) (p : Nat) (b : UInt8) : Prop :=
  ∃ (k : Nat) (bytes : Bytes), r.segs[k]? = some bytes ∧ k ≤ p ∧ bytes[p - k]? = some b

structure Valid (r : Reassembler) : Prop where
  nonempty : ∀ (k : Nat) (bytes : Bytes), r.segs[k]? = some bytes → bytes ≠ []
  future : ∀ (k : Nat) (bytes : Bytes), r.segs[k]? = some bytes → r.delivered ≤ k
  apart : ∀ (k : Nat) (bytes : Bytes) (k' : Nat) (bytes' : Bytes), r.segs[k]? = some bytes → r.segs[k']? = some bytes' →
    k < k' → k + bytes.length < k'

theorem empty_valid : Valid {} := by constructor <;> simp

@[simp] theorem empty_not_holds (p : Nat) (b : UInt8) : ¬Holds {} p b := by simp [Holds]

@[simp] theorem empty_ackPoint : ({} : Reassembler).ackPoint = 0 := by simp [ackPoint]

theorem seg_of_some {r : Reassembler} {k : Nat} {bytes : Bytes} (stored : r.segs[k]? = some bytes) :
    r.seg k = bytes := by simp [seg,stored]

theorem mem_touching {r : Reassembler} {offset stop k : Nat} :
    k ∈ r.touching offset stop ↔
      ∃ bytes, r.segs[k]? = some bytes ∧ k ≤ stop ∧ offset ≤ k + bytes.length := by
  simp [touching,Std.TreeMap.mem_toList_iff_getElem?_eq_some]

theorem mergedStart_le (keys : List Nat) (offset : Nat) :
    mergedStart offset keys ≤ offset ∧ ∀ k ∈ keys, mergedStart offset keys ≤ k := by
  induction keys generalizing offset with
  | nil => simp [mergedStart]
  | cons k rest ih =>
    have := ih (min offset k)
    simp only [mergedStart,List.foldl_cons] at this ⊢
    refine ⟨by omega,fun q member => ?_⟩
    rcases List.mem_cons.mp member with rfl | member
    · omega
    · exact this.2 q member

theorem mergedStart_mem (keys : List Nat) (offset : Nat) :
    mergedStart offset keys = offset ∨ mergedStart offset keys ∈ keys := by
  induction keys generalizing offset with
  | nil => simp [mergedStart]
  | cons k rest ih =>
    rcases ih (min offset k) with same | member
    · simp only [mergedStart,List.foldl_cons] at same ⊢
      rcases Nat.le_total offset k with le | le
      · left; rw [same]; omega
      · right; rw [same]; simp [Nat.min_eq_right le]
    · right; simpa [mergedStart] using Or.inr member

theorem le_mergedEnd (r : Reassembler) (keys : List Nat) (stop : Nat) :
    stop ≤ r.mergedEnd stop keys ∧ ∀ k ∈ keys, k + (r.seg k).length ≤ r.mergedEnd stop keys := by
  induction keys generalizing stop with
  | nil => simp [mergedEnd]
  | cons k rest ih =>
    have := ih (max stop (k + (r.seg k).length))
    simp only [mergedEnd,List.foldl_cons] at this ⊢
    refine ⟨by omega,fun q member => ?_⟩
    rcases List.mem_cons.mp member with rfl | member
    · omega
    · exact this.2 q member

theorem mergedEnd_mem (r : Reassembler) (keys : List Nat) (stop : Nat) :
    r.mergedEnd stop keys = stop ∨ ∃ k ∈ keys, r.mergedEnd stop keys = k + (r.seg k).length := by
  induction keys generalizing stop with
  | nil => simp [mergedEnd]
  | cons k rest ih =>
    rcases ih (max stop (k + (r.seg k).length)) with same | ⟨q,member,same⟩
    · simp only [mergedEnd,List.foldl_cons] at same ⊢
      rcases Nat.le_total (k + (r.seg k).length) stop with le | le
      · left; rw [same]; omega
      · right; exact ⟨k,by simp,by rw [same]; omega⟩
    · right; exact ⟨q,by simp [member],by simpa [mergedEnd] using same⟩

open Classical in
/-- The reassembler as a partial map from absolute offsets to bytes. -/
noncomputable def contents (r : Reassembler) (p : Nat) : Option UInt8 :=
  if held : ∃ b, r.Holds p b then some held.choose else none

theorem holds_unique {r : Reassembler} (valid : r.Valid) {p : Nat} {b c : UInt8}
    (first : r.Holds p b) (second : r.Holds p c) : b = c := by
  obtain ⟨k,bytes,stored,le,value⟩ := first
  obtain ⟨k',bytes',stored',le',value'⟩ := second
  have inside := List.getElem?_eq_some_iff.mp value
  have inside' := List.getElem?_eq_some_iff.mp value'
  have same : k = k' := by
    rcases Nat.lt_trichotomy k k' with lt | same | lt
    · have := valid.apart k bytes k' bytes' stored stored' lt
      have := inside.1; omega
    · exact same
    · have := valid.apart k' bytes' k bytes stored' stored lt
      have := inside'.1; omega
  subst same
  rw [stored] at stored'
  obtain rfl := Option.some.inj stored'
  rw [value] at value'
  exact Option.some.inj value'

theorem contents_eq_some {r : Reassembler} (valid : r.Valid) {p : Nat} {b : UInt8} :
    r.contents p = some b ↔ r.Holds p b := by
  unfold contents
  split
  · rename_i held
    constructor
    · rintro ⟨⟩; exact held.choose_spec
    · intro holds; rw [holds_unique valid held.choose_spec holds]
  · rename_i absent
    simp only [reduceCtorEq,false_iff]
    exact fun holds => absent ⟨b,holds⟩

/-- A stored segment is the map on its own range. -/
theorem contents_of_seg {r : Reassembler} (valid : r.Valid) {k p : Nat} {bytes : Bytes}
    (stored : r.segs[k]? = some bytes) (le : k ≤ p) (lt : p < k + bytes.length) :
    r.contents p = bytes[p - k]? := by
  have bound : p - k < bytes.length := by omega
  rw [List.getElem?_eq_getElem bound,contents_eq_some valid]
  exact ⟨k,bytes,stored,le,List.getElem?_eq_getElem bound⟩

/-- Outside every stored segment the map is undefined. -/
theorem contents_eq_none {r : Reassembler} (valid : r.Valid) {p : Nat}
    (outside : ∀ (k : Nat) (bytes : Bytes), r.segs[k]? = some bytes → ¬(k ≤ p ∧ p < k + bytes.length)) :
    r.contents p = none := by
  cases value : r.contents p with
  | none => rfl
  | some b =>
    obtain ⟨k,bytes,stored,le,inside⟩ := (contents_eq_some valid).mp value
    have := (List.getElem?_eq_some_iff.mp inside).1
    exact absurd ⟨le,by omega⟩ (outside k bytes stored)

theorem contents_below {r : Reassembler} (valid : r.Valid) {p : Nat} (below : p < r.delivered) :
    r.contents p = none := by
  apply contents_eq_none valid
  intro k bytes stored range
  have := valid.future k bytes stored
  omega

section Merge

variable {r : Reassembler} (valid : r.Valid) {offset : Nat} {data : Bytes}

/-- The touched segments, whose union with the new range is the interval `[start, stop)`. -/
def mergeKeys (r : Reassembler) (offset : Nat) (data : Bytes) : List Nat :=
  r.touching offset (offset + data.length)

def mergeStart (r : Reassembler) (offset : Nat) (data : Bytes) : Nat :=
  mergedStart offset (r.mergeKeys offset data)

def mergeEnd (r : Reassembler) (offset : Nat) (data : Bytes) : Nat :=
  r.mergedEnd (offset + data.length) (r.mergeKeys offset data)

def mergePatches (r : Reassembler) (offset : Nat) (data : Bytes) : List (Nat × Bytes) :=
  (r.mergeKeys offset data).map (fun k => (k - r.mergeStart offset data,r.seg k))

def mergeZeros (r : Reassembler) (offset : Nat) (data : Bytes) : Bytes :=
  List.replicate (r.mergeEnd offset data - r.mergeStart offset data) 0

def mergeBuf (r : Reassembler) (offset : Nat) (data : Bytes) : Bytes :=
  splice (patch (r.mergeZeros offset data) (r.mergePatches offset data))
    (offset - r.mergeStart offset data) data

theorem merge_eq (r : Reassembler) (offset : Nat) (data : Bytes) :
    r.merge offset data = ⟨r.delivered,((r.mergeKeys offset data).foldl (fun m k => m.erase k) r.segs).insert
      (r.mergeStart offset data) (r.mergeBuf offset data)⟩ := rfl

theorem mem_mergeKeys {k : Nat} : k ∈ r.mergeKeys offset data ↔
    ∃ bytes, r.segs[k]? = some bytes ∧ k ≤ offset + data.length ∧ offset ≤ k + bytes.length :=
  mem_touching

theorem getElem?_merge (k : Nat) : (r.merge offset data).segs[k]? =
    if k = r.mergeStart offset data then some (r.mergeBuf offset data)
    else if k ∈ r.mergeKeys offset data then none else r.segs[k]? := by
  rw [merge_eq,Std.TreeMap.getElem?_insert,TreeMaps.getElem?_foldl_erase]
  grind

theorem mergeStart_le : r.mergeStart offset data ≤ offset := (mergedStart_le _ _).1

theorem le_mergeEnd : offset + data.length ≤ r.mergeEnd offset data := (le_mergedEnd _ _ _).1

/-- A touched segment lies inside the merged interval. -/
theorem mergeKey_range {k : Nat} {bytes : Bytes} (member : k ∈ r.mergeKeys offset data)
    (stored : r.segs[k]? = some bytes) :
    r.mergeStart offset data ≤ k ∧ k + bytes.length ≤ r.mergeEnd offset data := by
  have upper := (le_mergedEnd r (r.mergeKeys offset data) (offset + data.length)).2 k member
  rw [seg_of_some stored] at upper
  exact ⟨(mergedStart_le _ _).2 k member,upper⟩

/-- Below the new data the merged interval is covered by the segment that starts it. -/
theorem covered_below {p : Nat} (lower : r.mergeStart offset data ≤ p) (upper : p < offset) :
    ∃ k bytes, k ∈ r.mergeKeys offset data ∧ r.segs[k]? = some bytes ∧ k ≤ p ∧ p < k + bytes.length := by
  rcases mergedStart_mem (r.mergeKeys offset data) offset with same | member
  · have : r.mergeStart offset data = offset := same
    omega
  · obtain ⟨bytes,stored,_,reach⟩ := mem_mergeKeys.mp member
    exact ⟨_,bytes,member,stored,lower,by
      have : mergedStart offset (r.mergeKeys offset data) = r.mergeStart offset data := rfl
      omega⟩

/-- Above the new data the merged interval is covered by the segment that ends it. -/
theorem covered_above {p : Nat} (lower : offset + data.length ≤ p) (upper : p < r.mergeEnd offset data) :
    ∃ k bytes, k ∈ r.mergeKeys offset data ∧ r.segs[k]? = some bytes ∧ k ≤ p ∧ p < k + bytes.length := by
  rcases mergedEnd_mem r (r.mergeKeys offset data) (offset + data.length) with same | ⟨k,member,same⟩
  · have : r.mergeEnd offset data = offset + data.length := same
    omega
  · obtain ⟨bytes,stored,reach,_⟩ := mem_mergeKeys.mp member
    rw [seg_of_some stored] at same
    have : r.mergeEnd offset data = k + bytes.length := same
    exact ⟨k,bytes,member,stored,by omega,by omega⟩

theorem mergeZeros_length :
    (r.mergeZeros offset data).length = r.mergeEnd offset data - r.mergeStart offset data := by
  simp [mergeZeros]

theorem mergePatches_fit : ∀ p ∈ r.mergePatches offset data,
    p.1 + p.2.length ≤ (r.mergeZeros offset data).length := by
  intro p member
  obtain ⟨k,key,rfl⟩ := List.mem_map.mp member
  obtain ⟨bytes,stored,_,_⟩ := mem_mergeKeys.mp key
  have range := mergeKey_range key stored
  simp only [seg_of_some stored,mergeZeros_length]
  omega

theorem data_fits : offset - r.mergeStart offset data + data.length ≤
    (patch (r.mergeZeros offset data) (r.mergePatches offset data)).length := by
  have lower : r.mergeStart offset data ≤ offset := mergeStart_le
  have upper : offset + data.length ≤ r.mergeEnd offset data := le_mergeEnd
  rw [patch_length _ _ mergePatches_fit,mergeZeros_length]
  omega

theorem mergeBuf_length :
    (r.mergeBuf offset data).length = r.mergeEnd offset data - r.mergeStart offset data := by
  rw [mergeBuf,splice_length _ _ _ data_fits,patch_length _ _ mergePatches_fit,mergeZeros_length]

include valid in
/-- Cell by cell, the merged buffer is the new data over the old map: no zero of the
fresh allocation survives. -/
theorem getElem?_mergeBuf {p : Nat} (lower : r.mergeStart offset data ≤ p)
    (upper : p < r.mergeEnd offset data) :
    (r.mergeBuf offset data)[p - r.mergeStart offset data]? =
      if offset ≤ p ∧ p < offset + data.length then data[p - offset]? else r.contents p := by
  have startLe : r.mergeStart offset data ≤ offset := mergeStart_le
  rw [mergeBuf,getElem?_splice _ _ _ _ data_fits]
  by_cases fresh : offset ≤ p ∧ p < offset + data.length
  · rw [if_pos (by omega),if_pos fresh]
    congr 1; omega
  · rw [if_neg (by omega),if_neg fresh]
    have covered : ∃ k bytes, k ∈ r.mergeKeys offset data ∧ r.segs[k]? = some bytes ∧ k ≤ p ∧
        p < k + bytes.length := by
      rcases Nat.lt_or_ge p offset with before | after
      · exact covered_below lower before
      · exact covered_above (by omega) upper
    obtain ⟨k,bytes,key,stored,le,lt⟩ := covered
    have agree := getElem?_patch_of_agree (r.mergeZeros offset data) (r.mergePatches offset data)
      (p - r.mergeStart offset data) (fun j => r.contents (r.mergeStart offset data + j)) mergePatches_fit
      (by
        intro q member j jLower jUpper
        obtain ⟨k',key',rfl⟩ := List.mem_map.mp member
        obtain ⟨bytes',stored',_,_⟩ := mem_mergeKeys.mp key'
        have range := mergeKey_range key' stored'
        simp only [seg_of_some stored'] at jLower jUpper ⊢
        rw [contents_of_seg valid stored' (by omega) (by omega)]
        congr 1; omega)
      ⟨(k - r.mergeStart offset data,r.seg k),List.mem_map.mpr ⟨k,key,rfl⟩,by
        have range := mergeKey_range key stored
        simp only [seg_of_some stored]
        omega⟩
    rw [agree]
    congr 1; omega

include valid in
/-- A segment the merge leaves alone is separated from the merged interval. -/
theorem untouched_apart {k : Nat} {bytes : Bytes} (stored : r.segs[k]? = some bytes)
    (untouched : k ∉ r.mergeKeys offset data) :
    k + bytes.length < r.mergeStart offset data ∨ r.mergeEnd offset data < k := by
  have outside : offset + data.length < k ∨ k + bytes.length < offset := by
    by_contra inside
    exact untouched (mem_mergeKeys.mpr ⟨bytes,stored,by omega,by omega⟩)
  rcases outside with above | below
  · right
    rcases mergedEnd_mem r (r.mergeKeys offset data) (offset + data.length) with same | ⟨q,member,same⟩
    · have : r.mergeEnd offset data = offset + data.length := same
      omega
    · obtain ⟨bytes',stored',reach,_⟩ := mem_mergeKeys.mp member
      rw [seg_of_some stored'] at same
      have := valid.apart q bytes' k bytes stored' stored (by omega)
      have : r.mergeEnd offset data = q + bytes'.length := same
      omega
  · left
    rcases mergedStart_mem (r.mergeKeys offset data) offset with same | member
    · have : r.mergeStart offset data = offset := same
      omega
    · obtain ⟨bytes',stored',_,reach⟩ := mem_mergeKeys.mp member
      have : mergedStart offset (r.mergeKeys offset data) = r.mergeStart offset data := rfl
      have distinct : k ≠ r.mergeStart offset data := fun same => untouched (by rw [same]; exact member)
      rcases Nat.lt_or_gt_of_ne distinct with lt | gt
      · exact valid.apart k bytes _ bytes' stored stored' lt
      · have := valid.apart _ bytes' k bytes stored' stored gt
        omega

include valid in
theorem merge_valid (future : r.delivered ≤ offset) (nonempty : data ≠ []) :
    (r.merge offset data).Valid := by
  have startLe : r.mergeStart offset data ≤ offset := mergeStart_le
  have endLe : offset + data.length ≤ r.mergeEnd offset data := le_mergeEnd
  have length : (r.mergeBuf offset data).length = r.mergeEnd offset data - r.mergeStart offset data :=
    mergeBuf_length
  have positive : 0 < data.length := List.length_pos_iff.mpr nonempty
  constructor
  · intro k bytes stored
    rw [getElem?_merge] at stored
    split at stored
    · cases stored
      intro empty
      rw [empty] at length
      simp only [List.length_nil] at length
      omega
    · split at stored
      · cases stored
      · exact valid.nonempty k bytes stored
  · intro k bytes stored
    change r.delivered ≤ k
    rw [getElem?_merge] at stored
    split at stored
    · rename_i same
      rw [same]
      rcases mergedStart_mem (r.mergeKeys offset data) offset with same | member
      · have : r.mergeStart offset data = offset := same
        omega
      · obtain ⟨bytes',stored',_,_⟩ := mem_mergeKeys.mp member
        exact valid.future _ bytes' stored'
    · split at stored
      · cases stored
      · exact valid.future k bytes stored
  · intro k bytes k' bytes' stored stored' lt
    rw [getElem?_merge] at stored stored'
    split at stored
    · split at stored'
      · omega
      · split at stored'
        · cases stored'
        · rename_i start distinct untouched
          have apart := untouched_apart valid stored' untouched
          cases stored
          omega
    · split at stored
      · cases stored
      · rename_i distinct untouched
        have apart := untouched_apart valid stored untouched
        split at stored'
        · omega
        · split at stored'
          · cases stored'
          · exact valid.apart k bytes k' bytes' stored stored' lt

include valid in
theorem merge_contents (future : r.delivered ≤ offset) (nonempty : data ≠ []) (p : Nat) :
    (r.merge offset data).contents p =
      if offset ≤ p ∧ p < offset + data.length then data[p - offset]? else r.contents p := by
  have mergedValid := merge_valid valid future nonempty
  have startLe : r.mergeStart offset data ≤ offset := mergeStart_le
  have endLe : offset + data.length ≤ r.mergeEnd offset data := le_mergeEnd
  by_cases inside : r.mergeStart offset data ≤ p ∧ p < r.mergeEnd offset data
  · have stored : (r.merge offset data).segs[r.mergeStart offset data]? = some (r.mergeBuf offset data) := by
      rw [getElem?_merge,if_pos rfl]
    have length : (r.mergeBuf offset data).length = r.mergeEnd offset data - r.mergeStart offset data :=
      mergeBuf_length
    rw [contents_of_seg mergedValid stored inside.1 (by omega)]
    exact getElem?_mergeBuf valid inside.1 inside.2
  · rw [if_neg (by omega)]
    -- Outside the merged interval both maps read the same untouched segments.
    apply Option.ext
    intro b
    rw [contents_eq_some mergedValid,contents_eq_some valid]
    have length : (r.mergeBuf offset data).length = r.mergeEnd offset data - r.mergeStart offset data :=
      mergeBuf_length
    constructor
    · rintro ⟨k,bytes,stored,le,value⟩
      rw [getElem?_merge] at stored
      split at stored
      · cases stored
        have := (List.getElem?_eq_some_iff.mp value).1
        omega
      · split at stored
        · cases stored
        · exact ⟨k,bytes,stored,le,value⟩
    · rintro ⟨k,bytes,stored,le,value⟩
      have bound := (List.getElem?_eq_some_iff.mp value).1
      have untouched : k ∉ r.mergeKeys offset data := fun key => by
        have := mergeKey_range key stored
        omega
      have apart := untouched_apart valid stored untouched
      exact ⟨k,bytes,by rw [getElem?_merge,if_neg (by omega),if_neg untouched]; exact stored,le,value⟩

end Merge

@[simp] theorem insert_delivered (r : Reassembler) (offset : Nat) (data : Bytes) :
    (r.insert offset data).delivered = r.delivered := by
  simp only [insert]
  repeat' split
  all_goals rfl

theorem insert_valid {r : Reassembler} (valid : r.Valid) (offset : Nat) (data : Bytes) :
    (r.insert offset data).Valid := by
  unfold insert
  split
  · exact valid
  · rename_i nonempty
    have nonempty : data ≠ [] := by simpa using nonempty
    split
    · dsimp only
      split
      · exact valid
      · rename_i longer
        exact merge_valid valid (Nat.le_refl _) (by simpa using longer)
    · exact merge_valid valid (by omega) nonempty

/-- Inserting overwrites the map with the data at the offsets not yet delivered. -/
theorem insert_contents {r : Reassembler} (valid : r.Valid) (offset : Nat) (data : Bytes) (p : Nat) :
    (r.insert offset data).contents p =
      if offset ≤ p ∧ p < offset + data.length ∧ r.delivered ≤ p then data[p - offset]?
      else r.contents p := by
  unfold insert
  split
  · rename_i empty
    have empty : data = [] := by simpa using empty
    rw [if_neg (by simp [empty]; omega)]
  · rename_i nonempty
    have nonempty : data ≠ [] := by simpa using nonempty
    split
    · dsimp only
      split
      · rw [if_neg (by omega)]
      · rename_i longer
        rw [merge_contents valid (Nat.le_refl _) (by simpa using longer)]
        simp only [List.length_drop,List.getElem?_drop]
        by_cases range : offset ≤ p ∧ p < offset + data.length ∧ r.delivered ≤ p
        · rw [if_pos (by omega),if_pos range]
          congr 1; omega
        · rw [if_neg (by omega),if_neg range]
    · rw [merge_contents valid (by omega) nonempty]
      by_cases range : offset ≤ p ∧ p < offset + data.length
      · rw [if_pos range,if_pos (by omega)]
      · rw [if_neg range,if_neg (by omega)]

theorem delivered_le_ackPoint (r : Reassembler) : r.delivered ≤ r.ackPoint := by
  unfold ackPoint
  split <;> omega

theorem ackPoint_eq_unread (r : Reassembler) : r.ackPoint = r.delivered + r.unread := by
  have := r.delivered_le_ackPoint
  unfold unread
  omega

/-- Everything from `delivered` up to the ack point is stored. -/
theorem contents_before_ackPoint {r : Reassembler} (valid : r.Valid) {p : Nat}
    (lower : r.delivered ≤ p) (upper : p < r.ackPoint) : ∃ b, r.contents p = some b := by
  unfold ackPoint at upper
  split at upper
  · rename_i bytes stored
    rw [contents_of_seg valid stored lower upper]
    exact ⟨_,List.getElem?_eq_getElem (by omega)⟩
  · omega

/-- The ack point is the first missing offset. -/
theorem contents_ackPoint {r : Reassembler} (valid : r.Valid) : r.contents r.ackPoint = none := by
  apply contents_eq_none valid
  intro k bytes stored range
  have future := valid.future k bytes stored
  unfold ackPoint at range
  split at range
  · rename_i first head
    rcases Nat.eq_or_lt_of_le future with same | lt
    · subst same
      rw [head] at stored
      cases stored
      omega
    · have := valid.apart r.delivered first k bytes head stored lt
      omega
  · rename_i absent
    have : k = r.delivered := by omega
    subst this
    rw [absent] at stored
    cases stored

/-- The ack point is characterised by the map alone. -/
theorem le_ackPoint {r : Reassembler} (valid : r.Valid) {q : Nat}
    (full : ∀ p, r.delivered ≤ p → p < q → ∃ b, r.contents p = some b) : q ≤ r.ackPoint := by
  by_contra beyond
  obtain ⟨b,some⟩ := full r.ackPoint r.delivered_le_ackPoint (by omega)
  rw [contents_ackPoint valid] at some
  cases some

theorem insert_ackPoint_le {r : Reassembler} (valid : r.Valid) (offset : Nat) (data : Bytes) :
    r.ackPoint ≤ (r.insert offset data).ackPoint := by
  apply le_ackPoint (insert_valid valid offset data)
  intro p lower upper
  rw [insert_delivered] at lower
  rw [insert_contents valid]
  split
  · exact ⟨_,List.getElem?_eq_getElem (by omega)⟩
  · exact contents_before_ackPoint valid lower upper

theorem read_length (r : Reassembler) : r.read.1.length = r.unread := by
  unfold read unread ackPoint
  split <;> simp

@[simp] theorem read_delivered (r : Reassembler) : r.read.2.delivered = r.ackPoint := by
  unfold read ackPoint
  split <;> rfl

theorem getElem?_read {r : Reassembler} (valid : r.Valid) {i : Nat} (bound : i < r.unread) :
    r.read.1[i]? = r.contents (r.delivered + i) := by
  have sum := r.ackPoint_eq_unread
  unfold read
  unfold ackPoint at sum
  split
  · rename_i bytes stored
    simp only [stored] at sum
    rw [contents_of_seg valid stored (by omega) (by omega)]
    simp
  · rename_i absent
    simp only [absent] at sum
    omega

theorem read_valid {r : Reassembler} (valid : r.Valid) : r.read.2.Valid := by
  unfold read
  split
  · rename_i bytes stored
    have kept : ∀ (k : Nat) (tail : Bytes), (r.segs.erase r.delivered)[k]? = some tail →
        r.segs[k]? = some tail ∧ r.delivered ≠ k := by
      intro k tail
      rw [Std.TreeMap.getElem?_erase]
      grind
    constructor
    · exact fun k tail here => valid.nonempty k tail (kept k tail here).1
    · intro k tail here
      obtain ⟨old,distinct⟩ := kept k tail here
      have := valid.future k tail old
      have := valid.apart _ bytes k tail stored old (by omega)
      change r.delivered + bytes.length ≤ k
      omega
    · exact fun k tail k' tail' here here' => valid.apart k tail k' tail' (kept k tail here).1 (kept k' tail' here').1
  · exact valid

/-- Reading removes exactly the contiguous run it returns. -/
theorem read_contents {r : Reassembler} (valid : r.Valid) (p : Nat) :
    r.read.2.contents p = if p < r.ackPoint then none else r.contents p := by
  split
  · rename_i below
    exact contents_below (read_valid valid) (by rw [read_delivered]; exact below)
  · rename_i above
    apply Option.ext
    intro b
    rw [contents_eq_some (read_valid valid),contents_eq_some valid]
    unfold read
    unfold ackPoint at above
    split
    · rename_i bytes stored
      simp only [stored] at above
      constructor
      · rintro ⟨k,tail,here,le,value⟩
        change (r.segs.erase r.delivered)[k]? = some tail at here
        rw [Std.TreeMap.getElem?_erase] at here
        split at here
        · cases here
        · exact ⟨k,tail,here,le,value⟩
      · rintro ⟨k,tail,here,le,value⟩
        refine ⟨k,tail,?_,le,value⟩
        change (r.segs.erase r.delivered)[k]? = some tail
        rw [Std.TreeMap.getElem?_erase,if_neg]
        · exact here
        · intro same
          have same : r.delivered = k := by simpa using same
          subst same
          rw [stored] at here
          cases here
          have := (List.getElem?_eq_some_iff.mp value).1
          omega
    · rfl

@[simp] theorem read_unread {r : Reassembler} (valid : r.Valid) : r.read.2.unread = 0 := by
  have missing : r.read.2.contents r.ackPoint = none := by
    rw [read_contents valid,if_neg (by omega),contents_ackPoint valid]
  have sum := r.read.2.ackPoint_eq_unread
  rw [read_delivered] at sum
  by_contra positive
  obtain ⟨b,here⟩ := contents_before_ackPoint (read_valid valid) (p := r.ackPoint)
    (Nat.le_of_eq (read_delivered r)) (by omega)
  rw [missing] at here
  cases here

theorem read_ackPoint {r : Reassembler} (valid : r.Valid) : r.read.2.ackPoint = r.ackPoint := by
  rw [ackPoint_eq_unread,read_unread valid,read_delivered]
  rfl

end Reassembler
end Noissh

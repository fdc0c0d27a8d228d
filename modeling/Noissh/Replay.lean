import Noissh.Session

/-! The replay window (`transport/src/replay.rs`) against the set of nonces it has accepted:
a nonce is taken exactly when it is new and less than a window behind the highest. -/
namespace Noissh.WindowFilter

/-- Not accepted before, and not too old to tell. -/
def Fresh (accepted : List Nat) (nonce : Nat) : Prop := nonce ∉ accepted ∧ ∀ m ∈ accepted, m < nonce + window

instance freshDecidable (accepted : List Nat) (nonce : Nat) : Decidable (Fresh accepted nonce) :=
  inferInstanceAs (Decidable (_ ∧ _))

/-- The filter holds the highest nonce accepted, and bit `i` says whether the one `i` below it
was accepted too. -/
def Records (w : WindowFilter) (accepted : List Nat) : Prop :=
  match w.max with
  | none => accepted = []
  | some top => top ∈ accepted ∧ (∀ m ∈ accepted, m ≤ top) ∧
      ∀ i < 64, w.bitmap.getLsbD i = true ↔ ∃ m ∈ accepted, m + i = top

section

variable {w : WindowFilter} {accepted : List Nat} {nonce top : Nat}

theorem new_records : Records .new [] := rfl

/-- A nonce that is not fresh leaves the window as it is. -/
theorem checkAndSet_refused (w : WindowFilter) (nonce : Nat) (refused : (w.checkAndSet nonce).1 = false) :
    (w.checkAndSet nonce).2 = w := by
  unfold WindowFilter.checkAndSet at refused ⊢
  split
  · rename_i none
    rw [none] at refused
    cases refused
  · rename_i top held
    simp only [held] at refused ⊢
    split at refused
    · cases refused
    · rename_i older
      rw [if_neg older]
      split at refused
      · rename_i old
        rw [if_pos old]
      · rename_i young
        rw [if_neg young]
        split at refused
        · rename_i seen
          rw [if_pos seen]
        · cases refused

theorem bit_eq (i : Nat) : ((1 <<< i : Nat) : BitVec 64) = BitVec.twoPow 64 i := by
  apply BitVec.eq_of_toNat_eq
  rw [BitVec.toNat_twoPow,Nat.shiftLeft_eq,Nat.one_mul]
  exact BitVec.toNat_ofNat _ _

/-- The mask of one bit meets a word exactly where the word has that bit. -/
theorem and_bit_eq_zero (bits : BitVec 64) {i : Nat} (inside : i < 64) :
    bits &&& (1 <<< i) = 0 ↔ bits.getLsbD i = false := by
  rw [bit_eq,BitVec.and_twoPow]
  cases set : bits.getLsbD i with
  | false => simp
  | true =>
    have bit : (BitVec.twoPow 64 i).getLsbD i = true := by simp [inside]
    simp only [if_true,Bool.true_eq_false,iff_false]
    intro zero
    rw [zero] at bit
    simp at bit

/-- A nonce above the highest moves the window up. -/
theorem Records.advance (held : w.max = some top) (records : w.Records accepted) (newer : top < nonce) :
    Records { max := some nonce, bitmap := if window ≤ nonce - top then 1 else w.bitmap <<< (nonce - top) ||| 1 }
      (nonce :: accepted) := by
  unfold Records at records
  rw [held] at records
  obtain ⟨member,highest,bits⟩ := records
  refine ⟨.head _,?_,?_⟩
  · intro m here
    rcases List.mem_cons.mp here with rfl | old
    · exact Nat.le_refl _
    · exact Nat.le_of_lt (Nat.lt_of_le_of_lt (highest m old) newer)
  · intro i inside
    have one : (1 : BitVec 64).getLsbD i = decide (i = 0) := by simp [inside]
    dsimp only
    split
    · rename_i far
      rw [one,decide_eq_true_eq]
      constructor
      · rintro rfl
        exact ⟨nonce,.head _,rfl⟩
      · rintro ⟨m,here,place⟩
        rcases List.mem_cons.mp here with rfl | old
        · omega
        · have := highest m old
          unfold window at far
          omega
    · rename_i near
      rw [BitVec.getLsbD_or,BitVec.getLsbD_shiftLeft,one]
      simp only [Bool.or_eq_true,Bool.and_eq_true,Bool.not_eq_true',decide_eq_true_eq,decide_eq_false_iff_not]
      constructor
      · rintro (⟨⟨_,above⟩,set⟩ | rfl)
        · obtain ⟨m,old,place⟩ := (bits (i - (nonce - top)) (by omega)).mp set
          exact ⟨m,.tail _ old,by omega⟩
        · exact ⟨nonce,.head _,rfl⟩
      · rintro ⟨m,here,place⟩
        rcases List.mem_cons.mp here with rfl | old
        · exact .inr (by omega)
        · have := highest m old
          exact .inl ⟨⟨inside,by omega⟩,(bits (i - (nonce - top)) (by omega)).mpr ⟨m,old,by omega⟩⟩

/-- A nonce within the window sets its bit. -/
theorem Records.backfill (held : w.max = some top) (records : w.Records accepted) (older : nonce ≤ top)
    (near : top - nonce < 64) :
    Records { max := some top, bitmap := w.bitmap ||| (1 <<< (top - nonce)) } (nonce :: accepted) := by
  unfold Records at records
  rw [held] at records
  obtain ⟨member,highest,bits⟩ := records
  refine ⟨.tail _ member,?_,?_⟩
  · intro m here
    rcases List.mem_cons.mp here with rfl | old
    · exact older
    · exact highest m old
  · intro i inside
    dsimp only
    rw [bit_eq,BitVec.getLsbD_or,BitVec.getLsbD_twoPow,Bool.or_eq_true,bits i inside]
    simp only [Bool.and_eq_true,decide_eq_true_eq]
    constructor
    · rintro (⟨m,old,place⟩ | ⟨_,place⟩)
      · exact ⟨m,.tail _ old,place⟩
      · exact ⟨nonce,.head _,by omega⟩
    · rintro ⟨m,here,place⟩
      rcases List.mem_cons.mp here with rfl | old
      · exact .inr ⟨near,by omega⟩
      · exact .inl ⟨m,old,place⟩

/-- The filter takes exactly the fresh nonces, and records those it takes. -/
theorem Records.checkAndSet (records : w.Records accepted) (nonce : Nat) :
    ((w.checkAndSet nonce).1 = true ↔ Fresh accepted nonce) ∧
      ((w.checkAndSet nonce).1 = true → (w.checkAndSet nonce).2.Records (nonce :: accepted)) := by
  unfold WindowFilter.checkAndSet
  cases held : w.max with
  | none =>
    have empty : accepted = [] := by
      unfold Records at records
      rw [held] at records
      exact records
    subst empty
    refine ⟨⟨fun _ => ⟨List.not_mem_nil,fun m member => absurd member List.not_mem_nil⟩,fun _ => rfl⟩,fun _ => ?_⟩
    refine ⟨.head _,?_,?_⟩
    · intro m member
      exact Nat.le_of_eq (List.mem_singleton.mp member)
    · intro i inside
      simp [inside]
  | some top =>
    have parts := records
    unfold Records at parts
    rw [held] at parts
    obtain ⟨member,highest,bits⟩ := parts
    dsimp only
    by_cases newer : top < nonce
    · rw [if_pos newer]
      refine ⟨⟨fun _ => ⟨?_,?_⟩,fun _ => rfl⟩,fun _ => records.advance held newer⟩
      · intro old
        have := highest nonce old
        omega
      · intro m old
        have := highest m old
        omega
    rw [if_neg newer]
    by_cases old : window ≤ top - nonce
    · rw [if_pos old]
      refine ⟨⟨nofun,?_⟩,nofun⟩
      rintro ⟨_,recent⟩
      have := recent top member
      omega
    rw [if_neg old]
    have near : top - nonce < 64 := by unfold window at old; omega
    have seen := bits (top - nonce) near
    have place : (∃ m ∈ accepted, m + (top - nonce) = top) ↔ nonce ∈ accepted := by
      constructor
      · rintro ⟨m,here,eq⟩
        have same : m = nonce := by clear bits seen; omega
        exact same ▸ here
      · intro here
        exact ⟨nonce,here,Nat.add_sub_of_le (Nat.not_lt.mp newer)⟩
    rw [place] at seen
    by_cases taken : w.bitmap &&& (1 <<< (top - nonce)) = 0
    · have clear := (and_bit_eq_zero _ near).mp taken
      rw [if_neg (not_not.mpr taken)]
      refine ⟨⟨fun _ => ⟨?_,?_⟩,fun _ => rfl⟩,fun _ => records.backfill held (by omega) near⟩
      · intro here
        rw [seen.mpr here] at clear
        cases clear
      · intro m here
        have := highest m here
        omega
    · have set : w.bitmap.getLsbD (top - nonce) = true := by
        by_contra clear
        exact taken ((and_bit_eq_zero _ near).mpr (Bool.eq_false_iff.mpr clear))
      rw [if_pos taken]
      exact ⟨⟨nofun,fun fresh => absurd (seen.mp set) fresh.1⟩,nofun⟩

end

end Noissh.WindowFilter

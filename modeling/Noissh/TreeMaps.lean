import Std.Data.TreeMap
import Std.Data.TreeMap.AdditionalOperations

/-! What maps ordered by their keys hold after insertions and removals, one or a list of them. -/
namespace TreeMaps

variable {κ β : Type} [Ord κ] [Std.TransOrd κ] [Std.LawfulEqOrd κ]

omit [Std.TransOrd κ] in
theorem compare_ne {k j : κ} (ne : j ≠ k) : compare k j ≠ .eq := fun same => ne (Std.LawfulEqOrd.eq_of_compare same).symm

theorem getElem?_insert_ne (m : Std.TreeMap κ β) {k j : κ} (value : β) (ne : j ≠ k) : (m.insert k value)[j]? = m[j]? := by
  rw [Std.TreeMap.getElem?_insert,if_neg (compare_ne ne)]

theorem getElem?_erase_ne (m : Std.TreeMap κ β) {k j : κ} (ne : j ≠ k) : (m.erase k)[j]? = m[j]? := by
  rw [Std.TreeMap.getElem?_erase,if_neg (compare_ne ne)]

theorem getElem?_foldl_erase [DecidableEq κ] (m : Std.TreeMap κ β) (keys : List κ) (k : κ) :
    (keys.foldl (fun m k => m.erase k) m)[k]? = if k ∈ keys then none else m[k]? := by
  induction keys generalizing m with
  | nil => simp
  | cons q rest ih =>
    rw [List.foldl_cons,ih]
    by_cases same : k = q
    · subst same
      simp
    · rw [getElem?_erase_ne m same]
      simp [same]

/-- Entries with different keys are all held in the end. -/
theorem foldl_insert_iff {l : List (κ × β)} (distinct : l.Pairwise fun a b => a.1 ≠ b.1) (m : Std.TreeMap κ β) (k : κ)
    (x : β) : (l.foldl (fun m entry => m.insert entry.1 entry.2) m)[k]? = some x ↔
      (k,x) ∈ l ∨ (∀ entry ∈ l, entry.1 ≠ k) ∧ m[k]? = some x := by
  induction l generalizing m with
  | nil => simp
  | cons entry l ih =>
    obtain ⟨apart,distinct⟩ := List.pairwise_cons.mp distinct
    rw [List.foldl_cons,ih distinct]
    obtain ⟨q,y⟩ := entry
    by_cases same : k = q
    · subst same
      have other : ∀ z, (k,z) ∉ l := fun z member => apart _ member rfl
      have absent : ∀ entry ∈ l, entry.1 ≠ k := fun entry member => Ne.symm (apart entry member)
      rw [Std.TreeMap.getElem?_insert_self]
      simp only [List.mem_cons,other,or_false,false_or,Prod.mk.injEq,true_and,Option.some.injEq]
      constructor
      · exact fun found => .inl found.2.symm
      · rintro (same | ⟨clash,_⟩)
        · exact ⟨absent,same.symm⟩
        · exact absurd rfl (clash (k,y) (.inl rfl))
    · rw [getElem?_insert_ne m y same]
      simp [same,Ne.symm same]

end TreeMaps

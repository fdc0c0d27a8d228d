/-! Loops that overwrite the slots of a state one after the other, each with a value that may be
read from another slot of the same state. In an order in which no slot is written before it is
read, what the slots hold at the end depends on the start alone. -/
namespace InPlace

variable {σ ι α β : Type}

/-- No round writes a slot twice, or one that a later round reads. -/
def Ordered (target : α → ι) (source : α → Option ι) (l : List α) : Prop :=
  l.Pairwise fun a b => target a ≠ target b ∧ source b ≠ some (target a)

/-- Going up and reading ahead. -/
theorem ordered_up {target : Nat → Nat} {source : Nat → Option Nat} (grows : ∀ a b, a < b → target a < target b)
    (ahead : ∀ a i, source a = some i → target a ≤ i) (start n : Nat) : Ordered target source (List.range' start n) := by
  apply List.Pairwise.imp _ List.pairwise_lt_range'
  intro a b lt
  have apart := grows a b lt
  refine ⟨Nat.ne_of_lt apart,fun reading => ?_⟩
  exact Nat.not_le.mpr apart (ahead b _ reading)

/-- Going down and reading behind. -/
theorem ordered_down {target : Nat → Nat} {source : Nat → Option Nat} (grows : ∀ a b, a < b → target a < target b)
    (behind : ∀ a i, source a = some i → i ≤ target a) (start n : Nat) :
    Ordered target source (List.range' start n).reverse := by
  apply List.pairwise_reverse.mpr
  apply List.Pairwise.imp _ List.pairwise_lt_range'
  intro a b lt
  have apart := grows a b lt
  refine ⟨Nat.ne_of_gt apart,fun reading => ?_⟩
  exact Nat.not_le.mpr apart (behind a _ reading)

/-- One slot is set, the others keep their value. -/
structure Sets (slot : σ → ι → β) (now next : σ) (i : ι) (x : β) : Prop where
  here : slot next i = x
  others : ∀ j, j ≠ i → slot next j = slot now j

/-- Rounds that return while their source is as at the start make a loop that returns, with every
target set and every other slot as it was. -/
theorem foldlM_sets (slot : σ → ι → β) (target : α → ι) (source : α → Option ι) (value : α → β)
    {f : σ → α → Option σ} {P : σ → Prop} {l : List α} {s : σ} (ordered : Ordered target source l)
    (round : ∀ a ∈ l, ∀ now, P now → (∀ i, source a = some i → slot now i = slot s i) →
      ∃ next, f now a = some next ∧ P next ∧ Sets slot now next (target a) (value a)) (start : P s) :
    ∃ out, l.foldlM f s = some out ∧ P out ∧ (∀ a ∈ l, slot out (target a) = value a) ∧
      ∀ i, (∀ a ∈ l, target a ≠ i) → slot out i = slot s i := by
  -- The later rounds still read what was there at the start, so the start stays fixed.
  suffices later : ∀ now, P now → (∀ a ∈ l, ∀ i, source a = some i → slot now i = slot s i) →
      ∃ out, l.foldlM f now = some out ∧ P out ∧ (∀ a ∈ l, slot out (target a) = value a) ∧
        ∀ i, (∀ a ∈ l, target a ≠ i) → slot out i = slot now i by
    exact later s start fun _ _ _ _ => rfl
  induction l with
  | nil => exact fun now kept _ => ⟨now,rfl,kept,by simp,by simp⟩
  | cons a rest ih =>
    intro now kept reads
    obtain ⟨apart,ordered⟩ := List.pairwise_cons.mp ordered
    obtain ⟨next,first,kept',sets⟩ := round a (by simp) now kept (reads a (by simp))
    have unread : ∀ b ∈ rest, ∀ i, source b = some i → slot next i = slot s i := by
      intro b member i reading
      have other : i ≠ target a := fun same => (apart b member).2 (same ▸ reading)
      rw [sets.others i other]
      exact reads b (by simp [member]) i reading
    obtain ⟨out,looped,kept'',written,frame⟩ := ih ordered (fun b member => round b (by simp [member])) next kept' unread
    refine ⟨out,?_,kept'',?_,?_⟩
    · rw [List.foldlM_cons,first]
      exact looped
    · intro b member
      rcases List.mem_cons.mp member with rfl | member
      · rw [frame _ fun c later => Ne.symm (apart c later).1]
        exact sets.here
      · exact written b member
    · intro i outside
      rw [frame i fun b member => outside b (by simp [member])]
      exact sets.others i (Ne.symm (outside a (by simp)))

end InPlace

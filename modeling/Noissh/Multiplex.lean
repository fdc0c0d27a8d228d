/-! Messages of many keyed lanes in one list, and the sublist that belongs to one lane.
Removing a message from the whole list either removes it from its lane or leaves the
lane alone; a list put together lane by lane projects to that lane's part. -/
namespace Multiplex

variable {α β : Type}

/-- Where the message at `n` stands in its lane. -/
def rank (lane : α → Bool) (n : Nat) (whole : List α) : Nat := (whole.take n).countP lane

theorem getElem?_filter_rank {lane : α → Bool} {whole : List α} {n : Nat} {a : α}
    (here : whole[n]? = some a) (mine : lane a = true) : (whole.filter lane)[rank lane n whole]? = some a := by
  induction whole generalizing n with
  | nil => simp at here
  | cons b rest ih =>
    cases n with
    | zero =>
      simp only [List.getElem?_cons_zero,Option.some.injEq] at here
      subst here
      simp [rank,mine]
    | succ n =>
      have tail := ih (n := n) (by simpa using here)
      cases first : lane b with
      | true => simpa [rank,first] using tail
      | false => simpa [rank,first] using tail

theorem filter_eraseIdx_mine {lane : α → Bool} {whole : List α} {n : Nat} {a : α}
    (here : whole[n]? = some a) (mine : lane a = true) :
    (whole.eraseIdx n).filter lane = (whole.filter lane).eraseIdx (rank lane n whole) := by
  induction whole generalizing n with
  | nil => simp at here
  | cons b rest ih =>
    cases n with
    | zero =>
      simp only [List.getElem?_cons_zero,Option.some.injEq] at here
      subst here
      simp [rank,mine]
    | succ n =>
      have tail := ih (n := n) (by simpa using here)
      cases first : lane b with
      | true => simpa [rank,first] using tail
      | false => simpa [rank,first] using tail

theorem countP_eraseIdx {lane : α → Bool} {whole : List α} {n : Nat} {a : α}
    (here : whole[n]? = some a) (mine : lane a = true) :
    (whole.eraseIdx n).countP lane + 1 = whole.countP lane := by
  have bound := (List.getElem?_eq_some_iff.mp (getElem?_filter_rank here mine)).1
  rw [List.countP_eq_length_filter,List.countP_eq_length_filter,filter_eraseIdx_mine here mine,
    List.length_eraseIdx_of_lt bound]
  omega

theorem filter_eraseIdx_other {lane : α → Bool} {whole : List α} {n : Nat}
    (other : ∀ a, whole[n]? = some a → lane a = false) :
    (whole.eraseIdx n).filter lane = whole.filter lane := by
  induction whole generalizing n with
  | nil => rfl
  | cons b rest ih =>
    cases n with
    | zero => simp [other b rfl]
    | succ n =>
      have tail := ih (n := n) (fun a here => other a (by simpa using here))
      simp only [List.eraseIdx_cons_succ,List.filter_cons,tail]

/-- The lane of key `k` in a list assembled from parts with distinct keys. -/
theorem filter_flatMap_lane (lane : β → Bool) {parts : List (Nat × α)} (emit : Nat × α → List β) {k : Nat}
    (distinct : parts.Pairwise (fun p q => p.1 ≠ q.1))
    (mine : ∀ p ∈ parts, p.1 = k → ∀ b ∈ emit p, lane b = true)
    (others : ∀ p ∈ parts, p.1 ≠ k → ∀ b ∈ emit p, lane b = false) :
    (∀ a, (k,a) ∈ parts → (parts.flatMap emit).filter lane = emit (k,a)) ∧
    ((∀ a, (k,a) ∉ parts) → (parts.flatMap emit).filter lane = []) := by
  induction parts with
  | nil => simp
  | cons p rest ih =>
    have tail := ih distinct.of_cons (fun q member => mine q (.tail _ member))
      (fun q member => others q (.tail _ member))
    rw [List.flatMap_cons,List.filter_append]
    by_cases key : p.1 = k
    · have keep : (emit p).filter lane = emit p :=
        List.filter_eq_self.mpr (mine p (.head _) key)
      have absent : ∀ a, (k,a) ∉ rest := by
        intro a member
        exact List.rel_of_pairwise_cons distinct member key
      rw [keep,tail.2 absent,List.append_nil]
      refine ⟨fun a member => ?_,fun none => absurd (List.mem_cons.mpr (.inl ?_)) (none p.2)⟩
      · rcases List.mem_cons.mp member with rfl | later
        · rfl
        · exact absurd later (absent a)
      · rw [← key]
    · have skip : (emit p).filter lane = [] :=
        List.filter_eq_nil_iff.mpr (fun b member => by simp [others p (.head _) key b member])
      rw [skip,List.nil_append]
      refine ⟨fun a member => ?_,fun none => tail.2 (fun a member => none a (.tail _ member))⟩
      rcases List.mem_cons.mp member with rfl | later
      · exact absurd rfl key
      · exact tail.1 a later

end Multiplex

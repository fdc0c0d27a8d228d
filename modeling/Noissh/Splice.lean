import Mathlib.Algebra.Ring.Nat
import Mathlib.Algebra.Ring.Int.Defs

/-! Overwriting a run of list cells in place, described cell by cell through `getElem?`. -/
namespace Splice

variable {α : Type}

/-- Overwrite the cells `pos ..< pos + data.length` of `buf`. -/
def splice (buf : List α) (pos : Nat) (data : List α) : List α :=
  buf.take pos ++ data ++ buf.drop (pos + data.length)

theorem splice_length (buf data : List α) (pos : Nat) (fits : pos + data.length ≤ buf.length) :
    (splice buf pos data).length = buf.length := by
  simp [splice]; omega

theorem getElem?_splice (buf data : List α) (pos i : Nat) (fits : pos + data.length ≤ buf.length) :
    (splice buf pos data)[i]? =
      if pos ≤ i ∧ i < pos + data.length then data[i - pos]? else buf[i]? := by
  have taken : (buf.take pos).length = pos := by simp; omega
  unfold splice
  rw [List.append_assoc]
  by_cases before : i < pos
  · rw [List.getElem?_append_left (by omega),List.getElem?_take_of_lt before,if_neg (by omega)]
  rw [List.getElem?_append_right (by omega),taken]
  by_cases inside : i < pos + data.length
  · rw [List.getElem?_append_left (by omega),if_pos (by omega)]
  · rw [List.getElem?_append_right (by omega),List.getElem?_drop,if_neg (by omega)]
    congr 1; omega

/-- Writing the first cell and then the others. -/
theorem splice_set (buf data : List α) (pos : Nat) (x : α) (fits : pos < buf.length) :
    splice (buf.set pos x) (pos + 1) data = splice buf pos (x :: data) := by
  have taken : (buf.set pos x).take (pos + 1) = buf.take pos ++ [x] := by
    rw [List.take_add_one,List.take_set_of_le (Nat.le_refl pos),List.getElem?_set_self fits]
    rfl
  have dropped : (buf.set pos x).drop (pos + 1 + data.length) = buf.drop (pos + 1 + data.length) :=
    List.drop_set_of_lt (by omega)
  rw [splice,taken,dropped,splice,List.length_cons,Nat.add_assoc,Nat.add_comm 1]
  simp only [List.append_assoc,List.cons_append,List.nil_append]

theorem splice_all (buf data : List α) (length : data.length = buf.length) : splice buf 0 data = data := by
  simp [splice,length]

theorem splice_one (buf : List α) (pos : Nat) (x : α) (fits : pos < buf.length) :
    splice buf pos [x] = buf.set pos x := by
  rw [← splice_set buf [] pos x fits]
  simp [splice]

/-- Apply patches left to right; each is a position and the cells written there. -/
def patch (buf : List α) (patches : List (Nat × List α)) : List α :=
  patches.foldl (fun acc p => splice acc p.1 p.2) buf

theorem patch_length (buf : List α) (patches : List (Nat × List α))
    (fits : ∀ p ∈ patches, p.1 + p.2.length ≤ buf.length) : (patch buf patches).length = buf.length := by
  induction patches generalizing buf with
  | nil => rfl
  | cons p rest ih =>
    have head := fits p (by simp)
    have same := splice_length buf p.2 p.1 head
    exact (ih _ (fun q member => by rw [same]; exact fits q (by simp [member]))).trans same

/-- A cell no patch covers keeps its value. -/
theorem getElem?_patch_of_uncovered (buf : List α) (patches : List (Nat × List α)) (i : Nat)
    (fits : ∀ p ∈ patches, p.1 + p.2.length ≤ buf.length)
    (uncovered : ∀ p ∈ patches, ¬(p.1 ≤ i ∧ i < p.1 + p.2.length)) :
    (patch buf patches)[i]? = buf[i]? := by
  induction patches generalizing buf with
  | nil => rfl
  | cons p rest ih =>
    have head := fits p (by simp)
    have same := splice_length buf p.2 p.1 head
    have tail := ih (splice buf p.1 p.2) (fun q member => by rw [same]; exact fits q (by simp [member]))
      (fun q member => uncovered q (by simp [member]))
    rw [patch,List.foldl_cons,← patch,tail,getElem?_splice _ _ _ _ head,if_neg (uncovered p (by simp))]

/-- When every patch agrees with one function of the position, so does every covered cell:
later patches cannot disturb earlier ones. -/
theorem getElem?_patch_of_agree (buf : List α) (patches : List (Nat × List α)) (i : Nat)
    (value : Nat → Option α) (fits : ∀ p ∈ patches, p.1 + p.2.length ≤ buf.length)
    (agree : ∀ p ∈ patches, ∀ j, p.1 ≤ j → j < p.1 + p.2.length → p.2[j - p.1]? = value j)
    (covered : ∃ p ∈ patches, p.1 ≤ i ∧ i < p.1 + p.2.length) :
    (patch buf patches)[i]? = value i := by
  induction patches generalizing buf with
  | nil => simp at covered
  | cons p rest ih =>
    have head := fits p (by simp)
    have same := splice_length buf p.2 p.1 head
    have tailFits : ∀ q ∈ rest, q.1 + q.2.length ≤ (splice buf p.1 p.2).length := fun q member => by
      rw [same]; exact fits q (by simp [member])
    rw [patch,List.foldl_cons,← patch]
    by_cases later : ∃ q ∈ rest, q.1 ≤ i ∧ i < q.1 + q.2.length
    · exact ih _ tailFits (fun q member => agree q (by simp [member])) later
    · have here : p.1 ≤ i ∧ i < p.1 + p.2.length := by
        obtain ⟨q,member,range⟩ := covered
        rcases List.mem_cons.mp member with rfl | member
        · exact range
        · exact absurd ⟨q,member,range⟩ later
      rw [getElem?_patch_of_uncovered _ _ _ tailFits (fun q member range => later ⟨q,member,range⟩),
        getElem?_splice _ _ _ _ head,if_pos here]
      exact agree p (by simp) i here.1 here.2

/-- Write single cells left to right; those beyond the end are dropped. -/
def overwrite (buf : List α) (writes : List (Nat × α)) : List α := writes.foldl (fun acc w => acc.set w.1 w.2) buf

/-- What is written last at `i`. -/
def lastWrite (writes : List (Nat × α)) (i : Nat) : Option α := (writes.reverse.find? (fun w => w.1 == i)).map Prod.snd

theorem overwrite_length (buf : List α) (writes : List (Nat × α)) : (overwrite buf writes).length = buf.length := by
  unfold overwrite
  induction writes generalizing buf with
  | nil => rfl
  | cons w rest ih => rw [List.foldl_cons,ih,List.length_set]

theorem getElem?_overwrite (buf : List α) (writes : List (Nat × α)) {i : Nat} (inside : i < buf.length) :
    (overwrite buf writes)[i]? = (lastWrite writes i).or buf[i]? := by
  -- The last write decides, so the induction takes the list from its end.
  rw [← List.reverse_reverse writes]
  generalize writes.reverse = backward
  induction backward with
  | nil => rfl
  | cons w rest ih =>
    have before : (overwrite buf rest.reverse).length = buf.length := overwrite_length _ _
    simp only [overwrite,lastWrite,List.reverse_cons,List.reverse_reverse,List.foldl_append,List.foldl_cons,List.foldl_nil,
      List.reverse_append,List.reverse_nil,List.nil_append,List.cons_append,List.find?_cons] at ih before ⊢
    by_cases here : w.1 = i
    · subst here
      rw [List.getElem?_set_self (by rw [before]; exact inside),beq_self_eq_true]
      rfl
    · rw [List.getElem?_set_ne here,ih,beq_eq_false_iff_ne.mpr here]

/-- Nothing changes exactly when every cell is last given the value it has. -/
theorem overwrite_eq_self (buf : List α) (writes : List (Nat × α)) :
    overwrite buf writes = buf ↔ ∀ i x, lastWrite writes i = some x → i < buf.length → buf[i]? = some x := by
  constructor
  · intro same i x last inside
    have read := getElem?_overwrite buf writes inside
    rwa [same,last,Option.some_or] at read
  · intro agree
    apply List.ext_getElem?
    intro i
    by_cases inside : i < buf.length
    · rw [getElem?_overwrite buf writes inside]
      cases last : lastWrite writes i with
      | none => rfl
      | some x => rw [agree i x last inside]; rfl
    · rw [List.getElem?_eq_none (by rw [overwrite_length]; omega),List.getElem?_eq_none (by omega)]

theorem splice_eq_self (buf data : List α) (pos : Nat) :
    splice buf pos data = buf ↔ data <+: buf.drop pos := by
  have apart : buf = buf.take pos ++ buf.drop pos := (List.take_append_drop pos buf).symm
  have rest : buf.drop pos = (buf.drop pos).take data.length ++ buf.drop (pos + data.length) := by
    rw [← List.drop_drop,List.take_append_drop]
  rw [List.prefix_iff_eq_take]
  constructor
  · intro same
    unfold splice at same
    rw [List.append_assoc] at same
    have tail := List.append_cancel_left (same.trans apart)
    exact List.append_cancel_right (tail.trans rest)
  · intro agree
    calc splice buf pos data = buf.take pos ++ (data ++ buf.drop (pos + data.length)) := List.append_assoc ..
      _ = buf.take pos ++ buf.drop pos := by rw [rest,← agree]
      _ = buf := apart.symm

end Splice

import Mathlib.Data.List.Forall2
import Mathlib.Data.List.Basic

/-! Patterns over an alphabet with two wildcards: `one` stands for any letter and `many` for any
word. A text matches when each letter of the pattern has a piece of the text to stand for. -/
namespace Wildcard

variable {α : Type} [DecidableEq α] {one many : α} {pattern text : List α}

/-- What a letter of the pattern stands for. -/
def Fills (one many c : α) (piece : List α) : Prop :=
  if c = many then True else if c = one then piece.length = 1 else piece = [c]

def Matches (one many : α) (pattern text : List α) : Prop :=
  ∃ pieces, List.Forall₂ (Fills one many) pattern pieces ∧ pieces.flatten = text

/-- A letter of the pattern meets one of the text, wildcards being compared as letters too. -/
def Meets (one c x : α) : Prop := c = one ∨ c = x

instance (one c x : α) : Decidable (Meets one c x) := inferInstanceAs (Decidable (_ ∨ _))

/-- A match in which every `many` that meets itself in the text stands for just that letter. -/
def Literal (one many : α) : List α → List α → Prop
  | [],text => text = []
  | c :: pattern,text =>
    if c = many ∧ text.head? ≠ some many then ∃ n, Literal one many pattern (text.drop n)
    else ∃ x rest, text = x :: rest ∧ Meets one c x ∧ Literal one many pattern rest

@[simp] theorem matches_nil : Matches one many [] text ↔ text = [] := by
  simp [Matches,eq_comm]

theorem matches_cons {c : α} : Matches one many (c :: pattern) text ↔
    ∃ piece rest, Fills one many c piece ∧ piece ++ rest = text ∧ Matches one many pattern rest := by
  constructor
  · rintro ⟨pieces,fills,joined⟩
    cases fills with
    | cons fill fills => exact ⟨_,_,fill,joined,_,fills,rfl⟩
  · rintro ⟨piece,rest,fill,joined,pieces,fills,rfl⟩
    exact ⟨piece :: pieces,.cons fill fills,joined⟩

theorem matches_many : Matches one many (many :: pattern) text ↔ ∃ n, Matches one many pattern (text.drop n) := by
  rw [matches_cons]
  constructor
  · rintro ⟨piece,rest,_,rfl,after⟩
    exact ⟨piece.length,by simpa using after⟩
  · rintro ⟨n,after⟩
    exact ⟨text.take n,text.drop n,by simp [Fills],List.take_append_drop n text,after⟩

theorem matches_letter {c : α} (single : c ≠ many) : Matches one many (c :: pattern) text ↔
    ∃ x rest, text = x :: rest ∧ Meets one c x ∧ Matches one many pattern rest := by
  rw [matches_cons]
  constructor
  · rintro ⟨piece,rest,fill,rfl,after⟩
    unfold Fills at fill
    rw [if_neg single] at fill
    split at fill
    · rename_i any
      obtain ⟨x,rfl⟩ := List.length_eq_one_iff.mp fill
      exact ⟨x,rest,rfl,.inl any,after⟩
    · subst fill
      exact ⟨c,rest,rfl,.inr rfl,after⟩
  · rintro ⟨x,rest,rfl,meets,after⟩
    refine ⟨[x],rest,?_,rfl,after⟩
    unfold Fills
    rw [if_neg single]
    split
    · rfl
    · rename_i plain
      rw [meets.resolve_left plain]

theorem literal_many (other : text.head? ≠ some many) :
    Literal one many (many :: pattern) text ↔ ∃ n, Literal one many pattern (text.drop n) := by
  simp [Literal,other]

theorem literal_letter {c : α} (single : c ≠ many) : Literal one many (c :: pattern) text ↔
    ∃ x rest, text = x :: rest ∧ Meets one c x ∧ Literal one many pattern rest := by
  simp [Literal,single]

/-- Two letters that meet are taken off together. -/
theorem literal_met {c x : α} (apart : one ≠ many) (meets : Meets one c x) :
    Literal one many (c :: pattern) (x :: text) ↔ Literal one many pattern text := by
  by_cases star : c = many
  · subst star
    obtain rfl := meets.resolve_left (Ne.symm apart)
    simp [Literal,Meets]
  · simp [literal_letter star,meets]

theorem Literal.matches (taken : Literal one many pattern text) : Matches one many pattern text := by
  induction pattern generalizing text with
  | nil => exact matches_nil.mpr taken
  | cons c pattern ih =>
    by_cases star : c = many
    · subst star
      apply matches_many.mpr
      by_cases itself : text.head? = some c
      · obtain ⟨rest,rfl⟩ := List.head?_eq_some_iff.mp itself
        simp [Literal,Meets] at taken
        exact ⟨1,ih taken⟩
      · obtain ⟨n,taken⟩ := (literal_many itself).mp taken
        exact ⟨n,ih taken⟩
    · obtain ⟨x,rest,rfl,meets,taken⟩ := (literal_letter star).mp taken
      exact (matches_letter star).mpr ⟨x,rest,rfl,meets,ih taken⟩

/-- Over a text without `many` no match has to be literal. -/
theorem Matches.literal (free : many ∉ text) (fits : Matches one many pattern text) : Literal one many pattern text := by
  induction pattern generalizing text with
  | nil => exact matches_nil.mp fits
  | cons c pattern ih =>
    by_cases star : c = many
    · subst star
      obtain ⟨n,fits⟩ := matches_many.mp fits
      apply (literal_many fun itself => free (List.mem_of_mem_head? itself)).mpr
      exact ⟨n,ih (fun member => free (List.mem_of_mem_drop member)) fits⟩
    · obtain ⟨x,rest,rfl,meets,fits⟩ := (matches_letter star).mp fits
      exact (literal_letter star).mpr ⟨x,rest,rfl,meets,ih (fun member => free (by simp [member])) fits⟩

omit [DecidableEq α] in
theorem drop_rest {x y : α} {l rest : List α} {n : Nat} (here : (x :: l).drop n = y :: rest) : rest = l.drop n := by
  have tail := congrArg List.tail here
  rwa [List.tail_drop,List.drop_succ_cons,List.tail_cons,eq_comm] at tail

/-- A start of the pattern that met a piece of the text letter by letter, moved on in the text,
leaves for the rest of the pattern what follows that piece or less. -/
theorem Literal.passed {start piece after : List α} (met : List.Forall₂ (Meets one) start piece) {n : Nat}
    (apart : one ≠ many) (taken : Literal one many (start ++ pattern) ((piece ++ after).drop n)) :
    ∃ k, Literal one many pattern (after.drop k) := by
  induction met generalizing n with
  | nil => exact ⟨n,taken⟩
  | @cons c x start piece meets _ ih =>
    rw [List.cons_append] at taken
    by_cases star : c = many
    · subst star
      obtain rfl := meets.resolve_left (Ne.symm apart)
      by_cases itself : ((c :: piece ++ after).drop n).head? = some c
      · obtain ⟨rest,here⟩ := List.head?_eq_some_iff.mp itself
        rw [here,literal_met apart meets] at taken
        exact @ih n (drop_rest here ▸ taken)
      · obtain ⟨k,taken⟩ := (literal_many itself).mp taken
        -- The letter met is a `many`, so the text has moved on.
        cases n with
        | zero => exact absurd rfl itself
        | succ n =>
          apply @ih (n + k)
          simpa [Nat.add_comm] using taken
    · obtain ⟨y,rest,here,_,taken⟩ := (literal_letter star).mp taken
      exact @ih n (drop_rest here ▸ taken)

/-- A `many` in front that does not meet itself can take what was skipped. -/
theorem Literal.earlier {n : Nat} (other : text.head? ≠ some many) (apart : one ≠ many)
    (taken : Literal one many (many :: pattern) (text.drop n)) : Literal one many (many :: pattern) text := by
  apply (literal_many other).mpr
  by_cases itself : (text.drop n).head? = some many
  · obtain ⟨rest,here⟩ := List.head?_eq_some_iff.mp itself
    rw [here,literal_met apart (.inr rfl)] at taken
    refine ⟨n + 1,?_⟩
    have tail := congrArg List.tail here
    rw [List.tail_drop] at tail
    simpa [tail] using taken
  · obtain ⟨k,taken⟩ := (literal_many itself).mp taken
    exact ⟨n + k,by simpa [Nat.add_comm] using taken⟩

/-- Nothing but `many`s match the empty text. -/
theorem literal_empty : Literal one many pattern [] ↔ ∀ c ∈ pattern, c = many := by
  induction pattern with
  | nil => simp [Literal]
  | cons c pattern ih =>
    by_cases star : c = many
    · simp [Literal,star,ih]
    · simp [Literal,star]

theorem matches_ones (apart : one ≠ many) (word : List α) :
    Matches one many (List.replicate word.length one ++ pattern) (word ++ text) ↔ Matches one many pattern text := by
  induction word with
  | nil => rfl
  | cons x word ih => simp [List.replicate_succ,matches_letter apart,Meets,ih]

theorem literal_ones (apart : one ≠ many) (word : List α) :
    Literal one many (List.replicate word.length one ++ pattern) (word ++ text) ↔ Literal one many pattern text := by
  induction word with
  | nil => rfl
  | cons x word ih => simp [List.replicate_succ,literal_letter apart,Meets,ih]

theorem literal_ones_length (apart : one ≠ many) {n : Nat} (taken : Literal one many (List.replicate n one) text) :
    text.length = n := by
  induction n generalizing text with
  | zero => simpa [Literal] using taken
  | succ n ih =>
    obtain ⟨x,rest,rfl,_,taken⟩ := (literal_letter apart).mp taken
    simp [ih taken]

/-- As many `one`s as there are letters, with `many` and another `one` put in where the text has a
`many`. -/
def exposing (one many : α) (before after : List α) : List α :=
  List.replicate before.length one ++ many :: one :: List.replicate after.length one

theorem exposing_matches (apart : one ≠ many) (before after : List α) :
    Matches one many (exposing one many before after) (before ++ many :: after) := by
  apply (matches_ones apart before).mpr
  apply matches_many.mpr
  refine ⟨0,(matches_letter apart).mpr ⟨many,after,rfl,.inl rfl,?_⟩⟩
  have rest := (@matches_ones α _ one many [] [] apart after).mpr (matches_nil.mpr rfl)
  simpa using rest

theorem exposing_not_literal (apart : one ≠ many) (before after : List α) :
    ¬Literal one many (exposing one many before after) (before ++ many :: after) := by
  intro taken
  have later := (literal_ones apart before).mp taken
  have rest := (literal_met apart (.inr rfl)).mp later
  rw [← List.replicate_succ] at rest
  have length := literal_ones_length apart rest
  omega

end Wildcard

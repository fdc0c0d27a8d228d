import Mathlib.Data.List.TakeWhile
import Noissh.Text
import Noissh.Wildcard

/-! Host patterns of the ssh configuration (`src/sshconfig.rs`). The matcher keeps two pointers
and goes back to the last `*` when it is stuck. It compares letters before it looks for a `*`, so
a `*` that meets a `*` in the text is taken literally. -/
namespace Noissh.HostGlob

open Wildcard Text

variable {p t : List Char}

/-- Where the matcher stands in the pattern and in the text, the last `*` it has passed, and where
in the text what follows that `*` was last tried. -/
structure Scan (p t : List Char) where
  pi : Nat
  ti : Nat
  star : Option Nat
  mark : Nat
  inPattern : pi ≤ p.length
  behind : ∀ s ∈ star, s < pi
  marked : mark ≤ ti

namespace Scan

def start (p t : List Char) : Scan p t := ⟨0,0,none,0,Nat.zero_le _,nofun,Nat.le_refl 0⟩

theorem lt_of_letter {c : Char} {i : Nat} (letter : p[i]? = some c) : i < p.length :=
  (List.getElem?_eq_some_iff.mp letter).1

/-- The letter of the pattern takes that of the text. -/
def advance (now : Scan p t) (inside : now.pi < p.length) : Scan p t where
  pi := now.pi + 1
  ti := now.ti + 1
  star := now.star
  mark := now.mark
  inPattern := inside
  behind s passed := Nat.lt_succ_of_lt (now.behind s passed)
  marked := Nat.le_succ_of_le now.marked

/-- The `*` is noted and passed. -/
def record (now : Scan p t) (inside : now.pi < p.length) : Scan p t where
  pi := now.pi + 1
  ti := now.ti
  star := some now.pi
  mark := now.ti
  inPattern := inside
  behind _ passed := Option.some.inj passed ▸ Nat.lt_succ_self _
  marked := Nat.le_refl _

/-- What follows the last `*` is tried one place further on. -/
def retry (now : Scan p t) {s : Nat} (last : now.star = some s) : Scan p t where
  pi := s + 1
  ti := now.mark + 1
  star := now.star
  mark := now.mark + 1
  inPattern := Nat.le_trans (now.behind s last) now.inPattern
  behind _ passed := Option.some.inj (last.symm.trans passed) ▸ Nat.lt_succ_self _
  marked := Nat.le_refl _

/-- One round of the loop, or `none` where it returns. -/
def step (now : Scan p t) (more : now.ti < t.length) : Option (Scan p t) :=
  if hit : p[now.pi]? = some '?' ∨ p[now.pi]? = some t[now.ti] then
    some (now.advance (hit.elim lt_of_letter lt_of_letter))
  else if wild : p[now.pi]? = some '*' then
    some (now.record (lt_of_letter wild))
  else match last : now.star with
    | some _ => some (now.retry last)
    | none => none

/-- How much of the pattern follows the last `*`. -/
def starLeft (now : Scan p t) : Nat := now.star.elim (p.length + 1) (p.length - ·)

theorem starLeft_record (now : Scan p t) (inside : now.pi < p.length) : (now.record inside).starLeft < now.starLeft := by
  cases last : now.star with
  | none =>
    simp only [starLeft,record,last,Option.elim]
    omega
  | some s =>
    have := now.behind s last
    simp only [starLeft,record,last,Option.elim]
    omega

theorem step_shrinks {now later : Scan p t} {more : now.ti < t.length} (next : now.step more = some later) :
    Prod.Lex (· < ·) (Prod.Lex (· < ·) (· < ·)) (t.length - later.mark,later.starLeft,t.length - later.ti)
      (t.length - now.mark,now.starLeft,t.length - now.ti) := by
  have marked := now.marked
  simp only [Prod.lex_def]
  unfold step at next
  split at next
  · cases next
    exact .inr ⟨rfl,.inr ⟨rfl,Nat.sub_succ_lt_self _ _ more⟩⟩
  · split at next
    · cases next
      rcases Nat.eq_or_lt_of_le (Nat.sub_le_sub_left marked t.length) with same | less
      · exact .inr ⟨same,.inl (starLeft_record now _)⟩
      · exact .inl less
    · split at next
      · cases next
        simp only [retry]
        omega
      · cases next

end Scan

/-- The second loop: the `*`s at the end of the pattern. -/
def skipStars (p : List Char) (pi : Nat) : Nat := pi + ((p.drop pi).takeWhile (· == '*')).length

def globLoop (now : Scan p t) : Bool :=
  if more : now.ti < t.length then
    match _ : now.step more with
    | some later => globLoop later
    | none => false
  else skipStars p now.pi == p.length
termination_by (t.length - now.mark,now.starLeft,t.length - now.ti)
decreasing_by exact Scan.step_shrinks ‹_›

def globMatch (pattern text : List Char) : Bool := globLoop (Scan.start pattern text)

/-- The loop over the patterns of a line, in which a negated pattern that matches ends it. -/
def hostLoop (alias_ : List Char) (matched : Bool) : List (List Char) → Bool
  | [] => matched
  | ('!' :: neg) :: rest => if globMatch neg alias_ then false else hostLoop alias_ matched rest
  | pat :: rest => if globMatch pat alias_ then hostLoop alias_ true rest else hostLoop alias_ matched rest

def hostPatternsMatch (patterns alias_ : List Char) : Bool := hostLoop alias_ false (splitWhitespace patterns)

namespace Scan

/-- What follows the last `*` has met the text from the mark on letter by letter. -/
def Met (now : Scan p t) : Prop :=
  ∀ s ∈ now.star, ∃ start piece, p.drop (s + 1) = start ++ p.drop now.pi ∧ t.drop now.mark = piece ++ t.drop now.ti ∧
    List.Forall₂ (Meets '?') start piece

/-- The rest of the text matches the rest of the pattern, or what follows the last `*` matches
from some place after the mark. -/
def Open (now : Scan p t) : Prop :=
  Literal '?' '*' (p.drop now.pi) (t.drop now.ti) ∨
    ∃ s ∈ now.star, ∃ m > now.mark, Literal '?' '*' (p.drop (s + 1)) (t.drop m)

theorem drop_of_letter {c : Char} {i : Nat} (letter : p[i]? = some c) : p.drop i = c :: p.drop (i + 1) := by
  obtain ⟨bound,rfl⟩ := List.getElem?_eq_some_iff.mp letter
  exact List.drop_eq_getElem_cons bound

/-- Where the pattern after the last `*` goes on, a match from a later place is one of this rest. -/
theorem Met.later {now : Scan p t} (met : now.Met) {s m : Nat} (last : s ∈ now.star) (after : now.mark < m)
    (taken : Literal '?' '*' (p.drop (s + 1)) (t.drop m)) :
    ∃ k, Literal '?' '*' (p.drop now.pi) ((t.drop now.ti).drop k) := by
  obtain ⟨start,piece,pattern,text,letters⟩ := met s last
  obtain ⟨n,rfl⟩ := Nat.exists_eq_add_of_lt after
  rw [pattern,Nat.add_assoc,← List.drop_drop,text] at taken
  exact taken.passed letters (by decide)

variable {now : Scan p t}

theorem advance_open (met : now.Met) (more : now.ti < t.length) {c : Char} (letter : p[now.pi]? = some c)
    (meets : Meets '?' c t[now.ti]) (inside : now.pi < p.length) :
    (now.advance inside).Met ∧ ((now.advance inside).Open ↔ now.Open) := by
  have pattern := drop_of_letter letter
  have text := List.drop_eq_getElem_cons more
  constructor
  · intro s last
    obtain ⟨start,piece,before,here,letters⟩ := met s last
    refine ⟨start ++ [c],piece ++ [t[now.ti]],?_,?_,List.rel_append letters (.cons meets .nil)⟩
    · rw [before,pattern,List.append_assoc]
      rfl
    · simp only [advance]
      rw [here,text,List.append_assoc]
      rfl
  · unfold Open
    rw [pattern,text,literal_met (by decide) meets]
    rfl

theorem record_open (met : now.Met) (wild : p[now.pi]? = some '*') (other : (t.drop now.ti).head? ≠ some '*')
    (inside : now.pi < p.length) : (now.record inside).Met ∧ ((now.record inside).Open ↔ now.Open) := by
  have pattern := drop_of_letter wild
  constructor
  · intro s last
    cases last
    exact ⟨[],[],rfl,rfl,.nil⟩
  constructor
  · rintro (here | ⟨s,last,m,after,taken⟩)
    · apply Or.inl
      rw [pattern]
      exact (literal_many other).mpr ⟨0,here⟩
    · cases last
      apply Or.inl
      rw [pattern]
      refine (literal_many other).mpr ⟨m - now.ti,?_⟩
      have back : now.ti + (m - now.ti) = m := Nat.add_sub_cancel' (Nat.le_of_lt after)
      rwa [List.drop_drop,back]
  · intro found
    -- A match from a place after the old mark is one that the new `*` can stretch to.
    have here : Literal '?' '*' ('*' :: p.drop (now.pi + 1)) (t.drop now.ti) := by
      rcases found with here | ⟨s,last,m,after,taken⟩
      · rwa [pattern] at here
      · obtain ⟨k,taken⟩ := met.later last after taken
        rw [pattern] at taken
        exact taken.earlier other (by decide)
    obtain ⟨n,taken⟩ := (literal_many other).mp here
    rw [List.drop_drop] at taken
    rcases Nat.eq_zero_or_pos n with rfl | further
    · exact .inl taken
    · exact .inr ⟨_,rfl,_,Nat.lt_add_of_pos_right further,taken⟩

/-- A letter that is not met and no `*` match nothing here. -/
theorem stuck (more : now.ti < t.length) (miss : ¬(p[now.pi]? = some '?' ∨ p[now.pi]? = some t[now.ti]))
    (tame : p[now.pi]? ≠ some '*') : ¬Literal '?' '*' (p.drop now.pi) (t.drop now.ti) := by
  rw [List.drop_eq_getElem_cons more]
  rcases Nat.lt_or_ge now.pi p.length with inside | done
  · rw [List.getElem?_eq_getElem inside,Option.some.injEq,Option.some.injEq] at miss
    rw [List.getElem?_eq_getElem inside,Ne,Option.some.injEq] at tame
    rw [List.drop_eq_getElem_cons inside,literal_letter tame]
    rintro ⟨_,_,same,meets,_⟩
    cases same
    exact miss meets
  · rw [List.drop_eq_nil_of_le done]
    exact nofun

theorem retry_open (blocked : ¬Literal '?' '*' (p.drop now.pi) (t.drop now.ti)) {s : Nat} (last : now.star = some s) :
    (now.retry last).Met ∧ ((now.retry last).Open ↔ now.Open) := by
  constructor
  · intro s' last'
    cases last.symm.trans last'
    exact ⟨[],[],rfl,rfl,.nil⟩
  constructor
  · rintro (here | ⟨s',last',m,after,taken⟩)
    · exact .inr ⟨s,last,_,Nat.lt_succ_self _,here⟩
    · exact .inr ⟨s',last',m,Nat.lt_of_succ_lt after,taken⟩
  · rintro (here | ⟨s',last',m,after,taken⟩)
    · exact absurd here blocked
    · cases last.symm.trans last'
      rcases Nat.eq_or_lt_of_le after with rfl | further
      · exact .inl taken
      · exact .inr ⟨s,last,m,further,taken⟩

theorem step_some {later : Scan p t} {more : now.ti < t.length} (met : now.Met) (next : now.step more = some later) :
    later.Met ∧ (later.Open ↔ now.Open) := by
  unfold step at next
  split at next
  · rename_i hit
    cases next
    rcases hit with any | same
    · exact advance_open met more any (.inl rfl) _
    · exact advance_open met more same (.inr rfl) _
  · rename_i miss
    split at next
    · rename_i wild
      cases next
      apply record_open met wild
      rw [List.drop_eq_getElem_cons more]
      exact fun same => miss (.inr (wild.trans same.symm))
    · rename_i tame
      split at next
      · cases next
        exact retry_open (stuck more miss tame) _
      · cases next

theorem step_none {more : now.ti < t.length} (next : now.step more = none) : ¬now.Open := by
  unfold step at next
  split at next
  · cases next
  · rename_i miss
    split at next
    · cases next
    · rename_i tame
      split at next
      · cases next
      · rename_i never
        rintro (here | ⟨s,last,_⟩)
        · exact stuck more miss tame here
        · cases never.symm.trans last

/-- At the end of the text only `*`s may be left. -/
theorem open_done (met : now.Met) (done : t.length ≤ now.ti) : now.Open ↔ ∀ c ∈ p.drop now.pi, c = '*' := by
  rw [← @literal_empty Char _ '?']
  have ended := List.drop_eq_nil_of_le done
  constructor
  · rintro (here | ⟨s,last,m,after,taken⟩)
    · rwa [ended] at here
    · obtain ⟨k,taken⟩ := met.later last after taken
      simpa [ended] using taken
  · intro left
    apply Or.inl
    rwa [ended]

end Scan

theorem skipStars_iff {pi : Nat} (inside : pi ≤ p.length) : skipStars p pi = p.length ↔ ∀ c ∈ p.drop pi, c = '*' := by
  have parts := congrArg List.length (List.takeWhile_append_dropWhile (p := (· == '*')) (l := p.drop pi))
  rw [List.length_append,List.length_drop] at parts
  have left : skipStars p pi = p.length ↔ ((p.drop pi).dropWhile (· == '*')).length = 0 := by
    unfold skipStars
    omega
  rw [left,List.length_eq_zero_iff,List.dropWhile_eq_nil_iff]
  simp

theorem globLoop_more {now : Scan p t} (more : now.ti < t.length) :
    globLoop now = (now.step more).elim false globLoop := by
  rw [globLoop,dif_pos more]
  split <;> rename_i next <;> rw [next] <;> rfl

/-- The loop from any place finds what is still open there. -/
theorem globLoop_iff {now : Scan p t} (met : now.Met) : globLoop now = true ↔ now.Open := by
  induction now using globLoop.induct with
  | case1 now more later next ih =>
    obtain ⟨met',same⟩ := Scan.step_some met next
    rw [globLoop_more more,next,← same]
    exact ih met'
  | case2 now more next =>
    rw [globLoop_more more,next]
    exact iff_of_false Bool.false_ne_true (Scan.step_none next)
  | case3 now done =>
    rw [globLoop,dif_neg done,beq_iff_eq,skipStars_iff now.inPattern]
    exact (Scan.open_done met (Nat.le_of_not_lt done)).symm

theorem globMatch_iff (pattern text : List Char) : globMatch pattern text = true ↔ Literal '?' '*' pattern text := by
  have found := @globLoop_iff pattern text (Scan.start pattern text) nofun
  rw [globMatch,found]
  simp [Scan.Open,Scan.start]

/-- The patterns of a line name a host: one that is not negated matches it, and no negated one. -/
def Names (fits : List Char → Prop) (pats : List (List Char)) : Prop :=
  (∃ pat ∈ pats, pat.head? ≠ some '!' ∧ fits pat) ∧ ∀ neg, '!' :: neg ∈ pats → ¬fits neg

theorem head_ne_of_positive {pat : List Char} (positive : ∀ neg, pat = '!' :: neg → False) : pat.head? ≠ some '!' := by
  intro marked
  obtain ⟨neg,rfl⟩ := List.head?_eq_some_iff.mp marked
  exact positive neg rfl

theorem hostLoop_iff (alias_ : List Char) (matched : Bool) (pats : List (List Char)) :
    hostLoop alias_ matched pats = true ↔
      (matched = true ∨ ∃ pat ∈ pats, pat.head? ≠ some '!' ∧ globMatch pat alias_ = true) ∧
        ∀ neg, '!' :: neg ∈ pats → ¬globMatch neg alias_ = true := by
  fun_induction hostLoop alias_ matched pats with
  | case1 => simp
  | case2 matched neg rest fits => simp [fits]
  | case3 matched neg rest misses ih => simp [ih,misses]
  | case4 matched pat rest positive fits ih =>
    have unmarked : pat.head? ≠ some '!' := head_ne_of_positive positive
    have other : ∀ neg, '!' :: neg ≠ pat := fun neg same => positive neg same.symm
    simp [ih,fits,unmarked,other]
  | case5 matched pat rest positive misses ih =>
    have other : ∀ neg, '!' :: neg ≠ pat := fun neg same => positive neg same.symm
    simp [ih,misses,other]

theorem hostPatternsMatch_iff (patterns alias_ : List Char) :
    hostPatternsMatch patterns alias_ = true ↔ Names (globMatch · alias_ = true) (splitWhitespace patterns) := by
  rw [hostPatternsMatch,hostLoop_iff]
  simp [Names]

theorem exact_of_plain {text : List Char} (plain : '*' ∉ text) (pattern : List Char) :
    globMatch pattern text = true ↔ Matches '?' '*' pattern text := by
  rw [globMatch_iff]
  exact ⟨Literal.matches,Matches.literal plain⟩

/-- A pattern that a text with a `*` matches, unseen by the matcher. -/
theorem exposed {text : List Char} (star : '*' ∈ text) :
    ∃ pattern, Word pattern ∧ pattern.head? ≠ some '!' ∧ Matches '?' '*' pattern text ∧ ¬globMatch pattern text = true := by
  obtain ⟨before,after,rfl⟩ := List.append_of_mem star
  have wild : ∀ c ∈ exposing '?' '*' before after, c = '?' ∨ c = '*' := by
    intro c member
    simp only [exposing,List.mem_append,List.mem_cons,List.mem_replicate] at member
    grind
  refine ⟨exposing '?' '*' before after,⟨by simp [exposing],fun c member => ?_⟩,fun marked => ?_,
    exposing_matches (by decide) before after,?_⟩
  · rcases wild c member with rfl | rfl <;> rfl
  · rcases wild _ (List.mem_of_mem_head? marked) with same | same <;> cases same
  · rw [globMatch_iff]
    exact exposing_not_literal (by decide) before after

/-- A pattern is matched exactly if a text that fits it fits it with every `*` that meets a `*`
taken literally. So every pattern is, and every line of them, for the texts without a `*` and for
no others. -/
theorem glob_exact_iff (text : List Char) :
    (∀ pattern, (globMatch pattern text = true ↔ Matches '?' '*' pattern text) ↔
      (Matches '?' '*' pattern text → Literal '?' '*' pattern text)) ∧
    ((∀ pattern, globMatch pattern text = true ↔ Matches '?' '*' pattern text) ↔ '*' ∉ text) ∧
    ((∀ patterns, hostPatternsMatch patterns text = true ↔
      Names (Matches '?' '*' · text) (splitWhitespace patterns)) ↔ '*' ∉ text) := by
  refine ⟨fun pattern => ?_,⟨fun exact_ star => ?_,exact_of_plain⟩,⟨fun exact_ star => ?_,fun plain patterns => ?_⟩⟩
  · rw [globMatch_iff]
    exact ⟨fun same => same.mpr,fun literal => ⟨Literal.matches,literal⟩⟩
  · obtain ⟨pattern,_,_,fits,misses⟩ := exposed star
    exact misses ((exact_ pattern).mpr fits)
  · obtain ⟨pattern,word,positive,fits,misses⟩ := exposed star
    have named := (exact_ pattern).mpr
    rw [hostPatternsMatch_iff,splitWhitespace_word word] at named
    have found := named ⟨⟨pattern,by simp,positive,fits⟩,fun neg marked => ?_⟩
    · obtain ⟨pat,member,_,hit⟩ := found.1
      rw [List.mem_singleton.mp member] at hit
      exact misses hit
    · exact absurd (by rw [← List.mem_singleton.mp marked]; rfl) positive
  · rw [hostPatternsMatch_iff]
    simp only [exact_of_plain plain]

theorem glob_star_in_text : ¬(globMatch "*".toList "*a".toList = true ↔ Matches '?' '*' "*".toList "*a".toList) := by
  have fits : Matches '?' '*' "*".toList "*a".toList := ⟨["*a".toList],.cons trivial .nil,rfl⟩
  rw [globMatch_iff]
  intro same
  have taken := same.mpr fits
  simp [Literal,Meets] at taken

end Noissh.HostGlob

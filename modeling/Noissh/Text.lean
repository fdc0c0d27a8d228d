import Mathlib.Data.List.Basic

/-! Texts as lists of characters, with the string functions that the configuration files are
read with. -/
namespace Noissh.Text

/-- `char::is_whitespace`: the Unicode property White_Space. -/
def isWhitespace (c : Char) : Bool :=
  let n := c.toNat
  (0x09 ≤ n && n ≤ 0x0d) || n == 0x20 || n == 0x85 || n == 0xa0 || n == 0x1680 || (0x2000 ≤ n && n ≤ 0x200a) ||
    n == 0x2028 || n == 0x2029 || n == 0x202f || n == 0x205f || n == 0x3000

/-- `str::split_whitespace`. -/
def splitWhitespace (text : List Char) : List (List Char) := (text.splitOnP isWhitespace).filter fun word => !word.isEmpty

/-- `str::trim`. -/
def trim (text : List Char) : List Char := ((text.dropWhile isWhitespace).reverse.dropWhile isWhitespace).reverse

/-- `str::split_once` at the first character of a kind. -/
def splitOnce (kind : Char → Bool) (text : List Char) : Option (List Char × List Char) :=
  match text.dropWhile fun c => !kind c with
  | [] => none
  | _ :: after => some (text.takeWhile fun c => !kind c,after)

/-- `str::lines`: the text up to each line feed, less a carriage return right before it, and what
follows the last one if that is not empty. -/
def lines (text : List Char) : List (List Char) :=
  let parts := text.splitOn '\n'
  parts.dropLast.map (fun line => if line.getLast? = some '\r' then line.dropLast else line) ++
    parts.getLast?.toList.filter fun rest => !rest.isEmpty

/-- A text that is one word. -/
def Word (text : List Char) : Prop := text ≠ [] ∧ ∀ c ∈ text, isWhitespace c = false

instance (text : List Char) : Decidable (Word text) :=
  decidable_of_iff (!text.isEmpty && text.all fun c => !isWhitespace c) (by simp [Word])

theorem splitWhitespace_word {word : List Char} (one : Word word) : splitWhitespace word = [word] := by
  unfold splitWhitespace
  rw [List.splitOnP_eq_singleton (by simpa using one.2)]
  simp [one.1]

theorem splitWhitespace_cons {word : List Char} (one : Word word) {space : Char} (blank : isWhitespace space = true)
    (rest : List Char) : splitWhitespace (word ++ space :: rest) = word :: splitWhitespace rest := by
  unfold splitWhitespace
  rw [List.splitOnP_append_cons_of_forall_mem (by simpa using one.2) space blank]
  simp [one.1]

theorem splitOnce_word {word : List Char} (one : Word word) {space : Char} (blank : isWhitespace space = true)
    (rest : List Char) : splitOnce isWhitespace (word ++ space :: rest) = some (word,rest) := by
  have plain : ∀ c ∈ word, (!isWhitespace c) = true := by simpa using one.2
  unfold splitOnce
  rw [List.dropWhile_append_of_pos plain,List.takeWhile_append_of_pos plain]
  simp [blank]

theorem dropWhile_of_head {text : List Char} (head : ∀ c ∈ text.head?, isWhitespace c = false) :
    text.dropWhile isWhitespace = text := by
  cases text with
  | nil => rfl
  | cons c rest => simp [head c rfl]

/-- Nothing is trimmed from a text that neither begins nor ends with white space. -/
theorem trim_of_ends {text : List Char} (head : ∀ c ∈ text.head?, isWhitespace c = false)
    (last : ∀ c ∈ text.getLast?, isWhitespace c = false) : trim text = text := by
  have back : text.reverse.dropWhile isWhitespace = text.reverse :=
    dropWhile_of_head fun c first => last c (by rwa [List.head?_reverse] at first)
  rw [trim,dropWhile_of_head head,back,List.reverse_reverse]

theorem Word.head {word : List Char} (one : Word word) : ∀ c ∈ word.head?, isWhitespace c = false :=
  fun c first => one.2 c (List.mem_of_mem_head? first)

theorem Word.last {word : List Char} (one : Word word) : ∀ c ∈ word.getLast?, isWhitespace c = false :=
  fun c final => one.2 c (List.mem_of_getLast? final)

theorem trim_word {word : List Char} (one : Word word) : trim word = word := trim_of_ends one.head one.last

theorem trim_words {word last : List Char} (one : Word word) (one' : Word last) (between : List Char) :
    trim (word ++ between ++ last) = word ++ between ++ last := by
  apply trim_of_ends
  · rw [List.append_assoc,List.head?_append_of_ne_nil _ one.1]
    exact one.head
  · rw [List.getLast?_append_of_ne_nil _ one'.1]
    exact one'.last

theorem trim_head (text : List Char) : ∀ c ∈ (trim text).head?, isWhitespace c = false := by
  have inner : trim text <+: text.dropWhile isWhitespace := by
    have back : (text.dropWhile isWhitespace).reverse.dropWhile isWhitespace <:+ (text.dropWhile isWhitespace).reverse :=
      List.dropWhile_suffix _
    have turned := List.reverse_prefix.mpr back
    rwa [List.reverse_reverse] at turned
  intro c first
  obtain ⟨rest,same⟩ := inner
  have ends := List.head?_dropWhile_not isWhitespace text
  rw [← same,List.head?_append,Option.mem_def.mp first] at ends
  exact ends

/-- What stands before the first blank of a trimmed line is a word. -/
theorem splitOnce_trimmed {text host rest : List Char} (parts : splitOnce isWhitespace (trim text) = some (host,rest)) :
    Word host ∧ host.head? = (trim text).head? := by
  have taken : host = (trim text).takeWhile fun c => !isWhitespace c := by
    unfold splitOnce at parts
    split at parts
    · cases parts
    · exact (congrArg Prod.fst (Option.some.inj parts)).symm
  cases here : trim text with
  | nil =>
    rw [here] at parts
    cases parts
  | cons c more =>
    have blank : isWhitespace c = false := trim_head text c (by rw [here]; rfl)
    have begins : host = c :: more.takeWhile fun c => !isWhitespace c := by
      rw [taken,here]
      simp [blank]
    refine ⟨⟨?_,fun d member => ?_⟩,?_⟩
    · rw [begins]
      exact List.cons_ne_nil _ _
    · rw [taken] at member
      simpa using List.all_eq_true.mp List.all_takeWhile d member
    · rw [begins]
      rfl

/-- A text that is one line as it stands. -/
def Line (text : List Char) : Prop := '\n' ∉ text ∧ text.getLast? ≠ some '\r'

theorem lines_flatMap {α : Type} (line : α → List Char) {l : List α} (whole : ∀ a ∈ l, Line (line a)) :
    lines (l.flatMap fun a => line a ++ ['\n']) = l.map line := by
  have parts : (l.flatMap fun a => line a ++ ['\n']).splitOn '\n' = l.map line ++ [[]] := by
    induction l with
    | nil => rfl
    | cons a l ih =>
      have plain : ∀ c ∈ line a, (c == '\n') = false := by
        intro c member
        simpa using fun same : c = '\n' => (whole a (by simp)).1 (same ▸ member)
      have later := ih fun b member => whole b (by simp [member])
      rw [List.splitOn_eq_splitOnP] at later ⊢
      rw [List.flatMap_cons,List.append_assoc,List.singleton_append,
        List.splitOnP_append_cons_of_forall_mem plain _ rfl,later]
      rfl
  have kept : (l.map line).map (fun line => if line.getLast? = some '\r' then line.dropLast else line) = l.map line := by
    rw [List.map_map]
    apply List.map_congr_left
    intro a member
    exact if_neg (whole a member).2
  unfold lines
  rw [parts]
  simp only [List.dropLast_concat,kept]
  simp

end Noissh.Text

import Noissh.KnownHosts
import Noissh.Machine

/-! Pins are kept: what is written is read back, and a label once pinned answers with its key in
every later state. -/
namespace Noissh

open Text

variable {engine : Engine}

theorem alphanum_plain {c : Char} (plain : c.isAlphanum = true) : isWhitespace c = false := by
  have number : c.toNat = c.val.toNat := rfl
  have ranges : c.isAlphanum = (decide (c.val ≥ 'A'.val ∧ c.val ≤ 'Z'.val) || (c.val ≥ 'a'.val && c.val ≤ 'z'.val) ||
      (c.val ≥ '0'.val && c.val ≤ '9'.val)) := rfl
  simp only [ranges,Bool.or_eq_true,Bool.and_eq_true,decide_eq_true_eq,UInt32.le_iff_toNat_le,ge_iff_le,← number] at plain
  simp only [isWhitespace,Bool.or_eq_false_iff,Bool.and_eq_false_iff,decide_eq_false_iff_not,beq_eq_false_iff_ne]
  simp at plain
  omega

theorem Engine.Standard.word (standard : engine.Standard) (key : PublicKey) : Word (key.toBase64 engine) := by
  constructor
  · intro empty
    have length := standard.length key.bytes
    rw [key.length,show engine.encode key.bytes = [] from empty] at length
    cases length
  · intro c member
    rcases standard.letters key.bytes c member with plain | rfl | rfl | rfl
    · exact alphanum_plain plain
    all_goals rfl

theorem keyType_word : Word keyType := by decide

theorem fromBase64_toBase64 (standard : engine.Standard) (key : PublicKey) :
    PublicKey.fromBase64 engine (key.toBase64 engine) = .ok key := by
  rw [PublicKey.fromBase64,trim_word (standard.word key),PublicKey.toBase64,standard.inverts]
  simp only [PublicKey.fromBytes,dif_pos key.length]
  rfl

/-- The text of a key is two words. -/
theorem fromText_toText (standard : engine.Standard) (key : PublicKey) :
    PublicKey.fromText engine (trim (key.toText engine)) = .ok key := by
  have word := standard.word key
  have trimmed : trim (key.toText engine) = key.toText engine := by
    simpa [PublicKey.toText] using trim_words keyType_word word [' ']
  rw [trimmed,PublicKey.toText,PublicKey.fromText,splitWhitespace_cons keyType_word rfl,splitWhitespace_word word]
  simpa using fromBase64_toBase64 standard key

namespace KnownHosts

/-- A label that can stand at the start of a line: a word that does not begin a comment. -/
def Label (host : String) : Prop := Word host.toList ∧ host.toList.head? ≠ some '#'

instance (host : String) : Decidable (Label host) := inferInstanceAs (Decidable (_ ∧ _))

def Labels (k : KnownHosts) : Prop := ∀ host ∈ k.hosts, Label host

/-- The line of a pin begins and ends with a word. -/
theorem entryLine_eq (entry : String × PublicKey) :
    entryLine engine entry = entry.1.toList ++ (' ' :: keyType ++ [' ']) ++ entry.2.toBase64 engine := by
  simp [entryLine,PublicKey.toText]

theorem parseLine_entry (standard : engine.Standard) {entry : String × PublicKey} (label : Label entry.1) :
    parseLine engine (entryLine engine entry) = some entry := by
  have trimmed : trim (entryLine engine entry) = entryLine engine entry := by
    rw [entryLine_eq]
    exact trim_words label.1 (standard.word entry.2) _
  obtain ⟨c,rest,here⟩ := List.exists_cons_of_ne_nil label.1.1
  have first : entryLine engine entry = c :: (rest ++ ' ' :: entry.2.toText engine) := by simp [entryLine,here]
  have comment : c ≠ '#' := fun same => label.2 (by rw [here,same]; rfl)
  have read : ((entryLine engine entry).isEmpty || (entryLine engine entry).head? == some '#') = false := by
    rw [first]
    simpa using comment
  have parts : splitOnce isWhitespace (entryLine engine entry) = some (entry.1.toList,entry.2.toText engine) :=
    splitOnce_word label.1 rfl _
  unfold parseLine
  rw [trimmed]
  simp [read,parts,fromText_toText standard]

theorem entryLine_line (standard : engine.Standard) {entry : String × PublicKey} (label : Label entry.1) :
    Line (entryLine engine entry) := by
  have word := standard.word entry.2
  have unbroken : ∀ text : List Char, Word text → '\n' ∉ text := by
    intro text one member
    cases one.2 _ member
  rw [entryLine_eq]
  constructor
  · simp only [List.mem_append,List.mem_cons]
    have := unbroken _ label.1
    have := unbroken _ word
    have := unbroken _ keyType_word
    simp_all
  · rw [List.getLast?_append_of_ne_nil _ word.1]
    intro final
    cases word.last _ final

/-- What is written is read back. -/
theorem parse_toText (standard : engine.Standard) {k : KnownHosts} (labels : k.Labels) (host : String) :
    (parse engine (k.toText engine)).hosts[host]? = k.hosts[host]? := by
  have label : ∀ entry ∈ k.hosts.toList, Label entry.1 := by
    rintro ⟨host,key⟩ member
    apply labels
    rw [Std.TreeMap.mem_iff_isSome_getElem?,Std.TreeMap.mem_toList_iff_getElem?_eq_some.mp member]
    rfl
  have read : (lines (k.toText engine)).filterMap (parseLine engine) = k.hosts.toList := by
    rw [toText,lines_flatMap _ fun entry member => entryLine_line standard (label entry member),List.filterMap_map]
    apply (List.filterMap_congr fun entry member => parseLine_entry standard (label entry member)).trans
    exact List.filterMap_some
  have distinct : k.hosts.toList.Pairwise fun a b => a.1 ≠ b.1 :=
    Std.TreeMap.distinct_keys_toList.imp fun apart same => apart (by rw [same,Std.ReflOrd.compare_self])
  apply Option.ext
  intro key
  rw [parse,read,TreeMaps.foldl_insert_iff distinct,Std.TreeMap.mem_toList_iff_getElem?_eq_some]
  simp

theorem parseLine_label {engine : Engine} {line : List Char} {entry : String × PublicKey}
    (read : parseLine engine line = some entry) : Label entry.1 := by
  unfold parseLine at read
  dsimp only at read
  split at read
  · cases read
  · rename_i plain
    simp only [Bool.or_eq_true,not_or,Bool.not_eq_true,beq_eq_false_iff_ne] at plain
    obtain ⟨⟨host,rest⟩,parts,read⟩ := Option.bind_eq_some_iff.mp read
    obtain ⟨word,head⟩ := splitOnce_trimmed parts
    have label : entry.1 = .ofList host := by
      dsimp only at read
      split at read <;> cases read
      rfl
    unfold Label
    rw [label,String.toList_ofList,head]
    exact ⟨word,plain.2⟩

/-- The labels of a text that was read. -/
theorem parse_labels (engine : Engine) (text : List Char) : (parse engine text).Labels := by
  have added : ∀ (entries : List (String × PublicKey)) (hosts : Std.TreeMap String PublicKey) (host : String),
      host ∈ entries.foldl (fun hosts entry => hosts.insert entry.1 entry.2) hosts → host ∈ hosts ∨
        ∃ entry ∈ entries, entry.1 = host := by
    intro entries
    induction entries with
    | nil => exact fun _ _ member => .inl member
    | cons entry rest ih =>
      intro hosts host member
      rcases ih _ host member with before | ⟨later,member,same⟩
      · rcases Std.TreeMap.mem_insert.mp before with same | old
        · exact .inr ⟨entry,.head _,Std.LawfulEqOrd.eq_of_compare same⟩
        · exact .inl old
      · exact .inr ⟨later,.tail _ member,same⟩
  intro host member
  rcases added ((lines text).filterMap (parseLine engine)) {} host member with empty | ⟨entry,held,rfl⟩
  · simp at empty
  · obtain ⟨line,_,read⟩ := List.mem_filterMap.mp held
    exact parseLine_label read

inductive Call where
  | checkOrAdd (host : String) (key : PublicKey)
  | reload

/-- What a call leaves; a reload reads what was saved. -/
def call (engine : Engine) (k : KnownHosts) : Call → KnownHosts
  | .checkOrAdd host key => (k.checkOrAdd host key).2
  | .reload => parse engine (k.toText engine)

def Call.Labelled : Call → Prop
  | .checkOrAdd host _ => Label host
  | .reload => True

theorem checkOrAdd_pinned {k : KnownHosts} {host : String} {pinned : PublicKey} (held : k.hosts[host]? = some pinned)
    (key : PublicKey) : k.checkOrAdd host key = (if pinned = key then .matches else .mismatch,k) := by
  rw [checkOrAdd,held]

theorem call_kept (standard : engine.Standard) {k : KnownHosts} (labels : k.Labels) (c : Call) {host : String}
    {pinned : PublicKey} (held : k.hosts[host]? = some pinned) : (call engine k c).hosts[host]? = some pinned := by
  cases c with
  | reload => rw [call,parse_toText standard labels,held]
  | checkOrAdd other key =>
    cases here : k.hosts[other]? with
    | some _ => rwa [call,checkOrAdd_pinned here]
    | none =>
      have apart : host ≠ other := by
        rintro rfl
        rw [held] at here
        cases here
      rw [call,checkOrAdd,here]
      exact (TreeMaps.getElem?_insert_ne k.hosts key apart).trans held

theorem call_labels (standard : engine.Standard) {k : KnownHosts} (labels : k.Labels) {c : Call} (labelled : c.Labelled) :
    (call engine k c).Labels := by
  intro host member
  cases c with
  | reload =>
    apply labels
    rwa [call,Std.TreeMap.mem_iff_isSome_getElem?,parse_toText standard labels,← Std.TreeMap.mem_iff_isSome_getElem?] at member
  | checkOrAdd other key =>
    rw [call,checkOrAdd] at member
    split at member
    · rcases Std.TreeMap.mem_insert.mp member with same | old
      · exact Std.LawfulEqOrd.eq_of_compare same ▸ labelled
      · exact labels host old
    · exact labels host member

/-- A label pinned in one state is pinned in every later one. -/
theorem run_kept (standard : engine.Standard) {k : KnownHosts} (labels : k.Labels) {calls : List Call}
    (labelled : ∀ c ∈ calls, c.Labelled) : (Machine.run (call engine) calls k).Labels ∧
      ∀ (host : String) (pinned : PublicKey), k.hosts[host]? = some pinned →
        (Machine.run (call engine) calls k).hosts[host]? = some pinned := by
  induction calls generalizing k with
  | nil => exact ⟨labels,fun _ _ held => held⟩
  | cons c rest ih =>
    have next := ih (call_labels standard labels (labelled c (by simp))) fun c member => labelled c (by simp [member])
    exact ⟨next.1,fun host pinned held => next.2 host pinned (call_kept standard labels c held)⟩

/-- After any calls a reload gives the same pins, and a pinned label answers with its key after
any further calls. -/
theorem pins_persist (standard : engine.Standard) {start : KnownHosts} (labels : start.Labels) (calls : List Call)
    (labelled : ∀ c ∈ calls, c.Labelled) :
    let k := Machine.run (call engine) calls start
    (∀ host : String, (parse engine (k.toText engine)).hosts[host]? = k.hosts[host]?) ∧
    ∀ (host : String) (pinned : PublicKey), k.hosts[host]? = some pinned → ∀ later : List Call,
      (∀ c ∈ later, c.Labelled) → ∀ key,
      let k' := Machine.run (call engine) later k
      k'.checkOrAdd host key = (if pinned = key then .matches else .mismatch,k') := by
  intro k
  have kept := (run_kept standard labels labelled).1
  refine ⟨parse_toText standard kept,fun host pinned held later labelled' key => ?_⟩
  exact checkOrAdd_pinned ((run_kept standard kept labelled').2 host pinned held) key

/-- The engine of the standard alphabet. -/
def standardEngine : Engine := ⟨Base64.encode,Base64.decode⟩

theorem digit_letter {n : Nat} (small : n < 64) : let c := Base64.digit n; c.isAlphanum ∨ c = '+' ∨ c = '/' ∨ c = '=' := by
  have all : ∀ n < 64, let c := Base64.digit n; c.isAlphanum ∨ c = '+' ∨ c = '/' ∨ c = '=' := by decide
  exact all n small

theorem standardEngine_standard : standardEngine.Standard where
  inverts := Base64.decode_encode
  letters bytes c member := by
    rcases Base64.encode_letter member with ⟨n,small,rfl⟩ | rfl
    · exact digit_letter small
    · decide
  length := Base64.encode_length

theorem pins_persist_reloaded :
    let k := Machine.run (call standardEngine) [.checkOrAdd "a.example:22" (sameBytes 1)] {}
    let k' := Machine.run (call standardEngine) [.reload] k
    k'.checkOrAdd "a.example:22" (sameBytes 2) = (.mismatch,k') := by
  have label : Label "a.example:22" := by decide
  have kept := @pins_persist _ standardEngine_standard {} (by simp [Labels])
    [.checkOrAdd "a.example:22" (sameBytes 1)] (by simpa [Call.Labelled] using label)
  exact kept.2 "a.example:22" (sameBytes 1) (by decide) [.reload] (by simp [Call.Labelled]) (sameBytes 2)

end KnownHosts
end Noissh

import Noissh.KnownHosts
import Noissh.TreeMaps

/-! Forgetting a host. The client labels a pin with the host and the port, and a host that has a
colon in it looks like a port of another host. -/
namespace Noissh.KnownHosts

/-- The label the client pins a key under (`src/bin/noissh.rs`). -/
def label (host : String) (port : UInt16) : String := host ++ ":" ++ toString port.toNat

/-- The labels of a host, with any port or without one. -/
def Of (host text : String) : Prop := text = host ∨ ∃ port, text = label host port

/-- The labels of the host are removed and returned, and no other pin is touched. -/
structure Forgets (k : KnownHosts) (host : String) : Prop where
  returned : ∀ text, text ∈ (k.removeMatching host).1 ↔ text ∈ k.hosts ∧ Of host text
  removed : ∀ text, Of host text → (k.removeMatching host).2.hosts[text]? = none
  others : ∀ text, ¬Of host text → (k.removeMatching host).2.hosts[text]? = k.hosts[text]?

variable {k : KnownHosts} {host other : String} {port : UInt16}

theorem mem_removeMatching {text : String} : text ∈ (k.removeMatching host).1 ↔
    text ∈ k.hosts ∧ (text = host ∨ (host ++ ":").toList <+: text.toList) := by
  simp [removeMatching,List.mem_filter,Std.TreeMap.mem_keys]

theorem getElem?_removeMatching (text : String) :
    (k.removeMatching host).2.hosts[text]? = if text ∈ (k.removeMatching host).1 then none else k.hosts[text]? :=
  TreeMaps.getElem?_foldl_erase _ _ _

theorem colon_not_mem_digits (n : Nat) : ':' ∉ Nat.toDigits 10 n := by
  intro member
  cases Nat.isDigit_of_mem_toDigits (by decide) (by decide) member

/-- What begins a text with one last colon and ends in a colon itself ends before that colon or in it. -/
theorem begins_iff {h o d : List Char} (free : ':' ∉ d) : h ++ [':'] <+: o ++ ':' :: d ↔ h = o ∨ h ++ [':'] <+: o := by
  constructor
  · rintro ⟨rest,same⟩
    rcases List.append_eq_append_iff.mp same with ⟨more,rfl,_⟩ | ⟨more,here,there⟩
    · exact .inr (List.prefix_append _ _)
    · rcases List.eq_nil_or_concat more with rfl | ⟨init,y,rfl⟩
      · exact .inr (by simp [here])
      · have last : h = o ++ init ∧ [':'] = [y] := List.append_inj' (by simpa using here) rfl
        obtain ⟨rfl,rfl⟩ := last.imp id fun same => (List.singleton_inj.mp same).symm
        cases init with
        | nil => exact .inl (by simp)
        | cons x init =>
          rw [List.concat_eq_append,List.cons_append,List.cons_append,List.cons.injEq] at there
          exact absurd (by simp [there.2]) free
  · rintro (rfl | inside)
    · exact ⟨d,by simp⟩
    · exact inside.trans (List.prefix_append _ _)

theorem toList_label : (label host port).toList = host.toList ++ ':' :: (Nat.toDigits 10 port.toNat) := by simp [label]

/-- What begins a label and ends in a colon is its host, or begins it. -/
theorem begins_label : (host ++ ":").toList <+: (label other port).toList ↔
    host = other ∨ (host ++ ":").toList <+: other.toList := by
  have begins := @begins_iff host.toList other.toList _ (colon_not_mem_digits port.toNat)
  rw [toList_label]
  simpa [String.toList_inj] using begins

/-- A pinned label is removed exactly when it is one of the host or its host begins with it. -/
theorem mem_removeMatching_label : label other port ∈ (k.removeMatching host).1 ↔
    label other port ∈ k.hosts ∧ (label other port = host ∨ host = other ∨ (host ++ ":").toList <+: other.toList) := by
  rw [mem_removeMatching,begins_label]

theorem begins_longer (begins : (host ++ ":").toList <+: other.toList) : host.toList.length < other.toList.length := by
  have length := begins.length_le
  rw [String.toList_append,List.length_append] at length
  exact Nat.lt_of_succ_le length

theorem not_of_begins (begins : (host ++ ":").toList <+: other.toList) : ¬Of host (label other port) := by
  have shorter := begins_longer begins
  rintro (same | ⟨port',same⟩)
  · rw [← same,toList_label,List.length_append] at shorter
    omega
  · have here : (other ++ ":").toList <+: (label host port').toList := same ▸ begins_label.mpr (.inl rfl)
    rcases begins_label.mp here with rfl | back
    · exact Nat.lt_irrefl _ shorter
    · exact Nat.lt_asymm shorter (begins_longer back)

/-- A host is forgotten exactly when no pinned host begins with its name and a colon. -/
theorem forget_exact_iff (built : ∀ text ∈ k.hosts, ∃ other port, text = label other port) (host : String) :
    k.Forgets host ↔ ∀ other port, label other port ∈ k.hosts → ¬(host ++ ":").toList <+: other.toList := by
  constructor
  · intro forgets other port pinned begins
    have gone := mem_removeMatching_label.mpr ⟨pinned,.inr (.inr begins)⟩
    exact not_of_begins begins ((forgets.returned _).mp gone).2
  · intro apart
    have returned : ∀ text, text ∈ (k.removeMatching host).1 ↔ text ∈ k.hosts ∧ Of host text := by
      intro text
      rw [mem_removeMatching]
      apply and_congr_right
      intro pinned
      obtain ⟨other,port,rfl⟩ := built text pinned
      constructor
      · rintro (same | begins)
        · exact .inl same
        · rcases begins_label.mp begins with rfl | begins
          · exact .inr ⟨port,rfl⟩
          · exact absurd begins (apart other port pinned)
      · rintro (same | ⟨port',same⟩)
        · exact .inl same
        · exact .inr (same ▸ begins_label.mpr (.inl rfl))
    refine ⟨returned,fun text of => ?_,fun text foreign => ?_⟩
    · rw [getElem?_removeMatching]
      split
      · rfl
      · rename_i kept
        exact Std.TreeMap.getElem?_eq_none fun pinned => kept ((returned text).mpr ⟨pinned,of⟩)
    · rw [getElem?_removeMatching,if_neg fun gone => foreign ((returned text).mp gone).2]

def onePin (text : String) : KnownHosts where
  hosts := Std.TreeMap.empty.insert text (sameBytes 1)

theorem mem_onePin {text text' : String} : text' ∈ (onePin text).hosts ↔ text' = text := by
  simp only [onePin,Std.TreeMap.mem_insert,Std.LawfulEqOrd.compare_eq_iff_eq]
  simp [eq_comm]

/-- Two ports of one host, and another whose name is longer. -/
def threePins : KnownHosts where
  hosts := ((Std.TreeMap.empty.insert (label "a.example" 2222) (sameBytes 1)).insert (label "a.example" 22) (sameBytes 2)).insert
    (label "a.example.org" 22) (sameBytes 3)

theorem mem_threePins {text : String} :
    text ∈ threePins.hosts ↔ text = label "a.example.org" 22 ∨ text = label "a.example" 22 ∨ text = label "a.example" 2222 := by
  simp only [threePins,Std.TreeMap.mem_insert,Std.LawfulEqOrd.compare_eq_iff_eq]
  simp [eq_comm]

theorem forget_exact_one :
    threePins.Forgets "a.example" ∧ label "a.example.org" 22 ∈ (threePins.removeMatching "a.example").2.hosts := by
  have built : ∀ text ∈ threePins.hosts, ∃ other port, text = label other port := by
    intro text pinned
    rcases mem_threePins.mp pinned with rfl | rfl | rfl
    · exact ⟨_,_,rfl⟩
    · exact ⟨_,_,rfl⟩
    · exact ⟨_,_,rfl⟩
  refine ⟨(forget_exact_iff built "a.example").mpr fun other port pinned begins => ?_,by decide +kernel⟩
  have begun : ("a.example" ++ ":").toList <+: (label other port).toList := begins_label.mpr (.inr begins)
  rcases mem_threePins.mp pinned with same | same | same
  · rw [same] at begun
    exact absurd begun (by decide +kernel)
  · exact not_of_begins begins (.inr ⟨22,same⟩)
  · exact not_of_begins begins (.inr ⟨2222,same⟩)

/-- An address goes with the host whose name it begins with. -/
theorem forgets_other_host : ¬(onePin (label "fe80::1" 51820)).Forgets "fe80" := by
  intro forgets
  have begins : ("fe80" ++ ":").toList <+: "fe80::1".toList := by decide
  have gone : label "fe80::1" 51820 ∈ ((onePin (label "fe80::1" 51820)).removeMatching "fe80").1 :=
    mem_removeMatching_label.mpr ⟨mem_onePin.mpr rfl,.inr (.inr begins)⟩
  exact not_of_begins begins ((forgets.returned _).mp gone).2

end Noissh.KnownHosts

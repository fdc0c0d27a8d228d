import Noissh.PinStoreSafety

/-! Pins are kept across the processes of a client, while none saves over what another has saved since it
loaded the file. -/
namespace Noissh.PinStore

open Files

variable {snow : Snow} {engine : Engine} {path : String} {file : Option Bytes} {s : PinStore} {known : KnownHosts}
  {initiates : snow.Handshake → Bool} {turn : snow.Handshake → Nat}

def Phase.store : Phase → Option KnownHosts
  | .loaded known | .saving known | .writing known _ _ | .synced known => some known
  | .idle | .found | .reading _ _ | .unanswered => none

/-- A process keeps what it has read, but for the labels it was told to forget. -/
def Faithful (engine : Engine) (s : PinStore) :
    Prop := ∀ pid known, (s.phase pid).store = some known → ∀ (label : String) (key : PublicKey),
  (readPins engine (s.seen pid)).hosts[label]? = some key → label ∈ s.forgot pid ∨ known.hosts[label]? = some key

/-- One process goes on with a store. -/
theorem Faithful.moves (faithful : s.Faithful engine) (pid : Nat) (s' : PinStore) (same : ∀ other, other ≠ pid →
    s'.phase other = s.phase other ∧ s'.seen other = s.seen other ∧ s'.forgot other = s.forgot other)
    (own : ∀ known, (s'.phase pid).store = some known → ∀ (label : String) (key : PublicKey),
      (readPins engine (s'.seen pid)).hosts[label]? = some key → label ∈ s'.forgot pid ∨
        known.hosts[label]? = some key) : s'.Faithful engine := by
  intro other known
  by_cases mine : other = pid
  · rw [mine]
    exact own known
  · obtain ⟨phase,seen,forgot⟩ := same other mine
    rw [phase,seen,forgot]
    exact faithful other known

/-- A process that goes on with the store that it had, or with none. -/
theorem Faithful.turns (faithful : s.Faithful engine) {pid : Nat} {phase : Phase}
    (kept : ∀ known, phase.store = some known → (s.phase pid).store = some known) (disk : Disk String)
      (met : List (String × Bytes))
    (saved : List KnownHosts) : Faithful engine { s.turn pid phase with disk, met, saved } := by
  apply faithful.moves pid
  · exact fun other apart => ⟨Function.update_of_ne apart ..,rfl,rfl⟩
  · intro known here
    rw [show (PinStore.turn _ _ _).phase pid = phase from Function.update_self ..] at here
    exact faithful pid known (kept known here)

/-- A process that goes on with no store. -/
theorem Faithful.leaves (faithful : s.Faithful engine) {pid : Nat} {phase : Phase}
    (none : phase.store = none) (disk : Disk String)
    (met : List (String × Bytes)) (saved : List KnownHosts) : Faithful engine { s.turn pid phase with disk, met, saved } := by
  apply faithful.turns
  intro known some_
  rw [none] at some_
  cases some_

theorem Faithful.dials (xx : snow.XX initiates turn) (faithful : s.Faithful engine) (pid : Nat) {otherwise : Phase}
    (other : otherwise.store = none) {dial : Dial} (calls : List ClientCore.Call)
    (kept : known.hosts[dial.hostLabel]? = none → (s.phase pid).store = some known) :
    (s.dials snow pid known otherwise dial calls).Faithful engine := by
  rcases dials_cases xx s pid known otherwise dial calls with ⟨phase,either,same⟩ | ⟨pin,absent,same⟩
  · rw [same]
    apply faithful.leaves
    rcases either with rfl | rfl
    · rfl
    · exact other
  · rw [same]
    apply faithful.moves pid
    · exact fun other apart => ⟨Function.update_of_ne apart ..,rfl,rfl⟩
    · intro store here label key pinned
      rw [show (PinStore.turn _ _ _).phase pid = _ from Function.update_self ..] at here
      obtain rfl := Option.some.inj here
      refine (faithful pid known (kept absent) label key pinned).imp_right fun old => ?_
      have differ : label ≠ dial.hostLabel := fun same => by
        rw [same,absent] at old
        cases old
      exact (TreeMaps.getElem?_insert_ne _ _ differ).trans old

theorem Faithful.boots (xx : snow.XX initiates turn) (faithful : s.Faithful engine) (pid : Nat) (dial : Dial) (serverKey : Bytes)
    (calls : List ClientCore.Call) : (s.boots snow pid dial serverKey calls).Faithful engine := by
  unfold PinStore.boots
  split
  · apply faithful.dials xx pid rfl
    intro absent
    rw [booted_pinned] at absent
    cases absent
  · exact faithful.leaves rfl _ _ _

theorem Faithful.step (xx : snow.XX initiates turn) (faithful : s.Faithful engine) (a : Action) :
    (step snow engine path s a).Faithful engine := by
  cases a with
  | «exists» pid =>
    unfold PinStore.step
    dsimp only
    split
    · split
      · exact faithful.leaves rfl _ _ _
      · apply faithful.moves pid
        · exact fun other apart => ⟨Function.update_of_ne apart ..,Function.update_of_ne apart ..,Function.update_of_ne apart ..⟩
        · intro known _ label key pinned
          dsimp only at pinned
          rw [Function.update_self] at pinned
          simp [readPins,loadKnownHosts] at pinned
    · exact faithful
  | openFile pid =>
    unfold PinStore.step
    dsimp only
    split
    · split <;> exact faithful.leaves rfl _ _ _
    · exact faithful
  | read pid n =>
    unfold PinStore.step
    dsimp only
    split
    · split
      · split
        · rename_i store loads
          apply faithful.moves pid
          · exact fun other apart => ⟨Function.update_of_ne apart ..,Function.update_of_ne apart ..,
              Function.update_of_ne apart ..⟩
          · intro known here label key pinned
            rw [show (PinStore.turn _ _ _).phase pid = _ from Function.update_self ..] at here
            obtain rfl := Option.some.inj here
            dsimp only at pinned
            rw [Function.update_self,readPins,loads] at pinned
            exact .inr pinned
        · exact faithful.leaves rfl _ _ _
      · exact faithful.leaves rfl _ _ _
    · exact faithful
  | connect pid dial calls =>
    unfold PinStore.step
    dsimp only
    split
    · rename_i known here
      exact faithful.dials xx pid rfl calls fun _ => by rw [here]; rfl
    · exact faithful
  | bootstrap pid dial serverKey calls =>
    unfold PinStore.step
    dsimp only
    split
    · exact faithful.boots xx pid dial serverKey calls
    · exact faithful.boots xx pid dial serverKey calls
    · exact faithful
  | forget pid host =>
    unfold PinStore.step
    dsimp only
    split
    · rename_i known here
      split
      · exact faithful.leaves rfl _ _ _
      · apply faithful.moves pid
        · exact fun other apart => ⟨Function.update_of_ne apart ..,rfl,Function.update_of_ne apart ..⟩
        · intro left saving label key pinned
          rw [show (PinStore.turn _ _ _).phase pid = _ from Function.update_self ..] at saving
          obtain rfl := Option.some.inj saving
          dsimp only
          rw [Function.update_self,KnownHosts.getElem?_removeMatching]
          rcases faithful pid known (by rw [here]; rfl) label key pinned with gone | old
          · exact .inl (List.mem_append_left _ gone)
          · by_cases gone : label ∈ (known.removeMatching host).1
            · exact .inl (List.mem_append_right _ gone)
            · rw [if_neg gone]
              exact .inr old
    · exact faithful
  | create pid =>
    unfold PinStore.step
    dsimp only
    split
    · rename_i known here
      exact faithful.turns (fun store same => by rw [here]; exact same) _ _ _
    · exact faithful
  | write pid n =>
    unfold PinStore.step
    dsimp only
    split
    · rename_i known h rest here
      exact faithful.turns (fun store same => by rw [here]; exact same) _ _ _
    · exact faithful
  | sync pid =>
    unfold PinStore.step
    dsimp only
    split
    · rename_i known h here
      exact faithful.turns (fun store same => by rw [here]; exact same) _ _ _
    · exact faithful
  | rename pid =>
    unfold PinStore.step
    dsimp only
    split
    · split <;> exact faithful.leaves rfl _ _ _
    · exact faithful
  | exit pid => exact faithful.leaves rfl _ _ _
  | powerLoss n lost => exact fun _ _ none => by cases none

/-- A process renames its store into place only while the file reads as when it was loaded, and has
not been told to forget the label; the power does not fail. -/
def inTurn (path label : String) (s : PinStore) : Action → Bool
  | .rename pid => decide (s.disk.fs.read path = s.seen pid) && !(s.forgot pid).contains label
  | .powerLoss _ _ => false
  | _ => true

end Noissh.PinStore

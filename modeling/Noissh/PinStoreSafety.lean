import Noissh.ForgetHost
import Noissh.HostPins
import Noissh.Learned
import Noissh.PinStore
import Noissh.XferRequest
import Std.Data.String.ToNat

/-! The pins in the file are genuine, whatever the processes of a client do together. -/
namespace Noissh

open Files Text

theorem loadKnownHosts_labels {engine : Engine} {file : Option Bytes} {known : KnownHosts}
    (loads : loadKnownHosts engine file = some known) : known.Labels := by
  cases file with
  | none =>
    obtain rfl := Option.some.inj loads
    intro host member
    simp at member
  | some bytes =>
    obtain ⟨text,_,rfl⟩ := Option.map_eq_some_iff.mp loads
    exact KnownHosts.parse_labels _ _

theorem loadKnownHosts_savedText {engine : Engine} (standard : engine.Standard) {known : KnownHosts} (labels : known.Labels) :
    ∃ read, loadKnownHosts engine (some (savedText engine known)) = some read ∧
      ∀ label : String, read.hosts[label]? = known.hosts[label]? := by
  refine ⟨_,?_,KnownHosts.parse_toText standard labels⟩
  unfold loadKnownHosts savedText
  dsimp only
  rw [XferRequest.fromUtf8_utf8,Option.map_some,String.toList_ofList]

theorem siblingName_ne (path : String) (pid : Nat) : siblingName path pid ≠ path := by
  intro same
  have length := congrArg (fun text => text.toList.length) same
  simp [siblingName] at length

theorem siblingName_inj {path : String} {pid other : Nat}
    (same : siblingName path pid = siblingName path other) : pid = other := by
  unfold siblingName at same
  rw [String.append_right_inj] at same
  exact Nat.repr_injective same

namespace PinStore

variable {snow : Snow} {engine : Engine} {path : String} {file : Option Bytes} {s : PinStore}
    {met met' : List (String × Bytes)} {known : KnownHosts}

/-- The pins of a process that has read this. -/
def readPins (engine : Engine) (seen : Option Bytes) : KnownHosts := (loadKnownHosts engine seen).getD {}

/-- Each pin was in the file at first, or is of a server that was met. -/
structure Genuine (engine : Engine) (file : Option Bytes) (met : List (String × Bytes)) (known : KnownHosts) : Prop where
  labels : known.Labels
  pins : ∀ (label : String) (key : PublicKey), known.hosts[label]? = some key →
    (readPins engine file).hosts[label]? = some key ∨ (label,key.bytes) ∈ met

theorem Genuine.mono (genuine : Genuine engine file met known) (grown : ∀ x ∈ met, x ∈ met') : Genuine engine file met' known :=
  ⟨genuine.labels,fun label key pinned => (genuine.pins label key pinned).imp_right (grown _)⟩

/-- What the file may read: what it read at first, or a whole store that was saved. -/
def Good (engine : Engine) (file : Option Bytes) (saved : List KnownHosts) (read : Option Bytes) : Prop :=
  read = file ∨ ∃ known ∈ saved, read = some (savedText engine known)

/-- What holds of a process in a phase. -/
def Phase.Fits (engine : Engine) (path : String) (file : Option Bytes) (met : List (String × Bytes)) (disk : Disk String)
    (pid : Nat) : Phase → Prop
  | .idle | .found | .unanswered => True
  | .reading f got => (∃ dir ∈ disk.dirs, dir path = some f) ∧ got <+: disk.fs.contents f
  | .loaded known | .saving known => Genuine engine file met known
  | .writing known h rest => Genuine engine file met known ∧ disk.fs.entries (siblingName path pid) = some h.file ∧
    h.offset = (disk.fs.contents h.file).length ∧ disk.fs.contents h.file ++ rest = savedText engine known
  | .synced known => Genuine engine file met known ∧ ∃ f,
      disk.fs.entries (siblingName path pid) = some f ∧ disk.synced f = true ∧
        disk.fs.contents f = savedText engine known

/-- A process fits while the others move. -/
theorem Phase.Fits.mono {disk disk' : Disk String} {pid : Nat} {phase : Phase} (fits : phase.Fits engine path file met disk pid)
    (leaves : Disk.Leaves path disk disk') (keeps : Disk.Keeps (siblingName path pid) disk disk') (grown : ∀ x ∈ met, x ∈ met') :
    phase.Fits engine path file met' disk' pid := by
  cases phase with
  | idle | found | unanswered => trivial
  | reading f got =>
    obtain ⟨⟨dir,member,named⟩,read⟩ := fits
    refine ⟨⟨dir,leaves.dirs dir member,named⟩,?_⟩
    rw [leaves.contents dir member f named]
    exact read
  | loaded known => exact Genuine.mono fits grown
  | saving known => exact Genuine.mono fits grown
  | writing known h rest =>
    obtain ⟨genuine,named,offset,text⟩ := fits
    have same := (keeps.contents h.file named).1
    exact ⟨genuine.mono grown,keeps.entries.trans named,by rw [same]; exact offset,by rw [same]; exact text⟩
  | synced known =>
    obtain ⟨genuine,f,named,synced,text⟩ := fits
    obtain ⟨same,same'⟩ := keeps.contents f named
    exact ⟨genuine.mono grown,f,keeps.entries.trans named,same'.trans synced,same.trans text⟩

structure Sound (engine : Engine) (path : String) (file : Option Bytes) (s : PinStore) : Prop where
  replaced : s.disk.Replaced path (Good engine file s.saved)
  fits : ∀ pid, (s.phase pid).Fits engine path file s.met s.disk pid
  saved : ∀ known ∈ s.saved, Genuine engine file s.met known

/-- One process moves. -/
theorem Sound.moves (sound : s.Sound engine path file) (pid : Nat) (s' : PinStore)
    (replaced : s'.disk.Replaced path (Good engine file s'.saved)) (leaves : Disk.Leaves path s.disk s'.disk)
      (keeps : ∀ other, other ≠ pid → Disk.Keeps (siblingName path other) s.disk s'.disk)
    (grown : ∀ x ∈ s.met, x ∈ s'.met) (same : ∀ other, other ≠ pid → s'.phase other = s.phase other)
    (fits : (s'.phase pid).Fits engine path file s'.met s'.disk pid)
      (saved : ∀ known ∈ s'.saved, Genuine engine file s'.met known) :
    s'.Sound engine path file := by
  refine ⟨replaced,fun other => ?_,saved⟩
  by_cases own : other = pid
  · rw [own]
    exact fits
  · rw [same other own]
    exact (sound.fits other).mono leaves (keeps other own) grown

/-- One process moves, and leaves the disk alone. -/
theorem Sound.turns (sound : s.Sound engine path file) {pid : Nat} {phase : Phase}
    (fits : phase.Fits engine path file s.met s.disk pid) : (s.turn pid phase).Sound engine path file := by
  apply sound.moves pid (s.turn pid phase) sound.replaced (.refl path _) (fun _ _ => .refl _ _) (fun _ member => member)
  · exact fun other apart => Function.update_of_ne apart ..
  · rw [show (s.turn pid phase).phase pid = phase from Function.update_self ..]
    exact fits
  · exact sound.saved

/-- The records do not matter. -/
theorem Sound.noted (sound : s.Sound engine path file) (seen : Nat → Option Bytes) (forgot : Nat → List String) :
    Sound engine path file { s with seen, forgot } := ⟨sound.replaced,sound.fits,sound.saved⟩

/-- What is loaded of a good file is genuine. -/
theorem Sound.loads (standard : engine.Standard) (sound : s.Sound engine path file) {bytes : Bytes}
    (good : Good engine file s.saved (some bytes))
    (loads : loadKnownHosts engine (some bytes) = some known) : Genuine engine file s.met known := by
  have labels := loadKnownHosts_labels loads
  rcases good with rfl | ⟨store,member,same⟩
  · refine ⟨labels,fun label key pinned => .inl ?_⟩
    unfold readPins
    rw [loads]
    exact pinned
  · obtain rfl := Option.some.inj same
    have genuine := sound.saved store member
    obtain ⟨read,loads',hosts⟩ := loadKnownHosts_savedText standard genuine.labels
    obtain rfl := Option.some.inj (loads'.symm.trans loads)
    refine ⟨labels,fun label key pinned => ?_⟩
    rw [hosts] at pinned
    exact genuine.pins label key pinned

variable {initiates : snow.Handshake → Bool} {turn : snow.Handshake → Nat}

/-- A client that dials ends with what it has learned, and a session is with the server that is pinned. -/
theorem dialled_learned (xx : snow.XX initiates turn) {dial : Dial} {calls : List ClientCore.Call} {c : ClientCore snow}
    (made : dialled snow known dial calls = some c) : c.Learned known dial.hostLabel ∧
      (c.established = true → ∃ pin : PublicKey, c.known.hosts[dial.hostLabel]? = some pin ∧ c.serverKey = some pin.bytes) := by
  unfold dialled at made
  split at made
  · rename_i d first begun
    obtain rfl := Option.some.inj made
    have sound := ((ClientCore.Dialog.start_sound xx begun).after_run xx calls).1
    have fresh : d.Learned known dial.hostLabel ∧ d.hostLabel = dial.hostLabel := by
      unfold ClientCore.new at begun
      split at begun
      · cases begun
      · cases begun
        exact ⟨.nothing rfl rfl,rfl⟩
    obtain ⟨learned,host⟩ := fresh
    have run := @ClientCore.Dialog.run_learned _ known ⟨d,[]⟩ (by rw [host]; exact learned) calls
    rw [host] at run
    refine ⟨run.1,fun established => ?_⟩
    rw [← run.2]
    exact sound.trusts established
  · cases made

/-- Where dialling leads a process: on without a change, or to save the pin of the server that it has met. -/
theorem dials_cases (xx : snow.XX initiates turn) (s : PinStore) (pid : Nat) (known : KnownHosts)
    (otherwise : Phase) (dial : Dial) (calls : List ClientCore.Call) :
    (∃ phase, (phase = .idle ∨ phase = otherwise) ∧ s.dials snow pid known otherwise dial calls = s.turn pid phase) ∨
    ∃ pin : PublicKey, known.hosts[dial.hostLabel]? = none ∧ s.dials snow pid known otherwise dial calls =
      { s.turn pid (.saving { hosts := known.hosts.insert dial.hostLabel pin }) with
        met := s.met ++ [(dial.hostLabel,pin.bytes)] } := by
  unfold dials
  cases made : dialled snow known dial calls with
  | none => exact .inl ⟨.idle,.inl rfl,rfl⟩
  | some c =>
    obtain ⟨learned,trusts⟩ := dialled_learned xx made
    dsimp only
    cases established : c.established with
    | false => exact .inl ⟨otherwise,.inr rfl,by simp [connected,established,PinStore.turn]⟩
    | true =>
      cases dirty : c.knownHostsDirty with
      | false => exact .inl ⟨.idle,.inl rfl,by simp [connected,established,dirty,PinStore.turn]⟩
      | true =>
        cases learned with
        | nothing _ clean =>
          rw [dirty] at clean
          cases clean
        | pinned pin absent added =>
          refine .inr ⟨pin,absent,?_⟩
          obtain ⟨pin',pinned,key⟩ := trusts established
          rw [added,Std.TreeMap.getElem?_insert_self] at pinned
          obtain rfl := Option.some.inj pinned
          simp [connected,established,dirty,added,key]

/-- A store with one more label. -/
theorem Genuine.insert (genuine : Genuine engine file met known) {label : String}
    (word : KnownHosts.Label label) (pin : PublicKey) :
    Genuine engine file (met ++ [(label,pin.bytes)]) { hosts := known.hosts.insert label pin } := by
  constructor
  · intro host member
    rcases Std.TreeMap.mem_insert.mp member with same | old
    · exact Std.LawfulEqOrd.eq_of_compare same ▸ word
    · exact genuine.labels host old
  · intro host key pinned
    by_cases same : host = label
    · subst same
      rw [Std.TreeMap.getElem?_insert_self] at pinned
      obtain rfl := Option.some.inj pinned
      exact .inr (List.mem_append_right _ (List.mem_singleton_self _))
    · rw [TreeMaps.getElem?_insert_ne _ _ same] at pinned
      exact (genuine.pins host key pinned).imp_right (List.mem_append_left _)

theorem Genuine.removeMatching (genuine : Genuine engine file met known) (host : String) :
    Genuine engine file met (known.removeMatching host).2 := by
  have fewer : ∀ (label : String) (key : PublicKey), (known.removeMatching host).2.hosts[label]? = some key →
    known.hosts[label]? = some key := by
    intro label key pinned
    rw [KnownHosts.getElem?_removeMatching] at pinned
    split at pinned
    · cases pinned
    · exact pinned
  refine ⟨fun label member => ?_,fun label key pinned => genuine.pins label key (fewer label key pinned)⟩
  obtain ⟨key,pinned⟩ := Option.isSome_iff_exists.mp (Std.TreeMap.mem_iff_isSome_getElem?.mp member)
  apply genuine.labels
  rw [Std.TreeMap.mem_iff_isSome_getElem?,fewer label key pinned]
  rfl

theorem Sound.dials (xx : snow.XX initiates turn) (sound : s.Sound engine path file) (pid : Nat) {otherwise : Phase}
    (other : otherwise.Fits engine path file s.met s.disk pid) {dial : Dial} (calls : List ClientCore.Call)
    (genuine : known.hosts[dial.hostLabel]? = none → Genuine engine file s.met known ∧ KnownHosts.Label dial.hostLabel) :
    (s.dials snow pid known otherwise dial calls).Sound engine path file := by
  rcases dials_cases xx s pid known otherwise dial calls with ⟨phase,either,same⟩ | ⟨pin,absent,same⟩
  · rw [same]
    apply sound.turns
    rcases either with rfl | rfl
    · trivial
    · exact other
  · obtain ⟨before,word⟩ := genuine absent
    have grown : ∀ x ∈ s.met, x ∈ s.met ++ [(dial.hostLabel,pin.bytes)] := fun _ => List.mem_append_left _
    rw [same]
    apply sound.moves pid { s.turn pid (.saving _) with met := _ } sound.replaced (.refl path _) (fun _ _ => .refl _ _) grown
    · exact fun other apart => Function.update_of_ne apart ..
    · rw [show (PinStore.turn _ _ _).phase pid = _ from Function.update_self ..]
      exact before.insert word pin
    · exact fun known member => (sound.saved known member).mono grown

theorem siblings_apart {pid other : Nat} (differ : other ≠ pid) : siblingName path other ≠ siblingName path pid := fun same =>
  differ (siblingName_inj same)

section

variable {pid : Nat} {h : Handle} {rest : Bytes}

theorem Sound.unshared (sound : s.Sound engine path file) : s.disk.fs.Unshared := sound.replaced.unshared _ s.disk.entries_mem

/-- A process reads on, or has read it all. -/
theorem Sound.read (standard : engine.Standard) (sound : s.Sound engine path file) {f : Nat}
    {got : Bytes} (here : s.phase pid = .reading f got) (n : Nat) :
    (step snow engine path s (.read pid n)).Sound engine path file := by
  have fits := sound.fits pid
  rw [here] at fits
  obtain ⟨⟨dir,member,named⟩,rest,text⟩ := fits
  have chunk : (s.disk.fs.contents f).drop got.length = rest := by rw [← text,List.drop_left]
  simp only [PinStore.step,here,chunk]
  split
  · rename_i ended
    have empty : rest = [] := by
      cases rest with
      | nil => rfl
      | cons b more => simp at ended
    have whole : s.disk.fs.contents f = got := by rw [← text,empty,List.append_nil]
    split
    · rename_i store loads
      have good := sound.replaced.whole dir member
      rw [named,Option.map_some,whole] at good
      apply Sound.noted
      exact sound.turns (sound.loads standard good loads)
    · exact sound.turns trivial
  · apply sound.turns
    refine ⟨⟨dir,member,named⟩,rest.drop (n + 1),?_⟩
    rw [← text,List.append_assoc,List.take_append_drop]

theorem Sound.create (sound : s.Sound engine path file) (here : s.phase pid = .saving known) :
    (step snow engine path s (.create pid)).Sound engine path file := by
  have fits := sound.fits pid
  rw [here] at fits
  obtain ⟨replaced,leaves⟩ := sound.replaced.create (siblingName_ne path pid)
  obtain ⟨named,empty,offset,_⟩ := @FileSystem.create_spec _ s.disk.fs _ (siblingName path pid)
  have emptied : (s.disk.create (siblingName path pid)).2.fs.contents (s.disk.create (siblingName path pid)).1.file = [] := empty
  simp only [PinStore.step,here]
  apply sound.moves pid _ replaced leaves (fun other differ => Disk.create_keeps sound.unshared (siblings_apart differ))
  · exact fun _ member => member
  · exact fun other differ => Function.update_of_ne differ ..
  · rw [show (PinStore.turn _ _ _).phase pid = _ from Function.update_self ..]
    refine ⟨fits,named,?_,?_⟩
    · exact offset.trans (congrArg List.length emptied).symm
    · rw [show (s.disk.create (siblingName path pid)).2.fs.contents _ = [] from emptied]
      rfl
  · exact sound.saved

theorem Sound.write (sound : s.Sound engine path file) (here : s.phase pid = .writing known h rest) (n : Nat) :
    (step snow engine path s (.write pid n)).Sound engine path file := by
  have fits := sound.fits pid
  rw [here] at fits
  obtain ⟨genuine,named,offset,text⟩ := fits
  obtain ⟨replaced,leaves⟩ := sound.replaced.write (sound.replaced.outside (siblingName_ne path pid) named) (rest.take (n + 1))
  obtain ⟨same,entries,contents,offset'⟩ := FileSystem.write_end offset (rest.take (n + 1))
  have written : (s.disk.write h (rest.take (n + 1))).2.fs.contents (s.disk.write h (rest.take (n + 1))).1.file =
      s.disk.fs.contents h.file ++ rest.take (n + 1) := (congrArg _ same).trans contents
  simp only [PinStore.step,here]
  apply sound.moves pid _ replaced leaves
  · intro other differ
    apply Disk.write_keeps
    intro shared
    exact siblings_apart differ (sound.unshared _ _ _ shared named)
  · exact fun _ member => member
  · exact fun other differ => Function.update_of_ne differ ..
  · rw [show (PinStore.turn _ _ _).phase pid = _ from Function.update_self ..]
    refine ⟨genuine,?_,?_,?_⟩
    · exact (congrFun entries _).trans (named.trans (congrArg some same.symm))
    · exact offset'.trans (congrArg List.length written.symm)
    · rw [show (s.disk.write h (rest.take (n + 1))).2.fs.contents _ = _ from written,List.append_assoc,
        List.take_append_drop,text]
  · exact sound.saved

theorem Sound.sync (sound : s.Sound engine path file) (here : s.phase pid = .writing known h []) :
    (step snow engine path s (.sync pid)).Sound engine path file := by
  have fits := sound.fits pid
  rw [here] at fits
  obtain ⟨genuine,named,_,text⟩ := fits
  obtain ⟨replaced,leaves⟩ := sound.replaced.sync h.file
  simp only [PinStore.step,here]
  apply sound.moves pid _ replaced leaves
  · intro other differ
    apply Disk.sync_keeps
    intro shared
    exact siblings_apart differ (sound.unshared _ _ _ shared named)
  · exact fun _ member => member
  · exact fun other differ => Function.update_of_ne differ ..
  · rw [show (PinStore.turn _ _ _).phase pid = _ from Function.update_self ..]
    rw [List.append_nil] at text
    exact ⟨genuine,h.file,named,Function.update_self ..,text⟩
  · exact sound.saved

/-- What a rename leaves in the file. -/
theorem Sound.rename_saves (sound : s.Sound engine path file) (here : s.phase pid = .synced known) {disk : Disk String}
    (moved : s.disk.rename (siblingName path pid) path = some disk) :
    Sound engine path file { s.turn pid .idle with disk, saved := s.saved ++ [known] } ∧
      disk.fs.read path = some (savedText engine known) := by
  have fits := sound.fits pid
  rw [here] at fits
  obtain ⟨genuine,f,named,synced,text⟩ := fits
  have fine : Good engine file (s.saved ++ [known]) (some (s.disk.fs.contents f)) :=
    .inr ⟨known,List.mem_append_right _ (List.mem_singleton_self _),by rw [text]⟩
  have wider : ∀ read, Good engine file s.saved read → Good engine file (s.saved ++ [known]) read := fun read good =>
    good.imp_right fun ⟨store,member,same⟩ => ⟨store,List.mem_append_left _ member,same⟩
  obtain ⟨⟨replaced,leaves⟩,read⟩ := (sound.replaced.mono wider).rename (siblingName_ne path pid) named synced fine moved
  refine ⟨?_,read.trans (congrArg some text)⟩
  apply sound.moves pid _ replaced leaves
  · intro other differ
    exact Disk.rename_keeps sound.unshared (siblingName_ne path pid).symm (siblings_apart differ)
      (siblingName_ne path other) moved
  · exact fun _ member => member
  · exact fun other differ => Function.update_of_ne differ ..
  · rw [show (PinStore.turn _ _ _).phase pid = _ from Function.update_self ..]
    trivial
  · intro store member
    rcases List.mem_append.mp member with old | new
    · exact sound.saved store old
    · rw [List.mem_singleton.mp new]
      exact genuine

/-- A store with one label that came over ssh: it has no place for another key. -/
theorem booted_pinned (label : String) (key : PublicKey) : (KnownHosts.checkOrAdd {} label key).2.hosts[label]? = some key := by
  simp [KnownHosts.checkOrAdd]

theorem Sound.boots (xx : snow.XX initiates turn) (sound : s.Sound engine path file) (dial : Dial) (serverKey : Bytes)
    (calls : List ClientCore.Call) : (s.boots snow pid dial serverKey calls).Sound engine path file := by
  unfold PinStore.boots
  split
  · apply sound.dials xx pid (show Phase.Fits engine path file s.met s.disk pid .idle from trivial)
    intro absent
    rw [booted_pinned] at absent
    cases absent
  · exact sound.turns trivial

end

/-- The label that a process dials by is a word. -/
def Action.labelled : Action → Bool
  | .connect _ dial _ => decide (KnownHosts.Label dial.hostLabel)
  | _ => true

theorem Sound.step (xx : snow.XX initiates turn) (standard : engine.Standard) (sound : s.Sound engine path file)
    {a : Action} (labelled : a.labelled = true) :
    (step snow engine path s a).Sound engine path file := by
  cases a with
  | «exists» pid =>
    unfold PinStore.step
    dsimp only
    split
    · split
      · exact sound.turns trivial
      · apply Sound.noted
        exact sound.turns ⟨fun label member => by simp at member,fun label key pinned => by simp at pinned⟩
    · exact sound
  | openFile pid =>
    unfold PinStore.step
    dsimp only
    split
    · split
      · rename_i f named
        exact sound.turns ⟨⟨_,s.disk.entries_mem,named⟩,List.nil_prefix⟩
      · exact sound.turns trivial
    · exact sound
  | read pid n =>
    cases here : s.phase pid with
    | reading f got => exact sound.read standard here n
    | _ =>
      simp only [PinStore.step,here]
      exact sound
  | connect pid dial calls =>
    have fits := sound.fits pid
    unfold PinStore.step
    dsimp only
    split
    · rename_i known here
      rw [here] at fits
      exact sound.dials xx pid (show Phase.Fits engine path file s.met s.disk pid .unanswered from trivial)
        calls fun _ => ⟨fits,of_decide_eq_true labelled⟩
    · exact sound
  | bootstrap pid dial serverKey calls =>
    unfold PinStore.step
    dsimp only
    split
    · exact sound.boots xx dial serverKey calls
    · exact sound.boots xx dial serverKey calls
    · exact sound
  | forget pid host =>
    have fits := sound.fits pid
    unfold PinStore.step
    dsimp only
    split
    · rename_i known here
      rw [here] at fits
      split
      · exact sound.turns trivial
      · apply Sound.noted
        exact sound.turns (Genuine.removeMatching fits host)
    · exact sound
  | create pid =>
    cases here : s.phase pid with
    | saving known => exact sound.create here
    | _ =>
      simp only [PinStore.step,here]
      exact sound
  | write pid n =>
    cases here : s.phase pid with
    | writing known h rest => exact sound.write here n
    | _ =>
      simp only [PinStore.step,here]
      exact sound
  | sync pid =>
    cases here : s.phase pid with
    | writing known h rest =>
      cases rest with
      | nil => exact sound.sync here
      | cons b rest =>
        simp only [PinStore.step,here]
        exact sound
    | _ =>
      simp only [PinStore.step,here]
      exact sound
  | rename pid =>
    unfold PinStore.step
    dsimp only
    split
    · rename_i known here
      split
      · exact (sound.rename_saves here (by assumption)).1
      · exact sound.turns trivial
    · exact sound
  | exit pid => exact sound.turns trivial
  | powerLoss n lost => exact ⟨sound.replaced.powerLoss n lost,fun _ => trivial,sound.saved⟩

theorem start_sound {fs : FileSystem String} (unshared : fs.Unshared) (path : String) :
    (start fs).Sound engine path (fs.read path) :=
  ⟨Disk.replaced_settled unshared (.inl rfl),fun _ => trivial,fun _ member => absurd member List.not_mem_nil⟩

theorem run_sound (xx : snow.XX initiates turn) (standard : engine.Standard) (sound : s.Sound engine path file)
    {schedule : List Action}
    (labelled : ∀ a ∈ schedule, a.labelled = true) : (run snow engine path schedule s).Sound engine path file := by
  induction schedule generalizing s with
  | nil => exact sound
  | cons a rest ih => exact ih (sound.step xx standard (labelled a (.head _))) fun b member => labelled b (.tail _ member)

/-- What is loaded of the file is genuine. -/
theorem Sound.pins (standard : engine.Standard) (sound : s.Sound engine path file)
    (loads : s.pins engine path = some known) (label : String) (key : PublicKey)
    (pinned : known.hosts[label]? = some key) : (readPins engine file).hosts[label]? = some key ∨ (label,key.bytes) ∈ s.met := by
  have good := sound.replaced.read
  unfold PinStore.pins at loads
  cases read : s.disk.fs.read path with
  | none =>
    rw [read] at loads
    obtain rfl := Option.some.inj loads
    simp at pinned
  | some bytes =>
    rw [read] at good loads
    exact (sound.loads standard good loads).pins label key pinned

/-- Whatever the processes do, one after another or at the same time, whichever are killed and when
the power fails: the file is whole, as it was at first or as one process saved it, and each pin in it was there at
first or is the key of a server that a client had a session with when it knew no key for that host. -/
theorem pins_genuine (xx : snow.XX initiates turn) (standard : engine.Standard) (path : String)
    (fs : FileSystem String) (unshared : fs.Unshared)
    (schedule : List Action) (labelled : ∀ a ∈ schedule, a.labelled = true) :
    let s := run snow engine path schedule (start fs)
    (s.disk.fs.read path = fs.read path ∨ ∃ known ∈ s.saved, s.disk.fs.read path = some (savedText engine known)) ∧
    ∀ known, s.pins engine path = some known → ∀ (label : String) (key : PublicKey), known.hosts[label]? = some key →
      (readPins engine (fs.read path)).hosts[label]? = some key ∨ (label,key.bytes) ∈ s.met := by
  intro s
  have sound : s.Sound engine path (fs.read path) := run_sound xx standard (start_sound unshared path) labelled
  exact ⟨sound.replaced.read,fun known loads => sound.pins standard loads⟩

def bare : FileSystem String := ⟨fun _ => none,fun _ => [],0,fun _ _ none => by cases none⟩

theorem bare_unshared : bare.Unshared := fun _ _ _ none => by cases none

def sampleDial (label : String) : Dial := ⟨List.replicate 32 1,ClientCore.sampleId,none,label,.v4 0 51820,24,80,.adaptive⟩

/-- A client meets a server and is killed while it saves the key. Another one meets it again. -/
def meeting : List Action :=
  [.exists 7,.connect 7 (sampleDial "host:51820") [.handlePacket ClientCore.secondMessage],.create 7,.write 7 20,.exit 7,
   .exists 8,.connect 8 (sampleDial "host:51820") [.handlePacket ClientCore.secondMessage],
   .create 8,.write 8 20,.write 8 200,.sync 8,.rename 8]

theorem pins_genuine_met :
    let s := run Clear.noise KnownHosts.standardEngine "known_hosts" (meeting ++ [.powerLoss 9 (fun _ => [0])]) (start bare)
    (s.pins KnownHosts.standardEngine "known_hosts").map (fun known => known.hosts["host:51820"]?) = some
      (some (KnownHosts.sameBytes 2)) ∧
      ∀ known, s.pins KnownHosts.standardEngine "known_hosts" = some known → ∀ (label : String)
        (key : PublicKey), known.hosts[label]? = some key →
        (readPins KnownHosts.standardEngine (bare.read "known_hosts")).hosts[label]? = some key ∨ (label,key.bytes) ∈ s.met :=
  ⟨by decide +kernel,(pins_genuine Clear.xx KnownHosts.standardEngine_standard "known_hosts" bare bare_unshared _ (by decide)).2⟩

end PinStore
end Noissh

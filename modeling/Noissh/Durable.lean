import Noissh.Files

/-! What a disk keeps when the power fails: the contents of each file that was synced, and the
directory in one of the states that it has had since the last failure. A name that is only ever
replaced by renaming synced files over it always leads to a whole one. -/
namespace Files

structure Disk (π : Type) where
  fs : FileSystem π
  /-- Nothing was written to the file since it was synced. -/
  synced : Nat → Bool
  /-- Earlier states of the directory, one of which may be the one on the disk. -/
  past : List (π → Option Nat)
  bounded : ∀ dir ∈ past, ∀ path file, dir path = some file → file < fs.next

namespace Disk

variable {π : Type} (d : Disk π)

/-- The directories that a power failure may lead back to. -/
def dirs : List (π → Option Nat) := d.past ++ [d.fs.entries]

theorem dirs_bounded : ∀ dir ∈ d.dirs, ∀ path file, dir path = some file → file < d.fs.next := by
  intro dir member path file named
  rcases List.mem_append.mp member with old | now
  · exact d.bounded dir old path file named
  · obtain rfl := List.mem_singleton.mp now
    exact d.fs.numbered path file named

theorem entries_mem : d.fs.entries ∈ d.dirs := List.mem_append_right _ (List.mem_singleton_self _)

/-- A disk that has been at rest. -/
def settled (fs : FileSystem π) : Disk π := ⟨fs,fun _ => true,[],fun _ member => absurd member (List.not_mem_nil)⟩

/-- The directory is changed, and no file loses its number. -/
def turn (fs : FileSystem π) (synced : Nat → Bool) (grown : d.fs.next ≤ fs.next) : Disk π where
  fs
  synced
  past := d.dirs
  bounded dir member path file named := Nat.lt_of_lt_of_le (d.dirs_bounded dir member path file named) grown

def write (h : Handle) (data : List UInt8) : Handle × Disk π :=
  ((d.fs.write h data).1,
    { fs := (d.fs.write h data).2
      synced := Function.update d.synced h.file false
      past := d.past
      bounded := fun dir member path file named => by
        have same : (d.fs.write h data).2.next = d.fs.next := by
          unfold FileSystem.write
          split <;> rfl
        rw [same]
        exact d.bounded dir member path file named })

def sync (file : Nat) : Disk π := { d with synced := Function.update d.synced file true }

/-- The power fails: the directory is the `n`-th of those there have been, and what was not
synced is lost. -/
def powerLoss (n : Nat) (lost : Nat → List UInt8) : Disk π where
  fs := {
    entries := d.dirs[n]?.getD d.fs.entries
    contents := fun file => if d.synced file then d.fs.contents file else lost file
    next := d.fs.next
    numbered := by
      apply d.dirs_bounded
      cases found : d.dirs[n]? with
      | none => exact d.entries_mem
      | some dir => exact List.mem_of_getElem? found }
  synced _ := true
  past := []
  bounded _ member := absurd member (List.not_mem_nil)

theorem powerLoss_entries (n : Nat) (lost : Nat → List UInt8) : (d.powerLoss n lost).fs.entries ∈ d.dirs := by
  show d.dirs[n]?.getD d.fs.entries ∈ d.dirs
  cases found : d.dirs[n]? with
  | none => exact d.entries_mem
  | some dir => exact List.mem_of_getElem? found

variable [DecidableEq π]

theorem create_next (fs : FileSystem π) (path : π) : fs.next ≤ (fs.create path).2.next := by
  unfold FileSystem.create
  split
  · exact Nat.le_refl _
  · exact Nat.le_succ _

def create (path : π) : Handle × Disk π :=
  ((d.fs.create path).1,
    d.turn (d.fs.create path).2 (Function.update d.synced (d.fs.create path).1.file false) (create_next d.fs path))

theorem rename_next {fs fs' : FileSystem π} {old new : π} (moved : fs.rename old new = some fs') : fs'.next = fs.next := by
  unfold FileSystem.rename at moved
  split at moved
  · cases moved
  · split at moved <;> cases moved <;> rfl

/-- None when the old name is gone. -/
def rename (old new : π) : Option (Disk π) :=
  match moved : d.fs.rename old new with
  | none => none
  | some fs => some (d.turn fs d.synced (Nat.le_of_eq (rename_next moved).symm))

/-- Wherever a power failure leads back to, what the name reads is good, and its file was synced
and has no other name. -/
structure Replaced (target : π) (good : Option (List UInt8) → Prop) : Prop where
  whole : ∀ dir ∈ d.dirs, good ((dir target).map d.fs.contents)
  settled : ∀ dir ∈ d.dirs, ∀ file, dir target = some file → d.synced file = true
  unshared : ∀ dir ∈ d.dirs, ∀ path other file, dir path = some file → dir other = some file → path = other
  apart : ∀ dir ∈ d.dirs, ∀ path file, dir target = some file → d.fs.entries path = some file → path = target

/-- The files that the name has led to stay as they are, and are remembered. -/
structure Leaves (target : π) (d d' : Disk π) : Prop where
  dirs : ∀ dir ∈ d.dirs, dir ∈ d'.dirs
  contents : ∀ dir ∈ d.dirs, ∀ file, dir target = some file → d'.fs.contents file = d.fs.contents file

/-- Another name keeps its file, and the file its contents. -/
structure Keeps (path : π) (d d' : Disk π) : Prop where
  entries : d'.fs.entries path = d.fs.entries path
  contents : ∀ file, d.fs.entries path = some file → d'.fs.contents file = d.fs.contents file ∧ d'.synced file = d.synced file

end Disk

namespace Disk

variable {π : Type} {d d' : Disk π} {target path other : π} {good better : Option (List UInt8) → Prop} {file : Nat}

theorem Leaves.refl (target : π) (d : Disk π) : Leaves target d d := ⟨fun _ member => member,fun _ _ _ _ => rfl⟩

theorem Keeps.refl (path : π) (d : Disk π) : Keeps path d d := ⟨rfl,fun _ _ => ⟨rfl,rfl⟩⟩

theorem Leaves.whole (leaves : Leaves target d d') {dir : π → Option Nat} (member : dir ∈ d.dirs) :
    (dir target).map d'.fs.contents = (dir target).map d.fs.contents := by
  cases named : dir target with
  | none => rfl
  | some file => exact congrArg some (leaves.contents dir member file named)

theorem Keeps.read (keeps : Keeps path d d') : d'.fs.read path = d.fs.read path := by
  unfold FileSystem.read
  rw [keeps.entries]
  cases named : d.fs.entries path with
  | none => rfl
  | some file => exact congrArg some (keeps.contents file named).1

theorem Replaced.mono (replaced : d.Replaced target good) (le : ∀ bytes, good bytes → better bytes) : d.Replaced target better :=
  ⟨fun dir member => le _ (replaced.whole dir member),replaced.settled,replaced.unshared,replaced.apart⟩

/-- What the name reads now is good. -/
theorem Replaced.read (replaced : d.Replaced target good) : good (d.fs.read target) := replaced.whole _ d.entries_mem

/-- A file under another name is not one that the name has led to. -/
theorem Replaced.outside (replaced : d.Replaced target good) (differ : path ≠ target) (named : d.fs.entries path = some file) :
    ∀ dir ∈ d.dirs, dir target ≠ some file := fun dir member there =>
  differ (replaced.apart dir member path file there named)

theorem replaced_settled {fs : FileSystem π} (unshared : fs.Unshared) (start : good (fs.read target)) :
    (Disk.settled fs).Replaced target good := by
  have only : ∀ dir ∈ (Disk.settled fs).dirs, dir = fs.entries := fun dir member => List.mem_singleton.mp member
  constructor
  · intro dir member
    rw [only dir member]
    exact start
  · exact fun _ _ _ _ => rfl
  · intro dir member
    rw [only dir member]
    exact unshared
  · intro dir member path file here there
    rw [only dir member] at here
    exact unshared path target file there here

theorem Replaced.powerLoss (replaced : d.Replaced target good) (n : Nat) (lost : Nat → List UInt8) :
    (d.powerLoss n lost).Replaced target good := by
  have back : ∀ dir ∈ (d.powerLoss n lost).dirs, dir ∈ d.dirs := fun dir member => by
    rw [List.mem_singleton.mp member]
    exact d.powerLoss_entries n lost
  constructor
  · intro dir member
    have whole := replaced.whole dir (back dir member)
    cases named : dir target with
    | none =>
      rw [named] at whole
      exact whole
    | some file =>
      rw [named] at whole
      have synced := replaced.settled dir (back dir member) file named
      show good (some (if d.synced file then d.fs.contents file else lost file))
      rw [if_pos synced]
      exact whole
  · exact fun _ _ _ _ => rfl
  · exact fun dir member => replaced.unshared dir (back dir member)
  · intro dir member path file here there
    rw [List.mem_singleton.mp member] at here
    exact replaced.unshared _ (d.powerLoss_entries n lost) path target file there here

theorem write_contents {h : Handle} {other : Nat} (differ : other ≠ h.file) (data : List UInt8) :
    (d.write h data).2.fs.contents other = d.fs.contents other := by
  show (d.fs.write h data).2.contents other = _
  unfold FileSystem.write
  split
  · rfl
  · exact FileSystem.store_other differ _

theorem write_dirs (h : Handle) (data : List UInt8) : (d.write h data).2.dirs = d.dirs := by
  show d.past ++ [(d.fs.write h data).2.entries] = _
  rw [FileSystem.write_entries]
  rfl

/-- A write to a file that the name has not led to. -/
theorem Replaced.write (replaced : d.Replaced target good) {h : Handle} (outside : ∀ dir ∈ d.dirs, dir target ≠ some h.file)
    (data : List UInt8) : (d.write h data).2.Replaced target good ∧ Leaves target d (d.write h data).2 := by
  have other : ∀ dir ∈ d.dirs, ∀ file, dir target = some file → file ≠ h.file := fun dir member file named same =>
    outside dir member (same ▸ named)
  have entries : (d.write h data).2.fs.entries = d.fs.entries := FileSystem.write_entries h data
  have leaves : Leaves target d (d.write h data).2 := ⟨fun dir member => by rwa [write_dirs],fun dir member file named =>
    write_contents (other dir member file named) data⟩
  refine ⟨⟨fun dir member => ?_,fun dir member file named => ?_,?_,?_⟩,leaves⟩
  · rw [write_dirs] at member
    rw [leaves.whole member]
    exact replaced.whole dir member
  · rw [write_dirs] at member
    exact (Function.update_of_ne (other dir member file named) ..).trans (replaced.settled dir member file named)
  · rw [write_dirs]
    exact replaced.unshared
  · rw [write_dirs,entries]
    exact replaced.apart

theorem write_keeps {h : Handle} (apart : d.fs.entries path ≠ some h.file) (data : List UInt8) :
    Keeps path d (d.write h data).2 := by
  refine ⟨congrFun (FileSystem.write_entries h data) path,fun file named => ?_⟩
  have differ : file ≠ h.file := fun same => apart (same ▸ named)
  exact ⟨write_contents differ data,Function.update_of_ne differ ..⟩

theorem Replaced.sync (replaced : d.Replaced target good) (file : Nat) :
    (d.sync file).Replaced target good ∧ Leaves target d (d.sync file) := by
  refine ⟨⟨replaced.whole,fun dir member other named => ?_,replaced.unshared,replaced.apart⟩,
    fun _ member => member,fun _ _ _ _ => rfl⟩
  by_cases same : other = file
  · subst same
    exact Function.update_self ..
  · exact (Function.update_of_ne same ..).trans (replaced.settled dir member other named)

theorem sync_keeps (apart : d.fs.entries path ≠ some file) : Keeps path d (d.sync file) := by
  refine ⟨rfl,fun other named => ⟨rfl,?_⟩⟩
  have differ : other ≠ file := fun same => apart (same ▸ named)
  exact Function.update_of_ne differ ..

/-- A change of the directory. -/
theorem Replaced.turn (replaced : d.Replaced target good) {fs : FileSystem π} {synced : Nat → Bool} (grown : d.fs.next ≤ fs.next)
    (kept : ∀ dir ∈ d.dirs, ∀ file, dir target = some file → synced file = d.synced file ∧ fs.contents file = d.fs.contents file)
    (fine : good (fs.read target)) (safe : ∀ file, fs.entries target = some file → synced file = true) (unshared : fs.Unshared)
    (apart : ∀ dir ∈ d.dirs, ∀ path file, dir target = some file → fs.entries path = some file → path = target) :
    (d.turn fs synced grown).Replaced target good ∧ Leaves target d (d.turn fs synced grown) := by
  have cases : ∀ dir ∈ (d.turn fs synced grown).dirs, dir ∈ d.dirs ∨ dir = fs.entries := fun dir member =>
    (List.mem_append.mp member).imp_right List.mem_singleton.mp
  have leaves : Leaves target d (d.turn fs synced grown) :=
    ⟨fun dir member => List.mem_append_left _ member,fun dir member file named => (kept dir member file named).2⟩
  refine ⟨⟨fun dir member => ?_,fun dir member file named => ?_,fun dir member => ?_,
    fun dir member path file there here => ?_⟩,leaves⟩
  · rcases cases dir member with old | rfl
    · rw [leaves.whole old]
      exact replaced.whole dir old
    · exact fine
  · rcases cases dir member with old | rfl
    · exact (kept dir old file named).1.trans (replaced.settled dir old file named)
    · exact safe file named
  · rcases cases dir member with old | rfl
    · exact replaced.unshared dir old
    · exact unshared
  · rcases cases dir member with old | rfl
    · exact apart dir old path file there here
    · exact unshared path target file here there

variable [DecidableEq π]

/-- The file that is made, or emptied, is none that other names lead to. -/
theorem create_other {fs : FileSystem π} {dir : π → Option Nat} (bounded : ∀ file, dir target = some file → file < fs.next)
    (apart : ∀ file, fs.entries path = some file → dir target ≠ some file) (named : dir target = some file) :
    file ≠ (fs.create path).1.file ∧ (fs.create path).2.contents file = fs.contents file := by
  unfold FileSystem.create
  cases found : fs.entries path with
  | some old =>
    have differ : file ≠ old := fun same => apart old found (same ▸ named)
    exact ⟨differ,FileSystem.store_other differ _⟩
  | none =>
    have older := Nat.ne_of_lt (bounded file named)
    exact ⟨older,Function.update_of_ne older ..⟩

theorem create_keeps (unshared : d.fs.Unshared) (differ : other ≠ path) : Keeps other d (d.create path).2 := by
  obtain ⟨_,_,_,others⟩ := @FileSystem.create_spec π d.fs _ path
  refine ⟨others other differ,fun file named => ?_⟩
  obtain ⟨apart,same⟩ := create_other (d.fs.numbered other)
    (fun file here there => differ (unshared other path file there here)) named
  exact ⟨same,Function.update_of_ne apart ..⟩

/-- A file made, or emptied, under another name. -/
theorem Replaced.create (replaced : d.Replaced target good) (differ : path ≠ target) :
    (d.create path).2.Replaced target good ∧ Leaves target d (d.create path).2 := by
  obtain ⟨named,_,_,others⟩ := @FileSystem.create_spec π d.fs _ path
  have made : ∀ dir ∈ d.dirs, ∀ file, dir target = some file → file ≠ (d.fs.create path).1.file ∧
      (d.fs.create path).2.contents file = d.fs.contents file := fun dir member file there =>
    create_other (d.dirs_bounded dir member target) (fun file found => replaced.outside differ found dir member) there
  have keeps := create_keeps (replaced.unshared _ d.entries_mem) differ.symm
  have current : (d.fs.create path).2.entries target = d.fs.entries target := keeps.entries
  apply replaced.turn (create_next d.fs path)
  · intro dir member file there
    exact ⟨Function.update_of_ne (made dir member file there).1 ..,(made dir member file there).2⟩
  · have same : (d.fs.create path).2.read target = d.fs.read target := by
      unfold FileSystem.read
      rw [current]
      cases there : d.fs.entries target with
      | none => rfl
      | some file => exact congrArg some (made _ d.entries_mem file there).2
    rw [same]
    exact replaced.read
  · intro file there
    rw [current] at there
    exact (keeps.contents file there).2.trans (replaced.settled _ d.entries_mem file there)
  · exact FileSystem.create_unshared (replaced.unshared _ d.entries_mem) path
  · intro dir member name file there here
    by_cases own : name = path
    · subst own
      exact absurd (Option.some.inj (here.symm.trans named)) (made dir member file there).1
    · exact replaced.apart dir member name file there ((others name own).symm.trans here)

/-- What a rename does to the directory. -/
theorem rename_entries {fs fs' : FileSystem π} {old new : π} (moved : fs.rename old new = some fs')
    (apart : fs.Unshared) (differ : new ≠ old) :
    ∃ file, fs.entries old = some file ∧ fs'.contents = fs.contents ∧ fs'.entries new = some file ∧ fs'.entries old = none ∧
      ∀ path, path ≠ old → path ≠ new → fs'.entries path = fs.entries path := by
  unfold FileSystem.rename at moved
  split at moved
  · cases moved
  · rename_i file found
    split at moved
    · rename_i shared
      exact absurd (apart new old file shared found) differ
    · cases moved
      refine ⟨file,found,rfl,?_,Function.update_self ..,fun path here there => ?_⟩
      · exact (Function.update_of_ne differ ..).trans (Function.update_self ..)
      · exact (Function.update_of_ne here ..).trans (Function.update_of_ne there ..)

theorem rename_some {old new : π} (moved : d.rename old new = some d') :
    ∃ fs, ∃ moved : d.fs.rename old new = some fs, d' = d.turn fs d.synced (Nat.le_of_eq (rename_next moved).symm) := by
  unfold rename at moved
  split at moved
  · cases moved
  · rename_i fs found
    exact ⟨fs,found,(Option.some.inj moved).symm⟩

theorem rename_keeps (unshared : d.fs.Unshared) {old new : π} (apart : new ≠ old) (differ : other ≠ old) (differ' : other ≠ new)
    (moved : d.rename old new = some d') : Keeps other d d' := by
  obtain ⟨fs,moves,rfl⟩ := rename_some moved
  obtain ⟨_,_,contents,_,_,others⟩ := rename_entries moves unshared apart
  exact ⟨others other differ differ',fun file _ => ⟨congrFun contents file,rfl⟩⟩

/-- A good synced file is renamed over. -/
theorem Replaced.rename (replaced : d.Replaced target good) (differ : path ≠ target) (named : d.fs.entries path = some file)
    (synced : d.synced file = true) (fine : good (some (d.fs.contents file))) (moved : d.rename path target = some d') :
    (d'.Replaced target good ∧ Leaves target d d') ∧ d'.fs.read target = some (d.fs.contents file) := by
  have unshared := replaced.unshared _ d.entries_mem
  obtain ⟨fs,moves,rfl⟩ := rename_some moved
  obtain ⟨file',found,contents,leads,gone,others⟩ := rename_entries moves unshared differ.symm
  obtain rfl : file' = file := Option.some.inj (found.symm.trans named)
  have read : fs.read target = some (d.fs.contents file') := by
    unfold FileSystem.read
    rw [leads,contents]
    rfl
  refine ⟨?_,read⟩
  apply replaced.turn (Nat.le_of_eq (rename_next moves).symm)
  · intro dir member file there
    rw [contents]
    exact ⟨rfl,rfl⟩
  · rw [read]
    exact fine
  · intro other there
    rw [leads] at there
    cases there
    exact synced
  · exact FileSystem.rename_unshared unshared moves
  · intro dir member name other there here
    by_cases final : name = target
    · exact final
    · have kept : name ≠ path := fun same => by
        rw [same,gone] at here
        cases here
      exact replaced.apart dir member name other there ((others name kept final).symm.trans here)

end Disk
end Files

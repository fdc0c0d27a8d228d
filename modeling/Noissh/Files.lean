import Mathlib.Algebra.Ring.Nat
import Mathlib.Logic.Function.Basic

/-! A file system. Names lead to files, which are numbered; an open handle keeps its file and
its own offset, whatever happens to the name it was opened by. -/
namespace Files

structure FileSystem (π : Type) where
  entries : π → Option Nat
  contents : Nat → List UInt8
  /-- The number of the next new file. -/
  next : Nat
  numbered : ∀ path file, entries path = some file → file < next

structure Handle where
  file : Nat
  offset : Nat
  deriving DecidableEq, Repr

/-- Bytes written at an offset; a gap before it reads as zeros. -/
def overwrite (buf : List UInt8) (offset : Nat) (data : List UInt8) : List UInt8 :=
  (buf ++ List.replicate (offset - buf.length) 0).take offset ++ data ++ buf.drop (offset + data.length)

theorem overwrite_end (buf data : List UInt8) : overwrite buf buf.length data = buf ++ data := by
  simp [overwrite]

namespace FileSystem

variable {π : Type} (fs : FileSystem π)

def read (fs : FileSystem π) (path : π) : Option (List UInt8) := (fs.entries path).map fs.contents

/-- The contents of one file change. -/
def store (file : Nat) (bytes : List UInt8) : FileSystem π :=
  { fs with contents := Function.update fs.contents file bytes }

/-- Write at the handle's offset; nothing is written past the end for no bytes. -/
def write (h : Handle) (data : List UInt8) : Handle × FileSystem π :=
  if data.isEmpty then (h,fs)
  else (⟨h.file,h.offset + data.length⟩,fs.store h.file (overwrite (fs.contents h.file) h.offset data))

/-- The largest file offset there is. -/
def maxOffset : Nat := 2^63 - 1

/-- Read up to some bytes from the handle's offset on. -/
def readAt (h : Handle) (n : Nat) : List UInt8 × Handle :=
  let data := (((fs.contents h.file).take maxOffset).drop h.offset).take n
  (data,⟨h.file,h.offset + data.length⟩)

/-- Every file has one name. -/
def Unshared : Prop := ∀ path other file, fs.entries path = some file → fs.entries other = some file → path = other

section

variable {fs} {path : π} {file : Nat}

theorem readAt_offset {h : Handle} (small : h.offset ≤ maxOffset) (n : Nat) :
    (fs.readAt h n).2.offset = h.offset + (fs.readAt h n).1.length ∧ (fs.readAt h n).2.offset ≤ maxOffset := by
  refine ⟨rfl,?_⟩
  simp only [readAt,List.length_take,List.length_drop]
  omega

@[simp] theorem store_entries (bytes : List UInt8) : (fs.store file bytes).entries = fs.entries := rfl

@[simp] theorem store_same (bytes : List UInt8) : (fs.store file bytes).contents file = bytes :=
  Function.update_self ..

theorem store_other {other : Nat} (apart : other ≠ file) (bytes : List UInt8) :
    (fs.store file bytes).contents other = fs.contents other := Function.update_of_ne apart ..

/-- A name that leads elsewhere still reads the same. -/
theorem read_store (apart : fs.entries path ≠ some file) (bytes : List UInt8) :
    (fs.store file bytes).read path = fs.read path := by
  unfold read
  rw [store_entries]
  cases found : fs.entries path with
  | none => rfl
  | some other =>
    have differ : other ≠ file := fun same => apart (by rw [found,same])
    rw [Option.map_some,Option.map_some,store_other differ]

theorem write_entries (h : Handle) (data : List UInt8) : (fs.write h data).2.entries = fs.entries := by
  unfold write
  split <;> rfl

theorem write_unshared (unshared : fs.Unshared) (h : Handle) (data : List UInt8) : (fs.write h data).2.Unshared := by
  unfold Unshared
  rw [write_entries]
  exact unshared

/-- A write at the end of a file appends. -/
theorem write_end {h : Handle} (atEnd : h.offset = (fs.contents h.file).length) (data : List UInt8) :
    (fs.write h data).1.file = h.file ∧ (fs.write h data).2.entries = fs.entries ∧
      (fs.write h data).2.contents h.file = fs.contents h.file ++ data ∧
      (fs.write h data).1.offset = (fs.contents h.file ++ data).length := by
  unfold write
  by_cases empty : data.isEmpty
  · rw [if_pos empty,List.isEmpty_iff.mp empty,List.append_nil]
    exact ⟨rfl,rfl,rfl,atEnd⟩
  · rw [if_neg empty]
    refine ⟨rfl,rfl,?_,?_⟩
    · rw [store_same,atEnd,overwrite_end]
    · rw [List.length_append,← atEnd]

theorem write_read {h : Handle} (apart : fs.entries path ≠ some h.file) (data : List UInt8) :
    (fs.write h data).2.read path = fs.read path := by
  unfold write
  split
  · rfl
  · exact read_store apart _

end

variable [DecidableEq π]

/-- A name gets a new, empty file. -/
def fresh (path : π) : FileSystem π where
  entries := Function.update fs.entries path (some fs.next)
  contents := Function.update fs.contents fs.next []
  next := fs.next + 1
  numbered := by
    intro other file found
    by_cases same : other = path
    · subst same
      rw [Function.update_self] at found
      cases found
      exact Nat.lt_succ_self _
    · rw [Function.update_of_ne same] at found
      exact Nat.lt_succ_of_lt (fs.numbered other file found)

/-- Open for writing. An existing file is truncated in place. -/
def create (path : π) : Handle × FileSystem π :=
  match fs.entries path with
  | some file => (⟨file,0⟩,fs.store file [])
  | none => (⟨fs.next,0⟩,fs.fresh path)

def remove (path : π) : FileSystem π where
  entries := Function.update fs.entries path none
  contents := fs.contents
  next := fs.next
  numbered := by
    intro other file found
    by_cases same : other = path
    · subst same
      rw [Function.update_self] at found
      cases found
    · rw [Function.update_of_ne same] at found
      exact fs.numbered other file found

/-- A name is made to lead to an existing file. -/
def link (path : π) (file : Nat) (known : file < fs.next) : FileSystem π where
  entries := Function.update fs.entries path (some file)
  contents := fs.contents
  next := fs.next
  numbered := by
    intro other found here
    by_cases same : other = path
    · subst same
      rw [Function.update_self] at here
      cases here
      exact known
    · rw [Function.update_of_ne same] at here
      exact fs.numbered other found here

/-- Move a name over another, in one step; none when there is no such name. Two names of one
file stay as they are. -/
def rename (old new : π) : Option (FileSystem π) :=
  match found : fs.entries old with
  | none => none
  | some file =>
    if fs.entries new = some file then some fs
    else some ((fs.link new file (fs.numbered old file found)).remove old)

/-- Make a file of these bytes, as another program does. -/
def writeFile (path : π) (bytes : List UInt8) : FileSystem π := ((fs.create path).2.write (fs.create path).1 bytes).2

variable {fs} {path old new : π} {file : Nat}

/-- A created file is empty, its handle is at its start, and no other name is touched. -/
theorem create_spec (path : π) :
    (fs.create path).2.entries path = some (fs.create path).1.file ∧
      (fs.create path).2.contents (fs.create path).1.file = [] ∧ (fs.create path).1.offset = 0 ∧
      ∀ other, other ≠ path → (fs.create path).2.entries other = fs.entries other := by
  unfold create
  cases found : fs.entries path with
  | some file => exact ⟨found,store_same _,rfl,fun _ _ => rfl⟩
  | none =>
    refine ⟨Function.update_self ..,Function.update_self ..,rfl,fun other differ => ?_⟩
    exact Function.update_of_ne differ ..

/-- Creating a file leaves what names of other files read. -/
theorem create_read {other : π} (differ : other ≠ path)
    (apart : ∀ file, fs.entries path = some file → fs.entries other ≠ some file) :
    (fs.create path).2.read other = fs.read other := by
  unfold create
  cases found : fs.entries path with
  | some file => exact read_store (apart file found) _
  | none =>
    unfold read
    rw [show (fs.fresh path).entries other = fs.entries other from Function.update_of_ne differ ..]
    cases here : fs.entries other with
    | none => rfl
    | some file =>
      have old := Nat.ne_of_lt (fs.numbered other file here)
      rw [Option.map_some,Option.map_some]
      exact congrArg some (Function.update_of_ne old ..)

/-- No other name leads to a created file. -/
theorem create_apart {other : π} (differ : other ≠ path)
    (apart : ∀ file, fs.entries path = some file → fs.entries other ≠ some file) :
    (fs.create path).2.entries other ≠ some (fs.create path).1.file := by
  unfold create
  cases found : fs.entries path with
  | some file => exact apart file found
  | none =>
    intro here
    have old : fs.entries other = some fs.next := by
      rw [← here]
      exact (Function.update_of_ne differ ..).symm
    exact Nat.lt_irrefl _ (fs.numbered other _ old)

theorem create_unshared (unshared : fs.Unshared) (path : π) : (fs.create path).2.Unshared := by
  unfold create
  cases found : fs.entries path with
  | some file => exact unshared
  | none =>
    intro first second file here there
    change Function.update fs.entries path (some fs.next) first = some file at here
    change Function.update fs.entries path (some fs.next) second = some file at there
    have old : ∀ name, fs.entries name ≠ some fs.next := fun name named => Nat.lt_irrefl _ (fs.numbered name _ named)
    by_cases same : first = path <;> by_cases same' : second = path
    · rw [same,same']
    · rw [same,Function.update_self] at here
      rw [Function.update_of_ne same',← here] at there
      exact absurd there (old second)
    · rw [same',Function.update_self] at there
      rw [Function.update_of_ne same,← there] at here
      exact absurd here (old first)
    · rw [Function.update_of_ne same] at here
      rw [Function.update_of_ne same'] at there
      exact unshared first second file here there

theorem remove_unshared (unshared : fs.Unshared) (path : π) : (fs.remove path).Unshared := by
  intro first second file here there
  change Function.update fs.entries path none first = some file at here
  change Function.update fs.entries path none second = some file at there
  by_cases same : first = path
  · rw [same,Function.update_self] at here
    cases here
  · by_cases same' : second = path
    · rw [same',Function.update_self] at there
      cases there
    · rw [Function.update_of_ne same] at here
      rw [Function.update_of_ne same'] at there
      exact unshared first second file here there

theorem rename_unshared (unshared : fs.Unshared) {fs' : FileSystem π} (moved : fs.rename old new = some fs') :
    fs'.Unshared := by
  unfold rename at moved
  split at moved
  · cases moved
  · rename_i file found
    split at moved
    · cases moved
      exact unshared
    · cases moved
      -- The old name is gone, so that the new one alone leads to the file.
      intro first second other here there
      change Function.update (Function.update fs.entries new (some file)) old none first = some other at here
      change Function.update (Function.update fs.entries new (some file)) old none second = some other at there
      by_cases gone : first = old
      · rw [gone,Function.update_self] at here
        cases here
      by_cases gone' : second = old
      · rw [gone',Function.update_self] at there
        cases there
      rw [Function.update_of_ne gone] at here
      rw [Function.update_of_ne gone'] at there
      by_cases same : first = new <;> by_cases same' : second = new
      · rw [same,same']
      · rw [same,Function.update_self] at here
        rw [Function.update_of_ne same',← here] at there
        exact absurd (unshared second old file there found) gone'
      · rw [same',Function.update_self] at there
        rw [Function.update_of_ne same,← there] at here
        exact absurd (unshared first old file here found) gone
      · rw [Function.update_of_ne same] at here
        rw [Function.update_of_ne same'] at there
        exact unshared first second other here there

/-- Another program's file leaves the other names and their files alone. -/
theorem writeFile_other (unshared : fs.Unshared) {other : π} (differ : other ≠ path) (bytes : List UInt8) :
    (fs.writeFile path bytes).entries other = fs.entries other ∧
      ∀ file, fs.entries other = some file → (fs.writeFile path bytes).contents file = fs.contents file := by
  obtain ⟨named,_,_,others⟩ := @create_spec _ fs _ path
  refine ⟨?_,fun file here => ?_⟩
  · unfold writeFile
    rw [write_entries]
    exact others other differ
  · have apart : file ≠ (fs.create path).1.file := by
      rintro rfl
      have there := (others other differ).trans here
      exact differ (create_unshared unshared path other path _ there named)
    have created : (fs.create path).2.contents file = fs.contents file := by
      unfold create at apart ⊢
      cases found : fs.entries path with
      | some old =>
        rw [found] at apart
        exact store_other apart _
      | none =>
        rw [found] at apart
        exact Function.update_of_ne apart ..
    unfold writeFile write
    split
    · exact created
    · exact (store_other apart _).trans created

theorem writeFile_read (unshared : fs.Unshared) {other : π} (differ : other ≠ path) (bytes : List UInt8) :
    (fs.writeFile path bytes).read other = fs.read other := by
  obtain ⟨entry,contents⟩ := writeFile_other unshared differ bytes
  unfold read
  rw [entry]
  cases here : fs.entries other with
  | none => rfl
  | some file => rw [Option.map_some,Option.map_some,contents file here]

theorem writeFile_unshared (unshared : fs.Unshared) (path : π) (bytes : List UInt8) : (fs.writeFile path bytes).Unshared :=
  write_unshared (create_unshared unshared path) _ _

theorem remove_read {other : π} (differ : other ≠ path) : (fs.remove path).read other = fs.read other := by
  unfold read
  rw [show (fs.remove path).entries other = fs.entries other from Function.update_of_ne differ ..]
  rfl

/-- A rename makes the new name read what the old one read, and takes the old name away. -/
theorem rename_spec (found : fs.entries old = some file) (apart : fs.entries new ≠ some file) (differ : new ≠ old) :
    ∃ fs', fs.rename old new = some fs' ∧ fs'.read new = some (fs.contents file) ∧ fs'.entries old = none := by
  have shape : fs.rename old new = some ((fs.link new file (fs.numbered old file found)).remove old) := by
    unfold rename
    split
    · rename_i none
      rw [none] at found
      cases found
    · rename_i other here
      obtain rfl : file = other := Option.some.inj (found.symm.trans here)
      rw [if_neg apart]
  refine ⟨_,shape,?_,Function.update_self ..⟩
  rw [remove_read differ]
  unfold read
  rw [show (fs.link new file _).entries new = some file from Function.update_self ..]
  rfl

end FileSystem
end Files

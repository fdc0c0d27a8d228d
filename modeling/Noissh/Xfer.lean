import Noissh.Files
import Noissh.Frame

/-! The two local ends of a file transfer (`src/xfer.rs`). The receiving end writes to a
temporary file next to the destination, which is renamed over it in the end. What the operating
system may refuse is an argument of each call. -/
namespace Noissh

open Files

/-- A component of a path. -/
inductive Component where
  | rootDir
  | curDir
  | parentDir
  | normal (name : String)
  deriving DecidableEq, Repr

abbrev Path := List Component

namespace Path

/-- What a part between two separators stands for. -/
def component (part : List Char) : Option Component :=
  if part = [] ∨ part = ['.'] then none
  else if part = ['.','.'] then some .parentDir
  else some (.normal (.ofList part))

/-- The components of a path as it is written. -/
def ofString (text : String) : Path :=
  match text.toList.splitOn '/' with
  | [] :: next :: rest => .rootDir :: (next :: rest).filterMap component
  | ['.'] :: rest => .curDir :: rest.filterMap component
  | parts => parts.filterMap component

def fileName (path : Path) : Option String :=
  match path.getLast? with
  | some (.normal name) => some name
  | _ => none

def withFileName (path : Path) (name : String) : Path :=
  (if (fileName path).isSome then path.dropLast else path) ++ [.normal name]

end Path

/-- A temp path next to `dest`, so that the rename does not cross devices. -/
def tempPath (pid : Nat) (dest : Path) : Path :=
  Path.withFileName dest ((Path.fileName dest).getD ".noissh" ++ ".noissh-tmp-" ++ toString pid)

structure FileSource where
  file : Handle
  deriving DecidableEq, Repr

namespace FileSource

def openFile (fs : FileSystem Path) (path : Path) (opens : Bool) : Option FileSource :=
  if opens then (fs.entries path).map (fun file => ⟨file,0⟩) else none

/-- Read up to some bytes. A read fails, or may stop short after at least one byte; an empty
one is the end of the file. -/
def readChunk (src : FileSource) (fs : FileSystem Path) (limit : Nat) (short : Option Nat) : Option (Bytes × FileSource) :=
  short.map (fun n => ((fs.readAt src.file (min limit (n + 1))).1,⟨(fs.readAt src.file (min limit (n + 1))).2⟩))

theorem openFile_offset {fs : FileSystem Path} {path : Path} {opens : Bool} {src : FileSource}
    (found : openFile fs path opens = some src) : src.file.offset = 0 := by
  unfold openFile at found
  split at found
  · obtain ⟨_,_,rfl⟩ := Option.map_eq_some_iff.mp found
    rfl
  · cases found

/-- A source has handed over as many bytes as its offset says. -/
theorem readChunk_offset {src src' : FileSource} {fs : FileSystem Path} {limit : Nat} {short : Option Nat} {data : Bytes}
    (small : src.file.offset ≤ FileSystem.maxOffset) (chunk : src.readChunk fs limit short = some (data,src')) :
    src'.file.offset = src.file.offset + data.length ∧ src'.file.offset ≤ FileSystem.maxOffset := by
  obtain ⟨n,_,same⟩ := Option.map_eq_some_iff.mp chunk
  cases same
  exact FileSystem.readAt_offset small _

end FileSource

structure FileSink where
  file : Handle
  tmp : Path
  dest : Path
  finalized : Bool
  deriving DecidableEq, Repr

namespace FileSink

def create (pid : Nat) (fs : FileSystem Path) (dest : Path) (opens : Bool) : Option FileSink × FileSystem Path :=
  if opens then
    let (file,fs) := fs.create (tempPath pid dest)
    (some { file, tmp := tempPath pid dest, dest, finalized := false },fs)
  else (none,fs)

/-- `write_all`: there is room for some bytes; a write that needs more has failed by then. -/
def write (k : FileSink) (fs : FileSystem Path) (data : Bytes) (room : Nat) : Bool × FileSink × FileSystem Path :=
  let (file,fs) := fs.write k.file (data.take room)
  (decide (data.length ≤ room),{ k with file },fs)

/-- A sink that was not finalized cleans up. -/
def drop (k : FileSink) (fs : FileSystem Path) : FileSystem Path := if k.finalized then fs else fs.remove k.tmp

/-- Flush and move into place. The sink is dropped at the end in any case. -/
def finalize (k : FileSink) (fs : FileSystem Path) (syncs renames : Bool) : Bool × FileSystem Path :=
  if syncs ∧ renames then
    match fs.rename k.tmp k.dest with
    | some fs => (true,({ k with finalized := true }).drop fs)
    | none => (false,k.drop fs)
  else (false,k.drop fs)

end FileSink

theorem tempPath_ne (pid : Nat) (dest : Path) : dest ≠ tempPath pid dest := by
  intro same
  unfold tempPath Path.withFileName at same
  cases name : Path.fileName dest with
  | none =>
    rw [name] at same
    have length := congrArg List.length same
    simp at length
  | some base =>
    rw [name] at same
    have last := congrArg List.getLast? same
    unfold Path.fileName at name
    split at name
    · rename_i inner found
      cases name
      rw [found,List.getLast?_append] at last
      simp only [Option.getD_some,List.getLast?_singleton,Option.some_or,Option.some.injEq,Component.normal.injEq] at last
      have size := congrArg String.length last
      have suffix : ".noissh-tmp-".length = 12 := by decide
      rw [String.length_append,String.length_append,suffix] at size
      omega
    · cases name

namespace FileSink

/-- An open sink has the temporary file to itself, and it holds the bytes written. -/
structure Holds (pid : Nat) (dest : Path) (fs : FileSystem Path) (bytes : Bytes) (k : FileSink) : Prop where
  tmp : k.tmp = tempPath pid dest
  target : k.dest = dest
  pending : k.finalized = false
  named : fs.entries (tempPath pid dest) = some k.file.file
  apart : fs.entries dest ≠ some k.file.file
  contents : fs.contents k.file.file = bytes
  offset : k.file.offset = bytes.length

variable {pid : Nat} {dest : Path} {fs : FileSystem Path} {bytes : Bytes} {k : FileSink}

/-- The temporary name does not lead to the destination's file. -/
def Unlinked (pid : Nat) (dest : Path) (fs : FileSystem Path) : Prop :=
  ∀ file, fs.entries (tempPath pid dest) = some file → fs.entries dest ≠ some file

theorem create_holds (unlinked : Unlinked pid dest fs) :
    ∃ k, (create pid fs dest true).1 = some k ∧ k.Holds pid dest (create pid fs dest true).2 [] ∧
      (create pid fs dest true).2.read dest = fs.read dest := by
  have differ := tempPath_ne pid dest
  obtain ⟨named,empty,atStart,_⟩ := @FileSystem.create_spec _ fs _ (tempPath pid dest)
  have apart := FileSystem.create_apart differ unlinked
  exact ⟨_,rfl,⟨rfl,rfl,rfl,named,apart,empty,atStart⟩,FileSystem.create_read differ unlinked⟩

theorem Holds.write (holds : k.Holds pid dest fs bytes) (data : Bytes) (room : Nat) :
    (k.write fs data room).2.1.Holds pid dest (k.write fs data room).2.2 (bytes ++ data.take room) ∧
      (k.write fs data room).2.2.read dest = fs.read dest := by
  have atEnd : k.file.offset = (fs.contents k.file.file).length := by rw [holds.contents]; exact holds.offset
  obtain ⟨sameFile,entries,contents,offset⟩ := FileSystem.write_end atEnd (data.take room)
  rw [holds.contents] at contents offset
  refine ⟨⟨holds.tmp,holds.target,holds.pending,?_,?_,?_,offset⟩,FileSystem.write_read holds.apart (data.take room)⟩
  · change (fs.write k.file (data.take room)).2.entries _ = some (fs.write k.file (data.take room)).1.file
    rw [entries,sameFile]
    exact holds.named
  · change (fs.write k.file (data.take room)).2.entries dest ≠ some (fs.write k.file (data.take room)).1.file
    rw [entries,sameFile]
    exact holds.apart
  · change (fs.write k.file (data.take room)).2.contents (fs.write k.file (data.take room)).1.file = _
    rw [sameFile]
    exact contents

theorem Holds.drop (holds : k.Holds pid dest fs bytes) : k.drop fs = fs.remove (tempPath pid dest) := by
  rw [FileSink.drop,holds.pending,holds.tmp]
  rfl

/-- What a finalized sink leaves at the destination. -/
theorem Holds.finalize (holds : k.Holds pid dest fs bytes) (syncs renames : Bool) :
    ((k.finalize fs syncs renames).1 = true ∧ fs.rename (tempPath pid dest) dest = some (k.finalize fs syncs renames).2 ∧
      (k.finalize fs syncs renames).2.read dest = some bytes ∧
      (k.finalize fs syncs renames).2.entries (tempPath pid dest) = none) ∨
    ((k.finalize fs syncs renames).1 = false ∧ (k.finalize fs syncs renames).2 = fs.remove (tempPath pid dest)) := by
  unfold FileSink.finalize
  split
  · obtain ⟨fs',moved,reads,gone⟩ := FileSystem.rename_spec holds.named holds.apart (tempPath_ne pid dest)
    rw [holds.tmp,holds.target,moved]
    rw [holds.contents] at reads
    exact .inl ⟨rfl,rfl,reads,gone⟩
  · exact .inr ⟨rfl,holds.drop⟩

/-- Another program writes neither the destination nor the temporary file. -/
theorem Holds.elsewhere (unshared : fs.Unshared) (holds : k.Holds pid dest fs bytes) {path : Path} (other : dest ≠ path)
    (beside : tempPath pid dest ≠ path) (data : Bytes) : k.Holds pid dest (fs.writeFile path data) bytes where
  tmp := holds.tmp
  target := holds.target
  pending := holds.pending
  named := (FileSystem.writeFile_other unshared beside data).1.trans holds.named
  apart := by
    rw [(FileSystem.writeFile_other unshared other data).1]
    exact holds.apart
  contents := ((FileSystem.writeFile_other unshared beside data).2 _ holds.named).trans holds.contents
  offset := holds.offset

theorem create_unshared (unshared : fs.Unshared) (opens : Bool) : (create pid fs dest opens).2.Unshared := by
  unfold create
  split
  · exact FileSystem.create_unshared unshared _
  · exact unshared

theorem drop_unshared (unshared : fs.Unshared) (k : FileSink) : (k.drop fs).Unshared := by
  unfold drop
  split
  · exact unshared
  · exact FileSystem.remove_unshared unshared _

theorem finalize_unshared (unshared : fs.Unshared) (k : FileSink) (syncs renames : Bool) :
    (k.finalize fs syncs renames).2.Unshared := by
  unfold finalize
  split
  · split
    · rename_i moved
      exact drop_unshared (FileSystem.rename_unshared unshared moved) _
    · exact drop_unshared unshared k
  · exact drop_unshared unshared k

theorem unlinked_of_unshared (unshared : fs.Unshared) : Unlinked pid dest fs :=
  fun file named same => tempPath_ne pid dest (unshared dest _ file same named)

end FileSink
end Noissh

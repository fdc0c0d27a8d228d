import Noissh.Machine
import Noissh.Xfer

/-! Two uploads of one process to one destination. Their sinks share the temporary path. -/
namespace Noissh

open Files

inductive Upload where
  | first
  | second
  deriving DecidableEq, Repr

def Upload.other : Upload → Upload
  | first => second
  | second => first

structure Uploads where
  fs : FileSystem Path
  sinks : Upload → Option FileSink
  /-- The bytes written to each sink. -/
  written : Upload → Bytes
  /-- Whether a sink has been finalized or dropped. -/
  ended : Upload → Bool

namespace Uploads

inductive Action where
  | create (x : Upload) (opens : Bool)
  | write (x : Upload) (data : Bytes) (room : Nat)
  | finalize (x : Upload) (syncs renames : Bool)
  | drop (x : Upload)
  deriving DecidableEq, Repr

def start (fs : FileSystem Path) : Uploads where
  fs
  sinks _ := none
  written _ := []
  ended _ := false

def finish (s : Uploads) (x : Upload) (fs : FileSystem Path) : Uploads :=
  { s with fs, sinks := Function.update s.sinks x none, ended := Function.update s.ended x true }

/-- A sink is created once. -/
def step (pid : Nat) (dest : Path) (s : Uploads) : Action → Uploads
  | .create x opens =>
    if s.ended x ∨ (s.sinks x).isSome then s
    else
      let (sink,fs) := FileSink.create pid s.fs dest opens
      { s with fs, sinks := Function.update s.sinks x sink }
  | .write x data room =>
    match s.sinks x with
    | none => s
    | some k =>
      let (_,k,fs) := k.write s.fs data room
      { s with
        fs
        sinks := Function.update s.sinks x (some k)
        written := Function.update s.written x (s.written x ++ data.take room) }
  | .finalize x syncs renames =>
    match s.sinks x with
    | none => s
    | some k => s.finish x (k.finalize s.fs syncs renames).2
  | .drop x =>
    match s.sinks x with
    | none => s
    | some k => s.finish x (k.drop s.fs)

def run (pid : Nat) (dest : Path) (s : Uploads) (schedule : List Action) : Uploads := Machine.run (step pid dest) schedule s

/-- The destination holds what it held before, or all that was written to a sink that has
ended; and a sink that is finalized now puts all that was written to it there. -/
structure Unmixed (dest : Path) (before : Option Bytes) (s : Uploads) : Prop where
  visible : s.fs.read dest = before ∨ ∃ x, s.ended x = true ∧ s.fs.read dest = some (s.written x)
  contributes : ∀ x k syncs renames, s.sinks x = some k → (k.finalize s.fs syncs renames).1 = true →
    (k.finalize s.fs syncs renames).2.read dest = some (s.written x)

/-- A sink is created only while the other is not open. -/
def inTurn (s : Uploads) : Action → Bool
  | .create x _ => (s.sinks x.other).isNone
  | _ => true

/-- An open sink has the temporary file to itself, and it holds what was written. -/
structure Owns (pid : Nat) (dest : Path) (s : Uploads) (x : Upload) (k : FileSink) : Prop where
  tmp : k.tmp = tempPath pid dest
  target : k.dest = dest
  pending : k.finalized = false
  named : s.fs.entries (tempPath pid dest) = some k.file.file
  apart : s.fs.entries dest ≠ some k.file.file
  contents : s.fs.contents k.file.file = s.written x
  offset : k.file.offset = (s.written x).length

structure Valid (pid : Nat) (dest : Path) (before : Option Bytes) (s : Uploads) : Prop where
  visible : s.fs.read dest = before ∨ ∃ x, s.ended x = true ∧ s.fs.read dest = some (s.written x)
  owns : ∀ x k, s.sinks x = some k → s.Owns pid dest x k
  alone : ∀ x, (s.sinks x).isSome = true → s.sinks x.other = none
  ended : ∀ x, s.ended x = true → s.sinks x = none
  unwritten : ∀ x, s.ended x = false → s.sinks x = none → s.written x = []
  /-- The temporary name never leads to the destination's file. -/
  unlinked : ∀ file, s.fs.entries (tempPath pid dest) = some file → s.fs.entries dest ≠ some file

section

variable {pid : Nat} {dest : Path} {before : Option Bytes} {s : Uploads} {x : Upload} {k : FileSink}

theorem other_ne (x : Upload) : x.other ≠ x := by cases x <;> decide

theorem eq_or_other (x y : Upload) : y = x ∨ y = x.other := by cases x <;> cases y <;> decide

theorem start_valid {fs : FileSystem Path}
    (unlinked : ∀ file, fs.entries (tempPath pid dest) = some file → fs.entries dest ≠ some file) :
    (start fs).Valid pid dest (fs.read dest) where
  visible := .inl rfl
  owns := nofun
  alone := nofun
  ended := nofun
  unwritten _ _ _ := rfl
  unlinked := unlinked

theorem Owns.holds (owns : s.Owns pid dest x k) : k.Holds pid dest s.fs (s.written x) :=
  ⟨owns.tmp,owns.target,owns.pending,owns.named,owns.apart,owns.contents,owns.offset⟩

theorem Owns.of_holds (holds : k.Holds pid dest s.fs (s.written x)) : s.Owns pid dest x k :=
  ⟨holds.tmp,holds.target,holds.pending,holds.named,holds.apart,holds.contents,holds.offset⟩

/-- A sink that ends leaves no open one behind, whatever became of its file. -/
theorem Valid.finish (valid : s.Valid pid dest before) (held : s.sinks x = some k) {fs : FileSystem Path}
    (gone : fs.entries (tempPath pid dest) = none)
    (reads : fs.read dest = s.fs.read dest ∨ fs.read dest = some (s.written x)) :
    (s.finish x fs).Valid pid dest before := by
  have closed : ∀ y, (s.finish x fs).sinks y = none := by
    intro y
    rcases eq_or_other x y with rfl | rfl
    · exact Function.update_self ..
    · change Function.update s.sinks x none x.other = none
      rw [Function.update_of_ne (other_ne x)]
      exact valid.alone x (by rw [held]; rfl)
  have done : (s.finish x fs).ended x = true := Function.update_self ..
  have still : ∀ y, s.ended y = true → (s.finish x fs).ended y = true := by
    intro y old
    change Function.update s.ended x true y = true
    by_cases same : y = x
    · rw [same,Function.update_self]
    · rwa [Function.update_of_ne same]
  refine ⟨?_,?_,?_,fun y _ => closed y,?_,?_⟩
  · rcases reads with same | new
    · rcases valid.visible with old | ⟨y,ended,old⟩
      · exact .inl (same.trans old)
      · exact .inr ⟨y,still y ended,same.trans old⟩
    · exact .inr ⟨x,done,new⟩
  · intro y k here
    rw [closed y] at here
    cases here
  · intro y here
    rw [closed y] at here
    cases here
  · intro y fresh _
    have apart : y ≠ x := fun same => by
      rw [same,done] at fresh
      cases fresh
    have notEnded : s.ended y = false := by
      change Function.update s.ended x true y = false at fresh
      rwa [Function.update_of_ne apart] at fresh
    have none : s.sinks y = none := by
      rcases eq_or_other x y with same | rfl
      · exact absurd same apart
      · exact valid.alone x (by rw [held]; rfl)
    exact valid.unwritten y notEnded none
  · intro file here
    rw [show (s.finish x fs).fs = fs from rfl,gone] at here
    cases here

/-- While a sink is open, the other is not, and all there is to say is about this one. -/
theorem Valid.of_open (visible : s.fs.read dest = before ∨ ∃ x, s.ended x = true ∧ s.fs.read dest = some (s.written x))
    (held : s.sinks x = some k) (owns : s.Owns pid dest x k) (running : s.ended x = false)
    (closed : s.sinks x.other = none) (unwritten : s.ended x.other = false → s.written x.other = []) :
    s.Valid pid dest before where
  visible := visible
  owns y k' here := by
    rcases eq_or_other x y with rfl | rfl
    · obtain rfl := Option.some.inj (held.symm.trans here)
      exact owns
    · rw [closed] at here
      cases here
  alone y here := by
    rcases eq_or_other x y with rfl | rfl
    · exact closed
    · rw [closed] at here
      cases here
  ended y ended := by
    rcases eq_or_other x y with rfl | rfl
    · rw [running] at ended
      cases ended
    · exact closed
  unwritten y fresh none := by
    rcases eq_or_other x y with rfl | rfl
    · rw [held] at none
      cases none
    · exact unwritten fresh
  unlinked file here := by
    obtain rfl := Option.some.inj (owns.named.symm.trans here)
    exact owns.apart

theorem Valid.create (valid : s.Valid pid dest before) (turn : s.sinks x.other = none) (opens : Bool) :
    (s.step pid dest (.create x opens)).Valid pid dest before := by
  simp only [step]
  split
  · exact valid
  rename_i unused
  rw [not_or] at unused
  have running : s.ended x = false := Bool.eq_false_iff.mpr unused.1
  have closed : s.sinks x = none := Option.not_isSome_iff_eq_none.mp unused.2
  have unwritten := valid.unwritten x running closed
  cases opens with
  | false =>
    change Valid _ _ _ { s with sinks := Function.update s.sinks x none }
    rw [← closed,Function.update_eq_self]
    exact valid
  | true =>
    obtain ⟨k,created,holds,reads⟩ := FileSink.create_holds valid.unlinked
    rw [← unwritten] at holds
    refine @Valid.of_open _ _ _ _ x k ?_ ((Function.update_self ..).trans created) (.of_holds holds) running
      ((Function.update_of_ne (other_ne x) ..).trans turn) (fun fresh => valid.unwritten _ fresh turn)
    rcases valid.visible with old | ⟨y,ended,old⟩
    · exact .inl (reads.trans old)
    · exact .inr ⟨y,ended,reads.trans old⟩

theorem Valid.write (valid : s.Valid pid dest before) (data : Bytes) (room : Nat) :
    (s.step pid dest (.write x data room)).Valid pid dest before := by
  simp only [step]
  cases held : s.sinks x with
  | none => exact valid
  | some k =>
    have owns := valid.owns x k held
    have running : s.ended x = false := by
      by_contra ended
      rw [valid.ended x (Bool.not_eq_false _ ▸ ended)] at held
      cases held
    have closed := valid.alone x (by rw [held]; rfl)
    obtain ⟨holds,reads⟩ := owns.holds.write data room
    have bytes : Function.update s.written x (s.written x ++ data.take room) x = s.written x ++ data.take room :=
      Function.update_self ..
    have others : ∀ y, y ≠ x → Function.update s.written x (s.written x ++ data.take room) y = s.written y :=
      fun y apart => Function.update_of_ne apart ..
    rw [← bytes] at holds
    refine @Valid.of_open _ _ _ _ x _ ?_ (Function.update_self ..) (.of_holds holds) running
      ((Function.update_of_ne (other_ne x) ..).trans closed)
      (fun fresh => (others _ (other_ne x)).trans (valid.unwritten _ fresh closed))
    rcases valid.visible with old | ⟨y,ended,old⟩
    · exact .inl (reads.trans old)
    · have apart : y ≠ x := fun same => by
        rw [same,running] at ended
        cases ended
      exact .inr ⟨y,ended,reads.trans (old.trans (congrArg some (others y apart).symm))⟩

theorem Valid.after_step (valid : s.Valid pid dest before) (a : Action) (turn : s.inTurn a = true) :
    (s.step pid dest a).Valid pid dest before := by
  have gone : (s.fs.remove (tempPath pid dest)).entries (tempPath pid dest) = none := Function.update_self ..
  have kept : (s.fs.remove (tempPath pid dest)).read dest = s.fs.read dest :=
    FileSystem.remove_read (tempPath_ne pid dest)
  cases a with
  | create x opens => exact valid.create (Option.isNone_iff_eq_none.mp turn) opens
  | write x data room => exact valid.write data room
  | finalize x syncs renames =>
    simp only [step]
    cases held : s.sinks x with
    | none => exact valid
    | some k =>
      rcases (valid.owns x k held).holds.finalize syncs renames with ⟨_,_,reads,gone⟩ | ⟨_,removed⟩
      · exact valid.finish held gone (.inr reads)
      · dsimp only
        rw [removed]
        exact valid.finish held gone (.inl kept)
  | drop x =>
    simp only [step]
    cases held : s.sinks x with
    | none => exact valid
    | some k =>
      dsimp only
      rw [(valid.owns x k held).holds.drop]
      exact valid.finish held gone (.inl kept)

theorem Valid.unmixed (valid : s.Valid pid dest before) : s.Unmixed dest before where
  visible := valid.visible
  contributes x k syncs renames held done := by
    rcases (valid.owns x k held).holds.finalize syncs renames with ⟨_,_,reads,_⟩ | ⟨failed,_⟩
    · exact reads
    · rw [failed] at done
      cases done

end

/-- Uploads that take turns do not mix, from any file system in which the temporary name is
not a link to the destination. -/
theorem uploads_unmixed (pid : Nat) (dest : Path) (fs : FileSystem Path)
    (unlinked : ∀ file, fs.entries (tempPath pid dest) = some file → fs.entries dest ≠ some file)
    (schedule : List Action)
    (turns : Machine.Along (step pid dest) (fun s a => s.inTurn a = true) schedule (start fs)) :
    ((start fs).run pid dest schedule).Unmixed dest (fs.read dest) :=
  (Machine.run_invariant (Valid pid dest (fs.read dest)) (fun _ a valid turn => valid.after_step a turn) schedule
    (start fs) (start_valid unlinked) turns).unmixed

/-- A file system with one file. -/
def oneFile (path : Path) (bytes : Bytes) : FileSystem Path where
  entries other := if other = path then some 0 else none
  contents _ := bytes
  next := 1
  numbered := by
    intro other file found
    split at found
    · cases found
      exact Nat.lt_succ_self 0
    · cases found

def report : Path := [.rootDir,.normal "report"]

def before : FileSystem Path := oneFile report [7]

/-- The first upload is cut off, then the second goes through. -/
def oneAfterTheOther : List Action := [
  .create .first true,
  .write .first [1,2,3] 3,
  .drop .first,
  .create .second true,
  .write .second [9] 1,
  .finalize .second true true]

theorem uploads_unmixed_oneAfterTheOther :
    ((start before).run 42 report oneAfterTheOther).Unmixed report (some [7]) := by
  refine uploads_unmixed 42 report before ?_ oneAfterTheOther (by decide +kernel)
  intro file found
  rw [show before.entries (tempPath 42 report) = none by decide +kernel] at found
  cases found

/-- The second upload begins while the first is being written. -/
def atOnce : List Action := [
  .create .first true,
  .write .first [1,2,3] 3,
  .create .second true,
  .write .second [9] 1,
  .write .first [4] 1,
  .finalize .first true true]

/-- The destination gets the second upload's byte, a gap, and the rest of the first. -/
theorem uploads_mixed :
    ((start before).run 42 report atOnce).fs.read report = some [9,0,0,4] ∧
      ¬((start before).run 42 report atOnce).Unmixed report (some [7]) := by
  have reads : ((start before).run 42 report atOnce).fs.read report = some [9,0,0,4] := by decide +kernel
  refine ⟨reads,fun unmixed => ?_⟩
  have visible := unmixed.visible
  rw [reads] at visible
  rcases visible with same | ⟨x,_,same⟩
  · cases same
  · cases x <;> exact absurd same (by decide +kernel)

end Uploads
end Noissh

import Noissh.Forward

/-! A remote command and the server's ends of its pipes (`src/exec.rs`). -/
namespace Noissh

/-- `stdin`, `stdout` and `stderr` say whether the server still holds that end. `piped`
records what the command's stdin has accepted and `broken` that it reported a hard error; no
operation looks at these two. -/
structure ExecProc where
  stdin : Bool := true
  stdout : Bool := true
  stderr : Bool := true
  stdinBuf : Bytes := []
  exit : Option Int := none
  piped : Bytes := []
  broken : Bool := false
  deriving DecidableEq, Repr

namespace ExecProc

/-- Drain what an output pipe has; the slot is cleared at its end. -/
def readPipe : List ReadResult → Bytes → Bytes × Bool
  | .ok [] :: _, got => (got,false)
  | .ok (b :: data) :: rest, got => readPipe rest (got ++ b :: data)
  | .interrupted :: rest, got => readPipe rest got
  | .failed :: _, got => (got,false)
  | .wouldBlock :: _, got => (got,true)
  | [], got => (got,true)

def readStdout (results : List ReadResult) (p : ExecProc) : Bytes × ExecProc :=
  if p.stdout then ((readPipe results []).1,{ p with stdout := (readPipe results []).2 }) else ([],p)

def readStderr (results : List ReadResult) (p : ExecProc) : Bytes × ExecProc :=
  if p.stderr then ((readPipe results []).1,{ p with stderr := (readPipe results []).2 }) else ([],p)

/-- The pipe takes the first `n` staged bytes. -/
def accept (p : ExecProc) (n : Nat) : ExecProc :=
  { p with stdinBuf := p.stdinBuf.drop n, piped := p.piped ++ p.stdinBuf.take n }

/-- A hard error on the pipe. -/
def sever (p : ExecProc) : ExecProc := { p with stdin := false, stdinBuf := [], broken := true }

def flushLoop : List WriteResult → ExecProc → ExecProc × List WriteResult
  | results, p =>
    if p.stdinBuf.isEmpty then (p,results)
    else match results with
      | [] => (p,[])
      | .ok 0 :: rest => (p,rest)
      | .ok (n + 1) :: rest => flushLoop rest (p.accept (n + 1))
      | .wouldBlock :: rest => (p,rest)
      | .interrupted :: rest => flushLoop rest p
      | .failed :: rest => (p.sever,rest)

/-- Flush the staged stdin. -/
def flushStdin (results : List WriteResult) (p : ExecProc) : ExecProc × List WriteResult :=
  if p.stdin then flushLoop results p else ({ p with stdinBuf := [] },results)

/-- Stage bytes for the command's stdin and try to flush. -/
def writeStdin (data : Bytes) (results : List WriteResult) (p : ExecProc) : ExecProc × List WriteResult :=
  if p.stdin then flushStdin results { p with stdinBuf := p.stdinBuf ++ data } else (p,results)

/-- Send the command the end of its stdin, flushing what it takes first. -/
def closeStdin (results : List WriteResult) (p : ExecProc) : ExecProc :=
  { (flushStdin results p).1 with stdin := false }

def pollExit (exited : Option Int) (p : ExecProc) : ExecProc := { p with exit := p.exit.or exited }

def finished (p : ExecProc) : Bool := p.exit.isSome && !p.stdout && !p.stderr

def exitCode (p : ExecProc) : Int := p.exit.getD 0

/-- The results take `n` bytes before the pipe is full, or report a hard error. -/
def drains : List WriteResult → Nat → Bool
  | _, 0 => true
  | .ok (k + 1) :: rest, n + 1 => drains rest (n - k)
  | .interrupted :: rest, n + 1 => drains rest (n + 1)
  | .failed :: _, _ => true
  | _, _ => false

/-- No byte is lost or reordered between staging and the pipe. -/
structure Staged (p p' : ExecProc) : Prop where
  bytes : p'.stdin = true → p'.piped ++ p'.stdinBuf = p.piped ++ p.stdinBuf
  held : p'.stdin = true → p.stdin = true
  broken : p'.stdin = false → p.stdin = true → p'.broken = true

theorem Staged.refl (p : ExecProc) : Staged p p := by
  refine ⟨fun _ => rfl,id,fun gone held => ?_⟩
  rw [gone] at held
  cases held

theorem accept_bytes (p : ExecProc) (n : Nat) : (p.accept n).piped ++ (p.accept n).stdinBuf = p.piped ++ p.stdinBuf := by
  simp [accept]

theorem flushLoop_staged (results : List WriteResult) (p : ExecProc) : Staged p (flushLoop results p).1 := by
  fun_induction flushLoop results p with
  | case1 => exact .refl _
  | case2 => exact .refl _
  | case3 => exact .refl _
  | case4 p waiting n rest ih =>
    exact ⟨fun held => (ih.bytes held).trans (accept_bytes _ _),ih.held,ih.broken⟩
  | case5 => exact .refl _
  | case6 p waiting rest ih => exact ih
  | case7 => exact ⟨nofun,nofun,fun _ _ => rfl⟩

theorem flushStdin_staged (results : List WriteResult) (p : ExecProc) : Staged p (flushStdin results p).1 := by
  unfold flushStdin
  by_cases held : p.stdin = true
  · rw [if_pos held]
    exact flushLoop_staged results p
  · rw [if_neg held]
    exact ⟨fun here => absurd here held,fun here => absurd here held,fun _ here => absurd here held⟩

theorem writeStdin_bytes (data : Bytes) (results : List WriteResult) {p : ExecProc}
    (held : (writeStdin data results p).1.stdin = true) : p.stdin = true ∧
    (writeStdin data results p).1.piped ++ (writeStdin data results p).1.stdinBuf = p.piped ++ p.stdinBuf ++ data := by
  unfold writeStdin at held ⊢
  by_cases open_ : p.stdin = true
  · rw [if_pos open_] at held ⊢
    have staged := flushStdin_staged results { p with stdinBuf := p.stdinBuf ++ data }
    exact ⟨open_,(staged.bytes held).trans (List.append_assoc _ _ _).symm⟩
  · rw [if_neg open_] at held
    exact absurd held open_

/-- Reading the outputs and reaping the child leave its stdin alone. -/
structure SameStdin (p p' : ExecProc) : Prop where
  stdin : p'.stdin = p.stdin
  stdinBuf : p'.stdinBuf = p.stdinBuf
  piped : p'.piped = p.piped

theorem readStdout_same (results : List ReadResult) (p : ExecProc) : SameStdin p (readStdout results p).2 := by
  unfold readStdout
  split <;> exact ⟨rfl,rfl,rfl⟩

theorem readStderr_same (results : List ReadResult) (p : ExecProc) : SameStdin p (readStderr results p).2 := by
  unfold readStderr
  split <;> exact ⟨rfl,rfl,rfl⟩

end ExecProc
end Noissh

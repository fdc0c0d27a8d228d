import Noissh.StreamState

/-! The local end of a forwarded connection (`src/forward.rs`): a non-blocking socket and the
bytes waiting to be written to it. What the socket answers is a list of results, taken one a
call; a socket with no result left would block. -/
namespace Noissh

inductive WriteResult where
  | ok (n : Nat)
  | wouldBlock
  | interrupted
  | failed
  deriving DecidableEq, Repr

/-- A read of no bytes is the end of the file. -/
inductive ReadResult where
  | ok (data : Bytes)
  | wouldBlock
  | interrupted
  | failed
  deriving DecidableEq, Repr

/-- Flush attempts without progress before a connection is given up. -/
def flushStallLimit : Nat := 3000

/-- `sent` records what the socket has accepted; no operation looks at it. -/
structure ForwardConn where
  out : Bytes := []
  readClosed : Bool := false
  peerClosed : Bool := false
  finSent : Bool := false
  dead : Bool := false
  flushStall : Nat := 0
  sent : Bytes := []
  deriving DecidableEq, Repr

namespace ForwardConn

/-- The socket takes the first `n` waiting bytes. -/
def accept (c : ForwardConn) (n : Nat) : ForwardConn :=
  { c with out := c.out.drop n, flushStall := 0, sent := c.sent ++ c.out.take n }

def fail (c : ForwardConn) : ForwardConn := { c with dead := true, out := [] }

/-- The socket is full: count it, and give the connection up at the limit. -/
def stall (c : ForwardConn) : ForwardConn :=
  let c := { c with flushStall := min (c.flushStall + 1) u32Max }
  if flushStallLimit ≤ c.flushStall then c.fail else c

/-- Try to flush the waiting bytes. Also what is left of the socket's results. -/
def flush : List WriteResult → ForwardConn → ForwardConn × List WriteResult
  | results, c =>
    if c.out.isEmpty || c.dead then (c,results)
    else match results with
      | [] => (c.stall,[])
      | .ok 0 :: rest => (c,rest)
      | .ok (n + 1) :: rest => flush rest (c.accept (n + 1))
      | .wouldBlock :: rest => (c.stall,rest)
      | .interrupted :: rest => flush rest c
      | .failed :: rest => (c.fail,rest)

/-- Queue bytes from the session, then try to flush. -/
def queueToTcp (data : Bytes) (results : List WriteResult) (c : ForwardConn) : ForwardConn × List WriteResult :=
  flush results { c with out := c.out ++ data }

def readLoop : List ReadResult → Bytes → ForwardConn → Bytes × ForwardConn
  | .ok [] :: _, got, c => (got,{ c with readClosed := true })
  | .ok (b :: data) :: rest, got, c => readLoop rest (got ++ b :: data) c
  | .interrupted :: rest, got, c => readLoop rest got c
  | .failed :: _, got, c => (got,{ c with dead := true })
  | .wouldBlock :: _, got, c => (got,c)
  | [], got, c => (got,c)

/-- Drain the bytes the socket has. -/
def readTcp (results : List ReadResult) (c : ForwardConn) : Bytes × ForwardConn :=
  if c.readClosed || c.dead then ([],c) else readLoop results [] c

/-- The socket's side is at its end and the peer has not been told yet. -/
def needsFin (c : ForwardConn) : Bool × ForwardConn :=
  if c.readClosed && !c.finSent then (true,{ c with finSent := true }) else (false,c)

def isFinished (c : ForwardConn) : Bool :=
  c.dead || (c.readClosed && c.peerClosed && c.out.isEmpty)

/-- What flushing and reading leave alone, and that a live connection keeps its bytes. -/
structure Carried (c c' : ForwardConn) : Prop where
  peerClosed : c'.peerClosed = c.peerClosed
  dead : c.dead = true → c'.dead = true
  bytes : c'.dead = false → c'.sent ++ c'.out = c.sent ++ c.out

theorem Carried.refl (c : ForwardConn) : Carried c c := ⟨rfl,id,fun _ => rfl⟩

theorem Carried.live {c c' : ForwardConn} (carried : Carried c c') (live : c'.dead = false) : c.dead = false := by
  cases dead : c.dead with
  | false => rfl
  | true => rw [carried.dead dead] at live; cases live

theorem Carried.trans {a b c : ForwardConn} (first : Carried a b) (second : Carried b c) : Carried a c := by
  refine ⟨second.peerClosed.trans first.peerClosed,fun dead => second.dead (first.dead dead),fun live => ?_⟩
  exact (second.bytes live).trans (first.bytes (second.live live))

theorem fail_carried (c : ForwardConn) : Carried c c.fail := by
  refine ⟨rfl,fun _ => rfl,fun live => ?_⟩
  cases live

theorem stall_carried (c : ForwardConn) : Carried c c.stall := by
  unfold stall
  dsimp only
  by_cases limit : flushStallLimit ≤ min (c.flushStall + 1) u32Max
  · rw [if_pos limit]
    exact ⟨rfl,fun _ => rfl,fun live => by cases live⟩
  · rw [if_neg limit]
    exact ⟨rfl,fun dead => dead,fun _ => rfl⟩

theorem accept_carried (c : ForwardConn) (n : Nat) : Carried c (c.accept n) := by
  refine ⟨rfl,id,fun _ => ?_⟩
  simp [accept]

theorem flush_carried (results : List WriteResult) (c : ForwardConn) : Carried c (flush results c).1 := by
  fun_induction flush results c with
  | case1 => exact .refl _
  | case2 => apply stall_carried
  | case3 => exact .refl _
  | case4 c live n rest ih => exact (accept_carried _ _).trans ih
  | case5 => apply stall_carried
  | case6 c live rest ih => exact ih
  | case7 => apply fail_carried

theorem queueToTcp_bytes (data : Bytes) (results : List WriteResult) {c : ForwardConn}
    (live : (queueToTcp data results c).1.dead = false) :
    (queueToTcp data results c).1.sent ++ (queueToTcp data results c).1.out = c.sent ++ c.out ++ data := by
  have carried := flush_carried results { c with out := c.out ++ data }
  exact (carried.bytes live).trans (List.append_assoc _ _ _).symm

theorem readLoop_carried (results : List ReadResult) (got : Bytes) (c : ForwardConn) :
    Carried c (readLoop results got c).2 := by
  induction results generalizing got with
  | nil => exact .refl c
  | cons r rest ih =>
    cases r with
    | ok data =>
      cases data with
      | nil => exact ⟨rfl,id,fun _ => rfl⟩
      | cons b data => exact ih _
    | wouldBlock => exact .refl c
    | interrupted => exact ih got
    | failed => exact ⟨rfl,fun _ => rfl,fun live => by cases live⟩

theorem readTcp_carried (results : List ReadResult) (c : ForwardConn) : Carried c (readTcp results c).2 := by
  unfold readTcp
  by_cases closed : (c.readClosed || c.dead) = true
  · rw [if_pos closed]; exact .refl c
  · rw [if_neg closed]; exact readLoop_carried results [] c

theorem needsFin_carried (c : ForwardConn) : Carried c c.needsFin.2 := by
  unfold needsFin
  split
  · exact ⟨rfl,id,fun _ => rfl⟩
  · exact .refl c

/-- A connection that is finished and not dead has written all it had and was told of the
peer's close. -/
theorem isFinished_live {c : ForwardConn} (finished : c.isFinished = true) (live : c.dead = false) :
    c.peerClosed = true ∧ c.out = [] := by
  simp only [isFinished,live,Bool.false_or,Bool.and_eq_true,List.isEmpty_iff] at finished
  exact ⟨finished.1.2,finished.2⟩

end ForwardConn
end Noissh

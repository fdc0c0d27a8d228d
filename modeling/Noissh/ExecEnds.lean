import Noissh.ExecHost

/-! The ends of a remote command's outputs: the server lets go of an output only when a read of it came
to its end, and of the command only when both have. -/
namespace Noissh

namespace ExecProc

/-- The server holds the same outputs. -/
structure SameOutputs (p p' : ExecProc) : Prop where
  stdout : p'.stdout = p.stdout
  stderr : p'.stderr = p.stderr

theorem SameOutputs.refl (p : ExecProc) : SameOutputs p p := ⟨rfl,rfl⟩

theorem SameOutputs.trans {p q r : ExecProc} (first : SameOutputs p q) (second : SameOutputs q r) : SameOutputs p r :=
  ⟨second.stdout.trans first.stdout,second.stderr.trans first.stderr⟩

theorem flushLoop_outputs (results : List WriteResult) (p : ExecProc) : SameOutputs p (flushLoop results p).1 := by
  fun_induction flushLoop results p with
  | case4 p waiting n rest ih => exact ⟨ih.stdout,ih.stderr⟩
  | case6 p waiting rest ih => exact ih
  | _ => exact ⟨rfl,rfl⟩

theorem flushStdin_outputs (results : List WriteResult) (p : ExecProc) : SameOutputs p (flushStdin results p).1 := by
  unfold flushStdin
  split
  · exact flushLoop_outputs results p
  · exact ⟨rfl,rfl⟩

theorem writeStdin_outputs (data : Bytes) (results : List WriteResult) (p : ExecProc) :
    SameOutputs p (writeStdin data results p).1 := by
  unfold writeStdin
  split
  · have flushed := flushStdin_outputs results { p with stdinBuf := p.stdinBuf ++ data }
    exact ⟨flushed.stdout,flushed.stderr⟩
  · exact .refl p

theorem closeStdin_outputs (results : List WriteResult) (p : ExecProc) : SameOutputs p (closeStdin results p) :=
  .trans (flushStdin_outputs results p) ⟨rfl,rfl⟩

/-- Reading stops at a result that is neither data nor an interrupt. -/
theorem readPipe_open (results : List ReadResult) (got : Bytes) :
    (readPipe results got).2 = (decide (lastRead results ≠ .ok []) && decide (lastRead results ≠ .failed)) := by
  fun_induction readPipe results got with
  | case2 b data rest got ih => exact ih
  | case3 rest got ih => exact ih
  | _ => rfl

/-- An output that is let go of has come to its end, if reading it does not fail. -/
theorem readStdout_ends {results : List ReadResult} (sane : lastRead results ≠ .failed) (p : ExecProc) :
    (readStdout results p).2.stdout = (p.stdout && !decide (lastRead results = .ok [])) ∧
      (readStdout results p).2.stderr = p.stderr := by
  unfold readStdout
  cases held : p.stdout with
  | false => exact ⟨held,rfl⟩
  | true => exact ⟨by simp [readPipe_open,sane],rfl⟩

theorem readStderr_ends {results : List ReadResult} (sane : lastRead results ≠ .failed) (p : ExecProc) :
    (readStderr results p).2.stderr = (p.stderr && !decide (lastRead results = .ok [])) ∧
      (readStderr results p).2.stdout = p.stdout := by
  unfold readStderr
  cases held : p.stderr with
  | false => exact ⟨held,rfl⟩
  | true => exact ⟨by simp [readPipe_open,sane],rfl⟩

end ExecProc

namespace Driver

variable {x : Side} {k errId : Nat} {ended : Bool × Bool} {d : Driver}

theorem feedStdin_outputs (fuel : Nat) (l : Link) (p : ExecProc) (results : List WriteResult) :
    ExecProc.SameOutputs p (feedStdin x k fuel l p results).2.1 := by
  induction fuel generalizing l p results with
  | zero => exact .refl p
  | succ fuel ih =>
    unfold feedStdin
    dsimp only
    split
    · split
      · exact .refl p
      · exact .trans (ExecProc.writeStdin_outputs _ _ p) (ih _ _ _)
    · exact .refl p

/-- An output that is not held any more has been read to its end. -/
def Spent (ended : Bool × Bool) (p : ExecProc) : Prop := (p.stdout = true ∨ ended.1 = true) ∧ (p.stderr = true ∨ ended.2 = true)

theorem Spent.same {p p' : ExecProc} (spent : Spent ended p) (same : ExecProc.SameOutputs p p') : Spent ended p' := by
  rw [Spent,same.stdout,same.stderr]
  exact spent

theorem spent_or {held spent now : Bool} (before : held = true ∨ spent = true) :
    (held && !now) = true ∨ (spent || (held && now)) = true := by
  cases now <;> simpa [or_comm] using before

theorem drainOutput_proc (id : Nat) (read : ExecProc → Bytes × ExecProc) (l : Link) (p : ExecProc) :
    (drainOutput x id read l p).2 = if (l.mux x).inFlight id < sendCap then (read p).2 else p := by
  unfold drainOutput
  split <;> rfl

/-- A pump of the command, when no read of its outputs fails. -/
theorem Spent.pumpProc {p : ExecProc} {io : StreamIo} (spent : Spent ended p) (out : ExecProc.lastRead io.reads ≠ .failed)
    (err : ExecProc.lastRead io.errors ≠ .failed) (l : Link) :
    Spent (ended.1 || (ends x k errId io l p).1,ended.2 || (ends x k errId io l p).2) (pumpProc x k errId io l p).2 := by
  have fed := feedStdin_outputs (x := x) (k := k) ((l.mux x).recvBuffered k + 1) l p io.writes
  unfold ends Driver.pumpProc
  dsimp only
  generalize feedStdin x k ((l.mux x).recvBuffered k + 1) l p io.writes = fed' at fed ⊢
  have flushed := spent.same (.trans fed (ExecProc.flushStdin_outputs fed'.2.2 fed'.2.1))
  generalize (fed'.2.1.flushStdin fed'.2.2).1 = q at flushed ⊢
  obtain ⟨outs,aside⟩ := ExecProc.readStdout_ends out q
  have first := drainOutput_proc (x := x) k (·.readStdout io.reads) fed'.1 q
  generalize drainOutput x k (·.readStdout io.reads) fed'.1 q = drained at first ⊢
  obtain ⟨errs,aside'⟩ := ExecProc.readStderr_ends err drained.2
  have second := drainOutput_proc (x := x) errId (·.readStderr io.errors) drained.1 drained.2
  generalize drainOutput x errId (·.readStderr io.errors) drained.1 drained.2 = last at second ⊢
  show Spent _ (last.2.pollExit io.exited)
  refine .same (p := last.2) ?_ ⟨rfl,rfl⟩
  have stdout : last.2.stdout = drained.2.stdout := by
    rw [second]
    split
    · exact aside'
    · rfl
  have stderr : drained.2.stderr = q.stderr := by
    rw [first]
    split
    · exact aside
    · rfl
  obtain ⟨here,there⟩ := flushed
  constructor
  · rw [stdout,first]
    by_cases room : (fed'.1.mux x).inFlight k < sendCap
    · rw [if_pos room,outs]
      simp only [room,decide_true,Bool.true_and]
      exact spent_or here
    · rw [if_neg room]
      exact here.imp_right fun old => by simp [old]
  · rw [second]
    by_cases room : (drained.1.mux x).inFlight errId < sendCap
    · rw [if_pos room,errs]
      simp only [room,decide_true,Bool.true_and,stderr]
      exact spent_or there
    · rw [if_neg room,stderr]
      exact there.imp_right fun old => by simp [old]

/-- Every command has only outputs that are held or spent. -/
def AllSpent (ended : Bool × Bool) (d : Driver) : Prop := ∀ (k : Nat) (s : ExecState), d.execs[k]? = some s → Spent ended s.proc

theorem AllSpent.event (spent : AllSpent ended d) (io : Io) (event : StreamEvent) :
    AllSpent ended (d.handleEvent x io event) := by
  intro k s held
  rcases d.handleEvent_execs x io event k with same | ⟨_,_,_,_,_,after⟩ | ⟨_,before,_,running,after⟩ | ⟨_,gone⟩
  · rw [same] at held
    exact spent k s held
  · rw [after] at held
    cases held
    exact ⟨.inl rfl,.inl rfl⟩
  · rw [after] at held
    cases held
    exact (spent k before running).same (ExecProc.closeStdin_outputs _ _)
  · rw [gone] at held
    cases held

theorem AllSpent.forward (spent : AllSpent ended d) (io : Io) (k : Nat) : AllSpent ended (d.pumpForward x io k) := by
  have same : (d.pumpForward x io k).execs = d.execs := by
    unfold Driver.pumpForward
    split
    · dsimp only
      split <;> rfl
    · rfl
  unfold AllSpent
  rw [same]
  exact spent

theorem AllSpent.serveForwards (spent : AllSpent ended d) (io : Io) : AllSpent ended (d.serveForwards x io) := by
  have taken : AllSpent ended { d with link := d.link.step (.takeEvents x) } := spent
  have events := List.foldlRecOn (d.link.mux x).events (handleEvent x io) taken fun _ held event _ => held.event io event
  exact List.foldlRecOn _ _ events fun _ held k _ => held.forward io k

theorem AllSpent.mono {ended' : Bool × Bool} (spent : AllSpent ended d) (out : ended.1 = true → ended'.1 = true)
    (err : ended.2 = true → ended'.2 = true) : AllSpent ended' d := fun k s held =>
  ⟨(spent k s held).1.imp_right out,(spent k s held).2.imp_right err⟩

/-- The command's share of a pump: it is done only when both outputs have come to their ends. -/
theorem AllSpent.exec (spent : AllSpent ended d) {io : Io} {s : ExecState} (held : d.execs[k]? = some s)
    (out : ExecProc.lastRead (io k).reads ≠ .failed) (err : ExecProc.lastRead (io k).errors ≠ .failed) :
    let ends := ends x k s.errId (io k) d.link s.proc
    AllSpent (ended.1 || ends.1,ended.2 || ends.2) (d.pumpExec x io k) ∧
      ((d.pumpExec x io k).execs[k]? = none → (ended.1 || ends.1,ended.2 || ends.2) = (true,true)) := by
  intro ends
  have pumped : Spent (ended.1 || ends.1,ended.2 || ends.2) (pumpProc x k s.errId (io k) d.link s.proc).2 :=
    (spent k s held).pumpProc out err d.link
  have before : AllSpent (ended.1 || ends.1,ended.2 || ends.2) d := spent.mono (fun old => by simp [old])
    (fun old => by simp [old])
  unfold pumpExec
  rw [held]
  dsimp only
  generalize Driver.pumpProc x k s.errId (io k) d.link s.proc = next at pumped ⊢
  by_cases finished : next.2.finished = true
  · rw [if_pos finished]
    refine ⟨fun j t here => ?_,fun _ => ?_⟩
    · rw [Std.TreeMap.getElem?_erase] at here
      split at here
      · cases here
      · exact before j t here
    · simp only [ExecProc.finished,Bool.and_eq_true,Bool.not_eq_true'] at finished
      obtain ⟨⟨_,stdout⟩,stderr⟩ := finished
      obtain ⟨first,second⟩ := pumped
      rw [stdout] at first
      rw [stderr] at second
      exact Prod.ext (first.resolve_left Bool.false_ne_true) (second.resolve_left Bool.false_ne_true)
  · rw [if_neg finished]
    refine ⟨fun j t here => ?_,fun gone => by simp at gone⟩
    rw [Std.TreeMap.getElem?_insert] at here
    split at here
    · cases here
      exact pumped
    · exact before j t here

end Driver

namespace ExecRun

variable {r : ExecRun}

/-- The command's outputs are held or spent, and both are spent when the server is done with it. -/
structure Spends (r : ExecRun) : Prop where
  held : r.server.AllSpent r.ended
  gone : r.errId ≠ none → r.server.execs[r.loop.e]? = none → r.ended = (true,true)

/-- Nothing but a pump concerns the command. -/
theorem Spends.same {s : ExecRun} (spends : r.Spends) (execs : s.server.execs = r.server.execs) (e : s.loop.e = r.loop.e)
    (errId : s.errId = r.errId) (ended : s.ended = r.ended) : s.Spends := by
  constructor
  · unfold Driver.AllSpent
    rw [execs,ended]
    exact spends.held
  · rw [execs,e,errId,ended]
    exact spends.gone

/-- No read of the command's outputs fails in a pump. -/
def sane (r : ExecRun) (io : Io) : Bool :=
  decide (ExecProc.lastRead (io r.loop.e).reads ≠ .failed) && decide (ExecProc.lastRead (io r.loop.e).errors ≠ .failed)

theorem Spends.pump (spends : r.Spends) (host : Host r.loop.e r.errId r.printed (r.server.link.mux .server).events r.server)
    (io : Io) (sane : r.sane io = true) : (r.step (.pump io)).Spends := by
  obtain ⟨out,err⟩ := Bool.and_eq_true_iff.mp sane
  obtain ⟨o',served,grows⟩ := host.serveForwards io
  have before := spends.held.serveForwards (x := .server) io
  have keys := served.keys
  have reach : (r.server.pump .server io).AllSpent (r.ending io) ∧
      ((r.record io).1 ≠ none → (r.server.pump .server io).execs[r.loop.e]? = none → r.ending io = (true,true)) := by
    rw [Driver.pump_eq,keys]
    unfold ending record
    generalize r.server.serveForwards .server io = d at *
    dsimp only
    cases held : d.execs[r.loop.e]? with
    | none =>
      refine ⟨before,fun spawned _ => spends.gone spawned ?_⟩
      rcases grows.runs with ⟨_,running⟩ | ⟨_,_,running⟩
      · rw [held] at running
        exact Option.not_isSome_iff_eq_none.mp (by rw [← running]; exact Bool.false_ne_true)
      · rw [held] at running
        cases running
    | some s =>
      obtain ⟨after,done⟩ := before.exec (x := .server) held (of_decide_eq_true out) (of_decide_eq_true err)
      exact ⟨after,fun _ gone => done gone⟩
  exact ⟨reach.1,reach.2⟩

end ExecRun
end Noissh

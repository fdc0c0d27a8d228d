import Noissh.Serving

/-! What the driver keeps over every run: the bytes taken from a stream are exactly those its
socket or command was given and those still waiting for it. -/
namespace Noissh

/-- The reads reach the end of the file. -/
def ReadResult.reachEof : List ReadResult → Bool
  | .ok [] :: _ => true
  | .ok (_ :: _) :: rest => reachEof rest
  | .interrupted :: rest => reachEof rest
  | _ => false

namespace ForwardConn

theorem stall_readClosed (c : ForwardConn) : c.stall.readClosed = c.readClosed := by
  unfold stall
  dsimp only
  split <;> rfl

theorem flush_readClosed (results : List WriteResult) (c : ForwardConn) : (flush results c).1.readClosed = c.readClosed := by
  fun_induction flush results c with
  | case2 => apply stall_readClosed
  | case4 c live n rest ih => exact ih
  | case5 => apply stall_readClosed
  | case6 c live rest ih => exact ih
  | _ => rfl

theorem readLoop_readClosed {results : List ReadResult} {got : Bytes} {c : ForwardConn}
    (closed : (readLoop results got c).2.readClosed = true) :
    c.readClosed = true ∨ ReadResult.reachEof results = true := by
  induction results generalizing got with
  | nil => exact .inl closed
  | cons r rest ih =>
    cases r with
    | ok data =>
      cases data with
      | nil => exact .inr rfl
      | cons b data => exact ih closed
    | interrupted => exact ih closed
    | wouldBlock => exact .inl closed
    | failed => exact .inl closed

theorem readTcp_out (results : List ReadResult) (c : ForwardConn) : (readTcp results c).2.out = c.out := by
  have loop : ∀ got, (readLoop results got c).2.out = c.out := by
    induction results with
    | nil => exact fun _ => rfl
    | cons r rest ih =>
      intro got
      cases r with
      | ok data =>
        cases data with
        | nil => rfl
        | cons b data => exact ih _
      | interrupted => exact ih got
      | wouldBlock => rfl
      | failed => rfl
  unfold readTcp
  split
  · rfl
  · exact loop []

theorem readTcp_readClosed {results : List ReadResult} {c : ForwardConn} (closed : (readTcp results c).2.readClosed = true) :
    c.readClosed = true ∨ ReadResult.reachEof results = true := by
  unfold readTcp at closed
  split at closed
  · exact .inl closed
  · exact readLoop_readClosed closed

end ForwardConn

namespace Link

/-- A live connection holds the bytes read from its stream, and was told of a close only after
the other side's. -/
structure Carries (l : Link) (x : Side) (k : Nat) (c : ForwardConn) : Prop where
  bytes : c.dead = false → c.sent ++ c.out = l.got x k
  told : c.peerClosed = true → l.closedAt x.other k ≠ none

theorem Carries.carried {l l' : Link} {x : Side} {k : Nat} {c c' : ForwardConn} (carries : l.Carries x k c)
    (carried : c.Carried c') (got : l'.got x k = l.got x k) (closedAt : l'.closedAt x.other k = l.closedAt x.other k) :
    l'.Carries x k c' := by
  refine ⟨fun live => ?_,fun told => ?_⟩
  · rw [carried.bytes live,carries.bytes (carried.live live),got]
  · rw [closedAt]
    exact carries.told (by rw [← carried.peerClosed]; exact told)

end Link

namespace Driver

variable {x : Side} {k : Nat} {l : Link}

/-- The read of one round of a feeding loop. -/
theorem streamRead_serves (safe : l.Safe) (announced : l.Announced) (x : Side) (k : Nat) :
    Link.Serves x (some k) l (streamRead x k l).2 :=
  Link.serves_step safe announced (by simp [Link.ownCall]) (fun j same => by cases same; rfl)

theorem feedSocket_spec {fuel : Nat} {c : ForwardConn} (results : List WriteResult) (safe : l.Safe)
    (announced : l.Announced) (carries : l.Carries x k c) (enough : (l.mux x).recvBuffered k < fuel) :
    let fed := feedSocket x k fuel l c results
    Link.Serves x (some k) l fed.1 ∧ fed.1.Carries x k fed.2 ∧ fed.2.readClosed = c.readClosed ∧
      fed.2.peerClosed = c.peerClosed ∧ (fed.2.out = [] → (fed.1.mux x).recvBuffered k = 0) := by
  induction fuel generalizing l c results with
  | zero => omega
  | succ fuel ih =>
    have served := streamRead_serves safe announced x k
    have empty := Link.read_buffered safe x k
    have got := l.read_got x k
    have length := l.read_length x k
    simp only [feedSocket]
    by_cases room : c.out.length < sendCap
    · rw [if_pos room]
      by_cases none : (streamRead x k l).1.isEmpty = true
      · rw [if_pos none]
        have nothing : ((l.mux x).read k).1 = [] := List.isEmpty_iff.mp none
        rw [nothing,List.append_nil] at got
        exact ⟨served,carries.carried (.refl c) got (served.closedAt k),rfl,rfl,fun _ => empty⟩
      · rw [if_neg none]
        have queue := ForwardConn.flush_carried results { c with out := c.out ++ (streamRead x k l).1 }
        have staged : (streamRead x k l).2.Carries x k (c.queueToTcp (streamRead x k l).1 results).1 := by
          refine ⟨fun live => ?_,fun told => ?_⟩
          · rw [ForwardConn.queueToTcp_bytes _ _ live,carries.bytes (queue.live live)]
            exact got.symm
          · rw [served.closedAt k]
            exact carries.told (queue.peerClosed.symm.trans told)
        have some : 0 < (l.mux x).recvBuffered k := by
          rw [← length]
          refine List.length_pos_iff.mpr (fun nothing => none ?_)
          rw [show (streamRead x k l).1 = [] from nothing]
          rfl
        have next := ih (c.queueToTcp (streamRead x k l).1 results).2 served.safe served.announced staged
          (by rw [show ((streamRead x k l).2.mux x).recvBuffered k = 0 from empty]; omega)
        obtain ⟨serves,carries',readClosed,peerClosed,all⟩ := next
        exact ⟨served.trans serves,carries',readClosed.trans (ForwardConn.flush_readClosed _ _),
          peerClosed.trans queue.peerClosed,all⟩
    · rw [if_neg room]
      refine ⟨.refl safe announced x _,carries,rfl,rfl,fun none => ?_⟩
      rw [none] at room
      exact absurd (by decide) room

theorem drainSocket_spec (safe : l.Safe) (announced : l.Announced) (x : Side) (k : Nat) (reads : List ReadResult)
    (c : ForwardConn) :
    Link.Serves x none l (drainSocket x k reads l c).1 ∧ c.Carried (drainSocket x k reads l c).2 ∧
      (drainSocket x k reads l c).2.out = c.out ∧
      ((drainSocket x k reads l c).2.readClosed = true → c.readClosed = true ∨ ReadResult.reachEof reads = true) := by
  unfold drainSocket
  split
  · refine ⟨?_,ForwardConn.readTcp_carried reads c,ForwardConn.readTcp_out reads c,ForwardConn.readTcp_readClosed⟩
    dsimp only
    split
    · exact .refl safe announced x _
    · exact Link.serves_step safe announced (by simp [Link.ownCall]) (by simp)
  · exact ⟨.refl safe announced x _,.refl c,rfl,.inl⟩

theorem passFin_spec (safe : l.Safe) (announced : l.Announced) (x : Side) (k : Nat) (c : ForwardConn) :
    Link.Serves x none l (passFin x k l c).1 ∧ c.Carried (passFin x k l c).2 ∧
      (passFin x k l c).2.readClosed = c.readClosed ∧ (passFin x k l c).2.out = c.out := by
  refine ⟨?_,c.needsFin_carried,?_⟩
  · unfold passFin
    dsimp only
    split
    · exact Link.serves_step safe announced (by simp [Link.ownCall]) (by simp)
    · exact .refl safe announced x _
  · unfold passFin ForwardConn.needsFin
    dsimp only
    split <;> exact ⟨rfl,rfl⟩

/-- One connection's share of a pump: it is given up, or it holds the bytes read; when it is
finished it has written all that had arrived. -/
theorem pumpConn_spec {c : ForwardConn} (io : StreamIo) (safe : l.Safe) (announced : l.Announced)
    (carries : l.Carries x k c) :
    let pumped := pumpConn x k io l c
    Link.Serves x (some k) l pumped.1 ∧ pumped.1.Carries x k pumped.2 ∧ pumped.2.peerClosed = c.peerClosed ∧
      (pumped.2.readClosed = true → c.readClosed = true ∨ ReadResult.reachEof io.reads = true) ∧
      (pumped.2.out = [] → pumped.2.dead = false → pumped.2.sent = pumped.1.got x k ∧
        pumped.1.arrived x k = (pumped.1.got x k).length) := by
  intro pumped
  have flushed := ForwardConn.flush_carried io.writes c
  have first := carries.carried flushed rfl rfl
  obtain ⟨fedServes,fedCarries,fedRead,fedClosed,fedAll⟩ :=
    feedSocket_spec (c.flush io.writes).2 safe announced first (Nat.lt_succ_self ((l.mux x).recvBuffered k))
  generalize feedEq : feedSocket x k ((l.mux x).recvBuffered k + 1) l (c.flush io.writes).1 (c.flush io.writes).2 = fed
    at fedServes fedCarries fedRead fedClosed fedAll
  obtain ⟨drainServes,drainCarried,drainOut,drainRead⟩ := drainSocket_spec fedServes.safe fedServes.announced x k io.reads fed.2
  generalize drainEq : drainSocket x k io.reads fed.1 fed.2 = drained at drainServes drainCarried drainOut drainRead
  obtain ⟨finServes,finCarried,finRead,finOut⟩ := passFin_spec drainServes.safe drainServes.announced x k drained.2
  have same : pumped = passFin x k drained.1 drained.2 := by
    rw [← drainEq,← feedEq]
    rfl
  rw [← same] at finServes finCarried finRead finOut
  have later := drainServes.trans finServes
  have kept := drainCarried.trans finCarried
  refine ⟨fedServes.trans (later.weaken _),fedCarries.carried kept (later.got k (by simp)) (later.closedAt k),?_,?_,?_⟩
  · rw [kept.peerClosed,fedClosed,flushed.peerClosed]
  · intro closed
    rw [finRead] at closed
    rcases drainRead closed with before | eof
    · rw [fedRead,ForwardConn.flush_readClosed] at before
      exact .inl before
    · exact .inr eof
  · intro none live
    have bytes := (fedCarries.carried kept (later.got k (by simp)) (later.closedAt k)).bytes live
    rw [none,List.append_nil] at bytes
    have empty := fedAll (by rw [← drainOut,← finOut]; exact none)
    refine ⟨bytes,?_⟩
    rw [later.arrived k,later.got k (by simp)]
    unfold Link.arrived
    rw [empty,Nat.add_zero]

theorem feedStdin_spec (fuel : Nat) {p : ExecProc} (results : List WriteResult) (safe : l.Safe) (announced : l.Announced)
    (feeds : p.stdin = true → p.piped ++ p.stdinBuf = l.got x k) :
    let fed := feedStdin x k fuel l p results
    Link.Serves x (some k) l fed.1 ∧
      (fed.2.1.stdin = true → fed.2.1.piped ++ fed.2.1.stdinBuf = fed.1.got x k) := by
  induction fuel generalizing l p results with
  | zero => exact ⟨.refl safe announced x _,feeds⟩
  | succ fuel ih =>
    have served := streamRead_serves safe announced x k
    have got := l.read_got x k
    simp only [feedStdin]
    by_cases room : p.stdinBuf.length < sendCap
    · rw [if_pos room]
      by_cases none : (streamRead x k l).1.isEmpty = true
      · rw [if_pos none]
        have nothing : ((l.mux x).read k).1 = [] := List.isEmpty_iff.mp none
        rw [nothing,List.append_nil] at got
        exact ⟨served,fun held => (feeds held).trans got.symm⟩
      · rw [if_neg none]
        obtain ⟨serves,fed⟩ := ih (p.writeStdin (streamRead x k l).1 results).2 served.safe served.announced
          (fun held => by
            obtain ⟨before,bytes⟩ := ExecProc.writeStdin_bytes _ _ held
            rw [bytes,feeds before]
            exact got.symm)
        exact ⟨served.trans serves,fed⟩
    · rw [if_neg room]
      exact ⟨.refl safe announced x _,feeds⟩

theorem drainOutput_serves (safe : l.Safe) (announced : l.Announced) (x : Side) (id : Nat)
    (read : ExecProc → Bytes × ExecProc) (p : ExecProc) : Link.Serves x none l (drainOutput x id read l p).1 := by
  unfold drainOutput
  split
  · dsimp only
    split
    · exact .refl safe announced x _
    · exact Link.serves_step safe announced (by simp [Link.ownCall]) (by simp)
  · exact .refl safe announced x _

theorem drainOutput_same (l : Link) (x : Side) (id : Nat) {read : ExecProc → Bytes × ExecProc}
    (same : ∀ p, ExecProc.SameStdin p (read p).2) (p : ExecProc) :
    ExecProc.SameStdin p (drainOutput x id read l p).2 := by
  unfold drainOutput
  split
  · exact same p
  · exact ⟨rfl,rfl,rfl⟩

/-- One command's share of a pump: its stdin was given what was read, less what is staged. -/
theorem pumpProc_spec {p : ExecProc} (errId : Nat) (io : StreamIo) (safe : l.Safe) (announced : l.Announced)
    (feeds : p.stdin = true → p.piped ++ p.stdinBuf = l.got x k) :
    let pumped := pumpProc x k errId io l p
    Link.Serves x (some k) l pumped.1 ∧
      (pumped.2.stdin = true → pumped.2.piped ++ pumped.2.stdinBuf = pumped.1.got x k) := by
  intro pumped
  obtain ⟨fedServes,fed⟩ := feedStdin_spec ((l.mux x).recvBuffered k + 1) io.writes safe announced feeds
  generalize feedEq : feedStdin x k ((l.mux x).recvBuffered k + 1) l p io.writes = f at fedServes fed
  have flushed := ExecProc.flushStdin_staged f.2.2 f.2.1
  have outServes := drainOutput_serves fedServes.safe fedServes.announced x k (·.readStdout io.reads) (f.2.1.flushStdin f.2.2).1
  have outSame := drainOutput_same f.1 x k (ExecProc.readStdout_same io.reads) (f.2.1.flushStdin f.2.2).1
  generalize outEq : drainOutput x k (·.readStdout io.reads) f.1 (f.2.1.flushStdin f.2.2).1 = out at outServes outSame
  have errServes := drainOutput_serves outServes.safe outServes.announced x errId (·.readStderr io.errors) out.2
  have errSame := drainOutput_same out.1 x errId (ExecProc.readStderr_same io.errors) out.2
  generalize errEq : drainOutput x errId (·.readStderr io.errors) out.1 out.2 = err at errServes errSame
  have same : pumped = (err.1,err.2.pollExit io.exited) := by
    rw [← errEq,← outEq,← feedEq]
    rfl
  rw [same]
  have later := outServes.trans errServes
  refine ⟨fedServes.trans (later.weaken _),fun held => ?_⟩
  have here : (f.2.1.flushStdin f.2.2).1.stdin = true := by
    rw [← outSame.stdin,← errSame.stdin]
    exact held
  show err.2.piped ++ err.2.stdinBuf = err.1.got x k
  rw [errSame.piped,errSame.stdinBuf,outSame.piped,outSame.stdinBuf,flushed.bytes here,fed (flushed.held here),
    later.got k (by simp)]

/-- The driver has nothing to do with the stream yet. -/
def Untouched (d : Driver) (x : Side) (k : Nat) : Prop :=
  d.forwards[k]? = none ∧ d.execs[k]? = none ∧ d.link.got x k = []

/-- What holds between any two steps of the driver at side `x`, while `pending` are the events
it has not handled. -/
structure Valid (x : Side) (pending : List StreamEvent) (d : Driver) : Prop where
  safe : d.link.Safe
  announced : d.link.Announced
  notices : d.link.Notices x pending
  waiting : ∀ k, pending.any (StreamEvent.opens k) = true → d.Untouched x k
  unborn : ∀ k, d.link.born x k = false → d.Untouched x k
  carries : ∀ k c, d.forwards[k]? = some c → d.link.Carries x k c ∧ d.execs[k]? = none
  feeds : ∀ k e, d.execs[k]? = some e → e.proc.stdin = true →
    e.proc.piped ++ e.proc.stdinBuf = d.link.got x k

variable {pending : List StreamEvent} {d d' : Driver}

theorem Valid.weaken {event : StreamEvent} (valid : d.Valid x (event :: pending)) : d.Valid x pending where
  safe := valid.safe
  announced := valid.announced
  notices := valid.notices.tail
  waiting k opened := valid.waiting k (by simp [opened])
  unborn := valid.unborn
  carries := valid.carries
  feeds := valid.feeds

/-- A step of the driver about one stream. -/
theorem Valid.update (valid : d.Valid x pending) (k : Nat) (serves : Link.Serves x (some k) d.link d'.link)
    (forwards : ∀ j, j ≠ k → d'.forwards[j]? = d.forwards[j]?) (execs : ∀ j, j ≠ k → d'.execs[j]? = d.execs[j]?)
    (idle : pending.any (StreamEvent.opens k) = true ∨ d'.link.born x k = false → d'.Untouched x k)
    (carries : ∀ c, d'.forwards[k]? = some c → d'.link.Carries x k c ∧ d'.execs[k]? = none)
    (feeds : ∀ e, d'.execs[k]? = some e → e.proc.stdin = true →
      e.proc.piped ++ e.proc.stdinBuf = d'.link.got x k) : d'.Valid x pending := by
  have got : ∀ j, j ≠ k → d'.link.got x j = d.link.got x j := fun j other => serves.got j (by simpa using Ne.symm other)
  have untouched : ∀ j, j ≠ k → d.Untouched x j → d'.Untouched x j := by
    intro j other ⟨forward,exec,nothing⟩
    exact ⟨(forwards j other).trans forward,(execs j other).trans exec,(got j other).trans nothing⟩
  refine ⟨serves.safe,serves.announced,⟨?_,valid.notices.once,?_⟩,?_,?_,?_,?_⟩
  · intro j opened
    exact serves.born j (valid.notices.born j opened)
  · intro j status member
    rw [serves.closedAt j]
    exact valid.notices.closed j status member
  · intro j opened
    by_cases same : j = k
    · subst same; exact idle (.inl opened)
    · exact untouched j same (valid.waiting j opened)
  · intro j unborn
    by_cases same : j = k
    · subst same; exact idle (.inr unborn)
    · refine untouched j same (valid.unborn j ?_)
      cases born : d.link.born x j with
      | false => rfl
      | true => rw [serves.born j born] at unborn; cases unborn
  · intro j c held
    by_cases same : j = k
    · subst same; exact carries c held
    · rw [forwards j same] at held
      obtain ⟨old,apart⟩ := valid.carries j c held
      exact ⟨old.carried (.refl c) (got j same) (serves.closedAt j),by rw [execs j same]; exact apart⟩
  · intro j e held open_
    by_cases same : j = k
    · subst same; exact feeds e held open_
    · rw [execs j same] at held
      rw [got j same]
      exact valid.feeds j e held open_

/-- A stream the driver holds is neither new nor unannounced. -/
theorem Valid.busy (valid : d.Valid x pending) {k : Nat} (held : ¬d.Untouched x k) :
    pending.any (StreamEvent.opens k) = false ∧ d.link.born x k = true := by
  constructor
  · by_contra opened
    exact held (valid.waiting k (by simpa using opened))
  · by_contra unborn
    exact held (valid.unborn k (by simpa using unborn))

/-- The step is about a stream that was the driver's before it. -/
theorem Valid.rework (valid : d.Valid x pending) {k : Nat} (held : ¬d.Untouched x k)
    (serves : Link.Serves x (some k) d.link d'.link)
    (forwards : ∀ j, j ≠ k → d'.forwards[j]? = d.forwards[j]?) (execs : ∀ j, j ≠ k → d'.execs[j]? = d.execs[j]?)
    (carries : ∀ c, d'.forwards[k]? = some c → d'.link.Carries x k c ∧ d'.execs[k]? = none)
    (feeds : ∀ e, d'.execs[k]? = some e → e.proc.stdin = true →
      e.proc.piped ++ e.proc.stdinBuf = d'.link.got x k) : d'.Valid x pending := by
  obtain ⟨none,born⟩ := valid.busy held
  refine valid.update k serves forwards execs ?_ carries feeds
  rintro (opened | unborn)
  · rw [opened] at none; cases none
  · rw [serves.born k born] at unborn; cases unborn

theorem pumpForward_valid (valid : d.Valid x pending) (io : Io) (k : Nat) : (d.pumpForward x io k).Valid x pending := by
  unfold pumpForward
  cases held : d.forwards[k]? with
  | none => exact valid
  | some c =>
    obtain ⟨old,apart⟩ := valid.carries k c held
    obtain ⟨serves,carries,_⟩ := pumpConn_spec (io k) valid.safe valid.announced old
    have busy : ¬d.Untouched x k := fun none => by rw [none.1] at held; cases held
    dsimp only
    generalize pumpConn x k (io k) d.link c = pumped at serves carries
    split
    · refine valid.rework busy serves (fun j ne => TreeMaps.getElem?_erase_ne _ ne) (fun _ _ => rfl) (fun c' here => ?_)
        (fun e here => ?_)
      · simp at here
      · rw [apart] at here; cases here
    · refine valid.rework busy serves (fun j ne => TreeMaps.getElem?_insert_ne _ _ ne) (fun _ _ => rfl) (fun c' here => ?_)
        (fun e here => ?_)
      · simp only [Std.TreeMap.getElem?_insert_self,Option.some.injEq] at here
        subst here
        exact ⟨carries,apart⟩
      · rw [apart] at here; cases here

theorem pumpExec_valid (valid : d.Valid x pending) (io : Io) (k : Nat) : (d.pumpExec x io k).Valid x pending := by
  unfold pumpExec
  cases held : d.execs[k]? with
  | none => exact valid
  | some e =>
    obtain ⟨serves,feeds⟩ := pumpProc_spec e.errId (io k) valid.safe valid.announced (valid.feeds k e held)
    have busy : ¬d.Untouched x k := fun none => by rw [none.2.1] at held; cases held
    have apart : ∀ c, d.forwards[k]? ≠ some c := by
      intro c forward
      rw [(valid.carries k c forward).2] at held
      cases held
    dsimp only
    generalize pumpProc x k e.errId (io k) d.link e.proc = pumped at serves feeds
    split
    · have first := Link.serves_step serves.safe serves.announced (x := x) (k := some k)
        (a := .close x k pumped.2.exitCode) (by simp [Link.ownCall]) (by simp)
      have second := Link.serves_step first.safe first.announced (x := x) (k := some k)
        (a := .close x e.errId 0) (by simp [Link.ownCall]) (by simp)
      refine valid.rework busy (serves.trans (first.trans second)) (fun _ _ => rfl) (fun j ne => TreeMaps.getElem?_erase_ne _ ne)
        (fun c here => absurd here (apart c)) (fun e' here => ?_)
      simp at here
    · refine valid.rework busy serves (fun _ _ => rfl) (fun j ne => TreeMaps.getElem?_insert_ne _ _ ne)
        (fun c here => absurd here (apart c)) (fun e' here => ?_)
      simp only [Std.TreeMap.getElem?_insert_self,Option.some.injEq] at here
      subst here
      exact feeds

/-- A call that reads nothing and leaves the driver's maps alone. -/
theorem Valid.serve (valid : d.Valid x pending) {l' : Link} (serves : Link.Serves x none d.link l') :
    Valid x pending { d with link := l' } := by
  have got : ∀ j, l'.got x j = d.link.got x j := fun j => serves.got j (by simp)
  have untouched : ∀ j, d.Untouched x j → Untouched { d with link := l' } x j :=
    fun j old => ⟨old.1,old.2.1,(got j).trans old.2.2⟩
  refine ⟨serves.safe,serves.announced,⟨fun j opened => serves.born j (valid.notices.born j opened),valid.notices.once,
    fun j status member => ?_⟩,fun j opened => untouched j (valid.waiting j opened),fun j unborn => ?_,
    fun j c held => ?_,fun j e held open_ => ?_⟩
  · rw [serves.closedAt j]
    exact valid.notices.closed j status member
  · refine untouched j (valid.unborn j ?_)
    cases born : d.link.born x j with
    | false => rfl
    | true => exact absurd (serves.born j born) (by simpa using unborn)
  · obtain ⟨old,apart⟩ := valid.carries j c held
    exact ⟨old.carried (.refl c) (got j) (serves.closedAt j),apart⟩
  · exact (valid.feeds j e held open_).trans (got j).symm

theorem onOpened_valid {k : Nat} {kind : StreamKind} {metadata : Bytes} (io : StreamIo)
    (valid : d.Valid x (.opened k kind metadata :: pending)) : (d.onOpened x io k kind).Valid x pending := by
  have here : List.any (.opened k kind metadata :: pending) (StreamEvent.opens k) = true :=
    StreamEvent.any_opens List.mem_cons_self
  obtain ⟨forward,exec,unread⟩ := valid.waiting k here
  have born := valid.notices.born k here
  have old := valid.weaken
  have once := valid.notices.handled
  have attach : ∀ d' : Driver, Link.Serves x none d.link d'.link →
      (pending.any (StreamEvent.opens k) = true ∨ d'.link.born x k = false → d'.Untouched x k) := by
    rintro d' serves (opened | unborn)
    · rw [opened] at once; cases once
    · rw [serves.born k born] at unborn; cases unborn
  have call : ∀ a : Link.Action, Link.ownCall x a = true → (∀ j, a ≠ .read x j) →
      Link.Serves x none d.link (d.link.step a) :=
    fun a own unread => Link.serves_step valid.safe valid.announced own (fun j same => absurd same (unread j))
  cases kind with
  | forward =>
    simp only [onOpened]
    split
    · have serves := Link.Serves.refl valid.safe valid.announced x none
      refine old.update k (serves.weaken _) (fun j ne => TreeMaps.getElem?_insert_ne _ _ ne) (fun _ _ => rfl)
        (attach _ serves) (fun c held => ?_) (fun e held => ?_)
      · simp only [Std.TreeMap.getElem?_insert_self,Option.some.injEq] at held
        subst held
        exact ⟨⟨fun _ => unread.symm,by simp⟩,exec⟩
      · rw [exec] at held; cases held
    · exact old.serve (call _ (by simp [Link.ownCall]) (by simp))
  | exec =>
    cases x with
    | client => exact old
    | server =>
      simp only [onOpened]
      split
      · exact old.serve (call _ (by simp [Link.ownCall]) (by simp))
      · split
        · have serves := call (.openStream .server .exec []) (by simp [Link.ownCall]) (by simp)
          refine old.update k (serves.weaken _) (fun _ _ => rfl) (fun j ne => TreeMaps.getElem?_insert_ne _ _ ne)
            (attach _ serves) (fun c held => ?_) (fun e held open_ => ?_)
          · rw [forward] at held; cases held
          · simp only [Std.TreeMap.getElem?_insert_self,Option.some.injEq] at held
            subst held
            exact ((serves.got k (by simp)).trans unread).symm
        · exact old.serve (call _ (by simp [Link.ownCall]) (by simp))
  | session | fileTransfer | agent => exact old

theorem onClosed_valid {k : Nat} {status : Int} (io : StreamIo) (valid : d.Valid x (.closed k status :: pending)) :
    (d.onClosed io k).Valid x pending := by
  have closed := valid.notices.closed k status (.head _)
  have old := valid.weaken
  have serves := Link.Serves.refl valid.safe valid.announced x (some k)
  unfold onClosed
  cases forward : d.forwards[k]? with
  | some c =>
    obtain ⟨carries,apart⟩ := valid.carries k c forward
    rw [apart]
    refine old.rework (fun none => by rw [none.1] at forward; cases forward) serves
      (fun j ne => TreeMaps.getElem?_insert_ne _ _ ne) (fun _ _ => rfl) (fun c' held => ?_) (fun e held => ?_)
    · simp only [Std.TreeMap.getElem?_insert_self,Option.some.injEq] at held
      subst held
      exact ⟨⟨carries.bytes,fun _ => closed⟩,apart⟩
    · rw [apart] at held; cases held
  | none =>
    cases exec : d.execs[k]? with
    | none => exact old
    | some e =>
      refine old.rework (fun none => by rw [none.2.1] at exec; cases exec) serves (fun _ _ => rfl)
        (fun j ne => TreeMaps.getElem?_insert_ne _ _ ne) (fun c held => ?_) (fun e' held open_ => ?_)
      · rw [forward] at held; cases held
      · simp only [Std.TreeMap.getElem?_insert_self,Option.some.injEq] at held
        subst held
        cases open_

theorem onReset_valid {k : Nat} (valid : d.Valid x (.reset k :: pending)) : (d.onReset x k).Valid x pending := by
  have old := valid.weaken
  unfold onReset
  cases exec : d.execs[k]? with
  | some e =>
    have serves := Link.serves_step valid.safe valid.announced (x := x) (k := some k) (a := .reset x e.errId)
      (by simp [Link.ownCall]) (by simp)
    refine old.rework (fun none => by rw [none.2.1] at exec; cases exec) serves (fun j ne => TreeMaps.getElem?_erase_ne _ ne)
      (fun j ne => TreeMaps.getElem?_erase_ne _ ne) (fun c held => ?_) (fun e' held => ?_)
    · simp at held
    · simp at held
  | none =>
    refine old.update k (.refl valid.safe valid.announced x _) (fun j ne => TreeMaps.getElem?_erase_ne _ ne) (fun _ _ => rfl)
      (fun idle => ?_) (fun c held => ?_) (fun e' held => ?_)
    · have none : d.Untouched x k := idle.elim (old.waiting k) (old.unborn k)
      exact ⟨by simp,none.2⟩
    · simp at held
    · rw [exec] at held; cases held

theorem handleEvent_valid {event : StreamEvent} (io : Io) (valid : d.Valid x (event :: pending)) :
    (d.handleEvent x io event).Valid x pending := by
  cases event with
  | opened k kind metadata => exact onOpened_valid (io k) valid
  | readable k => exact valid.weaken
  | closed k status => exact onClosed_valid (io k) valid
  | reset k => exact onReset_valid valid

end Driver
end Noissh

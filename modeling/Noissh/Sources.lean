import Noissh.Calls
import Noissh.Simulation

/-! What the sockets and the commands at one end give its streams: every byte that a pump takes from
them is written to the session, as long as the session has the stream. -/
namespace Noissh

/-- The bytes given under a key, in order. -/
def bytesOf {κ : Type} [DecidableEq κ] (key : κ) (chunks : List (κ × Bytes)) : Bytes :=
  (chunks.filter (fun chunk => chunk.1 = key)).flatMap Prod.snd

section

variable {κ : Type} [DecidableEq κ] {key : κ}

@[simp] theorem bytesOf_nil : bytesOf key [] = [] := rfl

@[simp] theorem bytesOf_append (first second : List (κ × Bytes)) :
    bytesOf key (first ++ second) = bytesOf key first ++ bytesOf key second := by
  simp [bytesOf]

theorem bytesOf_same (data : Bytes) : bytesOf key [(key,data)] = data := by simp [bytesOf]

theorem bytesOf_other {other : κ} (ne : other ≠ key) (data : Bytes) : bytesOf key [(other,data)] = [] := by simp [bytesOf,ne]

end

namespace Link

variable {y : Side} {k : Nat} {l l' l'' : Link} {given : Bytes}

/-- What was written to the stream is what was given, up to the point where the stream is gone. -/
structure Given (l : Link) (y : Side) (k : Nat) (given : Bytes) : Prop where
  wrote : l.wrote y k <+: given
  all : l.stream y k ≠ none ∨ l.born y k = false → l.wrote y k = given

/-- A stream that is gone does not come back. -/
theorem step_gone (safe : l.Safe) (born : l.born y k = true) (gone : l.stream y k = none) (a : Action) :
    (l.step a).stream y k = none := by
  have lane := congrFun (lane_step safe.keyed a k) y
  cases here : (l.step a).stream y k with
  | none => rfl
  | some t =>
    have held : (Lane.step k (l.lane k) (l.event k a) y).stream = some t := (congrArg Endpoint.stream lane).symm.trans here
    rcases Lane.step_evolves (safe.lanes k) (event_fresh safe a k) held with ⟨s,before,_⟩ | ⟨unborn,_⟩
    · exact absurd (before.symm.trans gone) (by simp)
    · exact absurd (born.symm.trans unborn) (by simp)

theorem Given.step (held : l.Given y k given) (safe : l.Safe) {a : Action} (unwritten : ∀ data, a ≠ .write y k data) :
    (l.step a).Given y k given := by
  have same := l.step_wrote unwritten
  refine ⟨same ▸ held.wrote,fun live => same.trans (held.all ?_)⟩
  by_contra lost
  rw [not_or,Classical.not_not,Bool.not_eq_false] at lost
  rcases live with live | unborn
  · exact live (step_gone safe lost.2 lost.1 a)
  · exact absurd (step_born l a lost.2) (by rw [unborn]; exact Bool.false_ne_true)

theorem Given.write (held : l.Given y k given) (safe : l.Safe) (born : l.born y k = true) {data : Bytes}
    (counted : (given ++ data).length ≤ u64Max) : (l.step (.write y k data)).Given y k (given ++ data) := by
  cases here : l.stream y k with
  | some s =>
    have all := held.all (.inl (by simp [here]))
    have room : (l.wrote y k).length + data.length ≤ u64Max := by
      rw [all,← List.length_append]
      exact counted
    have wrote := write_wrote safe here room
    rw [all] at wrote
    exact ⟨wrote ▸ List.prefix_refl _,fun _ => wrote⟩
  | none =>
    have gone := step_gone safe born here (.write y k data)
    have wrote : (l.step (.write y k data)).wrote y k = l.wrote y k := by
      show (l.act (.write y k data)).wrote y k = _
      simp only [act,here]
    refine ⟨wrote ▸ held.wrote.trans (List.prefix_append _ _),fun live => ?_⟩
    rcases live with live | unborn
    · exact absurd gone live
    · exact absurd (step_born l (.write y k data) born) (by rw [unborn]; exact Bool.false_ne_true)

/-- From one link to the next the streams of a side are given these chunks. -/
def Gives (y : Side) (l l' : Link) (chunks : List (Nat × Bytes)) : Prop :=
  ∀ (k : Nat) (given : Bytes), l.Given y k given → (given ++ bytesOf k chunks).length ≤ u64Max →
    l'.Given y k (given ++ bytesOf k chunks)

theorem Gives.trans {first second : List (Nat × Bytes)} (early : Gives y l l' first) (late : Gives y l' l'' second) :
    Gives y l l'' (first ++ second) := by
  intro k given held counted
  rw [bytesOf_append,← List.append_assoc] at counted ⊢
  refine late k _ (early k given held ?_) counted
  rw [List.length_append] at counted
  omega

/-- Calls that write nothing give nothing. -/
theorem gives_reaches {ok : Action → Prop} (reaches : Reaches ok l l') (safe : l.Safe)
    (unwritten : ∀ a k data, ok a → a ≠ .write y k data) : Gives y l l' [] := by
  intro k given held _
  rw [bytesOf_nil,List.append_nil]
  exact (reaches.keeps (fun l => l.Safe ∧ l.Given y k given)
    (fun l a both allowed => ⟨step_safe both.1 a,both.2.step both.1 (fun data => unwritten a k data allowed)⟩) ⟨safe,held⟩).2

theorem Gives.refl (y : Side) (l : Link) : Gives y l l [] := by
  intro k given held _
  rw [bytesOf_nil,List.append_nil]
  exact held

theorem gives_write (safe : l.Safe) (born : l.born y k = true) (data : Bytes) :
    Gives y l (l.step (.write y k data)) [(k,data)] := by
  intro j given held counted
  by_cases same : k = j
  · subst same
    rw [bytesOf_same] at counted ⊢
    exact held.write safe born counted
  · rw [bytesOf_other same,List.append_nil]
    exact held.step safe (fun data' eq => by cases eq; exact same rfl)

/-- Nothing is written for no bytes. -/
theorem gives_empty (y : Side) (l : Link) (k : Nat) : Gives y l l [(k,[])] := by
  intro j given held _
  have none : bytesOf j [(k,([] : Bytes))] = [] := by
    by_cases same : k = j
    · subst same
      exact bytesOf_same []
    · exact bytesOf_other same []
  rw [none,List.append_nil]
  exact held

end Link

namespace Driver

variable {x : Side} {k : Nat} {l : Link} {d : Driver} {pending : List StreamEvent} {io : Io}

/-- What is read of a connection's socket. -/
def socketGives (x : Side) (k : Nat) (reads : List ReadResult) (l : Link) (c : ForwardConn) : Bytes :=
  if (l.mux x).inFlight k < sendCap then (c.readTcp reads).1 else []

theorem drainSocket_gives (safe : l.Safe) (born : l.born x k = true) (reads : List ReadResult) (c : ForwardConn) :
    Link.Gives x l (drainSocket x k reads l c).1 [(k,socketGives x k reads l c)] := by
  unfold drainSocket socketGives
  split
  · dsimp only
    split
    · rename_i none
      rw [List.isEmpty_iff.mp none]
      exact Link.gives_empty x l k
    · exact Link.gives_write safe born _
  · exact Link.gives_empty x l k

/-- What one connection's share of a pump takes of its socket. -/
def connGives (x : Side) (k : Nat) (io : StreamIo) (l : Link) (c : ForwardConn) : Bytes :=
  let flushed := c.flush io.writes
  let fed := feedSocket x k ((l.mux x).recvBuffered k + 1) l flushed.1 flushed.2
  socketGives x k io.reads fed.1 fed.2

theorem pumpConn_gives (safe : l.Safe) (born : l.born x k = true) (io : StreamIo) (c : ForwardConn) :
    Link.Gives x l (pumpConn x k io l c).1 [(k,connGives x k io l c)] := by
  unfold pumpConn connGives
  dsimp only
  have reads := feedSocket_reaches (x := x) (k := k) ((l.mux x).recvBuffered k + 1) l (c.flush io.writes).1 (c.flush io.writes).2
  generalize feedSocket x k ((l.mux x).recvBuffered k + 1) l (c.flush io.writes).1 (c.flush io.writes).2 = fed at reads ⊢
  have fedSafe : fed.1.Safe := reads.keeps Link.Safe (fun l a safe _ => Link.step_safe safe a) safe
  have fedGives := Link.gives_reaches (y := x) reads safe (fun a k data same eq => by cases same; cases eq)
  have drained := drainSocket_gives fedSafe (reads.born born) io.reads fed.2
  have drains := drainSocket_reaches (x := x) (k := k) io.reads fed.1 fed.2
  have drainSafe := drains.keeps Link.Safe (fun l a safe _ => Link.step_safe safe a) fedSafe
  refine (fedGives.trans drained).trans (?_ : Link.Gives x _ _ [])
  have passes : Link.Reaches (· = .close x k 0) (drainSocket x k io.reads fed.1 fed.2).1
      (passFin x k (drainSocket x k io.reads fed.1 fed.2).1 (drainSocket x k io.reads fed.1 fed.2).2).1 := by
    unfold passFin
    dsimp only
    split
    · exact .step _ rfl
    · exact .refl _
  exact Link.gives_reaches passes drainSafe (fun a k data same eq => by cases same; cases eq)

/-- What a command is read of. -/
def outputGives (x : Side) (id : Nat) (read : ExecProc → Bytes × ExecProc) (l : Link) (p : ExecProc) : Bytes :=
  if (l.mux x).inFlight id < sendCap then (read p).1 else []

theorem drainOutput_gives (safe : l.Safe) {id : Nat} (born : l.born x id = true)
    (read : ExecProc → Bytes × ExecProc) (p : ExecProc) :
    Link.Gives x l (drainOutput x id read l p).1 [(id,outputGives x id read l p)] := by
  unfold drainOutput outputGives
  split
  · dsimp only
    split
    · rename_i none
      rw [List.isEmpty_iff.mp none]
      exact Link.gives_empty x l id
    · exact Link.gives_write safe born _
  · exact Link.gives_empty x l id

/-- What one command's share of a pump takes of its two outputs. -/
def procGives (x : Side) (k errId : Nat) (io : StreamIo) (l : Link) (p : ExecProc) : List (Nat × Bytes) :=
  let fed := feedStdin x k ((l.mux x).recvBuffered k + 1) l p io.writes
  let flushed := fed.2.1.flushStdin fed.2.2
  let out := drainOutput x k (·.readStdout io.reads) fed.1 flushed.1
  [(k,outputGives x k (·.readStdout io.reads) fed.1 flushed.1),(errId,outputGives x errId (·.readStderr io.errors) out.1 out.2)]

theorem pumpProc_gives (safe : l.Safe) {errId : Nat} (born : l.born x k = true) (born' : l.born x errId = true) (io : StreamIo)
    (p : ExecProc) : Link.Gives x l (pumpProc x k errId io l p).1 (procGives x k errId io l p) := by
  unfold pumpProc procGives
  dsimp only
  have reads := feedStdin_reaches (x := x) (k := k) ((l.mux x).recvBuffered k + 1) l p io.writes
  generalize feedStdin x k ((l.mux x).recvBuffered k + 1) l p io.writes = fed at reads ⊢
  have fedSafe : fed.1.Safe := reads.keeps Link.Safe (fun l a safe _ => Link.step_safe safe a) safe
  have fedGives := Link.gives_reaches (y := x) reads safe (fun a k data same eq => by cases same; cases eq)
  have out := drainOutput_gives fedSafe (reads.born born) (·.readStdout io.reads) (fed.2.1.flushStdin fed.2.2).1
  have outs := drainOutput_reaches (x := x) k (·.readStdout io.reads) fed.1 (fed.2.1.flushStdin fed.2.2).1
  generalize drainOutput x k (·.readStdout io.reads) fed.1 (fed.2.1.flushStdin fed.2.2).1 = drained at out outs ⊢
  have outSafe := outs.keeps Link.Safe (fun l a safe _ => Link.step_safe safe a) fedSafe
  exact (fedGives.trans out).trans (drainOutput_gives outSafe (outs.born (reads.born born')) (·.readStderr io.errors) drained.2)

def forwardGives (x : Side) (io : Io) (d : Driver) (k : Nat) : List (Nat × Bytes) :=
  match d.forwards[k]? with
  | some c => [(k,connGives x k (io k) d.link c)]
  | none => []

def execGives (x : Side) (io : Io) (d : Driver) (k : Nat) : List (Nat × Bytes) :=
  match d.execs[k]? with
  | some e => procGives x k e.errId (io k) d.link e.proc
  | none => []

/-- What a pump takes of the sockets and the commands, in order. -/
def pumpGives (x : Side) (io : Io) (d : Driver) : List (Nat × Bytes) :=
  let events := (d.link.mux x).events
  let d := events.foldl (handleEvent x io) { d with link := d.link.step (.takeEvents x) }
  Machine.observed (pumpForward x io) (forwardGives x io) d.forwards.keys d ++
    Machine.observed (pumpExec x io) (execGives x io) (d.forwards.keys.foldl (pumpForward x io) d).execs.keys
      (d.forwards.keys.foldl (pumpForward x io) d)

/-- Each command has a stream for its errors. -/
def Paired (x : Side) (d : Driver) : Prop := ∀ (k : Nat) (e : ExecState), d.execs[k]? = some e → d.link.born x e.errId = true

/-- A command after an event is one from before it, or has just been started. -/
theorem handleEvent_starts {event : StreamEvent} {e : ExecState} (held : (d.handleEvent x io event).execs[k]? = some e) :
    (∃ own, d.execs[k]? = some own ∧ own.errId = e.errId) ∨
      (d.handleEvent x io event).link = d.link.step (.openStream x .exec []) ∧ e.errId = (d.link.mux x).nextLocalId := by
  cases event with
  | readable j => exact .inl ⟨e,held,rfl⟩
  | opened j kind metadata =>
    cases kind with
    | exec =>
      cases x with
      | client => exact .inl ⟨e,held,rfl⟩
      | server =>
        simp only [handleEvent,onOpened] at held ⊢
        by_cases refuses : d.privsep = true
        · rw [if_pos refuses] at held
          exact .inl ⟨e,held,rfl⟩
        · rw [if_neg refuses] at held ⊢
          by_cases started : (io j).started = true
          · rw [if_pos started] at held ⊢
            by_cases same : k = j
            · subst same
              rw [Std.TreeMap.getElem?_insert_self] at held
              cases held
              exact .inr ⟨rfl,rfl⟩
            · exact .inl ⟨e,(TreeMaps.getElem?_insert_ne _ _ same).symm.trans held,rfl⟩
          · rw [if_neg started] at held
            exact .inl ⟨e,held,rfl⟩
    | forward =>
      refine .inl ⟨e,?_,rfl⟩
      simp only [handleEvent,onOpened] at held
      split at held <;> exact held
    | session | fileTransfer | agent => exact .inl ⟨e,held,rfl⟩
  | closed j status =>
    simp only [handleEvent,onClosed] at held
    cases there : d.execs[j]? with
    | none =>
      rw [there] at held
      exact .inl ⟨e,held,rfl⟩
    | some own =>
      rw [there] at held
      by_cases same : k = j
      · subst same
        rw [Std.TreeMap.getElem?_insert_self] at held
        cases held
        exact .inl ⟨own,there,rfl⟩
      · exact .inl ⟨e,(TreeMaps.getElem?_insert_ne _ _ same).symm.trans held,rfl⟩
  | reset j =>
    simp only [handleEvent,onReset] at held
    cases there : d.execs[j]? with
    | none =>
      rw [there] at held
      exact .inl ⟨e,held,rfl⟩
    | some own =>
      rw [there] at held
      by_cases same : k = j
      · subst same
        simp at held
      · exact .inl ⟨e,(TreeMaps.getElem?_erase_ne _ same).symm.trans held,rfl⟩

theorem opened_born (safe : l.Safe) (x : Side) (kind : StreamKind) (metadata : Bytes) :
    (l.step (.openStream x kind metadata)).born x (l.mux x).nextLocalId = true := by
  have lane := congrFun (Link.lane_step safe.keyed (.openStream x kind metadata) (l.mux x).nextLocalId) x
  simp only [Link.event,if_true,Lane.step,Lane.onSide_same] at lane
  exact congrArg Endpoint.born lane

theorem handleEvent_paired {event : StreamEvent} (paired : d.Paired x) (safe : d.link.Safe) :
    (d.handleEvent x io event).Paired x := by
  intro k e held
  rcases handleEvent_starts held with ⟨own,there,same⟩ | ⟨opens,fresh⟩
  · rw [← same]
    exact (d.handleEvent_reaches io event).born (paired k own there)
  · rw [opens,fresh]
    exact opened_born safe x .exec []

/-- No event writes to a stream. -/
theorem handleEvent_unwritten (d : Driver) (x : Side) (io : Io) (event : StreamEvent) :
    Link.Reaches (fun a => ∀ k data, a ≠ .write x k data) d.link (d.handleEvent x io event).link := by
  have same : Link.Reaches (fun a => ∀ k data, a ≠ .write x k data) d.link d.link := .refl d.link
  have call : ∀ a : Link.Action, (∀ k data, a ≠ .write x k data) →
      Link.Reaches (fun a => ∀ k data, a ≠ .write x k data) d.link (d.link.step a) := fun a other => .step d.link other
  cases event with
  | readable j => exact same
  | opened j kind metadata =>
    cases kind with
    | forward =>
      simp only [handleEvent,onOpened]
      split
      · exact same
      · exact call _ (fun _ _ eq => by cases eq)
    | exec =>
      cases x with
      | client => exact same
      | server =>
        simp only [handleEvent,onOpened]
        split
        · exact call _ (fun _ _ eq => by cases eq)
        · split <;> exact call _ (fun _ _ eq => by cases eq)
    | session | fileTransfer | agent => exact same
  | closed j status =>
    simp only [handleEvent,onClosed]
    split <;> exact same
  | reset j =>
    simp only [handleEvent,onReset]
    split
    · exact call _ (fun _ _ eq => by cases eq)
    · exact same

theorem pumpForward_execs (d : Driver) (x : Side) (io : Io) (k : Nat) : (d.pumpForward x io k).execs = d.execs := by
  unfold pumpForward
  split
  · dsimp only
    split <;> rfl
  · rfl

theorem pumpForward_paired (paired : d.Paired x) (k : Nat) : (d.pumpForward x io k).Paired x := by
  intro j e held
  rw [pumpForward_execs] at held
  exact (d.pumpForward_reaches io k).born (paired j e held)

theorem pumpExec_paired (paired : d.Paired x) (k : Nat) : (d.pumpExec x io k).Paired x := by
  intro j e held
  refine (d.pumpExec_reaches io k).born ?_
  unfold pumpExec at held
  cases there : d.execs[k]? with
  | none =>
    rw [there] at held
    exact paired j e held
  | some own =>
    rw [there] at held
    dsimp only at held
    by_cases same : j = k
    · subst same
      split at held
      · simp at held
      · rw [Std.TreeMap.getElem?_insert_self] at held
        cases held
        exact paired j own there
    · split at held
      · exact paired j e ((TreeMaps.getElem?_erase_ne _ same).symm.trans held)
      · exact paired j e ((TreeMaps.getElem?_insert_ne _ _ same).symm.trans held)

theorem pumpForward_gives (taken : d.Taken x pending) (k : Nat) :
    Link.Gives x d.link (d.pumpForward x io k).link (forwardGives x io d k) := by
  unfold pumpForward forwardGives
  cases held : d.forwards[k]? with
  | none => exact .refl x d.link
  | some c =>
    have born := (taken.1.busy (k := k) (fun idle => by rw [idle.1] at held; cases held)).2
    have gives := pumpConn_gives taken.1.safe born (io k) c
    dsimp only
    split <;> exact gives

theorem pumpExec_gives (taken : d.Taken x pending) (paired : d.Paired x) (k : Nat) :
    Link.Gives x d.link (d.pumpExec x io k).link (execGives x io d k) := by
  unfold pumpExec execGives
  cases held : d.execs[k]? with
  | none => exact .refl x d.link
  | some e =>
    have born := (taken.1.busy (k := k) (fun idle => by rw [idle.2.1] at held; cases held)).2
    have gives := pumpProc_gives taken.1.safe born (paired k e held) (io k) e.proc
    have safe := (pumpProc_spec e.errId (io k) taken.1.safe taken.1.announced (taken.1.feeds k e held)).1.safe
    dsimp only
    generalize pumpProc x k e.errId (io k) d.link e.proc = pumped at gives safe ⊢
    split
    · have ends : Link.Reaches (fun a => ∃ j status, a = .close x j status) pumped.1
          ((pumped.1.step (.close x k pumped.2.exitCode)).step (.close x e.errId 0)) :=
        (Link.Reaches.step _ ⟨_,_,rfl⟩).trans (.step _ ⟨_,_,rfl⟩)
      have later := gives.trans (Link.gives_reaches (y := x) ends safe (fun a j data close eq => by
        obtain ⟨i,status,rfl⟩ := close
        cases eq))
      rw [List.append_nil] at later
      exact later
    · exact gives

/-- What holds between the parts of a pump. -/
structure Pumps (x : Side) (l : Link) (chunks : List (Nat × Bytes)) (pending : List StreamEvent) (d : Driver) : Prop where
  taken : d.Taken x pending
  paired : d.Paired x
  gives : Link.Gives x l d.link chunks

theorem Pumps.event {chunks : List (Nat × Bytes)} {event : StreamEvent}
    (pumps : d.Pumps x l chunks (event :: pending)) (io : Io) :
    (d.handleEvent x io event).Pumps x l chunks pending := by
  refine ⟨pumps.taken.handle io,handleEvent_paired pumps.paired pumps.taken.1.safe,?_⟩
  have both := pumps.gives.trans (Link.gives_reaches (y := x) (d.handleEvent_unwritten x io event) pumps.taken.1.safe
    (fun _ k data other => other k data))
  rw [List.append_nil] at both
  exact both

theorem Pumps.forward {chunks : List (Nat × Bytes)} (pumps : d.Pumps x l chunks pending) (io : Io) (k : Nat) :
    (d.pumpForward x io k).Pumps x l (chunks ++ forwardGives x io d k) pending :=
  ⟨pumps.taken.forward io k,pumpForward_paired pumps.paired k,pumps.gives.trans (pumpForward_gives pumps.taken k)⟩

theorem Pumps.exec {chunks : List (Nat × Bytes)} (pumps : d.Pumps x l chunks pending) (io : Io) (k : Nat) :
    (d.pumpExec x io k).Pumps x l (chunks ++ execGives x io d k) pending :=
  ⟨pumps.taken.exec io k,pumpExec_paired pumps.paired k,pumps.gives.trans (pumpExec_gives pumps.taken pumps.paired k)⟩

/-- A pump gives the streams what it takes of the sockets and the commands. -/
theorem pump_pumps (rests : d.Rests x) (paired : d.Paired x) (io : Io) : (d.pump x io).Pumps x d.link (d.pumpGives x io) [] := by
  have start : Pumps x d.link [] (d.link.mux x).events { d with link := d.link.step (.takeEvents x) } := by
    refine ⟨Valid.take rests,fun k e held => Link.step_born d.link _ (paired k e held),?_⟩
    exact Link.gives_reaches (Link.Reaches.step d.link rfl) rests.safe (fun a k data same eq => by cases same; cases eq)
  have events : ∀ (events : List StreamEvent) (e : Driver), e.Pumps x d.link [] events →
      (events.foldl (handleEvent x io) e).Pumps x d.link [] [] := by
    intro events
    induction events with
    | nil => exact fun _ here => here
    | cons event rest ih => exact fun e here => ih _ (here.event io)
  have forwards := fun keys (chunks : List (Nat × Bytes)) (e : Driver) => Machine.run_observed_always (forwardGives x io)
    (fun chunks e => e.Pumps x d.link chunks []) (fun _ _ k here => here.forward io k) keys chunks e
  have execs := fun keys (chunks : List (Nat × Bytes)) (e : Driver) => Machine.run_observed_always (execGives x io)
    (fun chunks e => e.Pumps x d.link chunks []) (fun _ _ k here => here.exec io k) keys chunks e
  unfold pump pumpGives
  dsimp only
  have handled := events _ _ start
  generalize List.foldl (handleEvent x io) { d with link := d.link.step (.takeEvents x) } (d.link.mux x).events = e at handled ⊢
  have moved := forwards e.forwards.keys [] e handled
  rw [Machine.run_eq_foldl,List.nil_append] at moved
  generalize e.forwards.keys.foldl (pumpForward x io) e = e' at moved ⊢
  have run := execs e'.execs.keys _ e' moved
  rw [Machine.run_eq_foldl] at run
  exact run

/-- What is given when a connection is accepted: what its SOCKS client sent early. -/
theorem accept_pumps (rests : d.Rests x) (paired : d.Paired x) (kind : StreamKind) (metadata leftover : Bytes) :
    (d.accept x kind metadata leftover).Paired x ∧
      Link.Gives x d.link (d.accept x kind metadata leftover).link [((d.link.mux x).nextLocalId,leftover)] := by
  refine ⟨fun k e held => (d.accept_reaches kind metadata leftover).born (paired k e held),?_⟩
  have opens := Link.gives_reaches (y := x) (Link.Reaches.step d.link (a := .openStream x kind metadata) rfl) rests.safe
    (fun a k data same eq => by cases same; cases eq)
  have safe := Link.step_safe rests.safe (.openStream x kind metadata)
  unfold accept
  dsimp only
  split
  · rename_i none
    rw [List.isEmpty_iff.mp none]
    exact opens.trans (Link.gives_empty x _ _)
  · exact opens.trans (Link.gives_write safe (opened_born rests.safe x kind metadata) leftover)

end Driver
end Noissh

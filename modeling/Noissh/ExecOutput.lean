import Noissh.ExecEnds

/-! A remote command's outputs over every run: when its exit code may be returned with all it
printed written to the local descriptors. -/
namespace Noissh

/-- The next poll may end the grace window. -/
def StreamState.expiring (s : StreamState) : Bool :=
  s.peerFin == .opened && decide (closeGraceTicks ≤ s.closeTicks + 1)

theorem StreamState.expiring_of_graceEnds {s : StreamState} (ends : s.graceEnds = true) : s.expiring = true := by
  simp only [graceEnds,awaitsFin,Bool.and_eq_true] at ends
  simp only [expiring,Bool.and_eq_true]
  exact ⟨ends.1.2,ends.2⟩

/-- Calls of a side leave the grace window of its stream alone. -/
theorem Lane.step_expiring {id : Nat} {v : Lane} {y : Side} {e : Lane.Event}
    (call : e = .idle ∨ e = .read y ∨ (∃ data, e = .write y data) ∨ ∃ status, e = .close y status) {t : StreamState}
    (here : (v.step id e y).stream = some t) : ∃ s, (v y).stream = some s ∧ s.expiring = t.expiring := by
  rcases call with rfl | rfl | ⟨data,rfl⟩ | ⟨status,rfl⟩
  · exact ⟨t,here,rfl⟩
  · simp only [Lane.step,onSide_same,Endpoint.read] at here
    cases before : (v y).stream with
    | none => simp [before] at here
    | some s =>
      simp only [before,Option.some.injEq] at here
      subst here
      exact ⟨s,rfl,rfl⟩
  · simp only [Lane.step,onSide_same,Endpoint.write] at here
    cases before : (v y).stream with
    | none => simp [before] at here
    | some s =>
      simp only [before] at here
      split at here
      · cases here
        exact ⟨s,rfl,rfl⟩
      · rw [before] at here
        cases here
        exact ⟨t,rfl,rfl⟩
  · simp only [Lane.step,onSide_same,Endpoint.close] at here
    cases before : (v y).stream with
    | none => simp [before] at here
    | some s =>
      simp only [before,Option.some.injEq] at here
      subst here
      exact ⟨s,rfl,rfl⟩

/-- The event announces a stream of a command. -/
def StreamEvent.opensAnyExec : StreamEvent → Bool
  | opened _ .exec _ => true
  | _ => false

namespace ExecLoop

/-- What the events of one iteration tell. -/
structure Hears (events : List StreamEvent) (c c' : ExecLoop) : Prop where
  mine : c'.e = c.e
  stdout : c'.stdout = c.stdout
  stderr : c'.stderr = c.stderr
  opened : ∀ s, c'.errId = some s → c.errId = some s ∨ ∃ metadata, .opened s .exec metadata ∈ events
  closed : c'.exitCode ≠ none → c.exitCode ≠ none ∨ ∃ status, .closed c.e status ∈ events
  outcome : c'.outcome = c.outcome ∨ c'.outcome = some .refused
  noticed : c'.outcome = none → c'.errId = none → c.errId = none ∧ events.any StreamEvent.opensAnyExec = false

/-- An event that changes at most the exit code and the known stderr, ahead of the others. -/
theorem Hears.cons {event : StreamEvent} {events : List StreamEvent} {c mid c' : ExecLoop} (rest : Hears events mid c')
    (same : mid.e = c.e ∧ mid.stdout = c.stdout ∧ mid.stderr = c.stderr ∧ mid.outcome = c.outcome)
    (opened : ∀ s, mid.errId = some s → c.errId = some s ∨ ∃ metadata, event = .opened s .exec metadata)
    (closed : mid.exitCode ≠ none → c.exitCode ≠ none ∨ ∃ status, event = .closed c.e status)
    (noticed : mid.errId = none → c.errId = none ∧ event.opensAnyExec = false) : Hears (event :: events) c c' where
  mine := rest.mine.trans same.1
  stdout := rest.stdout.trans same.2.1
  stderr := rest.stderr.trans same.2.2.1
  opened s here := by
    rcases rest.opened s here with before | ⟨metadata,member⟩
    · rcases opened s before with old | ⟨metadata,now⟩
      · exact .inl old
      · exact .inr ⟨metadata,by rw [now]; exact List.mem_cons_self⟩
    · exact .inr ⟨metadata,List.mem_cons_of_mem _ member⟩
  closed here := by
    rcases rest.closed here with before | ⟨status,member⟩
    · rcases closed before with old | ⟨status,now⟩
      · exact .inl old
      · exact .inr ⟨status,by rw [now]; exact List.mem_cons_self⟩
    · exact .inr ⟨status,List.mem_cons_of_mem _ (same.1 ▸ member)⟩
  outcome := rest.outcome.imp (fun kept => kept.trans same.2.2.2) id
  noticed running none := by
    obtain ⟨before,later⟩ := rest.noticed running none
    obtain ⟨old,now⟩ := noticed before
    exact ⟨old,by rw [List.any_cons,now,later]; rfl⟩

theorem handleEvents_hears (events : List StreamEvent) (c : ExecLoop) : Hears events c (c.handleEvents events) := by
  fun_induction handleEvents events c with
  | case1 c => exact ⟨rfl,rfl,rfl,fun s here => .inl here,.inl,.inl rfl,fun _ none => ⟨none,rfl⟩⟩
  | case2 id metadata rest c ih =>
    refine ih.cons ⟨rfl,rfl,rfl,rfl⟩ (fun s here => ?_) .inl (by simp)
    cases here
    exact .inr ⟨metadata,rfl⟩
  | case3 rest c => exact ⟨rfl,rfl,rfl,fun s here => .inl here,.inl,.inr rfl,by simp⟩
  | case4 id rest c other ih => exact ih.cons ⟨rfl,rfl,rfl,rfl⟩ (fun s here => .inl here) .inl (fun none => ⟨none,rfl⟩)
  | case5 id status rest c ih =>
    split at ih
    · rename_i mine
      rw [if_pos mine]
      exact ih.cons ⟨rfl,rfl,rfl,rfl⟩ (fun s here => .inl here) (fun _ => .inr ⟨status,by rw [mine]⟩)
        (fun none => ⟨none,rfl⟩)
    · rename_i other
      rw [if_neg other]
      exact ih.cons ⟨rfl,rfl,rfl,rfl⟩ (fun s here => .inl here) .inl (fun none => ⟨none,rfl⟩)
  | case6 event rest c notExec notReset notClosed ih =>
    refine ih.cons ⟨rfl,rfl,rfl,rfl⟩ (fun s here => .inl here) .inl (fun none => ⟨none,?_⟩)
    unfold StreamEvent.opensAnyExec
    split
    · exact absurd rfl (fun same => notExec _ _ same)
    · rfl

end ExecLoop

namespace ExecRun

variable {e : Nat} {o : Option Nat} {l l' : Link} {printed : Bytes × Bytes} {pending : List StreamEvent} {c c' : ExecLoop}

/-- The client's side: it has written what it read, the streams it believes finished were read
whole, and what it returned was complete. -/
structure Listener (e : Nat) (o : Option Nat) (printed : Bytes × Bytes) (pending : List StreamEvent) (c : ExecLoop)
    (l : Link) : Prop where
  mine : c.e = e
  stdout : c.stdout = l.got .client e
  heard : ∀ s, c.errId = some s → o = some s ∧ l.born .client s = true
  stderr : ∀ s, o = some s → c.stderr = l.got .client s
  silent : o = none → c.stderr = []
  code : c.exitCode ≠ none → l.closedAt .server e ≠ none
  whole : Fair e o pending l → Lane.Reclaimed (l.lane e) .client
  stays : ∀ s, o = some s → Lane.Stays (l.lane s) .client
  complete : ∀ code, c.outcome = some (.exited code) →
    l.closedAt .server e ≠ none ∧ c.stdout = printed.1 ∧ c.stderr = printed.2

/-- Calls of the server leave the client alone, who has not heard of a stream opened by them. -/
theorem Listener.serves {o' : Option Nat} {printed' : Bytes × Bytes} {pending' : List StreamEvent}
    (listens : Listener e o printed pending c l) (safe : l.Safe) (client : ∀ k, l'.lane k .client = l.lane k .client)
    (closed : ∀ n, l.closedAt .server e = some n → l'.closedAt .server e = some n)
    (fair : Fair e o' pending' l' → Fair e o pending l)
    (grown : o' = o ∨ o = none ∧ ∃ s, o' = some s ∧ l.born .client s = false)
    (same : ∀ code, c.outcome = some (.exited code) → printed' = printed) : Listener e o' printed' pending' c l' := by
  have got : ∀ k, l'.got .client k = l.got .client k := fun k => congrArg Endpoint.got (client k)
  have closed' : l.closedAt .server e ≠ none → l'.closedAt .server e ≠ none := by
    intro before
    obtain ⟨n,present⟩ := Option.ne_none_iff_exists'.mp before
    rw [closed n present]
    simp
  refine ⟨listens.mine,listens.stdout.trans (got e).symm,
    fun s here => ?_,fun s spawned => ?_,fun none => ?_,fun known => closed' (listens.code known),
    fun isFair born gone => ?_,fun s spawned => ?_,fun code exited => ?_⟩
  · obtain ⟨spawned,born⟩ := listens.heard s here
    refine ⟨?_,(congrArg Endpoint.born (client s)).trans born⟩
    rcases grown with rfl | ⟨none,_⟩
    · exact spawned
    · rw [none] at spawned
      cases spawned
  · rw [got s]
    rcases grown with rfl | ⟨none,t,spawned',unborn⟩
    · exact listens.stderr s spawned
    · obtain rfl : t = s := Option.some.inj (spawned'.symm.trans spawned)
      rw [listens.silent none]
      exact (((safe.lanes t).life .client).records unborn).2.1.symm
  · rcases grown with rfl | ⟨_,t,spawned',_⟩
    · exact listens.silent none
    · rw [none] at spawned'
      cases spawned'
  · rw [client e] at born gone ⊢
    obtain ⟨n,present,reach⟩ := listens.whole (fair isFair) born gone
    exact ⟨n,closed n present,reach⟩
  · unfold Lane.Stays
    rw [client s]
    rcases grown with rfl | ⟨_,t,spawned',unborn⟩
    · exact listens.stays s spawned
    · obtain rfl : t = s := Option.some.inj (spawned'.symm.trans spawned)
      refine ⟨(((safe.lanes t).life .client).records unborn).2.2,fun born => ?_⟩
      exact absurd (show l.born .client t = true from born) (by rw [unborn]; simp)
  · obtain ⟨ended,out,err⟩ := listens.complete code exited
    rw [same code exited]
    exact ⟨closed' ended,out,err⟩

variable {d : Driver}

/-- The link moves. What the loop has written follows what it reads. -/
theorem Listener.step {pending' : List StreamEvent} (listens : Listener e o printed pending c l) (safe : l.Safe)
    (outGraceful : Fair e o pending l → ∀ y, (l.lane e y).Graceful)
    (errGraceful : ∀ s, o = some s → ∀ y, (l.lane s y).Graceful) {a : Link.Action}
    (same : c'.e = c.e ∧ c'.errId = c.errId ∧ c'.exitCode = c.exitCode ∧ c'.outcome = c.outcome)
    (stdout : c'.stdout = (l.step a).got .client e)
    (stderr : ∀ s, o = some s → c'.stderr = (l.step a).got .client s) (silent : o = none → c'.stderr = [])
    (running : c'.outcome = none ∨ c'.stdout = c.stdout ∧ c'.stderr = c.stderr)
    (unclosed : ∀ s, o = some s → ∀ status, a ≠ .close .client s status)
    (grace : ∀ s, a = .poll .client → l.stream .client e = some s → s.graceEnds = true →
      ∃ n, l.closedAt .server e = some n ∧ n ≤ (l.got .client e).length)
    (fair : Fair e o pending' (l.step a) → Fair e o pending l) : Listener e o printed pending' c' (l.step a) := by
  obtain ⟨mine,errId,exitCode,outcome⟩ := same
  have closed : l.closedAt .server e ≠ none → (l.step a).closedAt .server e ≠ none := by
    intro before
    obtain ⟨n,present⟩ := Option.ne_none_iff_exists'.mp before
    rw [Link.step_closedAt_kept l safe a present]
    simp
  refine ⟨mine.trans listens.mine,stdout,fun s here => ?_,stderr,silent,
    fun known => closed (listens.code (exitCode ▸ known)),fun isFair => ?_,fun s spawned => ?_,fun code exited => ?_⟩
  · obtain ⟨spawned,born⟩ := listens.heard s (errId ▸ here)
    exact ⟨spawned,Link.step_born l a born⟩
  · have before := fair isFair
    rw [Link.lane_step safe.keyed]
    refine Lane.step_reclaimed_side (safe.lanes e) (outGraceful before) (listens.whole before)
      (fun now s polled held ends => ?_)
    exact grace s (Link.event_poll polled) held ends
  · rw [Link.lane_step safe.keyed]
    refine Lane.step_stays (safe.lanes s) (errGraceful s spawned) (listens.stays s spawned) (fun status closes => ?_)
    exact unclosed s spawned status (Link.event_close closes)
  · rcases running with none | ⟨out,err⟩
    · rw [none] at exited
      cases exited
    · obtain ⟨ended,whole⟩ := listens.complete code (outcome ▸ exited)
      rw [out,err]
      exact ⟨closed ended,whole⟩

/-- Both sides of a run. -/
structure Sound (r : ExecRun) : Prop where
  host : Host r.loop.e r.errId r.printed (r.server.link.mux .server).events r.server
  listens : Listener r.loop.e r.errId r.printed (r.server.link.mux .server).events r.loop r.server.link

variable {r : ExecRun}

theorem Sound.outGraceful (sound : r.Sound)
    (fair : Fair r.loop.e r.errId (r.server.link.mux .server).events r.server.link) (y : Side) :
    (r.server.link.lane r.loop.e y).Graceful := (sound.host.out fair).graceful y

theorem Sound.errGraceful (sound : r.Sound) (s : Nat) (spawned : r.errId = some s) (y : Side) :
    (r.server.link.lane s y).Graceful := (sound.host.err s spawned).2.2.graceful y

/-- The next stream of either side is not one of the command's. -/
theorem Sound.fresh (sound : r.Sound) (y : Side) {k : Nat} (mine : k = r.loop.e ∨ r.errId = some k) :
    (r.server.link.mux y).nextLocalId ≠ k := by
  have safe := sound.host.wire.safe
  have unborn := (safe.numbered y).fresh _ (Nat.le_refl _) (safe.numbered y).next
  rintro rfl
  rcases mine with here | spawned
  · have born := sound.host.wire.born
    rw [← here,unborn] at born
    cases born
  · have born := (sound.host.err _ spawned).2.1.born
    rw [unborn] at born
    cases born

theorem Sound.opening (sound : r.Sound) {a : Link.Action}
    (plain : ∀ y kind metadata, a = .openStream y kind metadata → kind ≠ .exec) (y : Side) (kind : StreamKind)
    (metadata : Bytes) (same : a = .openStream y kind metadata) : kind = .exec ↔
      (r.server.link.mux y).nextLocalId = r.loop.e ∨ r.errId = some (r.server.link.mux y).nextLocalId :=
  iff_of_false (plain y kind metadata same) (fun mine => sound.fresh y mine rfl)

/-- The link moves without the driver. What the loop has written follows what it reads. -/
theorem Sound.move (sound : r.Sound) (a : Link.Action) (c' : ExecLoop) (serverKept : Link.takesAt .server a = false)
    (clientKept : Link.takesAt .client a = false) (unread : ∀ j, a ≠ .read .server j)
    (opening : ∀ y kind metadata, a = .openStream y kind metadata → kind ≠ .exec)
    (aside : ∀ k, k = r.loop.e ∨ r.errId = some k → (r.server.link.event k a).aside)
    (same : c'.e = r.loop.e ∧ c'.errId = r.loop.errId ∧ c'.exitCode = r.loop.exitCode ∧ c'.outcome = r.loop.outcome)
    (stdout : c'.stdout = (r.server.link.step a).got .client r.loop.e)
    (stderr : ∀ s, r.errId = some s → c'.stderr = (r.server.link.step a).got .client s)
    (silent : r.errId = none → c'.stderr = [])
    (running : c'.outcome = none ∨ c'.stdout = r.loop.stdout ∧ c'.stderr = r.loop.stderr)
    (unclosed : ∀ s, r.errId = some s → ∀ status, a ≠ .close .client s status)
    (grace : ∀ s, a = .poll .client → r.server.link.stream .client r.loop.e = some s → s.graceEnds = true →
      ∃ n, r.server.link.closedAt .server r.loop.e = some n ∧ n ≤ (r.server.link.got .client r.loop.e).length) :
    Sound { r with server := { r.server with link := r.server.link.step a }, loop := c' } := by
  have host := sound.host.link serverKept clientKept unread (sound.opening opening) aside
  have listens := sound.listens.step sound.host.wire.safe sound.outGraceful sound.errGraceful same stdout stderr silent
    running unclosed grace (fun fair => fair.step sound.host.wire.safe serverKept)
  rw [← same.1] at host listens
  exact ⟨host,listens⟩

/-- The link moves without the driver and without the loop. -/
theorem Sound.link (sound : r.Sound) {a : Link.Action} (serverKept : Link.takesAt .server a = false)
    (clientKept : Link.takesAt .client a = false) (unread : ∀ j, a ≠ .read .server j)
    (opening : ∀ y kind metadata, a = .openStream y kind metadata → kind ≠ .exec)
    (aside : ∀ k, k = r.loop.e ∨ r.errId = some k →
      (r.server.link.event k a).aside ∧ a ≠ .read .client k ∧ ∀ status, a ≠ .close .client k status)
    (unpolled : a ≠ .poll .client) : Sound { r with server := { r.server with link := r.server.link.step a } } := by
  have got : ∀ k, k = r.loop.e ∨ r.errId = some k → (r.server.link.step a).got .client k = r.server.link.got .client k :=
    fun k mine => Link.step_got _ (aside k mine).2.1
  exact sound.move a r.loop serverKept clientKept unread opening (fun k mine => (aside k mine).1) ⟨rfl,rfl,rfl,rfl⟩
    (sound.listens.stdout.trans (got _ (.inl rfl)).symm)
    (fun s spawned => (sound.listens.stderr s spawned).trans (got s (.inr spawned)).symm) sound.listens.silent
    (.inr ⟨rfl,rfl⟩) (fun s spawned => (aside s (.inr spawned)).2.2) (fun s polled => absurd polled unpolled)

/-- Polls of the server, deliveries and losses. -/
theorem Sound.passive (sound : r.Sound) {a : Link.Action}
    (passive : a = .poll .server ∨ (∃ y n, a = .deliver y n) ∨ ∃ y n, a = .lose y n) :
    Sound { r with server := { r.server with link := r.server.link.step a } } := by
  rcases passive with rfl | ⟨y,n,rfl⟩ | ⟨y,n,rfl⟩
  all_goals
    exact sound.link rfl rfl (by simp) (by simp)
      (fun k _ => ⟨Link.event_aside (by simp) (by simp) (by simp),by simp,by simp⟩) (by simp)

/-- The forwarder calls no stream of the command. -/
theorem Sound.foreign (sound : r.Sound) {j : Nat} (other : foreign r.server.link j = true) {k : Nat}
    (mine : k = r.loop.e ∨ r.errId = some k) : j ≠ k := by
  rintro rfl
  unfold ExecRun.foreign at other
  cases held : r.server.link.stream .client j with
  | none =>
    rw [held] at other
    cases other
  | some s =>
    have sorted := ((sound.host.wire.sorted.lanes j) .client).1 s held
    rw [held] at other
    simp [sorted.mpr mine] at other

theorem Sound.forward (sound : r.Sound) (call : Driver.Call) : Sound (r.step (.forward call)) := by
  simp only [ExecRun.step]
  split
  · rename_i allowed
    cases call with
    | openStream kind metadata =>
      have plain : kind ≠ .exec := by simpa [forwards] using allowed
      exact sound.link (a := .openStream .client kind metadata) rfl rfl (by simp) (fun _ _ _ same => by cases same; exact plain)
        (fun k _ => ⟨Link.event_aside (by simp) (by simp) (by simp),by simp,by simp⟩) (by simp)
    | takeEvents => cases allowed
    | write id data =>
      exact sound.link (a := .write .client id data) rfl rfl (by simp) (by simp)
        (fun k _ => ⟨Link.write_aside k id data,by simp,by simp⟩) (by simp)
    | read id =>
      refine sound.link (a := .read .client id) rfl rfl (by simp) (by simp)
        (fun k mine => ⟨Link.read_aside .client k id,fun same => ?_,by simp⟩) (by simp)
      cases same
      exact sound.foreign allowed mine rfl
    | close id status =>
      refine sound.link (a := .close .client id status) rfl rfl (by simp) (by simp)
        (fun k mine => ⟨Link.close_aside k id status,by simp,fun _ same => ?_⟩) (by simp)
      cases same
      exact sound.foreign allowed mine rfl
    | reset id =>
      refine sound.link (a := .reset .client id) rfl rfl (by simp) (by simp)
        (fun k mine => ⟨Link.event_aside (fun _ same => ?_) (by simp) (by simp),by simp,by simp⟩) (by simp)
      cases same
      exact sound.foreign allowed mine rfl
  · exact sound

theorem Sound.accept (sound : r.Sound) (kind : StreamKind) (metadata leftover : Bytes) :
    Sound (r.step (.accept kind metadata leftover)) := by
  simp only [ExecRun.step]
  split
  · exact sound
  · rename_i plain
    have rests : r.server.Rests .server := sound.host.valid
    have safe := sound.host.wire.safe
    have reaches := r.server.accept_reaches (x := .server) kind metadata leftover
    have events := (Driver.accept_serves rests kind metadata leftover).1.events
    have wire : Wire r.loop.e r.errId (r.server.accept .server kind metadata leftover).link := by
      have opened := sound.host.wire.step (a := .openStream .server kind metadata) rfl
        (sound.opening (by rintro _ _ _ same; cases same; exact plain))
      unfold Driver.accept
      dsimp only
      split
      · exact opened
      · exact opened.step rfl (by simp)
    have lane : ∀ k, k = r.loop.e ∨ r.errId = some k →
        (r.server.accept .server kind metadata leftover).link.lane k = r.server.link.lane k := by
      intro k mine
      have other := sound.fresh .server mine
      have opened : (r.server.link.step (.openStream .server kind metadata)).lane k = r.server.link.lane k := by
        rw [Link.lane_step safe.keyed]
        simp only [Link.event,if_neg other]
        rfl
      unfold Driver.accept
      dsimp only
      split
      · exact opened
      · rw [Link.lane_step (Link.step_safe safe _).keyed]
        simp only [Link.event,if_neg other]
        exact opened
    have closed := congrArg Endpoint.closedAt (congrFun (lane r.loop.e (.inl rfl)) .server)
    have valid : Driver.Valid .server (r.server.link.mux .server).events (r.server.accept .server kind metadata leftover) := by
      rw [← events]
      exact Driver.accept_rests rests kind metadata leftover
    change Sound { r with server := r.server.accept .server kind metadata leftover }
    refine ⟨?_,?_⟩
    · dsimp only
      rw [events]
      refine sound.host.move valid wire (fun k s here => ⟨s,here,rfl⟩) rfl sound.host.kinds
        (fun fair => fair.mono (fun _ member => member) reaches.born) (fun _ member => member) (fun k mine none => ?_)
        (fun k => reaches.born) (fun _ _ none => none) (fun _ k mine data done outlet => by rw [lane k mine]; exact outlet)
        (fun _ => closed)
      exact (TreeMaps.getElem?_insert_ne _ _ (sound.fresh .server mine).symm).trans none
    · dsimp only
      rw [events]
      exact sound.listens.serves safe (reaches_client safe reaches (fun _ own => .inl own))
        (fun n present => closed.trans present) (fun fair => fair.mono (fun _ member => member) reaches.born) (.inl rfl)
        (fun _ _ => rfl)

/-- The command is running as long as its stdout is not closed. -/
theorem Sound.finished (sound : r.Sound) (closed : r.server.link.closedAt .server r.loop.e ≠ none) :
    r.errId ≠ none ∧ r.server.execs[r.loop.e]? = none := by
  have spawned : r.errId ≠ none := fun none => closed (sound.host.closed none)
  refine ⟨spawned,?_⟩
  by_contra running
  have outlet := sound.host.out (.inl spawned)
  refine closed (outlet.running ?_).1
  cases held : r.server.execs[r.loop.e]? with
  | none => exact absurd held running
  | some s => simp

theorem Sound.pump (sound : r.Sound) (io : Io)
    (fits : (r.record io).2.1.length ≤ u64Max ∧ (r.record io).2.2.length ≤ u64Max) : Sound (r.step (.pump io)) := by
  have safe := sound.host.wire.safe
  obtain ⟨after,grows,frozen⟩ := sound.host.pump io fits
  have rests : r.server.Rests .server := sound.host.valid
  have none : ((r.server.pump .server io).link.mux .server).events = [] :=
    (Driver.pump_induct (Driver.Taken .server) (fun _ _ _ taken => taken.handle io) (fun _ k taken => taken.forward io k)
      (fun _ k taken => taken.exec io k) (Driver.Valid.take rests)).2
  have execs := Driver.pumpExecs_reaches (x := .server) io (r.server.serveForwards .server io).execs.keys
    (r.server.serveForwards .server io)
  have reaches := r.server.pump_reaches (x := .server) io
  have listens : Listener r.loop.e (r.record io).1 (r.record io).2 [] r.loop (r.server.pump .server io).link := by
    refine sound.listens.serves safe (reaches_client safe reaches (fun _ own => own)) (fun n => reaches.closedAt safe)
      (fun fair => grows.fair (fair.mono (fun _ member => member) (by exact execs.born))) ?_ (fun code exited => ?_)
    · rcases grows.runs with ⟨same,_⟩ | ⟨unspawned,spawned,_⟩
      · exact .inl same
      · exact .inr ⟨unspawned,spawned⟩
    · obtain ⟨spawned,gone⟩ := sound.finished (sound.listens.complete code exited).1
      exact frozen spawned gone
  change Sound { r with
    server := r.server.pump .server io
    errId := (r.record io).1
    printed := (r.record io).2
    ended := r.ending io }
  refine ⟨?_,?_⟩
  · dsimp only
    rw [none]
    exact after
  · dsimp only
    rw [none]
    exact listens

/-- The loop has read all of the stdout that had arrived. -/
structure Caught (e : Nat) (start l : Link) : Prop where
  got : (l.got .client e).length = start.arrived .client e
  closed : l.closedAt .server e = start.closedAt .server e
  window : ∀ t, l.stream .client e = some t → ∃ s, start.stream .client e = some s ∧ s.expiring = t.expiring

theorem caught_read (safe : l.Safe) (e : Nat) : Caught e l (l.step (.read .client e)) where
  got := by
    rw [Link.read_got,List.length_append,Link.read_length]
    rfl
  closed := Link.step_unclosed l (by simp)
  window t here := by
    have lane := congrFun (Link.lane_step safe.keyed (.read .client e) e) .client
    simp only [Link.event,if_true] at lane
    exact Lane.step_expiring (.inr (.inl rfl)) ((congrArg Endpoint.stream lane).symm.trans here)

/-- The calls of the loop after that. -/
theorem Caught.step {start : Link} (caught : Caught e start l) (safe : l.Safe) {a : Link.Action}
    (call : (∃ s, a = .read .client s ∧ s ≠ e) ∨ (∃ data, a = .write .client e data) ∨
      ∃ status, a = .close .client e status) : Caught e start (l.step a) where
  got := by
    rw [Link.step_got l (by rcases call with ⟨s,rfl,ne⟩ | ⟨data,rfl⟩ | ⟨status,rfl⟩ <;> simp_all)]
    exact caught.got
  closed := by
    rw [Link.step_unclosed l (by rcases call with ⟨s,rfl,ne⟩ | ⟨data,rfl⟩ | ⟨status,rfl⟩ <;> simp)]
    exact caught.closed
  window t here := by
    have lane := congrFun (Link.lane_step safe.keyed a e) .client
    obtain ⟨s,held,same⟩ : ∃ s, l.stream .client e = some s ∧ s.expiring = t.expiring := by
      refine Lane.step_expiring ?_ ((congrArg Endpoint.stream lane).symm.trans here)
      rcases call with ⟨s,rfl,ne⟩ | ⟨data,rfl⟩ | ⟨status,rfl⟩
      · simp [Link.event,ne]
      · simp [Link.event]
      · simp [Link.event]
    obtain ⟨s',held',same'⟩ := caught.window s held
    exact ⟨s',held',same'.trans same⟩

/-- The loop takes the events. -/
theorem Host.hear {d : Driver} (host : Host e o printed (d.link.mux .server).events d) :
    Host e o printed (d.link.mux .server).events { d with link := d.link.step (.takeEvents .client) } := by
  have safe := host.wire.safe
  have rests : d.Rests .server := host.valid
  have none : ((d.link.step (.takeEvents .client)).mux .client).events = [] := by
    simp [Link.step,Link.note,Link.act,Link.setMux,StreamMux.takeEvents]
  have lane : ∀ k, (d.link.step (.takeEvents .client)).lane k = d.link.lane k := fun k => Link.lane_step safe.keyed _ k
  have notices : (d.link.step (.takeEvents .client)).Notices .client
      ((d.link.step (.takeEvents .client)).mux .client).events := by
    rw [none]
    exact ⟨by simp,fun _ => Nat.zero_le _,by simp⟩
  refine host.move (rests.link (a := .takeEvents .client) rfl (by simp))
    ⟨Link.step_safe safe _,Link.step_announced safe host.wire.announced _,host.wire.sorted.step safe (by simp),notices,
      Link.step_born _ _ host.wire.born,by rw [none]; rfl⟩ (fun k s here => ⟨s,here,rfl⟩) rfl host.kinds
    (fun fair => fair.mono (fun _ member => member) (Link.step_born _ _)) (fun _ member => member) (fun _ _ none => none)
    (fun k => Link.step_born _ _) (fun _ _ none => none) (fun _ k _ data done outlet => by rw [lane k]; exact outlet)
    (fun _ => congrArg Endpoint.closedAt (congrFun (lane e) .server))

theorem Sound.hear (sound : r.Sound) (running : r.loop.outcome = none) : Sound { r with
    server := { r.server with link := r.server.link.step (.takeEvents .client) }
    loop := r.loop.handleEvents (r.server.link.mux .client).events } := by
  have safe := sound.host.wire.safe
  have hears := ExecLoop.handleEvents_hears (r.server.link.mux .client).events r.loop
  have lane : ∀ k, (r.server.link.step (.takeEvents .client)).lane k = r.server.link.lane k :=
    fun k => Link.lane_step safe.keyed _ k
  have got : ∀ k, (r.server.link.step (.takeEvents .client)).got .client k = r.server.link.got .client k :=
    fun k => Link.step_got _ (by simp)
  have closed : (r.server.link.step (.takeEvents .client)).closedAt .server r.loop.e =
      r.server.link.closedAt .server r.loop.e := Link.step_unclosed _ (by simp)
  have host := sound.host.hear
  generalize r.loop.handleEvents (r.server.link.mux .client).events = c at hears
  rw [← hears.mine] at host
  refine ⟨host,rfl,?_,fun s here => ?_,fun s spawned => ?_,fun unspawned => ?_,fun known => ?_,fun fair => ?_,
    fun s spawned => ?_,fun code exited => ?_⟩
  all_goals dsimp only
  · rw [hears.mine,hears.stdout,got]
    exact sound.listens.stdout
  · rcases hears.opened s here with old | ⟨metadata,member⟩
    · obtain ⟨spawned,born⟩ := sound.listens.heard s old
      exact ⟨spawned,Link.step_born _ _ born⟩
    · have opens := StreamEvent.any_opens member
      refine ⟨?_,Link.step_born _ _ (sound.host.wire.notices.born s opens)⟩
      rcases (sound.host.wire.sorted.events .client s .exec metadata member).mp rfl with rfl | spawned
      · rw [sound.host.wire.told] at opens
        cases opens
      · exact spawned
  · rw [hears.stderr,got]
    exact sound.listens.stderr s spawned
  · rw [hears.stderr]
    exact sound.listens.silent unspawned
  · rw [hears.mine,closed]
    rcases hears.closed known with old | ⟨status,member⟩
    · exact sound.listens.code old
    · exact sound.host.wire.notices.closed r.loop.e status member
  · rw [hears.mine,lane]
    rw [hears.mine] at fair
    exact sound.listens.whole (fair.mono (fun _ member => member) (Link.step_born _ _))
  · rw [lane]
    exact sound.listens.stays s spawned
  · have outcome : c.outcome = some (.exited code) := exited
    rcases hears.outcome with same | refused
    · rw [outcome,running] at same
      cases same
    · rw [outcome] at refused
      cases refused

variable {start : Link}

/-- The outputs at hand are written. -/
theorem Sound.readOutputs (sound : r.Sound) (running : r.loop.outcome = none) :
    let next := r.loop.readOutputs r.server.link
    Sound { r with server := { r.server with link := next.1 }, loop := next.2 } ∧ Caught r.loop.e r.server.link next.1 ∧
      next.2.outcome = none ∧ next.2.errId = r.loop.errId ∧ next.2.exitCode = r.loop.exitCode ∧ next.2.e = r.loop.e := by
  intro next
  have safe := sound.host.wire.safe
  have caught := caught_read safe r.loop.e
  have out : Sound { r with
      server := { r.server with link := r.server.link.step (.read .client r.loop.e) }
      loop := { r.loop with stdout := r.loop.stdout ++ ((r.server.link.mux .client).read r.loop.e).1 } } := by
    refine sound.move (.read .client r.loop.e) _ rfl rfl (by simp) (by simp) (fun k _ => Link.read_aside .client k r.loop.e)
      ⟨rfl,rfl,rfl,rfl⟩ ?_ (fun s spawned => ?_) sound.listens.silent (.inl running) (by simp) (by simp)
    · rw [Link.read_got,← sound.listens.stdout]
    · have ne := (sound.host.err s spawned).1
      rw [Link.step_got _ (by simpa using ne.symm)]
      exact sound.listens.stderr s spawned
  cases heard : r.loop.errId with
  | none =>
    have eq : next = (r.server.link.step (.read .client r.loop.e),
        { r.loop with stdout := r.loop.stdout ++ ((r.server.link.mux .client).read r.loop.e).1 }) := by
      simp only [next,ExecLoop.readOutputs,heard]
    rw [eq]
    exact ⟨out,caught,running,heard,rfl,rfl⟩
  | some s =>
    obtain ⟨spawned,_⟩ := sound.listens.heard s heard
    have ne := (sound.host.err s spawned).1
    have eq : next = ((r.server.link.step (.read .client r.loop.e)).step (.read .client s),
        { r.loop with
          stdout := r.loop.stdout ++ ((r.server.link.mux .client).read r.loop.e).1
          stderr := r.loop.stderr ++ (((r.server.link.step (.read .client r.loop.e)).mux .client).read s).1 }) := by
      simp only [next,ExecLoop.readOutputs,heard]
    rw [eq]
    refine ⟨?_,caught.step out.host.wire.safe (.inl ⟨s,rfl,ne⟩),running,heard,rfl,rfl⟩
    refine out.move (.read .client s) _ rfl rfl (by simp) (by simp) (fun k _ => Link.read_aside .client k s)
      ⟨rfl,rfl,rfl,rfl⟩ ?_ (fun t spawned' => ?_) (fun unspawned => ?_) (.inl running) (by simp)
      (by simp)
    · rw [Link.step_got _ (by simpa using ne)]
      exact out.listens.stdout
    · obtain rfl : s = t := Option.some.inj (spawned.symm.trans spawned')
      rw [Link.read_got]
      exact congrArg (· ++ _) (out.listens.stderr s spawned)
    · rw [spawned] at unspawned
      cases unspawned

/-- Our stdin goes to the command. -/
theorem Sound.feedStdin (sound : r.Sound) (running : r.loop.outcome = none) (caught : Caught r.loop.e start r.server.link)
    (stdin : ReadResult) :
    let next := r.loop.feedStdin stdin r.server.link
    Sound { r with server := { r.server with link := next.1 }, loop := next.2 } ∧ Caught r.loop.e start next.1 ∧
      next.2.outcome = none ∧ next.2.errId = r.loop.errId ∧ next.2.exitCode = r.loop.exitCode ∧ next.2.e = r.loop.e := by
  intro next
  have safe := sound.host.wire.safe
  have call : ∀ a eof, (∃ data, a = .write .client r.loop.e data) ∨ (∃ status, a = .close .client r.loop.e status) →
      Sound { r with server := { r.server with link := r.server.link.step a }, loop := { r.loop with stdinEof := eof } } ∧
        Caught r.loop.e start (r.server.link.step a) := by
    intro a eof call
    refine ⟨?_,caught.step safe (.inr call)⟩
    have got : ∀ k, (r.server.link.step a).got .client k = r.server.link.got .client k := by
      intro k
      refine Link.step_got _ ?_
      rcases call with ⟨data,rfl⟩ | ⟨status,rfl⟩ <;> simp
    have stdout := sound.listens.stdout.trans (got _).symm
    have stderr := fun s spawned => (sound.listens.stderr s spawned).trans (got s).symm
    rcases call with ⟨data,rfl⟩ | ⟨status,rfl⟩
    · exact sound.move (.write .client r.loop.e data) _ rfl rfl (by simp) (by simp) (fun k _ => Link.write_aside k _ _)
        ⟨rfl,rfl,rfl,rfl⟩ stdout stderr sound.listens.silent (.inl running) (by simp) (by simp)
    · refine sound.move (.close .client r.loop.e status) _ rfl rfl (by simp) (by simp) (fun k _ => Link.close_aside k _ _)
        ⟨rfl,rfl,rfl,rfl⟩ stdout stderr sound.listens.silent (.inl running) (fun s spawned status same => ?_)
        (by simp)
      cases same
      exact (sound.host.err _ spawned).1 rfl
  have ended := call (.close .client r.loop.e 0) true (.inr ⟨0,rfl⟩)
  simp only [next,ExecLoop.feedStdin]
  split
  · exact ⟨sound,caught,running,rfl,rfl,rfl⟩
  · split
    · rename_i b data
      obtain ⟨after,still⟩ := call (.write .client r.loop.e (b :: data)) r.loop.stdinEof (.inl ⟨_,rfl⟩)
      exact ⟨after,still,running,rfl,rfl,rfl⟩
    · exact ⟨sound,caught,running,rfl,rfl,rfl⟩
    all_goals exact ⟨ended.1,ended.2,running,rfl,rfl,rfl⟩

/-- A stream whose receiver is finished was read up to the close. -/
theorem finished_read (safe : l.Safe) {k : Nat} (finished : (l.mux .client).isRecvFinished k = true)
    (gone : l.stream .client k = none → ∃ n, l.closedAt .server k = some n ∧ n ≤ (l.got .client k).length) :
    ∃ n, l.closedAt .server k = some n ∧ n ≤ (l.got .client k).length := by
  unfold StreamMux.isRecvFinished at finished
  split at finished
  · rename_i t held
    have into := (Lane.flows_of_flowing (safe.lanes k).flowing .client).into
    rw [show (l.lane k .client).stream = some t from held] at into
    obtain ⟨n,closed,reach,_⟩ := into.read_finished finished
    exact ⟨n,closed,reach⟩
  · rename_i absent
    exact gone absent

/-- An output that was read up to its close was read whole. -/
theorem outlet_read (safe : l.Safe) {k : Nat} {data : Bytes} (outlet : Lane.Outlet (l.lane k) data true)
    (read : ∃ n, l.closedAt .server k = some n ∧ n ≤ (l.got .client k).length) : l.got .client k = data := by
  obtain ⟨n,closed,reach⟩ := read
  have into := (Lane.flows_of_flowing (safe.lanes k).flowing .client).into
  have part : l.got .client k <+: data := by
    rw [← outlet.wrote]
    exact into.got
  have whole : n = data.length := Option.some.inj (closed.symm.trans (outlet.ended rfl))
  exact part.eq_of_length_le (whole ▸ reach)

/-- Both outputs are drained: all of them has been written. -/
theorem Sound.drained (sound : r.Sound) {s : Nat} (exited : r.loop.exitCode ≠ none) (heard : r.loop.errId = some s)
    (out : (r.server.link.mux .client).isRecvFinished r.loop.e = true)
    (err : (r.server.link.mux .client).isRecvFinished s = true) :
    r.server.link.closedAt .server r.loop.e ≠ none ∧ r.loop.stdout = r.printed.1 ∧ r.loop.stderr = r.printed.2 := by
  have safe := sound.host.wire.safe
  have closed := sound.listens.code exited
  obtain ⟨spawned,bornS⟩ := sound.listens.heard s heard
  obtain ⟨some,gone⟩ := sound.finished closed
  have outOutlet := sound.host.out (.inl some)
  obtain ⟨_,_,errOutlet⟩ := sound.host.err s spawned
  rw [gone,spawned] at outOutlet errOutlet
  have outRead := finished_read safe out (fun absent => sound.listens.whole (.inl some) sound.host.wire.born absent)
  have errRead := finished_read safe err (fun absent => absurd absent ((sound.listens.stays s spawned).2 bornS))
  exact ⟨closed,sound.listens.stdout.trans (outlet_read safe outOutlet outRead),
    (sound.listens.stderr s spawned).trans (outlet_read safe errOutlet errRead)⟩

/-- The loop returns or goes on. -/
theorem Sound.finish (sound : r.Sound)
    (noticed : r.loop.exitCode ≠ none → (r.server.link.mux .client).isRecvFinished r.loop.e = true →
      r.loop.errId ≠ none) : Sound { r with loop := r.loop.finish r.server.link } := by
  unfold ExecLoop.finish
  dsimp only
  split
  · rename_i code exited
    split
    · rename_i done
      simp only [Bool.and_eq_true] at done
      obtain ⟨s,heard⟩ := Option.ne_none_iff_exists'.mp (noticed (by rw [exited]; simp) done.1)
      have complete := sound.drained (by rw [exited]; simp) heard done.1 (by simpa [heard] using done.2)
      have listens := sound.listens
      exact ⟨sound.host,listens.mine,listens.stdout,listens.heard,listens.stderr,listens.silent,listens.code,listens.whole,
        listens.stays,fun _ _ => complete⟩
    · exact sound
  · exact sound

/-- The exit code is known, or will be at the next iteration. -/
def exitHeard (r : ExecRun) : Bool :=
  r.loop.exitCode.isSome || (r.server.link.mux .client).events.any (StreamEvent.closes r.loop.e)

/-- The stream of the command's stderr is known, or will be at the next iteration. -/
def errHeard (r : ExecRun) : Bool :=
  r.loop.errId.isSome || (r.server.link.mux .client).events.any StreamEvent.opensAnyExec

/-- The command's stdout is closed and all of it has arrived. -/
def outArrived (r : ExecRun) : Bool :=
  (r.server.link.closedAt .server r.loop.e).any (fun n => decide (n ≤ r.server.link.arrived .client r.loop.e))

/-- An iteration that knows the exit code and has all of stdout knows of the stderr, and the grace
window of stdout does not end before its bytes are there; no read of the command's outputs fails, and
the byte counts fit a u64. -/
def timely (r : ExecRun) : Action → Bool
  | .round _ => r.loop.outcome.isSome || (!(r.exitHeard && r.outArrived) || r.errHeard) &&
    (!(r.server.link.stream .client r.loop.e).any StreamState.expiring || r.outArrived)
  | .pump io => r.sane io && decide ((r.record io).2.1.length ≤ u64Max ∧ (r.record io).2.2.length ≤ u64Max)
  | _ => true

theorem outArrived_iff : r.outArrived = true ↔ ∃ n, r.server.link.closedAt .server r.loop.e = some n ∧
    n ≤ r.server.link.arrived .client r.loop.e := by
  unfold outArrived
  cases r.server.link.closedAt .server r.loop.e <;> simp

theorem round_eq (stdin : ReadResult) (l : Link) (c : ExecLoop) : c.round stdin l =
    let c := c.handleEvents (l.mux .client).events
    let l := l.step (.takeEvents .client)
    if c.outcome.isSome then (l,c)
    else
      let read := c.readOutputs l
      let fed := read.2.feedStdin stdin read.1
      (fed.1.step (.poll .client),fed.2.finish (fed.1.step (.poll .client))) := rfl

/-- The rest of an iteration, once the outputs are read. -/
theorem Sound.flush (sound : r.Sound) (caught : Caught r.loop.e start r.server.link) (running : r.loop.outcome = none)
    (patient : ∀ s, start.stream .client r.loop.e = some s → s.expiring = true →
      ∃ n, start.closedAt .server r.loop.e = some n ∧ n ≤ start.arrived .client r.loop.e)
    (noticed : r.loop.exitCode ≠ none →
      (∃ n, start.closedAt .server r.loop.e = some n ∧ n ≤ start.arrived .client r.loop.e) →
        r.loop.errId ≠ none) : Sound { r with
        server := { r.server with link := r.server.link.step (.poll .client) }
        loop := r.loop.finish (r.server.link.step (.poll .client)) } := by
  have got : ∀ k, (r.server.link.step (.poll .client)).got .client k = r.server.link.got .client k :=
    fun k => Link.step_got _ (by simp)
  have polled : Sound { r with server := { r.server with link := r.server.link.step (.poll .client) } } := by
    refine sound.move (.poll .client) r.loop rfl rfl (by simp) (by simp)
      (fun k _ => ⟨by rintro _ ⟨⟩,by rintro _ ⟨⟩,by rintro _ ⟨⟩⟩) ⟨rfl,rfl,rfl,rfl⟩
      (sound.listens.stdout.trans (got _).symm) (fun s spawned => (sound.listens.stderr s spawned).trans (got s).symm)
      sound.listens.silent (.inl running) (by simp) (fun t _ held ends => ?_)
    obtain ⟨s,before,same⟩ := caught.window t held
    rw [caught.got,caught.closed]
    exact patient s before (same.trans (StreamState.expiring_of_graceEnds ends))
  refine polled.finish (fun exited finished => noticed exited ?_)
  have spawned := (polled.finished (polled.listens.code exited)).1
  have read := finished_read polled.host.wire.safe finished
    (fun absent => polled.listens.whole (.inl spawned) polled.host.wire.born absent)
  rw [← caught.got,← caught.closed]
  have unclosed : (r.server.link.step (.poll .client)).closedAt .server r.loop.e = r.server.link.closedAt .server r.loop.e :=
    Link.step_unclosed _ (by simp)
  rw [got,unclosed] at read
  exact read

/-- What a timely iteration knows when it looks at the outputs. -/
theorem Sound.alert (sound : r.Sound) {stdin : ReadResult} (timely : r.timely (.round stdin) = true)
    (running : r.loop.outcome = none) :
    let l := r.server.link.step (.takeEvents .client)
    let c := r.loop.handleEvents (r.server.link.mux .client).events
    (∀ s, l.stream .client c.e = some s → s.expiring = true →
      ∃ n, l.closedAt .server c.e = some n ∧ n ≤ l.arrived .client c.e) ∧
    (c.outcome = none → c.exitCode ≠ none → (∃ n, l.closedAt .server c.e = some n ∧ n ≤ l.arrived .client c.e) →
      c.errId ≠ none) := by
  intro l c
  have hears : ExecLoop.Hears (r.server.link.mux .client).events r.loop c := ExecLoop.handleEvents_hears _ _
  have lane : l.lane r.loop.e = r.server.link.lane r.loop.e := Link.lane_step sound.host.wire.safe.keyed _ _
  have stream : l.stream .client r.loop.e = r.server.link.stream .client r.loop.e :=
    congrArg Endpoint.stream (congrFun lane .client)
  have closed : l.closedAt .server r.loop.e = r.server.link.closedAt .server r.loop.e :=
    congrArg Endpoint.closedAt (congrFun lane .server)
  have arrived : l.arrived .client r.loop.e = r.server.link.arrived .client r.loop.e := by
    rw [Link.arrived_lane,Link.arrived_lane,lane]
  rw [hears.mine,stream,closed,arrived,← outArrived_iff]
  simp only [ExecRun.timely,running,Option.isSome_none,Bool.false_or,Bool.and_eq_true,Bool.or_eq_true,Bool.not_eq_true',
    Bool.and_eq_false_iff] at timely
  obtain ⟨noticed,patient⟩ := timely
  refine ⟨fun s held expiring => ?_,fun ongoing exited reached unheard => ?_⟩
  · refine patient.resolve_left (fun calm => ?_)
    rw [held,Option.any_some,expiring] at calm
    cases calm
  · have known : r.exitHeard = true := by
      simp only [exitHeard,Bool.or_eq_true,Option.isSome_iff_ne_none]
      refine (hears.closed exited).imp id (fun ⟨status,member⟩ => ?_)
      exact List.any_eq_true.mpr ⟨_,member,by simp [StreamEvent.closes]⟩
    obtain ⟨before,none⟩ := hears.noticed ongoing unheard
    rcases noticed with (unknown | missing) | told
    · rw [known] at unknown
      cases unknown
    · rw [reached] at missing
      cases missing
    · simp [errHeard,before,none] at told

theorem Sound.round (sound : r.Sound) (stdin : ReadResult) (timely : r.timely (.round stdin) = true) :
    Sound (r.step (.round stdin)) := by
  simp only [ExecRun.step]
  cases outcome : r.loop.outcome with
  | some _ => exact sound
  | none =>
    have heard := sound.hear outcome
    have alert := sound.alert timely outcome
    rw [Option.isSome_none,if_neg (by simp),round_eq]
    dsimp only at alert ⊢
    generalize r.loop.handleEvents (r.server.link.mux .client).events = c at *
    generalize r.server.link.step (.takeEvents .client) = l at *
    cases running : c.outcome with
    | some _ =>
      rw [Option.isSome_some,if_pos rfl]
      exact heard
    | none =>
      rw [Option.isSome_none,if_neg (by simp)]
      obtain ⟨read,caught,still,errId,exitCode,mine⟩ := heard.readOutputs running
      dsimp only at read caught still errId exitCode mine
      generalize c.readOutputs l = next at *
      obtain ⟨fed,caught',still',errId',exitCode',mine'⟩ := read.feedStdin still (mine.symm ▸ caught) stdin
      dsimp only at fed caught' still' errId' exitCode' mine'
      generalize next.2.feedStdin stdin next.1 = last at *
      rw [← mine,← mine',← errId,← errId',← exitCode,← exitCode'] at alert
      exact fed.flush (mine'.symm ▸ caught') still' alert.1 (alert.2 running)

theorem Sound.step (sound : r.Sound) {a : Action} (timely : r.timely a = true) : Sound (r.step a) := by
  cases a with
  | forward call => exact sound.forward call
  | accept kind metadata leftover => exact sound.accept kind metadata leftover
  | poll => exact sound.passive (.inl rfl)
  | deliver y n => exact sound.passive (.inr (.inl ⟨y,n,rfl⟩))
  | lose y n => exact sound.passive (.inr (.inr ⟨y,n,rfl⟩))
  | pump io => exact sound.pump io (of_decide_eq_true (Bool.and_eq_true_iff.mp timely).2)
  | round stdin => exact sound.round stdin timely

/-- The client has opened the command's stream. -/
theorem opened_sound (privsep : Bool) (cmd : Bytes) (nullStdin : Bool) : Sound {
    server := { Driver.start privsep with link := Link.start.step (.openStream .client .exec cmd) }
    loop := { e := 0, stdinEof := nullStdin } } := by
  have safe := Link.start_safe
  have unborn : ∀ k y, Link.start.born y k = false := fun _ _ => rfl
  have sorted : Link.start.Sorted (fun k => k = 0 ∨ Option.none = some k) := by
    refine ⟨fun k y => ⟨fun s held => ?_,fun j kind metadata member => ?_⟩,fun y k kind metadata member => ?_⟩
    · cases y <;> cases held
    · cases y <;> cases member
    · cases y <;> cases member
  have lane := congrFun (Link.lane_step safe.keyed (.openStream .client .exec cmd) 0) .client
  rw [show Link.start.event 0 (.openStream .client .exec cmd) = .openStream .client .exec cmd from rfl] at lane
  simp only [Lane.step,Lane.onSide_same] at lane
  have held : (Link.start.step (.openStream .client .exec cmd)).stream .client 0 ≠ none := by
    rw [show (Link.start.step (.openStream .client .exec cmd)).stream .client 0 = _ from congrArg Endpoint.stream lane]
    simp [Endpoint.openStream]
  have opening : ∀ y kind metadata, Link.Action.openStream .client .exec cmd = .openStream y kind metadata →
      (kind = .exec ↔ (Link.start.mux y).nextLocalId = 0 ∨ Option.none = some (Link.start.mux y).nextLocalId) := by
    intro y kind metadata same
    cases same
    exact iff_of_true rfl (.inl rfl)
  have wire : Wire 0 none (Link.start.step (.openStream .client .exec cmd)) := by
    refine ⟨Link.step_safe safe _,Link.step_announced safe Link.start_announced _,sorted.step safe opening,
      ⟨by rintro _ ⟨⟩,fun _ => Nat.zero_le _,by rintro _ _ ⟨⟩⟩,congrArg Endpoint.born lane,rfl⟩
  have rests : Driver.Rests .server { Driver.start privsep with link := Link.start.step (.openStream .client .exec cmd) } :=
    (Driver.start_rests .server privsep).link rfl (by simp)
  have outlet : Lane.Outlet ((Link.start.step (.openStream .client .exec cmd)).lane 0) [] false :=
    Link.outlet_step safe (Lane.Outlet.unborn (safe.lanes 0) (unborn 0)) ⟨by rintro _ ⟨⟩,by rintro _ ⟨⟩,by rintro _ ⟨⟩⟩
  refine ⟨⟨rests,wire,fun k s here => ?_,by rintro _ _ _ ⟨⟩,by simp [Driver.start],
    fun _ => by rintro ⟨⟩,fun _ => outlet,fun _ => rfl,
    fun _ => rfl,fun some => absurd rfl some,by simp⟩,rfl,rfl,by simp,by simp,fun _ => rfl,fun known => absurd rfl known,
    fun _ _ absent => absurd absent held,by simp,by simp⟩
  simp [Driver.start] at here

theorem start_sound (privsep : Bool) (cmd : Bytes) (nullStdin : Bool) : Sound (ExecRun.start privsep cmd nullStdin) := by
  have opened := opened_sound privsep cmd nullStdin
  cases nullStdin with
  | false => exact opened
  | true =>
    refine opened.move (.close .client 0 0) _ rfl rfl (by simp) (by simp) (fun k _ => Link.close_aside k 0 0)
      ⟨rfl,rfl,rfl,rfl⟩ ?_ (by simp) (fun _ => rfl) (.inl rfl) (by simp) (by simp)
    · have got := (Link.start.step (.openStream .client .exec cmd)).step_got (a := .close .client 0 0) (x := .client) (j := 0)
        (by simp)
      exact got.symm

theorem readOutputs_e (l : Link) (c : ExecLoop) : (c.readOutputs l).2.e = c.e := by
  unfold ExecLoop.readOutputs
  split <;> rfl

theorem feedStdin_e (stdin : ReadResult) (l : Link) (c : ExecLoop) : (c.feedStdin stdin l).2.e = c.e := by
  unfold ExecLoop.feedStdin
  split
  · rfl
  · split <;> rfl

theorem finish_e (l : Link) (c : ExecLoop) : (c.finish l).e = c.e := by
  unfold ExecLoop.finish
  dsimp only
  split
  · split <;> rfl
  · rfl

/-- The command's stream stays the one that the loop has opened. -/
theorem round_e (stdin : ReadResult) (l : Link) (c : ExecLoop) : (c.round stdin l).2.e = c.e := by
  have heard := (ExecLoop.handleEvents_hears (l.mux .client).events c).mine
  rw [round_eq]
  dsimp only
  split
  · exact heard
  · rw [finish_e,feedStdin_e,readOutputs_e]
    exact heard

/-- What the server has taken is all that the command printed when it is done with it. -/
theorem Spends.step {r : ExecRun} (sound : r.Sound) (spends : r.Spends) {a : Action} (timely : r.timely a = true) :
    (r.step a).Spends := by
  cases a with
  | pump io => exact spends.pump sound.host io (Bool.and_eq_true_iff.mp timely).1
  | forward call =>
    unfold ExecRun.step
    dsimp only
    split
    · exact spends.same rfl rfl rfl rfl
    · exact spends
  | accept kind metadata leftover =>
    unfold ExecRun.step
    dsimp only
    split
    · exact spends
    · exact spends.same rfl rfl rfl rfl
  | poll => exact spends.same rfl rfl rfl rfl
  | deliver y n => exact spends.same rfl rfl rfl rfl
  | lose y n => exact spends.same rfl rfl rfl rfl
  | round stdin =>
    unfold ExecRun.step
    dsimp only
    split
    · exact spends
    · exact spends.same rfl (round_e _ _ _) rfl rfl

end ExecRun

namespace ExecRun

def idle : Io := fun _ => {}

end ExecRun

end Noissh

import Noissh.Shown

/-! The client's screen through the whole program: what it shows under a number is the screen that
the shell of its session had when a tick of the server gave it that number. -/
namespace Noissh

variable {snow : Snow} {em : Emulator} {login : Login}

namespace Sync

/-- A shell and a client that agree, on numbers that name the screens polled. -/
structure Matches (client : ClientShell) (down : List Frame) (seen : List (Nat × Grid))
    (server : ServerShell em) (name : Nat → Grid) (sent : List Emission) : Prop where
  agrees : Agrees name { server, client, down, sent : Sync em }
  polled : ∀ e ∈ sent, ∃ g, (e.seq,g) ∈ seen
  names : ∀ k g, (k,g) ∈ seen → k ≤ server.seq ∧ g.view = (name k).view

/-- The client is blank and the server has no shell yet, or the client and the server's shell agree
on the screens polled. -/
def Phase (client : ClientShell) (down : List Frame) (seen : List (Nat × Grid)) (shell : Option (ServerShell em)) : Prop :=
  (shell = none ∧ seen = [] ∧ (∀ seq base data, .stateDiff seq base data ∉ down) ∧ client.currentSeq = 0 ∧
    client.grid.WF ∧ client.grid.Blank) ∨
  ∃ server name sent, shell = some server ∧ Matches client down seen server name sent

variable {client : ClientShell} {down : List Frame} {seen : List (Nat × Grid)} {shell : Option (ServerShell em)}
  {server : ServerShell em}

/-- A client that is blank agrees with a shell that starts anew. -/
theorem Phase.opens (phase : Phase client down seen (none : Option (ServerShell em))) {name : Nat → Grid}
    (named : server.Named name) (zero : (name 0).Blank) : Phase client down seen (some server) := by
  rcases phase with ⟨_,rfl,silent,first,wf,blank⟩ | ⟨_,_,_,same,_⟩
  · refine .inr ⟨server,name,[],rfl,⟨zero,named,⟨wf,fun _ => blank,fun shown => ?_⟩,fun shown => ?_,?_,?_⟩,?_,?_⟩
    · exact absurd first (Nat.ne_of_gt shown)
    · exact absurd first (Nat.ne_of_gt shown)
    · exact fun _ member => absurd member List.not_mem_nil
    · exact fun seq base data member => absurd member (silent seq base data)
    · exact fun _ member => absurd member List.not_mem_nil
    · exact fun _ _ member => absurd member List.not_mem_nil
  · cases same

/-- Other frames sent, none of them a new diff. -/
theorem Phase.flights (phase : Phase client down seen shell) {down' : List Frame}
    (old : ∀ seq base data, Frame.stateDiff seq base data ∈ down' → Frame.stateDiff seq base data ∈ down) :
    Phase client down' seen shell := by
  rcases phase with ⟨none,empty,silent,fresh⟩ | ⟨server,name,sent,held,agrees,polled,names⟩
  · exact .inl ⟨none,empty,fun seq base data member => silent seq base data (old seq base data member),fresh⟩
  · exact .inr ⟨server,name,sent,held,agrees.flights [] old,polled,names⟩

/-- What the client receives was sent. -/
theorem Phase.receives (phase : Phase client down seen shell) {frame : Frame}
    (flown : ∀ seq base data, frame = .stateDiff seq base data → frame ∈ down) :
    Phase (clientReceives client frame) down seen shell := by
  rcases phase with ⟨none,empty,silent,fresh⟩ | ⟨server,name,sent,held,agrees,polled,names⟩
  · cases frame with
    | stateDiff seq base data => exact absurd (flown seq base data rfl) (silent seq base data)
    | _ => exact .inl ⟨none,empty,silent,fresh⟩
  · refine .inr ⟨server,name,sent,held,?_,polled,names⟩
    cases frame with
    | stateDiff seq base data => exact agrees.deliver (flown seq base data rfl)
    | ack seq => exact agrees.clientStep rfl rfl
    | _ => exact agrees

theorem Phase.hears (phase : Phase client down seen shell) {frames : List Frame}
    (flown : ∀ seq base data, .stateDiff seq base data ∈ frames → .stateDiff seq base data ∈ down) :
    Phase (frames.foldl clientReceives client) down seen shell := by
  induction frames generalizing client with
  | nil => exact phase
  | cons frame rest ih =>
    refine ih (phase.receives (fun seq base data same => ?_)) (fun seq base data member => flown seq base data (.tail _ member))
    rw [same]
    exact flown seq base data (same ▸ .head _)

theorem Phase.types (phase : Phase client down seen shell) (bytes : Bytes) : Phase (client.typeInput bytes) down seen shell := by
  rcases phase with fresh | ⟨server,name,sent,held,agrees,polled,names⟩
  · exact .inl fresh
  · exact .inr ⟨server,name,sent,held,agrees.clientStep rfl rfl,polled,names⟩

/-- A step of the shell that polls nothing keeps every number. -/
theorem Phase.moves (phase : Phase client down seen (some server)) {next : ServerShell em} (seq : next.seq = server.seq)
    (keeps : ∀ name, server.Named name → next.Named name) : Phase client down seen (some next) := by
  rcases phase with ⟨none,_⟩ | ⟨_,name,sent,held,agrees,polled,names⟩
  · cases none
  · cases held
    exact .inr ⟨next,name,sent,rfl,agrees.serverStep (keeps name agrees.server) seq,polled,seq ▸ names⟩

theorem Phase.resize (phase : Phase client down seen (some server)) (rows cols : Nat) :
    Phase client down seen (some ((server.resize rows cols).getD server)) := by
  cases resized : server.resize rows cols with
  | none => exact phase
  | some next =>
    have wf := ServerShell.resize_wf resized
    obtain ⟨term,_,rfl⟩ := Option.map_eq_some_iff.mp resized
    exact phase.moves rfl (fun _ named => named.term wf)

theorem Phase.feedOutput (phase : Phase client down seen (some server)) {bytes : Bytes} {next : ServerShell em}
    (fed : server.feedOutput bytes = some next) : Phase client down seen (some next) := by
  refine phase.moves (Option.map_eq_some_iff.mp fed |>.elim fun _ both => both.2 ▸ rfl) (fun name named => ?_)
  have wf := (ServerShell.feedOutput_keeps named.screen fed).wf
  obtain ⟨term,_,rfl⟩ := Option.map_eq_some_iff.mp fed
  exact named.term wf

/-- A poll numbers the screen, and sends a diff to it or nothing. -/
theorem Phase.polls (phase : Phase client down seen (some server)) :
    Phase client (down ++ server.pollDiff.1.toList) (seen ++ [(server.capture.seq,server.screen)]) (some server.pollDiff.2) := by
  rcases phase with ⟨none,_⟩ | ⟨_,name,sent,held,agrees,polled,names⟩
  · cases none
  cases held
  have next := agrees.poll
  have captured := agrees.server.capture
  have numbered : ∀ k g, (k,g) ∈ seen ++ [(server.capture.seq,server.screen)] →
      k ≤ server.capture.seq ∧ g.view = (server.naming name k).view := by
    intro k g member
    rcases List.mem_append.mp member with old | new
    · obtain ⟨older,view⟩ := names k g old
      rw [ServerShell.naming_old older]
      exact ⟨Nat.le_trans older server.capture_seq_le.1,view⟩
    · cases List.mem_singleton.mp new
      rw [← captured.last]
      exact ⟨Nat.le_refl _,server.capture_lastSent.symm⟩
  have before : ∀ e ∈ sent, ∃ g, (e.seq,g) ∈ seen ++ [(server.capture.seq,server.screen)] := by
    intro e member
    obtain ⟨g,here⟩ := polled e member
    exact ⟨g,List.mem_append_left _ here⟩
  by_cases caught : server.capture.seq = server.ackedSeq
  · rw [ServerShell.pollDiff_quiet caught]
    simp only [Sync.poll,ServerShell.pollDiff_quiet caught] at next
    refine .inr ⟨_,_,sent,rfl,?_,before,numbered⟩
    rw [show down ++ (none : Option Frame).toList = down from List.append_nil down]
    exact next
  · rw [ServerShell.pollDiff_emits caught]
    simp only [Sync.poll,ServerShell.pollDiff_emits caught] at next
    refine .inr ⟨_,_,sent ++ [emission server],rfl,next,fun e member => ?_,numbered⟩
    rcases List.mem_append.mp member with old | new
    · exact before e old
    · cases List.mem_singleton.mp new
      exact ⟨server.screen,List.mem_append_right _ (.head _)⟩

/-- What the client shows under a number was polled under it, and is what every poll of it saw. -/
theorem Phase.shows (phase : Phase client down seen shell) (shown : 0 < client.currentSeq) :
    (∃ g, (client.currentSeq,g) ∈ seen) ∧ ∀ g, (client.currentSeq,g) ∈ seen → client.grid.view = g.view := by
  rcases phase with ⟨_,_,_,first,_⟩ | ⟨server,name,sent,_,agrees,polled,names⟩
  · exact absurd first (Nat.ne_of_gt shown)
  · obtain ⟨e,member,seq⟩ := agrees.shown shown
    have seq : e.seq = client.currentSeq := seq
    refine ⟨seq ▸ polled e member,fun g here => ?_⟩
    exact (agrees.client.named shown).trans (names _ _ here).2.symm

/-- The client is not ahead of the shell, and up to date where the numbers are the same. -/
theorem Phase.behind (phase : Phase client down seen (some server)) :
    client.currentSeq ≤ server.seq ∧
      (0 < client.currentSeq → client.currentSeq = server.seq → client.grid.view = server.lastSent.view) := by
  rcases phase with ⟨none,_⟩ | ⟨_,name,sent,held,agrees,_⟩
  · cases none
  cases held
  refine ⟨agrees.behind,fun shown same => ?_⟩
  rw [agrees.server.last,← same]
  exact agrees.client.named shown

end Sync

namespace ServerSession

open Sync

variable {client : ClientShell} {down : List Frame} {seen : List (Nat × Grid)} {s t : ServerSession snow em login}

/-- A frame leaves the session in agreement with its client. -/
theorem phase_takes (phase : Phase client down seen s.shell) {frame : Frame} {answers : List Frame}
    (takes : s.Takes frame t answers) (keeps : s.keepsShell frame = true) : Phase client down seen t.shell := by
  cases takes with
  | input offset data =>
    unfold onInput
    cases held : s.shell with
    | none =>
      dsimp only
      rw [held]
      exact held ▸ phase
    | some shell =>
      rw [held] at phase
      have next : Phase client down seen (some (shell.ingestInput offset data).2) :=
        phase.moves rfl (fun _ named => named.ingestInput offset data)
      dsimp only
      split <;> exact next
  | ack seq =>
    cases held : s.shell with
    | none =>
      rw [held] at phase
      unfold onStateAck
      rw [held]
      exact phase
    | some shell =>
      unfold onStateAck
      rw [held] at phase ⊢
      exact phase.moves (shell.onStateAck_seq seq) (fun _ named => named.onStateAck seq)
  | shell data asked cols rows pty bare =>
    have none : s.shell = none := by simpa [keepsShell,asked,bare] using keeps
    rw [none] at phase
    have start := opened_agrees em rows.toNat cols.toNat 0 0
    exact phase.opens start.server start.zero
  | resize data cols rows =>
    cases held : s.shell with
    | none =>
      rw [held] at phase
      unfold resize
      rw [held]
      exact phase
    | some shell =>
      unfold resize
      rw [held] at phase ⊢
      exact phase.resize rows.toNat cols.toNat
  | _ => exact phase

theorem phase_takesAll {frames answers : List Frame} (phase : Phase client down seen s.shell)
    (takes : TakesAll keepsShell s frames t answers) : Phase client down seen t.shell := by
  induction takes with
  | nil => exact phase
  | cons keeps first _ ih => exact ih (phase_takes phase first keeps)

theorem phase_drainPty (phase : Phase client down seen s.shell) : Phase client down seen s.drainPty.shell :=
  drainPty_keeps (Phase client down seen) (fun _ _ _ fed old =>
    (old.feedOutput fed).moves rfl (fun _ named => named.term (ServerShell.takeResponses_wf named.screen))) phase

/-- The numbered screen that a tick polls. -/
def polledScreen (s : ServerSession snow em login) : List (Nat × Grid) :=
  if s.reaped || s.session.peerAddr.isNone then []
  else s.drainPty.shell.elim [] (fun shell => [(shell.capture.seq,shell.screen)])

theorem phase_tick (phase : Phase client down seen s.shell) :
    Phase client (down ++ s.tickFrames) (seen ++ s.polledScreen) s.tick.2.2.2.shell := by
  rw [s.tick_shell.2.1]
  by_cases reaped : s.reaped = true
  · rw [if_pos reaped,show s.polledScreen = [] from by simp [polledScreen,reaped],List.append_nil]
    refine phase.flights (fun seq base data member => ?_)
    rcases List.mem_append.mp member with old | new
    · exact old
    · exact absurd reaped (s.tickFrames_cases new).1
  rw [if_neg reaped]
  have drained := phase_drainPty phase
  -- The only diff among the frames of a tick is the one polled.
  have diffs : ∀ seq base data, .stateDiff seq base data ∈ s.tickFrames →
      s.session.peerAddr.isSome = true ∧ ∃ shell, s.drainPty.shell = some shell ∧
        shell.pollDiff.1 = some (.stateDiff seq base data) := by
    intro seq base data member
    rcases (s.tickFrames_cases member).2 with same | polled | named | ⟨_,_,same⟩
    · cases same
    · exact polled
    · exact absurd rfl named
    · cases same
  unfold polledShell polledScreen
  cases known : s.session.peerAddr with
  | none =>
    rw [known] at diffs
    rw [Option.isSome_none,if_neg Bool.false_ne_true,Option.isNone_none,Bool.or_true,if_pos rfl,List.append_nil]
    refine drained.flights (fun seq base data member => ?_)
    rcases List.mem_append.mp member with old | new
    · exact old
    · exact absurd (diffs seq base data new).1 Bool.false_ne_true
  | some addr =>
    rw [Option.isSome_some,if_pos rfl,Option.isNone_some,Bool.or_false,if_neg reaped]
    cases held : s.drainPty.shell with
    | none =>
      rw [held] at drained diffs
      rw [Option.map_none,Option.elim_none,List.append_nil]
      refine drained.flights (fun seq base data member => ?_)
      rcases List.mem_append.mp member with old | new
      · exact old
      · obtain ⟨_,shell,none,_⟩ := diffs seq base data new
        cases none
    | some shell =>
      rw [held] at drained diffs
      rw [Option.map_some,Option.elim_some]
      refine drained.polls.flights (fun seq base data member => ?_)
      rcases List.mem_append.mp member with old | new
      · exact List.mem_append_left _ old
      · obtain ⟨_,shell',same,polled⟩ := diffs seq base data new
        cases same
        exact List.mem_append_right _ (Option.mem_toList.mpr polled)

end ServerSession

namespace Stack

open Sync

variable {sid : SessionId} {keys : Side → NoiseSession snow} {s : Stack snow em login}
    {t t' : Tunnel snow} {seen : List (Nat × Grid)}

/-- The numbered screen that a tick of the server polls of the session's shell. -/
def screenBy (sid : SessionId) (s : Stack snow em login) : Action → List (Nat × Grid)
  | .server (.tick order) =>
    if order.isPerm s.server.sessions.keys ∧ s.server.calm order then (s.server.sessions[sid]?).elim [] (·.polledScreen)
    else []
  | _ => []

/-- A session that has a terminal opens no second one. -/
def keepsShell (sid : SessionId) (s : Stack snow em login) : Action → Bool
  | .client _ => true
  | .server x => s.server.callMeets ServerSession.keepsShell sid x

/-- The client and the session's shell, if it has one, agree on what was sent. -/
structure Screens (sid : SessionId) (seen : List (Nat × Grid)) (s : Stack snow em login) (t : Tunnel snow)
    (shell : Option (ServerShell em)) : Prop where
  grown : s.server.Grown
  phase : Phase s.client.shell (t .server).emitted seen shell
  held : ∀ y, s.server.sessions[sid]? = some y → y.shell = shell
  unmet : s.met = false → shell = none

variable {shell : Option (ServerShell em)}

theorem Screens.client_step (screens : s.Screens sid seen t shell) {x : ClientCore.Call}
    (advances : s.Advances sid (.client x) t t')
    (linked : t'.Linked sid keys) : (s.step sid (.client x)).Screens sid seen t' shell := by
  have same : (t' .server).emitted = (t .server).emitted := congrArg Peer.emitted advances.other
  refine ⟨screens.grown,?_,screens.held,fun unmet => screens.unmet (unmet_before unmet)⟩
  rw [same,show (s.step sid (.client x)).client.shell = s.client.shellBy x from (s.client.call_shell x).1]
  have hears : Phase ((s.client.opens x).foldl clientReceives s.client.shell) (t .server).emitted seen shell :=
    screens.phase.hears (fun seq base data member => advances.heard linked member)
  cases x with
  | typeInput bytes => exact screens.phase.types bytes
  | _ => exact hears

theorem Screens.server_step (screens : s.Screens sid seen t shell) (follows : s.Follows sid keys t) {x : ServerCore.Call}
    (ideal : s.Ideal sid keys (.server x)) (keeps : s.keepsShell sid (.server x) = true)
      (advances : s.Advances sid (.server x) t t') :
    ∃ shell', (s.step sid (.server x)).Screens sid (seen ++ s.screenBy sid (.server x)) t' shell' := by
  have named := follows.server.named
  have grown : (s.step sid (.server x)).server.Grown := ServerCore.call_grown named screens.grown x
  have emitted : (t' .server).emitted = (t .server).emitted ++ s.server.emits sid x := advances.emitted
  have quiet : (∀ seq base data, .stateDiff seq base data ∉ s.server.emits sid x) → s.screenBy sid (.server x) = [] →
      ∀ shell', Phase s.client.shell (t .server).emitted seen shell' →
        (∀ y, (s.server.call x).sessions[sid]? = some y → y.shell = shell') →
        ((s.step sid (.server x)).met = false → shell' = none) →
        ∃ shell', (s.step sid (.server x)).Screens sid (seen ++ s.screenBy sid (.server x)) t' shell' := by
    intro silent unseen shell' phase held unmet
    rw [unseen,List.append_nil]
    refine ⟨shell',grown,?_,held,unmet⟩
    rw [emitted]
    refine phase.flights (fun seq base data member => ?_)
    rcases List.mem_append.mp member with old | new
    · exact old
    · exact absurd new (silent seq base data)
  have nothing : s.server.emits sid x = [] → ∀ seq base data, .stateDiff seq base data ∉ s.server.emits sid x := by
    intro none seq base data member
    rw [none] at member
    exact absurd member List.not_mem_nil
  have before : (s.step sid (.server x)).met = false → shell = none := fun unmet => screens.unmet (unmet_before unmet)
  cases there : s.server.sessions[sid]? with
  | none =>
    have starts := ServerCore.call_starts named there x
    have unseen : s.screenBy sid (.server x) = [] := by
      unfold screenBy
      split
      · rw [there,Option.elim_none,ite_self]
      · rfl
    have gone : (s.server.call x).sessions[sid]? = none →
        ∃ shell', (s.step sid (.server x)).Screens sid (seen ++ s.screenBy sid (.server x)) t' shell' := fun after =>
      quiet (nothing starts.emits) unseen shell screens.phase (fun y held => absurd (held.symm.trans after) (by simp)) before
    cases starts.turns with
    | same after => exact gone (after.trans there)
    | dropped after => exact gone after
    | begun _ z noise src held session mux _ input typed status =>
      have unmet : s.met = false := by
        by_contra met
        have absent : (s.server.call x).sessions[sid]? = none := ideal.once (by simpa using met) there
        exact absurd (absent.symm.trans held) (by simp)
      have became : ∀ y, (s.server.call x).sessions[sid]? = some y → y.shell = z.shell := fun y held' => by
        rw [held] at held'
        cases held'
        rfl
      have phase := screens.phase
      rw [screens.unmet unmet] at phase
      refine quiet (nothing starts.emits) unseen z.shell ?_ became (fun unmet' => ?_)
      · cases own : z.shell with
        | none => exact phase
        | some new =>
          obtain ⟨k,w,old,held',before,rfl⟩ := input new own
          have start := rebound_agrees (screens.grown k w held' old before).reachable 0 0
          exact phase.opens start.server start.zero
      · have met : (s.step sid (.server x)).met = true := by
          simp only [step,serverBy,Std.TreeMap.contains_eq_isSome_getElem?,held,Option.isSome_some,Bool.or_true]
        exact absurd (unmet'.symm.trans met) Bool.false_ne_true
  | some y =>
    have own := screens.held y there
    have phase : Phase s.client.shell (t .server).emitted seen y.shell := own ▸ screens.phase
    have met : (s.step sid (.server x)).met ≠ false := by simp [step,follows.met_of_held there]
    by_cases ticks : ∃ order, x = .tick order ∧ order.isPerm s.server.sessions.keys = true ∧ s.server.calm order = true
    · obtain ⟨order,rfl,walks,calm⟩ := ticks
      obtain ⟨after,emits⟩ := ServerCore.call_ticked there walks calm
      have polled : s.screenBy sid (.server (.tick order)) = y.polledScreen := by
        simp only [screenBy,walks,calm,and_self,if_true,there,Option.elim_some]
      refine ⟨y.tick.2.2.2.shell,grown,?_,fun z held => ?_,fun unmet => absurd unmet met⟩
      · rw [emitted,polled,emits]
        exact ServerSession.phase_tick phase
      · rcases after with after | after
        · exact congrArg _ (Option.some.inj (held.symm.trans after))
        · exact absurd (held.symm.trans after) (by simp)
    · have unseen : s.screenBy sid (.server x) = [] := by
        cases x with
        | tick order => exact if_neg (fun both => ticks ⟨order,rfl,both⟩)
        | _ => rfl
      cases ServerCore.call_becomes named there keeps with
      | still mux after silent =>
        refine quiet (nothing silent) unseen shell screens.phase (fun z held => ?_) before
        rw [after] at held
        cases held
        exact own
      | dropped after silent =>
        exact quiet (nothing silent) unseen shell screens.phase (fun z held => absurd (held.symm.trans after) (by simp)) before
      | ticked order same walks calm => exact absurd ⟨order,same,walks,calm⟩ ticks
      | received src buf z after received =>
        have became : ∀ y', (s.server.call x).sessions[sid]? = some y' → y'.shell = z.shell := fun y' held =>
          congrArg _ (Option.some.inj (held.symm.trans after))
        generalize s.server.emits sid x = answers at received quiet nothing
        cases received with
        | refused e session => exact quiet (nothing rfl) unseen y.shell phase became (fun unmet => absurd unmet met)
        | taken frames session opens u _ takes =>
          refine quiet (fun seq base data member => ?_) unseen u.shell ?_ became (fun unmet => absurd unmet met)
          · rcases takes.answers_cases member with ⟨_,same⟩ | ⟨_,same⟩ <;> cases same
          · exact ServerSession.phase_takesAll (s := { y with session, idleTicks := 0 }) phase takes

theorem Begun.screens (begun : s.Begun sid) : s.Screens sid [] (Tunnel.start sid keys) none := by
  cases begun with
  | intro privateKey termVar known hostLabel serverAddr rows cols prediction dialled serverKey authorized backend command
      user agentDir pid earlier absent sized =>
    refine ⟨ServerCore.run_grown serverKey authorized backend command user agentDir pid earlier,
      .inl ⟨rfl,rfl,fun _ _ _ member => absurd member List.not_mem_nil,?_⟩,
      fun y there => absurd (there.symm.trans absent) (by simp),fun _ => rfl⟩
    unfold ClientCore.new at dialled
    split at dialled
    · cases dialled
    · obtain ⟨rfl,_⟩ := Prod.mk.inj (Except.ok.inj dialled)
      exact ⟨rfl,Grid.new_wf _ _,Grid.new_blank _ _⟩

/-- What the client shows under a number is the screen that the server polled under it, at every
poll that gave that number; and while the session lasts the client is at the number of its shell,
with the screen last sent, or behind. -/
theorem screens_genuine (begun : s.Begun sid) (paired : Paired keys) (schedule : List Action)
    (guarded : Machine.Along (step sid) (fun s a => s.Ideal sid keys a ∧ s.keepsShell sid a = true) schedule s) :
    let e := s.run sid schedule
    let shown := e.client.shell
    let polled := Machine.observed (step sid) (screenBy sid) schedule s
    (0 < shown.currentSeq →
      (∃ g, (shown.currentSeq,g) ∈ polled) ∧ ∀ g, (shown.currentSeq,g) ∈ polled → shown.grid.view = g.view) ∧
    ∀ y shell, e.server.sessions[sid]? = some y → y.shell = some shell →
      shown.currentSeq ≤ shell.seq ∧
        (0 < shown.currentSeq → shown.currentSeq = shell.seq → shown.grid.view = shell.lastSent.view) := by
  intro e shown polled
  obtain ⟨t,_,shell,screens⟩ := Follows.carries (screenBy sid) (fun s a => s.keepsShell sid a = true)
    (fun seen s t => ∃ shell : Option (ServerShell em), s.Screens sid seen t shell)
    (fun seen s a t t' follows ideal keeps advances linked valid => by
      obtain ⟨shell,screens⟩ := valid
      cases a with
      | client x =>
        change ∃ shell : Option (ServerShell em), (s.step sid (.client x)).Screens sid (seen ++ []) t' shell
        rw [List.append_nil]
        exact ⟨shell,screens.client_step advances linked⟩
      | server x => exact screens.server_step follows ideal keeps advances)
    paired begun.sized [] (begun.follows keys) (Tunnel.start_linked sid keys) ⟨none,begun.screens⟩ guarded
  refine ⟨screens.phase.shows,fun y shell there own => ?_⟩
  have phase := screens.phase
  rw [← screens.held y there,own] at phase
  exact phase.behind

theorem screens_genuine_talk :
    let e := sampleStart.run sampleId talk
    let shown := e.client.shell
    let polled := Machine.observed (step sampleId) (screenBy sampleId) talk sampleStart
    (0 < shown.currentSeq →
      (∃ g, (shown.currentSeq,g) ∈ polled) ∧ ∀ g, (shown.currentSeq,g) ∈ polled → shown.grid.view = g.view) ∧
    ∀ y shell, e.server.sessions[sampleId]? = some y → y.shell = some shell →
      shown.currentSeq ≤ shell.seq ∧
        (0 < shown.currentSeq → shown.currentSeq = shell.seq → shown.grid.view = shell.lastSent.view) :=
  screens_genuine sampleStart_begun sampleKeys_paired talk (by decide +kernel)

end Stack
end Noissh

import Noissh.Codecs
import Noissh.GridTotal
import Noissh.Keystrokes

/-! What the client is shown is what the session's shell was: an exit status that a tick found, and
screens that ticks polled. -/
namespace Noissh

variable {snow : Snow} {em : Emulator} {login : Login}

/-- The status of a child is a word. -/
def Login.Words (login : Login) : Prop :=
  ∀ pty status, (login.tryWait pty).1 = some status → (ControlMsg.exit status).Typed

namespace ServerSession

variable {s t : ServerSession snow em login}

/-- The status kept is a word. -/
def Worded (s : ServerSession snow em login) : Prop := ∀ status, s.exitStatus = some status → (ControlMsg.exit status).Typed

theorem Worded.found (words : login.Words) (worded : s.Worded) {status : Int} (found : s.foundStatus = some status) :
    (ControlMsg.exit status).Typed := by
  unfold foundStatus detectExit at found
  split at found
  · rename_i pty none held
    split at found
    · rename_i exited
      cases found
      exact words pty _ (congrArg Prod.fst exited)
    · rw [none] at found
      cases found
  · rw [drainPty_exitStatus] at found
    exact worded status found

theorem Worded.tick (words : login.Words) (worded : s.Worded) : s.tick.2.2.2.Worded := by
  intro status kept
  rw [s.tick_shell.2.2] at kept
  split at kept
  · exact worded status kept
  · exact worded.found words kept

theorem Worded.takes {frame : Frame} {answers : List Frame} (worded : s.Worded)
    (takes : s.Takes frame t answers) : t.Worded := by
  intro status kept
  cases takes with
  | input offset data =>
    have same : (s.onInput offset data).2.exitStatus = s.exitStatus := by
      unfold onInput
      split
      · rfl
      · dsimp only
        split <;> rfl
    exact worded status (same ▸ kept)
  | bye data =>
    cases old : s.exitStatus with
    | none =>
      have zero : some 0 = some status := by
        unfold bye at kept
        rw [old] at kept
        exact kept
      cases zero
      exact ⟨by decide,by decide⟩
    | some before =>
      have same : some before = some status := by
        unfold bye at kept
        rw [old] at kept
        exact kept
      exact worded status (old.trans same)
  | _ => exact worded status kept

/-- A session answers by acknowledgements and pongs. -/
theorem TakesAll.answers_cases {p : ServerSession snow em login → Frame → Bool} {frames answers : List Frame}
    (takes : TakesAll p s frames t answers) {frame : Frame} (member : frame ∈ answers) :
    (∃ seq, frame = .ack seq) ∨ ∃ stamp, frame = .pong stamp := by
  induction takes with
  | nil => exact absurd member List.not_mem_nil
  | cons _ first _ ih =>
    rcases List.mem_append.mp member with here | there
    · cases first with
      | input offset data =>
        obtain ⟨_,_,acks⟩ := onInput_kept _ offset data
        exact .inl (acks _ here)
      | ping stamp => exact .inr ⟨stamp,List.mem_singleton.mp here⟩
      | _ => exact absurd here List.not_mem_nil
    · exact ih there

theorem Worded.takesAll {p : ServerSession snow em login → Frame → Bool} {frames answers : List Frame} (worded : s.Worded)
    (takes : TakesAll p s frames t answers) : t.Worded := by
  induction takes with
  | nil => exact worded
  | cons _ first _ ih => exact ih (worded.takes first)

end ServerSession

namespace Stack

variable {sid : SessionId} {keys : Side → NoiseSession snow} {s : Stack snow em login} {t t' : Tunnel snow}

/-- The status that a tick of the server finds the session's shell to have exited with. -/
def exitBy (sid : SessionId) (s : Stack snow em login) : Action → List Int
  | .server (.tick order) =>
    if order.isPerm s.server.sessions.keys ∧ s.server.calm order then
      (s.server.sessions[sid]?).elim [] (fun y => if y.reaped then [] else y.foundStatus.toList)
    else []
  | _ => []

/-- What was told of an exit is what was found. -/
structure Exits (sid : SessionId) (found : List Int) (s : Stack snow em login) (t : Tunnel snow) : Prop where
  worded : ∀ y, s.server.sessions[sid]? = some y → y.Worded
  sent : ∀ data status, .control data ∈ (t .server).emitted → ControlMsg.decode data = .ok (.exit status) → status ∈ found
  shown : ∀ status, s.client.exited = some status → status ∈ found

theorem version_decodes : ControlMsg.decode (ControlMsg.serverVersion pkgVersion).encode = .ok (.serverVersion pkgVersion) := by
  decide +kernel

/-- The status the client has is one it had, or was told. -/
theorem told_cases (frames : List Frame) (exited : Option Int) {status : Int}
    (after : frames.foldl ClientCore.told exited = some status) :
    exited = some status ∨ ∃ data, .control data ∈ frames ∧ ControlMsg.decode data = .ok (.exit status) := by
  induction frames generalizing exited with
  | nil => exact .inl after
  | cons frame rest ih =>
    rcases ih _ after with here | ⟨data,member,decoded⟩
    · cases frame with
      | control data =>
        simp only [ClientCore.told] at here
        split at here
        · rename_i decoded
          cases here
          exact .inr ⟨data,.head _,decoded⟩
        · exact .inl here
      | _ => exact .inl here
    · exact .inr ⟨data,.tail _ member,decoded⟩

theorem Exits.client_step {found : List Int} (exits : Exits sid found s t) {x : ClientCore.Call}
    (advances : s.Advances sid (.client x) t t') (linked : t'.Linked sid keys) :
      Exits sid found (s.step sid (.client x)) t' := by
  refine ⟨exits.worded,?_,fun status shown => ?_⟩
  · rw [show (t' .server).emitted = (t .server).emitted from congrArg Peer.emitted advances.other]
    exact exits.sent
  · have after : (s.client.opens x).foldl ClientCore.told s.client.exited = some status := by
      rw [← (s.client.call_shell x).2]
      exact shown
    rcases told_cases _ _ after with before | ⟨data,member,decoded⟩
    · exact exits.shown status before
    · exact exits.sent data status (advances.heard linked member) decoded

theorem Exits.server_step {found : List Int} (exits : Exits sid found s t) (follows : s.Follows sid keys t) (words : login.Words)
    {x : ServerCore.Call} (advances : s.Advances sid (.server x) t t') :
    Exits sid (found ++ s.exitBy sid (.server x)) (s.step sid (.server x)) t' := by
  have named := follows.server.named
  have shown : ∀ status, s.client.exited = some status → status ∈ found ++ s.exitBy sid (.server x) :=
    fun status kept => List.mem_append_left _ (exits.shown status kept)
  have emitted : (t' .server).emitted = (t .server).emitted ++ s.server.emits sid x := advances.emitted
  have steps : (∀ y, (s.server.call x).sessions[sid]? = some y → y.Worded) →
      (∀ data status, .control data ∈ s.server.emits sid x → ControlMsg.decode data = .ok (.exit status) →
        status ∈ s.exitBy sid (.server x)) → Exits sid (found ++ s.exitBy sid (.server x)) (s.step sid (.server x)) t' := by
    intro worded told
    refine ⟨worded,fun data status member decoded => ?_,shown⟩
    rw [emitted] at member
    rcases List.mem_append.mp member with old | new
    · exact List.mem_append_left _ (exits.sent data status old decoded)
    · exact List.mem_append_right _ (told data status new decoded)
  have silent : s.server.emits sid x = [] → ∀ data status, .control data ∈ s.server.emits sid x →
      ControlMsg.decode data = .ok (.exit status) → status ∈ s.exitBy sid (.server x) := by
    intro nothing data status member
    rw [nothing] at member
    exact absurd member List.not_mem_nil
  have gone : (s.server.call x).sessions[sid]? = none → ∀ y, (s.server.call x).sessions[sid]? = some y → y.Worded :=
    fun after y held => absurd (held.symm.trans after) (by simp)
  cases there : s.server.sessions[sid]? with
  | none =>
    have starts := ServerCore.call_starts named there x
    refine steps ?_ (silent starts.emits)
    cases starts.turns with
    | same after => exact gone (after.trans there)
    | dropped after => exact gone after
    | begun _ z noise src held session mux _ input typed status =>
      intro y held'
      rw [held] at held'
      cases held'
      exact fun _ kept => absurd (status.symm.trans kept) (by simp)
  | some y =>
    have worded := exits.worded y there
    cases ServerCore.call_becomes named there (s.server.callMeets_always sid x) with
    | still mux after nothing =>
      refine steps (fun z held => ?_) (silent nothing)
      rw [after] at held
      cases held
      exact worded
    | dropped after nothing => exact steps (gone after) (silent nothing)
    | received src buf z after received =>
      have became : ∀ y', (s.server.call x).sessions[sid]? = some y' → y' = z := fun y' held =>
        Option.some.inj (held.symm.trans after)
      generalize s.server.emits sid x = answers at received steps
      cases received with
      | refused e session =>
        refine steps (fun y' held => ?_) (fun _ _ member => absurd member List.not_mem_nil)
        rw [became y' held]
        exact worded
      | taken frames session opens u _ takes =>
        refine steps (fun y' held => ?_) (fun data status member => ?_)
        · have kept : u.Worded := ServerSession.Worded.takesAll (s := { y with session, idleTicks := 0 }) worded takes
          rw [became y' held]
          exact kept
        · rcases takes.answers_cases member with ⟨_,same⟩ | ⟨_,same⟩ <;> cases same
    | ticked order ticks walks calm after emits =>
      refine steps (fun z held => ?_) (fun data status member decoded => ?_)
      · rcases after with after | after
        · rw [after] at held
          cases held
          exact worded.tick words
        · exact absurd (held.symm.trans after) (by simp)
      · rw [emits] at member
        obtain ⟨running,cases_⟩ := y.tickFrames_cases member
        rcases cases_ with same | ⟨_,shell,_,polled⟩ | named | ⟨status',found',same⟩
        · cases same
          rw [version_decodes] at decoded
          cases decoded
        · unfold ServerShell.pollDiff at polled
          dsimp only at polled
          split at polled <;> cases polled
        · exact absurd rfl named
        · cases same
          rw [ControlMsg.decode_encode (worded.found words found')] at decoded
          cases decoded
          simp only [ticks,exitBy,walks,calm,and_self,if_true,there,Option.elim_some,if_neg running,found',Option.mem_toList]

end Stack

namespace ServerShell

variable {s t : ServerShell em}

/-- The shell is one that calls of a shell lead to, on a screen of a size that can be asked for. -/
structure Grown (s : ServerShell em) : Prop where
  reachable : s.Reachable
  screen : s.screen.Reached

theorem Grown.new (rows cols : UInt16) : (ServerShell.new em rows.toNat cols.toNat).Grown :=
  ⟨.new _ _,Grid.new_reached rows cols⟩

theorem Grown.feedOutput (grown : s.Grown) {bytes : Bytes} (fed : s.feedOutput bytes = some t) : t.Grown := by
  refine ⟨grown.reachable.feedOutput fed,?_⟩
  obtain ⟨term,advanced,rfl⟩ := Option.map_eq_some_iff.mp fed
  obtain ⟨grid,performed,made⟩ := Option.bind_eq_some_iff.mp advanced
  cases made
  have all : ∀ (actions : List Perform) (g h : Grid), actions.foldlM (Grid.perform em.width) g = some h →
    g.Reached → h.Reached := by
    intro actions
    induction actions with
    | nil => exact fun g h done reached => Option.some.inj done ▸ reached
    | cons action rest ih =>
      intro g h done reached
      rw [List.foldlM_cons] at done
      obtain ⟨next,first,done⟩ := Option.bind_eq_some_iff.mp done
      have once := reached.apply em.width (.perform action)
      split at once
      · exact absurd (first.symm.trans once) (Option.some_ne_none next)
      · obtain ⟨next',same,reached'⟩ := once
        cases first.symm.trans same
        exact ih next h done reached'
  exact all _ _ _ performed grown.screen

/-- A window of any size that can be asked for fits. -/
theorem Grown.resizes (grown : s.Grown) (rows cols : UInt16) : ∃ t, s.resize rows.toNat cols.toNat = some t ∧ t.Grown := by
  obtain ⟨grid,resized,reached⟩ := grown.screen.apply em.width (.resize rows cols)
  have done : s.resize rows.toNat cols.toNat = some { s with term := { s.term with grid } } := by
    unfold ServerShell.resize Terminal.resize
    rw [show s.term.grid.resize rows.toNat cols.toNat = some grid from resized]
    rfl
  exact ⟨_,done,grown.reachable.resize done,reached⟩

theorem Grown.takeResponses (grown : s.Grown) : s.takeResponses.2.Grown :=
  ⟨grown.reachable.takeResponses,takeResponses_wf grown.screen.wf,grown.screen.paired,grown.screen.narrow⟩

/-- Nothing else changes the screen. -/
theorem Grown.same (grown : s.Grown) (reachable : t.Reachable) (term : t.term = s.term) : t.Grown :=
  ⟨reachable,screen_eq_of_term term ▸ grown.screen⟩

end ServerShell

namespace ServerSession

variable {s t : ServerSession snow em login}

def Grown (s : ServerSession snow em login) : Prop := ∀ shell, s.shell = some shell → shell.Grown

theorem Grown.takes (grown : s.Grown) {frame : Frame} {answers : List Frame} (takes : s.Takes frame t answers) : t.Grown := by
  intro shell held
  cases takes with
  | input offset data =>
    have either : (s.onInput offset data).2.shell = s.shell ∨
        ∃ old, s.shell = some old ∧ (s.onInput offset data).2.shell = some (old.ingestInput offset data).2 := by
      unfold onInput
      cases before : s.shell with
      | none => exact .inl before
      | some old =>
        refine .inr ⟨old,rfl,?_⟩
        dsimp only
        split <;> rfl
    rcases either with same | ⟨old,before,after⟩
    · exact grown shell (same ▸ held)
    · rw [after] at held
      cases held
      exact (grown old before).same ((grown old before).reachable.ingestInput offset data) rfl
  | ack seq =>
    obtain ⟨old,before,rfl⟩ := Option.map_eq_some_iff.mp held
    exact (grown old before).same ((grown old before).reachable.onStateAck seq) (old.onStateAck_term seq)
  | shell data asked cols rows pty bare =>
    cases held
    exact .new rows cols
  | resize data cols rows =>
    obtain ⟨old,before,rfl⟩ := Option.map_eq_some_iff.mp held
    obtain ⟨next,resized,grown'⟩ := (grown old before).resizes rows cols
    rw [resized]
    exact grown'
  | _ => exact grown shell held

theorem Grown.takesAll {p : ServerSession snow em login → Frame → Bool} {frames answers : List Frame} (grown : s.Grown)
    (takes : TakesAll p s frames t answers) : t.Grown := by
  induction takes with
  | nil => exact grown
  | cons _ first _ ih => exact ih (grown.takes first)

theorem Grown.drainPty (grown : s.Grown) : s.drainPty.Grown := by
  refine drainPty_keeps (fun shell => ∀ t : ServerShell em, shell = some t → t.Grown)
    (fun shell next bytes fed old t same => ?_) grown
  cases same
  exact .takeResponses ((old shell rfl).feedOutput fed)

theorem Grown.tick (grown : s.Grown) : s.tick.2.2.2.Grown := by
  intro shell held
  rw [s.tick_shell.2.1] at held
  split at held
  · exact grown shell held
  · unfold polledShell at held
    split at held
    · obtain ⟨old,before,rfl⟩ := Option.map_eq_some_iff.mp held
      have polled := grown.drainPty old before
      exact polled.same polled.reachable.pollDiff old.pollDiff_term
    · exact grown.drainPty shell held

end ServerSession

namespace ServerCore

variable {c : ServerCore snow em login}

/-- Every session's shell has grown from a new one. -/
def Grown (c : ServerCore snow em login) : Prop :=
  ∀ (k : SessionId) (s : ServerSession snow em login), c.sessions[k]? = some s → s.Grown

theorem call_grown (named : c.Named) (grown : c.Grown) (a : Call) : (c.call a).Grown := by
  intro k t after
  cases held : c.sessions[k]? with
  | none =>
    cases (call_starts named held a).turns with
    | same same => exact absurd (after.symm.trans (same.trans held)) (by simp)
    | dropped gone => exact absurd (after.symm.trans gone) (by simp)
    | begun _ t' noise src there session mux sized input typed status =>
      rw [after] at there
      cases there
      intro shell own
      obtain ⟨k',s',old,held',before,rfl⟩ := input shell own
      have kept := grown k' s' held' old before
      exact kept.same kept.reachable.rebind rfl
  | some s =>
    have before := grown k s held
    cases call_becomes named held (c.callMeets_always k a) with
    | still mux there =>
      rw [after] at there
      cases there
      exact before
    | dropped gone => exact absurd (after.symm.trans gone) (by simp)
    | received src buf z there received =>
      rw [after] at there
      cases there
      generalize c.emits k a = answers at received
      cases received with
      | refused => exact before
      | taken frames session opened u _ takes =>
        have kept : u.Grown := ServerSession.Grown.takesAll (s := { s with session, idleTicks := 0 }) before takes
        exact kept
    | ticked order ticks walks calm there =>
      rcases there with there | gone
      · rw [after] at there
        cases there
        exact before.tick
      · exact absurd (after.symm.trans gone) (by simp)

theorem run_grown (privateKey : Bytes) (authorized : AuthorizedKeys) (backend : login.State) (command : Option (List String))
    (user : Option String) (agentDir : String) (pid : Nat) (calls : List Call) :
    (Machine.run call calls (new privateKey authorized backend command user agentDir pid : ServerCore snow em login)).Grown := by
  have both : ∀ c : ServerCore snow em login, c.Named ∧ c.Grown → ∀ calls, (Machine.run call calls c).Named ∧
    (Machine.run call calls c).Grown :=
    fun c valid calls => Machine.run_invariant_always (fun c => c.Named ∧ c.Grown)
      (fun c a valid => ⟨call_named valid.1 a,call_grown valid.1 valid.2 a⟩) calls c valid
  exact (both _ ⟨new_named privateKey authorized backend command user agentDir pid,
    fun k s held => absurd held (by simp [new])⟩ calls).2

/-- The emulator panics on no size that a client can ask for. -/
theorem run_resizes (privateKey : Bytes) (authorized : AuthorizedKeys) (backend : login.State) (command : Option (List String))
    (user : Option String) (agentDir : String) (pid : Nat) (calls : List Call) {k : SessionId} {s : ServerSession snow em login}
    {shell : ServerShell em}
    (held : (Machine.run call calls
      (new privateKey authorized backend command user agentDir pid : ServerCore snow em login)).sessions[k]? = some s)
    (own : s.shell = some shell) (cols rows : UInt16) :
    ∃ next, shell.resize rows.toNat cols.toNat = some next ∧ (s.resize cols rows).shell = some next := by
  have grown := run_grown privateKey authorized backend command user agentDir pid calls k s held
  obtain ⟨next,resized,_⟩ := (grown shell own).resizes rows cols
  refine ⟨next,resized,?_⟩
  unfold ServerSession.resize
  rw [own,Option.map_some,resized,Option.getD_some]

end ServerCore
end Noissh

import Noissh.EndToEnd

/-! Typed bytes through the whole program: from the client's keyboard to the terminal of its
session, over a network that loses, repeats and reorders. -/
namespace Noissh

variable {snow : Snow} {em : Emulator} {login : Login}

namespace InputChannel

/-- The receiving end has moved on: it may have acknowledged more. -/
structure Receives (c d : InputChannel) : Prop where
  sender : d.sender = c.sender
  pushed : d.pushed = c.pushed
  frames : d.frames = c.frames
  acks : c.acks ⊆ d.acks

theorem Receives.refl (c : InputChannel) : Receives c c := ⟨rfl,rfl,rfl,List.Subset.refl _⟩

theorem Receives.trans {c d e : InputChannel} (first : c.Receives d) (second : d.Receives e) : c.Receives e :=
  ⟨second.sender.trans first.sender,second.pushed.trans first.pushed,second.frames.trans first.frames,
    List.Subset.trans first.acks second.acks⟩

end InputChannel

namespace ServerSession

/-- No second shell takes the place of one whose child has exited. -/
def keepsShell (s : ServerSession snow em login) (frame : Frame) : Bool :=
  !ServerCore.asks frame || s.shell.isNone || s.pty.isSome

/-- Nor does the terminal refuse anything that the frame types. -/
def keepsTyping (s : ServerSession snow em login) (frame : Frame) : Bool := s.takesAll frame && s.keepsShell frame

/-- What the session has of the typed bytes is what the channel has delivered. -/
structure Has (s : ServerSession snow em login) (c : InputChannel) : Prop where
  receiver : c.receiver = s.shell.elim .new (·.inputRx)
  typed : s.typed = c.delivered

variable {s t : ServerSession snow em login} {c : InputChannel}

theorem Has.input (has : s.Has c) (exact : c.Exact) {offset : Nat} {data : Bytes}
    (takes : s.takesAll (.input offset data) = true) (sent : .input offset data ∈ c.frames) :
    ∃ d : InputChannel, d.Exact ∧ c.Receives d ∧ (s.onInput offset data).2.Has d ∧
      ∀ seq, .ack seq ∈ (s.onInput offset data).1 → seq ∈ d.acks := by
  unfold onInput takesAll at *
  cases held : s.shell with
  | none => exact ⟨c,exact,.refl c,has,fun _ member => absurd member List.not_mem_nil⟩
  | some shell =>
    have receiver : shell.inputRx = c.receiver := by
      rw [has.receiver,held]
      rfl
    rw [held] at takes
    dsimp only at takes ⊢
    refine ⟨c.receive (.input offset data),exact.receive (exact.frames _ sent),⟨rfl,rfl,rfl,List.subset_append_left _ _⟩,?_,?_⟩
    · cases terminal : s.pty with
      | none =>
        have none : (unseen shell offset data).length ≤ 0 := by
          simpa [taken,terminal] using takes
        refine ⟨?_,?_⟩
        · change (c.receiver.ingest offset data).2 = (shell.inputRx.ingest offset data).2
          rw [receiver]
        · change s.typed = c.delivered ++ (c.receiver.ingest offset data).1
          rw [← receiver,show (shell.inputRx.ingest offset data).1 = [] from List.length_eq_zero_iff.mp (Nat.le_zero.mp none),
            List.append_nil,has.typed]
      | some pty =>
        have whole : (unseen shell offset data).length ≤ (login.write pty (unseen shell offset data)).1.getD 0 := by
          simpa [taken,terminal] using takes
        refine ⟨?_,?_⟩
        · change (c.receiver.ingest offset data).2 = (shell.inputRx.ingest offset data).2
          rw [receiver]
        · change s.typed ++ (unseen shell offset data).take ((login.write pty (unseen shell offset data)).1.getD 0) =
            c.delivered ++ (c.receiver.ingest offset data).1
          rw [List.take_of_length_le whole,has.typed,← receiver]
          rfl
    · intro seq member
      have said : seq = ((shell.inputRx.ingest offset data).2).ack := by
        split at member <;> exact Frame.ack.inj (List.mem_singleton.mp member)
      rw [said,receiver]
      exact List.mem_append_right _ (List.mem_singleton.mpr rfl)

/-- A frame of the session leaves it with what the channel delivers. -/
theorem Has.takes (has : s.Has c) (exact : c.Exact) {frame : Frame} {answers : List Frame} (takes : s.Takes frame t answers)
    (keeps : s.keepsTyping frame = true) (sent : ∀ offset data, frame = .input offset data → frame ∈ c.frames) :
    ∃ d : InputChannel, d.Exact ∧ c.Receives d ∧ t.Has d ∧ ∀ seq, .ack seq ∈ answers → seq ∈ d.acks := by
  have quiet : t.shell.elim .new (·.inputRx) = s.shell.elim InputReceiver.new (·.inputRx) → t.typed = s.typed →
      (∀ seq, .ack seq ∉ answers) → ∃ d : InputChannel, d.Exact ∧ c.Receives d ∧ t.Has d ∧
        ∀ seq, .ack seq ∈ answers → seq ∈ d.acks :=
    fun receiver typed silent => ⟨c,exact,.refl c,⟨has.receiver.trans receiver.symm,typed.trans has.typed⟩,
      fun seq member => absurd member (silent seq)⟩
  unfold keepsTyping at keeps
  obtain ⟨takesAll,opens⟩ := Bool.and_eq_true_iff.mp keeps
  cases takes with
  | input offset data => exact has.input exact takesAll (sent offset data rfl)
  | ack seq =>
    refine quiet ?_ rfl (fun _ => List.not_mem_nil)
    unfold onStateAck
    cases s.shell with
    | none => rfl
    | some shell =>
      simp only [Option.map_some,Option.elim_some,ServerShell.onStateAck]
      split <;> rfl
  | shell data asked cols rows pty bare =>
    -- The session had no terminal, so it had no shell either, and nothing was typed.
    have none : s.shell = none := by simpa [keepsShell,asked,bare] using opens
    have fresh : c.receiver = .new := by
      rw [has.receiver,none]
      rfl
    refine ⟨c,exact,.refl c,⟨fresh,?_⟩,fun _ member => absurd member List.not_mem_nil⟩
    rw [exact.delivered,fresh]
    rfl
  | resize data cols rows =>
    refine quiet ?_ rfl (fun _ => List.not_mem_nil)
    unfold resize
    cases s.shell with
    | none => rfl
    | some shell =>
      simp only [Option.map_some,Option.elim_some,ServerShell.resize]
      cases shell.term.resize rows.toNat cols.toNat <;> rfl
  | ping stamp => exact quiet rfl rfl (fun seq member => by cases List.mem_singleton.mp member)
  | bye data => exact quiet rfl rfl (fun _ => List.not_mem_nil)
  | control data => exact quiet rfl rfl (fun _ => List.not_mem_nil)
  | stream => exact quiet rfl rfl (fun _ => List.not_mem_nil)

theorem Has.takesAll (has : s.Has c) (exact : c.Exact) {frames answers : List Frame}
    (takes : TakesAll keepsTyping s frames t answers)
    (sent : ∀ offset data, .input offset data ∈ frames → .input offset data ∈ c.frames) :
    ∃ d : InputChannel, d.Exact ∧ c.Receives d ∧ t.Has d ∧ ∀ seq, .ack seq ∈ answers → seq ∈ d.acks := by
  induction takes generalizing c with
  | nil s => exact ⟨c,exact,.refl c,has,fun _ member => absurd member List.not_mem_nil⟩
  | cons keeps first _ ih =>
    obtain ⟨d,exact',moved,has',acked⟩ := has.takes exact first keeps (fun offset data same => by
      rw [same]
      exact sent offset data (same ▸ .head _))
    obtain ⟨e,exact'',moved',has'',acked'⟩ := ih has' exact' (fun offset data member => by
      rw [moved.frames]
      exact sent offset data (.tail _ member))
    refine ⟨e,exact'',moved.trans moved',has'',fun seq member => ?_⟩
    rcases List.mem_append.mp member with here | there
    · exact moved'.acks (acked seq here)
    · exact acked' seq there

/-- What reading the terminal's output leaves of a shell at each of its steps, it leaves. -/
theorem drainPty_keeps (keeps : Option (ServerShell em) → Prop)
    (fed : ∀ (shell shell' : ServerShell em) bytes, shell.feedOutput bytes = some shell' → keeps (some shell) →
      keeps (some shell'.takeResponses.2))
    (start : keeps s.shell) : keeps s.drainPty.shell := by
  rcases s.drainPty_cases with same | ⟨pty,shell,pty',_,reads,drained⟩
  · rw [same]
    exact start
  rw [drained]
  refine feeds_keep (fun sp => keeps sp.1) (fun sp bytes sp' first start => ?_) reads start
  unfold feed at first
  cases held : sp.1 with
  | none =>
    rw [held] at first
    cases first
    exact start
  | some shell =>
    rw [held] at first
    obtain ⟨next,advanced,rfl⟩ := Option.map_eq_some_iff.mp first
    exact fed shell next bytes advanced (held ▸ start)

/-- Reading the terminal's output, and polling the screen, leave the typed bytes. -/
theorem drainPty_inputRx (s : ServerSession snow em login) :
    s.drainPty.shell.elim .new (·.inputRx) = s.shell.elim InputReceiver.new (·.inputRx) := by
  refine drainPty_keeps (fun shell => shell.elim .new (·.inputRx) = s.shell.elim InputReceiver.new (·.inputRx))
    (fun shell shell' bytes fed old => ?_) rfl
  obtain ⟨term,_,rfl⟩ := Option.map_eq_some_iff.mp fed
  exact old

theorem pollDiff_inputRx (shell : ServerShell em) : shell.pollDiff.2.inputRx = shell.inputRx := by
  have captured : shell.capture.inputRx = shell.inputRx := by
    unfold ServerShell.capture
    split <;> rfl
  unfold ServerShell.pollDiff
  dsimp only
  split <;> exact captured

theorem Has.tick (has : s.Has c) : s.tick.2.2.2.Has c := by
  obtain ⟨typed,shell,_⟩ := s.tick_shell
  refine ⟨?_,typed.trans has.typed⟩
  rw [has.receiver,shell,← s.drainPty_inputRx]
  unfold polledShell
  split
  · exact s.drainPty_inputRx
  split
  · cases s.drainPty.shell with
    | none => rfl
    | some shell => exact (pollDiff_inputRx shell).symm
  · rfl

/-- What a tick gives to seal. -/
theorem tickFrames_cases (s : ServerSession snow em login) {frame : Frame} (member : frame ∈ s.tickFrames) :
    ¬s.reaped = true ∧ (frame = .control (ControlMsg.serverVersion pkgVersion).encode ∨
      (s.session.peerAddr.isSome = true ∧ ∃ shell, s.drainPty.shell = some shell ∧ shell.pollDiff.1 = some frame) ∨
      frame.streamId ≠ none ∨ ∃ status, s.foundStatus = some status ∧ frame = .control (ControlMsg.exit status).encode) := by
  have addressed : ∀ {frames : List Frame}, frame ∈ s.addressed frames → s.session.peerAddr.isSome = true ∧ frame ∈ frames := by
    intro frames member
    unfold ServerSession.addressed at member
    split at member <;> rename_i known
    · exact ⟨known,member⟩
    · exact absurd member List.not_mem_nil
  unfold tickFrames at member
  split at member <;> rename_i reaped
  · exact absurd member List.not_mem_nil
  refine ⟨reaped,?_⟩
  simp only [List.mem_append] at member
  rcases member with ((version | diff) | polled) | exit
  · unfold versionFrames at version
    split at version
    · exact absurd version List.not_mem_nil
    · exact .inl (List.mem_singleton.mp (addressed version).2)
  · obtain ⟨known,diff⟩ := addressed diff
    cases held : s.drainPty.shell with
    | none =>
      rw [held] at diff
      exact absurd diff List.not_mem_nil
    | some shell =>
      rw [held] at diff
      exact .inr (.inl ⟨known,shell,rfl,Option.mem_toList.mp diff⟩)
  · rw [← StreamMux.streamFrames_pollTransmit] at polled
    have named := (List.mem_filter.mp polled).2
    exact .inr (.inr (.inl fun none => by rw [none] at named; cases named))
  · obtain ⟨_,exit⟩ := addressed exit
    cases found : s.foundStatus with
    | none =>
      rw [found] at exit
      exact absurd exit List.not_mem_nil
    | some status =>
      rw [found] at exit
      exact .inr (.inr (.inr ⟨status,rfl,List.mem_singleton.mp exit⟩))

end ServerSession
namespace InputChannel

/-- The client hears acknowledgements that were sent. -/
theorem Exact.hears {c : InputChannel} (exact : c.Exact) (shell : ClientShell) (sender : c.sender = shell.inputTx)
    {frames : List Frame} (acked : ∀ seq, .ack seq ∈ frames → seq ∈ c.acks) :
    Exact { c with sender := (frames.foldl Sync.clientReceives shell).inputTx } := by
  induction frames generalizing c shell with
  | nil =>
    rw [List.foldl_nil,← sender]
    exact exact
  | cons frame rest ih =>
    have next : Exact { c with sender := (Sync.clientReceives shell frame).inputTx } := by
      cases frame with
      | ack seq =>
        have moved := exact.onAck (exact.acks seq (acked seq (.head _)))
        rw [sender] at moved
        exact moved
      | stateDiff seq base data =>
        have same : (Sync.clientReceives shell (.stateDiff seq base data)).inputTx = shell.inputTx := by
          simp only [Sync.clientReceives,ClientShell.applyStateDiff]
          split
          · split <;> rfl
          · rfl
        rw [same,← sender]
        exact exact
      | _ =>
        rw [show Sync.clientReceives shell _ = shell from rfl,← sender]
        exact exact
    exact ih next _ rfl (fun seq member => acked seq (.tail _ member))

end InputChannel

namespace Stack

/-- What arrives for the session is typed into a terminal that takes it, and starts no second shell. -/
def keepsTyping (sid : SessionId) (s : Stack snow em login) : Action → Bool
  | .client _ => true
  | .server x => s.server.callMeets ServerSession.keepsTyping sid x

variable {sid : SessionId} {keys : Side → NoiseSession snow} {s : Stack snow em login} {t t' : Tunnel snow} {c : InputChannel}

/-- A frame that one side opens was sealed by the other. -/
theorem Advances.heard {a : Action} (advances : s.Advances sid a t t') (linked : t'.Linked sid keys) {frame : Frame}
    (opened : frame ∈ s.opens sid a) : frame ∈ (t (side a).other).emitted := by
  rw [← advances.other]
  refine linked.mem_emitted (side a).other ?_
  rw [Side.other_other,advances.opened]
  exact List.mem_append_right _ opened

/-- The program is an input channel, whose frames and acknowledgements are those that were sealed. -/
structure Typing (sid : SessionId) (s : Stack snow em login) (t : Tunnel snow) (c : InputChannel) : Prop where
  exact : c.Exact
  pushed : c.pushed = s.typed
  sender : c.sender = s.client.shell.inputTx
  frames : ∀ offset data, .input offset data ∈ (t .client).emitted → .input offset data ∈ c.frames
  acks : ∀ seq, .ack seq ∈ (t .server).emitted → seq ∈ c.acks
  unmet : s.met = false → c.receiver = .new
  held : ∀ y, s.server.sessions[sid]? = some y → y.Has c

theorem unmet_before {a : Action} (unmet : (s.step sid a).met = false) : s.met = false := (Bool.or_eq_false_iff.mp unmet).1

theorem Follows.met_of_held (follows : s.Follows sid keys t) {y : ServerSession snow em login}
    (there : s.server.sessions[sid]? = some y) : s.met = true := by
  by_contra unmet
  have absent := (follows.server.unmet (by simpa using unmet)).1
  rw [there] at absent
  cases absent

/-- A call of the client pushes what is typed, sends what is pending, and hears acknowledgements. -/
theorem Typing.client_step (typing : s.Typing sid t c) (follows : s.Follows sid keys t) {x : ClientCore.Call}
    (advances : s.Advances sid (.client x) t t') (linked : t'.Linked sid keys) :
    ∃ d, (s.step sid (.client x)).Typing sid t' d := by
  obtain ⟨shell,_⟩ := s.client.call_shell x
  have sends := typing.exact.after_step .send
  have heard : ∀ seq, .ack seq ∈ s.client.opens x → seq ∈ c.acks := fun seq member =>
    typing.acks seq (advances.heard linked member)
  have unheard : (t' .server).emitted = (t .server).emitted := congrArg Peer.emitted advances.other
  have frames : ∀ offset data, .input offset data ∈ (t' .client).emitted → .input offset data ∈ (c.step .send).frames := by
    intro offset data member
    rw [show (t' .client).emitted = (t .client).emitted ++ s.client.emits x from advances.emitted] at member
    rcases List.mem_append.mp member with old | new
    · exact List.mem_append_left _ (typing.frames offset data old)
    · refine List.mem_append_right _ ?_
      rw [typing.sender]
      rcases ClientCore.emits_cases follows.client.controls new with ⟨data,same⟩ | pending | same | same | named
      · cases same
      · exact Option.mem_toList.mpr pending
      · cases same
      · cases same
      · exact absurd rfl named
  have still : ∀ d : InputChannel, d.Exact → d.pushed = (s.step sid (.client x)).typed →
    d.sender = (s.client.call x).2.shell.inputTx →
      d.frames = (c.step .send).frames → d.acks = c.acks → d.receiver = c.receiver → d.delivered = c.delivered →
      (s.step sid (.client x)).Typing sid t' d := by
    intro d exact pushed sender sent acks receiver delivered
    refine ⟨exact,pushed,sender,fun offset data member => sent ▸ frames offset data member,fun seq member => ?_,fun unmet => ?_,
      fun y there => ?_⟩
    · rw [acks]
      exact typing.acks seq (unheard ▸ member)
    · rw [receiver]
      exact typing.unmet (unmet_before unmet)
    · obtain ⟨receiver',typed⟩ := typing.held y there
      exact ⟨receiver.trans receiver',typed.trans delivered.symm⟩
  have hears : s.typedBy (.client x) = s.typed →
    s.client.shellBy x = (s.client.opens x).foldl Sync.clientReceives s.client.shell →
      ∃ d, (s.step sid (.client x)).Typing sid t' d := by
    intro typed same
    refine ⟨_,still _ (sends.hears s.client.shell typing.sender heard) ?_ ?_ rfl rfl rfl rfl⟩
    · exact typing.pushed.trans typed.symm
    · rw [shell,same]
  cases x with
  | typeInput bytes =>
    refine ⟨_,still ((c.step .send).step (.push bytes)) (sends.after_step _) ?_ ?_ rfl rfl rfl rfl⟩
    · exact congrArg (· ++ bytes) typing.pushed
    · rw [shell]
      exact congrArg (InputSender.push · bytes) typing.sender
  | _ => exact hears rfl rfl

/-- A call of the server delivers what its session opens, or leaves the channel. -/
theorem Typing.server_step (typing : s.Typing sid t c) (follows : s.Follows sid keys t) {x : ServerCore.Call}
    (ideal : s.Ideal sid keys (.server x)) (keeps : s.keepsTyping sid (.server x) = true)
      (advances : s.Advances sid (.server x) t t')
    (linked : t'.Linked sid keys) : ∃ d, (s.step sid (.server x)).Typing sid t' d := by
  have named := follows.server.named
  have heard : ∀ frame ∈ s.server.opens sid x, frame ∈ (t .client).emitted := fun frame member => advances.heard linked member
  have unsaid : (t' .client).emitted = (t .client).emitted := congrArg Peer.emitted advances.other
  have emitted : (t' .server).emitted = (t .server).emitted ++ s.server.emits sid x := advances.emitted
  have moves : ∀ d : InputChannel, d.Exact → c.Receives d → (∀ seq, .ack seq ∈ s.server.emits sid x → seq ∈ d.acks) →
      ((s.step sid (.server x)).met = false → d.receiver = .new) →
      (∀ y, (s.server.call x).sessions[sid]? = some y → y.Has d) → (s.step sid (.server x)).Typing sid t' d := by
    intro d exact moved acked unmet held
    refine ⟨exact,moved.pushed.trans typing.pushed,moved.sender.trans typing.sender,fun offset data member => ?_,
      fun seq member => ?_,unmet,held⟩
    · rw [moved.frames]
      exact typing.frames offset data (unsaid ▸ member)
    · rw [emitted] at member
      rcases List.mem_append.mp member with old | new
      · exact moved.acks (typing.acks seq old)
      · exact acked seq new
  have same : (∀ seq, .ack seq ∉ s.server.emits sid x) → (∀ y, (s.server.call x).sessions[sid]? = some y → y.Has c) →
      ∃ d, (s.step sid (.server x)).Typing sid t' d := fun silent held =>
    ⟨c,moves c typing.exact (.refl c) (fun seq member => absurd member (silent seq))
      (fun unmet => typing.unmet (unmet_before unmet)) held⟩
  have quiet : s.server.emits sid x = [] → ∀ seq, .ack seq ∉ s.server.emits sid x := fun silent seq member => by
    rw [silent] at member
    exact absurd member List.not_mem_nil
  cases there : s.server.sessions[sid]? with
  | none =>
    have starts := ServerCore.call_starts named there x
    have gone : (s.server.call x).sessions[sid]? = none → ∃ d, (s.step sid (.server x)).Typing sid t' d := fun after =>
      same (quiet starts.emits) (fun y held => absurd (held.symm.trans after) (by simp))
    cases starts.turns with
    | same after => exact gone (after.trans there)
    | dropped after => exact gone after
    | begun _ z noise src held session mux _ input typed status =>
      refine same (quiet starts.emits) (fun y there' => ?_)
      rw [held] at there'
      cases there'
      have fresh : c.receiver = .new := by
        refine typing.unmet ?_
        by_contra met
        have absent : (s.server.call x).sessions[sid]? = none := ideal.once (by simpa using met) there
        exact absurd (absent.symm.trans held) (by simp)
      refine ⟨fresh.trans ?_,?_⟩
      · cases shell : z.shell with
        | none => rfl
        | some new =>
          obtain ⟨_,_,old,_,_,rfl⟩ := input new shell
          rfl
      · rw [typed,typing.exact.delivered,fresh]
        rfl
  | some y =>
    have has := typing.held y there
    have met : (s.step sid (.server x)).met ≠ false := by
      simp [step,follows.met_of_held there]
    cases ServerCore.call_becomes named there keeps with
    | still mux after silent =>
      refine same (quiet silent) (fun z held => ?_)
      rw [after] at held
      cases held
      exact ⟨has.receiver,has.typed⟩
    | dropped after silent => exact same (quiet silent) (fun z held => absurd (held.symm.trans after) (by simp))
    | ticked order ticks walks calm after emits =>
      refine same (fun seq member => ?_) (fun z held => ?_)
      · rw [emits] at member
        rcases (y.tickFrames_cases member).2 with same | ⟨_,shell,_,polled⟩ | named | ⟨status,_,same⟩
        · cases same
        · unfold ServerShell.pollDiff at polled
          dsimp only at polled
          split at polled <;> cases polled
        · exact absurd rfl named
        · cases same
      · rcases after with after | after
        · rw [after] at held
          cases held
          exact has.tick
        · exact absurd (held.symm.trans after) (by simp)
    | received src buf z after received opened =>
      have became : ∀ y', (s.server.call x).sessions[sid]? = some y' → y' = z := fun y' held =>
        Option.some.inj (held.symm.trans after)
      generalize s.server.emits sid x = answers at received moves same quiet
      cases received with
      | refused e session =>
        refine same (fun _ => List.not_mem_nil) (fun y' held => ?_)
        rw [became y' held]
        exact ⟨has.receiver,has.typed⟩
      | taken frames session opens u _ takes =>
        rw [opens] at opened
        have start : ServerSession.Has { y with session, idleTicks := 0 } c := ⟨has.receiver,has.typed⟩
        obtain ⟨d,exact,moved,has',acked⟩ := start.takesAll typing.exact takes (fun offset data member =>
          typing.frames offset data (heard _ (by rw [opened]; exact member)))
        refine ⟨d,moves d exact moved acked (fun unmet => absurd unmet met) (fun y' held => ?_)⟩
        rw [became y' held]
        exact ⟨has'.receiver,has'.typed⟩

theorem Begun.typing (begun : s.Begun sid) : s.Typing sid (Tunnel.start sid keys) .start := by
  have follows := begun.follows keys
  cases begun with
  | intro privateKey termVar known hostLabel serverAddr rows cols prediction dialled serverKey authorized backend command
      user agentDir pid earlier absent sized =>
    refine ⟨InputChannel.start_exact,rfl,?_,fun _ _ member => absurd member List.not_mem_nil,
      fun _ member => absurd member List.not_mem_nil,fun _ => rfl,fun y there => absurd (there.symm.trans absent) (by simp)⟩
    unfold ClientCore.new at dialled
    split at dialled
    · cases dialled
    · obtain ⟨rfl,_⟩ := Prod.mk.inj (Except.ok.inj dialled)
      rfl

/-- Any call moves the channel on. -/
theorem Typing.after_step (typing : s.Typing sid t c) (follows : s.Follows sid keys t) {a : Action} (ideal : s.Ideal sid keys a)
    (keeps : s.keepsTyping sid a = true) (advances : s.Advances sid a t t') (linked : t'.Linked sid keys) :
    ∃ d, (s.step sid a).Typing sid t' d := by
  cases a with
  | client x => exact typing.client_step follows advances linked
  | server x => exact typing.server_step follows ideal keeps advances linked

/-- What the terminal was typed, and what the client keeps. -/
theorem Typing.through (typing : s.Typing sid t c) :
    s.client.shell.inputTx.buffer = s.typed.drop s.client.shell.inputTx.base ∧
      ∀ y, s.server.sessions[sid]? = some y → y.typed <+: s.typed ∧ s.client.shell.inputTx.base ≤ y.typed.length := by
  have exact := typing.exact
  refine ⟨?_,fun y there => ?_⟩
  · rw [← typing.sender,← typing.pushed]
    exact exact.buffer
  · have delivered : y.typed = s.typed.take c.receiver.received := by
      rw [(typing.held y there).typed,exact.delivered,typing.pushed]
    refine ⟨delivered ▸ List.take_prefix _ _,?_⟩
    have received := exact.received
    rw [typing.pushed] at received
    rw [delivered,List.length_take,Nat.min_eq_left received,← typing.sender]
    exact exact.base

theorem Begun.types (begun : s.Begun sid) (paired : Paired keys) (schedule : List Action)
    (guarded : Machine.Along (step sid) (fun s a => s.Ideal sid keys a ∧ s.keepsTyping sid a = true) schedule s) :
    ∃ (t : Tunnel snow) (c : InputChannel), (s.run sid schedule).Typing sid t c := by
  obtain ⟨t,_,c,typing⟩ := Follows.carries (fun _ _ => ([] : List Unit)) (fun s a => s.keepsTyping sid a = true)
    (fun _ s t => ∃ c, s.Typing sid t c)
    (fun _ _ _ _ _ follows ideal keeps advances linked typed => by
      obtain ⟨c,typing⟩ := typed
      exact typing.after_step follows ideal keeps advances linked)
    paired begun.sized [] (begun.follows keys) (Tunnel.start_linked sid keys) ⟨_,begun.typing⟩ guarded
  exact ⟨t,c,typing⟩

end Stack
end Noissh

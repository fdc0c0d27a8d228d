import Noissh.Admission

/-! What a client learns of hosts in a connection: at most the key of the one that it dialled, when it had
none for it. -/
namespace Noissh

theorem verifyServer_new {known : KnownHosts} {host : String} {key : Bytes} (fresh : (verifyServer known host key).1 = .new) :
    ∃ pin : PublicKey, pin.bytes = key ∧ known.hosts[host]? = none ∧
      (verifyServer known host key).2 = { hosts := known.hosts.insert host pin } := by
  unfold verifyServer at fresh ⊢
  split at fresh
  · cases fresh
  · rename_i pin made
    unfold KnownHosts.checkOrAdd at fresh ⊢
    split at fresh
    · rename_i absent
      rw [absent]
      refine ⟨pin,?_,rfl,rfl⟩
      unfold PublicKey.fromBytes at made
      split at made
      · cases made
        rfl
      · cases made
    · split at fresh <;> cases fresh

theorem verifyServer_old {known : KnownHosts} {host : String} {key : Bytes} (met : (verifyServer known host key).1 ≠ .new) :
    (verifyServer known host key).2 = known := by
  unfold verifyServer at met ⊢
  split
  · rfl
  · rename_i pin made
    rw [made] at met
    unfold KnownHosts.checkOrAdd at met ⊢
    dsimp only at met
    split
    · rename_i absent
      rw [absent] at met
      exact absurd rfl met
    · rfl

namespace ClientCore

variable {snow : Snow} {c d : ClientCore snow} {known : KnownHosts} {label : String}

/-- The pins are those that the client began with, and the one of its host may have been added. -/
inductive Learned (known : KnownHosts) (label : String) (c : ClientCore snow) : Prop where
  | nothing (same : c.known = known) (clean : c.knownHostsDirty = false)
  | pinned (pin : PublicKey) (absent : known.hosts[label]? = none) (added : c.known = { hosts := known.hosts.insert label pin })

theorem outgoing_dirty (c : ClientCore snow) : c.outgoing.2.knownHostsDirty = c.knownHostsDirty := by
  have gathered : c.gather.2.knownHostsDirty = c.knownHostsDirty := by
    unfold gather remoteForwardFrames openShellFrames
    dsimp only
    split <;> split <;> rfl
  unfold outgoing
  split
  · rfl
  · dsimp only
    split
    · exact gathered
    · split <;> exact gathered

theorem onFrames_dirty (c : ClientCore snow) (frames : List Frame) :
    (c.onFrames frames).knownHostsDirty = c.knownHostsDirty := by
  have one : ∀ (c : ClientCore snow) (frame : Frame), (c.onFrame frame).knownHostsDirty = c.knownHostsDirty := by
    intro c frame
    cases frame with
    | control data =>
      unfold onFrame onControl
      dsimp only
      split
      · rfl
      · split <;> rfl
      · rfl
    | _ => rfl
  have all : ∀ (frames : List Frame) (c : ClientCore snow), (frames.foldl onFrame c).knownHostsDirty = c.knownHostsDirty := by
    intro frames
    induction frames with
    | nil => exact fun _ => rfl
    | cons frame rest ih => exact fun c => (ih _).trans (one c frame)
  exact all frames c

theorem handleTransport_dirty (c : ClientCore snow) (buf : Bytes) :
    (c.handleTransport buf).knownHostsDirty = c.knownHostsDirty := by
  unfold handleTransport
  split
  · rfl
  · split
    · rfl
    · exact onFrames_dirty _ _

/-- Only a handshake message touches the pins, or the mark that they have changed. -/
theorem call_dirty (c : ClientCore snow) (x : Call) :
    (Keeps c (c.call x).2 ∧ (c.call x).2.knownHostsDirty = c.knownHostsDirty) ∨
      ∃ body, (c.call x).2 = (c.handleHandshake body).2 := by
  cases x with
  | handlePacket buf =>
    unfold call handlePacket
    dsimp only
    split
    · exact .inl ⟨.refl c,rfl⟩
    · exact .inr ⟨_,rfl⟩
    · exact .inl ⟨c.handleTransport_keeps buf,c.handleTransport_dirty buf⟩
  | tick =>
    have same := c.outgoing_dirty
    refine .inl ⟨c.tick_keeps,?_⟩
    change c.tick.2.knownHostsDirty = _
    unfold tick
    split <;> rename_i eq <;> rw [eq] at same <;> exact same
  | keepalive =>
    refine .inl ⟨c.keepalive_keeps,?_⟩
    change c.keepalive.2.knownHostsDirty = _
    unfold keepalive
    split <;> rfl
  | _ => exact .inl ⟨⟨rfl,rfl,rfl,rfl,rfl,rfl⟩,rfl⟩

theorem establish_known (c : ClientCore snow) (h : Handshaker snow) (out : List Bytes) :
    (c.establish h out).2.known = c.known ∧ (c.establish h out).2.hostLabel = c.hostLabel ∧
      (c.establish h out).2.knownHostsDirty = c.knownHostsDirty := by
  unfold establish
  split
  · exact ⟨rfl,rfl,rfl⟩
  · rename_i session _
    have keeps :=
      outgoing_keeps { c with hs := none, session := some session, established := true, openShellPending := c.wantShell }
    have same :=
      outgoing_dirty { c with hs := none, session := some session, established := true, openShellPending := c.wantShell }
    dsimp only
    split <;> rename_i eq <;> rw [eq] at keeps same <;> exact ⟨keeps.known,keeps.hostLabel,same⟩

theorem finishHandshake_learned (learned : c.Learned known c.hostLabel) (h : Handshaker snow) (out : List Bytes) :
    (c.finishHandshake h out).2.Learned known c.hostLabel ∧ (c.finishHandshake h out).2.hostLabel = c.hostLabel := by
  unfold finishHandshake
  split
  · exact ⟨learned,rfl⟩
  · rename_i key _
    have fresh := @verifyServer_new c.known c.hostLabel key
    have old := @verifyServer_old c.known c.hostLabel key
    split
    · rename_i store verdict
      rw [verdict] at old
      obtain rfl : store = c.known := old (by simp)
      exact ⟨learned,rfl⟩
    · rename_i tofu store _ verdict
      rw [verdict] at fresh old
      obtain ⟨same,host,dirty⟩ := establish_known { c with
        known := store
        knownHostsDirty := c.knownHostsDirty || tofu == .new
        serverStatic := some key
        serverVersion := c.learnVersion h } h out
      refine ⟨?_,host⟩
      by_cases new : tofu = .new
      · obtain ⟨pin,_,absent,added⟩ := fresh new
        cases learned with
        | nothing before _ =>
          rw [before] at absent added
          exact .pinned pin absent (same.trans added)
        | pinned other _ before =>
          rw [before,Std.TreeMap.getElem?_insert_self] at absent
          cases absent
      · obtain rfl : store = c.known := old new
        cases learned with
        | nothing before clean =>
          refine .nothing (same.trans before) (dirty.trans ?_)
          simp [clean,new]
        | pinned pin absent before => exact .pinned pin absent (same.trans before)

theorem handleHandshake_learned (learned : c.Learned known c.hostLabel) (body : Bytes) :
    (c.handleHandshake body).2.Learned known c.hostLabel ∧ (c.handleHandshake body).2.hostLabel = c.hostLabel := by
  have same : ∀ hs : Option (Handshaker snow), Learned known c.hostLabel { c with hs } := by
    intro hs
    cases learned with
    | nothing same clean => exact .nothing same clean
    | pinned pin absent added => exact .pinned pin absent added
  unfold handleHandshake
  split
  · exact ⟨learned,rfl⟩
  · split
    · exact ⟨same _,rfl⟩
    · rename_i outcome hs _
      dsimp only
      split
      · exact @finishHandshake_learned _ { c with hs := some hs } known (same _) hs outcome.reply.toList
      · exact ⟨same _,rfl⟩

/-- Whatever calls are made, the client has learned of no host but its own. -/
theorem Dialog.run_learned {dialog : Dialog snow} (learned : dialog.core.Learned known dialog.core.hostLabel)
    (calls : List Call) :
    (dialog.run calls).core.Learned known dialog.core.hostLabel ∧ (dialog.run calls).core.hostLabel = dialog.core.hostLabel := by
  apply Machine.run_invariant_always (fun d : Dialog snow => d.core.Learned known dialog.core.hostLabel ∧
    d.core.hostLabel = dialog.core.hostLabel)
  · intro d x both
    obtain ⟨learned,host⟩ := both
    rw [← host] at learned ⊢
    unfold step
    dsimp only
    rcases d.core.call_dirty x with ⟨keeps,dirty⟩ | ⟨body,same⟩
    · refine ⟨?_,keeps.hostLabel⟩
      cases learned with
      | nothing same clean => exact .nothing (keeps.known.trans same) (dirty.trans clean)
      | pinned pin absent added => exact .pinned pin absent (keeps.known.trans added)
    · rw [same]
      exact handleHandshake_learned learned body
  · exact ⟨learned,rfl⟩

/-- A session is with the server whose key is known for the host. -/
theorem Dialog.Sound.trusts {initiates : snow.Handshake → Bool} {turn : snow.Handshake → Nat} {dialog : Dialog snow}
    (sound : dialog.Sound initiates turn) (established : dialog.core.established = true) :
    ∃ pin : PublicKey, dialog.core.known.hosts[dialog.core.hostLabel]? = some pin ∧ dialog.core.serverKey = some pin.bytes := by
  rcases sound with ⟨_,⟨fresh,_⟩ | ⟨fresh,_⟩⟩ | ⟨_,_,key,noise,pinned,session,same,_⟩
  · rw [fresh] at established
    cases established
  · rw [fresh] at established
    cases established
  · obtain ⟨s,connected,rfl⟩ := Option.map_eq_some_iff.mp session
    refine ⟨key,pinned,?_⟩
    rw [serverKey,connected,← same]

end ClientCore
end Noissh

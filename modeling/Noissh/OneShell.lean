import Noissh.ServerRuns

/-! How many shells a session starts. A request for one is refused while there is a terminal;
the terminal goes when its child exits, and the client may still be repeating its request. -/
namespace Noissh

variable {snow : Snow} {em : Emulator} {login : Login}

namespace ServerCore

/-- No shell is asked for where the child has exited. -/
def notAfterExit (c : ServerCore snow em login) (src : SocketAddr) (buf : Bytes) : Bool :=
  match c.frames src buf with
  | none => true
  | some (sid,frames) => !(frames.any asks && (c.sessions[sid]?).any (·.childGone))

instance : LawfulBEq SessionId := inferInstance

/-- No session begins under the id of one that has started a shell. -/
def notAgain (c : ServerCore snow em login.traced) (buf : Bytes) : Bool :=
  (c.finishes buf).all (fun sid => decide (sid ∉ c.started))

def asksOnce (c : ServerCore snow em login.traced) : Call → Bool
  | .handlePacket _ src buf => c.notAfterExit src buf && c.notAgain buf
  | _ => true

/-- A session without a screen has no terminal and has started none. -/
structure Single (c : ServerCore snow em login.traced) : Prop where
  aligned : c.Aligned
  once : c.started.Nodup
  bare : ∀ sid v, c.view sid = some v → v.screen = false → v.terminal = none ∧ sid ∉ c.started

variable {c d : ServerCore snow em login.traced}

theorem new_view (privateKey : Bytes) (authorized : AuthorizedKeys) (backend : login.traced.State)
    (command : Option (List String)) (user : Option String) (agentDir : String) (pid : Nat) (sid : SessionId) :
    (ServerCore.new privateKey authorized backend command user agentDir pid :
      ServerCore snow em login.traced).view sid = none := by
  have empty : (∅ : Std.TreeMap SessionId (ServerSession snow em login.traced))[sid]? = none := Std.TreeMap.getElem?_emptyc
  exact congrArg (Option.map ServerSession.view) empty

theorem new_single (privateKey : Bytes) (authorized : AuthorizedKeys) (backend : login.State)
    (command : Option (List String)) (user : Option String) (agentDir : String) (pid : Nat) :
    (ServerCore.new privateKey authorized (backend,[]) command user agentDir pid : ServerCore snow em login.traced).Single := by
  refine ⟨rfl,List.nodup_nil,fun sid v held _ => ?_⟩
  cases held.symm.trans (new_view privateKey authorized (backend,[]) command user agentDir pid sid)

theorem Single.alike (single : c.Single) (same : Alike c d) : d.Single := by
  obtain ⟨aligned,log⟩ := same.log single.aligned
  refine ⟨aligned,by rw [log]; exact single.once,fun sid v held screen => ?_⟩
  rw [same.view] at held
  rw [log]
  exact single.bare sid v held screen

/-- A session whose view keeps its screen, and loses no more than its terminal. -/
theorem Single.fewer (single : c.Single) (log : d.Aligned ∧ d.started = c.started)
    (view : ∀ sid v, d.view sid = some v → v.screen = false →
      sid ∉ c.started ∧ v.terminal = none ∨ ∃ u, c.view sid = some u ∧ u.screen = false ∧
        (u.terminal = none → v.terminal = none)) :
    d.Single := by
  refine ⟨log.1,by rw [log.2]; exact single.once,fun sid v held screen => ?_⟩
  rw [log.2]
  rcases view sid v held screen with ⟨fresh,bare⟩ | ⟨u,there,dark,bare⟩
  · exact ⟨bare,fresh⟩
  · exact ⟨bare (single.bare sid u there dark).1,(single.bare sid u there dark).2⟩

/-- One frame, where the child has not exited if it asks for a shell. -/
theorem Single.effect {sid : SessionId} {frame : Frame} (single : c.Single) (effect : Effect sid frame c d)
    (present : asks frame = true → ∀ v, c.view sid = some v → ¬(v.screen = true ∧ v.terminal = none)) : d.Single := by
  cases effect with
  | alike same => exact single.alike same
  | opened asked v held bare number view log =>
    have dark : v.screen = false := Bool.not_eq_true _ ▸ fun screen => present asked v held ⟨screen,bare⟩
    have fresh := (single.bare sid v held dark).2
    obtain ⟨aligned,log⟩ := log single.aligned
    refine ⟨aligned,?_,fun k u there screen => ?_⟩
    · rw [log,List.nodup_append]
      exact ⟨single.once,List.pairwise_singleton _ sid,fun k old k' new same => fresh (List.mem_singleton.mp new ▸ same ▸ old)⟩
    · rw [view,Function.update_apply] at there
      split at there
      · cases there
        cases screen
      · rename_i other
        rw [log,List.mem_append,List.mem_singleton]
        obtain ⟨bare',fresh'⟩ := single.bare k u there screen
        exact ⟨bare',fun known => known.elim fresh' other⟩
  | left asked v held view log =>
    refine single.fewer (log single.aligned) fun k u there screen => .inr ?_
    rw [view,Function.update_apply] at there
    split at there
    · rename_i same
      cases there
      exact ⟨v,same ▸ held,screen,id⟩
    · exact ⟨u,there,screen,id⟩

/-- A child does not exit inside a packet. -/
theorem Effect.present {sid : SessionId} {frame : Frame} (effect : Effect sid frame c d)
    (present : ∀ v, c.view sid = some v → ¬(v.screen = true ∧ v.terminal = none)) :
    ∀ v, d.view sid = some v → ¬(v.screen = true ∧ v.terminal = none) := by
  intro u there
  cases effect with
  | alike same => exact present u (same.view ▸ there)
  | opened asked v held bare number view log =>
    rw [view,Function.update_self] at there
    cases there
    nofun
  | left asked v held view log =>
    rw [view,Function.update_self] at there
    cases there
    exact present v held

theorem present_of_notAfterExit {src : SocketAddr} {buf : Bytes} {sid : SessionId} {frames : List Frame}
    (guard : c.notAfterExit src buf = true) (opened : c.frames src buf = some (sid,frames)) (asked : frames.any asks = true) :
    ∀ v, c.view sid = some v → ¬(v.screen = true ∧ v.terminal = none) := by
  rintro v held ⟨screen,bare⟩
  obtain ⟨s,there,rfl⟩ := Option.map_eq_some_iff.mp held
  have gone : s.childGone = true := by
    have bare : s.pty = none := Option.map_eq_none_iff.mp bare
    simp only [ServerSession.childGone,bare,Option.isNone_none,Bool.and_true]
    exact screen
  simp [notAfterExit,opened,asked,there,gone] at guard

theorem Single.packet {sid : SessionId} {frames : List Frame} (single : c.Single)
    (moves : Relation.ReflTransGen (Moves sid frames) c d)
    (present : frames.any asks = true → ∀ v, c.view sid = some v → ¬(v.screen = true ∧ v.terminal = none)) :
    d.Single := by
  have both : d.Single ∧ (frames.any asks = true → ∀ v, d.view sid = some v → ¬(v.screen = true ∧ v.terminal = none)) := by
    induction moves with
    | refl => exact ⟨single,present⟩
    | tail _ move ih =>
      obtain ⟨single,present⟩ := ih
      rcases move with same | ⟨frame,member,effect⟩
      · exact ⟨single.alike same,fun asked v there => present asked v (same.view ▸ there)⟩
      · refine ⟨single.effect effect fun asked => present (List.any_eq_true.mpr ⟨frame,member,asked⟩),fun asked => ?_⟩
        exact effect.present (present asked)
  exact both.1

theorem Single.admits {buf : Bytes} (single : c.Single) (admits : Admits buf c d) (notAgain : c.notAgain buf = true) :
    d.Single := by
  cases admits with
  | alike same => exact single.alike same
  | fresh sid last absent key view log =>
    have fresh : sid ∉ c.started := by simpa [ServerCore.notAgain,last] using notAgain
    refine single.fewer (log single.aligned) fun k u there screen => ?_
    rw [view,Function.update_apply] at there
    split at there
    · rename_i same
      cases there
      exact .inl ⟨same ▸ fresh,rfl⟩
    · exact .inr ⟨u,there,screen,id⟩
  | moved sid last absent old v held running view log =>
    have fresh : sid ∉ c.started := by simpa [ServerCore.notAgain,last] using notAgain
    refine single.fewer (log single.aligned) fun k u there screen => ?_
    rw [view,Function.update_apply] at there
    split at there
    · rename_i same
      cases there
      exact .inl ⟨same ▸ fresh,(single.bare old v held screen).1⟩
    · rw [Function.update_apply] at there
      split at there
      · cases there
      · exact .inr ⟨u,there,screen,id⟩

theorem Single.tick (single : c.Single) {order : List SessionId} (walks : order.Perm c.sessions.keys) :
    (c.tickAll order).2.Single := by
  refine single.fewer (tick_log order single.aligned) fun k u there screen => .inr ?_
  rcases tick_effect walks k with ⟨_,gone⟩ | ⟨s,held,⟨gone,_⟩ | ⟨_,exited⟩ | same⟩
  · rw [gone] at there
    cases there
  · rw [gone] at there
    cases there
  · rw [exited] at there
    cases there
    exact ⟨s.view,congrArg (Option.map ServerSession.view) held,screen,fun _ => rfl⟩
  · rw [same] at there
    cases there
    exact ⟨s.view,congrArg (Option.map ServerSession.view) held,screen,id⟩

theorem Single.call (single : c.Single) (a : Call) (guard : c.asksOnce a = true) : (c.call a).Single := by
  rcases c.call_cases a with same | ⟨order,src,buf,sid,frames,rfl,walks,opened,moves⟩ | ⟨order,src,buf,rfl,admits⟩ |
    ⟨order,rfl,walks,_,called⟩
  · exact single.alike same
  · exact single.packet moves (present_of_notAfterExit (Bool.and_eq_true_iff.mp guard).1 opened)
  · exact single.admits admits (Bool.and_eq_true_iff.mp guard).2
  · rw [called]
    exact single.tick walks

/-- When no shell is asked for after the child has exited, and no session id is used again, no
session starts two. -/
theorem one_shell_each (privateKey : Bytes) (authorized : AuthorizedKeys) (backend : login.State)
    (command : Option (List String)) (user : Option String) (agentDir : String) (pid : Nat) (calls : List Call)
    (guarded : Machine.Along ServerCore.call (fun c a => c.asksOnce a = true) calls
      (ServerCore.new privateKey authorized (backend,[]) command user agentDir pid : ServerCore snow em login.traced)) :
    (Machine.run ServerCore.call calls
      (ServerCore.new privateKey authorized (backend,[]) command user agentDir pid :
        ServerCore snow em login.traced)).started.Nodup :=
  (Machine.run_invariant Single (fun _ a single guard => single.call a guard) calls _
    (new_single privateKey authorized backend command user agentDir pid) guarded).once

/-- Terminals whose child exits at once. -/
def briefLogin : Login where
  State := Unit
  Handle := Unit
  spawn _ _ := (some (),())
  write _ bytes := (some bytes.length,())
  read _ := ([],())
  tryWait _ := (some 0,())
  kill _ := ()
  setWinsize _ _ _ := ()
  setNonblocking _ := ()

/-- The handshake of a client, and its request for a shell under a nonce. -/
def meet : List Call := [.handlePacket [] firstMessage.1 firstMessage.2,.handlePacket [] thirdMessage.1 thirdMessage.2]

def request (nonce : Nat) : Call :=
  .handlePacket [sampleId] (.v4 1 5) (samplePacket nonce [.control (ControlMsg.openShell 80 24 "xterm" false).encode]).2

theorem one_shell_each_repeated :
    (Machine.run ServerCore.call (meet ++ [request 0,request 1,.tick [sampleId]])
      (ServerCore.new (List.replicate 32 7) ⟨[(clientKey,"client")]⟩ ((),[]) none none "/tmp" 1 :
        ServerCore Clear.noise silentEmulator briefLogin.traced)).started.Nodup :=
  one_shell_each _ _ _ _ _ _ _ _ (by decide +kernel)

/-- The child exits between two copies of the request, and the command runs twice. -/
theorem two_shells_after_exit :
    ¬(Machine.run ServerCore.call (meet ++ [request 0,.tick [sampleId],request 1])
      (ServerCore.new (List.replicate 32 7) ⟨[(clientKey,"client")]⟩ ((),[]) none none "/tmp" 1 :
        ServerCore Clear.noise silentEmulator briefLogin.traced)).started.Nodup := by
  decide +kernel

end ServerCore
end Noissh

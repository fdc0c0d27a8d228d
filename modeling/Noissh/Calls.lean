import Noissh.DriverRuns

/-! The calls by which the driver moves the link, and the streams they concern. -/
namespace Noissh

namespace Link

variable {ok : Action → Prop} {l l' : Link}

/-- The action is a call at side `x` about stream `k`. -/
def callOn (x : Side) (k : Nat) : Action → Bool
  | .write y j _ => y == x && j == k
  | .read y j => y == x && j == k
  | .close y j _ => y == x && j == k
  | .reset y j => y == x && j == k
  | _ => false

theorem ownCall_of_callOn {x : Side} {k : Nat} {a : Action} (call : callOn x k a = true) : ownCall x a = true := by
  cases a <;> simp_all [callOn,ownCall]

theorem event_callOn {x : Side} {j k : Nat} {a : Action} (call : callOn x j a = true) (other : k ≠ j) (l : Link) :
    l.event k a = .idle := by
  cases a with
  | write | read | close | reset =>
    simp only [callOn,Bool.and_eq_true,beq_iff_eq] at call
    simp only [event]
    rw [if_neg (fun same => other (same.symm.trans call.2))]
  | openStream | takeEvents | poll | deliver | lose => cases call

/-- The link after some actions, each of which is allowed. -/
def Reaches (ok : Action → Prop) (l l' : Link) : Prop :=
  ∃ schedule, (∀ a ∈ schedule, ok a) ∧ Machine.run step schedule l = l'

theorem Reaches.refl (l : Link) : Reaches ok l l := ⟨[],nofun,rfl⟩

theorem Reaches.step (l : Link) {a : Action} (allowed : ok a) : Reaches ok l (l.step a) :=
  ⟨[a],by simpa using allowed,rfl⟩

theorem Reaches.trans {a b c : Link} (first : Reaches ok a b) (second : Reaches ok b c) : Reaches ok a c := by
  obtain ⟨early,before,rfl⟩ := first
  obtain ⟨late,after,rfl⟩ := second
  refine ⟨early ++ late,fun a member => ?_,Machine.run_append early late a⟩
  exact (List.mem_append.mp member).elim (before a) (after a)

theorem Reaches.mono {weak : Action → Prop} (le : ∀ a, ok a → weak a) (reaches : Reaches ok l l') :
    Reaches weak l l' := by
  obtain ⟨schedule,allowed,run⟩ := reaches
  exact ⟨schedule,fun a member => le a (allowed a member),run⟩

/-- What every allowed action keeps. -/
theorem Reaches.keeps (reaches : Reaches ok l l') (invariant : Link → Prop)
    (preserved : ∀ l a, invariant l → ok a → invariant (l.step a)) (valid : invariant l) : invariant l' := by
  obtain ⟨schedule,allowed,rfl⟩ := reaches
  induction schedule generalizing l with
  | nil => exact valid
  | cons a rest ih =>
    exact ih (preserved l a valid (allowed a List.mem_cons_self)) (fun b member => allowed b (List.mem_cons_of_mem _ member))

/-- The point of a close never moves. -/
theorem Reaches.closedAt (reaches : Reaches ok l l') (safe : l.Safe) {y : Side} {k n : Nat}
    (closed : l.closedAt y k = some n) : l'.closedAt y k = some n :=
  (reaches.keeps (fun l => l.Safe ∧ l.closedAt y k = some n)
    (fun l a both _ => ⟨step_safe both.1 a,step_closedAt_kept l both.1 a both.2⟩) ⟨safe,closed⟩).2

theorem Reaches.closed (reaches : Reaches ok l l') (safe : l.Safe) {y : Side} {k : Nat}
    (closed : l.closedAt y k ≠ none) : l'.closedAt y k ≠ none := by
  obtain ⟨n,present⟩ := Option.ne_none_iff_exists'.mp closed
  rw [reaches.closedAt safe present]
  nofun

theorem Reaches.born (reaches : Reaches ok l l') {y : Side} {k : Nat} (born : l.born y k = true) : l'.born y k = true :=
  reaches.keeps (fun l => l.born y k = true) (fun l a here _ => step_born l a here) born

/-- Calls about other streams leave a stream alone. -/
theorem Reaches.lane (reaches : Reaches ok l l') (safe : l.Safe) {k : Nat}
    (idle : ∀ l a, ok a → event l k a = .idle) : l'.Safe ∧ l'.lane k = l.lane k := by
  refine reaches.keeps (fun next => next.Safe ∧ next.lane k = l.lane k) (fun next a both allowed => ?_) ⟨safe,rfl⟩
  refine ⟨step_safe both.1 a,?_⟩
  rw [lane_step both.1.keyed,idle next a allowed]
  exact both.2

end Link

namespace Driver

variable {x : Side} {k : Nat}

theorem feedSocket_reaches (fuel : Nat) (l : Link) (c : ForwardConn) (results : List WriteResult) :
    Link.Reaches (· = .read x k) l (feedSocket x k fuel l c results).1 := by
  induction fuel generalizing l c results with
  | zero => exact .refl l
  | succ fuel ih =>
    have read : Link.Reaches (· = .read x k) l (l.step (.read x k)) := .step l rfl
    simp only [feedSocket]
    split
    · split
      · exact read
      · exact read.trans (ih _ _ _)
    · exact .refl l

theorem drainSocket_reaches (reads : List ReadResult) (l : Link) (c : ForwardConn) :
    Link.Reaches (Link.callOn x k · = true) l (drainSocket x k reads l c).1 := by
  unfold drainSocket
  dsimp only
  split
  · split
    · exact .refl l
    · exact .step l (by simp [Link.callOn])
  · exact .refl l

theorem passFin_reaches (l : Link) (c : ForwardConn) : Link.Reaches (Link.callOn x k · = true) l (passFin x k l c).1 := by
  unfold passFin
  dsimp only
  split
  · exact .step l (by simp [Link.callOn])
  · exact .refl l

theorem pumpForward_reaches (io : Io) (d : Driver) (k : Nat) :
    Link.Reaches (Link.callOn x k · = true) d.link (d.pumpForward x io k).link := by
  have conn : ∀ c, Link.Reaches (Link.callOn x k · = true) d.link (pumpConn x k (io k) d.link c).1 := fun c =>
    (((feedSocket_reaches _ d.link _ _).mono (by rintro a rfl; simp [Link.callOn])).trans
      (drainSocket_reaches _ _ _)).trans (passFin_reaches _ _)
  unfold pumpForward
  split
  · dsimp only
    split <;> exact conn _
  · exact .refl _

theorem feedStdin_reaches (fuel : Nat) (l : Link) (p : ExecProc) (results : List WriteResult) :
    Link.Reaches (· = .read x k) l (feedStdin x k fuel l p results).1 := by
  induction fuel generalizing l p results with
  | zero => exact .refl l
  | succ fuel ih =>
    have read : Link.Reaches (· = .read x k) l (l.step (.read x k)) := .step l rfl
    simp only [feedStdin]
    split
    · split
      · exact read
      · exact read.trans (ih _ _ _)
    · exact .refl l

theorem drainOutput_reaches (id : Nat) (read : ExecProc → Bytes × ExecProc) (l : Link) (p : ExecProc) :
    Link.Reaches (Link.callOn x id · = true) l (drainOutput x id read l p).1 := by
  unfold drainOutput
  split
  · dsimp only
    split
    · exact .refl l
    · exact .step l (by simp [Link.callOn])
  · exact .refl l

theorem pumpExec_reaches (io : Io) (d : Driver) (k : Nat) :
    Link.Reaches (Link.ownCall x · = true) d.link (d.pumpExec x io k).link := by
  have proc : ∀ errId p, Link.Reaches (Link.ownCall x · = true) d.link (pumpProc x k errId (io k) d.link p).1 := by
    intro errId p
    unfold pumpProc
    dsimp only
    generalize fedEq : feedStdin x k ((d.link.mux x).recvBuffered k + 1) d.link p (io k).writes = fed
    have first : Link.Reaches (· = .read x k) d.link fed.1 := by
      rw [← fedEq]
      exact feedStdin_reaches _ _ _ _
    have out := drainOutput_reaches (x := x) k (·.readStdout (io k).reads) fed.1 (fed.2.1.flushStdin fed.2.2).1
    have own : ∀ id a, Link.callOn x id a = true → Link.ownCall x a = true := fun _ _ => Link.ownCall_of_callOn
    exact ((first.mono (by rintro a rfl; simp [Link.ownCall])).trans (out.mono (own k))).trans
      ((drainOutput_reaches errId (·.readStderr (io k).errors) _ _).mono (own errId))
  unfold pumpExec
  split
  · rename_i e held
    have proc := proc e.errId e.proc
    generalize pumpProc x k e.errId (io k) d.link e.proc = pumped at proc
    dsimp only
    split
    · have first : Link.Reaches (Link.ownCall x · = true) pumped.1 _ :=
        .step _ (a := .close x k pumped.2.exitCode) (by simp [Link.ownCall])
      exact (proc.trans first).trans (.step _ (by simp [Link.ownCall]))
    · exact proc
  · exact .refl _

/-- The one call an event may lead to. -/
theorem handleEvent_link (d : Driver) (x : Side) (io : Io) (event : StreamEvent) :
    (d.handleEvent x io event).link = d.link ∨ ∃ a, (d.handleEvent x io event).link = d.link.step a ∧
      ((∃ k kind metadata, event = .opened k kind metadata ∧ Link.callOn x k a = true) ∨
        (∃ k metadata, event = .opened k .exec metadata ∧ a = .openStream x .exec []) ∨
        ∃ k e, event = .reset k ∧ d.execs[k]? = some e ∧ a = .reset x e.errId) := by
  cases event with
  | opened k kind metadata =>
    have about : ∀ a, Link.callOn x k a = true → ∃ k' kind' metadata',
        StreamEvent.opened k kind metadata = .opened k' kind' metadata' ∧ Link.callOn x k' a = true :=
      fun a call => ⟨k,kind,metadata,rfl,call⟩
    cases kind with
    | forward =>
      simp only [handleEvent,onOpened]
      split
      · exact .inl rfl
      · exact .inr ⟨_,rfl,.inl (about _ (by simp [Link.callOn]))⟩
    | exec =>
      cases x with
      | client => exact .inl rfl
      | server =>
        simp only [handleEvent,onOpened]
        split
        · exact .inr ⟨_,rfl,.inl (about _ (by simp [Link.callOn]))⟩
        · split
          · exact .inr ⟨_,rfl,.inr (.inl ⟨k,metadata,rfl,rfl⟩)⟩
          · exact .inr ⟨_,rfl,.inl (about _ (by simp [Link.callOn]))⟩
    | session | fileTransfer | agent => exact .inl rfl
  | readable k => exact .inl rfl
  | closed k status =>
    simp only [handleEvent,onClosed]
    split <;> exact .inl rfl
  | reset k =>
    simp only [handleEvent,onReset]
    cases held : d.execs[k]? with
    | none => exact .inl rfl
    | some e => exact .inr ⟨_,rfl,.inr (.inr ⟨k,e,rfl,held,rfl⟩)⟩

theorem handleEvent_reaches (io : Io) (d : Driver) (event : StreamEvent) :
    Link.Reaches (Link.ownCall x · = true) d.link (d.handleEvent x io event).link := by
  rcases d.handleEvent_link x io event with same | ⟨a,eq,call⟩
  · rw [same]
    exact .refl _
  · rw [eq]
    refine .step _ ?_
    rcases call with ⟨k,kind,metadata,_,call⟩ | ⟨k,metadata,_,rfl⟩ | ⟨k,e,_,_,rfl⟩
    · exact Link.ownCall_of_callOn call
    · simp [Link.ownCall]
    · simp [Link.ownCall]

theorem pumpExecs_reaches (io : Io) (keys : List Nat) (d : Driver) :
    Link.Reaches (Link.ownCall x · = true) d.link (keys.foldl (pumpExec x io) d).link := by
  induction keys generalizing d with
  | nil => exact .refl _
  | cons k rest ih => exact (d.pumpExec_reaches io k).trans (ih _)

theorem pump_reaches (io : Io) (d : Driver) :
    Link.Reaches (fun a => Link.ownCall x a = true ∨ a = .takeEvents x) d.link (d.pump x io).link :=
  pump_induct (fun _ d' => Link.Reaches (fun a => Link.ownCall x a = true ∨ a = .takeEvents x) d.link d'.link)
    (fun event _ d' before => before.trans ((d'.handleEvent_reaches io event).mono (fun _ => .inl)))
    (fun d' k before => before.trans ((d'.pumpForward_reaches io k).mono (fun _ call => .inl (Link.ownCall_of_callOn call))))
    (fun d' k before => before.trans ((d'.pumpExec_reaches io k).mono (fun _ => .inl))) (.step _ (.inr rfl))

theorem accept_reaches (d : Driver) (kind : StreamKind) (metadata leftover : Bytes) :
    Link.Reaches (Link.ownCall x · = true) d.link (d.accept x kind metadata leftover).link := by
  have opened : Link.Reaches (Link.ownCall x · = true) d.link (d.link.step (.openStream x kind metadata)) :=
    .step _ (by simp [Link.ownCall])
  unfold accept
  dsimp only
  split
  · exact opened
  · exact opened.trans (.step _ (by simp [Link.ownCall]))

end Driver
end Noissh

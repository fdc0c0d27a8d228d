import Noissh.Calls
import Noissh.ForwardDelivery

/-! When a forwarded connection is removed, has its stream been ended? A connection whose
socket breaks is given up without a word to the peer; every other removal comes after a close
or a reset of the stream. -/
namespace Noissh

/-- The reads reach a hard error. -/
def ReadResult.reachFailure : List ReadResult → Bool
  | .failed :: _ => true
  | .ok (_ :: _) :: rest => reachFailure rest
  | .interrupted :: rest => reachFailure rest
  | _ => false

/-- The first write that is not interrupted takes some bytes. -/
def WriteResult.progress : List WriteResult → Bool
  | .ok (_ + 1) :: _ => true
  | .interrupted :: rest => progress rest
  | _ => false

namespace ForwardConn

/-- How often the pump tries to write to the socket, with `unread` bytes of the stream at hand. -/
def attempts (c : ForwardConn) (unread : Nat) : Nat :=
  (if c.out.isEmpty then 0 else 1) + (if unread = 0 then 0 else 1)

/-- The socket reports no hard error, and takes bytes or has not yet stalled up to the limit. -/
def endures (c : ForwardConn) (writes : List WriteResult) (reads : List ReadResult) (unread : Nat) : Bool :=
  !writes.contains .failed && !ReadResult.reachFailure reads &&
    (decide (c.flushStall + c.attempts unread < flushStallLimit) || WriteResult.progress writes)

variable {c : ForwardConn}

theorem endures_iff {writes : List WriteResult} {reads : List ReadResult} {unread : Nat} :
    c.endures writes reads unread = true ↔ .failed ∉ writes ∧ ReadResult.reachFailure reads = false ∧
      (c.flushStall + c.attempts unread < flushStallLimit ∨ WriteResult.progress writes = true) := by
  simp [endures,and_assoc]

theorem stall_live (live : c.dead = false) (room : c.flushStall + 1 < flushStallLimit) :
    c.stall.dead = false ∧ c.stall.flushStall ≤ c.flushStall + 1 := by
  unfold stall
  dsimp only
  rw [if_neg (by omega)]
  exact ⟨live,Nat.min_le_left _ _⟩

/-- Without a hard error a flush stalls at most once. -/
theorem flush_live {results : List WriteResult} (live : c.dead = false) (unbroken : .failed ∉ results)
    (room : c.flushStall + 1 < flushStallLimit) :
    (flush results c).1.dead = false ∧ (flush results c).1.flushStall ≤ c.flushStall + 1 ∧
      .failed ∉ (flush results c).2 := by
  fun_induction flush results c with
  | case1 results c done => exact ⟨live,Nat.le_succ _,unbroken⟩
  | case2 c waiting =>
    obtain ⟨alive,bound⟩ := stall_live live room
    exact ⟨alive,bound,by simp⟩
  | case3 c waiting rest => exact ⟨live,Nat.le_succ _,fun later => unbroken (List.mem_cons_of_mem _ later)⟩
  | case4 c waiting n rest ih =>
    obtain ⟨alive,bound,later⟩ := ih live (fun later => unbroken (List.mem_cons_of_mem _ later))
      (show 0 + 1 < flushStallLimit by decide)
    refine ⟨alive,Nat.le_trans bound ?_,later⟩
    exact Nat.succ_le_succ (Nat.zero_le _)
  | case5 c waiting rest =>
    obtain ⟨alive,bound⟩ := stall_live live room
    exact ⟨alive,bound,fun later => unbroken (List.mem_cons_of_mem _ later)⟩
  | case6 c waiting rest ih => exact ih live (fun later => unbroken (List.mem_cons_of_mem _ later)) room
  | case7 c waiting rest => exact absurd List.mem_cons_self unbroken

/-- A socket that takes some bytes starts its stall count again. -/
theorem flush_progress {results : List WriteResult} (live : c.dead = false) (waiting : c.out.isEmpty = false)
    (unbroken : .failed ∉ results) (progress : WriteResult.progress results = true) :
    (flush results c).1.dead = false ∧ (flush results c).1.flushStall ≤ 1 ∧ .failed ∉ (flush results c).2 := by
  induction results with
  | nil => cases progress
  | cons r rest ih =>
    have later : .failed ∉ rest := fun later => unbroken (List.mem_cons_of_mem _ later)
    unfold flush
    rw [if_neg (by simp [waiting,live])]
    cases r with
    | ok n =>
      cases n with
      | zero => cases progress
      | succ n => exact flush_live live later (show 0 + 1 < flushStallLimit by decide)
    | interrupted => exact ih later progress
    | wouldBlock | failed => cases progress

theorem readTcp_live {reads : List ReadResult} (live : c.dead = false) (unbroken : ReadResult.reachFailure reads = false) :
    (readTcp reads c).2.dead = false := by
  have loop : ∀ got, (readLoop reads got c).2.dead = false := by
    induction reads with
    | nil => exact fun _ => live
    | cons r rest ih =>
      intro got
      cases r with
      | ok data =>
        cases data with
        | nil => exact live
        | cons b data => exact ih unbroken _
      | interrupted => exact ih unbroken got
      | wouldBlock => exact live
      | failed => cases unbroken
  unfold readTcp
  split
  · exact live
  · exact loop []

end ForwardConn

namespace Driver

variable {x : Side} {k : Nat} {l : Link}

/-- Without bytes to hand over, the feeding loop does nothing to the connection. -/
theorem feedSocket_idle (none : (l.mux x).recvBuffered k = 0) (fuel : Nat) (c : ForwardConn) (results : List WriteResult) :
    (feedSocket x k fuel l c results).2 = c := by
  have nothing : (streamRead x k l).1 = [] := List.length_eq_zero_iff.mp ((l.read_length x k).trans none)
  cases fuel with
  | zero => rfl
  | succ fuel =>
    simp only [feedSocket,nothing,List.isEmpty_nil,if_true]
    split <;> rfl

/-- A read hands over all that has arrived, so that the loop writes to the socket once. -/
theorem feedSocket_live {c : ForwardConn} {results : List WriteResult} (fuel : Nat) (safe : l.Safe) (live : c.dead = false)
    (unbroken : .failed ∉ results)
    (room : (l.mux x).recvBuffered k ≠ 0 →
      c.flushStall + 1 < flushStallLimit ∨ WriteResult.progress results = true) :
    (feedSocket x k fuel l c results).2.dead = false := by
  by_cases none : (l.mux x).recvBuffered k = 0
  · rw [feedSocket_idle none]
    exact live
  · cases fuel with
    | zero => exact live
    | succ fuel =>
      simp only [feedSocket]
      split
      · split
        · exact live
        · rename_i some
          rw [feedSocket_idle (l := (streamRead x k l).2) (Link.read_buffered safe x k)]
          let queued : ForwardConn := { c with out := c.out ++ (streamRead x k l).1 }
          have waiting : queued.out.isEmpty = false := by
            simp only [Bool.not_eq_true,List.isEmpty_eq_false_iff] at some
            simp [queued,some]
          rcases room none with left | progress
          · exact (ForwardConn.flush_live (c := queued) live unbroken left).1
          · exact (ForwardConn.flush_progress (c := queued) live waiting unbroken progress).1
      · exact live

/-- One connection's share of a pump leaves it alive when its socket endures. -/
theorem pumpConn_live {c : ForwardConn} {io : StreamIo} (safe : l.Safe) (live : c.dead = false)
    (endures : c.endures io.writes io.reads ((l.mux x).recvBuffered k) = true) : (pumpConn x k io l c).2.dead = false := by
  obtain ⟨unbroken,reads,room⟩ := ForwardConn.endures_iff.mp endures
  unfold ForwardConn.attempts at room
  have flushed : (c.flush io.writes).1.dead = false ∧ .failed ∉ (c.flush io.writes).2 ∧
      ((l.mux x).recvBuffered k ≠ 0 → (c.flush io.writes).1.flushStall + 1 < flushStallLimit ∨
        WriteResult.progress (c.flush io.writes).2 = true) := by
    by_cases empty : c.out.isEmpty = true
    · have same : c.flush io.writes = (c,io.writes) := by
        unfold ForwardConn.flush
        rw [if_pos (by simp [empty])]
      rw [same]
      refine ⟨live,unbroken,fun some => room.imp (fun left => ?_) id⟩
      rw [if_pos empty,if_neg some] at left
      omega
    · rw [if_neg empty] at room
      rcases room with left | progress
      · obtain ⟨alive,bound,later⟩ := ForwardConn.flush_live live unbroken (by omega)
        refine ⟨alive,later,fun some => .inl ?_⟩
        rw [if_neg some] at left
        omega
      · obtain ⟨alive,bound,later⟩ := ForwardConn.flush_progress live (Bool.eq_false_iff.mpr empty) unbroken progress
        exact ⟨alive,later,fun _ => .inl (Nat.lt_of_le_of_lt (Nat.succ_le_succ bound) (by decide))⟩
  obtain ⟨first,later,left⟩ := flushed
  have fed := feedSocket_live (x := x) (k := k) ((l.mux x).recvBuffered k + 1) safe first later left
  have drained : ∀ (l : Link) (c : ForwardConn), c.dead = false → (drainSocket x k io.reads l c).2.dead = false := by
    intro l c alive
    unfold drainSocket
    split
    · exact ForwardConn.readTcp_live alive reads
    · exact alive
  have passed : ∀ (l : Link) (c : ForwardConn), c.dead = false → (passFin x k l c).2.dead = false := by
    intro l c alive
    unfold passFin ForwardConn.needsFin
    dsimp only
    split <;> exact alive
  exact passed _ _ (drained _ _ fed)

end Driver

namespace Driver

variable {x : Side} {pending : List StreamEvent} {d : Driver} {io : Io} {known : Nat → Bool}

theorem unread_serves {l l' : Link} {j : Option Nat} (serves : Link.Serves x j l l') {k : Nat} (other : j ≠ some k) :
    (l'.mux x).recvBuffered k = (l.mux x).recvBuffered k := by
  have arrived := serves.arrived k
  unfold Link.arrived at arrived
  rw [serves.got k other] at arrived
  omega

/-- The stream was closed by one of the two sides, or is known to have been reset. -/
def Over (known : Nat → Bool) (l : Link) (k : Nat) : Prop :=
  l.closedAt .client k ≠ none ∨ l.closedAt .server k ≠ none ∨ known k = true

theorem Over.reaches {l l' : Link} {k : Nat} {ok : Link.Action → Prop} (past : Over known l k) (safe : l.Safe)
    (reaches : Link.Reaches ok l l') :
    Over known l' k :=
  past.imp (reaches.closed safe) (Or.imp_left (reaches.closed safe))

theorem over_closed {l : Link} {k : Nat} (y : Side) (closed : l.closedAt y k ≠ none) : Over known l k := by
  cases y with
  | client => exact .inl closed
  | server => exact .inr (.inl closed)

/-- The connection of a stream that is not over has a socket that endures. -/
def Spared (x : Side) (io : Io) (known : Nat → Bool) (d : Driver) (k : Nat) (c : ForwardConn) : Prop :=
  Over known d.link k ∨ c.endures (io k).writes (io k).reads ((d.link.mux x).recvBuffered k) = true

/-- No connection is held that was given up. -/
def Alive (d : Driver) : Prop := ∀ (k : Nat) (c : ForwardConn), d.forwards[k]? = some c → c.dead = false

/-- What holds while the events of a pump are handled. -/
structure Handling (x : Side) (io : Io) (known : Nat → Bool) (pending : List StreamEvent) (d : Driver) : Prop where
  taken : d.Taken x pending
  alive : d.Alive
  resets : ∀ k, .reset k ∈ pending → known k = true
  held : ∀ (k : Nat) (c : ForwardConn), d.forwards[k]? = some c → d.Spared x io known k c
  fresh : ∀ k, k ∈ openedForwards pending → (io k).started = true → d.Spared x io known k {}

/-- The connection is still held or to be started, or its stream is over. -/
def Kept (io : Io) (known : Nat → Bool) (pending : List StreamEvent) (d : Driver) (k : Nat) : Prop :=
  (d.forwards[k]?).isSome = true ∨ (k ∈ openedForwards pending ∧ (io k).started = true) ∨ Over known d.link k

theorem Spared.serves {d' : Driver} {k : Nat} {c c' : ForwardConn} {j : Option Nat} {ok : Link.Action → Prop}
    (spared : d.Spared x io known k c) (safe : d.link.Safe) (reaches : Link.Reaches ok d.link d'.link)
    (serves : Link.Serves x j d.link d'.link) (other : j ≠ some k)
    (out : c'.out = c.out) (stalled : c'.flushStall = c.flushStall) : d'.Spared x io known k c' := by
  refine spared.imp (fun past => past.reaches safe reaches) (fun endures => ?_)
  rw [unread_serves serves other]
  unfold ForwardConn.endures ForwardConn.attempts at endures ⊢
  rw [out,stalled]
  exact endures

theorem Handling.event {event : StreamEvent} (handling : d.Handling x io known (event :: pending)) :
    (d.handleEvent x io event).Handling x io known pending := by
  have valid := handling.taken.1
  have serves := handleEvent_serves valid.safe valid.announced x io event
  have reaches := d.handleEvent_reaches (x := x) io event
  have after : ∀ (k : Nat) (c : ForwardConn), (d.handleEvent x io event).forwards[k]? = some c →
      c.dead = false ∧ (d.handleEvent x io event).Spared x io known k c := by
    intro k c here
    rcases d.handleEvent_forwards x io event k with
      ⟨same,_⟩ | ⟨metadata,rfl,started,attached⟩ | ⟨status,c,rfl,held,closed⟩ | ⟨rfl,erased⟩
    · rw [same] at here
      exact ⟨handling.alive k c here,(handling.held k c here).serves valid.safe reaches serves (by simp) rfl rfl⟩
    · rw [attached,Option.some.injEq] at here
      subst here
      have fresh := handling.fresh k (mem_openedForwards.mpr ⟨metadata,List.mem_cons_self⟩) started
      exact ⟨rfl,fresh.serves valid.safe reaches serves (by simp) rfl rfl⟩
    · rw [closed,Option.some.injEq] at here
      subst here
      exact ⟨handling.alive k c held,(handling.held k c held).serves valid.safe reaches serves (by simp) rfl rfl⟩
    · rw [erased] at here
      cases here
  exact ⟨handling.taken.handle io,fun k c here => (after k c here).1,
    fun k member => handling.resets k (List.mem_cons_of_mem _ member),fun k c here => (after k c here).2,
    fun k opened started =>
      (handling.fresh k (openedForwards_tail opened) started).serves valid.safe reaches serves (by simp) rfl rfl⟩

theorem Kept.event {event : StreamEvent} {k : Nat} (handling : d.Handling x io known (event :: pending))
    (kept : d.Kept io known (event :: pending) k) : (d.handleEvent x io event).Kept io known pending k := by
  have reaches := d.handleEvent_reaches (x := x) io event
  rcases d.handleEvent_forwards x io event k with
    ⟨same,other⟩ | ⟨metadata,rfl,started,attached⟩ | ⟨status,c,rfl,held,closed⟩ | ⟨rfl,erased⟩
  · rcases kept with here | ⟨opened,started⟩ | past
    · exact .inl (by rw [same]; exact here)
    · obtain ⟨metadata,member⟩ := mem_openedForwards.mp opened
      rcases List.mem_cons.mp member with now | later
      · exact absurd now.symm (other started metadata)
      · exact .inr (.inl ⟨mem_openedForwards.mpr ⟨metadata,later⟩,started⟩)
    · exact .inr (.inr (past.reaches handling.taken.1.safe reaches))
  · exact .inl (by rw [attached]; rfl)
  · exact .inl (by rw [closed]; rfl)
  · exact .inr (.inr (.inr (.inr (handling.resets k List.mem_cons_self))))

theorem pumpForward_other (io : Io) {j k : Nat} (ne : k ≠ j) : (d.pumpForward x io j).forwards[k]? = d.forwards[k]? := by
  unfold pumpForward
  split
  · dsimp only
    split
    · exact TreeMaps.getElem?_erase_ne _ ne
    · exact TreeMaps.getElem?_insert_ne _ _ ne
  · rfl

/-- A connection is removed after its stream is over, and one that stays is alive. -/
theorem pumpForward_spared {k : Nat} (valid : d.Valid x pending) (alive : d.Alive)
    (spared : ∀ c : ForwardConn, d.forwards[k]? = some c → d.Spared x io known k c) :
    (d.pumpForward x io k).Alive ∧
      ((d.forwards[k]?).isSome = true → ((d.pumpForward x io k).forwards[k]?).isSome = true ∨
        Over known (d.pumpForward x io k).link k) := by
  have reaches := d.pumpForward_reaches (x := x) io k
  cases held : d.forwards[k]? with
  | none =>
    have same : d.pumpForward x io k = d := by simp only [pumpForward,held]
    rw [same]
    exact ⟨alive,by simp⟩
  | some c =>
    obtain ⟨_,carries,_⟩ := pumpConn_spec (io k) valid.safe valid.announced (valid.carries k c held).1
    by_cases finished : (pumpConn x k (io k) d.link c).2.isFinished = true
    · have after : d.pumpForward x io k = { d with
          link := (pumpConn x k (io k) d.link c).1
          forwards := d.forwards.erase k
          reaped := Function.update d.reaped k (some (pumpConn x k (io k) d.link c).2) } := by
        simp only [pumpForward,held,if_pos finished]
      refine ⟨fun j c' here => ?_,fun _ => .inr ?_⟩
      · have ne : j ≠ k := by
          rintro rfl
          rw [after] at here
          simp at here
        rw [pumpForward_other io ne] at here
        exact alive j c' here
      · rcases spared c held with past | endures
        · exact past.reaches valid.safe reaches
        · have live := pumpConn_live valid.safe (alive k c held) endures
          rw [after]
          exact over_closed x.other (carries.told (ForwardConn.isFinished_live finished live).1)
    · have after : (d.pumpForward x io k).forwards[k]? = some (pumpConn x k (io k) d.link c).2 := by
        simp only [pumpForward,held,if_neg finished]
        simp
      refine ⟨fun j c' here => ?_,fun _ => .inl (by rw [after]; rfl)⟩
      by_cases same : j = k
      · subst same
        rw [after,Option.some.injEq] at here
        subst here
        unfold ForwardConn.isFinished at finished
        simp only [Bool.or_eq_true,not_or,Bool.not_eq_true] at finished
        exact finished.1
      · rw [pumpForward_other io same] at here
        exact alive j c' here

/-- What holds while the connections are pumped, with these still to come. -/
structure Pumping (x : Side) (io : Io) (known : Nat → Bool) (keys : List Nat) (d : Driver) : Prop where
  taken : d.Taken x []
  alive : d.Alive
  held : ∀ k ∈ keys, ∀ c : ForwardConn, d.forwards[k]? = some c → d.Spared x io known k c

theorem Kept.link {d' : Driver} {k : Nat} {ok : Link.Action → Prop} (kept : d.Kept io known pending k)
    (safe : d.link.Safe) (forwards : d'.forwards[k]? = d.forwards[k]?) (reaches : Link.Reaches ok d.link d'.link) :
    d'.Kept io known pending k := by
  unfold Kept
  rw [forwards]
  exact kept.imp_right (Or.imp_right (fun past => past.reaches safe reaches))

theorem pumpForwards_kept {wanted keys : List Nat} (distinct : keys.Nodup) (pumping : d.Pumping x io known keys)
    (kept : ∀ k ∈ wanted, d.Kept io known [] k) :
    (keys.foldl (pumpForward x io) d).Pumping x io known [] ∧
      ∀ k ∈ wanted, (keys.foldl (pumpForward x io) d).Kept io known [] k := by
  induction keys generalizing d with
  | nil => exact ⟨pumping,kept⟩
  | cons j rest ih =>
    obtain ⟨absent,distinct⟩ := List.nodup_cons.mp distinct
    have valid := pumping.taken.1
    have serves := pumpForward_serves valid io j
    have reaches := d.pumpForward_reaches (x := x) io j
    obtain ⟨alive,removed⟩ := pumpForward_spared valid pumping.alive (pumping.held j List.mem_cons_self)
    refine ih distinct ⟨pumping.taken.forward io j,alive,fun i member c here => ?_⟩ (fun k mine => ?_)
    · have ne : i ≠ j := by
        rintro rfl
        exact absent member
      rw [pumpForward_other io ne] at here
      refine (pumping.held i (List.mem_cons_of_mem _ member) c here).serves valid.safe reaches serves ?_ rfl rfl
      exact fun same => ne (Option.some.inj same).symm
    · by_cases same : k = j
      · subst same
        rcases kept k mine with here | none | past
        · exact (removed here).imp_right .inr
        · exact .inr (.inl none)
        · exact .inr (.inr (past.reaches valid.safe reaches))
      · exact (kept k mine).link valid.safe (pumpForward_other io same) reaches

/-- A pump of enduring sockets removes a connection only when its stream is over. -/
theorem pump_kept {wanted : List Nat}
    (handling : Handling x io known (d.link.mux x).events { d with link := d.link.step (.takeEvents x) })
    (kept : ∀ k ∈ wanted, Kept io known (d.link.mux x).events { d with link := d.link.step (.takeEvents x) } k) :
    (d.pump x io).Pumping x io known [] ∧ ∀ k ∈ wanted, (d.pump x io).Kept io known [] k := by
  have events : ∀ pending d, Handling x io known pending d → (∀ k ∈ wanted, Kept io known pending d k) →
      (pending.foldl (handleEvent x io) d).Handling x io known [] ∧
        ∀ k ∈ wanted, (pending.foldl (handleEvent x io) d).Kept io known [] k := by
    intro pending
    induction pending with
    | nil => exact fun _ handling kept => ⟨handling,kept⟩
    | cons event rest ih =>
      exact fun d handling kept => ih _ handling.event (fun k mine => (kept k mine).event handling)
  have execs : ∀ keys d, Pumping x io known [] d → (∀ k ∈ wanted, Kept io known [] d k) →
      (List.foldl (pumpExec x io) d keys).Pumping x io known [] ∧
        ∀ k ∈ wanted, (List.foldl (pumpExec x io) d keys).Kept io known [] k := by
    intro keys
    induction keys with
    | nil => exact fun _ pumping kept => ⟨pumping,kept⟩
    | cons j rest ih =>
      intro d pumping kept
      have forwards := (d.pumpExec_kept x io j).2.1
      refine ih _ ⟨pumping.taken.exec io j,?_,by simp⟩ (fun k mine => ?_)
      · unfold Alive
        rw [forwards]
        exact pumping.alive
      · exact (kept k mine).link pumping.taken.1.safe (by rw [forwards]) (d.pumpExec_reaches io j)
  obtain ⟨handled,kept⟩ := events _ _ handling kept
  generalize handledEq : (d.link.mux x).events.foldl (handleEvent x io) { d with link := d.link.step (.takeEvents x) } = e
    at handled kept
  obtain ⟨pumped,kept⟩ := pumpForwards_kept e.forwards.nodup_keys
    ⟨handled.taken,handled.alive,fun j _ c here => handled.held j c here⟩ kept
  unfold pump
  dsimp only
  rw [handledEq]
  exact execs _ _ pumped kept

end Driver

/-- A driver and the streams that have been marked reset at either end. A mark is set by that
end's reset or by the other end's StreamReset. -/
structure Watch where
  driver : Driver
  reset : Nat → Bool

namespace Watch

def start (privsep : Bool) : Watch := ⟨.start privsep,fun _ => false⟩

/-- One of the two ends holds the stream marked reset. -/
def marked (l : Link) (k : Nat) : Bool :=
  (l.stream .client k).any (·.reset) || (l.stream .server k).any (·.reset)

def step (x : Side) (w : Watch) (a : Driver.Action) : Watch :=
  let d := w.driver.step x a
  ⟨d,fun k => w.reset k || marked d.link k⟩

/-- The stream has been closed or reset by one of the two sides. -/
def ended (w : Watch) (k : Nat) : Bool :=
  (w.driver.link.closedAt .client k).isSome || (w.driver.link.closedAt .server k).isSome || w.reset k

/-- The connections of a pump: those held and those it starts. -/
def served (x : Side) (w : Watch) : Driver.Action → List Nat
  | .pump io =>
    w.driver.forwards.keys ++ (Driver.openedForwards (w.driver.link.mux x).events).filter (fun k => (io k).started)
  | _ => []

/-- Every connection that the step removes belongs to a stream that has ended by then. -/
def endsRemoved (x : Side) (w : Watch) (a : Driver.Action) : Bool :=
  (w.served x a).all (fun k => ((w.step x a).driver.forwards[k]?).isSome || (w.step x a).ended k)

/-- The socket of every connection whose stream has not ended endures the pump. -/
def sturdy (x : Side) (w : Watch) : Driver.Action → Bool
  | .pump io => (w.served x (.pump io)).all (fun k => w.ended k ||
      ((w.driver.forwards[k]?).getD {}).endures (io k).writes (io k).reads ((w.driver.link.mux x).recvBuffered k))
  | _ => true

variable {x : Side} {w : Watch}

/-- What holds between the steps: no connection held was given up, and a reset still to be
handled is on record. -/
structure Sound (x : Side) (w : Watch) : Prop where
  rests : w.driver.Rests x
  alive : w.driver.Alive
  resets : ∀ k, .reset k ∈ (w.driver.link.mux x).events → w.reset k = true

theorem start_sound (x : Side) (privsep : Bool) : (start privsep).Sound x where
  rests := Driver.start_rests x privsep
  alive k c held := by simp [start,Driver.start] at held
  resets k member := by
    have none : ((start privsep).driver.link.mux x).events = [] := rfl
    rw [none] at member
    cases member

theorem marked_stream {l : Link} {y : Side} {k : Nat} (marks : (l.stream y k).any (·.reset) = true) : marked l k = true := by
  unfold marked
  cases y <;> simp [marks]

/-- A reset that is told to the driver leaves its mark. -/
theorem step_resets {l : Link} {a : Link.Action} (kept : Link.takesAt x a = false) {k : Nat}
    (member : .reset k ∈ ((l.step a).mux x).events) :
    .reset k ∈ (l.mux x).events ∨ marked (l.step a) k = true := by
  rcases l.step_events kept with same | ⟨n,frame,fresh,rfl,sent,mux,events,raises⟩
  · rw [same] at member
    exact .inl member
  · rw [events,List.mem_append] at member
    refine member.imp id (fun new => ?_)
    cases raises with
    | @reset j =>
      obtain rfl : k = j := by simpa using new
      refine marked_stream (y := x) ?_
      rw [Link.stream,mux,StreamMux.onFrame,StreamMux.getElem?_onReset,if_pos rfl]
      cases held : (l.mux x).streams[k]? with
      | some s => rfl
      | none =>
        rw [mux] at events
        simp [StreamMux.onFrame,StreamMux.onReset,held] at events
    | none | opened | readable | closed => simp at new

theorem step_ended (x : Side) (w : Watch) (a : Driver.Action) {k : Nat}
    (past : Driver.Over w.reset (w.driver.step x a).link k) : (w.step x a).ended k = true := by
  unfold ended
  simp only [Bool.or_eq_true,Option.isSome_iff_ne_none]
  rcases past with client | server | known
  · exact .inl (.inl client)
  · exact .inl (.inr server)
  · exact .inr (by simp [step,known])

theorem over_of_ended {k : Nat} (past : w.ended k = true) : Driver.Over w.reset w.driver.link k := by
  unfold ended at past
  simpa only [Driver.Over,Bool.or_eq_true,Option.isSome_iff_ne_none,or_assoc] using past

theorem mem_served {io : Io} {k : Nat} : k ∈ w.served x (.pump io) ↔ (w.driver.forwards[k]?).isSome = true ∨
    k ∈ Driver.openedForwards (w.driver.link.mux x).events ∧ (io k).started = true := by
  rw [served,List.mem_append,List.mem_filter,Std.TreeMap.mem_keys,Std.TreeMap.mem_iff_isSome_getElem?]

/-- A pump at which the sockets endure. -/
theorem pump_sound {io : Io} (sound : w.Sound x) (sturdy : w.sturdy x (.pump io) = true) :
    (w.driver.pump x io).Alive ∧ ((w.driver.pump x io).link.mux x).events = [] ∧ ∀ k ∈ w.served x (.pump io),
      ((w.driver.pump x io).forwards[k]?).isSome = true ∨ Driver.Over w.reset (w.driver.pump x io).link k := by
  have taken := Driver.Valid.take sound.rests
  have reaches : Link.Reaches (fun _ => True) w.driver.link (w.driver.link.step (.takeEvents x)) := .step _ trivial
  have spared : ∀ k ∈ w.served x (.pump io), Driver.Spared x io w.reset
      { w.driver with link := w.driver.link.step (.takeEvents x) } k ((w.driver.forwards[k]?).getD {}) := by
    intro k mine
    have ok := List.all_eq_true.mp sturdy k mine
    rw [Bool.or_eq_true] at ok
    refine ok.imp (fun past => (over_of_ended past).reaches sound.rests.safe reaches) (fun endures => ?_)
    rw [← endures]
    simp [Link.step,Link.note,Link.act,Link.setMux,StreamMux.takeEvents,StreamMux.recvBuffered]
  have handling : Driver.Handling x io w.reset (w.driver.link.mux x).events
      { w.driver with link := w.driver.link.step (.takeEvents x) } := by
    refine ⟨taken,sound.alive,sound.resets,fun k c held => ?_,fun k opened started => ?_⟩
    · have here := spared k (mem_served.mpr (.inl (by rw [held]; rfl)))
      rw [held] at here
      exact here
    · have here := spared k (mem_served.mpr (.inr ⟨opened,started⟩))
      obtain ⟨metadata,member⟩ := Driver.mem_openedForwards.mp opened
      have waiting := StreamEvent.any_opens member
      rw [(sound.rests.waiting k waiting).1] at here
      exact here
  have kept : ∀ k ∈ w.served x (.pump io), Driver.Kept io w.reset (w.driver.link.mux x).events
      { w.driver with link := w.driver.link.step (.takeEvents x) } k :=
    fun k mine => (mem_served.mp mine).imp id .inl
  obtain ⟨pumped,kept⟩ := Driver.pump_kept handling kept
  refine ⟨pumped.alive,pumped.taken.2,fun k mine => ?_⟩
  rcases kept k mine with here | ⟨opened,_⟩ | past
  · exact .inl here
  · cases opened
  · exact .inr past

theorem step_sound (sound : w.Sound x) {a : Driver.Action} (sturdy : w.sturdy x a = true) : (w.step x a).Sound x := by
  have rests := Driver.step_rests sound.rests a
  have keep : ∀ k, w.reset k = true → (w.step x a).reset k = true := fun k known => by simp [step,known]
  rcases w.driver.step_link x a with ⟨b,kept,unread,eq⟩ | ⟨kind,metadata,leftover,rfl⟩ | ⟨io,rfl⟩
  · refine ⟨rests,?_,fun k member => ?_⟩
    · show (w.driver.step x a).Alive
      rw [eq]
      exact sound.alive
    · change .reset k ∈ ((w.driver.step x a).link.mux x).events at member
      rw [eq] at member
      rcases step_resets kept member with before | marks
      · exact keep k (sound.resets k before)
      · simp [step,eq,marks]
  · have events := (Driver.accept_serves sound.rests kind metadata leftover).1.events
    refine ⟨rests,fun k c held => ?_,fun k member => keep k (sound.resets k (by rw [← events]; exact member))⟩
    change (w.driver.forwards.insert _ {})[k]? = some c at held
    rw [Std.TreeMap.getElem?_insert] at held
    split at held
    · cases held
      rfl
    · exact sound.alive k c held
  · obtain ⟨alive,none,_⟩ := pump_sound sound sturdy
    refine ⟨rests,alive,fun k member => ?_⟩
    change .reset k ∈ ((w.driver.pump x io).link.mux x).events at member
    rw [none] at member
    cases member

theorem step_endsRemoved (sound : w.Sound x) {a : Driver.Action} (sturdy : w.sturdy x a = true) :
    w.endsRemoved x a = true := by
  refine List.all_eq_true.mpr (fun k mine => ?_)
  cases a with
  | pump io =>
    rw [Bool.or_eq_true]
    exact ((pump_sound sound sturdy).2.2 k mine).imp id (step_ended x w _)
  | _ => cases mine

end Watch

/-- Reaping a forwarded connection comes after its stream was ended, at either end and in every
run in which the sockets of streams that have not ended endure. -/
theorem forwards_ended (x : Side) (privsep : Bool) (schedule : List Driver.Action)
    (sturdy : Machine.Along (Watch.step x) (fun w a => w.sturdy x a = true) schedule (Watch.start privsep)) :
    Machine.Along (Watch.step x) (fun w a => w.endsRemoved x a = true) schedule (Watch.start privsep) :=
  .of_invariant (Watch.Sound x) (fun _ _ sound ok => Watch.step_sound sound ok)
    (fun _ _ sound ok => Watch.step_endsRemoved sound ok) (Watch.start_sound x privsep) sturdy

namespace Watch

/-- The server is told of a new forward and its socket fails. -/
def brokenSocket : List Driver.Action :=
  [.peer (.openStream .forward []),.poll .client,.deliver .client 0,.pump (fun _ => { reads := [.failed] })]

/-- The same, the socket failing only after the client has closed. -/
def brokenLater : List Driver.Action :=
  [.peer (.openStream .forward []),.poll .client,.deliver .client 0,.pump (fun _ => { reads := [.ok [7]] }),
    .peer (.close 0 0),.pump (fun _ => { reads := [.failed] })]

end Watch

theorem forwards_ended_later :
    Machine.Along (Watch.step .server) (fun w a => w.endsRemoved .server a = true) Watch.brokenLater (Watch.start false) ∧
    ((Machine.run (Watch.step .server) Watch.brokenLater (Watch.start false)).driver.reaped 0).map (·.dead) = some true :=
  ⟨forwards_ended .server false Watch.brokenLater (by decide +kernel),by decide +kernel⟩

/-- A broken socket's connection is reaped while its stream is open at both ends. -/
theorem forwards_not_ended : ¬∀ (x : Side) (privsep : Bool) (schedule : List Driver.Action),
    Machine.Along (Watch.step x) (fun w a => w.endsRemoved x a = true) schedule (Watch.start privsep) := by
  intro claim
  exact absurd (claim .server false Watch.brokenSocket) (by decide +kernel)

end Noissh

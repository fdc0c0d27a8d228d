import Noissh.SessionSpec
import Noissh.Strangers

/-! The handshakes a server keeps while their last message is awaited. There is room for so
many, and time frees none. -/
namespace Noissh

variable {snow : Snow} {em : Emulator} {login : Login} {authorized : AuthorizedKeys}

theorem parsePacket_build {sid : SessionId} (sized : sid.length = 8) (body : Bytes) :
    parsePacket (buildHandshakePacket sid body) = .ok (.handshake sid body) := by
  have long : ¬(buildHandshakePacket sid body).length < 9 := by
    simp only [buildHandshakePacket,List.length_cons,List.length_append,sized]
    omega
  have first : (sid ++ body).take 8 = sid := List.take_left' sized
  have rest : (buildHandshakePacket sid body).drop 9 = body := by
    rw [buildHandshakePacket,List.drop_succ_cons,List.drop_left' sized]
  rw [show parsePacket (buildHandshakePacket sid body) = if (buildHandshakePacket sid body).length < 9 then .error .short
    else .ok (.handshake ((sid ++ body).take 8) ((buildHandshakePacket sid body).drop 9)) from rfl,if_neg long,first,rest]

namespace ServerCore

variable {c d : ServerCore snow em login}

/-- A padded first message under an unused session id that a new handshake reads, its reply, and
the handshake then. -/
structure Fresh (c : ServerCore snow em login) (sid : SessionId) (body reply : Bytes) (hs : Handshaker snow) : Prop where
  sized : sid.length = 8
  padded : minHandshakeInit ≤ body.length + 9
  unknown : c.sessions.contains sid = false
  unused : c.pending.contains sid = false
  reads : ∃ new, Handshaker.server snow c.privateKey sid (ControlMsg.utf8 pkgVersion) = .ok new ∧
    new.read body = (.ok { reply := some reply, finished := false },hs)

/-- Some ticks, if no emulator panics in one. -/
def ticks (c : ServerCore snow em login) (orders : List (List SessionId)) : Option (ServerCore snow em login) :=
  orders.foldlM (fun c order => (c.tick order).map Prod.snd) c

theorem tickAll_privateKey (c : ServerCore snow em login) (order : List SessionId) :
    (c.tickAll order).2.privateKey = c.privateKey := by
  have kept : ∀ t : Ticking snow em login, (order.foldl tickSession t).core.privateKey = t.core.privateKey := by
    induction order with
    | nil => exact fun _ => rfl
    | cons sid rest ih =>
      intro t
      have first : (tickSession t sid).core.privateKey = t.core.privateKey := by
        unfold tickSession
        split <;> rfl
      exact (ih _).trans first
  exact kept _

/-- Ticks leave the pending handshakes alone, and admit nobody. -/
theorem ticks_keep {orders : List (List SessionId)} (ticked : c.ticks orders = some d) :
    Serves c d ∧ d.privateKey = c.privateKey := by
  induction orders generalizing c with
  | nil => exact Option.some.inj ticked ▸ ⟨.refl c,rfl⟩
  | cons order rest ih =>
    rw [ticks,List.foldlM_cons] at ticked
    obtain ⟨next,first,ticked⟩ := Option.bind_eq_some_iff.mp ticked
    obtain ⟨⟨out,next⟩,sent,rfl⟩ := Option.map_eq_some_iff.mp first
    have whole := (tick_some sent).2
    have serves := c.tickAll_serves order
    have key := c.tickAll_privateKey order
    rw [whole] at serves key
    obtain ⟨serves',key'⟩ := ih ticked
    exact ⟨serves.trans serves',key'.trans key⟩

theorem Fresh.ticks {sid : SessionId} {body reply : Bytes} {hs : Handshaker snow} (fresh : c.Fresh sid body reply hs)
    {orders : List (List SessionId)} (ticked : c.ticks orders = some d) : d.Fresh sid body reply hs := by
  obtain ⟨serves,key⟩ := ticks_keep ticked
  refine ⟨fresh.sized,fresh.padded,?_,?_,by rw [key]; exact fresh.reads⟩
  · cases held : d.sessions[sid]? with
    | none =>
      rw [Std.TreeMap.contains_eq_isSome_getElem?,held]
      rfl
    | some t =>
      obtain ⟨s,there,_⟩ := serves.sessions sid t held
      have unknown := fresh.unknown
      rw [Std.TreeMap.contains_eq_isSome_getElem?,there] at unknown
      cases unknown
  · rw [serves.pending]
    exact fresh.unused

/-- A first message is answered as long as there is room, and its handshake is then pending. -/
theorem Fresh.handlePacket {sid : SessionId} {body reply : Bytes} {hs : Handshaker snow} (fresh : c.Fresh sid body reply hs)
    (order : List SessionId) (src : SocketAddr) :
    c.handlePacket order src (buildHandshakePacket sid body) =
      if c.pending.size < maxPendingHandshakes then ([(src,reply)],{ c with pending := c.pending.insert sid hs })
      else ([],c) := by
  obtain ⟨new,made,read⟩ := fresh.reads
  have absent : c.pending[sid]? = none := by
    have unused := fresh.unused
    rw [Std.TreeMap.contains_eq_isSome_getElem?] at unused
    exact Option.not_isSome_iff_eq_none.mp (by rw [unused]; decide)
  have long : ¬body.length + 9 < minHandshakeInit := Nat.not_lt.mpr fresh.padded
  have handled : c.handleHandshake order src sid body =
      if c.pending.size < maxPendingHandshakes then (.ok [(src,reply)],{ c with pending := c.pending.insert sid hs })
      else (.ok [],c) := by
    unfold handleHandshake
    rw [if_neg (by rw [fresh.unknown]; decide),absent]
    dsimp only
    rw [if_neg long]
    by_cases room : c.pending.size < maxPendingHandshakes
    · rw [if_neg (Nat.not_le.mpr room),if_pos room,made]
      dsimp only
      unfold readHandshake
      rw [read]
      rfl
    · rw [if_pos (Nat.le_of_not_lt room),if_neg room]
  unfold ServerCore.handlePacket tryHandlePacket
  rw [parsePacket_build fresh.sized]
  dsimp only
  rw [handled]
  split <;> rfl

theorem handleHandshake_bounded (bounded : c.pending.size ≤ maxPendingHandshakes) (order : List SessionId) (src : SocketAddr)
    (sid : SessionId) (body : Bytes) : (c.handleHandshake order src sid body).2.pending.size ≤ maxPendingHandshakes := by
  have reads : ∀ (hs : Handshaker snow) (wasPending : Bool) (pending : Std.TreeMap SessionId (Handshaker snow)),
      (∀ hs', (pending.insert sid hs').size ≤ maxPendingHandshakes) → pending.size ≤ maxPendingHandshakes →
      (readHandshake { c with pending } order src sid hs wasPending body).2.pending.size ≤ maxPendingHandshakes := by
    intro hs wasPending pending room fits
    unfold readHandshake
    split
    · dsimp only
      split
      · exact room _
      · exact fits
    · dsimp only
      split
      · rw [admitClient_pending]
        exact fits
      · exact room _
  unfold handleHandshake
  split
  · exact bounded
  split
  · rename_i hs held
    have there : sid ∈ c.pending := Std.TreeMap.mem_iff_isSome_getElem?.mpr (by rw [held]; rfl)
    have least : c.pending.size ≠ 0 := fun zero =>
      Std.TreeMap.not_mem_of_isEmpty (by rw [Std.TreeMap.isEmpty_eq_size_eq_zero,zero]; rfl) there
    refine reads hs true (c.pending.erase sid) (fun hs' => ?_) ?_
    · rw [Std.TreeMap.size_insert,Std.TreeMap.size_erase]
      simp [there]
      omega
    · rw [Std.TreeMap.size_erase]
      simp [there]
      omega
  split
  · exact bounded
  split
  · exact bounded
  rename_i room
  split
  · exact bounded
  · rename_i hs _
    refine reads hs false c.pending (fun hs' => ?_) bounded
    rw [Std.TreeMap.size_insert]
    split <;> omega

/-- A server never keeps more handshakes than there is room for. -/
theorem Reachable.bounded (reachable : c.Reachable authorized) : c.pending.size ≤ maxPendingHandshakes := by
  refine @Reachable.invariant _ _ _ c authorized (fun c => c.pending.size ≤ maxPendingHandshakes) (fun _ _ _ _ _ _ => ?_)
    (fun _ order src sid body bounded => ?_) (fun _ _ serves bounded => ?_) reachable
  · exact Nat.zero_le _
  · exact handleHandshake_bounded bounded order src sid body
  · rw [serves.pending]
    exact bounded

theorem attach_contains (c : ServerCore snow em login) (order : List SessionId) (sid : SessionId) (session : Session snow)
    (key : Bytes) : (c.attach order sid session key).sessions.contains sid = true := by
  unfold attach
  dsimp only
  split <;> exact Std.TreeMap.contains_insert_self

/-- The last message of a pending handshake of an authorized key makes a session. -/
theorem admitted {sid : SessionId} {hs hs' : Handshaker snow} {body key : Bytes} {src : SocketAddr} {session : Session snow}
    (sized : sid.length = 8) (unknown : c.sessions.contains sid = false) (held : c.pending[sid]? = some hs)
    (read : hs.read body = (.ok { reply := none, finished := true },hs')) (learned : hs'.remoteStatic = some key)
    (listed : authorizeClient c.authorized key = true) (made : hs'.intoSession (some src) = .ok session)
    (order : List SessionId) : (c.handlePacket order src (buildHandshakePacket sid body)).2.sessions.contains sid = true := by
  unfold handlePacket tryHandlePacket
  rw [parsePacket_build sized]
  dsimp only
  unfold handleHandshake
  rw [if_neg (by rw [unknown]; decide),held]
  dsimp only
  unfold readHandshake
  rw [read]
  dsimp only
  unfold admitClient
  rw [if_pos rfl,learned]
  dsimp only
  rw [if_pos listed,made]
  exact attach_contains _ order sid session key

/-- At most so many handshakes are pending. A first message is answered after any number of ticks
that return if there was room for its handshake before them, and after no number of ticks if there
was none; a client that is answered can complete its handshake. -/
theorem first_message_answered (reachable : c.Reachable authorized) :
    c.pending.size ≤ maxPendingHandshakes ∧
    ∀ (orders : List (List SessionId)) (d : ServerCore snow em login), c.ticks orders = some d →
      ∀ (order : List SessionId) (src : SocketAddr) (sid : SessionId) (body reply : Bytes) (hs : Handshaker snow),
        c.Fresh sid body reply hs →
        let answered := d.handlePacket order src (buildHandshakePacket sid body)
        if c.pending.size < maxPendingHandshakes then
          answered.1 = [(src,reply)] ∧
          ∀ (order' : List SessionId) (src' : SocketAddr) (body' key : Bytes) (hs' : Handshaker snow) (session : Session snow),
            hs.read body' = (.ok { reply := none, finished := true },hs') → hs'.remoteStatic = some key →
            authorizeClient authorized key = true → hs'.intoSession (some src') = .ok session →
            (answered.2.handlePacket order' src' (buildHandshakePacket sid body')).2.sessions.contains sid = true
        else answered = ([],d) := by
  refine ⟨reachable.bounded,fun orders d ticked order src sid body reply hs fresh => ?_⟩
  have serves := (ticks_keep ticked).1
  have later := fresh.ticks ticked
  have handled := later.handlePacket order src
  rw [serves.pending] at handled
  dsimp only
  rw [handled]
  by_cases room : c.pending.size < maxPendingHandshakes
  · rw [if_pos room,if_pos room]
    refine ⟨rfl,fun order' src' body' key hs' session read learned listed made => ?_⟩
    rw [← reachable.guarded.keys,← serves.authorized] at listed
    exact admitted (c := { d with pending := c.pending.insert sid hs }) fresh.sized later.unknown
      Std.TreeMap.getElem?_insert_self read learned listed made order'
  · rw [if_neg room,if_neg room]

/-- A new handshake reads a first message that is long enough, and answers. -/
theorem clear_reads (key : Bytes) (sid : SessionId) {body : Bytes} (long : 32 ≤ body.length) :
    ∃ reply hs, ({ hs := some { initiator := false, turn := 0, own := key, peer := none }, sessionId := sid, finished := false
                   sendPayload := ControlMsg.utf8 pkgVersion, peerPayload := none } : Handshaker Clear.noise).read body =
      (.ok { reply := some reply, finished := false },hs) := by
  have got : Clear.noise.readMessage { initiator := false, turn := 0, own := key, peer := none } body =
      (.ok (body.drop 32),{ initiator := false, turn := 1, own := key, peer := none }) := by
    change Clear.readMessage { initiator := false, turn := 0, own := key, peer := none } body = _
    unfold Clear.readMessage
    rw [if_pos ⟨nofun,rfl⟩,if_neg (Nat.not_lt.mpr long)]
    rfl
  unfold Handshaker.read
  dsimp only
  rw [got]
  exact ⟨_,_,rfl⟩

def hello : Bytes := Clear.pad (32 + minHandshakeInit)

theorem hello_fresh {c : ServerCore Clear.noise em login} {sid : SessionId} (sized : sid.length = 8)
    (unknown : c.sessions.contains sid = false) (unused : c.pending.contains sid = false) :
    ∃ reply hs, c.Fresh sid hello reply hs := by
  have length : hello.length = 32 + minHandshakeInit := List.length_replicate
  obtain ⟨reply,hs,read⟩ := clear_reads c.privateKey sid (show 32 ≤ hello.length by omega)
  exact ⟨reply,hs,sized,by omega,unknown,unused,_,rfl,read⟩

/-- No emulator panics where there is no session. -/
theorem ticks_of_empty (empty : ∀ sid : SessionId, c.sessions[sid]? = none) (orders : List (List SessionId)) :
    ∃ d, c.ticks orders = some d := by
  induction orders generalizing c with
  | nil => exact ⟨c,rfl⟩
  | cons order rest ih =>
    have calm : c.calm order = true := by
      refine List.all_eq_true.mpr fun sid _ => ?_
      rw [empty sid]
      rfl
    have first : c.tick order = some (c.tickAll order) := if_pos calm
    have still : ∀ sid : SessionId, (c.tickAll order).2.sessions[sid]? = none := by
      intro sid
      cases held : (c.tickAll order).2.sessions[sid]? with
      | none => rfl
      | some t =>
        obtain ⟨s,there,_⟩ := (c.tickAll_serves order).sessions sid t held
        rw [empty sid] at there
        cases there
    obtain ⟨d,rest⟩ := ih still
    refine ⟨d,?_⟩
    rw [ticks,List.foldlM_cons,first]
    exact rest

/-- The server after so many first messages, each under its own session id. -/
def greetedBy : Nat → ServerCore Clear.noise silentEmulator limitedLogin
  | 0 => sampleServer 0
  | n + 1 => ((greetedBy n).handlePacket [] (.v4 1 5) (buildHandshakePacket (toBeBytes n) hello)).2

theorem greetedBy_reachable (n : Nat) : (greetedBy n).Reachable ⟨[(clientKey,"client")]⟩ := by
  induction n with
  | zero => exact .new _ _ _ _ _ _
  | succ n ih => exact .handlePacket _ _ _ ih

/-- All of their handshakes are pending. -/
theorem greetedBy_pending {n : Nat} (room : n ≤ maxPendingHandshakes) :
    (greetedBy n).pending.size = n ∧ (greetedBy n).sessions = {} ∧
      ∀ k, n ≤ k → k < 2 ^ 64 → (greetedBy n).pending.contains (toBeBytes k) = false := by
  induction n with
  | zero => exact ⟨rfl,rfl,fun _ _ _ => rfl⟩
  | succ n ih =>
    obtain ⟨size,sessions,unused⟩ := ih (Nat.le_of_succ_le room)
    have typed : n < 2 ^ 64 := by
      simp only [maxPendingHandshakes] at room
      omega
    obtain ⟨reply,hs,fresh⟩ := hello_fresh (toBeBytes_length n) (by rw [sessions]; rfl) (unused n (Nat.le_refl _) typed)
    have stepped : greetedBy (n + 1) = { greetedBy n with pending := (greetedBy n).pending.insert (toBeBytes n) hs } := by
      rw [greetedBy,fresh.handlePacket,if_pos (by omega)]
    rw [stepped]
    refine ⟨?_,sessions,fun k le bound => ?_⟩
    · dsimp only
      rw [Std.TreeMap.size_insert,unused n (Nat.le_refl _) typed,if_neg (by decide),size]
    · have other : toBeBytes n ≠ toBeBytes k := by
        intro same
        have back := congrArg fromBeBytes same
        rw [fromBeBytes_toBeBytes typed,fromBeBytes_toBeBytes bound] at back
        omega
      dsimp only
      rw [Std.TreeMap.contains_insert,unused k (by omega) bound,Bool.or_false,beq_eq_false_iff_ne]
      exact fun same => other (Std.LawfulEqCmp.eq_of_compare same)

/-- A client has its shell, and the handshakes of three others are pending. -/
def busy : ServerCore Clear.noise silentEmulator limitedLogin :=
  greeting.foldl (fun c datagram => (c.handlePacket [] datagram.1 datagram.2).2) (greetedBy 3)

theorem busy_reachable : busy.Reachable ⟨[(clientKey,"client")]⟩ :=
  .handlePacket _ _ _ (.handlePacket _ _ _ (.handlePacket _ _ _ (greetedBy_reachable 3)))

theorem first_message_answered_busy :
    busy.pending.size = 3 ∧ busy.sessions.size = 1 ∧
    ∃ d reply hs, busy.ticks [[sampleId],[sampleId]] = some d ∧ busy.Fresh (toBeBytes 7) hello reply hs ∧
      (d.handlePacket [] (.v4 1 6) (buildHandshakePacket (toBeBytes 7) hello)).1 = [(.v4 1 6,reply)] := by
  have reachable := busy_reachable
  have pending : busy.pending.size = 3 := by decide +kernel
  have sessions : busy.sessions.size = 1 := by decide +kernel
  obtain ⟨d,ticked⟩ := Option.isSome_iff_exists.mp (show (busy.ticks [[sampleId],[sampleId]]).isSome = true by decide +kernel)
  obtain ⟨reply,hs,fresh⟩ : ∃ reply hs, busy.Fresh (toBeBytes 7) hello reply hs :=
    hello_fresh (toBeBytes_length 7) (by decide +kernel) (by decide +kernel)
  -- Nothing more is evaluated: the size decides.
  generalize busy = c at reachable pending sessions ticked fresh ⊢
  have answered := (first_message_answered reachable).2 _ d ticked [] (.v4 1 6) (toBeBytes 7) hello reply hs fresh
  dsimp only at answered
  rw [if_pos (show c.pending.size < maxPendingHandshakes by rw [pending]; decide)] at answered
  exact ⟨pending,sessions,d,reply,hs,ticked,fresh,answered.1⟩

/-- Once all the room is taken, no number of ticks makes the server answer. -/
theorem flooded_never_answers :
    (greetedBy maxPendingHandshakes).Reachable ⟨[(clientKey,"client")]⟩ ∧
    ∃ reply hs, (greetedBy maxPendingHandshakes).Fresh (toBeBytes maxPendingHandshakes) hello reply hs ∧
      ∀ orders : List (List SessionId), ∃ d, (greetedBy maxPendingHandshakes).ticks orders = some d ∧
        ∀ (order : List SessionId) (src : SocketAddr),
          (d.handlePacket order src (buildHandshakePacket (toBeBytes maxPendingHandshakes) hello)).1 = [] := by
  obtain ⟨size,sessions,unused⟩ := greetedBy_pending (Nat.le_refl maxPendingHandshakes)
  obtain ⟨reply,hs,fresh⟩ := hello_fresh (toBeBytes_length maxPendingHandshakes) (by rw [sessions]; rfl)
    (unused maxPendingHandshakes (Nat.le_refl _) (by decide))
  refine ⟨greetedBy_reachable _,reply,hs,fresh,fun orders => ?_⟩
  have empty : ∀ sid : SessionId, (greetedBy maxPendingHandshakes).sessions[sid]? = none := by
    intro sid
    rw [sessions]
    exact Std.TreeMap.getElem?_emptyc
  obtain ⟨d,ticked⟩ := ticks_of_empty empty orders
  refine ⟨d,ticked,fun order src => ?_⟩
  rw [(fresh.ticks ticked).handlePacket order src,(ticks_keep ticked).1.pending,size,if_neg (Nat.lt_irrefl _)]

end ServerCore
end Noissh

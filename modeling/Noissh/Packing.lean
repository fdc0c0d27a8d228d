import Noissh.ClientSend

/-! Frames packed into datagrams. Each sealing call spends consecutive nonces, so that among 2^64
datagrams no two share one. -/
namespace Noissh

/-- What a poll of some streams may emit, announcements apart. -/
def Frame.Emitted (frame : Frame) : Prop :=
  (∃ m : StreamMux, frame ∈ m.pollTransmit.2) ∧ ∀ id kind metadata, frame ≠ .streamOpen id kind metadata

theorem Frame.Emitted.length_le {frame : Frame} (emitted : frame.Emitted) (typed : frame.Typed) :
    frame.encode.length ≤ maxDatagramPlaintext := by
  obtain ⟨⟨m,member⟩,opening⟩ := emitted
  have size := Frame.encode_length_le typed
  rcases m.pollTransmit_payload member with ⟨_,s,_,_,_,same⟩ | small
  · exact absurd same (opening _ _ _)
  · unfold maxStreamChunk at small
    unfold maxDatagramPlaintext
    omega

namespace Session

variable {snow : Snow} {s : Session snow}

/-- The datagram is the encoding of the group, encrypted under this nonce. -/
def Seals (s : Session snow) (nonce : Nat) (packet : Bytes) (group : List Frame) : Prop :=
  ∃ body, snow.encrypt s.noise.transport nonce (encodeFrames group) = .ok body ∧
    packet = transportPacket s.sessionId nonce body

/-- A plaintext over the budget is a single frame. -/
def Within (maxPlaintext : Nat) (group : List Frame) : Prop :=
  (encodeFrames group).length ≤ maxPlaintext ∨ ∃ frame, group = [frame]

/-- The datagrams seal the groups under the nonces of the counts from `count` up to `stop`. -/
inductive Packed (s : Session snow) (maxPlaintext : Nat) : Nat → List Bytes → List (List Frame) → Nat → Prop where
  | nil (count : Nat) : Packed s maxPlaintext count [] [] count
  | cons {count stop : Nat} {packet : Bytes} {packets : List Bytes} {group : List Frame} {groups : List (List Frame)} :
      s.Seals (count % 2 ^ 64) packet group → Within maxPlaintext group → Packed s maxPlaintext (count + 1) packets groups stop →
      Packed s maxPlaintext count (packet :: packets) (group :: groups) stop

/-- The nonce counter is not part of what seals a datagram. -/
theorem Packed.of_next {maxPlaintext n nonce stop : Nat} {packets : List Bytes} {groups : List (List Frame)}
    (packed : Packed { s with sendNonce := n } maxPlaintext nonce packets groups stop) :
    s.Packed maxPlaintext nonce packets groups stop := by
  induction packed with
  | nil nonce => exact .nil nonce
  | cons seals within _ ih => exact .cons seals within ih

theorem Packed.within {maxPlaintext nonce stop : Nat} {packets : List Bytes} {groups : List (List Frame)}
    (packed : s.Packed maxPlaintext nonce packets groups stop) {group : List Frame} (member : group ∈ groups) :
    Within maxPlaintext group := by
  induction packed with
  | nil nonce => cases member
  | cons _ within _ ih =>
    rcases List.mem_cons.mp member with rfl | later
    · exact within
    · exact ih later

/-- Adding a frame keeps a group in the budget, unless the budget says to start a new one. -/
theorem within_append {maxPlaintext : Nat} {group : List Frame} {frame : Frame}
    (room : ¬(¬group.isEmpty = true ∧ maxPlaintext < (encodeFrames group).length + frame.encode.length)) :
    Within maxPlaintext (group ++ [frame]) := by
  by_cases empty : group.isEmpty = true
  · right
    exact ⟨frame,by simp [List.isEmpty_iff.mp empty]⟩
  · left
    rw [encodeFrames_append,List.length_append,encodeFrames_single]
    exact Nat.not_lt.mp fun more => room ⟨empty,more⟩

theorem sealFrames_seals {group : List Frame} {packet : Bytes} {s' : Session snow}
    (sealed : s.sealFrames group = (.ok packet,s')) :
    s.Seals s.nonce packet group ∧ s' = { s with sendNonce := s.sendNonce + 1 } := by
  have next := s.sealFrames_next group
  have out := (s.sealFrames_ok_iff group packet).mp (by rw [sealed])
  rw [sealed] at next
  exact ⟨out,next⟩

/-- The loop packs what it holds and what is left; `n` is the size of the group at hand. -/
theorem sealLoop_packed {maxPlaintext : Nat} {frames : List Frame} {s s' : Session snow} {packets out : List Bytes}
    {group : List Frame} (within : group = [] ∨ Within maxPlaintext group)
    (sealed : sealLoop maxPlaintext s packets group (encodeFrames group).length frames = (.ok out,s')) :
    ∃ more groups, out = packets ++ more ∧ groups.flatten = group ++ frames ∧
      s.Packed maxPlaintext s.sendNonce more groups s'.sendNonce := by
  induction frames generalizing s packets group with
  | nil =>
    unfold sealLoop at sealed
    split at sealed
    · rename_i empty
      cases sealed
      exact ⟨[],[],by simp,by simpa using empty,.nil _⟩
    · rename_i occupied
      have within : Within maxPlaintext group := by
        rcases within with rfl | within
        · exact absurd rfl occupied
        · exact within
      split at sealed
      · cases sealed
      · rename_i packet next done
        cases sealed
        obtain ⟨seals,rfl⟩ := sealFrames_seals done
        exact ⟨[packet],[group],rfl,by simp,.cons seals within (.nil _)⟩
  | cons frame rest ih =>
    unfold sealLoop at sealed
    dsimp only at sealed
    rw [encodeFrames_single] at sealed
    split at sealed
    · rename_i full
      have within : Within maxPlaintext group := by
        rcases within with rfl | within
        · exact absurd rfl full.1
        · exact within
      split at sealed
      · cases sealed
      · rename_i packet next done
        obtain ⟨seals,rfl⟩ := sealFrames_seals done
        rw [← encodeFrames_single] at sealed
        obtain ⟨more,groups,rfl,flat,packed⟩ := ih (.inr (.inr ⟨frame,rfl⟩)) sealed
        refine ⟨packet :: more,group :: groups,by simp,by simp [flat],.cons seals within ?_⟩
        exact packed.of_next
    · rename_i room
      have size : (encodeFrames (group ++ [frame])).length = (encodeFrames group).length + frame.encode.length := by
        rw [encodeFrames_append,List.length_append,encodeFrames_single]
      rw [← size] at sealed
      obtain ⟨more,groups,same,flat,packed⟩ := ih (.inr (within_append room)) sealed
      exact ⟨more,groups,same,by simp [flat],packed⟩

/-- Whatever the outcome, the counter does not fall. -/
theorem sealLoop_grows (maxPlaintext : Nat) (frames : List Frame) (s : Session snow) (packets : List Bytes)
    (group : List Frame) (n : Nat) : s.sendNonce ≤ (sealLoop maxPlaintext s packets group n frames).2.sendNonce := by
  have seals := sealFrames_next s group
  induction frames generalizing s packets group n with
  | nil =>
    unfold sealLoop
    split
    · exact Nat.le_refl _
    · split <;> rename_i outcome
      all_goals
        rw [outcome] at seals
        rw [seals]
        exact Nat.le_succ _
  | cons frame rest ih =>
    unfold sealLoop
    dsimp only
    split
    · split <;> rename_i outcome
      · rw [outcome] at seals
        rw [seals]
        exact Nat.le_succ _
      · rw [outcome] at seals
        dsimp only at seals
        subst seals
        rename_i packet
        have later := ih _ (packets ++ [packet]) [frame] (encodeFrames [frame]).length
          (sealFrames_next { s with sendNonce := s.sendNonce + 1 } [frame])
        exact Nat.le_of_succ_le later
    · exact ih _ _ _ _ (sealFrames_next _ _)

theorem sealMany_grows (s : Session snow) (frames : List Frame) (maxPlaintext : Nat) :
    s.sendNonce ≤ (s.sealMany frames maxPlaintext).2.sendNonce := sealLoop_grows maxPlaintext frames s [] [] 0

theorem sealMany_packed {maxPlaintext : Nat} {frames : List Frame} {s s' : Session snow} {packets : List Bytes}
    (sealed : s.sealMany frames maxPlaintext = (.ok packets,s')) :
    ∃ groups, groups.flatten = frames ∧ s.Packed maxPlaintext s.sendNonce packets groups s'.sendNonce := by
  obtain ⟨_,groups,rfl,flat,packed⟩ := sealLoop_packed (.inl rfl) sealed
  exact ⟨groups,flat,packed⟩

/-- The encryption of a group of these frames is refused, under a nonce that the batch may come to. -/
def Refuses (s : Session snow) (maxPlaintext : Nat) (frames : List Frame) : Prop :=
  ∃ count group e, s.sendNonce ≤ count ∧ count < s.sendNonce + frames.length ∧ group <:+: frames ∧
    Within maxPlaintext group ∧ snow.encrypt s.noise.transport (count % 2 ^ 64) (encodeFrames group) = .error e

theorem sealFrames_refuses {group : List Frame} {e : TransportError} {s' : Session snow}
    (refused : s.sealFrames group = (.error e,s')) :
      ∃ e, snow.encrypt s.noise.transport s.nonce (encodeFrames group) = .error e := by
  cases encrypted : snow.encrypt s.noise.transport s.nonce (encodeFrames group) with
  | error e => exact ⟨e,rfl⟩
  | ok body =>
    have out := (s.sealFrames_ok_iff group _).mpr ⟨body,encrypted,rfl⟩
    rw [refused] at out
    cases out

theorem refuses_first {maxPlaintext : Nat} {group : List Frame} {e : TransportError} {s' : Session snow} (some_ : group ≠ [])
    (within : group = [] ∨ Within maxPlaintext group) (later : List Frame) (refused : s.sealFrames group = (.error e,s')) :
    s.Refuses maxPlaintext (group ++ later) := by
  obtain ⟨e,encrypted⟩ := sealFrames_refuses refused
  have more := List.length_pos_iff.mpr some_
  refine ⟨s.sendNonce,group,e,Nat.le_refl _,?_,(List.prefix_append group later).isInfix,within.resolve_left some_,encrypted⟩
  rw [List.length_append]
  omega

/-- The loop fails only when the encryption of a group does. -/
theorem sealLoop_refuses {maxPlaintext : Nat} {frames : List Frame} {s s' : Session snow} {packets : List Bytes}
    {group : List Frame} {e : TransportError} (within : group = [] ∨ Within maxPlaintext group)
    (failed : sealLoop maxPlaintext s packets group (encodeFrames group).length frames = (.error e,s')) :
    s.Refuses maxPlaintext (group ++ frames) := by
  induction frames generalizing s packets group with
  | nil =>
    unfold sealLoop at failed
    split at failed
    · cases failed
    · rename_i occupied
      split at failed
      · rename_i refused
        have some_ : group ≠ [] := by
          rintro rfl
          exact occupied rfl
        exact refuses_first some_ within [] refused
      · cases failed
  | cons frame rest ih =>
    unfold sealLoop at failed
    dsimp only at failed
    rw [encodeFrames_single] at failed
    split at failed
    · rename_i full
      have some_ : group ≠ [] := by
        rintro rfl
        exact full.1 rfl
      split at failed
      · rename_i refused
        exact refuses_first some_ within _ refused
      · rename_i done
        obtain ⟨_,rfl⟩ := sealFrames_seals done
        rw [← encodeFrames_single] at failed
        obtain ⟨count,g,e,low,high,part,inside,encrypted⟩ := ih (.inr (.inr ⟨frame,rfl⟩)) failed
        have more := List.length_pos_iff.mpr some_
        have high : count < s.sendNonce + 1 + (frame :: rest).length := high
        refine ⟨count,g,e,Nat.le_of_succ_le low,?_,?_,inside,encrypted⟩
        · rw [List.length_append]
          omega
        · exact part.trans (List.suffix_append group (frame :: rest)).isInfix
    · rename_i room
      have size : (encodeFrames (group ++ [frame])).length = (encodeFrames group).length + frame.encode.length := by
        rw [encodeFrames_append,List.length_append,encodeFrames_single]
      rw [← size] at failed
      have refuses := ih (.inr (within_append room)) failed
      rw [List.append_assoc] at refuses
      exact refuses

inductive Call where
  | sealFrames (frames : List Frame)
  | sealMany (frames : List Frame) (maxPlaintext : Nat)
  | openPacket (src : SocketAddr) (packet : Bytes)

/-- The datagrams a call hands out, and the session after it. -/
def call (s : Session snow) : Call → List Bytes × Session snow
  | .sealFrames frames => ((s.sealFrames frames).1.toOption.toList,(s.sealFrames frames).2)
  | .sealMany frames maxPlaintext =>
    ((s.sealMany frames maxPlaintext).1.toOption.getD [],(s.sealMany frames maxPlaintext).2)
  | .openPacket src packet => ([],(s.openPacket src packet).2)

/-- The session after these calls, and the datagrams of them in order. -/
def calls (s : Session snow) : List Call → List Bytes × Session snow
  | [] => ([],s)
  | c :: rest => ((s.call c).1 ++ ((s.call c).2.calls rest).1,((s.call c).2.calls rest).2)

/-- The datagrams are sealed by this session under the nonces of increasing counts, from `low` on and
below `high`. -/
inductive Numbered (s : Session snow) (high : Nat) : Nat → List Bytes → Prop where
  | nil {low : Nat} : low ≤ high → Numbered s high low []
  | cons {low count : Nat} {packet : Bytes} {packets : List Bytes} (group : List Frame) : low ≤ count →
      s.Seals (count % 2 ^ 64) packet group → Numbered s high (count + 1) packets → Numbered s high low (packet :: packets)

theorem Numbered.lower {low mid high : Nat} {packets : List Bytes} (numbered : s.Numbered high mid packets) (le : low ≤ mid) :
    s.Numbered high low packets := by
  cases numbered with
  | nil bound => exact .nil (Nat.le_trans le bound)
  | cons group bound seals rest => exact .cons group (Nat.le_trans le bound) seals rest

theorem Numbered.of_same {t : Session snow} {low high : Nat} {packets : List Bytes} (numbered : t.Numbered high low packets)
    (noise : t.noise = s.noise) (sessionId : t.sessionId = s.sessionId) : s.Numbered high low packets := by
  induction numbered with
  | nil bound => exact .nil bound
  | cons group bound seals _ ih =>
    refine .cons group bound ?_ ih
    unfold Seals at seals
    rwa [noise,sessionId] at seals

theorem Packed.numbered {maxPlaintext count stop high : Nat} {packets later : List Bytes} {groups : List (List Frame)}
    (packed : s.Packed maxPlaintext count packets groups stop) (rest : s.Numbered high stop later) :
    s.Numbered high count (packets ++ later) := by
  induction packed with
  | nil _ => exact rest
  | cons seals _ _ ih => exact .cons _ (Nat.le_refl _) seals (ih rest)

/-- A call keeps the keys, never lowers the counter, and its datagrams take nonces between the
counter before and after. -/
theorem call_numbered (s : Session snow) (c : Call) {high : Nat} {later : List Bytes}
    (rest : (s.call c).2.Numbered high (s.call c).2.sendNonce later) :
    s.Numbered high s.sendNonce ((s.call c).1 ++ later) := by
  cases c with
  | sealFrames frames =>
    have next := s.sealFrames_next frames
    simp only [call] at rest ⊢
    rw [next] at rest
    have rest : s.Numbered high (s.sendNonce + 1) later := rest.of_same rfl rfl
    cases out : (s.sealFrames frames).1 with
    | error e => exact rest.lower (Nat.le_succ _)
    | ok packet =>
      have seals := (s.sealFrames_ok_iff frames packet).mp out
      exact .cons frames (Nat.le_refl _) seals rest
  | sealMany frames maxPlaintext =>
    have next := s.sealMany_next frames maxPlaintext
    have grows := s.sealMany_grows frames maxPlaintext
    simp only [call] at rest ⊢
    have rest : s.Numbered high (s.sealMany frames maxPlaintext).2.sendNonce later := by
      apply rest.of_same <;> rw [next]
    cases out : (s.sealMany frames maxPlaintext).1 with
    | error e => exact rest.lower grows
    | ok packets =>
      obtain ⟨groups,_,packed⟩ :=
        sealMany_packed (show s.sealMany frames maxPlaintext = (_,(s.sealMany frames maxPlaintext).2) by rw [← out])
      exact packed.numbered rest
  | openPacket src packet =>
    obtain ⟨noise,sessionId⟩ := s.openPacket_keeps src packet
    have rest := rest.of_same noise sessionId
    have same : (s.openPacket src packet).2.sendNonce = s.sendNonce := by
      rcases s.openPacket_cases src packet with ⟨e,refused,_⟩ | ⟨_,_,_,_,_,_,taken⟩
      · rw [refused]
      · rw [taken]
    simp only [call,same] at rest
    exact rest

theorem calls_numbered (list : List Call) (s : Session snow) :
    s.Numbered (s.calls list).2.sendNonce s.sendNonce (s.calls list).1 := by
  induction list generalizing s with
  | nil => exact .nil (Nat.le_refl _)
  | cons c rest ih => exact s.call_numbered c (ih _)

theorem Numbered.le {low high : Nat} {packets : List Bytes} (numbered : s.Numbered high low packets) : low ≤ high := by
  induction numbered with
  | nil bound => exact bound
  | cons _ bound _ _ ih => omega

/-- These are the nonces of the datagrams. -/
def Under (s : Session snow) (nonces : List Nat) (packets : List Bytes) : Prop :=
  List.Forall₂ (fun nonce packet => nonce < 2 ^ 64 ∧ ∃ group, s.Seals nonce packet group) nonces packets

/-- Counts that are less than 2^64 apart have different nonces. -/
theorem Numbered.under {low high : Nat} {packets : List Bytes} (numbered : s.Numbered high low packets)
    (word : high ≤ low + 2 ^ 64) : ∃ nonces, s.Under nonces packets ∧ nonces.Nodup := by
  suffices all : ∃ counts : List Nat, s.Under (counts.map (· % 2 ^ 64)) packets ∧ counts.Nodup ∧
    ∀ count ∈ counts, low ≤ count ∧ count < high by
    obtain ⟨counts,under,distinct,range⟩ := all
    refine ⟨_,under,List.Nodup.map_on (fun a first b second same => ?_) distinct⟩
    have range₁ := range a first
    have range₂ := range b second
    omega
  clear word
  induction numbered with
  | nil bound => exact ⟨[],.nil,.nil,fun _ member => absurd member List.not_mem_nil⟩
  | @cons low count packet packets group bound seals rest ih =>
    obtain ⟨counts,under,distinct,range⟩ := ih
    have below : count < high := rest.le
    refine ⟨count :: counts,.cons ⟨Nat.mod_lt _ (by decide),group,seals⟩ under,?_,?_⟩
    · refine List.nodup_cons.mpr ⟨fun member => ?_,distinct⟩
      have later := (range count member).1
      omega
    · intro other member
      rcases List.mem_cons.mp member with rfl | later
      · exact ⟨bound,below⟩
      · have inside := range other later
        exact ⟨by omega,inside.2⟩

/-- What a successful batch guarantees: the groups decode to themselves and together are the
frames, the datagrams are numbered without a gap and within the budget or a single frame each,
and stream frames stay within a datagram's budget. -/
def Packs (s : Session snow) (maxPlaintext : Nat) (frames : List Frame) (packets : List Bytes) (s' : Session snow) : Prop :=
  ∃ groups, groups.flatten = frames ∧ (∀ group ∈ groups, decodeFrames (encodeFrames group) = .ok group) ∧
    s.Packed maxPlaintext s.sendNonce packets groups s'.sendNonce ∧
    (maxPlaintext = maxDatagramPlaintext → (∀ frame ∈ frames, frame.Emitted) →
      ∀ group ∈ groups, (encodeFrames group).length ≤ 1200)

theorem sealMany_packs_ok {frames : List Frame} {maxPlaintext : Nat} {packets : List Bytes} {s' : Session snow}
    (typed : ∀ frame ∈ frames, frame.Typed) (sealed : s.sealMany frames maxPlaintext = (.ok packets,s')) :
    s.Packs maxPlaintext frames packets s' := by
  obtain ⟨groups,flat,packed⟩ := sealMany_packed sealed
  have inside : ∀ group ∈ groups, ∀ frame ∈ group, frame ∈ frames := by
    intro group member frame here
    rw [← flat]
    exact List.mem_flatten_of_mem member here
  refine ⟨groups,flat,?_,packed,?_⟩
  · intro group member
    apply decodeFrames_encode
    exact fun frame here => typed frame (inside group member frame here)
  · rintro rfl emitted group member
    rcases packed.within member with small | ⟨frame,rfl⟩
    · exact small
    · have here := inside [frame] member frame (by simp)
      rw [encodeFrames_single]
      exact (emitted frame here).length_le (typed frame here)

/-- Every batch is packed so, for every budget, unless the encryption of one of its groups fails. No two
datagrams of a session are sealed under one nonce while it seals no more than 2^64. -/
theorem sealMany_packs (s : Session snow) {frames : List Frame} (typed : ∀ frame ∈ frames, frame.Typed) (maxPlaintext : Nat) :
    ((∃ packets s', s.sealMany frames maxPlaintext = (.ok packets,s') ∧ s.Packs maxPlaintext frames packets s') ∨
      (∃ e s', s.sealMany frames maxPlaintext = (.error e,s')) ∧ s.Refuses maxPlaintext frames) ∧
    ∀ earlier later : List Call, let life := s.calls (earlier ++ .sealMany frames maxPlaintext :: later)
      life.2.sendNonce ≤ s.sendNonce + 2 ^ 64 → ∃ nonces, s.Under nonces life.1 ∧ nonces.Nodup := by
  constructor
  · cases sealed : s.sealMany frames maxPlaintext with
    | mk outcome s' =>
      cases outcome with
      | ok packets => exact .inl ⟨packets,s',rfl,sealMany_packs_ok typed sealed⟩
      | error e => exact .inr ⟨⟨e,s',rfl⟩,sealLoop_refuses (.inl (rfl : ([] : List Frame) = [])) sealed⟩
  · intro earlier later life word
    exact (s.calls_numbered _).under word

def clearSession : Session Clear.noise := Session.new (List.replicate 8 5) ⟨(),[]⟩ none

def shortFrames : List Frame := [.ack 1,.ping 2,.input 0 [1,2,3,4,5,6,7]]

theorem shortFrames_encrypted : ¬clearSession.Refuses 10 shortFrames := by
  rintro ⟨count,group,e,_,_,⟨front,back,whole⟩,_,refused⟩
  have length : (encodeFrames shortFrames).length = 14 := by decide
  rw [← whole,encodeFrames_append,encodeFrames_append,List.length_append,List.length_append] at length
  have fits : (encodeFrames group).length + 16 ≤ Clear.maxMessage := by
    unfold Clear.maxMessage
    omega
  rw [show clearSession.noise.transport = () from rfl,show Clear.noise.encrypt () = Clear.encrypt from
    rfl,Clear.encrypt,if_pos fits] at refused
  cases refused

/-- Two frames fit a budget of ten bytes, the third starts a new datagram. -/
theorem sealMany_packs_short :
    (∃ packets s', clearSession.sealMany shortFrames 10 = (.ok packets,s') ∧ packets.length = 2 ∧
      clearSession.Packs 10 shortFrames packets s') ∧
    let life := clearSession.calls [.sealFrames [],.sealMany shortFrames 10,.sealFrames [.ack 2]]
    life.1.length = 4 ∧ ∃ nonces, clearSession.Under nonces life.1 ∧ nonces.Nodup := by
  obtain ⟨packed,distinct⟩ := clearSession.sealMany_packs (by decide : ∀ frame ∈ shortFrames, frame.Typed) 10
  refine ⟨?_,by decide +kernel,distinct [.sealFrames []] [.sealFrames [.ack 2]] (by decide +kernel)⟩
  obtain ⟨packets,s',sealed,packs⟩ := packed.resolve_right (fun failed => shortFrames_encrypted failed.2)
  have two : (clearSession.sealMany shortFrames 10).1.toOption.map List.length = some 2 := by decide +kernel
  rw [sealed] at two
  exact ⟨packets,s',sealed,Option.some.inj two,packs⟩

/-- The packet of one frame under a nonce. -/
def ackPacket (nonce : Nat) : Bytes := transportPacket clearSession.sessionId nonce (encodeFrames [.ack 1] ++ Clear.tag nonce)

/-- A session that seals one frame again and again. -/
theorem sealAgain_datagrams (n count : Nat) :
    ({ clearSession with sendNonce := count }.calls (List.replicate n (.sealMany [.ack 1] 1200))).1 =
      (List.range n).map (fun i => ackPacket ((count + i) % 2 ^ 64)) := by
  induction n generalizing count with
  | zero => rfl
  | succ n ih =>
    have first : { clearSession with sendNonce := count }.call (.sealMany [.ack 1] 1200) =
      ([ackPacket (count % 2 ^ 64)],{ clearSession with sendNonce := count + 1 }) := rfl
    rw [List.replicate_succ,calls,first,ih,List.range_succ_eq_map,List.map_cons,List.map_map,Nat.add_zero,List.singleton_append]
    refine congrArg _ (List.map_congr_left fun i _ => ?_)
    rw [Function.comp,Nat.succ_eq_add_one,show count + 1 + i = count + (i + 1) by omega]

/-- After 2^64 datagrams the counter begins again, and a datagram is sealed under the nonce of the first. -/
theorem nonce_used_again :
    let life := (clearSession.calls (List.replicate (2 ^ 64 + 1) (.sealMany [.ack 1] 1200))).1
    life[0]? = some (ackPacket 0) ∧ life[2 ^ 64]? = some (ackPacket 0) ∧
      parsePacket (ackPacket 0) = .ok (.transport clearSession.sessionId 0 (encodeFrames [.ack 1] ++ Clear.tag 0)) := by
  intro life
  have all : life = (List.range (2 ^ 64 + 1)).map (fun i => ackPacket ((0 + i) % 2 ^ 64)) := sealAgain_datagrams (2 ^ 64 + 1) 0
  have place : ∀ i, i < 2 ^ 64 + 1 → life[i]? = some (ackPacket (i % 2 ^ 64)) := by
    intro i inside
    rw [all,List.getElem?_map,List.getElem?_range inside,Option.map_some,Nat.zero_add]
  exact ⟨place 0 (by decide),(place (2 ^ 64) (by decide)).trans (by rw [Nat.mod_self]),by decide⟩

end Session
end Noissh

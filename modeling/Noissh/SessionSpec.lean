import Noissh.Replay

/-! Datagrams as they are built and taken apart, and what `open` can do with one. -/
namespace Noissh

theorem toBeBytes_length (n : Nat) : (toBeBytes n).length = 8 := rfl

/-- The first bytes are the number without its last ones. -/
theorem fromBeBytes_leading {n : Nat} (typed : n < 2 ^ 64) (k : Nat) (bound : k ≤ 8) :
    fromBeBytes ((List.range k).map fun i => UInt8.ofNat (n / 256 ^ (7 - i))) = n / 256 ^ (8 - k) := by
  induction k with
  | zero => exact (Nat.div_eq_of_lt typed).symm
  | succ k ih =>
    have before := ih (by omega)
    rw [fromBeBytes] at before
    have digits : n / 256 ^ (8 - k) = n / 256 ^ (7 - k) / 256 := by
      rw [Nat.div_div_eq_div_mul,← Nat.pow_succ]
      congr 2
      omega
    rw [fromBeBytes,List.range_succ,List.map_append,List.foldl_append,before,digits,List.map_singleton,List.foldl_cons,
      UInt8.toNat_ofNat',Nat.succ_sub_succ]
    exact Nat.div_add_mod' _ _

theorem fromBeBytes_toBeBytes {n : Nat} (typed : n < 2 ^ 64) : fromBeBytes (toBeBytes n) = n := by
  rw [toBeBytes,fromBeBytes_leading typed 8 (Nat.le_refl 8)]
  exact Nat.div_one n

theorem fromBeBytes_lt {bytes : Bytes} (length : bytes.length = 8) : fromBeBytes bytes < 2 ^ 64 := by
  have grows : ∀ (bytes : Bytes) (acc k : Nat), acc < 256 ^ k →
      bytes.foldl (fun n byte => n * 256 + byte.toNat) acc < 256 ^ (k + bytes.length) := by
    intro bytes
    induction bytes with
    | nil => exact fun _ _ small => small
    | cons byte rest ih =>
      intro acc k small
      have next : acc * 256 + byte.toNat < 256 ^ (k + 1) := by
        have := byte.toNat_lt
        rw [Nat.pow_succ]
        omega
      have here := ih _ (k + 1) next
      rwa [Nat.add_assoc,Nat.add_comm 1] at here
  have here := grows bytes 0 0 (by decide)
  rw [length] at here
  exact here

theorem toBeBytes_fromBeBytes {bytes : Bytes} (length : bytes.length = 8) : toBeBytes (fromBeBytes bytes) = bytes := by
  match bytes, length with
  | [a,b,c,d,e,f,g,h], _ =>
    have byte : ∀ (v : Nat) (x : UInt8), v % 256 = x.toNat → UInt8.ofNat v = x := by
      intro v x same
      apply UInt8.toNat_inj.mp
      rw [UInt8.toNat_ofNat']
      exact same
    have ha := a.toNat_lt
    have hb := b.toNat_lt
    have hc := c.toNat_lt
    have hd := d.toNat_lt
    have he := e.toNat_lt
    have hf := f.toNat_lt
    have hg := g.toNat_lt
    have hh := h.toNat_lt
    simp only [fromBeBytes,toBeBytes,List.range,List.range.loop,List.map_cons,List.map_nil,List.foldl_cons,
      List.foldl_nil,List.cons.injEq,and_true]
    refine ⟨byte _ _ ?_,byte _ _ ?_,byte _ _ ?_,byte _ _ ?_,byte _ _ ?_,byte _ _ ?_,byte _ _ ?_,byte _ _ ?_⟩ <;> omega

/-- A transport packet's header and ciphertext. -/
def transportPacket (sessionId : SessionId) (nonce : Nat) (body : Bytes) : Bytes :=
  pktTransport :: (sessionId ++ toBeBytes nonce ++ body)

theorem parsePacket_transportPacket {sessionId : SessionId} {nonce : Nat} (body : Bytes) (sized : sessionId.length = 8)
    (typed : nonce < 2 ^ 64) :
    parsePacket (transportPacket sessionId nonce body) = .ok (.transport sessionId nonce body) := by
  have nonceLength := toBeBytes_length nonce
  have first : (sessionId ++ toBeBytes nonce ++ body).take 8 = sessionId := by
    rw [List.append_assoc,← sized,List.take_left]
  have second : ((transportPacket sessionId nonce body).drop 9).take 8 = toBeBytes nonce := by
    change ((sessionId ++ toBeBytes nonce ++ body).drop 8).take 8 = _
    rw [List.append_assoc,← sized,List.drop_left,sized,← nonceLength,List.take_left]
  have third : (transportPacket sessionId nonce body).drop 17 = body := by
    change (sessionId ++ toBeBytes nonce ++ body).drop 16 = body
    have both : (sessionId ++ toBeBytes nonce).length = 16 := by rw [List.length_append,sized,nonceLength]
    rw [← both,List.drop_left]
  have length : (transportPacket sessionId nonce body).length = 17 + body.length := by
    simp only [transportPacket,List.length_cons,List.length_append,sized,nonceLength]
    omega
  have shape : transportPacket sessionId nonce body = pktTransport :: (sessionId ++ toBeBytes nonce ++ body) := rfl
  unfold parsePacket
  rw [shape]
  dsimp only
  rw [← shape,length,if_neg (by omega),if_neg (by decide),if_pos rfl,if_neg (by omega),first,second,third,
    fromBeBytes_toBeBytes typed]

/-- What parses as a transport packet is one. -/
theorem parsePacket_transport {buf : Bytes} {sessionId : SessionId} {nonce : Nat} {body : Bytes}
    (parsed : parsePacket buf = .ok (.transport sessionId nonce body)) :
    buf = transportPacket sessionId nonce body ∧ sessionId.length = 8 ∧ nonce < 2 ^ 64 := by
  unfold parsePacket at parsed
  split at parsed
  · cases parsed
  rename_i ty rest
  split at parsed
  · cases parsed
  split at parsed
  · cases parsed
  split at parsed
  · rename_i transport
    subst transport
    split at parsed
    · cases parsed
    rename_i long
    cases parsed
    rw [List.length_cons] at long
    have sized : ((List.drop 8 rest).take 8).length = 8 := by simp; omega
    refine ⟨?_,by simp; omega,fromBeBytes_lt sized⟩
    rw [transportPacket,List.drop_succ_cons,List.drop_succ_cons,toBeBytes_fromBeBytes sized]
    congr 1
    rw [List.append_assoc,show (16 : Nat) = 8 + 8 from rfl,← List.drop_drop,List.take_append_drop,List.take_append_drop]
  · cases parsed

theorem parsePacket_handshake {buf : Bytes} {sessionId : SessionId} {body : Bytes}
    (parsed : parsePacket buf = .ok (.handshake sessionId body)) :
    buf = buildHandshakePacket sessionId body ∧ sessionId.length = 8 := by
  unfold parsePacket at parsed
  split at parsed
  · cases parsed
  rename_i ty rest
  split at parsed
  · cases parsed
  rename_i long
  rw [List.length_cons] at long
  split at parsed
  · rename_i handshake
    subst handshake
    cases parsed
    refine ⟨?_,by simp; omega⟩
    rw [buildHandshakePacket,List.drop_succ_cons,List.take_append_drop]
  split at parsed
  · split at parsed <;> cases parsed
  · cases parsed

namespace Session

variable {snow : Snow} {s : Session snow}

theorem decrypt_ok_iff {noise : NoiseSession snow} {nonce : Nat} {body plaintext : Bytes} :
    noise.decrypt nonce body = .ok plaintext ↔ snow.decrypt noise.transport nonce body = .ok plaintext := by
  unfold NoiseSession.decrypt
  cases snow.decrypt noise.transport nonce body with
  | error e => exact ⟨nofun,nofun⟩
  | ok plain => exact ⟨fun same => by cases same; rfl,fun same => by cases same; rfl⟩

theorem sealFrames_next (s : Session snow) (frames : List Frame) :
    (s.sealFrames frames).2 = { s with sendNonce := s.sendNonce + 1 } := by
  unfold sealFrames
  dsimp only
  split <;> rfl

/-- What is sealed is the encoding of the frames, encrypted under the next nonce. -/
theorem sealFrames_ok_iff (s : Session snow) (frames : List Frame) (packet : Bytes) :
    (s.sealFrames frames).1 = .ok packet ↔
      ∃ body, snow.encrypt s.noise.transport s.nonce (encodeFrames frames) = .ok body ∧
        packet = transportPacket s.sessionId s.nonce body := by
  unfold sealFrames NoiseSession.encrypt
  dsimp only
  cases snow.encrypt s.noise.transport s.nonce (encodeFrames frames) with
  | error e => exact ⟨nofun,fun ⟨_,same,_⟩ => nomatch same⟩
  | ok body =>
    constructor
    · intro same
      cases same
      exact ⟨body,rfl,rfl⟩
    · rintro ⟨_,same,rfl⟩
      cases same
      rfl

/-- Everything `open` can do: it refuses a packet and changes nothing, or takes one that
belongs to this session, decrypts and is fresh. -/
theorem openPacket_cases (s : Session snow) (src : SocketAddr) (buf : Bytes) :
    (∃ e, s.openPacket src buf = (.error e,s) ∧
      ∀ nonce body plaintext, parsePacket buf = .ok (.transport s.sessionId nonce body) →
        snow.decrypt s.noise.transport nonce body = .ok plaintext → (s.replay.checkAndSet nonce).1 = false) ∨
    ∃ nonce body plaintext, parsePacket buf = .ok (.transport s.sessionId nonce body) ∧
      snow.decrypt s.noise.transport nonce body = .ok plaintext ∧ (s.replay.checkAndSet nonce).1 = true ∧
      s.openPacket src buf = ((decodeFrames plaintext).mapError .wire,
        { s with replay := (s.replay.checkAndSet nonce).2, peerAddr := some src }) := by
  unfold openPacket
  cases parsed : parsePacket buf with
  | error e => exact .inl ⟨_,rfl,nofun⟩
  | ok packet =>
    cases packet with
    | handshake sessionId body => exact .inl ⟨_,rfl,nofun⟩
    | transport sessionId nonce body =>
      dsimp only
      by_cases foreign : sessionId ≠ s.sessionId
      · rw [if_pos foreign]
        refine .inl ⟨_,rfl,fun _ _ _ same => ?_⟩
        cases same
        exact absurd rfl foreign
      rw [if_neg foreign]
      obtain rfl := not_not.mp foreign
      cases opened : s.noise.decrypt nonce body with
      | error e =>
        refine .inl ⟨_,rfl,fun _ _ _ same decrypts => ?_⟩
        cases same
        rw [decrypt_ok_iff.mpr decrypts] at opened
        cases opened
      | ok plaintext =>
        have decrypts := decrypt_ok_iff.mp opened
        cases fresh : (s.replay.checkAndSet nonce).1 with
        | false =>
          have same := s.replay.checkAndSet_refused nonce fresh
          refine .inl ⟨.replay,?_,fun _ _ _ here _ => by cases here; exact fresh⟩
          rw [← Prod.eta (s.replay.checkAndSet nonce),fresh,same]
        | true =>
          refine .inr ⟨nonce,body,plaintext,rfl,decrypts,fresh,?_⟩
          rw [← Prod.eta (s.replay.checkAndSet nonce),fresh]

/-- Opening a packet does not change what the session is. -/
theorem openPacket_keeps (s : Session snow) (src : SocketAddr) (buf : Bytes) :
    (s.openPacket src buf).2.noise = s.noise ∧ (s.openPacket src buf).2.sessionId = s.sessionId := by
  rcases s.openPacket_cases src buf with ⟨e,refused,_⟩ | ⟨_,_,_,_,_,_,taken⟩
  · rw [refused]
    exact ⟨rfl,rfl⟩
  · rw [taken]
    exact ⟨rfl,rfl⟩

/-- Sealing only spends nonces. -/
theorem sealLoop_next (maxPlaintext : Nat) (frames : List Frame) (s : Session snow) (packets : List Bytes)
    (group : List Frame) (n : Nat) :
    (sealLoop maxPlaintext s packets group n frames).2 =
      { s with sendNonce := (sealLoop maxPlaintext s packets group n frames).2.sendNonce } := by
  have seals := sealFrames_next s group
  induction frames generalizing s packets group n with
  | nil =>
    unfold sealLoop
    split
    · rfl
    · split <;> rename_i outcome
      · rw [outcome] at seals
        rw [seals]
      · rw [outcome] at seals
        rw [seals]
  | cons frame rest ih =>
    unfold sealLoop
    dsimp only
    split
    · split <;> rename_i outcome
      · rw [outcome] at seals
        rw [seals]
      · rw [outcome] at seals
        dsimp only at seals
        subst seals
        exact ih _ _ _ _ (sealFrames_next _ _)
    · exact ih _ _ _ _ (sealFrames_next _ _)

theorem sealMany_next (s : Session snow) (frames : List Frame) (maxPlaintext : Nat) :
    (s.sealMany frames maxPlaintext).2 = { s with sendNonce := (s.sealMany frames maxPlaintext).2.sendNonce } :=
  sealLoop_next maxPlaintext frames s [] [] 0

theorem sealFrames_noise (s : Session snow) (frames : List Frame) : (s.sealFrames frames).2.noise = s.noise := by
  rw [sealFrames_next]

theorem sealMany_noise (s : Session snow) (frames : List Frame) (maxPlaintext : Nat) :
    (s.sealMany frames maxPlaintext).2.noise = s.noise := by
  rw [sealMany_next]

/-- The library seals plaintexts up to a limit. -/
def SealsUpTo (snow : Snow) (limit : Nat) : Prop :=
  ∀ t nonce plaintext, (∃ body, snow.encrypt t nonce plaintext = .ok body) ↔ plaintext.length ≤ limit

/-- The datagram is these frames, sealed by this session under some nonce. -/
def Carries (s : Session snow) (packet : Bytes) (frames : List Frame) : Prop :=
  ∃ nonce body, snow.encrypt s.noise.transport nonce (encodeFrames frames) = .ok body ∧
    packet = transportPacket s.sessionId nonce body

theorem encodeFrames_append (first second : List Frame) :
    encodeFrames (first ++ second) = encodeFrames first ++ encodeFrames second := List.flatMap_append

theorem encodeFrames_single (frame : Frame) : encodeFrames [frame] = frame.encode := List.append_nil _

/-- A frame is no longer than a group it is in. -/
theorem encode_length_le {frame : Frame} {group : List Frame} (member : frame ∈ group) :
    frame.encode.length ≤ (encodeFrames group).length := by
  induction group with
  | nil => exact absurd member List.not_mem_nil
  | cons first rest ih =>
    rw [encodeFrames,List.flatMap_cons,List.length_append]
    rcases List.mem_cons.mp member with rfl | later
    · exact Nat.le_add_right _ _
    · exact Nat.le_trans (ih later) (Nat.le_add_left _ _)

section

variable {limit maxPlaintext : Nat} (limits : SealsUpTo snow limit)

include limits

theorem sealFrames_fits (s : Session snow) {group : List Frame} (fits : (encodeFrames group).length ≤ limit) :
    ∃ packet, (s.sealFrames group).1 = .ok packet ∧ s.Carries packet group := by
  obtain ⟨body,encrypted⟩ := (limits s.noise.transport s.nonce _).mpr fits
  exact ⟨_,(s.sealFrames_ok_iff group _).mpr ⟨body,encrypted,rfl⟩,s.nonce,body,encrypted,rfl⟩

theorem sealFrames_large (s : Session snow) {group : List Frame} (large : limit < (encodeFrames group).length) :
    ∃ e, (s.sealFrames group).1 = .error e := by
  cases out : (s.sealFrames group).1 with
  | error e => exact ⟨e,rfl⟩
  | ok packet =>
    obtain ⟨body,encrypted,_⟩ := (s.sealFrames_ok_iff group packet).mp out
    exact absurd ((limits _ _ _).mp ⟨body,encrypted⟩) (Nat.not_le.mpr large)

/-- When no frame is too long, every group is sealed. The group at hand is within the limit
because it is one frame, or was kept below the smaller bound of a datagram. -/
theorem sealLoop_fits (bound : maxPlaintext ≤ limit) (frames : List Frame) (s : Session snow) (packets : List Bytes)
    (group : List Frame) (fits : ∀ frame ∈ frames, frame.encode.length ≤ limit)
    (grouped : (encodeFrames group).length ≤ limit) :
    ∃ out groups s', sealLoop maxPlaintext s packets group (encodeFrames group).length frames = (.ok (packets ++ out),s') ∧
      List.Forall₂ s.Carries out groups ∧ groups.flatten = group ++ frames := by
  induction frames generalizing s packets group with
  | nil =>
    unfold sealLoop
    by_cases empty : group.isEmpty
    · rw [if_pos empty]
      refine ⟨[],[],s,by rw [List.append_nil],.nil,?_⟩
      rw [List.isEmpty_iff.mp empty]
      rfl
    · rw [if_neg empty]
      obtain ⟨packet,out,carries⟩ := sealFrames_fits limits s grouped
      rw [← Prod.eta (s.sealFrames group),out]
      exact ⟨[packet],[group],_,rfl,.cons carries .nil,rfl⟩
  | cons frame rest ih =>
    have first := fits frame (.head _)
    have later := fun other member => fits other (.tail _ member)
    unfold sealLoop
    dsimp only
    rw [encodeFrames_single]
    by_cases full : ¬group.isEmpty = true ∧ maxPlaintext < (encodeFrames group).length + frame.encode.length
    · rw [if_pos full]
      obtain ⟨packet,out,carries⟩ := sealFrames_fits limits s grouped
      obtain ⟨others,groups,s',sealed,follow,flat⟩ := ih (s.sealFrames group).2 (packets ++ [packet]) [frame] later
        (by rw [encodeFrames_single]; exact first)
      rw [encodeFrames_single] at sealed
      rw [← Prod.eta (s.sealFrames group),out]
      refine ⟨packet :: others,group :: groups,s',?_,.cons carries ?_,?_⟩
      · dsimp only
        rw [sealed,List.append_assoc,List.singleton_append]
      · rw [s.sealFrames_next group] at follow
        exact follow
      · rw [List.flatten_cons,flat,List.singleton_append]
    · rw [if_neg full]
      have size : (encodeFrames (group ++ [frame])).length = (encodeFrames group).length + frame.encode.length := by
        rw [encodeFrames_append,List.length_append,encodeFrames_single]
      have small : (encodeFrames (group ++ [frame])).length ≤ limit := by
        rw [size]
        by_cases empty : group.isEmpty = true
        · rw [List.isEmpty_iff.mp empty,encodeFrames,List.flatMap_nil,List.length_nil,Nat.zero_add]
          exact first
        · have within : ¬maxPlaintext < (encodeFrames group).length + frame.encode.length := fun more => full ⟨empty,more⟩
          omega
      obtain ⟨out,groups,s',sealed,follow,flat⟩ := ih s packets (group ++ [frame]) later small
      rw [size] at sealed
      exact ⟨out,groups,s',sealed,follow,by rw [flat,List.append_assoc,List.singleton_append]⟩

/-- A frame over the limit fails the whole batch. -/
theorem sealLoop_large (frames : List Frame) (s : Session snow) (packets : List Bytes) (group : List Frame) (n : Nat)
    {frame : Frame} (member : frame ∈ group ++ frames) (large : limit < frame.encode.length) :
    ∃ e s', sealLoop maxPlaintext s packets group n frames = (.error e,s') := by
  have fails : ∀ (t : Session snow) (g : List Frame), frame ∈ g → ∃ e, (t.sealFrames g).1 = .error e := fun t _ here =>
    sealFrames_large limits t (Nat.lt_of_lt_of_le large (encode_length_le here))
  induction frames generalizing s packets group n with
  | nil =>
    rw [List.append_nil] at member
    unfold sealLoop
    rw [if_neg (by intro empty; rw [List.isEmpty_iff.mp empty] at member; exact List.not_mem_nil member)]
    obtain ⟨e,out⟩ := fails s group member
    rw [← Prod.eta (s.sealFrames group),out]
    exact ⟨_,_,rfl⟩
  | cons first rest ih =>
    unfold sealLoop
    dsimp only
    split
    · cases out : (s.sealFrames group).1 with
      | error e =>
        rw [← Prod.eta (s.sealFrames group),out]
        exact ⟨_,_,rfl⟩
      | ok packet =>
        rw [← Prod.eta (s.sealFrames group),out]
        have rest' : frame ∈ [first] ++ rest := by
          rcases List.mem_append.mp member with here | there
          · obtain ⟨e,failed⟩ := fails s group here
            rw [failed] at out
            cases out
          · exact there
        exact ih _ _ _ _ rest'
    · rw [List.append_cons] at member
      exact ih _ _ _ _ member

end

/-- The batch is sealed exactly when each of its frames fits. -/
theorem sealMany_fits {limit maxPlaintext : Nat} (limits : SealsUpTo snow limit) (bound : maxPlaintext ≤ limit)
    (s : Session snow) {frames : List Frame} (fits : ∀ frame ∈ frames, frame.encode.length ≤ limit) :
    ∃ out groups s', s.sealMany frames maxPlaintext = (.ok out,s') ∧ List.Forall₂ s.Carries out groups ∧
      groups.flatten = frames := sealLoop_fits limits bound frames s [] [] fits (Nat.zero_le _)

theorem sealMany_large {limit maxPlaintext : Nat} (limits : SealsUpTo snow limit) (s : Session snow)
    {frames : List Frame} {frame : Frame} (member : frame ∈ frames) (large : limit < frame.encode.length) :
    ∃ e s', s.sealMany frames maxPlaintext = (.error e,s') := sealLoop_large limits frames s [] [] 0 member large

end Session
end Noissh

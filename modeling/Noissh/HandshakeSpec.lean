import Noissh.Handshake
import Noissh.SessionSpec

/-! The handshake as a machine of three messages. The client's driver reads one of them, the
server's two, and each in its turn only. -/
namespace Noissh

/-- The XX pattern of the Noise library. A turn is a message written or read, the initiator
writes the first and the third, and a handshake of three turns is finished. A message that
fails is no turn. -/
structure Snow.XX (snow : Snow) (initiates : snow.Handshake → Bool) (turn : snow.Handshake → Nat) : Prop where
  initiator : ∀ {key h}, snow.initiator key = .ok h → initiates h = true ∧ turn h = 0
  responder : ∀ {key h}, snow.responder key = .ok h → initiates h = false ∧ turn h = 0
  written : ∀ {h payload message h'}, snow.writeMessage h payload = (.ok message,h') →
    initiates h' = initiates h ∧ turn h' = turn h + 1
  unwritten : ∀ {h payload e h'}, snow.writeMessage h payload = (.error e,h') →
    initiates h' = initiates h ∧ turn h' = turn h
  read : ∀ {h body payload h'}, snow.readMessage h body = (.ok payload,h') →
    turn h < 3 ∧ initiates h = decide (turn h % 2 = 1) ∧ initiates h' = initiates h ∧ turn h' = turn h + 1
  unread : ∀ {h body e h'}, snow.readMessage h body = (.error e,h') → initiates h' = initiates h ∧ turn h' = turn h
  finished : ∀ h, snow.isFinished h = true ↔ turn h = 3

/-- A message that is not read changes nothing. -/
theorem Clear.readMessage_failed {h h' : Clear.Handshake} {body : Bytes} {e : String}
    (failed : Clear.readMessage h body = (.error e,h')) : h' = h := by
  unfold Clear.readMessage at failed
  split at failed
  · split at failed <;> cases failed
    rfl
  split at failed
  · split at failed <;> cases failed
    rfl
  split at failed
  · split at failed <;> cases failed
    rfl
  · cases failed
    rfl

theorem Clear.xx : Snow.XX Clear.noise Clear.Handshake.initiator Clear.Handshake.turn where
  initiator made := by
    cases made
    exact ⟨rfl,rfl⟩
  responder made := by
    cases made
    exact ⟨rfl,rfl⟩
  written := by
    intro h payload message h' wrote
    change Clear.writeMessage h payload = _ at wrote
    unfold Clear.writeMessage at wrote
    split at wrote
    · cases wrote
      exact ⟨rfl,rfl⟩
    split at wrote
    · cases wrote
      exact ⟨rfl,rfl⟩
    split at wrote
    · cases wrote
      exact ⟨rfl,rfl⟩
    · cases wrote
  unwritten := by
    intro h payload e h' failed
    change Clear.writeMessage h payload = _ at failed
    unfold Clear.writeMessage at failed
    split at failed
    · cases failed
    split at failed
    · cases failed
    split at failed
    · cases failed
    · cases failed
      exact ⟨rfl,rfl⟩
  read := by
    intro h body payload h' done
    change Clear.readMessage h body = _ at done
    unfold Clear.readMessage at done
    split at done
    · rename_i here
      split at done
      · cases done
      · cases done
        simp [here]
    split at done
    · rename_i here
      split at done
      · cases done
      · cases done
        simp [here]
    split at done
    · rename_i here
      split at done
      · cases done
      · cases done
        simp [here]
    · cases done
  unread := by
    intro h body e h' failed
    obtain rfl := Clear.readMessage_failed failed
    exact ⟨rfl,rfl⟩
  finished h := decide_eq_true_iff

namespace Handshaker

variable {snow : Snow} {initiates : snow.Handshake → Bool} {turn : snow.Handshake → Nat}

/-- The driver's handshake is at this turn of its side. -/
def At (initiates : snow.Handshake → Bool) (turn : snow.Handshake → Nat) (side : Bool) (n : Nat)
    (h : Handshaker snow) : Prop :=
  ∃ hs, h.hs = some hs ∧ initiates hs = side ∧ turn hs = n

section

variable (xx : snow.XX initiates turn) {h h' : Handshaker snow}

include xx

theorem client_at {key : Bytes} {sid : SessionId} {first : Bytes} (made : client snow key sid = .ok (h,first)) :
    h.At initiates turn true 1 := by
  unfold client at made
  split at made
  · cases made
  rename_i hs new
  split at made
  · cases made
  rename_i message hs' wrote
  cases made
  obtain ⟨side,zero⟩ := xx.initiator new
  obtain ⟨same,next⟩ := xx.written wrote
  exact ⟨hs',rfl,same.trans side,by rw [next,zero]⟩

theorem server_at {key : Bytes} {sid : SessionId} {payload : Bytes} (made : server snow key sid payload = .ok h) :
    h.At initiates turn false 0 ∧ h.sessionId = sid ∧ h.sendPayload = payload := by
  unfold server at made
  split at made
  · cases made
  rename_i hs new
  cases made
  obtain ⟨side,zero⟩ := xx.responder new
  exact ⟨⟨hs,rfl,side,zero⟩,rfl,rfl⟩

/-- Out of turn nothing is read, and the turn stays. -/
theorem read_out_of_turn {side : Bool} {n : Nat} (stands : h.At initiates turn side n) (out : 3 ≤ n ∨ side ≠ decide (n % 2 = 1))
    (body : Bytes) : ∃ e h', h.read body = (.error e,h') ∧ h'.At initiates turn side n := by
  obtain ⟨hs,held,rfl,rfl⟩ := stands
  unfold read
  rw [held]
  dsimp only
  cases got : snow.readMessage hs body with
  | mk outcome hs' =>
    cases outcome with
    | ok payload =>
      obtain ⟨early,mine,_⟩ := xx.read got
      rcases out with late | wrong
      · omega
      · exact absurd mine wrong
    | error e =>
      obtain ⟨same,still⟩ := xx.unread got
      exact ⟨_,_,rfl,hs',rfl,same,still⟩

/-- The client reads the second message and writes the third, after which it is finished. A
failure may leave it with the third message unwritten. -/
theorem read_second (stands : h.At initiates turn true 1) (body : Bytes) :
    (∃ e h', h.read body = (.error e,h') ∧ (h'.At initiates turn true 1 ∨ h'.At initiates turn true 2)) ∨
    ∃ packet h', h.read body = (.ok { reply := some packet, finished := true },h') ∧ h'.At initiates turn true 3 := by
  obtain ⟨hs,held,side,one⟩ := stands
  unfold read
  rw [held]
  dsimp only
  cases got : snow.readMessage hs body with
  | mk outcome hs' =>
    cases outcome with
    | error e =>
      obtain ⟨same,still⟩ := xx.unread got
      exact .inl ⟨_,_,rfl,.inl ⟨hs',rfl,same.trans side,still.trans one⟩⟩
    | ok payload =>
      obtain ⟨_,_,same,next⟩ := xx.read got
      have unfinished : snow.isFinished hs' = false := by
        rw [← Bool.not_eq_true,xx.finished,next,one]
        decide
      dsimp only
      rw [if_neg (by rw [unfinished]; decide)]
      unfold reply
      dsimp only
      cases wrote : snow.writeMessage hs' h.sendPayload with
      | mk outcome last =>
        cases outcome with
        | error e =>
          obtain ⟨same',still⟩ := xx.unwritten wrote
          exact .inl ⟨_,_,rfl,.inr ⟨last,rfl,by rw [same',same,side],by rw [still,next,one]⟩⟩
        | ok message =>
          obtain ⟨same',next'⟩ := xx.written wrote
          have three : turn last = 3 := by rw [next',next,one]
          dsimp only
          rw [(xx.finished last).mpr three]
          exact .inr ⟨_,_,rfl,last,rfl,by rw [same',same,side],three⟩

/-- A new server driver reads the first message and answers it with the second. -/
theorem read_first (stands : h.At initiates turn false 0) (body : Bytes) :
    (∃ e h', h.read body = (.error e,h')) ∨
    ∃ hs message last h', turn hs = 1 ∧ initiates hs = false ∧ snow.writeMessage hs h.sendPayload = (.ok message,last) ∧
      h.read body = (.ok { reply := some (buildHandshakePacket h.sessionId message), finished := false },h') ∧
      h'.At initiates turn false 2 := by
  obtain ⟨hs,held,side,zero⟩ := stands
  unfold read
  rw [held]
  dsimp only
  cases got : snow.readMessage hs body with
  | mk outcome hs' =>
    cases outcome with
    | error e => exact .inl ⟨_,_,rfl⟩
    | ok payload =>
      obtain ⟨_,_,same,next⟩ := xx.read got
      rw [zero] at next
      have unfinished : ∀ g, turn g < 3 → snow.isFinished g = false := fun g early => by
        rw [← Bool.not_eq_true,xx.finished]
        omega
      dsimp only
      rw [if_neg (by rw [unfinished hs' (by omega)]; decide)]
      unfold reply
      dsimp only
      cases wrote : snow.writeMessage hs' h.sendPayload with
      | mk outcome last =>
        cases outcome with
        | error e => exact .inl ⟨_,_,rfl⟩
        | ok message =>
          obtain ⟨same',next'⟩ := xx.written wrote
          dsimp only
          rw [unfinished last (by omega)]
          exact .inr ⟨hs',message,last,_,next,same.trans side,wrote,rfl,last,rfl,by rw [same',same,side],by rw [next',next]⟩

/-- A server driver that has answered reads the third message, and owes nothing more. -/
theorem read_third (stands : h.At initiates turn false 2) (body : Bytes) :
    (∃ e hs hs', h.hs = some hs ∧ h.read body = (.error e,{ h with hs := some hs' }) ∧
      ∃ text, snow.readMessage hs body = (.error text,hs')) ∨
    ∃ h', h.read body = (.ok { reply := none, finished := true },h') := by
  obtain ⟨hs,held,side,two⟩ := stands
  unfold read
  rw [held]
  dsimp only
  cases got : snow.readMessage hs body with
  | mk outcome hs' =>
    cases outcome with
    | error e => exact .inl ⟨_,hs,hs',rfl,rfl,e,got⟩
    | ok payload =>
      obtain ⟨_,_,_,next⟩ := xx.read got
      dsimp only
      rw [if_pos ((xx.finished hs').mpr (by rw [next,two]))]
      exact .inr ⟨_,rfl⟩

end

/-- The session of a finished handshake is with the holder of the key it learned. -/
theorem intoSession_spec {h : Handshaker snow} {peerAddr : Option SocketAddr} {session : Session snow}
    (made : h.intoSession peerAddr = .ok session) : h.remoteStatic = some session.noise.remoteStatic := by
  unfold intoSession at made
  split at made
  · split at made
    · cases made
    rename_i hs held
    unfold Snow.session at made
    split at made
    · split at made
      · cases made
      rename_i remote known
      cases done : snow.intoTransport hs with
      | error e =>
        rw [done] at made
        cases made
      | ok transport =>
        rw [done] at made
        cases made
        rw [remoteStatic,held]
        exact known
    · cases made
  · cases made

end Handshaker

theorem PublicKey.eq_of_bytes {a b : PublicKey} (same : a.bytes = b.bytes) : a = b := by
  cases a
  cases same
  rfl

/-- The key is listed. -/
def AuthorizedKeys.Lists (a : AuthorizedKeys) (key : Bytes) : Prop := ∃ entry ∈ a.keys, entry.1.bytes = key

theorem authorizeClient_iff (a : AuthorizedKeys) (key : Bytes) : authorizeClient a key = true ↔ a.Lists key := by
  unfold authorizeClient PublicKey.fromBytes
  by_cases length : key.length = keyLen
  · simp only [dif_pos length,AuthorizedKeys.contains,List.any_eq_true,decide_eq_true_eq,AuthorizedKeys.Lists]
    constructor
    · rintro ⟨entry,member,same⟩
      exact ⟨entry,member,by rw [same]⟩
    · rintro ⟨entry,member,same⟩
      exact ⟨entry,member,PublicKey.eq_of_bytes same⟩
  · simp only [dif_neg length]
    constructor
    · intro bad
      cases bad
    · rintro ⟨entry,_,same⟩
      exact absurd (same ▸ entry.1.length) length

/-- Checking a server's key either refuses it and pins nothing, or leaves it pinned. Pins that
were there stay. -/
theorem verifyServer_cases (known : KnownHosts) (host : String) (key : Bytes) :
    ((verifyServer known host key).1 = .mismatch ∧ (verifyServer known host key).2 = known ∧
      ∀ pinned, known.hosts[host]? = some pinned → pinned.bytes ≠ key) ∨
    ((verifyServer known host key).1 ≠ .mismatch ∧
      (∃ pinned, (verifyServer known host key).2.hosts[host]? = some pinned ∧ pinned.bytes = key) ∧
      ∀ (label : String) (pinned : PublicKey), known.hosts[label]? = some pinned →
        (verifyServer known host key).2.hosts[label]? = some pinned) := by
  unfold verifyServer PublicKey.fromBytes
  by_cases length : key.length = keyLen
  · simp only [dif_pos length,KnownHosts.checkOrAdd]
    cases held : known.hosts[host]? with
    | none =>
      refine .inr ⟨nofun,⟨_,Std.TreeMap.getElem?_insert_self,rfl⟩,fun label pinned there => ?_⟩
      rw [Std.TreeMap.getElem?_insert]
      split
      · rename_i same
        rw [← Std.LawfulEqCmp.eq_of_compare same,held] at there
        cases there
      · exact there
    | some pinned =>
      by_cases same : pinned = { bytes := key, length }
      · simp only [if_pos same]
        exact .inr ⟨nofun,⟨pinned,held,by rw [same]⟩,fun _ _ there => there⟩
      · simp only [if_neg same]
        refine .inl ⟨trivial,trivial,fun other there equal => ?_⟩
        cases there
        exact same (PublicKey.eq_of_bytes equal)
  · simp only [dif_neg length]
    exact .inl ⟨trivial,trivial,fun pinned _ equal => length (equal ▸ pinned.length)⟩

end Noissh

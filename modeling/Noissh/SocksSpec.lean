import Noissh.Socks

/-! What a SOCKS client may send, and that the parser finds exactly this at the start of the
bytes it is given: with more bytes behind a request nothing changes but what is left over. -/
namespace Noissh.Socks

open ControlMsg

/-- What stands before the bytes of an address, and how many these are, by its type. -/
inductive Address : UInt8 → Bytes → Nat → Prop where
  | v4 : Address 0x01 [] 4
  | v6 : Address 0x04 [] 16
  | domain (len : UInt8) : Address 0x03 [len] len.toNat

/-- The target of a SOCKS5 request. -/
def targetText (atyp : UInt8) (host : String) (high low : UInt8) : String :=
  if atyp = 0x04 then "[" ++ host ++ "]:" ++ toString (beWord high low) else host ++ ":" ++ toString (beWord high low)

/-- A SOCKS5 request after the greeting, with its target. -/
inductive Connect : Bytes → String → Prop where
  | mk {atyp rsv high low : UInt8} {before addr : Bytes} {host : String} (address : Address atyp before addr.length)
      (text : hostText atyp addr = some host) :
      Connect (5 :: 1 :: rsv :: atyp :: (before ++ (addr ++ [high,low]))) (targetText atyp host high low)

def granted5 : Bytes := [0x05,0x00,0x00,0x01,0,0,0,0,0,0]

/-- A request that is granted, with its target and the reply to it. -/
inductive Request : Bytes → String → Bytes → Prop where
  | socks5 {n : UInt8} {methods connect : Bytes} {target : String} (offers : n ≠ 0) (length : methods.length = n.toNat)
      (connects : Connect connect target) : Request (5 :: n :: (methods ++ connect)) target ([0x05,0x00] ++ granted5)
  | socks4 {high low i j k l : UInt8} {uid : Bytes} (valid : [i,j,k,l] ≠ [0,0,0,0])
      (plain : ¬(i = 0 ∧ j = 0 ∧ k = 0 ∧ l ≠ 0)) (ended : 0 ∉ uid) :
      Request (4 :: 1 :: high :: low :: i :: j :: k :: l :: (uid ++ [0]))
        (dotted [i,j,k,l] ++ ":" ++ toString (beWord high low)) [0x00,0x5a,high,low,i,j,k,l]
  | socks4a {high low l : UInt8} {uid name : Bytes} {host : String} (named : l ≠ 0) (ended : 0 ∉ uid)
      (ended' : 0 ∉ name) (text : fromUtf8 name = some host) :
      Request (4 :: 1 :: high :: low :: 0 :: 0 :: 0 :: l :: (uid ++ 0 :: (name ++ [0])))
        (host ++ ":" ++ toString (beWord high low)) [0x00,0x5a,high,low,0,0,0,l]

theorem Address.length_le {atyp : UInt8} {before : Bytes} {n : Nat} (address : Address atyp before n) :
    before.length + n ≤ 256 := by
  cases address with
  | v4 => decide
  | v6 => decide
  | domain len =>
    have := len.toNat_lt
    simp only [List.length_cons,List.length_nil]
    omega

theorem Connect.length_le {connect : Bytes} {target : String} (connects : Connect connect target) : connect.length ≤ 262 := by
  obtain ⟨address,_⟩ := connects
  have := address.length_le
  simp only [List.length_cons,List.length_append,List.length_nil]
  omega

/-- A SOCKS5 request has a bounded length. -/
theorem Request.short {request reply : Bytes} {target : String} (asked : Request request target reply)
    (first : request.head? = some 5) : request.length ≤ maxNegotiationBytes := by
  cases asked with
  | @socks5 n _ _ _ _ length connects =>
    have := n.toNat_lt
    have := connects.length_le
    simp [length,maxNegotiationBytes]
    omega
  | socks4 => cases first
  | socks4a => cases first

namespace SocksConn

/-- The state after a granted request. -/
def grantSocks5 (c : SocksConn) (target : String) (leftover : Bytes) : SocksConn :=
  { inbuf := leftover, out := c.out ++ granted5, phase := .done, target := some target }

theorem parseAddress_full {c : SocksConn} {front addr leftover : Bytes} {high low : UInt8}
    (inbuf : c.inbuf = front ++ (addr ++ high :: low :: leftover)) (cmd atyp : UInt8) :
    c.parseAddress cmd atyp addr.length front.length =
      if cmd ≠ 1 then (true,c.failSocks5 0x07)
      else match hostText atyp addr with
        | none => (true,c.failSocks5 0x01)
        | some host => (true,c.grantSocks5 (targetText atyp host high low) leftover) := by
  have enough : ¬c.inbuf.length < front.length + addr.length + 2 := by
    rw [inbuf]
    simp only [List.length_append,List.length_cons]
    omega
  have port : c.inbuf.drop (front.length + addr.length) = high :: low :: leftover := by
    rw [inbuf,← List.drop_drop]
    simp
  have address : (c.inbuf.drop front.length).take addr.length = addr := by simp [inbuf]
  have rest : c.inbuf.drop (front.length + addr.length + 2) = leftover := by
    rw [← List.drop_drop,port]
    rfl
  unfold parseAddress
  rw [if_neg enough,port,address,rest]
  rfl

/-- A buffer that holds an address and a port holds them at its start. -/
theorem address_split {inbuf : Bytes} {addrLen addrStart : Nat} (enough : ¬inbuf.length < addrStart + addrLen + 2) :
    ∃ front addr high low leftover, inbuf = front ++ (addr ++ high :: low :: leftover) ∧ front.length = addrStart ∧
      addr.length = addrLen := by
  have more : 2 ≤ (inbuf.drop (addrStart + addrLen)).length := by
    rw [List.length_drop]
    omega
  match port : inbuf.drop (addrStart + addrLen),more with
  | high :: low :: leftover,_ =>
    refine ⟨inbuf.take addrStart,(inbuf.drop addrStart).take addrLen,high,low,leftover,?_,?_,?_⟩
    · rw [← port,← List.drop_drop,List.take_append_drop,List.take_append_drop]
    · rw [List.length_take]
      omega
    · rw [List.length_take,List.length_drop]
      omega

/-- The state of the parser for a buffer that goes on. -/
def more (c : SocksConn) (v : Bytes) : SocksConn := { c with inbuf := c.inbuf ++ v }

theorem parseAddress_cases (c : SocksConn) (cmd atyp : UInt8) (addrLen addrStart : Nat) :
    (c.parseAddress cmd atyp addrLen addrStart = (false,c) ∧ c.inbuf.length < addrStart + addrLen + 2) ∨
    (∃ rep, ∀ v, (c.more v).parseAddress cmd atyp addrLen addrStart = (true,(c.more v).failSocks5 rep)) ∨
    cmd = 1 ∧ ∃ front addr high low leftover host, c.inbuf = front ++ (addr ++ high :: low :: leftover) ∧
      front.length = addrStart ∧ addr.length = addrLen ∧ hostText atyp addr = some host := by
  by_cases short : c.inbuf.length < addrStart + addrLen + 2
  · exact .inl ⟨if_pos short,short⟩
  · obtain ⟨front,addr,high,low,leftover,inbuf,rfl,rfl⟩ := address_split short
    have full : ∀ v, (c.more v).inbuf = front ++ (addr ++ high :: low :: (leftover ++ v)) := by
      intro v
      simp [more,inbuf]
    right
    by_cases connect : cmd = 1
    · cases text : hostText atyp addr with
      | none =>
        refine .inl ⟨0x01,fun v => ?_⟩
        rw [parseAddress_full (full v),if_neg (not_not_intro connect),text]
      | some host => exact .inr ⟨connect,front,addr,high,low,leftover,host,inbuf,rfl,rfl,text⟩
    · refine .inl ⟨0x07,fun v => ?_⟩
      rw [parseAddress_full (full v),if_pos connect]

/-- The rest of a request is read by the type of its address. -/
theorem parseSocks5Request_address {c : SocksConn} {cmd rsv atyp : UInt8} {before rest : Bytes} {n : Nat}
    (address : Address atyp before n) (inbuf : c.inbuf = 5 :: cmd :: rsv :: atyp :: (before ++ rest)) :
    c.parseSocks5Request = c.parseAddress cmd atyp n (before.length + 4) := by
  unfold parseSocks5Request
  cases address <;> rw [inbuf] <;> rfl

theorem parseSocks5Request_connect {c : SocksConn} {connect leftover : Bytes} {target : String}
    (connects : Connect connect target) (inbuf : c.inbuf = connect ++ leftover) :
    c.parseSocks5Request = (true,c.grantSocks5 target leftover) := by
  obtain ⟨address,text⟩ := connects
  rename_i atyp rsv high low before addr host
  have full : c.inbuf = (5 :: 1 :: rsv :: atyp :: before) ++ (addr ++ high :: low :: leftover) := by simp [inbuf]
  have parsed := parseAddress_full full 1 atyp
  rw [if_neg (not_not_intro rfl),text] at parsed
  exact (parseSocks5Request_address address full).trans parsed

/-- A request that is not all there is shorter than the longest; else it is refused whatever
follows, or it is granted. -/
def Read5 (c : SocksConn) : Prop :=
  (c.parseSocks5Request = (false,c) ∧ c.inbuf.length < 262) ∨
  (∃ rep, ∀ v, (c.more v).parseSocks5Request = (true,(c.more v).failSocks5 rep)) ∨
  (∃ connect target leftover, Connect connect target ∧ c.inbuf = connect ++ leftover)

theorem read5_address {c : SocksConn} {cmd rsv atyp : UInt8} {before rest : Bytes} {n : Nat} (address : Address atyp before n)
    (inbuf : c.inbuf = 5 :: cmd :: rsv :: atyp :: (before ++ rest)) : c.Read5 := by
  have reads (v : Bytes) : (c.more v).parseSocks5Request = (c.more v).parseAddress cmd atyp n (before.length + 4) :=
    @parseSocks5Request_address (c.more v) cmd rsv atyp before (rest ++ v) n address (by simp [more,inbuf])
  rcases parseAddress_cases c cmd atyp n (before.length + 4) with ⟨waits,short⟩ | ⟨rep,refused⟩ |
    ⟨rfl,front,addr,high,low,leftover,host,whole,start,rfl,text⟩
  · have bound := address.length_le
    exact .inl ⟨(parseSocks5Request_address address inbuf).trans waits,by omega⟩
  · exact .inr (.inl ⟨rep,fun v => (reads v).trans (refused v)⟩)
  · have parts := whole.symm.trans inbuf
    rw [show 5 :: 1 :: rsv :: atyp :: (before ++ rest) = (5 :: 1 :: rsv :: atyp :: before) ++ rest from rfl] at parts
    obtain ⟨rfl,_⟩ := List.append_inj parts (by simp [start])
    have connects : Connect _ (targetText atyp host high low) := @Connect.mk _ rsv high low _ _ _ address text
    exact .inr (.inr ⟨_,_,leftover,connects,by simp [whole]⟩)

theorem parseSocks5Request_cases (c : SocksConn) : c.Read5 := by
  rcases inbuf : c.inbuf with _ | ⟨ver,_ | ⟨cmd,_ | ⟨rsv,_ | ⟨atyp,rest⟩⟩⟩⟩
  case cons.cons.cons.cons =>
    have goes (v : Bytes) : (c.more v).inbuf = ver :: cmd :: rsv :: atyp :: (rest ++ v) := by simp [more,inbuf]
    by_cases known : ver = 5
    · subst known
      by_cases v4 : atyp = 1
      · subst v4
        exact read5_address .v4 inbuf
      by_cases v6 : atyp = 4
      · subst v6
        exact read5_address .v6 inbuf
      by_cases domain : atyp = 3
      · subst domain
        cases rest with
        | nil =>
          refine .inl ⟨?_,by simp [inbuf]⟩
          unfold parseSocks5Request
          rw [inbuf]
          rfl
        | cons len rest => exact read5_address (.domain len) inbuf
      · refine .inr (.inl ⟨0x08,fun v => ?_⟩)
        unfold parseSocks5Request
        rw [goes v]
        simp [v4,v6,domain]
    · refine .inr (.inl ⟨0x01,fun v => ?_⟩)
      unfold parseSocks5Request
      rw [goes v]
      exact if_pos known
  all_goals
    refine .inl ⟨?_,by simp [inbuf]⟩
    unfold parseSocks5Request
    rw [inbuf]

theorem findIdx?_nul {uid after : Bytes} (ended : 0 ∉ uid) : (uid ++ 0 :: after).findIdx? (· == 0) = some uid.length := by
  have absent : uid.findIdx? (· == 0) = none := by
    rw [List.findIdx?_eq_none_iff]
    intro b member
    simpa using fun same : b = 0 => ended (same ▸ member)
  rw [List.findIdx?_append,absent]
  simp [List.findIdx?_cons]

theorem nul_cases (l : Bytes) : l.findIdx? (· == 0) = none ∨ ∃ uid after, l = uid ++ 0 :: after ∧ 0 ∉ uid := by
  by_cases ended : 0 ∈ l
  · exact .inr (List.eq_append_cons_of_mem ended)
  · refine .inl (List.findIdx?_eq_none_iff.mpr fun b member => ?_)
    simpa using fun same : b = 0 => ended (same ▸ member)

variable {c : SocksConn} {cmd high low i j k l : UInt8} {uid after : Bytes}

/-- The state after a granted SOCKS4 request. -/
def granted4 (c : SocksConn) (high low : UInt8) (ip : Bytes) (host : String) (leftover : Bytes) : SocksConn :=
  { inbuf := leftover, out := c.out ++ ([0x00,0x5a,high,low] ++ ip), phase := .done,
    target := some (host ++ ":" ++ toString (beWord high low)) }

theorem long_enough {rest : Bytes} (inbuf : c.inbuf = 4 :: cmd :: high :: low :: i :: j :: k :: l :: rest)
    (some_ : rest ≠ []) : ¬c.inbuf.length < 9 := by
  have := List.length_pos_iff.mpr some_
  simp only [inbuf,List.length_cons]
  omega

theorem parseSocks4_zero {rest : Bytes} (inbuf : c.inbuf = 4 :: cmd :: high :: low :: 0 :: 0 :: 0 :: 0 :: rest)
    (some_ : rest ≠ []) : c.parseSocks4 = c.failSocks4 := by
  unfold parseSocks4
  rw [if_neg (long_enough inbuf some_),inbuf]
  rfl

theorem parseSocks4_open {rest : Bytes} (inbuf : c.inbuf = 4 :: cmd :: high :: low :: i :: j :: k :: l :: rest)
    (valid : [i,j,k,l] ≠ [0,0,0,0]) (unended : rest.findIdx? (· == 0) = none) : c.parseSocks4 = c := by
  unfold parseSocks4
  split
  · rfl
  · rw [inbuf]
    simp only [if_neg valid,unended]

theorem parseSocks4_plain (inbuf : c.inbuf = 4 :: cmd :: high :: low :: i :: j :: k :: l :: (uid ++ 0 :: after))
    (valid : [i,j,k,l] ≠ [0,0,0,0]) (plain : ¬(i = 0 ∧ j = 0 ∧ k = 0 ∧ l ≠ 0)) (ended : 0 ∉ uid) :
    c.parseSocks4 = if cmd ≠ 1 then c.failSocks4 else c.granted4 high low [i,j,k,l] (dotted [i,j,k,l]) after := by
  have enough := long_enough inbuf (by simp)
  have rest : c.inbuf.drop (uid.length + 8 + 1) = after := by simp [inbuf]
  unfold parseSocks4
  rw [if_neg enough]
  simp only [inbuf]
  rw [if_neg valid,findIdx?_nul ended]
  dsimp only
  rw [if_neg plain]
  unfold grantSocks4
  rw [rest]
  rfl

theorem parseSocks4_named {rest : Bytes} (inbuf : c.inbuf = 4 :: cmd :: high :: low :: 0 :: 0 :: 0 :: l :: (uid ++ 0 :: rest))
    (named : l ≠ 0) (ended : 0 ∉ uid) : c.parseSocks4 =
      match rest.findIdx? (· == 0) with
      | none => c
      | some n => match fromUtf8 (rest.take n) with
        | none => c.failSocks4
        | some host => if cmd ≠ 1 then c.failSocks4 else c.granted4 high low [0,0,0,l] host (rest.drop (n + 1)) := by
  have after : c.inbuf.drop (uid.length + 8 + 1) = rest := by simp [inbuf]
  have name (n : Nat) : (c.inbuf.take (n + (uid.length + 8 + 1))).drop (uid.length + 8 + 1) = rest.take n := by
    rw [List.drop_take,after,Nat.add_sub_cancel]
  have left (n : Nat) : c.inbuf.drop (n + (uid.length + 8 + 1) + 1) = rest.drop (n + 1) := by
    rw [← after,List.drop_drop]
    congr 1
    omega
  unfold parseSocks4
  rw [if_neg (long_enough inbuf (by simp))]
  split
  · rename_i _ cmd' high' low' i' j' k' l' rest' inbuf'
    rw [inbuf'] at inbuf
    cases inbuf
    rw [if_neg (by simpa using named),findIdx?_nul ended]
    dsimp only
    rw [if_pos ⟨rfl,rfl,rfl,named⟩,after]
    cases rest.findIdx? (· == 0) with
    | none => rfl
    | some n =>
      dsimp only
      rw [name]
      cases fromUtf8 (rest.take n) with
      | none => rfl
      | some host =>
        dsimp only
        unfold grantSocks4
        rw [left]
        rfl
  · rename_i other
    exact absurd inbuf (other _ _ _ _ _ _ _ _ _)

/-- As for SOCKS5; what is open may be of any length. -/
def Read4 (c : SocksConn) : Prop :=
  c.parseSocks4 = c ∨ (∀ v, (c.more v).parseSocks4 = (c.more v).failSocks4) ∨
  ∃ request target reply leftover, Request request target reply ∧ c.inbuf = request ++ leftover

theorem read4_plain (inbuf : c.inbuf = 4 :: cmd :: high :: low :: i :: j :: k :: l :: (uid ++ 0 :: after))
    (valid : [i,j,k,l] ≠ [0,0,0,0]) (plain : ¬(i = 0 ∧ j = 0 ∧ k = 0 ∧ l ≠ 0)) (ended : 0 ∉ uid) : c.Read4 := by
  by_cases connect : cmd = 1
  · subst connect
    exact .inr (.inr ⟨_,_,_,after,@Request.socks4 high low i j k l uid valid plain ended,by simp [inbuf]⟩)
  · refine .inr (.inl fun v => ?_)
    have parsed := @parseSocks4_plain (c.more v) cmd high low i j k l uid (after ++ v) (by simp [more,inbuf]) valid plain ended
    rwa [if_pos connect] at parsed

theorem read4_named {rest : Bytes} (inbuf : c.inbuf = 4 :: cmd :: high :: low :: 0 :: 0 :: 0 :: l :: (uid ++ 0 :: rest))
    (named : l ≠ 0) (ended : 0 ∉ uid) : c.Read4 := by
  rcases nul_cases rest with unended | ⟨name,leftover,rfl,ended'⟩
  · have parsed := parseSocks4_named inbuf named ended
    rw [unended] at parsed
    exact .inl parsed
  have parsed (v : Bytes) := @parseSocks4_named (c.more v) cmd high low l uid (name ++ 0 :: (leftover ++ v))
    (by simp [more,inbuf]) named ended
  simp only [findIdx?_nul ended',List.take_left] at parsed
  cases text : fromUtf8 name with
  | none =>
    refine .inr (.inl fun v => ?_)
    rw [parsed v,text]
  | some host =>
    by_cases connect : cmd = 1
    · subst connect
      exact .inr (.inr ⟨_,_,_,leftover,@Request.socks4a high low l uid name host named ended ended' text,by simp [inbuf]⟩)
    · refine .inr (.inl fun v => ?_)
      rw [parsed v,text]
      exact if_pos connect

theorem parseSocks4_cases {rest : Bytes} (inbuf : c.inbuf = 4 :: rest) : c.Read4 := by
  by_cases short : c.inbuf.length < 9
  · exact .inl (if_pos short)
  have enough : 8 ≤ rest.length := by
    simp only [inbuf,List.length_cons] at short
    omega
  match rest,enough with
  | cmd :: high :: low :: i :: j :: k :: l :: b :: tail,_ =>
    by_cases zero : [i,j,k,l] = [0,0,0,0]
    · refine .inr (.inl fun v => ?_)
      cases zero
      exact @parseSocks4_zero (c.more v) cmd high low (b :: tail ++ v) (by simp [more,inbuf]) (by simp)
    rcases nul_cases (b :: tail) with unended | ⟨uid,after,whole,ended⟩
    · exact .inl (parseSocks4_open inbuf zero unended)
    rw [whole] at inbuf
    by_cases plain : i = 0 ∧ j = 0 ∧ k = 0 ∧ l ≠ 0
    · obtain ⟨rfl,rfl,rfl,named⟩ := plain
      exact read4_named inbuf named ended
    · exact read4_plain inbuf zero plain ended

theorem parseSocks4_request {request leftover reply : Bytes} {target : String} (asked : Request request target reply)
    (inbuf : c.inbuf = request ++ leftover) (first : request.head? = some 4) :
    c.parseSocks4 = { inbuf := leftover, out := c.out ++ reply, phase := .done, target := some target } := by
  cases asked with
  | socks5 => cases first
  | socks4 valid plain ended =>
    have parsed := @parseSocks4_plain c 1 _ _ _ _ _ _ _ leftover (by simpa using inbuf) valid plain ended
    rwa [if_neg (not_not_intro rfl)] at parsed
  | @socks4a high low l uid name host named ended ended' text =>
    have parsed := @parseSocks4_named c 1 high low l uid (name ++ 0 :: leftover) (by simpa using inbuf) named ended
    rw [findIdx?_nul ended'] at parsed
    simpa [text,granted4] using parsed

/-- The state of a parser that has been given all of the bytes at once. -/
def parsed (u : Bytes) : SocksConn := tryParse { inbuf := u }

theorem parsed_greeting {n : UInt8} {methods : Bytes} (offers : n ≠ 0) (length : methods.length = n.toNat) (rest : Bytes) :
    parsed (5 :: n :: (methods ++ rest)) =
      (parseSocks5Request { inbuf := rest, out := [0x05,0x00], phase := .request }).2 := by
  have whole : ¬(5 :: n :: (methods ++ rest)).length < 2 + n.toNat := by
    simp only [List.length_cons,List.length_append,length]
    omega
  have left : (5 :: n :: (methods ++ rest)).drop (2 + n.toNat) = rest := by
    rw [Nat.add_comm,← length]
    simp
  unfold parsed tryParse parseGreeting
  dsimp only
  rw [if_pos rfl,if_neg offers,if_neg whole,left]
  rfl

theorem parsed_request {request reply : Bytes} {target : String} (asked : Request request target reply) (leftover : Bytes) :
    parsed (request ++ leftover) = { inbuf := leftover, out := reply, phase := .done, target := some target } := by
  cases asked with
  | @socks5 n methods connect _ offers length connects =>
    have request := parsed_greeting offers length (connect ++ leftover)
    rw [parseSocks5Request_connect connects rfl] at request
    simpa [grantSocks5] using request
  | socks4 valid plain ended => exact parseSocks4_request (.socks4 valid plain ended) rfl rfl
  | socks4a named ended ended' text => exact parseSocks4_request (.socks4a named ended ended' text) rfl rfl

/-- What has come so far is the start of a greeting, or a greeting and the start of a request. -/
inductive Waiting (u : Bytes) : Prop where
  | greeting (unread : parsed u = { inbuf := u }) : Waiting u
  | request {n : UInt8} {methods rest : Bytes} (offers : n ≠ 0) (length : methods.length = n.toNat)
      (greeted : u = 5 :: n :: (methods ++ rest))
      (unread : parsed u = { inbuf := rest, out := [0x05,0x00], phase := .request }) (short : rest.length < 262) : Waiting u

/-- The bytes are the start of a request, or are refused whatever follows, or begin with a
request. -/
theorem parsed_cases (u : Bytes) : Waiting u ∨ (∀ v, (parsed (u ++ v)).phase = .failed) ∨
    ∃ request target reply leftover, Request request target reply ∧ u = request ++ leftover := by
  rcases u with _ | ⟨ver,rest⟩
  · exact .inl (.greeting rfl)
  by_cases five : ver = 5
  · subst five
    rcases rest with _ | ⟨n,rest⟩
    · exact .inl (.greeting rfl)
    by_cases none : n = 0
    · subst none
      exact .inr (.inl fun v => rfl)
    by_cases short : rest.length < n.toNat
    · refine .inl (.greeting ?_)
      have part : (5 :: n :: rest).length < 2 + n.toNat := by
        simp only [List.length_cons]
        omega
      unfold parsed tryParse parseGreeting
      dsimp only
      rw [if_pos rfl,if_neg none,if_pos part]
    obtain ⟨methods,rest,rfl,length⟩ : ∃ methods after, rest = methods ++ after ∧ methods.length = n.toNat :=
      ⟨rest.take n.toNat,rest.drop n.toNat,(List.take_append_drop _ _).symm,by rw [List.length_take]; omega⟩
    have greeted := parsed_greeting none length
    rcases parseSocks5Request_cases { inbuf := rest, out := [0x05,0x00], phase := .request } with
      ⟨waits,bound⟩ | ⟨rep,refused⟩ | ⟨connect,target,leftover,connects,whole⟩
    · exact .inl (.request none length rfl (by rw [greeted rest,waits]) bound)
    · refine .inr (.inl fun v => ?_)
      have later := greeted (rest ++ v)
      rw [← List.append_assoc] at later
      rw [List.cons_append,List.cons_append,later]
      exact congrArg (fun r => r.2.phase) (refused v)
    · exact .inr (.inr ⟨_,target,_,leftover,.socks5 none length connects,by simpa using whole⟩)
  by_cases four : ver = 4
  · subst four
    rcases @parseSocks4_cases { inbuf := 4 :: rest } rest rfl with waits | refused | granted
    · exact .inl (.greeting waits)
    · refine .inr (.inl fun v => ?_)
      exact congrArg phase (refused v)
    · exact .inr (.inr granted)
  · refine .inr (.inl fun v => ?_)
    unfold parsed tryParse
    dsimp only [List.cons_append]
    rw [if_neg five,if_neg four]

/-- The state with a reply in front of what is to be sent. -/
def behind (c : SocksConn) (w : Bytes) : SocksConn := { c with out := w ++ c.out }

theorem failSocks5_behind (c : SocksConn) (w : Bytes) (rep : UInt8) :
    (c.behind w).failSocks5 rep = (c.failSocks5 rep).behind w := by
  simp [behind,failSocks5]

/-- The parser does not look at what is to be sent. -/
theorem parseAddress_behind (c : SocksConn) (w : Bytes) (cmd atyp : UInt8) (addrLen addrStart : Nat) :
    ((c.behind w).parseAddress cmd atyp addrLen addrStart).2 = (c.parseAddress cmd atyp addrLen addrStart).2.behind w := by
  have inbuf : (c.behind w).inbuf = c.inbuf := rfl
  unfold parseAddress
  rw [inbuf]
  dsimp only
  split
  · rfl
  split
  · exact failSocks5_behind c w _
  split
  · split
    · exact failSocks5_behind c w _
    · simp [behind]
  · rfl

theorem parseSocks5Request_behind (c : SocksConn) (w : Bytes) :
    (c.behind w).parseSocks5Request.2 = c.parseSocks5Request.2.behind w := by
  have inbuf : (c.behind w).inbuf = c.inbuf := rfl
  unfold parseSocks5Request
  rw [inbuf]
  split
  · split
    · exact failSocks5_behind c w _
    split
    · exact parseAddress_behind c w ..
    split
    · exact parseAddress_behind c w ..
    split
    · split
      · rfl
      · exact parseAddress_behind c w ..
    · exact failSocks5_behind c w _
  · rfl

end SocksConn
end Noissh.Socks

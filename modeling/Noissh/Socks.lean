import Noissh.Control

/-! The SOCKS front end of dynamic forwarding (`src/socks.rs`): a connection is negotiated over
the bytes that have come so far, until the target is known or the client is refused. Writes to
the client take everything. -/
namespace Noissh.Socks

open ControlMsg

/-- The longest buffer that is still parsed. -/
def maxNegotiationBytes : Nat := 600

inductive Phase where
  | greeting
  | request
  | done
  | failed
  deriving DecidableEq, Repr

structure SocksConn where
  inbuf : Bytes := []
  out : Bytes := []
  phase : Phase := .greeting
  target : Option String := none
  deriving DecidableEq, Repr

inductive Progress where
  | pending (conn : SocksConn)
  | connected (target : String) (leftover : Bytes)
  | failed
  deriving DecidableEq, Repr

/-- A number of two bytes, the high one first. -/
def beWord (high low : UInt8) : Nat := high.toNat * 256 + low.toNat

def dotted (addr : Bytes) : String := ".".intercalate (addr.map fun b => toString b.toNat)

def segments : Bytes → List Nat
  | high :: low :: rest => beWord high low :: segments rest
  | _ => []

/-- A run of zero segments. -/
structure Span where
  start : Nat := 0
  len : Nat := 0
  deriving DecidableEq, Repr

/-- The longest run of zeros, the first of its length. -/
def longestZeros (segs : List Nat) : Span :=
  let step := fun ((longest,current) : Span × Span) ((seg,i) : Nat × Nat) =>
    if seg = 0 then
      let current : Span := { start := if current.len = 0 then i else current.start, len := current.len + 1 }
      (if longest.len < current.len then current else longest,current)
    else (longest,{})
  (segs.zipIdx.foldl step ({},{})).1

def hexes (segs : List Nat) : String := ":".intercalate (segs.map fun seg => .ofList (Nat.toDigits 16 seg))

/-- `Ipv6Addr`'s text: an IPv4-mapped address ends in the dotted form, and the longest run of
zeros is left out if it is longer than one. -/
def ipv6Text (addr : Bytes) : String :=
  let segs := segments addr
  if segs.take 6 = [0,0,0,0,0,0xffff] then "::ffff:" ++ dotted (addr.drop 12)
  else
    let zeros := longestZeros segs
    if 1 < zeros.len then hexes (segs.take zeros.start) ++ "::" ++ hexes (segs.drop (zeros.start + zeros.len))
    else hexes segs

example : ipv6Text [0x20,0x01,0x0d,0xb8,0,0,0,0,0,0,0,0,0,0,0,1] = "2001:db8::1" := by decide

/-- The text of the address by its type. -/
def hostText (atyp : UInt8) (addr : Bytes) : Option String :=
  if atyp = 0x01 then some (dotted addr) else if atyp = 0x04 then some (ipv6Text addr) else fromUtf8 addr

namespace SocksConn

/-- A failure reply, after which the connection is dropped. -/
def failSocks5 (c : SocksConn) (rep : UInt8) : SocksConn :=
  { c with out := c.out ++ [0x05,rep,0x00,0x01,0,0,0,0,0,0], phase := .failed }

def failSocks4 (c : SocksConn) : SocksConn := { c with out := c.out ++ [0x00,0x5b,0,0,0,0,0,0], phase := .failed }

/-- The part of a SOCKS5 request that depends on the type of its address. -/
def parseAddress (c : SocksConn) (cmd atyp : UInt8) (addrLen addrStart : Nat) : Bool × SocksConn :=
  let need := addrStart + addrLen + 2
  if c.inbuf.length < need then (false,c)
  else if cmd ≠ 0x01 then (true,c.failSocks5 0x07)
  else match (c.inbuf.drop (addrStart + addrLen)).take 2 with
    | [high,low] =>
      match hostText atyp ((c.inbuf.drop addrStart).take addrLen) with
      | none => (true,c.failSocks5 0x01)
      | some host =>
        let port := toString (beWord high low)
        (true,{ c with
          inbuf := c.inbuf.drop need
          out := c.out ++ [0x05,0x00,0x00,0x01,0,0,0,0,0,0]
          target := some (if atyp = 0x04 then "[" ++ host ++ "]:" ++ port else host ++ ":" ++ port)
          phase := .done })
    | _ => (false,c)

/-- Whether the request is complete. -/
def parseSocks5Request (c : SocksConn) : Bool × SocksConn :=
  match c.inbuf with
  | ver :: cmd :: _ :: atyp :: rest =>
    if ver ≠ 5 then (true,c.failSocks5 0x01)
    else if atyp = 0x01 then c.parseAddress cmd atyp 4 4
    else if atyp = 0x04 then c.parseAddress cmd atyp 16 4
    else if atyp = 0x03 then
      match rest with
      | [] => (false,c)
      | l :: _ => c.parseAddress cmd atyp l.toNat 5
    else (true,c.failSocks5 0x08)
  | _ => (false,c)

/-- The reply grants the request, and the request is taken off. -/
def grantSocks4 (c : SocksConn) (cmd high low : UInt8) (ip : Bytes) (host : String) (consumed : Nat) : SocksConn :=
  if cmd ≠ 0x01 then c.failSocks4
  else { c with
    inbuf := c.inbuf.drop consumed
    out := c.out ++ ([0x00,0x5a,high,low] ++ ip)
    target := some (host ++ ":" ++ toString (beWord high low))
    phase := .done }

def parseSocks4 (c : SocksConn) : SocksConn :=
  if c.inbuf.length < 9 then c
  else match c.inbuf with
  | _ :: cmd :: high :: low :: i :: j :: k :: l :: rest =>
    if [i,j,k,l] = [0,0,0,0] then c.failSocks4
    else match rest.findIdx? (· == 0) with
      | none => c
      | some at_ =>
        let uidNul := at_ + 8
        if i = 0 ∧ j = 0 ∧ k = 0 ∧ l ≠ 0 then
          let hostStart := uidNul + 1
          match (c.inbuf.drop hostStart).findIdx? (· == 0) with
          | none => c
          | some at_ =>
            let hostNul := at_ + hostStart
            match fromUtf8 ((c.inbuf.take hostNul).drop hostStart) with
            | none => c.failSocks4
            | some host => c.grantSocks4 cmd high low [i,j,k,l] host (hostNul + 1)
        else c.grantSocks4 cmd high low [i,j,k,l] (dotted [i,j,k,l]) (uidNul + 1)
  | _ => c

/-- A SOCKS5 greeting and what follows it; of the methods offered none is looked at. -/
def parseGreeting (c : SocksConn) : SocksConn :=
  match c.inbuf with
  | _ :: n :: _ =>
    if n = 0 then { c with phase := .failed }
    else
      let total := 2 + n.toNat
      if c.inbuf.length < total then c
      else
        let c := { c with inbuf := c.inbuf.drop total, out := c.out ++ [0x05,0x00], phase := .request }
        c.parseSocks5Request.2
  | _ => c

/-- The parser's loop. A round that does not return enters a later phase, and after `request` that
is one in which the loop returns. -/
def tryParse (c : SocksConn) : SocksConn :=
  match c.phase with
  | .greeting =>
    match c.inbuf with
    | [] => c
    | ver :: _ =>
      if ver = 5 then c.parseGreeting
      else if ver = 4 then c.parseSocks4
      else { c with phase := .failed }
  | .request => c.parseSocks5Request.2
  | .done => c
  | .failed => c

/-- How the reads of a call end: nothing more for now, the peer gone, or an error. -/
inductive ReadEnd where
  | wouldBlock
  | closed
  | error
  deriving DecidableEq, Repr

/-- One call over the bytes that can be read now: what is written to the client, and the result. -/
def negotiate (c : SocksConn) (batch : Bytes) (ends : ReadEnd) : Bytes × Progress :=
  let sent := c.out
  let c := { c with out := [] }
  if c.phase = .failed then (sent,.failed)
  else if ends ≠ .wouldBlock then (sent,.failed)
  else
    let c := { c with inbuf := c.inbuf ++ batch }
    if maxNegotiationBytes < c.inbuf.length then (sent,.failed)
    else
      let c := c.tryParse
      let sent := sent ++ c.out
      let c := { c with out := [] }
      match c.phase with
      | .failed => (sent,.failed)
      | .done => (sent,.connected (c.target.getD "") c.inbuf)
      | _ => (sent,.pending c)

end SocksConn
end Noissh.Socks

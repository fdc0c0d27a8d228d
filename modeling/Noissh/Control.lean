import Noissh.Wire

/-! Messages of the control channel (`proto/src/control.rs`). -/
namespace Noissh

inductive ControlError where
  | wire (e : WireError)
  | unknown (tag : UInt8)
  | eof
  | badUtf8
  deriving DecidableEq, Repr

inductive ControlMsg where
  | openShell (cols rows : UInt16) (term : String) (agent : Bool)
  | resize (cols rows : UInt16)
  | exit (status : Int)
  | remoteForward (bindPort : UInt16) (target : String)
  | bye
  | serverVersion (version : String)
  deriving DecidableEq, Repr

namespace ControlMsg

open Wire

abbrev Reader (α : Type) := Bytes → Except ControlError (α × Bytes)

def utf8 (s : String) : Bytes := s.toUTF8.data.toList

def fromUtf8 (bytes : Bytes) : Option String := String.fromUTF8? ⟨bytes.toArray⟩

def putStr (s : String) : Bytes := putBytes (utf8 s)

def getVarint : Reader Nat := fun buf => (Wire.getVarint buf).mapError .wire

def getStr : Reader String := fun buf => do
  let (len,buf) ← getVarint buf
  if buf.length < len then .error .eof
  else
    match fromUtf8 (buf.take len) with
    | none => .error .badUtf8
    | some s => .ok (s,buf.drop len)

def encode : ControlMsg → Bytes
  | openShell cols rows term agent =>
    1 :: (putVarint cols.toNat ++ putVarint rows.toNat ++ putStr term ++ [if agent then 1 else 0])
  | resize cols rows => 2 :: (putVarint cols.toNat ++ putVarint rows.toNat)
  | exit status => 3 :: putVarint (zigzag status)
  | remoteForward bindPort target => 6 :: (putVarint bindPort.toNat ++ putStr target)
  | bye => [7]
  | serverVersion version => 8 :: putStr version

/-- Narrow fields keep the low bits of what was sent; bytes after the message are ignored. -/
def decode : Bytes → Except ControlError ControlMsg
  | [] => .error .eof
  | tag :: buf => do
    if tag = 1 then
      let (cols,buf) ← getVarint buf
      let (rows,buf) ← getVarint buf
      let (term,buf) ← getStr buf
      match buf with
      | [] => .error .eof
      | agent :: _ => .ok (openShell (UInt16.ofNat cols) (UInt16.ofNat rows) term (agent != 0))
    else if tag = 2 then
      let (cols,buf) ← getVarint buf
      let (rows,_) ← getVarint buf
      .ok (resize (UInt16.ofNat cols) (UInt16.ofNat rows))
    else if tag = 3 then
      let (status,_) ← getVarint buf
      .ok (exit (toI32 (unzigzag status)))
    else if tag = 6 then
      let (bindPort,buf) ← getVarint buf
      let (target,_) ← getStr buf
      .ok (remoteForward (UInt16.ofNat bindPort) target)
    else if tag = 7 then .ok bye
    else if tag = 8 then
      let (version,_) ← getStr buf
      .ok (serverVersion version)
    else .error (.unknown tag)

end ControlMsg
end Noissh

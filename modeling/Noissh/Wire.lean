import Noissh.Frame

/-! The codec of frames (`wire/src/lib.rs`). A reader takes the bytes not yet read and returns
what is left of them. -/
namespace Noissh

inductive WireError where
  | unexpectedEof
  | unknownFrame (tag : UInt8)
  | varintOverflow
  | badLength
  deriving DecidableEq, Repr

namespace Wire

abbrev Reader (α : Type) := Bytes → Except WireError (α × Bytes)

/-- Append a LEB128 varint, seven bits a byte, low bits first. The fuel is the value itself,
which is more than enough. -/
def putVarintLoop : Nat → Nat → Bytes
  | 0, v => [UInt8.ofNat (v % 128)]
  | fuel + 1, v =>
    if v / 128 = 0 then [UInt8.ofNat (v % 128)]
    else UInt8.ofNat (v % 128 + 128) :: putVarintLoop fuel (v / 128)

def putVarint (v : Nat) : Bytes := putVarintLoop v v

def getVarintLoop (shift result : Nat) : Reader Nat
  | [] => .error .unexpectedEof
  | byte :: rest =>
    if 64 ≤ shift ∨ shift = 63 ∧ byte &&& 0x7e ≠ 0 then .error .varintOverflow
    else
      let result := result ||| (byte &&& 0x7f).toNat <<< shift
      if byte &&& 0x80 = 0 then .ok (result,rest) else getVarintLoop (shift + 7) result rest

def getVarint : Reader Nat := getVarintLoop 0 0

def putBytes (data : Bytes) : Bytes := putVarint data.length ++ data

def getBytes : Reader Bytes := fun buf => do
  let (len,rest) ← getVarint buf
  if rest.length < len then .error .badLength else .ok (rest.take len,rest.drop len)

def getU8 : Reader UInt8
  | [] => .error .unexpectedEof
  | byte :: rest => .ok (byte,rest)

/-- Signed to unsigned, small magnitudes to small values. -/
def zigzag (v : Int) : Nat := if 0 ≤ v then (2 * v).toNat else (-2 * v - 1).toNat

def unzigzag (v : Nat) : Int := if v % 2 = 0 then v / 2 else -(v / 2) - 1

/-- A 64-bit value kept in the low 32 bits of a signed integer (`as i32`). -/
def toI32 (v : Int) : Int := (v + 2 ^ 31) % 2 ^ 32 - 2 ^ 31

end Wire

open Wire

def StreamKind.toU8 : StreamKind → UInt8
  | session => 0
  | forward => 1
  | fileTransfer => 2
  | agent => 3
  | exec => 4

def StreamKind.fromU8 (v : UInt8) : Except WireError StreamKind :=
  if v = 0 then .ok session
  else if v = 1 then .ok forward
  else if v = 2 then .ok fileTransfer
  else if v = 3 then .ok agent
  else if v = 4 then .ok exec
  else .error (.unknownFrame v)

namespace Frame

def encode : Frame → Bytes
  | ack seq => 0x01 :: putVarint seq
  | input offset data => 0x02 :: (putVarint offset ++ putBytes data)
  | stateDiff seq base data => 0x03 :: (putVarint seq ++ putVarint base ++ putBytes data)
  | resize cols rows => 0x04 :: (putVarint cols ++ putVarint rows)
  | ping stamp => 0x05 :: putVarint stamp
  | pong stamp => 0x06 :: putVarint stamp
  | streamOpen id kind metadata => 0x10 :: (putVarint id ++ kind.toU8 :: putBytes metadata)
  | streamData id offset data fin =>
    0x11 :: (putVarint id ++ putVarint offset ++ (if fin then 1 else 0) :: putBytes data)
  | streamAck id upTo window => 0x12 :: (putVarint id ++ putVarint upTo ++ putVarint window)
  | streamClose id status => 0x13 :: (putVarint id ++ putVarint (zigzag status))
  | streamReset id => 0x14 :: putVarint id
  | control data => 0x20 :: putBytes data

/-- The fields after a frame's tag. Narrow fields keep the low bits of what was sent. -/
def decodeBody (tag : UInt8) : Reader Frame := fun buf => do
  if tag = 0x01 then
    let (seq,buf) ← getVarint buf
    .ok (ack seq,buf)
  else if tag = 0x02 then
    let (offset,buf) ← getVarint buf
    let (data,buf) ← getBytes buf
    .ok (input offset data,buf)
  else if tag = 0x03 then
    let (seq,buf) ← getVarint buf
    let (base,buf) ← getVarint buf
    let (data,buf) ← getBytes buf
    .ok (stateDiff seq base data,buf)
  else if tag = 0x04 then
    let (cols,buf) ← getVarint buf
    let (rows,buf) ← getVarint buf
    .ok (resize (cols % 2 ^ 16) (rows % 2 ^ 16),buf)
  else if tag = 0x05 then
    let (stamp,buf) ← getVarint buf
    .ok (ping stamp,buf)
  else if tag = 0x06 then
    let (stamp,buf) ← getVarint buf
    .ok (pong stamp,buf)
  else if tag = 0x10 then
    let (id,buf) ← getVarint buf
    let (byte,buf) ← getU8 buf
    let kind ← StreamKind.fromU8 byte
    let (metadata,buf) ← getBytes buf
    .ok (streamOpen id kind metadata,buf)
  else if tag = 0x11 then
    let (id,buf) ← getVarint buf
    let (offset,buf) ← getVarint buf
    let (fin,buf) ← getU8 buf
    let (data,buf) ← getBytes buf
    .ok (streamData id offset data (fin != 0),buf)
  else if tag = 0x12 then
    let (id,buf) ← getVarint buf
    let (upTo,buf) ← getVarint buf
    let (window,buf) ← getVarint buf
    .ok (streamAck id upTo (window % 2 ^ 32),buf)
  else if tag = 0x13 then
    let (id,buf) ← getVarint buf
    let (status,buf) ← getVarint buf
    .ok (streamClose id (toI32 (unzigzag status)),buf)
  else if tag = 0x14 then
    let (id,buf) ← getVarint buf
    .ok (streamReset id,buf)
  else if tag = 0x20 then
    let (data,buf) ← getBytes buf
    .ok (control data,buf)
  else .error (.unknownFrame tag)

def decode : Reader Frame := fun buf => do
  let (tag,buf) ← getU8 buf
  decodeBody tag buf

end Frame

def encodeFrames (frames : List Frame) : Bytes := frames.flatMap Frame.encode

/-- Every frame takes at least its tag, so that as many attempts as there are bytes are enough. -/
def decodeFramesLoop : Nat → Bytes → Except WireError (List Frame)
  | _, [] => .ok []
  | 0, _ :: _ => .ok []
  | fuel + 1, byte :: rest => do
    let (frame,rest) ← Frame.decode (byte :: rest)
    let frames ← decodeFramesLoop fuel rest
    .ok (frame :: frames)

def decodeFrames (buf : Bytes) : Except WireError (List Frame) := decodeFramesLoop buf.length buf

namespace Wire

theorem putVarintLoop_fuel {fuel v : Nat} (enough : v ≤ fuel) : putVarintLoop fuel v = putVarint v := by
  have any : ∀ f g v, v ≤ f → v ≤ g → putVarintLoop f v = putVarintLoop g v := by
    intro f
    induction f with
    | zero =>
      intro g v le _
      have zero : v = 0 := by omega
      subst zero
      cases g <;> rfl
    | succ f ih =>
      intro g v le ge
      cases g with
      | zero =>
        have zero : v = 0 := by omega
        subst zero
        rfl
      | succ g =>
        simp only [putVarintLoop]
        by_cases last : v / 128 = 0
        · rw [if_pos last,if_pos last]
        · rw [if_neg last,if_neg last,ih g (v / 128) (by omega) (by omega)]
  exact any fuel v v enough (Nat.le_refl v)

theorem putVarint_eq (v : Nat) : putVarint v =
    if v < 128 then [UInt8.ofNat v] else UInt8.ofNat (v % 128 + 128) :: putVarint (v / 128) := by
  by_cases small : v < 128
  · rw [if_pos small]
    cases v with
    | zero => rfl
    | succ v =>
      show putVarintLoop (v + 1) (v + 1) = _
      rw [putVarintLoop,if_pos (by omega),Nat.mod_eq_of_lt small]
  · rw [if_neg small]
    obtain ⟨fuel,rfl⟩ : ∃ fuel, v = fuel + 1 := ⟨v - 1,by omega⟩
    show putVarintLoop (fuel + 1) (fuel + 1) = _
    rw [putVarintLoop,if_neg (by omega),putVarintLoop_fuel (by omega)]

section Bits

variable {byte : UInt8}

theorem and_0x7f (byte : UInt8) : (byte &&& 0x7f).toNat = byte.toNat % 128 := by
  rw [UInt8.toNat_and]
  exact Nat.and_two_pow_sub_one_eq_mod byte.toNat 7

theorem and_0x80 (byte : UInt8) : byte &&& 0x80 = 0 ↔ byte.toNat < 128 := by
  have all : ∀ n < 256, UInt8.ofNat n &&& 0x80 = 0 ↔ n < 128 := by decide +kernel
  have here := all byte.toNat byte.toNat_lt
  rwa [UInt8.ofNat_toNat] at here

theorem and_0x7e (byte : UInt8) : byte &&& 0x7e = 0 ↔ byte.toNat % 128 < 2 := by
  have all : ∀ n < 256, UInt8.ofNat n &&& 0x7e = 0 ↔ n % 128 < 2 := by decide +kernel
  have here := all byte.toNat byte.toNat_lt
  rwa [UInt8.ofNat_toNat] at here

end Bits

/-- One byte of a varint, in arithmetic. -/
theorem getVarintLoop_cons {shift result : Nat} (fits : result < 2 ^ shift) (byte : UInt8) (rest : Bytes) :
    getVarintLoop shift result (byte :: rest) =
      if 64 ≤ shift ∨ shift = 63 ∧ 2 ≤ byte.toNat % 128 then .error .varintOverflow
      else if byte.toNat < 128 then .ok (result + byte.toNat % 128 * 2 ^ shift,rest)
      else getVarintLoop (shift + 7) (result + byte.toNat % 128 * 2 ^ shift) rest := by
  have sum : result ||| (byte &&& 0x7f).toNat <<< shift = result + byte.toNat % 128 * 2 ^ shift := by
    rw [and_0x7f,Nat.or_comm,← Nat.shiftLeft_add_eq_or_of_lt fits,Nat.shiftLeft_eq,Nat.add_comm]
  have beyond : (64 ≤ shift ∨ shift = 63 ∧ byte &&& 0x7e ≠ 0) ↔ (64 ≤ shift ∨ shift = 63 ∧ 2 ≤ byte.toNat % 128) := by
    rw [ne_eq,and_0x7e,Nat.not_lt]
  rw [getVarintLoop]
  dsimp only
  rw [sum]
  simp only [beyond,and_0x80]

theorem putVarint_ne_nil (v : Nat) : putVarint v ≠ [] := by
  rw [putVarint_eq]
  split <;> simp

/-- What the reader makes of a written varint: the value, or an overflow when it needs more
than 64 bits. -/
theorem getVarintLoop_put {v k result : Nat} (rest : Bytes) (place : k ≤ 9) (fits : result < 2 ^ (7 * k)) :
    getVarintLoop (7 * k) result (putVarint v ++ rest) =
      if v < 2 ^ (64 - 7 * k) then .ok (result + v * 2 ^ (7 * k),rest) else .error .varintOverflow := by
  induction v using Nat.strongRecOn generalizing k result with
  | _ v ih =>
    have wide : k < 9 → 2 ^ (64 - 7 * k) = 128 * 2 ^ (64 - 7 * (k + 1)) := by
      intro early
      rw [show 64 - 7 * k = 7 + (64 - 7 * (k + 1)) by omega,Nat.pow_add]
    have last : k = 9 → 2 ^ (64 - 7 * k) = 2 := by rintro rfl; rfl
    rw [putVarint_eq]
    by_cases small : v < 128
    · have value : (UInt8.ofNat v).toNat = v := by rw [UInt8.toNat_ofNat']; omega
      rw [if_pos small,List.cons_append,List.nil_append,getVarintLoop_cons fits,value,Nat.mod_eq_of_lt small,
        if_pos small]
      by_cases early : k < 9
      · have room := Nat.two_pow_pos (64 - 7 * (k + 1))
        have := wide early
        rw [if_neg (by omega),if_pos (by omega)]
      · have := last (by omega)
        by_cases bit : v < 2
        · rw [if_neg (by omega),if_pos (by omega)]
        · rw [if_pos (by omega),if_neg (by omega)]
    · have value : (UInt8.ofNat (v % 128 + 128)).toNat = v % 128 + 128 := by rw [UInt8.toNat_ofNat']; omega
      rw [if_neg small,List.cons_append,getVarintLoop_cons fits,value]
      rw [show (v % 128 + 128) % 128 = v % 128 by omega,if_neg (show ¬v % 128 + 128 < 128 by omega)]
      by_cases early : k < 9
      · have step : 2 ^ (7 * (k + 1)) = 128 * 2 ^ (7 * k) := by rw [show 7 * (k + 1) = 7 + 7 * k by omega,Nat.pow_add]
        have part : v % 128 * 2 ^ (7 * k) ≤ 127 * 2 ^ (7 * k) := Nat.mul_le_mul_right _ (by omega)
        have next := @ih (v / 128) (by omega) (k + 1) (result + v % 128 * 2 ^ (7 * k)) (by omega) (by omega)
        have split : v / 128 * (128 * 2 ^ (7 * k)) + v % 128 * 2 ^ (7 * k) = v * 2 ^ (7 * k) := by
          rw [← Nat.mul_assoc,← Nat.add_mul]
          congr 1
          omega
        have := wide early
        rw [if_neg (by omega),show 7 * k + 7 = 7 * (k + 1) by omega,next,step]
        by_cases bound : v < 2 ^ (64 - 7 * k)
        · rw [if_pos (by omega),if_pos bound]
          congr 2
          omega
        · rw [if_neg (by omega),if_neg bound]
      · have := last (by omega)
        rw [if_neg (show ¬v < 2 ^ (64 - 7 * k) by omega)]
        by_cases bit : 2 ≤ v % 128
        · rw [if_pos (by omega)]
        · rw [if_neg (by omega)]
          -- The continuation byte is already the tenth.
          obtain ⟨byte,more,eq⟩ := List.exists_cons_of_ne_nil (putVarint_ne_nil (v / 128))
          rw [eq,List.cons_append,getVarintLoop,if_pos (by omega)]

theorem getVarint_put (v : Nat) (rest : Bytes) :
    getVarint (putVarint v ++ rest) = if v < 2 ^ 64 then .ok (v,rest) else .error .varintOverflow := by
  have here := @getVarintLoop_put v 0 0 rest (by omega) (by omega)
  simpa [getVarint] using here

end Wire
end Noissh

import Mathlib.Data.UInt
import Noissh.WireSpec
import Noissh.XferRequest

/-! All that the two sides exchange is decoded to what was encoded: frames, one after another
with nothing between them, control messages, and requests for a transfer. -/
namespace Noissh

namespace ControlMsg

open Wire

/-- A status is a 32-bit integer, and a text has a 64-bit length. -/
def Typed : ControlMsg → Prop
  | .openShell _ _ term _ => (utf8 term).length < 2 ^ 64
  | .resize _ _ => True
  | .exit status => -2 ^ 31 ≤ status ∧ status < 2 ^ 31
  | .remoteForward _ target => (utf8 target).length < 2 ^ 64
  | .bye => True
  | .serverVersion version => (utf8 version).length < 2 ^ 64

theorem getVarint_put {v : Nat} (typed : v < 2 ^ 64) (rest : Bytes) : getVarint (putVarint v ++ rest) = .ok (v,rest) := by
  rw [getVarint,getVarint_typed typed]
  rfl

theorem getVarint_u16 (v : UInt16) (rest : Bytes) : getVarint (putVarint v.toNat ++ rest) = .ok (v.toNat,rest) :=
  getVarint_put (Nat.lt_trans v.toNat_lt (by decide)) rest

theorem getStr_put {s : String} (typed : (utf8 s).length < 2 ^ 64) (rest : Bytes) :
    getStr (putStr s ++ rest) = .ok (s,rest) := by
  have room : ¬(utf8 s ++ rest).length < (utf8 s).length := by rw [List.length_append]; omega
  rw [getStr,putStr,putBytes,List.append_assoc,getVarint_put typed]
  change (if (utf8 s ++ rest).length < (utf8 s).length then _ else _) = _
  rw [if_neg room,List.take_left,List.drop_left,XferRequest.fromUtf8_utf8]

theorem decode_encode {msg : ControlMsg} (typed : msg.Typed) : decode msg.encode = .ok msg := by
  cases msg with
  | openShell cols rows term agent =>
    have colsHere := getVarint_u16 cols (putVarint rows.toNat ++ (putStr term ++ [if agent then 1 else 0]))
    have rowsHere := getVarint_u16 rows (putStr term ++ [if agent then 1 else 0])
    have termHere := getStr_put typed [if agent then 1 else 0]
    cases agent <;> simp_all [encode,decode,bind,Except.bind]
  | resize cols rows =>
    have colsHere := getVarint_u16 cols (putVarint rows.toNat)
    have rowsHere := getVarint_u16 rows []
    rw [List.append_nil] at rowsHere
    simp [encode,decode,bind,Except.bind,colsHere,rowsHere]
  | exit status =>
    have there := getVarint_put (zigzag_lt typed.1 typed.2) []
    have back := toI32_unzigzag typed.1 typed.2
    rw [List.append_nil] at there
    simp [encode,decode,bind,Except.bind,there,back]
  | remoteForward bindPort target =>
    have portHere := getVarint_u16 bindPort (putStr target)
    have targetHere := getStr_put typed []
    rw [List.append_nil] at targetHere
    simp [encode,decode,bind,Except.bind,portHere,targetHere]
  | bye => rfl
  | serverVersion version =>
    have versionHere := getStr_put typed []
    rw [List.append_nil] at versionHere
    simp [encode,decode,bind,Except.bind,versionHere]

end ControlMsg

/-- Every list of frames, every control message and every request with a path comes back as it
was, and frames are encoded one after another. -/
theorem codecs_round_trip :
    (∀ frames : List Frame, (∀ frame ∈ frames, frame.Typed) → decodeFrames (encodeFrames frames) = .ok frames) ∧
    (∀ first second : List Frame, encodeFrames (first ++ second) = encodeFrames first ++ encodeFrames second) ∧
    (∀ msg : ControlMsg, msg.Typed → ControlMsg.decode msg.encode = .ok msg) ∧
    ∀ request : XferRequest, request.path ≠ "" → XferRequest.parse request.encode = some request := by
  refine ⟨fun frames typed => decodeFrames_encode typed,fun first second => List.flatMap_append,
    fun msg typed => ControlMsg.decode_encode typed,fun request named => ?_⟩
  rw [XferRequest.parse_encode,if_neg]
  rw [String.isEmpty_iff]
  exact named

/-- The widest values of several fields. -/
theorem codecs_round_trip_widest :
    decodeFrames (encodeFrames [.streamClose (2 ^ 64 - 1) (-2 ^ 31),.input (2 ^ 64 - 1) [],.resize 65535 0]) =
      .ok [.streamClose (2 ^ 64 - 1) (-2 ^ 31),.input (2 ^ 64 - 1) [],.resize 65535 0] ∧
    ControlMsg.decode (ControlMsg.exit (-2 ^ 31)).encode = .ok (.exit (-2 ^ 31)) ∧
    XferRequest.parse (XferRequest.put "a b" (2 ^ 64 - 1)).encode = some (.put "a b" (2 ^ 64 - 1)) :=
  ⟨codecs_round_trip.1 _ (by decide),codecs_round_trip.2.2.1 _ ⟨by decide,by decide⟩,codecs_round_trip.2.2.2 _ (by decide)⟩

end Noissh

import Noissh.Wire

/-! What is encoded is what is decoded, for every list of frames whose fields have the widths
of the source's types. -/
namespace Noissh

open Wire

/-- The fields are values of the source's integer types, and data has a 64-bit length. -/
def Frame.Typed : Frame → Prop
  | .ack seq => seq < 2 ^ 64
  | .input offset data => offset < 2 ^ 64 ∧ data.length < 2 ^ 64
  | .stateDiff seq base data => seq < 2 ^ 64 ∧ base < 2 ^ 64 ∧ data.length < 2 ^ 64
  | .resize cols rows => cols < 2 ^ 16 ∧ rows < 2 ^ 16
  | .ping stamp => stamp < 2 ^ 64
  | .pong stamp => stamp < 2 ^ 64
  | .streamOpen id _ metadata => id < 2 ^ 64 ∧ metadata.length < 2 ^ 64
  | .streamData id offset data _ => id < 2 ^ 64 ∧ offset < 2 ^ 64 ∧ data.length < 2 ^ 64
  | .streamAck id upTo window => id < 2 ^ 64 ∧ upTo < 2 ^ 64 ∧ window < 2 ^ 32
  | .streamClose id status => id < 2 ^ 64 ∧ -2 ^ 31 ≤ status ∧ status < 2 ^ 31
  | .streamReset id => id < 2 ^ 64
  | .control data => data.length < 2 ^ 64

instance Frame.typedDecidable : DecidablePred Frame.Typed
  | .ack _ | .ping _ | .pong _ | .streamReset _ | .control _ => Nat.decLt _ _
  | .input _ _ | .stateDiff _ _ _ | .resize _ _ => instDecidableAnd
  | .streamOpen _ _ _ | .streamData _ _ _ _ | .streamAck _ _ _ | .streamClose _ _ => instDecidableAnd

namespace Wire

theorem getVarint_typed {v : Nat} (typed : v < 2 ^ 64) (rest : Bytes) : getVarint (putVarint v ++ rest) = .ok (v,rest) := by
  rw [getVarint_put,if_pos typed]

theorem getBytes_put {data : Bytes} (typed : data.length < 2 ^ 64) (rest : Bytes) :
    getBytes (putBytes data ++ rest) = .ok (data,rest) := by
  have room : ¬(data ++ rest).length < data.length := by rw [List.length_append]; omega
  rw [getBytes,putBytes,List.append_assoc,getVarint_typed typed]
  change (if (data ++ rest).length < data.length then _ else _) = _
  rw [if_neg room,List.take_left,List.drop_left]

theorem zigzag_lt {v : Int} (low : -2 ^ 31 ≤ v) (high : v < 2 ^ 31) : zigzag v < 2 ^ 64 := by
  unfold zigzag
  split <;> omega

theorem toI32_unzigzag {v : Int} (low : -2 ^ 31 ≤ v) (high : v < 2 ^ 31) : toI32 (unzigzag (zigzag v)) = v := by
  have same : unzigzag (zigzag v) = v := by
    unfold unzigzag zigzag
    split <;> split <;> omega
  rw [same,toI32]
  omega

/-- Seven bits a byte. -/
theorem putVarint_length {v k : Nat} (fits : v < 128 ^ (k + 1)) : (putVarint v).length ≤ k + 1 := by
  induction k generalizing v with
  | zero =>
    rw [putVarint_eq,if_pos (by simpa using fits)]
    exact Nat.le_refl 1
  | succ k ih =>
    rw [putVarint_eq]
    split
    · exact Nat.le_add_left 1 _
    · rw [Nat.pow_succ] at fits
      rw [List.length_cons]
      exact Nat.succ_le_succ (ih (Nat.div_lt_of_lt_mul (by rw [Nat.mul_comm]; exact fits)))

theorem putVarint_length_typed {v : Nat} (typed : v < 2 ^ 64) : (putVarint v).length ≤ 10 :=
  putVarint_length (Nat.lt_trans typed (by decide))

end Wire

theorem StreamKind.fromU8_toU8 (kind : StreamKind) : StreamKind.fromU8 kind.toU8 = .ok kind := by
  cases kind <;> rfl

/-- Any bytes may follow a frame. -/
theorem Frame.decode_encode {frame : Frame} (typed : frame.Typed) (rest : Bytes) :
    Frame.decode (frame.encode ++ rest) = .ok (frame,rest) := by
  cases frame with
  | ack seq =>
    have seq := getVarint_typed typed rest
    simp [Frame.encode,Frame.decode,decodeBody,getU8,bind,Except.bind,seq]
  | input offset data =>
    have offset := getVarint_typed typed.1 (putBytes data ++ rest)
    have data := getBytes_put typed.2 rest
    simp [Frame.encode,Frame.decode,decodeBody,getU8,bind,Except.bind,offset,data]
  | stateDiff seq base data =>
    have seq := getVarint_typed typed.1 (putVarint base ++ (putBytes data ++ rest))
    have base := getVarint_typed typed.2.1 (putBytes data ++ rest)
    have data := getBytes_put typed.2.2 rest
    simp [Frame.encode,Frame.decode,decodeBody,getU8,bind,Except.bind,seq,base,data]
  | resize cols rows =>
    have colsHere := getVarint_typed (Nat.lt_trans typed.1 (by decide)) (putVarint rows ++ rest)
    have rowsHere := getVarint_typed (Nat.lt_trans typed.2 (by decide)) rest
    have narrowCols : cols < 65536 := typed.1
    have narrowRows : rows < 65536 := typed.2
    simp [Frame.encode,Frame.decode,decodeBody,getU8,bind,Except.bind,colsHere,rowsHere,Nat.mod_eq_of_lt,narrowCols,narrowRows]
  | ping stamp =>
    have stamp := getVarint_typed typed rest
    simp [Frame.encode,Frame.decode,decodeBody,getU8,bind,Except.bind,stamp]
  | pong stamp =>
    have stamp := getVarint_typed typed rest
    simp [Frame.encode,Frame.decode,decodeBody,getU8,bind,Except.bind,stamp]
  | streamOpen id kind metadata =>
    have id := getVarint_typed typed.1 (kind.toU8 :: (putBytes metadata ++ rest))
    have metadata := getBytes_put typed.2 rest
    simp [Frame.encode,Frame.decode,decodeBody,getU8,bind,Except.bind,id,StreamKind.fromU8_toU8,metadata]
  | streamData id offset data fin =>
    have id := getVarint_typed typed.1 (putVarint offset ++ (if fin then 1 else 0) :: (putBytes data ++ rest))
    have offset := getVarint_typed typed.2.1 ((if fin then 1 else 0) :: (putBytes data ++ rest))
    have data := getBytes_put typed.2.2 rest
    cases fin <;> simp_all [Frame.encode,Frame.decode,decodeBody,getU8,bind,Except.bind]
  | streamAck id upTo window =>
    have id := getVarint_typed typed.1 (putVarint upTo ++ (putVarint window ++ rest))
    have upTo := getVarint_typed typed.2.1 (putVarint window ++ rest)
    have windowHere := getVarint_typed (Nat.lt_trans typed.2.2 (by decide)) rest
    have narrow : window < 4294967296 := typed.2.2
    simp [Frame.encode,Frame.decode,decodeBody,getU8,bind,Except.bind,id,upTo,windowHere,Nat.mod_eq_of_lt,narrow]
  | streamClose id status =>
    have id := getVarint_typed typed.1 (putVarint (zigzag status) ++ rest)
    have there := getVarint_typed (zigzag_lt typed.2.1 typed.2.2) rest
    have back := toI32_unzigzag typed.2.1 typed.2.2
    simp [Frame.encode,Frame.decode,decodeBody,getU8,bind,Except.bind,id,there,back]
  | streamReset id =>
    have id := getVarint_typed typed rest
    simp [Frame.encode,Frame.decode,decodeBody,getU8,bind,Except.bind,id]
  | control data =>
    have data := getBytes_put typed rest
    simp [Frame.encode,Frame.decode,decodeBody,getU8,bind,Except.bind,data]

/-- The part of a frame that may be of any length. -/
def Frame.payload : Frame → Bytes
  | .input _ data | .stateDiff _ _ data | .streamData _ _ data _ | .control data => data
  | .streamOpen _ _ metadata => metadata
  | _ => []

/-- Tag, integers and length prefix take few bytes. -/
theorem Frame.encode_length_le {frame : Frame} (typed : frame.Typed) :
    frame.encode.length ≤ frame.payload.length + 32 := by
  have narrow : ∀ {v : Nat}, v < 2 ^ 32 → (putVarint v).length ≤ 10 := fun small =>
    putVarint_length_typed (Nat.lt_trans small (by decide))
  cases frame with
  | ack seq =>
    have := putVarint_length_typed typed
    simp only [Frame.encode,Frame.payload,List.length_cons,List.length_nil]
    omega
  | ping stamp =>
    have := putVarint_length_typed typed
    simp only [Frame.encode,Frame.payload,List.length_cons,List.length_nil]
    omega
  | pong stamp =>
    have := putVarint_length_typed typed
    simp only [Frame.encode,Frame.payload,List.length_cons,List.length_nil]
    omega
  | streamReset id =>
    have := putVarint_length_typed typed
    simp only [Frame.encode,Frame.payload,List.length_cons,List.length_nil]
    omega
  | input offset data =>
    have := putVarint_length_typed typed.1
    have := putVarint_length_typed typed.2
    simp only [Frame.encode,Frame.payload,putBytes,List.length_cons,List.length_append]
    omega
  | stateDiff seq base data =>
    have := putVarint_length_typed typed.1
    have := putVarint_length_typed typed.2.1
    have := putVarint_length_typed typed.2.2
    simp only [Frame.encode,Frame.payload,putBytes,List.length_cons,List.length_append]
    omega
  | resize cols rows =>
    have := narrow (Nat.lt_trans typed.1 (by decide))
    have := narrow (Nat.lt_trans typed.2 (by decide))
    simp only [Frame.encode,Frame.payload,List.length_cons,List.length_append,List.length_nil]
    omega
  | streamOpen id kind metadata =>
    have := putVarint_length_typed typed.1
    have := putVarint_length_typed typed.2
    simp only [Frame.encode,Frame.payload,putBytes,List.length_cons,List.length_append]
    omega
  | streamData id offset data fin =>
    have := putVarint_length_typed typed.1
    have := putVarint_length_typed typed.2.1
    have := putVarint_length_typed typed.2.2
    simp only [Frame.encode,Frame.payload,putBytes,List.length_cons,List.length_append]
    omega
  | streamAck id upTo window =>
    have := putVarint_length_typed typed.1
    have := putVarint_length_typed typed.2.1
    have := narrow typed.2.2
    simp only [Frame.encode,Frame.payload,List.length_cons,List.length_append,List.length_nil]
    omega
  | streamClose id status =>
    have := putVarint_length_typed typed.1
    have := putVarint_length_typed (zigzag_lt typed.2.1 typed.2.2)
    simp only [Frame.encode,Frame.payload,List.length_cons,List.length_append,List.length_nil]
    omega
  | control data =>
    have := putVarint_length_typed typed
    simp only [Frame.encode,Frame.payload,putBytes,List.length_cons,List.length_append]
    omega

theorem Frame.encode_ne_nil (frame : Frame) : frame.encode ≠ [] := by
  cases frame <;> simp [Frame.encode]

theorem decodeFramesLoop_encode {frames : List Frame} (typed : ∀ frame ∈ frames, frame.Typed) {fuel : Nat}
    (enough : (encodeFrames frames).length ≤ fuel) : decodeFramesLoop fuel (encodeFrames frames) = .ok frames := by
  induction frames generalizing fuel with
  | nil => cases fuel <;> rfl
  | cons frame frames ih =>
    obtain ⟨byte,more,split⟩ := List.exists_cons_of_ne_nil frame.encode_ne_nil
    have whole : encodeFrames (frame :: frames) = frame.encode ++ encodeFrames frames := rfl
    have length := congrArg List.length split
    rw [whole,List.length_append] at enough
    rw [List.length_cons] at length
    obtain ⟨fuel,rfl⟩ : ∃ n, fuel = n + 1 := ⟨fuel - 1,by omega⟩
    have first := Frame.decode_encode (typed frame (.head _)) (encodeFrames frames)
    rw [whole]
    rw [split,List.cons_append] at first ⊢
    rw [decodeFramesLoop,first]
    change (decodeFramesLoop fuel (encodeFrames frames) >>= _) = _
    rw [ih (fun other member => typed other (.tail _ member)) (by omega)]
    rfl

theorem decodeFrames_encode {frames : List Frame} (typed : ∀ frame ∈ frames, frame.Typed) :
    decodeFrames (encodeFrames frames) = .ok frames := decodeFramesLoop_encode typed (Nat.le_refl _)

end Noissh

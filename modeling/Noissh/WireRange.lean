import Noissh.Codecs
import Mathlib.Tactic.ByContra

/-! What the decoders make of numbers too wide for their fields. A layout says which fields follow
a tag; reading a buffer by it gives the numbers as they stand on the wire, to compare with those
of the frames and messages decoded. -/
namespace Noissh

open Wire

namespace Wire

/-- How a field is written, and how wide it is once decoded. -/
inductive Field where
  | u64
  | u32
  | u16
  | i32
  | byte
  | bytes
  deriving DecidableEq, Repr

namespace Field

/-- The values the decoded field can hold. -/
def Holds : Field → Int → Prop
  | u32, v => 0 ≤ v ∧ v < 2 ^ 32
  | u16, v => 0 ≤ v ∧ v < 2 ^ 16
  | i32, v => -2 ^ 31 ≤ v ∧ v < 2 ^ 31
  | _, _ => True

instance : (field : Field) → (v : Int) → Decidable (field.Holds v)
  | u64, _ => inferInstanceAs (Decidable True)
  | u32, v => inferInstanceAs (Decidable (0 ≤ v ∧ v < 2 ^ 32))
  | u16, v => inferInstanceAs (Decidable (0 ≤ v ∧ v < 2 ^ 16))
  | i32, v => inferInstanceAs (Decidable (-2 ^ 31 ≤ v ∧ v < 2 ^ 31))
  | byte, _ => inferInstanceAs (Decidable True)
  | bytes, _ => inferInstanceAs (Decidable True)

/-- What the cast to the field's type keeps. -/
def narrow : Field → Int → Int
  | u32, v => v % 2 ^ 32
  | u16, v => v % 2 ^ 16
  | i32, v => toI32 v
  | _, v => v

theorem narrow_eq_iff (field : Field) (v : Int) : field.narrow v = v ↔ field.Holds v := by
  cases field <;> simp only [narrow,Holds,toI32] <;> omega

end Field

/-- The numbers of the fields in the order they are written. -/
def readFields : List Field → Reader (List (Field × Int))
  | [], buf => .ok ([],buf)
  | .byte :: fields, buf => do
    let (_,buf) ← getU8 buf
    readFields fields buf
  | .bytes :: fields, buf => do
    let (_,buf) ← getBytes buf
    readFields fields buf
  | .i32 :: fields, buf => do
    let (v,buf) ← getVarint buf
    let (values,buf) ← readFields fields buf
    .ok ((.i32,unzigzag v) :: values,buf)
  | field :: fields, buf => do
    let (v,buf) ← getVarint buf
    let (values,buf) ← readFields fields buf
    .ok ((field,(v : Int)) :: values,buf)

end Wire

namespace Frame

/-- The fields after a frame's tag. -/
def layout (tag : UInt8) : List Field :=
  if tag = 0x01 then [.u64]
  else if tag = 0x02 then [.u64,.bytes]
  else if tag = 0x03 then [.u64,.u64,.bytes]
  else if tag = 0x04 then [.u16,.u16]
  else if tag = 0x05 then [.u64]
  else if tag = 0x06 then [.u64]
  else if tag = 0x10 then [.u64,.byte,.bytes]
  else if tag = 0x11 then [.u64,.u64,.byte,.bytes]
  else if tag = 0x12 then [.u64,.u64,.u32]
  else if tag = 0x13 then [.u64,.i32]
  else if tag = 0x14 then [.u64]
  else if tag = 0x20 then [.bytes]
  else []

/-- The numeric fields of a frame. -/
def numbers : Frame → List Int
  | ack seq => [seq]
  | input offset _ => [offset]
  | stateDiff seq base _ => [seq,base]
  | resize cols rows => [cols,rows]
  | ping stamp => [stamp]
  | pong stamp => [stamp]
  | streamOpen id _ _ => [id]
  | streamData id offset _ _ => [id,offset]
  | streamAck id upTo window => [id,upTo,window]
  | streamClose id status => [id,status]
  | streamReset id => [id]
  | control _ => []

end Frame

/-- The numbers of all the frames in a buffer; as much fuel as there are bytes. -/
def frameValues : Nat → Bytes → List (Field × Int)
  | _, [] => []
  | 0, _ :: _ => []
  | fuel + 1, tag :: buf =>
    match readFields (Frame.layout tag) buf with
    | .error _ => []
    | .ok (values,rest) => values ++ frameValues fuel rest

namespace ControlMsg

def layout (tag : UInt8) : List Field :=
  if tag = 1 then [.u16,.u16,.bytes,.byte]
  else if tag = 2 then [.u16,.u16]
  else if tag = 3 then [.i32]
  else if tag = 6 then [.u16,.bytes]
  else if tag = 8 then [.bytes]
  else []

def numbers : ControlMsg → List Int
  | openShell cols rows _ _ => [(cols.toNat : Int),(rows.toNat : Int)]
  | resize cols rows => [(cols.toNat : Int),(rows.toNat : Int)]
  | exit status => [status]
  | remoteForward bindPort _ => [(bindPort.toNat : Int)]
  | bye => []
  | serverVersion _ => []

/-- The numbers of a message. -/
def values : Bytes → List (Field × Int)
  | [] => []
  | tag :: buf =>
    match readFields (layout tag) buf with
    | .error _ => []
    | .ok (values,_) => values

end ControlMsg

theorem bind_ok {ε α β : Type} {x : Except ε α} {f : α → Except ε β} {b : β} (done : (x >>= f) = .ok b) :
    ∃ a, x = .ok a ∧ f a = .ok b := by
  cases x with
  | error e => cases done
  | ok a => exact ⟨a,rfl,done⟩

namespace Wire

section Read

variable {fields : List Field} {values : List (Field × Int)} {buf mid rest : Bytes}

theorem readFields_byte {b : UInt8} (read : getU8 buf = .ok (b,mid)) (later : readFields fields mid = .ok (values,rest)) :
    readFields (.byte :: fields) buf = .ok (values,rest) := by
  simp only [readFields,read,bind,Except.bind,later]

theorem readFields_bytes {data : Bytes} (read : getBytes buf = .ok (data,mid))
    (later : readFields fields mid = .ok (values,rest)) : readFields (.bytes :: fields) buf = .ok (values,rest) := by
  simp only [readFields,read,bind,Except.bind,later]

theorem readFields_signed {v : Nat} (read : getVarint buf = .ok (v,mid)) (later : readFields fields mid = .ok (values,rest)) :
    readFields (.i32 :: fields) buf = .ok ((.i32,unzigzag v) :: values,rest) := by
  simp only [readFields,read,bind,Except.bind,later]

theorem readFields_number {field : Field} {v : Nat} (read : getVarint buf = .ok (v,mid))
    (later : readFields fields mid = .ok (values,rest)) (number : field = .u64 ∨ field = .u32 ∨ field = .u16 := by simp) :
    readFields (field :: fields) buf = .ok ((field,(v : Int)) :: values,rest) := by
  rcases number with rfl | rfl | rfl <;> simp only [readFields,read,bind,Except.bind,later]

end Read

end Wire

theorem Frame.decodeBody_tag {tag : UInt8} {buf : Bytes} {out : Frame × Bytes} (decoded : Frame.decodeBody tag buf = .ok out) :
    tag = 0x01 ∨ tag = 0x02 ∨ tag = 0x03 ∨ tag = 0x04 ∨ tag = 0x05 ∨ tag = 0x06 ∨ tag = 0x10 ∨ tag = 0x11 ∨ tag = 0x12 ∨
      tag = 0x13 ∨ tag = 0x14 ∨ tag = 0x20 := by
  by_contra unknown
  simp only [not_or] at unknown
  obtain ⟨n₁,n₂,n₃,n₄,n₅,n₆,n₇,n₈,n₉,n₁₀,n₁₁,n₁₂⟩ := unknown
  unfold Frame.decodeBody at decoded
  rw [if_neg n₁,if_neg n₂,if_neg n₃,if_neg n₄,if_neg n₅,if_neg n₆,if_neg n₇,if_neg n₈,if_neg n₉,if_neg n₁₀,if_neg n₁₁,
    if_neg n₁₂] at decoded
  cases decoded

/-- A frame holds what its fields keep of the numbers on the wire. -/
theorem Frame.decodeBody_numbers {tag : UInt8} {buf rest : Bytes} {frame : Frame}
    (decoded : Frame.decodeBody tag buf = .ok (frame,rest)) :
    ∃ values, readFields (Frame.layout tag) buf = .ok (values,rest) ∧
      frame.numbers = values.map (fun entry => entry.1.narrow entry.2) := by
  rcases Frame.decodeBody_tag decoded with rfl | rfl | rfl | rfl | rfl | rfl | rfl | rfl | rfl | rfl | rfl | rfl
  · obtain ⟨⟨seq,buf₁⟩,first,done⟩ := bind_ok decoded
    cases done
    exact ⟨[(.u64,seq)],readFields_number first rfl,rfl⟩
  · obtain ⟨⟨offset,buf₁⟩,first,decoded⟩ := bind_ok decoded
    obtain ⟨⟨data,buf₂⟩,second,done⟩ := bind_ok decoded
    cases done
    exact ⟨[(.u64,offset)],readFields_number first (readFields_bytes second rfl),rfl⟩
  · obtain ⟨⟨seq,buf₁⟩,first,decoded⟩ := bind_ok decoded
    obtain ⟨⟨base,buf₂⟩,second,decoded⟩ := bind_ok decoded
    obtain ⟨⟨data,buf₃⟩,third,done⟩ := bind_ok decoded
    cases done
    exact ⟨[(.u64,seq),(.u64,base)],readFields_number first (readFields_number second (readFields_bytes third rfl)),rfl⟩
  · obtain ⟨⟨cols,buf₁⟩,first,decoded⟩ := bind_ok decoded
    obtain ⟨⟨rows,buf₂⟩,second,done⟩ := bind_ok decoded
    cases done
    exact ⟨[(.u16,cols),(.u16,rows)],readFields_number first (readFields_number second rfl),rfl⟩
  · obtain ⟨⟨stamp,buf₁⟩,first,done⟩ := bind_ok decoded
    cases done
    exact ⟨[(.u64,stamp)],readFields_number first rfl,rfl⟩
  · obtain ⟨⟨stamp,buf₁⟩,first,done⟩ := bind_ok decoded
    cases done
    exact ⟨[(.u64,stamp)],readFields_number first rfl,rfl⟩
  · obtain ⟨⟨id,buf₁⟩,first,decoded⟩ := bind_ok decoded
    obtain ⟨⟨byte,buf₂⟩,second,decoded⟩ := bind_ok decoded
    obtain ⟨kind,_,decoded⟩ := bind_ok decoded
    obtain ⟨⟨metadata,buf₃⟩,third,done⟩ := bind_ok decoded
    cases done
    exact ⟨[(.u64,id)],readFields_number first (readFields_byte second (readFields_bytes third rfl)),rfl⟩
  · obtain ⟨⟨id,buf₁⟩,first,decoded⟩ := bind_ok decoded
    obtain ⟨⟨offset,buf₂⟩,second,decoded⟩ := bind_ok decoded
    obtain ⟨⟨fin,buf₃⟩,third,decoded⟩ := bind_ok decoded
    obtain ⟨⟨data,buf₄⟩,fourth,done⟩ := bind_ok decoded
    cases done
    exact ⟨[(.u64,id),(.u64,offset)],
      readFields_number first (readFields_number second (readFields_byte third (readFields_bytes fourth rfl))),rfl⟩
  · obtain ⟨⟨id,buf₁⟩,first,decoded⟩ := bind_ok decoded
    obtain ⟨⟨upTo,buf₂⟩,second,decoded⟩ := bind_ok decoded
    obtain ⟨⟨window,buf₃⟩,third,done⟩ := bind_ok decoded
    cases done
    exact ⟨[(.u64,id),(.u64,upTo),(.u32,window)],
      readFields_number first (readFields_number second (readFields_number third rfl)),rfl⟩
  · obtain ⟨⟨id,buf₁⟩,first,decoded⟩ := bind_ok decoded
    obtain ⟨⟨status,buf₂⟩,second,done⟩ := bind_ok decoded
    cases done
    exact ⟨[(.u64,id),(.i32,unzigzag status)],readFields_number first (readFields_signed second rfl),rfl⟩
  · obtain ⟨⟨id,buf₁⟩,first,done⟩ := bind_ok decoded
    cases done
    exact ⟨[(.u64,id)],readFields_number first rfl,rfl⟩
  · obtain ⟨⟨data,buf₁⟩,first,done⟩ := bind_ok decoded
    cases done
    exact ⟨[],readFields_bytes first rfl,rfl⟩

theorem decodeFramesLoop_numbers {fuel : Nat} {buf : Bytes} {frames : List Frame}
    (decoded : decodeFramesLoop fuel buf = .ok frames) :
    frames.flatMap Frame.numbers = (frameValues fuel buf).map (fun entry => entry.1.narrow entry.2) := by
  induction fuel generalizing buf frames with
  | zero => cases buf <;> cases decoded <;> rfl
  | succ fuel ih =>
    cases buf with
    | nil =>
      cases decoded
      rfl
    | cons tag buf =>
      obtain ⟨⟨frame,rest⟩,first,decoded⟩ := bind_ok decoded
      obtain ⟨others,later,done⟩ := bind_ok decoded
      cases done
      obtain ⟨values,read,numbers⟩ := Frame.decodeBody_numbers first
      simp only [frameValues,read,List.flatMap_cons,List.map_append,numbers,ih later]

namespace ControlMsg

theorem getVarint_ok {buf : Bytes} {out : Nat × Bytes} (read : getVarint buf = .ok out) : Wire.getVarint buf = .ok out := by
  unfold getVarint at read
  cases result : Wire.getVarint buf with
  | error e =>
    rw [result] at read
    cases read
  | ok other =>
    rw [result] at read
    cases read
    rfl

theorem getStr_ok {buf rest : Bytes} {s : String} (read : getStr buf = .ok (s,rest)) :
    ∃ data, getBytes buf = .ok (data,rest) := by
  obtain ⟨⟨len,buf₁⟩,first,decoded⟩ := bind_ok read
  dsimp only at decoded
  split at decoded
  · cases decoded
  · rename_i fits
    split at decoded
    · cases decoded
    · cases decoded
      refine ⟨buf₁.take len,?_⟩
      simp only [getBytes,getVarint_ok first,bind,Except.bind,if_neg fits]

theorem decode_tag {tag : UInt8} {buf : Bytes} {msg : ControlMsg} (decoded : decode (tag :: buf) = .ok msg) :
    tag = 1 ∨ tag = 2 ∨ tag = 3 ∨ tag = 6 ∨ tag = 7 ∨ tag = 8 := by
  by_contra unknown
  simp only [not_or] at unknown
  obtain ⟨n₁,n₂,n₃,n₄,n₅,n₆⟩ := unknown
  unfold decode at decoded
  dsimp only at decoded
  rw [if_neg n₁,if_neg n₂,if_neg n₃,if_neg n₄,if_neg n₅,if_neg n₆] at decoded
  cases decoded

/-- A message holds what its fields keep of the numbers on the wire. -/
theorem decode_numbers {buf : Bytes} {msg : ControlMsg} (decoded : decode buf = .ok msg) :
    msg.numbers = (values buf).map (fun entry => entry.1.narrow entry.2) := by
  cases buf with
  | nil => cases decoded
  | cons tag buf =>
    suffices ∃ read rest, readFields (layout tag) buf = .ok (read,rest) ∧
        msg.numbers = read.map (fun entry => entry.1.narrow entry.2) by
      obtain ⟨read,rest,fields,numbers⟩ := this
      simp only [values,fields,numbers]
    rcases decode_tag decoded with rfl | rfl | rfl | rfl | rfl | rfl
    · obtain ⟨⟨cols,buf₁⟩,first,decoded⟩ := bind_ok decoded
      obtain ⟨⟨rows,buf₂⟩,second,decoded⟩ := bind_ok decoded
      obtain ⟨⟨term,buf₃⟩,third,decoded⟩ := bind_ok decoded
      obtain ⟨data,bytes⟩ := getStr_ok third
      cases buf₃ with
      | nil => cases decoded
      | cons agent rest =>
        cases decoded
        exact ⟨[(.u16,cols),(.u16,rows)],rest,readFields_number (getVarint_ok first)
          (readFields_number (getVarint_ok second) (readFields_bytes bytes (readFields_byte rfl rfl))),
            by simp [numbers,Field.narrow]⟩
    · obtain ⟨⟨cols,buf₁⟩,first,decoded⟩ := bind_ok decoded
      obtain ⟨⟨rows,buf₂⟩,second,done⟩ := bind_ok decoded
      cases done
      exact ⟨[(.u16,cols),(.u16,rows)],buf₂,readFields_number (getVarint_ok first)
        (readFields_number (getVarint_ok second) rfl),by simp [numbers,Field.narrow]⟩
    · obtain ⟨⟨status,buf₁⟩,first,done⟩ := bind_ok decoded
      cases done
      exact ⟨[(.i32,unzigzag status)],buf₁,readFields_signed (getVarint_ok first) rfl,rfl⟩
    · obtain ⟨⟨bindPort,buf₁⟩,first,decoded⟩ := bind_ok decoded
      obtain ⟨⟨target,buf₂⟩,second,done⟩ := bind_ok decoded
      obtain ⟨data,bytes⟩ := getStr_ok second
      cases done
      exact ⟨[(.u16,bindPort)],buf₂,readFields_number (getVarint_ok first) (readFields_bytes bytes rfl),
        by simp [numbers,Field.narrow]⟩
    · cases decoded
      exact ⟨[],buf,rfl,rfl⟩
    · obtain ⟨⟨version,buf₁⟩,first,done⟩ := bind_ok decoded
      obtain ⟨data,bytes⟩ := getStr_ok first
      cases done
      exact ⟨[],buf₁,readFields_bytes bytes rfl,rfl⟩

end ControlMsg

theorem narrow_all_iff (entries : List (Field × Int)) :
    entries.map (fun entry => entry.1.narrow entry.2) = entries.map Prod.snd ↔ ∀ entry ∈ entries, entry.1.Holds entry.2 := by
  rw [List.map_inj_left]
  exact forall₂_congr fun entry _ => entry.1.narrow_eq_iff entry.2

/-- Of the buffers the two decoders accept, exactly those whose numbers fit their fields give
back every number as it was sent. -/
theorem numbers_as_sent_iff (buf : Bytes) :
    (∀ frames, decodeFrames buf = .ok frames →
      (frames.flatMap Frame.numbers = (frameValues buf.length buf).map Prod.snd ↔
        ∀ entry ∈ frameValues buf.length buf, entry.1.Holds entry.2)) ∧
    ∀ msg, ControlMsg.decode buf = .ok msg →
      (msg.numbers = (ControlMsg.values buf).map Prod.snd ↔ ∀ entry ∈ ControlMsg.values buf, entry.1.Holds entry.2) := by
  constructor
  · intro frames decoded
    rw [decodeFramesLoop_numbers decoded,narrow_all_iff]
  · intro msg decoded
    rw [ControlMsg.decode_numbers decoded,narrow_all_iff]

/-- Columns written in three bytes where one would do. -/
theorem numbers_as_sent_padded :
    decodeFrames [0x04,0xd0,0x80,0x00,0x18] = .ok [.resize 80 24] ∧
      [Frame.resize 80 24].flatMap Frame.numbers = (frameValues 5 [0x04,0xd0,0x80,0x00,0x18]).map Prod.snd :=
  ⟨by decide +kernel,((numbers_as_sent_iff [0x04,0xd0,0x80,0x00,0x18]).1 _ (by decide +kernel)).mpr (by decide +kernel)⟩

/-- 65537 columns are taken for one, in either codec. -/
theorem number_wrapped :
    decodeFrames [0x04,0x81,0x80,0x04,0x18] = .ok [.resize 1 24] ∧
      [Frame.resize 1 24].flatMap Frame.numbers ≠ (frameValues 5 [0x04,0x81,0x80,0x04,0x18]).map Prod.snd ∧
      ControlMsg.decode [2,0x81,0x80,0x04,0x18] = .ok (.resize 1 24) ∧
      (ControlMsg.resize 1 24).numbers ≠ (ControlMsg.values [2,0x81,0x80,0x04,0x18]).map Prod.snd := by
  decide +kernel

end Noissh

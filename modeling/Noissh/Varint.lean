import Noissh.WireSpec

/-! Varints with the words of the source: a 64-bit accumulator and a cursor into the buffer. They
agree with the writer and the reader of the codec, and what is read is exactly the encodings of at
most ten bytes whose value fits in 64 bits. -/
namespace Noissh
namespace Wire

/-- Append a LEB128 unsigned varint. -/
def putVarintU64 (out : Bytes) (v : UInt64) : Bytes :=
  let byte := (v &&& 0x7f).toUInt8
  if v >>> 7 ≠ 0 then putVarintU64 (out ++ [byte ||| 0x80]) (v >>> 7) else out ++ [byte]
termination_by v.toNat
decreasing_by
  rename_i more
  have positive : (v >>> 7).toNat ≠ 0 := fun zero => more (UInt64.toNat_inj.mp zero)
  simp only [UInt64.toNat_shiftRight,UInt64.reduceToNat,Nat.reduceMod,Nat.shiftRight_eq_div_pow] at positive ⊢
  omega

/-- The loop of `getVarintU64`: what it returns, and where it leaves the cursor. -/
def getVarintU64Loop (buf : Bytes) (shift : Nat) (result : UInt64) (pos : Nat) : Except WireError UInt64 × Nat :=
  match buf[pos]? with
  | none => (.error .unexpectedEof,pos)
  | some byte =>
    if 64 ≤ shift ∨ shift = 63 ∧ byte &&& 0x7e ≠ 0 then (.error .varintOverflow,pos + 1)
    else
      let result := result ||| (byte &&& 0x7f).toUInt64 <<< UInt64.ofNat shift
      if byte &&& 0x80 = 0 then (.ok result,pos + 1) else getVarintU64Loop buf (shift + 7) result (pos + 1)
termination_by 71 - shift

/-- Read a LEB128 unsigned varint, advancing the cursor. -/
def getVarintU64 (buf : Bytes) (pos : Nat) : Except WireError UInt64 × Nat := getVarintU64Loop buf 0 0 pos

theorem and_0x7f_byte (v : UInt64) : (v &&& 0x7f).toUInt8 = UInt8.ofNat (v.toNat % 128) := by
  have mask := Nat.and_two_pow_sub_one_eq_mod v.toNat 7
  apply UInt8.toNat_inj.mp
  rw [UInt64.toNat_toUInt8,UInt64.toNat_and,UInt8.toNat_ofNat']
  change (v.toNat &&& 2 ^ 7 - 1) % 2 ^ 8 = _
  rw [mask]

theorem or_0x80 {n : Nat} (small : n < 128) : UInt8.ofNat n ||| 0x80 = UInt8.ofNat (n + 128) := by
  have all : ∀ n < 128, UInt8.ofNat n ||| 0x80 = UInt8.ofNat (n + 128) := by decide +kernel
  exact all n small

theorem shiftRight_7 (v : UInt64) : (v >>> 7).toNat = v.toNat / 128 := by
  rw [UInt64.toNat_shiftRight]
  exact Nat.shiftRight_eq_div_pow v.toNat 7

theorem putVarintU64_eq (out : Bytes) (v : UInt64) : putVarintU64 out v = out ++ putVarint v.toNat := by
  induction out, v using putVarintU64.induct with
  | case1 out v byte more ih =>
    have rest : v.toNat / 128 ≠ 0 := fun zero => more (UInt64.toNat_inj.mp ((shiftRight_7 v).trans zero))
    have marked : byte ||| 0x80 = UInt8.ofNat (v.toNat % 128 + 128) := by
      rw [show byte = _ from and_0x7f_byte v,or_0x80 (Nat.mod_lt _ (by decide))]
    rw [putVarintU64,if_pos more,ih,shiftRight_7,putVarint_eq v.toNat,if_neg (by omega),List.append_assoc,← marked]
    rfl
  | case2 out v last =>
    have rest : v.toNat / 128 = 0 := by
      rw [← shiftRight_7,not_not.mp last]
      rfl
    rw [putVarintU64,if_neg last,putVarint_eq v.toNat,if_pos (by omega),and_0x7f_byte,Nat.mod_eq_of_lt (by omega)]

/-- The two readers agree: on the error, or on the value and on what is left of the buffer. -/
inductive Agree (buf : Bytes) : Except WireError (Nat × Bytes) → Except WireError UInt64 × Nat → Prop where
  | error (e : WireError) (pos : Nat) : Agree buf (.error e) (.error e,pos)
  | ok {v pos : Nat} : v < 2 ^ 64 → pos ≤ buf.length → Agree buf (.ok (v,buf.drop pos)) (.ok (UInt64.ofNat v),pos)

/-- The bits read so far make room for the next seven. -/
theorem shifted {k result : Nat} (fits : result < 2 ^ (7 * k)) (n : Nat) :
    result + n % 128 * 2 ^ (7 * k) < 2 ^ (7 * (k + 1)) := by
  have part : n % 128 * 2 ^ (7 * k) ≤ 127 * 2 ^ (7 * k) := Nat.mul_le_mul_right _ (by omega)
  rw [Nat.mul_succ,Nat.pow_add]
  omega

/-- No bit is lost while there is room for the byte. -/
theorem accumulate {result : UInt64} {k : Nat} (fits : result.toNat < 2 ^ (7 * k)) {byte : UInt8}
    (room : ¬(64 ≤ 7 * k ∨ 7 * k = 63 ∧ 2 ≤ byte.toNat % 128)) :
    (result ||| (byte &&& 0x7f).toUInt64 <<< UInt64.ofNat (7 * k)).toNat = result.toNat + byte.toNat % 128 * 2 ^ (7 * k) ∧
      result.toNat + byte.toNat % 128 * 2 ^ (7 * k) < 2 ^ 64 := by
  have bits : byte.toNat % 128 < 128 := Nat.mod_lt _ (by decide)
  have word : result.toNat + byte.toNat % 128 * 2 ^ (7 * k) < 2 ^ 64 := by
    by_cases tenth : k = 9
    · subst tenth
      omega
    · have power : 128 * 2 ^ (7 * k) ≤ 2 ^ 63 := by
        rw [show (128 : Nat) = 2 ^ 7 from rfl,← Nat.pow_add]
        exact Nat.pow_le_pow_right (by decide) (by omega)
      have part : byte.toNat % 128 * 2 ^ (7 * k) ≤ 127 * 2 ^ (7 * k) := Nat.mul_le_mul_right _ (by omega)
      omega
  refine ⟨?_,word⟩
  rw [UInt64.toNat_or,UInt64.toNat_shiftLeft,UInt8.toNat_toUInt64,and_0x7f,UInt64.toNat_ofNat']
  rw [Nat.mod_eq_of_lt (show 7 * k < 2 ^ 64 by omega),Nat.mod_eq_of_lt (show 7 * k < 64 by omega)]
  rw [Nat.mod_eq_of_lt (by rw [Nat.shiftLeft_eq]; omega),Nat.or_comm,← Nat.shiftLeft_add_eq_or_of_lt fits,Nat.shiftLeft_eq,
    Nat.add_comm]

theorem getVarintU64Loop_agree {buf rest : Bytes} {pos k : Nat} {result : UInt64} (fits : result.toNat < 2 ^ (7 * k))
    (here : buf.drop pos = rest) :
      Agree buf (getVarintLoop (7 * k) result.toNat rest) (getVarintU64Loop buf (7 * k) result pos) := by
  induction rest generalizing pos k result with
  | nil =>
    have beyond : buf[pos]? = none := List.getElem?_eq_none_iff.mpr (List.drop_eq_nil_iff.mp here)
    rw [getVarintU64Loop,beyond]
    exact .error .unexpectedEof pos
  | cons byte rest ih =>
    have inside : pos < buf.length := by
      by_contra beyond
      rw [List.drop_eq_nil_of_le (Nat.not_lt.mp beyond)] at here
      cases here
    have found : buf[pos]? = some byte := by rw [← Nat.add_zero pos,← List.getElem?_drop,here]; rfl
    have after : buf.drop (pos + 1) = rest := by rw [← List.drop_drop,here]; rfl
    rw [getVarintLoop_cons fits,getVarintU64Loop,found]
    simp only [ne_eq,and_0x7e,and_0x80,Nat.not_lt]
    split
    · exact .error .varintOverflow (pos + 1)
    · rename_i room
      obtain ⟨sum,word⟩ := accumulate fits room
      split
      · have value : result ||| (byte &&& 0x7f).toUInt64 <<< UInt64.ofNat (7 * k) =
            UInt64.ofNat (result.toNat + byte.toNat % 128 * 2 ^ (7 * k)) := by
          rw [← sum,UInt64.ofNat_toNat]
        rw [value,← after]
        exact .ok word inside
      · have next := @ih (pos + 1) (k + 1) _ (sum ▸ shifted fits byte.toNat) after
        rw [sum,Nat.mul_succ] at next
        exact next

theorem getVarintU64_agree (buf : Bytes) (pos : Nat) : Agree buf (getVarint (buf.drop pos)) (getVarintU64 buf pos) :=
  @getVarintU64Loop_agree buf _ pos 0 0 (by decide) rfl

/-- One whole encoding: every byte but the last has the continuation bit. -/
def Terminated (bytes : Bytes) : Prop :=
  ∃ front last, bytes = front ++ [last] ∧ (∀ byte ∈ front, 128 ≤ byte.toNat) ∧ last.toNat < 128

theorem Terminated.ne_nil {bytes : Bytes} (whole : Terminated bytes) : bytes ≠ [] := by
  obtain ⟨front,last,rfl,_⟩ := whole
  exact List.concat_ne_nil last front

/-- The sum of the low seven bits of the bytes, the byte at `i` counting `128 ^ i` times. -/
def value (bytes : Bytes) : Nat := (bytes.mapIdx fun i byte => byte.toNat % 128 * 128 ^ i).sum

theorem sum_scaled (scale : Nat) (l : List Nat) : (l.map (scale * ·)).sum = scale * l.sum := by
  induction l with
  | nil => rfl
  | cons n l ih => rw [List.map_cons,List.sum_cons,List.sum_cons,ih,Nat.mul_add]

theorem value_cons (byte : UInt8) (bytes : Bytes) : value (byte :: bytes) = byte.toNat % 128 + 128 * value bytes := by
  have shifted : (bytes.mapIdx fun i byte => byte.toNat % 128 * 128 ^ (i + 1)) =
      (bytes.mapIdx fun i byte => byte.toNat % 128 * 128 ^ i).map (128 * ·) := by
    refine List.mapIdx_eq_iff.mpr fun i => ?_
    rw [List.getElem?_map,List.getElem?_mapIdx,Option.map_map]
    congr 1
    funext byte
    rw [Function.comp,Nat.pow_succ,Nat.mul_left_comm,Nat.mul_comm 128]
  unfold value
  rw [List.mapIdx_cons,List.sum_cons,shifted,sum_scaled,Nat.pow_zero,Nat.mul_one]

/-- A buffer starts with an encoding or does not end one. -/
theorem terminated_or_endless (buf : Bytes) :
    (∃ bytes rest, buf = bytes ++ rest ∧ Terminated bytes) ∨ ∀ byte ∈ buf, 128 ≤ byte.toNat := by
  induction buf with
  | nil => exact .inr nofun
  | cons byte buf ih =>
    rcases Nat.lt_or_ge byte.toNat 128 with last | more
    · exact .inl ⟨[byte],buf,rfl,[],byte,rfl,nofun,last⟩
    · rcases ih with ⟨_,rest,rfl,front,last,rfl,marked,stops⟩ | endless
      · exact .inl ⟨byte :: (front ++ [last]),rest,rfl,byte :: front,last,rfl,List.forall_mem_cons.mpr ⟨more,marked⟩,stops⟩
      · exact .inr (List.forall_mem_cons.mpr ⟨more,endless⟩)

/-- An encoding is taken when its last byte is at most the tenth and its value fits. -/
theorem getVarintLoop_terminated {front rest : Bytes} {last : UInt8} {k result : Nat} (place : k ≤ 10)
    (fits : result < 2 ^ (7 * k)) (marked : ∀ byte ∈ front, 128 ≤ byte.toNat) (stops : last.toNat < 128) :
    getVarintLoop (7 * k) result (front ++ [last] ++ rest) =
      if k + front.length < 10 ∧ result + value (front ++ [last]) * 2 ^ (7 * k) < 2 ^ 64 then
        .ok (result + value (front ++ [last]) * 2 ^ (7 * k),rest)
      else .error .varintOverflow := by
  induction front generalizing k result with
  | nil =>
    have alone : value [last] = last.toNat % 128 := by rw [value_cons]; rfl
    rw [List.nil_append,List.singleton_append,getVarintLoop_cons fits,alone,if_pos stops,List.length_nil]
    have room : (64 ≤ 7 * k ∨ 7 * k = 63 ∧ 2 ≤ last.toNat % 128) ↔
        ¬(k + 0 < 10 ∧ result + last.toNat % 128 * 2 ^ (7 * k) < 2 ^ 64) := by
      have next := shifted fits last.toNat
      by_cases early : k < 9
      · have power := Nat.pow_le_pow_right (show 0 < 2 by decide) (show 7 * (k + 1) ≤ 63 by omega)
        omega
      · by_cases tenth : k = 9
        · subst tenth
          omega
        · omega
    simp only [room,ite_not]
  | cons byte front ih =>
    have more : ¬byte.toNat < 128 := Nat.not_lt.mpr (marked byte (.head _))
    rw [List.cons_append,List.cons_append,getVarintLoop_cons fits,if_neg more,List.length_cons]
    split
    · rename_i full
      rw [if_neg (by omega)]
    · have next := @ih (k + 1) _ (by omega) (shifted fits byte.toNat) (fun b member => marked b (.tail _ member))
      have sum : result + byte.toNat % 128 * 2 ^ (7 * k) + value (front ++ [last]) * 2 ^ (7 * (k + 1)) =
          result + value (byte :: (front ++ [last])) * 2 ^ (7 * k) := by
        have power : 2 ^ (7 * (k + 1)) = 128 * 2 ^ (7 * k) := by rw [Nat.mul_succ,Nat.pow_add,Nat.mul_comm]
        rw [value_cons,power,Nat.add_mul,Nat.add_assoc,Nat.mul_left_comm,Nat.mul_assoc]
      rw [← Nat.mul_succ,next,sum,show k + 1 + front.length = k + (front.length + 1) by omega]

theorem getVarint_terminated {bytes rest : Bytes} (whole : Terminated bytes) : getVarint (bytes ++ rest) =
    if bytes.length ≤ 10 ∧ value bytes < 2 ^ 64 then .ok (value bytes,rest) else .error .varintOverflow := by
  obtain ⟨front,last,rfl,marked,stops⟩ := whole
  have read := @getVarintLoop_terminated front rest last 0 0 (Nat.zero_le _) (by decide) marked stops
  have length : (front ++ [last]).length = front.length + 1 := List.length_append
  simp only [Nat.mul_zero,Nat.pow_zero,Nat.mul_one,Nat.zero_add,@Nat.lt_iff_add_one_le front.length] at read
  rw [getVarint,length]
  exact read

theorem getVarintLoop_endless {bytes : Bytes} {k result : Nat} (fits : result < 2 ^ (7 * k))
    (endless : ∀ byte ∈ bytes, 128 ≤ byte.toNat) : ∃ e, getVarintLoop (7 * k) result bytes = .error e := by
  induction bytes generalizing k result with
  | nil => exact ⟨_,rfl⟩
  | cons byte bytes ih =>
    rw [getVarintLoop_cons fits,if_neg (Nat.not_lt.mpr (endless byte (.head _)))]
    split
    · exact ⟨_,rfl⟩
    · exact ih (k := k + 1) (shifted fits byte.toNat) (fun b member => endless b (.tail _ member))

/-- The cursor ends behind the bytes that were read. -/
theorem getVarintU64_ok {buf bytes rest : Bytes} {pos v : Nat} (here : buf.drop pos = bytes ++ rest) (some_ : bytes ≠ [])
    (read : getVarint (bytes ++ rest) = .ok (v,rest)) : getVarintU64 buf pos = (.ok (UInt64.ofNat v),pos + bytes.length) := by
  have agree := getVarintU64_agree buf pos
  have lengths := congrArg List.length here
  have positive := List.length_pos_iff.mpr some_
  rw [List.length_drop,List.length_append] at lengths
  rw [here,read] at agree
  generalize getVarintU64 buf pos = out at agree
  generalize left : Except.ok (v,rest) = expected at agree
  cases agree with
  | error e stop => cases left
  | @ok v stop typed inside =>
    cases left
    rw [List.length_drop] at lengths
    rw [show stop = pos + bytes.length by omega]

theorem getVarintU64_error {buf : Bytes} {pos : Nat} {e : WireError} (read : getVarint (buf.drop pos) = .error e) :
    (getVarintU64 buf pos).1 = .error e := by
  have agree := getVarintU64_agree buf pos
  rw [read] at agree
  generalize getVarintU64 buf pos = out at agree
  cases agree
  rfl

/-- What is written is read back, wherever it stands; and of all buffers, what is read is the
value of the encoding at the cursor, in full. Too wide or too long an encoding, and one that the
buffer does not end, are errors. -/
theorem varint_exact :
    (∀ (out : Bytes) (v : UInt64), ∃ written, putVarintU64 out v = out ++ written ∧ written.length ≤ 10 ∧
      ∀ rest, getVarintU64 (putVarintU64 out v ++ rest) out.length = (.ok v,out.length + written.length)) ∧
    ∀ (buf : Bytes) (pos : Nat),
      (∀ v stop, getVarintU64 buf pos = (.ok v,stop) ↔
        ∃ bytes, bytes <+: buf.drop pos ∧ Terminated bytes ∧ bytes.length ≤ 10 ∧ v.toNat = value bytes ∧
          stop = pos + bytes.length) ∧
      (∀ bytes, bytes <+: buf.drop pos → Terminated bytes → 2 ^ 64 ≤ value bytes ∨ 10 < bytes.length →
        (getVarintU64 buf pos).1 = .error .varintOverflow) ∧
      ((∀ byte ∈ buf.drop pos, 128 ≤ byte.toNat) → ∃ e, (getVarintU64 buf pos).1 = .error e) := by
  refine ⟨fun out v => ⟨putVarint v.toNat,putVarintU64_eq out v,putVarint_length_typed v.toNat_lt,fun rest => ?_⟩,
    fun buf pos => ?_⟩
  · have read := getVarint_typed v.toNat_lt rest
    rw [putVarintU64_eq,List.append_assoc,getVarintU64_ok List.drop_left (putVarint_ne_nil v.toNat) read,UInt64.ofNat_toNat]
  · have wide : ∀ bytes, bytes <+: buf.drop pos → Terminated bytes → 2 ^ 64 ≤ value bytes ∨ 10 < bytes.length →
        (getVarintU64 buf pos).1 = .error .varintOverflow := by
      rintro bytes ⟨rest,here⟩ whole large
      apply getVarintU64_error
      rw [← here,getVarint_terminated whole,if_neg (by omega)]
    have endless : (∀ byte ∈ buf.drop pos, 128 ≤ byte.toNat) → ∃ e, (getVarintU64 buf pos).1 = .error e := by
      intro endless
      obtain ⟨e,read⟩ := @getVarintLoop_endless (buf.drop pos) 0 0 (by decide) endless
      exact ⟨e,getVarintU64_error read⟩
    refine ⟨fun v stop => ⟨fun read => ?_,?_⟩,wide,endless⟩
    · rcases terminated_or_endless (buf.drop pos) with ⟨bytes,rest,here,whole⟩ | open_
      · by_cases large : 2 ^ 64 ≤ value bytes ∨ 10 < bytes.length
        · have refused := wide bytes ⟨rest,here.symm⟩ whole large
          rw [read] at refused
          cases refused
        · have small : bytes.length ≤ 10 ∧ value bytes < 2 ^ 64 := by omega
          have taken := getVarintU64_ok here whole.ne_nil (by rw [getVarint_terminated whole,if_pos small])
          rw [read] at taken
          cases taken
          exact ⟨bytes,⟨rest,here.symm⟩,whole,small.1,UInt64.toNat_ofNat_of_lt' small.2,rfl⟩
      · obtain ⟨e,refused⟩ := endless open_
        rw [read] at refused
        cases refused
    · rintro ⟨bytes,⟨rest,here⟩,whole,short,same,rfl⟩
      have small : bytes.length ≤ 10 ∧ value bytes < 2 ^ 64 := ⟨short,same ▸ v.toNat_lt⟩
      have taken := getVarintU64_ok here.symm whole.ne_nil (by rw [getVarint_terminated whole,if_pos small])
      rw [taken,← same,UInt64.ofNat_toNat]

end Wire
end Noissh

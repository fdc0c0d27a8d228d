/-! Base 64 with the standard alphabet and padding. -/
namespace Base64

/-- The digit of a value below 64. -/
def digit (n : Nat) : Char :=
  .ofNat (if n < 26 then 65 + n else if n < 52 then 71 + n else if n < 62 then n - 4 else if n = 62 then 43 else 47)

def value (c : Char) : Option Nat :=
  let n := c.toNat
  if 65 ≤ n ∧ n ≤ 90 then some (n - 65)
  else if 97 ≤ n ∧ n ≤ 122 then some (n - 71)
  else if 48 ≤ n ∧ n ≤ 57 then some (n + 4)
  else if n = 43 then some 62
  else if n = 47 then some 63
  else none

def encode : List UInt8 → List Char
  | [] => []
  | [a] => [digit (a.toNat / 4),digit (a.toNat % 4 * 16),'=','=']
  | [a,b] => [digit (a.toNat / 4),digit (a.toNat % 4 * 16 + b.toNat / 16),digit (b.toNat % 16 * 4),'=']
  | a :: b :: c :: rest =>
    digit (a.toNat / 4) :: digit (a.toNat % 4 * 16 + b.toNat / 16) :: digit (b.toNat % 16 * 4 + c.toNat / 64) ::
      digit (c.toNat % 64) :: encode rest

/-- Groups of four digits; the last may be padded, its spare bits being zero. -/
def decode : List Char → Option (List UInt8)
  | [] => some []
  | [w,x,'=','='] => do
    let w ← value w
    let x ← value x
    if x % 16 = 0 then some [.ofNat (w * 4 + x / 16)] else none
  | [w,x,y,'='] => do
    let w ← value w
    let x ← value x
    let y ← value y
    if y % 4 = 0 then some [.ofNat (w * 4 + x / 16),.ofNat (x % 16 * 16 + y / 4)] else none
  | w :: x :: y :: z :: rest => do
    let w ← value w
    let x ← value x
    let y ← value y
    let z ← value z
    let rest ← decode rest
    some (.ofNat (w * 4 + x / 16) :: .ofNat (x % 16 * 16 + y / 4) :: .ofNat (y % 4 * 64 + z) :: rest)
  | _ => none

theorem value_digit {n : Nat} (small : n < 64) : value (digit n) = some n := by
  have all : ∀ n < 64, value (digit n) = some n := by decide
  exact all n small

theorem digit_ne_pad {n : Nat} (small : n < 64) : digit n ≠ '=' := by
  intro same
  have read := value_digit small
  rw [same] at read
  cases read

variable {w x y z : Nat}

theorem decode_one (w_small : w < 64) (x_small : x < 64) (spare : x % 16 = 0) :
    decode [digit w,digit x,'=','='] = some [.ofNat (w * 4 + x / 16)] := by
  simp [decode,value_digit,w_small,x_small,spare]

theorem decode_two (w_small : w < 64) (x_small : x < 64) (y_small : y < 64) (spare : y % 4 = 0) :
    decode [digit w,digit x,digit y,'='] = some [.ofNat (w * 4 + x / 16),.ofNat (x % 16 * 16 + y / 4)] := by
  simp [decode,value_digit,digit_ne_pad,w_small,x_small,y_small,spare]

theorem decode_three {rest : List Char} (w_small : w < 64) (x_small : x < 64) (y_small : y < 64) (z_small : z < 64) :
    decode (digit w :: digit x :: digit y :: digit z :: rest) = (decode rest).map fun bytes =>
      .ofNat (w * 4 + x / 16) :: .ofNat (x % 16 * 16 + y / 4) :: .ofNat (y % 4 * 64 + z) :: bytes := by
  have full := digit_ne_pad z_small
  rw [decode.eq_4 _ _ _ _ _ (fun _ pad _ => full pad) (fun pad _ => full pad)]
  cases decode rest <;> simp [value_digit,w_small,x_small,y_small,z_small]

theorem decode_encode (bytes : List UInt8) : decode (encode bytes) = some bytes := by
  fun_induction encode bytes with
  | case1 => rfl
  | case2 a =>
    have := a.toNat_lt
    have first : a.toNat / 4 * 4 + a.toNat % 4 * 16 / 16 = a.toNat := by omega
    rw [decode_one (by omega) (by omega) (by omega),first,UInt8.ofNat_toNat]
  | case3 a b =>
    have := a.toNat_lt
    have := b.toNat_lt
    have first : a.toNat / 4 * 4 + (a.toNat % 4 * 16 + b.toNat / 16) / 16 = a.toNat := by omega
    have second : (a.toNat % 4 * 16 + b.toNat / 16) % 16 * 16 + b.toNat % 16 * 4 / 4 = b.toNat := by omega
    rw [decode_two (by omega) (by omega) (by omega) (by omega),first,second,UInt8.ofNat_toNat,UInt8.ofNat_toNat]
  | case4 a b c rest ih =>
    have := a.toNat_lt
    have := b.toNat_lt
    have := c.toNat_lt
    have first : a.toNat / 4 * 4 + (a.toNat % 4 * 16 + b.toNat / 16) / 16 = a.toNat := by omega
    have second : (a.toNat % 4 * 16 + b.toNat / 16) % 16 * 16 + (b.toNat % 16 * 4 + c.toNat / 64) / 4 = b.toNat := by omega
    have third : (b.toNat % 16 * 4 + c.toNat / 64) % 4 * 64 + c.toNat % 64 = c.toNat := by omega
    rw [decode_three (by omega) (by omega) (by omega) (by omega),ih,first,second,third]
    simp

/-- Every letter is a digit or the padding. -/
theorem encode_letter {bytes : List UInt8} {c : Char} (member : c ∈ encode bytes) : (∃ n < 64, c = digit n) ∨ c = '=' := by
  fun_induction encode bytes with
  | case1 => cases member
  | case2 a =>
    have := a.toNat_lt
    simp only [List.mem_cons,List.not_mem_nil,or_false] at member
    rcases member with rfl | rfl | rfl | rfl
    · exact .inl ⟨_,by omega,rfl⟩
    · exact .inl ⟨_,by omega,rfl⟩
    · exact .inr rfl
    · exact .inr rfl
  | case3 a b =>
    have := a.toNat_lt
    have := b.toNat_lt
    simp only [List.mem_cons,List.not_mem_nil,or_false] at member
    rcases member with rfl | rfl | rfl | rfl
    · exact .inl ⟨_,by omega,rfl⟩
    · exact .inl ⟨_,by omega,rfl⟩
    · exact .inl ⟨_,by omega,rfl⟩
    · exact .inr rfl
  | case4 a b c rest ih =>
    have := a.toNat_lt
    have := b.toNat_lt
    have := c.toNat_lt
    simp only [List.mem_cons] at member
    rcases member with rfl | rfl | rfl | rfl | member
    · exact .inl ⟨_,by omega,rfl⟩
    · exact .inl ⟨_,by omega,rfl⟩
    · exact .inl ⟨_,by omega,rfl⟩
    · exact .inl ⟨_,by omega,rfl⟩
    · exact ih member

theorem encode_length (bytes : List UInt8) : (encode bytes).length = (bytes.length + 2) / 3 * 4 := by
  fun_induction encode bytes with
  | case1 => rfl
  | case2 a => simp
  | case3 a b => simp
  | case4 a b c rest ih =>
    simp only [List.length_cons,ih]
    omega

end Base64

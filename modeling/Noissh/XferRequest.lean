import Noissh.Control

/-! The request at the head of a file transfer (`proto/src/xfer.rs`), carried in the metadata
that opens its stream. -/
namespace Noissh

inductive XferRequest where
  | put (path : String) (size : UInt64)
  | get (path : String)
  deriving DecidableEq, Repr

namespace XferRequest

open ControlMsg

/-- The text before and after the first occurrence of a character. -/
def splitOnce (c : Char) : List Char → Option (List Char × List Char)
  | [] => none
  | d :: rest =>
    if d = c then some ([],rest)
    else (splitOnce c rest).map (fun parts => (d :: parts.1,parts.2))

/-- `u64::from_str`: decimal digits, after a plus sign or not. -/
def parseU64 (text : List Char) : Option UInt64 :=
  let digits := match text with
    | '+' :: rest => rest
    | _ => text
  if digits ≠ [] ∧ digits.all Char.isDigit then
    let n := Nat.ofDigitChars 10 digits 0
    if n < UInt64.size then some (UInt64.ofNat n) else none
  else none

/-- The path is what remains, so that it may contain spaces. -/
def encode : XferRequest → Bytes
  | put path size => utf8 ("PUT " ++ toString size.toNat ++ " " ++ path)
  | get path => utf8 ("GET " ++ path)

def parsePut (rest : List Char) : Option XferRequest := do
  let (size,path) ← splitOnce ' ' rest
  let size ← parseU64 size
  if path.isEmpty then none else some (put (.ofList path) size)

def parseGet (path : List Char) : Option XferRequest :=
  if path.isEmpty then none else some (get (.ofList path))

def parse (metadata : Bytes) : Option XferRequest := do
  let text ← fromUtf8 metadata
  match text.toList.dropPrefix? "PUT ".toList with
  | some rest => parsePut rest
  | none =>
    match text.toList.dropPrefix? "GET ".toList with
    | some path => parseGet path
    | none => none

def path : XferRequest → String
  | put path _ => path
  | get path => path

theorem fromUtf8_utf8 (s : String) : fromUtf8 (utf8 s) = some s := by
  have bytes : (⟨(utf8 s).toArray⟩ : ByteArray) = s.toByteArray := by simp [utf8]
  unfold fromUtf8
  rw [bytes,String.fromUTF8?,dif_pos s.isValidUTF8]
  rfl

/-- The text before the first occurrence of the character is cut off whole. -/
theorem splitOnce_append {c : Char} {first : List Char} (without : c ∉ first) (rest : List Char) :
    splitOnce c (first ++ c :: rest) = some (first,rest) := by
  induction first with
  | nil => simp [splitOnce]
  | cons d first ih =>
    rw [List.mem_cons,not_or] at without
    simp [splitOnce,Ne.symm without.1,ih without.2]

theorem digit_of_toDigits {n : Nat} {c : Char} (member : c ∈ Nat.toDigits 10 n) : c.isDigit = true :=
  Nat.isDigit_of_mem_toDigits (by decide) (by decide) member

theorem parseU64_toDigits (size : UInt64) : parseU64 (Nat.toDigits 10 size.toNat) = some size := by
  have digits : ∀ c ∈ Nat.toDigits 10 size.toNat, c.isDigit = true := fun c => digit_of_toDigits
  have unsigned : (match Nat.toDigits 10 size.toNat with
      | '+' :: rest => rest
      | _ => Nat.toDigits 10 size.toNat) = Nat.toDigits 10 size.toNat := by
    split
    · rename_i rest signed
      have plus := digits '+' (by rw [signed]; exact List.mem_cons_self)
      cases plus
    · rfl
  unfold parseU64
  simp only [unsigned]
  rw [if_pos ⟨Nat.toDigits_ne_nil,List.all_eq_true.mpr digits⟩,Nat.ofDigitChars_ten_toDigits,
    if_pos size.toNat_lt,UInt64.ofNat_toNat]

/-- A request is understood as it was meant, unless its path is empty. -/
theorem parse_encode (request : XferRequest) :
    parse request.encode = if request.path.isEmpty then none else some request := by
  have empty : ∀ path : String, path.toList.isEmpty = path.isEmpty := by
    intro path
    rw [Bool.eq_iff_iff,List.isEmpty_iff,String.toList_eq_nil_iff,String.isEmpty_iff]
  cases request with
  | put path size =>
    have spaceless : ' ' ∉ Nat.toDigits 10 size.toNat := fun member => by cases digit_of_toDigits member
    have text : ("PUT " ++ toString size.toNat ++ " " ++ path).toList =
        "PUT ".toList ++ (Nat.toDigits 10 size.toNat ++ ' ' :: path.toList) := by
      simp
    have mine : ∀ rest, ("PUT ".toList ++ rest).dropPrefix? "PUT ".toList = some rest := by simp [List.dropPrefix?]
    unfold parse encode
    rw [fromUtf8_utf8]
    simp only [Option.bind_eq_bind,Option.bind_some,text,mine,parsePut,splitOnce_append spaceless,parseU64_toDigits,
      String.ofList_toList,XferRequest.path]
    exact if_congr (by rw [empty path]) rfl rfl
  | get path =>
    have text : ("GET " ++ path).toList = "GET ".toList ++ path.toList := String.toList_append
    have other : ("GET ".toList ++ path.toList).dropPrefix? "PUT ".toList = none := rfl
    have mine : ("GET ".toList ++ path.toList).dropPrefix? "GET ".toList = some path.toList := by simp [List.dropPrefix?]
    unfold parse encode
    rw [fromUtf8_utf8]
    simp only [Option.bind_eq_bind,Option.bind_some,text,other,mine,parseGet,String.ofList_toList,
      XferRequest.path]
    exact if_congr (by rw [empty path]) rfl rfl

end XferRequest
end Noissh

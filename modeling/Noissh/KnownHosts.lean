import Noissh.Base64
import Noissh.Handshake
import Noissh.Text

/-! The pins of a client as text (`crates/auth/src/lib.rs`): a line for every host, with the key
in base 64 after its type. Lines that cannot be read are skipped. -/
namespace Noissh

open Text

def keyType : List Char := "noissh-x25519".toList

/-- The base 64 engine that the keys are written with. -/
structure Engine where
  encode : Bytes → List Char
  decode : List Char → Option Bytes

/-- What holds of the standard alphabet with padding. -/
structure Engine.Standard (engine : Engine) : Prop where
  inverts : ∀ bytes, engine.decode (engine.encode bytes) = some bytes
  letters : ∀ bytes, ∀ c ∈ engine.encode bytes, c.isAlphanum ∨ c = '+' ∨ c = '/' ∨ c = '='
  length : ∀ bytes, (engine.encode bytes).length = (bytes.length + 2) / 3 * 4

/-- The errors of a key read from text. -/
inductive KeyError where
  | malformedLine
  | badKeyType (type : String)
  | badBase64
  | bytes (e : AuthError)
  deriving DecidableEq, Repr

namespace PublicKey

def fromBase64 (engine : Engine) (b64 : List Char) : Except KeyError PublicKey :=
  match engine.decode (trim b64) with
  | none => .error .badBase64
  | some raw => (fromBytes raw).mapError .bytes

def toBase64 (engine : Engine) (key : PublicKey) : List Char := engine.encode key.bytes

def toText (engine : Engine) (key : PublicKey) : List Char := keyType ++ ' ' :: key.toBase64 engine

/-- The type and the key; what follows is a comment. -/
def fromText (engine : Engine) (line : List Char) : Except KeyError PublicKey :=
  match splitWhitespace line with
  | [] => .error .malformedLine
  | type :: rest =>
    if type ≠ keyType then .error (.badKeyType (.ofList type))
    else match rest with
      | [] => .error .malformedLine
      | b64 :: _ => fromBase64 engine b64

end PublicKey

namespace KnownHosts

/-- The pin on one line, if there is one. -/
def parseLine (engine : Engine) (line : List Char) : Option (String × PublicKey) :=
  let line := trim line
  if line.isEmpty || line.head? == some '#' then none
  else do
    let (host,rest) ← splitOnce isWhitespace line
    match PublicKey.fromText engine (trim rest) with
    | .ok key => some (.ofList host,key)
    | .error _ => none

def parse (engine : Engine) (contents : List Char) : KnownHosts where
  hosts := ((lines contents).filterMap (parseLine engine)).foldl (fun hosts entry => hosts.insert entry.1 entry.2) {}

/-- The line of a pin. -/
def entryLine (engine : Engine) (entry : String × PublicKey) : List Char :=
  entry.1.toList ++ ' ' :: entry.2.toText engine

def toText (engine : Engine) (k : KnownHosts) : List Char :=
  k.hosts.toList.flatMap fun entry => entryLine engine entry ++ ['\n']

/-- The pins of a host under any port. -/
def removeMatching (k : KnownHosts) (host : String) : List String × KnownHosts :=
  let pre := (host ++ ":").toList
  let gone := k.hosts.keys.filter fun label => label == host || pre.isPrefixOf label.toList
  (gone,{ hosts := gone.foldl (fun hosts label => hosts.erase label) k.hosts })

/-- The key of one byte repeated. -/
def sameBytes (b : UInt8) : PublicKey := ⟨List.replicate keyLen b,List.length_replicate⟩

end KnownHosts
end Noissh

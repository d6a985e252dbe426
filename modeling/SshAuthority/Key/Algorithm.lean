import SshAuthority.Text.Utf8
/-!
# Key algorithms

The algorithms a public key may name, and the faults that make a key line unreadable.
-/
namespace SshAuthority.Key

inductive Curve where
  | p256
  | p384
  | p521
  deriving DecidableEq, Repr

def Curve.label : Curve → String
  | .p256 => "nistp256"
  | .p384 => "nistp384"
  | .p521 => "nistp521"

def Curve.ofLabel? : String → Option Curve
  | "nistp256" => some .p256
  | "nistp384" => some .p384
  | "nistp521" => some .p521
  | _ => none

/-- Bytes of one coordinate. -/
def Curve.fieldSize : Curve → Nat
  | .p256 => 32
  | .p384 => 48
  | .p521 => 66

inductive Algorithm where
  | dsa
  | ecdsa (curve : Curve)
  | ed25519
  | rsa
  | skEcdsa
  | skEd25519
  /-- An algorithm of someone's own, `name@domain`. -/
  | custom (name : String)
  deriving DecidableEq, Repr

def Algorithm.name : Algorithm → String
  | .dsa => "ssh-dss"
  | .ecdsa curve => "ecdsa-sha2-" ++ curve.label
  | .ed25519 => "ssh-ed25519"
  | .rsa => "ssh-rsa"
  | .skEcdsa => "sk-ecdsa-sha2-nistp256@openssh.com"
  | .skEd25519 => "sk-ssh-ed25519@openssh.com"
  | .custom name => name

def isCustomName (label : String) : Bool :=
  let cs := label.toList
  let front := cs.takeWhile (· != '@')
  let back := (cs.dropWhile (· != '@')).drop 1
  cs.all (fun c => decide (c.toNat < 0x80)) && decide (cs.length ≤ 64) && !front.isEmpty &&
    !back.isEmpty && !back.contains '@'

/-- Reads a label; the names of the newer RSA signatures stand for RSA keys too. -/
def Algorithm.ofLabel? (label : String) : Option Algorithm :=
  if label = "ssh-dss" then some .dsa
  else if label = "ecdsa-sha2-nistp256" then some (.ecdsa .p256)
  else if label = "ecdsa-sha2-nistp384" then some (.ecdsa .p384)
  else if label = "ecdsa-sha2-nistp521" then some (.ecdsa .p521)
  else if label = "ssh-ed25519" then some .ed25519
  else if label = "ssh-rsa" || label = "rsa-sha2-256" || label = "rsa-sha2-512" then some .rsa
  else if label = "sk-ecdsa-sha2-nistp256@openssh.com" then some .skEcdsa
  else if label = "sk-ssh-ed25519@openssh.com" then some .skEd25519
  else if isCustomName label then some (.custom label)
  else none

/-- Why a key line cannot be read. -/
inductive Fault where
  | notUtf8
  | empty
  | severalLines
  | badCharacter
  | badLength
  | badBase64
  | shortBase64
  | overflow
  | badLabel (label : String)
  | unknownAlgorithm
  | badPoint
  | badFormat
  | badCurve
  | trailing (count : Nat)
  /-- Any other fault, in words. -/
  | other (reason : String)
  deriving DecidableEq, Repr

def Fault.reason : Fault → String
  | .notUtf8 => "not valid UTF-8"
  | .empty => "empty key"
  | .severalLines => "expected a single line"
  | .badCharacter => "character encoding invalid"
  | .badLength => "length invalid"
  | .badBase64 => "Base64 encoding error: invalid Base64 encoding"
  | .shortBase64 => "Base64 encoding error: invalid Base64 length"
  | .overflow => "internal overflow error"
  | .badLabel label => "invalid label: '" ++ label ++ "'"
  | .unknownAlgorithm => "unknown algorithm"
  | .badPoint => "ECDSA encoding error: elliptic curve point encoding error"
  | .badFormat => "format encoding error"
  | .badCurve => "cryptographic error"
  | .trailing count => s!"unexpected trailing data at end of message ({count} bytes)"
  | .other reason => reason

def Fault.message (f : Fault) : String := "invalid key format: " ++ f.reason

end SshAuthority.Key

import SshAuthority.Key.Blob
import SshAuthority.Text.Blank
/-!
# Public keys

A public key is one line of an authorized-keys file: algorithm, base64 blob, comment. The bytes it
was read from are kept as they came and are the key's identity; what was read from them is the
algorithm, the fingerprint and the comment.
-/
namespace SshAuthority

/-- What a key line says. -/
structure Key.Line where
  algorithm : Key.Algorithm
  fingerprint : String
  comment : String
  deriving DecidableEq, Repr

namespace Key

def isWordByte (b : UInt8) : Bool :=
  (97 ≤ b && b ≤ 122) || (65 ≤ b && b ≤ 90) || (48 ≤ b && b ≤ 57) || b == 43 || b == 45 || b == 47 ||
    b == 61 || b == 64 || b == 46

/-- The word at the front and what follows the blank after it. -/
def word (bs : Bytes) : Except Fault (Bytes × Bytes) :=
  let front := bs.takeWhile isWordByte
  match bs.dropWhile isWordByte with
  | [] => .ok (front, [])
  | b :: rest => if b == 32 then .ok (front, rest) else .error .badCharacter

/-- Reads `<algorithm> <base64> [comment]`. -/
def Line.ofText (line : String) : Except Fault Line := do
  let (name, rest) ← word (Utf8.encode (String.ofList (Text.trimEnd line.toList)))
  let (base64, comment) ← word rest
  if name.isEmpty || base64.isEmpty then throw .badLength
  let source ← Source.ofBase64 base64
  let (material, left) ← Material.read.run source
  if Utf8.encode material.algorithm.name != name then throw .unknownAlgorithm
  if left.remaining != 0 then throw (.trailing left.remaining)
  return ⟨material.algorithm, material.fingerprint, Utf8.decodeLossy comment⟩

/-- Drops one line ending: a newline, with a carriage return before it or without. -/
def withoutEnding (cs : List Char) : List Char :=
  if cs.getLast? = some '\n' then
    let front := cs.dropLast
    if front.getLast? = some '\r' then front.dropLast else front
  else cs

/-- Reads the single key line that `bs` must be, by a reader of lines. -/
def lineOf {α : Type} (ofText : String → Except Fault α) (bs : Bytes) : Except Fault α :=
  match Utf8.decode? bs with
  | none => .error .notUtf8
  | some text =>
    let line := withoutEnding text.toList
    if (Text.trim line).isEmpty then .error .empty
    else if line.contains '\n' || line.contains '\r' then .error .severalLines
    else ofText (String.ofList line)

end Key

/-- A key as a reader of lines has read it. -/
structure Key.Read (ofText : String → Except Key.Fault Key.Line) where
  bytes : Bytes
  line : Key.Line
  line_eq : Key.lineOf ofText bytes = .ok line
  deriving Repr

abbrev PublicKey := Key.Read Key.Line.ofText

namespace Key.Read

variable {ofText : String → Except Fault Line}

instance : DecidableEq (Read ofText) := fun a b =>
  if h : a.bytes = b.bytes then
    .isTrue (by
      obtain ⟨bytes, line, ok⟩ := a
      obtain ⟨bytes', line', ok'⟩ := b
      obtain rfl : bytes = bytes' := h
      obtain rfl : line = line' := by simpa [ok] using ok'
      rfl)
  else .isFalse (fun e => h (e ▸ rfl))

def parse (ofText : String → Except Fault Line) (bs : Bytes) : Except Fault (Read ofText) :=
  match h : lineOf ofText bs with
  | .ok line => .ok ⟨bs, line, h⟩
  | .error f => .error f

def algorithm (k : Read ofText) : String := k.line.algorithm.name

def fingerprint (k : Read ofText) : String := k.line.fingerprint

def comment (k : Read ofText) : String := k.line.comment

def text (k : Read ofText) : String := Utf8.decodeLossy k.bytes

/-- Names the key in reports without showing its material. -/
def summary (k : Read ofText) : String := "PublicKey(" ++ k.algorithm ++ " " ++ k.fingerprint ++ ")"

/-- The known-hosts line that accepts any host certificate signed by `k`. -/
def knownHostsEntry (k : Read ofText) : String :=
  "@cert-authority * " ++ String.ofList (Text.trimEnd k.text.toList)

end Key.Read

def PublicKey.parse : Bytes → Except Key.Fault PublicKey := Key.Read.parse Key.Line.ofText

end SshAuthority

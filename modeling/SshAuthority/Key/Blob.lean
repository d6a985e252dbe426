import SshAuthority.Base64
import SshAuthority.Key.Algorithm
import SshAuthority.Sha256
/-!
# Key blobs

The binary form of a public key: the name of its algorithm, then the numbers, points and texts of
that algorithm, each behind its length. A blob arrives as base64 and is decoded only as far as it is
read, so a damaged group that nothing reaches does no harm.
-/
namespace SshAuthority.Key

/-- A blob on its way in: the bytes at hand, whether an undecodable group follows them, and how many
bytes that group and those behind it stand for. -/
structure Source where
  ready : Bytes
  broken : Bool
  behind : Nat
  deriving DecidableEq, Repr

def Source.remaining (s : Source) : Nat := s.ready.length + s.behind

namespace Source

def groupValues : Bytes → Option (List Nat)
  | [] => some []
  | b :: bs =>
    match Base64.value? b, groupValues bs with
    | some v, some vs => some (v :: vs)
    | _, _ => none

/-- The bytes of a final group of four, filled up with pad signs. -/
def lastGroup (group : Bytes) : Option Bytes :=
  match Base64.decodeFinal 0 group with
  | .ok bs => if group.length = 4 then some bs else none
  | .error _ => none

def groupsOnto (done : Bytes) (last : Bytes) : Bytes → Source
  | a :: b :: c :: d :: rest =>
    match groupValues [a, b, c, d] with
    | some vs => groupsOnto ((Base64.bytesOf vs).reverse ++ done) last rest
    | none => ⟨done.reverse, true, rest.length / 4 * 3 + 3 + last.length⟩
  | _ => ⟨done.reverse ++ last, false, 0⟩

/-- The last group is decoded at once, the ones before it as they are reached. -/
def ofBase64 (text : Bytes) : Except Fault Source :=
  if text.length % 4 != 0 then .error .badBase64
  else
    let front := text.length - 4
    match lastGroup (text.drop front) with
    | none => .error .badBase64
    | some last => .ok (groupsOnto [] last (text.take front))

end Source

abbrev Reader := StateT Source (Except Fault)

namespace Reader

def refuse {α : Type} (f : Fault) : Reader α := fun _ => .error f

def take (count : Nat) : Reader Bytes := fun s =>
  if count = 0 then .ok ([], s)
  else if count ≤ s.ready.length then
    .ok (s.ready.take count, { s with ready := s.ready.drop count })
  else .error (if s.broken then .badBase64 else .shortBase64)

/-- A length: four bytes, the most significant first. -/
def size : Reader Nat := do
  let bs ← take 4
  let n := bs.foldl (fun n b => n * 256 + b.toNat) 0
  if n ≤ 0xFFFFF then pure n else refuse .overflow

/-- A byte list behind its length, which may not pass `limit`. -/
def sized (limit : Nat) : Reader Bytes := do
  let n ← size
  if n ≤ limit then take n else refuse .badLength

def any : Reader Bytes := size >>= take

def text (bs : Bytes) : Reader String :=
  match Utf8.decode? bs with
  | some s => pure s
  | none => refuse .badCharacter

def label : Reader String := sized 48 >>= text

def algorithm : Reader Algorithm := do
  let name ← label
  match Algorithm.ofLabel? name with
  | some a => pure a
  | none => refuse (.badLabel name)

def curve : Reader Curve := do
  let name ← label
  match Curve.ofLabel? name with
  | some c => pure c
  | none => refuse (.badLabel name)

/-- A non-negative number without a needless zero byte in front. -/
def number : Reader Bytes := do
  let bs ← any
  match bs with
  | [0] => refuse .badFormat
  | 0 :: b :: _ => if b < 0x80 then refuse .badFormat else pure bs
  | _ => pure bs

def edwardsPoint : Reader Bytes := do
  let n ← size
  if n < 32 then refuse .badLength else take 32

/-- The curve a point's form and length belong to. -/
def curveOfPoint : Bytes → Except Fault Curve
  | [] => .error .badLength
  | tag :: rest =>
    if tag = 0 || tag = 5 then .error .unknownAlgorithm
    else if tag != 2 && tag != 3 && tag != 4 then .error .badPoint
    else
      let field := if tag = 4 then rest.length / 2 else rest.length
      let whole := if tag = 4 then field * 2 else field
      match [Curve.p256, Curve.p384, Curve.p521].find? (·.fieldSize = field) with
      | none => .error .badLength
      | some c => if rest.length = whole then .ok c else .error .badPoint

/-- The length a point on the smallest curve must have, by its first byte. -/
def tokenPointLength : Bytes → Option Nat
  | [] => none
  | tag :: _ =>
    if tag = 0 then some 1
    else if tag = 2 || tag = 3 || tag = 5 then some 33
    else if tag = 4 then some 65
    else none

end Reader

/-- What a public key holds besides its comment. -/
inductive Material where
  | dsa (p q g y : Bytes)
  | ecdsa (curve : Curve) (point : Bytes)
  | ed25519 (point : Bytes)
  | rsa (exponent modulus : Bytes)
  | skEcdsa (point : Bytes) (application : String)
  | skEd25519 (point : Bytes) (application : String)
  | custom (name : String) (data : Bytes)
  deriving DecidableEq, Repr

namespace Material

def algorithm : Material → Algorithm
  | .dsa .. => .dsa
  | .ecdsa curve _ => .ecdsa curve
  | .ed25519 _ => .ed25519
  | .rsa .. => .rsa
  | .skEcdsa .. => .skEcdsa
  | .skEd25519 .. => .skEd25519
  | .custom name _ => .custom name

def readDsa : Reader Material := do
  let p ← Reader.number
  let q ← Reader.number
  let g ← Reader.number
  let y ← Reader.number
  pure (.dsa p q g y)

def readEcdsa (expected : Curve) : Reader Material := do
  let named ← Reader.curve
  let point ← Reader.sized 133
  match Reader.curveOfPoint point with
  | .error f => Reader.refuse f
  | .ok c =>
    if c = named && c = expected then pure (.ecdsa c point) else Reader.refuse .unknownAlgorithm

def readEd25519 : Reader Material := .ed25519 <$> Reader.edwardsPoint

def readRsa : Reader Material := do
  let exponent ← Reader.number
  let modulus ← Reader.number
  pure (.rsa exponent modulus)

def readSkEcdsa : Reader Material := do
  let named ← Reader.curve
  if named != .p256 then Reader.refuse .badCurve
  else
    let point ← Reader.sized 65
    if Reader.tokenPointLength point != some point.length then Reader.refuse .badPoint
    else
      let application ← Reader.any >>= Reader.text
      pure (.skEcdsa point application)

def readSkEd25519 : Reader Material := do
  let point ← Reader.edwardsPoint
  let application ← Reader.any >>= Reader.text
  pure (.skEd25519 point application)

def read : Reader Material := do
  match ← Reader.algorithm with
  | .dsa => readDsa
  | .ecdsa c => readEcdsa c
  | .ed25519 => readEd25519
  | .rsa => readRsa
  | .skEcdsa => readSkEcdsa
  | .skEd25519 => readSkEd25519
  | .custom name => .custom name <$> Reader.any

def field (bs : Bytes) : Bytes := Sha256.bigEndian 4 bs.length ++ bs

def textField (s : String) : Bytes := field (Utf8.encode s)

/-- The blob of a key, under its algorithm's own name. -/
def blob (m : Material) : Bytes :=
  textField m.algorithm.name ++
    match m with
    | .dsa p q g y => field p ++ field q ++ field g ++ field y
    | .ecdsa c point => textField c.label ++ field point
    | .ed25519 point => field point
    | .rsa e n => field e ++ field n
    | .skEcdsa point application => textField Curve.p256.label ++ field point ++ textField application
    | .skEd25519 point application => field point ++ textField application
    | .custom _ data => field data

def fingerprint (m : Material) : String :=
  "SHA256:" ++ Utf8.decodeLossy (Base64.encodeBare (Sha256.digest m.blob))

end Material

end SshAuthority.Key

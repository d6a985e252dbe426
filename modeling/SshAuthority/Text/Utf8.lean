/-!
# Text as bytes

Files, keys and program output are byte lists; text is what UTF-8 makes of them. `scan` cuts any
byte list into characters and broken stretches, and reading with replacement puts one
replacement character where a broken stretch stood.
-/
namespace SshAuthority

abbrev Bytes := List UInt8

namespace Utf8

def encode (s : String) : Bytes := s.toByteArray.data.toList

def decode? (bs : Bytes) : Option String := String.fromUTF8? ⟨bs.toArray⟩

/-- One stretch of a byte list: a character, or bytes that begin none. -/
inductive Piece where
  | char (c : Char)
  | broken (bytes : Bytes)
  deriving DecidableEq, Repr

def isTail (b : UInt8) : Bool := 0x80 ≤ b && b ≤ 0xBF

/-- The least and greatest second byte after a leading byte, and how many bytes follow it in all. -/
def tailRule (b : UInt8) : Option (UInt8 × UInt8 × Nat) :=
  if 0xC2 ≤ b && b ≤ 0xDF then some (0x80, 0xBF, 1)
  else if b == 0xE0 then some (0xA0, 0xBF, 2)
  else if b == 0xED then some (0x80, 0x9F, 2)
  else if 0xE1 ≤ b && b ≤ 0xEF then some (0x80, 0xBF, 2)
  else if b == 0xF0 then some (0x90, 0xBF, 3)
  else if 0xF1 ≤ b && b ≤ 0xF3 then some (0x80, 0xBF, 3)
  else if b == 0xF4 then some (0x80, 0x8F, 3)
  else none

/-- The longest start of `bs` that could continue a character led by `b`. -/
def tailsAfter (b : UInt8) (bs : Bytes) : Bytes × Nat :=
  match tailRule b with
  | none => ([], 0)
  | some (low, high, count) =>
    match bs with
    | [] => ([], count)
    | x :: rest =>
      if low ≤ x && x ≤ high then (x :: (rest.take (count - 1)).takeWhile isTail, count) else ([], count)

def scalar (lead : UInt8) (tails : Bytes) : Char :=
  let start := match tails.length with
    | 0 => lead.toNat
    | 1 => lead.toNat % 0x20
    | 2 => lead.toNat % 0x10
    | _ => lead.toNat % 0x08
  Char.ofNat (tails.foldl (fun n b => n * 0x40 + b.toNat % 0x40) start)

/-- The first piece of a byte list that begins with `b`, and how many bytes of `bs` it takes. -/
def firstPiece (b : UInt8) (bs : Bytes) : Piece × Nat :=
  if b < 0x80 then (.char (scalar b []), 0)
  else
    let (tails, count) := tailsAfter b bs
    if count != 0 && tails.length == count then (.char (scalar b tails), count)
    else (.broken (b :: tails), tails.length)

def scanOnto (done : List Piece) : Bytes → List Piece
  | [] => done.reverse
  | b :: bs =>
    let (piece, taken) := firstPiece b bs
    scanOnto (piece :: done) (bs.drop taken)
termination_by bs => bs.length
decreasing_by simp only [List.length_drop, List.length_cons]; omega

def scan (bs : Bytes) : List Piece := scanOnto [] bs

def Piece.shown : Piece → Char
  | .char c => c
  | .broken _ => '\uFFFD'

/-- The text of `bs`, one replacement character for each broken stretch. -/
def decodeLossy (bs : Bytes) : String := String.ofList ((scan bs).map Piece.shown)

end Utf8

end SshAuthority

import SshAuthority.Text.Utf8
/-!
# Base64

Three bytes are four symbols; a final group of one or two bytes is filled up with pad signs. Decoding
accepts exactly the filled-up form with no stray bits in its last symbol, and says what it refused.
-/
namespace SshAuthority.Base64

def symbol (n : Nat) : UInt8 :=
  if n < 26 then UInt8.ofNat (65 + n)
  else if n < 52 then UInt8.ofNat (71 + n)
  else if n < 62 then UInt8.ofNat (n - 4)
  else if n = 62 then 43
  else 47

def pad : UInt8 := 61

def value? (b : UInt8) : Option Nat :=
  if 65 ≤ b && b ≤ 90 then some (b.toNat - 65)
  else if 97 ≤ b && b ≤ 122 then some (b.toNat - 71)
  else if 48 ≤ b && b ≤ 57 then some (b.toNat + 4)
  else if b == 43 then some 62
  else if b == 47 then some 63
  else none

def group3 (a b c : UInt8) : Bytes :=
  let n := a.toNat * 0x10000 + b.toNat * 0x100 + c.toNat
  [symbol (n / 0x40000), symbol (n / 0x1000 % 0x40), symbol (n / 0x40 % 0x40), symbol (n % 0x40)]

/-- The reverse of the encoding of `bs`, after the reverse of what is done already. -/
def encodeOnto (done : Bytes) : Bytes → Bytes
  | a :: b :: c :: rest => encodeOnto ((group3 a b c).reverse ++ done) rest
  | [a, b] => pad :: ((group3 a b 0).take 3).reverse ++ done
  | [a] => pad :: pad :: ((group3 a 0 0).take 2).reverse ++ done
  | [] => done

def encode (bs : Bytes) : Bytes := (encodeOnto [] bs).reverse

/-- The encoding without its pad signs. -/
def encodeBare (bs : Bytes) : Bytes := (encode bs).filter (· != pad)

inductive DecodeError where
  | badSymbol (offset : Nat) (byte : UInt8)
  | badLength (symbols : Nat)
  | strayBits (offset : Nat) (byte : UInt8)
  | badPadding
  deriving DecidableEq, Repr

def DecodeError.message : DecodeError → String
  | .badSymbol offset byte => s!"Invalid symbol {byte}, offset {offset}."
  | .badLength symbols => s!"Invalid input length: {symbols}"
  | .strayBits offset byte => s!"Invalid last symbol {byte}, offset {offset}."
  | .badPadding => "Invalid padding"

/-- The bytes that full symbols hold; bits past the last whole byte are dropped. -/
def bytesOf : List Nat → Bytes
  | [p, q] => [UInt8.ofNat (p * 4 + q / 16)]
  | [p, q, r] => [UInt8.ofNat (p * 4 + q / 16), UInt8.ofNat (q % 16 * 16 + r / 4)]
  | [p, q, r, s] =>
    [UInt8.ofNat (p * 4 + q / 16), UInt8.ofNat (q % 16 * 16 + r / 4), UInt8.ofNat (r % 4 * 64 + s)]
  | _ => []

/-- Whether the last symbol of a final group carries bits of no byte. -/
def hasStrayBits : List Nat → Bool
  | [_, q] => q % 16 != 0
  | [_, _, r] => r % 4 != 0
  | _ => false

def values (offset : Nat) : Bytes → Except DecodeError (List Nat)
  | [] => .ok []
  | b :: bs =>
    match value? b with
    | some v => (values (offset + 1) bs).map (v :: ·)
    | none => .error (.badSymbol offset b)

/-- Splits a final group into its symbols and the number of pad signs behind them. -/
def finalSymbols (offset : Nat) (group : Bytes) : Except DecodeError (List Nat × Nat) :=
  let front := group.takeWhile (· != pad)
  let back := group.dropWhile (· != pad)
  match values offset front with
  | .error e => .error e
  | .ok vs =>
    if back.isEmpty then .ok (vs, 0)
    else if vs.length < 2 || back.any (· != pad) then .error (.badSymbol (offset + vs.length) pad)
    else .ok (vs, back.length)

def decodeFinal (offset : Nat) (group : Bytes) : Except DecodeError Bytes :=
  match finalSymbols offset group with
  | .error e => .error e
  | .ok (vs, pads) =>
    if vs.length < 2 then .error (.badLength (offset + vs.length))
    else if (vs.length + pads) % 4 != 0 then .error .badPadding
    else if hasStrayBits vs then
      .error (.strayBits (offset + vs.length - 1) ((group[vs.length - 1]?).getD 0))
    else .ok (bytesOf vs)

/-- Decodes from `offset` on, after the reverse of what is done already. -/
def decodeOnto (done : Bytes) (offset : Nat) : Bytes → Except DecodeError Bytes
  | a :: b :: c :: d :: e :: rest =>
    match values offset [a, b, c, d] with
    | .error problem => .error problem
    | .ok vs => decodeOnto ((bytesOf vs).reverse ++ done) (offset + 4) (e :: rest)
  | group => (decodeFinal offset group).map fun bs => done.reverse ++ bs

def decode (text : Bytes) : Except DecodeError Bytes :=
  match text.getLast? with
  | none => .ok []
  | some last =>
    if text.length % 4 = 1 && last != pad && (value? last).isNone then
      .error (.badSymbol (text.length - 1) last)
    else decodeOnto [] 0 text

end SshAuthority.Base64

import SshAuthority.Text.Quoted.Table
import SshAuthority.Text.Utf8
/-!
# Quoted text

Texts, paths and other operating-system strings as they stand in reports: between double quotes,
with whatever would not show by itself written as an escape.
-/
namespace SshAuthority.Text.Quoted

def hexDigit (n : Nat) : Char :=
  if n < 10 then Char.ofNat (48 + n) else Char.ofNat (87 + n)

def hexDigits (n : Nat) : List Char :=
  if n < 16 then [hexDigit n] else hexDigits (n / 16) ++ [hexDigit (n % 16)]

def isHidden (c : Char) : Bool :=
  let inside := fun ((first, last) : Nat × Nat) => decide (first ≤ c.toNat) && decide (c.toNat ≤ last)
  hiddenRanges.any inside || extendingRanges.any inside

def escape (c : Char) : List Char :=
  match c with
  | '\x00' => ['\\', '0']
  | '\t' => ['\\', 't']
  | '\r' => ['\\', 'r']
  | '\n' => ['\\', 'n']
  | '\\' => ['\\', '\\']
  | '"' => ['\\', '"']
  | c =>
    if 0x20 ≤ c.toNat && c.toNat ≤ 0x7E then [c]
    else if isHidden c then ['\\', 'u', '{'] ++ hexDigits c.toNat ++ ['}']
    else [c]

def escapeByte (b : UInt8) : List Char :=
  ['\\', 'x', hexDigit (b.toNat / 16) |>.toUpper, hexDigit (b.toNat % 16) |>.toUpper]

def piece : Utf8.Piece → List Char
  | .char c => escape c
  | .broken bytes => bytes.flatMap escapeByte

end SshAuthority.Text.Quoted

namespace SshAuthority.Text

def quote (s : String) : String :=
  String.ofList ('"' :: s.toList.flatMap Quoted.escape ++ ['"'])

/-- Bytes between quotes; a byte that belongs to no character is written by its two hex digits. -/
def quoteBytes (bs : Bytes) : String :=
  String.ofList ('"' :: (Utf8.scan bs).flatMap Quoted.piece ++ ['"'])

end SshAuthority.Text

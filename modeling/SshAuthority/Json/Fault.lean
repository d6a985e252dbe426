import SshAuthority.Base64
import SshAuthority.Decimal
import SshAuthority.Text.Quoted
/-!
# Faults of message payloads

A payload can end too early, be malformed, or be well formed and not say what was expected. The first
fault met while reading from left to right is the one reported.
-/
namespace SshAuthority.Json

inductive Place where
  | list
  | object
  | text
  | value
  deriving DecidableEq, Repr

def Place.phrase : Place → String
  | .list => "a list"
  | .object => "an object"
  | .text => "a string"
  | .value => "a value"

inductive Slip where
  | expectedColon
  | expectedListEnd
  | expectedObjectEnd
  | expectedIdent
  | expectedValue
  | badEscape
  | badNumber
  | numberOutOfRange
  | badCodePoint
  | controlCharacter
  | keyNotText
  | loneSurrogate
  | unfinishedSurrogate
  | trailingComma
  | trailingCharacters
  | tooDeep
  deriving DecidableEq, Repr

def Slip.message : Slip → String
  | .expectedColon => "expected `:`"
  | .expectedListEnd => "expected `,` or `]`"
  | .expectedObjectEnd => "expected `,` or `\x7d`"
  | .expectedIdent => "expected ident"
  | .expectedValue => "expected value"
  | .badEscape => "invalid escape"
  | .badNumber => "invalid number"
  | .numberOutOfRange => "number out of range"
  | .badCodePoint => "invalid unicode code point"
  | .controlCharacter => "control character (\\u0000-\\u001F) found while parsing a string"
  | .keyNotText => "key must be a string"
  | .loneSurrogate => "lone leading surrogate in hex escape"
  | .unfinishedSurrogate => "unexpected end of hex escape"
  | .trailingComma => "trailing comma"
  | .trailingCharacters => "trailing characters"
  | .tooDeep => "recursion limit exceeded"

inductive Number where
  | natural (n : Nat)
  /-- The negative of `n`. -/
  | negative (n : Nat)
  | real (x : Float)
  deriving Repr

/-- What stood where something else was expected. -/
inductive Found where
  | null
  | boolean (b : Bool)
  | number (n : Number)
  | text (s : String)
  | list
  | object
  | bareVariant
  deriving Repr

def Found.phrase : Found → String
  | .null => "null"
  | .boolean b => s!"boolean `{b}`"
  | .number (.natural n) => s!"integer `{n}`"
  | .number (.negative n) => s!"integer `-{n}`"
  | .number (.real x) => "floating point `" ++ Decimal.Form.compact.write x ++ "`"
  | .text s => "string " ++ Text.quote s
  | .list => "sequence"
  | .object => "map"
  | .bareVariant => "unit variant"

inductive Mismatch where
  | wrongType (found : Found) (expected : String)
  | wrongValue (found : Found) (expected : String)
  | wrongLength (length : Nat) (expected : String)
  | unknownVariant (name : String) (known : List String)
  | missing (field : String)
  | duplicate (field : String)
  | badBase64 (error : Base64.DecodeError)
  deriving Repr

def oneOf (names : List String) : String :=
  match names.map fun name => "`" ++ name ++ "`" with
  | [] => "there are no variants"
  | [a] => a
  | [a, b] => a ++ " or " ++ b
  | all => "one of " ++ ", ".intercalate all

def Mismatch.message : Mismatch → String
  | .wrongType found expected => "invalid type: " ++ found.phrase ++ ", expected " ++ expected
  | .wrongValue found expected => "invalid value: " ++ found.phrase ++ ", expected " ++ expected
  | .wrongLength n expected => s!"invalid length {n}, expected {expected}"
  | .unknownVariant name known => "unknown variant `" ++ name ++ "`, expected " ++ oneOf known
  | .missing field => "missing field `" ++ field ++ "`"
  | .duplicate field => "duplicate field `" ++ field ++ "`"
  | .badBase64 error => error.message

inductive Fault where
  | ended (inside : Place)
  | malformed (slip : Slip)
  | mismatch (mismatch : Mismatch)
  deriving Repr

def Fault.message : Fault → String
  | .ended inside => "EOF while parsing " ++ inside.phrase
  | .malformed slip => slip.message
  | .mismatch m => m.message

end SshAuthority.Json

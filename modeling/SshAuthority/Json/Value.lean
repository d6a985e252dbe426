import SshAuthority.Json.Reader
/-!
# Payload values

A value as a tree: what every message is written from, and what a member is kept as when it must be
read before its meaning is known.
-/
namespace SshAuthority.Json

inductive Value where
  | null
  | boolean (b : Bool)
  | number (n : Number)
  | text (s : String)
  | list (items : List Value)
  | object (members : List (String × Value))

namespace Value

def found : Value → Found
  | .null => .null
  | .boolean b => .boolean b
  | .number n => .number n
  | .text s => .text s
  | .list _ => .list
  | .object _ => .object

def hexDigit (n : Nat) : UInt8 := UInt8.ofNat (if n < 10 then 48 + n else 87 + n)

def escape (b : UInt8) : Bytes :=
  if b == 34 || b == 92 then [92, b]
  else if b == 8 then [92, 98]
  else if b == 12 then [92, 102]
  else if b == 10 then [92, 110]
  else if b == 13 then [92, 114]
  else if b == 9 then [92, 116]
  else if b < 32 then [92, 117, 48, 48, hexDigit (b.toNat / 16), hexDigit (b.toNat % 16)]
  else [b]

def quote (s : String) : Bytes := 34 :: (Utf8.encode s).flatMap escape ++ [34]

def writeNumber : Number → Bytes
  | .natural n => Utf8.encode (toString n)
  | .negative n => 45 :: Utf8.encode (toString n)
  | .real x => Utf8.encode (Decimal.Form.compact.write x)

mutual
/-- The text of a value, without blanks. -/
def write : Value → Bytes
  | .null => [110, 117, 108, 108]
  | .boolean true => [116, 114, 117, 101]
  | .boolean false => [102, 97, 108, 115, 101]
  | .number n => writeNumber n
  | .text s => quote s
  | .list items => 91 :: writeItems items ++ [93]
  | .object members => 123 :: writeMembers members ++ [125]

def writeItems : List Value → Bytes
  | [] => []
  | [x] => write x
  | x :: y :: rest => write x ++ 44 :: writeItems (y :: rest)

def writeMembers : List (String × Value) → Bytes
  | [] => []
  | [(name, x)] => quote name ++ 58 :: write x
  | (name, x) :: y :: rest => quote name ++ 58 :: write x ++ 44 :: writeMembers (y :: rest)
end

/-- Reads a value whose containers hold what `inner` reads; without `inner` none may be opened. -/
def readOver (inner : Option (Reader Value)) : Reader Value := do
  match ← Reader.start with
  | 110 => Reader.advance; Reader.word [117, 108, 108]; pure .null
  | 116 => Reader.advance; Reader.word [114, 117, 101]; pure (.boolean true)
  | 102 => Reader.advance; Reader.word [97, 108, 115, 101]; pure (.boolean false)
  | 45 => Reader.advance; .number <$> Number.read true
  | 34 => Reader.advance; .text <$> Reader.body
  | 91 =>
    match inner with
    | none => refuse (.malformed .tooDeep)
    | some item =>
      Reader.advance
      let items ← Reader.elements item
      Reader.closeList
      pure (.list items)
  | 123 =>
    match inner with
    | none => refuse (.malformed .tooDeep)
    | some item =>
      Reader.advance
      let members ← Reader.members (fun name done => do
        Reader.colon
        let x ← item
        pure ((name, x) :: done)) []
      Reader.closeObject
      pure (.object members.reverse)
  | b => if isDigit b then .number <$> Number.read false else refuse (.malformed .expectedValue)

/-- Reads a value with at most `depth` containers inside one another. -/
def read : Nat → Reader Value
  | 0 => readOver none
  | depth + 1 => readOver (some (read depth))

end Value

end SshAuthority.Json

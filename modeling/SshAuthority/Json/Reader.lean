import SshAuthority.Json.Number
/-!
# Reading message payloads

The parts every message is read with: blanks, texts, the members of an object and the elements of a
list, names of variants, and passing over members nobody asked for. A reader takes what it needs from
the front of the payload, so of two faults the one further left is found.
-/
namespace SshAuthority.Json

namespace Reader

def isBlank (b : UInt8) : Bool := b == 32 || b == 10 || b == 9 || b == 13

/-- Passes over blanks and shows the next byte without taking it. -/
def peek : Reader (Option UInt8) := fun bs =>
  let rest := bs.dropWhile isBlank
  .ok (rest.head?, rest)

def advance : Reader Unit := fun bs => .ok ((), bs.drop 1)

def word : Bytes → Reader Unit
  | [] => pure ()
  | expected :: more => fun bs =>
    match bs with
    | [] => .error (.ended .value)
    | b :: rest => if b == expected then word more rest else .error (.malformed .expectedIdent)

def hexValue? (b : UInt8) : Option Nat :=
  if 48 ≤ b && b ≤ 57 then some (b.toNat - 48)
  else if 97 ≤ b && b ≤ 102 then some (b.toNat - 87)
  else if 65 ≤ b && b ≤ 70 then some (b.toNat - 55)
  else none

def hexUnit? (a b c d : UInt8) : Option Nat :=
  match hexValue? a, hexValue? b, hexValue? c, hexValue? d with
  | some a, some b, some c, some d => some (((a * 16 + b) * 16 + c) * 16 + d)
  | _, _, _, _ => none

/-- The byte a one-letter escape stands for. -/
def escaped? (b : UInt8) : Option UInt8 :=
  if b == 34 || b == 92 || b == 47 then some b
  else if b == 98 then some 8
  else if b == 102 then some 12
  else if b == 110 then some 10
  else if b == 114 then some 13
  else if b == 116 then some 9
  else none

def isHigh (n : Nat) : Bool := 0xD800 ≤ n && n ≤ 0xDBFF

def isLow (n : Nat) : Bool := 0xDC00 ≤ n && n ≤ 0xDFFF

def charOnto (n : Nat) (done : Bytes) : Bytes :=
  (String.utf8EncodeChar (Char.ofNat n)).reverse ++ done

/-- The bytes of a text up to its closing quote, onto the reverse of what is done already. -/
def bodyOnto (done : Bytes) : Bytes → Except Fault (Bytes × Bytes)
  | [] => .error (.ended .text)
  | 34 :: rest => .ok (done.reverse, rest)
  | [92] => .error (.ended .text)
  | 92 :: 117 :: a :: b :: c :: d :: rest =>
    match hexUnit? a b c d with
    | none => .error (.malformed .badEscape)
    | some n =>
      if isLow n then .error (.malformed .loneSurrogate)
      else if isHigh n then
        match rest with
        | [] => .error (.ended .text)
        | [92] => .error (.ended .text)
        | 92 :: 117 :: e :: f :: g :: h :: rest =>
          match hexUnit? e f g h with
          | none => .error (.malformed .badEscape)
          | some m =>
            if isLow m then
              bodyOnto (charOnto (0x10000 + (n - 0xD800) * 0x400 + (m - 0xDC00)) done) rest
            else .error (.malformed .loneSurrogate)
        | 92 :: 117 :: _ => .error (.ended .text)
        | _ => .error (.malformed .unfinishedSurrogate)
      else bodyOnto (charOnto n done) rest
  | 92 :: 117 :: _ => .error (.ended .text)
  | 92 :: b :: rest =>
    match escaped? b with
    | some x => bodyOnto (x :: done) rest
    | none => .error (.malformed .badEscape)
  | b :: rest => if b < 32 then .error (.malformed .controlCharacter) else bodyOnto (b :: done) rest

/-- A text behind its opening quote. -/
def body : Reader String := fun bs =>
  match bodyOnto [] bs with
  | .error f => .error f
  | .ok (found, rest) =>
    match Utf8.decode? found with
    | some s => .ok (s, rest)
    | none => .error (.malformed .badCodePoint)

/-- Passes over a text behind its opening quote; what its escapes stand for is not looked at. -/
def skipBody : Reader Unit
  | [] => .error (.ended .text)
  | 34 :: rest => .ok ((), rest)
  | [92] => .error (.ended .text)
  | 92 :: 117 :: a :: b :: c :: d :: rest =>
    if (hexUnit? a b c d).isSome then skipBody rest else .error (.malformed .badEscape)
  | 92 :: 117 :: _ => .error (.ended .text)
  | 92 :: b :: rest =>
    if (escaped? b).isSome then skipBody rest else .error (.malformed .badEscape)
  | b :: rest => if b < 32 then .error (.malformed .controlCharacter) else skipBody rest

/-- Reads a plain value and reports it in place of what was expected. -/
def mismatch {α : Type} (expected : String) : Reader α := do
  let found ← (do
    match ← peek with
    | some 110 => advance; word [117, 108, 108]; pure Found.null
    | some 116 => advance; word [114, 117, 101]; pure (Found.boolean true)
    | some 102 => advance; word [97, 108, 115, 101]; pure (Found.boolean false)
    | some 45 => advance; Found.number <$> Number.read true
    | some 34 => advance; Found.text <$> body
    | some 91 => pure Found.list
    | some 123 => pure Found.object
    | some b =>
      if isDigit b then Found.number <$> Number.read false else refuse (.malformed .expectedValue)
    | none => refuse (.malformed .expectedValue))
  refuse (.mismatch (.wrongType found expected))

/-- Shows the first byte of the value that must follow. -/
def start : Reader UInt8 := do
  match ← peek with
  | some b => pure b
  | none => refuse (.ended .value)

def text : Reader String := do
  if (← start) == 34 then advance; body else mismatch "a string"

def unit : Reader Unit := do
  if (← start) == 110 then advance; word [117, 108, 108] else mismatch "unit"

/-- A whole number of 64 bits. -/
def natural : Reader Nat := do
  let b ← start
  if b == 45 || isDigit b then
    let negative := b == 45
    if negative then advance
    match ← Number.read negative with
    | .natural n => pure n
    | .negative n => refuse (.mismatch (.wrongValue (.number (.negative n)) "u64"))
    | .real x => refuse (.mismatch (.wrongType (.number (.real x)) "u64"))
  else mismatch "u64"

def colon : Reader Unit := do
  match ← peek with
  | some 58 => advance
  | some _ => refuse (.malformed .expectedColon)
  | none => refuse (.ended .object)

/-- Whether another element follows in a list. -/
def another (first : Bool) : Reader Bool := do
  match ← peek with
  | none => refuse (.ended .list)
  | some b =>
    if b == 93 then pure false
    else if first then pure true
    else if b == 44 then
      advance
      match ← peek with
      | some 93 => refuse (.malformed .trailingComma)
      | some _ => pure true
      | none => refuse (.ended .value)
    else refuse (.malformed .expectedListEnd)

/-- The name of the next member of an object, if there is one. -/
def nextName (first : Bool) : Reader (Option String) := do
  match ← peek with
  | none => refuse (.ended .object)
  | some b =>
    if b == 125 then pure none
    else if first then
      if b == 34 then advance; some <$> body else refuse (.malformed .keyNotText)
    else if b == 44 then
      advance
      match ← peek with
      | some 34 => advance; some <$> body
      | some 125 => refuse (.malformed .trailingComma)
      | some _ => refuse (.malformed .keyNotText)
      | none => refuse (.ended .value)
    else refuse (.malformed .expectedObjectEnd)

def closeList : Reader Unit := do
  match ← peek with
  | some 93 => advance
  | some 44 =>
    advance
    match ← peek with
    | some 93 => refuse (.malformed .trailingComma)
    | _ => refuse (.malformed .trailingCharacters)
  | some _ => refuse (.malformed .trailingCharacters)
  | none => refuse (.ended .list)

def closeObject : Reader Unit := do
  match ← peek with
  | some 125 => advance
  | some 44 => refuse (.malformed .trailingComma)
  | some _ => refuse (.malformed .trailingCharacters)
  | none => refuse (.ended .object)

/-- Runs `step` on every member's name; each step reads the value behind the name. -/
def membersFrom {σ : Type} (step : String → σ → Reader σ) : Nat → Bool → σ → Reader σ
  | 0, _, _ => refuse (.ended .object)
  | fuel + 1, first, s => do
    match ← nextName first with
    | none => pure s
    | some name => membersFrom step fuel false (← step name s)

def members {σ : Type} (step : String → σ → Reader σ) (s : σ) : Reader σ := fun bs =>
  membersFrom step (bs.length + 1) true s bs

def elementsFrom {α : Type} (item : Reader α) : Nat → List α → Reader (List α)
  | 0, _ => refuse (.ended .list)
  | fuel + 1, done => do
    if ← another done.isEmpty then
      let x ← item
      elementsFrom item fuel (x :: done)
    else pure done.reverse

def elements {α : Type} (item : Reader α) : Reader (List α) := fun bs =>
  elementsFrom item (bs.length + 1) [] bs

def list {α : Type} (item : Reader α) : Reader (List α) := do
  if (← start) == 91 then
    advance
    let xs ← elements item
    closeList
    pure xs
  else mismatch "a sequence"

/-- An element at a fixed place of a list; a list that ends before it is too short. -/
def element {α : Type} (index : Nat) (expected : String) (item : Reader α) : Reader α := do
  if ← another (index == 0) then item else refuse (.mismatch (.wrongLength index expected))

/-- A record, as an object of named members or as a list in the order of its fields. -/
def record {α : Type} (expected : String) (named : Reader α) (listed : Reader α) : Reader α := do
  match ← start with
  | 123 =>
    advance
    let x ← named
    closeObject
    pure x
  | 91 =>
    advance
    let x ← listed
    closeList
    pure x
  | _ => mismatch expected

/-- Reads the value of a member that may stand once. -/
def once {α : Type} (field : String) (slot : Option α) (value : Reader α) : Reader (Option α) :=
  if slot.isSome then refuse (.mismatch (.duplicate field))
  else do
    colon
    some <$> value

def required {α : Type} (field : String) : Option α → Reader α
  | some x => pure x
  | none => refuse (.mismatch (.missing field))

/-- The name of a variant among `known`. -/
def variant {α : Type} (expected : String) (known : List (String × α)) : Reader α := do
  if (← start) == 34 then
    advance
    let name ← body
    match known.lookup name with
    | some x => pure x
    | none => refuse (.mismatch (.unknownVariant name (known.map Prod.fst)))
  else mismatch expected

/-- A variant: `bare` when only its name stands there, `filled` for what follows the name in an object
of that single member. -/
def choice {α β : Type} (name : Reader β) (bare : β → Reader α) (filled : β → Reader α) :
    Reader α := do
  match ← start with
  | 123 =>
    advance
    let v ← name
    colon
    let x ← filled v
    match ← peek with
    | some 125 => advance; pure x
    | some _ => refuse (.malformed .expectedValue)
    | none => refuse (.ended .object)
  | 34 => name >>= bare
  | _ => refuse (.malformed .expectedValue)

/-- A variant without contents. -/
def plainChoice {α : Type} (known : List (String × α)) : Reader α :=
  choice (variant "variant identifier" known) pure fun x => do unit; pure x

inductive Frame where
  | list
  | object
  deriving DecidableEq, Repr

/-- What stands at the front of a value that is passed over; a container is only opened. -/
def skipStart : Reader (Option Frame) := do
  match ← start with
  | 110 => advance; word [117, 108, 108]; pure none
  | 116 => advance; word [114, 117, 101]; pure none
  | 102 => advance; word [97, 108, 115, 101]; pure none
  | 45 => advance; Number.skip; pure none
  | 34 => advance; skipBody; pure none
  | 91 => advance; pure (some .list)
  | 123 => advance; pure (some .object)
  | b => if isDigit b then Number.skip; pure none else refuse (.malformed .expectedValue)

/-- Passes over the name of a member and its colon. -/
def skipName : Reader Unit := do
  match ← peek with
  | some 34 => advance
  | some _ => refuse (.malformed .keyNotText)
  | none => refuse (.ended .object)
  skipBody
  colon

/-- Closes the innermost containers that end here; `full` tells whether the innermost already holds
something. What stays open has a further entry. -/
def skipEnds (full : Bool) : List Frame → Reader (List Frame)
  | [] => pure []
  | frame :: outer => do
    match ← peek with
    | none => refuse (.ended (if frame = .list then .list else .object))
    | some b =>
      if full && b == 44 then advance; pure (frame :: outer)
      else if (frame = .list && b == 93) || (frame = .object && b == 125) then
        advance
        skipEnds true outer
      else if full then
        refuse (.malformed (if frame = .list then .expectedListEnd else .expectedObjectEnd))
      else pure (frame :: outer)

def skipFrom : Nat → List Frame → Reader Unit
  | 0, _ => refuse (.ended .value)
  | fuel + 1, stack => do
    let open? ← skipStart
    let stack' ← match open? with
      | some frame => skipEnds false (frame :: stack)
      | none => skipEnds true stack
    match stack' with
    | [] => pure ()
    | frame :: _ =>
      if frame = .object then skipName
      skipFrom fuel stack'

/-- Passes over one value, however deep. -/
def skip : Reader Unit := fun bs => skipFrom (bs.length + 1) [] bs

/-- A value and nothing but blanks behind it. -/
def whole {α : Type} (value : Reader α) (bs : Bytes) : Except Fault α := do
  let (x, rest) ← value.run bs
  if rest.all isBlank then return x else throw (.malformed .trailingCharacters)

end Reader

end SshAuthority.Json

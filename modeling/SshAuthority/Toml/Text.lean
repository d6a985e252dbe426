/-!
# Texts in settings files

The four ways of spelling a text: on one line or over several, with escapes or as it stands. A text
over several lines drops a newline right behind its opening, and a carriage return before a newline.
Writing picks the first of the ways that needs no escapes, where there is one.
-/
namespace SshAuthority.Toml

/-- Takes something from the front of a text and leaves the rest. -/
abbrev Reader := StateT (List Char) Option

def isBlank (c : Char) : Bool := c == ' ' || c == '\t'

/-- A character that may stand for itself on a line. -/
def isPlain (c : Char) : Bool := c == '\t' || (32 ≤ c.toNat && c.toNat != 127)

namespace Text

def hexDigit? (c : Char) : Option Nat :=
  if c.isDigit then some (c.toNat - 48)
  else if 97 ≤ c.toNat && c.toNat ≤ 102 then some (c.toNat - 87)
  else if 65 ≤ c.toNat && c.toNat ≤ 70 then some (c.toNat - 55)
  else none

/-- The character with the number that hexadecimal digits spell. -/
def numbered? (digits : List Char) : Option Char := do
  let n ← digits.foldlM (fun n c => (hexDigit? c).map (n * 16 + ·)) 0
  if n.isValidChar then some (Char.ofNat n) else none

/-- What a one-letter escape stands for. -/
def escaped? : Char → Option Char
  | 'b' => some '\x08'
  | 't' => some '\t'
  | 'n' => some '\n'
  | 'f' => some '\x0c'
  | 'r' => some '\r'
  | '"' => some '"'
  | '\\' => some '\\'
  | _ => none

def push (c : Char) (r : List Char × List Char) : List Char × List Char := (c :: r.1, r.2)

/-- The body of a text on one line with escapes, behind its opening quote. -/
def basic : List Char → Option (List Char × List Char)
  | [] => none
  | '"' :: rest => some ([], rest)
  | '\\' :: 'u' :: a :: b :: c :: d :: rest => do
    let char ← numbered? [a, b, c, d]
    (basic rest).map (push char)
  | '\\' :: 'U' :: a :: b :: c :: d :: e :: f :: g :: h :: rest => do
    let char ← numbered? [a, b, c, d, e, f, g, h]
    (basic rest).map (push char)
  | '\\' :: c :: rest => do
    let char ← escaped? c
    (basic rest).map (push char)
  | c :: rest => if isPlain c && c != '\\' then (basic rest).map (push c) else none

/-- The body of a text on one line as it stands. -/
def verbatim : List Char → Option (List Char × List Char)
  | [] => none
  | '\'' :: rest => some ([], rest)
  | c :: rest => if isPlain c then (verbatim rest).map (push c) else none

/-- Whether a backslash before this text joins lines: only blanks stand before the line's end. -/
def joinsLines (rest : List Char) : Bool :=
  match rest.dropWhile isBlank with
  | '\n' :: _ => true
  | '\r' :: '\n' :: _ => true
  | _ => false

/-- The body of a text over several lines with escapes. While `joining`, blanks and line ends are
passed over. -/
def basicLines (joining : Bool) : List Char → Option (List Char × List Char)
  | [] => none
  | '"' :: '"' :: '"' :: '"' :: '"' :: rest => some (['"', '"'], rest)
  | '"' :: '"' :: '"' :: '"' :: rest => some (['"'], rest)
  | '"' :: '"' :: '"' :: rest => some ([], rest)
  | '\r' :: '\n' :: rest =>
    if joining then basicLines true rest else (basicLines false rest).map (push '\n')
  | '\\' :: 'u' :: a :: b :: c :: d :: rest => do
    let char ← numbered? [a, b, c, d]
    (basicLines false rest).map (push char)
  | '\\' :: 'U' :: a :: b :: c :: d :: e :: f :: g :: h :: rest => do
    let char ← numbered? [a, b, c, d, e, f, g, h]
    (basicLines false rest).map (push char)
  | '\\' :: c :: rest =>
    if joinsLines (c :: rest) then basicLines true (c :: rest)
    else do
      let char ← escaped? c
      (basicLines false rest).map (push char)
  | c :: rest =>
    if joining && (isBlank c || c == '\n') then basicLines true rest
    else if c == '\n' || (isPlain c && c != '\\') then (basicLines false rest).map (push c)
    else none

/-- The body of a text over several lines as it stands. -/
def verbatimLines : List Char → Option (List Char × List Char)
  | [] => none
  | '\'' :: '\'' :: '\'' :: '\'' :: '\'' :: rest => some (['\'', '\''], rest)
  | '\'' :: '\'' :: '\'' :: '\'' :: rest => some (['\''], rest)
  | '\'' :: '\'' :: '\'' :: rest => some ([], rest)
  | '\r' :: '\n' :: rest => (verbatimLines rest).map (push '\n')
  | c :: rest => if c == '\n' || isPlain c then (verbatimLines rest).map (push c) else none

def withoutFirstNewline : List Char → List Char
  | '\n' :: rest => rest
  | '\r' :: '\n' :: rest => rest
  | cs => cs

def read : Reader String := fun cs =>
  let body := match cs with
    | '"' :: '"' :: '"' :: rest => basicLines false (withoutFirstNewline rest)
    | '"' :: rest => basic rest
    | '\'' :: '\'' :: '\'' :: rest => verbatimLines (withoutFirstNewline rest)
    | '\'' :: rest => verbatim rest
    | _ => none
  body.map fun (text, rest) => (String.ofList text, rest)

/-- A text on one line. -/
def readShort : Reader String := fun cs =>
  let body := match cs with
    | '"' :: rest => basic rest
    | '\'' :: rest => verbatim rest
    | _ => none
  body.map fun (text, rest) => (String.ofList text, rest)

/-! ## Writing -/

/-- The longest stretch of a character in a text. -/
def longestRun (c : Char) (cs : List Char) : Nat :=
  (cs.foldl (fun ((best, now) : Nat × Nat) x =>
    let now := if x == c then now + 1 else 0
    (max best now, now)) (0, 0)).1

/-- A control character other than a tab and a newline. -/
def isControl (c : Char) : Bool := c != '\n' && !isPlain c

def upperHex (n : Nat) : List Char :=
  let digits := (Nat.toDigits 16 n).map Char.toUpper
  List.replicate (4 - digits.length) '0' ++ digits

/-- Writes with escapes; behind `quotes` double quotes, of which at most `most` may follow each other. -/
def escape (lines : Bool) (most quotes : Nat) : List Char → List Char
  | [] => []
  | '"' :: rest =>
    if quotes < most then '"' :: escape lines most (quotes + 1) rest
    else '\\' :: '"' :: escape lines most 0 rest
  | c :: rest =>
    let shown :=
      if c == '\x08' then ['\\', 'b']
      else if c == '\t' then ['\\', 't']
      else if c == '\n' then (if lines then ['\n'] else ['\\', 'n'])
      else if c == '\x0c' then ['\\', 'f']
      else if c == '\r' then ['\\', 'r']
      else if c == '\\' then ['\\', '\\']
      else if isControl c then '\\' :: 'u' :: upperHex c.toNat
      else [c]
    shown ++ escape lines most 0 rest

def inLines (cs : List Char) : List Char :=
  let opening := if cs.contains '\n' then ['\n'] else []
  ['"', '"', '"'] ++ opening ++ escape true 2 0 cs ++ ['"', '"', '"']

def write (text : String) : String :=
  let cs := text.toList
  let controls := cs.any isControl
  let newline := cs.contains '\n'
  let backslash := cs.contains '\\'
  let doubles := longestRun '"' cs
  let singles := longestRun '\'' cs
  String.ofList <|
    if !controls && !backslash && doubles = 0 && !newline then '"' :: escape false 0 0 cs ++ ['"']
    else if !controls && singles = 0 && !newline then '\'' :: cs ++ ['\'']
    else if !controls && !backslash && doubles ≤ 2 then inLines cs
    else if !controls && singles ≤ 2 then
      ['\'', '\'', '\''] ++ (if newline then ['\n'] else []) ++ cs ++ ['\'', '\'', '\'']
    else if newline then inLines cs
    else '"' :: escape false 0 0 cs ++ ['"']

end Text

end SshAuthority.Toml

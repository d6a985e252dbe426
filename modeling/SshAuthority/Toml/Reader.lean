import SshAuthority.Toml.Document
/-!
# Reading documents of settings

A document is read line by line. Lists may spread over lines and hold comments, tables in braces may
not. Values nest at most 79 deep, and a dotted key has fewer than 80 parts.
-/
namespace SshAuthority.Toml.Reader

def passBlanks (cs : List Char) : List Char := cs.dropWhile isBlank

/-- Passes over blanks, line ends and comments. -/
def passLines (comment : Bool) : List Char → Option (List Char)
  | [] => if comment then none else some []
  | '\r' :: '\n' :: rest => passLines false rest
  | c :: rest =>
    if c == '\n' then passLines false rest
    else if comment then (if isPlain c then passLines true rest else none)
    else if isBlank c then passLines false rest
    else if c == '#' then passLines true rest
    else some (c :: rest)

/-- Passes over the rest of a line that holds nothing but a comment. -/
def endLine (comment : Bool) : List Char → Option (List Char)
  | [] => some []
  | '\r' :: '\n' :: rest => some rest
  | c :: rest =>
    if c == '\n' then some rest
    else if comment then (if isPlain c then endLine true rest else none)
    else if isBlank c then endLine false rest
    else if c == '#' then endLine true rest
    else none

/-! ## Keys -/

def isBare (c : Char) : Bool := c.isAlphanum || c == '_' || c == '-'

def readKey : Reader String := fun cs =>
  let bare := cs.takeWhile isBare
  if bare.isEmpty then Text.readShort cs else some (String.ofList bare, cs.dropWhile isBare)

/-- The keys between the dots of a dotted key. -/
def readKeys : Nat → Reader (List String)
  | 0 => fun _ => none
  | left + 1 => fun cs => do
    let (key, rest) ← readKey (passBlanks cs)
    match passBlanks rest with
    | '.' :: rest => do
      let (keys, rest) ← readKeys left rest
      return (key :: keys, rest)
    | rest => return ([key], rest)

def maxKeys : Nat := 79

/-- A dotted key: the path before its last part, and that part. -/
def readPath : Reader (List String × String) := do
  let keys ← readKeys maxKeys
  match keys.getLast? with
  | some key => return (keys.dropLast, key)
  | none => failure

/-! ## Values -/

/-- The items of a list, behind its opening bracket; at most `fuel` of them. -/
def readItems (item : Reader Node) : Nat → Reader (List Node)
  | 0 => fun _ => none
  | fuel + 1 => fun cs => do
    match ← passLines false cs with
    | ']' :: rest => return ([], rest)
    | cs =>
      let (node, rest) ← item cs
      match ← passLines false rest with
      | ']' :: rest => return ([node], rest)
      | ',' :: rest => do
        let (nodes, rest) ← readItems item fuel rest
        return (node :: nodes, rest)
      | _ => none

/-- The entries of a table in braces, added to those before them; at most `fuel` of them. -/
def readEntries (value : Reader Node) : Nat → Entries → Reader Entries
  | 0, _ => fun _ => none
  | fuel + 1, es => fun cs => do
    let ((path, key), rest) ← readPath cs
    match rest with
    | '=' :: rest => do
      let (node, rest) ← value (passBlanks rest)
      let es ← addKey path key node .braces es
      match passBlanks rest with
      | '\x7d' :: rest => return (es, rest)
      | ',' :: rest => readEntries value fuel es rest
      | _ => none
    | _ => none

def readBraces (value : Reader Node) : Reader Entries := fun cs =>
  match passBlanks cs with
  | '\x7d' :: rest => some ([], rest)
  | cs => readEntries value (cs.length + 1) [] cs

def readLeaf : Reader Node := fun cs => do
  let (value, rest) ← Scalar.read cs
  return (.leaf value, rest)

/-- A value in which lists and tables nest at most as deep as told. -/
def readNode : Nat → Reader Node
  | 0 => readLeaf
  | depth + 1 => fun cs =>
    match cs with
    | '[' :: rest => do
      let (items, rest) ← readItems (readNode depth) (rest.length + 1) rest
      return (.list items, rest)
    | '\x7b' :: rest => do
      let (es, rest) ← readBraces (readNode depth) rest
      return (.table .braces es, rest)
    | cs => readLeaf cs

def maxDepth : Nat := 79

/-! ## Lines -/

/-- A header, behind its first bracket. -/
def readHeader (d : Draft) : Reader Draft := fun cs =>
  match cs with
  | '[' :: rest => do
    let ((path, key), rest) ← readPath rest
    match rest with
    | ']' :: ']' :: rest => return (← d.openRow path key, ← endLine false rest)
    | _ => none
  | _ => do
    let ((path, key), rest) ← readPath cs
    match rest with
    | ']' :: rest => return (← d.openTable path key, ← endLine false rest)
    | _ => none

/-- A line that says what a key stands for. -/
def readSetting (d : Draft) : Reader Draft := fun cs => do
  let ((path, key), rest) ← readPath cs
  match rest with
  | '=' :: rest => do
    let (node, rest) ← readNode maxDepth (passBlanks rest)
    return (← d.keep path key node, ← endLine false rest)
  | _ => none

/-- At most `fuel` lines. -/
def readLines : Nat → Draft → List Char → Option Draft
  | 0, _, _ => none
  | fuel + 1, d, cs =>
    match passBlanks cs with
    | [] => some d
    | '[' :: rest => do
      let (d, rest) ← readHeader d rest
      readLines fuel d rest
    | c :: rest =>
      if c == '#' || c == '\n' || c == '\r' then do
        readLines fuel d (← endLine false (c :: rest))
      else do
        let (d, rest) ← readSetting d (c :: rest)
        readLines fuel d rest

def withoutMark : List Char → List Char
  | '\uFEFF' :: rest => rest
  | cs => cs

end Reader

/-- The table a text spells out, if it is well formed. -/
def read? (text : String) : Option Entries :=
  let cs := Reader.withoutMark text.toList
  (Reader.readLines (cs.length + 1) .empty cs).map (·.entries)

end SshAuthority.Toml

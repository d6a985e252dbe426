import SshAuthority.Host.Fault
/-!
# Network addresses

An address is a host and a port, after the last colon. A host is a number, written in one of the two
ways, or a name. Which fault a connection to it ends in, on a machine without a network, depends on how
far the address can be read.
-/
namespace SshAuthority.Host.Address

/-- The stretches before and after the last colon. -/
def split? (address : String) : Option (List Char × List Char) :=
  let cs := address.toList
  let port := (cs.reverse.takeWhile (· != ':')).reverse
  if port.length < cs.length then some (cs.take (cs.length - port.length - 1), port) else none

def isPort (cs : List Char) : Bool :=
  let digits := match cs with
    | '+' :: rest => rest
    | _ => cs
  !digits.isEmpty && digits.all Char.isDigit && (String.ofList digits).toNat?.any (· < 65536)

/-- The stretches between the characters `c`. -/
def stretches (c : Char) (cs : List Char) : List (List Char) :=
  cs.foldr (fun d parts => match parts with
    | part :: rest => if d == c then [] :: part :: rest else (d :: part) :: rest
    | [] => [[d]]) [[]]

def digit? (base : Nat) (c : Char) : Option Nat :=
  let n := c.toNat
  let value :=
    if 48 ≤ n && n ≤ 57 then n - 48
    else if 97 ≤ n && n ≤ 102 then n - 87
    else if 65 ≤ n && n ≤ 70 then n - 55
    else base
  if value < base then some value else none

/-- The number that at least one digit of the base spells. -/
def numeral? (base : Nat) (cs : List Char) : Option Nat :=
  if cs.isEmpty then none
  else cs.foldlM (fun n c => (digit? base c).map fun d => n * base + d) 0

/-- A number whose front tells its base. -/
def part? : List Char → Option Nat
  | '0' :: 'x' :: rest => numeral? 16 rest
  | '0' :: 'X' :: rest => numeral? 16 rest
  | '0' :: c :: rest => numeral? 8 (c :: rest)
  | cs => numeral? 10 cs

/-- The number of a host that is written as one to four numbers between dots. The last one fills all
the places that are left. -/
def dotted? (cs : List Char) : Option Nat := do
  let parts ← (stretches '.' cs).mapM part?
  let last ← parts.getLast?
  if parts.length ≤ 4 && parts.dropLast.all (· < 256) && last < Nat.pow 256 (5 - parts.length) then
    some (parts.dropLast.foldr (fun n rest => rest / 256 + n * Nat.pow 256 3) 0 + last)
  else none

def isGroup (cs : List Char) : Bool :=
  !cs.isEmpty && cs.length ≤ 4 && cs.all fun c => (digit? 16 c).isSome

/-- Four decimal numbers between dots. -/
def isPlainDotted (cs : List Char) : Bool :=
  let parts := stretches '.' cs
  parts.length == 4 && parts.all fun part =>
    part.length ≤ 3 && (part.length ≤ 1 || part.head? != some '0') &&
      (numeral? 10 part).any (· < 256)

/-- How many groups stand between the colons; four numbers between dots at the end make two. -/
def groups? (mayEndDotted : Bool) (cs : List Char) : Option Nat :=
  if cs.isEmpty then some 0
  else
    let parts := stretches ':' cs
    let last := parts.getLastD []
    if parts.all isGroup then some parts.length
    else if mayEndDotted && parts.dropLast.all isGroup && isPlainDotted last then
      some (parts.length + 1)
    else none

/-- The stretches before and after the first two colons in a row. -/
def splitGap? : List Char → Option (List Char × List Char)
  | ':' :: ':' :: rest => some ([], rest)
  | c :: rest => (splitGap? rest).map fun (before, after) => (c :: before, after)
  | [] => none

/-- Whether a host is written as eight groups between colons, two colons in a row standing for any
groups that are left out. -/
def isGrouped (cs : List Char) : Bool :=
  match splitGap? cs with
  | some (before, after) =>
    ((groups? false before).bind fun n => (groups? true after).map (n + ·)).any (· < 8)
  | none => groups? true cs == some 8

/-- Whether a host is such a number between brackets, perhaps with the number of a zone. -/
def isBracketed : List Char → Bool
  | '[' :: rest =>
    let inside := rest.dropLast
    let zone := inside.dropWhile (· != '%')
    rest.getLast? == some ']' && isGrouped (inside.takeWhile (· != '%')) &&
      (zone.isEmpty || (numeral? 10 (zone.drop 1)).any (· < Nat.pow 2 32))
  | _ => false

def isNameCharacter (c : Char) : Bool := c.isAlphanum || c == '-' || c == '.' || c == '_'

/-- Whether a name can be asked for: labels of up to 63 characters between dots, perhaps with a dot at
the end. -/
def isName (cs : List Char) : Bool :=
  let labels := stretches '.' cs
  let labels := if labels.getLast? == some [] then labels.dropLast else labels
  cs.all isNameCharacter && cs.head? != some '-' && cs.length ≤ 254 && !labels.isEmpty &&
    (cs == ['.'] || labels.all fun label => !label.isEmpty && label.length ≤ 63)

def isOwnName (cs : List Char) : Bool := cs.map Char.toLower == "localhost".toList

/-- What connecting to an address ends in where there is no network. -/
def fault (address : String) : Fault :=
  match split? address with
  | none => .badAddress
  | some (host, port) =>
    if !isPort port then .badPort
    else if host.contains '\x00' then .nulInName
    else if (dotted? host).isSome || isOwnName host then .networkUnreachable
    else if isGrouped host || (isBracketed host && port.head? != some '+') then .addressUnavailable
    else if isName host then .unresolved
    else .unknownHost

/-- Whether a host is this machine, or all that it answers to. -/
def isOwn (host : List Char) : Bool :=
  isOwnName host || (dotted? host).any fun n => n == 0 || n / Nat.pow 256 3 == 127

/-- The address that listening at an address gets, where there is no network. -/
def bound (address : String) : Except Fault String :=
  match fault address with
  | .system _ =>
    if (split? address).any fun (host, _) => isOwn host then .ok address
    else .error .addressUnavailable
  | f => .error f

end SshAuthority.Host.Address

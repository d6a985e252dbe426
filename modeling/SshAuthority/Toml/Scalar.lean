import SshAuthority.Toml.Text
/-!
# Numbers, truth values and moments in settings files

Whole numbers in four bases, floating-point numbers, and dates and times. Digits may be parted by
single underscores; a whole number must fit 64 bits, and a date must exist.
-/
namespace SshAuthority.Toml

inductive Scalar where
  | text (value : String)
  | whole (value : Int)
  | real (value : Float)
  | truth (value : Bool)
  /-- A date, a time, or both. -/
  | moment
  deriving Repr

namespace Scalar

def digitOf? (base : Nat) (c : Char) : Option Nat :=
  (Text.hexDigit? c).filter (· < base)

/-- The digits at the front, where an underscore may stand between two; `started` tells whether a digit
stands before. -/
def digits (base : Nat) (started : Bool) : List Char → Option (List Nat × List Char)
  | [] => if started then some ([], []) else none
  | '_' :: rest => if started then digits base false rest else none
  | c :: rest =>
    match digitOf? base c with
    | some n => (digits base true rest).map fun (ns, left) => (n :: ns, left)
    | none => if started then some ([], c :: rest) else none

/-- The number that digits spell. A long row is cut in two, so that its parts grow large only once. -/
def valueOf (base : Nat) (ns : List Nat) : Nat :=
  if _ : ns.length ≤ 32 then ns.foldl (fun n d => n * base + d) 0
  else
    let half := ns.length / 2
    let low := ns.drop half
    valueOf base (ns.take half) * Nat.pow base low.length + valueOf base low
termination_by ns.length
decreasing_by all_goals (simp; omega)

def sign : List Char → Bool × List Char
  | '-' :: rest => (true, rest)
  | '+' :: rest => (false, rest)
  | cs => (false, cs)

/-- Digits without a leading zero, unless it is the only digit. -/
def leadingDigits : List Char → Option (List Nat × List Char)
  | '0' :: rest => some ([0], rest)
  | cs => digits 10 false cs

def fitted (n : Int) : Option Scalar :=
  if -(Nat.pow 2 63 : Nat) ≤ n ∧ n < (Nat.pow 2 63 : Nat) then some (.whole n) else none

/-- `digits · 10 ^ power`, rounded to the nearest number. -/
def realOf (ns : List Nat) (power : Int) : Float :=
  let ns := ns.dropWhile (· == 0)
  let significand := valueOf 10 ns
  let size : Int := ns.length + power
  if ns.isEmpty || size < -400 then 0.0
  else if 400 < size then 1.0 / 0.0
  else if power < 0 then Float.ofScientific significand true (-power).toNat
  else Float.ofScientific significand false power.toNat

def signedReal (negative : Bool) (x : Float) : Option Scalar :=
  if negative then some (.real (-x)) else if x.isInf then none else some (.real x)

/-- The exponent that digits spell; one that is far out of range grows no further. -/
def exponentOf (ns : List Nat) : Nat := ns.foldl (fun n d => if n < Nat.pow 2 16 then n * 10 + d else n) 0

/-- The exponent behind its letter. -/
def power (cs : List Char) : Option (Int × List Char) := do
  let (negative, cs) := sign cs
  let (ns, rest) ← digits 10 false cs
  let n : Int := exponentOf ns
  return (if negative then -n else n, rest)

/-- A fraction, an exponent, or both, behind the leading digits. -/
def tail (cs : List Char) : Option (List Nat × Int × List Char) :=
  match cs with
  | '.' :: rest => do
    let (ns, rest) ← digits 10 false rest
    match rest with
    | c :: more =>
      if c == 'e' || c == 'E' then do
        let (n, left) ← power more
        return (ns, n, left)
      else return (ns, 0, rest)
    | [] => return (ns, 0, [])
  | c :: rest =>
    if c == 'e' || c == 'E' then do
      let (n, left) ← power rest
      return ([], n, left)
    else none
  | [] => none

def readReal : Reader Scalar := fun cs => do
  let (negative, cs) := sign cs
  match cs with
  | 'i' :: 'n' :: 'f' :: rest =>
    let x : Float := 1.0 / 0.0
    return (.real (if negative then -x else x), rest)
  | 'n' :: 'a' :: 'n' :: rest => return (.real (0.0 / 0.0), rest)
  | _ =>
    let (front, cs) ← leadingDigits cs
    let (fraction, n, rest) ← tail cs
    let x := realOf (front ++ fraction) (n - fraction.length)
    return (← signedReal negative x, rest)

def readWhole : Reader Scalar := fun cs => do
  let based (base : Nat) (cs : List Char) : Option (Scalar × List Char) := do
    let (ns, rest) ← digits base false cs
    return (← fitted (valueOf base ns), rest)
  match cs with
  | '0' :: 'x' :: rest => based 16 rest
  | '0' :: 'o' :: rest => based 8 rest
  | '0' :: 'b' :: rest => based 2 rest
  | _ =>
    let (negative, cs) := sign cs
    let (ns, rest) ← leadingDigits cs
    let n : Int := valueOf 10 ns
    return (← fitted (if negative then -n else n), rest)

/-! ## Moments -/

/-- Exactly `count` digits. -/
def fixed (count : Nat) : Reader Nat := fun cs =>
  let front := cs.take count
  if front.length = count && front.all Char.isDigit then
    some (valueOf 10 (front.map fun c => c.toNat - 48), cs.drop count)
  else none

def expect (c : Char) : Reader Unit := fun cs =>
  match cs with
  | d :: rest => if d == c then some ((), rest) else none
  | [] => none

def ensure (ok : Bool) : Reader Unit := if ok then pure () else failure

def isLeap (year : Nat) : Bool := year % 4 = 0 && (year % 100 != 0 || year % 400 = 0)

def daysIn (year month : Nat) : Nat :=
  if month = 2 then (if isLeap year then 29 else 28)
  else if month = 4 || month = 6 || month = 9 || month = 11 then 30
  else 31

def date : Reader Unit := do
  let year ← fixed 4
  expect '-'
  let month ← fixed 2
  ensure (1 ≤ month && month ≤ 12)
  expect '-'
  let day ← fixed 2
  ensure (1 ≤ day && day ≤ daysIn year month)

def hourAndMinute : Reader Unit := do
  ensure ((← fixed 2) ≤ 23)
  expect ':'
  ensure ((← fixed 2) ≤ 59)

/-- Passes over a point with digits behind it, if there is one. -/
def secondFraction : Reader Unit := fun cs =>
  match cs with
  | '.' :: rest =>
    if rest.head?.any Char.isDigit then some ((), rest.dropWhile Char.isDigit) else none
  | _ => some ((), cs)

def time : Reader Unit := do
  hourAndMinute
  expect ':'
  ensure ((← fixed 2) ≤ 60)
  secondFraction

/-- Passes over a distance from the world's time, if there is one. -/
def zone : Reader Unit := fun cs =>
  match cs with
  | 'Z' :: rest => some ((), rest)
  | 'z' :: rest => some ((), rest)
  | '+' :: rest => hourAndMinute rest
  | '-' :: rest => hourAndMinute rest
  | _ => some ((), cs)

def timeOfDay (cs : List Char) : Option (List Char) :=
  match cs with
  | c :: rest =>
    if c == 'T' || c == 't' || c == ' ' then do
      let (_, rest) ← time rest
      return (← zone rest).2
    else none
  | [] => none

def readMoment : Reader Scalar := fun cs =>
  match date cs with
  | some (_, rest) => some (.moment, (timeOfDay rest).getD rest)
  | none => (time cs).map fun (_, rest) => (.moment, rest)

def word (text : List Char) (value : Scalar) : Reader Scalar := fun cs =>
  if text.isPrefixOf cs then some (value, cs.drop text.length) else none

def read : Reader Scalar := fun cs =>
  match cs with
  | [] => none
  | c :: _ =>
    if c == '"' || c == '\'' then (Text.read cs).map fun (t, rest) => (.text t, rest)
    else if c == 't' then word "true".toList (.truth true) cs
    else if c == 'f' then word "false".toList (.truth false) cs
    else readMoment cs <|> readReal cs <|> readWhole cs

end Scalar

end SshAuthority.Toml

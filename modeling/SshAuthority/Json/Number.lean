import SshAuthority.Json.Fault
/-!
# Numbers of message payloads

A number without fraction and exponent that fits 64 bits is kept whole; any other becomes a floating
point number, from its leading digits as far as 64 bits hold them and a power of ten.
-/
namespace SshAuthority.Json

abbrev Reader := StateT Bytes (Except Fault)

def refuse {α : Type} (f : Fault) : Reader α := fun _ => .error f

def isDigit (b : UInt8) : Bool := 48 ≤ b && b ≤ 57

namespace Number

def limit : Nat := Nat.pow 2 64

/-- Adds digits to a significand while it stays below 2 ^ 64, and counts the digits left over. -/
def gather (significand : Nat) : Bytes → Nat × Nat
  | [] => (significand, 0)
  | b :: bs =>
    let next := significand * 10 + (b.toNat - 48)
    if next < limit then gather next bs else (significand, bs.length + 1)

def tenTo (n : Nat) : Float := Float.ofScientific 1 false n

def shrink (x : Float) (exponent : Nat) : Nat → Float
  | 0 => x
  | tries + 1 =>
    if exponent ≤ 308 then x / tenTo exponent
    else if x == 0 then x
    else shrink (x / tenTo 308) (exponent - 308) tries

/-- `significand · 10 ^ exponent`, rounded after each of the few steps that make it up. -/
def ofParts (negative : Bool) (significand : Nat) (exponent : Int) : Except Fault Number :=
  let x := significand.toUInt64.toFloat
  let signed (y : Float) : Number := .real (if negative then -y else y)
  if exponent < 0 then .ok (signed (shrink x (-exponent).toNat 8))
  else if exponent ≤ 308 then
    let y := x * tenTo exponent.toNat
    if y.isInf then .error (.malformed .numberOutOfRange) else .ok (signed y)
  else if significand = 0 then .ok (signed x)
  else .error (.malformed .numberOutOfRange)

def clamp (n : Int) : Int := max (-(Nat.pow 2 31 : Nat)) (min ((Nat.pow 2 31 : Nat) - 1) n)

/-- Reads on behind the sign of an exponent. -/
def afterSign (negative : Bool) (significand : Nat) (exponent : Int) (down : Bool) :
    Reader Number := fun bs =>
  match bs with
  | [] => .error (.ended .value)
  | b :: _ =>
    if !isDigit b then .error (.malformed .badNumber)
    else
      let digits := bs.takeWhile isDigit
      let rest := bs.dropWhile isDigit
      let n : Nat := digits.foldl (fun n b => if n < Nat.pow 2 31 then n * 10 + (b.toNat - 48) else n) 0
      if n < Nat.pow 2 31 then
        (ofParts negative significand
          (clamp (if down then exponent - n else exponent + n))).map (·, rest)
      else if significand != 0 && !down then .error (.malformed .numberOutOfRange)
      else .ok (.real (if negative then -0.0 else 0.0), rest)

def afterE (negative : Bool) (significand : Nat) (exponent : Int) : Reader Number := fun bs =>
  match bs with
  | 43 :: rest => afterSign negative significand exponent false rest
  | 45 :: rest => afterSign negative significand exponent true rest
  | _ => afterSign negative significand exponent false bs

/-- Reads an exponent if one follows. -/
def perhapsE (negative : Bool) (significand : Nat) (exponent : Int) : Reader Number := fun bs =>
  match bs with
  | b :: rest =>
    if b == 101 || b == 69 then afterE negative significand exponent rest
    else (ofParts negative significand exponent).map (·, bs)
  | [] => (ofParts negative significand exponent).map (·, bs)

def afterPoint (negative : Bool) (significand extra : Nat) : Reader Number := fun bs =>
  let digits := bs.takeWhile isDigit
  let rest := bs.dropWhile isDigit
  if digits.isEmpty then
    .error (if bs.isEmpty then .ended .value else .malformed .badNumber)
  else
    let (significand', left) := gather significand digits
    perhapsE negative significand' ((extra : Int) - ((digits.length - left : Nat) : Int)) rest

def whole (negative : Bool) (n : Nat) : Number :=
  if !negative then .natural n
  else if n = 0 || n > Nat.pow 2 63 then .real (-(n.toUInt64.toFloat))
  else .negative n

def afterInteger (negative : Bool) (significand extra : Nat) : Reader Number := fun bs =>
  match bs with
  | 46 :: rest => afterPoint negative significand extra rest
  | b :: _ =>
    if b == 101 || b == 69 || extra != 0 then perhapsE negative significand extra bs
    else .ok (whole negative significand, bs)
  | [] =>
    if extra != 0 then perhapsE negative significand extra bs else .ok (whole negative significand, [])

/-- Reads a number behind its sign. -/
def read (negative : Bool) : Reader Number := fun bs =>
  match bs with
  | [] => .error (.ended .value)
  | b :: rest =>
    if b == 48 then
      if rest.head?.any isDigit then .error (.malformed .badNumber)
      else afterInteger negative 0 0 rest
    else if isDigit b then
      let (significand, extra) := gather 0 (bs.takeWhile isDigit)
      afterInteger negative significand extra (bs.dropWhile isDigit)
    else .error (.malformed .badNumber)

def skipExponent : Reader Unit := fun bs =>
  let bs := match bs with
    | b :: rest => if b == 43 || b == 45 then rest else bs
    | [] => bs
  if bs.head?.any isDigit then .ok ((), bs.dropWhile isDigit) else .error (.malformed .badNumber)

def skipPerhapsE : Reader Unit := fun bs =>
  match bs with
  | b :: rest => if b == 101 || b == 69 then skipExponent rest else .ok ((), bs)
  | [] => .ok ((), bs)

/-- Passes over a number behind its sign. -/
def skip : Reader Unit := fun bs =>
  match bs with
  | [] => .error (.malformed .badNumber)
  | b :: rest =>
    if !isDigit b || (b == 48 && rest.head?.any isDigit) then .error (.malformed .badNumber)
    else
      match bs.dropWhile isDigit with
      | 46 :: after =>
        if after.head?.any isDigit then skipPerhapsE (after.dropWhile isDigit)
        else .error (.malformed .badNumber)
      | after => skipPerhapsE after

end Number

end SshAuthority.Json

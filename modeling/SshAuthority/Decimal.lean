/-!
# Decimal text of floating-point numbers

The shortest decimal that reads back as a given number, found on ever finer decimal grids with exact
integers, and the two ways of writing it: with an exponent outside a range, or always in full.
-/
namespace SshAuthority.Decimal

/-- A positive number `significand · 2 ^ power`, with the width of the gap below it. -/
structure Binary where
  significand : Nat
  power : Int
  narrowBelow : Bool
  deriving DecidableEq, Repr

def signBit (x : Float) : Bool := x.toBits.toNat / Nat.pow 2 63 == 1

def Binary.ofBits (bits : Nat) : Binary :=
  let exponent : Nat := bits / Nat.pow 2 52 % Nat.pow 2 11
  let fraction := bits % Nat.pow 2 52
  if exponent = 0 then ⟨fraction, -1074, false⟩
  else ⟨fraction + Nat.pow 2 52, (exponent : Int) - 1075, fraction == 0 && decide (1 < exponent)⟩

/-- Compares `a · 2 ^ p` with `d · 10 ^ k`. -/
def compareScaled (a : Nat) (p : Int) (d : Nat) (k : Int) : Ordering :=
  compare (a * Nat.pow 2 p.toNat * Nat.pow 10 (-k).toNat) (d * Nat.pow 10 k.toNat * Nat.pow 2 (-p).toNat)

namespace Binary

/-- Whether `d · 10 ^ k` reads back as `b`; the ends of the interval belong to even significands. -/
def holds (b : Binary) (d : Nat) (k : Int) : Bool :=
  let below := if b.narrowBelow then 4 * b.significand - 1 else 4 * b.significand - 2
  let even := b.significand % 2 == 0
  let above := 4 * b.significand + 2
  let low := compareScaled below (b.power - 2) d k
  let high := compareScaled above (b.power - 2) d k
  (low == .lt || (even && low == .eq)) && (high == .gt || (even && high == .eq))

/-- The whole part of `b / 10 ^ k`. -/
def floorOn (b : Binary) (k : Int) : Nat :=
  b.significand * Nat.pow 2 b.power.toNat * Nat.pow 10 (-k).toNat /
    (Nat.pow 10 k.toNat * Nat.pow 2 (-b.power).toNat)

/-- Whether `b / 10 ^ k` lies in the upper half of its unit, or exactly halfway above an odd one. -/
def roundsUpOn (b : Binary) (k : Int) (floor : Nat) : Bool :=
  match compareScaled (2 * b.significand) b.power (2 * floor + 1) k with
  | .lt => false
  | .gt => true
  | .eq => floor % 2 == 1

/-- The power of ten of the leading digit. -/
def leading (b : Binary) : Int := ((Nat.toDigits 10 (b.floorOn (-400))).length : Int) - 401

def onGrid (b : Binary) (k : Int) : Option Nat :=
  let floor := b.floorOn k
  match b.holds floor k, b.holds (floor + 1) k with
  | true, true => some (if b.roundsUpOn k floor then floor + 1 else floor)
  | true, false => some floor
  | false, true => some (floor + 1)
  | false, false => none

/-- Tries grids of `digits` digits and finer, `tries` of them. -/
def shortestFrom (b : Binary) (digits : Nat) : Nat → Nat × Int
  | 0 => (b.floorOn 0, 0)
  | tries + 1 =>
    let k := b.leading - digits + 1
    match b.onGrid k with
    | some d => (d, k)
    | none => shortestFrom b (digits + 1) tries

/-- The digits and their power of ten. A zero at their end, which a number just below a power of ten has
on the coarsest grid, goes into the power. -/
def shortest (b : Binary) : Nat × Int :=
  let (d, k) := shortestFrom b 1 17
  if d % 10 = 0 then (d / 10, k + 1) else (d, k)

end Binary

def zeros (n : Nat) : List Char := List.replicate n '0'

/-- `digits · 10 ^ k` in full, with at least one digit after the point. -/
def plain (digits : List Char) (k : Int) : List Char :=
  let point := digits.length + k
  if 0 ≤ k then digits ++ zeros k.toNat ++ ['.', '0']
  else if 0 < point then digits.take point.toNat ++ '.' :: digits.drop point.toNat
  else '0' :: '.' :: zeros (-point).toNat ++ digits

/-- A power of ten with its sign and at least two digits. -/
def writePower (power : Int) : List Char :=
  let digits := Nat.toDigits 10 power.natAbs
  (if power < 0 then '-' else '+') :: (if digits.length < 2 then '0' :: digits else digits)

/-- `digits · 10 ^ k` with one digit before the point and the power of ten behind. -/
def scientific (digits : List Char) (k : Int) : List Char :=
  let power := writePower (digits.length + k - 1)
  match digits with
  | [d] => d :: 'e' :: power
  | d :: rest => d :: '.' :: rest ++ 'e' :: power
  | [] => []

/-- Which positions of the point are written in full. -/
structure Form where
  plainFrom : Int
  plainTo : Int

/-- The form of numbers in messages about message payloads: up to sixteen digits before the point and
four zeros after it. -/
def Form.compact : Form := ⟨-4, 16⟩

def Form.write (form : Form) (x : Float) : String :=
  if x.isNaN then "NaN"
  else
    let sign := if signBit x then "-" else ""
    if x.isInf then sign ++ "inf"
    else
      let bits := x.toBits.toNat % Nat.pow 2 63
      if bits = 0 then sign ++ "0.0"
      else
        let (d, k) := (Binary.ofBits bits).shortest
        let digits := Nat.toDigits 10 d
        let point := digits.length + k
        sign ++ String.ofList
          (if form.plainFrom ≤ point && point ≤ form.plainTo then plain digits k else scientific digits k)

/-- The form of numbers in messages about settings: never an exponent. -/
def Form.full : Form := ⟨-400, 400⟩

end SshAuthority.Decimal

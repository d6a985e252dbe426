import SshAuthority.Text.LowerCase.Table
/-!
# Lower case

A capital sigma becomes a final sigma at the end of a word, which the characters around it decide;
every other character has one form wherever it stands.
-/
namespace SshAuthority.Text.LowerCase

def inRanges (ranges : List (Nat × Nat)) (c : Char) : Bool :=
  ranges.any fun (first, last) => first ≤ c.toNat && c.toNat ≤ last

def isCased (c : Char) : Bool := inRanges casedRanges c

def isIgnorable (c : Char) : Bool := inRanges ignorableRanges c

def Run.holds (r : Run) (n : Nat) : Bool :=
  r.first ≤ n && n ≤ r.last && (n - r.first) % r.step == 0

/-- The form of a character that is no capital sigma. -/
def ofChar (c : Char) : List Char :=
  if c.toNat < 0x80 then [if 'A' ≤ c && c ≤ 'Z' then Char.ofNat (c.toNat + 0x20) else c]
  else if c = 'İ' then ['i', '\u0307']
  else match runs.find? (Run.holds · c.toNat) with
    | some r => [Char.ofNat (c.toNat + r.target - r.first)]
    | none => [c]

def meetsCased (cs : List Char) : Bool :=
  match cs.dropWhile isIgnorable with
  | c :: _ => isCased c
  | [] => false

def sigma (before after : List Char) : Char :=
  if meetsCased before && !meetsCased after then 'ς' else 'σ'

/-- Lower-cases `cs`, which follows the reverse of `before`. -/
def withBefore (before : List Char) : List Char → List Char
  | [] => []
  | c :: cs =>
    (if c = 'Σ' then [sigma before cs] else ofChar c) ++ withBefore (c :: before) cs

end SshAuthority.Text.LowerCase

namespace SshAuthority.Text

def lowerCase (cs : List Char) : List Char := LowerCase.withBefore [] cs

end SshAuthority.Text

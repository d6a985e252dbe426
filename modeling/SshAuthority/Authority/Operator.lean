import SshAuthority.Text.Utf8
/-!
# The operator's input

Each confirmation takes one line of the operator's input. A line counts when it is terminated and
valid text; what it says does not matter. An unterminated rest is taken and does not count.
-/
namespace SshAuthority.Authority.Operator

def newline : UInt8 := 10

/-- The next line with its newline, or the rest where no newline is left; and what follows. -/
def takeLine (input : Bytes) : Bytes × Bytes :=
  let line := input.takeWhile (· != newline)
  match input.drop line.length with
  | [] => (line, [])
  | b :: rest => (line ++ [b], rest)

/-- Whether a taken line is a confirmation. -/
def isYes (line : Bytes) : Bool :=
  line.getLast? = some newline && (Utf8.decode? line).isSome

def confirm (input : Bytes) : Bool × Bytes :=
  let (line, rest) := takeLine input
  (isYes line, rest)

def confirmations : Nat → Bytes → List Bool
  | 0, _ => []
  | n + 1, input =>
    let (yes, rest) := confirm input
    yes :: confirmations n rest

end SshAuthority.Authority.Operator

import SshAuthority.Arguments.Grammar
/-!
# Reading a command line

Words are read one by one. An argument whose value may still follow is held back until the next word
shows that none does, so a missing value is noticed there. Behind a word of two dashes all words are
taken by their place.
-/
namespace SshAuthority.Arguments

/-- How far a command line was read. -/
structure Progress where
  given : Given
  /-- The argument that is held back, with its value if that was read. -/
  held : Option (Argument × Option Bytes)
  /-- The places that are still free. -/
  places : List Argument
  /-- Whether all further words go by their place. -/
  literal : Bool

namespace Progress

def start (g : Grammar) : Progress := ⟨[], none, g.placed, false⟩

/-- Whether the next word may be the value of the argument that is held back. -/
def awaits (p : Progress) : Bool := p.held.any (·.2.isNone)

/-- Gives the argument that is held back what was read for it. -/
def settle (p : Progress) : Except Refusal Progress :=
  match p.held with
  | none => .ok p
  | some (a, value) => do return { p with given := ← give a value p.given, held := none }

def take (p : Progress) (a : Argument) (value : Option Bytes) : Except Refusal Progress := do
  let p ← p.settle
  return { p with given := ← give a value p.given }

def hold (p : Progress) (a : Argument) (value : Option Bytes) : Except Refusal Progress := do
  return { ← p.settle with held := some (a, value) }

end Progress

def dash : UInt8 := 45

def equals : UInt8 := 61

namespace Grammar

def command? (g : Grammar) (word : Bytes) : Option String :=
  g.commands.find? fun c => Utf8.encode c == word

/-- Reads a long word behind its two dashes. -/
def readLong (g : Grammar) (p : Progress) (word : Bytes) : Except Refusal Progress :=
  let name := word.takeWhile (· != equals)
  let value := if name.length < word.length then some (word.drop (name.length + 1)) else none
  match g.named.find? fun a => Utf8.encode a.name == name with
  | none => .error .argumentUnknown
  | some a =>
    match a.role.takesValue, value with
    | true, some v => p.take a (some v)
    | true, none => p.hold a none
    | false, some _ => .error .valueUnwanted
    | false, none => p.take a none

/-- Reads letters behind one dash. What follows the letter of an argument with a value is the value. -/
def readLetters (g : Grammar) (p : Progress) : Bytes → Except Refusal Progress
  | [] => .ok p
  | b :: bs =>
    match Utf8.firstPiece b bs with
    | (.broken _, _) => .error .argumentUnknown
    | (.char c, taken) =>
      let rest := bs.drop taken
      match g.named.find? fun a => a.letter == some c with
      | none => .error .argumentUnknown
      | some a =>
        if a.role.takesValue then
          match rest with
          | [] => p.hold a none
          | r :: more => p.take a (some (if r = equals then more else rest))
        else match p.take a none with
          | .error refusal => .error refusal
          | .ok p => readLetters g p rest
termination_by bs => bs.length
decreasing_by simp only [List.length_drop, List.length_cons]; omega

/-- Reads a word that goes by its place. -/
def readPlaced (g : Grammar) (p : Progress) (word : Bytes) : Except Refusal Progress :=
  match p.places with
  | a :: places => do return { ← p.hold a (some word) with places }
  | [] =>
    if g.commands.isEmpty || (p.literal && (g.command? word).isSome) then .error .argumentUnknown
    else .error .commandUnknown

def readPlain (g : Grammar) (p : Progress) (word : Bytes) : Except Refusal Progress :=
  match p.held with
  | some (a, none) => .ok { p with held := some (a, some word) }
  | _ => readPlaced g p word

def readWord (g : Grammar) (p : Progress) (word : Bytes) : Except Refusal Progress :=
  if p.literal then readPlaced g p word
  else match word with
    | [] => readPlain g p word
    | [_] => readPlain g p word
    | a :: b :: rest =>
      if a != dash then readPlain g p word
      else if b != dash then readLetters g p (b :: rest)
      else if rest.isEmpty then .ok { p with literal := true }
      else readLong g p rest

/-- Reads words up to a command; gives what was read, and the command with the words behind it. -/
def read (g : Grammar) (p : Progress) : List Bytes → Except Refusal (Progress × Option (String × List Bytes))
  | [] => .ok (p, none)
  | word :: rest =>
    match if p.literal || p.awaits then none else g.command? word with
    | some name => .ok (p, some (name, rest))
    | none => do read g (← readWord g p word) rest

/-- Reads the words of a command that has no commands of its own. -/
def readAll (g : Grammar) (words : List Bytes) : Except Refusal Given := do
  let (p, _) ← read g (.start g) words
  let given := (← p.settle).given
  if (g.named ++ g.placed).all fun a => !a.required || given.has a.name then return given
  else throw .argumentMissing

end Grammar

end SshAuthority.Arguments

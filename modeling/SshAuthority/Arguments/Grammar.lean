import SshAuthority.Text.Utf8
/-!
# Arguments of a command line

What a command line may hold, and what is refused. An argument goes by a long word and perhaps by a
letter, or by its place. A value may stand in the same word or in the next one.
-/
namespace SshAuthority.Arguments

/-- What a named argument or a place takes. -/
inductive Role where
  | switch
  /-- The name of a file, which is not empty. -/
  | path
  | text
  /-- Texts between commas; it may be given several times. -/
  | texts
  | help
  | version
  deriving DecidableEq, Repr

def Role.takesValue : Role → Bool
  | .path | .text | .texts => true
  | .switch | .help | .version => false

structure Argument where
  /-- What the argument is known by, and its long word if it is a named one. -/
  name : String
  letter : Option Char
  role : Role
  required : Bool
  deriving DecidableEq, Repr

structure Grammar where
  named : List Argument
  /-- The arguments that go by their place, in order. -/
  placed : List Argument
  /-- The commands one of which must follow, if there are any. -/
  commands : List String
  deriving DecidableEq, Repr

/-- Why a command line asks for nothing that can be done. -/
inductive Refusal where
  | help
  | version
  /-- Nothing is given where a command must follow. -/
  | nothingGiven
  | commandMissing
  | commandUnknown
  | argumentUnknown
  | argumentMissing
  /-- An argument is given again that may be given once. -/
  | argumentRepeated
  | valueInvalid
  /-- A value is given to a switch. -/
  | valueUnwanted
  | valueNotText
  deriving DecidableEq, Repr

def Refusal.message : Refusal → String
  | .help => "help is asked for"
  | .version => "the version is asked for"
  | .nothingGiven | .commandMissing => "a command is required"
  | .commandUnknown => "there is no such command"
  | .argumentUnknown => "an argument is not expected"
  | .argumentMissing => "a required argument is missing"
  | .argumentRepeated => "an argument is given more than once"
  | .valueInvalid => "an argument has no valid value"
  | .valueUnwanted => "an argument takes no value"
  | .valueNotText => "an argument is not valid text"

/-- Help and version are asked for, so to tell them is a success. -/
def Refusal.exitCode : Refusal → Nat
  | .help | .version => 0
  | _ => 2

inductive Value where
  | switch
  | path (path : Bytes)
  | text (text : String)
  | texts (texts : List String)
  deriving DecidableEq, Repr

abbrev Given := List (String × Value)

namespace Given

def has (g : Given) (name : String) : Bool := (g.lookup name).isSome

def path? (g : Given) (name : String) : Option Bytes :=
  match g.lookup name with
  | some (.path path) => some path
  | _ => none

def text? (g : Given) (name : String) : Option String :=
  match g.lookup name with
  | some (.text text) => some text
  | _ => none

def texts (g : Given) (name : String) : List String :=
  match g.lookup name with
  | some (.texts texts) => texts
  | _ => []

def without (g : Given) (name : String) : Given := g.filter fun (n, _) => n != name

end Given

def comma : UInt8 := 44

def betweenCommas : Bytes → List Bytes
  | [] => [[]]
  | b :: bs =>
    if b = comma then [] :: betweenCommas bs
    else match betweenCommas bs with
      | [] => [[b]]
      | s :: rest => (b :: s) :: rest

def textOf (value : Bytes) : Except Refusal String :=
  match Utf8.decode? value with
  | some text => .ok text
  | none => .error .valueNotText

/-- Gives an argument once, where it was not given before. -/
def once (a : Argument) (value : Except Refusal Value) (g : Given) : Except Refusal Given := do
  if g.has a.name then throw .argumentRepeated
  return (a.name, ← value) :: g

/-- Gives an argument what stands for its value on the command line, if anything does. -/
def give (a : Argument) (value : Option Bytes) (g : Given) : Except Refusal Given :=
  match a.role, value with
  | .help, _ => .error .help
  | .version, _ => .error .version
  | .switch, _ => once a (.ok .switch) g
  | _, none => .error .valueInvalid
  | .path, some v => once a (if v.isEmpty then .error .valueInvalid else .ok (.path v)) g
  | .text, some v => once a ((textOf v).map .text) g
  | .texts, some v => do
    let more ← (betweenCommas v).mapM textOf
    return (a.name, .texts (g.texts a.name ++ more)) :: g.without a.name

end SshAuthority.Arguments

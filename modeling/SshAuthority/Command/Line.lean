import SshAuthority.Arguments.Reading
import SshAuthority.Connection.Options
/-!
# The command line

What can be asked for: to serve an authority's key, to trust an authority, and to have it sign a user's
key or the host's keys. Which settings file is read, and how much is logged, can be told before and
behind the command.
-/
namespace SshAuthority.Command
open Arguments

/-- How an authority is to be reached. -/
structure Reach where
  isLocal : Bool
  signer : Option Bytes
  publicPath : Option Bytes
  remote : Option String
  deriving DecidableEq, Repr

def Reach.options (r : Reach) (tool : Bytes) : Connection.Options :=
  ⟨r.isLocal, r.signer, r.publicPath, r.remote, tool⟩

inductive Action where
  | serve (address : String) (signer : Bytes) (publicPath : Option Bytes) (skipsConfirmation : Bool)
  | trust (reach : Reach)
  | signUser (reach : Reach) (principals : List String) (publicKey : Bytes)
  | signHost (reach : Reach) (principals : List String) (daemonConfig : Option Bytes)
  deriving DecidableEq, Repr

structure Line where
  settings : Option Bytes
  verbose : Bool
  action : Action
  deriving DecidableEq, Repr

namespace Line

def usage : String :=
  "\n".intercalate
    ["Usage: sshca [--config PATH] [-v] COMMAND", "",
      "  server ADDRESS -s PRIVATE_KEY [-p PUBLIC_KEY] [-q]",
      "  trust (-l -s PRIVATE_KEY [-p PUBLIC_KEY] | -r HOST:PORT)",
      "  sign-user (-l -s PRIVATE_KEY | -r HOST:PORT) -n PRINCIPALS PUBLIC_KEY",
      "  sign-host (-l -s PRIVATE_KEY | -r HOST:PORT) [-n PRINCIPALS] [--sshd-config PATH]"]

def version : String := "sshca 0.1.0"

def help : Argument := ⟨"help", some 'h', .help, false⟩

/-- The arguments that can stand before and behind the command. -/
def common : List Argument :=
  [⟨"config", none, .path, false⟩, ⟨"verbose", some 'v', .switch, false⟩, help]

def reachArguments : List Argument :=
  [⟨"local", some 'l', .switch, false⟩, ⟨"ca-private", some 's', .path, false⟩,
    ⟨"ca-public", some 'p', .path, false⟩, ⟨"remote", some 'r', .text, false⟩]

def top : Grammar where
  named := common ++ [⟨"version", some 'V', .version, false⟩]
  placed := []
  commands := ["server", "trust", "sign-user", "sign-host", "help"]

def server : Grammar where
  named := common ++
    [⟨"private", some 's', .path, true⟩, ⟨"public", some 'p', .path, false⟩,
      ⟨"skip-confirmation", some 'q', .switch, false⟩]
  placed := [⟨"address", none, .text, true⟩]
  commands := []

def trust : Grammar where
  named := common ++ reachArguments
  placed := []
  commands := []

def signUser : Grammar where
  named := common ++ reachArguments ++ [⟨"principals", some 'n', .texts, true⟩]
  placed := [⟨"public-key", none, .path, true⟩]
  commands := []

def signHost : Grammar where
  named := common ++ reachArguments ++
    [⟨"principals", some 'n', .texts, false⟩, ⟨"sshd-config", none, .path, false⟩]
  placed := []
  commands := []

def reachOf (g : Given) : Reach :=
  ⟨g.has "local", g.path? "ca-private", g.path? "ca-public", g.text? "remote"⟩

/-- What is to be done, from the arguments of a command that are all there. -/
def actionOf (command : String) (g : Given) : Option Action :=
  if command = "server" then do
    return .serve (← g.text? "address") (← g.path? "private") (g.path? "public")
      (g.has "skip-confirmation")
  else if command = "trust" then some (.trust (reachOf g))
  else if command = "sign-user" then do
    return .signUser (reachOf g) (g.texts "principals") (← g.path? "public-key")
  else if command = "sign-host" then
    some (.signHost (reachOf g) (g.texts "principals") (g.path? "sshd-config"))
  else none

def grammarOf (command : String) : Grammar :=
  if command = "server" then server
  else if command = "sign-user" then signUser
  else if command = "sign-host" then signHost
  else trust

/-- What is told to somebody who asks for help on a command. -/
def helpOn : List Bytes → Refusal
  | [] => .help
  | [topic] => if (top.command? topic).isSome then .help else .commandUnknown
  | _ => .commandUnknown

/-- Reads a command line, without the name of the program. -/
def read (words : List Bytes) : Except Refusal Line := do
  match ← top.read (.start top) words with
  | (p, none) =>
    let p ← p.settle
    throw (if p.given.isEmpty then .nothingGiven else .commandMissing)
  | (p, some (command, rest)) =>
    if command = "help" then throw (helpOn rest)
    let inner ← (grammarOf command).readAll rest
    let outer := (← p.settle).given
    match actionOf command inner with
    | none => throw .argumentMissing
    | some action =>
      return ⟨inner.path? "config" <|> outer.path? "config",
        inner.has "verbose" || outer.has "verbose", action⟩

end Line

end SshAuthority.Command

import SshAuthority.Host.Basic
import SshAuthority.Host.Path
import SshAuthority.Text.Quoted
/-!
# Names in certificates

A certificate's identity is made of the host's name, whose key it certifies, and a short name of the
key; a host certificate is good for the host's name, its first label and what else is asked for.
-/
namespace SshAuthority.Command

open Text

/-- Whose key a host certificate certifies. -/
def hostOwner : String := "host"

def publicEnding : List Char := ".pub".toList

def afterFront? (front cs : List Char) : Option (List Char) :=
  if front.isPrefixOf cs then some (cs.drop front.length) else none

def beforeEnding? (ending cs : List Char) : Option (List Char) :=
  if ending.isSuffixOf cs then some (cs.take (cs.length - ending.length)) else none

def fileText (path : Bytes) : List Char :=
  match Path.fileName path with
  | some name => (Utf8.decodeLossy name).toList
  | none => []

/-- The name of the file at a path without the ending of public keys. -/
def stem (path : Bytes) : List Char := (beforeEnding? publicEnding (fileText path)).getD (fileText path)

/-- The kind of key that a file name of the usual form tells. -/
def usualKind? (name : List Char) : Option (List Char) :=
  let ofHost := (afterFront? "ssh_host_".toList name).bind (beforeEnding? "_key.pub".toList)
  let ofUser := (afterFront? "id_".toList name).bind (beforeEnding? publicEnding)
  (ofHost <|> ofUser).filter fun kind => !kind.isEmpty && !kind.contains '_'

def keyName (path : Bytes) : String := String.ofList ((usualKind? (fileText path)).getD (stem path))

def certificateIdentity (host owner : String) (path : Bytes) : String :=
  host ++ "_" ++ owner ++ "_" ++ keyName path

/-- Where the certificate of the public key at a path goes. -/
def certificatePath (path : Bytes) : Bytes :=
  Path.withFileName path (Utf8.encode (String.ofList (stem path ++ "-cert.pub".toList)))

def firstLabel (host : String) : String := String.ofList (host.toList.takeWhile (· != '.'))

/-- The distinct names a host certificate is good for, in order of first mention. -/
def hostPrincipals (host : String) (extra : List String) : List String :=
  (host :: firstLabel host :: extra).foldl
    (fun names name => if name.isEmpty || names.contains name then names else names ++ [name]) []

inductive NameFault where
  | hostNotText (name : Bytes)
  | noUser (number : Nat)
  | userNotText (number : Nat) (name : Bytes)
  deriving DecidableEq, Repr

def NameFault.chain : NameFault → List String
  | .hostNotText name =>
    let shown := quoteBytes name
    ["hostname " ++ shown ++ " is not valid UTF-8"]
  | .noUser number => [unset number, "environment variable not found"]
  | .userNotText number name =>
    let shown := quoteBytes name
    [unset number, "environment variable was not valid unicode: " ++ shown]
where
  unset (number : Nat) : String :=
    "No user entry for uid " ++ toString number ++ " and USER is unset"

variable {m : Type → Type} [Monad m]

def hostName (host : Host m) : m (Except NameFault String) := do
  let name ← host.hostName
  match Utf8.decode? name with
  | some text => return .ok text
  | none => return .error (.hostNotText name)

/-- The user's name in the list of accounts, or what the environment says where it has none. -/
def userName (host : Host m) : m (Except NameFault String) := do
  match ← host.accountName with
  | some name => return .ok (Utf8.decodeLossy name)
  | none =>
    let number ← host.userNumber
    match ← host.environment "USER" with
    | none => return .error (.noUser number)
    | some value => match Utf8.decode? value with
      | some text => return .ok text
      | none => return .error (.userNotText number value)

end SshAuthority.Command

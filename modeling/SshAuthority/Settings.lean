import SshAuthority.Decimal
import SshAuthority.Host.Basic
import SshAuthority.Host.Path
import SshAuthority.Toml.Reader
/-!
# Settings

Where the files and programs are that the commands work with. A settings file says which of them differ
from those of a usual installation; what else stands in it is passed over.
-/
namespace SshAuthority

structure Settings where
  /-- The configuration of the SSH daemon. -/
  daemonConfig : String
  /-- The keys of authorities that are trusted to vouch for users. -/
  trustedAuthorities : String
  knownHosts : String
  keygenProgram : String
  daemonProgram : String
  deriving DecidableEq, Repr

inductive SettingsFault where
  | unreadable (path : Bytes) (fault : Host.Fault)
  /-- The reason is told where a value is of the wrong kind. -/
  | malformed (path : Bytes) (reason : Option String)
  deriving DecidableEq, Repr

namespace SettingsFault

def summary : SettingsFault → String
  | .unreadable path _ => "Failed to read settings at " ++ Utf8.decodeLossy path
  | .malformed path _ => "Failed to parse settings at " ++ Utf8.decodeLossy path

def chain (fault : SettingsFault) : List String :=
  fault.summary :: match fault with
    | .unreadable _ cause => [cause.message]
    | .malformed _ reason => reason.toList

end SettingsFault

namespace Settings

def usual : Settings where
  daemonConfig := "/etc/ssh/sshd_config"
  trustedAuthorities := "/etc/ssh/trusted_cas"
  knownHosts := "/etc/ssh/ssh_known_hosts"
  keygenProgram := "ssh-keygen"
  daemonProgram := "sshd"

/-- The keys of a settings file, each with the way to read and to change what it sets. -/
def fields : List (String × (Settings → String) × (String → Settings → Settings)) :=
  [("sshd_config", daemonConfig, fun path s => { s with daemonConfig := path }),
    ("trusted_user_ca_keys", trustedAuthorities, fun path s => { s with trustedAuthorities := path }),
    ("known_hosts", knownHosts, fun path s => { s with knownHosts := path }),
    ("keygen_program", keygenProgram, fun path s => { s with keygenProgram := path }),
    ("sshd_program", daemonProgram, fun path s => { s with daemonProgram := path })]

/-- What a value that is no path is called. -/
def kindText : Toml.Node → String
  | .leaf (.text value) => "string " ++ value
  | .leaf (.whole value) => s!"integer `{value}`"
  | .leaf (.real value) => "floating point `" ++ Decimal.Form.full.write value ++ "`"
  | .leaf (.truth value) => s!"boolean `{value}`"
  | .leaf .moment | .table _ _ => "map"
  | .list _ | .rows _ => "sequence"

/-- Takes one entry of a settings file over. -/
def takeOver (s : Settings) (entry : String × Toml.Node) : Except String Settings :=
  match fields.lookup entry.1, entry.2 with
  | none, _ => .ok s
  | some (_, change), .leaf (.text path) => .ok (change path s)
  | some _, node => .error s!"invalid type: {kindText node}, expected path string"

def ofEntries (es : Toml.Entries) : Except String Settings := es.foldlM takeOver usual

def ofText (path : Bytes) (text : String) : Except SettingsFault Settings :=
  match Toml.read? text with
  | none => .error (.malformed path none)
  | some es => (ofEntries es).mapError fun reason => .malformed path (some reason)

/-- The settings file that says what the settings say. -/
def toText (s : Settings) : String :=
  String.join (fields.map fun (key, value, _) => key ++ " = " ++ Toml.Text.write (value s) ++ "\n")

section
variable {m : Type → Type} [Monad m]

def ofFile (host : Host m) (path : Bytes) : m (Except SettingsFault Settings) := do
  match ← host.read path with
  | .error fault => return .error (.unreadable path fault)
  | .ok content =>
    match Utf8.decode? content with
    | none => return .error (.unreadable path .notUtf8)
    | some text => return ofText path text

/-- The file that is read where none is named, under the directory of the user's settings. -/
def usualFile (home : Bytes) : Bytes :=
  Path.join (Path.join home (Utf8.encode "sshca")) (Utf8.encode "config.toml")

/-- The settings of the named file, or else those of the usual file if there is one. -/
def load (host : Host m) (named : Option Bytes) : m (Except SettingsFault Settings) := do
  match named with
  | some path => ofFile host path
  | none =>
    match ← host.settingsHome with
    | none => return .ok usual
    | some home =>
      let path := usualFile home
      match ← host.isDirectory path with
      | .error _ => return .ok usual
      | .ok _ => ofFile host path

end

end Settings

end SshAuthority

import SshAuthority.Config.Effective
import SshAuthority.Config.Modifier
import SshAuthority.Host.Basic
/-!
# Asking the daemon

The daemon itself checks a configuration file, and prints the values it would take from it.
-/
namespace SshAuthority.Config

variable {m : Type → Type} [Monad m]

/-- Has the daemon check the file at `path`. -/
def daemonCheck (host : Host m) (program path : Bytes) : m (Except CheckFault Unit) := do
  return verdict program (← host.run program [Utf8.encode "-t", Utf8.encode "-f", path])

/-- Every value the daemon would use for `key` with the configuration at `path`. -/
def lookup (host : Host m) (program path : Bytes) (key : String) :
    m (Except ConfigFault (List String)) := do
  let ended ← host.run program [Utf8.encode "-T", Utf8.encode "-f", path]
  match Host.checked program ended with
  | .error fault => return .error (.effective path fault)
  | .ok e => return .ok (valuesFor (Utf8.decodeLossy e.out) key)

end SshAuthority.Config

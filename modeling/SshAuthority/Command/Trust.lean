import SshAuthority.Command.Fault
import SshAuthority.Command.Line
import SshAuthority.Config.Daemon
/-!
# Trusting an authority

The authority's key is fetched and put among the known hosts, then among the authorities trusted for
users, and last the daemon is told of the file that holds those. Each step is taken only when those
before it succeeded.
-/
namespace SshAuthority.Command

variable {m : Type → Type} [Monad m]

def trusted (key : PublicKey) (purpose : String) : String :=
  "trusted public key (fingerprint " ++ key.fingerprint ++ ") as authority for " ++ purpose ++
    " authentication"

/-- Trusts a key to vouch for hosts. -/
def trustForHosts (host : Host m) (s : Settings) (key : PublicKey) : m (Except Fault Unit) := do
  match ← addLine host.toFiles (Utf8.encode s.knownHosts) (Utf8.encode key.knownHostsEntry) with
  | .error fault => return .error (.knownHosts fault)
  | .ok _ =>
    host.print (trusted key "host")
    return .ok ()

/-- The edit that tells the daemon which authorities are trusted for users. -/
def trustEdit (s : Settings) : Config.Edit := ⟨.only, "TrustedUserCAKeys", s.trustedAuthorities⟩

/-- Trusts a key to vouch for users. -/
def trustForUsers (host : Host m) (s : Settings) (key : PublicKey) : m (Except Fault Unit) := do
  match ← addLine host.toFiles (Utf8.encode s.trustedAuthorities) key.bytes with
  | .error fault => return .error (.trustedAuthorities fault)
  | .ok _ =>
    match (Config.Modifier.new (Utf8.encode s.daemonConfig)).queue (trustEdit s) with
    | .error fault => return .error (.edit fault)
    | .ok edits =>
      let check := Config.daemonCheck host (Utf8.encode s.daemonProgram)
      match (← edits.commit host.toFiles check).1 with
      | .error fault => return .error (.trustNotSet fault)
      | .ok _ =>
        host.print (trusted key "user")
        return .ok ()

/-- Trusts a key for hosts and for users. -/
def trustKey (host : Host m) (s : Settings) (key : PublicKey) : m (Except Fault Unit) := do
  match ← trustForHosts host s key with
  | .error fault => return .error fault
  | .ok _ => trustForUsers host s key

/-- Trusts the key that a caller fetches from its authority. -/
def trustAuthority (host : Host m) (s : Settings) (caller : Connection.Caller m) :
    m (Except Fault Unit) := do
  match (← caller.publicKey).1 with
  | .error fault => return .error (.keyNotFetched fault)
  | .ok content =>
    match PublicKey.parse content with
    | .error fault => return .error (.authorityKeyInvalid fault)
    | .ok key => trustKey host s key

/-- Reaches the authority that is asked for. -/
def reach (host : Host m) (s : Settings) (r : Reach) : m (Except Fault (Connection.Caller m)) := do
  return (← (r.options (Utf8.encode s.keygenProgram)).connect host).mapError .unreachable

def trust (host : Host m) (s : Settings) (r : Reach) : m (Except Fault Unit) := do
  match ← reach host s r with
  | .error fault => return .error fault
  | .ok caller => trustAuthority host s caller

end SshAuthority.Command

import SshAuthority.Command.Names
import SshAuthority.Command.Store
import SshAuthority.Config.Modifier
import SshAuthority.Settings
/-!
# Faults of commands

What a command can fail with. A fault is reported by what the command was doing, followed by the causes
one behind the other; several faults are reported as a list.
-/
namespace SshAuthority.Command

inductive Fault where
  | settings (fault : SettingsFault)
  | unreachable (fault : Connection.TransportFault)
  | keyNotFetched (fault : Connection.ClientFault)
  | authorityKeyInvalid (fault : Key.Fault)
  | knownHosts (fault : StoreFault)
  | trustedAuthorities (fault : StoreFault)
  | trustNotSet (fault : Config.ConfigFault)
  | pathNotText (path : Bytes)
  | edit (fault : Config.ConfigFault)
  | name (fault : NameFault)
  | hostKeysUnknown (fault : Config.ConfigFault)
  | keyUnreadable (path : Bytes) (fault : Host.Fault)
  | keyInvalid (path : Bytes) (fault : Key.Fault)
  | notCertified (path : Bytes) (fault : Connection.ClientFault)
  | notStored (fault : StoreFault)
  | notRegistered (fault : Config.ConfigFault)
  | notServing (fault : Authority.ServiceFault)
  | notListening (address : String) (fault : Host.Fault)

namespace Fault

def shown (path : Bytes) : String := Utf8.decodeLossy path

def chain : Fault → List String
  | .settings f => f.chain
  | .unreachable f => "Failed to reach SSH CA" :: f.chain
  | .keyNotFetched f => "Failed to fetch public key from CA" :: f.chain
  | .authorityKeyInvalid f => ["CA sent an invalid public key", f.message]
  | .knownHosts f => "Failed to add CA to known hosts" :: f.chain
  | .trustedAuthorities f => "Failed to add CA to trusted user CA keys" :: f.chain
  | .trustNotSet f => "Unable to set TrustedUserCAKeys" :: f.chain
  | .pathNotText path => ["Path " ++ shown path ++ " is not valid UTF-8"]
  | .edit f => f.chain
  | .name f => f.chain
  | .hostKeysUnknown f => "Failed to find host keys" :: f.chain
  | .keyUnreadable path f => ["Failed to read public key at " ++ shown path, f.message]
  | .keyInvalid path f => ["Invalid public key at " ++ shown path, f.message]
  | .notCertified path f => ("Failed to generate certificate for " ++ shown path) :: f.chain
  | .notStored f => f.chain
  | .notRegistered f => "Failed to register host certificates" :: f.chain
  | .notServing f => "Failed to initialize SSH CA server" :: f.chain
  | .notListening address f => ["Failed to listen on " ++ address, f.message]

def report (f : Fault) : String := ": ".intercalate f.chain

/-- The report on all that went wrong, if anything did. -/
def reportAll : List Fault → Option String
  | [] => none
  | [f] => some f.report
  | fs =>
    let count := toString fs.length
    some (count ++ " errors occurred:" ++ String.join (fs.map fun f => "\n  * " ++ f.report))

end Fault

end SshAuthority.Command

import SshAuthority.Host.Program
import SshAuthority.Key.Algorithm
import SshAuthority.Wire.Message
/-!
# Faults of the authority

What signing, and loading the authority's key, can fail with; and how much of it a peer is told. A
peer never learns how a signature failed, because the authority's terminal may be shared.
-/
namespace SshAuthority.Authority

/-- Why no certificate came out of a signing run. -/
inductive SigningFault where
  /-- The key could not be put where the tool finds it. -/
  | stage (fault : Host.Fault)
  | launch (program : Bytes) (fault : Host.Fault)
  | exit (program : Bytes) (status : Host.ExitStatus)
  /-- The tool was content but left no certificate that can be read. -/
  | readCertificate (fault : Host.Fault)
  deriving DecidableEq, Repr

def SigningFault.message : SigningFault → String
  | .stage fault => "failed to stage public key: " ++ fault.message
  | .launch program fault => "failed to launch " ++ Utf8.decodeLossy program ++ ": " ++ fault.message
  | .exit program status => Utf8.decodeLossy program ++ " exited with " ++ status.message
  | .readCertificate fault => "failed to read certificate: " ++ fault.message

/-- The message and those of the causes behind it, as they are reported together. -/
def SigningFault.chain (fault : SigningFault) : List String :=
  fault.message :: match fault with
    | .stage cause | .launch _ cause | .readCertificate cause => [cause.message]
    | .exit _ _ => []

inductive ServiceFault where
  | missingKey (path : Bytes) (reason : String)
  | invalidKey (fault : Key.Fault)
  | signingFailed (fault : SigningFault)
  | notConfirmed
  deriving DecidableEq, Repr

namespace ServiceFault

def message : ServiceFault → String
  | .missingKey path reason => "missing CA key at " ++ Utf8.decodeLossy path ++ ": " ++ reason
  | .invalidKey fault => fault.message
  | .signingFailed fault => "signing failed: " ++ fault.message
  | .notConfirmed => "signing request was not confirmed by the CA operator"

/-- What a peer is told of a fault. -/
def failure : ServiceFault → Wire.Failure
  | .missingKey _ _ => ⟨.internal, "CA key unavailable"⟩
  | .invalidKey fault => ⟨.invalidKeyFormat, fault.message⟩
  | .signingFailed _ => ⟨.signingFailed, "failed to sign key (see server for details)"⟩
  | .notConfirmed => ⟨.confirmationAborted, notConfirmed.message⟩

def chain (fault : ServiceFault) : List String :=
  fault.message :: match fault with
    | .signingFailed inner => inner.chain
    | _ => []

end ServiceFault

end SshAuthority.Authority

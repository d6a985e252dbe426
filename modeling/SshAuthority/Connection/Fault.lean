import SshAuthority.Authority.Fault
import SshAuthority.Wire.Frame
/-!
# Faults of a connection

What a caller of the authority can be answered with other than a key or a certificate, and why an
authority could not be reached at all.
-/
namespace SshAuthority.Connection

inductive ClientFault where
  /-- The connection ended before a reply arrived. -/
  | closed
  /-- The request could not be written. -/
  | codec (fault : Wire.CodecFault)
  | invalidKey (message : String)
  | signingFailed (message : String)
  | notConfirmed (message : String)
  /-- Any other failure the authority reports. -/
  | remote (failure : Wire.Failure)
  /-- The reply belongs to another method. -/
  | unexpectedReply (method : Wire.Method)
  deriving Repr

namespace ClientFault

def message : ClientFault → String
  | .closed => "connection to CA closed"
  | .codec fault => fault.message
  | .invalidKey message => "CA rejected the public key: " ++ message
  | .signingFailed message | .notConfirmed message => message
  | .remote failure => "CA returned an error: " ++ failure.message
  | .unexpectedReply method => "unexpected reply to " ++ method.name

def chain (fault : ClientFault) : List String :=
  fault.message :: match fault with
    | .codec inner => inner.causes
    | _ => []

def ofFailure (failure : Wire.Failure) : ClientFault :=
  match failure.code with
  | .invalidKeyFormat => .invalidKey failure.message
  | .signingFailed => .signingFailed failure.message
  | .confirmationAborted => .notConfirmed failure.message
  | .badRequest | .internal => .remote failure

end ClientFault

/-- Why an authority could not be reached. -/
inductive TransportFault where
  | configuration (complaint : String)
  | dialFailed (address : String) (fault : Host.Fault)
  | localService (fault : Authority.ServiceFault)
  deriving DecidableEq, Repr

def TransportFault.message : TransportFault → String
  | .configuration complaint => "invalid CA transport options: " ++ complaint
  | .dialFailed address fault => "failed to connect to CA at " ++ address ++ ": " ++ fault.message
  | .localService fault => "failed to start local CA: " ++ fault.message

def TransportFault.chain (fault : TransportFault) : List String :=
  fault.message :: match fault with
    | .configuration _ => []
    | .dialFailed _ cause => [cause.message]
    | .localService inner => inner.chain

end SshAuthority.Connection

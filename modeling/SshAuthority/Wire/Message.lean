import SshAuthority.Certificate
/-!
# Messages

A request carries a call under a sequence number, and its response carries the result under the same
number. Keys and certificates travel as bytes; a key is read by whoever receives it.
-/
namespace SshAuthority.Wire

structure SignArgs where
  identity : String
  kind : CertificateKind
  principals : List String
  key : Bytes
  deriving DecidableEq, Repr

namespace SignArgs

def ofRequest (r : SignRequest) : SignArgs := ⟨r.identity, r.kind, r.principals, r.key.bytes⟩

def request (a : SignArgs) : Except Key.Fault SignRequest :=
  (PublicKey.parse a.key).map fun key => ⟨a.identity, a.kind, a.principals, key⟩

end SignArgs

inductive Call where
  | publicKey
  | sign (args : SignArgs)
  deriving DecidableEq, Repr

inductive Method where
  | publicKey
  | sign
  deriving DecidableEq, Repr

def Method.name : Method → String
  | .publicKey => "GetCAPublicKey"
  | .sign => "SignPublicKey"

def Call.method : Call → Method
  | .publicKey => .publicKey
  | .sign _ => .sign

structure Request where
  seq : UInt64
  call : Call
  deriving DecidableEq, Repr

inductive Reply where
  | publicKey (key : Bytes)
  | signed (certificate : Bytes)
  deriving DecidableEq, Repr

/-- The kinds of failure a peer can tell apart. -/
inductive ErrorCode where
  | invalidKeyFormat
  | signingFailed
  | confirmationAborted
  | badRequest
  | internal
  deriving DecidableEq, Repr

namespace ErrorCode

def all : List ErrorCode := [.invalidKeyFormat, .signingFailed, .confirmationAborted, .badRequest, .internal]

def name : ErrorCode → String
  | .invalidKeyFormat => "InvalidKeyFormat"
  | .signingFailed => "SigningFailed"
  | .confirmationAborted => "ConfirmationAborted"
  | .badRequest => "BadRequest"
  | .internal => "Internal"

end ErrorCode

structure Failure where
  code : ErrorCode
  message : String
  deriving DecidableEq, Repr

inductive Result where
  | ok (reply : Reply)
  | err (failure : Failure)
  deriving DecidableEq, Repr

structure Response where
  seq : UInt64
  result : Result
  deriving DecidableEq, Repr

end SshAuthority.Wire

import SshAuthority.Key.PublicKey
/-!
# Certificate requests

What a signer is asked to certify, the line an operator reads before it happens, and the arguments
the signing tool gets for it.
-/
namespace SshAuthority

inductive CertificateKind where
  | host
  | user
  deriving DecidableEq, Repr

namespace CertificateKind

def name : CertificateKind → String
  | .host => "host"
  | .user => "user"

/-- Arguments of the signing tool that select this kind. -/
def flags : CertificateKind → List String
  | .host => ["-h"]
  | .user => []

end CertificateKind

structure SignRequest where
  identity : String
  kind : CertificateKind
  principals : List String
  key : PublicKey
  deriving DecidableEq, Repr

namespace SignRequest

def joinedPrincipals (r : SignRequest) : String := ",".intercalate r.principals

def summary (r : SignRequest) : String :=
  "make " ++ r.kind.name ++ " certificate for " ++ r.key.algorithm ++ " key (fingerprint " ++
    r.key.fingerprint ++ ") for " ++ r.joinedPrincipals

/-- Arguments for signing the key staged at `staged` with the private key at `signer`. -/
def toolArguments (r : SignRequest) (signer staged : Bytes) : List Bytes :=
  ["-I", r.identity, "-n", r.joinedPrincipals].map Utf8.encode ++ r.kind.flags.map Utf8.encode ++
    [Utf8.encode "-s", signer, staged]

end SignRequest

end SshAuthority

import SshAuthority.Authority.Fault
import SshAuthority.Host.Files
import SshAuthority.Key.PublicKey
import SshAuthority.Text.Quoted
/-!
# The authority's identity

The private key stays where it is: only its path is kept, for the signing tool to read. The public
half is read once.
-/
namespace SshAuthority.Authority

structure Identity where
  signer : Bytes
  key : PublicKey
  deriving DecidableEq, Repr

/-- Where the public half of the private key at a path is, unless told otherwise. -/
def defaultPublicPath (signer : Bytes) : Bytes := signer ++ Utf8.encode ".pub"

namespace Identity

def summary (i : Identity) : String :=
  let path := Text.quoteBytes i.signer
  "CaIdentity \x7b private_key_path: " ++ path ++ ", public_key: " ++ i.key.summary ++ " \x7d"

variable {m : Type → Type} [Monad m]

def load (files : Host.Files m) (signer : Bytes) (publicPath : Option Bytes) :
    m (Except ServiceFault Identity) := do
  match ← files.isDirectory signer with
  | .error fault => return .error (.missingKey signer fault.message)
  | .ok true => return .error (.missingKey signer "is a directory")
  | .ok false =>
    let path := publicPath.getD (defaultPublicPath signer)
    match ← files.read path with
    | .error fault => return .error (.missingKey path fault.message)
    | .ok content =>
      match PublicKey.parse content with
      | .error fault => return .error (.invalidKey fault)
      | .ok key => return .ok ⟨signer, key⟩

end Identity

end SshAuthority.Authority

import SshAuthority.Authority.Identity
import SshAuthority.Host.Basic
import SshAuthority.Host.Path
/-!
# Signing

A request is shown to the operator and, where the service asks for it, confirmed. Then its key is
staged in a directory of its own, the signing tool is run on it, and the certificate the tool left
beside the key is read. The directory goes away however that ends.
-/
namespace SshAuthority.Authority

/-- The name of the staged key in its directory. -/
def stagedName : Bytes := Utf8.encode "key.pub"

/-- The name the signing tool gives the certificate of the staged key. -/
def certificateName : Bytes := Utf8.encode "key-cert.pub"

structure ServiceOptions where
  signer : Bytes
  publicPath : Option Bytes
  /-- Whether every signature is confirmed by the operator. -/
  confirms : Bool
  tool : Bytes
  deriving DecidableEq, Repr

structure Service where
  identity : Identity
  confirms : Bool
  deriving DecidableEq, Repr

namespace Service

def summary (s : Service) : String :=
  let confirms := toString s.confirms
  "CaService \x7b identity: " ++ s.identity.summary ++ ", confirm: " ++ confirms ++ ", .. \x7d"

/-- The outcome of a tool run as a fault, if it is one. -/
def runFault (tool : Bytes) : Except Host.Fault Host.ExitStatus → Option SigningFault
  | .error fault => some (.launch tool fault)
  | .ok status => if status.succeeded then none else some (.exit tool status)

/-- What a call is answered with, where `signed` is the outcome of a signing request. -/
def respond (key : PublicKey) (call : Wire.Call) (signed : SignRequest → Except ServiceFault Bytes) :
    Wire.Result :=
  match call with
  | .publicKey => .ok (.publicKey key.bytes)
  | .sign args => match args.request with
    | .error fault => .err ⟨.invalidKeyFormat, fault.message⟩
    | .ok request => match signed request with
      | .ok certificate => .ok (.signed certificate)
      | .error fault => .err fault.failure

variable {m : Type → Type} [Monad m]

/-- Signs the key of a request in a directory made for it. -/
def signIn (host : Host m) (tool : Bytes) (s : Service) (r : SignRequest) (directory : Bytes) :
    m (Except SigningFault Bytes) := do
  let staged := Path.join directory stagedName
  match ← host.write .replace staged r.key.bytes with
  | .error fault => return .error (.stage fault.fault)
  | .ok _ =>
    match runFault tool (← host.runAttached tool (r.toolArguments s.identity.signer staged)) with
    | some fault => return .error fault
    | none => return (← host.read (Path.join directory certificateName)).mapError .readCertificate

def signStaged (host : Host m) (tool : Bytes) (s : Service) (r : SignRequest) :
    m (Except SigningFault Bytes) := do
  match ← host.makeDirectory with
  | .error fault => return .error (.stage fault)
  | .ok directory =>
    let result ← signIn host tool s r directory
    host.discard directory
    return result

def sign (host : Host m) (tool : Bytes) (s : Service) (r : SignRequest) :
    m (Except ServiceFault Bytes) := do
  host.print r.summary
  let confirmed ← if s.confirms then host.confirm else pure true
  if confirmed then return (← signStaged host tool s r).mapError .signingFailed
  else return .error .notConfirmed

/-- Answers a call. -/
def answer (host : Host m) (tool : Bytes) (s : Service) (call : Wire.Call) : m Wire.Result := do
  match call with
  | .publicKey => return respond s.identity.key call fun _ => .error .notConfirmed
  | .sign args => match args.request with
    | .error _ => return respond s.identity.key call fun _ => .error .notConfirmed
    | .ok request =>
      let signed ← sign host tool s request
      return respond s.identity.key call fun _ => signed

def load (host : Host m) (options : ServiceOptions) : m (Except ServiceFault Service) := do
  let identity ← Identity.load host.toFiles options.signer options.publicPath
  return identity.map fun identity => ⟨identity, options.confirms⟩

end Service

end SshAuthority.Authority

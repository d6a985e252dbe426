import SshAuthority.Command.Trust
/-!
# Having keys certified

A user's key is certified alone. A host's keys are those the daemon would use: each is attempted once,
in order, whatever became of those before it, and the certificates that were written are made known to
the daemon together.
-/
namespace SshAuthority.Command

variable {m : Type → Type} [Monad m]

/-- What a certificate is asked for. -/
structure Purpose where
  kind : CertificateKind
  principals : List String
  /-- Whether the request is shown here; an authority in the same process shows it itself. -/
  announces : Bool
  deriving DecidableEq, Repr

/-- The request for the key that stands in the file at `path`. -/
def requestFor (host : Host m) (purpose : Purpose) (identity : String) (path : Bytes) :
    m (Except Fault SignRequest) := do
  match ← host.read path with
  | .error fault => return .error (.keyUnreadable path fault)
  | .ok content =>
    return ((PublicKey.parse content).mapError (.keyInvalid path)).map fun key =>
      ⟨identity, purpose.kind, purpose.principals, key⟩

/-- Writes the certificate of the key at `path` beside it; gives the certificate's path. -/
def storeCertificate (host : Host m) (path certificate : Bytes) : m (Except Fault Bytes) := do
  let place := certificatePath path
  host.print ("writing certificate to " ++ Utf8.decodeLossy place)
  return ((← writePrivately host.toFiles place certificate).mapError .notStored).map fun _ => place

/-- Has the key at `path` certified; gives the path of its certificate. -/
def certify (host : Host m) (caller : Connection.Caller m) (purpose : Purpose) (identity : String)
    (path : Bytes) : m (Except Fault Bytes × Connection.Caller m) := do
  match ← requestFor host purpose identity path with
  | .error fault => return (.error fault, caller)
  | .ok request =>
    if purpose.announces then host.print request.summary
    let (answer, caller) ← caller.sign request
    match answer with
    | .error fault => return (.error (.notCertified path fault), caller)
    | .ok certificate => return (← storeCertificate host path certificate, caller)

def signUser (host : Host m) (s : Settings) (r : Reach) (principals : List String) (path : Bytes) :
    m (Except Fault Unit) := do
  match ← reach host s r with
  | .error fault => return .error fault
  | .ok caller =>
    match ← hostName host with
    | .error fault => return .error (.name fault)
    | .ok name =>
      match ← userName host with
      | .error fault => return .error (.name fault)
      | .ok user =>
        let identity := certificateIdentity name user path
        let (answer, _) ← certify host caller ⟨.user, principals, !r.isLocal⟩ identity path
        return answer.map fun _ => ()

/-! ## The keys of a host -/

/-- What is done with the keys of a host so far. -/
structure Progress (m : Type → Type) where
  caller : Connection.Caller m
  edits : Config.Modifier
  faults : List Fault

/-- Queues the edit that makes a certificate known to the daemon. -/
def registerCertificate (edits : Config.Modifier) (path : Bytes) : Except Fault Config.Modifier :=
  match Utf8.decode? path with
  | none => .error (.pathNotText path)
  | some value => (edits.queue ⟨.add, "HostCertificate", value⟩).mapError .edit

/-- Attempts the host key with the given private key. -/
def attempt (host : Host m) (name : String) (purpose : Purpose) (p : Progress m) (privateKey : String) :
    m (Progress m) := do
  let path := Authority.defaultPublicPath (Utf8.encode privateKey)
  let (answer, caller) ←
    certify host p.caller purpose (certificateIdentity name hostOwner path) path
  match answer.bind (registerCertificate p.edits) with
  | .ok edits => return { p with caller, edits }
  | .error fault =>
    host.complain fault.report
    return { p with caller, faults := p.faults ++ [fault] }

def attemptAll (host : Host m) (name : String) (purpose : Purpose) (p : Progress m) :
    List String → m (Progress m)
  | [] => return p
  | key :: keys => do attemptAll host name purpose (← attempt host name purpose p key) keys

/-- Makes the certificates known to the daemon; gives all that went wrong. -/
def register (host : Host m) (daemon : Bytes) (p : Progress m) : m (List Fault) := do
  if p.edits.pending.isEmpty then return p.faults
  match (← p.edits.commit host.toFiles (Config.daemonCheck host daemon)).1 with
  | .ok _ => return p.faults
  | .error fault => return p.faults ++ [.notRegistered fault]

/-- Has every key of the host certified that the daemon uses with the configuration at `config`. -/
def signHostKeys (host : Host m) (s : Settings) (caller : Connection.Caller m) (name : String)
    (purpose : Purpose) (config : Bytes) : m (List Fault) := do
  let daemon := Utf8.encode s.daemonProgram
  match ← Config.lookup host daemon config "HostKey" with
  | .error fault => return [.hostKeysUnknown fault]
  | .ok keys =>
    register host daemon (← attemptAll host name purpose ⟨caller, .new config, []⟩ keys)

def signHost (host : Host m) (s : Settings) (r : Reach) (principals : List String)
    (config : Option Bytes) : m (List Fault) := do
  match ← reach host s r with
  | .error fault => return [fault]
  | .ok caller =>
    match ← hostName host with
    | .error fault => return [.name fault]
    | .ok name =>
      let purpose : Purpose := ⟨.host, hostPrincipals name principals, !r.isLocal⟩
      signHostKeys host s caller name purpose (config.getD (Utf8.encode s.daemonConfig))

end SshAuthority.Command

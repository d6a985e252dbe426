import SshAuthority.Authority.Service
/-!
# Choosing an authority

A command reaches its authority either in its own process or at an address. The choice is checked
before anything is tried. In the command's own process the caller is the operator, so nothing is
confirmed there.
-/
namespace SshAuthority.Connection

structure Options where
  isLocal : Bool
  signer : Option Bytes
  publicPath : Option Bytes
  remote : Option String
  tool : Bytes
  deriving DecidableEq, Repr

/-- The signing tool where none is named. -/
def defaultTool : Bytes := Utf8.encode "ssh-keygen"

inductive Mode where
  | inProcess (signer : Bytes) (publicPath : Option Bytes)
  | remote (address : String)
  deriving DecidableEq, Repr

namespace Options

def mode (o : Options) : Except TransportFault Mode :=
  match o.isLocal, o.remote with
  | true, some _ => .error (.configuration "--local and --remote are mutually exclusive")
  | false, none => .error (.configuration "one of --local or --remote is required")
  | true, none => match o.signer with
    | some signer =>
      if signer.isEmpty then .error (.configuration "--local requires --ca-private")
      else .ok (.inProcess signer o.publicPath)
    | none => .error (.configuration "--local requires --ca-private")
  | false, some address => .ok (.remote address)

def serviceOptions (o : Options) : Except TransportFault Authority.ServiceOptions :=
  match o.mode with
  | .error fault => .error fault
  | .ok (.inProcess signer publicPath) => .ok ⟨signer, publicPath, false, o.tool⟩
  | .ok (.remote _) => .error (.configuration "local service requested in remote mode")

variable {m : Type → Type} [Monad m]

/-- Carries requests to a service in the same process. A reply too long for a frame never comes. -/
def exchange (host : Host m) (tool : Bytes) (s : Authority.Service) (r : Wire.Request) :
    m (Except ClientFault Wire.Response) := do
  match Wire.Frame.write r.encode with
  | .error fault => return .error (.codec (.stream fault))
  | .ok _ =>
    let response : Wire.Response := ⟨r.seq, ← s.answer host tool r.call⟩
    match Wire.Frame.write response.encode with
    | .error _ => return (← host.waitForever).elim
    | .ok _ => return .ok response

def connect (host : Host m) (o : Options) : m (Except TransportFault (Caller m)) := do
  match o.mode with
  | .error fault => return .error fault
  | .ok (.inProcess signer publicPath) =>
    match ← Authority.Service.load host ⟨signer, publicPath, false, o.tool⟩ with
    | .error fault => return .error (.localService fault)
    | .ok service => return .ok (.new (exchange host o.tool service))
  | .ok (.remote address) =>
    match ← host.dial address with
    | .error fault => return .error (.dialFailed address fault)
    | .ok exchange => return .ok (.new exchange)

end Options

end SshAuthority.Connection

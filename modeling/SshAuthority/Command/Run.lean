import SshAuthority.Command.Sign
/-!
# Running commands

A command line is run on a host: its settings are loaded first, then its action is taken. What goes
wrong is complained about, and decides the exit code.
-/
namespace SshAuthority.Command

variable {m : Type → Type} [Monad m]

/-- Opens the service of an authority and listens for its callers. -/
def openService (host : Host m) (address : String) (options : Authority.ServiceOptions) :
    m (Except Fault Authority.Service) := do
  match ← Authority.Service.load host options with
  | .error fault => return .error (.notServing fault)
  | .ok service =>
    match ← host.listen address with
    | .error fault => return .error (.notListening address fault)
    | .ok bound =>
      host.print ("serving CA " ++ service.identity.key.fingerprint ++ " on " ++ bound)
      return .ok service

def faultsOf : Except Fault Unit → List Fault
  | .ok _ => []
  | .error fault => [fault]

/-- Takes an action; gives what went wrong. Serving ends only when it fails. -/
def Action.run (host : Host m) (s : Settings) : Action → m (List Fault)
  | .serve address signer publicPath skips => do
    match ← openService host address ⟨signer, publicPath, !skips, Utf8.encode s.keygenProgram⟩ with
    | .error fault => return [fault]
    | .ok _ => return (← host.waitForever).elim
  | .trust reach => return faultsOf (← Command.trust host s reach)
  | .signUser reach principals key => return faultsOf (← Command.signUser host s reach principals key)
  | .signHost reach principals config => Command.signHost host s reach principals config

/-- Runs a command line; gives what went wrong. -/
def Line.run (host : Host m) (l : Line) : m (List Fault) := do
  match ← Settings.load host l.settings with
  | .error fault => return [.settings fault]
  | .ok s => l.action.run host s

/-- Runs a command line and complains about what went wrong; gives the exit code. -/
def Line.execute (host : Host m) (l : Line) : m Nat := do
  match Fault.reportAll (← l.run host) with
  | none => return 0
  | some report =>
    host.complain ("error: " ++ report)
    return 1

end SshAuthority.Command

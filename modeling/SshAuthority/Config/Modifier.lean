import SshAuthority.Config.Check
import SshAuthority.Config.Edit
import SshAuthority.Host.Files
import SshAuthority.Text.Quoted
/-!
# Committing edits

Edits of one file are queued and committed all or none. A commit writes the edited content, has it
checked where it stands, and puts the former content back when the check fails. Edits that change
nothing are neither written nor checked; the queue is emptied exactly when a commit succeeds.
-/
namespace SshAuthority.Config

/-- Why a configuration could not be changed, or its effective values not read. -/
inductive ConfigFault where
  | read (path : Bytes) (fault : Host.Fault)
  | write (path : Bytes) (fault : Host.Fault)
  /-- The check failed and the former content stands again. -/
  | validation (path : Bytes) (fault : CheckFault)
  /-- The check failed and the former content could not be put back. -/
  | rollbackFailed (path : Bytes) (fault : CheckFault) (restoring : Host.Fault)
  | effective (path : Bytes) (fault : Host.CommandFault)
  /-- The edit's pattern is too large. -/
  | pattern (key : String)
  deriving DecidableEq, Repr

namespace ConfigFault

def patternComplaint : String := "Compiled regex exceeds size limit of 10485760 bytes."

def message : ConfigFault → String
  | .read path fault => "failed to read " ++ Utf8.decodeLossy path ++ ": " ++ fault.message
  | .write path fault => "failed to write " ++ Utf8.decodeLossy path ++ ": " ++ fault.message
  | .validation path fault =>
    "edited " ++ Utf8.decodeLossy path ++ " failed validation and was restored: " ++ fault.message
  | .rollbackFailed path fault restoring =>
    "edited " ++ Utf8.decodeLossy path ++ " failed validation (" ++ fault.message ++
      ") and restoring it failed (" ++ restoring.message ++ "); the file must be fixed manually"
  | .effective path fault =>
    "failed to read effective configuration of " ++ Utf8.decodeLossy path ++ ": " ++ fault.message
  | .pattern key => "invalid edit for " ++ key ++ ": " ++ patternComplaint

def chain (fault : ConfigFault) : List String :=
  fault.message :: match fault with
    | .read _ cause | .write _ cause => [cause.message]
    | .validation _ inner => inner.chain
    | .rollbackFailed _ _ _ => []
    | .effective _ inner => inner.chain
    | .pattern _ => [patternComplaint]

/-- Whether the file was left in a state that only its owner can mend. -/
def needsManualFix : ConfigFault → Bool
  | .rollbackFailed _ _ _ => true
  | _ => false

end ConfigFault

inductive Outcome where
  /-- The edits changed nothing. -/
  | unchanged
  /-- The edited file passed its check. -/
  | applied
  deriving DecidableEq, Repr

/-- Edits queued for the file at `path`. -/
structure Modifier where
  path : Bytes
  pending : List Edit
  deriving DecidableEq, Repr

namespace Modifier

def new (path : Bytes) : Modifier := ⟨path, []⟩

def queue (q : Modifier) (e : Edit) : Except ConfigFault Modifier :=
  if e.fits then .ok { q with pending := q.pending ++ [e] } else .error (.pattern e.key)

def cleared (q : Modifier) : Modifier := { q with pending := [] }

def summary (q : Modifier) : String :=
  let path := Text.quoteBytes q.path
  let count := q.pending.length
  "ConfigModifier \x7b path: " ++ path ++ ", pending: " ++ toString count ++ ", .. \x7d"

section

variable {m : Type → Type} [Monad m]

/-- Puts the former content back after the check failed with `fault`. -/
def restore (files : Host.Files m) (path former : Bytes) (fault : CheckFault) : m ConfigFault := do
  match ← files.write .replace path former with
  | .ok _ => return .validation path fault
  | .error restoring => return .rollbackFailed path fault restoring.fault

/-- Commits the queue; `check` is run on the path of the file with the edited content in place. -/
def commit (files : Host.Files m) (check : Bytes → m (Except CheckFault Unit)) (q : Modifier) :
    m (Except ConfigFault Outcome × Modifier) := do
  match ← files.read q.path with
  | .error fault => return (.error (.read q.path fault), q)
  | .ok former =>
    let edited := Edit.applyAll q.pending former
    if edited == former then return (.ok .unchanged, q.cleared)
    match ← files.write .replace q.path edited with
    | .error fault => return (.error (.write q.path fault.fault), q)
    | .ok _ =>
      match ← check q.path with
      | .ok _ => return (.ok .applied, q.cleared)
      | .error fault => return (.error (← restore files q.path former fault), q)

end

end Modifier

end SshAuthority.Config

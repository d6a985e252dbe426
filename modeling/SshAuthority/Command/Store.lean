import SshAuthority.Config.Check
import SshAuthority.Host.Files
/-!
# Keeping lines and certificates

A line is added to a file unless the file already holds its text somewhere; a certificate is written
so that only its owner can read it.
-/
namespace SshAuthority.Command

inductive StoreFault where
  | read (path : Bytes) (fault : Host.Fault)
  | openToAppend (path : Bytes) (fault : Host.Fault)
  | append (path : Bytes) (fault : Host.Fault)
  | openToWrite (path : Bytes) (fault : Host.Fault)
  | write (path : Bytes) (fault : Host.Fault)
  deriving DecidableEq, Repr

namespace StoreFault

def cause : StoreFault → Host.Fault
  | .read _ f | .openToAppend _ f | .append _ f | .openToWrite _ f | .write _ f => f

def message : StoreFault → String
  | .read path _ => "Failed to read " ++ Utf8.decodeLossy path
  | .openToAppend path _ => "Unable to open " ++ Utf8.decodeLossy path ++ " for appending"
  | .append path _ => "Failed to append to " ++ Utf8.decodeLossy path
  | .openToWrite path _ => "Failed to open " ++ Utf8.decodeLossy path ++ " for writing"
  | .write path _ => "Failed to write " ++ Utf8.decodeLossy path

def chain (fault : StoreFault) : List String := [fault.message, fault.cause.message]

end StoreFault

def newline : UInt8 := 10

/-- A line without its final newline. -/
def lineText (entry : Bytes) : Bytes :=
  if entry.getLast? = some newline then entry.dropLast else entry

/-- What is added to `existing` so that `text` stands on a line of its own at its end. -/
def addition (existing text : Bytes) : Bytes :=
  (if existing.isEmpty || existing.getLast? = some newline then [] else [newline]) ++ text ++ [newline]

variable {m : Type → Type} [Monad m]

/-- Adds a line to the file at `path` unless its text is there already; tells whether it was added. -/
def addLine (files : Host.Files m) (path entry : Bytes) : m (Except StoreFault Bool) := do
  let text := lineText entry
  match ← files.read path with
  | .ok existing => addTo existing text
  | .error fault =>
    if fault = .noEntry then addTo [] text else return .error (.read path fault)
where
  addTo (existing text : Bytes) : m (Except StoreFault Bool) := do
    if Config.occursIn text existing then return .ok false
    match ← files.write .append path (addition existing text) with
    | .ok _ => return .ok true
    | .error (.opening fault) => return .error (.openToAppend path fault)
    | .error (.storing fault) => return .error (.append path fault)

/-- Writes a file that only its owner can read, if it is new. -/
def writePrivately (files : Host.Files m) (path content : Bytes) : m (Except StoreFault Unit) := do
  match ← files.write .privately path content with
  | .ok _ => return .ok ()
  | .error (.opening fault) => return .error (.openToWrite path fault)
  | .error (.storing fault) => return .error (.write path fault)

end SshAuthority.Command

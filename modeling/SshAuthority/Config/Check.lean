import SshAuthority.Host.Program
import SshAuthority.Text.Line
/-!
# Checking a configuration

The daemon's own check can succeed and still complain about a key or certificate it cannot use. Two
complaints are known to mean that, and either makes the check fail.
-/
namespace SshAuthority.Config

def brokenKeyComplaints : List String :=
  ["No matching private key for certificate", "Could not load host certificate"]

inductive CheckFault where
  | command (fault : Host.CommandFault)
  | complaint (line : String)
  deriving DecidableEq, Repr

def CheckFault.message : CheckFault → String
  | .command fault => fault.message
  | .complaint line => "sshd reported: " ++ line

def CheckFault.chain : CheckFault → List String
  | .command fault => fault.chain
  | .complaint line => [(CheckFault.complaint line).message]

/-- Whether `needle` stands somewhere in `cs`. -/
def occursIn {α : Type} [BEq α] (needle : List α) : List α → Bool
  | [] => needle.isEmpty
  | c :: cs => needle.isPrefixOf (c :: cs) || occursIn needle cs

def isBrokenKeyLine (line : List Char) : Bool :=
  brokenKeyComplaints.any fun complaint => occursIn complaint.toList line

/-- Refuses a text with one of the known complaints, and reports the first line that holds one. -/
def checkComplaints (text : String) : Except CheckFault Unit :=
  match (Text.lines text.toList).find? isBrokenKeyLine with
  | some line => .error (.complaint (String.ofList (Text.trim line)))
  | none => .ok ()

/-- The verdict on a file from a run of the daemon's check. -/
def verdict (program : Bytes) (ended : Except Host.Fault Host.Ended) : Except CheckFault Unit :=
  match Host.checked program ended with
  | .error fault => .error (.command fault)
  | .ok e => checkComplaints (Utf8.decodeLossy e.err)

end SshAuthority.Config

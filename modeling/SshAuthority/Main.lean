import SshAuthority.Command.Run
/-!
# The program

The host that the program runs on, and its entry. Here no programs can be run and no connections be
made; each attempt is the fault of a system that does not offer it.
-/
namespace SshAuthority.Main
open Host

def shown (path : Bytes) : String := Utf8.decodeLossy path

def faultOf : IO.Error → Fault
  | .alreadyExists _ n _ | .otherError n _ | .resourceBusy n _ | .resourceVanished n _
  | .unsupportedOperation n _ | .hardwareFault n _ | .unsatisfiedConstraints n _
  | .illegalOperation n _ | .protocolError n _ | .timeExpired n _ | .interrupted _ n _
  | .noFileOrDirectory _ n _ | .invalidArgument _ n _ | .permissionDenied _ n _
  | .resourceExhausted _ n _ | .inappropriateType _ n _ | .noSuchThing _ n _ => .system n.toNat
  | .unexpectedEof | .userError _ => .system 5

def attempt {α : Type} (act : IO α) : IO (Except Fault α) := do
  try return .ok (← act) catch e => return .error (faultOf e)

/-- What is not offered here. -/
def notOffered : Fault := .system 38

def bytesOf (content : ByteArray) : Bytes := content.data.toList

def read (path : Bytes) : IO (Except Fault Bytes) :=
  attempt do return bytesOf (← IO.FS.readBinFile (shown path))

def isDirectory (path : Bytes) : IO (Except Fault Bool) :=
  attempt do return (← (← IO.FS.realPath (shown path)).metadata).type == .dir

def openToWrite (mode : WriteMode) (path : Bytes) : IO IO.FS.Handle := do
  match mode with
  | .replace => IO.FS.Handle.mk (shown path) .write
  | .append => IO.FS.Handle.mk (shown path) .append
  | .privately =>
    let isNew := match ← isDirectory path with
      | .ok _ => false
      | .error _ => true
    let file ← IO.FS.Handle.mk (shown path) .write
    if isNew then IO.setAccessRights (shown path) ⟨⟨true, true, false⟩, {}, {}⟩
    return file

def write (mode : WriteMode) (path content : Bytes) : IO (Except WriteFault Unit) := do
  match ← attempt (openToWrite mode path) with
  | .error fault => return .error (.opening fault)
  | .ok file =>
    return (← attempt do file.write ⟨content.toArray⟩; file.flush).mapError .storing

def confirm : IO Bool := do
  try return (← (← IO.getStdin).getLine).endsWith "\n" catch _ => return false

def hostName : IO Bytes := do
  match ← read (Utf8.encode "/proc/sys/kernel/hostname") with
  | .ok name => return name.takeWhile (· != 10)
  | .error _ => return []

/-- The lines of a file of the system, none where it cannot be read. -/
def linesOf (path : String) : IO (List String) := do
  match ← read (Utf8.encode path) with
  | .ok content => return (Utf8.decodeLossy content).splitOn "\n"
  | .error _ => return []

def userNumber : IO Nat := do
  for line in ← linesOf "/proc/self/status" do
    if line.startsWith "Uid:" then
      return (((line.splitOn "\t")[1]?).bind String.toNat?).getD 0
  return 0

def accountName : IO (Option Bytes) := do
  let number := toString (← userNumber)
  for line in ← linesOf "/etc/passwd" do
    match line.splitOn ":" with
    | name :: _ :: n :: _ => if n == number then return some (Utf8.encode name)
    | _ => pure ()
  return none

def settingsHome : IO (Option Bytes) := do
  match ← IO.getEnv "XDG_CONFIG_HOME" with
  | some home => return some (Utf8.encode home)
  | none => return (← IO.getEnv "HOME").map fun home => Utf8.encode (home ++ "/.config")

partial def waitForever : IO Empty := do
  IO.sleep 1000
  waitForever

def host : Host IO where
  isDirectory := isDirectory
  read := read
  write := write
  run _ _ := return .error notOffered
  runAttached _ _ := return .error notOffered
  makeDirectory := attempt do return Utf8.encode (← IO.FS.createTempDir).toString
  discard path := do
    let _ ← attempt (IO.FS.removeDirAll (shown path))
  print := IO.println
  complain := IO.eprintln
  confirm := confirm
  hostName := hostName
  userNumber := userNumber
  accountName := accountName
  environment name := return (← IO.getEnv name).map Utf8.encode
  settingsHome := settingsHome
  dial _ := return .error notOffered
  listen _ := return .error notOffered
  waitForever := waitForever

def refuse (refusal : Arguments.Refusal) : IO UInt32 := do
  match refusal with
  | .help => IO.println Command.Line.usage
  | .version => IO.println Command.Line.version
  | _ => IO.eprintln (refusal.message ++ "\n\n" ++ Command.Line.usage)
  return UInt32.ofNat refusal.exitCode

end SshAuthority.Main

def main (args : List String) : IO UInt32 := do
  match SshAuthority.Command.Line.read (args.map SshAuthority.Utf8.encode) with
  | .error refusal => SshAuthority.Main.refuse refusal
  | .ok line => return UInt32.ofNat (← line.execute SshAuthority.Main.host)

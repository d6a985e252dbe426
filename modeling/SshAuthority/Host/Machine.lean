import SshAuthority.Authority.Operator
import SshAuthority.Host.Basic
import SshAuthority.Host.Disk
/-!
# A machine as a value

A host whose disk, programs, names and terminal are all a value, so that what a command does to it is
a function of that value. A run that waits forever has no result.
-/
namespace SshAuthority.Host

/-- What a program does to the disk, and how it ends. -/
abbrev Tool := List Bytes → Disk → Ended × Disk

structure Machine where
  disk : Disk
  tools : List (Bytes × Tool)
  /-- What a connection to an address yields. -/
  network : String → Fault
  /-- What listening at an address yields. -/
  ports : String → Except Fault String
  name : Bytes
  user : Nat
  account : Option Bytes
  environment : List (String × Bytes)
  home : Option Bytes
  /-- The operator's input that was not read yet. -/
  operator : Bytes
  printed : List String
  complained : List String
  /-- How many directories were made so far. -/
  made : Nat

namespace Machine

/-- What running a command on a machine comes to, if it comes to an end. -/
abbrev Run := StateT Machine Option

/-- The longest argument a program can be given. -/
def maxArgument : Nat := 131071

/-- Why a program that is not one of the tools cannot be started. -/
def launchFault (d : Disk) (program : Bytes) : Fault :=
  if program.contains Path.slash then
    match d.look program with
    | .error fault => fault
    | .ok _ => .system 13
  else if Disk.maxName < program.length then .nameTooLong
  else .noEntry

def launch (program : Bytes) (args : List Bytes) (s : Machine) : Except Fault Ended × Machine :=
  if program.contains 0 || args.any (·.contains 0) then (.error .nulInArgument, s)
  else match s.tools.lookup program with
    | none => (.error (launchFault s.disk program), s)
    | some tool =>
      if (program :: args).any fun a => maxArgument < a.length then (.error (.system 7), s)
      else
        let (ended, disk) := tool args s.disk
        (.ok ended, { s with disk })

/-- The directory that directories for passing use are made in. -/
def passing : Bytes := Utf8.encode "/tmp"

def freshName (n : Nat) : Bytes := Utf8.encode ("sshca." ++ toString n)

def makeDirectory (s : Machine) : Except Fault Bytes × Machine :=
  let path := Path.join passing (freshName s.made)
  match s.disk.locate path with
  | .error fault => (.error fault, s)
  | .ok place => (.ok path, { s with disk := s.disk.set place .directory, made := s.made + 1 })

def discard (path : Bytes) (s : Machine) : Machine :=
  match s.disk.locate path with
  | .error _ => s
  | .ok place => { s with disk := s.disk.remove place }

/-- A text up to its first zero byte. -/
def beforeNul (bs : Bytes) : Bytes := bs.takeWhile (· != 0)

/-- Runs an operation that always comes to an end. -/
def always {α : Type} (f : Machine → α × Machine) : Run α := fun s => some (f s)

def onDisk {α : Type} (f : StateM Disk α) : Run α :=
  always fun s =>
    let (a, disk) := f.run s.disk
    (a, { s with disk })

/-- The host that a machine is. -/
def host : Host Run where
  isDirectory path := onDisk (Disk.files.isDirectory path)
  read path := onDisk (Disk.files.read path)
  write mode path content := onDisk (Disk.files.write mode path content)
  run program args := always (launch program args)
  runAttached program args := always fun s =>
    let (ended, s) := launch program args s
    (ended.map (·.status), s)
  makeDirectory := always makeDirectory
  discard path := always fun s => ((), discard path s)
  print line := always fun s => ((), { s with printed := s.printed ++ [line] })
  complain line := always fun s => ((), { s with complained := s.complained ++ [line] })
  confirm := always fun s =>
    let (yes, rest) := Authority.Operator.confirm s.operator
    (yes, { s with operator := rest })
  hostName := always fun s => (beforeNul s.name, s)
  userNumber := always fun s => (s.user, s)
  accountName := always fun s => (s.account.map beforeNul, s)
  environment name := always fun s => (s.environment.lookup name, s)
  settingsHome := always fun s => (s.home, s)
  dial address := always fun s => (.error (s.network address), s)
  listen address := always fun s => (s.ports address, s)
  waitForever := fun _ => none

/-- A machine with nothing on it but the directory for passing use and one to work in. -/
def blank : Machine where
  disk := { entries := [([Utf8.encode "tmp"], .directory), ([Utf8.encode "work"], .directory)],
            workplace := [Utf8.encode "work"] }
  tools := []
  network _ := .networkUnreachable
  ports _ := .error .networkUnreachable
  name := []
  user := 0
  account := none
  environment := []
  home := none
  operator := []
  printed := []
  complained := []
  made := 0

end Machine

end SshAuthority.Host

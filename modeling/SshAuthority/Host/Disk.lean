import SshAuthority.Host.Files
import SshAuthority.Host.Path
/-!
# Files on a disk

A disk as a value: directories and files under their names from the root. Looking a path up walks its
names one by one, and each way the walk can fail is a fault of its own.
-/
namespace SshAuthority.Host

inductive Entry where
  /-- A file with its permission bits. -/
  | file (content : Bytes) (mode : Nat)
  | directory
  deriving DecidableEq, Repr

/-- The names that lead to an entry from the root. -/
abbrev Place := List Bytes

structure Disk where
  entries : List (Place × Entry)
  /-- The directory that relative paths start from. -/
  workplace : Place
  deriving DecidableEq, Repr

namespace Disk

def entry? (d : Disk) (place : Place) : Option Entry :=
  if place.isEmpty then some .directory else d.entries.lookup place

def setIn (place : Place) (entry : Entry) : List (Place × Entry) → List (Place × Entry)
  | [] => [(place, entry)]
  | (p, e) :: rest => if p = place then (p, entry) :: rest else (p, e) :: setIn place entry rest

def set (d : Disk) (place : Place) (entry : Entry) : Disk :=
  { d with entries := setIn place entry d.entries }

/-- Removes an entry and everything under it. -/
def remove (d : Disk) (place : Place) : Disk :=
  { d with entries := d.entries.filter fun (p, _) => !place.isPrefixOf p }

/-- Adds the directory at a place and those above it, where nothing stands yet. -/
def addDirectories (d : Disk) (place : Place) : Disk :=
  ((List.range place.length).map fun n => place.take (n + 1)).foldl
    (fun d p => if (d.entry? p).isNone then d.set p .directory else d) d

/-- Adds a file and the directories above it. -/
def addFile (d : Disk) (place : Place) (content : Bytes) (mode : Nat) : Disk :=
  (d.addDirectories place.dropLast).set place (.file content mode)

/-- The longest name of an entry. -/
def maxName : Nat := 255

/-- The longest path. -/
def maxPath : Nat := 4095

/-- One step of a walk from `place`, which must be a directory. -/
def enter (d : Disk) (place : Place) (name : Bytes) : Except Fault Place :=
  match d.entry? place with
  | none => .error .noEntry
  | some (.file _ _) => .error .notDirectory
  | some .directory =>
    if Path.isIdle name then .ok place
    else if name = Path.up then .ok place.dropLast
    else if maxName < name.length then .error .nameTooLong
    else .ok (place ++ [name])

def walk (d : Disk) (place : Place) : List Bytes → Except Fault Place
  | [] => .ok place
  | name :: rest => do walk d (← d.enter place name) rest

def start (d : Disk) (path : Bytes) : Except Fault Place :=
  if path.contains 0 then .error .nulInName
  else if path.isEmpty then .error .noEntry
  else if maxPath < path.length then .error .nameTooLong
  else .ok (if path.head? = some Path.slash then [] else d.workplace)

/-- Where a path leads, whether or not anything stands there. -/
def locate (d : Disk) (path : Bytes) : Except Fault Place := do
  walk d (← d.start path) (Path.segments path)

/-- What stands where a path leads. -/
def look (d : Disk) (path : Bytes) : Except Fault Entry := do
  match d.entry? (← d.locate path) with
  | some e => .ok e
  | none => .error .noEntry

def isDirectory (d : Disk) (path : Bytes) : Except Fault Bool :=
  (d.look path).map fun e => e == .directory

def read (d : Disk) (path : Bytes) : Except Fault Bytes := do
  match ← d.look path with
  | .file content _ => .ok content
  | .directory => .error .isDirectory

/-- Whether a path asks for a directory by its ending. -/
def asksForDirectory (path : Bytes) : Bool :=
  match (Path.segments path).getLast? with
  | some s => Path.isIdle s || s = Path.up
  | none => false

/-- Where a file that is opened for writing stands or will stand. -/
def openPlace (d : Disk) (path : Bytes) : Except Fault Place := do
  let first ← d.start path
  let names := Path.segments path
  if asksForDirectory path then
    let trimmed := (names.reverse.dropWhile (·.isEmpty)).reverse
    let last ← walk d first trimmed.dropLast
    match d.entry? last with
    | none => .error .noEntry
    | some (.file _ _) => .error .notDirectory
    | some .directory => .error .isDirectory
  else walk d first names

/-- Permission bits of a file that a write creates. -/
def permissions : WriteMode → Nat
  | .privately => 0o600
  | .replace | .append => 0o644

def write (d : Disk) (mode : WriteMode) (path content : Bytes) : Except WriteFault Disk :=
  match d.openPlace path with
  | .error fault => .error (.opening fault)
  | .ok place => match d.entry? place with
    | some .directory => .error (.opening .isDirectory)
    | some (.file old bits) =>
      .ok (d.set place (.file (if mode = .append then old ++ content else content) bits))
    | none => .ok (d.set place (.file content (permissions mode)))

/-- The file operations on a disk that is a state. -/
def files : Files (StateM Disk) where
  isDirectory path := fun d => (d.isDirectory path, d)
  read path := fun d => (d.read path, d)
  write mode path content := fun d =>
    match d.write mode path content with
    | .ok next => (.ok (), next)
    | .error fault => (.error fault, d)

end Disk

end SshAuthority.Host

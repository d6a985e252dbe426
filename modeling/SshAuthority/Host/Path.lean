import SshAuthority.Text.Utf8
/-!
# Paths

A path is a text of names between slashes. Empty names and single dots in its body name nothing, so
two paths that differ only in those have the same components.
-/
namespace SshAuthority.Path

def slash : UInt8 := 47

/-- The stretches between slashes, empty ones included. -/
def segments : Bytes → List Bytes
  | [] => [[]]
  | b :: bs =>
    if b = slash then [] :: segments bs
    else match segments bs with
      | [] => [[b]]
      | s :: rest => (b :: s) :: rest

def here : Bytes := [46]

def up : Bytes := [46, 46]

/-- Whether a segment of a body names nothing. -/
def isIdle (s : Bytes) : Bool := s.isEmpty || s == here

/-- What a path starts from. -/
inductive Start where
  | root
  /-- A leading single dot, which is kept. -/
  | here
  | nowhere
  deriving DecidableEq, Repr

structure Parts where
  start : Start
  body : List Bytes
  deriving DecidableEq, Repr

def parts (p : Bytes) : Parts :=
  match segments p with
  | [] => ⟨.nowhere, []⟩
  | s :: rest =>
    if s.isEmpty && !rest.isEmpty then ⟨.root, rest⟩
    else if s == here then ⟨.here, rest⟩
    else ⟨.nowhere, s :: rest⟩

inductive Component where
  | root
  | here
  | up
  | name (text : Bytes)
  deriving DecidableEq, Repr

def components (p : Bytes) : List Component :=
  let ⟨start, body⟩ := parts p
  let names := (body.filter fun s => !isIdle s).map fun s => if s == up then .up else .name s
  match start with
  | .root => .root :: names
  | .here => .here :: names
  | .nowhere => names

/-- The last component, if it is a name. -/
def fileName (p : Bytes) : Option Bytes :=
  match (components p).getLast? with
  | some (.name s) => some s
  | _ => none

def withoutIdleEnd (body : List Bytes) : List Bytes := (body.reverse.dropWhile isIdle).reverse

def joinSegments : List Bytes → Bytes
  | [] => []
  | [s] => s
  | s :: rest => s ++ slash :: joinSegments rest

/-- The path of the directory a path's last component stands in. -/
def parent (p : Bytes) : Bytes :=
  let ⟨start, body⟩ := parts p
  let body := withoutIdleEnd (withoutIdleEnd body).dropLast
  match start with
  | .root => slash :: joinSegments body
  | .here => joinSegments (here :: body)
  | .nowhere => joinSegments body

/-- The path of `name` in the directory at `p`. -/
def join (p name : Bytes) : Bytes :=
  if p.isEmpty || p.getLast? = some slash then p ++ name else p ++ slash :: name

/-- The path with its last component, if that is a name, replaced by `name`. -/
def withFileName (p name : Bytes) : Bytes :=
  join (if (fileName p).isSome then parent p else p) name

end SshAuthority.Path

import SshAuthority.Toml.Scalar
/-!
# Documents of settings

A document is a table of tables, lists and scalars, its entries in the order they were written. Headers
and dotted keys open tables by a path. A table may be opened once; one that stands only because something
under it was opened first is still open to its own header, and one that dotted keys made is open to
further dotted keys.
-/
namespace SshAuthority.Toml

/-- How a table came to be. -/
inductive Origin where
  /-- A header named something under it. -/
  | implied
  | dotted
  | header
  | braces
  deriving DecidableEq, Repr

inductive Node where
  | leaf (value : Scalar)
  | list (items : List Node)
  | table (origin : Origin) (entries : List (String × Node))
  /-- Tables that share a name, one for each header. -/
  | rows (tables : List (List (String × Node)))
  deriving Repr

abbrev Entries := List (String × Node)

namespace Entries

def find? (es : Entries) (key : String) : Option Node := es.lookup key

/-- Replaces the entry of a key where it stands. -/
def put (es : Entries) (key : String) (node : Node) : Entries :=
  es.map fun (k, old) => if k == key then (k, node) else (k, old)

def add? (es : Entries) (key : String) (node : Node) : Option Entries :=
  if (es.find? key).isSome then none else some (es ++ [(key, node)])

def erase (es : Entries) (key : String) : Entries := es.filter fun (k, _) => k != key

end Entries

/-- Whether a path may lead through a table; dotted keys pass only tables that no header and no braces
made. -/
def Origin.isPassable (origin : Origin) (dotted : Bool) : Bool :=
  match origin with
  | .implied | .dotted => true
  | .header => !dotted
  | .braces => false

/-- Edits the table a path leads to, from a table of the given origin; tables that do not stand yet are
made. Where tables share a name, the path leads to the last one. -/
def within (dotted : Bool) (edit : Origin → Entries → Option Entries) :
    List String → Origin → Entries → Option Entries
  | [], origin, es => edit origin es
  | key :: path, _, es =>
    match es.find? key with
    | none => do
      let origin : Origin := if dotted then .dotted else .implied
      es.add? key (.table origin (← within dotted edit path origin []))
    | some (.table origin inner) => do
      guard (origin.isPassable dotted)
      return es.put key (.table origin (← within dotted edit path origin inner))
    | some (.rows tables) => do
      let last ← within dotted edit path .header (← tables.getLast?)
      return es.put key (.rows (tables.dropLast ++ [last]))
    | some _ => none

/-- Adds what a key stands for, in the table its path of dotted keys leads to. -/
def addKey (path : List String) (key : String) (node : Node) : Origin → Entries → Option Entries :=
  within true (fun origin es => do
    guard ((origin == .dotted) != path.isEmpty)
    es.add? key node) path

/-- A document that is being read: what was read so far, and the path of the table that is open. -/
structure Draft where
  entries : Entries
  place : List String

namespace Draft

def empty : Draft := ⟨[], []⟩

def keep (d : Draft) (path : List String) (key : String) (node : Node) : Option Draft := do
  let entries ← within false (addKey path key node) d.place .header d.entries
  return { d with entries }

/-- Opens the table a header names. -/
def openTable (d : Draft) (path : List String) (key : String) : Option Draft := do
  let opened ← within false (fun _ es =>
    match es.find? key with
    | none => es.add? key (.table .header [])
    | some (.table .implied inner) => (es.erase key).add? key (.table .header inner)
    | some _ => none) path .header d.entries
  return ⟨opened, path ++ [key]⟩

/-- Opens a further table under a name that tables share. -/
def openRow (d : Draft) (path : List String) (key : String) : Option Draft := do
  let opened ← within false (fun _ es =>
    match es.find? key with
    | none => es.add? key (.rows [[]])
    | some (.rows tables) => some (es.put key (.rows (tables ++ [[]])))
    | some _ => none) path .header d.entries
  return ⟨opened, path ++ [key]⟩

end Draft

end SshAuthority.Toml

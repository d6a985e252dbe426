import SshAuthority.Config.Pattern
/-!
# Edits of a configuration file

An edit makes sure that a line `key value` stands in the file. It replaces the lines its pattern
matches, live or commented out; where none matches it adds its line at the end.
-/
namespace SshAuthority.Config

inductive EditMode where
  /-- Replaces only lines that begin with this key and value. -/
  | add
  /-- Replaces every line of this key. -/
  | only
  deriving DecidableEq, Repr

structure Edit where
  mode : EditMode
  key : String
  value : String
  deriving DecidableEq, Repr

namespace Edit

def line (e : Edit) : String := e.key ++ " " ++ e.value

def lineBytes (e : Edit) : Bytes := Utf8.encode e.line

/-- What the pattern of an edit spells out. -/
def spelled (e : Edit) : Bytes :=
  match e.mode with
  | .add => e.lineBytes
  | .only => Utf8.encode e.key

/-- What may follow the text an edit's pattern spells out. -/
def tail : EditMode → Pattern
  | .add => .anyOfLine
  | .only => .perhaps (.followedBy (.oneOf [32, 9, 61]) .anyOfLine)

def pattern (e : Edit) : Pattern :=
  .followedBy .lineStart
    (.followedBy (.perhaps (.literal [35]))
      (.followedBy (.literal e.spelled) (.followedBy (tail e.mode) .lineEnd)))

/-- How much a pattern may spell out to be compiled. A compiled pattern has 10 MiB to take up, and a
byte that it spells out takes 32 bytes of them. What else there is to a pattern is counted by the
piece, so for patterns of nearly this size the limit is an estimate. -/
def maxPattern : Nat := 327680

/-- Whether the pattern of an edit can be compiled. -/
def fits (e : Edit) : Bool := e.pattern.size ≤ maxPattern

def withoutNewlines (content : Bytes) : Bytes :=
  (content.reverse.dropWhile (· == 10)).reverse

/-- The content with the edit's line added at the end. -/
def append (e : Edit) (content : Bytes) : Bytes :=
  let front := withoutNewlines content
  (if front.isEmpty then [] else front ++ [10]) ++ e.lineBytes ++ [10]

def apply (e : Edit) (content : Bytes) : Bytes :=
  (e.pattern.replaceAll e.lineBytes content).getD (e.append content)

/-- Applies edits in their order, each to the result of the one before. -/
def applyAll (edits : List Edit) (content : Bytes) : Bytes := edits.foldl (fun c e => e.apply c) content

end Edit

end SshAuthority.Config

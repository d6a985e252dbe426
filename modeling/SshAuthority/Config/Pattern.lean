import SshAuthority.Text.Utf8
/-!
# Line patterns

Patterns over bytes in which only a newline ends a line. A match is sought from left to right; where
a pattern leaves a choice it takes as much as it can and gives back what the rest cannot do without.
-/
namespace SshAuthority.Config

inductive Pattern where
  | lineStart
  | lineEnd
  | literal (bs : Bytes)
  | oneOf (bs : Bytes)
  /-- Any bytes of a line, as many as possible. -/
  | anyOfLine
  /-- `p` if it can be had. -/
  | perhaps (p : Pattern)
  | followedBy (p q : Pattern)
  deriving DecidableEq, Repr

/-- A place in a text: how many bytes lie before it, the last of them, and everything behind it. -/
structure Cursor where
  offset : Nat
  before : Option UInt8
  rest : Bytes
  deriving DecidableEq, Repr

namespace Cursor

def start (text : Bytes) : Cursor := ⟨0, none, text⟩

def atLineStart (c : Cursor) : Bool := c.before.isNone || c.before == some 10

def atLineEnd (c : Cursor) : Bool := c.rest.head?.all (· == 10)

/-- The place behind `bs`, if they come next. -/
def pass (c : Cursor) : Bytes → Option Cursor
  | [] => some c
  | expected :: bs =>
    match c.rest with
    | b :: rest => if b == expected then pass ⟨c.offset + 1, some b, rest⟩ bs else none
    | [] => none

end Cursor

namespace Pattern

/-- Offers `next` the longest stretch of the line first, then ever shorter ones. -/
def longest (next : Cursor → Option Cursor) (offset : Nat) (before : Option UInt8) :
    Bytes → Option Cursor
  | [] => next ⟨offset, before, []⟩
  | b :: rest =>
    if b == 10 then next ⟨offset, before, b :: rest⟩
    else (longest next (offset + 1) (some b) rest).or (next ⟨offset, before, b :: rest⟩)

/-- Where the preferred match of a pattern ends from which `next` can go on. -/
def run : Pattern → (Cursor → Option Cursor) → Cursor → Option Cursor
  | .lineStart, next, c => if c.atLineStart then next c else none
  | .lineEnd, next, c => if c.atLineEnd then next c else none
  | .literal bs, next, c => (c.pass bs).bind next
  | .oneOf bs, next, c =>
    match c.rest with
    | b :: rest => if bs.contains b then next ⟨c.offset + 1, some b, rest⟩ else none
    | [] => none
  | .anyOfLine, next, c => longest next c.offset c.before c.rest
  | .perhaps p, next, c => (p.run next c).or (next c)
  | .followedBy p q, next, c => p.run (q.run next) c

/-- The end of the match that begins at `c`. -/
def matchAt (p : Pattern) (c : Cursor) : Option Cursor := p.run some c

/-- Bytes a pattern spells out. -/
def size : Pattern → Nat
  | .literal bs => bs.length
  | .perhaps p => p.size
  | .followedBy p q => p.size + q.size
  | _ => 1

/-- Puts `line` in place of every match from `c` on; `fresh` tells that no match has just ended here,
for one that has excludes an empty match at the same place. The flag of the answer tells whether
there was any match. -/
def replaceFrom (p : Pattern) (line : Bytes) (found : Bool) (done : List Bytes) (fresh : Bool)
    (c : Cursor) : List Bytes × Bool :=
  let ended := p.matchAt c
  let isEmpty := ended.any (·.offset == c.offset)
  let taken := isEmpty && fresh
  match _ : c.rest, ended with
  | [], _ => ((if taken then line :: done else done).reverse, found || taken)
  | b :: rest, some e =>
    if isEmpty then
      let done := if taken then line :: done else done
      replaceFrom p line (found || taken) ([b] :: done) true ⟨c.offset + 1, some b, rest⟩
    else
      let left := rest.drop (e.offset - c.offset - 1)
      replaceFrom p line true (line :: done) false ⟨e.offset, e.before, left⟩
  | b :: rest, none => replaceFrom p line found ([b] :: done) true ⟨c.offset + 1, some b, rest⟩
termination_by c.rest.length
decreasing_by all_goals (simp only [*, List.length_cons, List.length_drop]; omega)

/-- The text with every match replaced, unless there is none. -/
def replaceAll (p : Pattern) (line text : Bytes) : Option Bytes :=
  let (pieces, found) := p.replaceFrom line false [] true (Cursor.start text)
  if found then some pieces.flatten else none

end Pattern

end SshAuthority.Config

import SshAuthority.Authority.Operator
/-!
# Sharing the operator's input

The operator's input arrives in pieces and is shared by all who wait for the operator. Whoever holds it
takes one line, as soon as a line is complete or no more input will come, and then lets it go.
-/
namespace SshAuthority.Authority

structure Input where
  /-- What has arrived and was not taken. -/
  arrived : Bytes
  /-- Whether no more will arrive. -/
  ended : Bool
  holder : Option Nat
  /-- The lines that were taken, each with its taker, in order. -/
  taken : List (Nat × Bytes)
  deriving DecidableEq, Repr

namespace Input

def empty : Input := ⟨[], false, none, []⟩

inductive Event where
  | arrive (piece : Bytes)
  | close
  | hold (who : Nat)
  | take (who : Nat)
  deriving DecidableEq, Repr

def arrive (s : Input) (piece : Bytes) : Input :=
  if s.ended then s else { s with arrived := s.arrived ++ piece }

def close (s : Input) : Input := { s with ended := true }

/-- Whether whoever holds the input need not wait. -/
def isReady (s : Input) : Bool := s.arrived.contains Operator.newline || s.ended

/-- Gives the input to `who` if nobody holds it. -/
def hold? (s : Input) (who : Nat) : Option Input :=
  if s.holder.isNone then some { s with holder := some who } else none

/-- Takes a line for `who`, who must hold the input, and lets it go. -/
def take? (s : Input) (who : Nat) : Option (Bytes × Input) :=
  if s.holder = some who && s.isReady then
    let (line, rest) := Operator.takeLine s.arrived
    some (line, { s with arrived := rest, holder := none, taken := s.taken ++ [(who, line)] })
  else none

def step (s : Input) : Event → Input
  | .arrive piece => s.arrive piece
  | .close => s.close
  | .hold who => (s.hold? who).getD s
  | .take who => ((s.take? who).map (·.2)).getD s

def run (s : Input) (events : List Event) : Input := events.foldl step s

def answers (s : Input) : List Bool := s.taken.map fun (_, line) => Operator.isYes line

end Input

end SshAuthority.Authority

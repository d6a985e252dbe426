import SshAuthority.Wire.Frame
/-!
# The receiving end of a connection

Bytes arrive in pieces cut anywhere, until the peer ends its side. A frame can be taken once it is
there in whole.
-/
namespace SshAuthority.Connection

structure Inbox where
  arrived : Wire.Frame.Arrivals
  ended : Bool
  deriving DecidableEq, Repr

namespace Inbox

def empty : Inbox := ⟨[], false⟩

def arrive (b : Inbox) (piece : Bytes) : Inbox :=
  if b.ended then b else { b with arrived := b.arrived ++ [piece] }

def close (b : Inbox) : Inbox := { b with ended := true }

/-- What there is to be taken. -/
inductive Next where
  /-- The frame is not there in whole, but may come. -/
  | nothing
  | frame (payload : Bytes) (rest : Inbox)
  | fault (fault : Wire.StreamFault)

def next (b : Inbox) : Next :=
  match Wire.Frame.read b.arrived with
  | .ok (payload, rest) => .frame payload { b with arrived := rest }
  | .error .earlyEnd => if b.ended then .fault .earlyEnd else .nothing
  | .error fault => .fault fault

end Inbox

end SshAuthority.Connection

import SshAuthority.Connection.Fault
/-!
# Calling an authority

A caller numbers its calls from one on and sends each as a request of its own. The reply must belong
to the method that was called.
-/
namespace SshAuthority.Connection

/-- Calls an authority over whatever carries a request there and its response back. -/
structure Caller (m : Type → Type) where
  next : UInt64
  exchange : Wire.Request → m (Except ClientFault Wire.Response)

def resultOf (r : Wire.Response) : Except ClientFault Wire.Reply :=
  match r.result with
  | .ok reply => .ok reply
  | .err failure => .error (.ofFailure failure)

/-- The certificate in a reply to a signing call. -/
def certificateOf : Wire.Reply → Except ClientFault Bytes
  | .signed certificate => .ok certificate
  | .publicKey _ => .error (.unexpectedReply .sign)

/-- The key in a reply to a call for the authority's key. -/
def keyOf : Wire.Reply → Except ClientFault Bytes
  | .publicKey key => .ok key
  | .signed _ => .error (.unexpectedReply .publicKey)

namespace Caller

variable {m : Type → Type} [Monad m]

def new (exchange : Wire.Request → m (Except ClientFault Wire.Response)) : Caller m := ⟨1, exchange⟩

def call (c : Caller m) (call : Wire.Call) : m (Except ClientFault Wire.Reply × Caller m) := do
  let answer ← c.exchange ⟨c.next, call⟩
  return (answer.bind resultOf, { c with next := c.next + 1 })

def publicKey (c : Caller m) : m (Except ClientFault Bytes × Caller m) := do
  let (answer, c) ← c.call .publicKey
  return (answer.bind keyOf, c)

def sign (c : Caller m) (r : SignRequest) : m (Except ClientFault Bytes × Caller m) := do
  let (answer, c) ← c.call (.sign (.ofRequest r))
  return (answer.bind certificateOf, c)

end Caller

end SshAuthority.Connection

import SshAuthority.Connection.Client
import SshAuthority.Connection.Server
/-!
# A client and its server

What either side puts on its stream arrives at the other side in order, in pieces of any size.
-/
namespace SshAuthority.Connection

structure Link where
  client : Client
  server : Server
  /-- How many bytes of requests have arrived at the server. -/
  carried : Nat
  /-- How many bytes of responses have arrived at the client. -/
  returned : Nat

namespace Link

def new (session : Authority.Session) : Link := ⟨.new, .new session, 0, 0⟩

inductive Event where
  | client (event : Client.Event)
  | server (event : Server.Event)
  /-- So many bytes more arrive at the server. -/
  | carry (count : Nat)
  /-- So many bytes more arrive at the client. -/
  | bringBack (count : Nat)

/-- The client's own steps; what arrives is not its own doing. -/
def isOwnOfClient : Client.Event → Bool
  | .arrive _ | .closeInput => false
  | _ => true

def isOwnOfServer : Server.Event → Bool
  | .arrive _ | .closeInput => false
  | _ => true

def step (s : Link) : Event → Link
  | .client e => if isOwnOfClient e then { s with client := s.client.step e } else s
  | .server e => if isOwnOfServer e then { s with server := s.server.step e } else s
  | .carry count =>
    let piece := (s.client.sent.drop s.carried).take count
    { s with server := s.server.step (.arrive piece), carried := s.carried + piece.length }
  | .bringBack count =>
    let piece := (s.server.sent.drop s.returned).take count
    { s with client := s.client.step (.arrive piece), returned := s.returned + piece.length }

def run (s : Link) (events : List Event) : Link := events.foldl step s

end Link

end SshAuthority.Connection

import SshAuthority.Authority.Turn
import SshAuthority.Connection.Link
/-!
# Connections in turn

A schedule in which every part of a connection goes on until it has to wait. The stream takes what is
written at once, calls are made in order, the server handles what has arrived in the order it was sent, and
the responses come back together.
-/
namespace SshAuthority.Connection

namespace Client

/-- Makes a call and writes its request. -/
def launch (s : Client) (call : Wire.Call) : Client :=
  let i := s.calls.length
  let s := s.run [.make call, .register i, .check i, .holdWriter i]
  match s.phase? i with
  | some (.writing rest) => s.run [.put i rest.length, .flush i]
  | _ => s

def readFor : Nat → Client → Client
  | 0, s => s
  | fuel + 1, s => match s.read? with
    | some next => readFor fuel next
    | none => s

/-- Reads all responses that have arrived, and has every call look for its reply. -/
def receive (s : Client) : Client :=
  let s := readFor (s.inbox.arrived.flatten.length + 2) s
  (s.run [.markClosed, .dropSlots]).run ((List.range s.calls.length).map .wake)

end Client

namespace Server
open Authority

def readFor : Nat → Server → Server
  | 0, s => s
  | fuel + 1, s => match s.read? with
    | some next => readFor fuel next
    | none => s

/-- Writes the answer of a handler. -/
def respond (s : Server) (k : Nat) : Server :=
  let s := s.run [.collect k, .enqueue k, .dequeue]
  match s.writing with
  | some (_, rest) => s.step (.put rest.length)
  | none => s

/-- Handles all requests that have arrived. All of them are shown before one is signed. -/
def settle (tool : Session.Tool) (s : Server) : Server :=
  let s := readFor (s.inbox.arrived.flatten.length + 2) s
  let handlers := List.range s.handlers.length
  let s := s.run (handlers.map .dispatch)
  let calls := List.range s.session.calls.length
  let shown := s.session.run (calls.map .announce)
  handlers.foldl respond { s with session := calls.foldl (Session.turn tool) shown }

end Server

namespace Link

/-- Has everything that is on its way arrive and be handled. -/
def settle (tool : Authority.Session.Tool) (s : Link) : Link :=
  let s := s.step (.carry s.client.sent.length)
  let s := { s with server := s.server.settle tool }
  let s := s.step (.bringBack s.server.sent.length)
  { s with client := s.client.receive }

def launch (s : Link) (call : Wire.Call) : Link := { s with client := s.client.launch call }

/-- Makes a call and waits for what it comes to. -/
def call (tool : Authority.Session.Tool) (s : Link) (call : Wire.Call) : Link :=
  (s.launch call).settle tool

/-- Makes calls all at once and waits for what they come to. -/
def callTogether (tool : Authority.Session.Tool) (s : Link) (calls : List Wire.Call) : Link :=
  (calls.foldl launch s).settle tool

end Link

end SshAuthority.Connection

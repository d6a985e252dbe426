import SshAuthority.Authority.Session
import SshAuthority.Connection.Inbox
import SshAuthority.Wire.Encoding
/-!
# The server's side of a connection

Requests are read one after the other and handled side by side; one that says nothing sensible is
passed over. A handler puts its response into a queue with room for a few, and a single writer takes
them from there, so that frames do not mix. A response that is too long for a frame, like a peer that
accepts no more, ends the writer, and what is put into the queue then is lost. The service may have
other callers too. An event that cannot happen changes nothing.
-/
namespace SshAuthority.Connection
open Authority

inductive HandlerPhase where
  | dispatched
  /-- It waits for a call of the service. -/
  | signing (call : Nat)
  | answered (result : Wire.Result)
  | done

structure Handler where
  request : Wire.Request
  phase : HandlerPhase

structure Server where
  session : Session
  inbox : Inbox
  /-- Whether requests are still read. -/
  reading : Bool
  /-- A handler for each request that was read, in order. -/
  handlers : List Handler
  queue : List Wire.Response
  /-- The response that is being written, with what is left of its frame. -/
  writing : Option (Wire.Response × Bytes)
  /-- Whether the writer gave up. -/
  broken : Bool
  /-- All bytes put on the stream. -/
  sent : Bytes
  /-- The responses that were written in whole, in order. -/
  written : List Wire.Response

namespace Server

def new (session : Session) : Server := ⟨session, .empty, true, [], [], none, false, [], []⟩

/-- How many responses the queue has room for. -/
def queueRoom : Nat := 32

inductive Event where
  | arrive (piece : Bytes)
  | closeInput
  | read
  /-- A handler turns to the service. -/
  | dispatch (handler : Nat)
  /-- A handler has its answer from the service. -/
  | collect (handler : Nat)
  | enqueue (handler : Nat)
  /-- The writer takes a response from the queue. -/
  | dequeue
  /-- The stream accepts so many bytes more. -/
  | put (count : Nat)
  | failWrite
  | service (event : Session.Event)

def enter (s : Server) (k : Nat) (p : HandlerPhase) : Server :=
  { s with handlers := s.handlers.modify k fun h => { h with phase := p } }

/-- The request for a signature that a call makes, if its key can be read. -/
def signRequest? : Wire.Call → Option SignRequest
  | .publicKey => none
  | .sign args => args.request.toOption

def dispatch (s : Server) (k : Nat) (h : Handler) : Server :=
  match signRequest? h.request.call with
  | some r =>
    { s with session := s.session.step (.request r) }.enter k (.signing s.session.calls.length)
  | none =>
    s.enter k (.answered (Service.respond s.session.service.identity.key h.request.call
      fun _ => .error .notConfirmed))

def answer (s : Server) (h : Handler) (signed : Except ServiceFault Bytes) : Wire.Result :=
  Service.respond s.session.service.identity.key h.request.call fun _ => signed

/-- The step a handler takes at an event, if it can take it. -/
def act (s : Server) (k : Nat) (h : Handler) : Event → Option Server
  | .dispatch _ => match h.phase with
    | .dispatched => some (s.dispatch k h)
    | _ => none
  | .collect _ => match h.phase with
    | .signing call => (s.session.result? call).map fun signed => s.enter k (.answered (s.answer h signed))
    | _ => none
  | .enqueue _ => match h.phase with
    | .answered result =>
      if s.broken then some (s.enter k .done)
      else if s.queue.length < queueRoom then
        let response : Wire.Response := ⟨h.request.seq, result⟩
        some ({ s with queue := s.queue ++ [response] }.enter k .done)
      else none
    | _ => none
  | _ => none

/-- The reader's step; none when it has to wait. -/
def read? (s : Server) : Option Server :=
  match s.reading, s.inbox.next with
  | true, .frame payload inbox =>
    match Wire.Request.decode payload with
    | .ok r => some { s with inbox, handlers := s.handlers ++ [⟨r, .dispatched⟩] }
    | .error _ => some { s with inbox }
  | true, .fault _ => some { s with reading := false }
  | _, _ => none

def giveUp (s : Server) : Server := { s with broken := true, queue := [], writing := none }

def dequeue? (s : Server) : Option Server :=
  match s.broken, s.writing, s.queue with
  | false, none, r :: queue =>
    match Wire.Frame.write r.encode with
    | .ok frame => some { s with queue, writing := some (r, frame) }
    | .error _ => some s.giveUp
  | _, _, _ => none

def put? (s : Server) (count : Nat) : Option Server :=
  s.writing.map fun (r, rest) =>
    let s := { s with sent := s.sent ++ rest.take count }
    match rest.drop count with
    | [] => { s with writing := none, written := s.written ++ [r] }
    | left => { s with writing := some (r, left) }

/-- The handler whose step an event is. -/
def Event.handler? : Event → Option Nat
  | .dispatch k | .collect k | .enqueue k => some k
  | .arrive _ | .closeInput | .read | .dequeue | .put _ | .failWrite | .service _ => none

/-- The next state, if the event can happen. -/
def step? (s : Server) (e : Event) : Option Server :=
  match e with
  | .arrive piece => some { s with inbox := s.inbox.arrive piece }
  | .closeInput => some { s with inbox := s.inbox.close }
  | .read => s.read?
  | .dequeue => s.dequeue?
  | .put count => s.put? count
  | .failWrite => if s.writing.isSome then some s.giveUp else none
  | .service event => (s.session.step? event).map fun session => { s with session }
  | e => do
    let k ← e.handler?
    let h ← s.handlers[k]?
    s.act k h e

def step (s : Server) (e : Event) : Server := (s.step? e).getD s

def run (s : Server) (events : List Event) : Server := events.foldl step s

/-! ## Views -/

def Handler.isDone (h : Handler) : Bool :=
  match h.phase with
  | .done => true
  | _ => false

/-- Whether the connection is over: nothing more is read, and the writer has nothing more to write or
gave up. -/
def isOver (s : Server) : Bool :=
  !s.reading && (s.broken || (s.handlers.all Handler.isDone && s.queue.isEmpty && s.writing.isNone))

end Server

end SshAuthority.Connection

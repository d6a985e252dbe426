import SshAuthority.Connection.Caller
import SshAuthority.Connection.Inbox
import SshAuthority.Wire.Encoding
/-!
# The client's side of a connection

Calls share a connection and take their steps in any order. A call takes a number, registers a slot for
its reply under that number, makes sure that the connection is not closed, writes its request and flushes
the stream while it holds the writer, and waits. The reader gives each response to the slot of its number and removes the
slot; when the stream fails it marks the connection closed and then drops all slots. A call may be
abandoned wherever it waits. An event that cannot happen changes nothing.
-/
namespace SshAuthority.Connection

/-- What a call comes to with its response. -/
def outcomeOf (call : Wire.Call) (r : Wire.Response) : Except ClientFault Bytes :=
  (resultOf r).bind fun reply => match call with
    | .publicKey => keyOf reply
    | .sign _ => certificateOf reply

/-- How far a call has come. -/
inductive CallPhase where
  /-- It has its number. -/
  | numbered
  /-- Its slot is registered. -/
  | registered
  /-- It found the connection open, and waits for the writer. -/
  | queued
  /-- It holds the writer and has `rest` of its frame still to write. -/
  | writing (rest : Bytes)
  /-- It holds the writer until the stream is flushed, which has its whole frame. -/
  | flushing
  | waiting
  | finished (result : Except ClientFault Bytes)
  | abandoned

def CallPhase.isOver : CallPhase → Bool
  | .finished _ | .abandoned => true
  | .numbered | .registered | .queued | .writing _ | .flushing | .waiting => false

def CallPhase.holdsWriter : CallPhase → Bool
  | .writing _ | .flushing => true
  | .numbered | .registered | .queued | .waiting | .finished _ | .abandoned => false

structure ClientCall where
  seq : UInt64
  call : Wire.Call
  phase : CallPhase
  /-- The response that was given to its slot. -/
  reply : Option Wire.Response
  /-- How many responses had been read when its slot was registered. -/
  since : Nat

def ClientCall.request (c : ClientCall) : Wire.Request := ⟨c.seq, c.call⟩

inductive ReaderPhase where
  | reading
  /-- The stream failed. -/
  | stopped
  /-- The connection is marked closed. -/
  | marked
  | done
  deriving DecidableEq, Repr

structure Client where
  calls : List ClientCall
  nextSeq : UInt64
  /-- The slots that wait for a response, each with its call. -/
  pending : List (UInt64 × Nat)
  closed : Bool
  /-- Who holds the writer. -/
  writer : Option Nat
  /-- All bytes put on the stream. -/
  sent : Bytes
  /-- The requests that were written in whole, in order. -/
  written : List Wire.Request
  /-- Those of them behind which the stream was flushed. -/
  flushed : List Wire.Request
  inbox : Inbox
  reader : ReaderPhase
  /-- The responses that were read, in order. -/
  responses : List Wire.Response

namespace Client

def new : Client := ⟨[], 1, [], false, none, [], [], [], .empty, .reading, []⟩

inductive Event where
  /-- A call is made and takes the next number. -/
  | make (call : Wire.Call)
  | register (call : Nat)
  | check (call : Nat)
  /-- The call gets the writer, unless its request is too long for a frame. -/
  | holdWriter (call : Nat)
  /-- The stream accepts so many bytes more. -/
  | put (call : Nat) (count : Nat)
  | flush (call : Nat)
  | failWrite (call : Nat) (fault : Wire.StreamFault)
  /-- The call looks for its reply. -/
  | wake (call : Nat)
  | abandon (call : Nat)
  | arrive (piece : Bytes)
  | closeInput
  | read
  | markClosed
  | dropSlots

def phase? (s : Client) (i : Nat) : Option CallPhase := (s.calls[i]?).map (·.phase)

def enter (s : Client) (i : Nat) (p : CallPhase) : Client :=
  { s with calls := s.calls.modify i fun c => { c with phase := p } }

def slot? (s : Client) (seq : UInt64) : Option Nat := s.pending.lookup seq

def withoutSlot (s : Client) (seq : UInt64) : Client :=
  { s with pending := s.pending.filter fun (n, _) => n != seq }

/-- Ends a call; its slot goes with it. -/
def finish (s : Client) (i : Nat) (c : ClientCall) (result : Except ClientFault Bytes) : Client :=
  (s.withoutSlot c.seq).enter i (.finished result)

def make (s : Client) (call : Wire.Call) : Client :=
  { s with calls := s.calls ++ [⟨s.nextSeq, call, .numbered, none, 0⟩], nextSeq := s.nextSeq + 1 }

def register (s : Client) (i : Nat) (c : ClientCall) : Client :=
  let s := s.withoutSlot c.seq
  let since := s.responses.length
  { s with
    pending := s.pending ++ [(c.seq, i)],
    calls := s.calls.modify i fun c => { c with phase := .registered, since } }

def releaseWriter (s : Client) (i : Nat) : Client :=
  if s.writer = some i then { s with writer := none } else s

/-- The step a call takes at an event, if it can take it. -/
def act (s : Client) (i : Nat) (c : ClientCall) : Event → Option Client
  | .register _ => match c.phase with
    | .numbered => some (s.register i c)
    | _ => none
  | .check _ => match c.phase with
    | .registered => some (if s.closed then s.finish i c (.error .closed) else s.enter i .queued)
    | _ => none
  | .holdWriter _ => match c.phase, s.writer with
    | .queued, none =>
      match Wire.Frame.write c.request.encode with
      | .error fault => some (s.finish i c (.error (.codec (.stream fault))))
      | .ok frame => some ({ s with writer := some i }.enter i (.writing frame))
    | _, _ => none
  | .put _ count => match c.phase with
    | .writing rest =>
      let s := { s with sent := s.sent ++ rest.take count }
      match rest.drop count with
      | [] => some ({ s with written := s.written ++ [c.request] }.enter i .flushing)
      | left => some (s.enter i (.writing left))
    | _ => none
  | .flush _ => match c.phase with
    | .flushing => some ({ s with writer := none, flushed := s.flushed ++ [c.request] }.enter i .waiting)
    | _ => none
  | .failWrite _ fault =>
    if c.phase.holdsWriter then some ((s.releaseWriter i).finish i c (.error (.codec (.stream fault))))
    else none
  | .wake _ => match c.phase, c.reply with
    | .waiting, some r => some (s.finish i c (outcomeOf c.call r))
    | .waiting, none => if s.slot? c.seq = some i then none else some (s.finish i c (.error .closed))
    | _, _ => none
  | .abandon _ => match c.phase with
    | .queued | .writing _ | .flushing | .waiting =>
      some (((s.releaseWriter i).withoutSlot c.seq).enter i .abandoned)
    | _ => none
  | .make _ | .arrive _ | .closeInput | .read | .markClosed | .dropSlots => none

/-- Gives a response to the slot of its number, if there is one. -/
def deliver (s : Client) (r : Wire.Response) : Client :=
  let s := { s with responses := s.responses ++ [r] }
  match s.slot? r.seq with
  | none => s
  | some i =>
    { s.withoutSlot r.seq with calls := s.calls.modify i fun c => { c with reply := some r } }

/-- The reader's step; none when it has to wait. -/
def read? (s : Client) : Option Client :=
  match s.reader, s.inbox.next with
  | .reading, .frame payload inbox =>
    match Wire.Response.decode payload with
    | .ok r => some ({ s with inbox }.deliver r)
    | .error _ => some { s with inbox, reader := .stopped }
  | .reading, .fault _ => some { s with reader := .stopped }
  | _, _ => none

/-- The call whose step an event is. -/
def Event.call? : Event → Option Nat
  | .register i | .check i | .holdWriter i | .put i _ | .flush i | .failWrite i _ | .wake i | .abandon i =>
    some i
  | .make _ | .arrive _ | .closeInput | .read | .markClosed | .dropSlots => none

/-- The next state, if the event can happen. -/
def step? (s : Client) (e : Event) : Option Client :=
  match e with
  | .make call => some (s.make call)
  | .arrive piece => some { s with inbox := s.inbox.arrive piece }
  | .closeInput => some { s with inbox := s.inbox.close }
  | .read => s.read?
  | .markClosed =>
    if s.reader = .stopped then some { s with closed := true, reader := .marked } else none
  | .dropSlots => if s.reader = .marked then some { s with pending := [], reader := .done } else none
  | e => do
    let i ← e.call?
    let c ← s.calls[i]?
    s.act i c e

def step (s : Client) (e : Event) : Client := (s.step? e).getD s

def run (s : Client) (events : List Event) : Client := events.foldl step s

/-! ## Views -/

def result? (s : Client) (i : Nat) : Option (Except ClientFault Bytes) :=
  match s.phase? i with
  | some (.finished result) => some result
  | _ => none

/-- Whether every call is over. -/
def isIdle (s : Client) : Bool := s.calls.all (·.phase.isOver)

def summary (s : Client) : String :=
  let count := toString s.pending.length
  let closed := toString s.closed
  "Client \x7b pending: " ++ count ++ ", closed: " ++ closed ++ ", .. \x7d"

end Client

end SshAuthority.Connection

import SshAuthority.Authority.Input
import SshAuthority.Authority.Service
/-!
# Signing for many at once

The signing calls of one service take their steps in any order. They share the operator's input, which
one call at a time reads its confirmation from, and the console, which one call at a time runs the
signing tool on. Each has a directory of its own from before its key is staged until its result is
known. An event that cannot happen changes nothing.
-/
namespace SshAuthority.Authority

/-- What a run of the signing tool comes to: how it failed, if it did, and what reading the certificate
beside the staged key yields from then on. -/
structure Outcome where
  failure : Option SigningFault
  certificate : Except Host.Fault Bytes

/-- The result of a signature that came to its run of the tool. -/
def Outcome.result (o : Outcome) : Except SigningFault Bytes :=
  match o.failure with
  | some fault => .error fault
  | none => o.certificate.mapError .readCertificate

/-- How far a signing call has come. -/
inductive Phase where
  | called
  /-- Its summary was shown, and it is to be confirmed. -/
  | announced
  /-- It holds the operator's input. -/
  | confirming
  | confirmed
  /-- It has a directory. -/
  | housed (directory : Bytes)
  /-- Its key is staged there. -/
  | staged (directory : Bytes)
  /-- It holds the console. -/
  | attached (directory : Bytes)
  | running (directory : Bytes)
  /-- The tool was content, and the certificate is still to be read. -/
  | signed (directory : Bytes)
  /-- Its result is known, and its directory is still to be removed. -/
  | leaving (directory : Bytes) (result : Except SigningFault Bytes)
  | ended (result : Except ServiceFault Bytes)

def Phase.directory? : Phase → Option Bytes
  | .housed d | .staged d | .attached d | .running d | .signed d | .leaving d _ => some d
  | .called | .announced | .confirming | .confirmed | .ended _ => none

def Phase.result? : Phase → Option (Except ServiceFault Bytes)
  | .ended result => some result
  | _ => none

structure SigningCall where
  request : SignRequest
  phase : Phase

/-- A directory that keys are staged in. -/
structure Staging where
  path : Bytes
  key : Option Bytes
  /-- What reading the certificate yields. -/
  certificate : Except Host.Fault Bytes

/-- A run of the signing tool: whose it is, its arguments, and the key that is staged when it starts. -/
structure ToolRun where
  call : Nat
  arguments : List Bytes
  key : Option Bytes
  deriving DecidableEq, Repr

structure Session where
  service : Service
  calls : List SigningCall
  input : Input
  /-- Who holds the console. -/
  console : Option Nat
  directories : List Staging
  /-- The summaries shown so far, each with its call, in order. -/
  shown : List (Nat × String)
  /-- The runs started so far, in order. -/
  runs : List ToolRun

namespace Session

def new (service : Service) : Session := ⟨service, [], .empty, none, [], [], []⟩

inductive Event where
  | request (r : SignRequest)
  | arrive (piece : Bytes)
  | closeInput
  | announce (call : Nat)
  | holdInput (call : Nat)
  | takeLine (call : Nat)
  /-- A fresh directory is made, or cannot be. -/
  | makeDirectory (call : Nat) (made : Except Host.Fault Bytes)
  | stage (call : Nat) (written : Except Host.Fault Unit)
  | holdConsole (call : Nat)
  | start (call : Nat)
  | finish (call : Nat) (outcome : Outcome)
  | readCertificate (call : Nat)
  | removeDirectory (call : Nat)

def phase? (s : Session) (i : Nat) : Option Phase := (s.calls[i]?).map (·.phase)

def enter (s : Session) (i : Nat) (p : Phase) : Session :=
  { s with calls := s.calls.modify i fun c => { c with phase := p } }

def staging? (s : Session) (path : Bytes) : Option Staging := s.directories.find? (·.path == path)

def updateStaging (s : Session) (path : Bytes) (f : Staging → Staging) : Session :=
  { s with directories := s.directories.map fun d => if d.path == path then f d else d }

def request (s : Session) (r : SignRequest) : Session := { s with calls := s.calls ++ [⟨r, .called⟩] }

/-- The step a call takes at an event, if it can take it. -/
def act (s : Session) (i : Nat) (c : SigningCall) : Event → Option Session
  | .announce _ => match c.phase with
    | .called =>
      let s := { s with shown := s.shown ++ [(i, c.request.summary)] }
      some (s.enter i (if s.service.confirms then .announced else .confirmed))
    | _ => none
  | .holdInput _ => match c.phase with
    | .announced => (s.input.hold? i).map fun input => { s with input }.enter i .confirming
    | _ => none
  | .takeLine _ => match c.phase with
    | .confirming => (s.input.take? i).map fun (line, input) =>
      { s with input }.enter i
        (if Operator.isYes line then .confirmed else .ended (.error .notConfirmed))
    | _ => none
  | .makeDirectory _ made => match c.phase, made with
    | .confirmed, .error fault => some (s.enter i (.ended (.error (.signingFailed (.stage fault)))))
    | .confirmed, .ok path =>
      if (s.staging? path).isSome then none
      else
        let fresh : Staging := ⟨path, none, .error .noEntry⟩
        some ({ s with directories := s.directories ++ [fresh] }.enter i (.housed path))
    | _, _ => none
  | .stage _ written => match c.phase, written with
    | .housed path, .error fault => some (s.enter i (.leaving path (.error (.stage fault))))
    | .housed path, .ok _ =>
      let staged := s.updateStaging path fun d => { d with key := some c.request.key.bytes }
      some (staged.enter i (.staged path))
    | _, _ => none
  | .holdConsole _ => match c.phase with
    | .staged path =>
      if s.console.isSome then none else some ({ s with console := some i }.enter i (.attached path))
    | _ => none
  | .start _ => match c.phase with
    | .attached path =>
      let arguments := c.request.toolArguments s.service.identity.signer (Path.join path stagedName)
      let run : ToolRun := ⟨i, arguments, (s.staging? path).bind (·.key)⟩
      some ({ s with runs := s.runs ++ [run] }.enter i (.running path))
    | _ => none
  | .finish _ outcome => match c.phase with
    | .running path =>
      let left := s.updateStaging path fun d => { d with certificate := outcome.certificate }
      some ({ left with console := none }.enter i (match outcome.failure with
        | some fault => .leaving path (.error fault)
        | none => .signed path))
    | _ => none
  | .readCertificate _ => match c.phase with
    | .signed path => (s.staging? path).map fun d =>
      s.enter i (.leaving path (d.certificate.mapError .readCertificate))
    | _ => none
  | .removeDirectory _ => match c.phase with
    | .leaving path result =>
      let cleared := { s with directories := s.directories.filter (·.path != path) }
      some (cleared.enter i (.ended (result.mapError .signingFailed)))
    | _ => none
  | .request _ | .arrive _ | .closeInput => none

/-- The call whose step an event is. -/
def Event.call? : Event → Option Nat
  | .request _ | .arrive _ | .closeInput => none
  | .announce i | .holdInput i | .takeLine i | .makeDirectory i _ | .stage i _ | .holdConsole i
  | .start i | .finish i _ | .readCertificate i | .removeDirectory i => some i

/-- The next state, if the event can happen. -/
def step? (s : Session) (e : Event) : Option Session :=
  match e with
  | .request r => some (s.request r)
  | .arrive piece => some { s with input := s.input.arrive piece }
  | .closeInput => some { s with input := s.input.close }
  | e => do
    let i ← e.call?
    let c ← s.calls[i]?
    s.act i c e

def step (s : Session) (e : Event) : Session := (s.step? e).getD s

def run (s : Session) (events : List Event) : Session := events.foldl step s

/-! ## Views -/

/-- What the operator was shown. -/
def printed (s : Session) : String := String.join (s.shown.map fun (_, summary) => summary ++ "\n")

def result? (s : Session) (i : Nat) : Option (Except ServiceFault Bytes) :=
  (s.phase? i).bind (·.result?)

/-- The calls whose run of the tool has started and not ended. -/
def runningCalls (s : Session) : List Nat :=
  (List.range s.calls.length).filter fun i => match s.phase? i with
    | some (.running _) => true
    | _ => false

end Session

end SshAuthority.Authority

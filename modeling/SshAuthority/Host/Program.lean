import SshAuthority.Host.Fault
import SshAuthority.Text.Blank
/-!
# Programs

How a program's end is reported, and running one whose output is collected: an unsuccessful end is a
fault that carries what the program complained about.
-/
namespace SshAuthority.Host

/-- The word a program's end is handed over in. -/
structure ExitStatus where
  raw : UInt32
  deriving DecidableEq, Repr

namespace ExitStatus

def success : ExitStatus := ⟨0⟩

/-- The status whose word is `n` in two's complement. -/
def ofRaw (n : Int) : ExitStatus := ⟨UInt32.ofInt n⟩

def ofCode (code : Int) : ExitStatus := ofRaw (code % 256 * 256)

def ofSignal (signal : Nat) : ExitStatus := ⟨UInt32.ofNat (signal % 128)⟩

def signals : List String :=
  ["SIGHUP", "SIGINT", "SIGQUIT", "SIGILL", "SIGTRAP", "SIGABRT", "SIGBUS", "SIGFPE", "SIGKILL",
    "SIGUSR1", "SIGSEGV", "SIGUSR2", "SIGPIPE", "SIGALRM", "SIGTERM", "SIGSTKFLT", "SIGCHLD", "SIGCONT",
    "SIGSTOP", "SIGTSTP", "SIGTTIN", "SIGTTOU", "SIGURG", "SIGXCPU", "SIGXFSZ", "SIGVTALRM", "SIGPROF",
    "SIGWINCH", "SIGIO", "SIGPWR", "SIGSYS"]

def signalText (n : Nat) : String :=
  match n with
  | 0 => "0"
  | k + 1 => match signals[k]? with
    | some name => s!"{n} ({name})"
    | none => s!"{n}"

def low (s : ExitStatus) : Nat := s.raw.toNat % 128

def high (s : ExitStatus) : Nat := s.raw.toNat / 256 % 256

def succeeded (s : ExitStatus) : Bool := s.raw == 0

def hexText (n : Nat) : String := String.ofList (Nat.toDigits 16 n)

def signed (n : Nat) : Int := if n < Nat.pow 2 31 then n else (n : Int) - (Nat.pow 2 32 : Nat)

def message (s : ExitStatus) : String :=
  let n := s.raw.toNat
  if s.low = 0 then s!"exit status: {s.high}"
  else if s.low < 127 then
    let dumped := if n / 128 % 2 = 1 then " (core dumped)" else ""
    "signal: " ++ signalText s.low ++ dumped
  else if n % 256 = 127 then "stopped (not terminated) by signal: " ++ signalText s.high
  else if n = 65535 then "continued (WIFCONTINUED)"
  else s!"unrecognised wait status: {signed n} 0x{hexText n}"

end ExitStatus

/-- What a program that was run to its end left behind. -/
structure Ended where
  status : ExitStatus
  out : Bytes
  err : Bytes
  deriving DecidableEq, Repr

inductive CommandFault where
  | launch (program : Bytes) (fault : Fault)
  | exit (program : Bytes) (status : ExitStatus) (complaint : String)
  deriving DecidableEq, Repr

def CommandFault.message : CommandFault → String
  | .launch program fault => "failed to run " ++ Utf8.decodeLossy program ++ ": " ++ fault.message
  | .exit program status complaint =>
    Utf8.decodeLossy program ++ " exited with " ++ status.message ++ ": " ++ complaint

/-- The message and those of the causes behind it, as they are reported together. -/
def CommandFault.chain (fault : CommandFault) : List String :=
  fault.message :: match fault with
    | .launch _ cause => [cause.message]
    | .exit _ _ _ => []

/-- The name a program goes by in reports; one that holds a zero byte has none. -/
def shownProgram (program : Bytes) : Bytes :=
  if program.contains 0 then Utf8.encode "<string-with-nul>" else program

def checked (program : Bytes) (ended : Except Fault Ended) : Except CommandFault Ended :=
  match ended with
  | .error fault => .error (.launch (shownProgram program) fault)
  | .ok e =>
    if e.status.succeeded then .ok e
    else
      let complaint := Text.trim (Utf8.decodeLossy e.err).toList
      .error (.exit (shownProgram program) e.status (String.ofList complaint))

end SshAuthority.Host

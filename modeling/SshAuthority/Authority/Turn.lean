import SshAuthority.Authority.Session
/-!
# Calls in turn

A schedule in which calls are brought to their end one after the other. The signing tool is a function
of how many runs there were before and of the run.
-/
namespace SshAuthority.Authority.Session

abbrev Tool := Nat → ToolRun → Outcome

def directoryOf (i : Nat) : Bytes := Utf8.encode ("/tmp/sshca." ++ toString i)

/-- The steps of a call up to its run of the tool. -/
def opening (i : Nat) : List Event :=
  [.announce i, .holdInput i, .takeLine i, .makeDirectory i (.ok (directoryOf i)), .stage i (.ok ()),
    .holdConsole i, .start i]

/-- The steps of a call after its run of the tool. -/
def closing (i : Nat) : List Event := [.readCertificate i, .removeDirectory i]

/-- Ends the run of a call, if it is the last that was started. -/
def finishRun (tool : Tool) (s : Session) (i : Nat) : Session :=
  match s.runs.getLast? with
  | some r => if r.call = i then s.step (.finish i (tool (s.runs.length - 1) r)) else s
  | none => s

def turn (tool : Tool) (s : Session) (i : Nat) : Session :=
  (finishRun tool (s.run (opening i)) i).run (closing i)

def serve (tool : Tool) (s : Session) (r : SignRequest) : Session :=
  turn tool (s.request r) s.calls.length

/-- Makes all calls and shows all of them, and then brings one after the other to its end. -/
def serveTogether (tool : Tool) (s : Session) (rs : List SignRequest) : Session :=
  let first := s.calls.length
  let indices := (List.range rs.length).map (first + ·)
  let made := rs.foldl request s
  indices.foldl (turn tool) (made.run (indices.map .announce))

end SshAuthority.Authority.Session

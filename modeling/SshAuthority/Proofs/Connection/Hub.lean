import SshAuthority.Proofs.Connection.ServerStep
/-!
# One service for many

A service is called directly and over any number of connections, each of which takes its own steps. The
calls it gets that way are a run of one session.
-/
namespace SshAuthority.Connection
open Authority

/-- A service with its connections, each told apart from the others by what lies outside the session. -/
structure Hub where
  session : Session
  servers : List Server

namespace Hub

def new (service : Service) : Hub := ⟨.new service, []⟩

inductive Event where
  /-- A step that no connection brought about. -/
  | direct (event : Session.Event)
  | accept
  | connection (server : Nat) (event : Server.Event)

def step (s : Hub) : Event → Hub
  | .direct e => { s with session := s.session.step e }
  | .accept => { s with servers := s.servers ++ [.new s.session] }
  | .connection k e => match s.servers[k]? with
    | none => s
    | some server =>
      let next := Server.step { server with session := s.session } e
      ⟨next.session, s.servers.set k next⟩

def run (s : Hub) (events : List Event) : Hub := events.foldl step s

end Hub

namespace Hub

theorem session_step (s : Hub) (e : Event) :
    (s.step e).session = s.session ∨ ∃ event, (s.step e).session = s.session.step event := by
  cases e with
  | direct event => exact .inr ⟨event, rfl⟩
  | accept => exact .inl rfl
  | connection k event =>
    simp only [step]
    split
    · exact .inl rfl
    · exact Server.session_step _ event

/-- The calls of a shared service are a run of one session. -/
theorem session_run (s : Hub) (events : List Event) :
    ∃ steps : List Session.Event, (s.run events).session = s.session.run steps := by
  induction events generalizing s with
  | nil => exact ⟨[], rfl⟩
  | cons e events ih =>
    obtain ⟨steps, hs⟩ := ih (s.step e)
    rcases session_step s e with h | ⟨event, h⟩
    · exact ⟨steps, by rw [← h]; exact hs⟩
    · exact ⟨event :: steps, by rw [Session.run_cons, ← h]; exact hs⟩

end Hub

end SshAuthority.Connection

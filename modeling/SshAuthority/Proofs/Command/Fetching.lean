import SshAuthority.Command.Trust
import SshAuthority.Proofs.Host.Scene
/-!
# Fetching the key of an authority

Before an authority is trusted its key is fetched. Whether the authority is in the same process or at an address,
that changes nothing.
-/
namespace SshAuthority.Command
open Connection (Caller)
open Host (Act Scene bind_eq_some pure_eq_some)

section

variable {m : Type → Type} [Monad m]

def fetch (host : Host m) (s : Settings) (r : Reach) : m (Except Fault PublicKey) := do
  match ← reach host s r with
  | .error fault => return .error fault
  | .ok caller =>
    match (← caller.publicKey).1 with
    | .error fault => return .error (.keyNotFetched fault)
    | .ok content => return (PublicKey.parse content).mapError .authorityKeyInvalid

/-- The key is fetched before anything is done with it. -/
theorem trust_eq [LawfulMonad m] (host : Host m) (s : Settings) (r : Reach) : trust host s r = (do
    match ← fetch host s r with
    | .error fault => return .error fault
    | .ok key => trustKey host s key) := by
  rw [trust, fetch, bind_assoc]
  refine bind_congr fun reached => ?_
  cases reached with
  | error fault => rw [pure_bind]
  | ok caller =>
    dsimp only [trustAuthority]
    rw [bind_assoc]
    refine bind_congr fun answer => ?_
    rcases answer.1 with fault | content
    · rw [pure_bind]
    · rw [pure_bind]
      dsimp only
      rcases PublicKey.parse content with fault | key <;> rfl

end

variable {W : Type} (scene : Scene W)

private theorem load_looks (options : Authority.ServiceOptions) :
    scene.Looks (Authority.Service.load scene.host options) := by
  have identity : scene.Looks
      (Authority.Identity.load scene.host.toFiles options.signer options.publicPath) := by
    refine .bind (.isDirectory _) fun _ answer _ _ => ?_
    split
    · exact .pure _
    · exact .pure _
    · refine .bind (.read _) fun _ answer _ _ => ?_
      split
      · exact .pure _
      · split <;> exact .pure _
  exact identity.bind fun _ _ _ _ => .pure _

private theorem exchange_looks (tool : Bytes) (service : Authority.Service) (seq : UInt64) :
    scene.Looks (Connection.Options.exchange scene.host tool service ⟨seq, .publicKey⟩) := by
  unfold Connection.Options.exchange
  split
  · exact .pure _
  · refine .bind (.pure _) fun _ answer _ _ => ?_
    dsimp only
    split
    · intro w a w' h
      obtain ⟨never, _⟩ := bind_eq_some.mp h
      exact never.elim
    · exact .pure _

private theorem publicKey_looks {caller : Caller (StateT W Option)}
    (h : scene.Looks (caller.exchange ⟨caller.next, .publicKey⟩)) : scene.Looks caller.publicKey :=
  .bind (.bind h fun _ _ _ _ => .pure _) fun _ _ _ _ => .pure _

private theorem connect_looks (o : Connection.Options) : scene.Looks (o.connect scene.host) := by
  unfold Connection.Options.connect
  split
  · exact .pure _
  · refine .bind (load_looks scene _) fun _ answer _ _ => ?_
    split <;> exact .pure _
  · refine .bind (.dial _) fun _ answer _ _ => ?_
    split <;> exact .pure _

private theorem publicKey_of_connect {o : Connection.Options} {w w' : W} {caller : Caller (StateT W Option)}
    (h : o.connect scene.host w = some (.ok caller, w')) : scene.Looks caller.publicKey := by
  rw [Connection.Options.connect] at h
  rcases hm : o.mode with fault | ⟨signer, publicPath⟩ | address <;> rw [hm] at h <;> dsimp only at h
  · cases (pure_eq_some.mp h).1
  · obtain ⟨answer, v, -, h⟩ := bind_eq_some.mp h
    cases answer with
    | error fault => cases (pure_eq_some.mp h).1
    | ok service =>
      obtain rfl := Except.ok.inj (pure_eq_some.mp h).1
      exact publicKey_looks scene (exchange_looks scene _ _ _)
  · obtain ⟨answer, v, hd, h⟩ := bind_eq_some.mp h
    cases answer with
    | error fault => cases (pure_eq_some.mp h).1
    | ok exchange =>
      obtain rfl := Except.ok.inj (pure_eq_some.mp h).1
      exact publicKey_looks scene fun _ _ _ h => ⟨_, by simp [Act.isIdle], scene.exchange hd h⟩

theorem fetch_looks (s : Settings) (r : Reach) : scene.Looks (fetch scene.host s r) := by
  refine .bind (.bind (connect_looks scene _) fun _ _ _ _ => .pure _) fun w reached w' h => ?_
  split
  case h_1 => exact .pure _
  case h_2 caller =>
    obtain ⟨answer, v, hc, h⟩ := bind_eq_some.mp h
    obtain ⟨hm, -⟩ := pure_eq_some.mp h
    obtain rfl : answer = .ok caller := by
      cases answer with
      | error fault => cases hm
      | ok found => exact congrArg _ (Except.ok.inj hm)
    refine .bind (publicKey_of_connect scene hc) fun _ answer _ _ => ?_
    split <;> exact .pure _

end SshAuthority.Command

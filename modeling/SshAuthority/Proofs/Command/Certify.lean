import SshAuthority.Command.Sign
import SshAuthority.Proofs.Host.Scene
/-!
# Having a key certified

The public key is read, a certificate is asked for, and what comes back is put beside the key. Where one of these
fails nothing is done from there on.
-/
namespace SshAuthority.Command
open Config (Standing)
open Connection (Caller ClientFault)
open Host (Act Returns Scene bind_eq_some pure_eq_some)

variable {W : Type}

abbrev Exchange (W : Type) := Wire.Request → StateT W Option (Except ClientFault Wire.Response)

/-- Whatever is asked, the watched files are left alone. -/
def Discreet (scene : Scene W) (exchange : Exchange W) : Prop :=
  ∀ request v answer v', exchange request v = some (answer, v') → ∃ acts, scene.Leaves acts v v'

/-- The authority was asked for a certificate, and this is what it said. -/
def Answered (scene : Scene W) (exchange : Exchange W) (request : SignRequest) (dealings : List Act)
    (answer : Except ClientFault Bytes) : Prop :=
  ∃ seq response v v', exchange ⟨seq, .sign (.ofRequest request)⟩ v = some (response, v') ∧
    scene.Leaves dealings v v' ∧ answer = (response.bind Connection.resultOf).bind Connection.certificateOf

def StoreFault.ofWrite (path : Bytes) : Host.WriteFault → StoreFault
  | .opening fault => .openToWrite path fault
  | .storing fault => .write path fault

/-- Having the key at a path certified ends in one of five ways, told by what stands there, what stands at the path of
the certificate before and after, what is done, and the result. -/
inductive Certified (scene : Scene W) (exchange : Exchange W) (request : PublicKey → SignRequest) (path : Bytes) :
    Standing → Standing → Standing → List Act → Except Fault Bytes → Prop
  | unreadable {key cert} (fault : Host.Fault) :
    Certified scene exchange request path key cert cert [.read path (some fault)] (.error (.keyUnreadable path fault))
  | invalid {content cert fault} (hk : PublicKey.parse content = .error fault) :
    Certified scene exchange request path (.file content) cert cert [.read path none] (.error (.keyInvalid path fault))
  | refused {content cert key dealings fault} (hk : PublicKey.parse content = .ok key)
    (ha : Answered scene exchange (request key) dealings (.error fault)) :
    Certified scene exchange request path (.file content) cert cert (.read path none :: dealings)
      (.error (.notCertified path fault))
  | unwritten {content cert cert' key dealings certificate} (fault : Host.WriteFault)
    (hk : PublicKey.parse content = .ok key) (ha : Answered scene exchange (request key) dealings (.ok certificate)) :
    Certified scene exchange request path (.file content) cert cert'
      (.read path none :: (dealings ++ [.wrote .privately (certificatePath path) certificate (some fault)]))
      (.error (.notStored (.ofWrite (certificatePath path) fault)))
  | written {content cert key dealings certificate} (hk : PublicKey.parse content = .ok key)
    (ha : Answered scene exchange (request key) dealings (.ok certificate)) :
    Certified scene exchange request path (.file content) cert (.file certificate)
      (.read path none :: (dealings ++ [.wrote .privately (certificatePath path) certificate none]))
      (.ok (certificatePath path))

theorem Certified.eq_certificatePath {scene : Scene W} {exchange : Exchange W} {request : PublicKey → SignRequest}
    {path place : Bytes} {key cert cert' : Standing} {acts : List Act}
    (h : Certified scene exchange request path key cert cert' acts (.ok place)) : place = certificatePath path := by
  cases h
  rfl

def fetchCertificate {m : Type → Type} [Monad m] (host : Host m) (caller : Caller m) (path : Bytes)
    (request : SignRequest) : m (Except Fault Bytes × Caller m) := do
  let (answer, caller) ← caller.sign request
  match answer with
  | .error fault => return (.error (.notCertified path fault), caller)
  | .ok certificate => return (← storeCertificate host path certificate, caller)

theorem certify_eq {m : Type → Type} [Monad m] (host : Host m) (caller : Caller m) (purpose : Purpose)
    (identity : String) (path : Bytes) : certify host caller purpose identity path = (do
      match ← requestFor host purpose identity path with
      | .error fault => return (.error fault, caller)
      | .ok request =>
        if purpose.announces then
          host.print request.summary
          fetchCertificate host caller path request
        else fetchCertificate host caller path request) := rfl

variable {scene : Scene W} {identity : String} {purpose : Purpose} {path : Bytes} {w w' : W}
  {caller caller' : Caller (StateT W Option)} {request : SignRequest} {answer : Except Fault Bytes}

private theorem requestFor_ends {answer : Except Fault SignRequest} (hp : scene.watches path)
    (h : requestFor scene.host purpose identity path w = some (answer, w')) :
    (∃ fault, answer = .error (.keyUnreadable path fault) ∧ scene.Leaves [.read path (some fault)] w w') ∨
      ∃ content, scene.standing path w = .file content ∧ scene.Leaves [.read path none] w w' ∧
        answer = ((PublicKey.parse content).mapError (.keyInvalid path)).map fun key =>
          ⟨identity, purpose.kind, purpose.principals, key⟩ := by
  obtain ⟨found, v, hr, h⟩ := bind_eq_some.mp h
  cases found with
  | error fault =>
    obtain ⟨rfl, rfl⟩ := pure_eq_some.mp h
    exact .inl ⟨fault, rfl, scene.read hr⟩
  | ok content =>
    obtain ⟨rfl, rfl⟩ := pure_eq_some.mp h
    exact .inr ⟨content, scene.read_ok hp hr, scene.read hr, rfl⟩

private theorem storeCertificate_ends {certificate : Bytes} (hp : scene.watches (certificatePath path))
    (h : storeCertificate scene.host path certificate w = some (answer, w')) :
    ∃ fault, scene.Touches (certificatePath path) [.wrote .privately (certificatePath path) certificate fault] w w' ∧
      match fault with
      | some fault => answer = .error (.notStored (.ofWrite (certificatePath path) fault))
      | none => answer = .ok (certificatePath path) ∧ scene.standing (certificatePath path) w' = .file certificate := by
  obtain ⟨_, v, hprint, h⟩ := bind_eq_some.mp h
  have printed := (scene.print hprint).touches (certificatePath path)
  obtain ⟨stored, v', hs, h⟩ := bind_eq_some.mp h
  obtain ⟨rfl, rfl⟩ := pure_eq_some.mp h
  obtain ⟨written, u, hw, hs⟩ := bind_eq_some.mp hs
  have touched := printed.trans (scene.write hp hw)
  cases written with
  | ok _ =>
    obtain ⟨rfl, rfl⟩ := pure_eq_some.mp hs
    obtain ⟨_, _, stands⟩ := scene.write_ok hp hw
    exact ⟨none, touched, rfl, stands⟩
  | error fault =>
    refine ⟨some fault, ?_⟩
    cases fault <;>
    · obtain ⟨rfl, rfl⟩ := pure_eq_some.mp hs
      exact ⟨touched, rfl⟩

private theorem sign_ends {answer : Except ClientFault Bytes} (hd : Discreet scene caller.exchange)
    (h : caller.sign request w = some ((answer, caller'), w')) :
    ∃ dealings, Answered scene caller.exchange request dealings answer ∧ scene.Leaves dealings w w' ∧
      caller'.exchange = caller.exchange := by
  obtain ⟨⟨reply, c⟩, v, hcall, h⟩ := bind_eq_some.mp h
  obtain ⟨he, rfl⟩ := pure_eq_some.mp h
  obtain ⟨response, u, hx, hcall⟩ := bind_eq_some.mp hcall
  obtain ⟨hr, rfl⟩ := pure_eq_some.mp hcall
  obtain ⟨rfl, rfl⟩ := Prod.mk.inj hr
  obtain ⟨rfl, rfl⟩ := Prod.mk.inj he
  obtain ⟨dealings, left⟩ := hd _ _ _ _ hx
  exact ⟨dealings, ⟨_, response, _, _, hx, left, rfl⟩, left, rfl⟩

private theorem fetchCertificate_ends (hd : Discreet scene caller.exchange) (hp : scene.watches (certificatePath path))
    (h : fetchCertificate scene.host caller path request w = some ((answer, caller'), w')) :
    caller'.exchange = caller.exchange ∧ ∃ dealings said, Answered scene caller.exchange request dealings said ∧
      match said with
      | .error fault => answer = .error (.notCertified path fault) ∧ scene.Leaves dealings w w'
      | .ok certificate => ∃ fault, scene.Touches (certificatePath path)
          (dealings ++ [.wrote .privately (certificatePath path) certificate fault]) w w' ∧
        match fault with
        | some fault => answer = .error (.notStored (.ofWrite (certificatePath path) fault))
        | none => answer = .ok (certificatePath path) ∧
          scene.standing (certificatePath path) w' = .file certificate := by
  obtain ⟨⟨said, caller''⟩, v, hsign, h⟩ := bind_eq_some.mp h
  obtain ⟨dealings, answered, left, hx⟩ := sign_ends hd hsign
  cases said with
  | error fault =>
    obtain ⟨he, rfl⟩ := pure_eq_some.mp h
    obtain ⟨rfl, rfl⟩ := Prod.mk.inj he
    exact ⟨hx, dealings, _, answered, rfl, left⟩
  | ok certificate =>
    obtain ⟨stored, v', hs, h⟩ := bind_eq_some.mp h
    obtain ⟨he, rfl⟩ := pure_eq_some.mp h
    obtain ⟨rfl, rfl⟩ := Prod.mk.inj he
    obtain ⟨fault, touched, ends⟩ := storeCertificate_ends hp hs
    exact ⟨hx, dealings, _, answered, fault, (left.touches _).trans touched, ends⟩

theorem certify_certified (hd : Discreet scene caller.exchange) (hp : scene.watches path)
    (hc : scene.watches (certificatePath path))
    (h : certify scene.host caller purpose identity path w = some ((answer, caller'), w')) :
    caller'.exchange = caller.exchange ∧
      ∃ acts, Certified scene caller.exchange (fun key => ⟨identity, purpose.kind, purpose.principals, key⟩) path
          (scene.standing path w) (scene.standing (certificatePath path) w) (scene.standing (certificatePath path) w')
          acts answer ∧
        scene.Touches (certificatePath path) acts w w' := by
  rw [certify_eq] at h
  obtain ⟨request, w₁, hrequest, h⟩ := bind_eq_some.mp h
  rcases requestFor_ends hp hrequest with ⟨fault, rfl, read⟩ | ⟨content, hcontent, read, hparse⟩
  · obtain ⟨he, rfl⟩ := pure_eq_some.mp h
    obtain ⟨rfl, rfl⟩ := Prod.mk.inj he
    rw [read.same _ hc]
    exact ⟨rfl, _, .unreadable fault, read.touches _⟩
  rw [hcontent]
  rcases hk : PublicKey.parse content with fault | key <;> rw [hk] at hparse
  · obtain rfl : request = .error (.keyInvalid path fault) := hparse
    obtain ⟨he, rfl⟩ := pure_eq_some.mp h
    obtain ⟨rfl, rfl⟩ := Prod.mk.inj he
    rw [read.same _ hc]
    exact ⟨rfl, _, .invalid hk, read.touches _⟩
  obtain rfl : request = .ok ⟨identity, purpose.kind, purpose.principals, key⟩ := hparse
  obtain ⟨w₂, shown, hfetch⟩ : ∃ w₂, scene.Leaves [] w₁ w₂ ∧
      fetchCertificate scene.host caller path ⟨identity, purpose.kind, purpose.principals, key⟩ w₂ =
        some ((answer, caller'), w') := by
    dsimp only at h
    split at h
    · obtain ⟨_, w₂, hprint, h⟩ := bind_eq_some.mp h
      exact ⟨w₂, scene.print hprint, h⟩
    · exact ⟨w₁, .refl _, h⟩
  obtain ⟨hx, dealings, said, answered, ends⟩ := fetchCertificate_ends hd hc hfetch
  refine ⟨hx, ?_⟩
  cases said with
  | error fault =>
    obtain ⟨rfl, asked⟩ := ends
    have left := (read.trans shown).trans asked
    rw [left.same _ hc]
    exact ⟨_, .refused hk answered, left.touches _⟩
  | ok certificate =>
    obtain ⟨fault, asked, ends⟩ := ends
    have touched := ((read.trans shown).touches (certificatePath path)).trans asked
    cases fault with
    | some fault =>
      obtain rfl := ends
      exact ⟨_, .unwritten fault hk answered, touched⟩
    | none =>
      obtain ⟨rfl, stands⟩ := ends
      rw [stands]
      exact ⟨_, .written hk answered, touched⟩

theorem certify_returns (hp : scene.Prompt) (hx : ∀ request, Returns (caller.exchange request)) (purpose : Purpose)
    (identity : String) (path : Bytes) : Returns (certify scene.host caller purpose identity path) := by
  have requests : Returns (requestFor scene.host purpose identity path) := by
    refine (hp.read _).bind fun found => ?_
    split <;> exact .pure _
  have signs : ∀ request, Returns (caller.sign request) := fun request =>
    .bind (.bind (hx _) fun _ => .pure _) fun _ => .pure _
  have stores : ∀ certificate, Returns (storeCertificate scene.host path certificate) := by
    intro certificate
    refine (hp.print _).bind fun _ => .bind (.bind (hp.write _ _ _) fun answer => ?_) fun _ => .pure _
    split <;> exact .pure _
  have fetches : ∀ request, Returns (fetchCertificate scene.host caller path request) := by
    intro request
    refine (signs request).bind fun answer => ?_
    dsimp only
    split
    · exact .pure _
    · exact (stores _).bind fun _ => .pure _
  rw [certify_eq]
  refine requests.bind fun request => ?_
  split
  · exact .pure _
  · split
    · exact (hp.print _).bind fun _ => fetches _
    · exact fetches _

end SshAuthority.Command

import SshAuthority.Proofs.Command.Certify
import SshAuthority.Proofs.Command.Names
/-!
# Keys of a host

Each key that the daemon would use is tried once, in order, whatever became of those before it. Only a trial whose
certificate was written, at a path that an edit can name, has it made known to the daemon.
-/
namespace SshAuthority.Command
open Config (Standing)
open Connection (Caller)
open Host (Act Scene bind_eq_some fault? pure_eq_some)

variable {W : Type}

/-- What is asked for a host key whose public half reads as `k`. -/
def hostRequest (name : String) (purpose : Purpose) (key : String) (k : PublicKey) : SignRequest :=
  ⟨certificateIdentity name hostOwner (publicFile key), purpose.kind, purpose.principals, k⟩

/-- The edit that makes the certificate at a path known to the daemon. -/
def hostEdit (path : String) : Config.Edit := ⟨.add, "HostCertificate", path⟩

/-- A trial of a key, told by what stands in the file of its public half, what stands in the file of its certificate
before and after, what is done, and the result: the edit to be made, or what went wrong. -/
inductive Tried (scene : Scene W) (exchange : Exchange W) (name : String) (purpose : Purpose) (key : String)
    (pub cert cert' : Standing) (acts : List Act) : Except Fault Config.Edit → Prop
  | failed {fault}
    (hc : Certified scene exchange (hostRequest name purpose key) (publicFile key) pub cert cert' acts (.error fault)) :
    Tried scene exchange name purpose key pub cert cert' acts (.error fault)
  /-- The path of the certificate is too long for an edit. -/
  | unregistered {value}
    (hc : Certified scene exchange (hostRequest name purpose key) (publicFile key) pub cert cert' acts
      (.ok (certificateFile key)))
    (hv : Utf8.encode value = certificateFile key) (hf : (hostEdit value).fits = false) :
    Tried scene exchange name purpose key pub cert cert' acts (.error (.edit (.pattern "HostCertificate")))
  | certified {value}
    (hc : Certified scene exchange (hostRequest name purpose key) (publicFile key) pub cert cert' acts
      (.ok (certificateFile key)))
    (hv : Utf8.encode value = certificateFile key) (hf : (hostEdit value).fits = true) :
    Tried scene exchange name purpose key pub cert cert' acts (.ok (hostEdit value))

/-! ## One key -/

variable {scene : Scene W} {name key : String} {purpose : Purpose} {w w' : W}

private theorem registerCertificate_eq (key : String) : ∃ value, Utf8.encode value = certificateFile key ∧
    ∀ edits : Config.Modifier, registerCertificate edits (certificateFile key) =
      if (hostEdit value).fits then .ok { edits with pending := edits.pending ++ [hostEdit value] }
      else .error (.edit (.pattern "HostCertificate")) := by
  obtain ⟨-, -, -, -, -, value, hv⟩ := exists_files key
  refine ⟨value, hv.symm, fun edits => ?_⟩
  rw [registerCertificate, hv, Utf8.decode?_encode]
  show (edits.queue (hostEdit value)).mapError Fault.edit = _
  rw [Config.Modifier.queue]
  split <;> rfl

/-- What a trial adds to what was done with the keys before. -/
structure Continues (p p' : Progress (StateT W Option)) (result : Except Fault Config.Edit) : Prop where
  exchange : p'.caller.exchange = p.caller.exchange
  edits : p'.edits = { p.edits with pending := p.edits.pending ++ result.toOption.toList }
  faults : p'.faults = p.faults ++ (fault? result).toList

variable {p p' : Progress (StateT W Option)}

private theorem attempt_concludes {answer : Except Fault Bytes} {caller : Caller (StateT W Option)} {v : W}
    {result : Except Fault Config.Edit}
    (hc : certify scene.host p.caller purpose (certificateIdentity name hostOwner (publicFile key)) (publicFile key) w =
      some ((answer, caller), v))
    (hx : caller.exchange = p.caller.exchange)
    (hr : answer.bind (registerCertificate p.edits) =
      result.map fun e => { p.edits with pending := p.edits.pending ++ [e] })
    (h : attempt scene.host name purpose p key w = some (p', w')) : scene.Leaves [] v w' ∧ Continues p p' result := by
  obtain ⟨_, _, hc', h⟩ := bind_eq_some.mp h
  obtain ⟨rfl, rfl⟩ := Prod.mk.inj (Option.some.inj (hc.symm.trans hc'))
  dsimp only at h
  rw [hr] at h
  cases result with
  | ok edit =>
    obtain ⟨rfl, rfl⟩ := pure_eq_some.mp h
    exact ⟨.refl _, hx, rfl, (List.append_nil _).symm⟩
  | error fault =>
    obtain ⟨_, _, hcomplain, h⟩ := bind_eq_some.mp h
    obtain ⟨rfl, rfl⟩ := pure_eq_some.mp h
    refine ⟨scene.complain hcomplain, hx, ?_, rfl⟩
    show p.edits = { p.edits with pending := p.edits.pending ++ [] }
    rw [List.append_nil]

theorem attempt_tried (hd : Discreet scene p.caller.exchange) (hpub : scene.watches (publicFile key))
    (hcert : scene.watches (certificateFile key)) (h : attempt scene.host name purpose p key w = some (p', w')) :
    ∃ acts result, Tried scene p.caller.exchange name purpose key (scene.standing (publicFile key) w)
        (scene.standing (certificateFile key) w) (scene.standing (certificateFile key) w') acts result ∧
      scene.Touches (certificateFile key) acts w w' ∧ Continues p p' result := by
  obtain ⟨⟨answer, caller⟩, v, hcertify, -⟩ := bind_eq_some.mp h
  obtain ⟨hx, acts, certified, touched⟩ := certify_certified hd hpub hcert hcertify
  have concludes : ∀ result, answer.bind (registerCertificate p.edits) =
      result.map (fun e => { p.edits with pending := p.edits.pending ++ [e] }) →
      Certified scene p.caller.exchange (hostRequest name purpose key) (publicFile key) (scene.standing (publicFile key) w)
          (scene.standing (certificateFile key) w) (scene.standing (certificateFile key) w') acts answer ∧
        scene.Touches (certificateFile key) acts w w' ∧ Continues p p' result := by
    intro result hr
    obtain ⟨left, continues⟩ := attempt_concludes hcertify hx hr h
    have ended := touched.trans (left.touches (certificateFile key))
    rw [List.append_nil] at ended
    rw [left.same _ hcert]
    exact ⟨certified, ended, continues⟩
  cases answer with
  | error fault =>
    obtain ⟨certified, ended, continues⟩ := concludes (.error fault) rfl
    exact ⟨acts, _, .failed certified, ended, continues⟩
  | ok certificate =>
    obtain rfl := certified.eq_certificatePath
    obtain ⟨value, hv, registers⟩ := registerCertificate_eq key
    by_cases hf : (hostEdit value).fits = true
    · obtain ⟨certified, ended, continues⟩ :=
        concludes (.ok (hostEdit value)) ((registers p.edits).trans (if_pos hf))
      exact ⟨acts, _, .certified certified hv hf, ended, continues⟩
    · obtain ⟨certified, ended, continues⟩ :=
        concludes (.error (.edit (.pattern "HostCertificate"))) ((registers p.edits).trans (if_neg hf))
      exact ⟨acts, _, .unregistered certified hv (Bool.eq_false_iff.mpr hf), ended, continues⟩

/-! ## All keys -/

/-- A trial of a key: what was done, and the edit it came to or what went wrong. -/
structure Trial where
  key : String
  acts : List Act
  result : Except Fault Config.Edit

/-- Paths of keys that are different files, of which no certificate goes to the file of a public key. -/
structure Apart (scene : Scene W) (keys : List String) : Prop where
  watched : ∀ key ∈ keys, scene.watches (publicFile key) ∧ scene.watches (certificateFile key)
  nodup : keys.Nodup
  public_ne : ∀ key ∈ keys, ∀ other ∈ keys, key ≠ other → certificateFile key ≠ publicFile other

theorem Apart.certificateFile_ne {keys : List String} (ha : Apart scene keys) {other : String} (hk : key ∈ keys)
    (ho : other ∈ keys) (hne : key ≠ other) : certificateFile key ≠ certificateFile other := by
  intro h
  have hc := (components_of_certificateFile (congrArg Path.components h)).2
  exact hne (publicFile_injective (scene.apart (ha.watched key hk).1 (ha.watched other ho).1 hc))

theorem Apart.tail {keys : List String} (ha : Apart scene (key :: keys)) : Apart scene keys where
  watched := fun k hk => ha.watched k (List.mem_cons_of_mem _ hk)
  nodup := (List.nodup_cons.mp ha.nodup).2
  public_ne := fun k hk o ho => ha.public_ne k (List.mem_cons_of_mem _ hk) o (List.mem_cons_of_mem _ ho)

/-- The trials of all keys, in their order. -/
structure Gone (scene : Scene W) (exchange : Exchange W) (name : String) (purpose : Purpose) (keys : List String)
    (trials : List Trial) (w w' : W) : Prop where
  order : trials.map Trial.key = keys
  tried : ∀ t ∈ trials, Tried scene exchange name purpose t.key (scene.standing (publicFile t.key) w)
    (scene.standing (certificateFile t.key) w) (scene.standing (certificateFile t.key) w') t.acts t.result
  same : ∀ p, scene.watches p → (∀ key ∈ keys, p ≠ certificateFile key) → scene.standing p w' = scene.standing p w
  record : scene.record w' = scene.record w ++ trials.flatMap Trial.acts

theorem attemptAll_gone {keys : List String} (ha : Apart scene keys) (hd : Discreet scene p.caller.exchange)
    (h : attemptAll scene.host name purpose p keys w = some (p', w')) :
    ∃ trials, Gone scene p.caller.exchange name purpose keys trials w w' ∧
      p'.edits = { p.edits with pending := p.edits.pending ++ trials.filterMap (·.result.toOption) } ∧
      p'.faults = p.faults ++ trials.filterMap (fault? ·.result) := by
  induction keys generalizing p w with
  | nil =>
    obtain ⟨rfl, rfl⟩ := pure_eq_some.mp h
    exact ⟨[], ⟨rfl, by simp, fun _ _ _ => rfl, by simp⟩, by simp, by simp⟩
  | cons key keys ih =>
    obtain ⟨q, v, hattempt, h⟩ := bind_eq_some.mp h
    obtain ⟨hpub, hcert⟩ := ha.watched key List.mem_cons_self
    obtain ⟨acts, result, tried, touched, continues⟩ := attempt_tried hd hpub hcert hattempt
    obtain ⟨trials, gone, edits, faults⟩ := ih ha.tail (continues.exchange ▸ hd) h
    rw [continues.exchange] at gone
    -- A trial touches the certificate of its own key only, so the later ones find what stood there at first.
    have fresh : ∀ other ∈ keys, key ≠ other := by
      rintro other ho rfl
      exact (List.nodup_cons.mp ha.nodup).1 ho
    have apart : ∀ other ∈ keys, certificateFile key ≠ certificateFile other := fun other ho =>
      ha.certificateFile_ne List.mem_cons_self (List.mem_cons_of_mem _ ho) (fresh other ho)
    refine ⟨⟨key, acts, result⟩ :: trials, ⟨?_, ?_, ?_, ?_⟩, ?_, ?_⟩
    · rw [List.map_cons, gone.order]
    · intro t ht
      rcases List.mem_cons.mp ht with rfl | ht
      · rw [gone.same _ hcert apart]
        exact tried
      · have hkey : t.key ∈ keys := by rw [← gone.order]; exact List.mem_map_of_mem ht
        obtain ⟨hpub', hcert'⟩ := ha.tail.watched _ hkey
        have hne := ha.public_ne key List.mem_cons_self _ (List.mem_cons_of_mem _ hkey) (fresh _ hkey)
        rw [← touched.same _ hpub' hne.symm, ← touched.same _ hcert' (apart _ hkey).symm]
        exact gone.tried t ht
    · intro q hq hne
      rw [gone.same q hq fun other ho => hne other (List.mem_cons_of_mem _ ho)]
      exact touched.same q hq (hne key List.mem_cons_self)
    · rw [gone.record, touched.record, List.append_assoc]
      rfl
    · rw [edits, continues.edits]
      cases result <;> simp [Except.toOption]
    · rw [faults, continues.faults]
      cases result <;> simp [fault?]

end SshAuthority.Command

import SshAuthority.Proofs.Command.HostKeys
import SshAuthority.Proofs.Config.Checked
import SshAuthority.Proofs.Host.Watched
/-!
# Certifying the keys of a host

Every key is tried, and what comes of each is accounted for: the certificates that were written are made known to
the daemon together, and whatever went wrong is reported in the order in which it did.
-/
namespace SshAuthority.Command
open Config (Committed Standing)
open Connection (Caller ClientFault)
open Host (Act Disk Returns Scene Surroundings Watched bind_eq_some fault? pure_eq_some)

variable {W : Type}

def lookupAct (daemon config : Bytes) : Act := .ran daemon [Utf8.encode "-T", Utf8.encode "-f", config]

/-- What becomes of the configuration: without edits it is not touched, and with edits they are committed once. -/
inductive Registered (daemon config : Bytes) :
    List Config.Edit → Standing → Standing → List Act → Option Fault → Prop
  | nothing {st} : Registered daemon config [] st st [] none
  | committed {edits st st' acts outcome} (hn : edits ≠ [])
    (hc : Committed daemon config edits st st' acts outcome) :
    Registered daemon config edits st st' acts (fault? (outcome.mapError Fault.notRegistered))

/-- What a run with these keys comes to. -/
structure Accounted (scene : Scene W) (exchange : Exchange W) (daemon config : Bytes) (name : String)
    (purpose : Purpose) (keys : List String) (trials : List Trial) (acts : List Act) (fault : Option Fault)
    (w w' : W) (faults : List Fault) : Prop where
  order : trials.map Trial.key = keys
  tried : ∀ t ∈ trials, Tried scene exchange name purpose t.key (scene.standing (publicFile t.key) w)
    (scene.standing (certificateFile t.key) w) (scene.standing (certificateFile t.key) w') t.acts t.result
  registered : Registered daemon config (trials.filterMap (·.result.toOption)) (scene.standing config w)
    (scene.standing config w') acts fault
  record : scene.record w' = scene.record w ++ lookupAct daemon config :: (trials.flatMap Trial.acts ++ acts)
  failures : faults = trials.filterMap (fault? ·.result) ++ fault.toList
  quiet : Fault.reportAll faults = none ↔ (∀ t ∈ trials, t.result.isOk = true) ∧ fault = none
  single : ∀ f, faults = [f] → Fault.reportAll faults = some f.report
  several : 2 ≤ faults.length → Fault.reportAll faults = some (toString faults.length ++ " errors occurred:" ++
    String.join (faults.map fun f => "\n  * " ++ f.report))

variable {scene : Scene W} {daemon config : Bytes} {w w' : W}

private theorem lookup_leaves {key : String} {answer : Except Config.ConfigFault (List String)}
    (h : Config.lookup scene.host daemon config key w = some (answer, w')) :
    scene.Leaves [lookupAct daemon config] w w' := by
  obtain ⟨ended, v, hr, h⟩ := bind_eq_some.mp h
  have left := scene.run hr
  rcases hc : Host.checked daemon ended with fault | e <;> rw [hc] at h <;>
  · obtain ⟨-, rfl⟩ := pure_eq_some.mp h
    exact left

private theorem register_registered {p : Progress (StateT W Option)} {faults : List Fault}
    (hp : scene.watches p.edits.path) (h : register scene.host daemon p w = some (faults, w')) :
    ∃ acts fault, Registered daemon p.edits.path p.edits.pending (scene.standing p.edits.path w)
        (scene.standing p.edits.path w') acts fault ∧
      scene.Touches p.edits.path acts w w' ∧ faults = p.faults ++ fault.toList := by
  unfold register at h
  split at h
  case isTrue hn =>
    obtain ⟨rfl, rfl⟩ := pure_eq_some.mp h
    rw [List.isEmpty_iff.mp hn]
    exact ⟨[], none, .nothing, (Host.View.Leaves.refl w).touches _, (List.append_nil _).symm⟩
  case isFalse hn =>
    obtain ⟨⟨outcome, q⟩, v, hcommit, h⟩ := bind_eq_some.mp h
    obtain ⟨acts, committed, touched⟩ := Config.commit_committed hp hcommit
    have hne : p.edits.pending ≠ [] := by simpa using hn
    cases outcome with
    | ok outcome =>
      obtain ⟨rfl, rfl⟩ := pure_eq_some.mp h
      exact ⟨acts, _, .committed hne committed, touched, (List.append_nil _).symm⟩
    | error fault =>
      obtain ⟨rfl, rfl⟩ := pure_eq_some.mp h
      exact ⟨acts, _, .committed hne committed, touched, rfl⟩

/-! ## Coming to an end -/

private theorem attempt_returns (hp : scene.Prompt) (name : String) (purpose : Purpose)
    {p : Progress (StateT W Option)} (hx : ∀ request, Returns (p.caller.exchange request)) (key : String) :
    Returns (attempt scene.host name purpose p key) := by
  refine (certify_returns hp hx _ _ _).bind fun answer => ?_
  dsimp only
  split
  · exact .pure _
  · exact (hp.complain _).bind fun _ => .pure _

private theorem attemptAll_returns (hp : scene.Prompt) {name : String} {purpose : Purpose} {keys : List String}
    (ha : Apart scene keys) {p : Progress (StateT W Option)} (hd : Discreet scene p.caller.exchange)
    (hx : ∀ request, Returns (p.caller.exchange request)) : Returns (attemptAll scene.host name purpose p keys) := by
  induction keys generalizing p with
  | nil => exact .pure _
  | cons key keys ih =>
    refine (attempt_returns hp name purpose hx key).bind_of fun w q w' h => ?_
    obtain ⟨hpub, hcert⟩ := ha.watched key List.mem_cons_self
    obtain ⟨_, _, _, _, continues⟩ := attempt_tried hd hpub hcert h
    exact ih ha.tail (continues.exchange ▸ hd) (continues.exchange ▸ hx)

private theorem register_returns (hp : scene.Prompt) (daemon : Bytes) (p : Progress (StateT W Option)) :
    Returns (register scene.host daemon p) := by
  unfold register
  split
  · exact .pure _
  · refine (Config.commit_returns hp _ _).bind fun answer => ?_
    split <;> exact .pure _

/-! ## All that comes of a run -/

private theorem reportAll_eq_none {faults : List Fault} : Fault.reportAll faults = none ↔ faults = [] := by
  rcases faults with _ | ⟨f, _ | ⟨g, rest⟩⟩ <;> simp [Fault.reportAll]

private theorem reportAll_several {faults : List Fault} (h : 2 ≤ faults.length) :
    Fault.reportAll faults = some (toString faults.length ++ " errors occurred:" ++
      String.join (faults.map fun f => "\n  * " ++ f.report)) := by
  rcases faults with _ | ⟨f, _ | ⟨g, rest⟩⟩
  · cases h
  · simp at h
  · rfl

private theorem fault?_eq_none {α : Type} {result : Except Fault α} : fault? result = none ↔ result.isOk = true := by
  cases result <;> simp [fault?, Except.isOk, Except.toBool]

/-- Every key is tried once, in order, whatever became of those before it, and what comes of each is accounted for.
The configuration is edited once for all certificates that were written, if there are any. The run is quiet exactly
when nothing went wrong, and reports all that did. -/
theorem signs_every_host_key (scene : Scene W) (s : Settings) (caller : Caller (StateT W Option)) (name : String)
    (purpose : Purpose) (config : Bytes) (hd : Discreet scene caller.exchange) {keys : List String} {w w₁ : W}
    (hl : Config.lookup scene.host (Utf8.encode s.daemonProgram) config "HostKey" w = some (.ok keys, w₁))
    (ha : Apart scene keys) (hc : scene.watches config) (hn : ∀ key ∈ keys, certificateFile key ≠ config) :
    (∀ faults w', signHostKeys scene.host s caller name purpose config w = some (faults, w') →
      ∃ trials acts fault, Accounted scene caller.exchange (Utf8.encode s.daemonProgram) config name purpose keys
        trials acts fault w w' faults) ∧
    (scene.Prompt → (∀ request, Returns (caller.exchange request)) →
      ∃ r, signHostKeys scene.host s caller name purpose config w = some r) := by
  have looked := lookup_leaves hl
  constructor
  · intro faults w' h
    obtain ⟨answer, v, hl', h⟩ := bind_eq_some.mp h
    obtain ⟨rfl, rfl⟩ := Prod.mk.inj (Option.some.inj (hl.symm.trans hl'))
    obtain ⟨p, v, hall, h⟩ := bind_eq_some.mp h
    obtain ⟨trials, gone, edits, failed⟩ := attemptAll_gone ha hd hall
    have path : p.edits.path = config := by rw [edits]; rfl
    have pending : p.edits.pending = trials.filterMap (·.result.toOption) := by rw [edits]; rfl
    obtain ⟨acts, fault, registered, touched, failures⟩ := register_registered (by rwa [path]) h
    rw [path] at registered touched
    rw [pending, gone.same config hc (fun key hk => (hn key hk).symm), looked.same config hc] at registered
    rw [failed, List.nil_append] at failures
    refine ⟨trials, acts, fault, gone.order, ?_, registered, ?_, failures, ?_, ?_, reportAll_several⟩
    · intro t ht
      have hkey : t.key ∈ keys := by rw [← gone.order]; exact List.mem_map_of_mem ht
      obtain ⟨hpub, hcert⟩ := ha.watched _ hkey
      rw [← looked.same _ hpub, ← looked.same _ hcert, touched.same _ hcert (hn _ hkey)]
      exact gone.tried t ht
    · rw [touched.record, gone.record, looked.record]
      simp
    · rw [reportAll_eq_none, failures, List.append_eq_nil_iff, List.filterMap_eq_nil_iff, Option.toList_eq_nil_iff]
      simp only [fault?_eq_none]
    · rintro f rfl
      rfl
  · intro prompt returns
    have all : Returns (attemptAll scene.host name purpose ⟨caller, .new config, []⟩ keys) :=
      attemptAll_returns prompt ha hd returns
    obtain ⟨⟨faults, w'⟩, h⟩ := all.bind (register_returns prompt (Utf8.encode s.daemonProgram)) w₁
    exact ⟨_, bind_eq_some.mpr ⟨_, _, hl, h⟩⟩

/-- A daemon that would use three keys. -/
private def hostAround : Surroundings where
  programs _ _ _ := .ok ⟨.success, Utf8.encode "port 22\nhostkey /a\nhostkey /b\nhostkey /c\n", []⟩
  network _ := .error .networkUnreachable

private def hostScene : Scene Watched := Watched.scene hostAround

/-- The public half of the second key is missing, and that of the third is none. -/
private def hostDisk : Disk :=
  ((Disk.addFile ⟨[], []⟩ [Utf8.encode "sshd_config"] (Utf8.encode "Port 22") 0o644).addFile [Utf8.encode "a.pub"]
    (Utf8.encode "ssh-ed25519 AAAAC3NzaC1lZDI1NTE5AAAAIHwXYROIrAfv9RS4LyCPdsPGy6EqM+vncrrZXzVJbNuV") 0o644).addFile
    [Utf8.encode "c.pub"] (Utf8.encode "no key") 0o644

private def numbered (request : Wire.Request) : Except ClientFault Wire.Response :=
  .ok ⟨request.seq, .ok (.signed [request.seq.toUInt8])⟩

private def hostCaller : Caller (StateT Watched Option) :=
  .new fun request => Watched.notes (fun _ => .asked request) fun _ => numbered request

private def hostConfig : Bytes := Utf8.encode "/sshd_config"

private def hostPurpose : Purpose := ⟨.host, ["web"], true⟩

theorem signs_every_host_key_on_disk : ∃ faults w' trials acts fault,
    signHostKeys hostScene.host .usual hostCaller "web" hostPurpose hostConfig (hostDisk, []) = some (faults, w') ∧
      Accounted hostScene hostCaller.exchange (Utf8.encode "sshd") hostConfig "web" hostPurpose ["/a", "/b", "/c"]
        trials acts fault (hostDisk, []) w' faults ∧
      faults.length = 2 ∧ hostScene.standing (Utf8.encode "/a-cert.pub") w' = .file [1] ∧
      hostScene.standing hostConfig w' = .file (Utf8.encode "Port 22\nHostCertificate /a-cert.pub\n") := by
  have looks : Watched.reaches (Config.lookup hostScene.host (Utf8.encode "sshd") hostConfig "HostKey" (hostDisk, []))
      ["/a", "/b", "/c"] (fun _ => true) = true := by decide +kernel
  obtain ⟨_, looked, -⟩ := Watched.exists_of_reaches looks
  have discreet : Discreet hostScene hostCaller.exchange := fun request _ _ _ h =>
    ⟨_, (Watched.notes_leaves (fun _ => .asked request) (fun _ => numbered request) h).1⟩
  have plain : ∀ key ∈ ["/a", "/b", "/c"],
      Host.isPlain (publicFile key) = true ∧ Host.isPlain (certificateFile key) = true := by decide +kernel
  have apart : Apart hostScene ["/a", "/b", "/c"] := ⟨plain, by decide, by decide +kernel⟩
  have config : hostScene.watches hostConfig := by
    have plain : Host.isPlain hostConfig = true := by decide +kernel
    exact plain
  have run : (signHostKeys hostScene.host .usual hostCaller "web" hostPurpose hostConfig (hostDisk, [])).any
      (fun r => r.1.length = 2 && (hostScene.standing (Utf8.encode "/a-cert.pub") r.2 = .file [1] &&
        hostScene.standing hostConfig r.2 = .file (Utf8.encode "Port 22\nHostCertificate /a-cert.pub\n"))) = true := by
    decide +kernel
  obtain ⟨account, returns⟩ := signs_every_host_key hostScene .usual hostCaller "web" hostPurpose hostConfig discreet
    looked apart config (by decide +kernel)
  obtain ⟨⟨faults, w'⟩, h⟩ := returns (Watched.scene_prompt _) fun _ _ => ⟨_, rfl⟩
  obtain ⟨trials, acts, fault, accounted⟩ := account faults w' h
  rw [h] at run
  simp only [Option.any_some, Bool.and_eq_true, decide_eq_true_eq] at run
  exact ⟨faults, w', trials, acts, fault, h, accounted, run⟩

end SshAuthority.Command

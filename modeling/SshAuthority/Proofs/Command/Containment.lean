import SshAuthority.Proofs.Command.Trust
/-!
# Failures of trusting an authority

A run that fails leaves no more behind than the beginning of one that goes through, so that it can be tried again:
however often it failed before, a run that goes through leaves the same files.
-/
namespace SshAuthority.Command
open Config (Committed Standing checkAct)
open Host (Act Disk Scene Watched)

/-- Whether a fault leaves a file in a state that only its owner can mend. -/
def Fault.needsManualFix : Fault → Bool
  | .trustNotSet fault | .notRegistered fault => fault.needsManualFix
  | _ => false

/-- An act of adding to the end of a file. -/
def addsTo (path : Bytes) : Act → Bool
  | .read p _ => p = path
  | .wrote mode p _ _ => mode = .append ∧ p = path
  | .ran _ _ | .asked _ => false

/-- An act of replacing a file and having it checked. -/
def replaces (daemon path : Bytes) : Act → Bool
  | .read p _ => p = path
  | .wrote mode p _ _ => mode = .replace ∧ p = path
  | .ran program arguments => .ran program arguments = checkAct daemon path
  | .asked _ => false

variable {path entry daemon : Bytes} {edits : List Config.Edit} {st st' : Standing} {acts : List Act}

theorem Added.addsTo {result : Except StoreFault Bool} (h : Added path entry st st' acts result) :
    ∀ act ∈ acts, addsTo path act = true := by
  cases h <;> simp [Command.addsTo]

theorem committed_replaces {result : Except Config.ConfigFault Config.Outcome}
    (h : Committed daemon path edits st st' acts result) : ∀ act ∈ acts, replaces daemon path act = true := by
  cases h <;> simp [replaces, checkAct]

/-- What a run with a key may do, whatever fails in it. -/
structure Contained (s : Settings) (key : PublicKey) (f f' : TrustFiles) (acts : List Act)
    (result : Except Fault Unit) : Prop where
  known : f.known.Extends f'.known
  users : f.users.Extends f'.users
  /-- The steps are taken in order, each only when those before it succeeded. -/
  order : ∃ first second third, acts = first ++ (second ++ third) ∧
    (∀ act ∈ first, addsTo (Utf8.encode s.knownHosts) act = true) ∧
    (∀ act ∈ second, addsTo (Utf8.encode s.trustedAuthorities) act = true) ∧
    (∀ act ∈ third, replaces (Utf8.encode s.daemonProgram) (Utf8.encode s.daemonConfig) act = true) ∧
    (second ≠ [] → f'.known.Holds (knownLine key)) ∧
    (third ≠ [] → f'.known.Holds (knownLine key) ∧ f'.users.Holds (lineText key.bytes))
  config : f'.config = f.config ∨ f'.known.Holds (knownLine key) ∧ f'.users.Holds (lineText key.bytes)
  restored : ∀ fault, result = .error fault → fault.needsManualFix = false → f'.config = f.config

variable {s : Settings} {key : PublicKey} {f f' : TrustFiles} {result : Except Fault Unit} {fault : Fault}

namespace Course

theorem contained (h : Course s key f f' acts result) : Contained s key f f' acts result := by
  cases h with
  | atKnown hk =>
    refine ⟨hk.extended, .refl _, ⟨_, [], [], by simp, hk.addsTo, ?_⟩, .inl rfl, fun _ _ _ => rfl⟩
    simp
  | atUsers hk hu =>
    refine ⟨hk.extended, hu.extended, ⟨_, _, [], by simp, hk.addsTo, hu.addsTo, ?_⟩, .inl rfl, fun _ _ _ => rfl⟩
    simpa using fun _ => holds_knownLine hk
  | atConfig hk hu hc =>
    have known := holds_knownLine hk
    have users := hu.holds (lineText_bytes_ne_nil key)
    refine ⟨hk.extended, hu.extended, ⟨_, _, _, rfl, hk.addsTo, hu.addsTo, committed_replaces hc, ?_⟩,
      .inr ⟨known, users⟩, ?_⟩
    · exact ⟨fun _ => known, fun _ => ⟨known, users⟩⟩
    · rintro _ ⟨⟩ mendable
      exact hc.error mendable
  | through hk hu hc =>
    have known := holds_knownLine hk
    have users := hu.holds (lineText_bytes_ne_nil key)
    refine ⟨hk.extended, hu.extended, ⟨_, _, _, rfl, hk.addsTo, hu.addsTo, committed_replaces hc, ?_⟩,
      .inr ⟨known, users⟩, fun _ h => by cases h⟩
    exact ⟨fun _ => known, fun _ => ⟨known, users⟩⟩

/-- What a run that failed left undone a later one makes up for. -/
theorem settle_eq (h : Course s key f f' acts (.error fault)) (hf : fault.needsManualFix = false) :
    f'.settle s key = f.settle s key := by
  cases h with
  | atKnown hk => simp only [TrustFiles.settle, hk.withLine_eq]
  | atUsers hk hu => simp only [TrustFiles.settle, hk.withLine_eq, hu.withLine_eq]
  | atConfig hk hu hc => simp only [TrustFiles.settle, hk.withLine_eq, hu.withLine_eq, hc.error hf]

end Course

variable {W : Type}

def Fetches (scene : Scene W) (s : Settings) (r : Reach) (w : W) (key : PublicKey) : Prop :=
  ∃ v, fetch scene.host s r w = some (.ok key, v)

/-- Runs that failed one after the other: none was told another key, and none left the configuration to be mended
by its owner. In between the three files stay as they are. -/
inductive Failing (scene : Scene W) (s : Settings) (key : PublicKey) (w : W) : W → Prop
  | start : Failing scene s key w w
  | meanwhile {v u} (h : Failing scene s key w v) (same : trustFiles scene s u = trustFiles scene s v) :
    Failing scene s key w u
  | failed {v u r fault} (h : Failing scene s key w v) (run : trust scene.host s r v = some (.error fault, u))
    (told : ∀ other, Fetches scene s r v other → other = key) (mendable : fault.needsManualFix = false) :
    Failing scene s key w u

variable {scene : Scene W} {w w' : W}

theorem Failing.settle_eq (hs : scene.Separate (trustPaths s)) (h : Failing scene s key w w') :
    (trustFiles scene s w').settle s key = (trustFiles scene s w).settle s key := by
  induction h with
  | start => rfl
  | meanwhile _ same ih => rw [same, ih]
  | failed _ run told mendable ih =>
    obtain ⟨answer, v, hfetch, left, ends⟩ := trust_ends hs run
    cases answer with
    | error fault =>
      obtain ⟨-, rfl⟩ := ends
      rw [left.files, ih]
    | ok other =>
      obtain rfl := told other ⟨v, hfetch⟩
      obtain ⟨_, course, -⟩ := ends
      rw [course.settle_eq mendable, ih]

/-- A run that is told a key and goes through leaves settled files. -/
theorem settle_of_trust (hs : scene.Separate (trustPaths s)) {r : Reach} (hf : Fetches scene s r w key)
    (h : trust scene.host s r w = some (.ok (), w')) : trustFiles scene s w' = (trustFiles scene s w).settle s key := by
  obtain ⟨answer, v, hfetch, -, ends⟩ := trust_ends hs h
  obtain ⟨v', hf⟩ := hf
  obtain ⟨rfl, rfl⟩ := Prod.mk.inj (Option.some.inj (hf.symm.trans hfetch))
  obtain ⟨_, course, -⟩ := ends
  exact course.eq_settle

/-- Whatever fails in a run, a run without a key changes nothing, and one with a key is contained. However many
runs failed before, one that goes through leaves the files that it would have left without them. -/
theorem failures_are_contained (scene : Scene W) (s : Settings) (hs : scene.Separate (trustPaths s)) :
    (∀ r w result w', trust scene.host s r w = some (result, w') →
      ∃ answer v, fetch scene.host s r w = some (answer, v) ∧ LeftAlone scene s w v ∧
        match answer with
        | .error fault => result = .error fault ∧ w' = v
        | .ok key => ∃ acts, scene.record w' = scene.record v ++ acts ∧
            Contained s key (trustFiles scene s w) (trustFiles scene s w') acts result) ∧
    ∀ key w v r v' r' u u', Failing scene s key w v →
      Fetches scene s r v key → trust scene.host s r v = some (.ok (), v') →
      trustFiles scene s u = trustFiles scene s w →
      Fetches scene s r' u key → trust scene.host s r' u = some (.ok (), u') →
      trustFiles scene s v' = trustFiles scene s u' := by
  constructor
  · intro r w result w' h
    obtain ⟨answer, v, hfetch, left, ends⟩ := trust_ends hs h
    refine ⟨answer, v, hfetch, left, ?_⟩
    cases answer with
    | error fault => exact ends
    | ok key =>
      obtain ⟨acts, course, record⟩ := ends
      exact ⟨acts, record, course.contained⟩
  · intro key w v r v' r' u u' failing fetches hv same fetches' hu
    rw [settle_of_trust hs fetches hv, settle_of_trust hs fetches' hu, failing.settle_eq hs, same]

private def lockedSettings : Settings where
  daemonConfig := "/sshd_config"
  trustedAuthorities := "/locked/cas"
  knownHosts := "/known"
  keygenProgram := "ssh-keygen"
  daemonProgram := "sshd"

/-- A disk without the directory that the authorities for users are to be kept in. -/
private def lockedDisk : Disk := Disk.addFile ⟨[], []⟩ [Utf8.encode "sshd_config"] (Utf8.encode "Port 22") 0o644

private def unlocked (w : Watched) : Watched := (w.1.set [Utf8.encode "locked"] .directory, w.2)

private abbrev lockedScene : Scene Watched := Watched.scene sampleAround

/-- A run that adds to the known hosts and fails is followed by one that goes through. -/
theorem failures_are_contained_on_disk : ∃ fault w v u,
    trust lockedScene.host lockedSettings sampleReach (lockedDisk, []) = some (.error fault, w) ∧
      trustFiles lockedScene lockedSettings w ≠ trustFiles lockedScene lockedSettings (lockedDisk, []) ∧
      trust lockedScene.host lockedSettings sampleReach (unlocked w) = some (.ok (), v) ∧
      trust lockedScene.host lockedSettings sampleReach (unlocked (lockedDisk, [])) = some (.ok (), u) ∧
      trustFiles lockedScene lockedSettings v = trustFiles lockedScene lockedSettings u := by
  have separate : lockedScene.Separate (trustPaths lockedSettings) := by
    refine ⟨?_, by decide +kernel⟩
    have plain : ∀ p ∈ trustPaths lockedSettings, Host.isPlain p = true := by decide +kernel
    exact plain
  have runs : Watched.fails (trust lockedScene.host lockedSettings sampleReach (lockedDisk, [])) (fun fault w =>
      decide (trustFiles lockedScene lockedSettings w ≠ trustFiles lockedScene lockedSettings (lockedDisk, [])) &&
        (!fault.needsManualFix &&
          (decide (trustFiles lockedScene lockedSettings (unlocked w) = trustFiles lockedScene lockedSettings w) &&
            Watched.reaches (trust lockedScene.host lockedSettings sampleReach (unlocked w)) () fun _ => true))) = true := by
    decide +kernel
  have single : Watched.reaches
      (trust lockedScene.host lockedSettings sampleReach (unlocked (lockedDisk, []))) () (fun _ => true) = true := by
    decide +kernel
  obtain ⟨fault, w, hw, hp⟩ := Watched.exists_of_fails runs
  simp only [Bool.and_eq_true, decide_eq_true_eq, Bool.not_eq_true'] at hp
  obtain ⟨changed, mendable, same, through⟩ := hp
  obtain ⟨v, hv, -⟩ := Watched.exists_of_reaches through
  obtain ⟨u, hu, -⟩ := Watched.exists_of_reaches single
  have told : ∀ w, Fetches lockedScene lockedSettings sampleReach w Authority.sampleKey := fun w =>
    ⟨_, fetch_sample lockedSettings w⟩
  have only : ∀ other, Fetches lockedScene lockedSettings sampleReach (lockedDisk, []) other →
      other = Authority.sampleKey := by
    rintro other ⟨_, ho⟩
    have he := ho.symm.trans (fetch_sample lockedSettings (lockedDisk, []))
    exact Except.ok.inj (Prod.mk.inj (Option.some.inj he)).1
  have failing : Failing lockedScene lockedSettings Authority.sampleKey (lockedDisk, []) (unlocked w) :=
    .meanwhile (.failed .start hw only mendable) same
  have unlocking : trustFiles lockedScene lockedSettings (unlocked (lockedDisk, [])) =
      trustFiles lockedScene lockedSettings (lockedDisk, []) := by decide +kernel
  have converges := (failures_are_contained lockedScene lockedSettings separate).2
  exact ⟨fault, w, v, u, hw, changed, hv, hu,
    converges _ _ _ _ _ _ _ _ failing (told _) hv unlocking (told _) hu⟩

end SshAuthority.Command

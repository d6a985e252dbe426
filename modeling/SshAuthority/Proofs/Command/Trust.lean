import SshAuthority.Proofs.Authority.Step
import SshAuthority.Proofs.Command.Fetching
import SshAuthority.Proofs.Command.Store
import SshAuthority.Proofs.Config.Batch
import SshAuthority.Proofs.Config.Checked
import SshAuthority.Proofs.Host.Watched
/-!
# Steps of trusting an authority

Once the key was fetched, three files are gone through one after the other. Each is left alone unless the steps
before it succeeded, so a run takes one of four courses, told by what stands in the three files.
-/
namespace SshAuthority.Command
open Config (Committed Standing)
open Host (Act Returns Scene Surroundings Watched bind_eq_some pure_eq_some)

/-- What stands at the three paths that trusting an authority is about. -/
structure TrustFiles where
  known : Standing
  users : Standing
  config : Standing
  deriving DecidableEq

/-- The files that trusting an authority is about: the known hosts, the authorities trusted for users, and the
configuration of the daemon. -/
def trustPaths (s : Settings) : List Bytes :=
  [Utf8.encode s.knownHosts, Utf8.encode s.trustedAuthorities, Utf8.encode s.daemonConfig]

def trustFiles {W : Type} (scene : Scene W) (s : Settings) (w : W) : TrustFiles where
  known := scene.standing (Utf8.encode s.knownHosts) w
  users := scene.standing (Utf8.encode s.trustedAuthorities) w
  config := scene.standing (Utf8.encode s.daemonConfig) w

def knownLine (key : PublicKey) : Bytes := Utf8.encode key.knownHostsEntry

/-! ## The key in the files -/

private theorem knownHostsEntry_eq (key : PublicKey) :
    key.knownHostsEntry = "@cert-authority * " ++ String.ofList (Text.trimEnd key.text.toList) := rfl

theorem knownLine_ne_nil (key : PublicKey) : knownLine key ≠ [] := by
  rw [knownLine]
  apply Utf8.encode_ne_nil
  rw [knownHostsEntry_eq]
  intro h
  have hl := congrArg String.length h
  simp at hl

theorem lineText_knownLine (key : PublicKey) : lineText (knownLine key) = knownLine key := by
  apply lineText_eq_self
  rw [knownLine]
  apply Utf8.last_encode_ne_newline
  simp only [knownHostsEntry_eq, String.toList_append, String.toList_ofList, Text.trimEnd, List.getLast?_append,
    List.getLast?_reverse]
  rcases hd : (key.text.toList.reverse.dropWhile Text.isBlank).head? with _ | c
  · decide +kernel
  · have kept := List.head?_dropWhile_not Text.isBlank key.text.toList.reverse
    rw [hd] at kept
    rw [Option.some_or]
    intro h
    obtain rfl := Option.some.inj h
    cases kept

theorem lineText_bytes_ne_nil (key : PublicKey) : lineText key.bytes ≠ [] := by
  have written : ∀ bs line, Key.lineOf Key.Line.ofText bs = .ok line → bs ≠ [] ∧ bs ≠ [newline] := by
    intro bs line h
    constructor
    · rintro rfl
      have blank : (Key.lineOf Key.Line.ofText []).isOk = false := by decide +kernel
      rw [h] at blank
      cases blank
    · rintro rfl
      have blank : (Key.lineOf Key.Line.ofText [newline]).isOk = false := by decide +kernel
      rw [h] at blank
      cases blank
  obtain ⟨hn, hl⟩ := written _ _ key.line_eq
  rw [lineText]
  split
  case isTrue h =>
    intro hd
    have ends := List.dropLast_append_getLast? newline h
    rw [hd] at ends
    exact hl ends.symm
  case isFalse => exact hn

theorem holds_knownLine {path : Bytes} {key : PublicKey} {st st' : Standing} {acts : List Act} {added : Bool}
    (h : Added path (knownLine key) st st' acts (.ok added)) : st'.Holds (knownLine key) := by
  have holds := h.holds (by rw [lineText_knownLine]; exact knownLine_ne_nil key)
  rwa [lineText_knownLine] at holds

/-! ## Courses -/

/-- A run with a key ends in one of four ways. -/
inductive Course (s : Settings) (key : PublicKey) :
    TrustFiles → TrustFiles → List Act → Except Fault Unit → Prop
  | atKnown {f known acts fault}
    (hk : Added (Utf8.encode s.knownHosts) (knownLine key) f.known known acts (.error fault)) :
    Course s key f { f with known } acts (.error (.knownHosts fault))
  | atUsers {f known users acts more added fault}
    (hk : Added (Utf8.encode s.knownHosts) (knownLine key) f.known known acts (.ok added))
    (hu : Added (Utf8.encode s.trustedAuthorities) key.bytes f.users users more (.error fault)) :
    Course s key f { f with known, users } (acts ++ more) (.error (.trustedAuthorities fault))
  | atConfig {f known users config acts more last added added' fault}
    (hk : Added (Utf8.encode s.knownHosts) (knownLine key) f.known known acts (.ok added))
    (hu : Added (Utf8.encode s.trustedAuthorities) key.bytes f.users users more (.ok added'))
    (hc : Committed (Utf8.encode s.daemonProgram) (Utf8.encode s.daemonConfig) [trustEdit s] f.config config last
      (.error fault)) :
    Course s key f ⟨known, users, config⟩ (acts ++ (more ++ last)) (.error (.trustNotSet fault))
  | through {f known users config acts more last added added' outcome}
    (hk : Added (Utf8.encode s.knownHosts) (knownLine key) f.known known acts (.ok added))
    (hu : Added (Utf8.encode s.trustedAuthorities) key.bytes f.users users more (.ok added'))
    (hc : Committed (Utf8.encode s.daemonProgram) (Utf8.encode s.daemonConfig) [trustEdit s] f.config config last
      (.ok outcome)) :
    Course s key f ⟨known, users, config⟩ (acts ++ (more ++ last)) (.ok ())

theorem trustEdit_fits (s : Settings) : (trustEdit s).fits = true := rfl

theorem trustEdit_key (s : Settings) : (trustEdit s).key ≠ "" := by
  show "TrustedUserCAKeys" ≠ ""
  decide

theorem trustEdit_isLine {s : Settings} (hn : '\n' ∉ s.trustedAuthorities.toList) : (trustEdit s).IsLine := by
  refine ⟨?_, hn⟩
  show '\n' ∉ "TrustedUserCAKeys".toList
  decide +kernel

variable {W : Type} {scene : Scene W} {s : Settings} {key : PublicKey} {w w' : W} {result : Except Fault Unit}

theorem watched_apart (hs : scene.Separate (trustPaths s)) :
    scene.watches (Utf8.encode s.knownHosts) ∧ scene.watches (Utf8.encode s.trustedAuthorities) ∧
      scene.watches (Utf8.encode s.daemonConfig) ∧ Utf8.encode s.knownHosts ≠ Utf8.encode s.trustedAuthorities ∧
      Utf8.encode s.knownHosts ≠ Utf8.encode s.daemonConfig ∧
      Utf8.encode s.trustedAuthorities ≠ Utf8.encode s.daemonConfig := by
  obtain ⟨watched, nodup⟩ := hs
  simpa [trustPaths, and_assoc] using And.intro watched nodup

theorem trustForHosts_ends (hp : scene.watches (Utf8.encode s.knownHosts))
    (h : trustForHosts scene.host s key w = some (result, w')) :
    ∃ acts added, Added (Utf8.encode s.knownHosts) (knownLine key) (scene.standing (Utf8.encode s.knownHosts) w)
        (scene.standing (Utf8.encode s.knownHosts) w') acts added ∧
      scene.Touches (Utf8.encode s.knownHosts) acts w w' ∧
      result = (added.mapError Fault.knownHosts).map fun _ => () := by
  obtain ⟨added, v, ha, h⟩ := bind_eq_some.mp h
  obtain ⟨acts, ends, touched⟩ := addLine_added hp ha
  cases added with
  | error fault =>
    obtain ⟨rfl, rfl⟩ := pure_eq_some.mp h
    exact ⟨acts, _, ends, touched, rfl⟩
  | ok added =>
    obtain ⟨_, v', hprint, h⟩ := bind_eq_some.mp h
    obtain ⟨rfl, rfl⟩ := pure_eq_some.mp h
    have printed := scene.print hprint
    rw [← printed.same _ hp] at ends
    exact ⟨acts, _, ends, by simpa using touched.trans (printed.touches _), rfl⟩

theorem trustForUsers_ends (hp : scene.watches (Utf8.encode s.trustedAuthorities))
    (hc : scene.watches (Utf8.encode s.daemonConfig)) (h : trustForUsers scene.host s key w = some (result, w')) :
    ∃ acts added v, Added (Utf8.encode s.trustedAuthorities) key.bytes
        (scene.standing (Utf8.encode s.trustedAuthorities) w) (scene.standing (Utf8.encode s.trustedAuthorities) v)
        acts added ∧
      scene.Touches (Utf8.encode s.trustedAuthorities) acts w v ∧
      match added with
      | .error fault => w' = v ∧ result = .error (.trustedAuthorities fault)
      | .ok _ => ∃ last outcome, Committed (Utf8.encode s.daemonProgram) (Utf8.encode s.daemonConfig) [trustEdit s]
          (scene.standing (Utf8.encode s.daemonConfig) v) (scene.standing (Utf8.encode s.daemonConfig) w') last
          outcome ∧
        scene.Touches (Utf8.encode s.daemonConfig) last v w' ∧
        result = (outcome.mapError Fault.trustNotSet).map fun _ => () := by
  obtain ⟨added, v, ha, h⟩ := bind_eq_some.mp h
  obtain ⟨acts, ends, touched⟩ := addLine_added hp ha
  refine ⟨acts, added, v, ends, touched, ?_⟩
  cases added with
  | error fault =>
    obtain ⟨rfl, rfl⟩ := pure_eq_some.mp h
    exact ⟨rfl, rfl⟩
  | ok added =>
    dsimp only at h ⊢
    rw [Config.Modifier.queue, if_pos (trustEdit_fits s)] at h
    obtain ⟨⟨outcome, _⟩, u, hcommit, h⟩ := bind_eq_some.mp h
    obtain ⟨last, ends, touched⟩ := Config.commit_committed hc hcommit
    cases outcome with
    | error fault =>
      obtain ⟨rfl, rfl⟩ := pure_eq_some.mp h
      exact ⟨last, _, ends, touched, rfl⟩
    | ok outcome =>
      obtain ⟨_, u', hprint, h⟩ := bind_eq_some.mp h
      obtain ⟨rfl, rfl⟩ := pure_eq_some.mp h
      have printed := scene.print hprint
      rw [← printed.same _ hc] at ends
      exact ⟨last, _, ends, by simpa using touched.trans (printed.touches _), rfl⟩

/-- What a run with a key does to the three files, one after the other. -/
theorem trustKey_course (hs : scene.Separate (trustPaths s)) (h : trustKey scene.host s key w = some (result, w')) :
    ∃ acts, Course s key (trustFiles scene s w) (trustFiles scene s w') acts result ∧
      scene.record w' = scene.record w ++ acts := by
  obtain ⟨hk, hu, hc, hku, hkc, huc⟩ := watched_apart hs
  obtain ⟨known, v, hknown, h⟩ := bind_eq_some.mp h
  obtain ⟨acts, added, ends, touched, rfl⟩ := trustForHosts_ends hk hknown
  have users := touched.same _ hu (Ne.symm hku)
  have config := touched.same _ hc (Ne.symm hkc)
  cases added with
  | error fault =>
    obtain ⟨rfl, rfl⟩ := pure_eq_some.mp h
    have course : Course s key (trustFiles scene s w) _ acts _ := .atKnown ends
    exact ⟨acts, by simpa [trustFiles, users, config] using course, touched.record⟩
  | ok added =>
    obtain ⟨more, added', u, ends', touched', h⟩ := trustForUsers_ends hu hc h
    rw [← touched'.same _ hk hku] at ends
    rw [users] at ends'
    cases added' with
    | error fault =>
      obtain ⟨rfl, rfl⟩ := h
      have course : Course s key (trustFiles scene s w) _ (acts ++ more) _ := .atUsers ends ends'
      refine ⟨acts ++ more, ?_, by rw [touched'.record, touched.record, List.append_assoc]⟩
      simpa [trustFiles, touched'.same _ hc (Ne.symm huc), config] using course
    | ok added' =>
      obtain ⟨last, outcome, committed, touched'', rfl⟩ := h
      rw [← touched''.same _ hk hkc] at ends
      rw [← touched''.same _ hu huc] at ends'
      rw [touched'.same _ hc (Ne.symm huc), config] at committed
      refine ⟨acts ++ (more ++ last), ?_, ?_⟩
      · cases outcome with
        | error fault => exact .atConfig ends ends' committed
        | ok outcome => exact .through ends ends' committed
      · rw [touched''.record, touched'.record, touched.record]
        simp only [List.append_assoc]

/-- None of the three files was changed, and no program was run. -/
structure LeftAlone (scene : Scene W) (s : Settings) (w w' : W) : Prop where
  files : trustFiles scene s w' = trustFiles scene s w
  idle : ∃ acts, scene.record w' = scene.record w ++ acts ∧ ∀ act ∈ acts, act.isIdle = true

theorem fetch_leaves (hs : scene.Separate (trustPaths s)) {r : Reach} {answer : Except Fault PublicKey}
    (h : fetch scene.host s r w = some (answer, w')) : LeftAlone scene s w w' := by
  obtain ⟨hwk, hwu, hwc, -⟩ := watched_apart hs
  obtain ⟨acts, idle, leaves⟩ := fetch_looks scene s r _ _ _ h
  refine ⟨?_, acts, leaves.record, idle⟩
  rw [trustFiles, leaves.same _ hwk, leaves.same _ hwu, leaves.same _ hwc]
  rfl

/-- A run without a key changes nothing, and one with a key takes its course. -/
theorem trust_ends (hs : scene.Separate (trustPaths s)) {r : Reach} (h : trust scene.host s r w = some (result, w')) :
    ∃ answer v, fetch scene.host s r w = some (answer, v) ∧ LeftAlone scene s w v ∧
      match answer with
      | .error fault => result = .error fault ∧ w' = v
      | .ok key => ∃ acts, Course s key (trustFiles scene s w) (trustFiles scene s w') acts result ∧
          scene.record w' = scene.record v ++ acts := by
  rw [trust_eq] at h
  obtain ⟨answer, v, hfetch, h⟩ := bind_eq_some.mp h
  have left := fetch_leaves hs hfetch
  refine ⟨answer, v, hfetch, left, ?_⟩
  cases answer with
  | error fault =>
    obtain ⟨rfl, rfl⟩ := pure_eq_some.mp h
    exact ⟨rfl, rfl⟩
  | ok key =>
    rw [← left.files]
    exact trustKey_course hs h

theorem trustKey_returns (hp : scene.Prompt) (s : Settings) (key : PublicKey) :
    Returns (trustKey scene.host s key) := by
  have hosts : Returns (trustForHosts scene.host s key) := by
    refine (addLine_returns hp _ _).bind fun added => ?_
    split
    · exact .pure _
    · exact (hp.print _).bind fun _ => .pure _
  have users : Returns (trustForUsers scene.host s key) := by
    refine (addLine_returns hp _ _).bind fun added => ?_
    split
    · exact .pure _
    · rw [Config.Modifier.queue, if_pos (trustEdit_fits s)]
      refine (Config.commit_returns hp _ _).bind fun answer => ?_
      split
      · exact .pure _
      · exact (hp.print _).bind fun _ => .pure _
  refine hosts.bind fun known => ?_
  split
  · exact .pure _
  · exact users

/-! ## What a run makes of the files -/

def TrustFiles.settle (s : Settings) (key : PublicKey) (f : TrustFiles) : TrustFiles where
  known := withLine (knownLine key) f.known
  users := withLine key.bytes f.users
  config := match f.config with
    | .file content => .file ((trustEdit s).apply content)
    | other => other

namespace Course

variable {f f' : TrustFiles} {acts : List Act} {fault : Fault}

theorem eq_settle (h : Course s key f f' acts (.ok ())) : f' = f.settle s key := by
  cases h with
  | through hk hu hc =>
    obtain ⟨former, hformer, rfl⟩ := hc.ok
    obtain rfl := hk.eq_withLine
    obtain rfl := hu.eq_withLine
    simp only [TrustFiles.settle, hformer]
    rfl

end Course

/-! ## An authority to trust -/

private def told : Bytes :=
  Utf8.encode "ssh-ed25519 AAAAC3NzaC1lZDI1NTE5AAAAIHwXYROIrAfv9RS4LyCPdsPGy6EqM+vncrrZXzVJbNuV"

/-- A daemon that accepts everything, and an authority that tells its key. -/
def sampleAround : Surroundings where
  programs _ _ _ := .ok ⟨.success, [], []⟩
  network _ := .ok fun r => .ok ⟨r.seq, .ok (.publicKey told)⟩

def sampleReach : Reach := ⟨false, none, none, some "ca:2222"⟩

theorem fetch_sample (s : Settings) (w : Watched) : fetch (Watched.scene sampleAround).host s sampleReach w =
    some (.ok Authority.sampleKey, w.1, w.2 ++ [.asked ⟨1, .publicKey⟩]) := by
  have parsed : PublicKey.parse told = .ok Authority.sampleKey := by
    have hsome : (PublicKey.parse told).toOption = some Authority.sampleKey := (Option.some_get _).symm
    rcases hp : PublicKey.parse told with fault | key <;> rw [hp] at hsome
    · cases hsome
    · rw [Option.some.inj hsome]
  show some ((PublicKey.parse told).mapError Fault.authorityKeyInvalid, w.1, _) = _
  rw [parsed]
  rfl

end SshAuthority.Command

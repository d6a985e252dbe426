import SshAuthority.Config.Daemon
import SshAuthority.Proofs.Host.Scene
/-!
# Commits that the daemon checks

On a scene the daemon reads and changes nothing, so what a commit leaves is told by its result.
-/
namespace SshAuthority.Config
open Host (Act Scene Returns bind_eq_some pure_eq_some)

def checkAct (daemon path : Bytes) : Act := .ran daemon [Utf8.encode "-t", Utf8.encode "-f", path]

/-- A commit ends in one of six ways, told by what stands at the path before and after, what is done, and the
result. -/
inductive Committed (daemon path : Bytes) (edits : List Edit) :
    Standing → Standing → List Act → Except ConfigFault Outcome → Prop
  | unread {s} (fault : Host.Fault) :
    Committed daemon path edits s s [.read path (some fault)] (.error (.read path fault))
  | idle {former} (h : Edit.applyAll edits former = former) :
    Committed daemon path edits (.file former) (.file former) [.read path none] (.ok .unchanged)
  | unwritten {former} (fault : Host.WriteFault) (h : Edit.applyAll edits former ≠ former) :
    Committed daemon path edits (.file former) (.file former)
      [.read path none, .wrote .replace path (Edit.applyAll edits former) (some fault)]
      (.error (.write path fault.fault))
  | applied {former} (h : Edit.applyAll edits former ≠ former) :
    Committed daemon path edits (.file former) (.file (Edit.applyAll edits former))
      [.read path none, .wrote .replace path (Edit.applyAll edits former) none, checkAct daemon path] (.ok .applied)
  | restored {former} (fault : CheckFault) (h : Edit.applyAll edits former ≠ former) :
    Committed daemon path edits (.file former) (.file former)
      [.read path none, .wrote .replace path (Edit.applyAll edits former) none, checkAct daemon path,
        .wrote .replace path former none] (.error (.validation path fault))
  | stuck {former} (fault : CheckFault) (restoring : Host.WriteFault) (h : Edit.applyAll edits former ≠ former) :
    Committed daemon path edits (.file former) (.file (Edit.applyAll edits former))
      [.read path none, .wrote .replace path (Edit.applyAll edits former) none, checkAct daemon path,
        .wrote .replace path former (some restoring)] (.error (.rollbackFailed path fault restoring.fault))

namespace Committed

variable {daemon path : Bytes} {edits : List Edit} {s s' : Standing} {acts : List Act} {outcome : Outcome}
  {fault : ConfigFault}

theorem ok (h : Committed daemon path edits s s' acts (.ok outcome)) :
    ∃ former, s = .file former ∧ s' = .file (Edit.applyAll edits former) := by
  cases h with
  | idle h => exact ⟨_, rfl, by rw [h]⟩
  | applied => exact ⟨_, rfl, rfl⟩

/-- A commit that fails changes nothing, unless the former content could not be put back. -/
theorem error (h : Committed daemon path edits s s' acts (.error fault)) (hf : fault.needsManualFix = false) :
    s' = s := by
  cases h with
  | unread | unwritten | restored => rfl
  | stuck => cases hf

theorem of_settled {former : Bytes} {result : Except ConfigFault Outcome} (he : Edit.applyAll edits former = former)
    (h : Committed daemon path edits (.file former) s' acts result) :
    s' = .file former ∧ ∃ fault, acts = [.read path fault] := by
  cases h with
  | unread | idle => exact ⟨rfl, _, rfl⟩
  | unwritten _ h | applied h | restored _ h | stuck _ _ h => exact absurd he h

end Committed

variable {W : Type} {scene : Scene W} {w w' : W} {daemon path : Bytes} {edits : List Edit}
  {answer : Except ConfigFault Outcome × Modifier}

private theorem daemonCheck_leaves {verdict : Except CheckFault Unit}
    (h : daemonCheck scene.host daemon path w = some (verdict, w')) : scene.Leaves [checkAct daemon path] w w' := by
  obtain ⟨ended, v, hrun, h⟩ := bind_eq_some.mp h
  obtain ⟨-, rfl⟩ := pure_eq_some.mp h
  exact scene.run hrun

private theorem restore_ends {former : Bytes} {fault : CheckFault} {reported : ConfigFault} (hp : scene.watches path)
    (h : Modifier.restore scene.host.toFiles path former fault w = some (reported, w')) :
    (reported = .validation path fault ∧ scene.standing path w' = .file former ∧
        scene.Touches path [.wrote .replace path former none] w w') ∨
      ∃ restoring, reported = .rollbackFailed path fault restoring.fault ∧
        scene.standing path w' = scene.standing path w ∧
        scene.Touches path [.wrote .replace path former (some restoring)] w w' := by
  obtain ⟨restored, v, hb, h⟩ := bind_eq_some.mp h
  have touched := scene.write hp hb
  cases restored with
  | ok _ =>
    obtain ⟨rfl, rfl⟩ := pure_eq_some.mp h
    obtain ⟨_, _, back⟩ := scene.write_ok hp hb
    exact .inl ⟨rfl, back, touched⟩
  | error restoring =>
    obtain ⟨rfl, rfl⟩ := pure_eq_some.mp h
    exact .inr ⟨_, rfl, scene.replace_error hp hb, touched⟩

theorem commit_committed (hp : scene.watches path)
    (h : (Modifier.mk path edits).commit scene.host.toFiles (daemonCheck scene.host daemon) w = some (answer, w')) :
    ∃ acts, Committed daemon path edits (scene.standing path w) (scene.standing path w') acts answer.1 ∧
      scene.Touches path acts w w' := by
  obtain ⟨found, w₁, hr, h⟩ := bind_eq_some.mp h
  have left := scene.read hr
  have same := left.same path hp
  have read := left.touches path
  cases found with
  | error fault =>
    obtain ⟨rfl, rfl⟩ := pure_eq_some.mp h
    exact ⟨_, same ▸ .unread fault, read⟩
  | ok former =>
    rw [scene.read_ok hp hr] at same ⊢
    dsimp only at h
    split at h
    case isTrue he =>
      obtain ⟨rfl, rfl⟩ := pure_eq_some.mp h
      rw [same]
      exact ⟨_, .idle (eq_of_beq he), read⟩
    case isFalse he =>
      have differs : Edit.applyAll edits former ≠ former := by simpa using he
      obtain ⟨stored, w₂, hw, h⟩ := bind_eq_some.mp h
      have written := read.trans (scene.write hp hw)
      cases stored with
      | error fault =>
        obtain ⟨rfl, rfl⟩ := pure_eq_some.mp h
        rw [scene.replace_error hp hw, same]
        exact ⟨_, .unwritten _ differs, written⟩
      | ok _ =>
        obtain ⟨_, _, edited⟩ := scene.write_ok hp hw
        obtain ⟨verdict, w₃, hc, h⟩ := bind_eq_some.mp h
        have check := daemonCheck_leaves hc
        have checked := written.trans (check.touches path)
        rw [← check.same path hp] at edited
        cases verdict with
        | ok _ =>
          obtain ⟨rfl, rfl⟩ := pure_eq_some.mp h
          rw [edited]
          exact ⟨_, .applied differs, checked⟩
        | error fault =>
          obtain ⟨reported, w₄, hback, h⟩ := bind_eq_some.mp h
          obtain ⟨rfl, rfl⟩ := pure_eq_some.mp h
          rcases restore_ends hp hback with ⟨rfl, back, ended⟩ | ⟨restoring, rfl, stuck, ended⟩
          · rw [back]
            exact ⟨_, .restored fault differs, checked.trans ended⟩
          · rw [stuck, edited]
            exact ⟨_, .stuck fault _ differs, checked.trans ended⟩

theorem commit_returns (hp : scene.Prompt) (daemon : Bytes) (q : Modifier) :
    Returns (q.commit scene.host.toFiles (daemonCheck scene.host daemon)) := by
  have restores : ∀ former fault, Returns (Modifier.restore scene.host.toFiles q.path former fault) := by
    intro former fault
    refine (hp.write _ _ _).bind fun answer => ?_
    split <;> exact .pure _
  have checks : Returns (daemonCheck scene.host daemon q.path) := (hp.run _ _).bind fun _ => .pure _
  refine (hp.read _).bind fun found => ?_
  split
  · exact .pure _
  · dsimp only
    split
    · exact .pure _
    · refine (hp.write _ _ _).bind fun stored => ?_
      split
      · exact .pure _
      · refine checks.bind fun verdict => ?_
        split
        · exact .pure _
        · exact (restores _ _).bind fun _ => .pure _

theorem commit_again {content : Bytes} (hr : scene.Readable) (hp : scene.watches path)
    (hs : scene.standing path w = .file content) (he : Edit.applyAll edits content = content)
    (h : (Modifier.mk path edits).commit scene.host.toFiles (daemonCheck scene.host daemon) w = some (answer, w')) :
    answer.1 = .ok .unchanged := by
  obtain ⟨found, v, ha, h⟩ := bind_eq_some.mp h
  obtain rfl := hr hp hs ha
  dsimp only at h
  rw [he, if_pos (beq_self_eq_true content)] at h
  rw [← (pure_eq_some.mp h).1]

end SshAuthority.Config

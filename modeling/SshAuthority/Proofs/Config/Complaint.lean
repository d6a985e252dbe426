import SshAuthority.Proofs.Config.Checked
import SshAuthority.Proofs.Host.Watched
import SshAuthority.Proofs.Text.Search
/-!
# Complaints of the daemon

The daemon accepts a configuration when its check succeeds and neither of the two known complaints stands in what
it wrote, taken as bytes. A commit that writes the file is applied in that case and taken back in every other.
-/
namespace SshAuthority.Config
open Host (Returns bind_eq_some pure_eq_some)

/-- The check was run, succeeded, and wrote neither of the known complaints. -/
def Accepts (ended : Except Host.Fault Host.Ended) : Prop :=
  ∃ e, ended = .ok e ∧ e.status.succeeded = true ∧ ∀ d ∈ brokenKeyComplaints, ¬Utf8.encode d <:+: e.err

/-- One of the known complaints stands in the line. -/
def Complains (line : List Char) : Prop := ∃ d ∈ brokenKeyComplaints, d.toList <:+: line

def FirstComplaint (lines : List (List Char)) (line : List Char) : Prop :=
  Complains line ∧ ∃ before after, lines = before ++ line :: after ∧ ∀ l ∈ before, ¬Complains l

private theorem isBrokenKeyLine_iff (line : List Char) : isBrokenKeyLine line = true ↔ Complains line := by
  simp only [isBrokenKeyLine, List.any_eq_true, occursIn_iff, Complains]

private theorem complaint_plain : ∀ d ∈ brokenKeyComplaints, d ≠ "" ∧ (∀ c ∈ d.toList, c.toNat < 128) ∧
    '\n' ∉ d.toList ∧ '\r' ∉ d.toList := by simp [brokenKeyComplaints]

/-- A complaint that stands in the bytes is found in a line of their text, and no other is. -/
private theorem exists_complaint_iff (err : Bytes) :
    (∃ line ∈ Text.lines (Utf8.decodeLossy err).toList, Complains line) ↔
      ∃ d ∈ brokenKeyComplaints, Utf8.encode d <:+: err := by
  have bytes_iff : ∀ d ∈ brokenKeyComplaints, (∃ line ∈ Text.lines (Utf8.decodeLossy err).toList, d.toList <:+: line) ↔
      Utf8.encode d <:+: err := by
    intro d hd
    obtain ⟨hne, hlow, hn, hr⟩ := complaint_plain d hd
    have hchars : d.toList ≠ [] := by simpa using hne
    rw [Text.exists_mem_lines_iff hchars hn hr, Utf8.infix_decodeLossy_iff hne hlow]
  constructor
  · intro ⟨line, hline, d, hd, hi⟩
    exact ⟨d, hd, (bytes_iff d hd).mp ⟨line, hline, hi⟩⟩
  · intro ⟨d, hd, hi⟩
    obtain ⟨line, hline, hl⟩ := (bytes_iff d hd).mpr hi
    exact ⟨line, hline, d, hd, hl⟩

theorem checkComplaints_ok_iff (err : Bytes) :
    checkComplaints (Utf8.decodeLossy err) = .ok () ↔ ∀ d ∈ brokenKeyComplaints, ¬Utf8.encode d <:+: err := by
  have found : (∀ d ∈ brokenKeyComplaints, ¬Utf8.encode d <:+: err) ↔
      (Text.lines (Utf8.decodeLossy err).toList).find? isBrokenKeyLine = none := by
    rw [List.find?_eq_none]
    simp only [isBrokenKeyLine_iff]
    have h := not_congr (exists_complaint_iff err)
    push Not at h
    exact h.symm
  rw [checkComplaints, found]
  split
  case h_1 line h => simp [h]
  case h_2 h => simp [h]

theorem checkComplaints_complaint_iff (text shown : String) :
    checkComplaints text = .error (.complaint shown) ↔
      ∃ line, FirstComplaint (Text.lines text.toList) line ∧ shown = String.ofList (Text.trim line) := by
  have first : ∀ line, (Text.lines text.toList).find? isBrokenKeyLine = some line ↔
      FirstComplaint (Text.lines text.toList) line := by
    intro line
    rw [List.find?_eq_some_iff_append]
    simp only [isBrokenKeyLine_iff, Bool.not_eq_true', ← Bool.not_eq_true, FirstComplaint]
  rw [checkComplaints]
  simp only [← first]
  split
  case h_1 line h => simp [h, eq_comm]
  case h_2 h => simp [h]

/-- A verdict is told by how the check ended. -/
theorem verdict_iff (program : Bytes) (ended : Except Host.Fault Host.Ended) :
    (verdict program ended = .ok () ↔ Accepts ended) ∧
      ∀ shown, verdict program ended = .error (.complaint shown) ↔ ∃ e line, ended = .ok e ∧ e.status.succeeded = true ∧
        FirstComplaint (Text.lines (Utf8.decodeLossy e.err).toList) line ∧ shown = String.ofList (Text.trim line) := by
  cases ended with
  | error fault => simp [verdict, Host.checked, Accepts]
  | ok e =>
    by_cases hs : e.status.succeeded = true
    · have hv : verdict program (.ok e) = checkComplaints (Utf8.decodeLossy e.err) := by
        simp [verdict, Host.checked, hs]
      rw [hv, checkComplaints_ok_iff]
      simp [checkComplaints_complaint_iff, Accepts, hs]
    · simp [verdict, Host.checked, Accepts, hs]

/-! ## Commits -/

section

variable {W : Type} {files : Host.Files (StateT W Option)} {check : Bytes → StateT W Option (Except CheckFault Unit)}
  {path former : Bytes} {queue : List Edit} {w w₁ w₂ w₃ w₄ : W}

/-- What a commit does once the file that it wrote was checked. -/
private def afterCheck (files : Host.Files (StateT W Option)) (path former : Bytes) (queue : List Edit) :
    Except CheckFault Unit → StateT W Option (Except ConfigFault Outcome × Modifier)
  | .ok _ => return (.ok .applied, ⟨path, []⟩)
  | .error fault => return (.error (← Modifier.restore files path former fault), ⟨path, queue⟩)

private theorem commit_written {found : Except CheckFault Unit} {r : Except ConfigFault Outcome × Modifier}
    (hr : files.read path w = some (.ok former, w₁)) (he : Edit.applyAll queue former ≠ former)
    (hw : files.write .replace path (Edit.applyAll queue former) w₁ = some (.ok (), w₂))
    (hc : check path w₂ = some (found, w₃)) (h : afterCheck files path former queue found w₃ = some (r, w₄)) :
    Modifier.commit files check ⟨path, queue⟩ w = some (r, w₄) := by
  apply bind_eq_some.mpr
  refine ⟨.ok former, w₁, hr, ?_⟩
  have differs : (Edit.applyAll queue former == former) = false := by simpa using he
  dsimp only
  rw [differs, if_neg Bool.false_ne_true]
  apply bind_eq_some.mpr
  refine ⟨.ok (), w₂, hw, ?_⟩
  apply bind_eq_some.mpr
  refine ⟨found, w₃, hc, ?_⟩
  cases found with
  | ok _ => exact h
  | error fault => exact h

private theorem restore_stands (standing : W → Standing)
    (stands : ∀ content w w', files.write .replace path content w = some (.ok (), w') → standing w' = .file content)
    (writes : ∀ content, Returns (files.write .replace path content)) (former : Bytes) (fault : CheckFault) (w : W) :
    ∃ reported w', Modifier.restore files path former fault w = some (reported, w') ∧
      (reported = .validation path fault ∧ files.write .replace path former w = some (.ok (), w') ∧
          standing w' = .file former ∨
        ∃ cause, reported = .rollbackFailed path fault cause.fault ∧
          files.write .replace path former w = some (.error cause, w')) := by
  obtain ⟨⟨back, w'⟩, hb⟩ := writes former w
  cases back with
  | ok _ =>
    refine ⟨.validation path fault, w', ?_, .inl ⟨rfl, hb, stands _ _ _ hb⟩⟩
    exact bind_eq_some.mpr ⟨.ok (), w', hb, rfl⟩
  | error cause =>
    refine ⟨.rollbackFailed path fault cause.fault, w', ?_, .inr ⟨cause, rfl, hb⟩⟩
    exact bind_eq_some.mpr ⟨.error cause, w', hb, rfl⟩

end

private theorem daemonCheck_run {W : Type} {host : Host (StateT W Option)} {program path : Bytes} {w w' : W}
    {ended : Except Host.Fault Host.Ended}
    (h : host.run program [Utf8.encode "-t", Utf8.encode "-f", path] w = some (ended, w')) :
    daemonCheck host program path w = some (verdict program ended, w') :=
  bind_eq_some.mpr ⟨ended, w', h, rfl⟩

/-- However the daemon's check ends, it passes exactly when it succeeded without a known complaint in its output,
and the complaint that is reported is the first line with one. A commit that wrote the file is applied in that case,
and in every other it puts the former content back or tells that it could not. -/
theorem applied_iff_accepted {W : Type} (host : Host (StateT W Option)) (program path : Bytes) :
    (∀ w ended w', host.run program [Utf8.encode "-t", Utf8.encode "-f", path] w = some (ended, w') →
      ∃ found, daemonCheck host program path w = some (found, w') ∧ (found = .ok () ↔ Accepts ended) ∧
        ∀ shown, found = .error (.complaint shown) ↔ ∃ e line, ended = .ok e ∧ e.status.succeeded = true ∧
          FirstComplaint (Text.lines (Utf8.decodeLossy e.err).toList) line ∧ shown = String.ofList (Text.trim line)) ∧
    ∀ standing : W → Standing,
      (∀ content w w', host.write .replace path content w = some (.ok (), w') → standing w' = .file content) →
      (∀ content, Returns (host.write .replace path content)) →
      ∀ queue w former w₁ w₂ ended w₃, host.read path w = some (.ok former, w₁) →
      Edit.applyAll queue former ≠ former →
      host.write .replace path (Edit.applyAll queue former) w₁ = some (.ok (), w₂) →
      host.run program [Utf8.encode "-t", Utf8.encode "-f", path] w₂ = some (ended, w₃) →
      ∃ result left w', Modifier.commit host.toFiles (daemonCheck host program) ⟨path, queue⟩ w =
          some ((result, left), w') ∧
        (result = .ok .applied ↔ Accepts ended) ∧
        (¬Accepts ended → ∃ fault, verdict program ended = .error fault ∧
          (result = .error (.validation path fault) ∧
              host.write .replace path former w₃ = some (.ok (), w') ∧ standing w' = .file former ∨
            ∃ cause, result = .error (.rollbackFailed path fault cause.fault) ∧
              host.write .replace path former w₃ = some (.error cause, w'))) := by
  constructor
  · intro w ended w' h
    exact ⟨verdict program ended, daemonCheck_run h, verdict_iff program ended⟩
  · intro standing stands writes queue w former w₁ w₂ ended w₃ hr he hw hran
    have accepts := (verdict_iff program ended).1
    have hc := daemonCheck_run hran
    cases hv : verdict program ended with
    | ok _ =>
      have accepted := accepts.mp hv
      refine ⟨.ok .applied, ⟨path, []⟩, w₃, ?_, iff_of_true rfl accepted, fun h => absurd accepted h⟩
      apply commit_written hr he hw hc
      rw [hv]
      rfl
    | error fault =>
      have refused : ¬Accepts ended := by
        rw [← accepts, hv]
        intro h
        cases h
      obtain ⟨reported, w', hback, ends⟩ := restore_stands standing stands writes former fault w₃
      refine ⟨.error reported, ⟨path, queue⟩, w', ?_, iff_of_false (by simp) refused, fun _ => ⟨fault, rfl, ?_⟩⟩
      · apply commit_written hr he hw hc
        rw [hv]
        exact bind_eq_some.mpr ⟨reported, w', hback, rfl⟩
      · rcases ends with ⟨rfl, back⟩ | ⟨cause, rfl, stuck⟩
        · exact .inl ⟨rfl, back⟩
        · exact .inr ⟨cause, rfl, stuck⟩

open Host (Watched)

private def watchedPath : Bytes := Utf8.encode "/sshd_config"

private def portDisk : Host.Disk :=
  Host.Disk.addFile ⟨[], []⟩ [Utf8.encode "sshd_config"] (Utf8.encode "Port 22\n") 0o644

private def movedPort : List Edit := [⟨.only, "Port", "2222"⟩]

private def complaining : Host.Ended :=
  ⟨.success, [], Utf8.encode "Port 2222\n" ++ [0xFF] ++ Utf8.encode "Could not load host certificate\r" ++ [0xC3]⟩

private def aroundComplaining : Host.Surroundings := ⟨fun _ _ _ => .ok complaining, fun _ => .error .unknownHost⟩

private def formerPort : Bytes := Utf8.encode "Port 22\n"

private def editedPort : Bytes := Utf8.encode "Port 2222\n"

private theorem exists_edited : ∃ next, portDisk.write .replace watchedPath editedPort = .ok next ∧
    ∀ cause, next.write .replace watchedPath formerPort ≠ .error cause := by
  have goes : ((portDisk.write .replace watchedPath editedPort).toOption.any fun next =>
      (next.write .replace watchedPath formerPort).isOk) = true := by decide +kernel
  rcases hw : portDisk.write .replace watchedPath editedPort with cause | next <;> rw [hw] at goes
  · cases goes
  · refine ⟨next, rfl, fun cause hc => ?_⟩
    simp [Except.toOption, hc, Except.isOk, Except.toBool] at goes

/-- The file is not left with the edit that the daemon complained about. -/
theorem complaint_is_not_applied : ∃ left w',
    Modifier.commit (Watched.host aroundComplaining).toFiles (daemonCheck (Watched.host aroundComplaining) [])
      ⟨watchedPath, movedPort⟩ (portDisk, []) = some ((.error (.validation watchedPath
        (.complaint "\uFFFDCould not load host certificate\r\uFFFD")), left), w') ∧
    Standing.ofLook (w'.1.look watchedPath) = .file formerPort := by
  have hread : portDisk.read watchedPath = .ok formerPort := by decide +kernel
  have hedited : Edit.applyAll movedPort formerPort = editedPort := by decide +kernel
  have differs : Edit.applyAll movedPort formerPort ≠ formerPort := by
    rw [hedited]
    decide
  have complains : verdict [] (.ok complaining) =
      .error (.complaint "\uFFFDCould not load host certificate\r\uFFFD") := by decide +kernel
  have refused : ¬Accepts (.ok complaining) := by
    rw [← (verdict_iff [] (.ok complaining)).1, complains]
    exact nofun
  have watched : (Watched.scene aroundComplaining).watches watchedPath := by
    show Host.isPlain watchedPath = true
    decide +kernel
  have stands : ∀ content w w', (Watched.host aroundComplaining).write .replace watchedPath content w =
      some (.ok (), w') → (Watched.scene aroundComplaining).standing watchedPath w' = .file content := by
    intro content w w' h
    obtain ⟨former, _, hs⟩ := (Watched.scene aroundComplaining).write_ok watched h
    exact hs
  have writes := (Watched.scene_prompt aroundComplaining).write .replace watchedPath
  have found : (Watched.host aroundComplaining).read watchedPath (portDisk, []) =
      some (.ok formerPort, portDisk, [.read watchedPath none]) := by
    show some (portDisk.read watchedPath, portDisk, [Host.Act.read watchedPath _]) = _
    rw [hread]
    rfl
  obtain ⟨next, hw, restorable⟩ := exists_edited
  have hwrite : (Watched.host aroundComplaining).write .replace watchedPath (Edit.applyAll movedPort formerPort)
      (portDisk, [.read watchedPath none]) =
        some (.ok (), next, [.read watchedPath none] ++ [.wrote .replace watchedPath editedPort none]) := by
    rw [hedited]
    show Watched.write .replace watchedPath editedPort (portDisk, [.read watchedPath none]) = _
    rw [Watched.write]
    simp only [hw]
  obtain ⟨-, commits⟩ := applied_iff_accepted (Watched.host aroundComplaining) [] watchedPath
  obtain ⟨result, left, w', hcommit, -, ends⟩ := commits ((Watched.scene aroundComplaining).standing watchedPath) stands
    writes movedPort (portDisk, []) formerPort (portDisk, [.read watchedPath none]) _ (.ok complaining) _ found differs
    hwrite rfl
  obtain ⟨fault, hfault, ⟨rfl, -, stood⟩ | ⟨cause, -, stuck⟩⟩ := ends refused
  · obtain rfl := Except.error.inj (complains.symm.trans hfault)
    exact ⟨left, w', hcommit, stood⟩
  · replace stuck : Watched.write .replace watchedPath formerPort (next, _) = some (.error cause, w') := stuck
    rw [Watched.write] at stuck
    split at stuck
    case h_1 => cases stuck
    case h_2 failed hf => exact absurd hf (restorable failed)

end SshAuthority.Config

import Mathlib.Data.List.Basic
import SshAuthority.Proofs.Config.Commit
/-!
# Writes that fail on the way

A write first empties the file and then stores into it. Where it fails after that, what was stored by then stands in
the file, and a commit that fails with it does not put the former content back.
-/
namespace SshAuthority

namespace Host.Disk

/-- A point at which a write fails. -/
inductive Break where
  | opening (fault : Fault)
  /-- The file was emptied, and the first `stored` bytes of the content were put into it. -/
  | storing (stored : Nat) (fault : Fault)

namespace Break

def fault : Break → Fault
  | .opening fault | .storing _ fault => fault

/-- What stands where `new` was to be written over `old`. -/
def leaves (old new : Bytes) : Break → Bytes
  | .opening _ => old
  | .storing stored _ => new.take stored

end Break

/-- The file operations on a disk on which every write fails at a point, if its file can be opened at all. -/
def breaking (b : Break) : Files (StateM Disk) where
  isDirectory := files.isDirectory
  read := files.read
  write mode path content := match b with
    | .opening fault => fun d => (.error (.opening fault), d)
    | .storing stored fault => fun d =>
      match d.write mode path (content.take stored) with
      | .ok next => (.error (.storing fault), next)
      | .error cause => (.error cause, d)

variable {d next : Disk} {path old content : Bytes}

theorem write_breaking (b : Break) (hr : d.read path = .ok old) (hw : d.write .replace path content = .ok next) :
    ∃ cause after, (breaking b).write .replace path content d = (.error cause, after) ∧ cause.fault = b.fault ∧
      after.read path = .ok (b.leaves old content) := by
  cases b with
  | opening fault => exact ⟨.opening fault, d, rfl, rfl, hr⟩
  | storing stored fault =>
    obtain ⟨after, hafter⟩ := write_other hw (content.take stored)
    refine ⟨.storing fault, after, ?_, rfl, read_write hafter⟩
    simp only [breaking, hafter]

end Host.Disk

namespace Config

open Host.Disk (Break breaking)

variable {path former : Bytes} {queue : List Edit} {d whole : Host.Disk} {b : Break}

theorem take_eq_former {new : Bytes} (h : new ≠ former) (n : Nat) :
    new.take n = former ↔ n = former.length ∧ former <+: new := by
  constructor
  · rintro rfl
    refine ⟨?_, List.take_prefix n new⟩
    have hn : n < new.length := by
      refine Nat.lt_of_not_le fun hle => h (List.take_of_length_le hle).symm
    rw [List.length_take, Nat.min_eq_left (Nat.le_of_lt hn)]
  · rintro ⟨rfl, rest, rfl⟩
    exact List.take_left

/-- A commit whose write fails at a point tells so, keeps its queue, and leaves what had been stored by then. The
former content stands if the write failed at once, or when exactly that content had been stored again. -/
theorem failed_write_keeps_iff (hr : d.read path = .ok former) (hq : Edit.applyAll queue former ≠ former)
    (hw : d.write .replace path (Edit.applyAll queue former) = .ok whole) (check : Checker Host.Disk) (b : Break) :
    ∃ after, Modifier.commit (breaking b) check ⟨path, queue⟩ d = ((.error (.write path b.fault), ⟨path, queue⟩), after) ∧
      after.read path = .ok (b.leaves former (Edit.applyAll queue former)) ∧
      (after.read path = .ok former ↔ (∃ fault, b = .opening fault) ∨
        ∃ fault, b = .storing former.length fault ∧ former <+: Edit.applyAll queue former) := by
  obtain ⟨cause, after, hbreak, hfault, hleft⟩ := Host.Disk.write_breaking b hr hw
  have hread : (breaking b).read path d = (.ok former, d) := by
    show (d.read path, d) = _
    rw [hr]
  refine ⟨after, ?_, hleft, ?_⟩
  · rw [Modifier.commit_unwritten check hread hq hbreak, hfault]
  · rw [hleft, Except.ok.injEq]
    cases b with
    | opening fault => exact iff_of_true rfl (.inl ⟨fault, rfl⟩)
    | storing stored fault =>
      rw [Break.leaves, take_eq_former hq]
      constructor
      · rintro ⟨rfl, hfirst⟩
        exact .inr ⟨fault, rfl, hfirst⟩
      · rintro (⟨_, hb⟩ | ⟨_, hb, hfirst⟩)
        · cases hb
        · exact ⟨(Break.storing.inj hb).1, hfirst⟩

private def tornPath : Bytes := Utf8.encode "/sshd_config"

private def tornDisk (content : Bytes) : Host.Disk :=
  Host.Disk.addFile ⟨[], []⟩ [Utf8.encode "sshd_config"] content 0o644

private def openPort : List Edit := [⟨.only, "Port", "2222"⟩]

private def passing : Checker Host.Disk := fun _ => pure (.ok ())

/-- The disk is full when as much is stored as there was. -/
theorem failed_write_keeps_whole_line :
    let content : Bytes := Utf8.encode "# ours\n"
    let b : Break := .storing content.length (.system 28)
    Edit.applyAll openPort content ≠ content ∧
      ∃ after, Modifier.commit (breaking b) passing ⟨tornPath, openPort⟩ (tornDisk content) =
        ((.error (.write tornPath (.system 28)), ⟨tornPath, openPort⟩), after) ∧ after.read tornPath = .ok content := by
  intro content b
  have hread : (tornDisk content).read tornPath = .ok content := by decide +kernel
  have hq : Edit.applyAll openPort content ≠ content := by decide +kernel
  have hopens : ((tornDisk content).write .replace tornPath (Edit.applyAll openPort content)).isOk = true := by
    decide +kernel
  rcases hw : (tornDisk content).write .replace tornPath (Edit.applyAll openPort content) with cause | whole
  · rw [hw] at hopens
    cases hopens
  obtain ⟨after, hcommit, -, hkept⟩ := failed_write_keeps_iff hread hq hw passing b
  exact ⟨hq, after, hcommit, hkept.mpr (.inr ⟨_, rfl, by decide +kernel⟩)⟩

/-- The disk is full after three bytes: they are all that is left of the file, and the checker is not asked. -/
theorem full_disk_loses_content :
    let content : Bytes := Utf8.encode "Port 22\nPermitRootLogin no\n"
    let r := Modifier.commit (breaking (.storing 3 (.system 28))) passing ⟨tornPath, openPort⟩ (tornDisk content)
    (tornDisk content).read tornPath = .ok content ∧ Edit.applyAll openPort content ≠ content ∧
      r.1 = (.error (.write tornPath (.system 28)), ⟨tornPath, openPort⟩) ∧
      r.2.read tornPath = .ok (Utf8.encode "Por") ∧ r.2.read tornPath ≠ .ok content := by
  decide +kernel

end Config

end SshAuthority

import Mathlib.Data.List.Basic
import SshAuthority.Config.Modifier
import SshAuthority.Proofs.Host.Disk
import SshAuthority.Proofs.Places
/-!
# Commits are all or nothing

A modifier is followed through a run in which edits are queued, the queue is committed, and the world
changes from outside in between. The checker is any program: it sees the whole world and may change it.
What is assumed of the files is that a write takes full effect or none, and that a read tells what
stands at the path.
-/
namespace SshAuthority.Config

inductive Standing where
  | absent
  | directory
  | file (content : Bytes)
  deriving DecidableEq, Repr

/-- A path in a world that holds everything else the files and the checker may depend on. -/
structure Site (W : Type) where
  path : Bytes
  files : Host.Files (StateM W)
  standing : W → Standing
  read_ok : ∀ {w content w'}, files.read path w = (.ok content, w') →
    standing w = .file content ∧ standing w' = standing w
  read_error : ∀ {w fault w'}, files.read path w = (.error fault, w') → standing w' = standing w
  write_ok : ∀ {w content w'}, files.write .replace path content w = (.ok (), w') →
    standing w' = .file content
  write_error : ∀ {w content fault w'}, files.write .replace path content w = (.error fault, w') →
    standing w' = standing w

def Standing.ofLook : Except Host.Fault Host.Entry → Standing
  | .ok (.file content _) => .file content
  | .ok .directory => .directory
  | .error _ => .absent

def Site.ofDisk (path : Bytes) : Site Host.Disk where
  path := path
  files := Host.Disk.files
  standing d := .ofLook (d.look path)
  read_ok := by
    intro d content d' h
    obtain ⟨hr, rfl⟩ := Prod.mk.inj h
    obtain ⟨bits, hl⟩ := Host.Disk.read_eq_ok hr
    simp [hl, Standing.ofLook]
  read_error := by
    intro d fault d' h
    rw [← (Prod.mk.inj h).2]
  write_ok := by
    intro d content d' h
    simp only [Host.Disk.files] at h
    split at h
    case h_1 next hw =>
      obtain ⟨bits, hl⟩ := Host.Disk.look_write (by decide) hw
      rw [← (Prod.mk.inj h).2, hl]
      rfl
    case h_2 => cases (Prod.mk.inj h).1
  write_error := by
    intro d content fault d' h
    simp only [Host.Disk.files] at h
    split at h
    case h_1 => cases (Prod.mk.inj h).1
    case h_2 => rw [← (Prod.mk.inj h).2]

abbrev Checker (W : Type) := Bytes → StateM W (Except CheckFault Unit)

/-- What a commit did: a write, and whether it took effect; or a check, with what stood at the site
when the checker was called and when it was done. -/
inductive Deed where
  | wrote (path content : Bytes) (done : Bool)
  | checked (path : Bytes) (found left : Standing) (verdict : Except CheckFault Unit)

/-- A world with the deeds done in it. -/
abbrev Logged (W : Type) := W × List Deed

variable {W : Type}

namespace Site

def recorder (site : Site W) : Host.Files (StateM (Logged W)) where
  isDirectory path := fun s =>
    let r := site.files.isDirectory path s.1
    (r.1, r.2, s.2)
  read path := fun s =>
    let r := site.files.read path s.1
    (r.1, r.2, s.2)
  write mode path content := fun s =>
    let r := site.files.write mode path content s.1
    (r.1, r.2, s.2 ++ [.wrote path content r.1.isOk])

def observed (site : Site W) (check : Checker W) : Checker (Logged W) := fun path s =>
  let r := check path s.1
  (r.1, r.2, s.2 ++ [.checked path (site.standing s.1) (site.standing r.2) r.1])

end Site

/-- A commit with what it found and left. -/
structure Attempt (W : Type) where
  queue : Modifier
  before : W
  result : Except ConfigFault Outcome
  deeds : List Deed
  after : W
  left : Modifier

def Site.attempt (site : Site W) (check : Checker W) (q : Modifier) (w : W) : Attempt W :=
  let r := q.commit site.recorder (site.observed check) (w, [])
  ⟨q, w, r.1.1, r.2.2, r.2.1, r.1.2⟩

namespace Attempt

/-- What the file would hold with the queued edits, where it held `former`. -/
def edited (a : Attempt W) (former : Bytes) : Bytes := Edit.applyAll a.queue.pending former

/-- The edits changed nothing: nothing was written and nothing checked. -/
structure Idle (site : Site W) (a : Attempt W) (former : Bytes) : Prop where
  found : site.standing a.before = .file former
  same : a.edited former = former
  deeds : a.deeds = []
  stands : site.standing a.after = .file former
  left : a.left = a.queue.cleared

/-- The edited content stood there for one check, which it passed. -/
structure Passed (site : Site W) (a : Attempt W) (former : Bytes) (left : Standing) : Prop where
  found : site.standing a.before = .file former
  differs : a.edited former ≠ former
  deeds : a.deeds = [.wrote site.path (a.edited former) true,
    .checked site.path (.file (a.edited former)) left (.ok ())]
  stands : site.standing a.after = left
  left : a.left = a.queue.cleared

/-- The content could not be read: nothing was written and nothing checked. -/
structure Unread (site : Site W) (a : Attempt W) (fault : Host.Fault) : Prop where
  answer : site.files.read site.path a.before = (.error fault, a.after)
  deeds : a.deeds = []
  stands : site.standing a.after = site.standing a.before
  left : a.left = a.queue

/-- The edited content could not be written: nothing was checked. -/
structure Unwritten (site : Site W) (a : Attempt W) (former : Bytes) : Prop where
  found : site.standing a.before = .file former
  differs : a.edited former ≠ former
  deeds : a.deeds = [.wrote site.path (a.edited former) false]
  stands : site.standing a.after = site.standing a.before
  left : a.left = a.queue

/-- The edited content stood there for one check, which it failed, and then the former content was to be
written back: `back` tells whether that took effect. -/
structure Rejected (site : Site W) (a : Attempt W) (fault : CheckFault) (back : Bool) (former : Bytes)
    (left : Standing) : Prop where
  found : site.standing a.before = .file former
  differs : a.edited former ≠ former
  deeds : a.deeds = [.wrote site.path (a.edited former) true,
    .checked site.path (.file (a.edited former)) left (.error fault), .wrote site.path former back]
  stands : site.standing a.after = if back then .file former else left
  left : a.left = a.queue

/-- What each result of a commit means. -/
def AllOrNothing (site : Site W) (a : Attempt W) : Prop :=
  match a.result with
  | .ok .unchanged => ∃ former, a.Idle site former
  | .ok .applied => ∃ former left, a.Passed site former left
  | .error (.read path fault) => path = site.path ∧ a.Unread site fault
  | .error (.write path _) => path = site.path ∧ ∃ former, a.Unwritten site former
  | .error (.validation path fault) =>
    path = site.path ∧ ∃ former left, a.Rejected site fault true former left
  | .error (.rollbackFailed path fault _) =>
    path = site.path ∧ ∃ former left, a.Rejected site fault false former left
  | .error (.effective _ _) | .error (.pattern _) => False

end Attempt

/-! ## One commit -/

private theorem bind_apply {σ α β : Type} (x : StateM σ α) (f : α → StateM σ β) (s : σ) :
    (x >>= f) s = f (x s).1 (x s).2 := rfl

private theorem pure_apply {σ α : Type} (a : α) (s : σ) : (pure a : StateM σ α) s = (a, s) := rfl

theorem Modifier.commit_unwritten {files : Host.Files (StateM W)} (check : Checker W) {path former : Bytes}
    {queue : List Edit} {w w₁ w₂ : W} {fault : Host.WriteFault} (hr : files.read path w = (.ok former, w₁))
    (he : Edit.applyAll queue former ≠ former)
    (hw : files.write .replace path (Edit.applyAll queue former) w₁ = (.error fault, w₂)) :
    Modifier.commit files check ⟨path, queue⟩ w = ((.error (.write path fault.fault), ⟨path, queue⟩), w₂) := by
  simp [Modifier.commit, bind_apply, pure_apply, hr, he, hw]

namespace Site

/-- The log changes nothing of a commit. -/
def Recounts (site : Site W) (check : Checker W) (a : Attempt W) : Prop :=
  a.queue.commit site.files check a.before = ((a.result, a.left), a.after)

section

variable {site : Site W} (check : Checker W) (queue : List Edit) {w w₁ w₂ w₃ w₄ : W} {former : Bytes}

theorem attempt_unread {fault : Host.Fault}
    (hr : site.files.read site.path w = (.error fault, w₁)) :
    let a : Attempt W :=
      ⟨⟨site.path, queue⟩, w, .error (.read site.path fault), [], w₁, ⟨site.path, queue⟩⟩
    site.attempt check ⟨site.path, queue⟩ w = a ∧ site.Recounts check a := by
  constructor
  · simp [attempt, Modifier.commit, bind_apply, pure_apply, recorder, hr]
  · simp [Recounts, Modifier.commit, bind_apply, pure_apply, hr]

theorem attempt_idle (hr : site.files.read site.path w = (.ok former, w₁))
    (he : Edit.applyAll queue former = former) :
    let a : Attempt W := ⟨⟨site.path, queue⟩, w, .ok .unchanged, [], w₁, ⟨site.path, []⟩⟩
    site.attempt check ⟨site.path, queue⟩ w = a ∧ site.Recounts check a := by
  constructor
  · simp [attempt, Modifier.commit, bind_apply, pure_apply, recorder, Modifier.cleared,
      hr, he]
  · simp [Recounts, Modifier.commit, bind_apply, pure_apply, Modifier.cleared, hr, he]

private theorem attempt_unwritten {fault : Host.WriteFault}
    (hr : site.files.read site.path w = (.ok former, w₁)) (he : Edit.applyAll queue former ≠ former)
    (hw : site.files.write .replace site.path (Edit.applyAll queue former) w₁ = (.error fault, w₂)) :
    let a : Attempt W := ⟨⟨site.path, queue⟩, w, .error (.write site.path fault.fault),
      [.wrote site.path (Edit.applyAll queue former) false], w₂, ⟨site.path, queue⟩⟩
    site.attempt check ⟨site.path, queue⟩ w = a ∧ site.Recounts check a := by
  constructor
  · simp [attempt, Modifier.commit, bind_apply, pure_apply, recorder, hr, he, hw,
      Except.isOk, Except.toBool]
  · exact Modifier.commit_unwritten check hr he hw

private theorem attempt_passed (hr : site.files.read site.path w = (.ok former, w₁))
    (he : Edit.applyAll queue former ≠ former)
    (hw : site.files.write .replace site.path (Edit.applyAll queue former) w₁ = (.ok (), w₂))
    (hc : check site.path w₂ = (.ok (), w₃)) :
    let a : Attempt W := ⟨⟨site.path, queue⟩, w, .ok .applied,
      [.wrote site.path (Edit.applyAll queue former) true,
        .checked site.path (site.standing w₂) (site.standing w₃) (.ok ())], w₃, ⟨site.path, []⟩⟩
    site.attempt check ⟨site.path, queue⟩ w = a ∧ site.Recounts check a := by
  constructor
  · simp [attempt, Modifier.commit, bind_apply, pure_apply, recorder, observed,
      Modifier.cleared, hr, he, hw, hc, Except.isOk, Except.toBool]
  · simp [Recounts, Modifier.commit, bind_apply, pure_apply, Modifier.cleared, hr, he, hw,
      hc]

private theorem attempt_restored {fault : CheckFault}
    (hr : site.files.read site.path w = (.ok former, w₁)) (he : Edit.applyAll queue former ≠ former)
    (hw : site.files.write .replace site.path (Edit.applyAll queue former) w₁ = (.ok (), w₂))
    (hc : check site.path w₂ = (.error fault, w₃))
    (hb : site.files.write .replace site.path former w₃ = (.ok (), w₄)) :
    let a : Attempt W := ⟨⟨site.path, queue⟩, w, .error (.validation site.path fault),
      [.wrote site.path (Edit.applyAll queue former) true,
        .checked site.path (site.standing w₂) (site.standing w₃) (.error fault),
        .wrote site.path former true], w₄, ⟨site.path, queue⟩⟩
    site.attempt check ⟨site.path, queue⟩ w = a ∧ site.Recounts check a := by
  constructor
  · simp [attempt, Modifier.commit, Modifier.restore, bind_apply, pure_apply, recorder,
      observed, hr, he, hw, hc, hb, Except.isOk, Except.toBool]
  · simp [Recounts, Modifier.commit, Modifier.restore, bind_apply, pure_apply, hr, he, hw,
      hc, hb]

private theorem attempt_stuck {fault : CheckFault} {restoring : Host.WriteFault}
    (hr : site.files.read site.path w = (.ok former, w₁)) (he : Edit.applyAll queue former ≠ former)
    (hw : site.files.write .replace site.path (Edit.applyAll queue former) w₁ = (.ok (), w₂))
    (hc : check site.path w₂ = (.error fault, w₃))
    (hb : site.files.write .replace site.path former w₃ = (.error restoring, w₄)) :
    let a : Attempt W := ⟨⟨site.path, queue⟩, w, .error (.rollbackFailed site.path fault restoring.fault),
      [.wrote site.path (Edit.applyAll queue former) true,
        .checked site.path (site.standing w₂) (site.standing w₃) (.error fault),
        .wrote site.path former false], w₄, ⟨site.path, queue⟩⟩
    site.attempt check ⟨site.path, queue⟩ w = a ∧ site.Recounts check a := by
  constructor
  · simp [attempt, Modifier.commit, Modifier.restore, bind_apply, pure_apply, recorder,
      observed, hr, he, hw, hc, hb, Except.isOk, Except.toBool]
  · simp [Recounts, Modifier.commit, Modifier.restore, bind_apply, pure_apply, hr, he, hw,
      hc, hb]

end

/-- Whatever the read, the two writes and the check come to, a commit ends in one of its ways. -/
theorem attempt_allOrNothing (site : Site W) (check : Checker W) (queue : List Edit) (w : W) :
    let a := site.attempt check ⟨site.path, queue⟩ w
    site.Recounts check a ∧ a.AllOrNothing site := by
  rcases hr : site.files.read site.path w with ⟨fault | former, w₁⟩
  · obtain ⟨ha, recounts⟩ := attempt_unread check queue hr
    rw [ha]
    exact ⟨recounts, rfl, hr, rfl, site.read_error hr, rfl⟩
  obtain ⟨found, unmoved⟩ := site.read_ok hr
  by_cases he : Edit.applyAll queue former = former
  · obtain ⟨ha, recounts⟩ := attempt_idle check queue hr he
    rw [ha]
    exact ⟨recounts, former, found, he, rfl, unmoved.trans found, rfl⟩
  rcases hw : site.files.write .replace site.path (Edit.applyAll queue former) w₁ with ⟨fault | _, w₂⟩
  · obtain ⟨ha, recounts⟩ := attempt_unwritten check queue hr he hw
    rw [ha]
    exact ⟨recounts, rfl, former, found, he, rfl, (site.write_error hw).trans unmoved, rfl⟩
  have edited := site.write_ok hw
  rcases hc : check site.path w₂ with ⟨fault | _, w₃⟩
  · rcases hb : site.files.write .replace site.path former w₃ with ⟨restoring | _, w₄⟩
    · obtain ⟨ha, recounts⟩ := attempt_stuck check queue hr he hw hc hb
      rw [edited] at ha recounts
      rw [ha]
      exact ⟨recounts, rfl, former, site.standing w₃, found, he, rfl, site.write_error hb, rfl⟩
    · obtain ⟨ha, recounts⟩ := attempt_restored check queue hr he hw hc hb
      rw [edited] at ha recounts
      rw [ha]
      exact ⟨recounts, rfl, former, site.standing w₃, found, he, rfl, site.write_ok hb, rfl⟩
  · obtain ⟨ha, recounts⟩ := attempt_passed check queue hr he hw hc
    rw [edited] at ha recounts
    rw [ha]
    exact ⟨recounts, former, site.standing w₃, found, he, rfl, rfl, rfl⟩

end Site

/-! ## Runs -/

/-- What is done with a modifier, and to the world it works in. -/
inductive Move (W : Type) where
  | queue (e : Edit)
  | commit
  /-- A change from outside, such as a rewrite or a removal of the file. -/
  | outside (change : W → W)

/-- What came of a move. -/
inductive Happening (W : Type) where
  | queued (e : Edit)
  | refused (e : Edit)
  | tried (a : Attempt W)
  | disturbed (change : W → W)

/-- The move that something came of. -/
def Happening.move : Happening W → Move W
  | .queued e | .refused e => .queue e
  | .tried _ => .commit
  | .disturbed change => .outside change

structure Run (W : Type) where
  modifier : Modifier
  world : W
  history : List (Happening W)

namespace Run

def begin (site : Site W) (w : W) : Run W := ⟨.new site.path, w, []⟩

def move (site : Site W) (check : Checker W) (s : Run W) : Move W → Run W
  | .queue e => match s.modifier.queue e with
    | .ok q => { s with modifier := q, history := s.history ++ [.queued e] }
    | .error _ => { s with history := s.history ++ [.refused e] }
  | .commit =>
    let a := site.attempt check s.modifier s.world
    ⟨a.left, a.after, s.history ++ [.tried a]⟩
  | .outside change => { s with world := change s.world, history := s.history ++ [.disturbed change] }

def moves (site : Site W) (check : Checker W) (s : Run W) (ms : List (Move W)) : Run W :=
  ms.foldl (move site check) s

/-- The queue a happening leaves: a commit that succeeds empties it, and no other does. -/
def owe (edits : List Edit) : Happening W → List Edit
  | .queued e => edits ++ [e]
  | .refused _ | .disturbed _ => edits
  | .tried a => if a.result.isOk then [] else edits

/-- The edits accepted since the last commit that succeeded. -/
def owed (history : List (Happening W)) : List Edit := history.foldl owe []

/-- The world a happening leaves. -/
def leave (w : W) : Happening W → W
  | .queued _ | .refused _ => w
  | .tried a => a.after
  | .disturbed change => change w

def reached (start : W) (history : List (Happening W)) : W := history.foldl leave start

/-- What holds of a run after some moves: each commit was of the edits owed then, in the world reached then, and went
as its result tells. -/
structure Sound (site : Site W) (check : Checker W) (start : W) (ms : List (Move W)) (s : Run W) : Prop where
  moves : s.history.map Happening.move = ms
  modifier : s.modifier = ⟨site.path, owed s.history⟩
  world : s.world = reached start s.history
  refused : ∀ e, .refused e ∈ s.history → e.fits = false
  tried : ∀ before a later, s.history = before ++ .tried a :: later →
    a.queue = ⟨site.path, owed before⟩ ∧ a.before = reached start before ∧ site.Recounts check a ∧ a.AllOrNothing site

private theorem owed_concat (history : List (Happening W)) (h : Happening W) :
    owed (history ++ [h]) = owe (owed history) h := by
  simp [owed]

private theorem reached_concat (start : W) (history : List (Happening W)) (h : Happening W) :
    reached start (history ++ [h]) = leave (reached start history) h := by
  simp [reached]

private theorem left_eq {site : Site W} {a : Attempt W} (h : a.AllOrNothing site) :
    a.left = { a.queue with pending := if a.result.isOk then [] else a.queue.pending } := by
  unfold Attempt.AllOrNothing at h
  split at h
  case h_1 hr => obtain ⟨_, h⟩ := h; rw [h.left, hr]; rfl
  case h_2 hr => obtain ⟨_, _, h⟩ := h; rw [h.left, hr]; rfl
  case h_3 hr => obtain ⟨_, h⟩ := h; rw [h.left, hr]; rfl
  case h_4 hr => obtain ⟨_, _, h⟩ := h; rw [h.left, hr]; rfl
  case h_5 hr => obtain ⟨_, _, _, h⟩ := h; rw [h.left, hr]; rfl
  case h_6 hr => obtain ⟨_, _, _, h⟩ := h; rw [h.left, hr]; rfl
  all_goals exact h.elim

private theorem tried_concat {history : List (Happening W)} {last : Happening W}
    {P : List (Happening W) → Attempt W → Prop}
    (h : ∀ before a later, history = before ++ .tried a :: later → P before a)
    (hl : ∀ a, last = .tried a → P history a) :
    ∀ before a later, history ++ [last] = before ++ .tried a :: later → P before a := by
  intro before a later he
  rcases split_append_new he with ⟨-, rfl, hlast⟩ | ⟨rest, -, hbefore⟩
  · exact hl a hlast
  · exact h before a rest hbefore

theorem move_sound {site : Site W} {check : Checker W} {start : W} {ms : List (Move W)} {s : Run W}
    (hs : s.Sound site check start ms) (m : Move W) : (s.move site check m).Sound site check start (ms ++ [m]) := by
  obtain ⟨moves, modifier, world, refused, tried⟩ := hs
  cases m with
  | queue e =>
    cases hf : e.fits with
    | true =>
      have hm : s.move site check (.queue e) =
          { s with
            modifier := ⟨site.path, owed s.history ++ [e]⟩, history := s.history ++ [.queued e] } := by
        simp [move, Modifier.queue, hf, modifier]
      rw [hm]
      refine ⟨by simp [moves, Happening.move], by rw [owed_concat]; rfl, by rw [reached_concat]; exact world, ?_,
        tried_concat tried (by simp)⟩
      simpa using refused
    | false =>
      have hm : s.move site check (.queue e) = { s with history := s.history ++ [.refused e] } := by
        simp [move, Modifier.queue, hf]
      rw [hm]
      refine ⟨by simp [moves, Happening.move], by rw [owed_concat]; exact modifier,
        by rw [reached_concat]; exact world, fun d hd => ?_, tried_concat tried (by simp)⟩
      rcases List.mem_append.mp hd with hd | hd
      · exact refused d hd
      · obtain rfl := Happening.refused.inj (List.mem_singleton.mp hd)
        exact hf
  | commit =>
    obtain ⟨recounts, sound⟩ := site.attempt_allOrNothing check (owed s.history) s.world
    rw [← modifier] at recounts sound
    refine ⟨by simp [move, moves, Happening.move], ?_, by rw [move, reached_concat]; rfl, by simpa [move] using refused,
      ?_⟩
    · have left := left_eq sound
      simpa only [move, owed_concat, owe, left] using by
        simp only [Site.attempt, modifier]
    · refine tried_concat tried ?_
      rintro a ⟨rfl⟩
      exact ⟨modifier, world, recounts, sound⟩
  | outside change =>
    refine ⟨by simp [move, moves, Happening.move], by rw [move, owed_concat]; exact modifier, ?_,
      by simpa [move] using refused, tried_concat tried (by simp)⟩
    rw [move, reached_concat, ← world]
    rfl

/-- From any state of the path, after any moves, with any checker. -/
theorem moves_allOrNothing (site : Site W) (check : Checker W) (w : W) (ms : List (Move W)) :
    ((begin site w).moves site check ms).Sound site check w ms := by
  suffices h : ∀ (done : List (Move W)) (s : Run W), s.Sound site check w done →
      (s.moves site check ms).Sound site check w (done ++ ms) from
    h [] _ ⟨rfl, rfl, rfl, by simp [begin], by simp [begin]⟩
  induction ms with
  | nil => exact fun done s hs => by rwa [List.append_nil]
  | cons m ms ih =>
    intro done s hs
    have hall := ih (done ++ [m]) _ (move_sound hs m)
    rwa [List.append_assoc] at hall

def results (s : Run W) : List (Except ConfigFault Outcome) :=
  s.history.filterMap fun
    | .tried a => some a.result
    | _ => none

private def loginSite : Site Host.Disk := .ofDisk (Utf8.encode "/sshd_config")

private def loginDisk : Host.Disk :=
  Host.Disk.addFile ⟨[], []⟩ [Utf8.encode "sshd_config"] (Utf8.encode "PermitRootLogin yes\n") 0o644

private def wantsLogin : Checker Host.Disk := fun path d =>
  match d.read path with
  | .ok content =>
    if occursIn (Utf8.encode "PermitRootLogin no\n") content then (.ok (), d) else (.error (.complaint "login"), d)
  | .error _ => (.error (.complaint "unread"), d)

/-- A commit that is refused, one that goes through with one more edit, one of what is there already, and one of a file
that was removed. -/
private def loginMoves : List (Move Host.Disk) :=
  [.queue ⟨.only, "Port", "2222"⟩, .commit, .queue ⟨.only, "PermitRootLogin", "no"⟩, .commit,
    .queue ⟨.add, "Port", "2222"⟩, .commit, .outside fun _ => ⟨[], []⟩, .queue ⟨.add, "Port", "22"⟩, .commit]

theorem moves_allOrNothing_on_disk :
    ((begin loginSite loginDisk).moves loginSite wantsLogin loginMoves).Sound loginSite wantsLogin loginDisk loginMoves ∧
    results ((begin loginSite loginDisk).moves loginSite wantsLogin loginMoves) =
      [.error (.validation loginSite.path (.complaint "login")), .ok .applied, .ok .unchanged,
        .error (.read loginSite.path .noEntry)] ∧
    loginSite.standing ((begin loginSite loginDisk).moves loginSite wantsLogin (loginMoves.take 4)).world =
      .file (Utf8.encode "PermitRootLogin no\nPort 2222\n") :=
  ⟨moves_allOrNothing loginSite wantsLogin loginDisk loginMoves, by decide +kernel, by decide +kernel⟩

end Run

end SshAuthority.Config

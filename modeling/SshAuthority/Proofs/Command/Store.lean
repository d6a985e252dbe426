import SshAuthority.Command.Store
import SshAuthority.Proofs.Host.Scene
import SshAuthority.Proofs.Text.Search
/-!
# Adding a line to a file

A line whose text stands in a file already is not added again. Adding it otherwise puts it at the end, and adding
it once more finds it there.
-/
namespace SshAuthority

namespace Config

namespace Standing

/-- What stands there is as it was, or has been added to at the end. -/
def Extends (s s' : Standing) : Prop := s' = s ∨ ∃ former more, s.content? = some former ∧ s' = .file (former ++ more)

theorem Extends.refl (s : Standing) : s.Extends s := .inl rfl

def Holds (s : Standing) (text : Bytes) : Prop := ∃ content, s = .file content ∧ text <:+: content

end Standing

end Config

namespace Command
open Config (Standing occursIn occursIn_iff)
open Host (Act Scene bind_eq_some pure_eq_some)

/-! ## What becomes of the file -/

/-- What stands at a path once a line was added there. -/
def withLine (entry : Bytes) (s : Standing) : Standing :=
  match s.content? with
  | none => s
  | some former =>
    if occursIn (lineText entry) former then s else .file (former ++ addition former (lineText entry))

def StoreFault.ofAppend (path : Bytes) : Host.WriteFault → StoreFault
  | .opening fault => .openToAppend path fault
  | .storing fault => .append path fault

/-- Adding a line to a file ends in one of four ways, told by what stands there before and after, what is
done, and the result. -/
inductive Added (path entry : Bytes) : Standing → Standing → List Act → Except StoreFault Bool → Prop
  | unread {s} (fault : Host.Fault) : Added path entry s s [.read path (some fault)] (.error (.read path fault))
  | present {s former} (hs : s.content? = some former) (h : lineText entry <:+: former) :
    Added path entry s s [.read path s.missing?] (.ok false)
  | unwritten {s s' former} (fault : Host.WriteFault) (hs : s.content? = some former)
    (h : ¬lineText entry <:+: former) (h' : s' = s ∨ s = .absent ∧ s' = .file []) :
    Added path entry s s'
      [.read path s.missing?, .wrote .append path (addition former (lineText entry)) (some fault)]
      (.error (.ofAppend path fault))
  | added {s former} (hs : s.content? = some former) (h : ¬lineText entry <:+: former) :
    Added path entry s (.file (former ++ addition former (lineText entry)))
      [.read path s.missing?, .wrote .append path (addition former (lineText entry)) none] (.ok true)

variable {entry former path : Bytes} {s s' : Standing} {acts : List Act}

theorem lineText_eq_self {entry : Bytes} (h : entry.getLast? ≠ some newline) : lineText entry = entry := if_neg h

theorem lineText_infix_added (former entry : Bytes) :
    lineText entry <:+: former ++ addition former (lineText entry) := by
  refine ⟨former ++ if former.isEmpty || former.getLast? = some newline then [] else [newline], [newline], ?_⟩
  simp only [addition, List.append_assoc]

theorem withLine_of_contains (hs : s.content? = some former) (h : lineText entry <:+: former) :
    withLine entry s = s := by
  simp only [withLine, hs, occursIn_iff.mpr h, if_true]

theorem withLine_of_lacks (hs : s.content? = some former) (h : ¬lineText entry <:+: former) :
    withLine entry s = .file (former ++ addition former (lineText entry)) := by
  simp only [withLine, hs, occursIn_iff, h, if_false]

namespace Added

variable {result : Except StoreFault Bool} {done : Bool} {fault : StoreFault}

theorem eq_withLine (h : Added path entry s s' acts (.ok done)) : s' = withLine entry s := by
  cases h with
  | present hs h => exact (withLine_of_contains hs h).symm
  | added hs h => exact (withLine_of_lacks hs h).symm

/-- Whatever an attempt leaves, adding the line again makes of it what it would have made before. -/
theorem withLine_eq (h : Added path entry s s' acts result) : withLine entry s' = withLine entry s := by
  cases h with
  | unread | present => rfl
  | unwritten _ hs h h' =>
    rcases h' with rfl | ⟨rfl, rfl⟩
    · rfl
    · obtain rfl := Option.some.inj hs
      rw [withLine_of_lacks hs h, withLine_of_lacks (s := .file []) rfl h]
  | added hs h => rw [withLine_of_lacks hs h, withLine_of_contains (s := .file _) rfl (lineText_infix_added _ _)]

theorem extended (h : Added path entry s s' acts result) : s.Extends s' := by
  cases h with
  | unread | present => exact .refl s
  | unwritten _ hs _ h' =>
    rcases h' with rfl | ⟨rfl, rfl⟩
    · exact .refl _
    · exact .inr ⟨[], [], rfl, rfl⟩
  | added hs => exact .inr ⟨_, _, hs, rfl⟩

theorem holds (h : Added path entry s s' acts (.ok done)) (he : lineText entry ≠ []) :
    s'.Holds (lineText entry) := by
  cases h with
  | present hs h =>
    cases s with
    | absent =>
      obtain rfl := Option.some.inj hs
      exact absurd (List.infix_nil.mp h) he
    | directory => cases hs
    | file content =>
      obtain rfl := Option.some.inj hs
      exact ⟨_, rfl, h⟩
  | added hs h => exact ⟨_, rfl, lineText_infix_added _ _⟩

theorem of_holds (hh : s.Holds (lineText entry)) (h : Added path entry s s' acts result) :
    s' = s ∧ ∃ fault, acts = [.read path fault] := by
  obtain ⟨content, rfl, hi⟩ := hh
  cases h with
  | unread | present => exact ⟨rfl, _, rfl⟩
  | unwritten _ hs h => exact absurd hi (Option.some.inj hs ▸ h)
  | added hs h => exact absurd hi (Option.some.inj hs ▸ h)

end Added

/-! ## Adding a line on a scene -/

variable {W : Type} {scene : Scene W} {w w' : W} {result : Except StoreFault Bool}

private theorem addTo_added (hp : scene.watches path) (hs : (scene.standing path w).content? = some former)
    (h : addLine.addTo scene.host.toFiles path former (lineText entry) w = some (result, w')) :
    ∃ acts, Added path entry (scene.standing path w) (scene.standing path w')
        (.read path (scene.standing path w).missing? :: acts) result ∧ scene.Touches path acts w w' := by
  unfold addLine.addTo at h
  split at h
  case isTrue ho =>
    obtain ⟨rfl, rfl⟩ := pure_eq_some.mp h
    exact ⟨[], .present hs (occursIn_iff.mp ho), (Host.View.Leaves.refl w).touches path⟩
  case isFalse ho =>
    rw [occursIn_iff] at ho
    obtain ⟨answer, v, hw, h⟩ := bind_eq_some.mp h
    have touched := scene.write hp hw
    cases answer with
    | ok _ =>
      obtain ⟨rfl, rfl⟩ := pure_eq_some.mp h
      obtain ⟨found, hfound, stored⟩ := scene.write_ok hp hw
      obtain rfl := Option.some.inj (hs.symm.trans hfound)
      rw [stored]
      exact ⟨_, .added hs ho, touched⟩
    | error fault =>
      have h' := scene.append_error hp hw
      cases fault <;>
      · obtain ⟨rfl, rfl⟩ := pure_eq_some.mp h
        exact ⟨_, .unwritten _ hs ho h', touched⟩

theorem addLine_added (hp : scene.watches path)
    (h : addLine scene.host.toFiles path entry w = some (result, w')) :
    ∃ acts, Added path entry (scene.standing path w) (scene.standing path w') acts result ∧
      scene.Touches path acts w w' := by
  obtain ⟨answer, v, hr, h⟩ := bind_eq_some.mp h
  have left := scene.read hr
  have same := left.same path hp
  have added : ∀ former, (scene.standing path w).content? = some former →
      Host.fault? answer = (scene.standing path w).missing? →
      addLine.addTo scene.host.toFiles path former (lineText entry) v = some (result, w') →
      ∃ acts, Added path entry (scene.standing path w) (scene.standing path w') acts result ∧
        scene.Touches path acts w w' := by
    intro former hs hm h
    obtain ⟨acts, ha, ht⟩ := addTo_added hp (same ▸ hs) h
    rw [hm] at left
    exact ⟨_, same ▸ ha, (left.touches path).trans ht⟩
  cases answer with
  | ok former =>
    have found := scene.read_ok hp hr
    exact added former (by rw [found]; rfl) (by rw [found]; rfl) h
  | error fault =>
    dsimp only at h
    split at h
    case isTrue hn =>
      subst hn
      have found := scene.read_missing hp hr
      exact added [] (by rw [found]; rfl) (by rw [found]; rfl) h
    case isFalse =>
      obtain ⟨rfl, rfl⟩ := pure_eq_some.mp h
      exact ⟨_, same ▸ .unread fault, left.touches path⟩

theorem addLine_returns (hp : scene.Prompt) (path entry : Bytes) :
    Host.Returns (addLine scene.host.toFiles path entry) := by
  have added : ∀ former, Host.Returns (addLine.addTo scene.host.toFiles path former (lineText entry)) := by
    intro former
    unfold addLine.addTo
    split
    · exact .pure _
    · refine (hp.write _ _ _).bind fun answer => ?_
      split <;> exact .pure _
  refine (hp.read path).bind fun answer => ?_
  split
  · exact added _
  · split
    · exact added _
    · exact .pure _

theorem addLine_again (hr : scene.Readable) (hp : scene.watches path)
    (hs : (scene.standing path w).Holds (lineText entry))
    (h : addLine scene.host.toFiles path entry w = some (result, w')) : result = .ok false := by
  obtain ⟨content, hs, hi⟩ := hs
  obtain ⟨answer, v, ha, h⟩ := bind_eq_some.mp h
  obtain rfl := hr hp hs ha
  dsimp only at h
  rw [addLine.addTo, if_pos (occursIn_iff.mpr hi)] at h
  exact (pure_eq_some.mp h).1.symm

end Command

end SshAuthority

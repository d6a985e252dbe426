import SshAuthority.Host.Disk
/-!
# Writing to a disk and reading it back

A write on a disk either leaves the disk as it was, or puts a file with the written content where its
path leads, and then the path still leads there.
-/
namespace SshAuthority.Host.Disk

private theorem lookup_entry (place p : Place) (e : Entry) (rest : List (Place × Entry)) :
    ((place, e) :: rest).lookup p = if p = place then some e else rest.lookup p := by
  by_cases hp : p = place
  · simp [hp]
  · have hb : (p == place) = false := beq_false_of_ne hp
    simp [List.lookup_cons, hb, hp]

private theorem lookup_setIn (place p : Place) (e : Entry) (entries : List (Place × Entry)) :
    (setIn place e entries).lookup p = if p = place then some e else entries.lookup p := by
  induction entries with
  | nil => simp [setIn, lookup_entry]
  | cons first rest ih =>
    obtain ⟨q, old⟩ := first
    by_cases hq : q = place
    · subst q
      by_cases hp : p = place <;> simp [setIn, lookup_entry, hp]
    · by_cases hp : p = place
      · subst p
        simp [setIn, lookup_entry, hq, Ne.symm hq, ih]
      · simp only [setIn, hq, if_false, lookup_entry, ih, hp]

theorem entry?_set (d : Disk) {place : Place} (hn : place ≠ []) (e : Entry) (p : Place) :
    entry? (d.set place e) p = if p = place then some e else d.entry? p := by
  unfold entry?
  by_cases hp : p = []
  · subst p
    simp [Ne.symm hn]
  · simp [set, lookup_setIn, hp]

private theorem enter_set {d : Disk} {place p q : Place} {name : Bytes} (e : Entry)
    (hd : d.entry? place ≠ some .directory) (h : d.enter p name = .ok q) :
    (d.set place e).enter p name = .ok q := by
  have hn : place ≠ [] := by
    rintro rfl
    exact hd rfl
  by_cases hp : p = place
  · subst p
    unfold enter at h
    split at h
    · cases h
    · cases h
    · rename_i hdir
      exact absurd hdir hd
  · rw [enter, entry?_set d hn, if_neg hp]
    exact h

private theorem walk_set {d : Disk} {place : Place} (e : Entry)
    (hd : d.entry? place ≠ some .directory) (names : List Bytes) {p q : Place}
    (h : d.walk p names = .ok q) : (d.set place e).walk p names = .ok q := by
  induction names generalizing p with
  | nil => exact h
  | cons name rest ih =>
    rw [walk] at h ⊢
    rcases hr : d.enter p name with fault | r
    · rw [hr] at h
      cases h
    · rw [hr] at h
      rw [enter_set e hd hr]
      exact ih h

theorem locate_of_openPlace {d : Disk} {path : Bytes} {place : Place}
    (h : d.openPlace path = .ok place) :
    ∃ first, d.start path = .ok first ∧ d.walk first (Path.segments path) = .ok place := by
  unfold openPlace at h
  rcases hs : d.start path with fault | first
  · rw [hs] at h
    cases h
  · rw [hs] at h
    refine ⟨first, rfl, ?_⟩
    simp only [bind, Except.bind] at h
    split at h
    · split at h
      · cases h
      · split at h <;> cases h
    · exact h

theorem look_set {d : Disk} {path : Bytes} {place : Place} (e : Entry)
    (ho : d.openPlace path = .ok place) (hd : d.entry? place ≠ some .directory) :
    (d.set place e).look path = .ok e := by
  have hn : place ≠ [] := by
    rintro rfl
    exact hd rfl
  obtain ⟨first, hs, hw⟩ := locate_of_openPlace ho
  have hs' : (d.set place e).start path = .ok first := hs
  simp [look, locate, bind, Except.bind, hs', walk_set e hd _ hw, entry?_set d hn]

theorem openPlace_set {d : Disk} {path : Bytes} {place : Place} (e : Entry)
    (ho : d.openPlace path = .ok place) (hd : d.entry? place ≠ some .directory) :
    (d.set place e).openPlace path = .ok place := by
  unfold openPlace at ho ⊢
  rcases hs : d.start path with fault | first
  · rw [hs] at ho
    cases ho
  · have hs' : (d.set place e).start path = .ok first := hs
    rw [hs] at ho
    rw [hs']
    simp only [bind, Except.bind] at ho ⊢
    split at ho
    case isTrue =>
      split at ho
      · cases ho
      · split at ho <;> cases ho
    case isFalse ha =>
      rw [if_neg ha]
      exact walk_set e hd _ ho

theorem look_write {d next : Disk} {mode : WriteMode} {path content : Bytes} (hm : mode ≠ .append)
    (h : d.write mode path content = .ok next) : ∃ bits, next.look path = .ok (.file content bits) := by
  unfold write at h
  rcases ho : d.openPlace path with fault | place
  · rw [ho] at h
    cases h
  · simp only [ho] at h
    rcases he : d.entry? place with _ | ⟨old, bits⟩ | _
    · simp only [he, Except.ok.injEq] at h
      subst h
      exact ⟨permissions mode, look_set _ ho (by simp [he])⟩
    · simp only [he, if_neg hm, Except.ok.injEq] at h
      subst h
      exact ⟨bits, look_set _ ho (by simp [he])⟩
    · simp [he] at h

theorem write_other {d next : Disk} {path content : Bytes} (h : d.write .replace path content = .ok next)
    (other : Bytes) : ∃ next', d.write .replace path other = .ok next' := by
  unfold write at h ⊢
  rcases ho : d.openPlace path with fault | place
  · rw [ho] at h
    cases h
  · simp only [ho] at h ⊢
    rcases he : d.entry? place with _ | ⟨former, bits⟩ | _
    · exact ⟨_, rfl⟩
    · exact ⟨_, rfl⟩
    · simp [he] at h

theorem read_write {d next : Disk} {path content : Bytes} (h : d.write .replace path content = .ok next) :
    next.read path = .ok content := by
  obtain ⟨bits, hl⟩ := look_write (by decide) h
  simp [read, hl, bind, Except.bind]

theorem read_eq_ok {d : Disk} {path content : Bytes} (h : d.read path = .ok content) :
    ∃ bits, d.look path = .ok (.file content bits) := by
  unfold read at h
  rcases hl : d.look path with fault | ⟨found, bits⟩ | _
  · simp [hl, bind, Except.bind] at h
  · simp only [hl, bind, Except.bind, Except.ok.injEq] at h
    exact ⟨bits, by rw [h]⟩
  · simp [hl, bind, Except.bind] at h

/-! ## Paths that can be opened -/

/-- A path leads to a file with some content, or to where there is nothing yet and a file can be made. -/
inductive Offers (d : Disk) (path : Bytes) : Option Bytes → Prop
  | file {place content bits} (opens : d.openPlace path = .ok place)
    (stands : d.entry? place = some (.file content bits)) : Offers d path (some content)
  | nothing {place} (opens : d.openPlace path = .ok place) (free : d.entry? place = none) : Offers d path none

namespace Offers

variable {d : Disk} {path : Bytes} {file : Option Bytes}

private theorem look_eq {place : Place} (ho : d.openPlace path = .ok place) :
    d.look path = match d.entry? place with
      | some e => .ok e
      | none => .error .noEntry := by
  obtain ⟨first, hs, hw⟩ := locate_of_openPlace ho
  cases he : d.entry? place <;> simp [look, locate, hs, hw, he, bind, Except.bind]

/-- A file that is put where a path leads is what the path leads to. -/
theorem set {place : Place} (ho : d.openPlace path = .ok place) (hd : d.entry? place ≠ some .directory)
    (content : Bytes) (bits : Nat) : (d.set place (.file content bits)).Offers path (some content) := by
  have hn : place ≠ [] := by
    rintro rfl
    exact hd rfl
  have stands : entry? (d.set place (.file content bits)) place = some (.file content bits) := by
    rw [entry?_set d hn, if_pos rfl]
  exact .file (openPlace_set _ ho hd) stands

theorem read (h : d.Offers path file) : d.read path = match file with
    | some content => .ok content
    | none => .error .noEntry := by
  cases h with
  | file opens stands => simp [Disk.read, look_eq opens, stands, bind, Except.bind]
  | nothing opens free => simp [Disk.read, look_eq opens, free, bind, Except.bind]

theorem append (h : d.Offers path file) (content : Bytes) : ∃ next, d.write .append path content = .ok next ∧
    next.Offers path (some (file.getD [] ++ content)) := by
  cases h with
  | @file place old bits opens stands =>
    have hd : d.entry? place ≠ some .directory := by simp [stands]
    exact ⟨d.set place (.file (old ++ content) bits), by simp [write, opens, stands], set opens hd _ _⟩
  | @nothing place opens free =>
    have hd : d.entry? place ≠ some .directory := by simp [free]
    exact ⟨d.set place (.file content (permissions .append)), by simp [write, opens, free], set opens hd _ _⟩

end Offers

end SshAuthority.Host.Disk

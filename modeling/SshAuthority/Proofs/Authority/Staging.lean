import SshAuthority.Proofs.Authority.Step
/-!
# Directories of their own

A call stages its key, and finds its certificate, in a directory that was fresh when it got it. A step of
another call changes nothing there.
-/
namespace SshAuthority.Authority.Session

/-! ## Looking up a directory -/

theorem path_of_staging? {s : Session} {p : Bytes} {d : Staging} (h : s.staging? p = some d) : d.path = p := by
  simpa using List.find?_some h

theorem staging?_updated {s t : Session} {path : Bytes} {f : Staging → Staging}
    (ht : t.directories = (s.updateStaging path f).directories) (hf : ∀ d, (f d).path = d.path) (p : Bytes) :
    t.staging? p = (s.staging? p).map fun d => if p = path then f d else d := by
  have hp : ∀ d : Staging, (if d.path == path then f d else d).path = d.path := by
    intro d
    split
    · exact hf d
    · rfl
  simp only [staging?, ht, updateStaging, List.find?_map, Function.comp_def, hp]
  apply Option.map_congr
  intro d hd
  have he : d.path = p := path_of_staging? hd
  simp [he]

theorem staging?_kept {s t : Session} {path p : Bytes} {f : Staging → Staging} (hp : p ≠ path)
    (ht : t.directories = (s.updateStaging path f).directories) (hf : ∀ d, (f d).path = d.path) :
    t.staging? p = s.staging? p := by
  rw [staging?_updated ht hf]
  simp [hp]

theorem staging?_added {s t : Session} {d : Staging} (hd : s.staging? d.path = none)
    (ht : t.directories = s.directories ++ [d]) (p : Bytes) :
    t.staging? p = if p = d.path then some d else s.staging? p := by
  rw [staging?, ht, List.find?_append, ← staging?]
  by_cases hp : p = d.path
  · subst hp
    simp [hd]
  · simp [hp, Ne.symm hp]

theorem staging?_removed {s t : Session} {path p : Bytes} (hp : p ≠ path)
    (ht : t.directories = s.directories.filter (·.path != path)) : t.staging? p = s.staging? p := by
  rw [staging?, ht, List.find?_filter, staging?]
  congr 1
  funext d
  by_cases hd : d.path = p
  · simp [hd, hp]
  · simp [hd]

/-- No step changes a directory but a step of a call that has it. -/
theorem staging?_of_moves {s next : Session} {e : Event} (hm : s.Moves e next) {d : Bytes}
    (hd : s.staging? d ≠ none)
    (hn : ∀ i c, e.call? = some i → s.calls[i]? = some c → c.phase.directory? ≠ some d) :
    next.staging? d = s.staging? d := by
  cases hm with
  | @makeDirectory i c path call phase fresh =>
    have hp : d ≠ path := by
      rintro rfl
      exact hd fresh
    exact (staging?_added (d := ⟨path, none, .error .noEntry⟩) fresh rfl d).trans (if_neg hp)
  | @stage i c path call phase =>
    have hp : d ≠ path := by
      rintro rfl
      exact hn i c rfl call (by rw [phase]; rfl)
    exact staging?_kept hp rfl fun _ => rfl
  | @finish i c path outcome call phase =>
    have hp : d ≠ path := by
      rintro rfl
      exact hn i c rfl call (by rw [phase]; rfl)
    exact staging?_kept hp rfl fun _ => rfl
  | @removeDirectory i c path result call phase =>
    have hp : d ≠ path := by
      rintro rfl
      exact hn i c rfl call (by rw [phase]; rfl)
    exact staging?_removed hp rfl
  | _ => rfl

theorem exists_fresh (s : Session) : ∃ path, s.staging? path = none := by
  let paths := s.directories.map (·.path)
  refine ⟨0 :: paths.flatten, List.find?_eq_none.mpr fun d hd he => ?_⟩
  have hl : d.path.length ≤ paths.flatten.length :=
    (List.sublist_flatten_of_mem (List.mem_map_of_mem hd)).length_le
  rw [beq_iff_eq.mp he, List.length_cons] at hl
  omega

/-! ## What happens in a run -/

/-- The events of a run that can happen when it is their turn. -/
def happened (s : Session) : List Event → List Event
  | [] => []
  | e :: es => match s.step? e with
    | some next => e :: next.happened es
    | none => s.happened es

/-- How the system fails the staging of a call's key, if it does so at this event. -/
def Event.stagingFault? (i : Nat) : Event → Option Host.Fault
  | .makeDirectory j (.error fault) | .stage j (.error fault) => if j = i then some fault else none
  | _ => none

/-- How the system failed the staging of a call's key. -/
def stagingFault? (s : Session) (events : List Event) (i : Nat) : Option Host.Fault :=
  (s.happened events).findSome? (Event.stagingFault? i)

theorem happened_append (s : Session) (es later : List Event) :
    s.happened (es ++ later) = s.happened es ++ (s.run es).happened later := by
  induction es generalizing s with
  | nil => rfl
  | cons e es ih =>
    rw [List.cons_append, happened, happened, run_cons, step]
    rcases s.step? e with _ | next
    · exact ih s
    · simp [ih]

theorem mem_of_mem_happened {s : Session} {events : List Event} {e : Event} (h : e ∈ s.happened events) :
    e ∈ events := by
  induction events generalizing s with
  | nil => simp [happened] at h
  | cons e' es ih =>
    rw [happened] at h
    rcases hs : s.step? e' with _ | next <;> rw [hs] at h
    · exact List.mem_cons_of_mem _ (ih h)
    · rcases List.mem_cons.mp h with rfl | h
      · exact List.mem_cons_self
      · exact List.mem_cons_of_mem _ (ih h)

theorem stagingFault?_of_quiet (s : Session) (events : List Event) {more : List Event} {i : Nat}
    (h : ∀ e ∈ more, e.stagingFault? i = none) : s.stagingFault? (events ++ more) i = s.stagingFault? events i := by
  have hmore : ((s.run events).happened more).findSome? (Event.stagingFault? i) = none :=
    List.findSome?_eq_none_iff.mpr fun e he => h e (mem_of_mem_happened he)
  rw [stagingFault?, happened_append, List.findSome?_append, hmore, Option.or_none, stagingFault?]

theorem Event.stagingFault?_of_ne {e : Event} {i : Nat} (h : e.call? ≠ some i) :
    e.stagingFault? i = none := by
  unfold stagingFault?
  split
  case h_1 => exact if_neg fun hj => h (congrArg some hj)
  case h_2 => exact if_neg fun hj => h (congrArg some hj)
  case h_3 => rfl

theorem stagingFault?_append {e : Event} {i : Nat} (h : e.stagingFault? i = none) (t : List Event) :
    (t ++ [e]).findSome? (Event.stagingFault? i) = t.findSome? (Event.stagingFault? i) := by
  simp [List.findSome?_append, h]

theorem stagingFault?_append_of_none {e : Event} {i : Nat} {t : List Event}
    (h : t.findSome? (Event.stagingFault? i) = none) :
    (t ++ [e]).findSome? (Event.stagingFault? i) = e.stagingFault? i := by
  simp [List.findSome?_append, h]

end SshAuthority.Authority.Session

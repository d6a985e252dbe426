import SshAuthority.Proofs.Host.Disk
import SshAuthority.Proofs.Host.Path
import SshAuthority.Proofs.Host.Scene
/-!
# A disk as a scene

The files on a disk are watched at the paths that lead from the root by names only. Such a path leads to one place,
so a write at one of them leaves what stands at the others. Programs and the other side of connections are functions.
-/
namespace SshAuthority.Host
open Config (Standing)
open Connection (ClientFault)
open Path (IsName segments isIdle up components joinSegments)

def isPlain (path : Bytes) : Bool :=
  match segments path with
  | [] :: names => !names.isEmpty && names.all fun n => !isIdle n && n != up
  | _ => false

theorem names_of_isPlain {path : Bytes} (h : isPlain path = true) :
    ∃ names, segments path = [] :: names ∧ names ≠ [] ∧ ∀ n ∈ names, IsName n := by
  unfold isPlain at h
  split at h
  case h_1 names hs =>
    rw [Bool.and_eq_true, List.all_eq_true] at h
    refine ⟨names, hs, by simpa using h.1, fun n hn => ?_⟩
    have hfree : Path.slash ∉ n := Path.slash_not_mem_segments (by rw [hs]; exact List.mem_cons_of_mem _ hn)
    have hname := h.2 n hn
    rw [Bool.and_eq_true] at hname
    exact ⟨hfree, by simpa using hname.1, by simpa using hname.2⟩
  case h_2 => cases h

private theorem components_of_names {path : Bytes} {names : List Bytes} (hs : segments path = [] :: names)
    (hne : names ≠ []) (hn : ∀ n ∈ names, IsName n) : components path = .root :: names.map .name := by
  have named : Path.named names = names.map .name := by
    rw [Path.named, List.filter_eq_self.mpr fun n h => by simp [(hn n h).not_idle]]
    exact List.map_congr_left fun n h => by simp [(hn n h).ne_up]
  rw [← named, components, Path.parts, hs]
  simp [hne, Path.named]

theorem isPlain_apart {p q : Bytes} (hp : isPlain p = true) (hq : isPlain q = true)
    (h : components p = components q) : p = q := by
  obtain ⟨names, hs, hne, hn⟩ := names_of_isPlain hp
  obtain ⟨names', hs', hne', hn'⟩ := names_of_isPlain hq
  rw [components_of_names hs hne hn, components_of_names hs' hne' hn'] at h
  have hnames : names = names' := (List.map_inj_right fun _ _ => Path.Component.name.inj).mp (List.cons.inj h).2
  rw [← Path.joinSegments_segments p, ← Path.joinSegments_segments q, hs, hs', hnames]

namespace Disk

/-! ## Where plain paths lead -/

private theorem enter_name {d : Disk} {place next : Place} {n : Bytes} (hn : IsName n)
    (h : d.enter place n = .ok next) : next = place ++ [n] := by
  unfold enter at h
  split at h
  · cases h
  · cases h
  · rw [if_neg (by simp [hn.not_idle]), if_neg hn.ne_up] at h
    split at h
    · cases h
    · exact (Except.ok.inj h).symm

theorem walk_names {d : Disk} {place q : Place} {names : List Bytes} (hn : ∀ n ∈ names, IsName n)
    (h : d.walk place names = .ok q) : q = place ++ names := by
  induction names generalizing place with
  | nil => simpa [walk] using h.symm
  | cons n names ih =>
    rw [walk] at h
    rcases he : d.enter place n with fault | next
    · rw [he] at h
      cases h
    · rw [he] at h
      obtain rfl := enter_name (hn n List.mem_cons_self) he
      rw [ih (fun m hm => hn m (List.mem_cons_of_mem _ hm)) h]
      simp

private theorem start_plain {d : Disk} {path : Bytes} {first : Place} {names : List Bytes}
    (hs : segments path = [] :: names) (hne : names ≠ []) (h : d.start path = .ok first) : first = [] := by
  have hp : path = Path.slash :: joinSegments names := by
    rw [← Path.joinSegments_segments path, hs, Path.joinSegments_cons _ hne]
    rfl
  unfold start at h
  split at h
  · cases h
  · split at h
    · cases h
    · split at h
      · cases h
      · rw [hp, List.head?_cons, if_pos rfl] at h
        exact (Except.ok.inj h).symm

private theorem enter_root (d : Disk) : d.enter [] [] = .ok [] := rfl

/-- A plain path that leads somewhere leads to its names. -/
theorem openPlace_plain {d : Disk} {path : Bytes} {place : Place} {names : List Bytes}
    (hs : segments path = [] :: names) (hne : names ≠ []) (hn : ∀ n ∈ names, IsName n)
    (h : d.openPlace path = .ok place) : place = names := by
  obtain ⟨first, hfirst, hw⟩ := locate_of_openPlace h
  obtain rfl := start_plain hs hne hfirst
  rw [hs, walk, enter_root] at hw
  exact walk_names hn hw

private def found (d : Disk) (place : Place) (names : List Bytes) : Standing :=
  .ofLook do
    match d.entry? (← d.walk place names) with
    | some e => .ok e
    | none => .error .noEntry

private theorem found_cons (d : Disk) (place : Place) (n : Bytes) (names : List Bytes) :
    d.found place (n :: names) = match d.enter place n with
      | .error _ => .absent
      | .ok next => d.found next names := by
  rw [found, walk]
  cases d.enter place n <;> rfl

private theorem found_congr {d d' : Disk} {spot : Place} (hd : d.entry? spot ≠ some .directory)
    (hd' : d'.entry? spot ≠ some .directory) (same : ∀ p, p ≠ spot → d'.entry? p = d.entry? p)
    {place : Place} {names : List Bytes} (hn : ∀ n ∈ names, IsName n) (hne : place ++ names ≠ spot) :
    d'.found place names = d.found place names := by
  have closed : ∀ {e : Disk} (n : Bytes), e.entry? spot ≠ some .directory → ∃ fault, e.enter spot n = .error fault := by
    intro e n he
    unfold enter
    split
    · exact ⟨_, rfl⟩
    · exact ⟨_, rfl⟩
    · contradiction
  induction names generalizing place with
  | nil =>
    have hp := same place (by simpa using hne)
    simp only [found, walk, bind, Except.bind, hp]
  | cons n names ih =>
    rw [found_cons, found_cons]
    by_cases hp : place = spot
    · subst hp
      obtain ⟨_, h⟩ := closed n hd
      obtain ⟨_, h'⟩ := closed n hd'
      rw [h, h']
    · have henter : d'.enter place n = d.enter place n := by rw [enter, enter, same place hp]
      rw [henter]
      rcases he : d.enter place n with fault | next
      · rfl
      · obtain rfl := enter_name (hn n List.mem_cons_self) he
        exact ih (fun m hm => hn m (List.mem_cons_of_mem _ hm)) (by simpa using hne)

private theorem ofLook_look {d : Disk} {path : Bytes} {names : List Bytes} (hs : segments path = [] :: names)
    (hne : names ≠ []) : Standing.ofLook (d.look path) = match d.start path with
      | .error _ => .absent
      | .ok _ => d.found [] names := by
  rcases hf : d.start path with fault | first
  · rw [look, locate, hf]
    rfl
  · obtain rfl := start_plain hs hne hf
    have hw : d.found [] names = d.found [] ([] :: names) := by rw [found_cons, enter_root]
    dsimp only
    rw [hw, look, locate, hf, hs]
    rfl

/-! ## Writing -/

theorem write_eq_ok {d next : Disk} {mode : WriteMode} {path content : Bytes}
    (h : d.write mode path content = .ok next) : ∃ place former bits, d.openPlace path = .ok place ∧
      d.entry? place ≠ some .directory ∧ (Standing.ofLook (d.look path)).content? = some former ∧
      next = d.set place (.file (mode.stored former content) bits) := by
  unfold write at h
  rcases ho : d.openPlace path with fault | place
  · rw [ho] at h
    cases h
  obtain ⟨first, hs, hw⟩ := locate_of_openPlace ho
  have hlocate : d.locate path = .ok place := by rw [locate, hs]; exact hw
  simp only [ho] at h
  rcases he : d.entry? place with _ | ⟨old, bits⟩ | _
  · simp only [he, Except.ok.injEq] at h
    refine ⟨place, [], permissions mode, rfl, by simp [he], ?_, ?_⟩
    · simp [look, hlocate, he, bind, Except.bind, Standing.ofLook, Standing.content?]
    · rw [← h, WriteMode.stored]
      split <;> rfl
  · simp only [he, Except.ok.injEq] at h
    refine ⟨place, old, bits, rfl, by simp [he], ?_, ?_⟩
    · simp [look, hlocate, he, bind, Except.bind, Standing.ofLook, Standing.content?]
    · rw [← h, WriteMode.stored]
  · simp [he] at h

theorem ofLook_write {d next : Disk} {mode : WriteMode} {path content : Bytes}
    (h : d.write mode path content = .ok next) : ∃ former, (Standing.ofLook (d.look path)).content? = some former ∧
      Standing.ofLook (next.look path) = .file (mode.stored former content) := by
  obtain ⟨place, former, bits, ho, hd, hf, rfl⟩ := write_eq_ok h
  refine ⟨former, hf, ?_⟩
  rw [look_set _ ho hd]
  rfl

theorem ofLook_write_of_ne {d next : Disk} {mode : WriteMode} {path q content : Bytes} (hp : isPlain path = true)
    (hq : isPlain q = true) (hne : q ≠ path) (h : d.write mode path content = .ok next) :
    Standing.ofLook (next.look q) = Standing.ofLook (d.look q) := by
  obtain ⟨place, former, bits, ho, hd, -, rfl⟩ := write_eq_ok h
  obtain ⟨names, hs, hnil, hn⟩ := names_of_isPlain hp
  obtain ⟨names', hs', hnil', hn'⟩ := names_of_isPlain hq
  obtain rfl := openPlace_plain hs hnil hn ho
  have hd' : Disk.entry? (d.set place (.file (mode.stored former content) bits)) place ≠ some .directory := by
    simp [ entry?_set d hnil]
  have same : ∀ p, p ≠ place → Disk.entry? (d.set place (.file (mode.stored former content) bits)) p = d.entry? p :=
    fun p hp => by rw [ entry?_set d hnil, if_neg hp]
  have names_ne : [] ++ names' ≠ place := by
    rintro rfl
    exact hne (by rw [← Path.joinSegments_segments q, ← Path.joinSegments_segments path, hs, hs']; rfl)
  rw [ofLook_look hs' hnil', ofLook_look hs' hnil', found_congr hd hd' same hn' names_ne]
  rfl

end Disk

end SshAuthority.Host

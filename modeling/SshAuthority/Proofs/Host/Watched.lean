import SshAuthority.Proofs.Host.Plain
/-!
# A disk as a scene

A host whose files are on a disk, with a record of what is done. Programs read the disk, and the other side of
a connection is a function of what it is asked. Nobody sits at the terminal, and nothing can be listened at.
-/
namespace SshAuthority.Host
open Config (Standing)
open Connection (ClientFault)

structure Surroundings where
  programs : Bytes → List Bytes → Disk → Except Fault Ended
  network : String → Except Fault (Wire.Request → Except ClientFault Wire.Response)

abbrev Watched := Disk × List Act

namespace Watched

def tells {α : Type} (a : α) : StateT Watched Option α := fun w => some (a, w)

def notes {α : Type} (act : α → Act) (a : Disk → α) : StateT Watched Option α :=
  fun w => some (a w.1, w.1, w.2 ++ [act (a w.1)])

def write (mode : WriteMode) (path content : Bytes) : StateT Watched Option (Except WriteFault Unit) := fun w =>
  match w.1.write mode path content with
  | .ok next => some (.ok (), next, w.2 ++ [.wrote mode path content none])
  | .error fault => some (.error fault, w.1, w.2 ++ [.wrote mode path content (some fault)])

def host (around : Surroundings) : Host (StateT Watched Option) where
  isDirectory path := fun w => some (w.1.isDirectory path, w)
  read path := notes (.read path <| fault? ·) (·.read path)
  write := write
  run program args := notes (fun _ => .ran program args) (around.programs program args)
  runAttached program args := notes (fun _ => .ran program args) fun d => (around.programs program args d).map (·.status)
  makeDirectory := tells (.error .noEntry)
  discard _ := tells ()
  print _ := tells ()
  complain _ := tells ()
  confirm := tells false
  hostName := tells (Utf8.encode "host")
  userNumber := tells 0
  accountName := tells none
  environment _ := tells none
  settingsHome := tells none
  dial address := tells ((around.network address).map fun answer request =>
    notes (fun _ => .asked request) fun _ => answer request)
  listen _ := tells (.error .addressUnavailable)
  waitForever := fun _ => none

def view : View Watched where
  watches path := isPlain path = true
  standing path w := .ofLook (w.1.look path)
  record w := w.2

private theorem tells_leaves {α : Type} {a b : α} {w w' : Watched} (h : tells a w = some (b, w')) :
    view.Leaves [] w w' := by
  obtain ⟨-, rfl⟩ := Prod.mk.inj (Option.some.inj h)
  exact .refl _

theorem notes_leaves {α : Type} (act : α → Act) (a : Disk → α) {b : α} {w w' : Watched}
    (h : notes act a w = some (b, w')) : view.Leaves [act b] w w' ∧ b = a w.1 := by
  obtain ⟨rfl, rfl⟩ := Prod.mk.inj (Option.some.inj h)
  exact ⟨⟨fun _ _ => rfl, rfl⟩, rfl⟩

private theorem write_ends {mode : WriteMode} {path content : Bytes} {answer : Except WriteFault Unit}
    {w w' : Watched} (h : write mode path content w = some (answer, w')) :
    w'.2 = w.2 ++ [.wrote mode path content (fault? answer)] ∧ match answer with
      | .ok _ => w.1.write mode path content = .ok w'.1
      | .error _ => w'.1 = w.1 := by
  unfold write at h
  split at h
  case h_1 next hw =>
    obtain ⟨rfl, rfl⟩ := Prod.mk.inj (Option.some.inj h)
    exact ⟨rfl, hw⟩
  case h_2 fault hw =>
    obtain ⟨rfl, rfl⟩ := Prod.mk.inj (Option.some.inj h)
    exact ⟨rfl, rfl⟩

def scene (around : Surroundings) : Scene Watched where
  toView := view
  host := host around
  apart := isPlain_apart
  isDirectory := by
    intro path w answer w' h
    obtain ⟨-, rfl⟩ := Prod.mk.inj (Option.some.inj h)
    exact .refl _
  read := fun {path} _ _ _ h => (notes_leaves (.read path <| fault? ·) (·.read path) h).1
  read_ok := by
    intro path w content w' _ h
    obtain ⟨bits, hl⟩ := Disk.read_eq_ok (notes_leaves (.read path <| fault? ·) (·.read path) h).2.symm
    simp [view, hl, Standing.ofLook]
  read_missing := by
    intro path w w' _ h
    have hr := (notes_leaves (.read path <| fault? ·) (·.read path) h).2.symm
    show Standing.ofLook (w.1.look path) = _
    rw [Disk.read] at hr
    rcases hl : w.1.look path with fault | ⟨content, bits⟩ | _ <;> rw [hl] at hr
    · rfl
    · cases hr
    · cases hr
  write := by
    intro mode path content w answer w' hp h
    obtain ⟨record, ends⟩ := write_ends h
    refine ⟨fun q hq hne => ?_, record⟩
    cases answer with
    | ok _ => exact Disk.ofLook_write_of_ne hp hq hne ends
    | error _ => exact congrArg (fun d : Disk => Standing.ofLook (d.look q)) ends
  write_ok := fun _ h => Disk.ofLook_write (write_ends h).2
  append_error := fun {path _ _ _ _} _ h =>
    .inl (congrArg (fun d : Disk => Standing.ofLook (d.look path)) (write_ends h).2)
  replace_error := fun {path _ _ _ _} _ h =>
    congrArg (fun d : Disk => Standing.ofLook (d.look path)) (write_ends h).2
  run := fun {program args _ _ _} h => (notes_leaves (fun _ => .ran program args) (around.programs program args) h).1
  print := fun h => tells_leaves h
  complain := fun h => tells_leaves h
  dial := fun h => tells_leaves h
  exchange := by
    intro address w exchange w' h request v answer v' hx
    obtain ⟨ha, -⟩ := Prod.mk.inj (Option.some.inj h)
    rcases hn : around.network address with fault | said <;> rw [hn] at ha
    · cases ha
    · obtain rfl := Except.ok.inj ha
      exact (notes_leaves (fun _ => .asked request) (fun _ => said request) hx).1

theorem scene_prompt (around : Surroundings) : (scene around).Prompt where
  read _ _ := ⟨_, rfl⟩
  write mode path content w := by
    show ∃ r, write mode path content w = some r
    unfold write
    split <;> exact ⟨_, rfl⟩
  run _ _ _ := ⟨_, rfl⟩
  print _ w := ⟨((), w), rfl⟩
  complain _ w := ⟨((), w), rfl⟩

theorem scene_readable (around : Surroundings) : (scene around).Readable := by
  intro path w content answer w' _ hs h
  rw [(notes_leaves (.read path <| fault? ·) (·.read path) h).2]
  replace hs : Standing.ofLook (w.1.look path) = .file content := hs
  rcases hl : w.1.look path with fault | ⟨found, bits⟩ | _ <;> rw [hl] at hs
  · cases hs
  · rw [Disk.read, hl, Standing.file.inj hs]
    rfl
  · cases hs

def reaches {W α ε : Type} [DecidableEq α] (x : Option (Except ε α × W)) (a : α) (p : W → Bool) : Bool :=
  x.any fun r => r.1.toOption = some a && p r.2

theorem exists_of_reaches {W α ε : Type} [DecidableEq α] {x : Option (Except ε α × W)} {a : α} {p : W → Bool}
    (h : reaches x a p = true) : ∃ w, x = some (.ok a, w) ∧ p w = true := by
  unfold reaches at h
  rcases x with _ | ⟨fault | b, w⟩
  · cases h
  · simp [Except.toOption] at h
  · simp only [Option.any_some, Except.toOption, Bool.and_eq_true, decide_eq_true_eq, Option.some.injEq] at h
    exact ⟨w, by rw [h.1], h.2⟩

def fails {W α ε : Type} (x : Option (Except ε α × W)) (p : ε → W → Bool) : Bool :=
  x.any fun r => match r.1 with
    | .ok _ => false
    | .error fault => p fault r.2

theorem exists_of_fails {W α ε : Type} {x : Option (Except ε α × W)} {p : ε → W → Bool} (h : fails x p = true) :
    ∃ fault w, x = some (.error fault, w) ∧ p fault w = true := by
  rcases x with _ | ⟨fault | b, w⟩
  · cases h
  · exact ⟨fault, w, rfl, h⟩
  · cases h

end Watched

end SshAuthority.Host

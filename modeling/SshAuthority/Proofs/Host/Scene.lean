import SshAuthority.Host.Basic
import SshAuthority.Proofs.Config.Commit
/-!
# Hosts that are watched

What commands do is told on a host some of whose files are watched: what stands at their paths is known of every
state, and what is done with files and programs is on record. Operations may fail at any time, and may never come
to an end. What is assumed is that a file is read as it stands, that a write takes full effect or none, that
different watched paths lead to different files, and that nothing else changes them; programs only read.
-/
namespace SshAuthority

/-- What an append finds at a path: nothing yet, or the content of a file. -/
def Config.Standing.content? : Standing → Option Bytes
  | .absent => some []
  | .file content => some content
  | .directory => none

/-- What reading nothing comes to. -/
def Config.Standing.missing? : Standing → Option Host.Fault
  | .absent => some .noEntry
  | .file _ | .directory => none

namespace Host
open Config (Standing)
open Connection (ClientFault)

def fault? {ε α : Type} : Except ε α → Option ε
  | .ok _ => none
  | .error fault => some fault

/-- What is put on record: reads and writes with what went wrong with them, if anything did. -/
inductive Act where
  | read (path : Bytes) (fault : Option Fault)
  | wrote (mode : WriteMode) (path content : Bytes) (fault : Option WriteFault)
  | ran (program : Bytes) (arguments : List Bytes)
  | asked (request : Wire.Request)
  deriving DecidableEq

def Act.isIdle : Act → Bool
  | .read _ _ | .asked _ => true
  | .wrote _ _ _ _ | .ran _ _ => false

def WriteMode.stored (mode : WriteMode) (former content : Bytes) : Bytes :=
  if mode = .append then former ++ content else content

structure View (W : Type) where
  watches : Bytes → Prop
  standing : Bytes → W → Standing
  record : W → List Act

namespace View

variable {W : Type} (v : View W) {acts more : List Act} {path : Bytes} {w w' w'' : W}

/-- The watched files were left alone, and these acts were put on record. -/
structure Leaves (acts : List Act) (w w' : W) : Prop where
  same : ∀ p, v.watches p → v.standing p w' = v.standing p w
  record : v.record w' = v.record w ++ acts

/-- The watched files but one were left alone, and these acts were put on record. -/
structure Touches (path : Bytes) (acts : List Act) (w w' : W) : Prop where
  same : ∀ p, v.watches p → p ≠ path → v.standing p w' = v.standing p w
  record : v.record w' = v.record w ++ acts

variable {v}

theorem Leaves.refl (w : W) : v.Leaves [] w w := ⟨fun _ _ => rfl, (List.append_nil _).symm⟩

theorem Leaves.trans (h : v.Leaves acts w w') (h' : v.Leaves more w' w'') : v.Leaves (acts ++ more) w w'' :=
  ⟨fun p hp => (h'.same p hp).trans (h.same p hp), by rw [h'.record, h.record, List.append_assoc]⟩

theorem Leaves.touches (h : v.Leaves acts w w') (path : Bytes) : v.Touches path acts w w' :=
  ⟨fun p hp _ => h.same p hp, h.record⟩

theorem Touches.trans (h : v.Touches path acts w w') (h' : v.Touches path more w' w'') :
    v.Touches path (acts ++ more) w w'' :=
  ⟨fun p hp hne => (h'.same p hp hne).trans (h.same p hp hne), by rw [h'.record, h.record, List.append_assoc]⟩

end View

/-- A host whose world is watched. -/
structure Scene (W : Type) extends View W where
  host : Host (StateT W Option)
  apart : ∀ {p q}, watches p → watches q → Path.components p = Path.components q → p = q
  isDirectory : ∀ {path w answer w'}, host.isDirectory path w = some (answer, w') → toView.Leaves [] w w'
  read : ∀ {path w answer w'}, host.read path w = some (answer, w') → toView.Leaves [.read path (fault? answer)] w w'
  read_ok : ∀ {path w content w'}, watches path → host.read path w = some (.ok content, w') →
    standing path w = .file content
  read_missing : ∀ {path w w'}, watches path → host.read path w = some (.error .noEntry, w') →
    standing path w = .absent
  write : ∀ {mode path content w answer w'}, watches path →
    host.write mode path content w = some (answer, w') →
    toView.Touches path [.wrote mode path content (fault? answer)] w w'
  write_ok : ∀ {mode path content w w'}, watches path → host.write mode path content w = some (.ok (), w') →
    ∃ former, (standing path w).content? = some former ∧ standing path w' = .file (mode.stored former content)
  /-- A file that is opened for adding to it may be there from then on. -/
  append_error : ∀ {path content w fault w'}, watches path →
    host.write .append path content w = some (.error fault, w') →
    standing path w' = standing path w ∨ (standing path w = .absent ∧ standing path w' = .file [])
  replace_error : ∀ {path content w fault w'}, watches path →
    host.write .replace path content w = some (.error fault, w') → standing path w' = standing path w
  run : ∀ {program args w answer w'}, host.run program args w = some (answer, w') →
    toView.Leaves [.ran program args] w w'
  print : ∀ {line w answer w'}, host.print line w = some (answer, w') → toView.Leaves [] w w'
  complain : ∀ {line w answer w'}, host.complain line w = some (answer, w') → toView.Leaves [] w w'
  dial : ∀ {address w answer w'}, host.dial address w = some (answer, w') → toView.Leaves [] w w'
  exchange : ∀ {address w exchange w'}, host.dial address w = some (.ok exchange, w') →
    ∀ {request v answer v'}, exchange request v = some (answer, v') → toView.Leaves [.asked request] v v'

/-! ## Runs that come to an end -/

section

variable {W α β : Type}

theorem bind_eq_some {x : StateT W Option α} {f : α → StateT W Option β} {b : β} {w w' : W} :
    (x >>= f) w = some (b, w') ↔ ∃ a v, x w = some (a, v) ∧ f a v = some (b, w') := by
  show (x w).bind (fun r => f r.1 r.2) = _ ↔ _
  simp [Option.bind_eq_some_iff]

theorem pure_eq_some {a b : α} {w w' : W} :
    (pure a : StateT W Option α) w = some (b, w') ↔ a = b ∧ w = w' := by
  show some (a, w) = some (b, w') ↔ _
  simp

def Returns (x : StateT W Option α) : Prop := ∀ w, ∃ r, x w = some r

theorem Returns.pure (a : α) : Returns (pure a : StateT W Option α) := fun w => ⟨(a, w), rfl⟩

theorem Returns.bind_of {x : StateT W Option α} {f : α → StateT W Option β} (hx : Returns x)
    (hf : ∀ w a w', x w = some (a, w') → Returns (f a)) : Returns (x >>= f) := by
  intro w
  obtain ⟨⟨a, v⟩, ha⟩ := hx w
  obtain ⟨⟨b, w'⟩, hb⟩ := hf w a v ha v
  exact ⟨(b, w'), bind_eq_some.mpr ⟨a, v, ha, hb⟩⟩

theorem Returns.bind {x : StateT W Option α} {f : α → StateT W Option β} (hx : Returns x)
    (hf : ∀ a, Returns (f a)) : Returns (x >>= f) := hx.bind_of fun _ a _ _ => hf a

end

namespace Scene

variable {W : Type}

structure Prompt (scene : Scene W) : Prop where
  read : ∀ path, Returns (scene.host.read path)
  write : ∀ mode path content, Returns (scene.host.write mode path content)
  run : ∀ program args, Returns (scene.host.run program args)
  print : ∀ line, Returns (scene.host.print line)
  complain : ∀ line, Returns (scene.host.complain line)

def Readable (scene : Scene W) : Prop :=
  ∀ {path w content answer w'}, scene.watches path → scene.standing path w = .file content →
    scene.host.read path w = some (answer, w') → answer = .ok content

/-- A computation that only looks: no watched file is changed, and no program is run. -/
def Looks {α : Type} (scene : Scene W) (x : StateT W Option α) : Prop :=
  ∀ w a w', x w = some (a, w') → ∃ acts, (∀ act ∈ acts, act.isIdle = true) ∧ scene.Leaves acts w w'

namespace Looks

variable {α β : Type} {scene : Scene W}

theorem pure (a : α) : scene.Looks (Pure.pure a : StateT W Option α) := by
  intro w a' w' h
  obtain ⟨-, rfl⟩ := pure_eq_some.mp h
  exact ⟨[], by simp, .refl _⟩

theorem bind {x : StateT W Option α} {f : α → StateT W Option β} (hx : scene.Looks x)
    (hf : ∀ w a w', x w = some (a, w') → scene.Looks (f a)) : scene.Looks (x >>= f) := by
  intro w b w' h
  obtain ⟨a, v, ha, hb⟩ := bind_eq_some.mp h
  obtain ⟨acts, idle, leaves⟩ := hx _ _ _ ha
  obtain ⟨more, idle', leaves'⟩ := hf _ _ _ ha _ _ _ hb
  refine ⟨acts ++ more, ?_, leaves.trans leaves'⟩
  intro act hact
  rcases List.mem_append.mp hact with hact | hact
  · exact idle act hact
  · exact idle' act hact

theorem read (path : Bytes) : scene.Looks (scene.host.read path) :=
  fun _ _ _ h => ⟨_, by simp [Act.isIdle], scene.read h⟩

theorem isDirectory (path : Bytes) : scene.Looks (scene.host.isDirectory path) :=
  fun _ _ _ h => ⟨_, by simp, scene.isDirectory h⟩

theorem dial (address : String) : scene.Looks (scene.host.dial address) := fun _ _ _ h => ⟨_, by simp, scene.dial h⟩

end Looks

/-- The paths are watched, and lead to different files. -/
structure Separate (scene : Scene W) (paths : List Bytes) : Prop where
  watched : ∀ p ∈ paths, scene.watches p
  nodup : paths.Nodup

end Scene

end Host

end SshAuthority

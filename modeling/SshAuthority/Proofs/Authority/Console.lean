import Mathlib.Data.List.Perm.Subperm
import SshAuthority.Proofs.Authority.Step
import SshAuthority.Proofs.Connection.Hub
/-!
# Runs of the tool exclude each other

The console belongs to exactly those calls that are about to run the tool or run it, and it belongs to
one call at a time. So no two runs overlap, however the calls came and whatever order they take their
steps in; and a call lets the console go with its run, however that ends.
-/
namespace SshAuthority.Authority

namespace Phase

def isOnConsole : Phase → Bool
  | .attached _ | .running _ => true
  | _ => false

def isRunning : Phase → Bool
  | .running _ => true
  | _ => false

def isPastRun : Phase → Bool
  | .signed _ | .leaving _ _ | .ended _ => true
  | _ => false

end Phase

namespace Session

def openRuns (s : Session) : List ToolRun :=
  s.runs.filter fun r => (s.phase? r.call).any Phase.isRunning

/-- What holds of the console and the runs in every state. -/
structure Exclusive (s : Session) : Prop where
  openRuns : s.openRuns.length ≤ 1
  runningCalls : s.runningCalls.length ≤ 1
  /-- Whoever holds the console is about to run the tool or runs it. -/
  holder : ∀ {i}, s.console = some i → ∃ p, s.phase? i = some p ∧ p.isOnConsole
  held : ∀ {i}, i ∈ s.runningCalls → s.console = some i
  alone : ∀ {i j p q}, s.phase? i = some p → p.isOnConsole → s.phase? j = some q → q.isOnConsole → i = j
  released : ∀ {i p}, s.phase? i = some p → p.isPastRun → s.console ≠ some i
  ended : ∀ {i result}, s.result? i = some result → s.console ≠ some i

/-- At most one run starts from one state to the next, and only the holder of the console starts one, where
no other is open. -/
def StartsHolding (s next : Session) : Prop :=
  next.runs = s.runs ∨
    ∃ r, next.runs = s.runs ++ [r] ∧ s.console = some r.call ∧ s.openRuns = []

/-! ## Who has the console -/

/-- The console belongs to the calls that got it, and to nobody else. -/
def ConsoleHeld (s : Session) : Prop :=
  ∀ i, s.console = some i ↔ (s.phase? i).any Phase.isOnConsole

private theorem consoleHeld_entered {s t : Session} {i : Nat} {c : SigningCall} {p : Phase}
    (h : s.ConsoleHeld) (hc : s.calls[i]? = some c) (ht : t.calls = (s.enter i p).calls)
    (hk : t.console = s.console) (hp : p.isOnConsole = c.phase.isOnConsole) : t.ConsoleHeld := by
  intro j
  rw [hk, h j, phase?_entered hc ht]
  by_cases hj : j = i
  · subst hj
    simp [phase?_of_call hc, hp]
  · simp [hj]

private theorem consoleHeld_taken {s t : Session} {i : Nat} {c : SigningCall} {p : Phase}
    (h : s.ConsoleHeld) (hc : s.calls[i]? = some c) (ht : t.calls = (s.enter i p).calls)
    (hf : s.console = none) (hk : t.console = some i) (hp : p.isOnConsole) : t.ConsoleHeld := by
  intro j
  rw [hk, phase?_entered hc ht]
  by_cases hj : j = i
  · simp [hj, hp]
  · have hn := (h j).not.mp (by simp [hf])
    simpa [hj, Ne.symm hj] using hn

private theorem consoleHeld_released {s t : Session} {i : Nat} {c : SigningCall} {p : Phase}
    (h : s.ConsoleHeld) (hc : s.calls[i]? = some c) (ht : t.calls = (s.enter i p).calls)
    (hi : c.phase.isOnConsole) (hk : t.console = none) (hp : p.isOnConsole = false) :
    t.ConsoleHeld := by
  have hs : s.console = some i := (h i).mpr (by simp [phase?_of_call hc, hi])
  intro j
  rw [hk, phase?_entered hc ht]
  by_cases hj : j = i
  · simp [hj, hp]
  · have hn := (h j).not.mp (by simp [hs, Ne.symm hj])
    simpa [hj] using hn

private theorem consoleHeld_step (s : Session) (e : Event) (next : Session) (h : s.ConsoleHeld)
    (hm : s.Moves e next) : next.ConsoleHeld := by
  cases hm with
  | request r =>
    intro j
    rw [phase?_request]
    by_cases hj : j = s.calls.length
    · subst hj
      have hn : ¬ (s.request r).console = some s.calls.length := by
        intro hc
        have hp := (h s.calls.length).mp hc
        simp [phase?] at hp
      simpa [Phase.isOnConsole] using hn
    · rw [if_neg hj]
      exact h j
  | arrive piece => exact h
  | closeInput => exact h
  | announce call phase =>
    refine consoleHeld_entered h call rfl rfl ?_
    rw [phase]
    split <;> rfl
  | holdInput call phase free => exact consoleHeld_entered h call rfl rfl (by rw [phase]; rfl)
  | takeLine call phase holds ready first =>
    refine consoleHeld_entered h call rfl rfl ?_
    rw [phase]
    split <;> rfl
  | noDirectory call phase => exact consoleHeld_entered h call rfl rfl (by rw [phase]; rfl)
  | makeDirectory call phase fresh => exact consoleHeld_entered h call rfl rfl (by rw [phase]; rfl)
  | notStaged call phase => exact consoleHeld_entered h call rfl rfl (by rw [phase]; rfl)
  | stage call phase => exact consoleHeld_entered h call rfl rfl (by rw [phase]; rfl)
  | holdConsole call phase free => exact consoleHeld_taken h call rfl free rfl rfl
  | start call phase => exact consoleHeld_entered h call rfl rfl (by rw [phase]; rfl)
  | finish call phase =>
    refine consoleHeld_released h call rfl (by rw [phase]; rfl) rfl ?_
    split <;> rfl
  | readCertificate call phase staging => exact consoleHeld_entered h call rfl rfl (by rw [phase]; rfl)
  | removeDirectory call phase => exact consoleHeld_entered h call rfl rfl (by rw [phase]; rfl)

theorem consoleHeld_run (service : Service) (events : List Event) :
    ((Session.new service).run events).ConsoleHeld :=
  run_preserves consoleHeld_step (by simp [ConsoleHeld, Session.new, phase?]) events

/-! ## Which runs there were -/

/-- A call runs the tool once, and has come to its run by then. -/
structure RunOnce (s : Session) : Prop where
  nodup : (s.runs.map (·.call)).Nodup
  started : ∀ r ∈ s.runs, ∃ p, s.phase? r.call = some p ∧ 7 ≤ p.rank

private theorem started_moves {s next : Session} {e : Event} (h : s.RunOnce) (hm : s.Moves e next) :
    ∀ r ∈ s.runs, ∃ p, next.phase? r.call = some p ∧ 7 ≤ p.rank := by
  intro r hr
  obtain ⟨p, hp, hs⟩ := h.started r hr
  obtain ⟨q, hq, hle⟩ := rank_le_of_moves hm hp
  exact ⟨q, hq, Nat.le_trans hs hle⟩

theorem runs_of_moves {s next : Session} {e : Event} (hm : s.Moves e next) :
    next.runs = s.runs ∨ ∃ r path, next.runs = s.runs ++ [r] ∧
      s.phase? r.call = some (.attached path) ∧ next.phase? r.call = some (.running path) := by
  cases hm with
  | @start i c path call phase =>
    have hp : s.phase? i = some (.attached path) := by rw [phase?_of_call call, phase]
    exact .inr ⟨_, path, rfl, hp, (phase?_entered call rfl i).trans (if_pos rfl)⟩
  | _ => exact .inl rfl

private theorem runOnce_step (s : Session) (e : Event) (next : Session) (h : s.RunOnce)
    (hm : s.Moves e next) : next.RunOnce := by
  have hs := started_moves h hm
  rcases runs_of_moves hm with hr | ⟨r, path, hr, hp, hq⟩
  · exact ⟨hr ▸ h.nodup, hr ▸ hs⟩
  · have hn : r.call ∉ s.runs.map (·.call) := by
      intro hc
      obtain ⟨r', hr', hc⟩ := List.mem_map.mp hc
      obtain ⟨p, hp', hle⟩ := h.started r' hr'
      rw [hc, hp] at hp'
      obtain rfl := Option.some.inj hp'
      simp [Phase.rank] at hle
    constructor
    · rw [hr, List.map_append]
      exact nodup_append_new h.nodup hn
    · intro r' hr'
      rw [hr, List.mem_append, List.mem_singleton] at hr'
      rcases hr' with hr' | rfl
      · exact hs r' hr'
      · exact ⟨_, hq, by simp [Phase.rank]⟩

theorem runOnce_run (service : Service) (events : List Event) :
    ((Session.new service).run events).RunOnce :=
  run_preserves runOnce_step ⟨by simp [Session.new], by simp [Session.new]⟩ events

/-! ## At most one -/

private theorem length_le_one {α : Type} {l : List α} (h : l.Nodup) {a : α} (ha : ∀ b ∈ l, b = a) :
    l.length ≤ 1 := by
  have hs : l ⊆ [a] := fun b hb => by simp [ha b hb]
  simpa using (h.subperm hs).length_le

theorem mem_runningCalls {s : Session} {i : Nat} :
    i ∈ s.runningCalls ↔ ∃ path, s.phase? i = some (.running path) := by
  simp only [runningCalls, List.mem_filter, List.mem_range]
  constructor
  · rintro ⟨-, h⟩
    split at h
    case h_1 path hp => exact ⟨path, hp⟩
    case h_2 => cases h
  · rintro ⟨path, hp⟩
    exact ⟨lt_length_of_phase? hp, by rw [hp]⟩

private theorem console_of_phase? {s : Session} (h : s.ConsoleHeld) {i : Nat} {p : Phase}
    (hi : s.phase? i = some p) (hp : p.isOnConsole) : s.console = some i :=
  (h i).mpr (by simp [hi, hp])

private theorem console_of_running {s : Session} (h : s.ConsoleHeld) {i : Nat}
    (hi : i ∈ s.runningCalls) : s.console = some i := by
  obtain ⟨path, hp⟩ := mem_runningCalls.mp hi
  exact console_of_phase? h hp rfl

private theorem console_of_open {s : Session} (h : s.ConsoleHeld) {r : ToolRun}
    (hr : r ∈ s.openRuns) : s.console = some r.call := by
  obtain ⟨p, hp, hrun⟩ := (Option.any_eq_true _ _).mp (List.mem_filter.mp hr).2
  refine console_of_phase? h hp ?_
  cases p <;> simp [Phase.isRunning, Phase.isOnConsole] at hrun ⊢

private theorem length_openRuns {s : Session} (h : s.ConsoleHeld) (hr : s.RunOnce) :
    s.openRuns.length ≤ 1 := by
  have hn : (s.openRuns.map (·.call)).Nodup := hr.nodup.sublist (List.filter_sublist.map _)
  rcases ho : s.openRuns with _ | ⟨r, rs⟩
  · simp
  · have hc : s.console = some r.call := console_of_open h (by simp [ho])
    have hl : (s.openRuns.map (·.call)).length ≤ 1 := by
      refine length_le_one (a := r.call) hn fun j hj => ?_
      obtain ⟨r', hr', rfl⟩ := List.mem_map.mp hj
      exact Option.some.inj ((console_of_open h hr').symm.trans hc)
    simpa [ho] using hl

private theorem length_runningCalls {s : Session} (h : s.ConsoleHeld) : s.runningCalls.length ≤ 1 := by
  have hn : s.runningCalls.Nodup := List.nodup_range.filter _
  rcases ho : s.runningCalls with _ | ⟨i, is⟩
  · simp
  · have hc : s.console = some i := console_of_running h (by simp [ho])
    rw [← ho]
    refine length_le_one (a := i) hn fun j hj => ?_
    exact Option.some.inj ((console_of_running h hj).symm.trans hc)

private theorem console_ne_of_pastRun {s : Session} (h : s.ConsoleHeld) {i : Nat} {p : Phase}
    (hi : s.phase? i = some p) (hp : p.isPastRun) : s.console ≠ some i := by
  intro hk
  have ho := (h i).mp hk
  rw [hi] at ho
  cases p <;> simp [Phase.isPastRun, Phase.isOnConsole] at hp ho

private theorem exclusive_of {s : Session} (h : s.ConsoleHeld) (hr : s.RunOnce) : s.Exclusive where
  openRuns := length_openRuns h hr
  runningCalls := length_runningCalls h
  holder := fun hi => (Option.any_eq_true _ _).mp ((h _).mp hi)
  held := console_of_running h
  alone := by
    intro i j p q hi hp hj hq
    exact Option.some.inj ((console_of_phase? h hi hp).symm.trans (console_of_phase? h hj hq))
  released := console_ne_of_pastRun h
  ended := by
    intro i result hi
    obtain ⟨p, hi, hp⟩ := Option.bind_eq_some_iff.mp hi
    refine console_ne_of_pastRun h hi ?_
    cases p <;> simp [Phase.result?, Phase.isPastRun] at hp ⊢

private theorem startsHolding_of_moves {s next : Session} {e : Event} (h : s.ConsoleHeld)
    (hm : s.Moves e next) : s.StartsHolding next := by
  rcases runs_of_moves hm with hr | ⟨r, path, hr, hp, -⟩
  · exact .inl hr
  · have hc := console_of_phase? h hp rfl
    refine .inr ⟨r, hr, hc, ?_⟩
    rw [openRuns, List.filter_eq_nil_iff]
    intro r' hr' ho
    have hc' := console_of_open h (List.mem_filter.mpr ⟨hr', ho⟩)
    rw [Option.some.inj (hc'.symm.trans hc), hp] at ho
    simp [Phase.isRunning] at ho

end Session

end SshAuthority.Authority

namespace SshAuthority.Connection.Hub
open Authority

/-- A service that is shared by any number of connections and direct callers runs the tool for one call at a
time, the one that holds the console. -/
theorem runs_exclude_each_other (service : Service) (events : List Event) (e : Event) :
    ((new service).run events).session.Exclusive ∧
      ((new service).run events).session.StartsHolding (((new service).run events).step e).session := by
  obtain ⟨steps, hs⟩ := session_run (new service) events
  have hc : ((new service).run events).session.ConsoleHeld := by
    rw [hs]
    exact Session.consoleHeld_run service steps
  have hr : ((new service).run events).session.RunOnce := by
    rw [hs]
    exact Session.runOnce_run service steps
  refine ⟨Session.exclusive_of hc hr, ?_⟩
  rcases session_step ((new service).run events) e with h | ⟨event, h⟩
  · exact .inl (by rw [h])
  · rw [h]
    rcases hn : ((new service).run events).session.step? event with _ | next
    · exact .inl (by simp [Session.step, hn])
    · rw [Session.step, hn]
      exact Session.startsHolding_of_moves hc (Session.moves_of_step? hn)

end SshAuthority.Connection.Hub

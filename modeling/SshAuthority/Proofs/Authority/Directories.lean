import Mathlib.Data.List.Induction
import SshAuthority.Proofs.Authority.Housing
/-!
# Directories come and go with their calls

A call makes its directory once and removes it whatever becomes of it. In between the directory is there and is
nobody else's, so the directories that are there are those of the calls on their way, and none outlives its call.
-/
namespace SshAuthority.Authority

def Phase.obtained? : Phase → Option Bytes
  | .leaving _ (.ok certificate) | .ended (.ok certificate) => some certificate
  | _ => none

namespace Session

def directory? (s : Session) (i : Nat) : Option Bytes := (s.phase? i).bind Phase.directory?

def directoryPaths (s : Session) : List Bytes := s.directories.map (·.path)

variable {s next : Session} {t : List Event} {e : Event} {i j : Nat} {c : SigningCall} {d : Bytes}

theorem mem_directoryPaths : d ∈ s.directoryPaths ↔ s.staging? d ≠ none := by
  rw [directoryPaths, List.mem_map, staging?, Ne, List.find?_eq_none]
  simp

theorem filter_paths (s : Session) (d : Bytes) :
    (s.directories.filter (·.path != d)).map (·.path) = s.directoryPaths.filter (· != d) := by
  simp [directoryPaths, List.filter_map, Function.comp_def]

theorem directory?_of_call (hc : s.calls[i]? = some c) : s.directory? i = c.phase.directory? := by
  rw [directory?, phase?_of_call hc, Option.bind_some]

theorem call_of_directory? (h : s.directory? i = some d) :
    ∃ c, s.calls[i]? = some c ∧ c.phase.directory? = some d := by
  obtain ⟨p, hp, hd⟩ := Option.bind_eq_some_iff.mp h
  obtain ⟨c, hc, rfl⟩ := Option.map_eq_some_iff.mp hp
  exact ⟨c, hc, hd⟩

theorem result?_of_directory? (h : s.directory? i = some d) : s.result? i = none := by
  obtain ⟨c, hc, hd⟩ := call_of_directory? h
  rw [result?, phase?_of_call hc, Option.bind_some]
  cases hp : c.phase <;> simp [hp, Phase.directory?, Phase.result?] at hd ⊢

/-! ## What a step does -/

/-- What an event makes of the directory of a call. -/
def Event.directoryAfter (i : Nat) (d : Option Bytes) : Event → Option Bytes
  | .makeDirectory j (.ok path) => if i = j then some path else d
  | .removeDirectory j => if i = j then none else d
  | _ => d

private theorem directory?_entered {p : Phase} (hc : s.calls[i]? = some c)
    (hn : next.calls = (s.enter i p).calls) (j : Nat) :
    next.directory? j = if j = i then p.directory? else s.directory? j := by
  rw [directory?, phase?_entered hc hn]
  split <;> rfl

private theorem directory?_unmoved {p : Phase} (hc : s.calls[i]? = some c)
    (hn : next.calls = (s.enter i p).calls) (hd : p.directory? = c.phase.directory?) (j : Nat) :
    next.directory? j = s.directory? j := by
  rw [directory?_entered hc hn]
  split
  case isTrue hj => rw [hj, directory?_of_call hc, hd]
  case isFalse => rfl

/-- A call comes to a directory by making it, and parts with it by removing it. -/
theorem directory?_of_moves (hm : s.Moves e next) (j : Nat) :
    next.directory? j = e.directoryAfter j (s.directory? j) := by
  cases hm with
  | request r =>
    rw [directory?, phase?_request]
    split
    case isTrue hj =>
      have hnone : s.phase? s.calls.length = none := by simp [phase?]
      simp [hj, directory?, hnone, Phase.directory?, Event.directoryAfter]
    case isFalse => rfl
  | arrive | closeInput => rfl
  | announce call phase | takeLine call phase holds ready first =>
    apply directory?_unmoved call rfl
    rw [phase]
    split <;> rfl
  | makeDirectory call phase fresh | removeDirectory call phase => exact directory?_entered call rfl j
  | @finish i c path outcome call phase =>
    apply directory?_unmoved call rfl
    rw [phase]
    split <;> rfl
  | holdInput call phase | noDirectory call phase | notStaged call phase | stage call phase
  | holdConsole call phase | start call phase | readCertificate call phase =>
    exact directory?_unmoved call rfl (by rw [phase]; rfl) j

theorem directoryPaths_of_moves (hm : s.Moves e next) :
    (∃ i d, e = .makeDirectory i (.ok d) ∧ d ∉ s.directoryPaths ∧ next.directoryPaths = s.directoryPaths ++ [d]) ∨
      (∃ i d, e = .removeDirectory i ∧ s.directory? i = some d ∧
        next.directoryPaths = s.directoryPaths.filter (· != d)) ∨
      ((∀ j d, e.directoryAfter j d = d) ∧ next.directoryPaths = s.directoryPaths) := by
  cases hm with
  | @makeDirectory i c path call phase fresh =>
    refine .inl ⟨i, path, rfl, ?_, List.map_append⟩
    rw [mem_directoryPaths]
    exact not_not.mpr fresh
  | @removeDirectory i c path result call phase =>
    refine .inr (.inl ⟨i, path, rfl, ?_, filter_paths s path⟩)
    rw [directory?_of_call call, phase]
    rfl
  | stage | finish => exact .inr (.inr ⟨fun _ _ => rfl, updateStaging_paths _ _ fun _ => rfl⟩)
  | _ => exact .inr (.inr ⟨fun _ _ => rfl, rfl⟩)

/-! ## Which directories there are -/

/-- The directories that are there are those of the calls, each once. -/
structure Kept (s : Session) : Prop where
  nodup : s.directoryPaths.Nodup
  owned : ∀ d, d ∈ s.directoryPaths ↔ ∃ i, s.directory? i = some d

theorem own_directory (hh : s.Housed) (hi : s.directory? i = some d) (hj : s.directory? j = some d) : i = j := by
  obtain ⟨c, hc, hd⟩ := call_of_directory? hi
  obtain ⟨c', hc', hd'⟩ := call_of_directory? hj
  exact hh.own hc hc' hd hd'

private theorem directory?_of_fresh (h : s.Moves (.makeDirectory i (.ok d)) next) : s.directory? i = none := by
  cases h with
  | makeDirectory call phase fresh =>
    rw [directory?_of_call call, phase]
    rfl

theorem Kept.of_moves (h : s.Kept) (hh : s.Housed) (hm : s.Moves e next) : next.Kept := by
  rcases directoryPaths_of_moves hm with ⟨i, d, rfl, hfresh, hp⟩ | ⟨i, d, rfl, hd, hp⟩ | ⟨hsame, hp⟩
  · have hnone := directory?_of_fresh hm
    refine ⟨hp ▸ nodup_append_new h.nodup hfresh, fun d' => ?_⟩
    simp only [hp, List.mem_append, List.mem_singleton, h.owned, directory?_of_moves hm, Event.directoryAfter]
    constructor
    · rintro (⟨j, hj⟩ | rfl)
      · have hji : j ≠ i := by
          rintro rfl
          simp [hnone] at hj
        exact ⟨j, (if_neg hji).trans hj⟩
      · exact ⟨i, if_pos rfl⟩
    · rintro ⟨j, hj⟩
      split at hj
      case isTrue => exact .inr (Option.some.inj hj).symm
      case isFalse => exact .inl ⟨j, hj⟩
  · refine ⟨hp ▸ h.nodup.filter _, fun d' => ?_⟩
    simp only [hp, List.mem_filter, h.owned, bne_iff_ne, directory?_of_moves hm, Event.directoryAfter]
    constructor
    · rintro ⟨⟨j, hj⟩, hne⟩
      have hji : j ≠ i := by
        rintro rfl
        exact hne (Option.some.inj (hj.symm.trans hd))
      exact ⟨j, (if_neg hji).trans hj⟩
    · rintro ⟨j, hj⟩
      split at hj
      case isTrue => cases hj
      case isFalse hji =>
        refine ⟨⟨j, hj⟩, ?_⟩
        rintro rfl
        exact hji (own_directory hh hj hd)
  · refine ⟨hp ▸ h.nodup, fun d' => ?_⟩
    simp only [hp, h.owned, directory?_of_moves hm, hsame]

theorem kept_run (service : Service) (events : List Event) : ((new service).run events).Kept := by
  have hboth : ((new service).run events).Kept ∧ ((new service).run events).Housed := by
    apply run_preserves (P := fun s => s.Kept ∧ s.Housed)
    · exact fun s e next h hm => ⟨h.1.of_moves h.2 hm, h.2.of_moves hm⟩
    · exact ⟨⟨by simp [directoryPaths, new], by simp [directoryPaths, directory?, phase?, new]⟩, housed_new service⟩
  exact hboth.1

/-! ## From making to the result -/

/-- The directories that were made, and which calls still have theirs. -/
structure Made (s : Session) (t : List Event) : Prop where
  has : ∀ i d, s.directory? i = some d ↔ .makeDirectory i (.ok d) ∈ t ∧ s.result? i = none
  once : ∀ {i d d'}, .makeDirectory i (.ok d) ∈ t → .makeDirectory i (.ok d') ∈ t → d = d'

private theorem result?_of_removed (h : s.Moves (.removeDirectory i) next) : next.result? i ≠ none := by
  have hentered : ∀ {c : SigningCall} {p : Phase}, s.calls[i]? = some c → next.calls = (s.enter i p).calls →
      next.phase? i = some p := fun hc hn => (phase?_entered hc hn i).trans (if_pos rfl)
  cases h with
  | removeDirectory call phase =>
    rw [result?, hentered call rfl]
    simp [Phase.result?]

private theorem result?_of_fresh (h : s.Moves (.makeDirectory i (.ok d)) next) : s.result? i = none := by
  cases h with
  | makeDirectory call phase fresh =>
    rw [result?, phase?_of_call call, phase]
    rfl

private theorem result?_none_of_moves (hm : s.Moves e next) (h : next.result? i = none) : s.result? i = none := by
  rcases hr : s.result? i with _ | result
  · rfl
  · rw [result?_of_moves hm hr] at h
    cases h

theorem Made.of_moves (h : s.Made t) (hm : s.Moves e next) : next.Made (t ++ [e]) := by
  have hfirst : ∀ {i d d'}, e = .makeDirectory i (.ok d) → .makeDirectory i (.ok d') ∉ t := by
    rintro i d d' rfl hmem
    have hd := (h.has i d').mpr ⟨hmem, result?_of_fresh hm⟩
    rw [directory?_of_fresh hm] at hd
    cases hd
  refine ⟨fun i d => ⟨fun hd => ⟨?_, result?_of_directory? hd⟩, ?_⟩, fun {i d d'} hd hd' => ?_⟩
  · rw [directory?_of_moves hm] at hd
    rw [List.mem_append, List.mem_singleton]
    cases e with
    | makeDirectory j made =>
      cases made with
      | error fault => exact .inl ((h.has i d).mp hd).1
      | ok path =>
        simp only [Event.directoryAfter] at hd
        split at hd
        case isTrue hij =>
          obtain rfl := Option.some.inj hd
          exact .inr (by rw [hij])
        case isFalse => exact .inl ((h.has i d).mp hd).1
    | removeDirectory j =>
      simp only [Event.directoryAfter] at hd
      split at hd
      case isTrue => cases hd
      case isFalse => exact .inl ((h.has i d).mp hd).1
    | _ => exact .inl ((h.has i d).mp hd).1
  · rintro ⟨hmem, hr⟩
    rw [directory?_of_moves hm]
    rcases List.mem_append.mp hmem with hmem | hmem
    · have hd := (h.has i d).mpr ⟨hmem, result?_none_of_moves hm hr⟩
      cases e with
      | makeDirectory j made =>
        cases made with
        | error fault => exact hd
        | ok path =>
          refine (if_neg ?_).trans hd
          rintro rfl
          exact hfirst rfl ‹_›
      | removeDirectory j =>
        refine (if_neg ?_).trans hd
        rintro rfl
        exact result?_of_removed hm hr
      | _ => exact hd
    · obtain rfl := List.mem_singleton.mp hmem
      exact if_pos rfl
  · rcases List.mem_append.mp hd with hd | hd <;> rcases List.mem_append.mp hd' with hd' | hd'
    · exact h.once hd hd'
    · exact absurd hd (hfirst (List.mem_singleton.mp hd').symm)
    · exact absurd hd' (hfirst (List.mem_singleton.mp hd).symm)
    · have he := (List.mem_singleton.mp hd).trans (List.mem_singleton.mp hd').symm
      simpa using he

theorem run_concat (s : Session) (es : List Event) (e : Event) :
    (s.run (es ++ [e]) = s.run es ∧ s.happened (es ++ [e]) = s.happened es) ∨
      ((s.run es).Moves e (s.run (es ++ [e])) ∧ s.happened (es ++ [e]) = s.happened es ++ [e]) := by
  rw [run_append, run_cons, run_nil, happened_append, happened, step]
  rcases hs : (s.run es).step? e with _ | next
  · exact .inl ⟨rfl, by simp [happened]⟩
  · exact .inr ⟨moves_of_step? hs, by simp [happened]⟩

theorem made_run (service : Service) (events : List Event) :
    ((new service).run events).Made ((new service).happened events) := by
  induction events using List.reverseRecOn with
  | nil => constructor <;> simp [happened, new, directory?, phase?]
  | append_singleton es e ih =>
    rcases run_concat (new service) es e with ⟨hr, hh⟩ | ⟨hm, hh⟩
    · rw [hr, hh]
      exact ih
    · rw [hh]
      exact ih.of_moves hm

/-! ## Where certificates come from -/

def obtained? (s : Session) (i : Nat) : Option Bytes := (s.phase? i).bind Phase.obtained?

theorem obtained?_of_result? {certificate : Bytes} (h : s.result? i = some (.ok certificate)) :
    s.obtained? i = some certificate := by
  obtain ⟨p, hp, hr⟩ := Option.bind_eq_some_iff.mp h
  rw [obtained?, hp, Option.bind_some]
  cases p <;> simp only [Phase.result?, reduceCtorEq, Option.some.injEq] at hr
  rw [hr]
  rfl

private theorem obtained?_of_moves {certificate : Bytes} (hm : s.Moves e next)
    (h : next.obtained? i = some certificate) : s.obtained? i = some certificate ∨
      (e = .readCertificate i ∧ ∃ d staging, s.directory? i = some d ∧ s.staging? d = some staging ∧
        staging.certificate = .ok certificate) := by
  have hentered : ∀ {k : Nat} {c : SigningCall} {p : Phase}, s.calls[k]? = some c →
      next.calls = (s.enter k p).calls → (i = k ∧ p.obtained? = some certificate) ∨ s.obtained? i = some certificate := by
    intro k c p hc hn
    rw [obtained?, phase?_entered hc hn] at h
    split at h
    case isTrue hk => exact .inl ⟨hk, h⟩
    case isFalse => exact .inr h
  have hother : ∀ {k : Nat} {c : SigningCall} {p : Phase}, s.calls[k]? = some c →
      next.calls = (s.enter k p).calls → p.obtained? = none → s.obtained? i = some certificate := by
    intro k c p hc hn hp
    refine (hentered hc hn).resolve_left ?_
    simp [hp]
  cases hm with
  | request r =>
    rw [obtained?, phase?_request] at h
    split at h
    case isTrue => cases h
    case isFalse => exact .inl h
  | arrive | closeInput => exact .inl h
  | announce call phase => exact .inl (hother call rfl (by split <;> rfl))
  | takeLine call phase holds ready first => exact .inl (hother call rfl (by split <;> rfl))
  | finish call phase => exact .inl (hother call rfl (by split <;> rfl))
  | holdInput call phase | noDirectory call phase | makeDirectory call phase | notStaged call phase
  | stage call phase | holdConsole call phase | start call phase => exact .inl (hother call rfl rfl)
  | @readCertificate k c path d call phase staging =>
    rcases hentered call rfl with ⟨rfl, hp⟩ | hold
    · refine .inr ⟨rfl, path, d, by rw [directory?_of_call call, phase]; rfl, staging, ?_⟩
      cases hd : d.certificate with
      | error fault => simp [hd, Except.mapError, Phase.obtained?] at hp
      | ok found => simpa [hd, Except.mapError, Phase.obtained?] using hp
    · exact .inl hold
  | @removeDirectory k c path result call phase =>
    rcases hentered call rfl with ⟨rfl, hp⟩ | hold
    · rw [obtained?, phase?_of_call call, phase]
      cases result with
      | error fault => simp [Except.mapError, Phase.obtained?] at hp
      | ok found => exact .inl hp
    · exact .inl hold

/-- The step at which a call reads a certificate from its directory. -/
structure ReadAt (service : Service) (before : List Event) (i : Nat) (d certificate : Bytes) : Prop where
  made : .makeDirectory i (.ok d) ∈ (new service).happened before
  there : ∃ staging, ((new service).run before).staging? d = some staging ∧ staging.certificate = .ok certificate

private theorem exists_readAt {service : Service} {events : List Event} {certificate : Bytes}
    (h : ((new service).run events).obtained? i = some certificate) :
    ∃ before after d, events = before ++ .readCertificate i :: after ∧ ReadAt service before i d certificate := by
  induction events using List.reverseRecOn with
  | nil => simp [new, obtained?, phase?] at h
  | append_singleton es e ih =>
    have hold : ((new service).run es).obtained? i = some certificate → ∃ before after d,
        es ++ [e] = before ++ .readCertificate i :: after ∧ ReadAt service before i d certificate := by
      intro hc
      obtain ⟨before, after, d, rfl, hread⟩ := ih hc
      exact ⟨before, after ++ [e], d, by simp, hread⟩
    rcases run_concat (new service) es e with ⟨hr, -⟩ | ⟨hm, -⟩
    · exact hold (hr ▸ h)
    · rcases obtained?_of_moves hm h with hc | ⟨rfl, d, staging, hd, hs, hcert⟩
      · exact hold hc
      · exact ⟨es, [], d, rfl, (((made_run service es).has i d).mp hd).1, staging, hs, hcert⟩

/-! ## Housekeeping -/

/-- How the directories of a service stand after a run, told by what happened in it. -/
structure Housekeeping (service : Service) (events : List Event) : Prop where
  /-- The directories that are there are those of the calls that made theirs and have no result yet. -/
  present : ∀ d, d ∈ ((new service).run events).directoryPaths ↔
    ∃ i, .makeDirectory i (.ok d) ∈ (new service).happened events ∧ ((new service).run events).result? i = none
  nodup : ((new service).run events).directoryPaths.Nodup
  once : ∀ {i d d'}, .makeDirectory i (.ok d) ∈ (new service).happened events →
    .makeDirectory i (.ok d') ∈ (new service).happened events → d = d'
  own : ∀ {i j d}, .makeDirectory i (.ok d) ∈ (new service).happened events →
    ((new service).run events).result? i = none → .makeDirectory j (.ok d) ∈ (new service).happened events →
    ((new service).run events).result? j = none → i = j
  /-- While the tool runs, it is on the key of the call's request, which is in the call's directory. -/
  key : ∀ run ∈ ((new service).run events).openRuns, ∃ c d certificate,
    ((new service).run events).calls[run.call]? = some c ∧
    .makeDirectory run.call (.ok d) ∈ (new service).happened events ∧
    run.arguments = c.request.toolArguments ((new service).run events).service.identity.signer
      (Path.join d stagedName) ∧
    ((new service).run events).staging? d = some ⟨d, some c.request.key.bytes, certificate⟩
  /-- A certificate was read in the directory of its call. -/
  certificate : ∀ {i certificate}, ((new service).run events).result? i = some (.ok certificate) →
    ∃ before after d, events = before ++ .readCertificate i :: after ∧ ReadAt service before i d certificate
  /-- A call that is to part with its directory can do so at any time, and has its result then. -/
  leaves : ∀ {i d result}, ((new service).run events).phase? i = some (.leaving d result) →
    ((new service).run (events ++ [.removeDirectory i])).directoryPaths =
        ((new service).run events).directoryPaths.filter (· != d) ∧
      ((new service).run (events ++ [.removeDirectory i])).result? i = some (result.mapError .signingFailed)
  cleared : (∀ i < ((new service).run events).calls.length, ((new service).run events).result? i ≠ none) →
    ((new service).run events).directories = []

private theorem key_of_openRun (service : Service) (events : List Event) {run : ToolRun}
    (hrun : run ∈ ((new service).run events).openRuns) : ∃ c d certificate,
      ((new service).run events).calls[run.call]? = some c ∧
      .makeDirectory run.call (.ok d) ∈ (new service).happened events ∧
      run.arguments = c.request.toolArguments ((new service).run events).service.identity.signer
        (Path.join d stagedName) ∧
      ((new service).run events).staging? d = some ⟨d, some c.request.key.bytes, certificate⟩ := by
  obtain ⟨hmem, hopen⟩ := List.mem_filter.mp hrun
  have hh := housed_run service events
  obtain ⟨c, d, hc, -, hon⟩ := hh.runs run hmem
  rw [phase?_of_call hc, Option.any_some] at hopen
  cases hp : c.phase with
  | running path =>
    obtain rfl := hon.directory path hp
    obtain ⟨certificate, hkey⟩ := hh.key hc (d := path) (by rw [hp]; rfl)
    have hd : ((new service).run events).directory? run.call = some path := by
      rw [directory?_of_call hc, hp]
      rfl
    exact ⟨c, path, certificate, hc, (((made_run service events).has _ _).mp hd).1, hon.arguments, hkey⟩
  | _ => simp [hp, Phase.isRunning] at hopen

private theorem removes {result : Except SigningFault Bytes} (h : s.phase? i = some (.leaving d result)) :
    (s.step (.removeDirectory i)).directoryPaths = s.directoryPaths.filter (· != d) ∧
      (s.step (.removeDirectory i)).result? i = some (result.mapError .signingFailed) := by
  obtain ⟨c, hc, hp⟩ := Option.map_eq_some_iff.mp h
  have hstep : s.step (.removeDirectory i) = ({ s with directories := s.directories.filter (·.path != d) } : Session).enter
      i (.ended (result.mapError .signingFailed)) := by
    rw [step, step?_of_call hc rfl]
    simp [act, hp]
  rw [hstep]
  exact ⟨filter_paths s d, by simp [result?, phase?, enter, hc, Phase.result?]⟩

/-- Whatever calls are made, whatever order they take their steps in and whatever comes of each, their
directories are private and go away with them. -/
theorem directories_are_private (service : Service) (events : List Event) : Housekeeping service events := by
  have hkept := kept_run service events
  have hmade := made_run service events
  refine ⟨fun d => ?_, hkept.nodup, hmade.once, fun hi hri hj hrj => ?_, fun run => key_of_openRun service events,
    fun hr => exists_readAt (obtained?_of_result? hr), fun hleaving => ?_, fun hall => ?_⟩
  · rw [hkept.owned]
    exact exists_congr fun i => hmade.has i d
  · exact own_directory (housed_run service events) ((hmade.has _ _).mpr ⟨hi, hri⟩) ((hmade.has _ _).mpr ⟨hj, hrj⟩)
  · rw [run_append]
    exact removes hleaving
  · have hnone : ((new service).run events).directoryPaths = [] := by
      apply List.eq_nil_iff_forall_not_mem.mpr
      intro d hd
      obtain ⟨i, hi⟩ := (hkept.owned d).mp hd
      obtain ⟨c, hc, -⟩ := call_of_directory? hi
      exact hall i (List.getElem?_eq_some_iff.mp hc).1 (result?_of_directory? hi)
    simpa [directoryPaths] using hnone

private def housedService : Service := ⟨⟨Utf8.encode "ca", sampleKey⟩, false⟩

/-- Of four calls one gets no directory and one does not get its key staged; of the others one has the tool run. -/
private def fourHoused : List Event :=
  (List.range 4).flatMap (fun i => [.request ⟨"alice", .user, ["alice"], sampleKey⟩, .announce i]) ++
    [.makeDirectory 0 (.ok [48]), .makeDirectory 1 (.error .noEntry), .makeDirectory 2 (.ok [50]), .stage 0 (.ok ()),
      .makeDirectory 3 (.ok [51]), .stage 2 (.error .noEntry), .stage 3 (.ok ()), .holdConsole 3, .start 3]

/-- The others are signed for one after the other, and the second one finds no certificate. -/
private def fourEnded : List Event :=
  [.removeDirectory 2, .finish 3 ⟨none, .ok [67]⟩, .holdConsole 0, .readCertificate 3, .start 0, .removeDirectory 3,
    .finish 0 ⟨none, .error .noEntry⟩, .readCertificate 0, .removeDirectory 0]

theorem directories_of_four_calls :
    Housekeeping housedService fourHoused ∧ Housekeeping housedService (fourHoused ++ fourEnded) ∧
    ((new housedService).run fourHoused).directoryPaths = [[48], [50], [51]] ∧
    ((new housedService).run fourHoused).openRuns.map (·.call) = [3] ∧
    ((new housedService).run (fourHoused ++ fourEnded)).directoryPaths = [] ∧
    ((new housedService).run (fourHoused ++ fourEnded)).result? 3 = some (.ok [67]) :=
  ⟨directories_are_private housedService fourHoused, directories_are_private housedService (fourHoused ++ fourEnded),
    by decide, by decide, by decide, rfl⟩

end Session

end SshAuthority.Authority

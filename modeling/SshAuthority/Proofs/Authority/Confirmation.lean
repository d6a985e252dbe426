import SshAuthority.Proofs.Authority.Console
/-!
# No signature without its own confirmation

Where a service asks for confirmation, what was shown for a call and which lines were taken for it follow
from how far the call has come. So a call gets past the question with a line of its own, and nothing is
done for a call whose line was no confirmation.
-/
namespace SshAuthority.Authority

namespace Input

def linesOf (s : Input) (i : Nat) : List Bytes :=
  s.taken.filterMap fun x => if x.1 = i then some x.2 else none

def consumed (s : Input) : Bytes := (s.taken.map (·.2)).flatten

theorem mem_linesOf {s : Input} {i : Nat} {line : Bytes} : line ∈ s.linesOf i ↔ (i, line) ∈ s.taken := by
  simp only [linesOf, List.mem_filterMap]
  constructor
  · rintro ⟨⟨j, l⟩, hm, hx⟩
    by_cases hj : j = i
    · simp only [hj, if_true, Option.some.injEq] at hx
      rwa [← hj, ← hx]
    · simp [hj] at hx
  · exact fun hm => ⟨_, hm, by simp⟩

end Input

namespace Session

def asked (events : List Event) : List SignRequest :=
  events.filterMap fun
    | .request r => some r
    | _ => none

/-- What the operator typed until the input was closed. -/
def typed : List Event → Bytes
  | [] => []
  | .arrive piece :: events => piece ++ typed events
  | .closeInput :: _ => []
  | _ :: events => typed events

def announcements (s : Session) (i : Nat) : List String :=
  s.shown.filterMap fun x => if x.1 = i then some x.2 else none

/-- A call was shown to the operator, and a line was taken for it that is a confirmation. -/
def Approved (s : Session) (i : Nat) : Prop :=
  ∃ c line, s.calls[i]? = some c ∧ s.announcements i = [c.request.summary] ∧ s.input.linesOf i = [line] ∧
    Operator.isYes line

def Event.isPastGate : Event → Bool
  | .makeDirectory _ _ | .stage _ _ | .holdConsole _ | .start _ | .finish _ _ | .readCertificate _
  | .removeDirectory _ => true
  | _ => false

/-- From one state to the next, a directory is made or a run is started only for an approved call. -/
structure ActsApproved (s next : Session) : Prop where
  runs : next.runs = s.runs ∨ ∃ r, next.runs = s.runs ++ [r] ∧ s.Approved r.call
  directories : (next.directories.map (·.path)).Sublist (s.directories.map (·.path)) ∨
    ∃ i d, next.directories = s.directories ++ [d] ∧ s.Approved i

/-- What holds of the announcements, the operator's input and the runs after some events. -/
structure Guarded (start : Session) (events : List Event) : Prop where
  requests : (start.run events).calls.map (·.request) = asked events
  announced : ∀ {i c}, (start.run events).calls[i]? = some c →
    (start.run events).announcements i = if c.phase.rank = 0 then [] else [c.request.summary]
  /-- The first step of a call is to be shown, and it never waits for that. -/
  first : ∀ {i}, (start.run events).phase? i = some .called → ∀ e : Event, e.call? = some i →
    (((start.run events).step? e).isSome ↔ e = .announce i)
  /-- It is shown with the summary of its request, behind all that was shown before, and waits to be confirmed. -/
  shows : ∀ {i c}, (start.run events).calls[i]? = some c → c.phase = .called →
    (start.run (events ++ [.announce i])).shown = (start.run events).shown ++ [(i, c.request.summary)] ∧
      (start.run (events ++ [.announce i])).phase? i = some .announced
  steps : ∀ e, (start.run events).ActsApproved ((start.run events).step e)
  input : typed events = (start.run events).input.consumed ++ (start.run events).input.arrived
  /-- Each run has a confirmation to itself. -/
  confirmations : ((start.run events).runs.map (·.call)).Subperm
    (((start.run events).input.taken.filter fun x => Operator.isYes x.2).map (·.1))
  bounded : (start.run events).runs.length ≤ (start.run events).input.consumed.count Operator.newline
  /-- A line that is no confirmation ends the call it was taken for, which never got any further. -/
  refused : ∀ {i line}, (i, line) ∈ (start.run events).input.taken → Operator.isYes line = false →
    (start.run events).result? i = some (.error .notConfirmed) ∧
      i ∉ (start.run events).runs.map (·.call) ∧
      ∀ before e after, events = before ++ e :: after → e.call? = some i → e.isPastGate →
        (start.run before).step? e = none

/-! ## What was shown and taken for a call -/

/-- A call whose line was no confirmation. -/
def Refused (c : SigningCall) : Prop := c.phase = .ended (.error .notConfirmed)

/-- The history of a call follows from how far it has come. -/
structure Tracked (s : Session) (i : Nat) (c : SigningCall) : Prop where
  announced : s.announcements i = if c.phase.rank = 0 then [] else [c.request.summary]
  waiting : c.phase.rank < 3 → s.input.linesOf i = []
  answered : 3 ≤ c.phase.rank →
    ∃ line, s.input.linesOf i = [line] ∧ (Operator.isYes line = false ↔ Refused c)

structure Gated (s : Session) : Prop where
  confirms : s.service.confirms = true
  shown : ∀ x ∈ s.shown, x.1 < s.calls.length
  taken : ∀ x ∈ s.input.taken, x.1 < s.calls.length
  calls : ∀ {i c}, s.calls[i]? = some c → s.Tracked i c

/-- Two phases between which nothing is shown and no line is taken. -/
structure SameSide (p q : Phase) : Prop where
  announced : p.rank = 0 ↔ q.rank = 0
  waiting : p.rank < 3 ↔ q.rank < 3
  refused : p = .ended (.error .notConfirmed) ↔ q = .ended (.error .notConfirmed)

private theorem Tracked.of_eq {s t : Session} {i : Nat} {c : SigningCall} (h : s.Tracked i c)
    (ha : t.announcements i = s.announcements i) (hl : t.input.linesOf i = s.input.linesOf i) :
    t.Tracked i c :=
  ⟨ha ▸ h.announced, hl ▸ h.waiting, hl ▸ h.answered⟩

private theorem length_entered {s t : Session} {i : Nat} {p : Phase}
    (ht : t.calls = (s.enter i p).calls) : t.calls.length = s.calls.length := by
  rw [ht, enter_length]

private theorem gated_entered {s t : Session} {i : Nat} {c : SigningCall} {p : Phase} (h : s.Gated)
    (hc : s.calls[i]? = some c) (ht : t.calls = (s.enter i p).calls) (hv : t.service = s.service)
    (hs : t.shown = s.shown) (hk : t.input.taken = s.input.taken) (hp : SameSide c.phase p) :
    t.Gated := by
  have hl := length_entered ht
  refine ⟨hv ▸ h.confirms, fun x hx => ?_, fun x hx => ?_, fun {j d} hd => ?_⟩
  · rw [hl]
    exact h.shown x (hs ▸ hx)
  · rw [hl]
    exact h.taken x (hk ▸ hx)
  · have ha : t.announcements j = s.announcements j := by rw [announcements, hs, announcements]
    have hn : t.input.linesOf j = s.input.linesOf j := by rw [Input.linesOf, hk, Input.linesOf]
    rcases getElem?_entered hc ht hd with ⟨rfl, rfl⟩ | ⟨-, hd⟩
    · have hi := h.calls hc
      refine ⟨?_, fun hw => ?_, fun hw => ?_⟩
      · rw [ha, hi.announced]
        simp only [hp.announced]
      · rw [hn]
        exact hi.waiting (hp.waiting.mpr hw)
      · rw [hn]
        obtain ⟨line, hl, hy⟩ := hi.answered (Nat.not_lt.mp (hp.waiting.not.mpr (Nat.not_lt.mpr hw)))
        exact ⟨line, hl, hy.trans hp.refused⟩
    · exact (h.calls hd).of_eq ha hn

private theorem gated_request {s : Session} (h : s.Gated) (r : SignRequest) : (s.request r).Gated := by
  have hl : (s.request r).calls.length = s.calls.length + 1 := by simp [request]
  refine ⟨h.confirms, fun x hx => ?_, fun x hx => ?_, fun {j d} hd => ?_⟩
  · have := h.shown x hx
    omega
  · have := h.taken x hx
    omega
  · rcases getElem?_append_new hd with hd | ⟨rfl, rfl⟩
    · have hi := h.calls hd
      exact ⟨hi.announced, hi.waiting, hi.answered⟩
    · refine ⟨?_, fun _ => ?_, fun hw => ?_⟩
      · refine List.filterMap_eq_nil_iff.mpr fun x hx => if_neg ?_
        have := h.shown x hx
        omega
      · refine List.filterMap_eq_nil_iff.mpr fun x hx => if_neg ?_
        have := h.taken x hx
        omega
      · simp [Phase.rank] at hw

private theorem gated_announce {s : Session} {i : Nat} {c : SigningCall} (h : s.Gated)
    (hc : s.calls[i]? = some c) (hp : c.phase = .called) :
    (({ s with shown := s.shown ++ [(i, c.request.summary)] } : Session).enter i .announced).Gated := by
  have hi := h.calls hc
  have hn : s.announcements i = [] := by simp [hi.announced, hp, Phase.rank]
  refine ⟨h.confirms, fun x hx => ?_, fun x hx => ?_, fun {j d} hd => ?_⟩
  · rw [enter_length]
    rcases List.mem_append.mp hx with hx | hx
    · exact h.shown x hx
    · rw [List.mem_singleton.mp hx]
      exact (List.getElem?_eq_some_iff.mp hc).1
  · rw [enter_length]
    exact h.taken x hx
  · rcases getElem?_entered (s := s) hc rfl hd with ⟨rfl, rfl⟩ | ⟨hj, hd⟩
    · refine ⟨?_, fun _ => hi.waiting (by simp [hp, Phase.rank]), fun hw => by simp [Phase.rank] at hw⟩
      rw [announcements, enter_shown, List.filterMap_append, ← announcements, hn]
      simp [Phase.rank]
    · refine (h.calls hd).of_eq ?_ rfl
      rw [announcements, enter_shown, List.filterMap_append]
      simp [announcements, Ne.symm hj]

private theorem gated_takeLine {s : Session} {i : Nat} {c : SigningCall} {line rest : Bytes} (h : s.Gated)
    (hc : s.calls[i]? = some c) (hp : c.phase = .confirming) :
    (({ s with
        input := { s.input with
          arrived := rest, holder := none, taken := s.input.taken ++ [(i, line)] } } : Session).enter i
      (if Operator.isYes line then .confirmed else .ended (.error .notConfirmed))).Gated := by
  have hi := h.calls hc
  have hn : s.input.linesOf i = [] := hi.waiting (by simp [hp, Phase.rank])
  refine ⟨h.confirms, fun x hx => ?_, fun x hx => ?_, fun {j d} hd => ?_⟩
  · rw [enter_length]
    exact h.shown x hx
  · rw [enter_length]
    rcases List.mem_append.mp hx with hx | hx
    · exact h.taken x hx
    · rw [List.mem_singleton.mp hx]
      exact (List.getElem?_eq_some_iff.mp hc).1
  · rcases getElem?_entered (s := s) hc rfl hd with ⟨rfl, rfl⟩ | ⟨hj, hd⟩
    · refine ⟨?_, fun hw => ?_, fun _ => ⟨line, ?_, ?_⟩⟩
      · have ha := hi.announced
        rw [hp] at ha
        split <;> exact ha
      · split at hw <;> simp [Phase.rank] at hw
      · rw [Input.linesOf, enter_input, List.filterMap_append, ← Input.linesOf, hn]
        simp
      · cases hy : Operator.isYes line <;> simp [Refused]
    · refine (h.calls hd).of_eq rfl ?_
      rw [Input.linesOf, enter_input, List.filterMap_append]
      simp [Input.linesOf, Ne.symm hj]

/-- What a step past the question needs and leaves alone. -/
private structure Passing (s next : Session) (i : Nat) (c : SigningCall) (p : Phase) : Prop where
  call : s.calls[i]? = some c
  calls : next.calls = (s.enter i p).calls
  service : next.service = s.service
  shown : next.shown = s.shown
  input : next.input = s.input
  answered : 3 ≤ c.phase.rank
  live : c.phase.rank < 10
  further : c.phase.rank < p.rank
  confirmed : p ≠ .ended (.error .notConfirmed)

private theorem passing_of_moves {s next : Session} {e : Event} (hm : s.Moves e next)
    (he : e.isPastGate) : ∃ i c p, e.call? = some i ∧ Passing s next i c p := by
  cases hm with
  | request | arrive | closeInput | announce | holdInput | takeLine => cases he
  | noDirectory call phase =>
    refine ⟨_, _, _, rfl, call, rfl, rfl, rfl, rfl, ?_, ?_, ?_, by simp⟩ <;> simp [phase, Phase.rank]
  | makeDirectory call phase fresh =>
    refine ⟨_, _, _, rfl, call, rfl, rfl, rfl, rfl, ?_, ?_, ?_, by simp⟩ <;> simp [phase, Phase.rank]
  | notStaged call phase =>
    refine ⟨_, _, _, rfl, call, rfl, rfl, rfl, rfl, ?_, ?_, ?_, by simp⟩ <;> simp [phase, Phase.rank]
  | stage call phase =>
    refine ⟨_, _, _, rfl, call, rfl, rfl, rfl, rfl, ?_, ?_, ?_, by simp⟩ <;> simp [phase, Phase.rank]
  | holdConsole call phase free =>
    refine ⟨_, _, _, rfl, call, rfl, rfl, rfl, rfl, ?_, ?_, ?_, by simp⟩ <;> simp [phase, Phase.rank]
  | start call phase =>
    refine ⟨_, _, _, rfl, call, rfl, rfl, rfl, rfl, ?_, ?_, ?_, by simp⟩ <;> simp [phase, Phase.rank]
  | @finish i c path outcome call phase =>
    refine ⟨_, _, _, rfl, call, rfl, rfl, rfl, rfl, ?_, ?_, ?_, ?_⟩ <;>
      cases outcome.failure <;> simp [phase, Phase.rank]
  | readCertificate call phase staging =>
    refine ⟨_, _, _, rfl, call, rfl, rfl, rfl, rfl, ?_, ?_, ?_, by simp⟩ <;> simp [phase, Phase.rank]
  | @removeDirectory i c path result call phase =>
    refine ⟨_, _, _, rfl, call, rfl, rfl, rfl, rfl, ?_, ?_, ?_, ?_⟩ <;>
      cases result <;> simp [phase, Phase.rank, Except.mapError]

private theorem Passing.sameSide {s next : Session} {i : Nat} {c : SigningCall} {p : Phase}
    (h : Passing s next i c p) : SameSide c.phase p := by
  have ha := h.answered
  have hf := h.further
  refine ⟨by omega, by omega, iff_of_false (fun hp => ?_) h.confirmed⟩
  have hl := h.live
  simp [hp, Phase.rank] at hl

private theorem gated_step (s : Session) (e : Event) (next : Session) (h : s.Gated)
    (hm : s.Moves e next) : next.Gated := by
  by_cases he : e.isPastGate
  · obtain ⟨i, c, p, -, hp⟩ := passing_of_moves hm he
    exact gated_entered h hp.call hp.calls hp.service hp.shown (by rw [hp.input]) hp.sameSide
  · cases hm with
    | request r => exact gated_request h r
    | arrive piece =>
      have hk : (s.input.arrive piece).taken = s.input.taken := by
        rw [Input.arrive]
        split <;> rfl
      refine ⟨h.confirms, h.shown, hk ▸ h.taken, fun hd => (h.calls hd).of_eq rfl ?_⟩
      rw [Input.linesOf, hk, Input.linesOf]
    | closeInput => exact ⟨h.confirms, h.shown, h.taken, fun hd => (h.calls hd).of_eq rfl rfl⟩
    | announce call phase =>
      rw [if_pos h.confirms]
      exact gated_announce h call phase
    | holdInput call phase free =>
      refine gated_entered h call rfl rfl rfl rfl ?_
      rw [phase]
      exact ⟨by simp [Phase.rank], by simp [Phase.rank], by simp⟩
    | takeLine call phase holds ready first => exact gated_takeLine h call phase
    | _ => exact absurd rfl he

theorem gated_run (identity : Identity) (events : List Event) :
    ((Session.new ⟨identity, true⟩).run events).Gated :=
  run_preserves gated_step ⟨rfl, by simp [Session.new], by simp [Session.new, Input.empty], by
    simp [Session.new]⟩ events

/-! ## What an approved call can do -/

private theorem Gated.approved {s : Session} (h : s.Gated) {i : Nat} {c : SigningCall}
    (hc : s.calls[i]? = some c) (hr : 3 ≤ c.phase.rank) (hl : c.phase.rank < 10) : s.Approved i := by
  obtain ⟨line, hl', hy⟩ := (h.calls hc).answered hr
  refine ⟨c, line, hc, ?_, hl', ?_⟩
  · rw [(h.calls hc).announced, if_neg (by omega)]
  · by_contra hn
    rw [hy.mp (eq_false_of_ne_true hn)] at hl
    simp [Phase.rank] at hl

private theorem taken_of_moves {s next : Session} {e : Event} (hm : s.Moves e next) :
    s.input.taken <+: next.input.taken := by
  cases hm with
  | arrive piece =>
    simp only [Input.arrive]
    split <;> exact List.prefix_refl _
  | takeLine => exact List.prefix_append _ _
  | _ => exact List.prefix_refl _

theorem taken_run (s : Session) (events : List Event) : s.input.taken <+: (s.run events).input.taken :=
  run_preserves (P := fun t => s.input.taken <+: t.input.taken)
    (fun _ _ _ h hm => h.trans (taken_of_moves hm)) (List.prefix_refl _) events

private theorem directories_of_moves {s next : Session} {e : Event} (h : s.Gated) (hm : s.Moves e next) :
    (next.directories.map (·.path)).Sublist (s.directories.map (·.path)) ∨
      ∃ i d, next.directories = s.directories ++ [d] ∧ s.Approved i := by
  cases hm with
  | makeDirectory call phase fresh =>
    exact .inr ⟨_, _, rfl, h.approved call (by simp [phase, Phase.rank]) (by simp [phase, Phase.rank])⟩
  | @stage i c path call phase =>
    have hp := updateStaging_paths s path (f := fun d => { d with key := some c.request.key.bytes })
      fun _ => rfl
    exact .inl (hp ▸ List.Sublist.refl _)
  | @finish i c path outcome call phase =>
    have hp := updateStaging_paths s path (f := fun d => { d with certificate := outcome.certificate })
      fun _ => rfl
    exact .inl (hp ▸ List.Sublist.refl _)
  | removeDirectory call phase => exact .inl (List.filter_sublist.map _)
  | _ => exact .inl (List.Sublist.refl _)

private theorem actsApproved_of_moves {s next : Session} {e : Event} (h : s.Gated)
    (hm : s.Moves e next) : s.ActsApproved next := by
  refine ⟨?_, directories_of_moves h hm⟩
  rcases runs_of_moves hm with hr | ⟨r, path, hr, hp, -⟩
  · exact .inl hr
  · obtain ⟨c, hc, hp⟩ := Option.map_eq_some_iff.mp hp
    exact .inr ⟨r, hr, h.approved hc (by simp [hp, Phase.rank]) (by simp [hp, Phase.rank])⟩

/-! ## Confirmations of runs -/

/-- Each run's call took a line that is a confirmation. -/
def RunsConfirmed (s : Session) : Prop :=
  ∀ r ∈ s.runs, ∃ line, (r.call, line) ∈ s.input.taken ∧ Operator.isYes line

private theorem runsConfirmed_step (s : Session) (e : Event) (next : Session)
    (h : s.Gated ∧ s.RunsConfirmed) (hm : s.Moves e next) : next.Gated ∧ next.RunsConfirmed := by
  refine ⟨gated_step s e next h.1 hm, fun r hr => ?_⟩
  have hold : ∀ i line, (i, line) ∈ s.input.taken → (i, line) ∈ next.input.taken :=
    fun _ _ ht => (taken_of_moves hm).subset ht
  have hrun : r ∈ s.runs ∨ s.Approved r.call := by
    rcases (actsApproved_of_moves h.1 hm).runs with hn | ⟨r', hn, ha⟩
    · exact .inl (hn ▸ hr)
    · rw [hn, List.mem_append, List.mem_singleton] at hr
      rcases hr with hr | rfl
      · exact .inl hr
      · exact .inr ha
  rcases hrun with hr | ⟨c, line, -, -, hl, hy⟩
  · obtain ⟨line, ht, hy⟩ := h.2 r hr
    exact ⟨line, hold _ _ ht, hy⟩
  · exact ⟨line, hold _ _ (Input.mem_linesOf.mp (by simp [hl])), hy⟩

private theorem runsConfirmed_run (identity : Identity) (events : List Event) :
    ((Session.new ⟨identity, true⟩).run events).RunsConfirmed :=
  (run_preserves (P := fun s => s.Gated ∧ s.RunsConfirmed) runsConfirmed_step
    ⟨gated_run identity [], by simp [RunsConfirmed, Session.new]⟩ events).2

private theorem confirmations_subperm {s : Session} (h : s.RunsConfirmed) (hr : s.RunOnce) :
    (s.runs.map (·.call)).Subperm ((s.input.taken.filter fun x => Operator.isYes x.2).map (·.1)) := by
  refine hr.nodup.subperm fun i hi => ?_
  obtain ⟨r, hr, rfl⟩ := List.mem_map.mp hi
  obtain ⟨line, ht, hy⟩ := h r hr
  exact List.mem_map.mpr ⟨_, List.mem_filter.mpr ⟨ht, hy⟩, rfl⟩

theorem one_le_count_of_isYes {line : Bytes} (h : Operator.isYes line) :
    1 ≤ line.count Operator.newline := by
  simp only [Operator.isYes, Bool.and_eq_true, decide_eq_true_eq] at h
  exact List.one_le_count_iff.mpr (List.mem_of_getLast? h.1)

theorem confirmations_le_count (s : Input) :
    (s.taken.filter fun x => Operator.isYes x.2).length ≤ s.consumed.count Operator.newline := by
  simp only [Input.consumed]
  induction s.taken with
  | nil => simp
  | cons x taken ih =>
    rw [List.map_cons, List.flatten_cons, List.count_append]
    by_cases hy : Operator.isYes x.2
    · have hc := one_le_count_of_isYes hy
      simp only [List.filter_cons, hy, if_true, List.length_cons]
      omega
    · simp only [List.filter_cons, hy, Bool.false_eq_true, if_false]
      omega

/-! ## What was typed -/

theorem takeLine_append {input line rest : Bytes} (h : Operator.takeLine input = (line, rest)) :
    line ++ rest = input := by
  have hp := List.prefix_iff_eq_append.mp (List.takeWhile_prefix (l := input) (· != Operator.newline))
  simp only [Operator.takeLine] at h
  split at h
  case h_1 hd =>
    obtain ⟨rfl, rfl⟩ := Prod.mk.inj h
    rw [hd] at hp
    exact hp
  case h_2 b after hd =>
    obtain ⟨rfl, rfl⟩ := Prod.mk.inj h
    rw [hd] at hp
    rw [List.append_assoc]
    exact hp

/-- The input so far, taken or not. -/
def received (s : Session) : Bytes := s.input.consumed ++ s.input.arrived

private theorem received_of_moves {s next : Session} {e : Event} (hm : s.Moves e next)
    (events : List Event) : next.received ++ (if next.input.ended then [] else typed events) =
      s.received ++ (if s.input.ended then [] else typed (e :: events)) := by
  cases hm with
  | arrive piece =>
    cases he : s.input.ended <;> simp [received, Input.arrive, Input.consumed, he, typed]
  | closeInput => simp [received, Input.close, Input.consumed, typed]
  | takeLine call phase holds ready first =>
    have ha := takeLine_append first
    refine congrArg₂ (· ++ ·) ?_ rfl
    simp [received, Input.consumed, ← ha]
  | _ => rfl

private theorem typed_of_blocked {s : Session} {e : Event} (h : s.step? e = none)
    (events : List Event) : typed (e :: events) = typed events := by
  cases e with
  | arrive | closeInput => cases h
  | _ => rfl

theorem received_run (s : Session) (events : List Event) :
    (s.run events).received = s.received ++ (if s.input.ended then [] else typed events) := by
  induction events generalizing s with
  | nil => simp [typed]
  | cons e events ih =>
    rw [run_cons, ih]
    rcases hn : s.step? e with _ | next
    · rw [step, hn, Option.getD_none, typed_of_blocked hn]
    · rw [step, hn, Option.getD_some, received_of_moves (moves_of_step? hn)]

/-! ## Requests and first steps -/

private theorem requests_of_moves {s next : Session} {e : Event} (hm : s.Moves e next) :
    next.calls.map (·.request) = s.calls.map (·.request) ++ asked [e] := by
  cases hm with
  | request r => simp [request, asked]
  | arrive | closeInput => simp [asked]
  | _ => simp [enter_requests, asked, updateStaging]

theorem requests_run (s : Session) (events : List Event) :
    (s.run events).calls.map (·.request) = s.calls.map (·.request) ++ asked events := by
  induction events generalizing s with
  | nil => simp [asked]
  | cons e events ih =>
    have ha : asked (e :: events) = asked [e] ++ asked events := List.filterMap_append (l := [e])
    rw [run_cons, ih, ha, ← List.append_assoc]
    congr 1
    rcases hn : s.step? e with _ | next
    · rw [step, hn]
      cases e with
      | request => cases hn
      | _ => simp [asked]
    · rw [step, hn]
      exact requests_of_moves (moves_of_step? hn)

theorem first_step {s : Session} {i : Nat} (h : s.phase? i = some .called) {e : Event}
    (he : e.call? = some i) : (s.step? e).isSome ↔ e = .announce i := by
  obtain ⟨c, hc, hp⟩ := Option.map_eq_some_iff.mp h
  rw [step?_of_call hc he]
  cases e with
  | request | arrive | closeInput => cases he
  | announce j =>
    obtain rfl := Option.some.inj he
    simp [act, hp]
  | _ => simp [act, hp]

private theorem Gated.shows {s : Session} (h : s.Gated) {i : Nat} {c : SigningCall} (hc : s.calls[i]? = some c)
    (hp : c.phase = .called) : (s.step (.announce i)).shown = s.shown ++ [(i, c.request.summary)] ∧
      (s.step (.announce i)).phase? i = some .announced := by
  have hstep : s.step (.announce i) =
      ({ s with shown := s.shown ++ [(i, c.request.summary)] } : Session).enter i .announced := by
    rw [step, step?_of_call hc rfl]
    simp [act, hp, h.confirms]
  rw [hstep]
  exact ⟨rfl, by simp [phase?, enter, hc]⟩

/-! ## Refusals -/

private theorem line_taken {s : Session} (h : s.Gated) {i : Nat} {line : Bytes}
    (ht : (i, line) ∈ s.input.taken) :
    s.input.linesOf i = [line] ∧
      (Operator.isYes line = false → s.phase? i = some (.ended (.error .notConfirmed))) := by
  obtain ⟨c, hc⟩ : ∃ c, s.calls[i]? = some c := ⟨_, List.getElem?_eq_getElem (h.taken _ ht)⟩
  have hm := Input.mem_linesOf.mpr ht
  have hr : 3 ≤ c.phase.rank := by
    by_contra hw
    rw [(h.calls hc).waiting (by omega)] at hm
    cases hm
  obtain ⟨line', hl, hiff⟩ := (h.calls hc).answered hr
  rw [hl, List.mem_singleton] at hm
  subst hm
  exact ⟨hl, fun hy => by rw [phase?_of_call hc, hiff.mp hy]⟩

private theorem not_yes_of_refused {s : Session} (h : s.Gated) {i : Nat} {line line' : Bytes}
    (ht : (i, line) ∈ s.input.taken) (hy : Operator.isYes line = false)
    (ht' : (i, line') ∈ s.input.taken) : Operator.isYes line' = false := by
  have hm := Input.mem_linesOf.mpr ht'
  rw [(line_taken h ht).1, List.mem_singleton] at hm
  rw [hm, hy]

private theorem blocked_of_refused {before after : Session} (hb : before.Gated) (ha : after.Gated)
    (hp : before.input.taken <+: after.input.taken) {i : Nat} {line : Bytes}
    (ht : (i, line) ∈ after.input.taken) (hy : Operator.isYes line = false) {e : Event}
    (he : e.call? = some i) (hg : e.isPastGate) : before.step? e = none := by
  rcases hn : before.step? e with _ | next
  · rfl
  · obtain ⟨j, c, p, hj, hpass⟩ := passing_of_moves (moves_of_step? hn) hg
    obtain rfl := Option.some.inj (he.symm.trans hj)
    obtain ⟨c, line', -, -, hl, hyes⟩ := hb.approved hpass.call hpass.answered hpass.live
    have ht' : (i, line') ∈ before.input.taken := Input.mem_linesOf.mp (by simp [hl])
    rw [not_yes_of_refused ha ht hy (hp.subset ht')] at hyes
    cases hyes

/-- With confirmation on, nothing is signed but what the operator was shown and confirmed, and each
confirmation counts once. -/
theorem signs_only_confirmed (identity : Identity) (events : List Event) :
    Guarded (new ⟨identity, true⟩) events := by
  have h := gated_run identity events
  have hc := runsConfirmed_run identity events
  have hs := confirmations_subperm hc (runOnce_run ⟨identity, true⟩ events)
  refine ⟨?_, fun hi => (h.calls hi).announced, fun hi e => first_step hi, fun hi hp => ?_, fun e => ?_, ?_, hs, ?_,
    ?_⟩
  · simpa [new] using requests_run (new ⟨identity, true⟩) events
  · rw [run_append]
    exact h.shows hi hp
  · rcases hn : ((new ⟨identity, true⟩).run events).step? e with _ | next
    · rw [step, hn]
      exact ⟨.inl rfl, .inl (List.Sublist.refl _)⟩
    · rw [step, hn]
      exact actsApproved_of_moves h (moves_of_step? hn)
  · simpa [new, received, Input.consumed, Input.empty] using
      (received_run (new ⟨identity, true⟩) events).symm
  · have hl := hs.length_le
    rw [List.length_map, List.length_map] at hl
    exact Nat.le_trans hl (confirmations_le_count _)
  · intro i line ht hy
    refine ⟨?_, fun hr => ?_, fun before e after he hi hg => ?_⟩
    · rw [result?, (line_taken h ht).2 hy]
      rfl
    · obtain ⟨r, hm, rfl⟩ := List.mem_map.mp hr
      obtain ⟨line', ht', hyes⟩ := hc r hm
      rw [not_yes_of_refused h ht hy ht'] at hyes
      cases hyes
    · refine blocked_of_refused (gated_run identity before) h ?_ ht hy hi hg
      rw [he, run_append]
      exact taken_run _ _

private def gateIdentity : Identity := ⟨Utf8.encode "ca", sampleKey⟩

/-- Three calls are shown; the second one is confirmed and signed, the first one refused, and the third one waits. -/
private def threeAsked : List Event :=
  let asks (name : String) : Event := .request ⟨name, .user, [name], sampleKey⟩
  [asks "alice", asks "bob", .announce 1, asks "carol", .announce 0, .holdInput 1, .announce 2,
    .arrive (Utf8.encode "yes\nno"), .takeLine 1, .makeDirectory 1 (.ok [47]), .stage 1 (.ok ()), .holdConsole 1,
    .start 1, .holdInput 0, .closeInput, .takeLine 0]

theorem signs_only_the_confirmed_call : Guarded (new ⟨gateIdentity, true⟩) threeAsked ∧
    ((new ⟨gateIdentity, true⟩).run threeAsked).shown.map (·.1) = [1, 0, 2] ∧
    ((new ⟨gateIdentity, true⟩).run threeAsked).input.taken = [(1, Utf8.encode "yes\n"), (0, Utf8.encode "no")] ∧
    ((new ⟨gateIdentity, true⟩).run threeAsked).runs.map (·.call) = [1] ∧
    ((new ⟨gateIdentity, true⟩).run threeAsked).result? 0 = some (.error .notConfirmed) :=
  ⟨signs_only_confirmed gateIdentity threeAsked, by decide, by decide, by decide, rfl⟩

end Session

end SshAuthority.Authority

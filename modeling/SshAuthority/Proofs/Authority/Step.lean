import SshAuthority.Authority.Session
import SshAuthority.Proofs.Places
/-!
# The steps of a session

Everything a step of a session can do, as one rule for each way an event can happen: what it needs and
what it leaves. Laws on runs are proved rule by rule.
-/
namespace SshAuthority.Authority

def Phase.rank : Phase → Nat
  | .called => 0
  | .announced => 1
  | .confirming => 2
  | .confirmed => 3
  | .housed _ => 4
  | .staged _ => 5
  | .attached _ => 6
  | .running _ => 7
  | .signed _ => 8
  | .leaving _ _ => 9
  | .ended _ => 10

namespace Session

/-! ## Entering a phase -/

@[simp] theorem enter_input (s : Session) (i : Nat) (p : Phase) : (s.enter i p).input = s.input := rfl

@[simp] theorem enter_service (s : Session) (i : Nat) (p : Phase) : (s.enter i p).service = s.service := rfl

@[simp] theorem enter_shown (s : Session) (i : Nat) (p : Phase) : (s.enter i p).shown = s.shown := rfl

@[simp] theorem enter_length (s : Session) (i : Nat) (p : Phase) :
    (s.enter i p).calls.length = s.calls.length := by
  simp [enter]

theorem enter_getElem?_of_ne {s : Session} {i j : Nat} (h : j ≠ i) (p : Phase) :
    (s.enter i p).calls[j]? = s.calls[j]? :=
  List.getElem?_modify_ne _ _ (Ne.symm h)

theorem enter_getElem?_self {s : Session} {i : Nat} {c : SigningCall} (h : s.calls[i]? = some c)
    (p : Phase) : (s.enter i p).calls[i]? = some { c with phase := p } :=
  (getElem?_modified h _ i).trans (if_pos rfl)

theorem enter_requests (s : Session) (i : Nat) (p : Phase) :
    (s.enter i p).calls.map (·.request) = s.calls.map (·.request) := by
  have hf : ∀ c : SigningCall, ({ c with phase := p } : SigningCall).request = c.request := fun _ => rfl
  exact map_modify hf s.calls i

theorem phase?_of_call {s : Session} {i : Nat} {c : SigningCall} (h : s.calls[i]? = some c) :
    s.phase? i = some c.phase := by
  simp [phase?, h]

theorem phase?_entered {s t : Session} {i : Nat} {c : SigningCall} {p : Phase} (h : s.calls[i]? = some c)
    (ht : t.calls = (s.enter i p).calls) (j : Nat) :
    t.phase? j = if j = i then some p else s.phase? j := by
  rw [phase?, ht]
  by_cases hj : j = i
  · subst hj
    simp [enter_getElem?_self h]
  · simp [phase?, enter_getElem?_of_ne hj, hj]

theorem getElem?_entered {s t : Session} {i j : Nat} {c d : SigningCall} {p : Phase}
    (hc : s.calls[i]? = some c) (ht : t.calls = (s.enter i p).calls) (hd : t.calls[j]? = some d) :
    (j = i ∧ d = { c with phase := p }) ∨ (j ≠ i ∧ s.calls[j]? = some d) := by
  rw [ht] at hd
  by_cases hj : j = i
  · subst hj
    rw [enter_getElem?_self hc] at hd
    exact .inl ⟨rfl, (Option.some.inj hd).symm⟩
  · rw [enter_getElem?_of_ne hj] at hd
    exact .inr ⟨hj, hd⟩

theorem phase?_request (s : Session) (r : SignRequest) (j : Nat) :
    (s.request r).phase? j = if j = s.calls.length then some .called else s.phase? j := by
  simp only [phase?, request]
  rcases Nat.lt_trichotomy j s.calls.length with hj | hj | hj
  · rw [List.getElem?_append_left hj, if_neg (by omega)]
  · simp [hj]
  · rw [if_neg (by omega), List.getElem?_eq_none (by simp; omega), List.getElem?_eq_none (by omega)]

theorem lt_length_of_phase? {s : Session} {i : Nat} {p : Phase} (h : s.phase? i = some p) :
    i < s.calls.length := by
  obtain ⟨c, hc, -⟩ := Option.map_eq_some_iff.mp h
  exact (List.getElem?_eq_some_iff.mp hc).1

theorem updateStaging_paths (s : Session) (path : Bytes) {f : Staging → Staging}
    (hf : ∀ d, (f d).path = d.path) :
    (s.updateStaging path f).directories.map (·.path) = s.directories.map (·.path) := by
  simp only [updateStaging, List.map_map]
  refine List.map_congr_left fun d _ => ?_
  simp only [Function.comp]
  split
  · exact hf d
  · rfl

/-! ## Rules -/

/-- How a session can get from one state to the next at an event. -/
inductive Moves (s : Session) : Event → Session → Prop where
  | request (r : SignRequest) : Moves s (.request r) (s.request r)
  | arrive (piece : Bytes) : Moves s (.arrive piece) { s with input := s.input.arrive piece }
  | closeInput : Moves s .closeInput { s with input := s.input.close }
  | announce {i c} (call : s.calls[i]? = some c) (phase : c.phase = .called) :
    Moves s (.announce i)
      (({ s with shown := s.shown ++ [(i, c.request.summary)] } : Session).enter i
        (if s.service.confirms then .announced else .confirmed))
  | holdInput {i c} (call : s.calls[i]? = some c) (phase : c.phase = .announced)
    (free : s.input.holder = none) :
    Moves s (.holdInput i)
      (({ s with input := { s.input with holder := some i } } : Session).enter i .confirming)
  | takeLine {i c line rest} (call : s.calls[i]? = some c) (phase : c.phase = .confirming)
    (holds : s.input.holder = some i) (ready : s.input.isReady)
    (first : Operator.takeLine s.input.arrived = (line, rest)) :
    Moves s (.takeLine i)
      (({ s with
          input := { s.input with
            arrived := rest, holder := none, taken := s.input.taken ++ [(i, line)] } } : Session).enter i
        (if Operator.isYes line then .confirmed else .ended (.error .notConfirmed)))
  | noDirectory {i c fault} (call : s.calls[i]? = some c) (phase : c.phase = .confirmed) :
    Moves s (.makeDirectory i (.error fault))
      (s.enter i (.ended (.error (.signingFailed (.stage fault)))))
  | makeDirectory {i c path} (call : s.calls[i]? = some c) (phase : c.phase = .confirmed)
    (fresh : s.staging? path = none) :
    Moves s (.makeDirectory i (.ok path))
      (({ s with directories := s.directories ++ [⟨path, none, .error .noEntry⟩] } : Session).enter i
        (.housed path))
  | notStaged {i c path fault} (call : s.calls[i]? = some c) (phase : c.phase = .housed path) :
    Moves s (.stage i (.error fault)) (s.enter i (.leaving path (.error (.stage fault))))
  | stage {i c path} (call : s.calls[i]? = some c) (phase : c.phase = .housed path) :
    Moves s (.stage i (.ok ()))
      ((s.updateStaging path fun d => { d with key := some c.request.key.bytes }).enter i (.staged path))
  | holdConsole {i c path} (call : s.calls[i]? = some c) (phase : c.phase = .staged path)
    (free : s.console = none) :
    Moves s (.holdConsole i) (({ s with console := some i } : Session).enter i (.attached path))
  | start {i c path} (call : s.calls[i]? = some c) (phase : c.phase = .attached path) :
    Moves s (.start i)
      (({ s with
          runs := s.runs ++ [⟨i,
            c.request.toolArguments s.service.identity.signer (Path.join path stagedName),
            (s.staging? path).bind (·.key)⟩] } : Session).enter i (.running path))
  | finish {i c path outcome} (call : s.calls[i]? = some c) (phase : c.phase = .running path) :
    Moves s (.finish i outcome)
      (({ s.updateStaging path fun d => { d with certificate := outcome.certificate } with
          console := none } : Session).enter i (match outcome.failure with
            | some fault => .leaving path (.error fault)
            | none => .signed path))
  | readCertificate {i c path d} (call : s.calls[i]? = some c) (phase : c.phase = .signed path)
    (staging : s.staging? path = some d) :
    Moves s (.readCertificate i) (s.enter i (.leaving path (d.certificate.mapError .readCertificate)))
  | removeDirectory {i c path result} (call : s.calls[i]? = some c)
    (phase : c.phase = .leaving path result) :
    Moves s (.removeDirectory i)
      (({ s with directories := s.directories.filter (·.path != path) } : Session).enter i
        (.ended (result.mapError .signingFailed)))

private theorem moves_of_act {s next : Session} {i : Nat} {c : SigningCall} {e : Event}
    (hi : e.call? = some i) (hc : s.calls[i]? = some c) (h : s.act i c e = some next) :
    s.Moves e next := by
  cases e with
  | request r => cases hi
  | arrive piece => cases hi
  | closeInput => cases hi
  | announce j =>
    obtain rfl := Option.some.inj hi
    cases hp : c.phase <;> simp only [act, hp, reduceCtorEq, Option.some.injEq] at h
    subst h
    exact .announce hc hp
  | holdInput j =>
    obtain rfl := Option.some.inj hi
    cases hp : c.phase <;> simp only [act, hp, reduceCtorEq, Input.hold?] at h
    by_cases hf : s.input.holder = none
    · simp only [hf, Option.isNone_none, if_true, Option.map_some, Option.some.injEq] at h
      subst h
      exact .holdInput hc hp hf
    · simp [hf] at h
  | takeLine j =>
    obtain rfl := Option.some.inj hi
    cases hp : c.phase <;> simp only [act, hp, reduceCtorEq, Input.take?] at h
    by_cases hr : s.input.holder = some j ∧ s.input.isReady
    · simp only [hr, decide_true, Bool.and_self, if_true, Option.map_some, Option.some.injEq] at h
      subst h
      exact .takeLine hc hp hr.1 hr.2 rfl
    · simp [hr] at h
  | makeDirectory j made =>
    obtain rfl := Option.some.inj hi
    cases hp : c.phase <;> cases made <;> simp only [act, hp, reduceCtorEq, Option.some.injEq] at h
    · subst h
      exact .noDirectory hc hp
    · rename_i path
      by_cases hf : s.staging? path = none
      · simp only [hf, Option.isSome_none, Bool.false_eq_true, if_false, Option.some.injEq] at h
        subst h
        exact .makeDirectory hc hp hf
      · simp [hf] at h
  | stage j written =>
    obtain rfl := Option.some.inj hi
    cases hp : c.phase <;> cases written <;> simp only [act, hp, reduceCtorEq, Option.some.injEq] at h
    · subst h
      exact .notStaged hc hp
    · subst h
      exact .stage hc hp
  | holdConsole j =>
    obtain rfl := Option.some.inj hi
    cases hp : c.phase <;> simp only [act, hp, reduceCtorEq] at h
    by_cases hf : s.console = none
    · simp only [hf, Option.isSome_none, Bool.false_eq_true, if_false, Option.some.injEq] at h
      subst h
      exact .holdConsole hc hp hf
    · simp [hf] at h
  | start j =>
    obtain rfl := Option.some.inj hi
    cases hp : c.phase <;> simp only [act, hp, reduceCtorEq, Option.some.injEq] at h
    subst h
    exact .start hc hp
  | finish j outcome =>
    obtain rfl := Option.some.inj hi
    cases hp : c.phase <;> simp only [act, hp, reduceCtorEq, Option.some.injEq] at h
    subst h
    exact .finish hc hp
  | readCertificate j =>
    obtain rfl := Option.some.inj hi
    cases hp : c.phase <;> simp only [act, hp, reduceCtorEq, Option.map_eq_some_iff] at h
    obtain ⟨d, hd, rfl⟩ := h
    exact .readCertificate hc hp hd
  | removeDirectory j =>
    obtain rfl := Option.some.inj hi
    cases hp : c.phase <;> simp only [act, hp, reduceCtorEq, Option.some.injEq] at h
    subst h
    exact .removeDirectory hc hp

/-- A step goes by one of the rules. -/
theorem moves_of_step? {s next : Session} {e : Event} (h : s.step? e = some next) : s.Moves e next := by
  cases e with
  | request r =>
    cases h
    exact .request r
  | arrive piece =>
    cases h
    exact .arrive piece
  | closeInput =>
    cases h
    exact .closeInput
  | _ =>
    obtain ⟨c, hc, h⟩ := Option.bind_eq_some_iff.mp h
    exact moves_of_act rfl hc h

/-! ## Progress -/

theorem calls_of_moves {s next : Session} {e : Event} (hm : s.Moves e next) :
    (e.call? = none ∧ next.calls = s.calls) ∨ (∃ r, e = .request r ∧ next.calls = s.calls ++ [⟨r, .called⟩]) ∨
      ∃ i c p, e.call? = some i ∧ s.calls[i]? = some c ∧ next.calls = (s.enter i p).calls ∧
        c.phase.rank < p.rank := by
  cases hm with
  | request r => exact .inr (.inl ⟨r, rfl, rfl⟩)
  | arrive piece => exact .inl ⟨rfl, rfl⟩
  | closeInput => exact .inl ⟨rfl, rfl⟩
  | announce call phase =>
    refine .inr (.inr ⟨_, _, _, rfl, call, rfl, ?_⟩)
    rw [phase]
    split <;> simp [Phase.rank]
  | holdInput call phase free => exact .inr (.inr ⟨_, _, _, rfl, call, rfl, by simp [phase, Phase.rank]⟩)
  | takeLine call phase holds ready first =>
    refine .inr (.inr ⟨_, _, _, rfl, call, rfl, ?_⟩)
    rw [phase]
    split <;> simp [Phase.rank]
  | noDirectory call phase => exact .inr (.inr ⟨_, _, _, rfl, call, rfl, by simp [phase, Phase.rank]⟩)
  | makeDirectory call phase fresh =>
    exact .inr (.inr ⟨_, _, _, rfl, call, rfl, by simp [phase, Phase.rank]⟩)
  | notStaged call phase => exact .inr (.inr ⟨_, _, _, rfl, call, rfl, by simp [phase, Phase.rank]⟩)
  | stage call phase => exact .inr (.inr ⟨_, _, _, rfl, call, rfl, by simp [phase, Phase.rank]⟩)
  | holdConsole call phase free =>
    exact .inr (.inr ⟨_, _, _, rfl, call, rfl, by simp [phase, Phase.rank]⟩)
  | start call phase => exact .inr (.inr ⟨_, _, _, rfl, call, rfl, by simp [phase, Phase.rank]⟩)
  | finish call phase =>
    refine .inr (.inr ⟨_, _, _, rfl, call, rfl, ?_⟩)
    rw [phase]
    split <;> simp [Phase.rank]
  | readCertificate call phase staging =>
    exact .inr (.inr ⟨_, _, _, rfl, call, rfl, by simp [phase, Phase.rank]⟩)
  | removeDirectory call phase =>
    exact .inr (.inr ⟨_, _, _, rfl, call, rfl, by simp [phase, Phase.rank]⟩)

theorem rank_le_of_moves {s next : Session} {e : Event} (hm : s.Moves e next) {j : Nat} {p : Phase}
    (h : s.phase? j = some p) : ∃ q, next.phase? j = some q ∧ p.rank ≤ q.rank := by
  rcases calls_of_moves hm with ⟨-, hn⟩ | ⟨r, -, hn⟩ | ⟨i, c, q, -, hc, hn, hq⟩
  · exact ⟨p, by rw [phase?, hn, ← phase?, h], Nat.le_refl _⟩
  · have hj := lt_length_of_phase? h
    exact ⟨p, by rw [phase?, hn, List.getElem?_append_left hj, ← phase?, h], Nat.le_refl _⟩
  · rw [phase?_entered hc hn]
    by_cases hj : j = i
    · subst hj
      obtain rfl := Option.some.inj ((phase?_of_call hc).symm.trans h)
      exact ⟨q, if_pos rfl, Nat.le_of_lt hq⟩
    · exact ⟨p, by rw [if_neg hj, h], Nat.le_refl _⟩

theorem result?_of_moves {s next : Session} {e : Event} (hm : s.Moves e next) {j : Nat}
    {result : Except ServiceFault Bytes} (h : s.result? j = some result) : next.result? j = some result := by
  obtain ⟨p, hp, hr⟩ := Option.bind_eq_some_iff.mp h
  have he : p = .ended result := by
    cases p <;> simp only [Phase.result?, reduceCtorEq, Option.some.injEq] at hr
    rw [hr]
  subst he
  have hn : next.phase? j = some (.ended result) := by
    rcases calls_of_moves hm with ⟨-, hn⟩ | ⟨r, -, hn⟩ | ⟨i, c, q, -, hc, hn, hq⟩
    · rw [phase?, hn, ← phase?, hp]
    · rw [phase?, hn, List.getElem?_append_left (lt_length_of_phase? hp), ← phase?, hp]
    · rw [phase?_entered hc hn]
      by_cases hj : j = i
      · subst hj
        rw [Option.some.inj ((phase?_of_call hc).symm.trans hp)] at hq
        cases q <;> simp [Phase.rank] at hq
      · rw [if_neg hj, hp]
  rw [result?, hn]
  rfl

theorem request_of_moves {s next : Session} {e : Event} (hm : s.Moves e next) {j : Nat} {c : SigningCall}
    (h : s.calls[j]? = some c) : ∃ d, next.calls[j]? = some d ∧ d.request = c.request := by
  rcases calls_of_moves hm with ⟨-, hn⟩ | ⟨r, -, hn⟩ | ⟨i, d, q, -, hc, hn, -⟩
  · exact ⟨c, by rw [hn, h], rfl⟩
  · exact ⟨c, by rw [hn, getElem?_append_old h], rfl⟩
  · have hr : ((s.enter i q).calls.map (·.request))[j]? = some c.request := by
      rw [enter_requests, List.getElem?_map, h]
      rfl
    rw [List.getElem?_map] at hr
    rw [hn]
    exact Option.map_eq_some_iff.mp hr

def Event.adds : Event → Nat
  | .request _ => 1
  | _ => 0

theorem length_of_moves {s next : Session} {e : Event} (hm : s.Moves e next) :
    next.calls.length = s.calls.length + e.adds := by
  cases hm <;> simp [request, updateStaging, Event.adds]

theorem service_of_moves {s next : Session} {e : Event} (hm : s.Moves e next) : next.service = s.service := by
  cases hm <;> rfl

theorem step?_of_call {s : Session} {i : Nat} {c : SigningCall} (hc : s.calls[i]? = some c) {e : Event}
    (he : e.call? = some i) : s.step? e = s.act i c e := by
  cases e with
  | request | arrive | closeInput => cases he
  | _ =>
    obtain rfl := Option.some.inj he
    simp [step?, Event.call?, hc]

/-- Whatever goes by a rule happens. -/
theorem step?_of_moves {s next : Session} {e : Event} (hm : s.Moves e next) : s.step? e = some next := by
  cases hm with
  | request | arrive | closeInput => rfl
  | announce call phase => exact (step?_of_call call rfl).trans (by simp only [act, phase])
  | holdInput call phase free => exact (step?_of_call call rfl).trans (by simp only [act, phase, Input.hold?, free]; rfl)
  | takeLine call phase holds ready first =>
    exact (step?_of_call call rfl).trans (by simp only [act, phase, Input.take?, holds, ready, first]; rfl)
  | makeDirectory call phase fresh => exact (step?_of_call call rfl).trans (by simp only [act, phase, fresh]; rfl)
  | holdConsole call phase free => exact (step?_of_call call rfl).trans (by simp only [act, phase, free]; rfl)
  | readCertificate call phase staging =>
    exact (step?_of_call call rfl).trans (by simp only [act, phase, staging]; rfl)
  | @finish i c path outcome call phase =>
    refine (step?_of_call call rfl).trans ?_
    obtain ⟨_, _⟩ := c
    cases phase
    rfl
  | _ call phase => exact (step?_of_call call rfl).trans (by simp only [act, phase])

/-! ## Runs -/

@[simp] theorem run_nil (s : Session) : s.run [] = s := rfl

@[simp] theorem run_cons (s : Session) (e : Event) (es : List Event) : s.run (e :: es) = (s.step e).run es :=
  rfl

theorem run_append (s : Session) (es later : List Event) : s.run (es ++ later) = (s.run es).run later := by
  simp [run]

/-- What every rule preserves, every run preserves. -/
theorem run_preserves {P : Session → Prop} (hm : ∀ s e next, P s → s.Moves e next → P next) {s : Session}
    (h : P s) (es : List Event) : P (s.run es) := by
  induction es generalizing s with
  | nil => exact h
  | cons e es ih =>
    apply ih
    rcases hs : s.step? e with _ | next
    · rwa [step, hs]
    · rw [step, hs]
      exact hm s e next h (moves_of_step? hs)

end Session

def sampleKey : PublicKey :=
  (PublicKey.parse (Utf8.encode
    "ssh-ed25519 AAAAC3NzaC1lZDI1NTE5AAAAIHwXYROIrAfv9RS4LyCPdsPGy6EqM+vncrrZXzVJbNuV")).toOption.get
    (by decide +kernel)

end SshAuthority.Authority

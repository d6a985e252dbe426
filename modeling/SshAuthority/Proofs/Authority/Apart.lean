import SshAuthority.Proofs.Authority.Console
import SshAuthority.Proofs.Authority.Staging
/-!
# Calls apart from each other

Every call that has come to a directory has one of its own, with its own key and its own certificate in it,
and every run of the tool is on the key of its call. What a call comes to is therefore a matter of its
request, of the tool, and of what faults the system had for it.
-/
namespace SshAuthority.Authority

deriving instance DecidableEq for Outcome

/-- A signing tool that makes the same of the same request wherever the key is staged. -/
structure Runner where
  outcome : ToolRun → Outcome
  portable : ∀ {r r' : ToolRun}, r.arguments.dropLast = r'.arguments.dropLast → r.key = r'.key →
    outcome r = outcome r'

namespace Runner

variable (runner : Runner) (signer : Bytes) (r : SignRequest)

def outcomeFor : Outcome := runner.outcome ⟨0, r.toolArguments signer [], some r.key.bytes⟩

/-- What the signature of a request comes to, with the fault the system had for it. -/
def signature : Option Host.Fault → Except SigningFault Bytes
  | some fault => .error (.stage fault)
  | none => (runner.outcomeFor signer r).result

variable {runner signer r}

theorem outcome_eq {run : ToolRun} {staged : Bytes} (ha : run.arguments = r.toolArguments signer staged)
    (hk : run.key = some r.key.bytes) : runner.outcome run = runner.outcomeFor signer r := by
  refine runner.portable ?_ hk
  rw [ha, SignRequest.toolArguments, SignRequest.toolArguments, List.dropLast_append_of_ne_nil (by simp),
    List.dropLast_append_of_ne_nil (by simp)]
  rfl

end Runner

namespace Session

/-- At this event no run of the tool ends but as the runner has it. -/
def EndsBy (runner : Runner) (s : Session) : Event → Prop
  | .finish i outcome => (s.phase? i).any Phase.isRunning →
    ∃ run ∈ s.runs, run.call = i ∧ outcome = runner.outcome run
  | _ => True

def RanBy (runner : Runner) (s : Session) : List Event → Prop
  | [] => True
  | e :: es => s.EndsBy runner e ∧ (s.step e).RanBy runner es

instance (runner : Runner) (s : Session) : (e : Event) → Decidable (s.EndsBy runner e)
  | .finish i outcome => inferInstanceAs (Decidable ((s.phase? i).any Phase.isRunning →
    ∃ run ∈ s.runs, run.call = i ∧ outcome = runner.outcome run))
  | .request _ | .arrive _ | .closeInput | .announce _ | .holdInput _ | .takeLine _ | .makeDirectory _ _
  | .stage _ _ | .holdConsole _ | .start _ | .readCertificate _ | .removeDirectory _ => .isTrue trivial

instance decidableRanBy (runner : Runner) (s : Session) : (es : List Event) → Decidable (s.RanBy runner es)
  | [] => .isTrue trivial
  | e :: es => @instDecidableAnd _ _ _ (decidableRanBy runner (s.step e) es)

variable {runner : Runner} {s next : Session} {t : List Event} {e : Event} {i : Nat} {c : SigningCall}

theorem ranBy_append (es later : List Event) :
    s.RanBy runner (es ++ later) ↔ s.RanBy runner es ∧ (s.run es).RanBy runner later := by
  induction es generalizing s with
  | nil => simp [RanBy]
  | cons e es ih => rw [List.cons_append, RanBy, RanBy, ih, run_cons, and_assoc]

theorem ranBy_preserves {P : Session → List Event → Prop}
    (hm : ∀ s t e next, P s t → s.EndsBy runner e → s.Moves e next → P next (t ++ [e])) (h : P s t)
    {events : List Event} (hr : s.RanBy runner events) : P (s.run events) (t ++ s.happened events) := by
  induction events generalizing s t with
  | nil => simpa [happened] using h
  | cons e es ih =>
    rw [run_cons]
    rcases hs : s.step? e with _ | next
    · have hn : s.step e = s := by rw [step, hs]; rfl
      rw [happened, hs, hn]
      exact ih h (hn ▸ hr.2)
    · have hn : s.step e = next := by rw [step, hs]; rfl
      have hnext := hm s t e next h hr.1 (moves_of_step? hs)
      have hall := ih hnext (hn ▸ hr.2)
      rw [happened, hs, hn]
      rwa [List.append_assoc] at hall

/-! ## How a call stands -/

/-- How a call stands with its directory and its run, given the fault the system had for it. -/
def Standing (runner : Runner) (s : Session) (fault : Option Host.Fault) (i : Nat) (c : SigningCall) : Prop :=
  let signer := s.service.identity.signer
  let outcome := runner.outcomeFor signer c.request
  match c.phase with
  | .called | .confirmed => fault = none
  | .announced | .confirming => False
  | .housed d => fault = none ∧ s.staging? d ≠ none
  | .staged d | .attached d => fault = none ∧ ∃ x, s.staging? d = some ⟨d, some c.request.key.bytes, x⟩
  | .running d => fault = none ∧ s.staging? d ≠ none ∧ ∃ run ∈ s.runs, run.call = i
  | .signed d => fault = none ∧ outcome.failure = none ∧ ∃ key, s.staging? d = some ⟨d, key, outcome.certificate⟩
  | .leaving d result => s.staging? d ≠ none ∧ result = runner.signature signer c.request fault
  | .ended result => result = (runner.signature signer c.request fault).mapError .signingFailed

theorem Standing.staging?_ne_none {fault : Option Host.Fault} (h : Standing runner s fault i c) {d : Bytes}
    (hd : c.phase.directory? = some d) : s.staging? d ≠ none := by
  unfold Standing at h
  cases hp : c.phase <;> simp only [hp, Phase.directory?, reduceCtorEq, Option.some.injEq] at h hd <;> subst hd
  case housed => exact h.2
  case staged =>
    obtain ⟨-, x, hx⟩ := h
    simp [hx]
  case attached =>
    obtain ⟨-, x, hx⟩ := h
    simp [hx]
  case running => exact h.2.1
  case signed =>
    obtain ⟨-, -, key, hx⟩ := h
    simp [hx]
  case leaving => exact h.1

/-- How a call stands does not depend on what it has no part in. -/
theorem Standing.of_kept {fault : Option Host.Fault} (h : Standing runner s fault i c)
    (hv : next.service = s.service) (hr : ∀ run ∈ s.runs, run ∈ next.runs)
    (hd : ∀ d, c.phase.directory? = some d → next.staging? d = s.staging? d) :
    Standing runner next fault i c := by
  unfold Standing at h ⊢
  rw [hv]
  cases hp : c.phase <;> simp only [hp, Phase.directory?, Option.some.injEq, forall_eq'] at h hd ⊢
  case called => exact h
  case confirmed => exact h
  case housed => rwa [hd]
  case staged => rwa [hd]
  case attached => rwa [hd]
  case running =>
    obtain ⟨hf, hs, run, hrun, hc⟩ := h
    exact ⟨hf, hd ▸ hs, run, hr run hrun, hc⟩
  case signed => rwa [hd]
  case leaving => rwa [hd]
  case ended => exact h

/-- A run that comes to what the tool makes of its call's request. -/
def Fits (runner : Runner) (s : Session) (run : ToolRun) : Prop :=
  ∃ c, s.calls[run.call]? = some c ∧
    runner.outcome run = runner.outcomeFor s.service.identity.signer c.request

private theorem Fits.of_moves {run : ToolRun} (h : s.Fits runner run) (hm : s.Moves e next) :
    next.Fits runner run := by
  obtain ⟨c, hc, ho⟩ := h
  obtain ⟨d, hd, hr⟩ := request_of_moves hm hc
  refine ⟨d, hd, ?_⟩
  rw [service_of_moves hm, hr, ho]

/-- What the calls of a session have to do with each other: nothing. -/
structure Apart (runner : Runner) (s : Session) (t : List Event) : Prop where
  off : s.service.confirms = false
  calls : ∀ {i c}, s.calls[i]? = some c → Standing runner s (t.findSome? (Event.stagingFault? i)) i c
  /-- A call that was not made had no fault. -/
  later : ∀ {i}, s.calls[i]? = none → t.findSome? (Event.stagingFault? i) = none
  own : ∀ {i j : Nat} {c c' d}, s.calls[i]? = some c → s.calls[j]? = some c' → c.phase.directory? = some d →
    c'.phase.directory? = some d → i = j
  runs : ∀ run ∈ s.runs, s.Fits runner run

private theorem runs_kept (hm : s.Moves e next) : ∀ run ∈ s.runs, run ∈ next.runs := by
  intro run hrun
  rcases runs_of_moves hm with hn | ⟨r, path, hn, -⟩ <;> simp [hn, hrun]

private theorem Apart.standing (h : s.Apart runner t) (hm : s.Moves e next) {j : Nat} (hj : e.call? ≠ some j)
    (hc : s.calls[j]? = some c) : Standing runner next ((t ++ [e]).findSome? (Event.stagingFault? j)) j c := by
  rw [stagingFault?_append (Event.stagingFault?_of_ne hj)]
  have hold := h.calls hc
  apply hold.of_kept (service_of_moves hm) (runs_kept hm)
  intro d hd
  apply staging?_of_moves hm (hold.staging?_ne_none hd)
  intro k ck hk hck hdk
  have hkj : k = j := h.own hck hc hdk hd
  exact hj (hkj ▸ hk)

private theorem Apart.fits (h : s.Apart runner t) (hm : s.Moves e next) :
    ∀ run ∈ next.runs, next.Fits runner run := by
  intro run hrun
  have hfits : s.Fits runner run := by
    cases hm with
    | @start i c path call phase =>
      have hold := h.calls call
      simp only [Standing, phase] at hold
      obtain ⟨-, x, hd⟩ := hold
      rcases List.mem_append.mp hrun with hrun | hrun
      · exact h.runs run hrun
      · rw [List.mem_singleton.mp hrun]
        exact ⟨c, call, Runner.outcome_eq rfl (by simp [hd])⟩
    | _ => exact h.runs run hrun
  exact hfits.of_moves hm

private theorem apart_entered {p : Phase} (h : s.Apart runner t) (hm : s.Moves e next)
    (hc : s.calls[i]? = some c) (he : e.call? = some i) (hn : next.calls = (s.enter i p).calls)
    (hd : ∀ d, p.directory? = some d → c.phase.directory? = some d ∨ s.staging? d = none)
    (hs : Standing runner next ((t ++ [e]).findSome? (Event.stagingFault? i)) i { c with phase := p }) :
    next.Apart runner (t ++ [e]) := by
  have hne : ∀ {j : Nat}, j ≠ i → e.call? ≠ some j := by
    intro j hj hce
    exact hj (Option.some.inj (hce.symm.trans he))
  have hold : ∀ {d : Bytes}, p.directory? = some d → ∀ {j : Nat} {c' : SigningCall}, s.calls[j]? = some c' →
      c'.phase.directory? = some d → j = i := by
    intro d hp j c' hj hdir
    rcases hd d hp with hc' | hfree
    · exact h.own hj hc hdir hc'
    · exact absurd hfree ((h.calls hj).staging?_ne_none hdir)
  constructor
  case off => rw [service_of_moves hm, h.off]
  case calls =>
    intro j c' hj
    rcases getElem?_entered hc hn hj with ⟨rfl, rfl⟩ | ⟨hji, hj⟩
    · exact hs
    · exact h.standing hm (hne hji) hj
  case later =>
    intro j hj
    have hji : j ≠ i := by
      rintro rfl
      simp [hn, enter_getElem?_self hc] at hj
    rw [stagingFault?_append (Event.stagingFault?_of_ne (hne hji))]
    rw [hn, enter_getElem?_of_ne hji] at hj
    exact h.later hj
  case own =>
    intro j k cj ck d hj hk hdj hdk
    rcases getElem?_entered hc hn hj with ⟨rfl, rfl⟩ | ⟨hji, hj⟩ <;>
      rcases getElem?_entered hc hn hk with ⟨rfl, rfl⟩ | ⟨hki, hk⟩
    · rfl
    · exact (hold hdj hk hdk).symm
    · exact hold hdk hj hdj
    · exact h.own hj hk hdj hdk
  case runs => exact h.fits hm

private theorem apart_outside (h : s.Apart runner t) (hm : s.Moves e next) (he : ∀ i, e.call? ≠ some i)
    (hn : ∀ {j : Nat} {c}, next.calls[j]? = some c →
      s.calls[j]? = some c ∨ (s.calls[j]? = none ∧ c.phase = .called)) : next.Apart runner (t ++ [e]) := by
  constructor
  case off => rw [service_of_moves hm, h.off]
  case calls =>
    intro j c hj
    rcases hn hj with hj | ⟨hj, hp⟩
    · exact h.standing hm (he j) hj
    · have hf := h.later hj
      simpa only [Standing, hp, stagingFault?_append (Event.stagingFault?_of_ne (he j))] using hf
  case later =>
    intro j hj
    rw [stagingFault?_append (Event.stagingFault?_of_ne (he j))]
    apply h.later
    rcases hs : s.calls[j]? with _ | c
    · rfl
    · obtain ⟨d, hd, -⟩ := request_of_moves hm hs
      rw [hj] at hd
      cases hd
  case own =>
    intro j k cj ck d hj hk hdj hdk
    rcases hn hj with hj | ⟨-, hp⟩
    · rcases hn hk with hk | ⟨-, hp⟩
      · exact h.own hj hk hdj hdk
      · simp [hp, Phase.directory?] at hdk
    · simp [hp, Phase.directory?] at hdj
  case runs => exact h.fits hm

private theorem Apart.outcome (h : s.Apart runner t) (hc : s.calls[i]? = some c) {path : Bytes}
    (hp : c.phase = .running path) {outcome : Outcome} (hb : s.EndsBy runner (.finish i outcome)) :
    outcome = runner.outcomeFor s.service.identity.signer c.request := by
  have hrunning : (s.phase? i).any Phase.isRunning := by simp [phase?_of_call hc, hp, Phase.isRunning]
  obtain ⟨run, hrun, rfl, rfl⟩ := hb hrunning
  obtain ⟨c', hc', ho⟩ := h.runs run hrun
  rw [ho, Option.some.inj (hc'.symm.trans hc)]

/-! ## Step by step -/

private theorem apart_step (s : Session) (t : List Event) (e : Event) (next : Session) (h : s.Apart runner t)
    (hb : s.EndsBy runner e) (hm : s.Moves e next) : next.Apart runner (t ++ [e]) := by
  have hm' := hm
  cases hm with
  | request r =>
    refine apart_outside h hm' (by simp [Event.call?]) fun {j c} hj => ?_
    rcases getElem?_append_new hj with hj | ⟨rfl, rfl⟩
    · exact .inl hj
    · exact .inr ⟨List.getElem?_eq_none (Nat.le_refl _), rfl⟩
  | arrive piece => exact apart_outside h hm' (by simp [Event.call?]) .inl
  | closeInput => exact apart_outside h hm' (by simp [Event.call?]) .inl
  | @announce i c call phase =>
    have hold := h.calls call
    simp only [Standing, phase] at hold
    apply apart_entered h hm' call rfl rfl
    · simp [h.off, Phase.directory?]
    · simp [h.off, Standing, stagingFault?_append_of_none hold, Event.stagingFault?]
  | holdInput call phase free =>
    have hold := h.calls call
    simp [Standing, phase] at hold
  | takeLine call phase holds ready first =>
    have hold := h.calls call
    simp [Standing, phase] at hold
  | noDirectory call phase =>
    have hold := h.calls call
    simp only [Standing, phase] at hold
    apply apart_entered h hm' call rfl rfl
    · simp [Phase.directory?]
    · simp [Standing, stagingFault?_append_of_none hold, Event.stagingFault?, Runner.signature, Except.mapError]
  | @makeDirectory i c path call phase fresh =>
    have hold := h.calls call
    simp only [Standing, phase] at hold
    apply apart_entered h hm' call rfl rfl
    · simp [Phase.directory?, fresh]
    · refine ⟨stagingFault?_append_of_none hold, ?_⟩
      apply ne_of_eq_of_ne (staging?_added (d := ⟨path, none, .error .noEntry⟩) fresh rfl path)
      simp
  | @notStaged i c path fault call phase =>
    have hold := h.calls call
    simp only [Standing, phase] at hold
    apply apart_entered h hm' call rfl rfl
    · simp [phase, Phase.directory?]
    · refine ⟨hold.2, ?_⟩
      simp [stagingFault?_append_of_none hold.1, Event.stagingFault?, Runner.signature]
  | @stage i c path call phase =>
    have hold := h.calls call
    simp only [Standing, phase] at hold
    obtain ⟨hf, hd⟩ := hold
    obtain ⟨d, hd⟩ := Option.ne_none_iff_exists'.mp hd
    apply apart_entered h hm' call rfl rfl
    · simp [phase, Phase.directory?]
    · refine ⟨stagingFault?_append_of_none hf, d.certificate, ?_⟩
      let staged : Staging → Staging := fun d => { d with key := some c.request.key.bytes }
      apply (staging?_updated (f := staged) rfl (fun _ => rfl) path).trans
      simp [staged, hd, path_of_staging? hd]
  | @holdConsole i c path call phase free =>
    have hold := h.calls call
    simp only [Standing, phase] at hold
    apply apart_entered h hm' call rfl rfl
    · simp [phase, Phase.directory?]
    · exact ⟨stagingFault?_append_of_none hold.1, hold.2⟩
  | @start i c path call phase =>
    have hold := h.calls call
    simp only [Standing, phase] at hold
    obtain ⟨hf, x, hd⟩ := hold
    apply apart_entered h hm' call rfl rfl
    · simp [phase, Phase.directory?]
    · refine ⟨stagingFault?_append_of_none hf, ?_, _, List.mem_append_right _ (List.mem_singleton_self _), rfl⟩
      exact ne_of_eq_of_ne hd (Option.some_ne_none _)
  | @finish i c path outcome call phase =>
    have hold := h.calls call
    simp only [Standing, phase] at hold
    obtain ⟨hf, hd, -⟩ := hold
    obtain ⟨d, hd⟩ := Option.ne_none_iff_exists'.mp hd
    -- Only here does it matter that the tool makes the same of a request wherever its key is staged.
    have ho := h.outcome call phase hb
    have hfault : (t ++ [Event.finish i outcome]).findSome? (Event.stagingFault? i) = none :=
      stagingFault?_append_of_none hf
    let left : Staging → Staging := fun d => { d with certificate := outcome.certificate }
    have hleft : (s.updateStaging path left).staging? path = some ⟨path, d.key, outcome.certificate⟩ := by
      rw [staging?_updated (f := left) rfl (fun _ => rfl), hd]
      simp [left, path_of_staging? hd]
    apply apart_entered h hm' call rfl rfl
    · intro d hd
      left
      split at hd <;> simpa [phase, Phase.directory?] using hd
    · cases hfail : outcome.failure with
      | some fault =>
        refine ⟨ne_of_eq_of_ne hleft (Option.some_ne_none _), ?_⟩
        rw [ho] at hfail
        rw [hfault]
        simp [Runner.signature, Outcome.result, updateStaging, hfail]
      | none =>
        rw [ho] at hfail hleft
        exact ⟨hfault, hfail, d.key, hleft⟩
  | @readCertificate i c path d call phase staging =>
    have hold := h.calls call
    simp only [Standing, phase] at hold
    obtain ⟨hf, hn, key, hd⟩ := hold
    obtain rfl := Option.some.inj (staging.symm.trans hd)
    apply apart_entered h hm' call rfl rfl
    · simp [phase, Phase.directory?]
    · refine ⟨ne_of_eq_of_ne hd (Option.some_ne_none _), ?_⟩
      simp [stagingFault?_append_of_none hf, Event.stagingFault?, Runner.signature, Outcome.result, hn]
  | @removeDirectory i c path result call phase =>
    have hold := h.calls call
    simp only [Standing, phase] at hold
    apply apart_entered h hm' call rfl rfl
    · simp [Phase.directory?]
    · simp [Standing, stagingFault?_append (show (Event.removeDirectory i).stagingFault? i = none from rfl), hold.2]

theorem apart_run {service : Service} (off : service.confirms = false) {events : List Event}
    (hr : (new service).RanBy runner events) :
    ((new service).run events).Apart runner ((new service).happened events) := by
  have hstart : (new service).Apart runner [] := by
    constructor <;> simp [new, off]
  exact ranBy_preserves apart_step hstart hr

/-- A result is what the signature of the request comes to. -/
theorem Apart.result (h : s.Apart runner t) (hc : s.calls[i]? = some c) {result : Except ServiceFault Bytes}
    (hr : s.result? i = some result) :
    result = (runner.signature s.service.identity.signer c.request
      (t.findSome? (Event.stagingFault? i))).mapError .signingFailed := by
  have hold := h.calls hc
  rw [result?, phase?_of_call hc, Option.bind_some] at hr
  cases hp : c.phase <;> simp only [hp, Phase.result?, reduceCtorEq, Option.some.injEq] at hr
  subst hr
  simpa only [Standing, hp] using hold

end Session

end SshAuthority.Authority

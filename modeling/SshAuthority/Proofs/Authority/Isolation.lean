import SshAuthority.Proofs.Authority.Apart
import SshAuthority.Proofs.Authority.Confirmation
/-!
# Every call as if it were alone

Calls share the console and nothing else that their results depend on. Where a call's key is staged makes no
difference to the tool, so whatever the others do meanwhile, a call comes to what it would come to by itself.
-/
namespace SshAuthority.Authority.Session

/-- A call that is executed by itself, with the fault the system has for it. -/
structure Alone (service : Service) (runner : Runner) (r : SignRequest) (fault : Option Host.Fault)
    (events : List Event) : Prop where
  asked : asked events = [r]
  ran : (new service).RanBy runner events
  fault : (new service).stagingFault? events 0 = fault

/-- Calls that were made together come to what each of them comes to by itself. -/
structure AsAlone (service : Service) (runner : Runner) (events : List Event) : Prop where
  /-- From wherever they are, all of them can come to their results. -/
  completes : ∃ more, asked more = [] ∧ (new service).RanBy runner (events ++ more) ∧
    ∀ i < (asked events).length, (((new service).run (events ++ more)).result? i).isSome
  /-- A result is what the call can come to by itself, -/
  reached : ∀ {i r result}, (asked events)[i]? = some r → ((new service).run events).result? i = some result →
    ∃ alone, Alone service runner r ((new service).stagingFault? events i) alone ∧
      ((new service).run alone).result? 0 = some result
  /-- and all that it can come to. -/
  unique : ∀ {i r result}, (asked events)[i]? = some r → ((new service).run events).result? i = some result →
    ∀ alone other, Alone service runner r ((new service).stagingFault? events i) alone →
      ((new service).run alone).result? 0 = some other → other = result

variable {runner : Runner} {s next : Session} {t : List Event} {e : Event} {i : Nat} {c : SigningCall}

/-! ## No call waits forever -/

/-- A step of a call that the system has no fault for. -/
structure Event.Proceeds (e : Event) : Prop where
  call : e.call?.isSome
  quiet : ∀ i, e.stagingFault? i = none

def CanMove (runner : Runner) (s : Session) : Prop :=
  ∃ e next, e.Proceeds ∧ s.EndsBy runner e ∧ s.step? e = some next

private theorem canMove_of_act (hc : s.calls[i]? = some c) (he : e.call? = some i)
    (hq : ∀ i, e.stagingFault? i = none) (hb : s.EndsBy runner e) (ha : (s.act i c e).isSome) :
    s.CanMove runner := by
  obtain ⟨next, hn⟩ := Option.isSome_iff_exists.mp ha
  have hp : e.Proceeds := ⟨by simp [he], hq⟩
  exact ⟨e, next, hp, hb, (step?_of_call hc he).trans hn⟩

private theorem canMove_of_holder (h : s.Apart runner t) (hk : s.ConsoleHeld) (hi : s.console = some i) :
    s.CanMove runner := by
  obtain ⟨p, hp, hon⟩ := (Option.any_eq_true _ _).mp ((hk i).mp hi)
  obtain ⟨c, hc, rfl⟩ := Option.map_eq_some_iff.mp hp
  have hold := h.calls hc
  cases hp : c.phase <;> simp only [hp, Phase.isOnConsole, Bool.false_eq_true] at hon
  case attached path => exact canMove_of_act (e := .start i) hc rfl (fun _ => rfl) trivial (by simp [act, hp])
  case running path =>
    simp only [Standing, hp] at hold
    obtain ⟨-, -, run, hrun, hcall⟩ := hold
    refine canMove_of_act (e := .finish i (runner.outcome run)) hc rfl (fun _ => rfl) ?_ (by simp [act, hp])
    exact fun _ => ⟨run, hrun, hcall, rfl⟩

private theorem canMove (h : s.Apart runner t) (hk : s.ConsoleHeld) (hc : s.calls[i]? = some c)
    (hr : s.result? i = none) : s.CanMove runner := by
  cases hfree : s.console with
  | some j => exact canMove_of_holder h hk hfree
  | none =>
    have hold := h.calls hc
    have hon := (hk i).not.mp (by simp [hfree])
    rw [result?, phase?_of_call hc, Option.bind_some] at hr
    rw [phase?_of_call hc] at hon
    cases hp : c.phase <;> simp only [Standing, hp] at hold hr hon
    case called => exact canMove_of_act (e := .announce i) hc rfl (fun _ => rfl) trivial (by simp [act, hp])
    case confirmed =>
      obtain ⟨path, hpath⟩ := exists_fresh s
      exact canMove_of_act (e := .makeDirectory i (.ok path)) hc rfl (fun _ => rfl) trivial (by simp [act, hp, hpath])
    case housed => exact canMove_of_act (e := .stage i (.ok ())) hc rfl (fun _ => rfl) trivial (by simp [act, hp])
    case staged => exact canMove_of_act (e := .holdConsole i) hc rfl (fun _ => rfl) trivial (by simp [act, hp, hfree])
    case attached => simp [Phase.isOnConsole] at hon
    case running => simp [Phase.isOnConsole] at hon
    case signed =>
      obtain ⟨-, -, key, hd⟩ := hold
      exact canMove_of_act (e := .readCertificate i) hc rfl (fun _ => rfl) trivial (by simp [act, hp, hd])
    case leaving => exact canMove_of_act (e := .removeDirectory i) hc rfl (fun _ => rfl) trivial (by simp [act, hp])
    case ended => simp [Phase.result?] at hr

/-- How many steps the calls have left, at most. -/
def remaining (s : Session) : Nat := total (fun c => 10 - c.phase.rank) s.calls

private theorem remaining_of_moves (hm : s.Moves e next) (he : e.call?.isSome) :
    next.remaining < s.remaining := by
  rcases calls_of_moves hm with ⟨hn, -⟩ | ⟨r, rfl, -⟩ | ⟨j, c, p, -, hc, hn, hlt⟩
  · simp [hn] at he
  · cases he
  · rw [remaining, hn]
    apply total_modify_lt hc
    have hp : p.rank ≤ 10 := by cases p <;> simp [Phase.rank]
    simp only
    omega

/-- All calls can come to their results. -/
private theorem exists_completion {service : Service} (off : service.confirms = false) {events : List Event}
    (hr : (new service).RanBy runner events) :
    ∃ more, (∀ e ∈ more, e.Proceeds) ∧ (new service).RanBy runner (events ++ more) ∧
      ∀ i < ((new service).run events).calls.length, (((new service).run (events ++ more)).result? i).isSome := by
  -- On how many steps are left: as long as a call has no result, some call can go on, and has fewer then.
  induction hm : ((new service).run events).remaining using Nat.strongRecOn generalizing events with
  | ind n ih =>
    by_cases hall : ∀ i < ((new service).run events).calls.length,
      (((new service).run events).result? i).isSome
    · exact ⟨[], by simp, by simpa using hr, by simpa using hall⟩
    · simp only [not_forall, Option.not_isSome_iff_eq_none] at hall
      obtain ⟨i, hi, hnone⟩ := hall
      have hc := List.getElem?_eq_getElem hi
      obtain ⟨e, next, hp, hb, hs⟩ := canMove (apart_run off hr) (consoleHeld_run service events) hc hnone
      have hnext : (new service).run (events ++ [e]) = next := by
        rw [run_append, run_cons, run_nil, step, hs]
        rfl
      have hmoves := moves_of_step? hs
      have hlt : ((new service).run (events ++ [e])).remaining < n := by
        rw [hnext, ← hm]
        exact remaining_of_moves hmoves hp.call
      have hran : (new service).RanBy runner (events ++ [e]) :=
        (ranBy_append events [e]).mpr ⟨hr, hb, trivial⟩
      obtain ⟨more, hmore, hran, hdone⟩ := ih _ hlt hran rfl
      refine ⟨e :: more, List.forall_mem_cons.mpr ⟨hp, hmore⟩, by simpa using hran, fun i hi => ?_⟩
      have hlen := length_of_moves hmoves
      have hd := hdone i (by rw [hnext]; omega)
      simpa using hd

private theorem asked_of_proceeds {more : List Event} (h : ∀ e ∈ more, e.Proceeds) : asked more = [] := by
  apply List.filterMap_eq_nil_iff.mpr
  intro e he
  have hcall := (h e he).call
  cases e with
  | request => cases hcall
  | _ => rfl

private theorem requests_new (service : Service) (events : List Event) :
    ((new service).run events).calls.map (·.request) = asked events := by
  simpa [new] using requests_run (new service) events

private theorem length_new (service : Service) (events : List Event) :
    ((new service).run events).calls.length = (asked events).length := by
  rw [← requests_new service, List.length_map]

/-- A call can be executed by itself, whatever fault the system has for it. -/
private theorem exists_alone {service : Service} (off : service.confirms = false) (runner : Runner)
    (r : SignRequest) (fault : Option Host.Fault) : ∃ alone result, Alone service runner r fault alone ∧
      ((new service).run alone).result? 0 = some result := by
  let opening : List Event := .request r :: match fault with
    | none => []
    | some fault => [.announce 0, .makeDirectory 0 (.error fault)]
  have hran : (new service).RanBy runner opening := by
    cases fault <;> simp [opening, RanBy, EndsBy]
  have hopening : (new service).happened opening = opening := by
    cases fault <;> simp [opening, happened, step?, Event.call?, act, new, request, enter, off]
  have hfault : (new service).stagingFault? opening 0 = fault := by
    rw [stagingFault?, hopening]
    cases fault <;> rfl
  have hasked : asked opening = [r] := by
    cases fault <;> simp [opening, asked]
  obtain ⟨more, hmore, hran, hdone⟩ := exists_completion off hran
  have hlen : 0 < ((new service).run opening).calls.length := by simp [length_new, hasked]
  obtain ⟨result, hresult⟩ := Option.isSome_iff_exists.mp (hdone 0 hlen)
  refine ⟨opening ++ more, result, ⟨?_, hran, ?_⟩, hresult⟩
  · have happ : asked (opening ++ more) = asked opening ++ asked more := List.filterMap_append
    rw [happ, hasked, asked_of_proceeds hmore, List.append_nil]
  · rw [stagingFault?_of_quiet _ _ fun e he => (hmore e he).quiet 0, hfault]

/-! ## What calls come to -/

/-- A result is what the signature of the request comes to, with the fault the system had for it. -/
private theorem result_eq {service : Service} (off : service.confirms = false) {events : List Event}
    (ran : (new service).RanBy runner events) {r : SignRequest} {result : Except ServiceFault Bytes}
    (hr : (asked events)[i]? = some r) (hi : ((new service).run events).result? i = some result) :
    result = (runner.signature service.identity.signer r
      ((new service).stagingFault? events i)).mapError .signingFailed := by
  rw [← requests_new service, List.getElem?_map] at hr
  obtain ⟨c, hc, rfl⟩ := Option.map_eq_some_iff.mp hr
  have hservice : ((new service).run events).service = service :=
    run_preserves (fun s e next hs hm => (service_of_moves hm).trans hs) rfl events
  have hresult := (apart_run off ran).result hc hi
  rwa [hservice] at hresult

/-- With confirmation off, calls that are made at once come to what each of them comes to by itself, whatever
order they take their steps in. -/
theorem results_as_alone (service : Service) (off : service.confirms = false) (runner : Runner)
    (events : List Event) (ran : (new service).RanBy runner events) : AsAlone service runner events := by
  constructor
  case completes =>
    obtain ⟨more, hmore, hran, hdone⟩ := exists_completion off ran
    rw [length_new] at hdone
    exact ⟨more, asked_of_proceeds hmore, hran, hdone⟩
  case reached =>
    intro i r result hr hi
    obtain ⟨alone, other, ha, hother⟩ := exists_alone off runner r ((new service).stagingFault? events i)
    have hresult := result_eq off ran hr hi
    have hotherResult := result_eq off ha.ran (by rw [ha.asked]; rfl) hother
    rw [ha.fault, ← hresult] at hotherResult
    exact ⟨alone, ha, hotherResult ▸ hother⟩
  case unique =>
    intro i r result hr hi alone other ha hother
    rw [result_eq off ran hr hi, result_eq off ha.ran (by rw [ha.asked]; rfl) hother, ha.fault]

private def twinService : Service := ⟨⟨Utf8.encode "ca", sampleKey⟩, false⟩

/-- A tool whose certificates are what it was given. -/
private def copier : Runner where
  outcome r := ⟨none, .ok (r.arguments.dropLast.flatten ++ r.key.getD [])⟩
  portable ha hk := by rw [ha, hk]

private def twinRequest (name : String) : SignRequest := ⟨name, .user, [name], sampleKey⟩

private def twinRun (i : Nat) (name : String) (directory : Bytes) : ToolRun :=
  ⟨i, (twinRequest name).toolArguments (Utf8.encode "ca") (Path.join directory stagedName), some sampleKey.bytes⟩

/-- Two calls that get in each other's way, and one that the system has no directory for. -/
private def twinEvents : List Event :=
  [.request (twinRequest "alice"), .request (twinRequest "bob"), .announce 1, .announce 0,
    .makeDirectory 0 (.ok [1]), .makeDirectory 1 (.ok [1]), .makeDirectory 1 (.ok [2]), .stage 1 (.ok ()),
    .holdConsole 1, .stage 0 (.ok ()), .holdConsole 0, .start 1, .request (twinRequest "carol"),
    .finish 1 (copier.outcome (twinRun 1 "bob" [2])), .holdConsole 0, .start 0, .announce 2,
    .makeDirectory 2 (.error .noEntry), .finish 0 (copier.outcome (twinRun 0 "alice" [1])), .readCertificate 1,
    .removeDirectory 1, .readCertificate 0, .removeDirectory 0]

private def certificate? (s : Session) (i : Nat) : Option Bytes := (s.result? i).bind Except.toOption

theorem results_as_alone_for_three : twinService.confirms = false ∧
    (new twinService).RanBy copier twinEvents ∧
    certificate? ((new twinService).run twinEvents) 0 =
      some (Utf8.encode "-Ialice-nalice-sca" ++ sampleKey.bytes) ∧
    certificate? ((new twinService).run twinEvents) 1 =
      some (Utf8.encode "-Ibob-nbob-sca" ++ sampleKey.bytes) ∧
    (((new twinService).run twinEvents).result? 2).isSome ∧ AsAlone twinService copier twinEvents := by
  have hran : (new twinService).RanBy copier twinEvents := by decide +kernel
  exact ⟨rfl, hran, by decide +kernel, by decide +kernel, by decide +kernel,
    results_as_alone twinService rfl copier twinEvents hran⟩

end SshAuthority.Authority.Session

import SshAuthority.Proofs.Authority.Confirmation
import SshAuthority.Proofs.Authority.Housing
import SshAuthority.Proofs.Runs
/-!
# What shows of a signature

A call is shown, confirmed and then signed, and in the end it has a result. Which steps its signature took, and
how it failed if it did, is nothing that a caller is told; so two ways of signing that come to the same
certificates, and fail for the same calls, look the same.
-/
namespace SshAuthority.Authority

/-- How signing goes: whether a call gets a directory, whether its key can be staged there, and what the run of
the tool comes to. -/
structure Backend where
  directory : Nat → SignRequest → Option Host.Fault
  staging : Nat → SignRequest → Option Host.Fault
  outcome : Nat → SignRequest → Outcome

namespace Backend

/-- What the signature of a call comes to. -/
def verdict (b : Backend) (i : Nat) (r : SignRequest) : Except SigningFault Bytes :=
  match b.directory i r with
  | some fault => .error (.stage fault)
  | none => match b.staging i r with
    | some fault => .error (.stage fault)
    | none => (b.outcome i r).result

/-- The same certificates come out, and the same calls fail, in whatever way. -/
def Alike (b b' : Backend) : Prop := ∀ i r, (b.verdict i r).toOption = (b'.verdict i r).toOption

theorem Alike.symm {b b' : Backend} (h : b.Alike b') : b'.Alike b := fun i r => (h i r).symm

end Backend

/-- How far a call has come for all that is told of it. -/
inductive Stage where
  | called
  | announced
  | confirming
  | signing
  | told (result : Except Wire.Failure Bytes)

/-- What a caller is told of a result. -/
def told (result : Except ServiceFault Bytes) : Except Wire.Failure Bytes := result.mapError ServiceFault.failure

def Phase.stage : Phase → Stage
  | .called => .called
  | .announced => .announced
  | .confirming => .confirming
  | .confirmed | .housed _ | .staged _ | .attached _ | .running _ | .signed _ | .leaving _ _ => .signing
  | .ended result => .told (told result)

/-- What shows of a session. -/
structure View where
  service : Service
  calls : List (SignRequest × Stage)
  input : Input
  shown : List (Nat × String)

def View.tell (v : View) (i : Nat) (result : Except Wire.Failure Bytes) : View :=
  { v with calls := v.calls.modify i fun x => (x.1, .told result) }

namespace Session

def view (s : Session) : View := ⟨s.service, s.calls.map fun c => (c.request, c.phase.stage), s.input, s.shown⟩

variable {s t next : Session} {e : Event} {i : Nat} {c : SigningCall} {p : Phase}

private theorem shows_entered (ht : t.calls = (s.enter i p).calls) :
    t.view.calls = s.view.calls.modify i fun x => (x.1, p.stage) := by
  apply List.ext_getElem?
  intro j
  simp only [view, ht, enter, List.getElem?_map, List.getElem?_modify]
  rcases s.calls[j]? with _ | c
  · rfl
  · by_cases hj : i = j <;> simp [hj]

private theorem shows_same (hc : s.calls[i]? = some c) (ht : t.calls = (s.enter i p).calls)
    (hp : p.stage = c.phase.stage) : t.view.calls = s.view.calls := by
  rw [shows_entered ht, hp]
  apply List.ext_getElem?
  intro j
  rw [List.getElem?_modify]
  by_cases hj : i = j
  · subst hj
    simp [view, hc]
  · simp [hj]

theorem call_of_view (h : s.view = t.view) (hc : s.calls[i]? = some c) :
    ∃ d, t.calls[i]? = some d ∧ d.request = c.request ∧ d.phase.stage = c.phase.stage := by
  have hget := congrArg (fun v : View => v.calls[i]?) h
  simp only [view, List.getElem?_map, hc, Option.map_some] at hget
  obtain ⟨d, hd, heq⟩ := Option.map_eq_some_iff.mp hget.symm
  obtain ⟨hr, hp⟩ := Prod.mk.inj heq
  exact ⟨d, hd, hr, hp⟩

private theorem phase_of_stage {p q : Phase} (h : p.stage = q.stage) (hq : q = .called ∨ q = .announced ∨ q = .confirming) :
    p = q := by
  rcases hq with rfl | rfl | rfl
  · cases p with
    | called => rfl
    | _ => cases h
  · cases p with
    | announced => rfl
    | _ => cases h
  · cases p with
    | confirming => rfl
    | _ => cases h

private theorem view_eq (hservice : s.service = t.service) (hcalls : s.view.calls = t.view.calls)
    (hinput : s.input = t.input) (hshown : s.shown = t.shown) : s.view = t.view := by
  rw [view, view, hservice, hinput, hshown]
  exact congrArg (View.mk t.service · t.input t.shown) hcalls

private theorem shows_alike {s' t' : Session} (h : s.view.calls = t.view.calls) (hs : s'.calls = (s.enter i p).calls)
    (ht : t'.calls = (t.enter i p).calls) : s'.view.calls = t'.view.calls := by
  rw [shows_entered hs, shows_entered ht, h]

/-- A step that is no part of a signature can be taken wherever it shows that it can, and shows the same. -/
theorem moves_of_view (h : s.view = t.view) (hm : s.Moves e next) (he : e.isPastGate = false) :
    ∃ next', t.Moves e next' ∧ next.view = next'.view := by
  have hservice : s.service = t.service := congrArg View.service h
  have hcalls : s.view.calls = t.view.calls := congrArg View.calls h
  have hinput : s.input = t.input := congrArg View.input h
  have hshown : s.shown = t.shown := congrArg View.shown h
  cases hm with
  | request r =>
    refine ⟨_, .request r, view_eq hservice ?_ hinput hshown⟩
    have happend : ∀ u : Session, (u.request r).view.calls = u.view.calls ++ [(r, .called)] := fun u => by
      simp [view, request, Phase.stage]
    rw [happend, happend, hcalls]
  | arrive piece => exact ⟨_, .arrive piece, view_eq hservice hcalls (congrArg (Input.arrive · piece) hinput) hshown⟩
  | closeInput => exact ⟨_, .closeInput, view_eq hservice hcalls (congrArg Input.close hinput) hshown⟩
  | @announce i c call phase =>
    obtain ⟨d, hd, hr, hp⟩ := call_of_view h call
    have hmoves := Moves.announce hd (phase_of_stage (hp.trans (by rw [phase])) (.inl rfl))
    rw [← hservice, ← hshown, hr] at hmoves
    exact ⟨_, hmoves, view_eq rfl (shows_alike hcalls rfl rfl) hinput rfl⟩
  | @holdInput i c call phase free =>
    obtain ⟨d, hd, -, hp⟩ := call_of_view h call
    have hmoves := Moves.holdInput hd (phase_of_stage (hp.trans (by rw [phase])) (.inr (.inl rfl))) (hinput ▸ free)
    rw [← hinput] at hmoves
    exact ⟨_, hmoves, view_eq hservice (shows_alike hcalls rfl rfl) rfl hshown⟩
  | @takeLine i c line rest call phase holds ready first =>
    obtain ⟨d, hd, -, hp⟩ := call_of_view h call
    have hphase := phase_of_stage (hp.trans (by rw [phase])) (.inr (.inr rfl))
    have hmoves := Moves.takeLine hd hphase (hinput ▸ holds) (hinput ▸ ready) (hinput ▸ first)
    rw [← hinput] at hmoves
    exact ⟨_, hmoves, view_eq hservice (shows_alike hcalls rfl rfl) rfl hshown⟩
  | _ => cases he

theorem view_step (h : s.view = t.view) (he : e.isPastGate = false) : (s.step e).view = (t.step e).view := by
  rcases hs : s.step? e with _ | next
  · rcases ht : t.step? e with _ | next
    · rwa [step, step, hs, ht]
    · obtain ⟨_, hm, -⟩ := moves_of_view h.symm (moves_of_step? ht) he
      rw [step?_of_moves hm] at hs
      cases hs
  · obtain ⟨next', hm, hview⟩ := moves_of_view h (moves_of_step? hs) he
    rwa [step, step, hs, step?_of_moves hm]

/-! ## Signing by a backend -/

def faultOf {α : Type} : Except Host.Fault α → Option Host.Fault
  | .error fault => some fault
  | .ok _ => none

/-- At this event nothing comes of a signature but what the backend has for it. -/
def GoesBy (b : Backend) (s : Session) : Event → Prop
  | .makeDirectory i made => ∀ c, s.calls[i]? = some c → faultOf made = b.directory i c.request
  | .stage i written => ∀ c, s.calls[i]? = some c → faultOf written = b.staging i c.request
  | .finish i outcome => ∀ c, s.calls[i]? = some c → outcome = b.outcome i c.request
  | _ => True

/-- How the signature of a call stands. -/
def Served (b : Backend) (s : Session) (i : Nat) (c : SigningCall) : Prop :=
  match c.phase with
  | .called | .announced | .confirming | .confirmed | .ended _ => True
  | .housed _ => b.directory i c.request = none
  | .staged _ | .attached _ | .running _ => b.directory i c.request = none ∧ b.staging i c.request = none
  | .signed d => b.verdict i c.request = (b.outcome i c.request).certificate.mapError .readCertificate ∧
    ∃ key, s.staging? d = some ⟨d, key, (b.outcome i c.request).certificate⟩
  | .leaving _ result => result = b.verdict i c.request

/-- All signatures go by the backend. -/
structure Serves (b : Backend) (s : Session) : Prop where
  housed : s.Housed
  calls : ∀ {i c}, s.calls[i]? = some c → s.Served b i c

variable {b : Backend}

private theorem Serves.other (h : s.Serves b) (hm : s.Moves e next) {j : Nat} (hj : e.call? ≠ some j)
    (hc : s.calls[j]? = some c) : next.Served b j c := by
  have hold := h.calls hc
  have hkept : ∀ d, c.phase.directory? = some d → next.staging? d = s.staging? d :=
    fun _ hd => h.housed.kept hm hj hc hd
  unfold Served at hold ⊢
  cases hp : c.phase <;> simp only [hp] at hold ⊢
  case signed d => rwa [hkept d (by rw [hp]; rfl)]
  all_goals exact hold

private theorem serves_entered (h : s.Serves b) (hm : s.Moves e next) (hc : s.calls[i]? = some c)
    (he : e.call? = some i) (hn : next.calls = (s.enter i p).calls) (hs : next.Served b i { c with phase := p }) :
    next.Serves b := by
  refine ⟨h.housed.of_moves hm, fun {j d} hd => ?_⟩
  rcases getElem?_entered hc hn hd with ⟨rfl, rfl⟩ | ⟨hj, hd⟩
  · exact hs
  · exact h.other hm (fun hce => hj (Option.some.inj (hce.symm.trans he))) hd

private theorem serves_outside (h : s.Serves b) (hm : s.Moves e next) (he : e.call? = none) : next.Serves b := by
  refine ⟨h.housed.of_moves hm, fun {j d} hd => ?_⟩
  rcases calls_of_moves hm with ⟨-, hn⟩ | ⟨r, -, hn⟩ | ⟨i, -, -, hi, -⟩
  · exact h.other hm (by simp [he]) (hn ▸ hd)
  · rw [hn] at hd
    rcases getElem?_append_new hd with hd | ⟨-, rfl⟩
    · exact h.other hm (by simp [he]) hd
    · trivial
  · simp [he] at hi

theorem Serves.of_moves (h : s.Serves b) (hb : s.GoesBy b e) (hm : s.Moves e next) : next.Serves b := by
  have hm' := hm
  cases hm with
  | request | arrive | closeInput => exact serves_outside h hm' rfl
  | announce call phase =>
    refine serves_entered h hm' call rfl rfl ?_
    split <;> trivial
  | takeLine call phase =>
    refine serves_entered h hm' call rfl rfl ?_
    split <;> trivial
  | holdInput call phase | noDirectory call phase | removeDirectory call phase =>
    exact serves_entered h hm' call rfl rfl trivial
  | makeDirectory call phase => exact serves_entered h hm' call rfl rfl (hb _ call).symm
  | @notStaged i c path fault call phase =>
    have hold := h.calls call
    simp only [Served, phase] at hold
    have hfault : some fault = b.staging i c.request := hb c call
    refine serves_entered h hm' call rfl rfl ?_
    simp [Served, Backend.verdict, hold, ← hfault]
  | @stage i c path call phase =>
    have hold := h.calls call
    simp only [Served, phase] at hold
    exact serves_entered h hm' call rfl rfl ⟨hold, (hb c call).symm⟩
  | holdConsole call phase | start call phase =>
    have hold := h.calls call
    simp only [Served, phase] at hold
    exact serves_entered h hm' call rfl rfl hold
  | @finish i c path outcome call phase =>
    have hold := h.calls call
    simp only [Served, phase] at hold
    have hverdict : b.verdict i c.request = (b.outcome i c.request).result := by
      simp only [Backend.verdict, hold]
    obtain rfl : outcome = b.outcome i c.request := hb c call
    obtain ⟨d, hd⟩ := Option.ne_none_iff_exists'.mp (h.housed.present call (d := path) (by rw [phase]; rfl))
    let left : Staging → Staging := fun d => { d with certificate := (b.outcome i c.request).certificate }
    have hleft : (s.updateStaging path left).staging? path =
        some ⟨path, d.key, (b.outcome i c.request).certificate⟩ := by
      rw [staging?_updated (f := left) rfl (fun _ => rfl), hd]
      simp [left, path_of_staging? hd]
    refine serves_entered h hm' call rfl rfl ?_
    cases hf : (b.outcome i c.request).failure with
    | some fault =>
      show .error fault = b.verdict i c.request
      rw [hverdict, Outcome.result, hf]
    | none =>
      refine ⟨?_, d.key, hleft⟩
      show b.verdict i c.request = _
      rw [hverdict, Outcome.result, hf]
  | @readCertificate i c path d call phase staging =>
    have hold := h.calls call
    simp only [Served, phase] at hold
    obtain ⟨hverdict, key, hd⟩ := hold
    obtain rfl := Option.some.inj (staging.symm.trans hd)
    exact serves_entered h hm' call rfl rfl hverdict.symm

private theorem view_told {result : Except ServiceFault Bytes} (ht : t.calls = (s.enter i (.ended result)).calls)
    (hservice : t.service = s.service) (hinput : t.input = s.input) (hshown : t.shown = s.shown) :
    t.view = s.view.tell i (told result) := by
  have hcalls := shows_entered ht
  rw [View.tell, view, view, hservice, hinput, hshown]
  exact congrArg (View.mk s.service · s.input s.shown) hcalls

theorem view_signing (h : s.Serves b) (hb : s.GoesBy b e) (hm : s.Moves e next) (he : e.isPastGate) :
    next.view = s.view ∨ ∃ i c, s.calls[i]? = some c ∧ c.phase.stage = .signing ∧
      next.view = s.view.tell i (told ((b.verdict i c.request).mapError .signingFailed)) := by
  cases hm with
  | request | arrive | closeInput | announce | holdInput | takeLine => cases he
  | @noDirectory i c fault call phase =>
    have hfault : some fault = b.directory i c.request := hb c call
    have hverdict : b.verdict i c.request = .error (.stage fault) := by simp [Backend.verdict, ← hfault]
    refine .inr ⟨i, c, call, by rw [phase]; rfl, ?_⟩
    rw [hverdict]
    exact view_told rfl rfl rfl rfl
  | @removeDirectory i c path result call phase =>
    have hold := h.calls call
    simp only [Served, phase] at hold
    refine .inr ⟨i, c, call, by rw [phase]; rfl, ?_⟩
    rw [← hold]
    exact view_told rfl rfl rfl rfl
  | finish call phase =>
    refine .inl (view_eq rfl (shows_same call rfl ?_) rfl rfl)
    rw [phase]
    split <;> rfl
  | _ call phase => exact .inl (view_eq rfl (shows_same call rfl (by rw [phase]; rfl)) rfl rfl)

/-! ## A signature without a pause -/

/-- No signature has begun that has not come to its end. -/
structure Settled (s : Session) : Prop where
  console : s.console = none
  directories : s.directories = []
  calls : ∀ c ∈ s.calls, c.phase.stage = .signing → c.phase = .confirmed

def signature (b : Backend) (i : Nat) (r : SignRequest) : List Event :=
  match b.directory i r with
  | some fault => [.makeDirectory i (.error fault)]
  | none => .makeDirectory i (.ok []) :: match b.staging i r with
    | some fault => [.stage i (.error fault), .removeDirectory i]
    | none => [.stage i (.ok ()), .holdConsole i, .start i, .finish i (b.outcome i r), .readCertificate i,
        .removeDirectory i]

def GoesOnBy (b : Backend) : Session → List Event → Prop := Allowed step (GoesBy b)

/-- A signature that is not interrupted comes to what the backend makes of it, and leaves nothing behind. -/
private theorem signature_run (h : s.Settled) (hc : s.calls[i]? = some c) (hp : c.phase = .confirmed) (b : Backend) :
    s.GoesOnBy b (signature b i c.request) ∧
    (s.run (signature b i c.request)).calls =
      (s.enter i (.ended ((b.verdict i c.request).mapError .signingFailed))).calls ∧
    (s.run (signature b i c.request)).console = none ∧ (s.run (signature b i c.request)).directories = [] ∧
    (s.run (signature b i c.request)).service = s.service ∧ (s.run (signature b i c.request)).input = s.input ∧
    (s.run (signature b i c.request)).shown = s.shown := by
  have hd := h.directories
  have hk := h.console
  rcases hdir : b.directory i c.request with _ | fault <;> rcases hstage : b.staging i c.request with _ | fault <;>
    rcases hf : (b.outcome i c.request).failure with _ | fault <;>
    simp [signature, hdir, hstage, hf, GoesOnBy, Allowed, GoesBy, faultOf, step, step?, Event.call?, act, enter, hc, hp, hk, hd,
      List.getElem?_modify, List.modify_modify_eq, staging?, updateStaging, Function.comp_def, Backend.verdict,
      Outcome.result, Except.mapError]

private theorem isPastGate_of_mem {r : SignRequest} : ∀ e ∈ signature b i r, e.isPastGate := by
  unfold signature
  split
  · simp [Event.isPastGate]
  · split <;> simp [Event.isPastGate]

private theorem settled_entered (h : s.Settled) (hc : s.calls[i]? = some c) (ht : t.calls = (s.enter i p).calls)
    (hk : t.console = none) (hd : t.directories = []) (hp : p.stage = .signing → p = .confirmed) : t.Settled := by
  refine ⟨hk, hd, fun d hmem hstage => ?_⟩
  obtain ⟨j, hj⟩ := List.mem_iff_getElem?.mp hmem
  rcases getElem?_entered hc ht hj with ⟨-, rfl⟩ | ⟨-, hj⟩
  · exact hp hstage
  · exact h.calls d (List.mem_of_getElem? hj) hstage

/-- A call that is to be signed can be, at once and by any backend. -/
theorem exists_signature (h : s.Settled) (hc : s.calls[i]? = some c) (hp : c.phase.stage = .signing) (b : Backend) :
    ∃ es, (∀ e ∈ es, e.isPastGate) ∧ s.GoesOnBy b es ∧ (s.run es).Settled ∧
      (s.run es).view = s.view.tell i (told ((b.verdict i c.request).mapError .signingFailed)) := by
  obtain ⟨hgoes, hcalls, hk, hd, hservice, hinput, hshown⟩ :=
    signature_run h hc (h.calls c (List.mem_of_getElem? hc) hp) b
  have hend : (Phase.ended ((b.verdict i c.request).mapError .signingFailed)).stage = .signing →
      Phase.ended ((b.verdict i c.request).mapError .signingFailed) = .confirmed := by
    simp [Phase.stage]
  exact ⟨_, isPastGate_of_mem, hgoes, settled_entered h hc hcalls hk hd hend, view_told hcalls hservice hinput hshown⟩

theorem Settled.step (h : s.Settled) (he : e.isPastGate = false) : (s.step e).Settled := by
  rcases hs : s.step? e with _ | next
  · rwa [Session.step, hs]
  rw [Session.step, hs]
  have hm := moves_of_step? hs
  cases hm with
  | request r =>
    refine ⟨h.console, h.directories, fun d hd hstage => ?_⟩
    rcases List.mem_append.mp hd with hd | hd
    · exact h.calls d hd hstage
    · rw [List.mem_singleton.mp hd] at hstage
      cases hstage
  | arrive | closeInput => exact ⟨h.console, h.directories, h.calls⟩
  | announce call phase =>
    refine settled_entered h call rfl h.console h.directories ?_
    split <;> simp [Phase.stage]
  | holdInput call phase => exact settled_entered h call rfl h.console h.directories (by simp [Phase.stage])
  | takeLine call phase =>
    refine settled_entered h call rfl h.console h.directories ?_
    split <;> simp [Phase.stage]
  | _ => cases he

/-! ## Two backends -/

theorem told_of_alike {b b' : Backend} (h : b.Alike b') (i : Nat) (r : SignRequest) :
    told ((b.verdict i r).mapError .signingFailed) = told ((b'.verdict i r).mapError .signingFailed) := by
  have hv := h i r
  rcases hb : b.verdict i r with fault | certificate <;> rcases hb' : b'.verdict i r with fault' | certificate' <;>
    rw [hb, hb'] at hv
  · rfl
  · cases hv
  · cases hv
  · rw [Option.some.inj hv]

def others (es : List Event) : List Event := es.filter (!·.isPastGate)

/-- One session signs by `b`, in any steps, and shows the same as another one where signatures have no pause. -/
structure Twin (b : Backend) (s t : Session) : Prop where
  serves : s.Serves b
  settled : t.Settled
  view : s.view = t.view

/-- Whatever happens where one backend signs can happen where the other one does, and shows the same. -/
theorem Twin.step {b b' : Backend} (alike : b.Alike b') (h : s.Twin b t) (hb : s.GoesBy b e) :
    ∃ es, others es = others [e] ∧ t.GoesOnBy b' es ∧ (s.step e).Twin b (t.run es) := by
  have hserves : (s.step e).Serves b := by
    rcases hs : s.step? e with _ | next
    · rw [Session.step, hs]
      exact h.serves
    · rw [Session.step, hs]
      exact h.serves.of_moves hb (moves_of_step? hs)
  cases he : e.isPastGate with
  | false =>
    have hgoes : t.GoesBy b' e := by cases e <;> trivial
    exact ⟨[e], rfl, ⟨hgoes, trivial⟩, hserves, h.settled.step he, view_step h.view he⟩
  | true =>
    -- The other session lies still until the signature has its result, and then makes it up at once.
    have hothers : others [e] = [] := by simp [others, he]
    rcases hs : s.step? e with _ | next
    · have hstuck : s.step e = s := by rw [Session.step, hs]; rfl
      exact ⟨[], hothers.symm, trivial, hserves, h.settled, by rw [hstuck]; exact h.view⟩
    · have hnext : s.step e = next := by rw [Session.step, hs]; rfl
      rw [hnext] at hserves ⊢
      rcases view_signing h.serves hb (moves_of_step? hs) he with hview | ⟨i, c, hc, hstage, hview⟩
      · exact ⟨[], hothers.symm, trivial, hserves, h.settled, hview.trans h.view⟩
      · obtain ⟨d, hd, hr, hp⟩ := call_of_view h.view hc
        obtain ⟨es, hpast, hgoes, hsettled, hdone⟩ := exists_signature h.settled hd (hp.trans hstage) b'
        have hnone : others es = [] := List.filter_eq_nil_iff.mpr fun e' he' => by simp [hpast e' he']
        refine ⟨es, hnone.trans hothers.symm, hgoes, hserves, hsettled, ?_⟩
        rw [hview, hdone, h.view, hr, told_of_alike alike]

end Session

end SshAuthority.Authority

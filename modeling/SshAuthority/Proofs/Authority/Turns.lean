import SshAuthority.Proofs.Authority.Announcing
import SshAuthority.Proofs.Runs
/-!
# Answers in order

The operator's input is taken line by line, and who takes a line was shown before. Where the calls get hold of
the input in the order in which they were shown, the lines answer what was shown one by one. Nothing but the
scheduling of the calls sees to that.
-/
namespace SshAuthority.Authority

/-! ## The lines of the input -/

namespace Operator

/-- The lines of the input, each with its newline, and the rest where it has none. -/
def lines : Bytes → List Bytes
  | [] => []
  | b :: input =>
    if b = newline then [b] :: lines input
    else match lines input with
      | [] => [[b]]
      | line :: more => (b :: line) :: more

/-- The line at a place, which is empty behind the last one. -/
def lineAt (input : Bytes) (n : Nat) : Bytes := ((lines input)[n]?).getD []

private theorem takeLine_newline (input : Bytes) : takeLine (newline :: input) = ([newline], input) := by
  simp [takeLine]

private theorem takeLine_cons {b : UInt8} (hb : b ≠ newline) (input : Bytes) :
    takeLine (b :: input) = (b :: (takeLine input).1, (takeLine input).2) := by
  simp only [takeLine, List.takeWhile_cons, bne_iff_ne.mpr hb, if_true, List.length_cons, List.drop_succ_cons]
  split <;> rfl

private theorem lines_of_mem {input : Bytes} (hn : newline ∈ input) (more : Bytes) :
    lines (input ++ more) = (takeLine input).1 :: lines ((takeLine input).2 ++ more) := by
  induction input with
  | nil => cases hn
  | cons b input ih =>
    by_cases hb : b = newline
    · subst hb
      rw [takeLine_newline, List.cons_append, lines, if_pos rfl]
    · rw [takeLine_cons hb, List.cons_append, lines, if_neg hb, ih ((List.mem_cons.mp hn).resolve_left (Ne.symm hb))]

private theorem takeLine_of_not_mem {input : Bytes} (hn : newline ∉ input) : takeLine input = (input, []) := by
  induction input with
  | nil => rfl
  | cons b input ih =>
    obtain ⟨hb, hn⟩ := not_or.mp (List.mem_cons.not.mp hn)
    rw [takeLine_cons (Ne.symm hb), ih hn]

private theorem lines_of_not_mem {input : Bytes} (hn : newline ∉ input) (hne : input ≠ []) : lines input = [input] := by
  induction input with
  | nil => exact absurd rfl hne
  | cons b input ih =>
    obtain ⟨hb, hn⟩ := not_or.mp (List.mem_cons.not.mp hn)
    rw [lines, if_neg (Ne.symm hb)]
    cases input with
    | nil => rfl
    | cons c input => rw [ih hn (List.cons_ne_nil c input)]

/-- What is taken first is the first line, if that is there in whole or no more will come. -/
theorem lineAt_takeLine {input line rest more : Bytes} (h : takeLine input = (line, rest))
    (hready : newline ∈ input ∨ more = []) :
    lineAt (input ++ more) 0 = line ∧ ∀ n, lineAt (input ++ more) (n + 1) = lineAt (rest ++ more) n := by
  by_cases hn : newline ∈ input
  · rw [lineAt, lines_of_mem hn, h]
    exact ⟨rfl, fun n => by rw [lineAt, lines_of_mem hn, h]; rfl⟩
  · obtain rfl := hready.resolve_left hn
    obtain ⟨rfl, rfl⟩ := Prod.mk.inj ((takeLine_of_not_mem hn).symm.trans h)
    rw [List.append_nil]
    by_cases hne : input = []
    · subst hne
      exact ⟨rfl, fun n => rfl⟩
    · exact ⟨by rw [lineAt, lines_of_not_mem hn hne]; rfl, fun n => by rw [lineAt, lines_of_not_mem hn hne]; rfl⟩

end Operator

namespace Input

/-- What was taken is the first lines of the input, and what is left is the others, whatever more of it comes. -/
structure Lined (s : Input) : Prop where
  taken : ∀ more, (s.ended = true → more = []) → ∀ {n x}, s.taken[n]? = some x →
    Operator.lineAt (s.consumed ++ s.arrived ++ more) n = x.2
  left : ∀ more, (s.ended = true → more = []) → ∀ n,
    Operator.lineAt (s.consumed ++ s.arrived ++ more) (s.taken.length + n) = Operator.lineAt (s.arrived ++ more) n

theorem Lined.arrive {s : Input} (h : s.Lined) (piece : Bytes) : (s.arrive piece).Lined := by
  rw [Input.arrive]
  split
  case isTrue => exact h
  case isFalse he =>
    refine ⟨fun more _ n x hx => ?_, fun more _ n => ?_⟩
    · have ht := h.taken (piece ++ more) (fun hend => absurd hend he) hx
      simpa [consumed] using ht
    · have hl := h.left (piece ++ more) (fun hend => absurd hend he) n
      simpa [consumed] using hl

theorem Lined.close {s : Input} (h : s.Lined) : s.close.Lined :=
  ⟨fun more hmore _ _ hx => h.taken more (fun _ => hmore rfl) hx, fun more hmore n => h.left more (fun _ => hmore rfl) n⟩

theorem Lined.take {s : Input} (h : s.Lined) (hr : s.isReady) {line rest : Bytes}
    (hf : Operator.takeLine s.arrived = (line, rest)) (who : Nat) :
    Lined { s with arrived := rest, holder := none, taken := s.taken ++ [(who, line)] } := by
  let next : Input := { s with arrived := rest, holder := none, taken := s.taken ++ [(who, line)] }
  have hwhole : next.consumed ++ next.arrived = s.consumed ++ s.arrived := by
    rw [← Session.takeLine_append hf]
    simp [next, consumed]
  have hnow : ∀ more, (s.ended = true → more = []) → Operator.lineAt (s.arrived ++ more) 0 = line ∧
      ∀ n, Operator.lineAt (s.arrived ++ more) (n + 1) = Operator.lineAt (rest ++ more) n := by
    intro more hmore
    refine Operator.lineAt_takeLine hf ?_
    simp only [isReady, List.contains_eq_mem, Bool.or_eq_true, decide_eq_true_eq] at hr
    exact hr.imp_right hmore
  refine ⟨fun more hmore n x hx => ?_, fun more hmore n => ?_⟩
  · rw [show next.consumed ++ next.arrived ++ more = s.consumed ++ s.arrived ++ more by rw [hwhole]]
    rcases getElem?_append_new hx with hx | ⟨rfl, rfl⟩
    · exact h.taken more hmore hx
    · exact (h.left more hmore 0).trans (hnow more hmore).1
  · rw [show next.consumed ++ next.arrived ++ more = s.consumed ++ s.arrived ++ more by rw [hwhole]]
    rw [List.length_append, List.length_singleton, Nat.add_assoc, Nat.add_comm 1 n, h.left more hmore]
    exact (hnow more hmore).2 n

end Input

namespace Session

private theorem lined_step (s : Session) (e : Event) (next : Session) (h : s.input.Lined) (hm : s.Moves e next) :
    next.input.Lined := by
  cases hm with
  | arrive piece => exact h.arrive piece
  | closeInput => exact h.close
  | holdInput => exact ⟨h.taken, h.left⟩
  | takeLine call phase holds ready first => exact h.take ready first _
  | _ => exact h

theorem lined_run (service : Service) (events : List Event) : ((new service).run events).input.Lined :=
  run_preserves (P := fun s => s.input.Lined) lined_step
    ⟨fun _ _ => by simp [new, Input.empty], fun _ _ => by simp [new, Input.empty, Input.consumed]⟩ events

/-! ## Taking turns -/

def isWaiting (s : Session) (i : Nat) : Bool :=
  match s.phase? i with
  | some .announced => true
  | _ => false

/-- Whose turn it is: of those that wait, the one that was shown first. -/
def nextInLine (s : Session) : Option Nat := (s.shown.map (·.1)).find? s.isWaiting

/-- At this event nobody gets hold of the input but whose turn it is. -/
def InTurn (s : Session) : Event → Prop
  | .holdInput i => (s.step? (.holdInput i)).isSome → s.nextInLine = some i
  | _ => True

def TakesTurns : Session → List Event → Prop := Allowed step InTurn

instance (s : Session) : (e : Event) → Decidable (s.InTurn e)
  | .holdInput i => inferInstanceAs (Decidable ((s.step? (.holdInput i)).isSome → s.nextInLine = some i))
  | .request _ | .arrive _ | .closeInput | .announce _ | .takeLine _ | .makeDirectory _ _ | .stage _ _
  | .holdConsole _ | .start _ | .finish _ _ | .readCertificate _ | .removeDirectory _ => .isTrue trivial

instance (s : Session) (es : List Event) : Decidable (s.TakesTurns es) :=
  inferInstanceAs (Decidable (Allowed step InTurn s es))

/-- Those who were shown have their lines, or the input, or wait, in this order. -/
structure Queued (s : Session) (waiting : List Nat) : Prop where
  confirms : s.service.confirms = true
  announced : s.Announced
  shown : s.shown.map (·.1) = s.input.taken.map (·.1) ++ s.input.holder.toList ++ waiting
  answered : ∀ i ∈ s.input.taken.map (·.1), ∃ p, s.phase? i = some p ∧ 3 ≤ p.rank
  holding : ∀ {i}, s.input.holder = some i → s.phase? i = some .confirming
  waiting : ∀ i ∈ waiting, s.phase? i = some .announced

variable {s next : Session} {e : Event} {i : Nat} {c : SigningCall} {waiting : List Nat}

private theorem answered_of_moves (h : s.Queued waiting) (hm : s.Moves e next) :
    ∀ i ∈ s.input.taken.map (·.1), ∃ p, next.phase? i = some p ∧ 3 ≤ p.rank := by
  intro i hi
  obtain ⟨p, hp, hr⟩ := h.answered i hi
  obtain ⟨q, hq, hle⟩ := rank_le_of_moves hm hp
  exact ⟨q, hq, Nat.le_trans hr hle⟩

private theorem phase?_of_other (hm : s.Moves e next) {j : Nat} (hj : e.call? ≠ some j) {p : Phase}
    (hp : s.phase? j = some p) : next.phase? j = some p := by
  rcases calls_of_moves hm with ⟨-, hn⟩ | ⟨r, -, hn⟩ | ⟨i, c, q, he, hc, hn, -⟩
  · rw [phase?, hn, ← phase?, hp]
  · rw [phase?, hn, List.getElem?_append_left (lt_length_of_phase? hp), ← phase?, hp]
  · rw [phase?_entered hc hn, if_neg fun hji => hj (he.trans (congrArg some hji.symm)), hp]

private theorem queued_kept (h : s.Queued waiting) (hm : s.Moves e next) (hs : next.shown = s.shown)
    (ht : next.input.taken = s.input.taken) (hh : next.input.holder = s.input.holder)
    (hp : ∀ i c, e.call? = some i → s.calls[i]? = some c → c.phase ≠ .announced ∧ c.phase ≠ .confirming) :
    next.Queued waiting := by
  have hother : ∀ {i p}, s.phase? i = some p → p = .announced ∨ p = .confirming → e.call? ≠ some i := by
    intro i p hi hor he
    obtain ⟨c, hc, rfl⟩ := Option.map_eq_some_iff.mp hi
    exact hor.elim (hp i c he hc).1 (hp i c he hc).2
  refine ⟨service_of_moves hm ▸ h.confirms, h.announced.of_moves hm, ?_, ?_, fun hi => ?_, fun i hi => ?_⟩
  · rw [hs, ht, hh, h.shown]
  · rw [ht]
    exact answered_of_moves h hm
  · have hold := h.holding (hh ▸ hi)
    exact phase?_of_other hm (hother hold (.inr rfl)) hold
  · have hold := h.waiting i hi
    exact phase?_of_other hm (hother hold (.inl rfl)) hold

private theorem Queued.first (h : s.Queued waiting) (hfree : s.input.holder = none) (hn : s.nextInLine = some i) :
    ∃ others, waiting = i :: others := by
  have htaken : (s.input.taken.map (·.1)).find? s.isWaiting = none := by
    rw [List.find?_eq_none]
    intro j hj hw
    obtain ⟨p, hp, hr⟩ := h.answered j hj
    rw [isWaiting, hp] at hw
    cases p <;> simp [Phase.rank] at hr hw
  rw [nextInLine, h.shown, hfree, Option.toList_none, List.append_nil, List.find?_append, htaken, Option.none_or] at hn
  cases waiting with
  | nil => cases hn
  | cons j others =>
    have hw : s.isWaiting j := by rw [isWaiting, h.waiting j List.mem_cons_self]
    rw [List.find?_cons_of_pos hw] at hn
    exact ⟨others, by rw [Option.some.inj hn]⟩

private theorem queued_step (s : Session) (e : Event) (next : Session) (h : ∃ waiting, s.Queued waiting)
    (hturn : s.InTurn e) (hs : s.step? e = some next) : ∃ waiting, next.Queued waiting := by
  obtain ⟨waiting, h⟩ := h
  have hm := moves_of_step? hs
  have hm' := hm
  have hanswered := answered_of_moves h hm
  cases hm with
  | request | closeInput => exact ⟨waiting, queued_kept h hm' rfl rfl rfl (by simp [Event.call?])⟩
  | arrive piece =>
    refine ⟨waiting, queued_kept h hm' rfl ?_ ?_ (by simp [Event.call?])⟩ <;> simp only [Input.arrive] <;>
      split <;> rfl
  | @announce i c call phase =>
    have hi : s.phase? i = some .called := by rw [phase?_of_call call, phase]
    have hother : ∀ {j p}, s.phase? j = some p → p ≠ .called → (Event.announce i).call? ≠ some j := by
      intro j p hj hp he
      obtain rfl := Option.some.inj he
      exact hp (Option.some.inj (hj.symm.trans hi))
    refine ⟨waiting ++ [i], h.confirms, h.announced.of_moves hm', ?_, hanswered, fun hj => ?_,
      fun j hj => ?_⟩
    · rw [enter_shown, List.map_append, h.shown, List.append_assoc]
      rfl
    · have hold := h.holding hj
      exact phase?_of_other hm' (hother hold (by simp)) hold
    · rcases List.mem_append.mp hj with hj | hj
      · have hold := h.waiting j hj
        exact phase?_of_other hm' (hother hold (by simp)) hold
      · obtain rfl := List.mem_singleton.mp hj
        refine (phase?_entered (s := s) call rfl j).trans ?_
        rw [if_pos rfl, if_pos h.confirms]
  | @holdInput i c call phase free =>
    obtain ⟨others, rfl⟩ := h.first free (hturn (by rw [hs]; rfl))
    have hnodup : (i :: others).Nodup := by
      have honce := h.announced.once
      rw [h.shown] at honce
      exact (List.nodup_append.mp honce).2.1
    refine ⟨others, h.confirms, h.announced.of_moves hm', ?_, hanswered, fun hj => ?_, fun j hj => ?_⟩
    · rw [enter_shown, h.shown, free]
      simp
    · obtain rfl := Option.some.inj hj
      exact (phase?_entered (s := s) call rfl i).trans (if_pos rfl)
    · have hold := h.waiting j (List.mem_cons_of_mem _ hj)
      refine phase?_of_other hm' (fun he => ?_) hold
      obtain rfl := Option.some.inj he
      exact (List.nodup_cons.mp hnodup).1 hj
  | @takeLine i c line rest call phase holds ready first =>
    have hi : s.phase? i = some .confirming := by rw [phase?_of_call call, phase]
    refine ⟨waiting, h.confirms, h.announced.of_moves hm', ?_, fun j hj => ?_, fun hj => ?_, fun j hj => ?_⟩
    · rw [enter_shown, h.shown, holds]
      simp
    · rw [enter_input, List.map_append] at hj
      rcases List.mem_append.mp hj with hj | hj
      · exact hanswered j hj
      · refine ⟨_, (phase?_entered (s := s) call rfl j).trans (if_pos (List.mem_singleton.mp hj)), ?_⟩
        split <;> simp [Phase.rank]
    · cases hj
    · have hold := h.waiting j hj
      refine phase?_of_other hm' (fun he => ?_) hold
      obtain rfl := Option.some.inj he
      rw [hi] at hold
      cases hold
  | _ call phase =>
    refine ⟨waiting, queued_kept h hm' rfl rfl rfl fun j d hj hd => ?_⟩
    obtain rfl := Option.some.inj hj
    obtain rfl := Option.some.inj (call.symm.trans hd)
    simp [phase]

private theorem queued_run {events : List Event} (h : ∃ waiting, s.Queued waiting) (ht : s.TakesTurns events) :
    ∃ waiting, (s.run events).Queued waiting := by
  refine Allowed.preserves (P := fun s => ∃ waiting, s.Queued waiting) (fun {s e} h hturn => ?_) h ht
  rcases hs : s.step? e with _ | next
  · rwa [step, hs]
  · rw [step, hs]
    exact queued_step s e next h hturn hs

/-! ## Answers -/

/-- The lines of the operator answer what the operator was shown, one by one. -/
structure AnswersInOrder (start : Session) (events : List Event) : Prop where
  /-- Whoever took a line took the one at the place of its summary. -/
  paired : ∀ {n i line}, (start.run events).input.taken[n]? = some (i, line) →
    ∃ c, (start.run events).calls[i]? = some c ∧ (start.run events).shown[n]? = some (i, c.request.summary) ∧
      line = Operator.lineAt (typed events) n
  /-- Whoever has the input is the first of those that were shown and have no line. -/
  holder : ∀ {i}, (start.run events).input.holder = some i →
    ((start.run events).shown.map (·.1))[(start.run events).input.taken.length]? = some i
  confirmed : ∀ {i line}, (i, line) ∈ (start.run events).input.taken →
    (Operator.isYes line = false ↔ (start.run events).result? i = some (.error .notConfirmed))
  prefixed : (start.run events).input.taken.map (·.1) <+: (start.run events).shown.map (·.1)

private theorem Gated.refused_iff (h : s.Gated) {line : Bytes} (ht : (i, line) ∈ s.input.taken) :
    Operator.isYes line = false ↔ s.result? i = some (.error .notConfirmed) := by
  obtain ⟨c, hc⟩ : ∃ c, s.calls[i]? = some c := ⟨_, List.getElem?_eq_getElem (h.taken _ ht)⟩
  have hm := Input.mem_linesOf.mpr ht
  have hr : 3 ≤ c.phase.rank := by
    by_contra hw
    rw [(h.calls hc).waiting (by omega)] at hm
    cases hm
  obtain ⟨line', hl, hiff⟩ := (h.calls hc).answered hr
  rw [hl, List.mem_singleton] at hm
  rw [hm, hiff, Refused, result?, phase?_of_call hc, Option.bind_some]
  cases c.phase <;> simp [Phase.result?]

/-- Where the calls take turns, the lines are answers in the order of the announcements. -/
theorem answers_in_order (identity : Identity) (events : List Event)
    (turns : (new ⟨identity, true⟩).TakesTurns events) : AnswersInOrder (new ⟨identity, true⟩) events := by
  have hstart : (new ⟨identity, true⟩).Queued [] :=
    ⟨rfl, announced_run ⟨identity, true⟩ [], rfl, List.forall_mem_nil _, by simp [new, Input.empty],
      List.forall_mem_nil _⟩
  obtain ⟨waiting, hq⟩ := queued_run ⟨[], hstart⟩ turns
  have hl := lined_run ⟨identity, true⟩ events
  have htyped : typed events = ((new ⟨identity, true⟩).run events).received :=
    (received_run (new ⟨identity, true⟩) events).symm
  refine ⟨fun {n i line} hx => ?_, fun hi => ?_, (gated_run identity events).refused_iff, ?_⟩
  · have hplace : (((new ⟨identity, true⟩).run events).shown.map (·.1))[n]? = some i := by
      rw [hq.shown, List.append_assoc]
      exact getElem?_append_old (by rw [List.getElem?_map, hx]; rfl) _
    rw [List.getElem?_map] at hplace
    obtain ⟨⟨j, text⟩, hshown, rfl⟩ := Option.map_eq_some_iff.mp hplace
    obtain ⟨c, hc, -, rfl⟩ := hq.announced.own.mp (List.mem_of_getElem? hshown)
    refine ⟨c, hc, hshown, ?_⟩
    have hline := hl.taken [] (fun _ => rfl) hx
    rw [List.append_nil] at hline
    rw [htyped, received, hline]
  · rw [hq.shown, hi, List.append_assoc, List.getElem?_append_right (by simp)]
    simp
  · rw [hq.shown, List.append_assoc]
    exact List.prefix_append _ _

private def askedIdentity : Identity := ⟨Utf8.encode "ca", sampleKey⟩

private def askedTwice : List Event :=
  [.request ⟨"alice", .user, ["alice"], sampleKey⟩, .request ⟨"bob", .user, ["bob"], sampleKey⟩]

/-- Two calls take turns; one is confirmed, and the other one gets what is left when the input ends. -/
private def inTurn : List Event :=
  askedTwice ++ [.announce 1, .announce 0, .holdInput 1, .holdInput 0, .arrive (Utf8.encode "yes\nno"), .takeLine 1,
    .holdInput 0, .takeLine 0, .closeInput, .takeLine 0]

theorem answers_two_in_order : (new ⟨askedIdentity, true⟩).TakesTurns inTurn ∧
    ((new ⟨askedIdentity, true⟩).run inTurn).input.taken =
      [(1, Utf8.encode "yes\n"), (0, Utf8.encode "no")] ∧ AnswersInOrder (new ⟨askedIdentity, true⟩) inTurn := by
  have hturns : (new ⟨askedIdentity, true⟩).TakesTurns inTurn := by decide +kernel
  exact ⟨hturns, by decide +kernel, answers_in_order askedIdentity inTurn hturns⟩

/-- Both calls were shown before the second one is the first to get hold of the input. -/
private def outOfTurn : List Event :=
  askedTwice ++ [.announce 0, .announce 1, .holdInput 1, .arrive (Utf8.encode "yes\n"), .takeLine 1]

/-- The first line confirms what was shown second, and what was shown first still waits. -/
theorem line_confirms_a_later_call :
    ((new ⟨askedIdentity, true⟩).run outOfTurn).shown.map (·.1) = [0, 1] ∧
    ((new ⟨askedIdentity, true⟩).run outOfTurn).input.taken = [(1, Utf8.encode "yes\n")] ∧
    ((new ⟨askedIdentity, true⟩).run outOfTurn).phase? 0 = some .announced ∧
    ((new ⟨askedIdentity, true⟩).run outOfTurn).phase? 1 = some .confirmed :=
  ⟨by decide +kernel, by decide +kernel, rfl, rfl⟩

end Session

end SshAuthority.Authority

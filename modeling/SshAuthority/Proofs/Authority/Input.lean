import SshAuthority.Proofs.Authority.Turns
import SshAuthority.Proofs.Config.Lines
/-!
# One line, one answer

However many wait for the operator, and in whatever pieces the input arrives, whoever gets hold of it as the `n`-th
takes the `n`-th segment of it. A segment that ends in a newline and is text is a confirmation; what is left behind
the last newline is none, and neither is what is taken when nothing is left.
-/
namespace SshAuthority.Authority

/-! ## Segments -/

namespace Operator

/-- The bytes behind the first `n` newlines up to and with the next one, or to the end if there is none. -/
def segment (input : Bytes) (n : Nat) : Bytes :=
  ((input.splitOn newline)[n]?).getD [] ++ if n < input.count newline then [newline] else []

private theorem lineAt_newline (input : Bytes) : lineAt (newline :: input) 0 = [newline] ∧
    ∀ n, lineAt (newline :: input) (n + 1) = lineAt input n := by
  constructor
  · rw [lineAt, lines, if_pos rfl]
    rfl
  · intro n
    rw [lineAt, lines, if_pos rfl]
    rfl

private theorem lineAt_cons {b : UInt8} (hb : b ≠ newline) (input : Bytes) :
    lineAt (b :: input) 0 = b :: lineAt input 0 ∧ ∀ n, lineAt (b :: input) (n + 1) = lineAt input (n + 1) := by
  constructor
  · rw [lineAt, lines, if_neg hb, lineAt]
    split
    case h_1 h =>
      rw [h]
      rfl
    case h_2 h =>
      rw [h]
      rfl
  · intro n
    rw [lineAt, lines, if_neg hb, lineAt]
    split
    case h_1 h =>
      rw [h]
      rfl
    case h_2 h =>
      rw [h]
      rfl

private theorem segment_newline (input : Bytes) : segment (newline :: input) 0 = [newline] ∧
    ∀ n, segment (newline :: input) (n + 1) = segment input n := by
  simp [segment, List.splitOn_cons_eq_if_modifyHead]

private theorem segment_cons {b : UInt8} (hb : b ≠ newline) (input : Bytes) :
    segment (b :: input) 0 = b :: segment input 0 ∧ ∀ n, segment (b :: input) (n + 1) = segment input (n + 1) := by
  obtain ⟨part, parts, hparts⟩ := List.exists_cons_of_ne_nil (List.splitOn_ne_nil newline input)
  simp [segment, List.splitOn_cons_eq_if_modifyHead, hb, hparts]

theorem lineAt_eq_segment (input : Bytes) (n : Nat) : lineAt input n = segment input n := by
  induction input generalizing n with
  | nil => cases n <;> rfl
  | cons b input ih =>
    by_cases hb : b = newline
    · subst hb
      cases n with
      | zero => rw [(lineAt_newline input).1, (segment_newline input).1]
      | succ n => rw [(lineAt_newline input).2, (segment_newline input).2, ih]
    · cases n with
      | zero => rw [(lineAt_cons hb input).1, (segment_cons hb input).1, ih]
      | succ n => rw [(lineAt_cons hb input).2, (segment_cons hb input).2, ih]

theorem last_segment_iff (input : Bytes) (n : Nat) :
    (segment input n).getLast? = some newline ↔ n < input.count newline := by
  by_cases hn : n < input.count newline
  · simp [segment, hn]
  · rw [segment, if_neg hn, List.append_nil]
    refine iff_of_false (fun hl => ?_) hn
    cases hp : (input.splitOn newline)[n]? with
    | none =>
      rw [hp] at hl
      cases hl
    | some part =>
      rw [hp] at hl
      have hmem : part ∈ Config.lines input := List.mem_of_getElem? hp
      exact Config.newline_not_mem_lines hmem (List.mem_of_getLast? hl)

theorem isYes_segment_iff (input : Bytes) (n : Nat) : isYes (segment input n) = true ↔
    n < input.count newline ∧ ∃ text, Utf8.decode? (segment input n) = some text := by
  rw [isYes, Bool.and_eq_true, decide_eq_true_eq, last_segment_iff, Option.isSome_iff_exists]

/-- Taking a line takes the first segment and leaves the others. -/
theorem segment_takeLine (input : Bytes) : segment input 0 = (takeLine input).1 ∧
    ∀ n, segment input (n + 1) = segment (takeLine input).2 n := by
  have htaken : takeLine input = ((takeLine input).1, (takeLine input).2) := rfl
  have hready : newline ∈ input ∨ ([] : Bytes) = [] := .inr rfl
  have h := lineAt_takeLine htaken hready
  simpa only [List.append_nil, lineAt_eq_segment] using h

theorem takeLine_whole (input : Bytes) : (takeLine input).1 ++ (takeLine input).2 = input :=
  Session.takeLine_append rfl

theorem confirmations_eq (n : Nat) (input : Bytes) :
    confirmations n input = (List.range n).map fun i => isYes (segment input i) := by
  induction n generalizing input with
  | zero => rfl
  | succ n ih =>
    obtain ⟨first, others⟩ := segment_takeLine input
    have rest : ∀ i, isYes (segment (takeLine input).2 i) = isYes (segment input (i + 1)) := fun i => by rw [others]
    show isYes (takeLine input).1 :: confirmations n (takeLine input).2 = _
    rw [ih, List.range_succ_eq_map, List.map_cons, List.map_map, first]
    simp only [rest]
    rfl

end Operator

/-! ## Runs -/

namespace Input
open Operator (newline isYes segment)

def offered : List Event → Bytes
  | [] => []
  | .arrive piece :: events => piece ++ offered events
  | .close :: _ => []
  | .hold _ :: events | .take _ :: events => offered events

/-- Who gets hold of the input, in order. -/
def granted (s : Input) : List Event → List Nat
  | [] => []
  | .arrive piece :: events => granted (s.arrive piece) events
  | .close :: events => granted s.close events
  | .hold who :: events => (if s.holder.isNone then [who] else []) ++ granted (s.step (.hold who)) events
  | .take who :: events => granted (s.step (.take who)) events

variable {s : Input} {who : Nat}

theorem run_cons (s : Input) (e : Event) (events : List Event) : s.run (e :: events) = (s.step e).run events := rfl

theorem step_hold (s : Input) (who : Nat) :
    s.step (.hold who) = if s.holder.isNone then { s with holder := some who } else s := by
  rw [step, hold?]
  split <;> rfl

theorem step_take (h : s.holder = some who) (hr : s.isReady = true) : s.step (.take who) =
    { s with arrived := (Operator.takeLine s.arrived).2, holder := none,
             taken := s.taken ++ [(who, (Operator.takeLine s.arrived).1)] } := by
  simp [step, take?, h, hr]

theorem step_take_blocked (h : ¬(s.holder = some who ∧ s.isReady = true)) : s.step (.take who) = s := by
  simp [step, take?, h]

theorem lined_step (h : s.Lined) (e : Event) : (s.step e).Lined := by
  cases e with
  | arrive piece => exact h.arrive piece
  | close => exact h.close
  | hold who =>
    rw [step_hold]
    split
    · exact ⟨h.taken, h.left⟩
    · exact h
  | take who =>
    by_cases ht : s.holder = some who ∧ s.isReady = true
    · rw [step_take ht.1 ht.2]
      exact h.take ht.2 rfl who
    · rw [step_take_blocked ht]
      exact h

theorem lined_of_run (h : s.Lined) (events : List Event) : (s.run events).Lined := by
  induction events generalizing s with
  | nil => exact h
  | cons e events ih => exact ih (lined_step h e)

theorem lined_empty : empty.Lined := ⟨fun _ _ => by simp [empty], fun _ _ => by simp [empty, consumed]⟩

/-- No byte of the input is lost or comes twice. -/
theorem consumed_run (s : Input) (events : List Event) : (s.run events).consumed ++ (s.run events).arrived =
    s.consumed ++ s.arrived ++ if s.ended then [] else offered events := by
  induction events generalizing s with
  | nil => simp [run, offered]
  | cons e events ih =>
    rw [run_cons, ih]
    cases e with
    | arrive piece => cases he : s.ended <;> simp [step, arrive, consumed, he, offered]
    | close => simp [step, close, consumed, offered]
    | hold who =>
      rw [step_hold]
      split <;> rfl
    | take who =>
      by_cases ht : s.holder = some who ∧ s.isReady = true
      · have taken := Operator.takeLine_whole s.arrived
        rw [step_take ht.1 ht.2]
        simp only [consumed, List.map_append, List.map_cons, List.map_nil, List.flatten_append, List.flatten_singleton,
          List.append_assoc, offered]
        rw [← List.append_assoc (Operator.takeLine s.arrived).1, taken]
      · rw [step_take_blocked ht]
        rfl

/-- Lines are taken in the order in which the input was got hold of. -/
theorem granted_run (s : Input) (events : List Event) :
    (s.run events).taken.map (·.1) ++ (s.run events).holder.toList =
      s.taken.map (·.1) ++ s.holder.toList ++ granted s events := by
  induction events generalizing s with
  | nil => simp [run, granted]
  | cons e events ih =>
    rw [run_cons, ih]
    cases e with
    | arrive piece =>
      rw [granted]
      cases he : s.ended <;> simp [step, arrive, he]
    | close => rfl
    | hold who =>
      rw [granted, step_hold]
      cases hh : s.holder <;> simp [hh]
    | take who =>
      rw [granted]
      by_cases ht : s.holder = some who ∧ s.isReady = true
      · rw [step_take ht.1 ht.2, ht.1]
        simp
      · rw [step_take_blocked ht]

/-! ## Answers -/

/-- Each answer is that of one line. -/
structure LineByLine (events : List Event) : Prop where
  order : granted empty events = (empty.run events).taken.map (·.1) ++ (empty.run events).holder.toList
  line : ∀ {n who line}, (empty.run events).taken[n]? = some (who, line) → line = segment (offered events) n
  answer : ∀ {n yes}, (empty.run events).answers[n]? = some yes →
    (yes = true ↔ n < (offered events).count newline ∧ ∃ text, Utf8.decode? (segment (offered events) n) = some text)
  exhausted : ∀ {n yes}, (offered events).count newline ≤ n → (empty.run events).answers[n]? = some yes → yes = false
  /-- The answers are those to calls that come one after the other when all of the input is there. -/
  alone : (empty.run events).answers = Operator.confirmations (empty.run events).taken.length (offered events)
  bounded : (empty.run events).answers.count true ≤ (offered events).count newline
  /-- Whoever has the input gets its segment when that is ended or no more will come, and waits until then. -/
  served : ∀ {who}, (empty.run events).holder = some who →
    if (empty.run events).taken.length < (offered events).count newline ∨ (empty.run events).ended = true then
      ((empty.run events).step (.take who)).taken = (empty.run events).taken ++
          [(who, segment (offered events) (empty.run events).taken.length)] ∧
        ((empty.run events).step (.take who)).holder = none
    else (empty.run events).step (.take who) = empty.run events

private theorem consumed_empty_run (events : List Event) :
    (empty.run events).consumed ++ (empty.run events).arrived = offered events := consumed_run empty events

theorem answers_getElem? {n : Nat} {yes : Bool} (h : s.answers[n]? = some yes) :
    ∃ who line, s.taken[n]? = some (who, line) ∧ yes = isYes line := by
  rw [answers, List.getElem?_map] at h
  obtain ⟨⟨who, line⟩, ht, rfl⟩ := Option.map_eq_some_iff.mp h
  exact ⟨who, line, ht, rfl⟩

theorem Lined.next (h : s.Lined) : segment s.arrived 0 = segment (s.consumed ++ s.arrived) s.taken.length := by
  have hl := h.left [] (fun _ => rfl) 0
  simp only [List.append_nil, Operator.lineAt_eq_segment] at hl
  exact hl.symm

theorem Lined.isReady_iff (h : s.Lined) :
    s.isReady = true ↔ s.taken.length < (s.consumed ++ s.arrived).count newline ∨ s.ended = true := by
  rw [← Operator.last_segment_iff, ← h.next, Operator.last_segment_iff, isReady, Bool.or_eq_true,
    List.contains_iff_mem, List.count_pos_iff]

theorem Lined.takeLine (h : s.Lined) :
    (Operator.takeLine s.arrived).1 = segment (s.consumed ++ s.arrived) s.taken.length := by
  rw [← h.next, (Operator.segment_takeLine s.arrived).1]

theorem count_answers_le (s : Input) : s.answers.count true ≤ s.consumed.count newline := by
  have hcount : s.answers.count true = (s.taken.filter fun x => isYes x.2).length := by
    rw [answers, List.count, List.countP_map, List.countP_eq_length_filter]
    congr 2
    funext x
    simp
  rw [hcount]
  exact Session.confirmations_le_count s

/-- Whoever waits for the operator, and however the input comes, each takes a line and is answered by it. -/
theorem answers_line_by_line (events : List Event) : LineByLine events := by
  have lined := lined_of_run lined_empty events
  have whole := consumed_empty_run events
  have line : ∀ {n who line}, (empty.run events).taken[n]? = some (who, line) → line = segment (offered events) n := by
    intro n who line ht
    have hl := lined.taken [] (fun _ => rfl) ht
    rw [List.append_nil, whole, Operator.lineAt_eq_segment] at hl
    exact hl.symm
  have answer : ∀ {n yes}, (empty.run events).answers[n]? = some yes → yes = isYes (segment (offered events) n) := by
    intro n yes hn
    obtain ⟨who, l, ht, rfl⟩ := answers_getElem? hn
    rw [line ht]
  refine ⟨?order, line, ?answer, ?exhausted, ?alone, ?bounded, ?served⟩
  case order => exact (granted_run empty events).symm
  case answer =>
    intro n yes hn
    rw [answer hn, Operator.isYes_segment_iff]
  case exhausted =>
    intro n yes hle hn
    rw [answer hn, Bool.eq_false_iff, ne_eq, Operator.isYes_segment_iff]
    exact fun h => absurd h.1 (Nat.not_lt.mpr hle)
  case alone =>
    rw [Operator.confirmations_eq]
    apply List.ext_getElem
    · simp [answers]
    · intro n hn _
      rw [answer (List.getElem?_eq_getElem hn)]
      simp
  case bounded =>
    refine (count_answers_le _).trans ?_
    rw [← whole, List.count_append]
    exact Nat.le_add_right _ _
  case served =>
    intro who hh
    have ready := lined.isReady_iff
    have first := lined.takeLine
    rw [whole] at ready first
    split
    case isTrue hr =>
      rw [step_take hh (ready.mpr hr), first]
      exact ⟨rfl, rfl⟩
    case isFalse hr => exact step_take_blocked fun h => hr (ready.mp h.2)

end Input

end SshAuthority.Authority

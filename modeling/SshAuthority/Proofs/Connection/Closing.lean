import SshAuthority.Proofs.Connection.ClientTurns
/-!
# The end of a connection

The reader marks the connection closed before it drops the slots, and a call registers its slot before it
looks at the mark. So whoever comes too late for the one is in time for the other, and nobody waits for a
reply that no one can give any more. This holds for any number of calls, also when numbers are used again.
-/
namespace SshAuthority.Connection

/-- What a call has from its slot once no more responses are read. -/
def ClientCall.settled (c : ClientCall) : Except ClientFault Bytes :=
  match c.reply with
  | some r => outcomeOf c.call r
  | none => .error .closed

/-- What a call can still return once no more responses are read and the slots are dropped. -/
def ClientCall.MayReturn (c : ClientCall) (result : Except ClientFault Bytes) : Prop :=
  match c.phase with
  | .numbered | .registered => result = .error .closed
  | .queued | .writing _ | .flushing => result = c.settled ∨ ∃ fault, result = .error (.codec (.stream fault))
  | .waiting => result = c.settled
  | .finished r => result = r
  | .abandoned => False

namespace Client

variable {s next : Client} {i : Nat} {c d : ClientCall}

/-! ## What is put on the stream -/

/-- The bytes that an event puts on the stream, with the call that they are of. -/
def output? (s : Client) : Event → Option (Nat × Bytes)
  | .put i count => match s.phase? i with
    | some (.writing rest) => some (i, rest.take count)
    | _ => none
  | _ => none

def outputs (s : Client) : List Event → List (Nat × Bytes)
  | [] => []
  | e :: es => (s.output? e).toList ++ (s.step e).outputs es

theorem outputs_append (s : Client) (es later : List Event) :
    s.outputs (es ++ later) = s.outputs es ++ (s.run es).outputs later := by
  induction es generalizing s with
  | nil => rfl
  | cons e es ih => rw [List.cons_append, outputs, outputs, ih, List.append_assoc, run_cons]

private theorem sent_of_moves {e : Event} (hm : s.Moves e next) :
    next.sent = s.sent ++ (s.output? e).toList.flatMap (·.2) := by
  cases hm with
  | put hc hp _ => simp [output?, phase?, hc, hp, enter]
  | putLast hc hp _ => simp [output?, phase?, hc, hp, enter]
  | read _ _ _ =>
    simp only [deliver]
    split <;> exact (List.append_nil _).symm
  | failWrite _ _ | abandon _ _ =>
    rw [releaseWriter]
    split <;> exact (List.append_nil _).symm
  | _ => exact (List.append_nil _).symm

private theorem output?_of_stuck {e : Event} (h : s.step? e = none) : s.output? e = none := by
  cases e with
  | put i count =>
    rcases hc : s.calls[i]? with _ | c
    · simp [output?, phase?, hc]
    · cases hp : c.phase with
      | writing rest =>
        simp only [step?, Event.call?, Option.bind_eq_bind, Option.bind_some, hc, act, hp] at h
        split at h <;> cases h
      | _ => simp [output?, phase?, hc, hp]
  | _ => rfl

theorem sent_step (s : Client) (e : Event) : (s.step e).sent = s.sent ++ (s.output? e).toList.flatMap (·.2) := by
  rcases hs : s.step? e with _ | next
  · rw [step, hs, output?_of_stuck hs]
    exact (List.append_nil _).symm
  · rw [step, hs]
    exact sent_of_moves (moves_of_step? hs)

theorem sent_run (s : Client) (es : List Event) : (s.run es).sent = s.sent ++ (s.outputs es).flatMap (·.2) := by
  induction es generalizing s with
  | nil => exact (List.append_nil _).symm
  | cons e es ih => rw [run_cons, ih, sent_step, outputs, List.flatMap_append, List.append_assoc]

/-- Whether a call has found the connection open. -/
def HasBegun (s : Client) (i : Nat) : Prop :=
  ∃ c, s.calls[i]? = some c ∧ c.phase ≠ .numbered ∧ c.phase ≠ .registered

theorem Turn.hasBegun {o : Option Nat} {w : List Wire.Request} (ht : s.Turn i c d o w)
    (h : c.phase ≠ .numbered ∧ c.phase ≠ .registered) : d.phase ≠ .numbered ∧ d.phase ≠ .registered := by
  cases ht with
  | register hp => exact absurd hp h.1
  | _ => simp

theorem HasBegun.run (h : s.HasBegun i) (es : List Event) : (s.run es).HasBegun i := by
  refine run_preserves (P := fun t => t.HasBegun i) ?_ h es
  rintro t e next ⟨c, hc, hp⟩ hm
  obtain ⟨d, hd, rfl | ⟨o, w, ht⟩ | ⟨r, -, -, rfl⟩⟩ := turn_of_course (course_of_moves hm) hc
  · exact ⟨_, hd, hp⟩
  · exact ⟨d, hd, ht.hasBegun hp⟩
  · exact ⟨_, hd, hp⟩

theorem writing_of_output? {e : Event} {x : Nat × Bytes} (h : s.output? e = some x) :
    ∃ c rest, s.calls[x.1]? = some c ∧ c.phase = .writing rest := by
  cases e with
  | put j count =>
    rw [output?, phase?] at h
    rcases hc : s.calls[j]? with _ | c
    · rw [hc] at h
      cases h
    · rw [hc, Option.map_some] at h
      split at h
      case h_1 rest hp =>
        obtain rfl := Option.some.inj h
        exact ⟨c, rest, hc, Option.some.inj hp⟩
      case h_2 => cases h
  | _ => cases h

theorem hasBegun_of_output {es : List Event} {x : Nat × Bytes} (h : x ∈ s.outputs es) :
    (s.run es).HasBegun x.1 := by
  induction es generalizing s with
  | nil => cases h
  | cons e es ih =>
    rcases List.mem_append.mp h with h | h
    · obtain ⟨c, rest, hc, hp⟩ := writing_of_output? (Option.mem_toList.mp h)
      have hbegun : s.HasBegun x.1 := ⟨c, hc, by simp [hp], by simp [hp]⟩
      exact hbegun.run (e :: es)
    · exact ih h

theorem not_output_of_result? {es : List Event} {result : Except ClientFault Bytes}
    (h : s.result? i = some result) : ∀ x ∈ s.outputs es, x.1 ≠ i := by
  induction es generalizing s with
  | nil => simp [outputs]
  | cons e es ih =>
    intro x hx
    rcases List.mem_append.mp hx with hx | hx
    · obtain ⟨c, rest, hc, hp⟩ := writing_of_output? (Option.mem_toList.mp hx)
      rintro rfl
      obtain ⟨d, hd, hfinished⟩ := call_of_result? h
      obtain rfl := Option.some.inj (hc.symm.trans hd)
      rw [hp] at hfinished
      cases hfinished
    · exact ih (result?_run h [e]) x hx

/-! ## The mark and the slots -/

/-- How far the end of a connection has come: the mark stands before the slots are dropped, and slots that are
there later are of calls that have yet to look at the mark. -/
structure Ending (s : Client) : Prop where
  marked : s.closed = true ↔ s.reader = .marked ∨ s.reader = .done
  drained : s.reader = .done → ∀ {n : UInt64} {i : Nat}, s.slot? n = some i →
    ∃ c, s.calls[i]? = some c ∧ c.seq = n ∧ c.phase = .registered

namespace Ending

private theorem marked_of_moves {e : Event} (h : s.closed = true ↔ s.reader = .marked ∨ s.reader = .done)
    (hm : s.Moves e next) : next.closed = true ↔ next.reader = .marked ∨ next.reader = .done := by
  cases hm with
  | read _ _ _ =>
    obtain ⟨-, -, hreader, hclosed⟩ := deliver_rest { s with inbox := _ } _
    rw [hreader, hclosed]
    exact h
  | failWrite _ _ | abandon _ _ =>
    rw [releaseWriter]
    split <;> exact h
  | misread hreading _ _ | stop hreading _ => simpa [hreading] using h
  | markClosed _ => simp
  | dropSlots hmarked => simpa [hmarked] using h
  | _ => exact h

private theorem drained_of_turn (h : s.Ending) (hdone : s.reader = .done) {o : Option Nat}
    {w : List Wire.Request} (hc : s.calls[i]? = some c) (ht : s.Turn i c d o w)
    (hcalls : ∀ j : Nat, next.calls[j]? = if j = i then some d else s.calls[j]?)
    (hslots : ∀ n, next.slot? n = if n = c.seq then o else s.slot? n) {n : UInt64} {j : Nat}
    (hs : next.slot? n = some j) : ∃ e, next.calls[j]? = some e ∧ e.seq = n ∧ e.phase = .registered := by
  have hkept : s.slot? n = some j → (c.seq = n → c.phase ≠ .registered) →
      ∃ e, next.calls[j]? = some e ∧ e.seq = n ∧ e.phase = .registered := by
    intro hj hne
    obtain ⟨e, he, hseq, hreg⟩ := h.drained hdone hj
    have hji : j ≠ i := by
      rintro rfl
      obtain rfl := Option.some.inj (hc.symm.trans he)
      exact hne hseq hreg
    exact ⟨e, by rw [hcalls, if_neg hji, he], hseq, hreg⟩
  rw [hslots] at hs
  by_cases hn : n = c.seq
  · rw [if_pos hn] at hs
    cases ht with
    | register _ =>
      obtain rfl := Option.some.inj hs
      exact ⟨_, (hcalls i).trans (if_pos rfl), hn.symm, rfl⟩
    | queue _ hopen =>
      rw [h.marked.mpr (.inr hdone)] at hopen
      cases hopen
    | holdWriter _ hp | put _ hp | putLast hp | flush hp =>
      rw [← hn] at hs
      exact hkept hs fun _ => by simp [hp]
    | _ => cases hs
  · rw [if_neg hn] at hs
    exact hkept hs fun hseq => absurd hseq.symm hn

private theorem drained_of_course (h : s.Ending) (hc : s.Course next) (hdone : next.reader = .done)
    {n : UInt64} {j : Nat} (hs : next.slot? n = some j) :
    ∃ c, next.calls[j]? = some c ∧ c.seq = n ∧ c.phase = .registered := by
  cases hc with
  | make call state =>
    subst state
    obtain ⟨c, hc, hseq, hp⟩ := h.drained hdone hs
    exact ⟨c, getElem?_append_old hc _, hseq, hp⟩
  | turn call turn calls slots _ _ reader _ =>
    rw [reader] at hdone
    exact h.drained_of_turn hdone call turn calls slots hs
  | hear reading _ _ _ _ reader _ =>
    rw [reader, reading] at hdone
    cases hdone
  | aside calls slots _ _ reader =>
    rw [slots] at hs
    rw [calls]
    exact h.drained (reader.mp hdone) hs
  | drop _ state =>
    subst state
    cases hs

theorem of_moves {e : Event} (h : s.Ending) (hm : s.Moves e next) : next.Ending :=
  ⟨marked_of_moves h.marked hm, h.drained_of_course (course_of_moves hm)⟩

theorem run (es : List Event) : (new.run es).Ending := by
  refine run_preserves (fun _ _ _ h hm => h.of_moves hm) ⟨by simp [new], ?_⟩ es
  intro hdone
  cases hdone

/-- Once the slots are dropped, no slot is left to a call that has found the connection open. -/
theorem slot_ne (h : s.Ending) (hdone : s.reader = .done) (hc : s.calls[i]? = some c)
    (hp : c.phase ≠ .registered) (n : UInt64) : s.slot? n ≠ some i := by
  intro hs
  obtain ⟨d, hd, -, hreg⟩ := h.drained hdone hs
  obtain rfl := Option.some.inj (hc.symm.trans hd)
  exact hp hreg

end Ending

/-! ## Results -/

private theorem mayReturn_fault (h : c.phase.holdsWriter) (fault : Wire.StreamFault) :
    c.MayReturn (.error (.codec (.stream fault))) := by
  rw [ClientCall.MayReturn]
  split <;> simp_all [CallPhase.holdsWriter]

theorem Turn.mayReturn {o : Option Nat} {w : List Wire.Request} {result : Except ClientFault Bytes}
    (ht : s.Turn i c d o w) (hclosed : s.closed = true) (h : d.MayReturn result) : c.MayReturn result := by
  cases ht with
  | register hp =>
    rw [ClientCall.MayReturn, hp]
    exact h
  | refuse hp _ =>
    rw [ClientCall.MayReturn, hp]
    exact h
  | queue _ hopen =>
    rw [hclosed] at hopen
    cases hopen
  | tooLong fault hp =>
    rw [ClientCall.MayReturn, hp]
    exact .inr ⟨fault, h⟩
  | failWrite fault hp =>
    obtain rfl := h
    exact mayReturn_fault hp fault
  | holdWriter _ hp | put _ hp | putLast hp =>
    rw [ClientCall.MayReturn, hp]
    exact h
  | flush hp =>
    rw [ClientCall.MayReturn, hp]
    exact .inl h
  | wake hp hr | giveUp hp hr _ =>
    rw [ClientCall.MayReturn, hp]
    show result = c.settled
    rw [ClientCall.settled, hr]
    exact h
  | abandon _ => exact False.elim h

theorem done_of_course (hc : s.Course next) (hdone : s.reader = .done) : next.reader = .done := by
  cases hc with
  | make call state =>
    subst state
    exact hdone
  | turn _ _ _ _ _ _ reader _ => rw [reader, hdone]
  | hear _ _ _ _ _ reader _ => rw [reader, hdone]
  | aside _ _ _ _ reader => exact reader.mpr hdone
  | drop _ state => rw [state]

theorem numbered_of_course (hc : s.Course next) (hs : s.calls[i]? = none) (hn : next.calls[i]? = some d) :
    d.phase = .numbered := by
  cases hc with
  | make call state =>
    subst state
    rcases getElem?_append_new hn with hold | ⟨-, rfl⟩
    · rw [hs] at hold
      cases hold
    · rfl
  | @turn j c d' _ _ hc _ calls _ _ _ _ _ =>
    rw [calls] at hn
    split at hn
    case isTrue hi =>
      rw [← hi, hs] at hc
      cases hc
    case isFalse =>
      rw [hs] at hn
      cases hn
  | hear _ calls _ _ _ _ _ =>
    rw [calls, hs] at hn
    cases hn
  | aside calls _ _ _ _ =>
    rw [calls, hs] at hn
    cases hn
  | drop _ state =>
    subst state
    cases hs.symm.trans hn

/-- What a call can return when the reader is done bounds what it returns in the end; a call that is made
later only learns that the connection is closed. -/
theorem Ending.results_run (h : s.Ending) (hdone : s.reader = .done) {A : Except ClientFault Bytes → Prop}
    (hcall : ∀ c, s.calls[i]? = some c → ∀ result, c.MayReturn result → A result)
    (hlate : s.calls[i]? = none → A (.error .closed)) (later : List Event)
    {result : Except ClientFault Bytes} (hr : (s.run later).result? i = some result) : A result := by
  let P (t : Client) : Prop := t.Ending ∧ t.reader = .done ∧
    (∀ c, t.calls[i]? = some c → ∀ result, c.MayReturn result → A result) ∧
    (t.calls[i]? = none → A (.error .closed))
  have hrun : P (s.run later) := by
    refine run_preserves ?_ ⟨h, hdone, hcall, hlate⟩ later
    rintro t e next ⟨ht, hdone, hcall, hlate⟩ hm
    have hcourse := course_of_moves hm
    refine ⟨ht.of_moves hm, done_of_course hcourse hdone, fun d hd result hmay => ?_, fun hnone => ?_⟩
    · rcases hc : t.calls[i]? with _ | c
      · have hp := numbered_of_course hcourse hc hd
        rw [ClientCall.MayReturn, hp] at hmay
        rw [hmay]
        exact hlate hc
      · obtain ⟨d', hd', rfl | ⟨o, w, hturn⟩ | ⟨r, hreading, -⟩⟩ := turn_of_course hcourse hc
        · obtain rfl := Option.some.inj (hd.symm.trans hd')
          exact hcall _ hc result hmay
        · obtain rfl := Option.some.inj (hd.symm.trans hd')
          exact hcall c hc result (hturn.mayReturn (ht.marked.mpr (.inr hdone)) hmay)
        · rw [hdone] at hreading
          cases hreading
    · rcases hc : t.calls[i]? with _ | c
      · exact hlate hc
      · obtain ⟨d', hd', -⟩ := turn_of_course hcourse hc
        rw [hnone] at hd'
        cases hd'
  obtain ⟨c, hc, hp⟩ := call_of_result? hr
  exact hrun.2.2.1 c hc result (by rw [ClientCall.MayReturn, hp])

/-- What is left of the calls when the reader is done: none waits for a reply that may still be given, and
each can only return what it has, that the connection is closed, or a fault of its own writing. -/
structure Released (s : Client) : Prop where
  unslotted : ∀ {i : Nat} {c : ClientCall}, s.calls[i]? = some c → c.phase ≠ .registered → s.slot? c.seq ≠ some i
  refused : ∀ {i : Nat} {c : ClientCall}, s.calls[i]? = some c → c.phase = .registered →
    (s.step (.check i)).result? i = some (.error .closed)
  woken : ∀ {i : Nat} {c : ClientCall}, s.calls[i]? = some c → c.phase = .waiting →
    (s.step (.wake i)).result? i = some c.settled
  returns : ∀ {i : Nat} {c : ClientCall}, s.calls[i]? = some c → ∀ later result,
    (s.run later).result? i = some result → c.MayReturn result
  late : ∀ {i : Nat}, s.calls[i]? = none → ∀ later result,
    (s.run later).result? i = some result → result = .error .closed

theorem Ending.released (h : s.Ending) (hdone : s.reader = .done) : s.Released where
  unslotted hc hp := h.slot_ne hdone hc hp _
  refused hc hp := result?_refuse hc hp (h.marked.mpr (.inr hdone))
  woken {i c} hc hp := by
    rw [ClientCall.settled]
    cases hr : c.reply with
    | some r => exact result?_wake hc hp hr
    | none => exact result?_giveUp hc hp hr (h.slot_ne hdone hc (by simp [hp]) _)
  returns {i c} hc later result hr := by
    refine h.results_run hdone (fun d hd result hmay => ?_) (fun hnone => ?_) later hr
    · obtain rfl := Option.some.inj (hc.symm.trans hd)
      exact hmay
    · rw [hc] at hnone
      cases hnone
  late hnone later result hr := by
    refine h.results_run (A := (· = .error .closed)) hdone (fun d hd => ?_) (fun _ => rfl) later hr
    rw [hnone] at hd
    cases hd

/-- A call that finds the connection marked returns that it is closed, and none of its bytes are put on the
stream before or after. -/
theorem refused_run {before after : List Event} (hclosed : (new.run before).closed = true)
    (hp : (new.run before).phase? i = some .registered) :
    (new.run (before ++ .check i :: after)).result? i = some (.error .closed) ∧
      ∀ x ∈ new.outputs (before ++ .check i :: after), x.1 ≠ i := by
  obtain ⟨c, hc, hphase⟩ := Option.map_eq_some_iff.mp hp
  have hend := result?_refuse hc hphase hclosed
  refine ⟨?_, fun x hx => ?_⟩
  · rw [run_append, run_cons]
    exact result?_run hend after
  · have hcheck : (new.run before).outputs (.check i :: after) = ((new.run before).step (.check i)).outputs after := rfl
    rw [outputs_append, hcheck] at hx
    rcases List.mem_append.mp hx with hx | hx
    · obtain ⟨d, hd, -, hreg⟩ := hasBegun_of_output hx
      rintro rfl
      obtain rfl := Option.some.inj (hc.symm.trans hd)
      exact hreg hphase
    · exact not_output_of_result? hend x hx

/-- However the connection ends and however the steps are put in order, no call is stranded. -/
theorem no_call_is_stranded (events : List Event) :
    ((new.run events).reader = .done → (new.run events).Released) ∧
    (new.run events).sent = (new.outputs events).flatMap (·.2) ∧
    ∀ before i after, events = before ++ .check i :: after → (new.run before).closed = true →
      (new.run before).phase? i = some .registered →
        (new.run events).result? i = some (.error .closed) ∧ ∀ x ∈ new.outputs events, x.1 ≠ i := by
  refine ⟨(Ending.run events).released, sent_run new events, ?_⟩
  rintro before i after rfl hclosed hp
  exact refused_run hclosed hp

/-- Of two calls that wrote their requests one has its reply when the peer sends what is no message; a third
registers before the slots are dropped and a fourth after that. -/
private def sampleEnd : List Event :=
  let begin (i : Nat) : List Event := [.make .publicKey, .register i]
  let send (i : Nat) : List Event := [.check i, .holdWriter i, .put i 100, .flush i]
  let reply : Wire.Response := ⟨1, .ok (.publicKey [5])⟩
  let arrivals : List Event := [reply.encode, [123]].map fun p => .arrive ((Wire.Frame.write p).toOption.getD [])
  begin 0 ++ send 0 ++ begin 1 ++ send 1 ++ arrivals ++ [.read, .read, .markClosed] ++ begin 2 ++ [.dropSlots] ++
    begin 3

private def isClosed : Option (Except ClientFault Bytes) → Bool
  | some (.error .closed) => true
  | _ => false

theorem no_call_is_stranded_by_malformed_end :
    (new.run sampleEnd).reader = .done ∧ (new.run sampleEnd).Released ∧
    (let s := (new.run sampleEnd).run [.check 2, .check 3, .wake 0, .wake 1];
      (s.result? 0).bind Except.toOption = some [5] ∧ [1, 2, 3].all fun i => isClosed (s.result? i)) ∧
    ∀ x ∈ new.outputs (sampleEnd ++ [.check 3]), x.1 ≠ 3 := by
  have hdone : (new.run sampleEnd).reader = .done := by decide +kernel
  exact ⟨hdone, (no_call_is_stranded sampleEnd).1 hdone, by decide +kernel, by decide +kernel⟩

end Client

end SshAuthority.Connection

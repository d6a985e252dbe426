import SshAuthority.Proofs.Connection.ClientTurns
import SshAuthority.Proofs.Connection.Slots
/-!
# Replies and their callers

A call that waits is given the first response under its number that is read after its slot was registered,
whatever else the peer sends. Whose request was written and flushed gets that reply even when the connection ends.
-/
namespace SshAuthority.Connection

/-- How a call stands, where `first` is the first response for it: it was given that response as long as it was
not over, and it ended with it or with a fault of its own. -/
def ClientCall.Stands (c : ClientCall) (first : Option Wire.Response) (isFlushed hasEnded : Prop) : Prop :=
  match c.phase with
  | .numbered => c.reply = none ∧ ¬isFlushed
  | .registered | .queued | .writing _ | .flushing => c.reply = first ∧ ¬isFlushed
  | .waiting => c.reply = first ∧ isFlushed
  | .finished result =>
    (∃ r, c.reply = some r ∧ first = some r ∧ result = outcomeOf c.call r) ∨
      (result = .error .closed ∧ (isFlushed → hasEnded ∧ first = none)) ∨
      ((∃ fault, result = .error (.codec fault)) ∧ ¬isFlushed)
  | .abandoned => True

namespace ClientCall.Stands

variable {c : ClientCall} {first : Option Wire.Response} {isFlushed hasEnded : Prop}

theorem mono (h : c.Stands first isFlushed hasEnded) {hasEnded' : Prop} (he : hasEnded → hasEnded') :
    c.Stands first isFlushed hasEnded' := by
  unfold Stands at h ⊢
  split
  case h_7 result hp =>
    simp only [hp] at h
    rcases h with h | ⟨hr, hw⟩ | h
    · exact .inl h
    · exact .inr (.inl ⟨hr, fun hiw => ⟨he (hw hiw).1, (hw hiw).2⟩⟩)
    · exact .inr (.inr h)
  all_goals simp_all

theorem of_holdsWriter (h : c.Stands first isFlushed hasEnded) (hp : c.phase.holdsWriter) : ¬isFlushed := by
  rw [Stands] at h
  split at h <;> simp_all [CallPhase.holdsWriter]

/-- One more response is read, and it is given to the call if it is the first one for it. -/
theorem hear (h : c.Stands first isFlushed hasEnded) (he : ¬hasEnded) {r : Wire.Response}
    {given : Prop} [Decidable given] (hg : given ↔ c.awaits ∧ r.seq = c.seq) :
    (if given then { c with reply := some r } else c : ClientCall).Stands
      (first.or (if r.seq = c.seq then some r else none)) isFlushed hasEnded := by
  by_cases hw : c.awaits
  · by_cases hs : r.seq = c.seq
    · have hreply : c.reply = none := by
        simp only [ClientCall.awaits, Bool.and_eq_true, Option.isNone_iff_eq_none] at hw
        exact hw.1
      have hfirst : first = none := by
        cases hp : c.phase <;> simp [Stands, ClientCall.awaits, hp, hreply] at h hw <;> simp [h]
      subst hfirst
      rw [if_pos (hg.mpr ⟨hw, hs⟩), if_pos hs]
      cases hp : c.phase <;> simp [Stands, ClientCall.awaits, hp] at h hw ⊢
      all_goals simp [h]
    · rw [if_neg fun hgiven => hs (hg.mp hgiven).2, if_neg hs, Option.or_none]
      exact h
  · have hn : ¬given := fun hgiven => hw (hg.mp hgiven).1
    rw [if_neg hn]
    cases first with
    | some q => exact h
    | none =>
      cases hp : c.phase <;> simp_all [Stands, ClientCall.awaits]

end ClientCall.Stands

namespace Client

/-- The first response for a call of those that were read since its slot was registered. -/
def first? (s : Client) (c : ClientCall) : Option Wire.Response :=
  (s.responses.drop c.since).find? fun r => r.seq = c.seq

/-- Slots belong to calls that await a response, and every call stands as the responses so far have it. -/
structure Orderly (s : Client) : Prop where
  owned : ∀ {n : UInt64} {i : Nat}, s.slot? n = some i → ∃ c, s.calls[i]? = some c ∧ c.seq = n ∧ c.awaits
  kept : s.reader ≠ .done → ∀ {i : Nat} {c : ClientCall}, s.calls[i]? = some c → c.awaits →
    s.slot? c.seq = some i
  since_le : ∀ {i : Nat} {c : ClientCall}, s.calls[i]? = some c → c.since ≤ s.responses.length
  stands : ∀ {i : Nat} {c : ClientCall}, s.calls[i]? = some c →
    c.Stands (s.first? c) (c.request ∈ s.flushed) (s.reader = .done)
  flushed : ∀ r ∈ s.flushed, ∃ c ∈ s.calls, c.request = r

theorem Turn.slot {s : Client} {i : Nat} {c d : ClientCall} {o : Option Nat} {w : List Wire.Request}
    (ht : s.Turn i c d o w) (hr : c.phase = .numbered → c.reply = none) :
    (o = some i ∧ d.awaits) ∨ (o = s.slot? c.seq ∧ d.awaits = c.awaits) ∨ (o = none ∧ d.awaits = false) := by
  cases ht with
  | register hp => exact .inl ⟨rfl, by simp [ClientCall.awaits, hr hp]⟩
  | queue hp _ | holdWriter _ hp | put _ hp | putLast hp | flush hp =>
    exact .inr (.inl ⟨rfl, by simp [ClientCall.awaits, hp]⟩)
  | _ => exact .inr (.inr ⟨rfl, by simp [ClientCall.awaits]⟩)

namespace Orderly

variable {s next : Client}

theorem start : new.Orderly := by
  refine ⟨?_, ?_, ?_, ?_, ?_⟩ <;> simp [new, slot?]

private theorem turn_stands (h : s.Orderly) {i : Nat} {c d : ClientCall} {o : Option Nat}
    {w : List Wire.Request} (hc : s.calls[i]? = some c) (ht : s.Turn i c d o w) :
    d.Stands (s.first? d) (d.request ∈ s.flushed ++ w) (s.reader = .done) := by
  have hstands := h.stands hc
  cases ht with
  | register hp =>
    rw [ClientCall.Stands, hp] at hstands
    have hfirst : s.first? { c with phase := .registered, since := s.responses.length } = none := by
      simp [first?]
    rw [hfirst, List.append_nil]
    exact hstands
  | refuse hp _ =>
    rw [ClientCall.Stands, hp] at hstands
    rw [List.append_nil]
    exact .inr (.inl ⟨rfl, fun hw => absurd hw hstands.2⟩)
  | queue hp _ | holdWriter _ hp | put _ hp | putLast hp =>
    rw [ClientCall.Stands, hp] at hstands
    rw [List.append_nil]
    exact hstands
  | tooLong fault hp =>
    rw [ClientCall.Stands, hp] at hstands
    rw [List.append_nil]
    exact .inr (.inr ⟨⟨_, rfl⟩, hstands.2⟩)
  | failWrite fault hp =>
    rw [List.append_nil]
    exact .inr (.inr ⟨⟨_, rfl⟩, hstands.of_holdsWriter hp⟩)
  | flush hp =>
    rw [ClientCall.Stands, hp] at hstands
    exact ⟨hstands.1, List.mem_append_right _ (List.mem_singleton.mpr rfl)⟩
  | @wake r hp hr =>
    rw [ClientCall.Stands, hp] at hstands
    have hfirst : s.first? c = some r := hstands.1.symm.trans hr
    exact .inl ⟨r, hr, hfirst, rfl⟩
  | giveUp hp hr hgone =>
    rw [ClientCall.Stands, hp] at hstands
    have hw : c.awaits := by simp [ClientCall.awaits, hp, hr]
    have hdone : s.reader = .done := by
      rcases Decidable.em (s.reader = .done) with hdone | hn
      · exact hdone
      · exact absurd (h.kept hn hc hw) hgone
    have hfirst : s.first? c = none := hstands.1.symm.trans hr
    exact .inr (.inl ⟨rfl, fun _ => ⟨hdone, hfirst⟩⟩)
  | abandon _ => trivial

private theorem make (h : s.Orderly) (call : Wire.Call) (hd : (s.make call).Distinct) :
    (s.make call).Orderly := by
  have hold : ∀ {j : Nat} {e : ClientCall}, s.calls[j]? = some e → (s.make call).calls[j]? = some e :=
    fun he => getElem?_append_old he _
  have hnew : (s.make call).calls[s.calls.length]? = some ⟨s.nextSeq, call, .numbered, none, 0⟩ := by
    simp [Client.make]
  have hcases : ∀ {j : Nat} {e : ClientCall}, (s.make call).calls[j]? = some e →
      s.calls[j]? = some e ∨ (j = s.calls.length ∧ e = ⟨s.nextSeq, call, .numbered, none, 0⟩) :=
    getElem?_append_new
  refine ⟨fun hs => ?_, fun hr j e he hw => ?_, fun he => ?_, fun he => ?_, fun r hr => ?_⟩
  · obtain ⟨c, hc, hseq, hw⟩ := h.owned hs
    exact ⟨c, hold hc, hseq, hw⟩
  · rcases hcases he with he | ⟨-, rfl⟩
    · exact h.kept hr he hw
    · cases hw
  · rcases hcases he with he | ⟨-, rfl⟩
    · exact h.since_le he
    · exact Nat.zero_le _
  · rcases hcases he with he | ⟨-, rfl⟩
    · exact h.stands he
    · refine ⟨rfl, fun hw => ?_⟩
      obtain ⟨c, hc, hreq⟩ := h.flushed _ hw
      obtain ⟨j, hj⟩ := List.getElem?_of_mem hc
      have hlt := (List.getElem?_eq_some_iff.mp hj).1
      have hjl := hd (hold hj) hnew (congrArg Wire.Request.seq hreq)
      omega
  · obtain ⟨c, hc, hreq⟩ := h.flushed r hr
    exact ⟨c, List.mem_append_left _ hc, hreq⟩

section Turning

variable {i : Nat} {c d : ClientCall} {o : Option Nat} {w : List Wire.Request}

private theorem slot_of_turn (h : s.Orderly) (hc : s.calls[i]? = some c) (ht : s.Turn i c d o w) :
    (o = some i ∧ d.awaits) ∨ (o = s.slot? c.seq ∧ d.awaits = c.awaits) ∨ (o = none ∧ d.awaits = false) := by
  refine ht.slot fun hp => ?_
  have hstands := h.stands hc
  rw [ClientCall.Stands, hp] at hstands
  exact hstands.1

private theorem since_of_turn (h : s.Orderly) (hc : s.calls[i]? = some c) (ht : s.Turn i c d o w) :
    d.since ≤ s.responses.length := by
  have hle : c.since ≤ s.responses.length := h.since_le hc
  cases ht with
  | register => exact Nat.le_refl _
  | _ => exact hle

variable (h : s.Orderly) (hd : s.Distinct) (hc : s.calls[i]? = some c) (ht : s.Turn i c d o w)
  (hcalls : ∀ j : Nat, next.calls[j]? = if j = i then some d else s.calls[j]?)
  (hslots : ∀ n, next.slot? n = if n = c.seq then o else s.slot? n)
include h hd hc ht hcalls

include hslots in
private theorem owned_of_turn {n : UInt64} {j : Nat} (hs : next.slot? n = some j) :
    ∃ e, next.calls[j]? = some e ∧ e.seq = n ∧ e.awaits := by
  have hself : next.calls[i]? = some d := (hcalls i).trans (if_pos rfl)
  have hdseq : d.seq = c.seq := congrArg Wire.Request.seq ht.request
  rw [hslots] at hs
  by_cases hn : n = c.seq
  · subst hn
    rw [if_pos rfl] at hs
    rcases h.slot_of_turn hc ht with ⟨ho, hw⟩ | ⟨ho, hw⟩ | ⟨ho, -⟩
    · obtain rfl := Option.some.inj (ho.symm.trans hs)
      exact ⟨d, hself, hdseq, hw⟩
    · obtain ⟨e, he, hseq, hwe⟩ := h.owned (ho.symm.trans hs)
      obtain rfl := hd he hc hseq
      obtain rfl := Option.some.inj (hc.symm.trans he)
      exact ⟨d, hself, hdseq, hw.trans hwe⟩
    · rw [ho] at hs
      cases hs
  · rw [if_neg hn] at hs
    obtain ⟨e, he, hseq, hwe⟩ := h.owned hs
    have hj : j ≠ i := by
      rintro rfl
      obtain rfl := Option.some.inj (hc.symm.trans he)
      exact hn hseq.symm
    exact ⟨e, by rw [hcalls, if_neg hj, he], hseq, hwe⟩

include hslots in
private theorem kept_of_turn (hr : s.reader ≠ .done) {j : Nat} {e : ClientCall} (he : next.calls[j]? = some e)
    (hw : e.awaits) : next.slot? e.seq = some j := by
  have hdseq : d.seq = c.seq := congrArg Wire.Request.seq ht.request
  rcases getElem?_changed hcalls he with ⟨rfl, rfl⟩ | ⟨hj, he⟩
  · rw [hslots, if_pos hdseq]
    rcases h.slot_of_turn hc ht with ⟨ho, -⟩ | ⟨ho, hwd⟩ | ⟨-, hwd⟩
    · exact ho
    · rw [ho]
      exact h.kept hr hc (hwd ▸ hw)
    · rw [hwd] at hw
      cases hw
  · have hn : e.seq ≠ c.seq := fun hseq => hj (hd he hc hseq)
    rw [hslots, if_neg hn]
    exact h.kept hr he hw

private theorem stands_of_turn (hflushed : next.flushed = s.flushed ++ w) {j : Nat} {e : ClientCall}
    (he : next.calls[j]? = some e) : e.Stands (s.first? e) (e.request ∈ next.flushed) (s.reader = .done) := by
  rw [hflushed]
  rcases getElem?_changed hcalls he with ⟨-, rfl⟩ | ⟨hj, he⟩
  · exact h.turn_stands hc ht
  · have hne : e.request ≠ c.request := fun hreq => hj (hd he hc (congrArg Wire.Request.seq hreq))
    have hmem : (e.request ∈ s.flushed ++ w) = (e.request ∈ s.flushed) := by
      rw [List.mem_append, eq_iff_iff]
      exact or_iff_left fun hw => hne (ht.flushed _ hw)
    rw [hmem]
    exact h.stands he

omit hd in
private theorem flushed_of_turn (hflushed : next.flushed = s.flushed ++ w) :
    ∀ r ∈ next.flushed, ∃ e ∈ next.calls, e.request = r := by
  have hself : next.calls[i]? = some d := (hcalls i).trans (if_pos rfl)
  have hmem : ∀ {j : Nat} {e : ClientCall}, s.calls[j]? = some e → ∃ e' ∈ next.calls, e'.request = e.request := by
    intro j e he
    by_cases hj : j = i
    · subst hj
      obtain rfl := Option.some.inj (hc.symm.trans he)
      exact ⟨d, List.mem_of_getElem? hself, ht.request⟩
    · exact ⟨e, List.mem_of_getElem? ((hcalls j).trans (by rw [if_neg hj, he])), rfl⟩
  intro r hr
  rw [hflushed] at hr
  rcases List.mem_append.mp hr with hr | hr
  · obtain ⟨e, he, rfl⟩ := h.flushed r hr
    obtain ⟨j, hj⟩ := List.getElem?_of_mem he
    exact hmem hj
  · rw [ht.flushed r hr]
    exact hmem hc

include hslots in
private theorem turn (hflushed : next.flushed = s.flushed ++ w) (hresponses : next.responses = s.responses)
    (hreader : next.reader = s.reader) : next.Orderly := by
  have hfirst : ∀ e, next.first? e = s.first? e := fun e => by rw [first?, first?, hresponses]
  refine ⟨h.owned_of_turn hd hc ht hcalls hslots, fun hr j e he => ?_, fun he => ?_, fun he => ?_,
    h.flushed_of_turn hc ht hcalls hflushed⟩
  · rw [hreader] at hr
    exact h.kept_of_turn hd hc ht hcalls hslots hr he
  · rw [hresponses]
    rcases getElem?_changed hcalls he with ⟨-, rfl⟩ | ⟨-, he⟩
    · exact h.since_of_turn hc ht
    · exact h.since_le he
  · rw [hfirst, hreader]
    exact h.stands_of_turn hd hc ht hcalls hflushed he

end Turning

/-- As long as slots are not dropped, whoever awaits the response of a number has the slot of it. -/
theorem slot_iff (h : s.Orderly) (hopen : s.reader ≠ .done) {j : Nat} {c : ClientCall} (hc : s.calls[j]? = some c)
    (n : UInt64) : s.slot? n = some j ↔ c.awaits ∧ n = c.seq := by
  constructor
  · intro hs
    obtain ⟨e, he, hseq, hw⟩ := h.owned hs
    obtain rfl := Option.some.inj (hc.symm.trans he)
    exact ⟨hw, hseq.symm⟩
  · rintro ⟨hw, hseq⟩
    rw [hseq]
    exact h.kept hopen hc hw

private theorem first?_congr {c d : ClientCall} (hreq : d.request = c.request) (hsince : d.since = c.since) :
    s.first? d = s.first? c := by
  have hseq : d.seq = c.seq := congrArg Wire.Request.seq hreq
  rw [first?, first?, hseq, hsince]

private theorem first?_hear {c : ClientCall} {r : Wire.Response} (hc : c.since ≤ s.responses.length)
    (hr : next.responses = s.responses ++ [r]) :
    next.first? c = (s.first? c).or (if r.seq = c.seq then some r else none) := by
  rw [first?, first?, hr, List.drop_append_of_le_length hc, List.find?_append]
  congr 1
  by_cases hs : r.seq = c.seq <;> simp [hs]

private theorem given_rest (c : ClientCall) (r : Wire.Response) (given : Prop) [Decidable given] :
    (if given then { c with reply := some r } else c : ClientCall).request = c.request ∧
      (if given then { c with reply := some r } else c : ClientCall).since = c.since := by
  split <;> exact ⟨rfl, rfl⟩

private theorem hear (h : s.Orderly) {r : Wire.Response} (hreading : s.reader = .reading)
    (hcalls : ∀ j : Nat, next.calls[j]? = (s.calls[j]?).map fun c =>
      if s.slot? r.seq = some j then { c with reply := some r } else c)
    (hslots : ∀ n, next.slot? n = if n = r.seq then none else s.slot? n)
    (hflushed : next.flushed = s.flushed) (hresponses : next.responses = s.responses ++ [r])
    (hreader : next.reader = s.reader) : next.Orderly := by
  have hopen : s.reader ≠ .done := by rw [hreading]; simp
  have hcases : ∀ {j : Nat} {e : ClientCall}, next.calls[j]? = some e → ∃ c, s.calls[j]? = some c ∧
      e = if s.slot? r.seq = some j then { c with reply := some r } else c := by
    intro j e he
    rw [hcalls] at he
    obtain ⟨c, hc, rfl⟩ := Option.map_eq_some_iff.mp he
    exact ⟨c, hc, rfl⟩
  refine ⟨fun {n j} hs => ?_, fun _ j e he hw => ?_, fun {j e} he => ?_, fun {j e} he => ?_, fun q hq => ?_⟩
  · rw [hslots] at hs
    split at hs
    case isTrue => cases hs
    case isFalse hn =>
      obtain ⟨c, hc, hseq, hw⟩ := h.owned hs
      have hnot : ¬s.slot? r.seq = some j :=
        fun hj => hn (hseq.symm.trans ((h.slot_iff hopen hc r.seq).mp hj).2.symm)
      refine ⟨c, ?_, hseq, hw⟩
      rw [hcalls, hc, Option.map_some, if_neg hnot]
  · obtain ⟨c, hc, rfl⟩ := hcases he
    by_cases hj : s.slot? r.seq = some j
    · rw [if_pos hj] at hw
      cases hw
    · rw [if_neg hj] at hw ⊢
      have hn : c.seq ≠ r.seq := fun hseq => hj ((h.slot_iff hopen hc r.seq).mpr ⟨hw, hseq.symm⟩)
      rw [hslots, if_neg hn]
      exact h.kept hopen hc hw
  · obtain ⟨c, hc, rfl⟩ := hcases he
    rw [(given_rest c r _).2, hresponses, List.length_append]
    exact Nat.le_add_right_of_le (h.since_le hc)
  · obtain ⟨c, hc, rfl⟩ := hcases he
    obtain ⟨hreq, hsince⟩ := given_rest c r (s.slot? r.seq = some j)
    rw [first?_congr hreq hsince, hreq, hflushed, hreader, first?_hear (h.since_le hc) hresponses]
    exact (h.stands hc).hear hopen (h.slot_iff hopen hc r.seq)
  · rw [hflushed] at hq
    obtain ⟨c, hc, rfl⟩ := h.flushed q hq
    obtain ⟨j, hj⟩ := List.getElem?_of_mem hc
    have hnext := hcalls j
    rw [hj, Option.map_some] at hnext
    exact ⟨_, List.mem_of_getElem? hnext, (given_rest c r _).1⟩

theorem of_course (h : s.Orderly) (hd : next.Distinct) (hd' : s.Distinct) (hc : s.Course next) :
    next.Orderly := by
  cases hc with
  | make call state =>
    subst state
    exact h.make call hd
  | turn call turn calls slots flushed responses reader _ =>
    exact Orderly.turn h hd' call turn calls slots flushed responses reader
  | hear reading calls slots flushed responses reader _ =>
    exact Orderly.hear h reading calls slots flushed responses reader
  | aside calls slots flushed responses reader =>
    have hfirst : ∀ c, next.first? c = s.first? c := fun c => by rw [first?, first?, responses]
    refine ⟨fun hs => ?_, fun hr i c hc hw => ?_, fun hc => ?_, fun hc => ?_, fun r hr => ?_⟩
    · rw [slots] at hs
      rw [calls]
      exact h.owned hs
    · rw [calls] at hc
      rw [slots]
      exact h.kept (fun hdone => hr (reader.mpr hdone)) hc hw
    · rw [calls] at hc
      rw [responses]
      exact h.since_le hc
    · rw [calls] at hc
      rw [hfirst, flushed]
      exact (h.stands hc).mono reader.mpr
    · rw [flushed] at hr
      rw [calls]
      exact h.flushed r hr
  | drop marked state =>
    subst state
    refine ⟨fun hs => ?_, fun hr => absurd rfl hr, h.since_le, fun hc => ?_, h.flushed⟩
    · cases hs
    · exact (h.stands hc).mono fun hdone => rfl

theorem run {es : List Event} (h : (es.filterMap Event.made?).length < 2 ^ 64) : (new.run es).Orderly := by
  have hp : (new.run es).Distinct → (new.run es).Orderly := by
    refine run_preserves (P := fun s => s.Distinct → s.Orderly) ?_ (fun _ => start) es
    intro s e next hs hm hd
    exact (hs (hd.of_moves hm)).of_course hd (hd.of_moves hm) (course_of_moves hm)
  exact hp (distinct_run h)

end Orderly

end Client

end SshAuthority.Connection

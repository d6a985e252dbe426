import SshAuthority.Proofs.Connection.Record
import SshAuthority.Proofs.Connection.Unsent
/-!
# A call that leaves no trace

A run in which a call takes steps is compared with the run in which it takes none. When its request is too long for a
frame, the two differ in that call and in what has its number.
-/
namespace SshAuthority.Connection

/-- Whether a call that is so far writes nothing any more. -/
def CallPhase.isSilent : CallPhase → Bool
  | .waiting | .finished _ | .abandoned => true
  | .numbered | .registered | .queued | .writing _ | .flushing => false

namespace Client

/-- The same call in two runs. Where it has the number `n`, only its request and what it writes have to agree. -/
structure Akin (n : UInt64) (c d : ClientCall) : Prop where
  request : c.request = d.request
  same : c.seq ≠ n → c = d
  phase : c.phase = d.phase ∨ (c.phase.isSilent = true ∧ d.phase.isSilent = true)

/-- One state is the other but for the call `i` and for what has the number `n`. -/
structure Like (i : Nat) (n : UInt64) (s t : Client) : Prop where
  calls : ∀ {j : Nat} {c : ClientCall}, j ≠ i → s.calls[j]? = some c → ∃ d, t.calls[j]? = some d ∧ Akin n c d
  size : s.calls.length = t.calls.length
  slots : (s.withoutSlot n).pending = (t.withoutSlot n).pending
  rest : ({ s with calls := [], pending := [] } : Client) = { t with calls := [], pending := [] }

variable {s t next : Client} {i j : Nat} {n m : UInt64} {c d : ClientCall} {e : Event}

namespace Akin

theorem refl (c : ClientCall) : Akin n c c := ⟨rfl, fun _ => rfl, .inl rfl⟩

theorem symm (h : Akin n c d) : Akin n d c := by
  have hseq : c.seq = d.seq := congrArg Wire.Request.seq h.request
  constructor
  · exact h.request.symm
  · intro hn
    rw [← hseq] at hn
    exact (h.same hn).symm
  · cases h.phase with
    | inl hp => exact .inl hp.symm
    | inr hp => exact .inr ⟨hp.2, hp.1⟩

theorem seq (h : Akin n c d) : c.seq = d.seq := congrArg Wire.Request.seq h.request

theorem enter (h : Akin n c d) (p : CallPhase) : Akin n { c with phase := p } { d with phase := p } := by
  constructor
  · exact h.request
  · intro hn
    rw [h.same hn]
  · exact .inl rfl

end Akin

namespace Like

theorem refl (s : Client) : Like i n s s := ⟨fun _ hc => ⟨_, hc, .refl _⟩, rfl, rfl, rfl⟩

theorem symm (h : Like i n s t) : Like i n t s := by
  constructor
  · intro j d hj hd
    have hlt : j < s.calls.length := by
      rw [h.size]
      exact (List.getElem?_eq_some_iff.mp hd).1
    obtain ⟨d', hd', hakin⟩ := h.calls hj (List.getElem?_eq_getElem hlt)
    obtain rfl := Option.some.inj (hd'.symm.trans hd)
    exact ⟨_, List.getElem?_eq_getElem hlt, hakin.symm⟩
  · exact h.size.symm
  · exact h.slots.symm
  · exact h.rest.symm

theorem slot? (h : Like i n s t) (hm : m ≠ n) : s.slot? m = t.slot? m := by
  have hs := slot?_withoutSlot s n m
  have ht := slot?_withoutSlot t n m
  rw [if_neg hm] at hs ht
  rw [← hs, ← ht, Client.slot?, Client.slot?, h.slots]

private theorem modify {s' t' : Client} (h : Like i n s t) {f g : ClientCall → ClientCall}
    (hs : s'.calls = s.calls.modify j f) (ht : t'.calls = t.calls.modify j g)
    (hfg : j ≠ i → ∀ c d, s.calls[j]? = some c → t.calls[j]? = some d → Akin n c d → Akin n (f c) (g d))
    (hslots : (s'.withoutSlot n).pending = (t'.withoutSlot n).pending)
    (hrest : ({ s' with calls := [], pending := [] } : Client) = { t' with calls := [], pending := [] }) :
    Like i n s' t' := by
  refine ⟨?_, ?_, hslots, hrest⟩
  · intro k c' hk hc'
    rw [hs, List.getElem?_modify] at hc'
    obtain ⟨c, hc, hfc⟩ := Option.map_eq_some_iff.mp hc'
    obtain ⟨d, hd, hakin⟩ := h.calls hk hc
    rw [ht, List.getElem?_modify, hd]
    refine ⟨_, rfl, ?_⟩
    rw [← hfc]
    dsimp only
    by_cases hj : j = k
    · subst hj
      rw [if_pos rfl, if_pos rfl]
      exact hfg hk c d hc hd hakin
    · rw [if_neg hj, if_neg hj]
      exact hakin
  · rw [hs, ht, List.length_modify, List.length_modify, h.size]

private theorem enter (h : Like i n s t) (j : Nat) (p : CallPhase) : Like i n (s.enter j p) (t.enter j p) :=
  h.modify rfl rfl (fun _ _ _ _ _ hakin => hakin.enter p) h.slots h.rest

private theorem withoutSlot (h : Like i n s t) (m : UInt64) : Like i n (s.withoutSlot m) (t.withoutSlot m) := by
  have comm : ∀ u : Client, ((u.withoutSlot m).withoutSlot n).pending = ((u.withoutSlot n).withoutSlot m).pending := by
    intro u
    simp only [Client.withoutSlot, List.filter_filter, Bool.and_comm]
  refine ⟨h.calls, h.size, ?_, h.rest⟩
  rw [comm, comm]
  exact congrArg (List.filter fun slot => slot.1 != m) h.slots

private theorem finish (h : Like i n s t) (hakin : Akin n c d) (result : Except ClientFault Bytes) :
    Like i n (s.finish j c result) (t.finish j d result) := by
  rw [Client.finish, Client.finish, hakin.seq]
  exact (h.withoutSlot d.seq).enter j (.finished result)

private theorem register (h : Like i n s t) (hakin : Akin n c d) : Like i n (s.register j c) (t.register j d) := by
  have hsize : s.responses.length = t.responses.length := congrArg (·.responses.length) h.rest
  have hslots := (h.withoutSlot c.seq).slots
  refine h.modify rfl rfl ?_ ?_ h.rest
  · intro _ a b _ _ hab
    refine ⟨hab.request, ?_, .inl rfl⟩
    intro hn
    rw [hab.same hn]
    exact congrArg (fun since => { b with phase := CallPhase.registered, since }) hsize
  · simp only [Client.register, Client.withoutSlot, List.filter_append] at hslots ⊢
    rw [hslots, hakin.seq]

private theorem releaseWriter (h : Like i n s t) (j : Nat) : Like i n (s.releaseWriter j) (t.releaseWriter j) := by
  have hw : s.writer = t.writer := congrArg (·.writer) h.rest
  rw [Client.releaseWriter, Client.releaseWriter, hw]
  split
  · exact ⟨h.calls, h.size, h.slots, congrArg (fun u : Client => { u with writer := none }) h.rest⟩
  · exact h

private theorem make (h : Like i n s t) (call : Wire.Call) : Like i n (s.make call) (t.make call) := by
  have hseq : s.nextSeq = t.nextSeq := congrArg (·.nextSeq) h.rest
  refine ⟨?_, ?_, h.slots, ?_⟩
  · intro j c hj hc
    rcases getElem?_append_new hc with hc | ⟨rfl, rfl⟩
    · obtain ⟨d, hd, hakin⟩ := h.calls hj hc
      exact ⟨d, getElem?_append_old hd _, hakin⟩
    · rw [h.size, hseq]
      exact ⟨_, List.getElem?_concat_length, .refl _⟩
  · rw [Client.make, Client.make, List.length_append, List.length_append, h.size]
    rfl
  · exact congrArg (fun u : Client => { u with nextSeq := u.nextSeq + 1 }) h.rest

private theorem rest_deliver (s : Client) (r : Wire.Response) :
    ({ s.deliver r with calls := [], pending := [] } : Client) =
      { s with responses := s.responses ++ [r], calls := [], pending := [] } ∧
    (s.deliver r).calls.length = s.calls.length := by
  simp only [Client.deliver]
  split
  · exact ⟨rfl, rfl⟩
  · exact ⟨rfl, List.length_modify ..⟩

private theorem deliver (h : Like i n s t) (hs : s.Kept) (ht : t.Kept) (r : Wire.Response) :
    Like i n (s.deliver r) (t.deliver r) := by
  have slot_seq : ∀ {u : Client} {j : Nat} {c : ClientCall}, u.Kept → u.calls[j]? = some c → u.slot? n = some j →
      c.seq = n := by
    intro u j c hu hc hslot
    obtain ⟨before, after, hp, -⟩ := List.lookup_eq_some_iff.mp hslot
    obtain ⟨d, hd, hseq⟩ := hu.owner (n := n) (j := j) (by simp [hp])
    rwa [← Option.some.inj (hd.symm.trans hc)]
  obtain ⟨hrest, hsize⟩ := rest_deliver s r
  obtain ⟨hrest', hsize'⟩ := rest_deliver t r
  constructor
  · intro j c' hj hc'
    rw [getElem?_deliver] at hc'
    obtain ⟨c, hc, hreply⟩ := Option.map_eq_some_iff.mp hc'
    obtain ⟨d, hd, hakin⟩ := h.calls hj hc
    rw [getElem?_deliver, hd, ← hreply]
    refine ⟨_, rfl, ?_⟩
    by_cases hn : c.seq = n
    · constructor
      · split <;> split <;> exact hakin.request
      · intro hne
        exfalso
        apply hne
        split <;> exact hn
      · split <;> split <;> exact hakin.phase
    · have hslot : s.slot? r.seq = some j ↔ t.slot? r.seq = some j := by
        by_cases hr : r.seq = n
        · rw [hr]
          constructor
          · intro hsj
            exact absurd (slot_seq hs hc hsj) hn
          · intro htj
            exact absurd (hakin.seq.trans (slot_seq ht hd htj)) hn
        · rw [h.slot? hr]
      rw [← hakin.same hn]
      simp only [hslot]
      exact .refl _
  · rw [hsize, hsize', h.size]
  · have hslots := (h.withoutSlot r.seq).slots
    rw [Client.withoutSlot, Client.withoutSlot, pending_deliver, pending_deliver]
    exact hslots
  · rw [hrest, hrest']
    exact congrArg (fun u : Client => { u with responses := u.responses ++ [r] }) h.rest

/-! ## Steps of other calls -/

private theorem act_silent (hs : s.Kept) (hc : s.calls[j]? = some c) (hsilent : c.phase.isSilent = true) (e : Event) :
    s.act j c e = none ∨ ∃ p, p.isSilent = true ∧ s.act j c e = some ((s.withoutSlot c.seq).enter j p) := by
  have unheld : s.releaseWriter j = s := by
    rw [Client.releaseWriter, if_neg]
    intro hw
    obtain ⟨a, ha, hp⟩ := hs.holder hw
    rw [← Option.some.inj (hc.symm.trans ha)] at hp
    cases hphase : c.phase <;> simp [hphase, CallPhase.isSilent, CallPhase.holdsWriter] at hsilent hp
  cases e with
  | wake k =>
    simp only [act]
    cases c.phase with
    | waiting =>
      cases c.reply with
      | some r => exact .inr ⟨.finished (outcomeOf c.call r), rfl, rfl⟩
      | none =>
        dsimp only
        split
        · exact .inl rfl
        · exact .inr ⟨.finished (.error .closed), rfl, rfl⟩
    | _ => exact .inl rfl
  | abandon k =>
    simp only [act, unheld]
    cases c.phase with
    | queued | writing rest | flushing | waiting => exact .inr ⟨.abandoned, rfl, rfl⟩
    | _ => exact .inl rfl
  | register k | check k | holdWriter k | put k count | flush k | failWrite k fault =>
    left
    simp only [act]
    cases hp : c.phase <;> simp [hp, CallPhase.isSilent, CallPhase.holdsWriter] at hsilent ⊢
  | _ => exact .inl rfl

private theorem act_same (h : Like i n s t) (hakin : Akin n c d) (hp : c.phase = d.phase)
    (hsilent : c.phase.isSilent = true → c.seq ≠ n) (j : Nat) (e : Event) :
    Option.Rel (Like i n) (s.act j c e) (t.act j d e) := by
  have hclosed : s.closed = t.closed := congrArg (·.closed) h.rest
  have hwriter : s.writer = t.writer := congrArg (·.writer) h.rest
  cases e with
  | register k =>
    simp only [act, ← hp]
    cases c.phase with
    | numbered => exact .some (h.register hakin)
    | _ => exact .none
  | check k =>
    simp only [act, ← hp, hclosed]
    cases c.phase with
    | registered =>
      cases t.closed with
      | true => exact .some (h.finish hakin _)
      | false => exact .some (h.enter j _)
    | _ => exact .none
  | holdWriter k =>
    simp only [act, ← hp, hwriter, ← hakin.request]
    cases c.phase with
    | queued =>
      cases t.writer with
      | some _ => exact .none
      | none =>
        cases Wire.Frame.write c.request.encode with
        | error fault => exact .some (h.finish hakin _)
        | ok frame =>
          have held : Like i n { s with writer := some j } { t with writer := some j } :=
            ⟨h.calls, h.size, h.slots, congrArg (fun u : Client => { u with writer := some j }) h.rest⟩
          exact .some (held.enter j _)
    | _ => exact .none
  | put k count =>
    simp only [act, ← hp, ← hakin.request]
    cases c.phase with
    | writing rest =>
      dsimp only
      cases rest.drop count with
      | nil =>
        have ended : Like i n
            { s with sent := s.sent ++ rest.take count, written := s.written ++ [c.request] }
            { t with sent := t.sent ++ rest.take count, written := t.written ++ [c.request] } :=
          ⟨h.calls, h.size, h.slots, congrArg (fun u : Client =>
            { u with sent := u.sent ++ rest.take count, written := u.written ++ [c.request] }) h.rest⟩
        exact .some (ended.enter j _)
      | cons b left =>
        have put : Like i n { s with sent := s.sent ++ rest.take count } { t with sent := t.sent ++ rest.take count } :=
          ⟨h.calls, h.size, h.slots, congrArg (fun u : Client => { u with sent := u.sent ++ rest.take count }) h.rest⟩
        exact .some (put.enter j _)
    | _ => exact .none
  | flush k =>
    simp only [act, ← hp, ← hakin.request]
    cases c.phase with
    | flushing =>
      have free : Like i n { s with writer := none, flushed := s.flushed ++ [c.request] }
          { t with writer := none, flushed := t.flushed ++ [c.request] } :=
        ⟨h.calls, h.size, h.slots, congrArg (fun u : Client =>
          { u with writer := none, flushed := u.flushed ++ [c.request] }) h.rest⟩
      exact .some (free.enter j _)
    | _ => exact .none
  | failWrite k fault =>
    simp only [act, ← hp]
    split
    · exact .some ((h.releaseWriter j).finish hakin _)
    · exact .none
  | wake k =>
    simp only [act, ← hp]
    cases hphase : c.phase with
    | waiting =>
      have hn : c.seq ≠ n := hsilent (by rw [hphase]; rfl)
      obtain rfl := hakin.same hn
      cases c.reply with
      | some r => exact .some (h.finish hakin _)
      | none =>
        dsimp only
        rw [h.slot? hn]
        split
        · exact .none
        · exact .some (h.finish hakin _)
    | _ => exact .none
  | abandon k =>
    simp only [act, ← hp, hakin.seq]
    cases c.phase with
    | queued | writing rest | flushing | waiting => exact .some (((h.releaseWriter j).withoutSlot d.seq).enter j _)
    | _ => exact .none
  | _ => exact .none

private theorem left {s' : Client} (h : Like i n s t) {f : ClientCall → ClientCall}
    (hs : s'.calls = s.calls.modify j f)
    (hf : j ≠ i → ∀ c d, s.calls[j]? = some c → t.calls[j]? = some d → Akin n c d → Akin n (f c) d)
    (hslots : (s'.withoutSlot n).pending = (s.withoutSlot n).pending)
    (hrest : ({ s' with calls := [], pending := [] } : Client) = { s with calls := [], pending := [] }) :
    Like i n s' t :=
  h.modify (g := id) hs (List.modify_id ..).symm hf (hslots.trans h.slots) (hrest.trans h.rest)

private theorem slots_end (s : Client) (n : UInt64) :
    ((s.withoutSlot n).withoutSlot n).pending = (s.withoutSlot n).pending := by
  simp [Client.withoutSlot]

private theorem step_silent (h : Like i n s t) (hs : s.Kept) (he : e.call? = some j) (hc : s.calls[j]? = some c)
    (hsilent : c.phase.isSilent = true) (hn : c.seq = n) (hd : t.calls[j]? = some d)
    (hsilent' : d.phase.isSilent = true) :
    Like i n (s.step e) t ∧ ∃ c', (s.step e).calls[j]? = some c' ∧ c'.seq = n ∧ c'.phase.isSilent = true := by
  have hstep : s.step e = (s.act j c e).getD s := by
    rw [step, step?_of_call he, hc, Option.bind_some]
  rw [hstep]
  rcases act_silent hs hc hsilent e with hact | ⟨p, hp, hact⟩
  · rw [hact]
    exact ⟨h, c, hc, hn, hsilent⟩
  · rw [hact, Option.getD_some, hn]
    constructor
    · refine h.left rfl ?_ (slots_end s n) rfl
      intro _ a b ha hb hab
      obtain rfl := Option.some.inj (ha.symm.trans hc)
      obtain rfl := Option.some.inj (hb.symm.trans hd)
      exact ⟨hab.request, fun hne => absurd hn hne, .inr ⟨hp, hsilent'⟩⟩
    · exact ⟨_, (getElem?_modified hc (fun c => { c with phase := p }) j).trans (if_pos rfl), hn, hp⟩

private theorem step_call (h : Like i n s t) (hs : s.Kept) (ht : t.Kept) (he : e.call? = some j) (hj : j ≠ i) :
    Like i n (s.step e) (t.step e) := by
  cases hc : s.calls[j]? with
  | none =>
    have hd : t.calls[j]? = none := by
      rw [List.getElem?_eq_none_iff, ← h.size]
      exact List.getElem?_eq_none_iff.mp hc
    rw [step, step, step?_of_call he, step?_of_call he, hc, hd]
    exact h
  | some c =>
    obtain ⟨d, hd, hakin⟩ := h.calls hj hc
    by_cases hend : c.phase.isSilent = true ∧ c.seq = n
    · have hsilent' : d.phase.isSilent = true := by
        cases hakin.phase with
        | inl hp => rw [← hp, hend.1]
        | inr hp => exact hp.2
      obtain ⟨hleft, c', hc', -, hsilent⟩ := h.step_silent hs he hc hend.1 hend.2 hd hsilent'
      have hseq := hakin.seq.symm.trans hend.2
      exact (hleft.symm.step_silent ht he hd hsilent' hseq hc' hsilent).1.symm
    · have hp : c.phase = d.phase := by
        cases hakin.phase with
        | inl hp => exact hp
        | inr hp => rw [hakin.same fun hn => hend ⟨hp.1, hn⟩]
      have hact := h.act_same hakin hp (fun hsilent hn => hend ⟨hsilent, hn⟩) j e
      rw [step, step, step?_of_call he, step?_of_call he, hc, hd, Option.bind_some, Option.bind_some]
      revert hact
      generalize s.act j c e = a
      generalize t.act j d e = b
      intro hact
      cases hact with
      | none => exact h
      | some hnext => exact hnext

private theorem step_read (h : Like i n s t) (hs : s.Kept) (ht : t.Kept) : Like i n (s.step .read) (t.step .read) := by
  have hreader : s.reader = t.reader := congrArg (·.reader) h.rest
  have hinbox : s.inbox = t.inbox := congrArg (·.inbox) h.rest
  simp only [step, step?, read?, hreader, hinbox]
  cases t.reader with
  | reading =>
    cases t.inbox.next with
    | nothing => exact h
    | frame payload inbox =>
      dsimp only
      cases Wire.Response.decode payload with
      | error fault =>
        exact ⟨h.calls, h.size, h.slots, congrArg (fun u : Client => { u with inbox, reader := .stopped }) h.rest⟩
      | ok r =>
        have taken : Like i n { s with inbox, reader := .reading } { t with inbox, reader := .reading } :=
          ⟨h.calls, h.size, h.slots, congrArg (fun u : Client => { u with inbox, reader := .reading }) h.rest⟩
        exact taken.deliver ⟨hs.holder, hs.owner⟩ ⟨ht.holder, ht.owner⟩ r
    | fault fault =>
      exact ⟨h.calls, h.size, h.slots,
        congrArg (fun u : Client => { u with inbox := t.inbox, reader := .stopped }) h.rest⟩
  | _ => exact h

/-- Whatever happens to others happens on both sides. -/
theorem step_other (h : Like i n s t) (hs : s.Kept) (ht : t.Kept) (he : e.call? ≠ some i) :
    Like i n (s.step e) (t.step e) := by
  have hreader : s.reader = t.reader := congrArg (·.reader) h.rest
  cases e with
  | make call => exact h.make call
  | arrive piece =>
    exact ⟨h.calls, h.size, h.slots, congrArg (fun u : Client => { u with inbox := u.inbox.arrive piece }) h.rest⟩
  | closeInput =>
    exact ⟨h.calls, h.size, h.slots, congrArg (fun u : Client => { u with inbox := u.inbox.close }) h.rest⟩
  | read => exact h.step_read hs ht
  | markClosed =>
    simp only [step, step?, hreader]
    split
    · exact ⟨h.calls, h.size, h.slots, congrArg (fun u : Client => { u with closed := true, reader := .marked }) h.rest⟩
    · exact h
  | dropSlots =>
    simp only [step, step?, hreader]
    split
    · exact ⟨h.calls, h.size, rfl, congrArg (fun u : Client => { u with reader := .done }) h.rest⟩
    · exact h
  | register j | check j | holdWriter j | put j count | flush j | failWrite j fault | wake j | abandon j =>
    exact h.step_call hs ht rfl fun hj => he (congrArg some hj)

/-- The steps of the call itself show on its side alone. -/
theorem step_own {r : Wire.Request} (h : Like i n s t) (hu : s.Unsent i r) (hs : s.Kept)
    (hlong : Wire.maxPayload < r.encode.length) (hn : r.seq = n) (he : e.call? = some i) : Like i n (s.step e) t := by
  apply step_preserves (P := fun u => Like i n u t) _ h
  intro next hm
  obtain ⟨c, hc, hreq, hnext⟩ := hu.own_moves hs hlong hm he
  have hseq : c.seq = n := (congrArg Wire.Request.seq hreq).trans hn
  rcases hnext with rfl | rfl | ⟨p, -, -, rfl⟩
  · refine h.left rfl (fun hi => absurd rfl hi) ?_ rfl
    simp [Client.register, Client.withoutSlot, hseq]
  · exact h.left rfl (fun hi => absurd rfl hi) rfl rfl
  · rw [hseq]
    exact h.left rfl (fun hi => absurd rfl hi) (slots_end s n) rfl

theorem run {r : Wire.Request} (h : Like i n s t) (hu : s.Unsent i r) (hs : s.Kept) (ht : t.Kept)
    (hlong : Wire.maxPayload < r.encode.length) (hn : r.seq = n) (es : List Event) :
    Like i n (s.run es) (t.run (es.filter fun e => e.call? != some i)) := by
  induction es generalizing s t with
  | nil => exact h
  | cons e es ih =>
    have hu' := hu.step hs hlong e
    by_cases he : e.call? = some i
    · rw [List.filter_cons_of_neg (by simp [he])]
      exact ih (h.step_own hu hs hlong hn he) hu' (hs.run [e]) ht
    · rw [List.filter_cons_of_pos (by simpa using he)]
      exact ih (h.step_other hs ht he) hu' (hs.run [e]) (ht.run [e])

end Like

/-! ## Calls whose request is too long -/

private theorem length_le_encode (seq : UInt64) (args : Wire.SignArgs) :
    args.principals.length ≤ (Wire.Request.encode ⟨seq, .sign args⟩).length := by
  have hl := Json.length_le_write (args.principals.map .text)
  rw [List.length_map] at hl
  simp only [Wire.Request.encode, Wire.Request.value, Wire.Call.value, Wire.SignArgs.value, Json.Value.write,
    Json.Value.writeMembers, List.length_append, List.length_cons] at hl ⊢
  omega

end Client

end SshAuthority.Connection

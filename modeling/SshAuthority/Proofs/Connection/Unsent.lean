import SshAuthority.Proofs.Connection.Cut
import SshAuthority.Proofs.Connection.Table
/-!
# Requests that are too long

A request that does not fit into a frame is found out when its call has the writer's turn. The call ends there with
nothing written, and neither its slot nor the writer stays behind.
-/
namespace SshAuthority.Connection

/-- What a call may come to whose request cannot be sent for `fault`: it gets no further than to the writer. -/
def CallPhase.IsUnsent (fault : Wire.StreamFault) (closed : Bool) : CallPhase → Prop
  | .numbered | .registered | .queued | .abandoned => True
  | .finished result => result = .error (.codec (.stream fault)) ∨ (result = .error .closed ∧ closed = true)
  | .writing _ | .flushing | .waiting => False

namespace Client

variable {s next : Client} {i j : Nat} {n : UInt64} {c : ClientCall} {e : Event} {r : Wire.Request}

/-! ## Writers and slots of any run -/

/-- Who holds the writer is at work on it, and a slot is of a call that has its number. -/
structure Kept (s : Client) : Prop where
  holder : ∀ {j : Nat}, s.writer = some j → ∃ c, s.calls[j]? = some c ∧ c.phase.holdsWriter
  owner : ∀ {n : UInt64} {j : Nat}, (n, j) ∈ s.pending → ∃ c, s.calls[j]? = some c ∧ c.seq = n

theorem phase_of_moves (hm : s.Moves e next) (he : e.call? ≠ some i) (hc : s.calls[i]? = some c) :
    ∃ d, next.calls[i]? = some d ∧ d.request = c.request ∧ d.phase = c.phase := by
  have other : ∀ {j : Nat} {a : ClientCall} (f : ClientCall → ClientCall), s.calls[j]? = some a → some j ≠ some i →
      (s.calls.modify j f)[i]? = some c := by
    intro j a f ha hj
    have hi : i ≠ j := fun h => hj (congrArg some h.symm)
    rw [getElem?_modified ha f i, if_neg hi, hc]
  cases hm with
  | make call => exact ⟨c, getElem?_append_old hc _, rfl, rfl⟩
  | @read _ inbox a _ _ _ =>
    have hd := getElem?_deliver { s with inbox } a i
    rw [show ({ s with inbox } : Client).calls[i]? = some c from hc, Option.map_some] at hd
    refine ⟨_, hd, ?_, ?_⟩
    · split <;> rfl
    · split <;> rfl
  | failWrite ha _ | abandon ha _ =>
    refine ⟨c, ?_, rfl, rfl⟩
    rw [releaseWriter]
    split
    · exact other _ ha he
    · exact other _ ha he
  | arrive | closeInput | misread | stop | markClosed | dropSlots => exact ⟨c, hc, rfl, rfl⟩
  | register ha _ | refuse ha _ _ | queue ha _ _ | tooLong ha _ _ _ | holdWriter ha _ _ _ | put ha _ _
  | putLast ha _ _ | flush ha _ | wake ha _ _ | giveUp ha _ _ _ => exact ⟨c, other _ ha he, rfl, rfl⟩

private theorem slot_of_moves (hm : s.Moves e next) (he : e.call? ≠ some i) (h : (n, i) ∈ next.pending) :
    (n, i) ∈ s.pending := by
  cases retables_of_moves hm with
  | keep pending _ _ => rwa [pending] at h
  | register event _ _ pending _ =>
    rw [pending, List.mem_append] at h
    cases h with
    | inl h => exact (mem_withoutSlot.mp h).1
    | inr h =>
      obtain ⟨-, rfl⟩ := Prod.mk.inj (List.mem_singleton.mp h)
      rw [event] at he
      exact absurd rfl he
  | release _ _ _ _ pending _ | answer _ pending _ =>
    rw [pending] at h
    exact (mem_withoutSlot.mp h).1
  | drain _ _ pending _ =>
    rw [pending] at h
    cases h

namespace Kept

theorem start : Client.new.Kept := by
  constructor
  · intro j h
    cases h
  · intro n j h
    cases h

private theorem holder_modify (h : s.Kept) {a : ClientCall} (ha : s.calls[i]? = some a)
    {f : ClientCall → ClientCall} (hf : a.phase.holdsWriter → (f a).phase.holdsWriter) (hw : s.writer = some j) :
    ∃ c, (s.calls.modify i f)[j]? = some c ∧ c.phase.holdsWriter := by
  obtain ⟨c, hc, hp⟩ := h.holder hw
  rw [getElem?_modified ha f j]
  by_cases hj : j = i
  · rw [hj, ha] at hc
    obtain rfl := Option.some.inj hc
    exact ⟨_, if_pos hj, hf hp⟩
  · exact ⟨c, by rw [if_neg hj, hc], hp⟩

private theorem holder_release (h : s.Kept) {a : ClientCall} (ha : s.calls[i]? = some a)
    (f : ClientCall → ClientCall) (hw : (s.releaseWriter i).writer = some j) :
    ∃ c, ((s.releaseWriter i).calls.modify i f)[j]? = some c ∧ c.phase.holdsWriter := by
  rw [(releaseWriter_rest s i).1]
  rw [releaseWriter] at hw
  split at hw
  case isTrue => cases hw
  case isFalse hi =>
    obtain ⟨c, hc, hp⟩ := h.holder hw
    have hj : j ≠ i := by
      intro hj
      rw [hj] at hw
      exact hi hw
    refine ⟨c, ?_, hp⟩
    rw [getElem?_modified ha f j, if_neg hj, hc]

private theorem holder_of_moves (h : s.Kept) (hm : s.Moves e next) (hw : next.writer = some j) :
    ∃ c, next.calls[j]? = some c ∧ c.phase.holdsWriter := by
  cases hm with
  | make call =>
    obtain ⟨c, hc, hp⟩ := h.holder hw
    exact ⟨c, getElem?_append_old hc _, hp⟩
  | register ha hp | refuse ha hp _ | queue ha hp _ | tooLong ha hp _ _ | wake ha hp _ | giveUp ha hp _ _ =>
    exact h.holder_modify ha (by simp [hp, CallPhase.holdsWriter]) hw
  | holdWriter ha _ _ _ =>
    obtain rfl := Option.some.inj hw
    exact ⟨_, (getElem?_modified ha _ _).trans (if_pos rfl), rfl⟩
  | put ha _ _ | putLast ha _ _ => exact h.holder_modify ha (fun _ => rfl) hw
  | flush => cases hw
  | failWrite ha _ | abandon ha _ => exact h.holder_release ha _ hw
  | @read _ inbox a _ _ _ =>
    have hs : s.writer = some j := by
      rw [← hw, deliver]
      split <;> rfl
    obtain ⟨c, hc, hp⟩ := h.holder hs
    obtain ⟨d, hd, -, hphase⟩ := phase_of_moves (.read ‹_› ‹_› ‹_›) (by simp [Event.call?]) hc
    exact ⟨d, hd, hphase ▸ hp⟩
  | arrive | closeInput | misread | stop | markClosed | dropSlots => exact h.holder hw

private theorem owner_of_moves (h : s.Kept) (hm : s.Moves e next) (hp : (n, j) ∈ next.pending) :
    ∃ c, next.calls[j]? = some c ∧ c.seq = n := by
  have kept : (n, j) ∈ s.pending → ∃ c, next.calls[j]? = some c ∧ c.seq = n := by
    intro hs
    obtain ⟨c, hc, hseq⟩ := h.owner hs
    obtain ⟨d, hd, hreq⟩ := request_of_moves hm hc
    exact ⟨d, hd, (congrArg Wire.Request.seq hreq).trans hseq⟩
  cases retables_of_moves hm with
  | keep pending _ _ =>
    rw [pending] at hp
    exact kept hp
  | @register i c _ call _ pending _ =>
    rw [pending, List.mem_append] at hp
    cases hp with
    | inl hp => exact kept (mem_withoutSlot.mp hp).1
    | inr hp =>
      obtain ⟨rfl, rfl⟩ := Prod.mk.inj (List.mem_singleton.mp hp)
      obtain ⟨d, hd, hreq⟩ := request_of_moves hm call
      exact ⟨d, hd, congrArg Wire.Request.seq hreq⟩
  | release _ _ _ _ pending _ | answer _ pending _ =>
    rw [pending] at hp
    exact kept (mem_withoutSlot.mp hp).1
  | drain _ _ pending _ =>
    rw [pending] at hp
    cases hp

theorem run (h : s.Kept) (es : List Event) : (s.run es).Kept := by
  apply run_preserves _ h es
  intro t e next ht hm
  exact ⟨ht.holder_of_moves hm, ht.owner_of_moves hm⟩

end Kept

/-! ## The call -/

/-- A call has `r` for its request and has sent nothing, and its slot is there for as long as it goes on. -/
structure Unsent (s : Client) (i : Nat) (r : Wire.Request) : Prop where
  call : ∃ c, s.calls[i]? = some c ∧ c.request = r ∧
    c.phase.IsUnsent (.payloadTooLarge r.encode.length) s.closed
  slot : ∀ {n : UInt64}, (n, i) ∈ s.pending → ∃ c, s.calls[i]? = some c ∧ c.phase.isOver = false

namespace Unsent

private theorem not_holdsWriter (h : s.Unsent i r) (hc : s.calls[i]? = some c) : c.phase.holdsWriter = false := by
  obtain ⟨d, hd, -, hphase⟩ := h.call
  obtain rfl := Option.some.inj (hd.symm.trans hc)
  unfold CallPhase.IsUnsent at hphase
  split at hphase <;> simp_all [CallPhase.holdsWriter]

theorem writer_ne (h : s.Unsent i r) (hk : s.Kept) : s.writer ≠ some i := by
  intro hw
  obtain ⟨c, hc, hp⟩ := hk.holder hw
  rw [h.not_holdsWriter hc] at hp
  cases hp

/-- Such a call registers its slot, goes on to the writer, or ends without its slot. -/
theorem own_moves (h : s.Unsent i r) (hk : s.Kept) (hlong : Wire.maxPayload < r.encode.length) (hm : s.Moves e next)
    (he : e.call? = some i) : ∃ c, s.calls[i]? = some c ∧ c.request = r ∧
      (next = s.register i c ∨ next = s.enter i .queued ∨ ∃ p, p.isOver = true ∧
        p.IsUnsent (.payloadTooLarge r.encode.length) s.closed ∧ next = (s.withoutSlot c.seq).enter i p) := by
  obtain ⟨c, hc, hreq, hphase⟩ := h.call
  refine ⟨c, hc, hreq, ?_⟩
  have same : ∀ {j : Nat} {a : ClientCall}, s.calls[j]? = some a → some j = some i → j = i ∧ a = c := by
    intro j a ha hj
    obtain rfl := Option.some.inj hj
    exact ⟨rfl, Option.some.inj (ha.symm.trans hc)⟩
  cases hm with
  | register ha _ =>
    obtain ⟨rfl, rfl⟩ := same ha he
    exact .inl rfl
  | queue ha _ _ =>
    obtain ⟨rfl, rfl⟩ := same ha he
    exact .inr (.inl rfl)
  | refuse ha _ hclosed =>
    obtain ⟨rfl, rfl⟩ := same ha he
    exact .inr (.inr ⟨.finished (.error .closed), rfl, .inr ⟨rfl, hclosed⟩, rfl⟩)
  | tooLong ha _ _ hfault =>
    obtain ⟨rfl, rfl⟩ := same ha he
    rw [hreq, Wire.Frame.write_of_lt hlong] at hfault
    obtain rfl := Except.error.inj hfault
    exact .inr (.inr ⟨.finished (.error (.codec (.stream _))), rfl, .inl rfl, rfl⟩)
  | abandon ha _ =>
    obtain ⟨rfl, rfl⟩ := same ha he
    rw [releaseWriter, if_neg (h.writer_ne hk)]
    exact .inr (.inr ⟨.abandoned, rfl, trivial, rfl⟩)
  | holdWriter ha _ _ hfits =>
    obtain ⟨rfl, rfl⟩ := same ha he
    rw [hreq, Wire.Frame.write_of_lt hlong] at hfits
    cases hfits
  | put ha hp _ | putLast ha hp _ | flush ha hp | wake ha hp _ | giveUp ha hp _ _ =>
    obtain ⟨rfl, rfl⟩ := same ha he
    rw [hp] at hphase
    exact hphase.elim
  | failWrite ha hp =>
    obtain ⟨rfl, rfl⟩ := same ha he
    rw [h.not_holdsWriter hc] at hp
    cases hp
  | _ => cases he

private theorem closed_of_moves (hm : s.Moves e next) (h : s.closed = true) : next.closed = true := by
  cases hm with
  | @read _ inbox a _ _ _ => rw [(deliver_rest { s with inbox } a).2.2.2, h]
  | @failWrite i _ _ _ _ | @abandon i _ _ _ =>
    have hrest := (releaseWriter_rest s i).2.2.2.2.2
    exact hrest.trans h
  | markClosed => rfl
  | _ => exact h

private theorem isUnsent_mono {fault : Wire.StreamFault} {closed closed' : Bool} {p : CallPhase}
    (h : p.IsUnsent fault closed) (hle : closed = true → closed' = true) : p.IsUnsent fault closed' := by
  cases p with
  | finished result =>
    cases h with
    | inl h => exact .inl h
    | inr h => exact .inr ⟨h.1, hle h.2⟩
  | _ => exact h

theorem of_moves (h : s.Unsent i r) (hk : s.Kept) (hlong : Wire.maxPayload < r.encode.length) (hm : s.Moves e next) :
    next.Unsent i r := by
  obtain ⟨c, hc, hreq, hphase⟩ := h.call
  by_cases he : e.call? = some i
  · obtain ⟨c', hc', hreq', rfl | rfl | ⟨p, hover, hp, rfl⟩⟩ := h.own_moves hk hlong hm he
    all_goals obtain rfl := Option.some.inj (hc.symm.trans hc')
    · have hd := getElem?_register hc
      exact ⟨⟨_, hd, hreq, trivial⟩, fun _ => ⟨_, hd, rfl⟩⟩
    · have hd := (getElem?_modified hc (fun c => { c with phase := .queued }) i).trans (if_pos rfl)
      exact ⟨⟨_, hd, hreq, trivial⟩, fun _ => ⟨_, hd, rfl⟩⟩
    · have hd := (getElem?_modified hc (fun c => { c with phase := p }) i).trans (if_pos rfl)
      refine ⟨⟨_, hd, hreq, hp⟩, fun hm => ?_⟩
      obtain ⟨hold, hne⟩ := mem_withoutSlot.mp hm
      obtain ⟨a, ha, hseq⟩ := hk.owner hold
      obtain rfl := Option.some.inj (ha.symm.trans hc)
      exact absurd hseq.symm hne
  · obtain ⟨d, hd, hreq', hphase'⟩ := phase_of_moves hm he hc
    refine ⟨⟨d, hd, hreq'.trans hreq, ?_⟩, fun hmem => ?_⟩
    · rw [hphase']
      exact isUnsent_mono hphase (closed_of_moves hm)
    · obtain ⟨a, ha, hlive⟩ := h.slot (slot_of_moves hm he hmem)
      obtain rfl := Option.some.inj (ha.symm.trans hc)
      refine ⟨d, hd, ?_⟩
      rw [hphase']
      exact hlive

theorem step (h : s.Unsent i r) (hk : s.Kept) (hlong : Wire.maxPayload < r.encode.length) (e : Event) :
    (s.step e).Unsent i r := step_preserves (fun _ hm => h.of_moves hk hlong hm) h

theorem run (h : s.Unsent i r) (hk : s.Kept) (hlong : Wire.maxPayload < r.encode.length) (es : List Event) :
    (s.run es).Unsent i r := by
  induction es generalizing s with
  | nil => exact h
  | cons e es ih => exact ih (h.step hk hlong e) (hk.run [e])

private theorem ends_at_writer (hlong : Wire.maxPayload < r.encode.length) (hc : s.calls[i]? = some c)
    (hp : c.phase = .queued) (hreq : c.request = r) (hfree : s.writer = none) :
    ∃ result, (s.step (.holdWriter i)).result? i = some result := by
  have hstep : s.step (.holdWriter i) =
      s.finish i c (.error (.codec (.stream (.payloadTooLarge r.encode.length)))) := by
    simp [Client.step, step?, Event.call?, hc, act, hp, hfree, hreq, Wire.Frame.write_of_lt hlong]
  rw [hstep]
  exact ⟨_, result?_finish hc _⟩

private theorem ends_at_check (hlong : Wire.maxPayload < r.encode.length) (hc : s.calls[i]? = some c)
    (hp : c.phase = .registered) (hreq : c.request = r) (hfree : s.writer = none) :
    ∃ result, (s.run [.check i, .holdWriter i]).result? i = some result := by
  cases hclosed : s.closed with
  | true => exact ⟨_, result?_run (result?_refuse hc hp hclosed) [.holdWriter i]⟩
  | false =>
    have hstep : s.step (.check i) = s.enter i .queued := by
      simp [Client.step, step?, Event.call?, hc, act, hp, hclosed]
    have hqueued := (getElem?_modified hc (fun c => { c with phase := .queued }) i).trans (if_pos rfl)
    rw [run_cons, hstep]
    exact ends_at_writer (s := s.enter i .queued) hlong hqueued rfl hreq hfree

/-- Its own steps take the call to its end as soon as the writer is free. -/
theorem ends (h : s.Unsent i r) (hlong : Wire.maxPayload < r.encode.length) (hfree : s.writer = none)
    (hlive : s.phase? i ≠ some .abandoned) :
    ∃ result, (s.run [.register i, .check i, .holdWriter i]).result? i = some result := by
  obtain ⟨c, hc, hreq, hphase⟩ := h.call
  cases hp : c.phase with
  | numbered =>
    rw [run_cons, step_register hc hp]
    exact ends_at_check hlong (getElem?_register hc) rfl hreq hfree
  | registered =>
    have hr : s.step (.register i) = s := by simp [Client.step, step?, Event.call?, hc, act, hp]
    rw [run_cons, hr]
    exact ends_at_check hlong hc hp hreq hfree
  | queued =>
    have hr : s.step (.register i) = s := by simp [Client.step, step?, Event.call?, hc, act, hp]
    have hk : s.step (.check i) = s := by simp [Client.step, step?, Event.call?, hc, act, hp]
    rw [run_cons, hr, run_cons, hk]
    exact ends_at_writer hlong hc hp hreq hfree
  | finished result => exact ⟨result, result?_run (result?_of_call hc hp) _⟩
  | abandoned =>
    rw [phase?, hc, Option.map_some, hp] at hlive
    exact absurd rfl hlive
  | writing rest | flushing | waiting =>
    rw [hp] at hphase
    exact hphase.elim

end Unsent

end Client

end SshAuthority.Connection

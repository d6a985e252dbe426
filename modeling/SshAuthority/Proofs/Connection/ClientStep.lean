import SshAuthority.Connection.Client
import SshAuthority.Proofs.Places
/-!
# The steps of a client

Everything a step of a client can do, as one rule for each way an event can happen, and what becomes of
the slots that wait for responses.
-/
namespace SshAuthority.Connection.Client

/-! ## Slots -/

private theorem lookup_filter {β : Type} (l : List (UInt64 × β)) (n m : UInt64) :
    (l.filter fun x => x.1 != n).lookup m = if m = n then none else l.lookup m := by
  induction l with
  | nil => simp
  | cons x l ih =>
    obtain ⟨k, v⟩ := x
    by_cases hk : k = n
    · subst hk
      rw [List.filter_cons_of_neg (by simp), ih]
      by_cases hm : m = k
      · rw [if_pos hm, if_pos hm]
      · rw [if_neg hm, if_neg hm, List.lookup_cons, beq_eq_false_iff_ne.mpr hm]
    · rw [List.filter_cons_of_pos (by simpa using hk), List.lookup_cons, List.lookup_cons, ih]
      by_cases hm : m = k
      · subst hm
        simp [hk]
      · rw [beq_eq_false_iff_ne.mpr hm]

theorem slot?_withoutSlot (s : Client) (n m : UInt64) :
    (s.withoutSlot n).slot? m = if m = n then none else s.slot? m :=
  lookup_filter s.pending n m

theorem slot?_register (s : Client) (i : Nat) (c : ClientCall) (m : UInt64) :
    (s.register i c).slot? m = if m = c.seq then some i else s.slot? m := by
  have hl : (s.register i c).pending = (s.withoutSlot c.seq).pending ++ [(c.seq, i)] := rfl
  have hw := slot?_withoutSlot s c.seq m
  rw [slot?] at hw ⊢
  rw [hl, List.lookup_append, hw]
  by_cases hm : m = c.seq
  · simp [hm]
  · have hn : (m == c.seq) = false := beq_eq_false_iff_ne.mpr hm
    simp [hm, hn, List.lookup_cons]

theorem deliver_of_slot {s : Client} {r : Wire.Response} {i : Nat} (h : s.slot? r.seq = some i) :
    s.deliver r = { ({ s with responses := s.responses ++ [r] } : Client).withoutSlot r.seq with
      calls := s.calls.modify i fun c => { c with reply := some r } } := by
  have hr : ({ s with responses := s.responses ++ [r] } : Client).slot? r.seq = some i := h
  simp only [deliver, hr]

theorem deliver_of_no_slot {s : Client} {r : Wire.Response} (h : s.slot? r.seq = none) :
    s.deliver r = { s with responses := s.responses ++ [r] } := by
  have hr : ({ s with responses := s.responses ++ [r] } : Client).slot? r.seq = none := h
  simp only [deliver, hr]

/-! ## Rules -/

/-- How a client can get from one state to the next at an event. -/
inductive Moves (s : Client) : Event → Client → Prop where
  | make (call : Wire.Call) : Moves s (.make call) (s.make call)
  | register {i c} (call : s.calls[i]? = some c) (phase : c.phase = .numbered) :
    Moves s (.register i) (s.register i c)
  | refuse {i c} (call : s.calls[i]? = some c) (phase : c.phase = .registered)
    (closed : s.closed = true) : Moves s (.check i) (s.finish i c (.error .closed))
  | queue {i c} (call : s.calls[i]? = some c) (phase : c.phase = .registered)
    (whole : s.closed = false) : Moves s (.check i) (s.enter i .queued)
  | tooLong {i c fault} (call : s.calls[i]? = some c) (phase : c.phase = .queued)
    (free : s.writer = none) (long : Wire.Frame.write c.request.encode = .error fault) :
    Moves s (.holdWriter i) (s.finish i c (.error (.codec (.stream fault))))
  | holdWriter {i c frame} (call : s.calls[i]? = some c) (phase : c.phase = .queued)
    (free : s.writer = none) (fits : Wire.Frame.write c.request.encode = .ok frame) :
    Moves s (.holdWriter i) (({ s with writer := some i } : Client).enter i (.writing frame))
  | put {i c rest count} (call : s.calls[i]? = some c) (phase : c.phase = .writing rest)
    (more : rest.drop count ≠ []) :
    Moves s (.put i count)
      (({ s with sent := s.sent ++ rest.take count } : Client).enter i (.writing (rest.drop count)))
  | putLast {i c rest count} (call : s.calls[i]? = some c) (phase : c.phase = .writing rest)
    (last : rest.drop count = []) :
    Moves s (.put i count)
      (({ s with
          sent := s.sent ++ rest.take count, written := s.written ++ [c.request] } : Client).enter i .flushing)
  | flush {i c} (call : s.calls[i]? = some c) (phase : c.phase = .flushing) :
    Moves s (.flush i) (({ s with writer := none, flushed := s.flushed ++ [c.request] } : Client).enter i .waiting)
  | failWrite {i c fault} (call : s.calls[i]? = some c) (phase : c.phase.holdsWriter) :
    Moves s (.failWrite i fault) ((s.releaseWriter i).finish i c (.error (.codec (.stream fault))))
  | wake {i c r} (call : s.calls[i]? = some c) (phase : c.phase = .waiting) (reply : c.reply = some r) :
    Moves s (.wake i) (s.finish i c (outcomeOf c.call r))
  | giveUp {i c} (call : s.calls[i]? = some c) (phase : c.phase = .waiting) (reply : c.reply = none)
    (gone : s.slot? c.seq ≠ some i) : Moves s (.wake i) (s.finish i c (.error .closed))
  | abandon {i c} (call : s.calls[i]? = some c)
    (phase : c.phase = .queued ∨ c.phase.holdsWriter ∨ c.phase = .waiting) :
    Moves s (.abandon i) (((s.releaseWriter i).withoutSlot c.seq).enter i .abandoned)
  | arrive (piece : Bytes) : Moves s (.arrive piece) { s with inbox := s.inbox.arrive piece }
  | closeInput : Moves s .closeInput { s with inbox := s.inbox.close }
  | read {payload inbox r} (reading : s.reader = .reading) (frame : s.inbox.next = .frame payload inbox)
    (decodes : Wire.Response.decode payload = .ok r) :
    Moves s .read (({ s with inbox } : Client).deliver r)
  | misread {payload inbox fault} (reading : s.reader = .reading)
    (frame : s.inbox.next = .frame payload inbox)
    (malformed : Wire.Response.decode payload = .error fault) :
    Moves s .read { s with inbox, reader := .stopped }
  | stop {fault} (reading : s.reader = .reading) (failed : s.inbox.next = .fault fault) :
    Moves s .read { s with reader := .stopped }
  | markClosed (stopped : s.reader = .stopped) :
    Moves s .markClosed { s with closed := true, reader := .marked }
  | dropSlots (marked : s.reader = .marked) : Moves s .dropSlots { s with pending := [], reader := .done }

private theorem moves_of_act {s next : Client} {i : Nat} {c : ClientCall} {e : Event}
    (hi : e.call? = some i) (hc : s.calls[i]? = some c) (h : s.act i c e = some next) :
    s.Moves e next := by
  cases e with
  | register j =>
    obtain rfl := Option.some.inj hi
    cases hp : c.phase <;> simp only [act, hp, reduceCtorEq, Option.some.injEq] at h
    subst h
    exact .register hc hp
  | check j =>
    obtain rfl := Option.some.inj hi
    cases hp : c.phase <;> simp only [act, hp, reduceCtorEq, Option.some.injEq] at h
    subst h
    cases hk : s.closed
    · rw [if_neg (by simp)]
      exact .queue hc hp hk
    · rw [if_pos rfl]
      exact .refuse hc hp hk
  | holdWriter j =>
    obtain rfl := Option.some.inj hi
    cases hp : c.phase <;> cases hw : s.writer <;> simp only [act, hp, hw, reduceCtorEq] at h
    split at h
    case h_1 hf =>
      cases h
      exact .tooLong hc hp hw hf
    case h_2 hf =>
      cases h
      exact .holdWriter hc hp hw hf
  | put j count =>
    obtain rfl := Option.some.inj hi
    cases hp : c.phase <;> simp only [act, hp, reduceCtorEq] at h
    rename_i rest
    by_cases hl : rest.drop count = []
    · simp only [hl, Option.some.injEq] at h
      subst h
      exact .putLast hc hp hl
    · split at h
      case h_1 hn => exact absurd hn hl
      case h_2 =>
        cases h
        exact .put hc hp hl
  | flush j =>
    obtain rfl := Option.some.inj hi
    cases hp : c.phase <;> simp only [act, hp, reduceCtorEq, Option.some.injEq] at h
    subst h
    exact .flush hc hp
  | failWrite j fault =>
    obtain rfl := Option.some.inj hi
    simp only [act, Option.ite_none_right_eq_some, Option.some.injEq] at h
    obtain ⟨hp, rfl⟩ := h
    exact .failWrite hc hp
  | wake j =>
    obtain rfl := Option.some.inj hi
    cases hp : c.phase <;> cases hr : c.reply <;> simp only [act, hp, hr, reduceCtorEq] at h
    · split at h
      case isTrue => cases h
      case isFalse hg =>
        cases h
        exact .giveUp hc hp hr hg
    · cases h
      exact .wake hc hp hr
  | abandon j =>
    obtain rfl := Option.some.inj hi
    cases hp : c.phase <;> simp only [act, hp, reduceCtorEq, Option.some.injEq] at h <;> subst h
    case queued => exact .abandon hc (.inl hp)
    case writing rest => exact .abandon hc (.inr (.inl (by rw [hp]; rfl)))
    case flushing => exact .abandon hc (.inr (.inl (by rw [hp]; rfl)))
    case waiting => exact .abandon hc (.inr (.inr hp))
  | _ => cases hi

private theorem moves_of_read? {s next : Client} (h : s.read? = some next) : s.Moves .read next := by
  unfold read? at h
  split at h
  case h_1 hr hn =>
    split at h
    case h_1 hd =>
      cases h
      exact .read hr hn hd
    case h_2 hd =>
      cases h
      exact .misread hr hn hd
  case h_2 hr hn =>
    cases h
    exact .stop hr hn
  case h_3 => cases h

/-- A step goes by one of the rules. -/
theorem moves_of_step? {s next : Client} {e : Event} (h : s.step? e = some next) : s.Moves e next := by
  cases e with
  | make call =>
    cases h
    exact .make call
  | arrive piece =>
    cases h
    exact .arrive piece
  | closeInput =>
    cases h
    exact .closeInput
  | read => exact moves_of_read? h
  | markClosed =>
    simp only [step?, Option.ite_none_right_eq_some, Option.some.injEq] at h
    obtain ⟨hs, rfl⟩ := h
    exact .markClosed hs
  | dropSlots =>
    simp only [step?, Option.ite_none_right_eq_some, Option.some.injEq] at h
    obtain ⟨hm, rfl⟩ := h
    exact .dropSlots hm
  | _ =>
    obtain ⟨c, hc, h⟩ := Option.bind_eq_some_iff.mp h
    exact moves_of_act rfl hc h

theorem step?_of_call {s : Client} {e : Event} {i : Nat} (he : e.call? = some i) :
    s.step? e = (s.calls[i]?).bind fun c => s.act i c e := by
  cases e <;> cases he <;> rfl

/-- Whatever goes by a rule happens. -/
theorem step?_of_moves {s next : Client} {e : Event} (hm : s.Moves e next) : s.step? e = some next := by
  have hcall : ∀ {i c}, e.call? = some i → s.calls[i]? = some c → s.step? e = s.act i c e := by
    intro i c hi hc
    rw [step?_of_call hi, hc, Option.bind_some]
  cases hm with
  | make | arrive | closeInput => rfl
  | register hc hp => exact (hcall rfl hc).trans (by simp only [act, hp])
  | refuse hc hp hclosed => exact (hcall rfl hc).trans (by simp only [act, hp, hclosed, if_true])
  | queue hc hp hopen => exact (hcall rfl hc).trans (by simp [act, hp, hopen])
  | tooLong hc hp hfree hlong => exact (hcall rfl hc).trans (by simp only [act, hp, hfree, hlong])
  | holdWriter hc hp hfree hfits => exact (hcall rfl hc).trans (by simp only [act, hp, hfree, hfits])
  | put hc hp hmore =>
    obtain ⟨b, left, hl⟩ := List.exists_cons_of_ne_nil hmore
    exact (hcall rfl hc).trans (by simp only [act, hp, hl])
  | putLast hc hp hlast => exact (hcall rfl hc).trans (by simp only [act, hp, hlast])
  | flush hc hp => exact (hcall rfl hc).trans (by simp only [act, hp])
  | failWrite hc hp => exact (hcall rfl hc).trans (by simp only [act, hp, if_true])
  | wake hc hp hr => exact (hcall rfl hc).trans (by simp only [act, hp, hr])
  | giveUp hc hp hr hgone => exact (hcall rfl hc).trans (by simp only [act, hp, hr, if_neg hgone])
  | @abandon i c hc hp =>
    rw [hcall rfl hc]
    cases hphase : c.phase <;> simp [act, hphase, CallPhase.holdsWriter] at hp ⊢
  | read hr hn hd => simp only [step?, read?, hr, hn, hd]
  | misread hr hn hd => simp only [step?, read?, hr, hn, hd]
  | stop hr hn => simp only [step?, read?, hr, hn]
  | markClosed hs => exact if_pos hs
  | dropSlots hk => exact if_pos hk

def Event.made? : Event → Option Wire.Call
  | .make call => some call
  | _ => none

def numbered (n : UInt64) : List Wire.Call → List Wire.Request
  | [] => []
  | call :: calls => ⟨n, call⟩ :: numbered (n + 1) calls

theorem requests_of_moves {s next : Client} {e : Event} (hm : s.Moves e next) :
    next.calls.map (·.request) = s.calls.map (·.request) ++ numbered s.nextSeq e.made?.toList ∧
      next.nextSeq = s.nextSeq + UInt64.ofNat e.made?.toList.length := by
  have hmodify : ∀ (i : Nat) (f : ClientCall → ClientCall), (∀ c, (f c).request = c.request) →
      (s.calls.modify i f).map (·.request) = s.calls.map (·.request) ++ [] := by
    intro i f hf
    rw [map_modify hf, List.append_nil]
  have hseq : s.nextSeq = s.nextSeq + 0 := (UInt64.add_zero _).symm
  cases hm with
  | make call => exact ⟨by simp [make, Event.made?, numbered, ClientCall.request], rfl⟩
  | read _ _ _ =>
    simp only [deliver]
    split
    · exact ⟨(List.append_nil _).symm, hseq⟩
    · exact ⟨hmodify _ _ fun _ => rfl, hseq⟩
  | failWrite _ _ | abandon _ _ =>
    rw [releaseWriter]
    split <;> exact ⟨hmodify _ _ fun _ => rfl, hseq⟩
  | arrive | closeInput | misread | stop | markClosed | dropSlots => exact ⟨(List.append_nil _).symm, hseq⟩
  | _ => exact ⟨hmodify _ _ fun _ => rfl, hseq⟩

/-- What every rule preserves, every step preserves. -/
theorem step_preserves {P : Client → Prop} {s : Client} {e : Event}
    (hm : ∀ next, s.Moves e next → P next) (h : P s) : P (s.step e) := by
  rcases hs : s.step? e with _ | next
  · rwa [step, hs]
  · rw [step, hs]
    exact hm next (moves_of_step? hs)

theorem requests_step (s : Client) (e : Event) :
    (s.step e).calls.map (·.request) = s.calls.map (·.request) ++ numbered s.nextSeq e.made?.toList ∧
      (s.step e).nextSeq = s.nextSeq + UInt64.ofNat e.made?.toList.length := by
  rcases hs : s.step? e with _ | next
  · have hn : e.made? = none := by
      cases e with
      | make => cases hs
      | _ => rfl
    rw [step, hs, hn]
    exact ⟨(List.append_nil _).symm, (UInt64.add_zero _).symm⟩
  · rw [step, hs]
    exact requests_of_moves (moves_of_step? hs)

theorem numbered_calls (n : UInt64) (calls : List Wire.Call) : (numbered n calls).map (·.call) = calls := by
  induction calls generalizing n with
  | nil => rfl
  | cons call calls ih => rw [numbered, List.map_cons, ih]

end SshAuthority.Connection.Client

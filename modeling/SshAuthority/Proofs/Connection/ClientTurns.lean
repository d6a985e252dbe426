import Mathlib.Algebra.Group.Nat.Defs
import SshAuthority.Proofs.Connection.ClientStep
/-!
# The turns of a call

A step of a client as its calls see it. A call is made, one call goes on by itself, a response is given to
the slot of its number, or no call comes into it.
-/
namespace SshAuthority.Connection.Client

/-! ## Runs -/

@[simp] theorem run_nil (s : Client) : s.run [] = s := rfl

@[simp] theorem run_cons (s : Client) (e : Event) (es : List Event) : s.run (e :: es) = (s.step e).run es := rfl

theorem run_append (s : Client) (es later : List Event) : s.run (es ++ later) = (s.run es).run later := by
  simp [run]

theorem run_preserves {P : Client → Prop} (hm : ∀ s e next, P s → s.Moves e next → P next) {s : Client}
    (h : P s) (es : List Event) : P (s.run es) := by
  induction es generalizing s with
  | nil => exact h
  | cons e es ih => exact ih (step_preserves (fun next => hm s e next h) h)

/-! ## Numbers -/

theorem requests_run (s : Client) (es : List Event) :
    (s.run es).calls.map (·.request) =
        s.calls.map (·.request) ++ numbered s.nextSeq (es.filterMap Event.made?) := by
  induction es generalizing s with
  | nil => exact (List.append_nil _).symm
  | cons e es ih =>
    obtain ⟨hcalls, hseq⟩ := requests_step s e
    rw [run_cons, ih, hcalls, hseq, List.append_assoc, List.filterMap_cons]
    rcases e.made? with _ | call
    · simp [numbered]
    · rfl

private theorem getElem?_numbered (n : UInt64) (calls : List Wire.Call) (i : Nat) :
    (numbered n calls)[i]? = (calls[i]?).map fun call => ⟨n + UInt64.ofNat i, call⟩ := by
  induction calls generalizing n i with
  | nil => rfl
  | cons call calls ih =>
    cases i with
    | zero => simp [numbered]
    | succ i =>
      have hn : n + 1 + UInt64.ofNat i = n + UInt64.ofNat (i + 1) := by
        rw [UInt64.ofNat_add, UInt64.add_comm (UInt64.ofNat i), UInt64.add_assoc]
        rfl
      rw [numbered, List.getElem?_cons_succ, List.getElem?_cons_succ, ih, hn]

def Distinct (s : Client) : Prop :=
  ∀ {i j : Nat} {c d : ClientCall}, s.calls[i]? = some c → s.calls[j]? = some d → c.seq = d.seq → i = j

/-- Numbers are not used again before all have been used. -/
theorem distinct_run {es : List Event} (h : (es.filterMap Event.made?).length < 2 ^ 64) :
    (new.run es).Distinct := by
  have hreq : (new.run es).calls.map (·.request) = numbered 1 (es.filterMap Event.made?) := requests_run new es
  have hseq : ∀ {i : Nat} {c : ClientCall}, (new.run es).calls[i]? = some c →
      i < 2 ^ 64 ∧ c.seq = 1 + UInt64.ofNat i := by
    intro i c hc
    have hi : (numbered 1 (es.filterMap Event.made?))[i]? = some c.request := by
      rw [← hreq, List.getElem?_map, hc, Option.map_some]
    rw [getElem?_numbered] at hi
    obtain ⟨call, hcall, hr⟩ := Option.map_eq_some_iff.mp hi
    have hlt := (List.getElem?_eq_some_iff.mp hcall).1
    exact ⟨by omega, (congrArg Wire.Request.seq hr).symm⟩
  intro i j c d hc hd hcd
  obtain ⟨hi, hci⟩ := hseq hc
  obtain ⟨hj, hdj⟩ := hseq hd
  have hij : UInt64.ofNat i = UInt64.ofNat j := (UInt64.add_right_inj 1).mp (hci.symm.trans (hcd.trans hdj))
  have ht := congrArg UInt64.toNat hij
  rw [UInt64.toNat_ofNat', UInt64.toNat_ofNat'] at ht
  omega

theorem request_of_moves {s next : Client} {e : Event} (hm : s.Moves e next) {i : Nat} {c : ClientCall}
    (h : s.calls[i]? = some c) : ∃ d, next.calls[i]? = some d ∧ d.request = c.request := by
  have hr : (next.calls.map (·.request))[i]? = some c.request := by
    rw [(requests_of_moves hm).1]
    exact getElem?_append_old (by rw [List.getElem?_map, h, Option.map_some]) _
  rw [List.getElem?_map] at hr
  exact Option.map_eq_some_iff.mp hr

theorem Distinct.of_moves {s next : Client} {e : Event} (hd : next.Distinct) (hm : s.Moves e next) :
    s.Distinct := by
  intro i j c d hi hj hseq
  obtain ⟨c', hc', hreq⟩ := request_of_moves hm hi
  obtain ⟨d', hd', hreq'⟩ := request_of_moves hm hj
  have hc : c'.seq = c.seq := congrArg Wire.Request.seq hreq
  have hd'' : d'.seq = d.seq := congrArg Wire.Request.seq hreq'
  exact hd hc' hd' (by rw [hc, hd'', hseq])

/-! ## Responses -/

theorem getElem?_deliver (s : Client) (r : Wire.Response) (j : Nat) :
    (s.deliver r).calls[j]? = (s.calls[j]?).map fun c =>
      if s.slot? r.seq = some j then { c with reply := some r } else c := by
  have hs : ({ s with responses := s.responses ++ [r] } : Client).slot? r.seq = s.slot? r.seq := rfl
  rcases hslot : s.slot? r.seq with _ | i
  · simp [deliver, hs, hslot]
  · simp only [deliver, hs, hslot, Option.some.injEq]
    rw [List.getElem?_modify]
    rfl

theorem slot?_deliver (s : Client) (r : Wire.Response) (n : UInt64) :
    (s.deliver r).slot? n = if n = r.seq then none else s.slot? n := by
  have hs : ({ s with responses := s.responses ++ [r] } : Client).slot? r.seq = s.slot? r.seq := rfl
  rcases hslot : s.slot? r.seq with _ | i
  · have hd : (s.deliver r).slot? n = s.slot? n := by
      simp only [deliver, hs, hslot]
      rfl
    rw [hd]
    split
    case isTrue hn => rw [hn, hslot]
    case isFalse => rfl
  · rw [deliver_of_slot hslot]
    exact slot?_withoutSlot { s with responses := s.responses ++ [r] } r.seq n

theorem deliver_rest (s : Client) (r : Wire.Response) :
    (s.deliver r).responses = s.responses ++ [r] ∧ (s.deliver r).flushed = s.flushed ∧
      (s.deliver r).reader = s.reader ∧ (s.deliver r).closed = s.closed := by
  simp only [deliver]
  split <;> exact ⟨rfl, rfl, rfl, rfl⟩

/-! ## Turns -/

theorem not_over_of_holdsWriter {p : CallPhase} (h : p.holdsWriter) : p.isOver = false := by
  cases p with
  | finished | abandoned => cases h
  | _ => rfl

/-- How a call can go on by itself: what becomes of it and of the slot of its number, and which requests it is
done with writing. -/
inductive Turn (s : Client) (i : Nat) (c : ClientCall) :
    ClientCall → Option Nat → List Wire.Request → Prop where
  | register (phase : c.phase = .numbered) :
    Turn s i c { c with phase := .registered, since := s.responses.length } (some i) []
  | refuse (phase : c.phase = .registered) (closed : s.closed = true) :
    Turn s i c { c with phase := .finished (.error .closed) } none []
  | queue (phase : c.phase = .registered) (whole : s.closed = false) :
    Turn s i c { c with phase := .queued } (s.slot? c.seq) []
  | tooLong (fault : Wire.StreamFault) (phase : c.phase = .queued) :
    Turn s i c { c with phase := .finished (.error (.codec (.stream fault))) } none []
  | holdWriter (frame : Bytes) (phase : c.phase = .queued) :
    Turn s i c { c with phase := .writing frame } (s.slot? c.seq) []
  | put {rest : Bytes} (left : Bytes) (phase : c.phase = .writing rest) :
    Turn s i c { c with phase := .writing left } (s.slot? c.seq) []
  | putLast {rest : Bytes} (phase : c.phase = .writing rest) :
    Turn s i c { c with phase := .flushing } (s.slot? c.seq) []
  | flush (phase : c.phase = .flushing) : Turn s i c { c with phase := .waiting } (s.slot? c.seq) [c.request]
  | failWrite (fault : Wire.StreamFault) (phase : c.phase.holdsWriter) :
    Turn s i c { c with phase := .finished (.error (.codec (.stream fault))) } none []
  | wake {r : Wire.Response} (phase : c.phase = .waiting) (reply : c.reply = some r) :
    Turn s i c { c with phase := .finished (outcomeOf c.call r) } none []
  | giveUp (phase : c.phase = .waiting) (reply : c.reply = none) (gone : s.slot? c.seq ≠ some i) :
    Turn s i c { c with phase := .finished (.error .closed) } none []
  | abandon (phase : c.phase = .queued ∨ c.phase.holdsWriter ∨ c.phase = .waiting) :
    Turn s i c { c with phase := .abandoned } none []

namespace Turn

variable {s : Client} {i : Nat} {c d : ClientCall} {o : Option Nat} {w : List Wire.Request}

theorem request (ht : s.Turn i c d o w) : d.request = c.request := by
  cases ht <;> rfl

theorem not_over (ht : s.Turn i c d o w) : c.phase.isOver = false := by
  cases ht with
  | failWrite _ phase => exact not_over_of_holdsWriter phase
  | abandon phase =>
    rcases phase with h | h | h
    · rw [h]
      rfl
    · exact not_over_of_holdsWriter h
    · rw [h]
      rfl
  | _ => simp [CallPhase.isOver, *]

theorem since (ht : s.Turn i c d o w) : c.phase ≠ .numbered → d.since = c.since := by
  intro hp
  cases ht with
  | register phase => exact absurd phase hp
  | _ => rfl

theorem not_numbered (ht : s.Turn i c d o w) : d.phase ≠ .numbered := by
  cases ht <;> simp

theorem flushed (ht : s.Turn i c d o w) : ∀ r ∈ w, r = c.request := by
  cases ht <;> simp

end Turn

/-- What a step of a client is to its calls. -/
inductive Course (s next : Client) : Prop where
  | make (call : Wire.Call) (state : next = s.make call)
  | turn {i : Nat} {c d : ClientCall} {o : Option Nat} {w : List Wire.Request} (call : s.calls[i]? = some c)
    (turn : s.Turn i c d o w) (calls : ∀ j : Nat, next.calls[j]? = if j = i then some d else s.calls[j]?)
    (slots : ∀ n, next.slot? n = if n = c.seq then o else s.slot? n) (flushed : next.flushed = s.flushed ++ w)
    (responses : next.responses = s.responses) (reader : next.reader = s.reader)
    (closed : next.closed = s.closed)
  | hear {r : Wire.Response} (reading : s.reader = .reading)
    (calls : ∀ j : Nat, next.calls[j]? = (s.calls[j]?).map fun c =>
      if s.slot? r.seq = some j then { c with reply := some r } else c)
    (slots : ∀ n, next.slot? n = if n = r.seq then none else s.slot? n)
    (flushed : next.flushed = s.flushed) (responses : next.responses = s.responses ++ [r])
    (reader : next.reader = s.reader) (closed : next.closed = s.closed)
  | aside (calls : next.calls = s.calls) (slots : ∀ n, next.slot? n = s.slot? n)
    (flushed : next.flushed = s.flushed) (responses : next.responses = s.responses)
    (reader : next.reader = .done ↔ s.reader = .done)
  | drop (marked : s.reader = .marked) (state : next = { s with pending := [], reader := .done })

private theorem slots_kept (s : Client) (c : ClientCall) (n : UInt64) :
    s.slot? n = if n = c.seq then s.slot? c.seq else s.slot? n := by
  split
  case isTrue hn => rw [hn]
  case isFalse => rfl

theorem releaseWriter_rest (s : Client) (i : Nat) :
    (s.releaseWriter i).calls = s.calls ∧ (s.releaseWriter i).pending = s.pending ∧
      (s.releaseWriter i).flushed = s.flushed ∧ (s.releaseWriter i).responses = s.responses ∧
      (s.releaseWriter i).reader = s.reader ∧ (s.releaseWriter i).closed = s.closed := by
  unfold releaseWriter
  split <;> exact ⟨rfl, rfl, rfl, rfl, rfl, rfl⟩

private theorem course_of_end {s t : Client} {i : Nat} {c : ClientCall} {p : CallPhase}
    (hc : s.calls[i]? = some c) (ht : s.Turn i c { c with phase := p } none [])
    (hcalls : t.calls = s.calls) (hpending : t.pending = s.pending) (hflushed : t.flushed = s.flushed)
    (hresponses : t.responses = s.responses) (hreader : t.reader = s.reader) (hclosed : t.closed = s.closed) :
    s.Course ((t.withoutSlot c.seq).enter i p) := by
  have hslot : ∀ n, t.slot? n = s.slot? n := fun n => by rw [slot?, slot?, hpending]
  refine .turn hc ht (fun j => ?_) (fun n => ?_) ?_ hresponses hreader hclosed
  · rw [← hcalls] at hc ⊢
    exact getElem?_modified hc (fun c => { c with phase := p }) j
  · rw [← hslot]
    exact slot?_withoutSlot t c.seq n
  · rw [List.append_nil]
    exact hflushed

theorem course_of_moves {s next : Client} {e : Event} (hm : s.Moves e next) : s.Course next := by
  cases hm with
  | make call => exact .make call rfl
  | @register i c hc hp =>
    refine .turn hc (.register hp) (fun j => ?_) (slot?_register s i c) (List.append_nil _).symm rfl rfl rfl
    exact getElem?_modified hc (fun c => { c with phase := .registered, since := s.responses.length }) j
  | refuse hc hp hclosed => exact course_of_end hc (.refuse hp hclosed) rfl rfl rfl rfl rfl rfl
  | @queue i c hc hp hwhole =>
    exact .turn hc (.queue hp hwhole) (getElem?_modified hc _) (slots_kept s c) (List.append_nil _).symm rfl rfl
      rfl
  | tooLong hc hp _ _ => exact course_of_end hc (.tooLong _ hp) rfl rfl rfl rfl rfl rfl
  | @holdWriter i c frame hc hp _ _ =>
    exact .turn hc (.holdWriter frame hp) (getElem?_modified hc _) (slots_kept s c) (List.append_nil _).symm rfl
      rfl rfl
  | @put i c rest count hc hp _ =>
    exact .turn hc (.put _ hp) (getElem?_modified hc _) (slots_kept s c) (List.append_nil _).symm rfl rfl rfl
  | @putLast i c rest count hc hp _ =>
    exact .turn hc (.putLast hp) (getElem?_modified hc _) (slots_kept s c) (List.append_nil _).symm rfl rfl rfl
  | @flush i c hc hp =>
    exact .turn hc (.flush hp) (getElem?_modified hc _) (slots_kept s c) rfl rfl rfl rfl
  | @failWrite i c fault hc hp =>
    obtain ⟨h₁, h₂, h₃, h₄, h₅, h₆⟩ := releaseWriter_rest s i
    exact course_of_end hc (.failWrite fault hp) h₁ h₂ h₃ h₄ h₅ h₆
  | wake hc hp hr => exact course_of_end hc (.wake hp hr) rfl rfl rfl rfl rfl rfl
  | giveUp hc hp hr hgone => exact course_of_end hc (.giveUp hp hr hgone) rfl rfl rfl rfl rfl rfl
  | @abandon i c hc hp =>
    obtain ⟨h₁, h₂, h₃, h₄, h₅, h₆⟩ := releaseWriter_rest s i
    exact course_of_end hc (.abandon hp) h₁ h₂ h₃ h₄ h₅ h₆
  | arrive piece => exact .aside rfl (fun _ => rfl) rfl rfl Iff.rfl
  | closeInput => exact .aside rfl (fun _ => rfl) rfl rfl Iff.rfl
  | @read payload inbox r hr _ _ =>
    obtain ⟨h₁, h₂, h₃, h₄⟩ := deliver_rest { s with inbox } r
    exact .hear hr (getElem?_deliver { s with inbox } r) (slot?_deliver { s with inbox } r) h₂ h₁ h₃ h₄
  | misread hr _ _ => exact .aside rfl (fun _ => rfl) rfl rfl (by simp [hr])
  | stop hr _ => exact .aside rfl (fun _ => rfl) rfl rfl (by simp [hr])
  | markClosed hs => exact .aside rfl (fun _ => rfl) rfl rfl (by simp [hs])
  | dropSlots hk => exact .drop hk rfl

/-- A step as one call sees it. -/
theorem turn_of_course {s next : Client} (h : s.Course next) {i : Nat} {c : ClientCall}
    (hc : s.calls[i]? = some c) : ∃ d, next.calls[i]? = some d ∧ (d = c ∨ (∃ o w, s.Turn i c d o w) ∨
      ∃ r, s.reader = .reading ∧ s.slot? r.seq = some i ∧ d = { c with reply := some r }) := by
  cases h with
  | make call state =>
    subst state
    exact ⟨c, getElem?_append_old hc _, .inl rfl⟩
  | @turn j c' d o w hc' ht calls _ _ _ _ _ =>
    by_cases hi : i = j
    · subst hi
      obtain rfl := Option.some.inj (hc.symm.trans hc')
      exact ⟨d, by rw [calls, if_pos rfl], .inr (.inl ⟨o, w, ht⟩)⟩
    · exact ⟨c, by rw [calls, if_neg hi, hc], .inl rfl⟩
  | @hear r reading calls _ _ _ _ _ =>
    have hi := calls i
    rw [hc, Option.map_some] at hi
    by_cases hs : s.slot? r.seq = some i
    · rw [if_pos hs] at hi
      exact ⟨_, hi, .inr (.inr ⟨r, reading, hs, rfl⟩)⟩
    · rw [if_neg hs] at hi
      exact ⟨c, hi, .inl rfl⟩
  | aside calls _ _ _ _ => exact ⟨c, by rw [calls, hc], .inl rfl⟩
  | drop _ state =>
    subst state
    exact ⟨c, hc, .inl rfl⟩

theorem step_register {s : Client} {i : Nat} {c : ClientCall} (hc : s.calls[i]? = some c)
    (hp : c.phase = .numbered) : s.step (.register i) = s.register i c := by
  simp [step, step?, Event.call?, hc, act, hp]

theorem getElem?_register {s : Client} {i : Nat} {c : ClientCall} (hc : s.calls[i]? = some c) :
    (s.register i c).calls[i]? = some { c with phase := .registered, since := s.responses.length } := by
  have hget := getElem?_modified hc (fun c => { c with phase := .registered, since := s.responses.length }) i
  rwa [if_pos rfl] at hget

/-! ## Results -/

theorem call_of_result? {s : Client} {i : Nat} {result : Except ClientFault Bytes}
    (h : s.result? i = some result) : ∃ c, s.calls[i]? = some c ∧ c.phase = .finished result := by
  rw [result?, phase?] at h
  rcases hc : s.calls[i]? with _ | c
  · rw [hc] at h
    cases h
  · refine ⟨c, rfl, ?_⟩
    rw [hc, Option.map_some] at h
    split at h
    case h_1 hp =>
      obtain rfl := Option.some.inj h
      exact Option.some.inj hp
    case h_2 => cases h

theorem result?_of_call {s : Client} {i : Nat} {c : ClientCall} {result : Except ClientFault Bytes}
    (hc : s.calls[i]? = some c) (hp : c.phase = .finished result) : s.result? i = some result := by
  simp only [result?, phase?, hc, Option.map_some, hp]

theorem result?_finish {s : Client} {i : Nat} {c : ClientCall} (hc : s.calls[i]? = some c)
    (result : Except ClientFault Bytes) : (s.finish i c result).result? i = some result := by
  have hcall := getElem?_modified hc (fun d => { d with phase := .finished result }) i
  rw [if_pos rfl] at hcall
  exact result?_of_call (s := s.finish i c result) hcall rfl

theorem result?_wake {s : Client} {i : Nat} {c : ClientCall} {r : Wire.Response} (hc : s.calls[i]? = some c)
    (hp : c.phase = .waiting) (hr : c.reply = some r) :
    (s.step (.wake i)).result? i = some (outcomeOf c.call r) := by
  have hstep : s.step (.wake i) = s.finish i c (outcomeOf c.call r) := by
    simp [step, step?, Event.call?, hc, act, hp, hr]
  rw [hstep]
  exact result?_finish hc _

theorem result?_giveUp {s : Client} {i : Nat} {c : ClientCall} (hc : s.calls[i]? = some c)
    (hp : c.phase = .waiting) (hr : c.reply = none) (hgone : s.slot? c.seq ≠ some i) :
    (s.step (.wake i)).result? i = some (.error .closed) := by
  have hstep : s.step (.wake i) = s.finish i c (.error .closed) := by
    simp [step, step?, Event.call?, hc, act, hp, hr, hgone]
  rw [hstep]
  exact result?_finish hc _

theorem result?_refuse {s : Client} {i : Nat} {c : ClientCall} (hc : s.calls[i]? = some c)
    (hp : c.phase = .registered) (hclosed : s.closed = true) :
    (s.step (.check i)).result? i = some (.error .closed) := by
  have hstep : s.step (.check i) = s.finish i c (.error .closed) := by
    simp [step, step?, Event.call?, hc, act, hp, hclosed]
  rw [hstep]
  exact result?_finish hc _

theorem result?_run {s : Client} {i : Nat} {result : Except ClientFault Bytes} (h : s.result? i = some result)
    (es : List Event) : (s.run es).result? i = some result := by
  refine run_preserves (P := fun t => t.result? i = some result) ?_ h es
  intro t e next ht hm
  obtain ⟨c, hc, hp⟩ := call_of_result? ht
  obtain ⟨d, hd, rfl | ⟨o, w, hturn⟩ | ⟨r, -, -, rfl⟩⟩ := turn_of_course (course_of_moves hm) hc
  · exact result?_of_call hd hp
  · have hover := hturn.not_over
    rw [hp] at hover
    cases hover
  · exact result?_of_call hd hp

end SshAuthority.Connection.Client

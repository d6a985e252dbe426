import Mathlib.Data.List.Induction
import SshAuthority.Proofs.Connection.Delivery
/-!
# The table of slots

Which calls have an entry in the table of slots is told by what has happened: those that registered one and that
have not ended since, got no response under their number since, and were not there when the slots were dropped.
-/
namespace SshAuthority.Connection.Client

variable {s next : Client} {i j : Nat} {n : UInt64} {c : ClientCall} {e : Event} {es : List Event}

/-! ## What a step does to the table -/

/-- What a step can do to the table of slots. -/
inductive Retables (s : Client) (e : Event) (next : Client) : Prop where
  | keep (pending : next.pending = s.pending) (responses : next.responses = s.responses)
    (drops : e = .dropSlots → s.reader ≠ .marked)
  | register {i : Nat} {c : ClientCall} (event : e = .register i) (call : s.calls[i]? = some c)
    (phase : c.phase = .numbered) (pending : next.pending = (s.withoutSlot c.seq).pending ++ [(c.seq, i)])
    (responses : next.responses = s.responses)
  | release {i : Nat} {c d : ClientCall} (event : e.call? = some i) (call : s.calls[i]? = some c)
    (ended : next.calls[i]? = some d) (final : d.phase.isOver = true)
    (pending : next.pending = (s.withoutSlot c.seq).pending) (responses : next.responses = s.responses)
  | answer {r : Wire.Response} (event : e = .read) (pending : next.pending = (s.withoutSlot r.seq).pending)
    (responses : next.responses = s.responses ++ [r])
  | drain (event : e = .dropSlots) (marked : s.reader = .marked) (pending : next.pending = [])
    (responses : next.responses = s.responses)

theorem pending_deliver (s : Client) (r : Wire.Response) : (s.deliver r).pending = (s.withoutSlot r.seq).pending := by
  rcases hslot : s.slot? r.seq with _ | i
  · rw [deliver_of_no_slot hslot]
    refine (List.filter_eq_self.mpr fun x hx => ?_).symm
    have hne := bne_iff_ne.mp (List.lookup_eq_none_iff.mp hslot x hx)
    simpa using Ne.symm hne
  · rw [deliver_of_slot hslot]
    rfl

private theorem retables_end {t : Client} {p : CallPhase} (he : e.call? = some i) (hc : s.calls[i]? = some c)
    (hp : p.isOver = true) (hcalls : t.calls = s.calls) (hpending : t.pending = s.pending)
    (hresponses : t.responses = s.responses) : s.Retables e ((t.withoutSlot c.seq).enter i p) := by
  have hget := getElem?_modified (hcalls ▸ hc) (fun c => { c with phase := p }) i
  rw [if_pos rfl] at hget
  refine .release he hc hget hp ?_ hresponses
  show (t.withoutSlot c.seq).pending = _
  rw [withoutSlot, hpending]
  rfl

theorem retables_of_moves (hm : s.Moves e next) : s.Retables e next := by
  cases hm with
  | register hc hp => exact .register rfl hc hp rfl rfl
  | refuse hc _ _ | tooLong hc _ _ _ | wake hc _ _ | giveUp hc _ _ _ =>
    exact retables_end rfl hc rfl rfl rfl rfl
  | @failWrite i c _ hc _ | @abandon i c hc _ =>
    obtain ⟨hcalls, hpending, -, hresponses, -⟩ := releaseWriter_rest s i
    exact retables_end rfl hc rfl hcalls hpending hresponses
  | @read payload inbox r _ _ _ =>
    exact .answer rfl (pending_deliver { s with inbox } r) (deliver_rest { s with inbox } r).1
  | dropSlots hmarked => exact .drain rfl hmarked rfl rfl
  | _ => exact .keep rfl rfl (by simp)

theorem retables_step (s : Client) (e : Event) : s.Retables e (s.step e) := by
  rcases hs : s.step? e with _ | next
  · have hstep : s.step e = s := by rw [step, hs, Option.getD_none]
    refine .keep (by rw [hstep]) (by rw [hstep]) ?_
    rintro rfl hmarked
    simp [step?, hmarked] at hs
  · have hstep : s.step e = next := by rw [step, hs, Option.getD_some]
    rw [hstep]
    exact retables_of_moves (moves_of_step? hs)

/-! ## Whose the entries are -/

/-- Every call has a number of its own, every number has one entry, and an entry is of the call that waits for a
response under its number. -/
structure Tabled (s : Client) : Prop where
  distinct : s.Distinct
  keys : (s.pending.map Prod.fst).Nodup
  owned : ∀ {n : UInt64} {i : Nat}, (n, i) ∈ s.pending → ∃ c, s.calls[i]? = some c ∧ c.seq = n ∧ c.awaits

theorem mem_withoutSlot {m : UInt64} : (n, i) ∈ (s.withoutSlot m).pending ↔ (n, i) ∈ s.pending ∧ n ≠ m := by
  simp [withoutSlot]

theorem mem_register (hc : s.calls[i]? = some c) (hp : c.phase = .numbered) :
    (c.seq, i) ∈ (s.step (.register i)).pending := by
  rw [step_register hc hp]
  exact List.mem_append_right _ List.mem_cons_self

private theorem keys_withoutSlot (h : (s.pending.map Prod.fst).Nodup) (m : UInt64) :
    ((s.withoutSlot m).pending.map Prod.fst).Nodup :=
  h.sublist (List.filter_sublist.map Prod.fst)

theorem keys_step (h : (s.pending.map Prod.fst).Nodup) (e : Event) : ((s.step e).pending.map Prod.fst).Nodup := by
  cases retables_step s e with
  | keep pending _ _ => rwa [pending]
  | @register i c _ _ _ pending _ =>
    rw [pending, List.map_append]
    refine nodup_append_new (keys_withoutSlot h c.seq) ?_
    simp [withoutSlot]
  | release _ _ _ _ pending _ | answer _ pending _ =>
    rw [pending]
    exact keys_withoutSlot h _
  | drain _ _ pending _ =>
    rw [pending]
    exact List.nodup_nil

theorem keys_run (h : (s.pending.map Prod.fst).Nodup) (es : List Event) :
    ((s.run es).pending.map Prod.fst).Nodup := by
  induction es generalizing s with
  | nil => exact h
  | cons e es ih => exact ih (keys_step h e)

theorem slot?_of_mem (h : (s.pending.map Prod.fst).Nodup) (hm : (n, i) ∈ s.pending) : s.slot? n = some i := by
  obtain ⟨before, after, hsplit⟩ := List.append_of_mem hm
  refine List.lookup_eq_some_iff.mpr ⟨before, after, hsplit, fun x hx => ?_⟩
  rw [hsplit, List.map_append, List.nodup_append] at h
  exact bne_iff_ne.mpr (Ne.symm (h.2.2 x.1 (List.mem_map_of_mem hx) n (by simp)))

theorem Tabled.run (h : (es.filterMap Event.made?).length < 2 ^ 64) : (new.run es).Tabled := by
  have hkeys : ((new.run es).pending.map Prod.fst).Nodup := keys_run (s := new) List.nodup_nil es
  exact ⟨distinct_run h, hkeys, fun hm => (Orderly.run h).owned (slot?_of_mem hkeys hm)⟩

/-- Nothing happens to a call at an event that takes its entry away: it does not end, no response under its number
is read, and the slots are not dropped. -/
structure Spares (s : Client) (e : Event) (i : Nat) (n : UInt64) : Prop where
  live : ∃ d, (s.step e).calls[i]? = some d ∧ d.phase.isOver = false
  unanswered : ∀ r ∈ (s.step e).responses.drop s.responses.length, r.seq ≠ n
  undrained : e = .dropSlots → s.reader ≠ .marked

namespace Tabled

theorem call_of_mem (h : s.Tabled) (hc : s.calls[i]? = some c) (hm : (c.seq, j) ∈ s.pending) : j = i ∧ c.awaits := by
  obtain ⟨d, hd, hseq, hw⟩ := h.owned hm
  obtain rfl := h.distinct hd hc hseq
  obtain rfl := Option.some.inj (hd.symm.trans hc)
  exact ⟨rfl, hw⟩

theorem mem_withoutSlot_of_ne (h : s.Tabled) (hc : s.calls[i]? = some c) (hj : j ≠ i) (hm : (n, j) ∈ s.pending) :
    (n, j) ∈ (s.withoutSlot c.seq).pending := by
  refine mem_withoutSlot.mpr ⟨hm, ?_⟩
  rintro rfl
  exact hj (h.call_of_mem hc hm).1

/-- What a call does leaves the entries of the other calls alone. -/
theorem others_step (h : s.Tabled) (he : e.call? = some i) (hj : j ≠ i) :
    (n, j) ∈ (s.step e).pending ↔ (n, j) ∈ s.pending := by
  cases retables_step s e with
  | keep pending _ _ => rw [pending]
  | @register i' c event call _ pending _ =>
    subst event
    obtain rfl := Option.some.inj he
    rw [pending, List.mem_append]
    constructor
    · rintro (hm | hm)
      · exact (mem_withoutSlot.mp hm).1
      · exact absurd (Prod.mk.inj (List.mem_singleton.mp hm)).2 hj
    · exact fun hm => .inl (h.mem_withoutSlot_of_ne call hj hm)
  | release event call _ _ pending _ =>
    obtain rfl := Option.some.inj (event.symm.trans he)
    rw [pending]
    exact ⟨fun hm => (mem_withoutSlot.mp hm).1, h.mem_withoutSlot_of_ne call hj⟩
  | answer event _ _ =>
    subst event
    cases he
  | drain event _ _ _ =>
    subst event
    cases he

private theorem spares_of_mem (h : (s.step e).Tabled) (hm : (n, i) ∈ (s.step e).pending)
    (hquiet : ∀ r ∈ (s.step e).responses.drop s.responses.length, r.seq ≠ n)
    (hdrops : e = .dropSlots → s.reader ≠ .marked) : s.Spares e i n := by
  obtain ⟨d, hd, -, hw⟩ := h.owned hm
  exact ⟨⟨d, hd, ClientCall.not_over_of_awaits hw⟩, hquiet, hdrops⟩

theorem mem_of_mem_step (h : (s.step e).Tabled) (hm : (n, i) ∈ (s.step e).pending) :
    (e = .register i ∧ ∃ c, s.calls[i]? = some c ∧ c.phase = .numbered ∧ c.seq = n) ∨
      ((n, i) ∈ s.pending ∧ s.Spares e i n) := by
  have hspares := h.spares_of_mem hm
  have hsame : (s.step e).responses = s.responses → ∀ r ∈ (s.step e).responses.drop s.responses.length, r.seq ≠ n := by
    intro hr
    rw [hr, List.drop_length]
    simp
  cases retables_step s e with
  | keep pending responses drops =>
    rw [pending] at hm
    exact .inr ⟨hm, hspares (hsame responses) drops⟩
  | @register j c event call phase pending responses =>
    subst event
    rw [pending] at hm
    rcases List.mem_append.mp hm with hm | hm
    · exact .inr ⟨(mem_withoutSlot.mp hm).1, hspares (hsame responses) (by simp)⟩
    · obtain ⟨rfl, rfl⟩ := Prod.mk.inj (List.mem_singleton.mp hm)
      exact .inl ⟨rfl, c, call, phase, rfl⟩
  | release event _ _ _ pending responses =>
    rw [pending] at hm
    refine .inr ⟨(mem_withoutSlot.mp hm).1, hspares (hsame responses) ?_⟩
    rintro rfl
    cases event
  | @answer r event pending responses =>
    subst event
    rw [pending] at hm
    obtain ⟨hold, hne⟩ := mem_withoutSlot.mp hm
    refine .inr ⟨hold, hspares ?_ (by simp)⟩
    rw [responses, List.drop_left]
    simpa using Ne.symm hne
  | drain _ _ pending _ =>
    rw [pending] at hm
    cases hm

theorem mem_step_of_spares (h : s.Tabled) (hm : (n, i) ∈ s.pending) (hs : s.Spares e i n) :
    (n, i) ∈ (s.step e).pending := by
  cases retables_step s e with
  | keep pending _ _ => rwa [pending]
  | @register j c _ call phase pending _ =>
    rw [pending]
    refine List.mem_append_left _ (mem_withoutSlot.mpr ⟨hm, ?_⟩)
    rintro rfl
    have hw := (h.call_of_mem call hm).2
    simp [ClientCall.awaits, phase] at hw
  | @release j c d _ call ended final pending _ =>
    rw [pending]
    refine h.mem_withoutSlot_of_ne call ?_ hm
    rintro rfl
    obtain ⟨d', hd', hlive⟩ := hs.live
    obtain rfl := Option.some.inj (ended.symm.trans hd')
    rw [final] at hlive
    cases hlive
  | @answer r _ pending responses =>
    have hun := hs.unanswered r
    rw [responses, List.drop_left] at hun
    rw [pending]
    exact mem_withoutSlot.mpr ⟨hm, Ne.symm (hun List.mem_cons_self)⟩
  | drain event marked _ _ => exact absurd marked (hs.undrained event)

end Tabled

/-! ## What has happened to a call -/

/-- After these events a call has the slot that it registered at one of them: it is not over, and since then no
response under its number was read and the slots were not dropped. -/
structure Outstanding (events : List Event) (i : Nat) (c : ClientCall) : Prop where
  call : (new.run events).calls[i]? = some c
  live : c.phase.isOver = false
  since : ∃ before after, events = before ++ .register i :: after ∧ (new.run before).phase? i = some .numbered ∧
    (∀ r ∈ (new.run events).responses.drop (new.run before).responses.length, r.seq ≠ c.seq) ∧
    ∀ middle later, after = middle ++ .dropSlots :: later → (new.run (before ++ .register i :: middle)).reader ≠ .marked

/-- A call keeps its number, and when it is over it stays so. -/
theorem call_run (hc : s.calls[i]? = some c) (es : List Event) :
    ∃ d, (s.run es).calls[i]? = some d ∧ d.seq = c.seq ∧ (c.phase.isOver = true → d.phase.isOver = true) := by
  refine run_preserves (P := fun t => ∃ d, t.calls[i]? = some d ∧ d.seq = c.seq ∧
    (c.phase.isOver = true → d.phase.isOver = true)) ?_ ⟨c, hc, rfl, id⟩ es
  rintro t e next ⟨d, hd, hseq, hover⟩ hm
  obtain ⟨d', hd', rfl | ⟨o, w, ht⟩ | ⟨r, -, -, rfl⟩⟩ := turn_of_course (course_of_moves hm) hd
  · exact ⟨_, hd', hseq, hover⟩
  · refine ⟨d', hd', (congrArg Wire.Request.seq ht.request).trans hseq, fun hc => ?_⟩
    have hlive := ht.not_over
    rw [hover hc] at hlive
    cases hlive
  · exact ⟨_, hd', hseq, hover⟩

theorem run_snoc (s : Client) (es : List Event) (e : Event) : s.run (es ++ [e]) = (s.run es).step e :=
  run_append s es [e]

namespace Outstanding

variable {d : ClientCall}

theorem registered (hd : (new.run (es ++ [.register i])).calls[i]? = some d)
    (hp : (new.run es).phase? i = some .numbered) : Outstanding (es ++ [.register i]) i d := by
  obtain ⟨c, hc, hphase⟩ := Option.map_eq_some_iff.mp hp
  have hcall := hd
  rw [run_snoc, step_register hc hphase, getElem?_register hc] at hcall
  obtain rfl := Option.some.inj hcall
  refine ⟨hd, rfl, es, [], rfl, hp, ?_, by simp⟩
  rw [run_snoc, step_register hc hphase]
  simp [register, withoutSlot]

theorem spared (h : Outstanding es i c) (hd : (new.run (es ++ [e])).calls[i]? = some d)
    (hs : (new.run es).Spares e i c.seq) : Outstanding (es ++ [e]) i d := by
  obtain ⟨d', hd', hseq, -⟩ := call_run h.call [e]
  obtain ⟨more, hmore⟩ := responses_run (new.run es) [e]
  rw [← run_append] at hd' hmore
  obtain rfl := Option.some.inj (hd.symm.trans hd')
  obtain ⟨before, after, hes, hp, hun, hdrop⟩ := h.since
  obtain ⟨d', hlive, hnot⟩ := hs.live
  rw [← run_snoc] at hlive
  obtain rfl := Option.some.inj (hd.symm.trans hlive)
  refine ⟨hd, hnot, before, after ++ [e], by simp [hes], hp, fun r hr => ?_, fun middle later hsplit => ?_⟩
  · rw [← hmore, List.drop_append] at hr
    rw [hseq]
    rcases List.mem_append.mp hr with hr | hr
    · exact hun r hr
    · refine hs.unanswered r ?_
      rw [← run_snoc, ← hmore, List.drop_left]
      exact List.mem_of_mem_drop hr
  · rcases split_append_new hsplit with ⟨-, rfl, he⟩ | ⟨later, -, hafter⟩
    · rw [← hes]
      exact hs.undrained he
    · exact hdrop middle later hafter

theorem cases_snoc (h : Outstanding (es ++ [e]) i d) : (e = .register i ∧ (new.run es).phase? i = some .numbered) ∨
    ∃ c, Outstanding es i c ∧ c.seq = d.seq ∧ (new.run es).Spares e i c.seq := by
  obtain ⟨before, after, hes, hp, hun, hdrop⟩ := h.since
  rcases split_append_new hes with ⟨-, rfl, he⟩ | ⟨after, rfl, rfl⟩
  · exact .inl ⟨he, hp⟩
  obtain ⟨b, hb, -⟩ := Option.map_eq_some_iff.mp hp
  obtain ⟨c, hc, -, -⟩ := call_run hb (.register i :: after)
  rw [← run_append] at hc
  obtain ⟨d', hd', hseq, hover⟩ := call_run hc [e]
  rw [← run_append] at hd'
  obtain rfl := Option.some.inj (h.call.symm.trans hd')
  obtain ⟨early, hearly⟩ := responses_run (new.run before) (.register i :: after)
  obtain ⟨more, hmore⟩ := responses_run (new.run (before ++ .register i :: after)) [e]
  rw [← run_append] at hearly hmore
  have hlive : c.phase.isOver = false := by
    refine Bool.eq_false_iff.mpr fun hc => ?_
    have hnot := h.live
    rw [hover hc] at hnot
    cases hnot
  refine .inr ⟨c, ⟨hc, hlive, before, after, rfl, hp, fun r hr => ?_, fun middle later hsplit => ?_⟩, hseq.symm,
    ⟨d, by rw [← run_snoc]; exact h.call, h.live⟩, fun r hr => ?_, ?_⟩
  · rw [← hseq]
    refine hun r ?_
    rw [← hmore, List.drop_append]
    exact List.mem_append_left _ hr
  · refine hdrop middle (later ++ [e]) ?_
    simp [hsplit]
  · rw [← run_snoc] at hr
    rw [← hseq]
    refine hun r (List.drop_subset_drop_left _ ?_ hr)
    rw [← hearly, List.length_append]
    exact Nat.le_add_right _ _
  · rintro rfl
    exact hdrop after [] rfl

end Outstanding

/-- The entries of the table are those of the calls that have the slot they registered. -/
theorem mem_pending_run (h : (es.filterMap Event.made?).length < 2 ^ 64) :
    (n, i) ∈ (new.run es).pending ↔ ∃ c, Outstanding es i c ∧ c.seq = n := by
  induction es using List.reverseRecOn generalizing n i with
  | nil =>
    constructor
    · intro hm
      cases hm
    · rintro ⟨c, hc, -⟩
      obtain ⟨before, after, hsplit, -⟩ := hc.since
      simp at hsplit
  | append_singleton es e ih =>
    have hprefix : (es.filterMap Event.made?).length < 2 ^ 64 := by
      rw [List.filterMap_append, List.length_append] at h
      omega
    have hnext : ∀ {c : ClientCall}, (new.run es).calls[i]? = some c →
        ∃ d, (new.run (es ++ [e])).calls[i]? = some d ∧ d.seq = c.seq := by
      intro c hc
      obtain ⟨d, hd, hseq, -⟩ := call_run hc [e]
      exact ⟨d, by rw [run_append]; exact hd, hseq⟩
    constructor
    · intro hm
      have htabled := Tabled.run h
      rw [run_snoc] at hm htabled
      rcases htabled.mem_of_mem_step hm with ⟨rfl, c, hc, hp, rfl⟩ | ⟨hm, hs⟩
      · obtain ⟨d, hd, hseq⟩ := hnext hc
        exact ⟨d, .registered hd (by rw [phase?, hc, Option.map_some, hp]), hseq⟩
      · obtain ⟨c, hc, rfl⟩ := (ih hprefix).mp hm
        obtain ⟨d, hd, hseq⟩ := hnext hc.call
        exact ⟨d, hc.spared hd hs, hseq⟩
    · rintro ⟨d, hd, rfl⟩
      rw [run_snoc]
      rcases hd.cases_snoc with ⟨rfl, hp⟩ | ⟨c, hc, hseq, hs⟩
      · obtain ⟨c, hc, hphase⟩ := Option.map_eq_some_iff.mp hp
        obtain ⟨d', hd', hseq⟩ := hnext hc
        obtain rfl := Option.some.inj (hd.call.symm.trans hd')
        rw [hseq]
        exact mem_register hc hphase
      · rw [← hseq]
        exact (Tabled.run hprefix).mem_step_of_spares ((ih hprefix).mpr ⟨c, hc, rfl⟩) hs

theorem pending_of_isIdle (h : (es.filterMap Event.made?).length < 2 ^ 64) (hidle : (new.run es).isIdle = true) :
    (new.run es).pending = [] := by
  refine List.eq_nil_iff_forall_not_mem.mpr ?_
  rintro ⟨n, i⟩ hm
  obtain ⟨c, hc, -⟩ := (mem_pending_run h).mp hm
  have hover := List.all_eq_true.mp hidle c (List.mem_of_getElem? hc.call)
  rw [hc.live] at hover
  cases hover

/-- However the steps are put in order, an entry of the table is there exactly as long as its call has the slot that
it registered. No two calls share a number or an entry, none takes the entry of another one away, and when every call
is over there is no entry left. -/
theorem table_is_exact (events : List Event) (h : (events.filterMap Event.made?).length < 2 ^ 64) :
    (∀ n i, (n, i) ∈ (new.run events).pending ↔ ∃ c, Outstanding events i c ∧ c.seq = n) ∧
    ((new.run events).pending.map Prod.fst).Nodup ∧ (new.run events).Distinct ∧
    (∀ e i, e.call? = some i → ∀ n j, j ≠ i →
      ((n, j) ∈ ((new.run events).step e).pending ↔ (n, j) ∈ (new.run events).pending)) ∧
    ((new.run events).isIdle = true → (new.run events).pending = []) :=
  ⟨fun _ _ => mem_pending_run h, (Tabled.run h).keys, (Tabled.run h).distinct,
    fun _ _ he _ _ hj => (Tabled.run h).others_step he hj, pending_of_isIdle h⟩

/-- Of five calls one is answered, one is abandoned while it waits for the writer, one waits, one only has its slot
and one only its number. -/
private def sampleTable : List Event :=
  let begin (i : Nat) : List Event := [.make .publicKey, .register i]
  let send (i : Nat) : List Event := [.check i, .holdWriter i, .put i 100, .flush i]
  let reply : Wire.Response := ⟨1, .ok (.publicKey [5])⟩
  begin 0 ++ send 0 ++ begin 1 ++ [.check 1, .abandon 1] ++ begin 2 ++ send 2 ++ begin 3 ++
    [.make .publicKey, .arrive ((Wire.Frame.write reply.encode).toOption.getD []), .read]

theorem table_is_exact_for_five : (sampleTable.filterMap Event.made?).length < 2 ^ 64 ∧
    (new.run sampleTable).pending = [(3, 2), (4, 3)] ∧
    (∀ n i, (∃ c, Outstanding sampleTable i c ∧ c.seq = n) ↔ (n, i) ∈ [((3 : UInt64), 2), (4, 3)]) ∧
    (4, 3) ∈ ((new.run sampleTable).step (.abandon 2)).pending := by
  have hmade : (sampleTable.filterMap Event.made?).length < 2 ^ 64 := by decide +kernel
  have hpending : (new.run sampleTable).pending = [(3, 2), (4, 3)] := by decide +kernel
  obtain ⟨hexact, -, -, hothers, -⟩ := table_is_exact sampleTable hmade
  refine ⟨hmade, hpending, fun n i => ?_, ?_⟩
  · rw [← hpending]
    exact (hexact n i).symm
  · refine (hothers (.abandon 2) 2 rfl 4 3 (by decide)).mpr ?_
    rw [hpending]
    simp

end SshAuthority.Connection.Client

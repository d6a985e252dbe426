import SshAuthority.Proofs.Connection.Record
import SshAuthority.Proofs.Connection.Replies
/-!
# Delivery of replies

What a call gets from the peer is what the first response under its number says that was read after its
slot was registered. A response without a slot changes nothing, a reply of the other method is told to the
call that it was for, and a reply that was read before the connection ended is not lost to a call whose
writing succeeded.
-/
namespace SshAuthority

namespace Wire

def Reply.method : Reply → Method
  | .publicKey _ => .publicKey
  | .signed _ => .sign

/-- Whether a response to a call is a reply of the other method. -/
def Response.IsForeign (r : Response) (call : Call) : Prop :=
  ∃ reply, r.result = .ok reply ∧ reply.method ≠ call.method

end Wire

namespace Connection

theorem outcomeOf_foreign_iff (call : Wire.Call) (r : Wire.Response) (method : Wire.Method) :
    outcomeOf call r = .error (.unexpectedReply method) ↔ r.IsForeign call ∧ method = call.method := by
  obtain ⟨seq, result⟩ := r
  cases result with
  | err failure =>
    have hnot : ClientFault.ofFailure failure ≠ .unexpectedReply method := by
      unfold ClientFault.ofFailure
      split <;> simp
    simp [outcomeOf, resultOf, Wire.Response.IsForeign, Except.bind, hnot]
  | ok reply =>
    cases call <;> cases reply <;> cases method <;>
      simp [outcomeOf, resultOf, Wire.Response.IsForeign, Except.bind, keyOf, certificateOf, Wire.Reply.method,
        Wire.Call.method]

namespace Client

/-! ## First responses -/

/-- Response `m` of those that were read is the first one for a call since its slot was registered. -/
structure FirstFor (s : Client) (i : Nat) (c : ClientCall) (m : Nat) (r : Wire.Response) : Prop where
  call : s.calls[i]? = some c
  registered : c.phase ≠ .numbered
  response : s.responses[m]? = some r
  number : r.seq = c.seq
  since : c.since ≤ m
  first : ∀ {k : Nat} {q : Wire.Response}, c.since ≤ k → k < m → s.responses[k]? = some q → q.seq ≠ c.seq

variable {s : Client} {i j : Nat} {c d : ClientCall} {m : Nat} {r q : Wire.Response}

theorem exists_firstFor_iff (hc : s.calls[i]? = some c) (hp : c.phase ≠ .numbered) :
    (∃ m, s.FirstFor i c m r) ↔ s.first? c = some r := by
  rw [first?, find?_drop_eq_some]
  constructor
  · rintro ⟨m, h⟩
    refine ⟨m, h.since, h.response, by simpa using h.number, fun k q hs hk hq => ?_⟩
    simpa using h.first hs hk hq
  · rintro ⟨m, hs, hm, hn, hfirst⟩
    refine ⟨m, hc, hp, hm, by simpa using hn, hs, fun hs hk hq => ?_⟩
    simpa using hfirst _ _ hs hk hq

theorem FirstFor.unique (h : s.FirstFor i c m r) (h' : s.FirstFor j d m q) (hd : s.Distinct) : i = j := by
  have hrq : r = q := Option.some.inj (h.response.symm.trans h'.response)
  have hseq : c.seq = d.seq := by rw [← h.number, ← h'.number, hrq]
  exact hd h.call h'.call hseq

/-! ## Later -/

theorem registered_run (hc : s.calls[i]? = some c) (hp : c.phase ≠ .numbered) (es : List Event) :
    ∃ d, (s.run es).calls[i]? = some d ∧ d.phase ≠ .numbered ∧ d.request = c.request ∧ d.since = c.since := by
  refine run_preserves (P := fun t => ∃ d, t.calls[i]? = some d ∧ d.phase ≠ .numbered ∧
    d.request = c.request ∧ d.since = c.since) ?_ ⟨c, hc, hp, rfl, rfl⟩ es
  rintro t e next ⟨d, hd, hp, hreq, hsince⟩ hm
  obtain ⟨d', hd', rfl | ⟨o, w, ht⟩ | ⟨q, -, -, rfl⟩⟩ := turn_of_course (course_of_moves hm) hd
  · exact ⟨_, hd', hp, hreq, hsince⟩
  · exact ⟨d', hd', ht.not_numbered, ht.request.trans hreq, (ht.since hp).trans hsince⟩
  · exact ⟨_, hd', hp, hreq, hsince⟩

theorem responses_run (s : Client) (es : List Event) : s.responses <+: (s.run es).responses := by
  refine run_preserves (P := fun t => s.responses <+: t.responses) ?_ (List.prefix_refl _) es
  intro t e next h hm
  cases course_of_moves hm with
  | make call state =>
    subst state
    exact h
  | turn _ _ _ _ _ responses _ _ => rwa [responses]
  | hear _ _ _ _ responses _ _ =>
    rw [responses]
    exact h.trans (List.prefix_append _ _)
  | aside _ _ _ responses _ => rwa [responses]
  | drop _ state =>
    subst state
    exact h

theorem FirstFor.run (h : s.FirstFor i c m r) (es : List Event) :
    ∃ d, (s.run es).FirstFor i d m r ∧ d.request = c.request := by
  obtain ⟨d, hd, hp, hreq, hsince⟩ := registered_run h.call h.registered es
  have hseq : d.seq = c.seq := congrArg Wire.Request.seq hreq
  have hold : ∀ k, k ≤ m → (s.run es).responses[k]? = s.responses[k]? := by
    intro k hk
    obtain ⟨more, hmore⟩ := responses_run s es
    have hm := (List.getElem?_eq_some_iff.mp h.response).1
    rw [← hmore, List.getElem?_append_left (by omega)]
  refine ⟨d, ⟨hd, hp, ?_, ?_, ?_, ?_⟩, hreq⟩
  · rw [hold m (Nat.le_refl m), h.response]
  · rw [hseq, h.number]
  · rw [hsince]
    exact h.since
  · intro k q hk hkm hq
    rw [hsince] at hk
    rw [hold k (Nat.le_of_lt hkm)] at hq
    rw [hseq]
    exact h.first hk hkm hq

/-! ## Delivery -/

/-- What the calls of a client have from the responses that were read. -/
structure Delivers (s : Client) : Prop where
  /-- What is not the call's own fault is what the first response for it says. -/
  first : ∀ {i : Nat} {result : Except ClientFault Bytes}, s.result? i = some result →
    result = .error .closed ∨ (∃ fault, result = .error (.codec fault)) ∨
      ∃ c m r, s.FirstFor i c m r ∧ result = outcomeOf c.call r
  once : ∀ {i j m : Nat} {c d : ClientCall} {r q : Wire.Response}, s.FirstFor i c m r → s.FirstFor j d m q → i = j
  lasting : ∀ {i m : Nat} {c : ClientCall} {r : Wire.Response}, s.FirstFor i c m r → ∀ later,
    ∃ d, (s.run later).FirstFor i d m r ∧ d.request = c.request
  /-- Whoever is told of a reply of the other method was given one. -/
  foreign : ∀ {i : Nat} {method : Wire.Method}, s.result? i = some (.error (.unexpectedReply method)) →
    ∃ c m r, s.FirstFor i c m r ∧ r.IsForeign c.call ∧ method = c.call.method
  told : ∀ {i m : Nat} {c : ClientCall} {r : Wire.Response}, s.FirstFor i c m r → r.IsForeign c.call →
    outcomeOf c.call r = .error (.unexpectedReply c.call.method)
  alone : ∀ {payload : Bytes} {inbox : Inbox} {r : Wire.Response}, s.reader = .reading →
    s.inbox.next = .frame payload inbox → Wire.Response.decode payload = .ok r → ∀ j,
    s.slot? r.seq ≠ some j → (s.step .read).calls[j]? = s.calls[j]?
  unheard : ∀ {payload : Bytes} {inbox : Inbox} {r : Wire.Response}, s.reader = .reading →
    s.inbox.next = .frame payload inbox → Wire.Response.decode payload = .ok r → s.slot? r.seq = none →
    ∀ later i, ((s.step .read).run later).result? i = (({ s with inbox } : Client).run later).result? i
  /-- Whose writing succeeded and who was not abandoned has what the first response for it says, or has it as soon
  as it looks. -/
  kept : ∀ {i m : Nat} {c : ClientCall} {r : Wire.Response}, s.FirstFor i c m r → c.request ∈ s.flushed →
    c.phase ≠ .abandoned → s.result? i = some (outcomeOf c.call r) ∨
      (c.phase = .waiting ∧ (s.step (.wake i)).result? i = some (outcomeOf c.call r))

theorem getElem?_deliver_of_ne (h : s.slot? r.seq ≠ some j) : (s.deliver r).calls[j]? = s.calls[j]? := by
  rw [getElem?_deliver]
  simp only [if_neg h]
  exact Option.map_id'

namespace Orderly

theorem heard (h : s.Orderly) {result : Except ClientFault Bytes} (hr : s.result? i = some result) :
    result = .error .closed ∨ (∃ fault, result = .error (.codec fault)) ∨
      ∃ c m r, s.FirstFor i c m r ∧ result = outcomeOf c.call r := by
  obtain ⟨c, hc, hp⟩ := call_of_result? hr
  have hstands := h.stands hc
  rw [ClientCall.Stands, hp] at hstands
  rcases hstands with ⟨r, -, hfirst, hout⟩ | ⟨hclosed, -⟩ | ⟨hcodec, -⟩
  · obtain ⟨m, hm⟩ := (exists_firstFor_iff hc (by rw [hp]; simp)).mpr hfirst
    exact .inr (.inr ⟨c, m, r, hm, hout⟩)
  · exact .inl hclosed
  · exact .inr (.inl hcodec)

theorem remembered (h : s.Orderly) (hf : s.FirstFor i c m r) (hw : c.request ∈ s.flushed) (ha : c.phase ≠ .abandoned) :
    s.result? i = some (outcomeOf c.call r) ∨
      (c.phase = .waiting ∧ (s.step (.wake i)).result? i = some (outcomeOf c.call r)) := by
  have hfirst : s.first? c = some r := (exists_firstFor_iff hf.call hf.registered).mp ⟨m, hf⟩
  have hstands := h.stands hf.call
  rw [hfirst] at hstands
  cases hp : c.phase with
  | numbered => exact absurd hp hf.registered
  | registered | queued | writing rest | flushing =>
    rw [ClientCall.Stands, hp] at hstands
    exact absurd hw hstands.2
  | waiting =>
    rw [ClientCall.Stands, hp] at hstands
    exact .inr ⟨rfl, result?_wake hf.call hp hstands.1⟩
  | finished result =>
    rw [ClientCall.Stands, hp] at hstands
    rcases hstands with ⟨q, -, hq, hout⟩ | ⟨-, hnone⟩ | ⟨-, hnot⟩
    · obtain rfl := Option.some.inj hq
      rw [← hout]
      exact .inl (result?_of_call hf.call hp)
    · cases (hnone hw).2
    · exact absurd hw hnot
  | abandoned => exact absurd hp ha

theorem delivers (h : s.Orderly) (hd : s.Distinct) : s.Delivers where
  first := h.heard
  once hf hf' := hf.unique hf' hd
  lasting := FirstFor.run
  foreign hr := by
    rcases h.heard hr with hclosed | ⟨fault, hcodec⟩ | ⟨c, m, r, hf, hout⟩
    · cases hclosed
    · cases hcodec
    · obtain ⟨hforeign, hmethod⟩ := (outcomeOf_foreign_iff c.call r _).mp hout.symm
      exact ⟨c, m, r, hf, hforeign, hmethod⟩
  told _ hforeign := (outcomeOf_foreign_iff _ _ _).mpr ⟨hforeign, rfl⟩
  alone hreading hframe hr j hj := by
    rw [step_read hreading hframe hr]
    exact getElem?_deliver_of_ne hj
  unheard := result?_of_no_slot
  kept := h.remembered

end Orderly

theorem since_of_register (before after : List Event) (hp : (new.run before).phase? i = some .numbered) :
    ∃ c, (new.run (before ++ .register i :: after)).calls[i]? = some c ∧
      c.since = (new.run before).responses.length := by
  obtain ⟨c, hc, hphase⟩ := Option.map_eq_some_iff.mp hp
  obtain ⟨d, hd, -, -, hsince⟩ := registered_run (getElem?_register hc) (by simp) after
  rw [run_append, run_cons, step_register hc hphase]
  exact ⟨d, hd, hsince⟩

/-- Whatever the peer sends and however the steps are put in order, replies reach their own callers. -/
theorem replies_reach_their_callers (events : List Event) (h : (events.filterMap Event.made?).length < 2 ^ 64) :
    (new.run events).Delivers ∧
      ∀ before i after, events = before ++ .register i :: after → (new.run before).phase? i = some .numbered →
        ∃ c, (new.run events).calls[i]? = some c ∧ c.since = (new.run before).responses.length := by
  refine ⟨(Orderly.run h).delivers (distinct_run h), ?_⟩
  rintro before i after rfl hp
  exact since_of_register before after hp

/-- What a peer sends to three calls for its key: a certificate, a reply to no call, and a key twice. -/
private def sampleReplies : List Wire.Response :=
  [⟨3, .ok (.signed [1])⟩, ⟨9, .ok (.publicKey [2])⟩, ⟨1, .ok (.publicKey [5])⟩, ⟨1, .ok (.publicKey [6])⟩,
    ⟨2, .ok (.publicKey [7])⟩]

/-- The second call is abandoned, and the others look for their replies after the connection has ended. -/
private def sampleCalls : List Event :=
  let calls : List Event := [0, 1, 2].flatMap fun i =>
    [.make .publicKey, .register i, .check i, .holdWriter i, .put i 100, .flush i]
  let replies : List Event := sampleReplies.map fun r => .arrive ((Wire.Frame.write r.encode).toOption.getD [])
  calls ++ [.abandon 1] ++ replies ++ [.closeInput] ++ List.replicate 6 .read ++
    [.markClosed, .dropSlots, .wake 2, .wake 0]

private def unexpected? : Option (Except ClientFault Bytes) → Option Wire.Method
  | some (.error (.unexpectedReply method)) => some method
  | _ => none

theorem replies_reach_three_callers : (sampleCalls.filterMap Event.made?).length < 2 ^ 64 ∧
    (new.run sampleCalls).responses = sampleReplies ∧
    ((new.run sampleCalls).result? 0).bind Except.toOption = some [5] ∧
    unexpected? ((new.run sampleCalls).result? 2) = some .publicKey ∧
    (new.run sampleCalls).Delivers := by
  have hmade : (sampleCalls.filterMap Event.made?).length < 2 ^ 64 := by decide +kernel
  exact ⟨hmade, by decide +kernel, by decide +kernel, by decide +kernel, (replies_reach_their_callers sampleCalls hmade).1⟩

end Client

end Connection

end SshAuthority

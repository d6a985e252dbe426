import SshAuthority.Connection.Client
import SshAuthority.Proofs.Authority.Step
import SshAuthority.Proofs.Connection.ServerStep
import SshAuthority.Proofs.Wire.Message
/-!
# Requests and responses of a connection

A connection without its bytes: the calls of the client, the requests that were written, their handlers,
and the responses that were put into the queue. Beside it stands what happened, told by the calls: whose
requests were written, whose responses were given, and for whom the service was asked to sign. What each
call gets is then its own answer.
-/
namespace SshAuthority.Connection
open Authority

def Issued (call : Wire.Call) : Prop := call = .publicKey ∨ ∃ r : SignRequest, call = .sign (.ofRequest r)

theorem issued_iff {call : Wire.Call} :
    Issued call ↔ call = .publicKey ∨ (Server.signRequest? call).isSome := by
  refine or_congr_right ⟨?_, fun h => ?_⟩
  · rintro ⟨r, rfl⟩
    rw [Server.signRequest?, Wire.SignArgs.request_ofRequest]
    rfl
  · cases call with
    | publicKey => cases h
    | sign args =>
      rcases hr : args.request with fault | r
      · rw [Server.signRequest?, hr] at h
        cases h
      · exact ⟨r, congrArg Wire.Call.sign (Wire.SignArgs.eq_ofRequest hr)⟩

instance (call : Wire.Call) : Decidable (Issued call) := decidable_of_iff _ issued_iff.symm

def ClientCall.isSent (c : ClientCall) : Bool :=
  match c.phase with
  | .flushing | .waiting | .finished _ | .abandoned => true
  | .numbered | .registered | .queued | .writing _ => false

structure Exchange where
  calls : List ClientCall
  written : List Wire.Request
  heard : Nat
  handlers : List Handler
  out : List Wire.Response
  session : Session

/-- What happened in an exchange, told by the calls. -/
structure History where
  /-- Whose requests were written, in order. -/
  order : List Nat
  /-- Whose responses were put into the queue, in order. -/
  back : List Nat
  /-- For whom the service was asked to sign, in order; none where it was not for a call. -/
  ledger : List (Option Nat)

/-- For whom an event of the service's own asks it to sign: for no call of the connection. -/
def outside : Session.Event → List (Option Nat)
  | .request _ => [none]
  | _ => []

namespace Exchange

variable {start : Session} {v : Exchange} {g : History}

/-- A result that answers a call: the key of the service, or what came of the one signature that was asked
for the call. -/
def Answers (start session : Session) (ledger : List (Option Nat)) (i : Nat) (call : Wire.Call)
    (result : Wire.Result) : Prop :=
  (call = .publicKey ∧ result = .ok (.publicKey start.service.identity.key.bytes)) ∨
    ∃ r n signed, call = .sign (.ofRequest r) ∧ ledger[n]? = some (some i) ∧
      session.result? (start.calls.length + n) = some signed ∧
      result = Service.respond start.service.identity.key call fun _ => signed

/-- How far the handler of a call has come. -/
def Handled (start session : Session) (ledger : List (Option Nat)) (i : Nat) (call : Wire.Call) :
    HandlerPhase → Prop
  | .dispatched => some i ∉ ledger
  | .signing j => ∃ n, j = start.calls.length + n ∧ ledger[n]? = some (some i)
  | .answered result => Answers start session ledger i call result
  | .done => True

/-- Whose requests were written follows from how far the calls have come. -/
structure Ordered (calls : List ClientCall) (written : List Wire.Request) (order : List Nat) : Prop where
  nodup : order.Nodup
  mem : ∀ {i : Nat}, i ∈ order ↔ ∃ c, calls[i]? = some c ∧ c.isSent
  written : written.map some = order.map fun i => (calls[i]?).map (·.request)

/-- What the service was asked for is what the handlers asked it for. -/
structure Billed (start : Session) (v : Exchange) (g : History) : Prop where
  once : ∀ i : Nat, g.ledger.count (some i) ≤ 1
  mem : ∀ {i : Nat}, some i ∈ g.ledger → ∃ (k : Nat) (h : Handler), g.order[k]? = some i ∧
    v.handlers[k]? = some h ∧ h.phase ≠ .dispatched
  request : ∀ {n i : Nat}, g.ledger[n]? = some (some i) → ∃ c r, v.calls[i]? = some c ∧
    c.call = .sign (.ofRequest r) ∧ (v.session.calls[start.calls.length + n]?).map (·.request) = some r
  length : v.session.calls.length = start.calls.length + g.ledger.length
  service : v.session.service = start.service

/-- Requests, handlers, responses and replies belong to the calls that the history tells. -/
structure Matched (start : Session) (v : Exchange) (g : History) : Prop where
  issued : ∀ c ∈ v.calls, Issued c.call
  ordered : Ordered v.calls v.written g.order
  handlers : ∀ {k : Nat} {h : Handler}, v.handlers[k]? = some h → ∃ i c, g.order[k]? = some i ∧
    v.calls[i]? = some c ∧ h.request = c.request ∧ Handled start v.session g.ledger i c.call h.phase
  back_nodup : g.back.Nodup
  back_mem : ∀ {i : Nat}, i ∈ g.back ↔ ∃ (k : Nat) (h : Handler), g.order[k]? = some i ∧
    v.handlers[k]? = some h ∧ h.phase = .done
  out_length : v.out.length = g.back.length
  out : ∀ {m i : Nat}, g.back[m]? = some i → ∃ c r, v.calls[i]? = some c ∧ v.out[m]? = some r ∧
    r.seq = c.seq ∧ Answers start v.session g.ledger i c.call r.result
  heard_le : v.heard ≤ v.out.length
  replies : ∀ {i : Nat} {c : ClientCall}, v.calls[i]? = some c → (c.reply.isSome ↔ i ∈ g.back.take v.heard)
  replied : ∀ {i : Nat} {c : ClientCall} {r : Wire.Response}, v.calls[i]? = some c → c.reply = some r →
    Answers start v.session g.ledger i c.call r.result
  billed : Billed start v g

/-! ## What stays true -/

/-- A later state of a session and of who it was asked for, as far as answers are concerned. -/
structure Later (session : Session) (ledger : List (Option Nat)) (next : Session) (more : List (Option Nat)) :
    Prop where
  ledger : ledger <+: more
  results : ∀ {j signed}, session.result? j = some signed → next.result? j = some signed

variable {session next : Session} {ledger more : List (Option Nat)} {i : Nat} {call : Wire.Call}

theorem Later.refl (session : Session) (ledger : List (Option Nat)) : Later session ledger session ledger :=
  ⟨List.prefix_refl _, id⟩

theorem Later.getElem? (hl : Later session ledger next more) {n : Nat} {o : Option Nat}
    (hn : ledger[n]? = some o) : more[n]? = some o := by
  obtain ⟨l, hm⟩ := hl.ledger
  rw [← hm]
  exact getElem?_append_old hn l

theorem Answers.later {result : Wire.Result} (ha : Answers start session ledger i call result)
    (hl : Later session ledger next more) : Answers start next more i call result := by
  rcases ha with ha | ⟨r, n, signed, hc, hn, hs, hr⟩
  · exact .inl ha
  · exact .inr ⟨r, n, signed, hc, hl.getElem? hn, hl.results hs, hr⟩

theorem Handled.later {p : HandlerPhase} (hp : Handled start session ledger i call p)
    (hl : Later session ledger next more) (hn : p = .dispatched → some i ∉ more) :
    Handled start next more i call p := by
  cases p with
  | dispatched => exact hn rfl
  | signing j =>
    obtain ⟨n, hj, hn⟩ := hp
    exact ⟨n, hj, hl.getElem? hn⟩
  | answered result => exact Answers.later hp hl
  | done => trivial

namespace Matched

theorem lt_of_handler (h : Matched start v g) {k : Nat} {hd : Handler} (hk : v.handlers[k]? = some hd) :
    k < g.order.length := by
  obtain ⟨i, c, hi, -⟩ := h.handlers hk
  exact (List.getElem?_eq_some_iff.mp hi).1

theorem mem_order_of_back (h : Matched start v g) {i : Nat} (hi : i ∈ g.back) : i ∈ g.order := by
  obtain ⟨k, hd, ho, -⟩ := h.back_mem.mp hi
  exact List.mem_of_getElem? ho

theorem lt_of_mem_order (h : Matched start v g) {i : Nat} (hi : i ∈ g.order) : i < v.calls.length := by
  obtain ⟨c, hc, -⟩ := h.ordered.mem.mp hi
  exact (List.getElem?_eq_some_iff.mp hc).1

theorem handler_unique (h : Matched start v g) {k l i : Nat} (hk : g.order[k]? = some i)
    (hl : g.order[l]? = some i) : k = l :=
  (List.getElem?_inj (List.getElem?_eq_some_iff.mp hk).1 h.ordered.nodup).mp (hk.trans hl.symm)

theorem call_of_written (h : Matched start v g) {k : Nat} {r : Wire.Request} (hr : v.written[k]? = some r) :
    ∃ i c, g.order[k]? = some i ∧ v.calls[i]? = some c ∧ r = c.request := by
  have hk := congrArg (·[k]?) h.ordered.written
  simp only [List.getElem?_map, hr, Option.map_some] at hk
  obtain ⟨i, hi, hc⟩ := Option.map_eq_some_iff.mp hk.symm
  obtain ⟨c, hc, hr⟩ := Option.map_eq_some_iff.mp hc
  exact ⟨i, c, hi, hc, hr.symm⟩

theorem initial (session : Session) : Matched session ⟨[], [], 0, [], [], session⟩ ⟨[], [], []⟩ := by
  refine ⟨?_, ⟨?_, ?_, ?_⟩, ?_, ?_, ?_, ?_, ?_, ?_, ?_, ?_, ⟨?_, ?_, ?_, ?_, ?_⟩⟩ <;> simp

/-! ## Calls -/

private theorem calls_change (h : Matched start v g) {calls : List ClientCall} {written : List Wire.Request}
    {more : List Nat} {heard : Nat} (ho : Ordered calls written (g.order ++ more))
    (hold : ∀ {i : Nat} {c : ClientCall}, v.calls[i]? = some c → ∃ d, calls[i]? = some d ∧
      d.request = c.request)
    (hissued : ∀ c ∈ calls, Issued c.call) (hheard : heard ≤ v.out.length)
    (hreplies : ∀ {i : Nat} {c : ClientCall}, calls[i]? = some c →
      (c.reply.isSome ↔ i ∈ g.back.take heard))
    (hreplied : ∀ {i : Nat} {c : ClientCall} {r : Wire.Response}, calls[i]? = some c → c.reply = some r →
      Answers start v.session g.ledger i c.call r.result) :
    Matched start { v with calls, written, heard } { g with order := g.order ++ more } := by
  have hcall : ∀ {c d : ClientCall}, d.request = c.request → d.call = c.call :=
    fun he => congrArg Wire.Request.call he
  have horder : ∀ {k : Nat} {hd : Handler}, v.handlers[k]? = some hd → (g.order ++ more)[k]? = g.order[k]? :=
    fun hk => List.getElem?_append_left (h.lt_of_handler hk)
  constructor
  case issued => exact hissued
  case ordered => exact ho
  case handlers =>
    intro k hd hk
    obtain ⟨i, c, hi, hc, hreq, hp⟩ := h.handlers hk
    obtain ⟨d, hd, hr⟩ := hold hc
    refine ⟨i, d, (horder hk).trans hi, hd, by rw [hr, hreq], ?_⟩
    rw [hcall hr]
    exact hp.later ⟨List.prefix_refl _, id⟩ fun hdisp => by rw [hdisp] at hp; exact hp
  case back_nodup => exact h.back_nodup
  case back_mem =>
    intro i
    rw [h.back_mem]
    constructor
    · rintro ⟨k, hd, hi, hk, hp⟩
      exact ⟨k, hd, (horder hk).trans hi, hk, hp⟩
    · rintro ⟨k, hd, hi, hk, hp⟩
      exact ⟨k, hd, (horder hk).symm.trans hi, hk, hp⟩
  case out_length => exact h.out_length
  case out =>
    intro m i hm
    obtain ⟨c, r, hc, hr, hseq, ha⟩ := h.out hm
    obtain ⟨d, hd, hreq⟩ := hold hc
    have hs : d.seq = c.seq := congrArg Wire.Request.seq hreq
    exact ⟨d, r, hd, hr, by rw [hseq, hs], by rw [hcall hreq]; exact ha⟩
  case heard_le => exact hheard
  case replies => exact hreplies
  case replied => exact hreplied
  case billed =>
    refine ⟨h.billed.once, fun hi => ?_, fun hn => ?_, h.billed.length, h.billed.service⟩
    · obtain ⟨k, hd, ho, hk, hp⟩ := h.billed.mem hi
      exact ⟨k, hd, (horder hk).trans ho, hk, hp⟩
    · obtain ⟨c, r, hc, hcl, hr⟩ := h.billed.request hn
      obtain ⟨d, hd, hreq⟩ := hold hc
      exact ⟨d, r, hd, by rw [hcall hreq, hcl], hr⟩

theorem make (h : Matched start v g) {c : ClientCall} (hc : Issued c.call) (hs : c.isSent = false)
    (hr : c.reply = none) : Matched start { v with calls := v.calls ++ [c] } g := by
  have ho : Ordered (v.calls ++ [c]) v.written (g.order ++ []) := by
    rw [List.append_nil]
    refine ⟨h.ordered.nodup, fun {i} => ?_, ?_⟩
    · rw [h.ordered.mem]
      constructor
      · rintro ⟨d, hd, hsent⟩
        exact ⟨d, getElem?_append_old hd _, hsent⟩
      · rintro ⟨d, hd, hsent⟩
        rcases getElem?_append_new hd with hd | ⟨-, rfl⟩
        · exact ⟨d, hd, hsent⟩
        · rw [hs] at hsent
          cases hsent
    · rw [h.ordered.written]
      apply List.map_congr_left
      intro i hi
      rw [List.getElem?_append_left (h.lt_of_mem_order hi)]
  have hm := h.calls_change ho (fun hd => ⟨_, getElem?_append_old hd _, rfl⟩) ?_ h.heard_le ?_ ?_
  · rwa [List.append_nil] at hm
  · intro d hd
    rcases List.mem_append.mp hd with hd | hd
    · exact h.issued d hd
    · rwa [List.mem_singleton.mp hd]
  · intro i d hd
    rcases getElem?_append_new hd with hd | ⟨hi, rfl⟩
    · exact h.replies hd
    · have hb : i ∉ g.back.take v.heard := by
        intro hb
        have hlt := h.lt_of_mem_order (h.mem_order_of_back (List.mem_of_mem_take hb))
        omega
      simp [hr, hb]
  · intro i d r hd hrep
    rcases getElem?_append_new hd with hd | ⟨-, rfl⟩
    · exact h.replied hd hrep
    · rw [hr] at hrep
      cases hrep

private theorem modified {i : Nat} {c : ClientCall} {f : ClientCall → ClientCall}
    (hc : v.calls[i]? = some c) (hreq : (f c).request = c.request) :
    (∀ j : Nat, (v.calls.modify i f)[j]? = if j = i then some (f c) else v.calls[j]?) ∧
      (∀ j : Nat, ((v.calls.modify i f)[j]?).map (·.request) = (v.calls[j]?).map (·.request)) := by
  have hget := getElem?_modified hc f
  refine ⟨hget, fun j => ?_⟩
  rw [hget]
  by_cases hj : j = i
  · subst hj
    simp [hc, hreq]
  · rw [if_neg hj]

private theorem call_change (h : Matched start v g) {i : Nat} {c : ClientCall} (hc : v.calls[i]? = some c)
    {f : ClientCall → ClientCall} (hreq : (f c).request = c.request) {written : List Wire.Request}
    {more : List Nat} {heard : Nat} (ho : Ordered (v.calls.modify i f) written (g.order ++ more))
    (hheard : heard ≤ v.out.length)
    (hback : ∀ {j : Nat}, j ≠ i → (j ∈ g.back.take heard ↔ j ∈ g.back.take v.heard))
    (hreply : (f c).reply.isSome ↔ i ∈ g.back.take heard)
    (hanswers : ∀ {r : Wire.Response}, (f c).reply = some r → Answers start v.session g.ledger i c.call r.result) :
    Matched start { v with calls := v.calls.modify i f, written, heard }
      { g with order := g.order ++ more } := by
  obtain ⟨hget, hmap⟩ := modified hc hreq
  have hcall : (f c).call = c.call := congrArg Wire.Request.call hreq
  refine h.calls_change ho ?_ ?_ hheard ?_ ?_
  · intro j d hd
    have hj := hmap j
    rw [hd] at hj
    obtain ⟨e, he, hr⟩ := Option.map_eq_some_iff.mp hj
    exact ⟨e, he, hr⟩
  · intro d hd
    obtain ⟨j, hj⟩ := List.getElem?_of_mem hd
    rw [hget] at hj
    split at hj
    · obtain rfl := Option.some.inj hj
      rw [hcall]
      exact h.issued c (List.mem_of_getElem? hc)
    · exact h.issued d (List.mem_of_getElem? hj)
  · intro j d hd
    rw [hget] at hd
    split at hd
    case isTrue hj =>
      obtain rfl := Option.some.inj hd
      rw [hj]
      exact hreply
    case isFalse hj =>
      rw [h.replies hd]
      exact (hback hj).symm
  · intro j d r hd hr
    rw [hget] at hd
    split at hd
    case isTrue hj =>
      obtain rfl := Option.some.inj hd
      rw [hj, hcall]
      exact hanswers hr
    case isFalse => exact h.replied hd hr

private theorem ordered_modified (h : Matched start v g) {i : Nat} {c : ClientCall}
    (hc : v.calls[i]? = some c) {f : ClientCall → ClientCall} (hreq : (f c).request = c.request)
    (hs : (f c).isSent = c.isSent) : Ordered (v.calls.modify i f) v.written (g.order ++ []) := by
  obtain ⟨hget, hmap⟩ := modified hc hreq
  rw [List.append_nil]
  refine ⟨h.ordered.nodup, fun {j} => ?_, ?_⟩
  · rw [h.ordered.mem, hget]
    by_cases hj : j = i
    · subst hj
      simp [hc, hs]
    · rw [if_neg hj]
  · rw [h.ordered.written]
    apply List.map_congr_left
    intro j _
    exact (hmap j).symm

theorem advance (h : Matched start v g) {i : Nat} {c : ClientCall} (hc : v.calls[i]? = some c)
    {f : ClientCall → ClientCall} (hreq : (f c).request = c.request) (hrep : (f c).reply = c.reply)
    (hs : (f c).isSent = c.isSent) : Matched start { v with calls := v.calls.modify i f } g := by
  have hm := h.call_change hc hreq (h.ordered_modified hc hreq hs) h.heard_le (fun _ => Iff.rfl)
    (by rw [hrep]; exact h.replies hc) (fun hr => h.replied hc (hrep ▸ hr))
  rwa [List.append_nil] at hm

theorem send (h : Matched start v g) {i : Nat} {c : ClientCall} (hc : v.calls[i]? = some c)
    (hn : c.isSent = false) {f : ClientCall → ClientCall} (hreq : (f c).request = c.request)
    (hrep : (f c).reply = c.reply) (hs : (f c).isSent) :
    Matched start { v with calls := v.calls.modify i f, written := v.written ++ [c.request] }
      { g with order := g.order ++ [i] } := by
  obtain ⟨hget, hmap⟩ := modified hc hreq
  have hi : i ∉ g.order := by
    intro hi
    obtain ⟨d, hd, hsent⟩ := h.ordered.mem.mp hi
    obtain rfl := Option.some.inj (hc.symm.trans hd)
    rw [hn] at hsent
    cases hsent
  refine h.call_change hc hreq ⟨?_, fun {j} => ?_, ?_⟩ h.heard_le (fun _ => Iff.rfl)
    (by rw [hrep]; exact h.replies hc) (fun hr => h.replied hc (hrep ▸ hr))
  · exact nodup_append_new h.ordered.nodup hi
  · rw [List.mem_append, List.mem_singleton, h.ordered.mem, hget]
    by_cases hj : j = i
    · simp [hj, hs]
    · simp [hj]
  · rw [List.map_append, List.map_append, h.ordered.written]
    congr 1
    · apply List.map_congr_left
      intro j _
      exact (hmap j).symm
    · simp [hmap, hc]

theorem deliver (h : Matched start v g) {i : Nat} {r : Wire.Response} (hb : g.back[v.heard]? = some i)
    (hr : v.out[v.heard]? = some r) {f : ClientCall → ClientCall}
    (hf : ∀ c, (f c).request = c.request ∧ (f c).reply = some r ∧ (f c).isSent = c.isSent) :
    Matched start { v with calls := v.calls.modify i f, heard := v.heard + 1 } g := by
  obtain ⟨c, r', hc, hr', -, ha⟩ := h.out hb
  obtain rfl := Option.some.inj (hr.symm.trans hr')
  obtain ⟨hreq, hrep, hs⟩ := hf c
  have htake : g.back.take (v.heard + 1) = g.back.take v.heard ++ [i] := by
    rw [List.take_add_one, hb]
    rfl
  have hm : Matched start { v with calls := v.calls.modify i f, heard := v.heard + 1 }
      { g with order := g.order ++ [] } := by
    refine h.call_change hc hreq (h.ordered_modified hc hreq hs) (List.getElem?_eq_some_iff.mp hr).1 ?_ ?_ ?_
    · intro j hj
      simp [htake, hj]
    · simp [htake, hrep]
    · intro r' hr'
      obtain rfl := Option.some.inj (hrep.symm.trans hr')
      exact ha
  rwa [List.append_nil] at hm

/-- The call that the next response is for has no reply, and its request was written. -/
theorem next_reply (h : Matched start v g) {r : Wire.Response} (hr : v.out[v.heard]? = some r) :
    ∃ i c, g.back[v.heard]? = some i ∧ v.calls[i]? = some c ∧ c.isSent ∧ c.reply = none ∧ r.seq = c.seq := by
  have hlt := (List.getElem?_eq_some_iff.mp hr).1
  rw [h.out_length] at hlt
  have hb := List.getElem?_eq_getElem hlt
  obtain ⟨c, r', hc, hr', hseq, -⟩ := h.out hb
  obtain rfl := Option.some.inj (hr.symm.trans hr')
  obtain ⟨d, hd, hsent⟩ := h.ordered.mem.mp (h.mem_order_of_back (List.mem_of_getElem? hb))
  obtain rfl := Option.some.inj (hc.symm.trans hd)
  have hnot : g.back[v.heard] ∉ g.back.take v.heard := by
    intro hm
    obtain ⟨k, hk⟩ := List.getElem?_of_mem hm
    have hkl : k < v.heard := by
      have := (List.getElem?_eq_some_iff.mp hk).1
      rw [List.length_take] at this
      omega
    rw [List.getElem?_take_of_lt hkl] at hk
    have he := (List.getElem?_inj hlt h.back_nodup).mp (hb.trans hk.symm)
    omega
  have hn : c.reply = none := by
    rcases hrep : c.reply with _ | r'
    · rfl
    · exact absurd ((h.replies hc).mp (by rw [hrep]; rfl)) hnot
  exact ⟨_, c, hb, hc, hsent, hn, hseq⟩

end Matched

end Exchange

end SshAuthority.Connection

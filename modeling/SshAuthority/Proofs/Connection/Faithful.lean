import SshAuthority.Proofs.Connection.Progress
/-!
# A service at the other end

What a client gets over a connection that nothing disturbs is what it would get from the service itself,
in whatever order the parts of the connection take their steps. A ledger tells for whom the service was
asked to sign, in the order in which it was asked.
-/
namespace SshAuthority.Connection
open Authority

/-! ## What a response comes to -/

theorem outcomeOf_key (n : UInt64) (key : Bytes) :
    outcomeOf .publicKey ⟨n, .ok (.publicKey key)⟩ = .ok key := rfl

/-- The outcome of a signature reaches a caller as it was, a fault as what the client makes of its report. -/
theorem outcomeOf_respond (n : UInt64) (key : PublicKey) (r : SignRequest)
    (signed : Except ServiceFault Bytes) :
    outcomeOf (.sign (.ofRequest r)) ⟨n, Service.respond key (.sign (.ofRequest r)) fun _ => signed⟩ =
      signed.mapError fun fault => .ofFailure fault.failure := by
  simp only [Service.respond, Wire.SignArgs.request_ofRequest]
  cases signed <;> rfl

namespace Link

/-! ## Runs -/

def Event.isDirect : Event → Bool
  | .server (.service (.request _)) => true
  | _ => false

def ledger (s : Link) : List Event → List (Option Nat)
  | [] => []
  | e :: events => s.asks e ++ (s.step e).ledger events

namespace Sound

variable {start : Session} {s : Link} {g : History}

private theorem count_asks (h : Sound start s g) (e : Event) :
    (s.asks e).count none = if e.isDirect then 1 else 0 := by
  cases e with
  | server e =>
    cases e with
    | service e => cases e <;> rfl
    | dispatch k =>
      simp only [asks]
      split
      case h_1 request hk =>
        obtain ⟨i, -, hslot⟩ := h.slot_of_handler hk (by simp)
        split
        · rw [hslot]
          rfl
        · rfl
      case h_2 => rfl
    | _ => rfl
  | _ => rfl

/-- A run that nothing disturbs leaves a connection sound. -/
theorem run (h : Sound start s g) {events : List Event} (hr : s.RunsFreely events) :
    ∃ g', Sound start (s.run events) g' ∧ g'.ledger = g.ledger ++ s.ledger events ∧
      (s.ledger events).count none = events.countP Event.isDirect := by
  induction events generalizing s g with
  | nil => exact ⟨g, h, (List.append_nil _).symm, rfl⟩
  | cons e events ih =>
    obtain ⟨g₁, h₁, hl₁⟩ := h.step hr.1
    obtain ⟨g₂, h₂, hl₂, hc⟩ := ih h₁ hr.2
    refine ⟨g₂, h₂, ?_, ?_⟩
    · rw [hl₂, hl₁, List.append_assoc]
      rfl
    · rw [ledger, List.count_append, hc, h.count_asks, List.countP_cons, Nat.add_comm]

end Sound

/-! ## What a client gets -/

/-- What a client has got from a service that had come to `start`, where the ledger tells for whom it was
asked to sign since. -/
structure AsService (start : Session) (s : Link) (ledger : List (Option Nat)) : Prop where
  /-- The service was asked for nothing but what the ledger tells. -/
  complete : s.server.session.calls.length = start.calls.length + ledger.length
  once : ∀ i : Nat, ledger.count (some i) ≤ 1
  request : ∀ {n i : Nat}, ledger[n]? = some (some i) → ∃ r : SignRequest,
    (s.client.calls.map (·.call))[i]? = some (.sign (.ofRequest r)) ∧
      (s.server.session.calls.map (·.request))[start.calls.length + n]? = some r
  signed : ∀ {i : Nat} {r : SignRequest} {result : Except ClientFault Bytes},
    (s.client.calls.map (·.call))[i]? = some (.sign (.ofRequest r)) → s.client.result? i = some result →
      ledger.count (some i) = 1 ∧ ∃ (n : Nat) (signed : Except ServiceFault Bytes),
        ledger[n]? = some (some i) ∧
          s.server.session.result? (start.calls.length + n) = some signed ∧
          result = signed.mapError fun fault => .ofFailure fault.failure
  key : ∀ {i : Nat} {result : Except ClientFault Bytes},
    (s.client.calls.map (·.call))[i]? = some .publicKey → s.client.result? i = some result →
      result = .ok start.service.identity.key.bytes
  /-- From wherever they are, all calls for the key can come to their results, if the responses fit into frames. -/
  completes : (∀ r ∈ s.client.calls.map (·.request), r.call = .publicKey →
      (keyResponse start r).encode.length ≤ Wire.maxPayload) →
    ∃ more, s.RunsFreely more ∧ more.filterMap Event.made? = [] ∧ ∀ {i : Nat},
      (s.client.calls.map (·.call))[i]? = some .publicKey →
        (s.run more).client.result? i = some (.ok start.service.identity.key.bytes)

/-- A call that is over came to what its response says, and the response answers it. -/
private theorem Sound.answered {start : Session} {s : Link} {g : History} (h : Sound start s g) {i : Nat}
    {call : Wire.Call} {result : Except ClientFault Bytes}
    (hc : (s.client.calls.map (·.call))[i]? = some call) (hr : s.client.result? i = some result) :
    ∃ r, result = outcomeOf call r ∧
      Exchange.Answers start s.server.session g.ledger i call r.result := by
  rw [List.getElem?_map] at hc
  obtain ⟨c, hi, hcall⟩ := Option.map_eq_some_iff.mp hc
  have hp : c.phase = .finished result := by
    simp only [Client.result?, Client.phase?, hi, Option.map_some] at hr
    split at hr
    case h_1 hp => rw [Option.some.inj hp, Option.some.inj hr]
    case h_2 => cases hr
  obtain ⟨r, hrep, hp'⟩ := h.slotted.ended hi (by rw [hp]; rfl)
  have ha := h.matched.replied hi hrep
  rw [hp, hcall] at hp'
  rw [hcall] at ha
  exact ⟨r, CallPhase.finished.inj hp', ha⟩

private theorem Sound.key_result {start : Session} {s : Link} {g : History} (h : Sound start s g) {i : Nat}
    {result : Except ClientFault Bytes} (hc : (s.client.calls.map (·.call))[i]? = some .publicKey)
    (hr : s.client.result? i = some result) : result = .ok start.service.identity.key.bytes := by
  obtain ⟨⟨seq, _⟩, rfl, ha⟩ := h.answered hc hr
  rcases ha with ⟨-, rfl⟩ | ⟨r, n, signed, hs, -⟩
  · exact outcomeOf_key seq _
  · cases hs

private theorem Sound.asService {start : Session} {s : Link} {g : History} (h : Sound start s g) :
    AsService start s g.ledger := by
  constructor
  case complete => exact h.matched.billed.length
  case once => exact h.matched.billed.once
  case request =>
    intro n i hn
    obtain ⟨c, r, hc, hs, hr⟩ := h.matched.billed.request hn
    have hc' : s.client.calls[i]? = some c := hc
    exact ⟨r, by rw [List.getElem?_map, hc', Option.map_some, hs], by rw [List.getElem?_map]; exact hr⟩
  case signed =>
    intro i r result hc hr
    obtain ⟨resp, rfl, ha⟩ := h.answered hc hr
    rcases ha with ⟨hk, -⟩ | ⟨r', n, signed, -, hn, hs, hresult⟩
    · cases hk
    · have hpos : 0 < g.ledger.count (some i) := List.count_pos_iff.mpr (List.mem_of_getElem? hn)
      have hle := h.matched.billed.once i
      refine ⟨by omega, n, signed, hn, hs, ?_⟩
      obtain ⟨seq, result⟩ := resp
      obtain rfl := hresult
      exact outcomeOf_respond seq _ r signed
  case key => exact h.key_result
  case completes =>
    intro hfit
    obtain ⟨more, hfree, hquiet, hdone⟩ := h.exists_completion hfit
    obtain ⟨g', h', -⟩ := h.run hfree
    have hcalls : (s.run more).client.calls.map (·.call) = s.client.calls.map (·.call) := by
      have hrequests := congrArg (List.map Wire.Request.call) (requests_run s more).1
      rwa [hquiet, Client.numbered, List.append_nil, List.map_map, List.map_map] at hrequests
    refine ⟨more, hfree, hquiet, fun {i} hc => ?_⟩
    rw [← hcalls] at hc
    obtain ⟨c, hi, hkey⟩ := Option.map_eq_some_iff.mp (List.getElem?_map ▸ hc)
    obtain ⟨result, hr⟩ := Option.isSome_iff_exists.mp (hdone i c hi hkey)
    rw [hr, h'.key_result hc hr]

/-- However the steps of client, reader, handlers, writer and service are put in order, calls over a
connection that nothing disturbs are answered as the service answers, and each asks it once at most. -/
theorem answers_as_service (start : Session) (events : List Event) (h : (new start).RunsFreely events) :
    AsService start ((new start).run events) ((new start).ledger events) ∧
      ((new start).ledger events).count none = events.countP Event.isDirect ∧
      ((new start).run events).client.calls.map (·.call) = events.filterMap Event.made? := by
  obtain ⟨g, hs, hl, hc⟩ := (Sound.initial start).run h
  have hl' : g.ledger = (new start).ledger events := hl
  refine ⟨?_, hc, ?_⟩
  · rw [← hl']
    exact hs.asService
  · have hcalls := congrArg (List.map (·.call)) (requests_run (new start) events).1
    rw [List.map_map] at hcalls
    exact hcalls.trans (Client.numbered_calls 1 _)

private def sampleStart : Session := .new ⟨⟨Utf8.encode "ca", sampleKey⟩, false⟩

/-- A call for the key that overtakes one for a signature, and another one whose request is being written at the
end. -/
private def sampleRun : List Event :=
  let opening : List Event := [.client (.make (.sign (.ofRequest ⟨"alice", .user, ["alice"], sampleKey⟩))),
    .client (.make .publicKey), .client (.register 1), .client (.register 0), .client (.check 1), .client (.check 0),
    .client (.holdWriter 1), .client (.put 1 9), .client (.put 1 100), .carry 30, .client (.flush 1),
    .client (.holdWriter 0), .carry 30, .client (.put 0 400), .client (.flush 0), .carry 400, .server .read, .server .read]
  let signing : List Session.Event := [.announce 0, .makeDirectory 0 (.ok [1]), .stage 0 (.ok ()),
    .holdConsole 0, .start 0]
  let signed : List Session.Event := [.finish 0 ⟨none, .ok [7]⟩, .readCertificate 0, .removeDirectory 0]
  opening ++ [.server (.dispatch 1)] ++ signing.map (fun e => .server (.service e)) ++
    [.server (.dispatch 0), .server (.enqueue 0), .client (.make .publicKey), .server .dequeue, .server (.put 500),
      .client (.register 2), .bringBack 20, .bringBack 500, .client .read, .client (.wake 1)] ++
    signed.map (fun e => .server (.service e)) ++
    [.server (.collect 1), .server (.enqueue 1), .server .dequeue, .client (.check 2), .server (.put 400),
      .bringBack 400, .client (.holdWriter 2), .client .read, .client (.put 2 10), .client (.wake 0)]

theorem answers_keys_and_a_signature : (new sampleStart).RunsFreely sampleRun ∧
    (((new sampleStart).run sampleRun).client.result? 0).bind Except.toOption = some [7] ∧
    (((new sampleStart).run sampleRun).client.result? 1).bind Except.toOption = some sampleKey.bytes ∧
    AsService sampleStart ((new sampleStart).run sampleRun) ((new sampleStart).ledger sampleRun) ∧
    ∃ more, (((new sampleStart).run sampleRun).run more).client.result? 2 = some (.ok sampleKey.bytes) := by
  have hruns : (new sampleStart).RunsFreely sampleRun ∧
      (((new sampleStart).run sampleRun).client.result? 0).bind Except.toOption = some [7] ∧
      (((new sampleStart).run sampleRun).client.result? 1).bind Except.toOption = some sampleKey.bytes := by decide +kernel
  obtain ⟨hr, hsigned, hkey⟩ := hruns
  obtain ⟨hservice, -, hcalls⟩ := answers_as_service sampleStart sampleRun hr
  refine ⟨hr, hsigned, hkey, hservice, ?_⟩
  have hfit : ∀ r ∈ ((new sampleStart).run sampleRun).client.calls.map (·.request), r.call = .publicKey →
      (keyResponse sampleStart r).encode.length ≤ Wire.maxPayload := by
    rw [(requests_run (new sampleStart) sampleRun).1]
    decide +kernel
  obtain ⟨more, -, -, hdone⟩ := hservice.completes hfit
  exact ⟨more, hdone (by rw [hcalls]; rfl)⟩

end Link

end SshAuthority.Connection

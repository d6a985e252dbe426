import SshAuthority.Proofs.Connection.Exchange
import SshAuthority.Proofs.Connection.Requests
/-!
# The answers of a server

Which request each response of a server is for, whoever else uses the service and whatever the requests say:
a response carries the number of its request and what the service has made of that request, for which it was
asked once.
-/
namespace SshAuthority.Connection.Server
open Authority

/-! ## Whom the service signs for -/

/-- For whom the service is asked to sign at an event: for the request of a handler, or for another caller. -/
def asks (s : Server) : Event → List (Option Nat)
  | .service e => outside e
  | .dispatch k => match s.handlers[k]? with
    | some ⟨request, .dispatched⟩ => match signRequest? request.call with
      | some _ => [some k]
      | none => []
    | _ => []
  | _ => []

theorem asks_dispatch {s : Server} {k : Nat} {hd : Handler} (hk : s.handlers[k]? = some hd)
    (hp : hd.phase = .dispatched) : s.asks (.dispatch k) = (signRequest? hd.request.call).toList.map fun _ => some k := by
  obtain ⟨q, p⟩ := hd
  obtain rfl : p = .dispatched := hp
  simp only [asks, hk]
  split <;> rename_i hr <;> rw [hr] <;> rfl

def ledger (s : Server) : List Event → List (Option Nat)
  | [] => []
  | e :: es => s.asks e ++ (s.step e).ledger es

variable {start session : Session} {ledger : List (Option Nat)} {k n : Nat} {call : Wire.Call}

/-- The signing call that the service was asked for as the `n`th is the one that request `k` makes. -/
structure Asked (start session : Session) (ledger : List (Option Nat)) (k : Nat) (call : Wire.Call) (n : Nat) :
    Prop where
  place : ledger[n]? = some (some k)
  request : ∃ c, session.calls[start.calls.length + n]? = some c ∧ signRequest? call = some c.request

/-- What request `k` is to be answered with: what needs no signature, or what came of its own signing call. -/
def IsResult (start session : Session) (ledger : List (Option Nat)) (k : Nat) (call : Wire.Call)
    (result : Wire.Result) : Prop :=
  (signRequest? call = none ∧ ∀ signed, result = Service.respond start.service.identity.key call signed) ∨
    ∃ n signed, Asked start session ledger k call n ∧ session.result? (start.calls.length + n) = some signed ∧
      result = Service.respond start.service.identity.key call fun _ => signed

/-- A response to the request at its place among those that were read. -/
def Owns (start session : Session) (ledger : List (Option Nat)) (requests : List Wire.Request)
    (x : Nat × Wire.Response) : Prop :=
  ∃ q, requests[x.1]? = some q ∧ x.2.seq = q.seq ∧ IsResult start session ledger x.1 q.call x.2.result

/-- How far the handler of request `k` has come. -/
def Handled (start session : Session) (ledger : List (Option Nat)) (k : Nat) (call : Wire.Call) :
    HandlerPhase → Prop
  | .dispatched | .done => True
  | .signing j => ∃ n, j = start.calls.length + n ∧ Asked start session ledger k call n
  | .answered result => IsResult start session ledger k call result

section Later

variable {next : Session} {e : Session.Event}

theorem Asked.later (h : Asked start session ledger k call n) (hm : session.Moves e next)
    (more : List (Option Nat)) : Asked start next (ledger ++ more) k call n := by
  obtain ⟨c, hc, hr⟩ := h.request
  obtain ⟨d, hd, hreq⟩ := Session.request_of_moves hm hc
  exact ⟨getElem?_append_old h.place more, d, hd, by rw [hr, hreq]⟩

theorem IsResult.later {result : Wire.Result} (h : IsResult start session ledger k call result)
    (hm : session.Moves e next) (more : List (Option Nat)) :
    IsResult start next (ledger ++ more) k call result := by
  rcases h with h | ⟨n, signed, hasked, hs, hr⟩
  · exact .inl h
  · exact .inr ⟨n, signed, hasked.later hm more, Session.result?_of_moves hm hs, hr⟩

theorem Handled.later {p : HandlerPhase} (h : Handled start session ledger k call p)
    (hm : session.Moves e next) (more : List (Option Nat)) : Handled start next (ledger ++ more) k call p := by
  cases p with
  | dispatched | done => trivial
  | signing j =>
    obtain ⟨n, hj, hasked⟩ := h
    exact ⟨n, hj, hasked.later hm more⟩
  | answered result => exact IsResult.later h hm more

end Later

/-! ## Responses -/

def responses (s : Server) : List Wire.Response := s.written ++ (s.writing.map (·.1)).toList ++ s.queue

/-- Which request each response is for, in the order of the responses. -/
structure Answered (start : Session) (s : Server) (ledger : List (Option Nat)) (told : List (Nat × Wire.Response)) :
    Prop where
  handled : ∀ {k : Nat} {h : Handler}, s.handlers[k]? = some h →
    Handled start s.session ledger k h.request.call h.phase
  once : (told.map (·.1)).Nodup
  done : ∀ {k : Nat}, k ∈ told.map (·.1) ↔ ∃ h, s.handlers[k]? = some h ∧ h.phase = .done
  out : told.map (·.2) = s.responses
  own : ∀ x ∈ told, Owns start s.session ledger s.requests x

namespace Answered

variable {s next : Server} {told : List (Nat × Wire.Response)} {hd : Handler}

theorem initial (session : Session) : Answered session (new session) [] [] := by
  refine ⟨?_, ?_, ?_, rfl, ?_⟩ <;> simp [new]

theorem of_eq (h : Answered start s ledger told) (hh : next.handlers = s.handlers)
    (hs : next.session = s.session) (ho : next.responses = s.responses) : Answered start next ledger told := by
  have hr : next.requests = s.requests := by rw [requests, requests, hh]
  refine ⟨?_, h.once, ?_, h.out.trans ho.symm, ?_⟩
  · rw [hh, hs]
    exact h.handled
  · rw [hh]
    exact h.done
  · rw [hs, hr]
    exact h.own

theorem later (h : Answered start s ledger told) {e : Session.Event} {session : Session}
    (hm : s.session.Moves e session) (more : List (Option Nat)) :
    Answered start { s with session } (ledger ++ more) told := by
  refine ⟨fun hk => (h.handled hk).later hm more, h.once, h.done, h.out, fun x hx => ?_⟩
  obtain ⟨q, hq, hseq, hresult⟩ := h.own x hx
  exact ⟨q, hq, hseq, hresult.later hm more⟩

theorem accept (h : Answered start s ledger told) (inbox : Inbox) (r : Wire.Request) :
    Answered start { s with inbox, handlers := s.handlers ++ [⟨r, .dispatched⟩] } ledger told := by
  refine ⟨fun hk => ?_, h.once, ?_, h.out, fun x hx => ?_⟩
  · rcases getElem?_append_new hk with hk | ⟨-, rfl⟩
    · exact h.handled hk
    · trivial
  · intro k
    rw [h.done]
    constructor
    · rintro ⟨hd, hk, hp⟩
      exact ⟨hd, getElem?_append_old hk _, hp⟩
    · rintro ⟨hd, hk, hp⟩
      rcases getElem?_append_new hk with hk | ⟨-, rfl⟩
      · exact ⟨hd, hk, hp⟩
      · cases hp
  · obtain ⟨q, hq, hown⟩ := h.own x hx
    refine ⟨q, ?_, hown⟩
    rw [requests, List.map_append]
    exact getElem?_append_old hq _

theorem advance (h : Answered start s ledger told) (hk : s.handlers[k]? = some hd) (hn : hd.phase ≠ .done)
    {p : HandlerPhase} (hp : p ≠ .done) (hh : Handled start s.session ledger k hd.request.call p) :
    Answered start (s.enter k p) ledger told := by
  have hget := getElem?_modified hk fun h => { h with phase := p }
  refine ⟨fun {j e} hj => ?_, h.once, ?_, h.out, fun x hx => ?_⟩
  · rw [enter, hget] at hj
    split at hj
    case isTrue hjk =>
      obtain rfl := Option.some.inj hj
      rw [hjk]
      exact hh
    case isFalse => exact h.handled hj
  · intro j
    rw [h.done, enter, hget]
    by_cases hj : j = k
    · subst hj
      simp [hk, hn, hp]
    · rw [if_neg hj]
  · rw [requests_enter]
    exact h.own x hx

theorem enqueue (h : Answered start s ledger told) (hk : s.handlers[k]? = some hd) {result : Wire.Result}
    (hp : hd.phase = .answered result) :
    Answered start (({ s with queue := s.queue ++ [⟨hd.request.seq, result⟩] } : Server).enter k .done) ledger
      (told ++ [(k, ⟨hd.request.seq, result⟩)]) := by
  have hget := getElem?_modified hk fun h => { h with phase := .done }
  have hresult := h.handled hk
  rw [hp] at hresult
  have hnew : k ∉ told.map (·.1) := by
    intro hmem
    obtain ⟨e, he, hdone⟩ := h.done.mp hmem
    obtain rfl := Option.some.inj (hk.symm.trans he)
    rw [hp] at hdone
    cases hdone
  refine ⟨fun {j e} hj => ?_, ?_, ?_, ?_, fun x hx => ?_⟩
  · rw [enter, hget] at hj
    split at hj
    case isTrue =>
      obtain rfl := Option.some.inj hj
      trivial
    case isFalse => exact h.handled hj
  · rw [List.map_append]
    exact nodup_append_new h.once hnew
  · intro j
    rw [List.map_append, List.mem_append, h.done, enter, hget]
    by_cases hj : j = k
    · simp [hj]
    · simp [hj]
  · rw [List.map_append, h.out, responses, responses, List.append_assoc]
    rfl
  · rw [requests_enter]
    rcases List.mem_append.mp hx with hx | hx
    · exact h.own x hx
    · obtain rfl := List.mem_singleton.mp hx
      refine ⟨hd.request, ?_, rfl, hresult⟩
      show (s.handlers.map (·.request))[k]? = some hd.request
      rw [List.getElem?_map, hk, Option.map_some]

end Answered

/-! ## The bill -/

/-- What the service was asked for is what the handlers and others asked it for. -/
structure Billed (start : Session) (s : Server) (ledger : List (Option Nat)) : Prop where
  once : ∀ k : Nat, ledger.count (some k) ≤ 1
  mem : ∀ {k : Nat}, some k ∈ ledger → ∃ h, s.handlers[k]? = some h ∧ h.phase ≠ .dispatched
  length : s.session.calls.length = start.calls.length + ledger.length
  service : s.session.service = start.service

namespace Billed

variable {s : Server} {hd : Handler}

theorem initial (session : Session) : Billed session (new session) [] := by
  refine ⟨?_, ?_, ?_, ?_⟩ <;> simp [new]

theorem of_eq {next : Server} (h : Billed start s ledger) (hh : next.handlers = s.handlers)
    (hs : next.session = s.session) : Billed start next ledger := by
  refine ⟨h.once, ?_, ?_, ?_⟩
  · rw [hh]
    exact h.mem
  · rw [hs]
    exact h.length
  · rw [hs]
    exact h.service

theorem accept (h : Billed start s ledger) (inbox : Inbox) (r : Wire.Request) :
    Billed start { s with inbox, handlers := s.handlers ++ [⟨r, .dispatched⟩] } ledger := by
  refine ⟨h.once, fun hk => ?_, h.length, h.service⟩
  obtain ⟨hd, hget, hp⟩ := h.mem hk
  exact ⟨hd, getElem?_append_old hget _, hp⟩

theorem enter (h : Billed start s ledger) (hk : s.handlers[k]? = some hd) {p : HandlerPhase}
    (hp : p ≠ .dispatched) : Billed start (s.enter k p) ledger := by
  have hget := getElem?_modified hk fun h => { h with phase := p }
  refine ⟨h.once, fun {j} hj => ?_, h.length, h.service⟩
  obtain ⟨e, he, hphase⟩ := h.mem hj
  by_cases hjk : j = k
  · exact ⟨{ hd with phase := p }, (hget j).trans (if_pos hjk), hp⟩
  · exact ⟨e, (hget j).trans ((if_neg hjk).trans he), hphase⟩

theorem serve (h : Billed start s ledger) {e : Session.Event} {session : Session}
    (hm : s.session.Moves e session) : Billed start { s with session } (ledger ++ outside e) := by
  have hnone : ∀ {o : Option Nat}, o ∈ outside e → o = none := by
    intro o ho
    cases e <;> simp [outside] at ho
    exact ho
  refine ⟨fun k => ?_, fun hk => ?_, ?_, (Session.service_of_moves hm).trans h.service⟩
  · have hn : (outside e).count (some k) = 0 := List.count_eq_zero.mpr fun hk => by cases hnone hk
    rw [List.count_append, hn]
    exact h.once k
  · rcases List.mem_append.mp hk with hk | hk
    · exact h.mem hk
    · cases hnone hk
  · show session.calls.length = _
    rw [Session.length_of_moves hm, h.length, List.length_append, Nat.add_assoc]
    cases e <;> rfl

theorem request (h : Billed start s ledger) (hk : s.handlers[k]? = some hd) (hp : hd.phase = .dispatched)
    (r : SignRequest) :
    Billed start (({ s with session := s.session.request r } : Server).enter k (.signing s.session.calls.length))
      (ledger ++ [some k]) := by
  have hget := getElem?_modified hk fun h => { h with phase := .signing s.session.calls.length }
  have hnew : some k ∉ ledger := by
    intro hmem
    obtain ⟨e, he, hphase⟩ := h.mem hmem
    obtain rfl := Option.some.inj (hk.symm.trans he)
    exact hphase hp
  refine ⟨fun j => ?_, fun {j} hj => ?_, ?_, h.service⟩
  · rw [List.count_append, List.count_singleton]
    by_cases hj : k = j
    · subst hj
      rw [List.count_eq_zero.mpr hnew]
      simp
    · simpa [hj] using h.once j
  · by_cases hjk : j = k
    · exact ⟨_, (hget j).trans (if_pos hjk), by simp⟩
    · rcases List.mem_append.mp hj with hj | hj
      · obtain ⟨e, he, hphase⟩ := h.mem hj
        exact ⟨e, (hget j).trans ((if_neg hjk).trans he), hphase⟩
      · exact absurd (Option.some.inj (List.mem_singleton.mp hj)) hjk
  · show (s.session.request r).calls.length = _
    rw [Session.request, List.length_append, List.length_append, h.length]
    rfl

end Billed

end SshAuthority.Connection.Server

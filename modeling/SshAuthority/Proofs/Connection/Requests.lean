import SshAuthority.Proofs.Connection.ServerStep
import SshAuthority.Proofs.Wire.Frame
/-!
# The requests of a connection

What a server makes of the bytes that a peer sends: wherever they are cut and whatever else happens, it
handles the requests in them up to the first fault of the stream, in order.
-/
namespace SshAuthority.Connection

open Wire.Frame (front frameOf)

namespace Inbox

theorem front_of_next {b rest : Inbox} {payload : Bytes} (h : b.next = .frame payload rest) :
    front b.arrived.flatten = .ok (payload, rest.arrived.flatten) ∧ rest.ended = b.ended := by
  rw [next] at h
  rw [← Wire.Frame.read_eq_front]
  split at h
  case h_1 hr =>
    cases h
    rw [hr]
    exact ⟨rfl, rfl⟩
  case h_2 => split at h <;> cases h
  case h_3 => cases h

theorem fault_of_next {b : Inbox} {fault : Wire.StreamFault} (h : b.next = .fault fault) :
    front b.arrived.flatten = .error fault ∧ (fault = .earlyEnd → b.ended = true) := by
  rw [next] at h
  rw [← Wire.Frame.read_eq_front]
  split at h
  case h_1 => cases h
  case h_2 hr =>
    split at h
    case isTrue he =>
      cases h
      rw [hr]
      exact ⟨rfl, fun _ => he⟩
    case isFalse => cases h
  case h_3 hne hr =>
    cases h
    rw [hr]
    exact ⟨rfl, fun he => (hne he).elim⟩

end Inbox

namespace Server

/-! ## Runs -/

@[simp] theorem run_nil (s : Server) : s.run [] = s := rfl

@[simp] theorem run_cons (s : Server) (e : Event) (es : List Event) : s.run (e :: es) = (s.step e).run es := rfl

theorem run_append (s : Server) (es later : List Event) : s.run (es ++ later) = (s.run es).run later :=
  List.foldl_append

/-! ## What a peer sends -/

def Event.bytes : Event → Bytes
  | .arrive piece => piece
  | _ => []

def Event.closes : Event → Bool
  | .closeInput => true
  | _ => false

def received : List Event → Bytes
  | [] => []
  | e :: es => e.bytes ++ if e.closes then [] else received es

def requests (s : Server) : List Wire.Request := s.handlers.map (·.request)

theorem requests_enter (s : Server) (k : Nat) (p : HandlerPhase) : (s.enter k p).requests = s.requests :=
  map_modify (f := fun h : Handler => { h with phase := p }) (g := (·.request)) (fun _ => rfl) s.handlers k

/-- The requests that payloads decode as; a payload that says nothing sensible is passed over. -/
def requestsOf (payloads : List Bytes) : List Wire.Request :=
  payloads.filterMap fun payload => (Wire.Request.decode payload).toOption

/-- The requests in some bytes before the first fault of the stream. -/
def requestsIn (bs : Bytes) : List Wire.Request := requestsOf (Wire.Frame.readAll [bs]).1

/-- How far a server has come with the bytes that it was sent. -/
structure Reads (s : Server) (bs : Bytes) : Prop where
  taken : ∃ payloads, (∀ p ∈ payloads, p.length ≤ Wire.maxPayload) ∧
    bs = payloads.flatMap frameOf ++ s.inbox.arrived.flatten ∧
    s.requests = requestsOf payloads
  stopped : s.reading = false → ∃ fault, front s.inbox.arrived.flatten = .error fault ∧
    (fault = .earlyEnd → s.inbox.ended = true)

namespace Reads

variable {s next : Server} {bs : Bytes}

theorem start (session : Authority.Session) : (new session).Reads [] := by
  refine ⟨⟨[], by simp, rfl, rfl⟩, fun h => ?_⟩
  cases h

private theorem of_eq (h : s.Reads bs) (hi : next.inbox = s.inbox) (hr : next.reading = s.reading)
    (hh : next.requests = s.requests) : next.Reads bs := by
  constructor
  · rw [hi, hh]
    exact h.taken
  · rw [hi, hr]
    exact h.stopped

private theorem take (h : s.Reads bs) (hreading : s.reading = true) {payload : Bytes} {inbox : Inbox}
    (hf : s.inbox.next = .frame payload inbox) (hi : next.inbox = inbox) (hr : next.reading = s.reading)
    (hh : next.requests = s.requests ++ requestsOf [payload]) :
    next.Reads bs := by
  obtain ⟨payloads, hfit, hbs, hreq⟩ := h.taken
  obtain ⟨hp, harrived⟩ := Wire.Frame.frame_of_front (Inbox.front_of_next hf).1
  refine ⟨⟨payloads ++ [payload], fun p hmem => ?_, ?_, ?_⟩, fun hstop => ?_⟩
  · rcases List.mem_append.mp hmem with hmem | hmem
    · exact hfit p hmem
    · rwa [List.mem_singleton.mp hmem]
  · rw [hbs, harrived, hi, List.flatMap_append]
    simp
  · rw [hh, hreq, requestsOf, requestsOf, requestsOf, List.filterMap_append]
  · rw [hr, hreading] at hstop
    cases hstop

private theorem arrive (h : s.Reads bs) (piece : Bytes) :
    (s.step (.arrive piece)).Reads (bs ++ if s.inbox.ended then [] else piece) := by
  have hstep : s.step (.arrive piece) = { s with inbox := s.inbox.arrive piece } := rfl
  rw [hstep]
  rcases hended : s.inbox.ended with _ | _
  · obtain ⟨payloads, hfit, hbs, hreq⟩ := h.taken
    have harrived : (s.inbox.arrive piece).arrived.flatten = s.inbox.arrived.flatten ++ piece := by
      simp [Inbox.arrive, hended]
    refine ⟨⟨payloads, hfit, ?_, hreq⟩, fun hstop => ?_⟩
    · show bs ++ piece = payloads.flatMap frameOf ++ (s.inbox.arrive piece).arrived.flatten
      rw [harrived, hbs, List.append_assoc]
    · obtain ⟨fault, hf, hearly⟩ := h.stopped hstop
      have hne : fault ≠ .earlyEnd := by
        intro he
        rw [hearly he] at hended
        cases hended
      refine ⟨fault, ?_, fun he => absurd he hne⟩
      show front (s.inbox.arrive piece).arrived.flatten = .error fault
      rw [harrived, Wire.Frame.front_append hf hne]
  · rw [if_pos rfl, List.append_nil]
    refine h.of_eq ?_ rfl rfl
    rw [Inbox.arrive, if_pos hended]

private theorem of_moves (h : s.Reads bs) {e : Event} (hm : s.Moves e next) (he : ∀ piece, e ≠ .arrive piece) :
    next.Reads bs := by
  cases hm with
  | arrive piece => exact absurd rfl (he piece)
  | closeInput =>
    refine ⟨h.taken, fun hstop => ?_⟩
    obtain ⟨fault, hf, -⟩ := h.stopped hstop
    exact ⟨fault, hf, fun _ => rfl⟩
  | read hreading hf hd => exact h.take hreading hf rfl rfl (by simp [requests, requestsOf, hd, Except.toOption])
  | skip hreading hf hd => exact h.take hreading hf rfl rfl (by simp [requests, requestsOf, hd, Except.toOption])
  | stop _ hf => exact ⟨h.taken, fun _ => ⟨_, Inbox.fault_of_next hf⟩⟩
  | request | answer | collect | lose | enqueue => exact h.of_eq rfl rfl (requests_enter _ _ _)
  | _ => exact h.of_eq rfl rfl rfl

theorem step (h : s.Reads bs) (e : Event) : (s.step e).Reads (bs ++ if s.inbox.ended then [] else e.bytes) := by
  have hquiet : (∀ piece, e ≠ .arrive piece) → (s.step e).Reads bs :=
    fun he => step_preserves (P := fun t => t.Reads bs) (fun _ hm => h.of_moves hm he) h
  have hnone : (if s.inbox.ended then [] else ([] : Bytes)) = [] := ite_self _
  cases e with
  | arrive piece => exact h.arrive piece
  | _ =>
    show (s.step _).Reads (bs ++ if s.inbox.ended then [] else [])
    rw [hnone, List.append_nil]
    exact hquiet (by simp)

end Reads

private theorem ended_of_moves {s next : Server} {e : Event} (hm : s.Moves e next) :
    next.inbox.ended = (s.inbox.ended || e.closes) := by
  have hsame : s.inbox.ended = (s.inbox.ended || false) := (Bool.or_false _).symm
  cases hm with
  | arrive piece =>
    show (s.inbox.arrive piece).ended = (s.inbox.ended || false)
    rw [Inbox.arrive, ← hsame]
    split <;> rfl
  | closeInput => exact (Bool.or_true _).symm
  | read _ hf _ | skip _ hf _ => exact (Inbox.front_of_next hf).2.trans hsame
  | _ => exact hsame

theorem ended_step (s : Server) (e : Event) : (s.step e).inbox.ended = (s.inbox.ended || e.closes) := by
  rcases hs : s.step? e with _ | next
  · have hc : e.closes = false := by
      cases e with
      | closeInput => cases hs
      | _ => rfl
    rw [step, hs, hc, Bool.or_false]
    rfl
  · rw [step, hs]
    exact ended_of_moves (moves_of_step? hs)

theorem Reads.run {s : Server} {bs : Bytes} (h : s.Reads bs) (es : List Event) :
    (s.run es).Reads (bs ++ if s.inbox.ended then [] else received es) := by
  induction es generalizing s bs with
  | nil =>
    rw [received, ite_self, List.append_nil]
    exact h
  | cons e es ih =>
    have hnext := ih (h.step e)
    rw [ended_step, List.append_assoc] at hnext
    rw [run_cons, received]
    rcases hended : s.inbox.ended with _ | _ <;> rw [hended] at hnext <;> exact hnext

/-! ## Requests -/

theorem requestsOf_append (ps qs : List Bytes) : requestsOf (ps ++ qs) = requestsOf ps ++ requestsOf qs :=
  List.filterMap_append

/-- The requests that are handled are the first ones in what was sent, and all of them once the reader has
stopped. -/
theorem Reads.requests {s : Server} {bs : Bytes} (h : s.Reads bs) :
    s.requests <+: requestsIn bs ∧ (s.reading = false → s.requests = requestsIn bs) := by
  obtain ⟨payloads, hfit, hbs, hreq⟩ := h.taken
  have hin : requestsIn bs =
      requestsOf payloads ++ requestsOf (Wire.Frame.payloads s.inbox.arrived.flatten).1 := by
    rw [requestsIn, Wire.Frame.readAll_eq, List.flatten_singleton, hbs, Wire.Frame.payloads_frames hfit,
      requestsOf_append]
  rw [hin, ← hreq]
  refine ⟨List.prefix_append _ _, fun hstop => ?_⟩
  obtain ⟨fault, hf, -⟩ := h.stopped hstop
  rw [Wire.Frame.payloads_of_fault hf]
  exact (List.append_nil _).symm

end Server

end SshAuthority.Connection

import SshAuthority.Proofs.Connection.Closing
import SshAuthority.Proofs.Connection.Framed
import SshAuthority.Proofs.Wire.Streams
/-!
# Frames that are cut

A call that is dropped while it waits, for the writer or for its reply, leaves the stream as it was. One that
is dropped while it writes leaves the beginning of its frame there, and the writer to the next call: what
that one writes is taken for the rest of the frame.
-/
namespace SshAuthority.Connection.Client

variable {s : Client}

/-- Events that cut no frame. Calls may be dropped wherever they wait. -/
def Uncut (s : Client) : List Event → Prop
  | [] => True
  | e :: es => s.cuts e = false ∧ (s.step e).Uncut es

instance decidableUncut (s : Client) : (es : List Event) → Decidable (s.Uncut es)
  | [] => .isTrue trivial
  | e :: es => @instDecidableAnd _ _ _ (decidableUncut (s.step e) es)

theorem framed_run {es : List Event} (hs : s.Framed) (h : s.Uncut es) : (s.run es).Framed := by
  induction es generalizing s with
  | nil => exact hs
  | cons e es ih =>
    rw [run_cons]
    have hstep : (s.step e).Framed := step_preserves (fun next hm => hs.of_moves hm h.1) hs
    exact ih hstep h.2

/-! ## What arrives -/

/-- What a peer gets from a client that has cut no frame yet, and what it gets if one is cut then. -/
structure Arrives (before : List Event) : Prop where
  intact : Wire.readMessages Wire.Request.decode [(new.run before).sent] =
    ((new.run before).written.map .ok, .earlyEnd)
  lasting : ∀ after, (new.run before).written.map .ok <+:
    (Wire.readMessages Wire.Request.decode [(new.run (before ++ after)).sent]).1
  /-- A frame that is cut when its length is on the stream is filled up with what is written later, by
  whatever call. -/
  filled : ∀ i c rest later, (new.run before).calls[i]? = some c → c.phase = .writing rest →
    rest.length ≤ c.request.encode.length →
    let more := ((new.run (before ++ [.abandon i])).outputs later).flatMap (·.2)
    rest.length ≤ more.length →
    (Wire.Frame.readAll [(new.run (before ++ [.abandon i] ++ later)).sent]).1[(new.run before).written.length]? =
      some (c.request.encode.take (c.request.encode.length - rest.length) ++ more.take rest.length)

private theorem readAll_sent (bytes : Bytes) : Wire.Frame.readAll [bytes] = Wire.Frame.payloads bytes := by
  rw [Wire.Frame.readAll_eq, List.flatten_singleton]

private theorem decode_written (s : Client) :
    (s.written.map (·.encode)).map Wire.Request.decode = s.written.map .ok := by
  rw [List.map_map]
  congr 1
  funext r
  exact Wire.Request.decode_encode r

/-- A client's requests arrive intact for as long as no call is dropped in the middle of its frame. -/
theorem requests_arrive_until_cut (before : List Event) (h : new.Uncut before) : Arrives before := by
  have hframed : (new.run before).Framed := framed_run .start h
  constructor
  case intact =>
    rw [Wire.readMessages, readAll_sent, hframed.out.payloads_eq, decode_written]
  case lasting =>
    intro after
    rw [run_append, sent_run, Wire.readMessages, readAll_sent, ← decode_written]
    exact (hframed.out.payloads_survive _).map _
  case filled =>
    intro i c rest later hc hp hpart more hmore
    have hsent : (new.run (before ++ [.abandon i])).sent = (new.run before).sent := by
      rw [run_append, sent_run]
      exact List.append_nil _
    have hout := hframed.writing hc hp
    rw [run_append, sent_run, hsent, readAll_sent]
    have hpayload := hout.payload_of_cut hpart hmore
    rwa [List.length_map] at hpayload

/-- Calls that are dropped while they wait for a reply, for the writer, with the writer but before anything is
written, and with the whole frame on the stream that is to be flushed; and one that writes. -/
private def droppedCalls : List Event :=
  let begin (i : Nat) : List Event := [.make .publicKey, .register i, .check i]
  (List.range 5).flatMap begin ++ [.holdWriter 0, .put 0 100, .flush 0, .abandon 0, .abandon 1, .holdWriter 2,
    .abandon 2, .holdWriter 3, .put 3 100, .abandon 3, .holdWriter 4, .put 4 20, .put 4 100]

theorem requests_arrive_around_dropped_calls : new.Uncut droppedCalls ∧
    (new.run droppedCalls).written = [⟨1, .publicKey⟩, ⟨4, .publicKey⟩, ⟨5, .publicKey⟩] ∧ Arrives droppedCalls := by
  have huncut : new.Uncut droppedCalls := by decide +kernel
  exact ⟨huncut, by decide +kernel, requests_arrive_until_cut droppedCalls huncut⟩

/-- A call that is dropped when the stream has taken ten bytes of its payload, and one that writes then. -/
private def cutCall : List Event :=
  [.make .publicKey, .register 0, .check 0, .make .publicKey, .register 1, .check 1, .holdWriter 0, .put 0 14,
    .abandon 0, .holdWriter 1, .put 1 100]

/-- The later request was written in whole, and does not arrive. -/
theorem later_request_is_lost : (new.run cutCall).written = [⟨2, .publicKey⟩] ∧
    (Wire.Frame.readAll [(new.run cutCall).sent]).1 ≠ (new.run cutCall).written.map (·.encode) ∧
    (Wire.readMessages Wire.Request.decode [(new.run cutCall).sent]).1.filterMap Except.toOption = [] := by
  decide +kernel

end SshAuthority.Connection.Client

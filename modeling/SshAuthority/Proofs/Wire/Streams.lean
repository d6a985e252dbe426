import SshAuthority.Proofs.Wire.Frame
import SshAuthority.Proofs.Wire.Message
/-!
# Streams of messages

Messages that were written one after the other are read back as they were and in order, wherever the stream
is cut. One that is too long for a frame is refused and leaves nothing on the stream.
-/
namespace SshAuthority.Wire

open SshAuthority.Wire.Frame (frameOf)

namespace Frame

theorem writeAll_eq (ps : List Bytes) :
    writeAll ps = (ps.filter fun p => p.length ≤ maxPayload).flatMap frameOf := by
  induction ps with
  | nil => rfl
  | cons p ps ih =>
    rw [writeAll, List.flatMap_cons, ← writeAll, ih]
    by_cases hp : p.length ≤ maxPayload
    · rw [write_of_le hp, List.filter_cons_of_pos (by simpa using hp), List.flatMap_cons]
    · rw [write_of_lt (Nat.not_le.mp hp), List.filter_cons_of_neg (by simpa using hp), List.nil_append]

theorem writeAll_append (ps qs : List Bytes) : writeAll (ps ++ qs) = writeAll ps ++ writeAll qs :=
  List.flatMap_append

theorem writeAll_of_lt {payload : Bytes} (h : maxPayload < payload.length) (before after : List Bytes) :
    writeAll (before ++ payload :: after) = writeAll (before ++ after) := by
  have hw : writeAll (payload :: after) = writeAll after := by
    rw [writeAll, List.flatMap_cons, write_of_lt h]
    rfl
  rw [writeAll_append, writeAll_append, hw]

theorem payloads_nil : payloads [] = ([], .earlyEnd) := payloads_of_fault rfl

/-- What was written is read again, as far as it fits, and then the stream ends. -/
theorem readAll_writeAll {ps : List Bytes} {stream : Arrivals} (h : stream.flatten = writeAll ps) :
    readAll stream = (ps.filter fun p => p.length ≤ maxPayload, .earlyEnd) := by
  have hfit : ∀ p ∈ ps.filter fun p => p.length ≤ maxPayload, p.length ≤ maxPayload := by
    intro p hp
    simpa using (List.mem_filter.mp hp).2
  have hp := payloads_frames hfit []
  rw [List.append_nil, ← writeAll_eq, payloads_nil, List.append_nil] at hp
  rw [readAll_eq, h, hp]

end Frame

/-- What is got from a stream by reading message after message until the stream ends or fails. -/
def readMessages {α : Type} (decode : Bytes → Except Json.Fault α) (stream : Frame.Arrivals) :
    List (Except Json.Fault α) × StreamFault :=
  ((Frame.readAll stream).1.map decode, (Frame.readAll stream).2)

theorem readMessages_writeAll {α : Type} {encode : α → Bytes} {decode : Bytes → Except Json.Fault α}
    (hd : ∀ a, decode (encode a) = .ok a) {messages : List α} {stream : Frame.Arrivals}
    (h : stream.flatten = Frame.writeAll (messages.map encode)) : readMessages decode stream =
      ((messages.filter fun a => (encode a).length ≤ maxPayload).map .ok, .earlyEnd) := by
  have hdec : decode ∘ encode = Except.ok := funext hd
  rw [readMessages, Frame.readAll_writeAll h, List.filter_map, List.map_map, hdec]
  rfl

/-- Requests and responses are read back from a stream as they were and in order, as far as they fit into
frames; what does not fit is refused and adds nothing; and a request for a signature arrives with its key as
it was, and with all that is read from the key. -/
theorem messages_round_trip :
    (∀ (requests : List Request) (stream : Frame.Arrivals),
      stream.flatten = Frame.writeAll (requests.map (·.encode)) → readMessages Request.decode stream =
        ((requests.filter fun r => r.encode.length ≤ maxPayload).map .ok, .earlyEnd)) ∧
    (∀ (responses : List Response) (stream : Frame.Arrivals),
      stream.flatten = Frame.writeAll (responses.map (·.encode)) → readMessages Response.decode stream =
        ((responses.filter fun r => r.encode.length ≤ maxPayload).map .ok, .earlyEnd)) ∧
    (∀ payload : Bytes, maxPayload < payload.length →
      Frame.write payload = .error (.payloadTooLarge payload.length) ∧
        ∀ before after : List Bytes,
          Frame.writeAll (before ++ payload :: after) = Frame.writeAll (before ++ after)) ∧
    ∀ (seq : UInt64) (r : SignRequest), ∃ args : SignArgs,
      Request.decode (Request.encode ⟨seq, .sign (.ofRequest r)⟩) = .ok ⟨seq, .sign args⟩ ∧
        args.request = .ok r := by
  refine ⟨fun requests stream h => ?_, fun responses stream h => ?_, fun payload h => ?_, fun seq r => ?_⟩
  · exact readMessages_writeAll Request.decode_encode h
  · exact readMessages_writeAll Response.decode_encode h
  · exact ⟨Frame.write_of_lt h, Frame.writeAll_of_lt h⟩
  · exact ⟨.ofRequest r, Request.decode_encode _, SignArgs.request_ofRequest r⟩

private def sampleRequests : List Request :=
  [⟨18446744073709551615, .sign ⟨"\"\\\u0001\né😀", .host, ["", "a,b"], [0, 255, 128, 10]⟩⟩,
    ⟨0, .publicKey⟩]

private def sampleResponses : List Response :=
  [⟨0, .err ⟨.badRequest, "\u007f\t\""⟩⟩, ⟨18446744073709551615, .ok (.signed [])⟩, ⟨7, .ok (.publicKey [61])⟩]

theorem messages_round_trip_sample :
    readMessages Request.decode [Frame.writeAll (sampleRequests.map (·.encode))] =
        (sampleRequests.map .ok, .earlyEnd) ∧
      readMessages Response.decode [Frame.writeAll (sampleResponses.map (·.encode))] =
        (sampleResponses.map .ok, .earlyEnd) ∧
      Frame.write (List.replicate (maxPayload + 1) 32) = .error (.payloadTooLarge (maxPayload + 1)) := by
  obtain ⟨hreq, hresp, hlong, -⟩ := messages_round_trip
  have hq : (sampleRequests.filter fun r => r.encode.length ≤ maxPayload) = sampleRequests := by decide +kernel
  have hs : (sampleResponses.filter fun r => r.encode.length ≤ maxPayload) = sampleResponses := by
    decide +kernel
  have hw := (hlong (List.replicate (maxPayload + 1) 32) (by simp)).1
  rw [List.length_replicate] at hw
  refine ⟨?_, ?_, hw⟩
  · rw [hreq sampleRequests _ (by simp), hq]
  · rw [hresp sampleResponses _ (by simp), hs]

end SshAuthority.Wire

import SshAuthority.Proofs.Wire.Streams
/-!
# Parsing a stream of frames

Reading a stream frame after frame comes to an end, wherever the stream is cut: with the payloads of the
frames that it begins with, and with the fault that the rest of it stands for. What was written is parsed into
what was accepted.
-/
namespace SshAuthority.Wire

/-- What a fault of reading says of the bytes that no frame could be read from. -/
def StreamFault.Explains : StreamFault → Bytes → Prop
  | .announcedTooLarge size, left => 4 ≤ left.length ∧ size = Frame.lengthOf (left.take 4) ∧ maxPayload < size
  | .earlyEnd, left => left.length < 4 ∨
    (Frame.lengthOf (left.take 4) ≤ maxPayload ∧ left.length < 4 + Frame.lengthOf (left.take 4))
  | .payloadTooLarge _, _ | .brokenPipe, _ => False

namespace Frame

/-- Reading a stream until it fails: the payloads that are read, what is there when reading fails, and the
fault. -/
inductive Parses : Arrivals → List Bytes → Arrivals → StreamFault → Prop where
  | fails {stream : Arrivals} {fault : StreamFault} (failed : read stream = .error fault) :
    Parses stream [] stream fault
  | goesOn {stream rest left : Arrivals} {payload : Bytes} {ps : List Bytes} {fault : StreamFault}
    (got : read stream = .ok (payload, rest)) (more : Parses rest ps left fault) :
    Parses stream (payload :: ps) left fault

variable {stream left : Arrivals} {ps : List Bytes} {fault : StreamFault}

/-! ## One frame -/

theorem explains_of_front {bs : Bytes} (h : front bs = .error fault) : fault.Explains bs := by
  rw [front] at h
  split at h
  case isTrue hs =>
    obtain rfl := Except.error.inj h
    exact .inl hs
  case isFalse hs =>
    simp only at h
    split at h
    case isTrue hm =>
      obtain rfl := Except.error.inj h
      exact ⟨Nat.not_lt.mp hs, rfl, hm⟩
    case isFalse hm =>
      split at h
      case isTrue hl =>
        obtain rfl := Except.error.inj h
        rw [List.length_drop] at hl
        exact .inr ⟨Nat.not_lt.mp hm, by omega⟩
      case isFalse => cases h

theorem front_of_read_error (h : read stream = .error fault) : front stream.flatten = .error fault := by
  rw [← read_eq_front, h]
  rfl

theorem front_of_read_ok {payload : Bytes} {rest : Arrivals} (h : read stream = .ok (payload, rest)) :
    front stream.flatten = .ok (payload, rest.flatten) := by
  rw [← read_eq_front, h]
  rfl

/-! ## The whole stream -/

/-- Every frame that is read leaves less of the stream, so reading ends. -/
theorem exists_parses (stream : Arrivals) : ∃ ps left fault, Parses stream ps left fault := by
  generalize hn : stream.flatten.length = n
  induction n using Nat.strong_induction_on generalizing stream with
  | _ n ih =>
    rcases hr : read stream with fault | ⟨payload, rest⟩
    · exact ⟨[], stream, fault, .fails hr⟩
    · have hless : rest.flatten.length < n := hn ▸ length_of_front (front_of_read_ok hr)
      obtain ⟨ps, left, fault, hmore⟩ := ih _ hless rest rfl
      exact ⟨payload :: ps, left, fault, .goesOn hr hmore⟩

namespace Parses

theorem fit (h : Parses stream ps left fault) : ∀ p ∈ ps, p.length ≤ maxPayload := by
  induction h with
  | fails => simp
  | goesOn got _ ih =>
    intro p hp
    rcases List.mem_cons.mp hp with rfl | hp
    · exact (frame_of_front (front_of_read_ok got)).1
    · exact ih p hp

theorem flatten (h : Parses stream ps left fault) : stream.flatten = ps.flatMap frameOf ++ left.flatten := by
  induction h with
  | fails => rfl
  | goesOn got _ ih =>
    rw [(frame_of_front (front_of_read_ok got)).2, ih, List.flatMap_cons, List.append_assoc]

theorem explains (h : Parses stream ps left fault) : fault.Explains left.flatten := by
  induction h with
  | fails failed => exact explains_of_front (front_of_read_error failed)
  | goesOn _ _ ih => exact ih

theorem payloads_eq (h : Parses stream ps left fault) : payloads stream.flatten = (ps, fault) := by
  induction h with
  | fails failed => exact payloads_of_fault (front_of_read_error failed)
  | goesOn got _ ih => rw [payloads_of_front (front_of_read_ok got), ih]

/-- The same bytes are parsed into the same payloads, wherever they are cut. -/
theorem unique (h : Parses stream ps left fault) {stream' left' : Arrivals} {ps' : List Bytes}
    {fault' : StreamFault} (hs : stream'.flatten = stream.flatten) (h' : Parses stream' ps' left' fault') :
    ps' = ps ∧ left'.flatten = left.flatten ∧ fault' = fault := by
  have hp := h'.payloads_eq
  rw [hs, h.payloads_eq] at hp
  obtain ⟨rfl, rfl⟩ := Prod.mk.inj hp
  have hleft := h'.flatten
  rw [hs, h.flatten] at hleft
  exact ⟨rfl, (List.append_cancel_left hleft).symm, rfl⟩

theorem of_writeAll {written : List Bytes} (hs : stream.flatten = writeAll written) :
    ∃ left, Parses stream (written.filter fun p => p.length ≤ maxPayload) left .earlyEnd ∧ left.flatten = [] := by
  obtain ⟨ps, left, fault, h⟩ := exists_parses stream
  have hread := readAll_writeAll hs
  rw [readAll_eq, h.payloads_eq] at hread
  obtain ⟨rfl, rfl⟩ := Prod.mk.inj hread
  refine ⟨left, h, ?_⟩
  have hleft := h.flatten
  rw [hs, writeAll_eq] at hleft
  exact List.append_right_eq_self.mp hleft.symm

end Parses

/-- A stream is parsed into the frames that it begins with and a fault that says what its rest is, wherever it
is cut; and payloads that were written are parsed into those that were accepted, which are those that fit. -/
theorem streams_parse_exactly (stream : Arrivals) (written : List Bytes) :
    (∃ ps left fault, Parses stream ps left fault ∧ readAll stream = (ps, fault) ∧
      (∀ p ∈ ps, p.length ≤ maxPayload) ∧ stream.flatten = ps.flatMap frameOf ++ left.flatten ∧
      fault.Explains left.flatten ∧
      ∀ stream' ps' left' fault', stream'.flatten = stream.flatten → Parses stream' ps' left' fault' →
        ps' = ps ∧ left'.flatten = left.flatten ∧ fault' = fault) ∧
    (∀ p ∈ written, (∀ fault, write p = .error fault ↔ maxPayload < p.length ∧ fault = .payloadTooLarge p.length) ∧
      ∀ frame, write p = .ok frame ↔ p.length ≤ maxPayload ∧ frame = frameOf p) ∧
    writeAll written = (written.filter fun p => p.length ≤ maxPayload).flatMap frameOf ∧
    ∀ buffer : Arrivals, buffer.flatten = writeAll written →
      ∃ left, Parses buffer (written.filter fun p => p.length ≤ maxPayload) left .earlyEnd ∧ left.flatten = [] := by
  refine ⟨?_, fun p _ => ⟨fun _ => write_eq_error, fun _ => write_eq_ok⟩, writeAll_eq written,
    fun _ => Parses.of_writeAll⟩
  obtain ⟨ps, left, fault, h⟩ := exists_parses stream
  exact ⟨ps, left, fault, h, by rw [readAll_eq, h.payloads_eq], h.fit, h.flatten, h.explains,
    fun _ _ _ _ hs h' => h.unique hs h'⟩

/-- An empty frame, one that is cut in its length and in its payload, and the beginning of one that is too long. -/
private def sampleStream : Arrivals := [[0, 0], [], [0, 0, 0], [0, 0, 3, 7], [8, 9, 0, 16], [0, 1, 1]]

private def samplePayloads : List Bytes := [[], List.replicate (maxPayload + 1) 0, [7, 8, 9]]

theorem streams_parse_exactly_sample :
    (∃ left, Parses sampleStream [[], [7, 8, 9]] left (.announcedTooLarge 1048577) ∧
      left.flatten = [0, 16, 0, 1, 1]) ∧
    ∃ left, Parses [writeAll samplePayloads] [[], [7, 8, 9]] left .earlyEnd ∧ left.flatten = [] := by
  obtain ⟨⟨ps, left, fault, hparses, hread, -, hflat, -⟩, -, -, hback⟩ :=
    streams_parse_exactly sampleStream samplePayloads
  have hsample : readAll sampleStream = ([[], [7, 8, 9]], .announcedTooLarge 1048577) := by decide +kernel
  obtain ⟨rfl, rfl⟩ := Prod.mk.inj (hread.symm.trans hsample)
  refine ⟨⟨left, hparses, ?_⟩, ?_⟩
  · have hbytes : sampleStream.flatten = [[], [7, 8, 9]].flatMap frameOf ++ [0, 16, 0, 1, 1] := by decide +kernel
    exact List.append_cancel_left (hflat.symm.trans hbytes)
  · have hlong : ¬ (List.replicate (maxPayload + 1) (0 : UInt8)).length ≤ maxPayload := by
      rw [List.length_replicate]
      omega
    have hfilter : (samplePayloads.filter fun p => p.length ≤ maxPayload) = [[], [7, 8, 9]] := by
      rw [samplePayloads, List.filter_cons_of_pos (by decide),
        List.filter_cons_of_neg (by rwa [decide_eq_true_eq])]
      rfl
    have hw := hback [writeAll samplePayloads] (by simp)
    rwa [hfilter] at hw

end Frame

end SshAuthority.Wire

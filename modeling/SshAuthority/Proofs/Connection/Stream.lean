import SshAuthority.Connection.Inbox
import SshAuthority.Proofs.Wire.Frame
/-!
# A stream of frames

One side puts frames on a stream, a few bytes at a time, and the other side takes them off again. What
is taken are the payloads that were put on, in order, wherever the stream is cut.
-/
namespace SshAuthority.Connection

open Wire.Frame (frameOf)

/-- What was put on a stream: the frames of some payloads, and the beginning of the frame of the current
one, of which `rest` is left. -/
structure Outgoing (payloads : List Bytes) (current : Option (Bytes × Bytes)) (sent : Bytes) : Prop where
  fit : ∀ p ∈ payloads, p.length ≤ Wire.maxPayload
  parts : ∃ part, sent = payloads.flatMap frameOf ++ part ∧ match current with
    | none => part = []
    | some (p, rest) => p.length ≤ Wire.maxPayload ∧ rest ≠ [] ∧ part ++ rest = frameOf p

/-- What has arrived of a stream, of which so many bytes were moved and so many payloads taken. -/
structure Incoming (payloads : List Bytes) (sent : Bytes) (moved taken : Nat) (inbox : Inbox) : Prop where
  lasts : inbox.ended = false
  moved_le : moved ≤ sent.length
  taken_le : taken ≤ payloads.length
  bytes : sent.take moved = (payloads.take taken).flatMap frameOf ++ inbox.arrived.flatten

namespace Outgoing

variable {payloads : List Bytes} {sent p rest : Bytes}

theorem start : Outgoing [] none [] := ⟨by simp, [], rfl, rfl⟩

theorem begin (h : Outgoing payloads none sent) (hp : p.length ≤ Wire.maxPayload) :
    Outgoing payloads (some (p, frameOf p)) sent := by
  obtain ⟨part, hs, hn⟩ := h.parts
  exact ⟨h.fit, [], by rw [hs, hn], hp, Wire.Frame.frameOf_ne_nil p, rfl⟩

theorem put (h : Outgoing payloads (some (p, rest)) sent) {count : Nat} (hr : rest.drop count ≠ []) :
    Outgoing payloads (some (p, rest.drop count)) (sent ++ rest.take count) := by
  obtain ⟨part, hs, hp, -, hf⟩ := h.parts
  refine ⟨h.fit, part ++ rest.take count, by rw [hs, List.append_assoc], hp, hr, ?_⟩
  rw [List.append_assoc, List.take_append_drop, hf]

theorem putLast (h : Outgoing payloads (some (p, rest)) sent) {count : Nat} (hr : rest.drop count = []) :
    Outgoing (payloads ++ [p]) none (sent ++ rest.take count) := by
  obtain ⟨part, hs, hp, -, hf⟩ := h.parts
  have ht : rest.take count = rest := by
    have hc := List.take_append_drop count rest
    rwa [hr, List.append_nil] at hc
  refine ⟨?_, [], ?_, rfl⟩
  · intro q hq
    rcases List.mem_append.mp hq with hq | hq
    · exact h.fit q hq
    · rwa [List.mem_singleton.mp hq]
  · rw [hs, ht, List.append_assoc, hf, List.flatMap_append]
    simp

theorem withdraw (h : Outgoing payloads (some (p, frameOf p)) sent) : Outgoing payloads none sent := by
  obtain ⟨part, hs, -, -, hf⟩ := h.parts
  have hn : part = [] := List.append_left_eq_self.mp hf
  exact ⟨h.fit, part, hs, hn⟩

private theorem part_of_frame {current : Option (Bytes × Bytes)} (h : Outgoing payloads current sent) :
    ∃ part q left, sent = payloads.flatMap frameOf ++ part ∧ q.length ≤ Wire.maxPayload ∧ left ≠ [] ∧
      part ++ left = frameOf q := by
  obtain ⟨part, hs, hc⟩ := h.parts
  cases current with
  | none =>
    obtain rfl := hc
    exact ⟨[], [], frameOf [], hs, by decide, Wire.Frame.frameOf_ne_nil [], rfl⟩
  | some c => exact ⟨part, c.1, c.2, hs, hc⟩

/-- What is read of the stream are the payloads, and no more yet. -/
theorem payloads_eq {current : Option (Bytes × Bytes)} (h : Outgoing payloads current sent) :
    Wire.Frame.payloads sent = (payloads, .earlyEnd) := by
  obtain ⟨part, q, left, hs, hq, hl, hf⟩ := h.part_of_frame
  have hpart : [part].flatten ++ left = frameOf q := by simpa using hf
  have hread := Wire.Frame.read_eq_front [part]
  rw [Wire.Frame.read_of_part hq hl hpart, List.flatten_singleton] at hread
  rw [hs, Wire.Frame.payloads_frames h.fit, Wire.Frame.payloads_of_fault hread.symm, List.append_nil]

/-- They are read whatever is put on the stream behind them, -/
theorem payloads_survive {current : Option (Bytes × Bytes)} (h : Outgoing payloads current sent) (more : Bytes) :
    payloads <+: (Wire.Frame.payloads (sent ++ more)).1 := by
  obtain ⟨part, hs, -⟩ := h.parts
  rw [hs, List.append_assoc, Wire.Frame.payloads_frames h.fit]
  exact List.prefix_append _ _

/-- and next the frame that was cut, filled up with that. -/
theorem payload_of_cut (h : Outgoing payloads (some (p, rest)) sent) (hpart : rest.length ≤ p.length)
    {more : Bytes} (hmore : rest.length ≤ more.length) : (Wire.Frame.payloads (sent ++ more)).1[payloads.length]? =
      some (p.take (p.length - rest.length) ++ more.take rest.length) := by
  obtain ⟨part, hs, hp, -, hf⟩ := h.parts
  have hlen : part.length + rest.length = 4 + p.length := by
    rw [← List.length_append, hf, frameOf, List.length_append, Wire.Frame.length_lengthBytes]
  have hfront := Wire.Frame.front_of_cut hp hf (by omega) hmore
  rw [hs, List.append_assoc, Wire.Frame.payloads_frames h.fit, Wire.Frame.payloads_of_front hfront]
  simp

private theorem read_front {current : Option (Bytes × Bytes)} (h : Outgoing payloads current sent) {k moved : Nat}
    {stream : Wire.Frame.Arrivals}
    (hs : sent.take moved = (payloads.take k).flatMap frameOf ++ stream.flatten) :
    Wire.Frame.read stream = .error .earlyEnd ∨ ∃ q left, payloads[k]? = some q ∧
      Wire.Frame.read stream = .ok (q, left) ∧ stream.flatten = frameOf q ++ left.flatten := by
  obtain ⟨part, p, rest, hp, hfit, hr, hf⟩ := h.part_of_frame
  have hrest : stream.flatten ++ sent.drop moved = (payloads.drop k).flatMap frameOf ++ part := by
    have hk : (payloads.take k).flatMap frameOf ++ (payloads.drop k).flatMap frameOf =
        payloads.flatMap frameOf := by
      rw [← List.flatMap_append, List.take_append_drop]
    have hc : (payloads.take k).flatMap frameOf ++ (stream.flatten ++ sent.drop moved) =
        (payloads.take k).flatMap frameOf ++ ((payloads.drop k).flatMap frameOf ++ part) := by
      rw [← List.append_assoc, ← hs, List.take_append_drop, ← List.append_assoc, hk, hp]
    exact List.append_cancel_left hc
  rcases hd : payloads.drop k with _ | ⟨q, qs⟩
  · left
    rw [hd, List.flatMap_nil, List.nil_append] at hrest
    have hpart : stream.flatten ++ (sent.drop moved ++ rest) = frameOf p := by
      rw [← List.append_assoc, hrest, hf]
    exact Wire.Frame.read_of_part hfit (by simp [hr]) hpart
  · have hq : payloads[k]? = some q := by
      have hg : (payloads.drop k)[0]? = payloads[k]? := by rw [List.getElem?_drop, Nat.add_zero]
      rw [← hg, hd]
      rfl
    have hqfit := h.fit q (List.mem_of_getElem? hq)
    rw [hd, List.flatMap_cons, List.append_assoc] at hrest
    rcases List.append_eq_append_iff.mp hrest with ⟨left, hl, -⟩ | ⟨left, hl, -⟩
    · by_cases hn : left = []
      · have hw : stream.flatten = frameOf q ++ [] := by rw [hl, hn, List.append_nil, List.append_nil]
        obtain ⟨stream', hread, hflat⟩ := Wire.Frame.read_of_frame hqfit hw
        exact .inr ⟨q, stream', hq, hread, by rw [hflat, hw]⟩
      · exact .inl (Wire.Frame.read_of_part hqfit hn hl.symm)
    · obtain ⟨stream', hread, hflat⟩ := Wire.Frame.read_of_frame hqfit hl
      exact .inr ⟨q, stream', hq, hread, by rw [hflat, hl]⟩

end Outgoing

namespace Incoming

variable {payloads : List Bytes} {sent : Bytes} {moved taken : Nat} {inbox : Inbox}

theorem start : Incoming [] [] 0 0 .empty := ⟨rfl, by simp, by simp, rfl⟩

theorem grow (h : Incoming payloads sent moved taken inbox) (more : List Bytes) (bytes : Bytes) :
    Incoming (payloads ++ more) (sent ++ bytes) moved taken inbox := by
  refine ⟨h.lasts, ?_, ?_, ?_⟩
  · rw [List.length_append]
    exact Nat.le_add_right_of_le h.moved_le
  · rw [List.length_append]
    exact Nat.le_add_right_of_le h.taken_le
  · rw [List.take_append_of_le_length h.moved_le, List.take_append_of_le_length h.taken_le]
    exact h.bytes

theorem arrive (h : Incoming payloads sent moved taken inbox) (count : Nat) :
    Incoming payloads sent (moved + ((sent.drop moved).take count).length) taken
      (inbox.arrive ((sent.drop moved).take count)) := by
  have hi : inbox.arrive ((sent.drop moved).take count) =
      { inbox with arrived := inbox.arrived ++ [(sent.drop moved).take count] } := by
    rw [Inbox.arrive, h.lasts]
    rfl
  have hm := h.moved_le
  rw [hi]
  refine ⟨h.lasts, ?_, h.taken_le, ?_⟩
  · rw [List.length_take, List.length_drop]
    omega
  · have ht : (sent.drop moved).take ((sent.drop moved).take count).length = (sent.drop moved).take count := by
      rw [List.length_take, List.take_eq_take_iff]
      omega
    rw [List.take_add, h.bytes, List.append_assoc, ht, List.flatten_append]
    simp

/-- What is taken next is the payload that was put on next. -/
theorem next (h : Incoming payloads sent moved taken inbox) {current : Option (Bytes × Bytes)}
    (ho : Outgoing payloads current sent) : inbox.next = .nothing ∨
      ∃ q rest, inbox.next = .frame q rest ∧ payloads[taken]? = some q ∧
        Incoming payloads sent moved (taken + 1) rest := by
  rcases ho.read_front h.bytes with hr | ⟨q, left, hq, hr, hf⟩
  · left
    simp [Inbox.next, hr, h.lasts]
  · refine .inr ⟨q, { inbox with arrived := left }, by simp [Inbox.next, hr], hq, ?_⟩
    have hlt := (List.getElem?_eq_some_iff.mp hq).1
    refine ⟨h.lasts, h.moved_le, hlt, ?_⟩
    rw [h.bytes, hf, List.take_add_one, hq, List.flatMap_append]
    simp

theorem next_of_all (h : Incoming payloads sent moved taken inbox) {current : Option (Bytes × Bytes)}
    (ho : Outgoing payloads current sent) (hall : moved = sent.length) {p : Bytes} (hp : payloads[taken]? = some p) :
    inbox.next ≠ .nothing := by
  obtain ⟨part, hs, -⟩ := ho.parts
  have hsplit : payloads.flatMap frameOf =
      (payloads.take taken).flatMap frameOf ++ (frameOf p ++ (payloads.drop (taken + 1)).flatMap frameOf) := by
    obtain ⟨hlt, rfl⟩ := List.getElem?_eq_some_iff.mp hp
    rw [← List.flatMap_cons, ← List.drop_eq_getElem_cons hlt, ← List.flatMap_append, List.take_append_drop]
  have hbytes := h.bytes
  rw [hall, List.take_length, hs, hsplit, List.append_assoc, List.append_assoc] at hbytes
  have harrived := List.append_cancel_left hbytes
  obtain ⟨rest, hread, -⟩ := Wire.Frame.read_of_frame (ho.fit p (List.mem_of_getElem? hp)) harrived.symm
  simp [Inbox.next, hread]

theorem message {α ε : Type} {messages : List α} {encode : α → Bytes} {decode : Bytes → Except ε α}
    (hd : ∀ a, decode (encode a) = .ok a)
    (h : Incoming (messages.map encode) sent moved taken inbox) {current : Option (Bytes × Bytes)}
    (ho : Outgoing (messages.map encode) current sent) : inbox.next = .nothing ∨
      ∃ q rest a, inbox.next = .frame q rest ∧ decode q = .ok a ∧ messages[taken]? = some a ∧
        Incoming (messages.map encode) sent moved (taken + 1) rest := by
  rcases h.next ho with hn | ⟨q, rest, hn, hq, hi⟩
  · exact .inl hn
  · rw [List.getElem?_map] at hq
    obtain ⟨a, ha, rfl⟩ := Option.map_eq_some_iff.mp hq
    exact .inr ⟨encode a, rest, a, hn, hd a, ha, hi⟩

end Incoming

end SshAuthority.Connection

import SshAuthority.Proofs.Connection.ClientTurns
import SshAuthority.Proofs.Connection.Stream
/-!
# Whole frames

What a client has put on its stream are the frames of requests and the beginning of the one that is being
written, as long as nobody lets the writer go in the middle of a frame.
-/
namespace SshAuthority.Connection.Client
open Wire.Frame (frameOf)

/-- The request a call is writing, with what is left of its frame. -/
def frame? (s : Client) (i : Nat) : Option (Bytes × Bytes) :=
  (s.calls[i]?).bind fun c => match c.phase with
    | .writing rest => some (c.request.encode, rest)
    | _ => none

def holds (s : Client) (i : Nat) : Bool := (s.phase? i).any CallPhase.holdsWriter

/-- Whether an event takes the writer from a call of whose frame a part is on the stream, and a part is not. -/
def cuts (s : Client) : Event → Bool
  | .abandon i | .failWrite i _ => (s.frame? i).any fun (payload, rest) => rest != frameOf payload
  | _ => false

structure Framed (s : Client) : Prop where
  holder : ∀ i, s.holds i ↔ s.writer = some i
  out : Outgoing (s.written.map (·.encode)) (s.writer.bind s.frame?) s.sent

variable {s t next : Client} {e : Event} {i : Nat} {c d : ClientCall} {rest : Bytes} {count : Nat}

theorem frame?_of_writing (hc : s.calls[i]? = some c) (hp : c.phase = .writing rest) :
    s.frame? i = some (c.request.encode, rest) := by
  simp [frame?, hc, hp]

theorem frame?_of_not_writing (hc : s.calls[i]? = some c) (hp : ∀ rest, c.phase ≠ .writing rest) :
    s.frame? i = none := by
  rw [frame?, hc, Option.bind_some]
  cases hp' : c.phase with
  | writing rest => exact absurd hp' (hp rest)
  | _ => rfl

theorem holds_of_call (hc : s.calls[i]? = some c) : s.holds i = c.phase.holdsWriter := by
  simp [holds, phase?, hc]

theorem not_writing_of_not_holdsWriter (h : c.phase.holdsWriter = false) (rest : Bytes) :
    c.phase ≠ .writing rest := by
  intro hp
  rw [hp] at h
  cases h

private theorem frame?_congr {j : Nat} (h : (t.calls[j]?).map (fun c => (c.request, c.phase)) =
    (s.calls[j]?).map fun c => (c.request, c.phase)) : t.frame? j = s.frame? j ∧ t.holds j = s.holds j := by
  have hframe : ∀ u : Client, u.frame? j = ((u.calls[j]?).map fun c => (c.request, c.phase)).bind fun p =>
      match p.2 with
      | .writing rest => some (p.1.encode, rest)
      | _ => none := fun u => by rw [Option.bind_map]; rfl
  have hphase : ∀ u : Client, u.phase? j = ((u.calls[j]?).map fun c => (c.request, c.phase)).map (·.2) :=
    fun u => by rw [Option.map_map]; rfl
  exact ⟨by rw [hframe, hframe, h], by rw [holds, holds, hphase, hphase, h]⟩

private theorem make_kept (s : Client) (call : Wire.Call) (i : Nat) :
    (s.make call).frame? i = s.frame? i ∧ (s.make call).holds i = s.holds i := by
  rcases Nat.lt_trichotomy i s.calls.length with hi | hi | hi
  · exact frame?_congr (by rw [make, List.getElem?_append_left hi])
  · simp [frame?, holds, phase?, make, hi, CallPhase.holdsWriter]
  · have hs : s.calls[i]? = none := List.getElem?_eq_none (by omega)
    have ht : (s.make call).calls[i]? = none := List.getElem?_eq_none (by simp [make]; omega)
    exact frame?_congr (by rw [hs, ht])

private theorem deliver_kept (s : Client) (r : Wire.Response) (i : Nat) :
    (s.deliver r).frame? i = s.frame? i ∧ (s.deliver r).holds i = s.holds i := by
  apply frame?_congr
  rw [getElem?_deliver, Option.map_map]
  congr 1
  funext c
  rw [Function.comp_apply]
  split <;> rfl

namespace Framed

theorem start : Client.new.Framed :=
  ⟨by simp [Client.new, holds, phase?], Outgoing.start⟩

theorem of_eq (h : s.Framed) (hf : t.frame? = s.frame?) (hh : t.holds = s.holds) (hwriter : t.writer = s.writer)
    (hwritten : t.written = s.written) (hsent : t.sent = s.sent) : t.Framed := by
  refine ⟨fun i => ?_, ?_⟩
  · rw [hh, hwriter]
    exact h.holder i
  · rw [hf, hwriter, hwritten, hsent]
    exact h.out

private theorem turn (h : s.Framed) (hget : ∀ j : Nat, t.calls[j]? = if j = i then some d else s.calls[j]?)
    (hs : s.writer = none ∨ s.writer = some i) (ht : t.writer = none ∨ t.writer = some i)
    (hself : d.phase.holdsWriter ↔ t.writer = some i)
    (hout : Outgoing (t.written.map (·.encode)) (t.writer.bind t.frame?) t.sent) : t.Framed := by
  refine ⟨fun j => ?_, hout⟩
  by_cases hj : j = i
  · rw [hj, holds_of_call ((hget i).trans (if_pos rfl))]
    exact hself
  · have hh : t.holds j = s.holds j := by rw [holds, holds, phase?, phase?, hget, if_neg hj]
    have hsj : s.writer ≠ some j := by
      rcases hs with hs | hs <;> simp [hs, Ne.symm hj]
    have htj : t.writer ≠ some j := by
      rcases ht with ht | ht <;> simp [ht, Ne.symm hj]
    rw [hh, h.holder j]
    exact iff_of_false hsj htj

theorem writer_of_holdsWriter (h : s.Framed) (hc : s.calls[i]? = some c) (hp : c.phase.holdsWriter) :
    s.writer = some i :=
  (h.holder i).mp (by rw [holds_of_call hc, hp])

theorem writer_of_writing (h : s.Framed) (hc : s.calls[i]? = some c) (hp : c.phase = .writing rest) :
    s.writer = some i :=
  h.writer_of_holdsWriter hc (by rw [hp]; rfl)

theorem writer_ne (h : s.Framed) (hc : s.calls[i]? = some c) (hp : c.phase.holdsWriter = false) :
    s.writer ≠ some i := by
  intro hw
  have hi := (h.holder i).mpr hw
  rw [holds_of_call hc, hp] at hi
  cases hi

/-- The frame of the call that writes, as far as it is on the stream. -/
theorem writing (h : s.Framed) (hc : s.calls[i]? = some c) (hp : c.phase = .writing rest) :
    Outgoing (s.written.map (·.encode)) (some (c.request.encode, rest)) s.sent := by
  have hout := h.out
  rwa [h.writer_of_writing hc hp, Option.bind_some, frame?_of_writing hc hp] at hout

/-- Where no frame is cut, what the call that holds the writer leaves on the stream are whole frames. -/
theorem whole (h : s.Framed) (hc : s.calls[i]? = some c) (hp : c.phase.holdsWriter)
    (hcut : ((s.frame? i).any fun (payload, rest) => rest != frameOf payload) = false) :
    Outgoing (s.written.map (·.encode)) none s.sent := by
  have hout := h.out
  rw [h.writer_of_holdsWriter hc hp, Option.bind_some] at hout
  rcases hf : s.frame? i with _ | ⟨payload, rest⟩ <;> rw [hf] at hout hcut
  · exact hout
  · have hrest : rest = frameOf payload := by simpa using hcut
    subst hrest
    exact hout.withdraw

private theorem holdWriter (h : s.Framed) (hfree : s.writer = none) {frame : Bytes}
    (hfits : Wire.Frame.write c.request.encode = .ok frame)
    (hget : ∀ j : Nat, t.calls[j]? = if j = i then some d else s.calls[j]?) (hreq : d.request = c.request)
    (hp : d.phase = .writing frame) (hwriter : t.writer = some i) (hwritten : t.written = s.written)
    (hsent : t.sent = s.sent) : t.Framed := by
  obtain ⟨hle, rfl⟩ := Wire.Frame.write_eq_ok.mp hfits
  have hf := frame?_of_writing ((hget i).trans (if_pos rfl)) hp
  have hout := h.out
  rw [hfree] at hout
  apply h.turn hget (.inl hfree) (.inr hwriter) (by simp [hp, CallPhase.holdsWriter, hwriter])
  rw [hwriter, Option.bind_some, hf, hreq, hwritten, hsent]
  exact hout.begin hle

private theorem put (h : s.Framed) (hc : s.calls[i]? = some c) (hp : c.phase = .writing rest)
    (hmore : rest.drop count ≠ []) (hget : ∀ j : Nat, t.calls[j]? = if j = i then some d else s.calls[j]?)
    (hreq : d.request = c.request) (hq : d.phase = .writing (rest.drop count)) (hwriter : t.writer = s.writer)
    (hwritten : t.written = s.written) (hsent : t.sent = s.sent ++ rest.take count) : t.Framed := by
  have hw := h.writer_of_writing hc hp
  have hf := frame?_of_writing ((hget i).trans (if_pos rfl)) hq
  rw [hw] at hwriter
  apply h.turn hget (.inr hw) (.inr hwriter) (by simp [hq, CallPhase.holdsWriter, hwriter])
  rw [hwriter, Option.bind_some, hf, hreq, hwritten, hsent]
  exact (h.writing hc hp).put hmore

private theorem putLast (h : s.Framed) (hc : s.calls[i]? = some c) (hp : c.phase = .writing rest)
    (hlast : rest.drop count = []) (hget : ∀ j : Nat, t.calls[j]? = if j = i then some d else s.calls[j]?)
    (hq : d.phase = .flushing) (hwriter : t.writer = s.writer) (hwritten : t.written = s.written ++ [c.request])
    (hsent : t.sent = s.sent ++ rest.take count) : t.Framed := by
  have hw := h.writer_of_writing hc hp
  have hf := frame?_of_not_writing ((hget i).trans (if_pos rfl)) (by simp [hq])
  rw [hw] at hwriter
  apply h.turn hget (.inr hw) (.inr hwriter) (by simp [hq, CallPhase.holdsWriter, hwriter])
  rw [hwriter, Option.bind_some, hf, hwritten, hsent, List.map_append]
  exact (h.writing hc hp).putLast hlast

private theorem letGo (h : s.Framed) (hc : s.calls[i]? = some c) (hp : c.phase.holdsWriter)
    (hcut : ((s.frame? i).any fun (payload, rest) => rest != frameOf payload) = false)
    (hget : ∀ j : Nat, t.calls[j]? = if j = i then some d else s.calls[j]?) (hq : d.phase.holdsWriter = false)
    (hwriter : t.writer = none) (hwritten : t.written = s.written) (hsent : t.sent = s.sent) : t.Framed := by
  apply h.turn hget (.inr (h.writer_of_holdsWriter hc hp)) (.inl hwriter) (by simp [hq, hwriter])
  rw [hwriter, hwritten, hsent]
  exact h.whole hc hp hcut

private theorem idle (h : s.Framed) (hc : s.calls[i]? = some c) (hp : c.phase.holdsWriter = false)
    (hget : ∀ j : Nat, t.calls[j]? = if j = i then some d else s.calls[j]?) (hq : d.phase.holdsWriter = false)
    (hwriter : t.writer = s.writer) (hwritten : t.written = s.written) (hsent : t.sent = s.sent) : t.Framed := by
  have hd : t.calls[i]? = some d := (hget i).trans (if_pos rfl)
  apply h.of_eq _ _ hwriter hwritten hsent <;> funext j <;> by_cases hj : j = i
  · rw [hj, frame?_of_not_writing hc (not_writing_of_not_holdsWriter hp),
      frame?_of_not_writing hd (not_writing_of_not_holdsWriter hq)]
  · rw [frame?, frame?, hget, if_neg hj]
  · rw [hj, holds_of_call hd, holds_of_call hc, hp, hq]
  · rw [holds, holds, phase?, phase?, hget, if_neg hj]

private theorem deliver (h : s.Framed) (r : Wire.Response) : (s.deliver r).Framed := by
  apply h.of_eq (funext fun i => (deliver_kept s r i).1) (funext fun i => (deliver_kept s r i).2) <;>
    simp only [Client.deliver] <;> split <;> rfl

theorem of_moves (h : s.Framed) (hm : s.Moves e next) (hcut : s.cuts e = false) : next.Framed := by
  cases hm with
  | make call =>
    exact h.of_eq (funext fun i => (make_kept s call i).1) (funext fun i => (make_kept s call i).2) rfl rfl rfl
  | register hc hp => exact h.idle hc (by rw [hp]; rfl) (getElem?_modified hc _) rfl rfl rfl rfl
  | refuse hc hp _ => exact h.idle hc (by rw [hp]; rfl) (getElem?_modified hc _) rfl rfl rfl rfl
  | queue hc hp _ => exact h.idle hc (by rw [hp]; rfl) (getElem?_modified hc _) rfl rfl rfl rfl
  | tooLong hc hp _ _ => exact h.idle hc (by rw [hp]; rfl) (getElem?_modified hc _) rfl rfl rfl rfl
  | wake hc hp _ => exact h.idle hc (by rw [hp]; rfl) (getElem?_modified hc _) rfl rfl rfl rfl
  | giveUp hc hp _ _ => exact h.idle hc (by rw [hp]; rfl) (getElem?_modified hc _) rfl rfl rfl rfl
  | holdWriter hc hp hfree hfits =>
    exact h.holdWriter hfree hfits (getElem?_modified hc _) rfl rfl rfl rfl rfl
  | put hc hp hmore => exact h.put hc hp hmore (getElem?_modified hc _) rfl rfl rfl rfl rfl
  | putLast hc hp hlast => exact h.putLast hc hp hlast (getElem?_modified hc _) rfl rfl rfl rfl
  | flush hc hp =>
    have hf := frame?_of_not_writing hc (by simp [hp])
    exact h.letGo hc (by rw [hp]; rfl) (by rw [hf]; rfl) (getElem?_modified hc _) rfl rfl rfl rfl
  | failWrite hc hp =>
    rw [releaseWriter, if_pos (h.writer_of_holdsWriter hc hp)]
    exact h.letGo hc hp hcut (getElem?_modified hc _) rfl rfl rfl rfl
  | @abandon i c hc _ =>
    cases hp : c.phase.holdsWriter with
    | true =>
      rw [releaseWriter, if_pos (h.writer_of_holdsWriter hc hp)]
      exact h.letGo hc hp hcut (getElem?_modified hc _) rfl rfl rfl rfl
    | false =>
      rw [releaseWriter, if_neg (h.writer_ne hc hp)]
      exact h.idle hc hp (getElem?_modified hc _) rfl rfl rfl rfl
  | @read payload inbox r _ _ _ => exact (h.of_eq rfl rfl rfl rfl rfl : ({ s with inbox } : Client).Framed).deliver r
  | arrive | closeInput | misread | stop | markClosed | dropSlots => exact h.of_eq rfl rfl rfl rfl rfl

end Framed

end SshAuthority.Connection.Client
